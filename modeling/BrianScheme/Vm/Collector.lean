import BrianScheme.Vm.Args
import BrianScheme.Vm.Roots

/-! The operations `vm_execute` is made of, read as steps of a program on the collector
(`Vm.machine`). Each keeps the safety invariant of `Gc/Safety` when what it stores, pins or
keeps in a native variable it could reach before, and allocates only with fields reachable from
Roots. `fn`, `env` and `top` stay pinned, and the caller's entries of Roots keep the stack vector
and the objects `vm.c` uses by name (`Vm.Pins`). Functions of other files are held to the same
contract (`SafeCall`). -/

namespace BrianScheme

section Reach

variable {m m' : Machine} {free old : List Nat}

theorem SafeInv.lt_of_held (inv : SafeInv m free old) {a : Nat}
    (reach : Reachable m.gc.payloads m.Held a) : a < m.gc.poolSize :=
  reach.closed (fun t held => held.elim (inv.roots t) fun ⟨_, same⟩ => inv.returnedInPool t same)
    fun a b lt child => inv.bounded.children a lt b child

theorem SafeInv.of_reach (inv : SafeInv m free old) (machine : MachineInv m' free old)
    (written : m'.fresh = none) (pool : m.gc.poolSize ≤ m'.gc.poolSize)
    (held : ∀ a, Reachable m'.gc.payloads m'.Held a → Reachable m.gc.payloads m.Held a) :
    SafeInv m' free old where
  toMachineInv := machine
  returnedInPool x same := (inv.lt_of_held (held x (.target (.inr ⟨written, same⟩)))).trans_le pool
  fresh x same := absurd (written.symm.trans same) (by simp)
  held a reach := inv.held a (held a reach)

end Reach

section Holds

variable {v v' : Vm} {ret ret' : Option Nat}

/-- `a` is reachable from what `vm_execute` holds: the targets of Roots, and the cell `ret` a
native variable keeps. -/
def Vm.Holds (v : Vm) (ret : Option Nat) (a : Nat) : Prop :=
  Reachable v.gc.payloads (v.machine ret).Held a

theorem Vm.Reached.holds {a : Nat} (reach : v.Reached a) : v.Holds ret a :=
  reach.of_targets fun _ root => .target (.inl root)

theorem Vm.holds_ret (v : Vm) (a : Nat) : v.Holds (some a) a := .target (.inr ⟨rfl, rfl⟩)

theorem Vm.Safe.reassign (safe : v.Safe ret)
    (gc : v'.gc = { v.gc with rootObjects := v'.gc.rootObjects })
    (targets : ∀ t, (v'.machine ret').Held t → v.Holds ret t) : v'.Safe ret' := by
  obtain ⟨free, old, inv⟩ := safe
  have payloads : v'.gc.payloads = v.gc.payloads := by rw [gc]; rfl
  have pool : v'.gc.poolSize = v.gc.poolSize := by rw [gc]
  have held : ∀ {a}, Reachable v'.gc.payloads (v'.machine ret').Held a → v.Holds ret a :=
    fun reach => (payloads ▸ reach).closed targets fun _ _ held child => held.child child
  refine ⟨free, old, inv.of_reach ⟨?_, fun a root => ?_⟩ rfl pool.ge fun a reach => held reach⟩
  · show HeapInv v'.gc free old
    rw [gc]
    exact inv.heap.setRoots _
  · exact (inv.lt_of_held (held (.target (.inl root)))).trans_eq pool.symm

theorem Vm.Safe.rewrite (safe : v.Safe ret) {obj : Nat} {p : Payload}
    (gc : v'.gc = { v.gc with cells := setPayload v.gc.cells obj p }) (target : v.Holds ret obj)
    (fields : ∀ b ∈ p.children, v.Holds ret b)
    (targets : ∀ t, (v'.machine ret').Held t → v.Holds ret t) : v'.Safe ret' := by
  obtain ⟨free, old, inv⟩ := safe
  have held : ∀ {a}, Reachable v'.gc.payloads (v'.machine ret').Held a → v.Holds ret a := by
    intro a reach
    rw [show v'.gc.payloads = fun c => (setPayload v.gc.cells obj p c).payload by rw [gc]; rfl]
      at reach
    exact Reachable.of_setPayload _ targets (fun _ _ held _ child => held.child child) fields reach
  refine ⟨free, old, inv.of_reach ⟨?_, fun a root => ?_⟩ rfl (by simp [Vm.machine, gc])
    fun a reach => held reach⟩
  · rw [show (v'.machine ret').gc = _ from gc]
    exact inv.heap.write (inv.lt_of_held target) fun b mem => inv.lt_of_held (fields b mem)
  · rw [show (v'.machine ret').gc.poolSize = v.gc.poolSize by simp [Vm.machine, gc]]
    exact inv.lt_of_held (held (.target (.inl root)))

theorem Vm.Safe.release (safe : v.Safe ret) : v.Safe none :=
  safe.reassign rfl fun _ held => held.elim (fun root => .target (.inl root)) fun ⟨_, same⟩ => nomatch same

theorem Vm.held_assign (v : Vm) (l : VmLocal) (a : Nat) {t : Nat}
    (held : (({ v with locals := Function.update v.locals l a } : Vm).machine ret').Held t) :
    (v.machine ret').Held t ∨ t = a := by
  rcases held with ⟨r, mem, found⟩ | returned
  · replace found : ({ v with locals := Function.update v.locals l a } : Vm).store r = some t := found
    rw [Vm.store_update] at found
    by_cases same : r = v.addr l
    · subst same
      exact .inr (Option.some.inj (by simpa using found)).symm
    · exact .inl (.inl ⟨r, mem, by simpa [same] using found⟩)
  · exact .inl (.inr returned)

theorem Vm.Safe.assign (safe : v.Safe ret) (l : VmLocal) {a : Nat} (held : v.Holds ret a) :
    ({ v with locals := Function.update v.locals l a } : Vm).Safe ret :=
  safe.reassign rfl fun _ hold =>
    (v.held_assign l a hold).elim (fun old => .target old) fun same => same ▸ held

theorem Vm.Safe.retarget (safe : v.Safe ret) {a : Nat} (held : v.Holds ret a) : v.Safe (some a) :=
  safe.reassign rfl fun _ hold =>
    hold.elim (fun root => .target (.inl root)) fun ⟨_, same⟩ => Option.some.inj same ▸ held

theorem Vm.mem_pushRoot {r : Nat} (l : VmLocal) :
    r ∈ ({ v with gc := pushRoot v.gc (v.addr l) } : Vm).gc.rootObjects.contents ↔
      r ∈ v.gc.rootObjects.contents ∨ r = v.addr l := by
  show r ∈ (stackSetPush v.gc.rootObjects (v.addr l)).contents ↔ _
  rw [contents_stackSetPush, List.mem_append, List.mem_singleton]

theorem Vm.reached_pushed (v : Vm) (l : VmLocal) :
    ({ v with gc := pushRoot v.gc (v.addr l) } : Vm).Reached (v.locals l) :=
  .target ⟨_, (Vm.mem_pushRoot l).mpr (.inr rfl), v.store_addr l⟩

theorem Vm.Safe.pushRoot (safe : v.Safe ret) (l : VmLocal) (held : v.Holds ret (v.locals l)) :
    ({ v with gc := pushRoot v.gc (v.addr l) } : Vm).Safe ret := by
  refine safe.reassign rfl fun t hold => ?_
  rcases hold with ⟨r, mem, found⟩ | returned
  · rcases (Vm.mem_pushRoot l).mp mem with old | rfl
    · exact .target (.inl ⟨r, old, found⟩)
    · exact Option.some.inj (found.symm.trans (v.store_addr l)) ▸ held
  · exact .target (.inr returned)

end Holds

section Reads

variable {cells : Cells} {o a : Nat}

theorem car_mem (read : car cells o = .ok a) : a ∈ (cells o).payload.children := by
  obtain ⟨d, pair⟩ := car_ok read
  rw [pair]
  exact List.mem_cons_self a [d]

theorem cdr_mem (read : cdr cells o = .ok a) : a ∈ (cells o).payload.children := by
  obtain ⟨d, pair⟩ := cdr_ok read
  rw [pair]
  exact List.mem_cons_of_mem d (List.mem_singleton_self a)

theorem cenv_mem (read : cenv cells o = .ok a) : a ∈ (cells o).payload.children := by
  unfold cenv at read
  split at read <;> cases read <;> simp_all [Payload.children]

theorem bytecode_mem (read : bytecode cells o = .ok a) : a ∈ (cells o).payload.children := by
  unfold bytecode at read
  split at read <;> cases read <;> simp_all [Payload.children]

theorem vectorRef_mem {idx : Int} (read : vectorRef cells o idx = .ok a) :
    a ∈ (cells o).payload.children := by
  obtain ⟨es, vector, -, found⟩ := vectorRef_ok read
  rw [vector]
  exact List.getElem?_mem found

theorem car_congr {cells' : Cells} (same : (cells' o).payload = (cells o).payload) :
    car cells' o = car cells o := by
  simp only [car, same]

theorem bytecode_congr {cells' : Cells} (same : (cells' o).payload = (cells o).payload) :
    bytecode cells' o = bytecode cells o := by
  simp only [bytecode, same]

theorem isCompiled_of_bytecode (read : bytecode cells o = .ok a) : isCompiled cells o = true := by
  unfold bytecode at read
  unfold isCompiled
  split at read <;> simp_all

variable {s : GcState} {targets : Nat → Prop}

theorem Reachable.nthFrame : ∀ {n o : Nat}, Reachable s.payloads targets o →
    BrianScheme.nthFrame s.cells n o = .ok a → Reachable s.payloads targets a
  | 0, _, reach, read => by
    simp only [BrianScheme.nthFrame] at read
    cases read
    exact reach
  | n + 1, _, reach, read => by
    obtain ⟨d, next, rest⟩ := except_bind_eq_ok.mp read
    exact Reachable.nthFrame (reach.child (cdr_mem next)) rest

theorem Reachable.arg1 (reach : Reachable s.payloads targets o) (read : arg1 s.cells o = .ok a) :
    Reachable s.payloads targets a := by
  obtain ⟨d, next, first⟩ := except_bind_eq_ok.mp read
  exact (reach.child (cdr_mem next)).child (car_mem first)

theorem Reachable.unwrapMeta (reach : Reachable s.payloads targets o) :
    Reachable s.payloads targets (BrianScheme.unwrapMeta s.cells o) := by
  unfold BrianScheme.unwrapMeta
  split
  · rename_i proc data meta
    exact reach.child (by simp [GcState.payloads, meta, Payload.children])
  · exact reach

end Reads

section Pins

variable {g : Globals} {v v' : Vm} {ret : Option Nat}

/-- `a` is `*r` for an entry `r` of Roots that is none of `vm_execute`'s variables: a caller's
entry, which nothing `vm_execute` assigns changes. -/
def Vm.Outer (v : Vm) (a : Nat) : Prop :=
  ∃ r ∈ v.gc.rootObjects.contents, (∀ l, r ≠ v.addr l) ∧ v.outer r = some a

theorem Vm.store_outer (v : Vm) {r : Nat} (other : ∀ l, r ≠ v.addr l) : v.store r = v.outer r := by
  unfold Vm.store
  split
  · rename_i l found
    split_ifs at found with above
    exact absurd (by rw [Vm.addr, VmLocal.index_ofIndex? found, Nat.add_sub_cancel' above]) (other l)
  · rfl

theorem Vm.Outer.reached {a : Nat} (held : v.Outer a) : v.Reached a :=
  let ⟨r, mem, other, found⟩ := held
  .target ⟨r, mem, (v.store_outer other).trans found⟩

theorem Vm.Outer.of_roots {a : Nat} (held : v.Outer a) (base : v'.base = v.base)
    (outer : v'.outer = v.outer)
    (roots : ∀ r ∈ v.gc.rootObjects.contents, r ∈ v'.gc.rootObjects.contents) : v'.Outer a :=
  let ⟨r, mem, other, found⟩ := held
  ⟨r, roots r mem, fun l => by simpa only [Vm.addr, base] using other l, outer ▸ found⟩

theorem Vm.Outer.assign {a : Nat} (held : v.Outer a) (l : VmLocal) (b : Nat) :
    ({ v with locals := Function.update v.locals l b } : Vm).Outer a := held

theorem Vm.reached_local {l : VmLocal} (mem : v.addr l ∈ v.gc.rootObjects.contents) :
    v.Reached (v.locals l) :=
  .target ⟨_, mem, v.store_addr l⟩

/-- `l` is an entry of Roots and holds `a`: what `push_root(&l)` gives while `l` is not
assigned. -/
def Vm.Pinned (v : Vm) (l : VmLocal) (a : Nat) : Prop :=
  v.addr l ∈ v.gc.rootObjects.contents ∧ v.locals l = a

theorem Vm.Pinned.reached {l : VmLocal} {a : Nat} (pinned : v.Pinned l a) : v.Reached a :=
  pinned.2 ▸ Vm.reached_local pinned.1

theorem Vm.Reached.field {a b : Nat} {p : Payload} (reach : v.Reached a)
    (payload : (v.gc.cells a).payload = p) (mem : b ∈ p.children) : v.Reached b :=
  reach.child (show b ∈ (v.gc.cells a).payload.children from payload ▸ mem)

theorem Vm.addr_inj {l l' : VmLocal} (same : v.addr l = v.addr l') : l = l' := by
  have index : l.index = l'.index := by simpa [Vm.addr] using same
  have found := VmLocal.ofIndex?_index l
  rw [index, VmLocal.ofIndex?_index] at found
  exact (Option.some.inj found).symm

theorem Vm.store_congr (outer : v'.outer = v.outer) (base : v'.base = v.base)
    (locals : v'.locals = v.locals) : v'.store = v.store := by
  funext r
  simp only [Vm.store, outer, base, locals]

/-- What `vm_execute` relies on Roots for while it runs: `&fn`, `&env` and `&top` are entries,
and its caller's entries hold the stack vector and the objects `vm.c` uses by name. -/
structure Vm.Pins (g : Globals) (v : Vm) : Prop where
  fn : v.addr .fn ∈ v.gc.rootObjects.contents
  env : v.addr .env ∈ v.gc.rootObjects.contents
  top : v.addr .top ∈ v.gc.rootObjects.contents
  stack : v.Outer v.stack
  empty : v.Outer g.theEmptyList
  error : v.Outer g.errorSym
  cc : v.Outer g.ccBytecode

theorem Vm.Pins.of_roots (pins : v.Pins g) (base : v'.base = v.base) (outer : v'.outer = v.outer)
    (stack : v'.stack = v.stack)
    (kept : ∀ r ∈ v.gc.rootObjects.contents, ((∀ l, r ≠ v.addr l) ∨ r = v.addr .fn ∨
      r = v.addr .env ∨ r = v.addr .top) → r ∈ v'.gc.rootObjects.contents) : v'.Pins g := by
  have addr : v'.addr = v.addr := by funext l; simp [Vm.addr, base]
  have outer' : ∀ {a}, v.Outer a → v'.Outer a := fun ⟨r, mem, other, found⟩ =>
    ⟨r, kept r mem (.inl other), addr ▸ other, outer ▸ found⟩
  exact ⟨addr ▸ kept _ pins.fn (.inr (.inl rfl)), addr ▸ kept _ pins.env (.inr (.inr (.inl rfl))),
    addr ▸ kept _ pins.top (.inr (.inr (.inr rfl))), stack ▸ outer' pins.stack, outer' pins.empty,
    outer' pins.error, outer' pins.cc⟩

/-- The collector's safety invariant along `vm_execute`, with its pins. -/
structure Vm.Sound (g : Globals) (v : Vm) (ret : Option Nat) : Prop where
  safe : v.Safe ret
  pins : v.Pins g

/-- `code_array` is `BYTECODE(fn)`, as `vm_fn_begin` loaded it. -/
def Vm.Loaded (v : Vm) : Prop := bytecode v.gc.cells (v.locals .fn) = .ok v.codeArray

/-- `a` is reachable from `fn`'s cell: its code and the instructions in it. -/
def Vm.FromFn (v : Vm) (a : Nat) : Prop := Reachable v.gc.payloads (· = v.locals .fn) a

theorem Vm.Pins.reached {a : Nat} (pins : v.Pins g) (fromFn : v.FromFn a) : v.Reached a :=
  Reachable.of_targets (fun _ same => same ▸ v.reached_local pins.fn) fromFn

theorem Vm.Loaded.fromFn {instr : Nat} (loaded : v.Loaded)
    (read : vectorRef v.gc.cells v.codeArray v.pc = .ok instr) : v.FromFn instr :=
  have fn : v.FromFn (v.locals .fn) := .target rfl
  have code : v.FromFn v.codeArray := Reachable.child fn (bytecode_mem loaded)
  Reachable.child code (vectorRef_mem read)

theorem Vm.Loaded.stored {obj : Nat} (loaded : v.Loaded)
    (notCode : isCompiled v.gc.cells obj = false) (p : Payload) :
    bytecode (BrianScheme.setPayload v.gc.cells obj p) (v.locals .fn) = .ok v.codeArray := by
  have other : v.locals .fn ≠ obj := fun same => by
    rw [← same, isCompiled_of_bytecode loaded] at notCode
    cases notCode
  exact (bytecode_congr (by simp [other])).trans loaded

end Pins

section Steps

/-! Each operation of `State`, as a step from a sound state: what it needs of the values it
stores, and what it leaves. -/

variable {g : Globals} {v v' : Vm} {ret : Option Nat} {a : Nat}

theorem Vm.Sound.congr (sound : v.Sound g ret) (gc : v'.gc = v.gc) (outer : v'.outer = v.outer)
    (base : v'.base = v.base) (locals : v'.locals = v.locals) (stack : v'.stack = v.stack) :
    v'.Sound g ret := by
  have machine : v'.machine ret = v.machine ret := by
    simp only [Vm.machine, gc, Vm.store_congr outer base locals]
  refine ⟨?_, sound.pins.of_roots base outer stack fun r mem _ => by rw [gc]; exact mem⟩
  unfold Vm.Safe
  rw [machine]
  exact sound.safe

theorem Vm.Sound.holds_local (sound : v.Sound g ret) {l : VmLocal}
    (pinned : l = .fn ∨ l = .env ∨ l = .top) (value : v.locals l = a) : v.Holds ret a := by
  subst value
  rcases pinned with rfl | rfl | rfl
  · exact (v.reached_local sound.pins.fn).holds
  · exact (v.reached_local sound.pins.env).holds
  · exact (v.reached_local sound.pins.top).holds

theorem Vm.Sound.assign (sound : v.Sound g ret) (l : VmLocal) (held : v.Holds ret a) :
    ({ v with locals := Function.update v.locals l a } : Vm).Sound g ret :=
  ⟨sound.safe.assign l held, sound.pins.of_roots rfl rfl rfl fun _ mem _ => mem⟩

theorem Vm.Sound.retarget (sound : v.Sound g ret) (held : v.Holds ret a) : v.Sound g (some a) :=
  ⟨sound.safe.retarget held, sound.pins⟩

theorem Vm.Sound.pushRoot (sound : v.Sound g ret) (l : VmLocal) (held : v.Holds ret (v.locals l)) :
    ({ v with gc := pushRoot v.gc (v.addr l) } : Vm).Sound g ret :=
  ⟨sound.safe.pushRoot l held, sound.pins.of_roots rfl rfl rfl fun _ mem _ => (Vm.mem_pushRoot l).mpr (.inl mem)⟩

theorem Vm.Loaded.assign (loaded : v.Loaded) {l : VmLocal} (other : l ≠ .fn) (a : Nat) :
    ({ v with locals := Function.update v.locals l a } : Vm).Loaded := by
  show bytecode v.gc.cells (Function.update v.locals l a .fn) = .ok v.codeArray
  rw [Function.update_noteq other.symm]
  exact loaded

theorem Vm.FromFn.assign {b : Nat} (fromFn : v.FromFn b) {l : VmLocal} (other : l ≠ .fn) (a : Nat) :
    ({ v with locals := Function.update v.locals l a } : Vm).FromFn b := by
  show Reachable v.gc.payloads (· = Function.update v.locals l a .fn) b
  rw [Function.update_noteq other.symm]
  exact fromFn

theorem popRoot_keeps {s s' : GcState} {root r : Nat} (popped : popRoot s root = some (.ok s'))
    (mem : r ∈ s.rootObjects.contents) (other : r ≠ root) : r ∈ s'.rootObjects.contents := by
  rcases popRoot_spec s root with ⟨-, empty⟩ | ⟨-, roots, contents, result⟩
  · simp [empty] at popped
  · rw [popped] at result
    split at result
    · rename_i found
      obtain rfl : s' = { s with rootObjects := roots } := by simpa using result
      show r ∈ roots.contents
      rw [contents]
      unfold popList at found ⊢
      split_ifs at found ⊢
      simpa [eraseLast, List.mem_erase_of_ne other] using mem
    · simp at result

theorem popRootOf_run {l : VmLocal} {u : Unit} (run : (popRootOf l).run v = .ok (u, v')) :
    ∃ gc slow, popRoot v.gc (v.addr l) = some (.ok gc) ∧ v' = { v with gc := gc, slowPops := slow } := by
  simp only [popRootOf, StateT.run] at run
  split at run
  · rename_i gc popped
    cases run
    exact ⟨gc, _, popped, rfl⟩
  · cases run
  · cases run

theorem Vm.Safe.popRoot {l : VmLocal} {u : Unit} (safe : v.Safe ret)
    (run : (popRootOf l).run v = .ok (u, v')) : v'.Safe ret := by
  obtain ⟨gc, slow, popped, rfl⟩ := popRootOf_run run
  obtain ⟨shape, kept⟩ := popRoot_ok popped
  exact safe.reassign shape fun _ hold => hold.elim
    (fun ⟨r, mem, found⟩ => .target (.inl ⟨r, kept r mem, found⟩)) fun returned => .target (.inr returned)

theorem Vm.Loaded.popRoot {l : VmLocal} {u : Unit} (loaded : v.Loaded)
    (run : (popRootOf l).run v = .ok (u, v')) : v'.Loaded := by
  obtain ⟨gc, slow, popped, rfl⟩ := popRootOf_run run
  obtain ⟨shape, -⟩ := popRoot_ok popped
  show bytecode gc.cells _ = _
  rw [shape]
  exact loaded

theorem Vm.Sound.popRoot {l : VmLocal} {u : Unit} (sound : v.Sound g ret)
    (kept : l ≠ .fn ∧ l ≠ .env ∧ l ≠ .top) (run : (popRootOf l).run v = .ok (u, v')) :
    v'.Sound g ret := by
  refine ⟨sound.safe.popRoot run, ?_⟩
  obtain ⟨gc, slow, popped, rfl⟩ := popRootOf_run run
  refine sound.pins.of_roots rfl rfl rfl fun r mem which => popRoot_keeps popped mem fun same => ?_
  rcases which with outside | same' | same' | same'
  · exact outside l same
  · exact kept.1 (Vm.addr_inj (same.symm.trans same'))
  · exact kept.2.1 (Vm.addr_inj (same.symm.trans same'))
  · exact kept.2.2 (Vm.addr_inj (same.symm.trans same'))

theorem Vm.pinned_pushed (v : Vm) (l : VmLocal) :
    ({ v with gc := pushRoot v.gc (v.addr l) } : Vm).Pinned l (v.locals l) :=
  ⟨(Vm.mem_pushRoot l).mpr (.inr rfl), rfl⟩

theorem Vm.Pinned.pushRoot {l : VmLocal} (pinned : v.Pinned l a) (l' : VmLocal) :
    ({ v with gc := pushRoot v.gc (v.addr l') } : Vm).Pinned l a :=
  ⟨(Vm.mem_pushRoot l').mpr (.inl pinned.1), pinned.2⟩

theorem Vm.Pinned.assign {l l' : VmLocal} (pinned : v.Pinned l a) (other : l ≠ l') (b : Nat) :
    ({ v with locals := Function.update v.locals l' b } : Vm).Pinned l a :=
  ⟨pinned.1, (Function.update_noteq other _ _).trans pinned.2⟩

theorem Vm.Pinned.writeCell {l : VmLocal} (pinned : v.Pinned l a) (o : Nat) (p : Payload) :
    (v.writeCell o p).Pinned l a :=
  pinned

theorem Vm.Pinned.popRoot {l l' : VmLocal} {u : Unit} (pinned : v.Pinned l a) (other : l ≠ l')
    (run : (popRootOf l').run v = .ok (u, v')) : v'.Pinned l a := by
  obtain ⟨gc, slow, popped, rfl⟩ := popRootOf_run run
  exact ⟨popRoot_keeps popped pinned.1 fun same => other (Vm.addr_inj same), pinned.2⟩

theorem Vm.Sound.construct (sound : v.Sound g ret) {payload : Payload} {nf : Bool}
    (children : ∀ b ∈ payload.children, v.Reached b)
    (run : (construct payload nf).run v = .ok (a, v')) :
    v'.Sound g (some a) ∧ (v.Loaded → v'.Loaded) ∧ v'.locals = v.locals ∧
      (∀ l b, v.Pinned l b → v'.Pinned l b) ∧
      ∀ b, v.Reached b → v'.Reached b ∧ (v'.gc.cells b).payload = (v.gc.cells b).payload := by
  obtain ⟨x, gc, run', unreached, roots, kept, safe⟩ := sound.safe.construct payload nf children
  rw [run'] at run
  obtain ⟨same, rfl⟩ := Prod.mk.inj (Except.ok.inj run)
  subst same
  have cell : ∀ b, v.Reached b → (setPayload gc.cells x payload b).payload = (v.gc.cells b).payload :=
    fun b reach => by
      rw [setPayload_payload, if_neg fun (same : b = x) => unreached (same ▸ reach)]
      exact kept b reach
  refine ⟨⟨safe, sound.pins.of_roots rfl rfl rfl fun r mem _ => by rw [← roots] at mem; exact mem⟩,
    fun loaded => (bytecode_congr (cell _ (v.reached_local sound.pins.fn))).trans loaded, rfl,
    fun _ _ pinned => ⟨show _ ∈ gc.rootObjects.contents by rw [roots]; exact pinned.1, pinned.2⟩,
    fun b reach => ⟨?_, cell b reach⟩⟩
  show Reachable _ (RootTarget v.store gc.rootObjects) b
  rw [roots]
  exact reach.congr_payloads fun c r => cell c r

theorem Vm.FromFn.kept {b : Nat} (pins : v.Pins g) (fromFn : v.FromFn b)
    (kept : ∀ c, v.Reached c → (v'.gc.cells c).payload = (v.gc.cells c).payload)
    (locals : v'.locals = v.locals) : v'.FromFn b := by
  show Reachable v'.gc.payloads (· = v'.locals .fn) b
  rw [locals]
  exact fromFn.congr_payloads fun c reach => kept c (pins.reached reach)

/-- `make_vector(the_empty_list, size)`: a constructor whose fields are all the empty list. -/
theorem Vm.Sound.makeVector (sound : v.Sound g ret) {size : Int}
    (run : (makeVector g.theEmptyList size).run v = .ok (a, v')) :
    v'.Sound g (some a) ∧ (v.Loaded → v'.Loaded) ∧ v'.locals = v.locals ∧
      (∀ l b, v.Pinned l b → v'.Pinned l b) ∧
      ∀ b, v.Reached b → v'.Reached b ∧ (v'.gc.cells b).payload = (v.gc.cells b).payload := by
  unfold BrianScheme.makeVector at run
  split at run
  · refine sound.construct (fun b mem => ?_) run
    exact List.eq_of_mem_replicate mem ▸ sound.pins.empty.reached
  · cases run

theorem Vm.Safe.constructed (safe : v.Safe ret) {payload : Payload} {nf : Bool}
    (children : ∀ b ∈ payload.children, v.Reached b)
    (run : (BrianScheme.construct payload nf).run v = .ok (a, v')) :
    (∃ gc, v' = { v with gc := gc, written := a :: v.written }) ∧
      (v'.gc.cells a).payload = payload ∧ ¬v.Reached a := by
  obtain ⟨x, gc, run', unreached, -⟩ := safe.construct payload nf children
  rw [run'] at run
  obtain ⟨same, rfl⟩ := Prod.mk.inj (Except.ok.inj run)
  subst same
  exact ⟨⟨_, rfl⟩, by simp only [setPayload_payload, if_true], unreached⟩

theorem Vm.Sound.madeVector (sound : v.Sound g ret) {size : Int}
    (run : (BrianScheme.makeVector g.theEmptyList size).run v = .ok (a, v')) :
    (∃ gc, v' = { v with gc := gc, written := a :: v.written }) ∧
      (v'.gc.cells a).payload = .vector (List.replicate size.toNat g.theEmptyList) ∧ ¬v.Reached a := by
  unfold BrianScheme.makeVector at run
  split at run
  · refine sound.safe.constructed (fun b mem => ?_) run
    exact List.eq_of_mem_replicate mem ▸ sound.pins.empty.reached
  · cases run

theorem Vm.Sound.write (sound : v.Sound g ret) {obj : Nat} {p : Payload} (target : v.Holds ret obj)
    (fields : ∀ b ∈ p.children, v.Holds ret b) : (v.writeCell obj p).Sound g ret :=
  ⟨sound.safe.rewrite rfl target fields fun _ hold => .target hold,
    sound.pins.of_roots rfl rfl rfl fun _ mem _ => mem⟩

/-- A store into a field of a pair or a slot of a vector: the cell is no procedure, and what it
holds afterwards it held before, or is `value`. -/
def StoresField (write : Cells → Nat → Except VmFault Cells) (value : Nat) : Prop :=
  ∀ cells obj cells', write cells obj = .ok cells' → ∃ p, cells' = setPayload cells obj p ∧
    isCompiled cells obj = false ∧ ∀ b ∈ p.children, b ∈ (cells obj).payload.children ∨ b = value

theorem vectorSet_storesField (idx : Int) (value : Nat) :
    StoresField (vectorSet · · idx value) value := by
  intro cells obj cells' written
  obtain ⟨elements, vector, -, -, rfl⟩ := vectorSet_ok written
  refine ⟨_, rfl, by simp only [isCompiled, vector], fun b mem => ?_⟩
  rw [vector]
  exact List.mem_or_eq_of_mem_set mem

theorem setCar_storesField (value : Nat) : StoresField (setCar · · value) value := by
  intro cells obj cells' written
  dsimp only [setCar] at written
  split at written
  · rename_i a d pair
    cases written
    refine ⟨_, rfl, by simp only [isCompiled, pair], fun b mem => ?_⟩
    rw [pair]
    simp only [Payload.children, List.mem_cons, List.mem_singleton, List.not_mem_nil,
      or_false] at mem ⊢
    tauto
  · cases written

theorem setCdr_storesField (value : Nat) : StoresField (setCdr · · value) value := by
  intro cells obj cells' written
  dsimp only [setCdr] at written
  split at written
  · rename_i a d pair
    cases written
    refine ⟨_, rfl, by simp only [isCompiled, pair], fun b mem => ?_⟩
    rw [pair]
    simp only [Payload.children, List.mem_cons, List.mem_singleton, List.not_mem_nil,
      or_false] at mem ⊢
    tauto
  · cases written

theorem Vm.Sound.store {write : Cells → Nat → Except VmFault Cells} {obj value : Nat} {u : Unit}
    (sound : v.Sound g ret) (stores : StoresField write value) (target : v.Holds ret obj)
    (held : v.Holds ret value) (run : (toHeap obj write).run v = .ok (u, v')) :
    v'.Sound g ret ∧ (v.Loaded → v'.Loaded) ∧ ∃ p, write v.gc.cells obj = .ok (setPayload v.gc.cells obj p) ∧
      v' = v.writeCell obj p := by
  obtain ⟨cells', written, done⟩ := except_bind_eq_ok.mp run
  cases done
  obtain ⟨p, rfl, notCode, fields⟩ := stores _ _ _ written
  exact ⟨sound.write target fun b mem => (fields b mem).elim (fun old => target.child old)
      fun same => same ▸ held,
    fun loaded => loaded.stored notCode p, p, written, rfl⟩

theorem vpush_cells {thing : Nat} {u : Unit} (run : (vpush g thing).run v = .ok (u, v')) :
    ∃ es es', (v.gc.cells v.stack).payload = .vector es ∧
      (∀ b ∈ es', b ∈ es ∨ b = g.theEmptyList ∨ b = thing) ∧
      v' = v.restack (setPayload v.gc.cells v.stack (.vector es')) (v.stackTop + 1) := by
  obtain ⟨cells', pushed, done⟩ := except_bind_eq_ok.mp run
  cases done
  unfold vectorPush at pushed
  obtain ⟨elements, read, pushed⟩ := except_bind_eq_ok.mp pushed
  obtain ⟨grown, grownPayload, -, -, rfl⟩ := vectorSet_ok pushed
  have vector : (v.gc.cells v.stack).payload = .vector elements := by
    unfold varray at read
    split at read <;> cases read
    assumption
  simp only [setPayload_payload, if_true, Payload.vector.injEq] at grownPayload
  refine ⟨elements, grown.set v.stackTop.toNat thing, vector, fun b mem => ?_,
    by rw [setPayload_setPayload]; rfl⟩
  rcases List.mem_or_eq_of_mem_set mem with old | rfl
  · rw [← grownPayload] at old
    split at old
    · rcases List.mem_append.mp old with kept | filled
      · exact .inl kept
      · exact .inr (.inl (List.eq_of_mem_replicate filled))
    · exact .inl old
  · exact .inr (.inr rfl)

theorem vpop_cells {u : Nat} (run : (vpop g).run v = .ok (u, v')) :
    ∃ es, (v.gc.cells v.stack).payload = .vector es ∧ u ∈ es ∧
      v' = v.restack (setPayload v.gc.cells v.stack
        (.vector (es.set (v.stackTop - 1).toNat g.theEmptyList))) (v.stackTop - 1) := by
  obtain ⟨⟨cells', old⟩, popped, done⟩ := except_bind_eq_ok.mp run
  cases done
  unfold vectorPop at popped
  obtain ⟨old', read, popped⟩ := except_bind_eq_ok.mp popped
  obtain ⟨cells'', written, popped⟩ := except_bind_eq_ok.mp popped
  cases popped
  obtain ⟨elements, payload, -, -, rfl⟩ := vectorSet_ok written
  obtain ⟨elements', payload', -, found⟩ := vectorRef_ok read
  rw [payload, Payload.vector.injEq] at payload'
  subst payload'
  exact ⟨elements, payload, List.getElem?_mem found, rfl⟩

theorem Vm.Sound.restack (sound : v.Sound g ret) {es es' : List Nat}
    (vector : (v.gc.cells v.stack).payload = .vector es)
    (fields : ∀ b ∈ es', b ∈ es ∨ b = g.theEmptyList ∨ v.Holds ret b) (top : Int)
    {ret' : Option Nat} (returned : ∀ a, ret' = some a → v.Holds ret a) :
    (v.restack (setPayload v.gc.cells v.stack (.vector es')) top).Sound g ret' := by
  have stack : v.Holds ret v.stack := sound.pins.stack.reached.holds
  refine ⟨sound.safe.rewrite rfl stack (fun b mem => ?_) fun t hold => ?_,
    sound.pins.of_roots rfl rfl rfl fun _ mem _ => mem⟩
  · rcases fields b mem with old | empty | held
    · exact stack.child (by show b ∈ (v.gc.cells v.stack).payload.children; rw [vector]; exact old)
    · exact empty ▸ sound.pins.empty.reached.holds
    · exact held
  · rcases hold with root | ⟨-, same⟩
    · exact .target (.inl root)
    · exact returned t same

theorem Vm.Loaded.restack (loaded : v.Loaded) {es : List Nat}
    (vector : (v.gc.cells v.stack).payload = .vector es) (p : Payload) (top : Int) :
    (v.restack (setPayload v.gc.cells v.stack p) top).Loaded :=
  loaded.stored (by simp only [isCompiled, vector]) p

theorem Vm.Sound.vpush {thing : Nat} {u : Unit} (sound : v.Sound g ret) (held : v.Holds ret thing)
    (run : (vpush g thing).run v = .ok (u, v')) :
    v'.Sound g ret ∧ (v.Loaded → v'.Loaded) ∧
      ∃ cells, Retouched v.gc.cells cells v.stack ∧ v' = v.restack cells (v.stackTop + 1) := by
  obtain ⟨es, es', vector, fields, rfl⟩ := vpush_cells run
  refine ⟨sound.restack vector (fun b mem => ?_) _ fun _ same => ?_,
    fun loaded => loaded.restack vector _ _, _, (Restacked.setPayload ⟨es, vector⟩).retouched, rfl⟩
  · rcases fields b mem with old | empty | rfl
    · exact .inl old
    · exact .inr (.inl empty)
    · exact .inr (.inr held)
  · obtain rfl := same
    exact .target (.inr ⟨rfl, rfl⟩)

theorem Vm.Sound.vpop {u : Nat} (sound : v.Sound g ret) (run : (vpop g).run v = .ok (u, v')) :
    v'.Sound g (some u) ∧ (v.Loaded → v'.Loaded) ∧
      ∃ cells, Retouched v.gc.cells cells v.stack ∧ v' = v.restack cells (v.stackTop - 1) := by
  obtain ⟨es, vector, popped, rfl⟩ := vpop_cells run
  refine ⟨sound.restack vector (fun b mem => (List.mem_or_eq_of_mem_set mem).imp_right .inl) _
      fun _ same => ?_, fun loaded => loaded.restack vector _ _, _,
    (Restacked.setPayload ⟨es, vector⟩).retouched, rfl⟩
  obtain rfl := Option.some.inj same
  exact sound.pins.stack.reached.holds.child
    (by show u ∈ (v.gc.cells v.stack).payload.children; rw [vector]; exact popped)

/-- What a function of another file must do for the collector. Called on a heap the invariant
holds of, with its arguments reachable from Roots, it leaves Roots alone, keeps the code of every
compiled procedure Roots reach, and keeps the invariant with its result (as `hold` reads it) in a
native variable. -/
def SafeCall {α : Type} (call : (Nat → Option Nat) → GcState → Except VmFault (GcState × α))
    (args : List Nat) (hold : α → Option Nat) : Prop :=
  ∀ store gc gc' a free old, SafeInv ⟨gc, store, none, none⟩ free old →
    (∀ b ∈ args, Reachable gc.payloads (RootTarget store gc.rootObjects) b) →
    call store gc = .ok (gc', a) → gc'.rootObjects = gc.rootObjects ∧
      (∀ b c, Reachable gc.payloads (RootTarget store gc.rootObjects) b →
        bytecode gc.cells b = .ok c → bytecode gc'.cells b = .ok c) ∧
      ∃ free' old', SafeInv ⟨gc', store, hold a, none⟩ free' old'

/-- Every primitive and both functions of the global environment keep the collector safe: a
primitive is passed the stack vector, `lookup_global_value` its symbol and
`define_global_variable` the variable and the value it binds. -/
structure Externals.SafeCalls (x : Externals) : Prop where
  primitive : ∀ p stack n top,
    SafeCall (fun store gc => x.primitive p store gc stack n top) [stack] some
  lookupGlobalValue : ∀ sym, SafeCall (fun store gc => x.lookupGlobalValue store gc sym) [sym] some
  defineGlobalVariable : ∀ var val,
    SafeCall (fun store gc => (x.defineGlobalVariable store gc var val).map fun gc => (gc, ()))
      [var, val] fun _ => none

theorem Vm.Sound.external {α : Type}
    {call : (Nat → Option Nat) → GcState → Except VmFault (GcState × α)} {args : List Nat}
    {hold : α → Option Nat} {r : α} (sound : v.Sound g ret) (safe : SafeCall call args hold)
    (reached : ∀ b ∈ args, v.Reached b) (run : (external call).run v = .ok (r, v')) :
    v'.Sound g (hold r) ∧ (v.Loaded → v'.Loaded) ∧ ∃ gc, v' = { v with gc := gc } ∧
      gc.rootObjects = v.gc.rootObjects := by
  obtain ⟨⟨gc, r⟩, called, done⟩ := except_bind_eq_ok.mp run
  cases done
  obtain ⟨free, old, inv⟩ := sound.safe.release
  obtain ⟨roots, code, free', old', inv'⟩ := safe v.store v.gc gc r free old inv reached called
  exact ⟨⟨⟨free', old', inv'⟩, sound.pins.of_roots rfl rfl rfl fun _ mem _ => by rw [roots]; exact mem⟩,
    fun loaded => code _ _ (v.reached_local sound.pins.fn) loaded, gc, rfl, roots⟩

end Steps

end BrianScheme
