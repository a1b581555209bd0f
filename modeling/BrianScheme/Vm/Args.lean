import BrianScheme.Vm.Splat
import BrianScheme.Gc.Safety

/-! `args` and `argsdot` against the collector. Both may allocate (a bigger frame, the pairs of
the rest list), so a collection can run in the middle of the binding. Read as a program on the
collector (`Vm.machine`), `vm_execute` keeps the safety invariant of `Gc/Safety`, so every cell
`alloc_object` hands it is one nothing on Roots reaches: never the stack, `env`, the frame or a
pair of the rest list built so far. The arguments then land in the frame in source order, the
excess ones of `argsdot` as a proper list, whatever frame the call path left in `car(env)`. -/

namespace BrianScheme

section Collector

/-- `vm_execute` as a program on the collector: its heap and Roots, `*r` for every address Roots
can hold, and `ret`, the cell the last constructor returned, which a native temporary may still
hold. -/
def Vm.machine (v : Vm) (ret : Option Nat) : Machine := ⟨v.gc, v.store, ret, none⟩

/-- The heap is one a constructing program can be in: the safety invariant of `Gc/Safety`. -/
def Vm.Safe (v : Vm) (ret : Option Nat) : Prop := ∃ free old, SafeInv (v.machine ret) free old

/-- `a` is reachable from Roots. -/
def Vm.Reached (v : Vm) (a : Nat) : Prop :=
  Reachable v.gc.payloads (RootTarget v.store v.gc.rootObjects) a

/-- `a` is `*r` for an entry `r` of Roots other than `&top`, the one variable `args` and
`argsdot` assign. -/
def Vm.Anchored (v : Vm) (a : Nat) : Prop :=
  ∃ r ∈ v.gc.rootObjects.contents, r ≠ v.addr .top ∧ v.store r = some a

theorem Reachable.congr_payloads {p p' : Nat → Payload} {targets : Nat → Prop}
    (agree : ∀ a, Reachable p targets a → p' a = p a) {a : Nat} (reach : Reachable p targets a) :
    Reachable p' targets a := by
  induction reach with
  | target found => exact .target found
  | child held child ih => exact ih.child (by rwa [agree _ held])

theorem VmLocal.ofIndex?_index (l : VmLocal) : VmLocal.ofIndex? l.index = some l := by
  cases l <;> rfl

theorem Vm.store_addr (v : Vm) (l : VmLocal) : v.store (v.addr l) = some (v.locals l) := by
  simp [Vm.store, Vm.addr, VmLocal.ofIndex?_index]

theorem Vm.store_update (v : Vm) (l : VmLocal) (a : Nat) :
    ({ v with locals := Function.update v.locals l a } : Vm).store =
      Function.update v.store (v.addr l) (some a) := by
  funext r
  by_cases here : r = v.addr l
  · subst here
    exact (Vm.store_addr _ l).trans (by simp)
  · rw [Function.update_noteq here]
    unfold Vm.store
    split
    · rename_i l' found
      have other : l' ≠ l := by
        rintro rfl
        split_ifs at found with above
        exact here (by rw [Vm.addr, VmLocal.index_ofIndex? found, Nat.add_sub_cancel' above])
      simp [Function.update_noteq other, found]
    · rename_i none
      simp [none]

theorem SafeInv.of_roots {m m' : Machine} {free old : List Nat} (inv : SafeInv m free old)
    (gc : m'.gc = m.gc) (returned : m'.returned = m.returned) (fresh : m'.fresh = m.fresh)
    (store : ∀ r ∈ m.gc.rootObjects.contents, m'.store r = m.store r) : SafeInv m' free old := by
  obtain ⟨gc₀, store₀, returned₀, fresh₀⟩ := m
  obtain ⟨gc₁, store₁, returned₁, fresh₁⟩ := m'
  dsimp only at gc returned fresh store
  subst gc returned fresh
  have targets : RootTarget store₁ gc₁.rootObjects = RootTarget store₀ gc₁.rootObjects :=
    funext fun a => propext ⟨fun ⟨r, mem, found⟩ => ⟨r, mem, (store r mem) ▸ found⟩,
      fun ⟨r, mem, found⟩ => ⟨r, mem, (store r mem).symm ▸ found⟩⟩
  have held : Machine.Held ⟨gc₁, store₁, returned₁, fresh₁⟩ =
      Machine.Held ⟨gc₁, store₀, returned₁, fresh₁⟩ :=
    funext fun t => by simp only [Machine.Held, targets]
  obtain ⟨⟨heap, roots⟩, returnedInPool, freshInv, heldInv⟩ := inv
  refine ⟨⟨heap, fun a target => roots a (by rwa [← targets])⟩, returnedInPool,
    fun x same => ?_, fun a reach => heldInv a (by rwa [← held])⟩
  obtain ⟨ret, unreached, notFree⟩ := freshInv x same
  exact ⟨ret, by rwa [targets], notFree⟩

variable {v v' : Vm} {ret : Option Nat}

theorem Vm.Anchored.reached {a : Nat} (anchored : v.Anchored a) : v.Reached a :=
  let ⟨r, mem, _, found⟩ := anchored
  .target ⟨r, mem, found⟩

theorem Vm.Safe.write {obj : Nat} {payload : Payload} (safe : v.Safe ret)
    (gc : v'.gc = { v.gc with cells := setPayload v.gc.cells obj payload })
    (store : v'.store = v.store) (live : (v.machine ret).Live obj)
    (children : ∀ b ∈ payload.children, (v.machine ret).Live b) : v'.Safe ret := by
  obtain ⟨free, old, inv⟩ := safe
  refine ⟨free, old, inv.write_event ⟨⟨live, children⟩, fun _ fresh => nomatch fresh⟩ ?_⟩
  simp [Machine.step, Vm.machine, gc, store]

theorem Vm.Safe.setLocal {root a : Nat} (safe : v.Safe ret) (gc : v'.gc = v.gc)
    (store : v'.store = Function.update v.store root (some a)) (live : (v.machine ret).Live a) :
    v'.Safe ret := by
  obtain ⟨free, old, inv⟩ := safe
  exact inv.step (show Constructing _ (.setLocal root (some a)) from
    ⟨fun b same => by cases same; exact live, fun _ fresh => nomatch fresh⟩)
    (by simp [Machine.step, Vm.machine, gc, store])

theorem Vm.Safe.construct (safe : v.Safe ret) (payload : Payload) (nf : Bool)
    (children : ∀ b ∈ payload.children, v.Reached b) :
    ∃ (x : Nat) (gc : GcState), (construct payload nf).run v = .ok (x, { v with
        gc := { gc with cells := setPayload gc.cells x payload }, written := x :: v.written }) ∧
      ¬v.Reached x ∧ gc.rootObjects = v.gc.rootObjects ∧
      (∀ a, v.Reached a → (gc.cells a).payload = (v.gc.cells a).payload) ∧
      ({ v with
          gc := { gc with cells := setPayload gc.cells x payload }, written := x :: v.written } :
        Vm).Safe (some x) := by
  obtain ⟨free, old, inv⟩ := safe
  obtain ⟨gc, x, free', old', run, unreached, inv'⟩ := inv.alloc nf
  obtain ⟨roots, -, kept⟩ := allocObject_frame run
  have same : ∀ a, v.Reached a → (gc.cells a).payload = (v.gc.cells a).payload :=
    fun a reach => kept a (reach.lt_poolSize inv.bounded)
  have carried : ∀ a, v.Reached a → Reachable gc.payloads (RootTarget v.store gc.rootObjects) a := by
    intro a reach
    rw [roots]
    exact reach.congr_payloads same
  refine ⟨x, gc, ?_, fun reach => unreached (carried x reach), roots, same, ?_⟩
  · simp only [BrianScheme.construct, StateT.run]
    rw [show allocObject v.store v.gc nf = .ok (gc, x) from run]
    rfl
  · exact inv'.step (show Constructing _ (.write x payload) from
      ⟨⟨.inr rfl, fun b mem => .inl (carried b (children b mem))⟩,
        fun _ fresh => ⟨payload, by cases Option.some.inj fresh; rfl⟩⟩)
      (by simp only [Machine.step, Vm.machine, if_pos rfl]; rfl)

end Collector

section Binding

/-- `v` after a store of `payload` into the cell `obj`, as `toHeap` leaves it. -/
def Vm.writeCell (v : Vm) (obj : Nat) (payload : Payload) : Vm :=
  { v with gc := { v.gc with cells := setPayload v.gc.cells obj payload }, written := obj :: v.written }

/-- What `args` and `argsdot` rely on while they bind into `frame`: `env` is a pair whose `car`
is `frame`, Roots hold `&env` and `&top`, the stack and the empty list are held by roots the
instruction does not assign, and the frame is not the stack. -/
structure Binding (g : Globals) (frame : Nat) (v : Vm) : Prop where
  env : ∃ d, (v.gc.cells (v.locals .env)).payload = .pair frame d
  envRoot : v.addr .env ∈ v.gc.rootObjects.contents
  topRoot : v.addr .top ∈ v.gc.rootObjects.contents
  stack : v.Anchored v.stack
  empty : v.Anchored g.theEmptyList
  apart : frame ≠ v.stack

theorem ne_of_pair_vector {cells : Cells} {a b x y : Nat} {e : List Nat}
    (pair : (cells a).payload = .pair x y) (vector : (cells b).payload = .vector e) : a ≠ b := by
  rintro rfl
  rw [pair] at vector
  cases vector

theorem ProperList.congr {g : Globals} {cells cells' : Cells} {S : Nat → Prop} {list : Nat}
    {xs : List Nat} (listed : ProperList g cells list xs) (start : S list)
    (closed : ∀ a x r, S a → (cells a).payload = .pair x r → S r)
    (keep : ∀ a x r, S a → (cells a).payload = .pair x r → (cells' a).payload = .pair x r) :
    ProperList g cells' list xs := by
  induction xs generalizing list with
  | nil => exact listed
  | cons x xs ih =>
    obtain ⟨nonEmpty, rest, pair, tail⟩ := listed
    exact ⟨nonEmpty, rest, keep _ _ _ start pair, ih tail (closed _ _ _ start pair)⟩

variable {g : Globals} {frame : Nat} {v : Vm} {ret : Option Nat}

theorem Binding.env_reached (bound : Binding g frame v) : v.Reached (v.locals .env) :=
  .target ⟨_, bound.envRoot, v.store_addr .env⟩

theorem Binding.congr {v' : Vm} (bound : Binding g frame v) (env : v'.locals .env = v.locals .env)
    (cell : (v'.gc.cells (v.locals .env)).payload = (v.gc.cells (v.locals .env)).payload)
    (roots : v'.gc.rootObjects = v.gc.rootObjects) (base : v'.base = v.base)
    (store : ∀ r ≠ v.addr .top, v'.store r = v.store r) (stack : v'.stack = v.stack) :
    Binding g frame v' := by
  have addr : ∀ l, v'.addr l = v.addr l := fun l => by simp [Vm.addr, base]
  have anchored : ∀ {a}, v.Anchored a → v'.Anchored a := fun ⟨r, mem, other, found⟩ =>
    ⟨r, by rwa [roots], by rwa [addr], (store r other).trans found⟩
  obtain ⟨d, pair⟩ := bound.env
  refine ⟨⟨d, by rw [env, cell, pair]⟩, ?_, ?_, stack ▸ anchored bound.stack, anchored bound.empty,
    stack ▸ bound.apart⟩
  · rw [roots, addr]; exact bound.envRoot
  · rw [roots, addr]; exact bound.topRoot

variable (g)

/-- `VPOP(top, stack, stack_top)`: the top slot goes to `top` and is cleared, and the binding and
the invariant survive. -/
theorem Binding.pop (bound : Binding g frame v) (safe : v.Safe ret) {rest elements : List Nat}
    {top : Nat} (stacked : v.slots = some (rest ++ [top]))
    (vector : (v.gc.cells v.stack).payload = .vector elements) (t : Int) :
    Binding g frame (({ v with locals := Function.update v.locals .top top } : Vm).restack
        (setPayload v.gc.cells v.stack (.vector (elements.set rest.length g.theEmptyList))) t) ∧
      (({ v with locals := Function.update v.locals .top top } : Vm).restack
        (setPayload v.gc.cells v.stack (.vector (elements.set rest.length g.theEmptyList))) t).Safe
        ret := by
  have store := v.store_update .top top
  have kept : ∀ r ≠ v.addr .top,
      ({ v with locals := Function.update v.locals .top top } : Vm).store r = v.store r :=
    fun r other => by rw [store, Function.update_noteq other]
  obtain ⟨d, pair⟩ := bound.env
  have envApart : v.locals .env ≠ v.stack := ne_of_pair_vector pair vector
  have popped : top ∈ elements := by
    obtain ⟨e, vector', -, -, split⟩ := Vm.slots_vector stacked
    rw [vector, Payload.vector.injEq] at vector'
    subst vector'
    have mem : top ∈ rest ++ [top] := by simp
    rw [split] at mem
    exact List.mem_of_mem_take mem
  have onStack : ∀ b ∈ elements, v.Reached b := fun b mem =>
    bound.stack.reached.child (by simpa [GcState.payloads, vector, Payload.children] using mem)
  have anchored : ∀ {a}, v.Anchored a →
      ({ v with locals := Function.update v.locals .top top } : Vm).Reached a :=
    fun ⟨r, mem, other, found⟩ => .target ⟨r, mem, (kept r other).trans found⟩
  refine ⟨bound.congr (by simp [Vm.restack]) (by simp [Vm.restack, envApart]) rfl rfl kept rfl, ?_⟩
  have assigned : ({ v with locals := Function.update v.locals .top top } : Vm).Safe ret :=
    safe.setLocal rfl store (.inl (onStack top popped))
  refine assigned.write rfl rfl (.inl (anchored bound.stack)) fun b mem => ?_
  rcases List.mem_or_eq_of_mem_set mem with old | rfl
  · exact .inl ((anchored bound.stack).child
      (by simpa [GcState.payloads, vector, Payload.children] using old))
  · exact .inl (anchored bound.empty)

theorem Binding.construct (bound : Binding g frame v) (safe : v.Safe ret) (payload : Payload)
    (nf : Bool) (children : ∀ b ∈ payload.children, v.Reached b) :
    ∃ (x : Nat) (gc : GcState),
      (construct payload nf).run v = .ok (x, ({ v with gc := gc } : Vm).writeCell x payload) ∧
      ¬v.Reached x ∧ (∀ a, v.Reached a → (gc.cells a).payload = (v.gc.cells a).payload) ∧
      Binding g frame (({ v with gc := gc } : Vm).writeCell x payload) ∧
      (({ v with gc := gc } : Vm).writeCell x payload).Safe (some x) := by
  obtain ⟨x, gc, run, unreached, roots, kept, safe'⟩ := safe.construct payload nf children
  have other : v.locals .env ≠ x := fun same => unreached (same ▸ bound.env_reached)
  refine ⟨x, gc, run, unreached, kept, bound.congr rfl ?_ roots rfl (fun _ _ => rfl) rfl, safe'⟩
  simp only [Vm.writeCell, setPayload_payload, if_neg other]
  exact kept _ bound.env_reached

end Binding

section Loops

variable (g : Globals) {frame : Nat} {v : Vm}

end Loops

section Frame

variable (g : Globals)

/-- `lset` and then `lvar` of the same instruction: `lvar` pushes the value `lset` stored,
whichever frame of the environment chain the two name. -/
theorem lvar_reads_lset {instr : Nat} {ctl : Control} {v v' : Vm}
    (run : (lsetOp instr).run v = .ok (ctl, v')) :
    ∃ value, vectorRef v.gc.cells v.stack (v.stackTop - 1) = .ok value ∧
      (lvarOp g instr).run v' = (do vpush g value; pure Control.next : VmM Control).run v' := by
  obtain ⟨envNum, envRead, run⟩ := onHeap_bind_inv run
  obtain ⟨idx, idxRead, run⟩ := onHeap_bind_inv run
  rw [getLocal_bind] at run
  obtain ⟨frame, framed, run⟩ := onHeap_bind_inv run
  rw [get_bind] at run
  obtain ⟨value, read, run⟩ := onHeap_bind_inv run
  obtain ⟨_, u, stored, done⟩ := run_bind_inv run
  cases done
  obtain ⟨cells', written, done⟩ := except_bind_eq_ok.mp stored
  cases done
  obtain ⟨elements, vector, nonneg, inside, rfl⟩ := vectorSet_ok written
  set cells' := setPayload v.gc.cells frame (.vector (elements.set idx.toNat value))
  have touched : Retouched v.gc.cells cells' frame := (Restacked.setPayload ⟨elements, vector⟩).retouched
  obtain ⟨next, found, first⟩ := except_bind_eq_ok.mp framed
  have slot : (do vectorRef cells' (← car cells'
      (← nthFrame cells' envNum.toNat (v.locals .env))) idx) = .ok value := by
    simp only [touched.nthFrame, found, touched.car, first, bind, Except.bind, vectorRef, varray,
      cells', setPayload_payload, if_true, pure, Except.pure, List.getElem?_set_self inside,
      if_pos nonneg]
  refine ⟨value, read, ?_⟩
  rw [lvarOp, onHeap_bind_ok (by simpa only [touched.arg1, touched.long] using envRead),
    onHeap_bind_ok (by simpa only [touched.arg2, touched.long] using idxRead), getLocal_bind,
    onHeap_bind_ok slot]

/-- The heap of an `lset 0 0`: the stack `[() 42]` in cell 1, the frame `#(())` in cell 2 with
`env = (#(()) . ())` in cell 3, and the instruction in cell 6, whose fields are the fixnum 0 of
cell 4. -/
def slotCells (a : Nat) : Cell :=
  ⟨match a with
    | 0 => .theEmptyList | 1 => .vector [0, 5] | 2 => .vector [0] | 3 => .pair 2 0
    | 4 => .fixnum 0 | 5 => .fixnum 42 | 6 => .pair 0 7 | 7 => .pair 4 8 | 8 => .pair 4 0
    | _ => .uninitialized, 0, none, none⟩

def slotVm : Vm :=
  Vm.start { gcInit with cells := slotCells } (fun _ => none) 200
    (fun l => if l = .env then 3 else 0) 1 2 0

theorem slotVm_lvar_reads_lset : ∃ ctl v', (lsetOp 6).run slotVm = .ok (ctl, v') ∧
    ∃ value, vectorRef slotVm.gc.cells slotVm.stack (slotVm.stackTop - 1) = .ok value ∧
      (lvarOp ⟨0, 0, 0, 0, 0⟩ 6).run v' =
        (do vpush ⟨0, 0, 0, 0, 0⟩ value; pure Control.next : VmM Control).run v' :=
  ⟨_, _, rfl, lvar_reads_lset ⟨0, 0, 0, 0, 0⟩ rfl⟩

end Frame

section Instructions

variable (g : Globals) {frame : Nat} {v : Vm} {ret : Option Nat} {instr : Nat}
  {below xs elems : List Nat}

end Instructions

end BrianScheme
