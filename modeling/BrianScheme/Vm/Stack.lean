import BrianScheme.Vm.Continuation
import BrianScheme.Gc.Collection

/-! The live stack as a list: `Vm.slots` reads `VARRAY(stack)[0 .. stack_top)`. Each operation
an opcode is made of either leaves those slots as they are or pops and pushes at their top,
as long as no cell it writes other than by `VPUSH`/`VPOP` is the live stack and the functions
of other files do not write it either. -/

namespace BrianScheme

/-- The occupied slots of the live stack, when it is a vector of at least `stack_top` slots. -/
def Vm.slots (v : Vm) : Option (List Nat) :=
  match (v.gc.cells v.stack).payload with
  | .vector elements =>
    if 0 ≤ v.stackTop ∧ v.stackTop.toNat ≤ elements.length then
      some (elements.take v.stackTop.toNat)
    else none
  | _ => none

theorem Vm.slots_congr {v v' : Vm} (stack : v'.stack = v.stack) (top : v'.stackTop = v.stackTop)
    (payload : (v'.gc.cells v.stack).payload = (v.gc.cells v.stack).payload) :
    v'.slots = v.slots := by
  simp only [Vm.slots, stack, top, payload]

theorem Vm.slots_vector {v : Vm} {slots : List Nat} (stacked : v.slots = some slots) :
    ∃ elements, (v.gc.cells v.stack).payload = .vector elements ∧ 0 ≤ v.stackTop ∧
      v.stackTop.toNat ≤ elements.length ∧ slots = elements.take v.stackTop.toNat := by
  unfold Vm.slots at stacked
  split at stacked
  · split at stacked
    · cases stacked; exact ⟨_, ‹_›, ‹_ ∧ _›.1, ‹_ ∧ _›.2, rfl⟩
    · cases stacked
  · cases stacked

theorem Vm.slots_length {v : Vm} {slots : List Nat} (stacked : v.slots = some slots) :
    (slots.length : Int) = v.stackTop := by
  obtain ⟨elements, -, nonneg, fits, rfl⟩ := Vm.slots_vector stacked
  simp only [List.length_take, Nat.min_eq_left fits]
  omega

/-- What every operation keeps, whatever the heap. -/
structure Carries (v v' : Vm) : Prop where
  stack : v'.stack = v.stack
  initialTop : v'.initialTop = v.initialTop
  written : v.written <:+ v'.written
  poolSize : v.gc.poolSize ≤ v'.gc.poolSize

theorem Carries.refl (v : Vm) : Carries v v := ⟨rfl, rfl, List.suffix_refl _, le_rfl⟩

theorem Carries.trans {u v w : Vm} (first : Carries u v) (second : Carries v w) : Carries u w :=
  ⟨second.stack.trans first.stack, second.initialTop.trans first.initialTop,
    first.written.trans second.written, first.poolSize.trans second.poolSize⟩

/-- What a stretch of run from `v` to `v'` on the live stack `c` is given: no cell written in it
other than by `VPUSH`/`VPOP` is `c`, and `c` is a cell of the pool. -/
def Quiet (c : Nat) (v v' : Vm) : Prop := v.stack = c ∧ c ∉ v'.written ∧ c < v.gc.poolSize

theorem Quiet.split {c : Nat} {u v w : Vm} (first : Carries u v) (second : Carries v w)
    (quiet : Quiet c u w) : Quiet c u v ∧ Quiet c v w :=
  ⟨⟨quiet.1, fun mem => quiet.2.1 (second.written.subset mem), quiet.2.2⟩,
    ⟨first.stack.trans quiet.1, quiet.2.1, lt_of_lt_of_le quiet.2.2 first.poolSize⟩⟩

section Predicates

variable (c : Nat) {α β : Type}

/-- `p` leaves the slots of the live stack `c` as they are. -/
def Steady (p : VmM α) : Prop :=
  ∀ v a v', p.run v = .ok (a, v') → Carries v v' ∧ (Quiet c v v' → v'.slots = v.slots)

/-- `p` changes no slot of the live stack `c` below its top `pops`: it may pop those and push. -/
def Trims (p : VmM α) (pops : Nat) : Prop :=
  ∀ v a v', p.run v = .ok (a, v') → Carries v v' ∧ (Quiet c v v' → ∀ slots, v.slots = some slots →
    ∃ slots', v'.slots = some slots' ∧ slots.take (slots.length - pops) <+: slots')

variable {c}

theorem run_bind_inv {p : VmM α} {f : α → VmM β} {v v' : Vm} {b : β}
    (run : (p >>= f).run v = .ok (b, v')) : ∃ a u, p.run v = .ok (a, u) ∧ (f a).run u = .ok (b, v') := by
  obtain ⟨⟨a, u⟩, first, rest⟩ := except_bind_eq_ok.mp (by simpa only [StateT.run_bind] using run)
  exact ⟨a, u, first, rest⟩

theorem prefix_take_of_length_le {l m : List Nat} {n : Nat} (kept : l <+: m) (short : l.length ≤ n) :
    l <+: m.take n := by
  rw [List.prefix_iff_eq_take] at kept ⊢
  rw [List.take_take, Nat.min_eq_left short]
  exact kept

theorem Steady.bind {p : VmM α} {f : α → VmM β} (first : Steady c p) (rest : ∀ a, Steady c (f a)) :
    Steady c (p >>= f) := by
  intro v b v' run
  obtain ⟨a, u, run₁, run₂⟩ := run_bind_inv run
  obtain ⟨carry₁, kept₁⟩ := first v a u run₁
  obtain ⟨carry₂, kept₂⟩ := rest a u b v' run₂
  refine ⟨carry₁.trans carry₂, fun quiet => ?_⟩
  obtain ⟨quiet₁, quiet₂⟩ := quiet.split carry₁ carry₂
  exact (kept₂ quiet₂).trans (kept₁ quiet₁)

theorem Steady.pure (a : α) : Steady c (pure a : VmM α) := by
  intro v b v' run
  cases run
  exact ⟨Carries.refl v, fun _ => rfl⟩

theorem Steady.throw (fault : VmFault) : Steady c (throw fault : VmM α) := by
  intro v b v' run
  cases run

theorem Steady.ite {p q : VmM α} (cond : Prop) [Decidable cond] (yes : Steady c p)
    (no : Steady c q) : Steady c (if cond then p else q) := by
  split
  · exact yes
  · exact no

theorem Steady.trims {p : VmM α} (steady : Steady c p) : Trims c p 0 := by
  intro v a v' run
  obtain ⟨carry, kept⟩ := steady v a v' run
  refine ⟨carry, fun quiet slots stacked => ⟨slots, (kept quiet).trans stacked, ?_⟩⟩
  simp

theorem Trims.bind {p : VmM α} {f : α → VmM β} {pops pops' : Nat} (first : Trims c p pops)
    (rest : ∀ a, Trims c (f a) pops') : Trims c (p >>= f) (pops + pops') := by
  intro v b v' run
  obtain ⟨a, u, run₁, run₂⟩ := run_bind_inv run
  obtain ⟨carry₁, kept₁⟩ := first v a u run₁
  obtain ⟨carry₂, kept₂⟩ := rest a u b v' run₂
  refine ⟨carry₁.trans carry₂, fun quiet slots stacked => ?_⟩
  obtain ⟨quiet₁, quiet₂⟩ := quiet.split carry₁ carry₂
  obtain ⟨mid, stacked₁, prefix₁⟩ := kept₁ quiet₁ slots stacked
  obtain ⟨slots', stacked₂, prefix₂⟩ := kept₂ quiet₂ mid stacked₁
  have short := prefix₁.length_le
  simp only [List.length_take] at short
  exact ⟨slots', stacked₂, (prefix_take_of_length_le ((List.take_prefix_take_left slots
    (by omega)).trans prefix₁) (by simp only [List.length_take]; omega)).trans prefix₂⟩

theorem Trims.mono {p : VmM α} {pops pops' : Nat} (trims : Trims c p pops) (more : pops ≤ pops') :
    Trims c p pops' := by
  intro v a v' run
  obtain ⟨carry, kept⟩ := trims v a v' run
  refine ⟨carry, fun quiet slots stacked => ?_⟩
  obtain ⟨slots', stacked', prefix'⟩ := kept quiet slots stacked
  exact ⟨slots', stacked', (List.take_prefix_take_left slots (by omega)).trans prefix'⟩

theorem Trims.steady_bind {p : VmM α} {f : α → VmM β} {pops : Nat} (first : Steady c p)
    (rest : ∀ a, Trims c (f a) pops) : Trims c (p >>= f) pops := by
  simpa using first.trims.bind rest

theorem Trims.bind_steady {p : VmM α} {f : α → VmM β} {pops : Nat} (first : Trims c p pops)
    (rest : ∀ a, Steady c (f a)) : Trims c (p >>= f) pops := by
  simpa using first.bind fun a => (rest a).trims

theorem Steady.of_eq {p : VmM α} (same : ∀ v a v', p.run v = .ok (a, v') →
    v'.gc.cells = v.gc.cells ∧ v'.gc.poolSize = v.gc.poolSize ∧ v'.stack = v.stack ∧
      v'.stackTop = v.stackTop ∧ v'.initialTop = v.initialTop ∧ v'.written = v.written) :
    Steady c p := by
  intro v a v' run
  obtain ⟨cells, pool, stack, top, initial, written⟩ := same v a v' run
  exact ⟨⟨stack, initial, written ▸ List.suffix_refl _, pool.ge⟩,
    fun _ => Vm.slots_congr stack top (by rw [cells])⟩

theorem Trims.ite {p q : VmM α} {pops : Nat} (cond : Prop) [Decidable cond] (yes : Trims c p pops)
    (no : Trims c q pops) : Trims c (if cond then p else q) pops := by
  split
  · exact yes
  · exact no

/-- `p` changes none of what the return sequence reads or restores: it may only change Roots,
the count of slow pops and what `vm_fn_begin` loads. -/
def Inert (p : VmM α) : Prop :=
  ∀ v a v', p.run v = .ok (a, v') → v'.gc.cells = v.gc.cells ∧ v'.gc.poolSize = v.gc.poolSize ∧
    v'.locals = v.locals ∧ v'.pc = v.pc ∧ v'.stack = v.stack ∧ v'.stackTop = v.stackTop ∧
      v'.initialTop = v.initialTop ∧ v'.written = v.written

theorem Inert.steady {p : VmM α} (inert : Inert p) : Steady c p :=
  Steady.of_eq fun v a v' run => by
    obtain ⟨cells, pool, -, -, stack, top, initial, written⟩ := inert v a v' run
    exact ⟨cells, pool, stack, top, initial, written⟩

theorem Inert.bind {p : VmM α} {f : α → VmM β} (first : Inert p) (rest : ∀ a, Inert (f a)) :
    Inert (p >>= f) := by
  intro v b v' run
  obtain ⟨a, u, run₁, run₂⟩ := run_bind_inv run
  obtain ⟨c₁, p₁, l₁, pc₁, s₁, t₁, i₁, w₁⟩ := first v a u run₁
  obtain ⟨c₂, p₂, l₂, pc₂, s₂, t₂, i₂, w₂⟩ := rest a u b v' run₂
  exact ⟨c₂.trans c₁, p₂.trans p₁, l₂.trans l₁, pc₂.trans pc₁, s₂.trans s₁, t₂.trans t₁,
    i₂.trans i₁, w₂.trans w₁⟩

theorem Inert.pure (a : α) : Inert (pure a : VmM α) := by
  intro v b v' run
  cases run
  exact ⟨rfl, rfl, rfl, rfl, rfl, rfl, rfl, rfl⟩

theorem Inert.ite {p q : VmM α} (cond : Prop) [Decidable cond] (yes : Inert p) (no : Inert q) :
    Inert (if cond then p else q) := by
  split
  · exact yes
  · exact no

end Predicates

section Lists

variable {l : List Nat} {n : Nat}

theorem take_succ_set (value : Nat) (lt : n < l.length) :
    (l.set n value).take (n + 1) = l.take n ++ [value] := by
  rw [List.set_take, List.take_succ, List.getElem?_eq_getElem lt, Option.toList_some,
    List.set_append_right _ _ (by simp)]
  simp [Nat.min_eq_left lt.le]

theorem take_set_self (value : Nat) : (l.set n value).take n = l.take n := by
  rw [List.set_take, List.set_eq_of_length_le (by simp)]

end Lists

/-- What the live stack needs of a function of another file: it keeps the pool and writes no field
of the cell `c`. -/
def Spares (c : Nat) {α : Type} (call : (Nat → Option Nat) → GcState → Except VmFault (GcState × α)) :
    Prop :=
  ∀ store gc gc' a, call store gc = .ok (gc', a) →
    gc.poolSize ≤ gc'.poolSize ∧ (gc'.cells c).payload = (gc.cells c).payload

/-- Every primitive and both functions of the global environment spare the cell `c`. -/
structure Externals.Spare (x : Externals) (c : Nat) : Prop where
  primitive : ∀ p stack n top, Spares c fun store gc => x.primitive p store gc stack n top
  lookupGlobalValue : ∀ sym, Spares c fun store gc => x.lookupGlobalValue store gc sym
  defineGlobalVariable : ∀ var val,
    Spares c fun store gc => (x.defineGlobalVariable store gc var val).map fun gc => (gc, ())

/-- A write that changes one field of the cell it is given. -/
def WritesOne (write : Cells → Nat → Except VmFault Cells) : Prop :=
  ∀ cells obj cells', write cells obj = .ok cells' → ∃ payload, cells' = setPayload cells obj payload

theorem vectorSet_writesOne (idx : Int) (value : Nat) :
    WritesOne (vectorSet · · idx value) := by
  intro cells obj cells' written
  obtain ⟨elements, -, -, -, rfl⟩ := vectorSet_ok written
  exact ⟨_, rfl⟩

theorem setCar_writesOne (value : Nat) : WritesOne (setCar · · value) := by
  intro cells obj cells' written
  unfold setCar at written
  dsimp only at written
  split at written <;> cases written
  exact ⟨_, rfl⟩

theorem setCdr_writesOne (value : Nat) : WritesOne (setCdr · · value) := by
  intro cells obj cells' written
  unfold setCdr at written
  dsimp only at written
  split at written <;> cases written
  exact ⟨_, rfl⟩

/-- `cells'` is `cells` with other elements in the vector at `s`. -/
def Retouched (cells cells' : Cells) (s : Nat) : Prop :=
  (∀ o ≠ s, cells' o = cells o) ∧ (∃ elements, (cells s).payload = .vector elements) ∧
    ∃ elements, (cells' s).payload = .vector elements

section Retouched

variable {cells cells' : Cells} {s : Nat}

theorem Retouched.cases (touched : Retouched cells cells' s) (o : Nat) :
    (cells' o).payload = (cells o).payload ∨
      ∃ es es', (cells o).payload = .vector es ∧ (cells' o).payload = .vector es' := by
  by_cases same : o = s
  · obtain ⟨⟨es, before⟩, es', after⟩ := touched.2
    exact .inr ⟨es, es', same ▸ before, same ▸ after⟩
  · exact .inl (by rw [touched.1 o same])

theorem Retouched.car (touched : Retouched cells cells' s) (o : Nat) : car cells' o = car cells o := by
  rcases touched.cases o with same | ⟨es, es', before, after⟩
  · simp only [BrianScheme.car, same]
  · simp only [BrianScheme.car, before, after]

theorem Retouched.cdr (touched : Retouched cells cells' s) (o : Nat) : cdr cells' o = cdr cells o := by
  rcases touched.cases o with same | ⟨es, es', before, after⟩
  · simp only [BrianScheme.cdr, same]
  · simp only [BrianScheme.cdr, before, after]

theorem Retouched.long (touched : Retouched cells cells' s) (o : Nat) : long cells' o = long cells o := by
  rcases touched.cases o with same | ⟨es, es', before, after⟩
  · simp only [BrianScheme.long, same]
  · simp only [BrianScheme.long, before, after]

theorem Retouched.unwrapMeta (touched : Retouched cells cells' s) (o : Nat) :
    unwrapMeta cells' o = unwrapMeta cells o := by
  rcases touched.cases o with same | ⟨es, es', before, after⟩
  · simp only [BrianScheme.unwrapMeta, same]
  · simp only [BrianScheme.unwrapMeta, before, after]

theorem Retouched.calleeOf (touched : Retouched cells cells' s) (o : Nat) :
    calleeOf cells' o = calleeOf cells o := by
  rcases touched.cases o with same | ⟨es, es', before, after⟩
  · simp only [BrianScheme.calleeOf, same]
  · simp only [BrianScheme.calleeOf, before, after]

theorem Retouched.cenv (touched : Retouched cells cells' s) (o : Nat) : cenv cells' o = cenv cells o := by
  rcases touched.cases o with same | ⟨es, es', before, after⟩
  · simp only [BrianScheme.cenv, same]
  · simp only [BrianScheme.cenv, before, after]

theorem Retouched.bytecode (touched : Retouched cells cells' s) (o : Nat) :
    bytecode cells' o = bytecode cells o := by
  rcases touched.cases o with same | ⟨es, es', before, after⟩
  · simp only [BrianScheme.bytecode, same]
  · simp only [BrianScheme.bytecode, before, after]

theorem Retouched.isCompiled (touched : Retouched cells cells' s) (o : Nat) :
    isCompiled cells' o = isCompiled cells o := by
  rcases touched.cases o with same | ⟨es, es', before, after⟩
  · simp only [BrianScheme.isCompiled, same]
  · simp only [BrianScheme.isCompiled, before, after]

theorem Retouched.trans {cells'' : Cells} (first : Retouched cells cells' s)
    (second : Retouched cells' cells'' s) : Retouched cells cells'' s :=
  ⟨fun o other => (second.1 o other).trans (first.1 o other), first.2.1, second.2.2⟩

theorem Retouched.arg1 (touched : Retouched cells cells' s) (instr : Nat) :
    arg1 cells' instr = arg1 cells instr := by
  simp only [BrianScheme.arg1, touched.car, touched.cdr]

theorem Retouched.arg2 (touched : Retouched cells cells' s) (instr : Nat) :
    arg2 cells' instr = arg2 cells instr := by
  simp only [BrianScheme.arg2, touched.car, touched.cdr]

theorem Retouched.nthFrame (touched : Retouched cells cells' s) :
    ∀ n o, nthFrame cells' n o = nthFrame cells n o
  | 0, _ => rfl
  | n + 1, o => by simp only [BrianScheme.nthFrame, touched.cdr, touched.nthFrame n]

end Retouched

section Operations

variable {c : Nat} (g : Globals)

theorem onHeap_inert {α : Type} (read : Cells → Except VmFault α) : Inert (onHeap read) := by
  intro v a v' run
  obtain ⟨r, -, done⟩ := except_bind_eq_ok.mp run
  cases done
  exact ⟨rfl, rfl, rfl, rfl, rfl, rfl, rfl, rfl⟩

theorem get_inert : Inert (get : VmM Vm) := by
  intro v a v' run
  cases run
  exact ⟨rfl, rfl, rfl, rfl, rfl, rfl, rfl, rfl⟩

theorem getLocal_inert (l : VmLocal) : Inert (getLocal l) := by
  intro v a v' run
  cases run
  exact ⟨rfl, rfl, rfl, rfl, rfl, rfl, rfl, rfl⟩

theorem pushRootOf_inert (l : VmLocal) : Inert (pushRootOf l) := by
  intro v a v' run
  cases run
  exact ⟨rfl, rfl, rfl, rfl, rfl, rfl, rfl, rfl⟩

theorem popRootOf_inert (l : VmLocal) : Inert (popRootOf l) := by
  intro v a v' run
  simp only [popRootOf, StateT.run] at run
  split at run
  · rename_i gc popped
    have same : gc.cells = v.gc.cells ∧ gc.poolSize = v.gc.poolSize := by
      obtain ⟨⟨found, roots⟩, -, popped⟩ := Option.map_eq_some'.mp popped
      dsimp only at popped
      split at popped <;> cases popped
      exact ⟨rfl, rfl⟩
    cases run
    exact ⟨same.1, same.2, rfl, rfl, rfl, rfl, rfl, rfl⟩
  · cases run
  · cases run

theorem modify_inert {f : Vm → Vm} (same : ∀ v, (f v).gc = v.gc ∧ (f v).locals = v.locals ∧
    (f v).pc = v.pc ∧ (f v).stack = v.stack ∧ (f v).stackTop = v.stackTop ∧
      (f v).initialTop = v.initialTop ∧ (f v).written = v.written) : Inert (modify f : VmM Unit) := by
  intro v a v' run
  cases run
  obtain ⟨gc, locals, pc, stack, top, initial, written⟩ := same v
  exact ⟨by rw [gc], by rw [gc], locals, pc, stack, top, initial, written⟩

theorem onHeap_steady {α : Type} (read : Cells → Except VmFault α) : Steady c (onHeap read) :=
  (onHeap_inert read).steady

theorem get_steady : Steady c (get : VmM Vm) := get_inert.steady

theorem getLocal_steady (l : VmLocal) : Steady c (getLocal l) := (getLocal_inert l).steady

theorem setLocal_steady (l : VmLocal) (value : Nat) : Steady c (setLocal l value) :=
  Steady.of_eq fun v a v' run => by
    cases run
    exact ⟨rfl, rfl, rfl, rfl, rfl, rfl⟩

theorem setPc_steady (pc : Int) : Steady c (setPc pc) :=
  Steady.of_eq fun v a v' run => by
    cases run
    exact ⟨rfl, rfl, rfl, rfl, rfl, rfl⟩

theorem setNArgs_steady (nArgs : Int) : Steady c (setNArgs nArgs) :=
  Steady.of_eq fun v a v' run => by
    cases run
    exact ⟨rfl, rfl, rfl, rfl, rfl, rfl⟩

theorem pushRootOf_steady (l : VmLocal) : Steady c (pushRootOf l) := (pushRootOf_inert l).steady

theorem popRootOf_steady (l : VmLocal) : Steady c (popRootOf l) := (popRootOf_inert l).steady

theorem toHeap_steady (obj : Nat) {write : Cells → Nat → Except VmFault Cells}
    (one : WritesOne write) : Steady c (toHeap obj write) := by
  intro v a v' run
  obtain ⟨cells', written, done⟩ := except_bind_eq_ok.mp run
  cases done
  refine ⟨⟨rfl, rfl, List.suffix_cons _ _, le_rfl⟩, fun quiet => Vm.slots_congr rfl rfl ?_⟩
  obtain ⟨payload, rfl⟩ := one _ _ _ written
  have other : v.stack ≠ obj := fun same => quiet.2.1 (by simp [← quiet.1, same])
  simp [other]

theorem construct_steady (payload : Payload) (nf : Bool) : Steady c (construct payload nf) := by
  intro v a v' run
  simp only [construct, StateT.run] at run
  split at run
  · rename_i gc obj allocated
    cases run
    obtain ⟨-, grows, kept⟩ := allocObject_frame allocated
    refine ⟨⟨rfl, rfl, List.suffix_cons _ _, grows⟩, fun quiet => Vm.slots_congr rfl rfl ?_⟩
    have other : v.stack ≠ a := fun same => quiet.2.1 (by simp [← quiet.1, same])
    simp only [setPayload_payload, if_neg other]
    exact kept _ (quiet.1 ▸ quiet.2.2)
  · cases run

theorem cons_steady (a d : Nat) : Steady c (cons a d) := construct_steady _ _

theorem makeVector_steady (fill : Nat) (size : Int) : Steady c (makeVector fill size) :=
  Steady.ite _ (construct_steady _ _) (Steady.throw _)

theorem makeCompiledProc_steady (code env : Nat) : Steady c (makeCompiledProc code env) :=
  construct_steady _ _

theorem makeFixnum_steady (value : Int) : Steady c (makeFixnum value) := construct_steady _ _

theorem external_steady {α : Type}
    {call : (Nat → Option Nat) → GcState → Except VmFault (GcState × α)} (spares : Spares c call) :
    Steady c (external call) := by
  intro v a v' run
  obtain ⟨⟨gc, r⟩, called, done⟩ := except_bind_eq_ok.mp run
  cases done
  obtain ⟨grows, kept⟩ := spares _ _ _ _ called
  exact ⟨⟨rfl, rfl, List.suffix_refl _, grows⟩,
    fun quiet => Vm.slots_congr rfl rfl (by simpa [quiet.1] using kept)⟩

theorem Steady.pinned {α : Type} {body : VmM α} (l : VmLocal) (steady : Steady c body) :
    Steady c (pinned l body) :=
  (pushRootOf_steady l).bind fun _ => steady.bind fun _ =>
    (popRootOf_steady l).bind fun _ => Steady.pure _

theorem Trims.pinned {α : Type} {body : VmM α} {pops : Nat} (l : VmLocal) (trims : Trims c body pops) :
    Trims c (pinned l body) pops :=
  Trims.steady_bind (pushRootOf_steady l) fun _ => trims.bind_steady fun _ =>
    (popRootOf_steady l).bind fun _ => Steady.pure _

theorem vpush_run {v v' : Vm} {thing : Nat} {u : Unit} (run : (vpush g thing).run v = .ok (u, v')) :
    Carries v v' ∧ v'.stackTop = v.stackTop + 1 ∧ v'.locals = v.locals ∧ v'.pc = v.pc ∧
      Retouched v.gc.cells v'.gc.cells v.stack ∧
      ∀ slots, v.slots = some slots → v'.slots = some (slots ++ [thing]) := by
  obtain ⟨cells', pushed, done⟩ := except_bind_eq_ok.mp run
  cases done
  unfold vectorPush at pushed
  obtain ⟨elements, read, pushed⟩ := except_bind_eq_ok.mp pushed
  obtain ⟨grown, grownPayload, -, lt, rfl⟩ := vectorSet_ok pushed
  have vector : (v.gc.cells v.stack).payload = .vector elements := by
    unfold varray at read
    split at read <;> cases read
    assumption
  refine ⟨⟨rfl, rfl, List.suffix_refl _, le_rfl⟩, rfl, rfl, rfl,
    ⟨fun o other => by simp [setPayload, Function.update_noteq other], ⟨_, vector⟩, by simp⟩,
    fun slots stacked => ?_⟩
  obtain ⟨elements', payload, nonneg, fits, rfl⟩ := Vm.slots_vector stacked
  obtain rfl : elements' = elements := by simpa [varray, payload, pure, Except.pure] using read
  simp only [setPayload_payload, if_true, Payload.vector.injEq] at grownPayload
  have prefix' : grown.take v.stackTop.toNat = elements'.take v.stackTop.toNat := by
    rw [← grownPayload]
    split
    · exact List.take_append_of_le_length fits
    · rfl
  simp only [Vm.slots, setPayload_payload, if_true, List.length_set]
  rw [if_pos ⟨by omega, by omega⟩, show (v.stackTop + 1).toNat = v.stackTop.toNat + 1 by omega,
    take_succ_set _ lt, prefix']

theorem vpop_run {v v' : Vm} {top : Nat} (run : (vpop g).run v = .ok (top, v')) :
    Carries v v' ∧ v'.stackTop = v.stackTop - 1 ∧ v'.locals = v.locals ∧
      vectorRef v.gc.cells v.stack (v.stackTop - 1) = .ok top ∧
      Retouched v.gc.cells v'.gc.cells v.stack ∧
      ∀ slots, v.slots = some slots → ∃ rest, slots = rest ++ [top] ∧ v'.slots = some rest := by
  obtain ⟨⟨cells', old⟩, popped, done⟩ := except_bind_eq_ok.mp run
  cases done
  unfold vectorPop at popped
  obtain ⟨old', read, popped⟩ := except_bind_eq_ok.mp popped
  obtain ⟨cells'', written, popped⟩ := except_bind_eq_ok.mp popped
  cases popped
  obtain ⟨elements, payload, -, lt, rfl⟩ := vectorSet_ok written
  refine ⟨⟨rfl, rfl, List.suffix_refl _, le_rfl⟩, rfl, rfl, read,
    ⟨fun o other => by simp [setPayload, Function.update_noteq other], ⟨_, payload⟩, by simp⟩,
    fun slots stacked => ?_⟩
  obtain ⟨elements', payload', nonneg, fits, rfl⟩ := Vm.slots_vector stacked
  obtain rfl : elements = elements' := by simpa [payload] using payload'
  obtain ⟨elements'', payload'', positive, found⟩ := vectorRef_ok read
  obtain rfl : elements = elements'' := by simpa [payload] using payload''
  have split : v.stackTop.toNat = (v.stackTop - 1).toNat + 1 := by omega
  refine ⟨elements.take (v.stackTop - 1).toNat, ?_, ?_⟩
  · rw [split, List.take_succ, found]
    rfl
  · simp only [Vm.slots, setPayload_payload, if_true, List.length_set]
    rw [if_pos ⟨by omega, by omega⟩, take_set_self]

theorem vpush_trims (thing : Nat) : Trims c (vpush g thing) 0 := by
  intro v a v' run
  obtain ⟨carry, -, -, -, -, pushed⟩ := vpush_run g run
  exact ⟨carry, fun _ slots stacked => ⟨_, pushed slots stacked, by simp⟩⟩

theorem vpop_trims : Trims c (vpop g) 1 := by
  intro v a v' run
  obtain ⟨carry, -, -, -, -, popped⟩ := vpop_run g run
  refine ⟨carry, fun _ slots stacked => ?_⟩
  obtain ⟨rest, rfl, stacked'⟩ := popped slots stacked
  exact ⟨rest, stacked', by simp⟩

end Operations

section Loops

variable {c : Nat} (g : Globals)

theorem popArgs_trims (vector : Nat) (n : Nat) : Trims c (popArgs g vector n) n := by
  induction n with
  | zero => exact (Steady.pure ()).trims
  | succ n ih =>
    exact ((vpop_trims g).bind fun _ => Trims.steady_bind (setLocal_steady _ _) fun _ =>
      Trims.steady_bind (toHeap_steady _ (vectorSet_writesOne _ _)) fun _ => ih).mono (by omega)

theorem consRest_trims (vector : Nat) (idx : Int) (n : Nat) : Trims c (consRest g vector idx n) n := by
  induction n with
  | zero => exact (Steady.pure ()).trims
  | succ n ih =>
    exact ((vpop_trims g).bind fun _ => Trims.steady_bind (setLocal_steady _ _) fun _ =>
      Trims.steady_bind (onHeap_steady _) fun _ => Trims.steady_bind (cons_steady _ _) fun _ =>
      Trims.steady_bind (toHeap_steady _ (vectorSet_writesOne _ _)) fun _ => ih).mono (by omega)

theorem copyStack_steady (newStack idx n : Nat) : Steady c (copyStack newStack idx n) := by
  induction n generalizing idx with
  | zero => exact Steady.pure ()
  | succ n ih =>
    exact get_steady.bind fun _ => (onHeap_steady _).bind fun _ =>
      (toHeap_steady _ (vectorSet_writesOne _ _)).bind fun _ => ih _

theorem splatLoop_trims (fuel : Nat) (count : Int) : Trims c (splatLoop g fuel count) 0 := by
  induction fuel generalizing count with
  | zero =>
    rw [splatLoop]
    exact Trims.steady_bind (getLocal_steady _) fun _ =>
      (Steady.ite _ (Steady.pure _) (Steady.throw _)).trims
  | succ fuel ih =>
    rw [splatLoop]
    exact Trims.steady_bind (getLocal_steady _) fun _ =>
      .ite _ (Steady.pure _).trims (Trims.steady_bind (onHeap_steady _) fun _ =>
        (vpush_trims g _).bind fun _ => Trims.steady_bind (onHeap_steady _) fun _ =>
        Trims.steady_bind (setLocal_steady _ _) fun _ => ih _)

theorem resizeFrame_steady (needed : Int) : Steady c (resizeFrame g needed) :=
  (getLocal_steady _).bind fun _ => (onHeap_steady _).bind fun _ =>
    .ite _ ((makeVector_steady _ _).bind fun _ => toHeap_steady _ (setCar_writesOne _))
      (Steady.pure ())

end Loops

section Return

variable {c : Nat} (g : Globals)

theorem vmReturn_inert (obj : Nat) (message : Option String) : Inert (vmReturn obj message) :=
  (popRootOf_inert _).bind fun _ => (popRootOf_inert _).bind fun _ =>
    (popRootOf_inert _).bind fun _ => Inert.pure _

theorem vmReturn_exit {v v' : Vm} {obj : Nat} {message : Option String} {ctl : Control}
    (run : (vmReturn obj message).run v = .ok (ctl, v')) : ctl = .exit obj message := by
  obtain ⟨_, u₁, -, run⟩ := run_bind_inv run
  obtain ⟨_, u₂, -, run⟩ := run_bind_inv run
  obtain ⟨_, u₃, -, run⟩ := run_bind_inv run
  cases run
  rfl

theorem fnBegin_inert : Inert (fnBegin g) :=
  (getLocal_inert _).bind fun _ => get_inert.bind fun _ =>
    .ite _ ((onHeap_inert _).bind fun _ => (onHeap_inert _).bind fun _ =>
      (modify_inert fun _ => by exact ⟨rfl, rfl, rfl, rfl, rfl, rfl, rfl⟩).bind fun _ =>
      Inert.pure _) (vmReturn_inert _ _)

theorem fnBegin_control {v v' : Vm} {ctl : Control} (run : (fnBegin g).run v = .ok (ctl, v')) :
    ctl = .next ∨ ctl = .exit g.errorSym (some "object is not compiled-procedure") := by
  obtain ⟨fn, u₁, -, run⟩ := run_bind_inv run
  obtain ⟨w, u₂, -, run⟩ := run_bind_inv run
  split at run
  · obtain ⟨_, u₃, -, run⟩ := run_bind_inv run
    obtain ⟨_, u₄, -, run⟩ := run_bind_inv run
    obtain ⟨_, u₅, -, run⟩ := run_bind_inv run
    cases run
    exact .inl rfl
  · exact .inr (vmReturn_exit run)

theorem returnOpcode_trims : Trims c (returnOpcode g) 2 :=
  Trims.steady_bind get_steady fun _ =>
    .ite _ (((vpop_trims g).bind_steady fun _ => (vmReturn_inert _ _).steady).mono (by omega))
      ((vpop_trims g).bind fun _ => (vpop_trims g).bind fun _ =>
        Trims.steady_bind (onHeap_steady _) fun _ => Trims.steady_bind (setLocal_steady _ _) fun _ =>
        Trims.steady_bind (onHeap_steady _) fun _ => Trims.steady_bind (setPc_steady _) fun _ =>
        Trims.steady_bind (onHeap_steady _) fun _ => Trims.steady_bind (setLocal_steady _ _) fun _ =>
        (vpush_trims g _).bind_steady fun _ => (fnBegin_inert g).steady)

section Binds

variable {α β : Type} {v : Vm} {f : α → VmM β} {r : β × Vm}

theorem onHeap_bind_inv {read : Cells → Except VmFault α} (run : (onHeap read >>= f).run v = .ok r) :
    ∃ a, read v.gc.cells = .ok a ∧ (f a).run v = .ok r := by
  obtain ⟨a, u, first, rest⟩ := run_bind_inv run
  obtain ⟨a', found, done⟩ := except_bind_eq_ok.mp first
  cases done
  exact ⟨a, found, rest⟩

theorem setLocal_bind {f : Unit → VmM β} (l : VmLocal) (value : Nat) :
    (setLocal l value >>= f).run v = (f ()).run { v with locals := Function.update v.locals l value } :=
  rfl

theorem setPc_bind {f : Unit → VmM β} (pc : Int) :
    (setPc pc >>= f).run v = (f ()).run { v with pc := pc } := rfl

theorem getLocal_bind {f : Nat → VmM β} (l : VmLocal) :
    (getLocal l >>= f).run v = (f (v.locals l)).run v := rfl

theorem get_bind {f : Vm → VmM β} : (get >>= f).run v = (f v).run v := rfl

theorem pushRootOf_bind {f : Unit → VmM β} (l : VmLocal) :
    (pushRootOf l >>= f).run v = (f ()).run { v with gc := pushRoot v.gc (v.addr l) } := rfl

end Binds

/-- The triple `ret = (k . (fn . env))` holds what `fn`, `env` and `pc` hold in `v`. -/
def Restored (v : Vm) (ret : Nat) : Prop :=
  ∃ k rest, (v.gc.cells ret).payload = .pair k rest ∧
    (v.gc.cells rest).payload = .pair (v.locals .fn) (v.locals .env) ∧
      (v.gc.cells k).payload = .fixnum v.pc

theorem returnOpcode_run {v v' : Vm} {ctl : Control} {slots : List Nat}
    (run : (returnOpcode g).run v = .ok (ctl, v')) (stacked : v.slots = some slots) :
    (v.stackTop = v.initialTop + 1 ∧ ∃ rest val, slots = rest ++ [val] ∧ ctl = .exit val none) ∨
    (v.stackTop ≠ v.initialTop + 1 ∧ ∃ rest ret val, slots = rest ++ [ret, val] ∧
      v'.slots = some (rest ++ [val]) ∧ Restored v' ret ∧
      (ctl = .next ∨ ctl = .exit g.errorSym (some "object is not compiled-procedure"))) := by
  obtain ⟨w, u, got, run⟩ := run_bind_inv run
  cases got
  split at run
  · obtain ⟨val, u₁, popped, run⟩ := run_bind_inv run
    obtain ⟨rest, split, -⟩ := (vpop_run g popped).2.2.2.2.2 slots stacked
    exact .inl ⟨‹_›, rest, val, split, vmReturn_exit run⟩
  refine .inr ⟨‹_›, ?_⟩
  obtain ⟨val, u₁, popped₁, run⟩ := run_bind_inv run
  obtain ⟨ret, u₂, popped₂, run⟩ := run_bind_inv run
  obtain ⟨rest₁, split₁, stacked₁⟩ := (vpop_run g popped₁).2.2.2.2.2 slots stacked
  obtain ⟨rest, split₂, stacked₂⟩ := (vpop_run g popped₂).2.2.2.2.2 rest₁ stacked₁
  obtain ⟨fn', read₁, run⟩ := onHeap_bind_inv run
  rw [setLocal_bind] at run
  obtain ⟨pc', read₂, run⟩ := onHeap_bind_inv run
  rw [setPc_bind] at run
  obtain ⟨env', read₃, run⟩ := onHeap_bind_inv run
  rw [setLocal_bind] at run
  dsimp only at read₂ read₃
  obtain ⟨_, u₉, pushed, begun⟩ := run_bind_inv run
  obtain ⟨-, -, locals₉, pc₉, touched₉, push⟩ := vpush_run g pushed
  obtain ⟨cells, -, locals, pc, stack, top, -, -⟩ := fnBegin_inert g _ _ _ begun
  obtain ⟨rest', cdr₁, car₁⟩ := except_bind_eq_ok.mp read₁
  obtain ⟨k, car₂, long₂⟩ := except_bind_eq_ok.mp read₂
  obtain ⟨rest'', cdr₃, cdr₃'⟩ := except_bind_eq_ok.mp read₃
  have same : rest' = rest'' := by rw [cdr₁] at cdr₃; exact Except.ok.inj cdr₃
  rw [← same] at cdr₃'
  obtain ⟨d, pairRet⟩ := car_ok car₂
  obtain ⟨a, pairRet'⟩ := cdr_ok cdr₁
  obtain ⟨e, pairRest⟩ := car_ok car₁
  obtain ⟨a', pairRest'⟩ := cdr_ok cdr₃'
  rw [pairRet, Payload.pair.injEq] at pairRet'
  rw [pairRest, Payload.pair.injEq] at pairRest'
  rw [pairRet'.2] at pairRet
  rw [pairRest'.2] at pairRest
  have fixnum := long_ok long₂
  obtain ⟨elements, vector, -⟩ := Vm.slots_vector stacked₂
  have kept : ∀ o, (u₂.gc.cells o).payload ≠ .vector elements → v'.gc.cells o = u₂.gc.cells o :=
    fun o other => by rw [cells]; exact touched₉.1 o (fun same => other (same ▸ vector))
  refine ⟨rest, ret, val, by simp [split₁, split₂], ?_, ⟨k, rest', ?_, ?_, ?_⟩,
    fnBegin_control g begun⟩
  · rw [Vm.slots_congr stack top (by rw [cells])]
    exact push rest stacked₂
  · rw [kept ret (by simp [pairRet])]
    exact pairRet
  · rw [kept rest' (by simp [pairRest]), locals, locals₉]
    simpa [Function.update_noteq] using pairRest
  · rw [kept k (by simp [fixnum]), pc, pc₉]
    exact fixnum

/-- What the return sequence did when `below` stood under the value it returns: it returned
the value to `vm_execute`'s caller, or put it in place of the triple on top of `below` and
restored `fn`, `env` and `pc` from that triple. -/
def Returned (initialTop : Int) (v' : Vm) (ctl : Control) (below : List Nat) : Prop :=
  ∃ value, ((below.length : Int) = initialTop ∧ ctl = .exit value none) ∨
    ((below.length : Int) ≠ initialTop ∧ ∃ rest ret, below = rest ++ [ret] ∧
      v'.slots = some (rest ++ [value]) ∧ Restored v' ret ∧
      (ctl = .next ∨ ctl = .exit g.errorSym (some "object is not compiled-procedure")))

theorem returnOpcode_returned {v v' : Vm} {ctl : Control} {slots : List Nat}
    (run : (returnOpcode g).run v = .ok (ctl, v')) (stacked : v.slots = some slots) :
    ∃ below top, slots = below ++ [top] ∧ Returned g v.initialTop v' ctl below := by
  have length := Vm.slots_length stacked
  rcases returnOpcode_run g run stacked with ⟨native, rest, val, rfl, exit⟩ |
    ⟨nested, rest, ret, val, rfl, stacked', restored, ctl'⟩
  · refine ⟨rest, val, rfl, val, .inl ⟨?_, exit⟩⟩
    simp only [List.length_append, List.length_singleton] at length
    omega
  · refine ⟨rest ++ [ret], val, by simp, val, .inr ⟨?_, rest, ret, rfl, stacked', restored, ctl'⟩⟩
    simp only [List.length_append, List.length_cons, List.length_singleton, List.length_nil] at length ⊢
    omega

end Return

section Calls

variable {c : Nat} (g : Globals)

theorem dropArgs_run (n : Nat) {v v' : Vm} {u : Unit} (run : (dropArgs g n).run v = .ok (u, v')) :
    Carries v v' ∧ ∀ slots, v.slots = some slots →
      ∃ rest args, slots = rest ++ args ∧ args.length = n ∧ v'.slots = some rest := by
  induction n generalizing v with
  | zero =>
    cases run
    exact ⟨Carries.refl _, fun slots stacked => ⟨slots, [], by simp, rfl, stacked⟩⟩
  | succ n ih =>
    rw [dropArgs] at run
    obtain ⟨top, u₁, popped, run⟩ := run_bind_inv run
    obtain ⟨carry₁, -, -, -, -, pop⟩ := vpop_run g popped
    obtain ⟨carry₂, drop⟩ := ih run
    refine ⟨carry₁.trans carry₂, fun slots stacked => ?_⟩
    obtain ⟨rest₁, rfl, stacked₁⟩ := pop slots stacked
    obtain ⟨rest, args, rfl, length, stacked'⟩ := drop rest₁ stacked₁
    exact ⟨rest, args ++ [top], by simp, by simp [length], stacked'⟩

theorem splatLoop_run (fuel : Nat) (count : Int) {v v' : Vm} {count' : Int}
    (run : (splatLoop g fuel count).run v = .ok (count', v')) :
    Carries v v' ∧ ∀ slots, v.slots = some slots → ∃ pushed, v'.slots = some (slots ++ pushed) ∧
      count' = count + pushed.length ∧ Retouched v.gc.cells v'.gc.cells v.stack := by
  /- the end of the list pushes nothing -/
  have done : ∀ (n : Int) u, Carries u u ∧ ∀ slots, u.slots = some slots → ∃ pushed : List Nat,
      u.slots = some (slots ++ pushed) ∧ n = n + pushed.length ∧
        Retouched u.gc.cells u.gc.cells u.stack := fun _ u => ⟨Carries.refl _, fun slots stacked => by
    obtain ⟨elements, vector, -⟩ := Vm.slots_vector stacked
    exact ⟨[], by simpa using stacked, by simp, fun _ _ => rfl, ⟨_, vector⟩, _, vector⟩⟩
  induction fuel generalizing count v with
  | zero =>
    rw [splatLoop, getLocal_bind] at run
    split at run
    · cases run
      exact done _ _
    · cases run
  | succ fuel ih =>
    rw [splatLoop, getLocal_bind] at run
    split at run
    · cases run
      exact done _ _
    · obtain ⟨head, -, run⟩ := onHeap_bind_inv run
      obtain ⟨_, u₁, pushed, run⟩ := run_bind_inv run
      obtain ⟨tail, -, run⟩ := onHeap_bind_inv run
      rw [setLocal_bind] at run
      obtain ⟨carry₁, -, -, -, touched₁, push⟩ := vpush_run g pushed
      obtain ⟨carry₂, loop⟩ := ih _ run
      refine ⟨carry₁.trans ⟨carry₂.1, carry₂.2, carry₂.3, carry₂.4⟩, fun slots stacked => ?_⟩
      obtain ⟨more, stacked', counted, touched₂⟩ := loop _ (push slots stacked)
      exact ⟨head :: more, by simpa using stacked', by simp [counted]; omega,
        touched₁.trans (by rw [← carry₁.stack]; exact touched₂)⟩

theorem pinned_run {α : Type} {body : VmM α} {l : VmLocal} {v v' : Vm} {a : α}
    (run : (pinned l body).run v = .ok (a, v')) :
    ∃ u u', body.run u = .ok (a, u') ∧ u = { v with gc := pushRoot v.gc (v.addr l) } ∧
      v'.gc.cells = u'.gc.cells ∧ v'.gc.poolSize = u'.gc.poolSize ∧ v'.locals = u'.locals ∧
      v'.pc = u'.pc ∧ v'.stack = u'.stack ∧ v'.stackTop = u'.stackTop ∧
      v'.initialTop = u'.initialTop ∧ v'.written = u'.written := by
  simp only [pinned] at run
  rw [pushRootOf_bind] at run
  obtain ⟨b, u', ran, run⟩ := run_bind_inv run
  obtain ⟨_, u'', popped, done⟩ := run_bind_inv run
  cases done
  exact ⟨_, u', ran, rfl, popRootOf_inert l _ _ _ popped⟩

theorem Inert.slots {α : Type} {p : VmM α} (inert : Inert p) {v v' : Vm} {a : α}
    (run : p.run v = .ok (a, v')) : v'.slots = v.slots := by
  obtain ⟨cells, -, -, -, stack, top, -⟩ := inert v a v' run
  exact Vm.slots_congr stack top (by rw [cells])

theorem splat_run {v v' : Vm} {count : Int} (run : (splat g).run v = .ok (count, v')) :
    Carries v v' ∧ v'.locals .top = v.locals .top ∧ ∀ slots, v.slots = some slots →
      ∃ rest list pushed, slots = rest ++ [list] ∧ v'.slots = some (rest ++ pushed) ∧
        count = pushed.length ∧ Retouched v.gc.cells v'.gc.cells v.stack := by
  rw [splat, getLocal_bind, setLocal_bind] at run
  obtain ⟨u, u', body, pushedRoot, cells, pool, locals, -, stack, top, initial, written⟩ := pinned_run run
  have first : Carries v u := by subst pushedRoot; exact ⟨rfl, rfl, List.suffix_refl _, le_rfl⟩
  have entered : u.slots = v.slots := by subst pushedRoot; rfl
  have last : Carries u' v' := ⟨stack, initial, written ▸ List.suffix_refl _, pool.ge⟩
  have kept : v'.slots = u'.slots := Vm.slots_congr stack top (by rw [cells])
  obtain ⟨list, u₁, popped, body⟩ := run_bind_inv body
  rw [setLocal_bind, get_bind] at body
  obtain ⟨count', u₂, looped, body⟩ := run_bind_inv body
  rw [setLocal_bind] at body
  cases body
  obtain ⟨carry₁, -, -, -, touched₁, pop⟩ := vpop_run g popped
  obtain ⟨carry₂, loop⟩ := splatLoop_run g _ _ looped
  refine ⟨first.trans ((carry₁.trans ⟨carry₂.1, carry₂.2, carry₂.3, carry₂.4⟩).trans
    ⟨last.1, last.2, last.3, last.4⟩), by rw [locals]; simp, fun slots stacked => ?_⟩
  obtain ⟨rest, rfl, stacked₁⟩ := pop slots (entered.trans stacked)
  obtain ⟨pushed, stacked₂, counted, touched₂⟩ := loop rest stacked₁
  refine ⟨rest, list, pushed, rfl, kept.trans stacked₂, by simpa using counted, ?_⟩
  have same : u.gc.cells = v.gc.cells := by subst pushedRoot; rfl
  rw [cells, ← same, ← first.stack]
  exact touched₁.trans (by rw [← carry₁.stack]; exact touched₂)

theorem popCallee_run {v v' : Vm} {u : Unit} (run : (popCallee g).run v = .ok (u, v')) :
    Carries v v' ∧ v'.nArgs = v.nArgs ∧ ∃ top, vectorRef v.gc.cells v.stack (v.stackTop - 1) = .ok top ∧
      v'.locals .top = unwrapMeta v.gc.cells top ∧ Retouched v.gc.cells v'.gc.cells v.stack ∧
      ∀ slots, v.slots = some slots → ∃ rest, slots = rest ++ [top] ∧ v'.slots = some rest := by
  obtain ⟨top, u₁, popped, run⟩ := run_bind_inv run
  rw [setLocal_bind] at run
  obtain ⟨unwrapped, read, run⟩ := onHeap_bind_inv run
  cases run
  obtain ⟨carry, -, -, found, touched, pop⟩ := vpop_run g popped
  simp only [pure, Except.pure, Except.ok.injEq] at read
  have nArgs : u₁.nArgs = v.nArgs := by
    obtain ⟨_, -, done⟩ := except_bind_eq_ok.mp popped
    cases done
    rfl
  refine ⟨⟨carry.1, carry.2, carry.3, carry.4⟩, nArgs, top, found, ?_, touched, pop⟩
  simp [← read, touched.unwrapMeta]

theorem Quiet.mid {c : Nat} {u v w z : Vm} (first : Carries u v) (second : Carries v w)
    (third : Carries w z) (quiet : Quiet c u z) : Quiet c v w :=
  ((quiet.split (first.trans second) third).1.split first second).2

variable {x : Externals}

theorem callPrimitive_run (spare : x.Spare c) {v v' : Vm} {ctl : Control} {primitive : Nat}
    {argsForCall : Int} (run : (callPrimitive x g primitive argsForCall).run v = .ok (ctl, v')) :
    Carries v v' ∧ (Quiet c v v' → ∀ slots, v.slots = some slots → ∃ below args,
      slots = below ++ args ∧ args.length = argsForCall.toNat ∧ Returned g v.initialTop v' ctl below) := by
  rw [callPrimitive, getLocal_bind, setLocal_bind] at run
  obtain ⟨_, u, pinnedRun, returned⟩ := run_bind_inv run
  obtain ⟨w, w', body, pushedRoot, cells, pool, -, -, stack, top, initial, written⟩ := pinned_run pinnedRun
  have first : Carries v w := by subst pushedRoot; exact ⟨rfl, rfl, List.suffix_refl _, le_rfl⟩
  have entered : w.slots = v.slots := by subst pushedRoot; rfl
  have last : Carries w' u := ⟨stack, initial, written ▸ List.suffix_refl _, pool.ge⟩
  have left : u.slots = w'.slots := Vm.slots_congr stack top (by rw [cells])
  rw [get_bind] at body
  obtain ⟨result, w₁, called, body⟩ := run_bind_inv body
  rw [setLocal_bind] at body
  obtain ⟨_, w₂, dropped, pushed⟩ := run_bind_inv body
  obtain ⟨carry₁, kept₁⟩ := external_steady (spare.primitive _ _ _ _) w result w₁ called
  obtain ⟨carry₂, drop⟩ := dropArgs_run g _ dropped
  obtain ⟨carry₃, -, -, -, -, push⟩ := vpush_run g pushed
  have carry₄ := ((returnOpcode_trims (c := c) g) u ctl v' returned).1
  have carry₂' : Carries w₁ w₂ := ⟨carry₂.1, carry₂.2, carry₂.3, carry₂.4⟩
  refine ⟨first.trans (carry₁.trans (carry₂'.trans (carry₃.trans (last.trans carry₄)))),
    fun quiet slots stacked => ?_⟩
  have quiet₁ : Quiet c w w₁ :=
    Quiet.mid first carry₁ (carry₂'.trans (carry₃.trans (last.trans carry₄))) quiet
  obtain ⟨below, args, rfl, length, stacked₂⟩ :=
    drop slots ((kept₁ quiet₁).trans (entered.trans stacked))
  obtain ⟨below', result', split, returned'⟩ :=
    returnOpcode_returned g returned (left.trans (push below stacked₂))
  rw [← (List.append_inj' split rfl).1] at returned'
  have initial : u.initialTop = v.initialTop :=
    (first.trans (carry₁.trans (carry₂'.trans (carry₃.trans last)))).initialTop
  exact ⟨below, args, rfl, length, initial ▸ returned'⟩

end Calls

section Grows

variable {c : Nat} {α β : Type}

/-- `p` pushes exactly `pushes` values on the live stack `c` and touches nothing under them. -/
def Grows (p : VmM α) (pushes : Nat) : Prop :=
  ∀ v a v', p.run v = .ok (a, v') → Carries v v' ∧ (Quiet c v v' → ∀ slots, v.slots = some slots →
    ∃ pushed, pushed.length = pushes ∧ v'.slots = some (slots ++ pushed))

theorem Steady.grows {p : VmM α} (steady : Steady c p) : Grows (c := c) p 0 := by
  intro v a v' run
  obtain ⟨carry, kept⟩ := steady v a v' run
  exact ⟨carry, fun quiet slots stacked => ⟨[], rfl, by simpa [kept quiet] using stacked⟩⟩

theorem Grows.bind {p : VmM α} {f : α → VmM β} {m n : Nat} (first : Grows (c := c) p m)
    (rest : ∀ a, Grows (c := c) (f a) n) : Grows (c := c) (p >>= f) (m + n) := by
  intro v b v' run
  obtain ⟨a, u, run₁, run₂⟩ := run_bind_inv run
  obtain ⟨carry₁, grow₁⟩ := first v a u run₁
  obtain ⟨carry₂, grow₂⟩ := rest a u b v' run₂
  refine ⟨carry₁.trans carry₂, fun quiet slots stacked => ?_⟩
  obtain ⟨quiet₁, quiet₂⟩ := quiet.split carry₁ carry₂
  obtain ⟨pushed₁, length₁, stacked₁⟩ := grow₁ quiet₁ slots stacked
  obtain ⟨pushed₂, length₂, stacked₂⟩ := grow₂ quiet₂ _ stacked₁
  exact ⟨pushed₁ ++ pushed₂, by simp [length₁, length₂], by simpa using stacked₂⟩

theorem vpush_grows (g : Globals) (thing : Nat) : Grows (c := c) (vpush g thing) 1 := by
  intro v a v' run
  obtain ⟨carry, -, -, -, -, pushed⟩ := vpush_run g run
  exact ⟨carry, fun _ slots stacked => ⟨[thing], rfl, pushed slots stacked⟩⟩

theorem Grows.pinned {body : VmM α} {n : Nat} (l : VmLocal) (grows : Grows (c := c) body n) :
    Grows (c := c) (pinned l body) n := by
  simpa using (pushRootOf_steady l).grows.bind fun _ => grows.bind fun _ =>
    ((popRootOf_steady l).bind fun _ => Steady.pure _).grows

end Grows

/-- How one instruction moves between activations, as far as the stack shows it. -/
inductive Move where
  /-- stays in its activation and changes none of its slots below the top `pops` -/
  | within (pops : Nat)
  /-- `save`: pushes a triple -/
  | save
  /-- `fcallj` to compiled code with `args` arguments: pops the callee and leaves the arguments
  for it -/
  | call (args : Nat)
  /-- the return sequence, after the top `dropped` slots gave way to one value: `return`, and a
  call of a primitive, whose arguments and callee give way to its result -/
  | leave (dropped : Nat)
  deriving DecidableEq, Repr

/-- `LONG(ARG1(instr))`: the count of `args`, `argsdot` and the call opcodes. -/
def countOf (cells : Cells) (instr : Nat) : Int :=
  match (do long cells (← arg1 cells instr)) with
  | .ok count => count
  | .error _ => 0

theorem countOf_retouched {cells cells' : Cells} {s : Nat} (touched : Retouched cells cells' s)
    (instr : Nat) : countOf cells' instr = countOf cells instr := by
  simp only [countOf, touched.arg1, touched.long]

/-- The callee a call opcode pops, with any META_PROC unwrapped. -/
def Vm.callee (v : Vm) : Callee :=
  match vectorRef v.gc.cells v.stack (v.stackTop - 1) with
  | .ok top => calleeOf v.gc.cells (unwrapMeta v.gc.cells top)
  | .error _ => .other

/-- The move of each opcode, from `n_args`, the instruction's count and the callee. -/
def Move.ofOpcode (nArgs count : Int) (callee : Callee) : Opcode → Move
  | .args => .within count.toNat
  | .argsdot => .within ((nArgs - count).toNat + count.toNat)
  | .«return» => .leave 1
  | .fjump | .tjump | .pop => .within 1
  | .save => .save
  | .fcallj =>
    match callee with
    | .compiled => .call count.toNat
    | .primitive _ => .leave (count.toNat + 1)
    | .other => .within 1
  | .callj =>
    match callee with
    | .primitive _ => .leave (if count = -1 then 2 else count.toNat + 1)
    | _ => .within (if count = -1 then 2 else 1)
  | .setcc => .within 2
  | .const | .fn | .jump | .lvar | .gvar | .lset | .gset | .cc => .within 0

/-- The move of the instruction at `pc`, decoded as `vm_begin` decodes it. -/
def Vm.move (v : Vm) : Move :=
  if v.pc ≥ v.numCodes then .within 0
  else
    match (do
        let instr ← vectorRef v.gc.cells v.codeArray v.pc
        pure (instr, Opcode.ofCode (← char v.gc.cells (← car v.gc.cells instr)))) with
    | .ok (instr, some opcode) => Move.ofOpcode v.nArgs (countOf v.gc.cells instr) v.callee opcode
    | _ => .within 0

/-- What a step of move `m` from `v`, whose slots are `slots`, to `v'` ending in `ctl` does to
the stack. -/
def Moves (g : Globals) (v v' : Vm) (ctl : Control) (slots : List Nat) : Move → Prop
  | .within pops => ∃ slots', v'.slots = some slots' ∧ slots.take (slots.length - pops) <+: slots'
  | .save => ∃ triple, v'.slots = some (slots ++ [triple])
  | .call _ => ∃ slots', v'.slots = some slots' ∧ slots.take (slots.length - 1) <+: slots'
  | .leave dropped => ∃ below tail, slots = below ++ tail ∧
      tail.length = dropped ∧ Returned g v.initialTop v' ctl below

section Opcodes

variable {c : Nat} (g : Globals) {x : Externals}

/-- The outcome of running `p` from `v`, seen through the stack: what it keeps, and the move `m`. -/
def MovesBy (p : VmM Control) (v : Vm) (m : Move) : Prop :=
  ∀ ctl v', p.run v = .ok (ctl, v') → Carries v v' ∧
    (Quiet c v v' → ∀ slots, v.slots = some slots → Moves g v v' ctl slots m)

theorem Trims.movesBy {p : VmM Control} {pops : Nat} (trims : Trims c p pops) (v : Vm) :
    MovesBy (c := c) g p v (.within pops) :=
  fun ctl v' run => trims v ctl v' run

theorem jumpIf_steady (taken : Bool) (instr : Nat) : Steady c (jumpIf taken instr) :=
  .ite _ ((onHeap_steady _).bind fun _ => (setPc_steady _).bind fun _ => Steady.pure _)
    (Steady.pure _)

theorem vmFail_steady (message : String) : Steady c (vmFail g message) := (vmReturn_inert _ _).steady

theorem argsOp_movesBy (instr : Nat) (v : Vm) :
    MovesBy (c := c) g (argsOp g instr) v (.within (countOf v.gc.cells instr).toNat) := by
  intro ctl v' run
  obtain ⟨numArgs, read, run⟩ := onHeap_bind_inv run
  rw [get_bind] at run
  have count : countOf v.gc.cells instr = numArgs := by simp only [countOf, read]
  rw [count]
  exact (Trims.ite _ ((vmFail_steady g _).trims.mono (Nat.zero_le _))
    (Trims.steady_bind (resizeFrame_steady g _) fun _ => Trims.steady_bind (getLocal_steady _) fun _ =>
      Trims.steady_bind (onHeap_steady _) fun _ => (popArgs_trims g _ _).bind_steady fun _ =>
      Steady.pure _)) v ctl v' run

theorem argsdotOp_movesBy (instr : Nat) (v : Vm) :
    MovesBy (c := c) g (argsdotOp g instr) v
      (.within ((v.nArgs - countOf v.gc.cells instr).toNat + (countOf v.gc.cells instr).toNat)) := by
  intro ctl v' run
  obtain ⟨reqArgs, read, run⟩ := onHeap_bind_inv run
  rw [get_bind] at run
  have count : countOf v.gc.cells instr = reqArgs := by simp only [countOf, read]
  rw [count]
  exact (Trims.ite _ (Trims.steady_bind (resizeFrame_steady g _) fun _ =>
      Trims.steady_bind (getLocal_steady _) fun _ => Trims.steady_bind (onHeap_steady _) fun _ =>
      Trims.steady_bind (toHeap_steady _ (vectorSet_writesOne _ _)) fun _ =>
      (consRest_trims g _ _ _).bind fun _ => (popArgs_trims g _ _).bind_steady fun _ => Steady.pure _)
    ((vmFail_steady g _).trims.mono (Nat.zero_le _))) v ctl v' run

theorem returnOpcode_movesBy (v : Vm) : MovesBy (c := c) g (returnOpcode g) v (.leave 1) := by
  intro ctl v' run
  refine ⟨((returnOpcode_trims (c := c) g) v ctl v' run).1, fun _ slots stacked => ?_⟩
  obtain ⟨below, top, rfl, returned⟩ := returnOpcode_returned g run stacked
  exact ⟨below, [top], rfl, rfl, returned⟩

theorem saveOp_movesBy (instr : Nat) (v : Vm) : MovesBy (c := c) g (saveOp g instr) v .save := by
  intro ctl v' run
  have grows : Grows (c := c) (saveOp g instr) 1 :=
    (getLocal_steady _).grows.bind fun _ => (getLocal_steady _).grows.bind fun _ =>
      (cons_steady _ _).grows.bind fun _ => (setLocal_steady _ _).grows.bind fun _ =>
      (Grows.pinned _ ((onHeap_steady _).grows.bind fun _ => (getLocal_steady _).grows.bind fun _ =>
        (cons_steady _ _).grows.bind fun _ => (setLocal_steady _ _).grows.bind fun _ =>
        vpush_grows g _)).bind fun _ => (Steady.pure _).grows
  obtain ⟨carry, grow⟩ := grows v ctl v' run
  refine ⟨carry, fun quiet slots stacked => ?_⟩
  obtain ⟨pushed, length, stacked'⟩ := grow quiet slots stacked
  obtain ⟨triple, rfl⟩ := List.length_eq_one.mp length
  exact ⟨triple, stacked'⟩

/-- What calling the callee in `top` from `u` with `n` arguments does to the stack: a primitive
returns at once through the return sequence, compiled code starts with its arguments in place,
and anything else is a failed `VM_ASSERT`. -/
def CallMoves (u v' : Vm) (ctl : Control) (n : Int) (slots : List Nat) : Callee → Prop
  | .primitive _ => ∃ below args, slots = below ++ args ∧ args.length = n.toNat ∧
      Returned g u.initialTop v' ctl below
  | _ => v'.slots = some slots

theorem fcalljTo_callMoves (spare : x.Spare c) (n : Int) {u v' : Vm} {ctl : Control}
    (run : (fcalljTo x g n).run u = .ok (ctl, v')) :
    Carries u v' ∧ (Quiet c u v' → ∀ slots, u.slots = some slots →
      CallMoves g u v' ctl n slots (calleeOf u.gc.cells (u.locals .top))) := by
  rw [fcalljTo, getLocal_bind, get_bind] at run
  split at run
  · rename_i compiled
    have steady : Steady c (do
        setLocal .fn (u.locals .top); setPc 0; setNArgs n
        setLocal .env (← onHeap (cenv · (u.locals .top)))
        let newframe ← makeVector g.theEmptyList (n + 1)
        setLocal .newframe newframe
        pinned .newframe (do setLocal .env (← cons newframe (← getLocal .env)))
        fnBegin g) :=
      (setLocal_steady _ _).bind fun _ => (setPc_steady _).bind fun _ =>
        (setNArgs_steady _).bind fun _ => (onHeap_steady _).bind fun _ =>
        (setLocal_steady _ _).bind fun _ => (makeVector_steady _ _).bind fun _ =>
        (setLocal_steady _ _).bind fun _ => (Steady.pinned _ ((getLocal_steady _).bind fun _ =>
          (cons_steady _ _).bind fun _ => setLocal_steady _ _)).bind fun _ => (fnBegin_inert g).steady
    obtain ⟨carry, kept⟩ := steady u ctl v' run
    exact ⟨carry, fun quiet slots stacked => by
      rw [compiled]; exact (kept quiet).trans stacked⟩
  · rename_i primitive primitiveOf
    obtain ⟨carry, returned⟩ := callPrimitive_run g spare run
    exact ⟨carry, fun quiet slots stacked => by rw [primitiveOf]; exact returned quiet slots stacked⟩
  · rename_i other
    obtain ⟨carry, kept⟩ := vmFail_steady (c := c) g _ u ctl v' run
    exact ⟨carry, fun quiet slots stacked => by rw [other]; exact (kept quiet).trans stacked⟩

theorem calljTo_callMoves (spare : x.Spare c) (n : Int) {u v' : Vm} {ctl : Control}
    (run : (calljTo x g n).run u = .ok (ctl, v')) :
    Carries u v' ∧ (Quiet c u v' → ∀ slots, u.slots = some slots →
      CallMoves g u v' ctl n slots (calleeOf u.gc.cells (u.locals .top))) := by
  rw [calljTo, getLocal_bind, get_bind] at run
  split at run
  · rename_i compiled
    have steady : Steady c (do
        setLocal .fn (u.locals .top); setPc 0; setNArgs n
        let fnEnv ← onHeap (cenv · (u.locals .top))
        toHeap (← getLocal .env) (setCdr · · fnEnv)
        fnBegin g) :=
      (setLocal_steady _ _).bind fun _ => (setPc_steady _).bind fun _ =>
        (setNArgs_steady _).bind fun _ => (onHeap_steady _).bind fun _ =>
        (getLocal_steady _).bind fun _ => (toHeap_steady _ (setCdr_writesOne _)).bind fun _ =>
        (fnBegin_inert g).steady
    obtain ⟨carry, kept⟩ := steady u ctl v' run
    exact ⟨carry, fun quiet slots stacked => by
      rw [compiled]; exact (kept quiet).trans stacked⟩
  · rename_i primitive primitiveOf
    obtain ⟨carry, returned⟩ := callPrimitive_run g spare run
    exact ⟨carry, fun quiet slots stacked => by rw [primitiveOf]; exact returned quiet slots stacked⟩
  · rename_i other
    obtain ⟨carry, kept⟩ := vmFail_steady (c := c) g _ u ctl v' run
    exact ⟨carry, fun quiet slots stacked => by rw [other]; exact (kept quiet).trans stacked⟩

theorem returned_of_popped {v u v' : Vm} {ctl : Control} {n : Int} {rest : List Nat} {top p : Nat}
    (initial : u.initialTop = v.initialTop)
    (moved : CallMoves g u v' ctl n rest (.primitive p)) :
    ∃ below tail, rest ++ [top] = below ++ tail ∧ tail.length = n.toNat + 1 ∧
      Returned g v.initialTop v' ctl below := by
  obtain ⟨below, args, rfl, length, returned⟩ := moved
  exact ⟨below, args ++ [top], by simp, by simp [length], initial ▸ returned⟩

theorem popCallee_decoded {v u : Vm} {r : Unit} (popped : (popCallee g).run v = .ok (r, u))
    (instr : Nat) : countOf u.gc.cells instr = countOf v.gc.cells instr ∧
      calleeOf u.gc.cells (u.locals .top) = v.callee := by
  obtain ⟨-, -, top, found, unwrapped, touched, -⟩ := popCallee_run g popped
  exact ⟨countOf_retouched touched instr, by simp only [Vm.callee, found, unwrapped, touched.calleeOf]⟩

theorem fcalljOp_movesBy (spare : x.Spare c) (instr : Nat) (v : Vm) :
    MovesBy (c := c) g (fcalljOp x g instr) v
      (Move.ofOpcode v.nArgs (countOf v.gc.cells instr) v.callee .fcallj) := by
  intro ctl v' run
  obtain ⟨_, u, popped, run⟩ := run_bind_inv run
  obtain ⟨carry₁, -, top, -, -, -, pop⟩ := popCallee_run g popped
  obtain ⟨count, callee⟩ := popCallee_decoded g popped instr
  obtain ⟨n, read, run⟩ := onHeap_bind_inv run
  have counted : countOf u.gc.cells instr = n := by simp only [countOf, read]
  obtain ⟨carry₂, call⟩ := fcalljTo_callMoves g spare n run
  refine ⟨carry₁.trans carry₂, fun quiet slots stacked => ?_⟩
  obtain ⟨rest, rfl, stacked₁⟩ := pop slots stacked
  have moved := call (quiet.split carry₁ carry₂).2 rest stacked₁
  rw [← count, counted, ← callee]
  generalize calleeOf u.gc.cells (u.locals .top) = callee at moved
  cases callee with
  | compiled => exact ⟨rest, moved, by simp⟩
  | primitive p => exact returned_of_popped g carry₁.initialTop moved
  | other => exact ⟨rest, moved, by simp⟩

theorem calljOp_movesBy (spare : x.Spare c) (instr : Nat) (v : Vm) :
    MovesBy (c := c) g (calljOp x g instr) v
      (Move.ofOpcode v.nArgs (countOf v.gc.cells instr) v.callee .callj) := by
  intro ctl v' run
  obtain ⟨_, u, popped, run⟩ := run_bind_inv run
  obtain ⟨carry₁, -, top, -, -, -, pop⟩ := popCallee_run g popped
  obtain ⟨count, callee⟩ := popCallee_decoded g popped instr
  obtain ⟨n, read, run⟩ := onHeap_bind_inv run
  have counted : countOf u.gc.cells instr = n := by simp only [countOf, read]
  rw [← count, counted, ← callee]
  unfold calljWith at run
  split at run
  case isTrue splatted =>
    obtain ⟨k, w, spread, run⟩ := run_bind_inv run
    obtain ⟨carry₂, kept, splatting⟩ := splat_run g spread
    obtain ⟨carry₃, call⟩ := calljTo_callMoves g spare k run
    refine ⟨carry₁.trans (carry₂.trans carry₃), fun quiet slots stacked => ?_⟩
    obtain ⟨rest, rfl, stacked₁⟩ := pop slots stacked
    obtain ⟨below, list, pushed, rfl, stacked₂, pushedCount, touched⟩ := splatting rest stacked₁
    have moved := call (quiet.split (carry₁.trans carry₂) carry₃).2 _ stacked₂
    rw [kept, touched.calleeOf] at moved
    generalize calleeOf u.gc.cells (u.locals .top) = callee at moved
    simp only [Move.ofOpcode, if_pos splatted]
    cases callee with
    | primitive p =>
      obtain ⟨below', args, split, length, returned⟩ := moved
      have same := (List.append_inj' split (by omega)).1
      subst same
      exact ⟨below, [list, top], by simp, rfl, (carry₁.trans carry₂).initialTop ▸ returned⟩
    | compiled | other => exact ⟨_, moved, by simp⟩
  case isFalse direct =>
    obtain ⟨carry₂, call⟩ := calljTo_callMoves g spare n run
    refine ⟨carry₁.trans carry₂, fun quiet slots stacked => ?_⟩
    obtain ⟨rest, rfl, stacked₁⟩ := pop slots stacked
    have moved := call (quiet.split carry₁ carry₂).2 rest stacked₁
    generalize calleeOf u.gc.cells (u.locals .top) = callee at moved
    simp only [Move.ofOpcode, if_neg direct]
    cases callee with
    | primitive p => exact returned_of_popped g carry₁.initialTop moved
    | compiled | other => exact ⟨rest, moved, by simp⟩

theorem execute_movesBy (spare : x.Spare c) (instr : Nat) (opcode : Opcode) (v : Vm) :
    MovesBy (c := c) g (execute x g instr opcode) v
      (Move.ofOpcode v.nArgs (countOf v.gc.cells instr) v.callee opcode) := by
  cases opcode
  case args => exact argsOp_movesBy g instr v
  case argsdot => exact argsdotOp_movesBy g instr v
  case «return» => exact returnOpcode_movesBy g v
  case save => exact saveOp_movesBy g instr v
  case fcallj => exact fcalljOp_movesBy g spare instr v
  case callj => exact calljOp_movesBy g spare instr v
  case setcc =>
    intro ctl v' run
    rw [execute, setccOp_undefined] at run
    cases run
  case const =>
    exact Trims.movesBy g (Trims.steady_bind (onHeap_steady _) fun _ =>
      (vpush_trims g _).bind_steady fun _ => Steady.pure _) v
  case fn =>
    exact Trims.movesBy g (Trims.steady_bind (onHeap_steady _) fun _ =>
      Trims.steady_bind (getLocal_steady _) fun _ =>
      Trims.steady_bind (makeCompiledProc_steady _ _) fun _ =>
      Trims.steady_bind (setLocal_steady _ _) fun _ =>
      (Trims.pinned _ (vpush_trims g _)).bind_steady fun _ => Steady.pure _) v
  case fjump | tjump =>
    exact Trims.movesBy g ((vpop_trims g).bind_steady fun _ => (setLocal_steady _ _).bind fun _ =>
      jumpIf_steady _ _) v
  case jump => exact Trims.movesBy g (jumpIf_steady _ _).trims v
  case lvar =>
    exact Trims.movesBy g (Trims.steady_bind (onHeap_steady _) fun _ =>
      Trims.steady_bind (onHeap_steady _) fun _ => Trims.steady_bind (getLocal_steady _) fun _ =>
      Trims.steady_bind (onHeap_steady _) fun _ => (vpush_trims g _).bind_steady fun _ =>
      Steady.pure _) v
  case gvar =>
    exact Trims.movesBy g (Trims.steady_bind (onHeap_steady _) fun _ =>
      Trims.steady_bind (external_steady (spare.lookupGlobalValue _)) fun _ =>
      Trims.steady_bind (setLocal_steady _ _) fun _ =>
      (Trims.pinned _ (vpush_trims g _)).bind_steady fun _ => Steady.pure _) v
  case lset =>
    exact Trims.movesBy g (Steady.trims ((onHeap_steady _).bind fun _ =>
      (onHeap_steady _).bind fun _ => (getLocal_steady _).bind fun _ =>
      (onHeap_steady _).bind fun _ => get_steady.bind fun _ => (onHeap_steady _).bind fun _ =>
      (toHeap_steady _ (vectorSet_writesOne _ _)).bind fun _ => Steady.pure _)) v
  case gset =>
    exact Trims.movesBy g (Steady.trims ((onHeap_steady _).bind fun _ => get_steady.bind fun _ =>
      (onHeap_steady _).bind fun _ =>
      (external_steady (spare.defineGlobalVariable _ _)).bind fun _ => Steady.pure _)) v
  case cc =>
    exact Trims.movesBy g (Trims.steady_bind (makeVector_steady _ _) fun _ =>
      Trims.steady_bind (setLocal_steady _ _) fun _ => Trims.steady_bind (Steady.pinned _
        (get_steady.bind fun _ => (onHeap_steady _).bind fun _ =>
        (makeVector_steady _ _).bind fun _ => (setLocal_steady _ _).bind fun _ =>
        (Steady.pinned _ (get_steady.bind fun _ => (copyStack_steady _ _ _).bind fun _ =>
          (toHeap_steady _ (vectorSet_writesOne _ _)).bind fun _ => get_steady.bind fun _ =>
          (makeFixnum_steady _).bind fun _ => toHeap_steady _ (vectorSet_writesOne _ _))).bind fun _ =>
        (cons_steady _ _).bind fun _ => (setLocal_steady _ _).bind fun _ =>
        makeCompiledProc_steady _ _)) fun _ =>
      (vpush_trims g _).bind_steady fun _ => Steady.pure _) v
  case pop =>
    exact Trims.movesBy g ((vpop_trims g).bind_steady fun _ => (setLocal_steady _ _).bind fun _ =>
      Steady.pure _) v

theorem dispatch_movesBy (spare : x.Spare c) (v : Vm) :
    MovesBy (c := c) g (dispatch x g) v v.move := by
  intro ctl v' run
  rw [dispatch, get_bind] at run
  unfold Vm.move
  split at run
  case isTrue => cases run
  case isFalse inRange =>
    rw [if_neg inRange]
    obtain ⟨instr, fetched, run⟩ := onHeap_bind_inv run
    rw [setPc_bind] at run
    obtain ⟨op, decoded, run⟩ := onHeap_bind_inv run
    obtain ⟨opcodeCell, carOf, charOf⟩ := except_bind_eq_ok.mp decoded
    simp only [fetched, carOf, charOf, bind, Except.bind, pure, Except.pure]
    split at run
    case h_1 opcode decodedSome =>
      rw [decodedSome]
      obtain ⟨carry, moved⟩ := execute_movesBy g spare instr opcode _ ctl v' run
      exact ⟨⟨carry.1, carry.2, carry.3, carry.4⟩, moved⟩
    case h_2 decodedNone =>
      rw [decodedNone]
      obtain ⟨carry, moved⟩ := Trims.movesBy g (vmFail_steady g _).trims _ ctl v' run
      exact ⟨⟨carry.1, carry.2, carry.3, carry.4⟩, moved⟩

end Opcodes

end BrianScheme
