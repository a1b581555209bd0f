import BrianScheme.Vm.Stack
import BrianScheme.Vm.Roots

/-! `apply`'s splat against a direct call. `callj -1` pops an argument list and pushes its
elements before it calls; `callj k` finds them pushed already. Both calls reach `calljTo k` in
twin states (`VmTwin`): states that differ only where the splat leaves traces, in the variable
`target_fn`, in Roots' array from its top up, in the stack vector from `stack_top` up and in
what `vm_fn_begin` loaded. Every operation a call is made of takes twins to twins or to the
same fault (`Paired`), so the two calls end alike. -/

namespace BrianScheme

section ProperList

variable (g : Globals) (cells : Cells)

/-- `list` is the proper list of `elements`: pairs other than the empty list, linked by their
`cdr` and ending at the empty list. -/
def ProperList : Nat → List Nat → Prop
  | list, [] => list = g.theEmptyList
  | list, x :: xs => list ≠ g.theEmptyList ∧
      ∃ rest, (cells list).payload = .pair x rest ∧ ProperList rest xs

variable {g cells}

theorem ProperList.unique {list : Nat} {xs ys : List Nat} (first : ProperList g cells list xs)
    (second : ProperList g cells list ys) : xs = ys := by
  induction xs generalizing list ys with
  | nil =>
    cases ys with
    | nil => rfl
    | cons y ys => exact absurd first second.1
  | cons x xs ih =>
    cases ys with
    | nil => exact absurd second first.1
    | cons y ys =>
      obtain ⟨-, rest, pair, tail⟩ := first
      obtain ⟨-, rest', pair', tail'⟩ := second
      obtain ⟨rfl, rfl⟩ : x = y ∧ rest = rest' := by simpa [pair] using pair'
      rw [ih tail tail']

theorem ProperList.spine {list : Nat} {xs : List Nat} (listed : ProperList g cells list xs) :
    ∃ spine : List Nat, spine.length = xs.length ∧ spine.Nodup ∧
      ∀ c ∈ spine, (∃ x rest, (cells c).payload = .pair x rest) ∧
        ∃ ys, ys.length ≤ xs.length ∧ ProperList g cells c ys := by
  induction xs generalizing list with
  | nil => exact ⟨[], rfl, List.nodup_nil, by simp⟩
  | cons x xs ih =>
    obtain ⟨nonEmpty, rest, pair, tail⟩ := id listed
    obtain ⟨spine, length, nodup, each⟩ := ih tail
    have fresh : list ∉ spine := fun mem => by
      obtain ⟨-, ys, short, again⟩ := each list mem
      rw [← listed.unique again] at short
      simp only [List.length_cons] at short; omega
    refine ⟨list :: spine, by simp [length], List.nodup_cons.mpr ⟨fresh, nodup⟩, ?_⟩
    rintro c (_ | ⟨_, mem⟩)
    · exact ⟨⟨x, rest, pair⟩, x :: xs, le_rfl, nonEmpty, rest, pair, tail⟩
    · obtain ⟨isPair, ys, short, again⟩ := each c mem
      exact ⟨isPair, ys, by simp; omega, again⟩

/-- A proper list whose pairs are cells of a pool of `size` cells has at most `size` elements:
the fuel `splat` gives its loop is enough. -/
theorem ProperList.length_le {list size : Nat} {xs : List Nat} (listed : ProperList g cells list xs)
    (beyond : ∀ a, size ≤ a → (cells a).payload = .uninitialized) : xs.length ≤ size := by
  obtain ⟨spine, length, nodup, each⟩ := listed.spine
  have inPool : spine ⊆ List.range size := fun c mem => by
    obtain ⟨⟨x, rest, pair⟩, -⟩ := each c mem
    refine List.mem_range.mpr (Nat.lt_of_not_le fun outside => ?_)
    simp [beyond c outside] at pair
  simpa [length] using (nodup.subperm inPool).length_le

end ProperList

section Restack

/-- `cells'` is `cells` with the payload of the vector `s` replaced by another vector. -/
structure Restacked (s : Nat) (cells cells' : Cells) : Prop where
  other : ∀ a ≠ s, cells' a = cells a
  links : cells' s = { cells s with payload := (cells' s).payload }
  before : ∃ elements, (cells s).payload = .vector elements
  after : ∃ elements, (cells' s).payload = .vector elements

variable {s : Nat} {cells cells' cells'' : Cells}

theorem Restacked.setPayload {elements : List Nat} (vector : ∃ e, (cells s).payload = .vector e) :
    Restacked s cells (setPayload cells s (.vector elements)) :=
  ⟨fun a other => by simp [BrianScheme.setPayload, Function.update_noteq other], by
    simp [BrianScheme.setPayload], vector, elements, by simp⟩

theorem Restacked.trans (first : Restacked s cells cells') (second : Restacked s cells' cells'') :
    Restacked s cells cells'' :=
  ⟨fun a other => (second.other a other).trans (first.other a other),
    by rw [second.links, first.links], first.before, second.after⟩

theorem Restacked.setPayload_other {obj : Nat} (restacked : Restacked s cells cells')
    (other : obj ≠ s) (payload : Payload) :
    Restacked s (BrianScheme.setPayload cells obj payload)
      (BrianScheme.setPayload cells' obj payload) := by
  have kept : ∀ c : Cells, BrianScheme.setPayload c obj payload s = c s := fun c => by
    simp [BrianScheme.setPayload, Function.update_noteq (Ne.symm other)]
  refine ⟨fun a ne => ?_, by rw [kept, kept, restacked.links], ?_, ?_⟩
  · by_cases here : a = obj
    · subst here
      simp [BrianScheme.setPayload, restacked.other a ne]
    · simp [BrianScheme.setPayload, Function.update_noteq here, restacked.other a ne]
  · simpa [kept] using restacked.before
  · simpa [kept] using restacked.after

theorem Restacked.setPayload_both (restacked : Restacked s cells cells') (e e' : List Nat) :
    Restacked s (BrianScheme.setPayload cells s (.vector e))
      (BrianScheme.setPayload cells' s (.vector e')) :=
  ⟨fun a ne => by simp [BrianScheme.setPayload, Function.update_noteq ne, restacked.other a ne],
    by simp only [BrianScheme.setPayload, Function.update_same]; rw [restacked.links],
    ⟨e, by simp⟩, ⟨e', by simp⟩⟩

theorem Restacked.symm (restacked : Restacked s cells cells') : Restacked s cells' cells :=
  ⟨fun a ne => (restacked.other a ne).symm, by rw [restacked.links], restacked.after,
    restacked.before⟩

theorem Restacked.retouched (restacked : Restacked s cells cells') : Retouched cells cells' s :=
  ⟨restacked.other, restacked.before, restacked.after⟩

theorem ProperList.restacked {g : Globals} {list : Nat} {xs : List Nat}
    (listed : ProperList g cells list xs) (restacked : Restacked s cells cells') :
    ProperList g cells' list xs := by
  induction xs generalizing list with
  | nil => exact listed
  | cons x xs ih =>
    obtain ⟨nonEmpty, rest, pair, tail⟩ := listed
    have other : list ≠ s := by
      rintro rfl
      obtain ⟨e, vector⟩ := restacked.before
      simp [vector] at pair
    exact ⟨nonEmpty, rest, by rw [restacked.other _ other, pair], ih tail⟩

/-- `v` with its heap cells and its stack top replaced: what `VPUSH` and `VPOP` change. -/
def Vm.restack (v : Vm) (cells : Cells) (top : Int) : Vm :=
  { v with gc := { v.gc with cells := cells }, stackTop := top }

/-- `v` with Roots' array replaced: what `push_root` and `pop_root` change. -/
def Vm.setRoots (v : Vm) (roots : StackSet Nat) : Vm :=
  { v with gc := { v.gc with rootObjects := roots } }

/-- Room for one `VPUSH`: a free slot at `stack_top`, or at least two slots, so that a full
vector grows. -/
def Vm.Room (v : Vm) : Prop :=
  ∃ elements, (v.gc.cells v.stack).payload = .vector elements ∧
    (v.stackTop.toNat < elements.length ∨ 2 ≤ elements.length)

/-- A stack vector of at least two slots, which every `VPUSH` can grow. -/
def Vm.Wide (v : Vm) : Prop :=
  ∃ elements, (v.gc.cells v.stack).payload = .vector elements ∧ 2 ≤ elements.length

theorem Vm.Wide.room {v : Vm} (wide : v.Wide) : v.Room :=
  let ⟨elements, vector, two⟩ := wide
  ⟨elements, vector, .inr two⟩

theorem Vm.Wide.two {v : Vm} {elements : List Nat} (wide : v.Wide)
    (vector : (v.gc.cells v.stack).payload = .vector elements) : 2 ≤ elements.length := by
  obtain ⟨e, vector', two⟩ := wide
  rw [vector, Payload.vector.injEq] at vector'
  rwa [vector']

variable (g : Globals)

theorem vpop_ok {v : Vm} {rest : List Nat} {top : Nat} (stacked : v.slots = some (rest ++ [top])) :
    ∃ elements, (v.gc.cells v.stack).payload = .vector elements ∧ rest.length < elements.length ∧
      (vpop g).run v = .ok (top, v.restack (setPayload v.gc.cells v.stack
        (.vector (elements.set rest.length g.theEmptyList))) (v.stackTop - 1)) ∧
      (v.restack (setPayload v.gc.cells v.stack
        (.vector (elements.set rest.length g.theEmptyList))) (v.stackTop - 1)).slots = some rest := by
  obtain ⟨elements, vector, nonneg, fits, split⟩ := Vm.slots_vector stacked
  have length : (rest.length : Int) + 1 = v.stackTop := by simpa using Vm.slots_length stacked
  have index : (v.stackTop - 1).toNat = rest.length := by omega
  have found : elements[rest.length]? = some top := by
    rw [← List.getElem?_take_of_lt (show rest.length < v.stackTop.toNat by omega), ← split]
    simp
  have lt : rest.length < elements.length := by omega
  have popped : (vpop g).run v = .ok (top, v.restack (setPayload v.gc.cells v.stack
      (.vector (elements.set rest.length g.theEmptyList))) (v.stackTop - 1)) := by
    simp only [vpop, vectorPop, vectorRef, vectorSet, varray, vector, index, found, StateT.run,
      bind, Except.bind, pure, Except.pure, if_pos (show 0 ≤ v.stackTop - 1 by omega),
      if_pos (And.intro (show 0 ≤ v.stackTop - 1 by omega) lt)]
    rfl
  obtain ⟨rest', split', stacked'⟩ := (vpop_run g popped).2.2.2.2.2 _ stacked
  obtain rfl := (List.append_inj' split' rfl).1
  exact ⟨elements, vector, lt, popped, stacked'⟩

theorem vpush_ok (thing : Nat) {v : Vm} {slots : List Nat} (stacked : v.slots = some slots)
    (room : v.Room) :
    ∃ elements grown : List Nat, (v.gc.cells v.stack).payload = .vector elements ∧
      elements.length ≤ grown.length ∧ slots.length < grown.length ∧
      grown.take slots.length = slots ∧
      (vpush g thing).run v = .ok ((), v.restack (setPayload v.gc.cells v.stack
        (.vector (grown.set slots.length thing))) (v.stackTop + 1)) := by
  obtain ⟨elements, vector, nonneg, fits, split⟩ := Vm.slots_vector stacked
  obtain ⟨e, vector', fits'⟩ := room
  rw [vector, Payload.vector.injEq] at vector'
  subst vector'
  have length : (slots.length : Int) = v.stackTop := Vm.slots_length stacked
  have index : v.stackTop.toNat = slots.length := by omega
  set grown := if v.stackTop = elements.length then
      elements ++ List.replicate (elements.length * 18 / 10 - elements.length) g.theEmptyList
    else elements with grownDef
  have longer : elements.length ≤ grown.length ∧ slots.length < grown.length := by
    rw [grownDef]
    split <;> simp <;> omega
  refine ⟨elements, grown, vector, longer.1, longer.2, ?_, ?_⟩
  · rw [index] at split
    have short : slots.length ≤ elements.length := by omega
    conv_rhs => rw [split]
    rw [grownDef]
    split
    · exact List.take_append_of_le_length short
    · rfl
  · simp only [vpush, vectorPush, vectorSet, varray, vector, StateT.run, bind, Except.bind, pure,
      Except.pure, setPayload_payload, if_true, index, ← grownDef,
      if_pos (And.intro nonneg longer.2), setPayload_setPayload]
    rfl

theorem onHeap_bind_ok {α β : Type} {read : Cells → Except VmFault α} {f : α → VmM β} {v : Vm}
    {a : α} (found : read v.gc.cells = .ok a) : (onHeap read >>= f).run v = (f a).run v :=
  run_bind_ok (onHeap_run found)

theorem splatLoop_ok {fuel : Nat} {count : Int} {v : Vm} {xs slots : List Nat}
    (listed : ProperList g v.gc.cells (v.locals .top) xs) (enough : xs.length ≤ fuel)
    (stacked : v.slots = some slots) (wide : v.Wide) :
    ∃ cells, Restacked v.stack v.gc.cells cells ∧
      (splatLoop g fuel count).run v = .ok (count + xs.length,
        ({ v with locals := Function.update v.locals .top g.theEmptyList } : Vm).restack cells
          (v.stackTop + xs.length)) ∧
      (v.restack cells (v.stackTop + xs.length)).slots = some (slots ++ xs) ∧
      (v.restack cells (v.stackTop + xs.length)).Wide := by
  induction xs generalizing fuel count v slots with
  | nil =>
    obtain ⟨e, vector, two⟩ := wide
    refine ⟨v.gc.cells, ⟨fun _ _ => rfl, rfl, ⟨e, vector⟩, ⟨e, vector⟩⟩, ?_, ?_, e, vector, two⟩
    · have empty : v.locals .top = g.theEmptyList := listed
      have same : Function.update v.locals .top g.theEmptyList = v.locals := by
        rw [← empty, Function.update_eq_self]
      rw [splatLoop, getLocal_bind, if_pos empty]
      simp only [List.length_nil, Int.ofNat_eq_coe, Int.Nat.cast_ofNat_Int, Int.add_zero, same]
      rfl
    · simpa using stacked
  | cons x xs ih =>
    obtain ⟨nonEmpty, rest, pair, tail⟩ := listed
    obtain _ | fuel := fuel
    · simp at enough
    obtain ⟨elements, grown, vector, longer, fitsTop, -, pushed⟩ := vpush_ok g x stacked wide.room
    have restacked₁ : Restacked v.stack v.gc.cells
        (setPayload v.gc.cells v.stack (.vector (grown.set slots.length x))) :=
      .setPayload ⟨elements, vector⟩
    have other : v.locals .top ≠ v.stack := by
      intro same
      simp [same, vector] at pair
    have head : car v.gc.cells (v.locals .top) = .ok x := by simp only [car, pair]; rfl
    have tailRead : cdr (setPayload v.gc.cells v.stack (.vector (grown.set slots.length x)))
        (v.locals .top) = .ok rest := by simp only [cdr, restacked₁.other _ other, pair]; rfl
    have stacked₁ := (vpush_run g pushed).2.2.2.2.2 slots stacked
    obtain ⟨cells, restacked, loop, stacked', wide'⟩ :=
      ih (v := ({ v with locals := Function.update v.locals .top rest } : Vm).restack
        (setPayload v.gc.cells v.stack (.vector (grown.set slots.length x))) (v.stackTop + 1))
        (by simpa using tail.restacked restacked₁) (by simpa using enough) stacked₁
        ⟨grown.set slots.length x, by simp [Vm.restack], by simpa using (wide.two vector).trans longer⟩
    refine ⟨cells, restacked₁.trans restacked, ?_, ?_, wide'⟩
    · rw [splatLoop, getLocal_bind, if_neg nonEmpty]
      dsimp only
      rw [onHeap_bind_ok head, run_bind_ok pushed, onHeap_bind_ok tailRead, setLocal_bind]
      refine loop.trans ?_
      have counted : count + 1 + xs.length = count + (x :: xs).length := by simp; omega
      have top : v.stackTop + 1 + xs.length = v.stackTop + (x :: xs).length := by simp; omega
      rw [← counted, ← top]
      simp only [Vm.restack, Function.update_idem]
    · rw [show slots ++ x :: xs = slots ++ [x] ++ xs by simp, ← stacked']
      exact Vm.slots_congr rfl (by simp [Vm.restack]; omega) rfl

end Restack

section Twins

/-- Two results that fail alike, or succeed with values related by `R`. -/
def Alike {α : Type} (R : α → α → Prop) : Except VmFault α → Except VmFault α → Prop
  | .error fault, .error fault' => fault = fault'
  | .ok a, .ok a' => R a a'
  | _, _ => False

/-- Collector states that differ at most in the live stack's vector from `top` up and in
Roots' array from its top up. -/
structure GcTwin (stack : Nat) (top : Int) (gc gc' : GcState) : Prop where
  rest : { gc' with cells := gc.cells, rootObjects := gc.rootObjects } = gc
  restacked : Restacked stack gc.cells gc'.cells
  window : ∃ e e', (gc.cells stack).payload = .vector e ∧ (gc'.cells stack).payload = .vector e' ∧
    0 ≤ top ∧ top.toNat ≤ e.length ∧ top.toNat ≤ e'.length ∧ e'.take top.toNat = e.take top.toNat
  roots : gc'.rootObjects.contents = gc.rootObjects.contents

/-- Primitives that take their arguments from the window below `stack_top` and read nothing
else a splat changes: from twin collector states, with stores that agree on Roots' entries, a
primitive fails alike or returns the same object in twin states, leaving Roots' entries and
the live stack's cell as it found them. -/
def Externals.Windowed (x : Externals) : Prop :=
  ∀ p store store' gc gc' stack n top, GcTwin stack top gc gc' →
    (∀ r ∈ gc.rootObjects.contents, store' r = store r) →
    Alike (fun r r' => r.2 = r'.2 ∧ GcTwin stack top r.1 r'.1 ∧
        r.1.rootObjects.contents = gc.rootObjects.contents ∧
        r.1.cells stack = gc.cells stack ∧ r'.1.cells stack = gc'.cells stack)
      (x.primitive p store gc stack n top) (x.primitive p store' gc' stack n top)

theorem idleExternals_windowed : idleExternals.Windowed := fun _ _ _ _ _ _ _ _ twin _ =>
  ⟨rfl, twin, rfl, rfl, rfl⟩

/-- States of `vm_execute` that differ at most where `apply`'s splat leaves traces: in the
variable `target_fn`, whose address is on no Roots entry, in the collector state as `GcTwin`
allows, and in what `vm_fn_begin` loaded into `num_codes`. -/
structure VmTwin (u w : Vm) : Prop where
  gc : GcTwin u.stack u.stackTop u.gc w.gc
  locals : ∀ l ≠ .targetFn, w.locals l = u.locals l
  unpinned : u.addr .targetFn ∉ u.gc.rootObjects.contents
  outer : w.outer = u.outer
  base : w.base = u.base
  stack : w.stack = u.stack
  stackTop : w.stackTop = u.stackTop
  nArgs : w.nArgs = u.nArgs
  initialTop : w.initialTop = u.initialTop
  pc : w.pc = u.pc
  codeArray : w.codeArray = u.codeArray
  slowPops : w.slowPops = u.slowPops
  written : w.written = u.written

/-- Twins with room for a `VPUSH` on both sides. -/
def RoomTwin (u w : Vm) : Prop := VmTwin u w ∧ u.Room ∧ w.Room

/-- `p` run from states related by `P` fails alike, or gives the same value in states related
by `Q`. -/
def Paired {α : Type} (P Q : Vm → Vm → Prop) (p : VmM α) : Prop :=
  ∀ u w, P u w → Alike (fun r r' => r.1 = r'.1 ∧ Q r.2 r'.2) (p.run u) (p.run w)

theorem VmLocal.index_ofIndex? {i : Nat} {l : VmLocal} (found : VmLocal.ofIndex? i = some l) :
    l.index = i := by
  unfold VmLocal.ofIndex? at found
  split at found <;> cases found <;> rfl

theorem VmLocal.index_ne_targetFn {l : VmLocal} (other : l ≠ .targetFn) :
    l.index ≠ VmLocal.targetFn.index := by
  cases l <;> simp_all [VmLocal.index]

variable {u w : Vm}

theorem VmTwin.retouched (twin : VmTwin u w) : Retouched u.gc.cells w.gc.cells u.stack :=
  twin.gc.restacked.retouched

theorem VmTwin.slots (twin : VmTwin u w) : w.slots = u.slots ∧ ∃ slots, u.slots = some slots := by
  obtain ⟨e, e', before, after, nonneg, fits, fits', same⟩ := twin.gc.window
  have read : u.slots = some (e.take u.stackTop.toNat) := by
    simp only [Vm.slots, before, if_pos (And.intro nonneg fits)]
  refine ⟨?_, _, read⟩
  rw [read]
  simp only [Vm.slots, twin.stack, twin.stackTop, after, if_pos (And.intro nonneg fits'), same]

theorem VmTwin.view (twin : VmTwin u w) : w.nArgs = u.nArgs ∧ w.slots = u.slots ∧
    w.locals .fn = u.locals .fn ∧ w.locals .env = u.locals .env ∧ w.pc = u.pc :=
  ⟨twin.nArgs, twin.slots.1, twin.locals _ (by decide), twin.locals _ (by decide), twin.pc⟩

theorem window_of_slots {slots : List Nat} (left : u.slots = some slots)
    (right : w.slots = some slots) (stack : w.stack = u.stack) (top : w.stackTop = u.stackTop) :
    ∃ e e', (u.gc.cells u.stack).payload = .vector e ∧ (w.gc.cells u.stack).payload = .vector e' ∧
      0 ≤ u.stackTop ∧ u.stackTop.toNat ≤ e.length ∧ u.stackTop.toNat ≤ e'.length ∧
      e'.take u.stackTop.toNat = e.take u.stackTop.toNat := by
  obtain ⟨e, vector, nonneg, fits, rfl⟩ := Vm.slots_vector left
  obtain ⟨e', vector', -, fits', same⟩ := Vm.slots_vector right
  rw [stack] at vector'
  rw [top] at fits' same
  exact ⟨e, e', vector, vector', nonneg, fits, fits', same.symm⟩

theorem VmTwin.store (twin : VmTwin u w) {r : Nat} (held : r ∈ u.gc.rootObjects.contents) :
    w.store r = u.store r := by
  unfold Vm.store
  rw [twin.base, twin.outer]
  split
  · rename_i l found
    rw [twin.locals l]
    rintro rfl
    split_ifs at found with above
    refine twin.unpinned ?_
    rw [Vm.addr, VmLocal.index_ofIndex? found, Nat.add_sub_cancel' above]
    exact held
  · rfl

end Twins

section Rules

variable {α β : Type} {P Q R : Vm → Vm → Prop}

theorem Alike.bind {p : VmM α} {f : α → VmM β} {u w : Vm}
    (first : Alike (fun r r' => r.1 = r'.1 ∧ Q r.2 r'.2) (p.run u) (p.run w))
    (rest : ∀ a, Paired Q R (f a)) :
    Alike (fun r r' => r.1 = r'.1 ∧ R r.2 r'.2) ((p >>= f).run u) ((p >>= f).run w) := by
  rcases hu : p.run u with fault | ⟨a, u'⟩ <;> rcases hw : p.run w with fault' | ⟨a', w'⟩ <;>
    rw [hu, hw] at first
  · rw [run_bind_error hu, run_bind_error hw]
    exact first
  · exact first.elim
  · exact first.elim
  · obtain ⟨rfl, related'⟩ := first
    rw [run_bind_ok hu, run_bind_ok hw]
    exact rest a u' w' related'

theorem Paired.bind {p : VmM α} {f : α → VmM β} (first : Paired P Q p)
    (rest : ∀ a, Paired Q R (f a)) : Paired P R (p >>= f) :=
  fun u w related => (first u w related).bind rest

theorem Paired.pure (a : α) (keep : ∀ u w, P u w → Q u w) : Paired P Q (pure a : VmM α) :=
  fun u w related => ⟨rfl, keep u w related⟩

theorem Paired.throw (fault : VmFault) : Paired P Q (throw fault : VmM α) := fun _ _ _ => rfl

theorem Paired.weaken {p : VmM α} (paired : Paired P Q p) (pre : ∀ u w, R u w → P u w) :
    Paired R Q p :=
  fun u w related => paired u w (pre u w related)

theorem Paired.ite {p q : VmM α} (cond : Prop) [Decidable cond] (yes : Paired P Q p)
    (no : Paired P Q q) : Paired P Q (if cond then p else q) := by
  split
  · exact yes
  · exact no

theorem Paired.get_bind {f : Vm → VmM β} (same : ∀ u w, P u w → f w = f u)
    (each : ∀ u w, P u w → Alike (fun r r' => r.1 = r'.1 ∧ Q r.2 r'.2) ((f u).run u) ((f u).run w)) :
    Paired P Q (get >>= f) := by
  intro u w related
  rw [BrianScheme.get_bind, BrianScheme.get_bind, same u w related]
  exact each u w related

/-- `p` keeps room for a `VPUSH`. -/
def KeepsRoom (p : VmM α) : Prop := ∀ v a v', p.run v = .ok (a, v') → v.Room → v'.Room

theorem Paired.roomy {p : VmM α} (paired : Paired VmTwin VmTwin p) (keeps : KeepsRoom p) :
    Paired RoomTwin RoomTwin p := by
  rintro u w ⟨twin, roomU, roomW⟩
  have ends := paired u w twin
  rcases hu : p.run u with fault | ⟨a, u'⟩ <;> rcases hw : p.run w with fault' | ⟨a', w'⟩ <;>
    rw [hu, hw] at ends
  · exact ends
  · exact ends.elim
  · exact ends.elim
  · exact ⟨ends.1, ends.2, keeps _ _ _ hu roomU, keeps _ _ _ hw roomW⟩

theorem Inert.keepsRoom {p : VmM α} (inert : Inert p) : KeepsRoom p := by
  intro v a v' run room
  obtain ⟨cells, -, -, -, stack, top, -⟩ := inert v a v' run
  unfold Vm.Room
  rwa [cells, stack, top]

end Rules

section Operations

variable (g : Globals) {α : Type} {P : Vm → Vm → Prop}

theorem getLocal_paired {l : VmLocal} (kept : l ≠ .targetFn) (twin : ∀ u w, P u w → VmTwin u w) :
    Paired P P (getLocal l) :=
  fun u w related => ⟨((twin u w related).locals l kept).symm, related⟩

theorem setLocal_paired (l : VmLocal) (value : Nat) : Paired VmTwin VmTwin (setLocal l value) := by
  intro u w twin
  refine ⟨rfl, { twin with locals := fun l' kept => ?_ }⟩
  by_cases same : l' = l
  · subst same
    simp
  · simp [Function.update_noteq same, twin.locals l' kept]

theorem setLocal_keepsRoom (l : VmLocal) (value : Nat) : KeepsRoom (setLocal l value) := by
  intro v a v' run room
  cases run
  exact room

theorem setPc_paired (pc : Int) : Paired VmTwin VmTwin (setPc pc) :=
  fun _ _ twin => ⟨rfl, { twin with pc := rfl }⟩

theorem setPc_keepsRoom (pc : Int) : KeepsRoom (setPc pc) := by
  intro v a v' run room
  cases run
  exact room

theorem setNArgs_paired (nArgs : Int) : Paired VmTwin VmTwin (setNArgs nArgs) :=
  fun _ _ twin => ⟨rfl, { twin with nArgs := rfl }⟩

theorem pushRootOf_paired {l : VmLocal} (kept : l ≠ .targetFn) :
    Paired VmTwin VmTwin (pushRootOf l) := by
  intro u w twin
  have addr : w.addr l = u.addr l := by simp only [Vm.addr, twin.base]
  refine ⟨rfl, { twin with
    gc := ⟨congrArg (fun gc => { gc with rootObjects := stackSetPush u.gc.rootObjects (u.addr l) })
      twin.gc.rest, twin.gc.restacked, twin.gc.window, by simp [pushRoot, addr, twin.gc.roots]⟩
    unpinned := ?_ }⟩
  simp only [pushRoot, contents_stackSetPush, List.mem_append, List.mem_singleton, not_or]
  exact ⟨twin.unpinned, fun same => VmLocal.index_ne_targetFn kept (by simp [Vm.addr] at same; omega)⟩

theorem popRootOf_paired (l : VmLocal) : Paired VmTwin VmTwin (popRootOf l) := by
  intro u w twin
  have addr : w.addr l = u.addr l := by simp only [Vm.addr, twin.base]
  simp only [popRootOf, StateT.run, addr]
  rcases popRoot_spec u.gc (u.addr l) with ⟨emptyU, noneU⟩ | ⟨fullU, rootsU, leftU, someU⟩ <;>
    rcases popRoot_spec w.gc (u.addr l) with ⟨emptyW, noneW⟩ | ⟨fullW, rootsW, leftW, someW⟩
  · rw [noneU, noneW]
    exact rfl
  · exact absurd (twin.gc.roots.trans emptyU) fullW
  · exact absurd (twin.gc.roots.symm.trans emptyW) fullU
  · rw [twin.gc.roots] at leftW someW
    rw [someU, someW]
    by_cases found : (popList (u.addr l) u.gc.rootObjects.contents).1
    · rw [if_pos found, if_pos found]
      refine ⟨trivial, { twin with
        gc := ⟨congrArg (fun gc => { gc with rootObjects := rootsU }) twin.gc.rest,
          twin.gc.restacked, twin.gc.window, leftW.trans leftU.symm⟩
        unpinned := fun held => twin.unpinned ((popList_sublist _ _).subset (leftU ▸ held))
        slowPops := by simp only [twin.gc.roots, twin.slowPops] }⟩
    · rw [if_neg found, if_neg found]
      exact rfl

theorem onHeap_paired {read : Cells → Except VmFault α}
    (blind : ∀ u w, VmTwin u w → read w.gc.cells = read u.gc.cells) :
    Paired VmTwin VmTwin (onHeap read) := by
  intro u w twin
  simp only [onHeap, StateT.run, blind u w twin]
  rcases read u.gc.cells with fault | a
  · exact rfl
  · exact ⟨rfl, twin⟩

theorem GcTwin.setPayload_other {s obj : Nat} {t : Int} {gc gc' : GcState} (twin : GcTwin s t gc gc')
    (other : obj ≠ s) (payload : Payload) :
    GcTwin s t { gc with cells := setPayload gc.cells obj payload }
      { gc' with cells := setPayload gc'.cells obj payload } := by
  have kept : ∀ c : Cells, setPayload c obj payload s = c s := fun c => by
    simp [setPayload, Function.update_noteq (Ne.symm other)]
  refine ⟨congrArg (fun gc => { gc with cells := setPayload gc.cells obj payload }) twin.rest,
    twin.restacked.setPayload_other other payload, ?_, twin.roots⟩
  simpa only [kept] using twin.window

theorem toHeap_setCdr_paired (obj value : Nat) : Paired VmTwin VmTwin (toHeap obj (setCdr · · value)) := by
  intro u w twin
  by_cases onStack : obj = u.stack
  · obtain ⟨e, e', before, after, -⟩ := twin.gc.window
    subst onStack
    simp only [toHeap, StateT.run, setCdr, before, after]
    exact rfl
  · have same : (w.gc.cells obj).payload = (u.gc.cells obj).payload := by
      rw [twin.gc.restacked.other obj onStack]
    simp only [toHeap, StateT.run, setCdr, same]
    generalize (u.gc.cells obj).payload = payload
    cases payload
    all_goals first
      | exact rfl
      | exact ⟨trivial, { twin with
          gc := twin.gc.setPayload_other onStack _
          written := congrArg (List.cons obj) twin.written }⟩

theorem GcTwin.restack {s : Nat} {t t' : Int} {gc gc' : GcState} (twin : GcTwin s t gc gc')
    (e e' : List Nat) (nonneg : 0 ≤ t') (fits : t'.toNat ≤ e.length) (fits' : t'.toNat ≤ e'.length)
    (same : e'.take t'.toNat = e.take t'.toNat) :
    GcTwin s t' { gc with cells := setPayload gc.cells s (.vector e) }
      { gc' with cells := setPayload gc'.cells s (.vector e') } :=
  ⟨congrArg (fun x => { x with cells := setPayload gc.cells s (.vector e) }) twin.rest,
    twin.restacked.setPayload_both e e', ⟨e, e', by simp, by simp, nonneg, fits, fits', same⟩,
    twin.roots⟩

theorem vpop_empty {v : Vm} (stacked : v.slots = some []) : (vpop g).run v = .error .undefined := by
  obtain ⟨elements, vector, -⟩ := Vm.slots_vector stacked
  have top : v.stackTop = 0 := by simpa using (Vm.slots_length stacked).symm
  have failed : vectorRef v.gc.cells v.stack (v.stackTop - 1) = .error .undefined := by
    simp only [vectorRef, varray, vector, top, bind, Except.bind, pure, Except.pure]
    split <;> simp [throw, throwThe, MonadExceptOf.throw]
  simp only [vpop, vectorPop, StateT.run, failed, bind, Except.bind]

theorem vpop_paired : Paired VmTwin RoomTwin (vpop g) := by
  intro u w twin
  obtain ⟨same, slots, stacked⟩ := twin.slots
  rcases slots.eq_nil_or_concat with rfl | ⟨rest, top, rfl⟩
  · rw [vpop_empty g stacked, vpop_empty g (same.trans stacked)]
    exact rfl
  rw [List.concat_eq_append] at stacked
  obtain ⟨e, vector, lt, popped, -⟩ := vpop_ok g stacked
  obtain ⟨e', vector', lt', popped', -⟩ := vpop_ok g (same.trans stacked)
  rw [twin.stack, twin.stackTop] at popped'
  rw [twin.stack] at vector'
  rw [popped, popped']
  obtain ⟨e₀, e₀', before, after, -, -, -, window⟩ := twin.gc.window
  obtain rfl : e = e₀ := by rw [vector] at before; exact Payload.vector.inj before
  obtain rfl : e' = e₀' := by rw [vector'] at after; exact Payload.vector.inj after
  have length : (rest.length : Int) + 1 = u.stackTop := by simpa using Vm.slots_length stacked
  have index : (u.stackTop - 1).toNat = rest.length := by omega
  rw [show u.stackTop.toNat = rest.length + 1 by omega] at window
  have below : e'.take rest.length = e.take rest.length := by
    simpa [List.take_take] using congrArg (List.take rest.length) window
  refine ⟨rfl, { twin with
      gc := twin.gc.restack _ _ (by simp only [Vm.restack]; omega)
        (by simp [Vm.restack, index]; omega) (by simp [Vm.restack, index]; omega)
        (by simp [Vm.restack, index, take_set_self, below])
      stackTop := rfl },
    ⟨e.set rest.length g.theEmptyList, by simp [Vm.restack], .inl (by simp [Vm.restack, index, lt])⟩,
    ⟨e'.set rest.length g.theEmptyList, by simp [Vm.restack, twin.stack],
      .inl (by simp [Vm.restack, twin.stackTop, index, lt'])⟩⟩

theorem vpush_paired (thing : Nat) : Paired RoomTwin VmTwin (vpush g thing) := by
  rintro u w ⟨twin, roomU, roomW⟩
  obtain ⟨same, slots, stacked⟩ := twin.slots
  obtain ⟨e, grown, vector, -, lt, kept, pushed⟩ := vpush_ok g thing stacked roomU
  obtain ⟨e', grown', vector', -, lt', kept', pushed'⟩ := vpush_ok g thing (same.trans stacked) roomW
  rw [twin.stack, twin.stackTop] at pushed'
  rw [pushed, pushed']
  have length : (slots.length : Int) = u.stackTop := Vm.slots_length stacked
  have index : (u.stackTop + 1).toNat = slots.length + 1 := by omega
  refine ⟨rfl, { twin with
      gc := twin.gc.restack _ _ (by simp only [Vm.restack]; omega)
        (by simp [Vm.restack, index]; omega) (by simp [Vm.restack, index]; omega)
        (by simp only [Vm.restack, index, take_succ_set _ lt, take_succ_set _ lt', kept, kept'])
      stackTop := rfl }⟩

theorem external_paired {x : Externals} (windowed : x.Windowed) (p : Nat) (n : Int) {u w : Vm}
    (related : RoomTwin u w) : Alike (fun r r' => r.1 = r'.1 ∧ RoomTwin r.2 r'.2)
      ((external fun store gc => x.primitive p store gc u.stack n u.stackTop).run u)
      ((external fun store gc => x.primitive p store gc u.stack n u.stackTop).run w) := by
  obtain ⟨twin, roomU, roomW⟩ := related
  have ends := windowed p u.store w.store u.gc w.gc u.stack n u.stackTop twin.gc
    fun _ held => twin.store held
  simp only [external, StateT.run]
  rcases hu : x.primitive p u.store u.gc u.stack n u.stackTop with fault | ⟨gc₁, a⟩ <;>
    rcases hw : x.primitive p w.store w.gc u.stack n u.stackTop with fault' | ⟨gc₁', a'⟩ <;>
    rw [hu, hw] at ends
  · exact ends
  · exact ends.elim
  · exact ends.elim
  · dsimp only [Alike] at ends
    obtain ⟨rfl, gcTwin, roots, keptU, keptW⟩ := ends
    refine ⟨rfl, { twin with gc := gcTwin, unpinned := roots ▸ twin.unpinned }, ?_, ?_⟩
    · simpa only [Vm.Room, keptU] using roomU
    · simpa only [Vm.Room, twin.stack, keptW] using roomW

theorem dropArgs_paired (n : Nat) : Paired RoomTwin RoomTwin (dropArgs g n) := by
  induction n with
  | zero => exact Paired.pure _ fun _ _ related => related
  | succ n ih => exact ((vpop_paired g).weaken fun _ _ related => related.1).bind fun _ => ih

theorem vmReturn_paired (obj : Nat) (message : Option String) :
    Paired VmTwin VmTwin (vmReturn obj message) :=
  (popRootOf_paired _).bind fun _ => (popRootOf_paired _).bind fun _ =>
    (popRootOf_paired _).bind fun _ => Paired.pure _ fun _ _ twin => twin

theorem vmFail_paired (message : String) : Paired VmTwin VmTwin (vmFail g message) :=
  vmReturn_paired _ _

theorem onHeap_bind_error {β : Type} {read : Cells → Except VmFault α} {f : α → VmM β} {v : Vm}
    {fault : VmFault} (failed : read v.gc.cells = .error fault) :
    (onHeap read >>= f).run v = .error fault := by
  apply run_bind_error
  simp only [onHeap, StateT.run, failed]
  rfl

/-- What `vm_fn_begin` loads: the code array may be the live stack itself, whose length twins
need not share; only `num_codes` then differs. -/
theorem loadCode_paired (codeArray : Nat) : Paired VmTwin VmTwin (do
    let codes ← onHeap (varray · codeArray)
    modify fun v => { v with codeArray := codeArray, numCodes := codes.length }
    pure Control.next) := by
  intro u w twin
  have done : ∀ n n' : Nat, Alike (fun (r r' : Control × Vm) => r.1 = r'.1 ∧ VmTwin r.2 r'.2)
      (((modify fun (v : Vm) => { v with codeArray := codeArray, numCodes := n }) >>= fun _ =>
        (pure Control.next : VmM Control)).run u)
      (((modify fun (v : Vm) => { v with codeArray := codeArray, numCodes := n' }) >>= fun _ =>
        (pure Control.next : VmM Control)).run w) :=
    fun _ _ => ⟨rfl, { twin with codeArray := rfl }⟩
  rcases twin.retouched.cases codeArray with same | ⟨es, es', before, after⟩
  · have read : varray w.gc.cells codeArray = varray u.gc.cells codeArray := by simp only [varray, same]
    rcases found : varray u.gc.cells codeArray with fault | codes
    · rw [onHeap_bind_error found, onHeap_bind_error (read.trans found)]
      exact rfl
    · rw [onHeap_bind_ok found, onHeap_bind_ok (read.trans found)]
      exact done _ _
  · rw [onHeap_bind_ok (show varray u.gc.cells codeArray = .ok es by simp only [varray, before]; rfl),
      onHeap_bind_ok (show varray w.gc.cells codeArray = .ok es' by simp only [varray, after]; rfl)]
    exact done _ _

theorem fnBegin_paired : Paired VmTwin VmTwin (fnBegin g) := by
  refine (getLocal_paired (by decide) fun _ _ twin => twin).bind fun fn => ?_
  refine Paired.get_bind (fun u w twin => by simp only [twin.retouched.isCompiled]) fun u w twin => ?_
  split
  · exact ((onHeap_paired fun u w twin => twin.retouched.bytecode fn).bind loadCode_paired) u w twin
  · exact vmFail_paired g _ u w twin

theorem returnOpcode_paired : Paired VmTwin VmTwin (returnOpcode g) := by
  refine Paired.get_bind (fun u w twin => by simp only [twin.stackTop, twin.initialTop])
    fun u w twin => ?_
  have roomy : ∀ {γ : Type} {p : VmM γ}, Paired VmTwin VmTwin p → Inert p →
      Paired RoomTwin RoomTwin p := fun paired inert => paired.roomy inert.keepsRoom
  split
  · exact ((vpop_paired g).bind fun val =>
      (vmReturn_paired val none).weaken fun _ _ related => related.1) u w twin
  · refine ((vpop_paired g).bind fun val =>
      ((vpop_paired g).weaken fun _ _ related => related.1).bind fun retAddr => ?_) u w twin
    exact (roomy (onHeap_paired fun u w twin => by
        simp only [twin.retouched.car, twin.retouched.cdr]) (onHeap_inert _)).bind fun fn =>
      ((setLocal_paired _ fn).roomy (setLocal_keepsRoom _ _)).bind fun _ =>
      (roomy (onHeap_paired fun u w twin => by
        simp only [twin.retouched.car, twin.retouched.long]) (onHeap_inert _)).bind fun pc =>
      ((setPc_paired pc).roomy (setPc_keepsRoom pc)).bind fun _ =>
      (roomy (onHeap_paired fun u w twin => by
        simp only [twin.retouched.cdr]) (onHeap_inert _)).bind fun env =>
      ((setLocal_paired _ env).roomy (setLocal_keepsRoom _ _)).bind fun _ =>
      (vpush_paired g val).bind fun _ => fnBegin_paired g

theorem Paired.pinned {body : VmM α} {l : VmLocal} (kept : l ≠ .targetFn)
    (paired : Paired RoomTwin VmTwin body) : Paired RoomTwin VmTwin (pinned l body) :=
  ((pushRootOf_paired kept).roomy (pushRootOf_inert l).keepsRoom).bind fun _ => paired.bind fun r =>
    (popRootOf_paired l).bind fun _ => Paired.pure r fun _ _ twin => twin

theorem callPrimitive_paired {x : Externals} (windowed : x.Windowed) (primitive : Nat) (n : Int) :
    Paired RoomTwin VmTwin (callPrimitive x g primitive n) := by
  refine (getLocal_paired (by decide) fun _ _ related => related.1).bind fun top =>
    ((setLocal_paired _ top).roomy (setLocal_keepsRoom _ _)).bind fun _ =>
    (Paired.pinned (by decide) ?_).bind fun _ => returnOpcode_paired g
  refine Paired.get_bind (fun u w related => by simp only [related.1.stack, related.1.stackTop])
    fun u w related => ?_
  exact (external_paired windowed primitive n related).bind fun result =>
    ((setLocal_paired _ result).roomy (setLocal_keepsRoom _ _)).bind fun _ =>
    (dropArgs_paired g _).bind fun _ => vpush_paired g result

theorem calljTo_paired {x : Externals} (windowed : x.Windowed) (n : Int) :
    Paired RoomTwin VmTwin (calljTo x g n) := by
  refine (getLocal_paired (by decide) fun _ _ related => related.1).bind fun top => ?_
  refine Paired.get_bind (fun u w related => by simp only [related.1.retouched.calleeOf])
    fun u w related => ?_
  split
  · exact ((setLocal_paired _ top).bind fun _ => (setPc_paired 0).bind fun _ =>
      (setNArgs_paired n).bind fun _ =>
      (onHeap_paired fun u w twin => twin.retouched.cenv top).bind fun fnEnv =>
      (getLocal_paired (by decide) fun _ _ twin => twin).bind fun env =>
      (toHeap_setCdr_paired env fnEnv).bind fun _ => fnBegin_paired g) u w related.1
  · exact callPrimitive_paired g windowed _ n u w related
  · exact vmFail_paired g _ u w related.1

end Operations

section Splat

variable (g : Globals)

theorem popCallee_ok {v : Vm} {rest : List Nat} {callee : Nat}
    (stacked : v.slots = some (rest ++ [callee])) :
    ∃ cells, Restacked v.stack v.gc.cells cells ∧
      (v.restack cells (v.stackTop - 1)).slots = some rest ∧
      (v.restack cells (v.stackTop - 1)).Room ∧ (v.Wide → (v.restack cells (v.stackTop - 1)).Wide) ∧
      (popCallee g).run v = .ok ((), ({ v with
        locals := Function.update v.locals .top (unwrapMeta v.gc.cells callee) } : Vm).restack
          cells (v.stackTop - 1)) := by
  obtain ⟨e, vector, lt, popped, stacked'⟩ := vpop_ok g stacked
  have restacked : Restacked v.stack v.gc.cells
      (setPayload v.gc.cells v.stack (.vector (e.set rest.length g.theEmptyList))) :=
    .setPayload ⟨e, vector⟩
  have length : (rest.length : Int) + 1 = v.stackTop := by simpa using Vm.slots_length stacked
  refine ⟨_, restacked, stacked', ⟨e.set rest.length g.theEmptyList, by simp [Vm.restack],
    .inl (by simp [Vm.restack]; omega)⟩, fun wide => ⟨e.set rest.length g.theEmptyList,
    by simp [Vm.restack], by simpa using wide.two vector⟩, ?_⟩
  rw [popCallee, run_bind_ok popped, setLocal_bind,
    onHeap_bind_ok (show (pure (unwrapMeta _ callee) : Except VmFault Nat) = .ok _ from rfl)]
  simp only [setLocal, StateT.run, Vm.restack, Function.update_idem, restacked.retouched.unwrapMeta]
  rfl

theorem splat_ok {v : Vm} {rest xs : List Nat} {list : Nat}
    (stacked : v.slots = some (rest ++ [list])) (listed : ProperList g v.gc.cells list xs)
    (enough : xs.length ≤ v.gc.poolSize) (wide : v.Wide) :
    ∃ cells roots, Restacked v.stack v.gc.cells cells ∧
      roots.contents = v.gc.rootObjects.contents ∧
      (v.restack cells (v.stackTop - 1 + xs.length)).slots = some (rest ++ xs) ∧
      (v.restack cells (v.stackTop - 1 + xs.length)).Wide ∧
      (splat g).run v = .ok (xs.length, (({ v with
        locals := Function.update v.locals .targetFn (v.locals .top) } : Vm).restack cells
          (v.stackTop - 1 + xs.length)).setRoots roots) := by
  set L := Function.update v.locals .targetFn (v.locals .top) with hL
  set R := stackSetPush v.gc.rootObjects (v.addr .targetFn) with hR
  obtain ⟨e, vector, lt, popped, stacked₁⟩ :=
    @vpop_ok g (({ v with locals := L } : Vm).setRoots R) rest list stacked
  set C := setPayload v.gc.cells v.stack (.vector (e.set rest.length g.theEmptyList)) with hC
  have restacked₁ : Restacked v.stack v.gc.cells C := Restacked.setPayload ⟨e, vector⟩
  obtain ⟨cells, restacked₂, loop, stacked₂, wide₂⟩ := @splatLoop_ok g v.gc.poolSize 0
    ((({ v with locals := Function.update L .top list } : Vm).restack C (v.stackTop - 1)).setRoots R)
    xs rest (by simpa [Vm.restack, Vm.setRoots] using listed.restacked restacked₁) enough stacked₁
    ⟨e.set rest.length g.theEmptyList, by simp [hC, Vm.restack, Vm.setRoots],
      by simpa using wide.two vector⟩
  set L' := Function.update (Function.update (Function.update L .top list) .top g.theEmptyList)
    .top (v.locals .top) with hL'
  have restored : L' = L := by
    rw [hL', Function.update_idem, Function.update_idem, Function.update_eq_self_iff, hL,
      Function.update_noteq (by decide)]
  obtain ⟨roots, popped', contents⟩ := @popRootOf_top
    ((({ v with locals := L' } : Vm).restack cells (v.stackTop - 1 + xs.length)).setRoots R)
    v.gc.rootObjects.contents .targetFn (by simp [hR, Vm.restack, Vm.setRoots, Vm.addr])
  refine ⟨cells, roots, restacked₁.trans restacked₂, contents, stacked₂, wide₂, ?_⟩
  rw [splat, getLocal_bind, setLocal_bind]
  simp only [pinned, bind_assoc]
  rw [pushRootOf_bind]
  refine (run_bind_ok popped).trans ?_
  rw [setLocal_bind, BrianScheme.get_bind]
  refine (run_bind_ok loop).trans ?_
  rw [setLocal_bind, pure_bind]
  refine (run_bind_ok popped').trans ?_
  rw [restored, Int.zero_add]
  rfl

/-- `apply`'s splat path agrees with a direct call: `callj -1` over the list `(x₁ … x_k)` ends as
`callj k` over `x₁ … x_k`, with the same fault or in twin states. -/
theorem callj_splat_matches_direct_call {x : Externals} (windowed : x.Windowed) {v : Vm}
    {instrA instrB list f : Nat} {base xs elements : List Nat} {topB : Int}
    (listed : ProperList g v.gc.cells list xs)
    (beyond : ∀ a, v.gc.poolSize ≤ a → (v.gc.cells a).payload = .uninitialized)
    (unpinned : v.addr .targetFn ∉ v.gc.rootObjects.contents)
    (applied : v.slots = some (base ++ [list, f]))
    (pushed : (v.restack (setPayload v.gc.cells v.stack (.vector elements)) topB).slots =
      some (base ++ xs ++ [f]))
    (splatCount : (do long v.gc.cells (← arg1 v.gc.cells instrA)) = .ok (-1))
    (directCount : (do long v.gc.cells (← arg1 v.gc.cells instrB)) = .ok xs.length) :
    Alike (fun r r' => r.1 = r'.1 ∧ VmTwin r.2 r'.2) ((calljOp x g instrA).run v)
      ((calljOp x g instrB).run (v.restack (setPayload v.gc.cells v.stack (.vector elements)) topB)) := by
  have lengthA : (base.length : Int) + 2 = v.stackTop := by simpa using Vm.slots_length applied
  have lengthB : (base.length : Int) + xs.length + 1 = topB := by simpa using Vm.slots_length pushed
  obtain ⟨e, vector, -, fits, -⟩ := Vm.slots_vector applied
  have toB : Restacked v.stack v.gc.cells (setPayload v.gc.cells v.stack (.vector elements)) :=
    Restacked.setPayload ⟨e, vector⟩
  -- the splat path, to `calljTo k`
  obtain ⟨cA, restackA, slotsA, -, wideA, poppedA⟩ :=
    popCallee_ok g (show v.slots = some (base ++ [list] ++ [f]) by simpa using applied)
  obtain ⟨cA', roots, restackA', rootsKept, slotsA', wideA', splatRun⟩ := @splat_ok g
    (({ v with locals := Function.update v.locals .top (unwrapMeta v.gc.cells f) } : Vm).restack cA
      (v.stackTop - 1)) base xs list slotsA (listed.restacked restackA) (listed.length_le beyond)
    (wideA ⟨e, vector, by omega⟩)
  have countA : (do long cA (← arg1 cA instrA)) = .ok (-1) := by
    simpa only [restackA.retouched.arg1, restackA.retouched.long] using splatCount
  rw [calljOp, run_bind_ok poppedA, onHeap_bind_ok countA, calljWith, if_pos rfl,
    run_bind_ok splatRun]
  -- the direct path, to `calljTo k`
  obtain ⟨cB, restackB, slotsB, roomB, -, poppedB⟩ := popCallee_ok g pushed
  have countB : (do long cB (← arg1 cB instrB)) = .ok xs.length := by
    simpa only [(toB.trans restackB).retouched.arg1, (toB.trans restackB).retouched.long]
      using directCount
  rw [calljOp, run_bind_ok poppedB, onHeap_bind_ok countB, calljWith,
    if_neg (by omega)]
  refine calljTo_paired g windowed _ _ _ ⟨⟨⟨rfl, ((restackA.trans restackA').symm.trans
    (toB.trans restackB)), window_of_slots slotsA' slotsB rfl
      (show topB - 1 = v.stackTop - 1 - 1 + xs.length by omega),
    by simpa [Vm.restack, Vm.setRoots] using rootsKept.symm⟩, fun l other => ?_,
    by simpa [Vm.restack, Vm.setRoots, rootsKept] using unpinned, rfl, rfl, rfl,
    show topB - 1 = v.stackTop - 1 - 1 + xs.length by omega, rfl, rfl, rfl, rfl, rfl, rfl⟩,
    wideA'.room, roomB⟩
  simp [Vm.restack, Vm.setRoots, Function.update_noteq other, toB.retouched.unwrapMeta]

/-- A heap for `(apply f '(7 8))`: the empty list in cell 1; `env = (#(() () ()) . ())` in cells 2
and 3; `f` in cell 9, a compiled procedure of the code `#()` in cell 4; the stack `[(7 8), f]` in
cell 0 and the list `(7 8)` in cells 6 and 5; and the instructions `callj -1` (cells 10 to 12) and
`callj 2` (cells 13 to 15). -/
def applyCells : Cells := fun a => ⟨match a with
  | 0 => .vector [6, 9] | 1 => .theEmptyList | 2 => .pair 3 1 | 3 => .vector [1, 1, 1]
  | 4 => .vector [] | 5 => .pair 8 1 | 6 => .pair 7 5 | 9 => .compiledProc 4 1
  | 10 => .pair 0 11 | 11 => .pair 12 1 | 12 => .fixnum (-1) | 13 => .pair 0 14
  | 14 => .pair 15 1 | 15 => .fixnum 2
  | _ => .uninitialized, 0, none, none⟩

/-- `vm_execute` at `(apply f '(7 8))`, with a pool of 16 cells and Roots empty. It is irreducible
so that unification never unfolds the start state. -/
@[irreducible] def applyVm : Vm :=
  Vm.start ⟨applyCells, 16, .empty, .empty, none, makeStackSet 400, makeStackSet 400,
    makeStackSet 400, 0, 1000, []⟩ (fun _ => none) 400 (fun l => if l = .env then 2 else 1) 0 2 0

theorem applyVm_splat_matches_direct_call :
    idleExternals.Windowed ∧ ProperList ⟨1, 2, 3, 4, 5⟩ applyVm.gc.cells 6 [7, 8] ∧
      calleeOf applyVm.gc.cells 9 = .compiled ∧
      (∀ a, applyVm.gc.poolSize ≤ a → (applyVm.gc.cells a).payload = .uninitialized) ∧
      applyVm.addr .targetFn ∉ applyVm.gc.rootObjects.contents ∧
      Alike (fun r r' => r.1 = r'.1 ∧ VmTwin r.2 r'.2)
        ((calljOp idleExternals ⟨1, 2, 3, 4, 5⟩ 10).run applyVm)
        ((calljOp idleExternals ⟨1, 2, 3, 4, 5⟩ 13).run
          (applyVm.restack (setPayload applyVm.gc.cells applyVm.stack (.vector [7, 8, 9])) 3)) := by
  have beyond : ∀ a, applyVm.gc.poolSize ≤ a → (applyVm.gc.cells a).payload = .uninitialized :=
    fun a far => by
      unfold applyVm at far ⊢
      change 16 ≤ a at far
      change (applyCells a).payload = _
      unfold applyCells
      split <;> first | rfl | omega
  have listed : ProperList ⟨1, 2, 3, 4, 5⟩ applyVm.gc.cells 6 [7, 8] := by
    unfold applyVm; exact ⟨by decide, 5, rfl, by decide, 1, rfl, rfl⟩
  have compiled : calleeOf applyVm.gc.cells 9 = .compiled := by unfold applyVm; rfl
  have unpinned : applyVm.addr .targetFn ∉ applyVm.gc.rootObjects.contents := by
    simp [applyVm, Vm.start]
  exact ⟨idleExternals_windowed, listed, compiled, beyond, unpinned,
    @callj_splat_matches_direct_call ⟨1, 2, 3, 4, 5⟩ idleExternals idleExternals_windowed applyVm
      10 13 6 9 [] [7, 8] [7, 8, 9] 3 listed beyond unpinned (by unfold applyVm; rfl)
      (by unfold applyVm; rfl) (by unfold applyVm; rfl) (by unfold applyVm; rfl)⟩

end Splat

end BrianScheme
