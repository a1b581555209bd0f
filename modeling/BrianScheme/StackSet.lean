import Mathlib.Logic.Function.Basic
import Mathlib.Data.List.Range

/-! `stack_set`, the growable array behind Roots and the two finalizable stacks. The array is
a function from index to entry; entries at `top` and above are leftovers the code never reads
back, and `size` is the capacity `REALLOC` doubles. -/

namespace BrianScheme

structure StackSet (α : Type) where
  objs : Nat → α
  top : Nat
  size : Nat

variable {α : Type}

def makeStackSet [Inhabited α] (initialSize : Nat) : StackSet α :=
  ⟨fun _ => default, 0, initialSize⟩

def clearStackSet (ss : StackSet α) : StackSet α := { ss with top := 0 }

def stackSetPush (ss : StackSet α) (value : α) : StackSet α :=
  let grown := if ss.top = ss.size then { ss with size := ss.size * 2 } else ss
  { grown with objs := Function.update grown.objs grown.top value, top := grown.top + 1 }

/-- The scan-back loop of `stack_set_pop`, over `idx = n - 1, ..., 0`: each visited entry
takes the value of the one above it, and the loop stops after the entry equal to `value`. -/
def scanBack [DecidableEq α] (value : α) : Nat → (Nat → α) → α → Bool × (Nat → α)
  | 0, objs, _ => (false, objs)
  | idx + 1, objs, last =>
    let shifted := Function.update objs idx last
    if objs idx = value then (true, shifted) else scanBack value idx shifted (objs idx)

/-- `stack_set_pop`; `none` when `top = 0`, where `objs[--top]` reads `objs[-1]`. -/
def stackSetPop [DecidableEq α] (ss : StackSet α) (value : α) : Option (Bool × StackSet α) :=
  match ss.top with
  | 0 => none
  | top + 1 =>
    if ss.objs top ≠ value then
      let scanned := scanBack value top ss.objs (ss.objs top)
      some (scanned.1, { ss with objs := scanned.2, top := top })
    else some (true, { ss with top := top })

/-- The entries `objs[0 .. top)`, bottom first. -/
def StackSet.contents (ss : StackSet α) : List α := (List.range ss.top).map ss.objs

@[simp] theorem contents_clearStackSet (ss : StackSet α) : (clearStackSet ss).contents = [] := rfl

@[simp] theorem contents_makeStackSet [Inhabited α] (initialSize : Nat) :
    (makeStackSet initialSize : StackSet α).contents = [] := rfl

theorem contents_congr {ss ss' : StackSet α} (top : ss'.top = ss.top)
    (below : ∀ i < ss.top, ss'.objs i = ss.objs i) : ss'.contents = ss.contents := by
  simp only [StackSet.contents, top]
  exact List.map_congr_left fun i mem => below i (List.mem_range.mp mem)

@[simp] theorem contents_stackSetPush (ss : StackSet α) (value : α) :
    (stackSetPush ss value).contents = ss.contents ++ [value] := by
  have grownTop : (if ss.top = ss.size then { ss with size := ss.size * 2 } else ss).top = ss.top := by
    split <;> rfl
  have grownObjs : (if ss.top = ss.size then { ss with size := ss.size * 2 } else ss).objs =
      ss.objs := by
    split <;> rfl
  simp only [stackSetPush, StackSet.contents, grownTop, grownObjs, List.range_succ, List.map_append,
    List.map_cons, List.map_nil, Function.update_same]
  congr 1
  exact List.map_congr_left fun i mem =>
    Function.update_noteq (Nat.ne_of_lt (List.mem_range.mp mem)) _ _

@[simp] theorem stackSetPush_top (ss : StackSet α) (value : α) :
    (stackSetPush ss value).top = ss.top + 1 := by
  simp only [stackSetPush]; split <;> rfl

/-- `0 <= top <= size`, and a `size` that doubling makes grow. -/
structure StackSet.Fits (ss : StackSet α) : Prop where
  positive : 1 ≤ ss.size
  topLe : ss.top ≤ ss.size

theorem StackSet.Fits.push {ss : StackSet α} (fits : ss.Fits) (value : α) :
    (stackSetPush ss value).Fits := by
  have := fits.topLe
  have := fits.positive
  unfold stackSetPush
  split <;> constructor <;> simp <;> omega

section ListView

/-! What a stack set stands for: the list of its entries, bottom first. `push` appends and
`clear` empties it; `pop` removes the topmost occurrence of its value, and, when there is
none, the scan of `stack_set_pop` has moved every entry down a slot and lost the bottom one. -/

variable [DecidableEq α]

/-- `l` without its last occurrence of `value`. -/
def eraseLast (value : α) (l : List α) : List α := (l.reverse.erase value).reverse

/-- What `stack_set_pop(value)` answers and leaves, on the list of entries. -/
def popList (value : α) (l : List α) : Bool × List α :=
  if value ∈ l then (true, eraseLast value l) else (false, l.tail)

theorem popList_sublist (value : α) (l : List α) : List.Sublist (popList value l).2 l := by
  unfold popList eraseLast
  split
  · simpa using (List.erase_sublist value l.reverse).reverse
  · exact List.tail_sublist l

@[simp] theorem eraseLast_append_self (value : α) (l : List α) :
    eraseLast value (l ++ [value]) = l := by
  simp [eraseLast]

theorem eraseLast_append_of_ne {value x : α} (ne : x ≠ value) (l : List α) :
    eraseLast value (l ++ [x]) = eraseLast value l ++ [x] := by
  simp [eraseLast, List.erase_cons_tail, ne]

theorem scanBack_above (value : α) (n : Nat) (objs : Nat → α) (last : α) {i : Nat}
    (above : n ≤ i) : (scanBack value n objs last).2 i = objs i := by
  induction n generalizing objs last with
  | zero => rfl
  | succ idx ih =>
    have ne : i ≠ idx := by omega
    simp only [scanBack]
    split
    · exact Function.update_noteq ne _ _
    · rw [ih _ _ (by omega)]
      exact Function.update_noteq ne _ _

theorem scanBack_spec (value : α) (n : Nat) (objs : Nat → α) (last : α) :
    (scanBack value n objs last).1 = decide (value ∈ (List.range n).map objs) ∧
      (List.range n).map (scanBack value n objs last).2 =
        if value ∈ (List.range n).map objs then eraseLast value ((List.range n).map objs) ++ [last]
        else ((List.range n).map objs ++ [last]).tail := by
  induction n generalizing objs last with
  | zero => simp [scanBack]
  | succ idx ih =>
    have below : (List.range idx).map (Function.update objs idx last) = (List.range idx).map objs :=
      List.map_congr_left fun i mem => Function.update_noteq (Nat.ne_of_lt (List.mem_range.mp mem)) _ _
    simp only [scanBack, List.range_succ, List.map_append, List.map_singleton]
    split
    · rename_i found
      simp [found, below]
    · rename_i missed
      obtain ⟨flag, entries⟩ := ih (Function.update objs idx last) (objs idx)
      rw [below] at flag entries
      have top : (scanBack value idx (Function.update objs idx last) (objs idx)).2 idx = last := by
        rw [scanBack_above _ _ _ _ le_rfl, Function.update_same]
      refine ⟨by simp [flag, missed, Ne.symm missed], ?_⟩
      rw [entries, top]
      by_cases present : value ∈ (List.range idx).map objs
      · simp [present, eraseLast_append_of_ne missed]
      · have absent : value ∉ (List.range idx).map objs ++ [objs idx] := by
          simpa [Ne.symm missed] using present
        have shift : ((List.range idx).map objs ++ [objs idx] ++ [last]).tail =
            ((List.range idx).map objs ++ [objs idx]).tail ++ [last] :=
          List.tail_append_of_ne_nil (by simp)
        rw [if_neg present, if_neg absent, shift]

theorem stackSetPop_eq_none {ss : StackSet α} {value : α} : stackSetPop ss value = none ↔ ss.top = 0 := by
  unfold stackSetPop
  split
  · simp_all
  · rename_i hTop
    simp only [hTop, Nat.succ_ne_zero, iff_false]
    split <;> simp

theorem stackSetPop_spec (ss : StackSet α) (value : α) (nonempty : ss.top ≠ 0) :
    ∃ ss', stackSetPop ss value = some ((popList value ss.contents).1, ss') ∧
      ss'.contents = (popList value ss.contents).2 ∧ ss'.top = ss.top - 1 ∧ ss'.size = ss.size := by
  obtain ⟨top, hTop⟩ : ∃ top, ss.top = top + 1 := ⟨ss.top - 1, by omega⟩
  have entries : ss.contents = (List.range top).map ss.objs ++ [ss.objs top] := by
    simp [StackSet.contents, hTop, List.range_succ]
  simp only [stackSetPop, hTop, entries]
  split
  · rename_i missed
    obtain ⟨flag, scanned⟩ := scanBack_spec value top ss.objs (ss.objs top)
    refine ⟨{ ss with objs := (scanBack value top ss.objs (ss.objs top)).2, top := top }, ?_, ?_,
      by simp [hTop], rfl⟩ <;>
      by_cases present : value ∈ (List.range top).map ss.objs
    · simp [flag, present, popList]
    · simp [flag, present, popList, Ne.symm missed]
    · simp [StackSet.contents, scanned, present, popList, eraseLast_append_of_ne missed]
    · simp [StackSet.contents, scanned, present, popList, Ne.symm missed]
  · rename_i found
    simp only [not_not] at found
    refine ⟨{ ss with top := top }, ?_, ?_, by simp [hTop], rfl⟩ <;>
      simp [popList, found, StackSet.contents]

/-- The fast path of `stack_set_pop`: popping the topmost entry. -/
theorem stackSetPop_top {ss : StackSet α} {below : List α} {value : α}
    (stacked : ss.contents = below ++ [value]) :
    ∃ ss', stackSetPop ss value = some (true, ss') ∧ ss'.contents = below := by
  have nonempty : ss.top ≠ 0 := fun empty => by simp [StackSet.contents, empty] at stacked
  obtain ⟨ss', popped, contents, -⟩ := stackSetPop_spec ss value nonempty
  simp only [stacked, popList, List.mem_append, List.mem_singleton, or_true, if_true,
    eraseLast_append_self] at popped contents
  exact ⟨ss', popped, contents⟩

theorem stackSetPop_contents {ss ss' : StackSet α} {value : α} {found : Bool}
    (popped : stackSetPop ss value = some (found, ss')) : ∀ x ∈ ss'.contents, x ∈ ss.contents := by
  have nonempty : ss.top ≠ 0 := fun empty => by simp [stackSetPop_eq_none.mpr empty] at popped
  obtain ⟨ss'', popped', contents, -⟩ := stackSetPop_spec ss value nonempty
  obtain rfl : ss'' = ss' := (Prod.mk.inj (Option.some.inj (popped'.symm.trans popped))).2
  intro x mem
  rw [contents, popList] at mem
  split at mem
  · exact List.mem_reverse.mp (List.mem_of_mem_erase (List.mem_reverse.mp mem))
  · exact List.mem_of_mem_tail mem

/-- The calls a program makes on a stack set. -/
inductive StackSetOp (α : Type) where
  | push (value : α)
  | clear
  | pop (value : α)
  deriving Repr

/-- One call on a stack set, with its answer (`stack_set_pop`'s, `true` for the others);
`none` for a pop of an empty stack set. -/
def StackSetOp.onSet : StackSetOp α → StackSet α → Option (Bool × StackSet α)
  | .push value, ss => some (true, stackSetPush ss value)
  | .clear, ss => some (true, clearStackSet ss)
  | .pop value, ss => stackSetPop ss value

/-- The same call on the list of entries. -/
def StackSetOp.onList : StackSetOp α → List α → Option (Bool × List α)
  | .push value, l => some (true, l ++ [value])
  | .clear, _ => some (true, [])
  | .pop value, l => if l = [] then none else some (popList value l)

/-- Calls made in turn from `s`, with their answers; `none` once a call is. -/
def runOps {σ : Type} (step : StackSetOp α → σ → Option (Bool × σ)) :
    List (StackSetOp α) → σ → Option (List Bool × σ)
  | [], s => some ([], s)
  | op :: ops, s => (step op s).bind fun (answer, s') =>
    (runOps step ops s').map fun (answers, s'') => (answer :: answers, s'')

theorem StackSetOp.onSet_spec (op : StackSetOp α) {ss : StackSet α} (fits : ss.Fits) :
    (op.onSet ss).map (fun r => (r.1, r.2.contents)) = op.onList ss.contents ∧
      ∀ r ∈ op.onSet ss, r.2.Fits := by
  cases op with
  | push value =>
    refine ⟨by simp [onSet, onList], ?_⟩
    simpa [onSet] using fits.push value
  | clear => exact ⟨rfl, by simpa [onSet, clearStackSet] using ⟨fits.positive, Nat.zero_le _⟩⟩
  | pop value =>
    by_cases empty : ss.top = 0
    · have nil : ss.contents = [] := by simp [StackSet.contents, empty]
      simp [onSet, onList, nil, stackSetPop_eq_none.mpr empty]
    · obtain ⟨ss', popped, contents, top, size⟩ := stackSetPop_spec ss value empty
      have nonnil : ss.contents ≠ [] := by simp [StackSet.contents, empty]
      refine ⟨by simp [onSet, onList, popped, contents, nonnil], ?_⟩
      simp only [onSet, popped, Option.mem_def, Option.some.injEq, forall_eq']
      exact ⟨size ▸ fits.positive, by have := fits.topLe; omega⟩

theorem runOps_onSet (ops : List (StackSetOp α)) {ss : StackSet α} (fits : ss.Fits) :
    (runOps StackSetOp.onSet ops ss).map (fun r => (r.1, r.2.contents)) =
        runOps StackSetOp.onList ops ss.contents ∧
      ∀ r ∈ runOps StackSetOp.onSet ops ss, r.2.Fits := by
  induction ops generalizing ss with
  | nil => exact ⟨rfl, by simpa [runOps] using fits⟩
  | cons op ops ih =>
    obtain ⟨step, kept⟩ := op.onSet_spec fits
    cases stepped : op.onSet ss with
    | none =>
      rw [stepped] at step
      simp [runOps, stepped, ← step]
    | some r =>
      rw [stepped] at step
      obtain ⟨rest, restFits⟩ := ih (kept r stepped)
      refine ⟨?_, ?_⟩
      · simp only [runOps, stepped, ← step, Option.map_some', Option.some_bind, ← rest,
          Option.map_map]
        rfl
      · simp only [runOps, stepped, Option.some_bind, Option.mem_def, Option.map_eq_some']
        rintro _ ⟨r', run, rfl⟩
        exact restFits r' run

/-- `make_stack_set(k)` with `k ≥ 1`, then any calls of `stack_set_push`, `clear_stack_set` and
`stack_set_pop`: the entries follow the list semantics, each pop answers as the list does, and
`top ≤ size` after every call. -/
theorem stackSet_implements_list [Inhabited α] {k : Nat} (positive : 1 ≤ k)
    (ops : List (StackSetOp α)) :
    (runOps StackSetOp.onSet ops (makeStackSet k)).map (fun r => (r.1, r.2.contents)) =
        runOps StackSetOp.onList ops [] ∧
      ∀ r ∈ runOps StackSetOp.onSet ops (makeStackSet k), r.2.top ≤ r.2.size := by
  have start : (makeStackSet k : StackSet α).Fits := ⟨positive, Nat.zero_le _⟩
  obtain ⟨same, fits⟩ := runOps_onSet ops start
  exact ⟨same, fun r mem => (fits r mem).topLe⟩

theorem stackSet_implements_list_roots :
    1 ≤ 400 ∧
      ((runOps StackSetOp.onSet [.push 3, .push 5, .push 3, .pop 5, .pop 7] (makeStackSet 400)).map
          (fun r => (r.1, r.2.contents)) =
        runOps StackSetOp.onList [.push 3, .push 5, .push 3, .pop 5, .pop 7] [] ∧
      ∀ r ∈ runOps StackSetOp.onSet [.push 3, .push 5, .push 3, .pop 5, .pop 7] (makeStackSet 400),
        r.2.top ≤ r.2.size) :=
  ⟨by decide, stackSet_implements_list (by decide) _⟩

end ListView

end BrianScheme
