import BrianScheme.Vm.Stack

/-! The control stack that `vm_execute` keeps in its flat value stack. Above `initial_top` lie
the operands of the pending activations from the outermost on, each activation but the
outermost behind the triple `(k . (fn . env))` that `save` pushed before the call entering it.
`ControlStack` is that picture and `ControlStack.next` its move at each dispatch; a run whose
bytecode keeps to its activations' bounds is one that every move of it accepts (`Tracks`).
Along such a run the slots are laid out as the control stack says (`Layout`), and every return
sequence either returns from the outermost activation to `vm_execute`'s caller or resumes from
the triple of the activation it leaves. -/

namespace BrianScheme

/-- The activations entered by a non-tail call and not returned yet, innermost first, each as
the slot its operands start at and the triple its `save` pushed; and the triples pushed by
`save` that no call has taken yet, each with its slot. -/
structure ControlStack where
  frames : List (Nat × Nat)
  saves : List (Nat × Nat)
  deriving DecidableEq, Repr

namespace ControlStack

/-- The slot the innermost activation's operands start at; the outermost activation's start
at `initial_top`. -/
def base (bottom : Nat) : List (Nat × Nat) → Nat
  | [] => bottom
  | (b, _) :: _ => b

/-- Where the return sequence goes once the top `dropped` of `len` slots have given way to one
value: `some none` when the outermost activation returns, to `vm_execute`'s caller;
`some (some t)` when the run resumes from the triple `t` of the activation that returns, or of
the pending `save` just under the dropped slots (a primitive called after `save`); `none` when
the value is not alone above an activation's base. -/
def returnsTo (bottom len dropped : Nat) (cs : ControlStack) : Option (Option Nat) :=
  if dropped ≤ len ∧ base bottom cs.frames < len - dropped then
    (cs.saves.find? fun s => s.1 + 1 = len - dropped).map fun s => some s.2
  else if dropped ≤ len ∧ len - dropped = base bottom cs.frames then
    some (cs.frames.head?.map Prod.snd)
  else none

/-- The control stack after a move from `len` slots that leaves `top` as the top slot, or `none`
when the move breaks its activation's bounds: a pop below the base, a call with no pending
`save` just under its arguments, a return with not exactly one value above the base. -/
def next (bottom len : Nat) (top : Option Nat) (cs : ControlStack) : Move → Option ControlStack
  | .within pops =>
    if pops + base bottom cs.frames ≤ len then
      some { cs with saves := cs.saves.filter (·.1 < len - pops) }
    else none
  | .save => top.map fun t => { cs with saves := (len, t) :: cs.saves }
  | .call args =>
    match cs.saves.find? fun s => s.1 + args + 2 = len with
    | some (p, t) =>
      if base bottom cs.frames ≤ p then some ⟨(p + 1, t) :: cs.frames, cs.saves.filter (·.1 < p)⟩
      else none
    | none => none
  | .leave dropped =>
    (cs.returnsTo bottom len dropped).map fun _ =>
      { frames := if len - dropped = base bottom cs.frames then cs.frames.tail else cs.frames
        saves := cs.saves.filter (·.1 + 1 < len - dropped) }

/-- A `save` at slot 1, an argument and the callee: the call enters an activation at slot 2
behind the saved triple, and its `return` resumes from that triple. -/
example : (ControlStack.mk [] [(1, 7)]).next 0 4 none (.call 1) = some ⟨[(2, 7)], []⟩ := by
  decide

example : (ControlStack.mk [(2, 7)] []).returnsTo 0 3 1 = some (some 7) := by decide

/-- The outermost activation returns to `vm_execute`'s caller. -/
example : (ControlStack.mk [] []).returnsTo 1 2 1 = some none := by decide

/-- Two values above the base: `return` would take an operand for a triple. -/
example : (ControlStack.mk [(2, 7)] []).next 0 4 none (.leave 1) = none := by decide

end ControlStack

/-- The slots as the pending activations `frames` lay them out above `entry`, the slots under
`initial_top`: the outermost activation's operands, then for each further activation the triple
of its `save` and its operands. -/
def Stacked (entry : List Nat) : List (Nat × Nat) → List Nat → Prop
  | [], slots => entry <+: slots
  | (b, t) :: frames, slots => ∃ lower operands, slots = lower ++ t :: operands ∧
      lower.length + 1 = b ∧ Stacked entry frames lower

/-- The control stack `cs` read into the slots: its activations laid out, and each pending
`save`'s triple in its slot. -/
structure Layout (entry : List Nat) (cs : ControlStack) (slots : List Nat) : Prop where
  stacked : Stacked entry cs.frames slots
  saved : ∀ s ∈ cs.saves, slots[s.1]? = some s.2

section Lists

variable {entry slots slots' : List Nat} {n : Nat}

theorem getElem?_of_take_prefix {i a : Nat} (found : slots[i]? = some a) (below : i < n)
    (kept : slots.take n <+: slots') : slots'[i]? = some a := by
  obtain ⟨more, rfl⟩ := kept
  have inRange : i < (slots.take n).length := by
    obtain ⟨bound, -⟩ := List.getElem?_eq_some_iff.mp found
    simp only [List.length_take]
    omega
  rw [List.getElem?_append_left inRange, List.getElem?_take_of_lt below, found]

theorem take_length_sub (below tail : List Nat) :
    (below ++ tail).take ((below ++ tail).length - tail.length) = below := by
  rw [List.length_append, Nat.add_sub_cancel, List.take_left' rfl]

theorem take_append_cons {lower operands : List Nat} {t : Nat} (above : lower.length < n) :
    (lower ++ t :: operands).take n = lower ++ t :: operands.take (n - lower.length - 1) := by
  have split : n - lower.length = (n - lower.length - 1) + 1 := by omega
  rw [List.take_append_eq_append_take, List.take_of_length_le (by omega), split, List.take_succ_cons,
    Nat.add_sub_cancel]

theorem Stacked.bounds {frames : List (Nat × Nat)} (stacked : Stacked entry frames slots) :
    entry.length ≤ ControlStack.base entry.length frames ∧
      ControlStack.base entry.length frames ≤ slots.length := by
  induction frames generalizing slots with
  | nil => exact ⟨le_rfl, stacked.length_le⟩
  | cons frame frames ih =>
    obtain ⟨lower, operands, rfl, based, lowerStacked⟩ := stacked
    have := ih lowerStacked
    simp only [ControlStack.base, List.length_append, List.length_cons] at based ⊢
    omega

theorem Stacked.of_prefix {frames : List (Nat × Nat)} (stacked : Stacked entry frames slots)
    (above : ControlStack.base entry.length frames ≤ n) (kept : slots.take n <+: slots') :
    Stacked entry frames slots' := by
  cases frames with
  | nil =>
    exact ((List.prefix_iff_eq_take.mp stacked).symm ▸ List.take_prefix_take_left slots above).trans
      kept
  | cons frame frames =>
    obtain ⟨b, t⟩ := frame
    obtain ⟨lower, operands, rfl, based, lowerStacked⟩ := stacked
    obtain ⟨more, rfl⟩ := kept
    simp only [ControlStack.base] at above
    refine ⟨lower, operands.take (n - lower.length - 1) ++ more, ?_, based, lowerStacked⟩
    rw [take_append_cons (by omega)]
    simp

theorem saved_of_prefix {saves : List (Nat × Nat)} (saved : ∀ s ∈ saves, slots[s.1]? = some s.2)
    (kept : slots.take n <+: slots') (p : Nat × Nat → Prop) [DecidablePred p]
    (below : ∀ s, p s → s.1 < n) : ∀ s ∈ saves.filter p, slots'[s.1]? = some s.2 := by
  intro s kept'
  obtain ⟨mem, holds⟩ := List.mem_filter.mp kept'
  exact getElem?_of_take_prefix (saved s mem) (below s (of_decide_eq_true holds)) kept

end Lists

/-- What a move does to the slots when the run goes on to another dispatch. -/
def SlotStep (bottom : Nat) (slots slots' : List Nat) : Move → Prop
  | .within pops => slots.take (slots.length - pops) <+: slots'
  | .save => ∃ t, slots' = slots ++ [t]
  | .call _ => slots.take (slots.length - 1) <+: slots'
  | .leave dropped => ∃ rest ret value, slots.take (slots.length - dropped) = rest ++ [ret] ∧
      dropped ≤ slots.length ∧ rest.length + 1 ≠ bottom ∧ slots' = rest ++ [value]

namespace Layout

variable {entry slots slots' : List Nat} {cs cs' : ControlStack}

theorem within {pops : Nat} (layout : Layout entry cs slots) (moved : SlotStep entry.length slots slots' (.within pops))
    (accepted : cs.next entry.length slots.length slots'.getLast? (.within pops) = some cs') :
    Layout entry cs' slots' := by
  simp only [ControlStack.next] at accepted
  split at accepted
  · cases accepted
    exact ⟨layout.stacked.of_prefix (by omega) moved,
      saved_of_prefix layout.saved moved _ fun _ => id⟩
  · cases accepted

theorem save (layout : Layout entry cs slots) (moved : SlotStep entry.length slots slots' .save)
    (accepted : cs.next entry.length slots.length slots'.getLast? .save = some cs') :
    Layout entry cs' slots' := by
  obtain ⟨t, rfl⟩ := moved
  simp only [ControlStack.next, List.getLast?_concat, Option.map_some', Option.some.injEq] at accepted
  subst accepted
  have kept : slots.take slots.length <+: slots ++ [t] := by simp
  refine ⟨layout.stacked.of_prefix layout.stacked.bounds.2 kept, ?_⟩
  rintro s (_ | ⟨_, mem⟩)
  · exact List.getElem?_concat_length slots t
  · exact getElem?_of_take_prefix (layout.saved s mem)
      (List.getElem?_eq_some_iff.mp (layout.saved s mem)).1 kept

theorem call {args : Nat} (layout : Layout entry cs slots)
    (moved : SlotStep entry.length slots slots' (.call args))
    (accepted : cs.next entry.length slots.length slots'.getLast? (.call args) = some cs') :
    Layout entry cs' slots' := by
  simp only [ControlStack.next] at accepted
  split at accepted
  case h_2 => cases accepted
  rename_i p t found
  split at accepted
  case isFalse => cases accepted
  rename_i above
  cases accepted
  have saved := layout.saved _ (List.mem_of_find?_eq_some found)
  have slot := List.find?_some found
  simp only [decide_eq_true_eq] at slot
  have kept : slots.take (p + 1) <+: slots' :=
    (List.take_prefix_take_left slots (by omega)).trans moved
  have split : slots.take (p + 1) = slots.take p ++ [t] := by
    rw [List.take_succ, saved]
    rfl
  refine ⟨?_, saved_of_prefix layout.saved kept _ fun _ below => by omega⟩
  obtain ⟨more, rfl⟩ := kept
  exact ⟨slots.take p, more, by rw [split]; simp, by simp; omega,
    layout.stacked.of_prefix above (List.prefix_refl _)⟩

theorem leave {dropped : Nat} (layout : Layout entry cs slots)
    (moved : SlotStep entry.length slots slots' (.leave dropped))
    (accepted : cs.next entry.length slots.length slots'.getLast? (.leave dropped) = some cs') :
    Layout entry cs' slots' := by
  obtain ⟨rest, ret, value, window, fits, nested, rfl⟩ := moved
  simp only [ControlStack.next, Option.map_eq_some'] at accepted
  obtain ⟨r, returned, rfl⟩ := accepted
  have length : slots.length - dropped = rest.length + 1 := by
    simpa [Nat.min_eq_left (Nat.sub_le _ _)] using congrArg List.length window
  have lower : slots.take rest.length = rest := by
    have := congrArg (List.take rest.length) window
    rwa [List.take_take, Nat.min_eq_left (by omega), List.take_left' rfl] at this
  have kept : slots.take rest.length <+: rest ++ [value] := by
    rw [lower]
    exact List.prefix_append _ _
  refine ⟨?_, saved_of_prefix layout.saved kept _ fun _ below => by omega⟩
  have bounds := layout.stacked.bounds
  split
  case isFalse resumed =>
    have above : ControlStack.base entry.length cs.frames ≤ rest.length := by
      simp only [ControlStack.returnsTo] at returned
      split at returned
      · omega
      · split at returned
        · omega
        · cases returned
    exact layout.stacked.of_prefix above kept
  case isTrue leaving =>
    cases frames : cs.frames with
    | nil =>
      rw [frames] at leaving
      simp only [ControlStack.base] at leaving
      omega
    | cons frame frames' =>
      obtain ⟨b, t⟩ := frame
      have stacked := layout.stacked
      rw [frames] at stacked leaving
      obtain ⟨lower', operands, split, based, lowerStacked⟩ := stacked
      simp only [ControlStack.base] at leaving
      have same : lower' = rest := by
        rw [← lower, split, List.take_left' (by omega)]
      subst same
      exact lowerStacked.of_prefix lowerStacked.bounds.2 (by simp)

end Layout

theorem Layout.next {entry slots slots' : List Nat} {cs cs' : ControlStack} {m : Move}
    (layout : Layout entry cs slots) (moved : SlotStep entry.length slots slots' m)
    (accepted : cs.next entry.length slots.length slots'.getLast? m = some cs') :
    Layout entry cs' slots' := by
  cases m with
  | within pops => exact layout.within moved accepted
  | save => exact layout.save moved accepted
  | call args => exact layout.call moved accepted
  | leave dropped => exact layout.leave moved accepted

section Returns

variable (g : Globals) {v v' : Vm} {ctl : Control} {below : List Nat}

theorem Returned.native (returned : Returned g v.initialTop v' ctl below)
    (outermost : (below.length : Int) = v.initialTop) : ∃ value, ctl = .exit value none := by
  obtain ⟨value, ⟨-, exit⟩ | ⟨nested, -⟩⟩ := returned
  · exact ⟨value, exit⟩
  · exact absurd outermost nested

theorem Returned.resumed (returned : Returned g v.initialTop v' ctl below)
    (inner : (below.length : Int) ≠ v.initialTop) :
    ∃ rest ret value, below = rest ++ [ret] ∧ v'.slots = some (rest ++ [value]) ∧
      Restored v' ret ∧ ¬∃ value, ctl = .exit value none := by
  obtain ⟨value, ⟨outermost, -⟩ | ⟨-, rest, ret, rfl, stacked, restored, ctl'⟩⟩ := returned
  · exact absurd outermost inner
  refine ⟨rest, ret, value, rfl, stacked, restored, ?_⟩
  rintro ⟨_, rfl⟩
  rcases ctl' with same | same <;> cases same

theorem Moves.slotStep {slots : List Nat} {m : Move} (moved : Moves g v v' .next slots m) :
    ∃ slots', v'.slots = some slots' ∧ SlotStep v.initialTop.toNat slots slots' m := by
  cases m with
  | within pops => exact moved
  | save =>
    obtain ⟨t, stacked⟩ := moved
    exact ⟨_, stacked, t, rfl⟩
  | call args => exact moved
  | leave dropped =>
    obtain ⟨below, tail, rfl, dropped, returned⟩ := moved
    by_cases outermost : (below.length : Int) = v.initialTop
    · obtain ⟨_, exit⟩ := returned.native g outermost
      cases exit
    obtain ⟨rest, ret, value, rfl, stacked, -, -⟩ := returned.resumed g outermost
    refine ⟨_, stacked, rest, ret, value, by rw [← dropped, take_length_sub],
      by rw [← dropped, List.length_append]; omega, ?_, rfl⟩
    simp only [List.length_append, List.length_singleton] at outermost
    omega

end Returns

section Run

variable (x : Externals) (g : Globals)

/-- The dispatches of the run of `vm_execute` entered in `start` whose bytecode has kept to its
activations' bounds so far, each with the control stack it has built: the run starts with the
outermost activation alone and goes on through every move its control stack accepts. -/
inductive Tracks (start : Vm) : Vm → ControlStack → Prop
  | enter {v : Vm} : (vmEnter g).run start = .ok (.next, v) → Tracks start v ⟨[], []⟩
  | step {v v' : Vm} {cs cs' : ControlStack} {slots : List Nat} : Tracks start v cs →
      (dispatch x g).run v = .ok (.next, v') → v.slots = some slots →
      cs.next start.initialTop.toNat slots.length (v'.slots.bind List.getLast?) v.move = some cs' →
      Tracks start v' cs'

theorem vmEnter_steady {c : Nat} : Steady c (vmEnter g) :=
  (getLocal_steady _).bind fun _ => (onHeap_steady _).bind fun _ =>
    (setLocal_steady _ _).bind fun _ => (getLocal_steady _).bind fun _ =>
    (cons_steady _ _).bind fun _ => (setLocal_steady _ _).bind fun _ =>
    (setLocal_steady _ _).bind fun _ => (pushRootOf_steady _).bind fun _ =>
    (pushRootOf_steady _).bind fun _ => (pushRootOf_steady _).bind fun _ => (fnBegin_inert g).steady

variable {x g} {start v : Vm} {cs : ControlStack}

theorem Tracks.dispatches (tracked : Tracks x g start v cs) : Dispatches x g start v := by
  induction tracked with
  | enter entered => exact .enter entered
  | step _ stepped _ _ ih => exact .step ih stepped

theorem Tracks.carries {c : Nat} (spare : x.Spare c) (tracked : Tracks x g start v cs) :
    Carries start v := by
  induction tracked with
  | enter entered => exact (vmEnter_steady (c := c) g start _ _ entered).1
  | step _ stepped _ _ ih => exact ih.trans (dispatch_movesBy g spare _ _ _ stepped).1

theorem take_initialTop_length {entry : List Nat} (entered : start.slots = some entry)
    (fits : start.initialTop ≤ start.stackTop) :
    (entry.take start.initialTop.toNat).length = start.initialTop.toNat := by
  have := Vm.slots_length entered
  simp only [List.length_take]
  omega

theorem Tracks.layout (spare : x.Spare start.stack) (pool : start.stack < start.gc.poolSize)
    {entry : List Nat} (entered : start.slots = some entry) (fits : start.initialTop ≤ start.stackTop)
    (tracked : Tracks x g start v cs) (quiet : start.stack ∉ v.written) :
    ∃ slots, v.slots = some slots ∧ Layout (entry.take start.initialTop.toNat) cs slots := by
  have length := take_initialTop_length entered fits
  induction tracked with
  | enter entered' =>
    obtain ⟨-, kept⟩ := vmEnter_steady (c := start.stack) g start _ _ entered'
    exact ⟨entry, (kept ⟨rfl, quiet, pool⟩).trans entered, ⟨List.take_prefix _ _, by simp⟩⟩
  | step tracked' stepped stacked accepted ih =>
    obtain ⟨carry, moves⟩ := dispatch_movesBy g spare _ _ _ stepped
    obtain ⟨slots, stacked₀, layout⟩ := ih (fun mem => quiet (carry.written.subset mem))
    rw [stacked₀, Option.some.injEq] at stacked
    subst stacked
    have carried := tracked'.carries spare
    obtain ⟨slots', stacked', step⟩ := Moves.slotStep g
      (moves ⟨carried.stack, quiet, lt_of_lt_of_le pool carried.poolSize⟩ _ stacked₀)
    rw [carried.initialTop, ← length] at step
    rw [stacked', ← length] at accepted
    exact ⟨slots', stacked', layout.next step accepted⟩

end Run

end BrianScheme
