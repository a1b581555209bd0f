import BrianScheme.Vm.Splat

/-! `VPUSH` and `VPOP` as a stack. The live slots of `vm_execute`'s stack vector, `Vm.slots`, are
a list, bottom first; any sequence of pushes and pops on a vector of at least two slots acts on
that list as a stack does, writes no cell but the stack vector, and keeps the vector at two slots
or more. A pop of the empty stack is the read of `VARRAY(stack)[-1]`. -/

namespace BrianScheme

/-- `VPUSH(thing, stack, stack_top)` or `VPOP(var, stack, stack_top)`. -/
inductive VStackOp where
  | push (thing : Nat)
  | pop
  deriving DecidableEq, Repr

/-- The operations in turn on `vm_execute`'s stack, with the values the pops return. -/
def VStackOp.run (g : Globals) : List VStackOp → VmM (List Nat)
  | [] => pure []
  | .push thing :: ops => do
    vpush g thing
    VStackOp.run g ops
  | .pop :: ops => do
    let top ← vpop g
    let rest ← VStackOp.run g ops
    pure (top :: rest)

/-- The same operations on a list, top last, with the values the pops return; `none` once a pop
finds the list empty. -/
def VStackOp.onList : List VStackOp → List Nat → Option (List Nat × List Nat)
  | [], slots => some ([], slots)
  | .push thing :: ops, slots => VStackOp.onList ops (slots ++ [thing])
  | .pop :: ops, slots => match slots.getLast? with
    | none => none
    | some top => (VStackOp.onList ops slots.dropLast).map fun (popped, rest) => (top :: popped, rest)

section Ops

variable (g : Globals)

theorem vpush_wide (thing : Nat) {v : Vm} {slots : List Nat} (stacked : v.slots = some slots)
    (wide : v.Wide) : ∃ cells, Restacked v.stack v.gc.cells cells ∧
      (vpush g thing).run v = .ok ((), v.restack cells (v.stackTop + 1)) ∧
      (v.restack cells (v.stackTop + 1)).slots = some (slots ++ [thing]) ∧
      (v.restack cells (v.stackTop + 1)).Wide := by
  obtain ⟨elements, grown, vector, longer, -, -, pushed⟩ := vpush_ok g thing stacked wide.room
  refine ⟨_, .setPayload ⟨elements, vector⟩, pushed, (vpush_run g pushed).2.2.2.2.2 _ stacked,
    grown.set slots.length thing, by simp only [Vm.restack, setPayload_payload, if_true], ?_⟩
  simpa using le_trans (wide.two vector) longer

theorem vpop_wide {v : Vm} {rest : List Nat} {top : Nat} (stacked : v.slots = some (rest ++ [top]))
    (wide : v.Wide) : ∃ cells, Restacked v.stack v.gc.cells cells ∧
      (vpop g).run v = .ok (top, v.restack cells (v.stackTop - 1)) ∧
      (v.restack cells (v.stackTop - 1)).slots = some rest ∧
      (v.restack cells (v.stackTop - 1)).Wide := by
  obtain ⟨elements, vector, -, popped, stacked'⟩ := vpop_ok g stacked
  refine ⟨_, .setPayload ⟨elements, vector⟩, popped, stacked', elements.set rest.length g.theEmptyList,
    by simp only [Vm.restack, setPayload_payload, if_true], ?_⟩
  simpa using wide.two vector

/-- `VPUSH` and `VPOP` implement a stack on the live slots: from a wide stack, a sequence of
operations returns the values the list operations pop and leaves the list they leave, with only
the stack vector written and the vector still wide; a pop of the empty stack is undefined. -/
theorem vstack_implements_list (ops : List VStackOp) {v : Vm} {slots : List Nat}
    (stacked : v.slots = some slots) (wide : v.Wide) :
    (∀ popped rest, VStackOp.onList ops slots = some (popped, rest) →
      ∃ cells top, Restacked v.stack v.gc.cells cells ∧
        (VStackOp.run g ops).run v = .ok (popped, v.restack cells top) ∧
        (v.restack cells top).slots = some rest ∧ (v.restack cells top).Wide) ∧
      (VStackOp.onList ops slots = none → (VStackOp.run g ops).run v = .error .undefined) := by
  induction ops generalizing v slots with
  | nil =>
    refine ⟨fun popped rest listed => ?_, fun listed => by cases listed⟩
    cases listed
    exact ⟨v.gc.cells, v.stackTop, ⟨fun _ _ => rfl, rfl, wide.room.elim fun e h => ⟨e, h.1⟩,
      wide.room.elim fun e h => ⟨e, h.1⟩⟩, rfl, stacked, wide⟩
  | cons op ops ih =>
    cases op with
    | push thing =>
      obtain ⟨cells, restacked, pushed, stacked', wide'⟩ := vpush_wide g thing stacked wide
      obtain ⟨done, failed⟩ := ih stacked' wide'
      refine ⟨fun popped rest listed => ?_, fun listed => ?_⟩
      · obtain ⟨cells', top, restacked', ran, stacked'', wide''⟩ := done popped rest listed
        exact ⟨cells', top, restacked.trans restacked', (run_bind_ok pushed).trans ran, stacked'',
          wide''⟩
      · exact (run_bind_ok pushed).trans (failed listed)
    | pop =>
      cases last : slots.getLast? with
      | none =>
        have empty : slots = [] := List.getLast?_eq_none_iff.mp last
        subst empty
        refine ⟨fun popped rest listed => by simp [VStackOp.onList] at listed, fun _ => ?_⟩
        exact run_bind_error (vpop_empty g stacked)
      | some top =>
        have split : slots = slots.dropLast ++ [top] := (List.dropLast_append_getLast? top last).symm
        obtain ⟨cells, restacked, popped₁, stacked', wide'⟩ := vpop_wide g (split ▸ stacked) wide
        obtain ⟨done, failed⟩ := ih stacked' wide'
        simp only [VStackOp.onList, last]
        refine ⟨fun popped rest listed => ?_, fun listed => ?_⟩
        · obtain ⟨⟨popped', rest'⟩, listed', same⟩ := Option.map_eq_some'.mp listed
          cases same
          obtain ⟨cells', top', restacked', ran, stacked'', wide''⟩ := done popped' rest' listed'
          refine ⟨cells', top', restacked.trans restacked', ?_, stacked'', wide''⟩
          rw [VStackOp.run, run_bind_ok popped₁, run_bind_ok ran]
          rfl
        · rw [VStackOp.run, run_bind_ok popped₁, run_bind_error (failed (Option.map_eq_none'.mp listed))]

/-- A stack vector `#(() ())` with no live slot. -/
def twoSlotVm : Vm :=
  Vm.start { gcInit with cells := fun a => if a = 1 then ⟨.vector [0, 0], 0, none, none⟩ else
    ⟨.uninitialized, 0, none, none⟩ } (fun _ => none) 200 (fun _ => 0) 1 0 0

theorem twoSlotVm_implements_list : twoSlotVm.slots = some [] ∧ twoSlotVm.Wide ∧
    VStackOp.onList [.push 5, .push 7, .push 9, .pop, .push 4, .pop, .pop] [] =
      some ([9, 4, 7], [5]) ∧
    (∀ popped rest, VStackOp.onList [.push 5, .push 7, .push 9, .pop, .push 4, .pop, .pop] [] =
        some (popped, rest) →
      ∃ cells top, Restacked twoSlotVm.stack twoSlotVm.gc.cells cells ∧
        (VStackOp.run ⟨0, 0, 0, 0, 0⟩ [.push 5, .push 7, .push 9, .pop, .push 4, .pop, .pop]).run
          twoSlotVm = .ok (popped, twoSlotVm.restack cells top) ∧
        (twoSlotVm.restack cells top).slots = some rest ∧ (twoSlotVm.restack cells top).Wide) ∧
    (VStackOp.onList [.push 5, .push 7, .push 9, .pop, .push 4, .pop, .pop] [] = none →
      (VStackOp.run ⟨0, 0, 0, 0, 0⟩ [.push 5, .push 7, .push 9, .pop, .push 4, .pop, .pop]).run
        twoSlotVm = .error .undefined) :=
  have stacked : twoSlotVm.slots = some [] := rfl
  have wide : twoSlotVm.Wide := ⟨[0, 0], rfl, le_rfl⟩
  ⟨stacked, wide, rfl, vstack_implements_list ⟨0, 0, 0, 0, 0⟩ _ stacked wide⟩

end Ops

end BrianScheme
