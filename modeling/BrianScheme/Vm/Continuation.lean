import BrianScheme.Vm.Execute

/-! Continuations. `cc` copies the live stack into a fresh vector and hands out a procedure
whose body is `cc_bytecode`; invoking it runs `args 1; lvar 1 1; lvar 1 0; setcc; ...`.
`setcc` pops the captured vector and its top, but then sets `stack = car(stack)`: the `car`
of the live stack, which is a vector (the two pops just used it as one), so the captured
stack is never installed and the step is undefined behaviour. -/

namespace BrianScheme

section Faults

variable (cells : Cells) (obj : Nat)

theorem varray_fault {fault : VmFault} (failed : varray cells obj = .error fault) :
    fault = .undefined := by
  unfold varray at failed
  split at failed <;> cases failed
  rfl

theorem vectorRef_fault {idx : Int} {fault : VmFault}
    (failed : vectorRef cells obj idx = .error fault) : fault = .undefined := by
  unfold vectorRef at failed
  cases read : varray cells obj with
  | error e => rw [read] at failed; cases failed; exact varray_fault cells obj read
  | ok elements =>
    rw [read] at failed
    dsimp only [bind, Except.bind] at failed
    split at failed
    · split at failed <;> cases failed
      rfl
    · cases failed; rfl

theorem vectorSet_fault {idx : Int} {value : Nat} {fault : VmFault}
    (failed : vectorSet cells obj idx value = .error fault) : fault = .undefined := by
  unfold vectorSet at failed
  cases read : varray cells obj with
  | error e => rw [read] at failed; cases failed; exact varray_fault cells obj read
  | ok elements =>
    rw [read] at failed
    dsimp only [bind, Except.bind] at failed
    split at failed <;> cases failed
    rfl

theorem vectorSet_vector {idx : Int} {value : Nat} {cells' : Cells}
    (written : vectorSet cells obj idx value = .ok cells') :
    ∃ elements, (cells' obj).payload = .vector elements := by
  unfold vectorSet at written
  obtain ⟨elements, -, written⟩ := except_bind_eq_ok.mp written
  split at written
  · cases written
    exact ⟨elements.set idx.toNat value, by simp⟩
  · cases written

end Faults

section Pop

variable (g : Globals)

theorem vpop_cases (v : Vm) :
    (vpop g).run v = .error .undefined ∨ ∃ top v', (vpop g).run v = .ok (top, v') ∧
      v'.stack = v.stack ∧ ∃ elements, (v'.gc.cells v.stack).payload = .vector elements := by
  simp only [vpop, StateT.run]
  cases popped : vectorPop g v.gc.cells v.stack v.stackTop with
  | error fault =>
    left
    unfold vectorPop at popped
    cases read : vectorRef v.gc.cells v.stack (v.stackTop - 1) with
    | error e =>
      rw [read] at popped
      cases popped
      rw [vectorRef_fault _ _ read]
      rfl
    | ok old =>
      rw [read] at popped
      dsimp only [bind, Except.bind] at popped
      cases written : vectorSet v.gc.cells v.stack (v.stackTop - 1) g.theEmptyList with
      | error e => rw [written] at popped; cases popped; rw [vectorSet_fault _ _ written]; rfl
      | ok cells => rw [written] at popped; cases popped
  | ok result =>
    right
    refine ⟨_, _, rfl, rfl, ?_⟩
    unfold vectorPop at popped
    obtain ⟨old, -, popped⟩ := except_bind_eq_ok.mp popped
    obtain ⟨cells, written, popped⟩ := except_bind_eq_ok.mp popped
    cases popped
    exact vectorSet_vector _ _ written

end Pop

variable (x : Externals) (g : Globals)

theorem setccOp_undefined (v : Vm) : (setccOp g).run v = .error .undefined := by
  unfold setccOp
  rcases vpop_cases g v with failed | ⟨_, v₁, popped₁, stack₁, -⟩
  · exact run_bind_error failed
  rw [run_bind_ok popped₁]
  rcases vpop_cases g v₁ with failed | ⟨_, v₂, popped₂, stack₂, elements, vector⟩
  · exact run_bind_error failed
  rw [run_bind_ok popped₂, run_bind_ok get_run]
  apply run_bind_error
  simp only [onHeap, StateT.run, stack₂, car, vector]
  rfl

/-- No state follows `setcc`: in particular no state in which it has replaced the live stack. -/
theorem setcc_never_replaces_stack (v : Vm) : ∀ c v', (setccOp g).run v ≠ .ok (c, v') := by
  intro c v' ran
  rw [setccOp_undefined g v] at ran
  cases ran

/-- Every dispatch of `setcc` ends the run in undefined behaviour, so an invoked continuation
never gets past instruction 3 of `cc_bytecode`, and the stack it captured is never made the
live stack. -/
theorem dispatch_setcc_undefined {v : Vm} {instr opcode : Nat} (inRange : v.pc < v.numCodes)
    (fetched : vectorRef v.gc.cells v.codeArray v.pc = .ok instr)
    (opcodeOf : car v.gc.cells instr = .ok opcode) (setcc : char v.gc.cells opcode = .ok 15) :
    (dispatch x g).run v = .error .undefined := by
  unfold dispatch
  rw [run_bind_ok get_run, if_neg (not_le.mpr inRange), run_bind_ok (onHeap_run fetched)]
  rw [run_bind_ok (rfl : (setPc (v.pc + 1)).run v = .ok ((), { v with pc := v.pc + 1 }))]
  rw [run_bind_ok (onHeap_run (by rw [opcodeOf]; exact setcc :
    (do char _ (← car _ instr)) = .ok (15 : UInt8)))]
  exact setccOp_undefined g _

/-- Cell 0 is a bytecode vector whose only instruction, cell 1, has the opcode character of
`setcc` in cell 2. -/
def setccCells : Cells := fun a =>
  ⟨match a with
    | 0 => .vector [1]
    | 1 => .pair 2 3
    | 2 => .character 15
    | _ => .theEmptyList, 0, none, none⟩

/-- `vm_begin` about to fetch that instruction. -/
def setccVm : Vm :=
  { Vm.start { gcInit with cells := setccCells } (fun _ => none) 0 (fun _ => 0) 3 0 0 with
    numCodes := 1 }

theorem setccVm_dispatch_undefined :
    setccVm.pc < setccVm.numCodes ∧ vectorRef setccVm.gc.cells setccVm.codeArray setccVm.pc = .ok 1 ∧
      car setccVm.gc.cells 1 = .ok 2 ∧ char setccVm.gc.cells 2 = .ok 15 ∧
      (dispatch idleExternals ⟨3, 4, 5, 6, 7⟩).run setccVm = .error .undefined :=
  ⟨by decide, rfl, rfl, rfl, dispatch_setcc_undefined idleExternals ⟨3, 4, 5, 6, 7⟩ (by decide) rfl rfl rfl⟩

end BrianScheme
