import BrianScheme.Vm.State

/-! `vm_execute`, opcode by opcode. One call of `dispatch` runs from `vm_begin` to the next
`vm_begin` (through `vm_fn_begin` where the code jumps there) or out through `VM_RETURN`.
`VM_ASSERT` prints its message and returns `error_sym`; the model keeps the message with the
value. Counts the code reads with `LONG` into an `int` are taken as they are. -/

namespace BrianScheme

/-- The opcodes of `opcode_table`, in the order of its enumeration. -/
inductive Opcode where
  | args | argsdot | «return» | const | fn | fjump | tjump | jump | fcallj | callj | lvar | save
  | gvar | lset | gset | setcc | cc | pop
  deriving DecidableEq, Repr

/-- The `case` of `switch (CHAR(opcode))`; `none` is the `default` case. -/
def Opcode.ofCode (code : UInt8) : Option Opcode :=
  match code.toNat with
  | 0 => some .args | 1 => some .argsdot | 2 => some .«return» | 3 => some .const
  | 4 => some .fn | 5 => some .fjump | 6 => some .tjump | 7 => some .jump | 8 => some .fcallj
  | 9 => some .callj | 10 => some .lvar | 11 => some .save | 12 => some .gvar | 13 => some .lset
  | 14 => some .gset | 15 => some .setcc | 16 => some .cc | 17 => some .pop | _ => none

/-- `ARG1(x)`. -/
def arg1 (cells : Cells) (instr : Nat) : Except VmFault Nat := do car cells (← cdr cells instr)

/-- `ARG2(x)`. -/
def arg2 (cells : Cells) (instr : Nat) : Except VmFault Nat := do
  car cells (← cdr cells (← cdr cells instr))

/-- What the call opcodes tell apart in the callee. -/
inductive Callee where
  | compiled
  | primitive (fn : Nat)
  | other

def calleeOf (cells : Cells) (obj : Nat) : Callee :=
  match (cells obj).payload with
  | .compiledProc _ _ | .compiledSyntaxProc _ _ => .compiled
  | .primitiveProc fn => .primitive fn
  | _ => .other

/-- Where `vm_execute` goes after an opcode: on to `vm_begin`, or back to its caller through
`VM_RETURN` with the value and, for a failed `VM_ASSERT`, the message it printed. -/
inductive Control where
  | next
  | exit (value : Nat) (message : Option String)
  deriving DecidableEq, Repr

section Execute

variable (x : Externals) (g : Globals)

def setPc (pc : Int) : VmM Unit := modify fun v => { v with pc := pc }

def setNArgs (nArgs : Int) : VmM Unit := modify fun v => { v with nArgs := nArgs }

/-- `VM_RETURN(obj)`. -/
def vmReturn (obj : Nat) (message : Option String) : VmM Control := do
  popRootOf .top
  popRootOf .env
  popRootOf .fn
  pure (.exit obj message)

/-- A `VM_ASSERT` whose test failed. -/
def vmFail (message : String) : VmM Control := vmReturn g.errorSym (some message)

/-- `vm_fn_begin`. -/
def fnBegin : VmM Control := do
  let fn ← getLocal .fn
  if isCompiled (← get).gc.cells fn then
    let codeArray ← onHeap (bytecode · fn)
    let codes ← onHeap (varray · codeArray)
    modify fun v => { v with codeArray := codeArray, numCodes := codes.length }
    pure .next
  else vmFail g "object is not compiled-procedure"

/-- `RETURN_OPCODE_INSTRUCTIONS`. -/
def returnOpcode : VmM Control := do
  let v ← get
  if v.stackTop = v.initialTop + 1 then
    let val ← vpop g
    vmReturn val none
  else
    let val ← vpop g
    let retAddr ← vpop g
    setLocal .fn (← onHeap fun cells => do car cells (← cdr cells retAddr))
    setPc (← onHeap fun cells => do long cells (← car cells retAddr))
    setLocal .env (← onHeap fun cells => do cdr cells (← cdr cells retAddr))
    vpush g val
    fnBegin g

/-- The loop of `args` and the second loop of `argsdot`:
`for(ii = n - 1; ii >= 0; --ii) { VPOP(top, stack, stack_top); vdata[ii] = top; }` -/
def popArgs (vector : Nat) : Nat → VmM Unit
  | 0 => pure ()
  | n + 1 => do
    let top ← vpop g
    setLocal .top top
    toHeap vector (vectorSet · · n top)
    popArgs vector n

/-- The first loop of `argsdot`, consing the excess arguments onto `vdata[idx]`. -/
def consRest (vector : Nat) (idx : Int) : Nat → VmM Unit
  | 0 => pure ()
  | n + 1 => do
    let top ← vpop g
    setLocal .top top
    let rest ← onHeap (vectorRef · vector idx)
    let cell ← cons top rest
    toHeap vector (vectorSet · · idx cell)
    consRest vector idx n

/-- `if(needed > VSIZE(car(env))) set_car(env, make_vector(the_empty_list, needed));` -/
def resizeFrame (needed : Int) : VmM Unit := do
  let env ← getLocal .env
  let size ← onHeap fun cells => do pure (← varray cells (← car cells env)).length
  if needed > size then
    let frame ← makeVector g.theEmptyList needed
    toHeap env (setCar · · frame)
  else pure ()

def argsOp (instr : Nat) : VmM Control := do
  let numArgs ← onHeap fun cells => do long cells (← arg1 cells instr)
  if (← get).nArgs ≠ numArgs then vmFail g "wrong number of args. expected %ld, got %ld\n"
  else
    resizeFrame g numArgs
    let vector ← onHeap (car · (← getLocal .env))
    popArgs g vector numArgs.toNat
    pure .next

def argsdotOp (instr : Nat) : VmM Control := do
  let reqArgs ← onHeap fun cells => do long cells (← arg1 cells instr)
  let nArgs := (← get).nArgs
  if nArgs ≥ reqArgs then
    resizeFrame g (reqArgs + 1)
    let vector ← onHeap (car · (← getLocal .env))
    toHeap vector (vectorSet · · reqArgs g.theEmptyList)
    consRest g vector reqArgs (nArgs - reqArgs).toNat
    popArgs g vector reqArgs.toNat
    pure .next
  else vmFail g "wrong number of args"

/-- The branch of `fjump` and `tjump`: `pc = LONG(ARG1(instr))` when `taken`. -/
def jumpIf (taken : Bool) (instr : Nat) : VmM Control :=
  if taken then do
    setPc (← onHeap fun cells => do long cells (← arg1 cells instr))
    pure .next
  else pure .next

def fjumpOp (instr : Nat) : VmM Control := do
  let top ← vpop g
  setLocal .top top
  jumpIf (top = g.falseObject) instr

def tjumpOp (instr : Nat) : VmM Control := do
  let top ← vpop g
  setLocal .top top
  jumpIf (top ≠ g.falseObject) instr

def fnOp (instr : Nat) : VmM Control := do
  let code ← onHeap fun cells => do bytecode cells (← arg1 cells instr)
  let newFn ← makeCompiledProc code (← getLocal .env)
  setLocal .newFn newFn
  pinned .newFn (vpush g newFn)
  pure .next

/-- `for(ii = 0; ii < n; ++ii) VPOP(temp, stack, stack_top);` -/
def dropArgs : Nat → VmM Unit
  | 0 => pure ()
  | n + 1 => do
    let _ ← vpop g
    dropArgs n

/-- The primitive branch of `fcallj` and `callj`. -/
def callPrimitive (primitive : Nat) (argsForCall : Int) : VmM Control := do
  setLocal .pfn (← getLocal .top)
  pinned .pfn do
    let v ← get
    let result ← external fun store gc =>
      x.primitive primitive store gc v.stack argsForCall v.stackTop
    setLocal .top result
    dropArgs g argsForCall.toNat
    vpush g result
  returnOpcode g

/-- `fcallj` after the callee is in `top`. -/
def fcalljTo (argsForCall : Int) : VmM Control := do
  let top ← getLocal .top
  match calleeOf (← get).gc.cells top with
  | .compiled =>
    setLocal .fn top
    setPc 0
    setNArgs argsForCall
    setLocal .env (← onHeap (cenv · top))
    let newframe ← makeVector g.theEmptyList (argsForCall + 1)
    setLocal .newframe newframe
    pinned .newframe (do setLocal .env (← cons newframe (← getLocal .env)))
    fnBegin g
  | .primitive primitive => callPrimitive x g primitive argsForCall
  | .other => vmFail g "don't know how to invoke"

/-- `callj` after the callee is in `top`: the current env cons is reused. -/
def calljTo (argsForCall : Int) : VmM Control := do
  let top ← getLocal .top
  match calleeOf (← get).gc.cells top with
  | .compiled =>
    setLocal .fn top
    setPc 0
    setNArgs argsForCall
    let fnEnv ← onHeap (cenv · top)
    toHeap (← getLocal .env) (setCdr · · fnEnv)
    fnBegin g
  | .primitive primitive => callPrimitive x g primitive argsForCall
  | .other => vmFail g "don't know how to invoke"

/-- `VPOP(top, ...)` of the callee and the unwrapping of a META_PROC. -/
def popCallee : VmM Unit := do
  let top ← vpop g
  setLocal .top top
  setLocal .top (← onHeap fun cells => pure (unwrapMeta cells top))

def fcalljOp (instr : Nat) : VmM Control := do
  popCallee g
  fcalljTo x g (← onHeap fun cells => do long cells (← arg1 cells instr))

/-- The loop of `apply`'s splat, run for at most `fuel` elements. -/
def splatLoop : Nat → Int → VmM Int
  | fuel, count => do
    let top ← getLocal .top
    if top = g.theEmptyList then pure count
    else
      match fuel with
      | 0 => throw .diverged
      | fuel + 1 => do
        vpush g (← onHeap (car · top))
        setLocal .top (← onHeap (cdr · top))
        splatLoop fuel (count + 1)

/-- The `args_for_call == -1` block of `callj`. A proper list has at most one element per
cell of the pool, so the pool size is fuel enough for every list that ends. -/
def splat : VmM Int := do
  let targetFn ← getLocal .top
  setLocal .targetFn targetFn
  pinned .targetFn do
    setLocal .top (← vpop g)
    let count ← splatLoop g (← get).gc.poolSize 0
    setLocal .top targetFn
    pure count

/-- `callj` after the count is read: `-1` splats the argument list first. -/
def calljWith (argsForCall : Int) : VmM Control :=
  if argsForCall = -1 then do calljTo x g (← splat g) else calljTo x g argsForCall

def calljOp (instr : Nat) : VmM Control := do
  popCallee g
  calljWith x g (← onHeap fun cells => do long cells (← arg1 cells instr))

def lvarOp (instr : Nat) : VmM Control := do
  let envNum ← onHeap fun cells => do long cells (← arg1 cells instr)
  let idx ← onHeap fun cells => do long cells (← arg2 cells instr)
  let env ← getLocal .env
  vpush g (← onHeap fun cells => do
    vectorRef cells (← car cells (← nthFrame cells envNum.toNat env)) idx)
  pure .next

def lsetOp (instr : Nat) : VmM Control := do
  let envNum ← onHeap fun cells => do long cells (← arg1 cells instr)
  let idx ← onHeap fun cells => do long cells (← arg2 cells instr)
  let env ← getLocal .env
  let frame ← onHeap fun cells => do car cells (← nthFrame cells envNum.toNat env)
  let v ← get
  let value ← onHeap (vectorRef · v.stack (v.stackTop - 1))
  toHeap frame (vectorSet · · idx value)
  pure .next

def gvarOp (instr : Nat) : VmM Control := do
  let sym ← onHeap (arg1 · instr)
  let var ← external fun store gc => x.lookupGlobalValue store gc sym
  setLocal .var var
  pinned .var (vpush g var)
  pure .next

def gsetOp (instr : Nat) : VmM Control := do
  let var ← onHeap (arg1 · instr)
  let v ← get
  let val ← onHeap (vectorRef · v.stack (v.stackTop - 1))
  external fun store gc => (x.defineGlobalVariable store gc var val).map fun gc => (gc, ())
  pure .next

/-- `setcc`: pops the captured stack and its top, then sets `stack = car(stack)`. -/
def setccOp : VmM Control := do
  let _newStack ← vpop g
  let newStackTop ← vpop g
  let stack ← onHeap (car · (← get).stack)
  let top ← onHeap (long · newStackTop)
  modify fun v => { v with stack := stack, stackTop := top }
  pure .next

/-- `for(idx = 0; idx < stack_top; ++idx) VARRAY(new_stack)[idx] = VARRAY(stack)[idx];` -/
def copyStack (newStack : Nat) : Nat → Nat → VmM Unit
  | _, 0 => pure ()
  | idx, n + 1 => do
    let v ← get
    let value ← onHeap (vectorRef · v.stack idx)
    toHeap newStack (vectorSet · · idx value)
    copyStack newStack (idx + 1) n

def ccOp : VmM Control := do
  let ccEnv ← makeVector g.theEmptyList 2
  setLocal .ccEnv ccEnv
  let ccFn ← pinned .ccEnv do
    let v ← get
    let size ← onHeap fun cells => do pure (← varray cells v.stack).length
    let newStack ← makeVector g.theEmptyList size
    setLocal .newStack newStack
    pinned .newStack do
      copyStack newStack 0 (← get).stackTop.toNat
      toHeap ccEnv (vectorSet · · 0 newStack)
      let top ← makeFixnum (← get).stackTop
      toHeap ccEnv (vectorSet · · 1 top)
    let env ← cons ccEnv g.theEmptyList
    setLocal .ccEnv env
    makeCompiledProc g.ccBytecode env
  vpush g ccFn
  pure .next

def popOp : VmM Control := do
  setLocal .top (← vpop g)
  pure .next

def saveOp (instr : Nat) : VmM Control := do
  let retAddr ← cons (← getLocal .fn) (← getLocal .env)
  setLocal .retAddr retAddr
  pinned .retAddr do
    let triple ← cons (← onHeap (arg1 · instr)) (← getLocal .retAddr)
    setLocal .retAddr triple
    vpush g triple
  pure .next

def constOp (instr : Nat) : VmM Control := do
  vpush g (← onHeap (arg1 · instr))
  pure .next

def execute (instr : Nat) : Opcode → VmM Control
  | .args => argsOp g instr
  | .argsdot => argsdotOp g instr
  | .«return» => returnOpcode g
  | .const => constOp g instr
  | .fn => fnOp g instr
  | .fjump => fjumpOp g instr
  | .tjump => tjumpOp g instr
  | .jump => jumpIf true instr
  | .fcallj => fcalljOp x g instr
  | .callj => calljOp x g instr
  | .lvar => lvarOp g instr
  | .save => saveOp g instr
  | .gvar => gvarOp x g instr
  | .lset => lsetOp instr
  | .gset => gsetOp x instr
  | .setcc => setccOp g
  | .cc => ccOp g
  | .pop => popOp g

/-- `vm_begin`: fetch `codes[pc++]` and dispatch on its opcode. The check before it,
`VM_ASSERT(false, "pc flew off the end of memory")`, tests the Scheme object `false`, a non-null
pointer, so it never fires: a `pc` past the code vector reads outside it. -/
def dispatch : VmM Control := do
  let v ← get
  if v.pc ≥ v.numCodes then throw .undefined
  else
    let instr ← onHeap (vectorRef · v.codeArray v.pc)
    setPc (v.pc + 1)
    match Opcode.ofCode (← onHeap fun cells => do char cells (← car cells instr)) with
    | some opcode => execute x g instr opcode
    | none => vmFail g "strange opcode"

/-- The entry of `vm_execute` up to `vm_fn_begin`: a fresh frame consed onto `CENV(fn)`, and
`fn`, `env`, `top` pinned. -/
def vmEnter : VmM Control := do
  setLocal .env (← onHeap (cenv · (← getLocal .fn)))
  setLocal .env (← cons g.theEmptyVector (← getLocal .env))
  setLocal .top g.theEmptyList
  pushRootOf .fn
  pushRootOf .env
  pushRootOf .top
  fnBegin g

/-- The variables of `vm_execute(fn, stack, stack_top, n_args)` as it is entered: `locals`
holds `fn` and whatever the other variables start with. -/
def Vm.start (gc : GcState) (outer : Nat → Option Nat) (base : Nat) (locals : VmLocal → Nat)
    (stack : Nat) (stackTop nArgs : Int) : Vm :=
  { gc, outer, base, locals, stack, stackTop, nArgs, initialTop := stackTop - nArgs, pc := 0,
    codeArray := 0, numCodes := 0, slowPops := 0, written := [] }

/-- The states at `vm_begin` of the run of `vm_execute` entered in `start`. -/
inductive Dispatches (start : Vm) : Vm → Prop
  | enter {v : Vm} : (vmEnter g).run start = .ok (.next, v) → Dispatches start v
  | step {v v' : Vm} : Dispatches start v → (dispatch x g).run v = .ok (.next, v') →
      Dispatches start v'

/-- `vm_execute` entered in `start` returns `value` (after printing `message`), in state `v`. -/
inductive Returns (start : Vm) : Vm → Nat → Option String → Prop
  | enter {v : Vm} {value : Nat} {message : Option String} :
      (vmEnter g).run start = .ok (.exit value message, v) → Returns start v value message
  | step {u v : Vm} {value : Nat} {message : Option String} : Dispatches x g start u →
      (dispatch x g).run u = .ok (.exit value message, v) → Returns start v value message

/-- The `goto vm_begin` loop of `vm_execute`, for at most `fuel` opcodes; it stops at the first
opcode that leaves it. -/
def vmLoop : Nat → Vm → Except VmFault (Control × Vm)
  | 0, v => pure (.next, v)
  | fuel + 1, v => do
    match ← (dispatch x g).run v with
    | (.next, v') => vmLoop fuel v'
    | left => pure left

/-- `vm_execute(fn, stack, stack_top, n_args)`, run for at most `fuel` opcodes. -/
def vmExecute (fuel : Nat) (start : Vm) : Except VmFault (Control × Vm) := do
  match ← (vmEnter g).run start with
  | (.next, v) => vmLoop x g fuel v
  | left => pure left

/-- A state the run entered in `start` stops in: at `vm_begin`, or returned. -/
def Stops (start : Vm) : Control × Vm → Prop
  | (.next, v) => Dispatches x g start v
  | (.exit value message, v) => Returns x g start v value message

variable {x g}

theorem vmLoop_stops {start v : Vm} (reached : Dispatches x g start v) {fuel : Nat}
    {r : Control × Vm} (run : vmLoop x g fuel v = .ok r) : Stops x g start r := by
  induction fuel generalizing v with
  | zero => cases run; exact reached
  | succ fuel ih =>
    obtain ⟨⟨ctl, v'⟩, step, rest⟩ := except_bind_eq_ok.mp run
    cases ctl with
    | next => exact ih (.step reached step) rest
    | exit => cases rest; exact .step reached step

theorem vmExecute_stops {start : Vm} {fuel : Nat} {r : Control × Vm}
    (run : vmExecute x g fuel start = .ok r) : Stops x g start r := by
  obtain ⟨⟨ctl, v⟩, entered, rest⟩ := except_bind_eq_ok.mp run
  cases ctl with
  | next => exact vmLoop_stops (.enter entered) rest
  | exit => cases rest; exact .enter entered

theorem vmLoop_succ {u v : Vm} {fuel : Nat} {r : Control × Vm}
    (run : vmLoop x g fuel u = .ok (.next, v)) (step : (dispatch x g).run v = .ok r) :
    vmLoop x g (fuel + 1) u = .ok r := by
  induction fuel generalizing u with
  | zero =>
    cases run
    rw [vmLoop, step]
    rcases r with ⟨_ | _, _⟩ <;> rfl
  | succ fuel ih =>
    obtain ⟨⟨ctl, u'⟩, first, rest⟩ := except_bind_eq_ok.mp run
    cases ctl with
    | next => rw [vmLoop, first]; exact ih rest
    | exit => cases rest

theorem vmExecute_succ {start v : Vm} {fuel : Nat} {r : Control × Vm}
    (run : vmExecute x g fuel start = .ok (.next, v)) (step : (dispatch x g).run v = .ok r) :
    vmExecute x g (fuel + 1) start = .ok r := by
  obtain ⟨⟨ctl, v₀⟩, entered, rest⟩ := except_bind_eq_ok.mp run
  cases ctl with
  | next => rw [vmExecute, entered]; exact vmLoop_succ rest step
  | exit => cases rest

theorem Dispatches.vmExecute {start v : Vm} (reached : Dispatches x g start v) :
    ∃ fuel, vmExecute x g fuel start = .ok (.next, v) := by
  induction reached with
  | enter entered => exact ⟨0, by rw [BrianScheme.vmExecute, entered]; rfl⟩
  | step _ step ih =>
    obtain ⟨fuel, run⟩ := ih
    exact ⟨fuel + 1, vmExecute_succ run step⟩

/-- The run relations are what the fuelled loop computes: a state is one the run stops in
exactly when enough fuel ends there. -/
theorem stops_iff_vmExecute {start : Vm} {r : Control × Vm} :
    Stops x g start r ↔ ∃ fuel, vmExecute x g fuel start = .ok r := by
  refine ⟨fun stops => ?_, fun ⟨_, run⟩ => vmExecute_stops run⟩
  rcases r with ⟨_ | ⟨value, message⟩, v⟩
  · exact Dispatches.vmExecute stops
  · cases stops with
    | enter entered => exact ⟨0, by rw [BrianScheme.vmExecute, entered]; rfl⟩
    | step reached step =>
      obtain ⟨fuel, run⟩ := Dispatches.vmExecute reached
      exact ⟨fuel + 1, vmExecute_succ run step⟩

/-- A run checked by evaluation: where `vmExecute` ends in a state `p` accepts, the run stops
in such a state. -/
theorem Stops.of_check {start : Vm} {p : Control × Vm → Bool} (fuel : Nat)
    (check : (vmExecute x g fuel start).toOption.any p = true) :
    ∃ r, Stops x g start r ∧ p r = true := by
  cases run : vmExecute x g fuel start with
  | error => simp [run, Except.toOption] at check
  | ok r => exact ⟨r, vmExecute_stops run, by simpa [run, Except.toOption] using check⟩

theorem Dispatches.of_check {start : Vm} {p : Vm → Bool} (fuel : Nat)
    (check : (BrianScheme.vmExecute x g fuel start).toOption.any
      (fun r => r.1 == .next && p r.2) = true) :
    ∃ v, Dispatches x g start v ∧ p v = true := by
  obtain ⟨⟨ctl, v⟩, stops, accepted⟩ := Stops.of_check fuel check
  simp only [Bool.and_eq_true, beq_iff_eq] at accepted
  obtain ⟨rfl, accepted⟩ := accepted
  exact ⟨v, stops, accepted⟩

theorem Returns.of_check {start : Vm} {value : Nat} {message : Option String} (fuel : Nat)
    (check : (vmExecute x g fuel start).toOption.any (fun r => r.1 == .exit value message) = true) :
    ∃ v, Returns x g start v value message := by
  obtain ⟨⟨ctl, v⟩, stops, accepted⟩ := Stops.of_check fuel check
  obtain rfl := beq_iff_eq.mp accepted
  exact ⟨v, stops⟩

variable (x g)

/-- A caller's stack vector, cell 999 of the pool, holding its value `5` and a spare slot, and
`fn`, outside the pool, a compiled procedure of the code `(const ()) (return)` over `()`. -/
def constReturnCells : Cells := fun a =>
  match a with
  | 2000 => ⟨.compiledProc 2001 2002, 0, none, none⟩
  | 2001 => ⟨.vector [2004, 2005], 0, none, none⟩
  | 2002 => ⟨.theEmptyList, 0, none, none⟩
  | 2004 => ⟨.pair 2007 2010, 0, none, none⟩
  | 2005 => ⟨.pair 2008 2010, 0, none, none⟩
  | 2007 => ⟨.character 3, 0, none, none⟩
  | 2008 => ⟨.character 2, 0, none, none⟩
  | 2010 => ⟨.pair 2002 2011, 0, none, none⟩
  | 2011 => ⟨.pair 2002 2002, 0, none, none⟩
  | 2013 => ⟨.vector [], 0, none, none⟩
  | _ => setPayload gcInit.cells 999 (.vector [5, 6]) a

def constReturnGlobals : Globals := ⟨2002, 2013, 2002, 2002, 2002⟩

/-- `vm_execute(fn, stack, 1, 0)` from a caller with one live slot. -/
def constReturnVm : Vm :=
  Vm.start { gcInit with cells := constReturnCells } (fun _ => none) 400
    (fun l => if l = .fn then 2000 else 2002) 999 1 0

/-- The run enters, pushes `()` and returns it through the return sequence. -/
theorem constReturnVm_returns :
    ∃ v, Returns idleExternals constReturnGlobals constReturnVm v 2002 none :=
  ⟨_, .step (.step (.enter rfl) rfl) rfl⟩

end Execute

end BrianScheme
