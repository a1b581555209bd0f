import BrianScheme.Gc.Collect

/-! The state of `vm_execute` and the operations of `vm.c` its opcodes are made of.

The heap is the collector's: objects are cells of `GcState.cells`, and every allocation goes
through `alloc_object`. What `vm.c` takes from files outside `src/` is modelled by the
contract the code relies on: the accessors of `types.h` read the field of the variant they
name (reading another variant's field is undefined behaviour, which the model reports and
does not continue), the constructors allocate one cell and write its payload, and
primitives and the global environment are parameters (`Externals`). -/

namespace BrianScheme

/-- How a run of `vm_execute` ends other than by `VM_RETURN`: an exit of the collector,
undefined behaviour, or the `apply` splat loop running over a list that never ends. -/
inductive VmFault where
  | gc (fault : GcFault)
  | undefined
  | diverged
  deriving DecidableEq, Repr

/-- The objects `vm.c` uses by name: the singletons, `error_sym` and `cc_bytecode`.
`falseObject` is the only false-like object (`is_falselike`). -/
structure Globals where
  theEmptyList : Nat
  theEmptyVector : Nat
  falseObject : Nat
  errorSym : Nat
  ccBytecode : Nat

section Accessors

variable (cells : Cells)

def car (obj : Nat) : Except VmFault Nat :=
  match (cells obj).payload with
  | .pair a _ => pure a
  | _ => throw .undefined

def cdr (obj : Nat) : Except VmFault Nat :=
  match (cells obj).payload with
  | .pair _ d => pure d
  | _ => throw .undefined

/-- `VARRAY`, with `VSIZE` its length. -/
def varray (obj : Nat) : Except VmFault (List Nat) :=
  match (cells obj).payload with
  | .vector elements => pure elements
  | _ => throw .undefined

/-- `LONG` of a fixnum. -/
def long (obj : Nat) : Except VmFault Int :=
  match (cells obj).payload with
  | .fixnum value => pure value
  | _ => throw .undefined

/-- `CHAR` of a character. -/
def char (obj : Nat) : Except VmFault UInt8 :=
  match (cells obj).payload with
  | .character value => pure value
  | _ => throw .undefined

/-- `BYTECODE` of a compiled procedure of either kind. -/
def bytecode (obj : Nat) : Except VmFault Nat :=
  match (cells obj).payload with
  | .compiledProc code _ | .compiledSyntaxProc code _ => pure code
  | _ => throw .undefined

/-- `CENV` of a compiled procedure of either kind. -/
def cenv (obj : Nat) : Except VmFault Nat :=
  match (cells obj).payload with
  | .compiledProc _ env | .compiledSyntaxProc _ env => pure env
  | _ => throw .undefined

/-- `is_compiled_proc(obj) || is_compiled_syntax_proc(obj)`. -/
def isCompiled (obj : Nat) : Bool :=
  match (cells obj).payload with
  | .compiledProc _ _ | .compiledSyntaxProc _ _ => true
  | _ => false

/-- `if(is_meta(top)) top = METAPROC(top);` -/
def unwrapMeta (obj : Nat) : Nat :=
  match (cells obj).payload with
  | .metaProc proc _ => proc
  | _ => obj

/-- `VARRAY(obj)[idx]`. -/
def vectorRef (obj : Nat) (idx : Int) : Except VmFault Nat := do
  let elements ← varray cells obj
  match elements[idx.toNat]? with
  | some value => if 0 ≤ idx then pure value else throw .undefined
  | none => throw .undefined

/-- `VARRAY(obj)[idx] = value`. -/
def vectorSet (obj : Nat) (idx : Int) (value : Nat) : Except VmFault Cells := do
  let elements ← varray cells obj
  if 0 ≤ idx ∧ idx.toNat < elements.length then
    pure (setPayload cells obj (.vector (elements.set idx.toNat value)))
  else throw .undefined

/-- `set_car(obj, value)`. -/
def setCar (obj value : Nat) : Except VmFault Cells :=
  match (cells obj).payload with
  | .pair _ d => pure (setPayload cells obj (.pair value d))
  | _ => throw .undefined

/-- `set_cdr(obj, value)`. -/
def setCdr (obj value : Nat) : Except VmFault Cells :=
  match (cells obj).payload with
  | .pair a _ => pure (setPayload cells obj (.pair a value))
  | _ => throw .undefined

/-- `next = env; while(env_num-- > 0) next = cdr(next);` -/
def nthFrame : Nat → Nat → Except VmFault Nat
  | 0, env => pure env
  | n + 1, env => do nthFrame n (← cdr cells env)

variable {cells} {obj : Nat} {idx : Int}

theorem car_ok {a : Nat} (read : car cells obj = .ok a) : ∃ d, (cells obj).payload = .pair a d := by
  unfold car at read
  split at read <;> cases read
  exact ⟨_, ‹_›⟩

theorem cdr_ok {d : Nat} (read : cdr cells obj = .ok d) : ∃ a, (cells obj).payload = .pair a d := by
  unfold cdr at read
  split at read <;> cases read
  exact ⟨_, ‹_›⟩

theorem long_ok {value : Int} (read : long cells obj = .ok value) :
    (cells obj).payload = .fixnum value := by
  unfold long at read
  split at read <;> cases read
  assumption

theorem vectorRef_ok {value : Nat} (read : vectorRef cells obj idx = .ok value) :
    ∃ elements, (cells obj).payload = .vector elements ∧ 0 ≤ idx ∧ elements[idx.toNat]? = some value := by
  unfold vectorRef varray at read
  split at read <;> simp only [bind, Except.bind, pure, Except.pure, throw, throwThe,
    MonadExceptOf.throw, Except.error.injEq, reduceCtorEq] at read
  rename_i elements payload
  split at read
  · split at read
    · cases read; exact ⟨elements, payload, ‹_›, ‹_›⟩
    · cases read
  · cases read

theorem vectorSet_ok {value : Nat} {cells' : Cells} (written : vectorSet cells obj idx value = .ok cells') :
    ∃ elements, (cells obj).payload = .vector elements ∧ 0 ≤ idx ∧ idx.toNat < elements.length ∧
      cells' = setPayload cells obj (.vector (elements.set idx.toNat value)) := by
  unfold vectorSet varray at written
  split at written <;> simp only [bind, Except.bind, pure, Except.pure, throw, throwThe,
    MonadExceptOf.throw, reduceCtorEq] at written
  rename_i elements payload
  split at written
  · cases written; exact ⟨elements, payload, ‹_ ∧ _›.1, ‹_ ∧ _›.2, rfl⟩
  · cases written

end Accessors

section Stack

variable (g : Globals) (cells : Cells)

/-- `vector_push(stack, thing, top)`. A full vector grows to `(long)(old_size * 1.8)` slots, the
new ones holding the empty list; for every size a vector can have, that product truncates to
`old_size * 18 / 10`. -/
def vectorPush (stack thing : Nat) (top : Int) : Except VmFault Cells := do
  let elements ← varray cells stack
  let grown := if top = elements.length then
      elements ++ List.replicate (elements.length * 18 / 10 - elements.length) g.theEmptyList
    else elements
  vectorSet (setPayload cells stack (.vector grown)) stack top thing

/-- `vector_pop(stack, top)`: the entry below `top`, whose slot then holds the empty list. -/
def vectorPop (stack : Nat) (top : Int) : Except VmFault (Cells × Nat) := do
  let old ← vectorRef cells stack (top - 1)
  let cells ← vectorSet cells stack (top - 1) g.theEmptyList
  pure (cells, old)

theorem setPayload_setPayload (a : Nat) (first second : Payload) :
    setPayload (setPayload cells a first) a second = setPayload cells a second := by
  funext b
  by_cases h : b = a <;> simp [setPayload, Function.update, h]

/-- `vector_push` at `top = VSIZE(stack)`: the vector grows, keeps its slots, fills the new ones
with the empty list and takes the value at `top`, exactly when it has at least two slots. With
one, `(long)(1 * 1.8)` is `1`: no slot is added and the value goes to `VARRAY(stack)[1]`, past
the array. -/
theorem vectorPush_full (stack thing : Nat) (elements : List Nat) :
    vectorPush g (setPayload cells stack (.vector elements)) stack thing elements.length =
      if 2 ≤ elements.length then
        .ok (setPayload cells stack (.vector (elements ++ thing ::
          List.replicate (elements.length * 18 / 10 - elements.length - 1) g.theEmptyList)))
      else .error .undefined := by
  have grownLength : (elements ++ List.replicate (elements.length * 18 / 10 - elements.length)
      g.theEmptyList).length = elements.length * 18 / 10 := by simp; omega
  simp only [vectorPush, varray, setPayload_payload, if_true, bind, Except.bind, pure,
    Except.pure, vectorSet, setPayload_setPayload, grownLength]
  split_ifs with fits two two
  · obtain ⟨extra, hExtra⟩ : ∃ extra, elements.length * 18 / 10 - elements.length = extra + 1 :=
      ⟨_, (Nat.succ_pred_eq_of_pos (by omega)).symm⟩
    simp [hExtra, List.set_append_right, List.replicate_succ]
  · omega
  · omega
  · rfl

end Stack

/-- The variables of `vm_execute` whose addresses it pushes on Roots. -/
inductive VmLocal where
  | fn | env | top | newFn | newframe | pfn | targetFn | var | ccEnv | newStack | retAddr
  deriving DecidableEq, Repr

/-- Where each variable sits in `vm_execute`'s native frame. -/
def VmLocal.index : VmLocal → Nat
  | .fn => 0 | .env => 1 | .top => 2 | .newFn => 3 | .newframe => 4 | .pfn => 5
  | .targetFn => 6 | .var => 7 | .ccEnv => 8 | .newStack => 9 | .retAddr => 10

def VmLocal.ofIndex? : Nat → Option VmLocal
  | 0 => some .fn | 1 => some .env | 2 => some .top | 3 => some .newFn | 4 => some .newframe
  | 5 => some .pfn | 6 => some .targetFn | 7 => some .var | 8 => some .ccEnv
  | 9 => some .newStack | 10 => some .retAddr | _ => none

/-- The variables of one activation of `vm_execute`. `outer` gives `*r` for the addresses of
its callers' variables; its own live at `base + index`. `codeArray` and `numCodes` are what
`vm_fn_begin` loaded. `slowPops` counts the `pop_root` calls that did not find their address
on top of Roots (a ghost: the code keeps no such count). -/
structure Vm where
  gc : GcState
  outer : Nat → Option Nat
  base : Nat
  locals : VmLocal → Nat
  stack : Nat
  stackTop : Int
  nArgs : Int
  initialTop : Int
  pc : Int
  codeArray : Nat
  numCodes : Int
  slowPops : Nat
  written : List Nat

/-- The address of a variable of `vm_execute`. -/
def Vm.addr (v : Vm) (l : VmLocal) : Nat := v.base + l.index

/-- `*r` for every address `r` Roots can hold. -/
def Vm.store (v : Vm) (r : Nat) : Option Nat :=
  match if v.base ≤ r then VmLocal.ofIndex? (r - v.base) else none with
  | some l => some (v.locals l)
  | none => v.outer r

/-- What `vm_execute` calls across files: a primitive's native function, and
`lookup_global_value`/`define_global_variable` on `vm_global_environment`. Each may allocate,
so it sees the store. -/
structure Externals where
  primitive : Nat → (Nat → Option Nat) → GcState → Nat → Int → Int → Except VmFault (GcState × Nat)
  lookupGlobalValue : (Nat → Option Nat) → GcState → Nat → Except VmFault (GcState × Nat)
  defineGlobalVariable : (Nat → Option Nat) → GcState → Nat → Nat → Except VmFault GcState

/-- Functions of other files that change nothing and return the object at cell 0. -/
def idleExternals : Externals :=
  ⟨fun _ _ gc _ _ _ => .ok (gc, 0), fun _ gc _ => .ok (gc, 0), fun _ gc _ _ => .ok gc⟩

abbrev VmM := StateT Vm (Except VmFault)

section Operations

variable (g : Globals)

/-- A read of the heap. -/
def onHeap {α : Type} (read : Cells → Except VmFault α) : VmM α := fun v => do
  pure (← read v.gc.cells, v)

/-- A write of a field of `obj`. -/
def toHeap (obj : Nat) (write : Cells → Nat → Except VmFault Cells) : VmM Unit := fun v => do
  pure ((), { v with gc := { v.gc with cells := ← write v.gc.cells obj },
                     written := obj :: v.written })

def getLocal (l : VmLocal) : VmM Nat := fun v => pure (v.locals l, v)

def setLocal (l : VmLocal) (value : Nat) : VmM Unit := fun v =>
  pure ((), { v with locals := Function.update v.locals l value })

/-- `VPUSH(thing, stack, stack_top)`. -/
def vpush (thing : Nat) : VmM Unit := fun v => do
  let cells ← vectorPush g v.gc.cells v.stack thing v.stackTop
  pure ((), { v with gc := { v.gc with cells := cells }, stackTop := v.stackTop + 1 })

/-- `VPOP(var, stack, stack_top)`, returning what it assigns. -/
def vpop : VmM Nat := fun v => do
  let popped ← vectorPop g v.gc.cells v.stack v.stackTop
  pure (popped.2, { v with gc := { v.gc with cells := popped.1 }, stackTop := v.stackTop - 1 })

def pushRootOf (l : VmLocal) : VmM Unit := fun v =>
  pure ((), { v with gc := pushRoot v.gc (v.addr l) })

/-- `pop_root(&l)`; a pop that does not find its address on top is counted in `slowPops`. -/
def popRootOf (l : VmLocal) : VmM Unit := fun v =>
  match popRoot v.gc (v.addr l) with
  | some (.ok gc) =>
    pure ((), { v with gc := gc,
                       slowPops := if v.gc.rootObjects.contents.getLast? = some (v.addr l)
                         then v.slowPops else v.slowPops + 1 })
  | some (.error fault) => throw (.gc fault)
  | none => throw .undefined

/-- `push_root(&l); body; pop_root(&l);` -/
def pinned {α : Type} (l : VmLocal) (body : VmM α) : VmM α := do
  pushRootOf l
  let result ← body
  popRootOf l
  pure result

/-- A constructor: `alloc_object`, then the payload written into the cell it returned. -/
def construct (payload : Payload) (needsFinalization : Bool) : VmM Nat := fun v =>
  match allocObject v.store v.gc needsFinalization with
  | .ok (gc, obj) =>
    pure (obj, { v with gc := { gc with cells := setPayload gc.cells obj payload },
                        written := obj :: v.written })
  | .error fault => throw (.gc fault)

def cons (a d : Nat) : VmM Nat := construct (.pair a d) false

/-- `make_vector(fill, size)`; its array is out of the slab, so the cell is finalizable. -/
def makeVector (fill : Nat) (size : Int) : VmM Nat :=
  if 0 ≤ size then construct (.vector (List.replicate size.toNat fill)) true
  else throw .undefined

def makeCompiledProc (code env : Nat) : VmM Nat := construct (.compiledProc code env) false

def makeFixnum (value : Int) : VmM Nat := construct (.fixnum value) false

/-- A call of a function of another file, which may change the collector's state. -/
def external {α : Type} (call : (Nat → Option Nat) → GcState → Except VmFault (GcState × α)) :
    VmM α := fun v => do
  let (gc, result) ← call v.store v.gc
  pure (result, { v with gc := gc })

end Operations

section Runs

variable {α β : Type} {v u : Vm}

theorem run_bind_ok {p : VmM α} {f : α → VmM β} {a : α} (first : p.run v = .ok (a, u)) :
    (p >>= f).run v = (f a).run u := by
  simp only [StateT.run_bind, first]
  rfl

theorem run_bind_error {p : VmM α} {f : α → VmM β} {fault : VmFault}
    (first : p.run v = .error fault) : (p >>= f).run v = .error fault := by
  simp only [StateT.run_bind, first]
  rfl

theorem get_run : (get : VmM Vm).run v = .ok (v, v) := rfl

theorem onHeap_run {read : Cells → Except VmFault α} {a : α} (found : read v.gc.cells = .ok a) :
    (onHeap read).run v = .ok (a, v) := by
  simp only [onHeap, StateT.run, found]
  rfl

end Runs

end BrianScheme
