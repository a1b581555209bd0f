import BrianScheme.Gc.Collection

/-! A program running on the collector. The machine holds the collector's globals and the
native `object *` variables Roots points at (`store r` is `*r`), with two ghost fields: the
cell the last `alloc_object` returned, and that cell again while the program has not yet
written its payload. The program's steps are its calls of `alloc_object`, `push_root` and
`pop_root`, assignments to its variables, and stores into object fields. -/

namespace BrianScheme

inductive Event where
  | alloc (needsFinalization : Bool)
  | pushRoot (root : Nat)
  | popRoot (root : Nat)
  | setLocal (root : Nat) (value : Option Nat)
  | write (obj : Nat) (payload : Payload)
  deriving DecidableEq, Repr

structure Machine where
  gc : GcState
  store : Nat → Option Nat
  returned : Option Nat
  fresh : Option Nat

def initMachine : Machine := ⟨gcInit, fun _ => none, none, none⟩

/-- One step of the program; `none` when the collector exits through `throw_gc` or
`stack_set_pop` reads below the stack. -/
def Machine.step (m : Machine) : Event → Option Machine
  | .alloc needsFinalization =>
    match allocObject m.store m.gc needsFinalization with
    | .ok (gc, obj) => some { m with gc := gc, returned := some obj, fresh := some obj }
    | .error _ => none
  | .pushRoot root => some { m with gc := pushRoot m.gc root }
  | .popRoot root =>
    match popRoot m.gc root with
    | some (.ok gc) => some { m with gc := gc }
    | _ => none
  | .setLocal root value => some { m with store := Function.update m.store root value }
  | .write obj payload =>
    some { m with gc := { m.gc with cells := setPayload m.gc.cells obj payload },
                  fresh := if m.fresh = some obj then none else m.fresh }

/-- The machines a program reaches from `gc_init` by steps that `allowed` admits. -/
inductive Reaches (allowed : Machine → Event → Prop) : Machine → Prop
  | init : Reaches allowed initMachine
  | step {m m' : Machine} {event : Event} : Reaches allowed m → allowed m event →
      m.step event = some m' → Reaches allowed m'

/-- Every reference the program pins, stores or writes through is a cell of the pool. -/
def InPool (m : Machine) : Event → Prop
  | .pushRoot root => ∀ a, m.store root = some a → a < m.gc.poolSize
  | .setLocal _ value => ∀ a, value = some a → a < m.gc.poolSize
  | .write obj payload => obj < m.gc.poolSize ∧ ∀ b ∈ payload.children, b < m.gc.poolSize
  | _ => True

/-- A cell the program may hold: reachable from Roots, or the one `alloc_object` returned last. -/
def Machine.Live (m : Machine) (a : Nat) : Prop :=
  Reachable m.gc.payloads (RootTarget m.store m.gc.rootObjects) a ∨ m.returned = some a

/-- The program pins and stores only references to live cells. -/
def Pinning (m : Machine) : Event → Prop
  | .pushRoot root => ∀ a, m.store root = some a → m.Live a
  | .setLocal _ value => ∀ a, value = some a → m.Live a
  | .write obj payload => m.Live obj ∧ ∀ b ∈ payload.children, m.Live b
  | _ => True

/-- `Pinning`, where the program writes each new cell's payload before it does anything else,
as a constructor sets the type and fields of the cell `alloc_object` gave it. -/
def Constructing (m : Machine) (event : Event) : Prop :=
  Pinning m event ∧ ∀ obj, m.fresh = some obj → ∃ payload, event = .write obj payload

section Steps

variable {m m' : Machine}

theorem step_alloc {needsFinalization : Bool} (stepped : m.step (.alloc needsFinalization) = some m') :
    ∃ gc obj, allocObject m.store m.gc needsFinalization = .ok (gc, obj) ∧
      m' = { m with gc := gc, returned := some obj, fresh := some obj } := by
  simp only [Machine.step] at stepped
  split at stepped
  · rename_i gc obj allocated
    exact ⟨gc, obj, allocated, (Option.some.inj stepped).symm⟩
  · cases stepped

theorem step_popRoot {root : Nat} (stepped : m.step (.popRoot root) = some m') :
    ∃ gc, popRoot m.gc root = some (.ok gc) ∧ m' = { m with gc := gc } := by
  simp only [Machine.step] at stepped
  split at stepped
  · rename_i gc popped
    exact ⟨gc, popped, (Option.some.inj stepped).symm⟩
  · cases stepped

theorem popRoot_ok {s s' : GcState} {root : Nat} (popped : popRoot s root = some (.ok s')) :
    s' = { s with rootObjects := s'.rootObjects } ∧
      ∀ r ∈ s'.rootObjects.contents, r ∈ s.rootObjects.contents := by
  simp only [popRoot, Option.map_eq_some'] at popped
  obtain ⟨⟨found, ss⟩, stackPopped, result⟩ := popped
  split at result
  · cases result
    exact ⟨rfl, stackSetPop_contents stackPopped⟩
  · cases result

end Steps

end BrianScheme
