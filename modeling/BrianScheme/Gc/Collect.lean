import BrianScheme.Gc.Heap

/-! `baker_collect` and `alloc_object`. The scan loop of `move_reachable` walks `prev` from
the root it just moved while `maybe_move` links newly reached cells in at Old's head; its
`fuel` is the number of cells, and `scanDiverged` is the model's report of running out. -/

namespace BrianScheme

theorem except_bind_eq_ok {ε α β : Type} {x : Except ε α} {f : α → Except ε β} {b : β} :
    x >>= f = .ok b ↔ ∃ a, x = .ok a ∧ f a = .ok b := by
  cases x <;> simp [bind, Except.bind]

/-- `maybe_move(obj)`: a cell not of the marking color goes to Old's head and is colored. -/
def maybeMove (s : GcState) (obj : Nat) : GcState :=
  if (s.cells obj).color ≠ s.currentColor then
    let moved := moveObjectToHead s.cells obj s.activeHeapObjects s.oldHeapObjects
    { s with cells := setColor moved.1 obj s.currentColor,
             activeHeapObjects := moved.2.1, oldHeapObjects := moved.2.2 }
  else s

/-- The `switch` of `move_reachable` on the variant of `scan_iter`. -/
def scanFields (s : GcState) (scanIter : Nat) : GcState :=
  (s.cells scanIter).payload.children.foldl maybeMove s

/-- `while (scan_iter != NULL) { ...; scan_iter = scan_iter->prev; }` -/
def scanLoop : Nat → GcState → Option Nat → Except GcFault GcState
  | _, s, none => .ok s
  | 0, _, some _ => .error .scanDiverged
  | fuel + 1, s, some scanIter =>
    let scanned := scanFields s scanIter
    scanLoop fuel scanned (scanned.cells scanIter).prev

/-- `move_reachable(root, &Old_Heap_Objects)`. -/
def moveReachable (s : GcState) : Option Nat → Except GcFault GcState
  | none => .ok s
  | some root =>
    if (s.cells root).color = s.currentColor then .ok s
    else
      let moved := moveObjectToHead (setColor s.cells root s.currentColor) root
        s.activeHeapObjects s.oldHeapObjects
      let rooted := { s with cells := moved.1, activeHeapObjects := moved.2.1,
                             oldHeapObjects := moved.2.2 }
      scanLoop s.poolSize rooted rooted.oldHeapObjects.head

/-- The loop of `baker_collect` over Roots; `store` gives `*r` for each recorded `r`. -/
def markRoots (store : Nat → Option Nat) (s : GcState) : Except GcFault GcState :=
  (List.range s.rootObjects.top).foldlM
    (fun t ii => moveReachable t (store (t.rootObjects.objs ii))) s

/-- `finalize_object`; its effect on out-of-slab memory is recorded in the log. -/
def finalizeObject (s : GcState) (obj : Nat) : GcState :=
  { s with log := s.log ++ [.finalized obj] }

/-- The loop of `baker_collect` over Finalizable. -/
def finalizeUnreached (s : GcState) : GcState :=
  (List.range s.finalizableObjects.top).foldl (fun t idx =>
    let obj := t.finalizableObjects.objs idx
    if (t.cells obj).color ≠ t.currentColor then finalizeObject t obj
    else { t with finalizableObjectsNext := stackSetPush t.finalizableObjectsNext obj }) s

def swapFinalizable (s : GcState) : GcState :=
  { s with finalizableObjects := s.finalizableObjectsNext,
           finalizableObjectsNext := clearStackSet s.finalizableObjects }

/-- `append_to_tail(&Active_Heap_Objects, &Old_Heap_Objects)`. -/
def mergeHeaps (s : GcState) : GcState :=
  let merged := appendToTail s.cells s.activeHeapObjects s.oldHeapObjects
  { s with cells := merged.1, activeHeapObjects := merged.2.1, oldHeapObjects := merged.2.2 }

/-- The state in which marking starts: the lists merged and the color advanced. -/
def startMarking (s : GcState) : GcState :=
  { mergeHeaps s with currentColor := nextColor s.currentColor }

/-- `baker_collect()`, returning the number of free cells. -/
def bakerCollect (store : Nat → Option Nat) (s : GcState) : Except GcFault (GcState × Nat) := do
  let marked ← markRoots store (startMarking s)
  let swapped := swapFinalizable (finalizeUnreached marked)
  let done := { swapped with currentColor := nextColor swapped.currentColor,
                             nextFreeObject := swapped.activeHeapObjects.head }
  pure (done, done.activeHeapObjects.numObjects)

/-- The branch of `alloc_object` taken when `Next_Free_Object` is `NULL`. -/
def collectAndExtend (store : Nat → Option Nat) (s : GcState) : Except GcFault GcState := do
  let (collected, freed) ← bakerCollect store s
  if freed = 0 ∨ collected.nextHeapExtension / freed > 2 then
    pure { extendHeap collected collected.nextHeapExtension with
           nextHeapExtension := collected.nextHeapExtension * 3 }
  else pure collected

/-- The end of `alloc_object`: color `Next_Free_Object`, list it as finalizable if asked,
and advance `Next_Free_Object` along `next`. -/
def handOut (s : GcState) (needsFinalization : Bool) : Except GcFault (GcState × Nat) :=
  match s.nextFreeObject with
  | none => throw (.fatal 2 "extend_heap didn't work")
  | some obj =>
    let cells := setColor s.cells obj s.currentColor
    let finalizable := if needsFinalization then stackSetPush s.finalizableObjects obj
      else s.finalizableObjects
    pure ({ s with cells := cells, finalizableObjects := finalizable,
                   nextFreeObject := (cells obj).next,
                   log := s.log ++ [.allocated obj needsFinalization] }, obj)

/-- `debug_gc("no space. trying baker-collect\n")`. -/
def noSpace (s : GcState) : GcState := { s with log := s.log ++ [.noSpace] }

/-- `alloc_object(needs_finalization)`. -/
def allocObject (store : Nat → Option Nat) (s : GcState) (needsFinalization : Bool) :
    Except GcFault (GcState × Nat) := do
  let ready ← if s.nextFreeObject = none then collectAndExtend store (noSpace s) else pure s
  handOut ready needsFinalization

end BrianScheme
