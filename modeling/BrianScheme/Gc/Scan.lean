import BrianScheme.Gc.Collection

/-! What marking does cell by cell. Each `move_object_to_head` into Old moves a cell, and each
turn of the loop of `move_reachable` scans one; the events below record both beside the model's
states, as a ghost (the code keeps no such record). From any state whose lists are well formed
and in which a cell of the pool has the marking color exactly when it is on Old, whatever the
object graph, the loop ends within its fuel, a cell moves at most once and only from Active, and
the cells scanned are exactly the cells moved, in the order they moved. -/

namespace BrianScheme

inductive MarkEvent where
  | moved (cell : Nat)
  | scanned (cell : Nat)
  deriving DecidableEq, Repr

def MarkEvent.movedCell : MarkEvent → Option Nat
  | .moved cell => some cell
  | .scanned _ => none

def MarkEvent.scannedCell : MarkEvent → Option Nat
  | .moved _ => none
  | .scanned cell => some cell

/-- The cells moved to Old, in order. -/
def movedCells (events : List MarkEvent) : List Nat := events.filterMap MarkEvent.movedCell

/-- The cells scanned, in order. -/
def scannedCells (events : List MarkEvent) : List Nat := events.filterMap MarkEvent.scannedCell

/-- The events of `maybe_move` on each of `cs` in turn. -/
def fieldEvents : GcState → List Nat → List MarkEvent
  | _, [] => []
  | s, c :: cs =>
    (if (s.cells c).color ≠ s.currentColor then [.moved c] else []) ++ fieldEvents (maybeMove s c) cs

/-- The events of the scan loop, turn by turn. -/
def scanLoopEvents : Nat → GcState → Option Nat → List MarkEvent
  | _, _, none => []
  | 0, _, some _ => []
  | fuel + 1, s, some scanIter =>
    let scanned := scanFields s scanIter
    .scanned scanIter :: fieldEvents s (s.cells scanIter).payload.children ++
      scanLoopEvents fuel scanned (scanned.cells scanIter).prev

/-- The events of `move_reachable(root)`: the root moved, then the scan loop from Old's head. -/
def moveReachableEvents (s : GcState) : Option Nat → List MarkEvent
  | none => []
  | some root =>
    if (s.cells root).color = s.currentColor then []
    else .moved root ::
      scanLoopEvents s.poolSize (maybeMove s root) (maybeMove s root).oldHeapObjects.head

/-- One turn of the loop of `baker_collect` over Roots, with its events appended. -/
def markRootEvents (store : Nat → Option Nat) (state : GcState × List MarkEvent) (ii : Nat) :
    Except GcFault (GcState × List MarkEvent) := do
  let root := store (state.1.rootObjects.objs ii)
  pure (← moveReachable state.1 root, state.2 ++ moveReachableEvents state.1 root)

/-- The loop of `baker_collect` over Roots, with the events of each `move_reachable`. -/
def markRootsEvents (store : Nat → Option Nat) (s : GcState) :
    Except GcFault (GcState × List MarkEvent) :=
  (List.range s.rootObjects.top).foldlM (markRootEvents store) (s, [])

section Events

variable (cells : List Nat) (c : Nat) (events : List MarkEvent)

@[simp] theorem movedCells_nil : movedCells [] = [] := rfl

@[simp] theorem scannedCells_nil : scannedCells [] = [] := rfl

@[simp] theorem movedCells_append (others : List MarkEvent) :
    movedCells (events ++ others) = movedCells events ++ movedCells others :=
  List.filterMap_append _ _ _

@[simp] theorem scannedCells_append (others : List MarkEvent) :
    scannedCells (events ++ others) = scannedCells events ++ scannedCells others :=
  List.filterMap_append _ _ _

@[simp] theorem movedCells_moved : movedCells (.moved c :: events) = c :: movedCells events := rfl

@[simp] theorem movedCells_scanned : movedCells (.scanned c :: events) = movedCells events := rfl

@[simp] theorem scannedCells_moved : scannedCells (.moved c :: events) = scannedCells events := rfl

@[simp] theorem scannedCells_scanned :
    scannedCells (.scanned c :: events) = c :: scannedCells events := rfl

@[simp] theorem movedCells_map_moved : movedCells (cells.map .moved) = cells := by
  induction cells <;> simp_all

@[simp] theorem scannedCells_map_moved : scannedCells (cells.map .moved) = [] := by
  induction cells <;> simp_all

end Events

variable {store : Nat → Option Nat}

theorem moves_cons_of_erase {A A' moved : List Nat} {c : Nat} (nodup : A.Nodup) (inActive : c ∈ A)
    (distinct : moved.Nodup) (fromA : ∀ a ∈ moved, a ∈ A.erase c)
    (within : ∀ a ∈ A', a ∈ A.erase c) :
    (c :: moved).Nodup ∧ (∀ a ∈ c :: moved, a ∈ A) ∧ ∀ a ∈ A', a ∈ A := by
  have erased : ∀ {a}, a ∈ A.erase c ↔ a ≠ c ∧ a ∈ A := nodup.mem_erase_iff
  exact ⟨List.nodup_cons.mpr ⟨fun mem => (erased.mp (fromA c mem)).1 rfl, distinct⟩,
    List.forall_mem_cons.mpr ⟨inActive, fun a mem => (erased.mp (fromA a mem)).2⟩,
    fun a mem => (erased.mp (within a mem)).2⟩

theorem fieldEvents_marking (cs : List Nat) {s : GcState} {A O : List Nat}
    (marking : Marking s A O) (bound : ∀ c ∈ cs, c < s.poolSize) :
    ∃ A' moved : List Nat, Marking (cs.foldl maybeMove s) A' (moved.reverse ++ O) ∧
      fieldEvents s cs = moved.map .moved ∧ moved.Nodup ∧ (∀ a ∈ moved, a ∈ A) ∧
      (∀ a ∈ A', a ∈ A) ∧ A'.length + moved.length = A.length := by
  induction cs generalizing s A O with
  | nil => exact ⟨A, [], by simpa using marking, rfl, List.nodup_nil, by simp, fun _ => id, rfl⟩
  | cons c cs ih =>
    have rest : ∀ c' ∈ cs, c' < (maybeMove s c).poolSize := fun c' mem =>
      (maybeMove_onlyMarks s c).poolSize ▸ bound c' (List.mem_cons_of_mem _ mem)
    rw [List.foldl_cons]
    by_cases colored : (s.cells c).color = s.currentColor
    · rw [maybeMove_of_colored colored] at rest ⊢
      obtain ⟨A', moved, marking', events, rest'⟩ := ih marking rest
      refine ⟨A', moved, marking', ?_, rest'⟩
      simp [fieldEvents, colored, maybeMove_of_colored colored, events]
    · obtain ⟨inActive, marking₁⟩ := maybeMove_marking marking (bound c (List.mem_cons_self _ _)) colored
      obtain ⟨A', moved, marking', events, distinct, fromA, within, length⟩ := ih marking₁ rest
      obtain ⟨distinct', fromA', within'⟩ :=
        moves_cons_of_erase marking.lists.activeList.nodup inActive distinct fromA within
      refine ⟨A', c :: moved, by simpa using marking', by simp [fieldEvents, colored, events],
        distinct', fromA', within', ?_⟩
      have := List.length_erase_of_mem inActive
      have := List.length_pos_of_mem inActive
      simp only [List.length_cons]
      omega

theorem scanLoopEvents_marking (fuel : Nat) {s : GcState} {A Q D : List Nat}
    (marking : Marking s A (Q ++ D))
    (children : ∀ a < s.poolSize, ∀ b ∈ (s.payloads a).children, b < s.poolSize)
    (enough : A.length + Q.length ≤ fuel) :
    ∃ (s' : GcState) (A' moved : List Nat), scanLoop fuel s Q.getLast? = .ok s' ∧
      Marking s' A' (moved.reverse ++ Q ++ D) ∧
      movedCells (scanLoopEvents fuel s Q.getLast?) = moved ∧
      scannedCells (scanLoopEvents fuel s Q.getLast?) = Q.reverse ++ moved ∧
      moved.Nodup ∧ (∀ a ∈ moved, a ∈ A) ∧ (∀ a ∈ A', a ∈ A) := by
  induction fuel generalizing s A Q D with
  | zero =>
    obtain rfl : Q = [] := List.eq_nil_of_length_eq_zero (by omega)
    exact ⟨s, A, [], rfl, by simpa using marking, rfl, rfl, List.nodup_nil, by simp, fun _ => id⟩
  | succ f ih =>
    rcases List.eq_nil_or_concat Q with rfl | ⟨Q', x, hQ⟩
    · exact ⟨s, A, [], rfl, by simpa using marking, rfl, rfl, List.nodup_nil, by simp, fun _ => id⟩
    rw [List.concat_eq_append] at hQ
    subst hQ
    have xBound : x < s.poolSize := (marking.lists.cover x).mp (.inr (by simp))
    obtain ⟨A₁, m₁, marking₁, events₁, distinct₁, fromA₁, within₁, length₁⟩ :=
      fieldEvents_marking (s.cells x).payload.children marking (children x xBound)
    change Marking (scanFields s x) A₁ _ at marking₁
    have frame := scanFields_onlyMarks s x
    have queue : m₁.reverse ++ (Q' ++ [x] ++ D) = (m₁.reverse ++ Q') ++ x :: D := by simp
    rw [queue] at marking₁
    have prev : ((scanFields s x).cells x).prev = (m₁.reverse ++ Q').getLast? :=
      (marking₁.lists.oldList.prev x (by simp)).trans
        (prevIn_append_cons marking₁.lists.oldList.nodup)
    obtain ⟨s', A', m₂, run, marking', moved, scanned, distinct₂, fromA₂, within₂⟩ :=
      ih marking₁ (by rw [frame.poolSize, frame.payloads]; exact children)
        (by simp only [List.length_append, List.length_reverse, List.length_singleton] at enough ⊢
            omega)
    have last : (Q' ++ [x]).getLast? = some x := by simp
    have loopEvents : scanLoopEvents (f + 1) s (Q' ++ [x]).getLast? =
        .scanned x :: m₁.map .moved ++
          scanLoopEvents f (scanFields s x) (m₁.reverse ++ Q').getLast? := by
      rw [last, scanLoopEvents, prev, events₁]
    refine ⟨s', A', m₁ ++ m₂, ?_, by simpa using marking', ?_, ?_, ?_, ?_,
      fun a mem => within₁ a (within₂ a mem)⟩
    · rw [last, scanLoop, prev]
      exact run
    · rw [loopEvents, movedCells_append, movedCells_scanned, movedCells_map_moved, moved]
    · rw [loopEvents, scannedCells_append, scannedCells_scanned, scannedCells_map_moved, scanned]
      simp
    · refine List.nodup_append.mpr ⟨distinct₁, distinct₂, fun a early late => ?_⟩
      exact marking₁.lists.disjoint (fromA₂ a late) (by simp [early])
    · intro a mem
      rcases List.mem_append.mp mem with early | late
      · exact fromA₁ a early
      · exact within₁ a (fromA₂ a late)

theorem moveReachableEvents_marking {s : GcState} {A O : List Nat} (marking : Marking s A O)
    (children : ∀ a < s.poolSize, ∀ b ∈ (s.payloads a).children, b < s.poolSize)
    (root : Option Nat) (rootBound : ∀ r, root = some r → r < s.poolSize) :
    ∃ (s' : GcState) (A' moved : List Nat), moveReachable s root = .ok s' ∧ Marking s' A' (moved.reverse ++ O) ∧
      movedCells (moveReachableEvents s root) = moved ∧
      scannedCells (moveReachableEvents s root) = moved ∧
      moved.Nodup ∧ (∀ a ∈ moved, a ∈ A) ∧ (∀ a ∈ A', a ∈ A) := by
  rcases root with _ | r
  · exact ⟨s, A, [], rfl, by simpa using marking, rfl, rfl, List.nodup_nil, by simp, fun _ => id⟩
  by_cases colored : (s.cells r).color = s.currentColor
  · exact ⟨s, A, [], by simp [moveReachable_eq, colored], by simpa using marking,
      by simp [moveReachableEvents, colored], by simp [moveReachableEvents, colored],
      List.nodup_nil, by simp, fun _ => id⟩
  have bound := rootBound r rfl
  obtain ⟨inActive, marking₁⟩ := maybeMove_marking marking bound colored
  have frame := maybeMove_onlyMarks s r
  have head : (maybeMove s r).oldHeapObjects.head = [r].getLast? := by
    simpa using marking₁.lists.oldList.head
  have enough : (A.erase r).length + [r].length ≤ (maybeMove s r).poolSize := by
    have := marking.lists.length_add
    have := List.length_erase_of_mem inActive
    have := List.length_pos_of_mem inActive
    simp only [List.length_singleton, frame.poolSize]
    omega
  obtain ⟨s', A', moved, run, marking', movedEvents, scannedEvents, distinct, fromA, within⟩ :=
    scanLoopEvents_marking _ (Q := [r]) (D := O) (by simpa using marking₁)
      (by rw [frame.poolSize, frame.payloads]; exact children) enough
  rw [frame.poolSize, ← head] at run movedEvents scannedEvents
  obtain ⟨distinct', fromA', within'⟩ :=
    moves_cons_of_erase marking.lists.activeList.nodup inActive distinct fromA within
  exact ⟨s', A', r :: moved, by simpa [moveReachable_eq, colored] using run,
    by simpa using marking', by simpa [moveReachableEvents, colored] using movedEvents,
    by simpa [moveReachableEvents, colored] using scannedEvents, distinct', fromA', within'⟩

theorem foldlM_markRootEvents (l : List Nat) {t : GcState} {A O : List Nat}
    (events : List MarkEvent) (marking : Marking t A O) (bounded : Bounded store t)
    (indices : ∀ ii ∈ l, ii < t.rootObjects.top) :
    ∃ t' A' O' later, l.foldlM (markRootEvents store) (t, events) = .ok (t', events ++ later) ∧
      l.foldlM (fun t ii => moveReachable t (store (t.rootObjects.objs ii))) t = .ok t' ∧
      Marking t' A' O' ∧ (movedCells later).Nodup ∧ (∀ a ∈ movedCells later, a ∈ A) ∧
      scannedCells later = movedCells later := by
  induction l generalizing t A O events with
  | nil => exact ⟨t, A, O, [], by simp [pure, Except.pure], rfl, marking, List.nodup_nil, by simp, rfl⟩
  | cons ii rest ih =>
    have below := indices ii (List.mem_cons_self _ _)
    obtain ⟨t₁, A₁, m₁, run₁, marking₁, moved₁, scanned₁, distinct₁, fromA₁, within₁⟩ :=
      moveReachableEvents_marking marking bounded.children (store (t.rootObjects.objs ii))
        fun r found => bounded.roots r ⟨_, mem_contents below, found⟩
    have frame := moveReachable_onlyMarks run₁
    obtain ⟨t₂, A₂, O₂, later, run₂, runS, marking₂, distinct₂, fromA₂, scanned₂⟩ :=
      ih (events ++ moveReachableEvents t (store (t.rootObjects.objs ii))) marking₁
        ⟨by rw [frame.poolSize, frame.payloads]; exact bounded.children,
          by rw [frame.poolSize, frame.rootObjects]; exact bounded.roots⟩
        (fun jj mem => frame.rootObjects ▸ indices jj (List.mem_cons_of_mem _ mem))
    refine ⟨t₂, A₂, O₂, moveReachableEvents t (store (t.rootObjects.objs ii)) ++ later, ?_, ?_,
      marking₂, ?_, ?_, by simp [scanned₁, moved₁, scanned₂]⟩
    · simp only [List.foldlM_cons, markRootEvents, run₁, bind, Except.bind, pure, Except.pure]
      simpa using run₂
    · simp only [List.foldlM_cons, run₁, bind, Except.bind]
      exact runS
    · rw [movedCells_append, moved₁]
      exact List.nodup_append.mpr ⟨distinct₁, distinct₂, fun a early late =>
        marking₁.lists.disjoint (fromA₂ a late) (by simp [early])⟩
    · intro a mem
      rcases List.mem_append.mp (moved₁ ▸ movedCells_append _ _ ▸ mem) with early | late
      · exact fromA₁ a early
      · exact within₁ a (fromA₂ a late)

/-- `move_reachable` terminates on any object graph, cycles included, and moves each cell at most
once, from Active; the cells it scans are the cells it moves, in the same order. -/
theorem markRoots_moves_once {s : GcState} {A O : List Nat} (marking : Marking s A O)
    (bounded : Bounded store s) :
    (∀ root, (∀ r, root = some r → r < s.poolSize) →
      ∃ s', moveReachable s root = .ok s' ∧ (movedCells (moveReachableEvents s root)).Nodup ∧
        (∀ a ∈ movedCells (moveReachableEvents s root), a ∈ A) ∧
        scannedCells (moveReachableEvents s root) = movedCells (moveReachableEvents s root)) ∧
    ∃ s' events, markRoots store s = .ok s' ∧ markRootsEvents store s = .ok (s', events) ∧
      (movedCells events).Nodup ∧ (∀ a ∈ movedCells events, a ∈ A) ∧
      scannedCells events = movedCells events := by
  refine ⟨fun root rootBound => ?_, ?_⟩
  · obtain ⟨s', -, moved, run, -, movedEvents, scannedEvents, distinct, fromA, -⟩ :=
      moveReachableEvents_marking marking bounded.children root rootBound
    exact ⟨s', run, movedEvents ▸ distinct, movedEvents ▸ fromA, scannedEvents.trans movedEvents.symm⟩
  · obtain ⟨s', -, -, events, run, runS, -, distinct, fromA, scanned⟩ :=
      foldlM_markRootEvents (List.range s.rootObjects.top) [] marking bounded
        fun ii => List.mem_range.mp
    exact ⟨s', events, runS, by simpa using run, distinct, fromA, scanned⟩

theorem rootedState_marking_moves_once :
    Marking (startMarking rootedState) ([0, 1, 2, 3] ++ []) [] ∧
      Bounded rootedStore (startMarking rootedState) ∧
      (∀ root, (∀ r, root = some r → r < (startMarking rootedState).poolSize) →
        ∃ s', moveReachable (startMarking rootedState) root = .ok s' ∧
          (movedCells (moveReachableEvents (startMarking rootedState) root)).Nodup ∧
          (∀ a ∈ movedCells (moveReachableEvents (startMarking rootedState) root),
            a ∈ [0, 1, 2, 3] ++ []) ∧
          scannedCells (moveReachableEvents (startMarking rootedState) root) =
            movedCells (moveReachableEvents (startMarking rootedState) root)) ∧
      ∃ s' events, markRoots rootedStore (startMarking rootedState) = .ok s' ∧
        markRootsEvents rootedStore (startMarking rootedState) = .ok (s', events) ∧
        (movedCells events).Nodup ∧ (∀ a ∈ movedCells events, a ∈ [0, 1, 2, 3] ++ []) ∧
        scannedCells events = movedCells events :=
  have inv : MarkInv rootedStore (startMarking rootedState) ([0, 1, 2, 3] ++ []) [] [] :=
    startMarking_inv rootedState_listInv rootedState_bounded rootedState_colorWindow.unmarked
  ⟨inv.toMarking, inv.bounded, markRoots_moves_once inv.toMarking inv.bounded⟩

end BrianScheme
