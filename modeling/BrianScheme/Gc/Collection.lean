import BrianScheme.Gc.Mark

/-! What one `baker_collect` does, from a state whose lists are well formed and in which no
cell carries the color the collection is about to mark with. -/

namespace BrianScheme

variable {store : Nat → Option Nat}

theorem mergeHeaps_listInv {s : GcState} {A O : List Nat} (lists : ListInv s A O) :
    ListInv (mergeHeaps s) (A ++ O) [] := by
  obtain ⟨merged, emptied⟩ := appendToTail_represents lists.activeList lists.oldList lists.disjoint
  exact ⟨merged, emptied, List.disjoint_nil_right _,
    fun a => by simpa [mergeHeaps] using lists.cover a⟩

@[simp] theorem startMarking_payloads (s : GcState) : (startMarking s).payloads = s.payloads :=
  funext fun a => by simp [startMarking, mergeHeaps, GcState.payloads]

@[simp] theorem startMarking_color (s : GcState) (a : Nat) :
    ((startMarking s).cells a).color = (s.cells a).color := by
  simp [startMarking, mergeHeaps]

theorem startMarking_inv {s : GcState} {A O : List Nat} (lists : ListInv s A O)
    (bounded : Bounded store s)
    (unmarked : ∀ a < s.poolSize, (s.cells a).color ≠ nextColor s.currentColor) :
    MarkInv store (startMarking s) (A ++ O) [] [] where
  lists :=
    have merged := mergeHeaps_listInv lists
    ⟨merged.activeList, merged.oldList, merged.disjoint, merged.cover⟩
  marked a lt := by simpa using unmarked a lt
  closed := by simp
  sound := by simp
  bounded := ⟨fun a lt b mem => bounded.children a lt b (by rwa [startMarking_payloads] at mem),
    bounded.roots⟩

/-- The step of the loop over Finalizable. -/
def finalizeStep (t : GcState) (idx : Nat) : GcState :=
  let obj := t.finalizableObjects.objs idx
  if (t.cells obj).color ≠ t.currentColor then finalizeObject t obj
  else { t with finalizableObjectsNext := stackSetPush t.finalizableObjectsNext obj }

theorem finalizeUnreached_eq (t : GcState) :
    finalizeUnreached t = (List.range t.finalizableObjects.top).foldl finalizeStep t := rfl

theorem foldl_finalizeStep (l : List Nat) (u : GcState) :
    ∃ next : StackSet Nat,
      next.contents = u.finalizableObjectsNext.contents ++
        (l.map u.finalizableObjects.objs).filter (fun o => (u.cells o).color = u.currentColor) ∧
      l.foldl finalizeStep u =
        { u with log := u.log ++ ((l.map u.finalizableObjects.objs).filter
                   (fun o => (u.cells o).color ≠ u.currentColor)).map .finalized,
                 finalizableObjectsNext := next } := by
  induction l generalizing u with
  | nil => exact ⟨u.finalizableObjectsNext, by simp, by simp⟩
  | cons idx rest ih =>
    by_cases colored : (u.cells (u.finalizableObjects.objs idx)).color = u.currentColor
    · obtain ⟨next, contents, run⟩ :=
        ih { u with finalizableObjectsNext :=
               stackSetPush u.finalizableObjectsNext (u.finalizableObjects.objs idx) }
      refine ⟨next, by simp [contents, colored], ?_⟩
      simp only [List.foldl_cons, finalizeStep, colored, ne_eq, not_true_eq_false, if_false]
      rw [run]
      simp [colored]
    · obtain ⟨next, contents, run⟩ := ih (finalizeObject u (u.finalizableObjects.objs idx))
      refine ⟨next, by simpa [finalizeObject, colored] using contents, ?_⟩
      simp only [List.foldl_cons, finalizeStep, colored, ne_eq, not_false_eq_true, if_true]
      rw [run]
      simp [finalizeObject, colored]

theorem finalizeUnreached_spec (t : GcState) :
    ∃ next : StackSet Nat,
      next.contents = t.finalizableObjectsNext.contents ++
        t.finalizableObjects.contents.filter (fun o => (t.cells o).color = t.currentColor) ∧
      finalizeUnreached t =
        { t with log := t.log ++ (t.finalizableObjects.contents.filter
                   (fun o => (t.cells o).color ≠ t.currentColor)).map .finalized,
                 finalizableObjectsNext := next } :=
  foldl_finalizeStep _ t

/-- What `baker_collect` leaves behind, relative to the state `s` it started from. -/
structure Collected (store : Nat → Option Nat) (s s' : GcState) (active old : List Nat) : Prop where
  lists : ListInv s' active old
  reached : ∀ a, a ∈ old ↔ Reachable s.payloads (RootTarget store s.rootObjects) a
  colors : ∀ a < s.poolSize, (s'.cells a).color =
    if a ∈ old then nextColor s.currentColor else (s.cells a).color
  currentColor : s'.currentColor = nextColor (nextColor s.currentColor)
  nextFreeObject : s'.nextFreeObject = active.head?
  payloads : s'.payloads = s.payloads
  poolSize : s'.poolSize = s.poolSize
  rootObjects : s'.rootObjects = s.rootObjects
  nextHeapExtension : s'.nextHeapExtension = s.nextHeapExtension
  finalizableObjects : s'.finalizableObjects.contents = s.finalizableObjectsNext.contents ++
    s.finalizableObjects.contents.filter (fun o => (s'.cells o).color = nextColor s.currentColor)
  finalizableObjectsNext : s'.finalizableObjectsNext.contents = []
  log : s'.log = s.log ++ (s.finalizableObjects.contents.filter
    (fun o => (s'.cells o).color ≠ nextColor s.currentColor)).map .finalized

theorem bakerCollect_spec {s : GcState} {A O : List Nat} (lists : ListInv s A O)
    (bounded : Bounded store s)
    (unmarked : ∀ a < s.poolSize, (s.cells a).color ≠ nextColor s.currentColor) :
    ∃ s' A' O', bakerCollect store s = .ok (s', A'.length) ∧ Collected store s s' A' O' := by
  obtain ⟨m, A', O', run, inv, steps, -, roots⟩ :=
    markRoots_inv (startMarking_inv lists bounded unmarked)
  have frame := markSteps_onlyMarks steps
  obtain ⟨next, contents, finalized⟩ := finalizeUnreached_spec m
  have start : (startMarking s).rootObjects = s.rootObjects := rfl
  have color : m.currentColor = nextColor s.currentColor := frame.currentColor
  refine ⟨{ m with log := m.log ++ (m.finalizableObjects.contents.filter
                     (fun o => (m.cells o).color ≠ m.currentColor)).map .finalized,
                   finalizableObjects := next,
                   finalizableObjectsNext := clearStackSet m.finalizableObjects,
                   currentColor := nextColor m.currentColor,
                   nextFreeObject := m.activeHeapObjects.head },
    A', O', ?_, ⟨⟨inv.lists.activeList, inv.lists.oldList, inv.lists.disjoint, inv.lists.cover⟩,
      ?_, ?_, by simp [color], inv.lists.activeList.head, frame.payloads.trans (by simp),
      frame.poolSize, frame.rootObjects, frame.nextHeapExtension, ?_, rfl, ?_⟩⟩
  · simp [bakerCollect, run, finalized, swapFinalizable, inv.lists.activeList.count]
  · intro a
    rw [inv.mem_iff_reachable (by rw [frame.rootObjects]; exact roots) a, frame.payloads,
      frame.rootObjects]
    simp [start]
  · intro a lt
    have lt' : a < m.poolSize := frame.poolSize ▸ lt
    by_cases mem : a ∈ O'
    · simp only [mem, if_true]
      simpa [color] using (inv.marked a lt').mpr (by simpa using mem)
    · simp only [mem, if_false]
      rcases frame.colors a with same | marked
      · simpa using same
      · exact absurd ((inv.marked a lt').mp (marked.trans frame.currentColor.symm)) (by simpa using mem)
  · simp [contents, frame.finalizableObjects, frame.finalizableObjectsNext, color, startMarking,
      mergeHeaps]
  · simp [frame.log, frame.finalizableObjects, color, startMarking, mergeHeaps]

theorem bakerCollect_frame {s s' : GcState} {freed : Nat}
    (run : bakerCollect store s = .ok (s', freed)) :
    s'.rootObjects = s.rootObjects ∧ s'.payloads = s.payloads ∧ s'.poolSize = s.poolSize ∧
      s'.nextHeapExtension = s.nextHeapExtension := by
  simp only [bakerCollect, bind, Except.bind, pure, Except.pure] at run
  split at run
  · cases run
  · rename_i marked markedRun
    cases run
    obtain ⟨next, -, finalized⟩ := finalizeUnreached_spec marked
    have frame := markRoots_onlyMarks markedRun
    simp only [swapFinalizable, finalized]
    exact ⟨frame.rootObjects, frame.payloads.trans (startMarking_payloads s), frame.poolSize,
      frame.nextHeapExtension⟩

theorem handOut_frame {s s' : GcState} {nf : Bool} {x : Nat}
    (run : handOut s nf = .ok (s', x)) :
    s'.rootObjects = s.rootObjects ∧ s'.payloads = s.payloads ∧ s'.poolSize = s.poolSize ∧
      s'.nextHeapExtension = s.nextHeapExtension := by
  simp only [handOut] at run
  split at run
  · cases run
  · cases run
    exact ⟨rfl, funext fun a => by simp [GcState.payloads], rfl, rfl⟩

theorem allocObject_frame {s s' : GcState} {nf : Bool} {x : Nat}
    (run : allocObject store s nf = .ok (s', x)) :
    s'.rootObjects = s.rootObjects ∧ s.poolSize ≤ s'.poolSize ∧
      ∀ a < s.poolSize, (s'.cells a).payload = (s.cells a).payload := by
  simp only [allocObject] at run
  split at run
  · obtain ⟨ready, readyRun, handed⟩ := except_bind_eq_ok.mp run
    obtain ⟨⟨collected, freed⟩, collectedRun, extended⟩ := except_bind_eq_ok.mp readyRun
    obtain ⟨roots, payloads, pool, -⟩ := bakerCollect_frame collectedRun
    obtain ⟨roots', payloads', pool', -⟩ := handOut_frame handed
    have kept : ready.rootObjects = s.rootObjects ∧ s.poolSize ≤ ready.poolSize ∧
        ∀ a < s.poolSize, ready.payloads a = s.payloads a := by
      by_cases grow : freed = 0 ∨ collected.nextHeapExtension / freed > 2 <;>
        simp only [grow, if_true, if_false, pure, Except.pure, Except.ok.injEq] at extended <;>
        subst extended
      · refine ⟨by simpa [noSpace] using roots, by simp [pool, noSpace], fun a lt => ?_⟩
        have same : (collected.cells a).payload = (s.cells a).payload := congrFun payloads a
        simp only [GcState.payloads, extendHeap_payload, pool, noSpace]
        rw [if_neg (by omega), same]
      · exact ⟨roots, by simp [pool, noSpace], fun a _ => congrFun payloads a⟩
    exact ⟨roots'.trans kept.1, pool' ▸ kept.2.1,
      fun a lt => (congrFun payloads' a).trans (kept.2.2 a lt)⟩
  · obtain ⟨roots, payloads, pool, -⟩ := handOut_frame run
    exact ⟨roots, pool.ge, fun a _ => congrFun payloads a⟩

theorem ListInv.extendHeap {s : GcState} {A O : List Nat} (lists : ListInv s A O) {extension : Nat}
    (several : 2 ≤ extension) :
    ListInv (extendHeap s extension) (List.range' s.poolSize extension ++ A) O where
  activeList :=
    extendHeap_represents lists.activeList (fun a mem => (lists.cover a).mp (.inl mem)) several
  oldList := by
    rw [extendHeap_oldHeapObjects]
    refine lists.oldList.frame fun x mem => ?_
    have lt := (lists.cover x).mp (.inr mem)
    have notHead : s.activeHeapObjects.head ≠ some x := by
      rw [lists.activeList.head]
      exact fun head => lists.disjoint (List.mem_of_mem_head? head) mem
    have notLast : x ≠ s.poolSize + (extension - 1) := by omega
    have notFresh : ¬(s.poolSize ≤ x ∧ x < s.poolSize + extension) := by omega
    simp only [extendHeap_next, extendHeap_prev, if_neg notLast, if_neg notFresh, if_neg notHead,
      and_self]
  disjoint a inActive inOld := by
    have lt := (lists.cover a).mp (.inr inOld)
    rcases List.mem_append.mp inActive with fresh | old
    · have := (List.mem_range'_1.mp fresh).1; omega
    · exact lists.disjoint old inOld
  cover a := by
    rw [extendHeap_poolSize, List.mem_append, or_assoc, lists.cover a, List.mem_range'_1]
    omega

theorem gcInit_listInv : ListInv gcInit (List.range' 0 initialHeapExtension) [] := by
  have empty : ListInv { gcInit with
      poolSize := 0, activeHeapObjects := DoublyLinkedList.empty,
      cells := fun _ => ⟨.uninitialized, 0, none, none⟩ } [] [] :=
    ⟨represents_empty _, represents_empty _, List.disjoint_nil_left _, by simp⟩
  simpa using empty.extendHeap (show 2 ≤ initialHeapExtension by decide)

theorem gcInit_bounded : Bounded store gcInit where
  children a _ b child := by simp [GcState.payloads, gcInit, Payload.children] at child
  roots a := by simp [RootTarget, gcInit, contents_makeStackSet]

theorem Collected.marked_iff {s s' : GcState} {A O : List Nat} (collected : Collected store s s' A O)
    (unmarked : ∀ a < s.poolSize, (s.cells a).color ≠ nextColor s.currentColor) {a : Nat}
    (lt : a < s.poolSize) : (s'.cells a).color = nextColor s.currentColor ↔ a ∈ O := by
  rw [collected.colors a lt]
  split_ifs with mem
  · exact iff_of_true rfl mem
  · exact iff_of_false (unmarked a lt) mem

theorem Collected.bounded {s s' : GcState} {A O : List Nat} (collected : Collected store s s' A O)
    (bounded : Bounded store s) : Bounded store s' :=
  ⟨by simpa only [collected.payloads, collected.poolSize] using bounded.children,
    by simpa only [collected.rootObjects, collected.poolSize] using bounded.roots⟩

/-- Every cell colored `current_color` or `current_color - 1`, as when `alloc_object` starts a
collection: Old cells carry the previous marking color and all of Active has been handed out. -/
def ColorWindow (s : GcState) : Prop :=
  ∀ a < s.poolSize, (s.cells a).color = s.currentColor ∨ nextColor (s.cells a).color = s.currentColor

theorem gcInit_colorWindow : ColorWindow gcInit := by
  simp [ColorWindow, gcInit]

theorem ColorWindow.unmarked {s : GcState} (window : ColorWindow s) :
    ∀ a < s.poolSize, (s.cells a).color ≠ nextColor s.currentColor := by
  intro a lt
  have := window a lt
  unfold nextColor at *
  omega

theorem Collected.unmarked {s s' : GcState} {A O : List Nat} (collected : Collected store s s' A O)
    (window : ColorWindow s) : ∀ a < s'.poolSize, (s'.cells a).color ≠ nextColor s'.currentColor := by
  intro a lt
  rw [collected.poolSize] at lt
  have before := window a lt
  rw [collected.colors a lt, collected.currentColor]
  unfold nextColor at *
  split <;> omega

theorem bakerCollect_old_eq_reachable {s : GcState} {A O : List Nat} (lists : ListInv s A O)
    (bounded : Bounded store s) (window : ColorWindow s) :
    ∃ s' A' O', bakerCollect store s = .ok (s', A'.length) ∧ ListInv s' A' O' ∧
      (∀ a, a ∈ O' ↔ Reachable s.payloads (RootTarget store s.rootObjects) a) ∧
      (∀ a ∈ O', nextColor (s'.cells a).color = s'.currentColor) ∧
      ∃ s'' A'' O'', bakerCollect store s' = .ok (s'', A''.length) ∧ ListInv s'' A'' O'' ∧
        (∀ a, a ∈ O'' ↔ a ∈ O') ∧ A''.length = A'.length := by
  obtain ⟨s', A', O', run, first⟩ := bakerCollect_spec lists bounded window.unmarked
  obtain ⟨s'', A'', O'', run', second⟩ :=
    bakerCollect_spec first.lists (first.bounded bounded) (first.unmarked window)
  have same : ∀ a, a ∈ O'' ↔ a ∈ O' := fun a => by
    rw [second.reached, first.reached, first.payloads, first.rootObjects]
  have lengths : O''.length = O'.length :=
    ((List.perm_ext_iff_of_nodup second.lists.oldList.nodup first.lists.oldList.nodup).mpr
      same).length_eq
  refine ⟨s', A', O', run, first.lists, first.reached, fun a mem => ?_, s'', A'', O'', run',
    second.lists, same, ?_⟩
  · have lt : a < s.poolSize := (first.lists.cover a).mp (Or.inr mem) |>.trans_eq first.poolSize
    rw [first.colors a lt, if_pos mem, first.currentColor]
  · have := first.lists.length_add
    have := second.lists.length_add
    rw [second.poolSize] at *
    omega

/-- Four cells on Active and one root, at address `100`, holding cell `0`: cells `0` and `1` point
at each other and share the child `2`, and cell `3`, unreached, points at itself. -/
def rootedState : GcState where
  cells
    | 0 => ⟨.pair 1 2, 0, none, some 1⟩
    | 1 => ⟨.pair 2 0, 0, some 0, some 2⟩
    | 2 => ⟨.fixnum 7, 0, some 1, some 3⟩
    | 3 => ⟨.pair 3 3, 0, some 2, none⟩
    | _ => ⟨.uninitialized, 0, none, none⟩
  poolSize := 4
  activeHeapObjects := ⟨some 0, some 3, 4⟩
  oldHeapObjects := DoublyLinkedList.empty
  nextFreeObject := none
  rootObjects := stackSetPush (makeStackSet 4) 100
  finalizableObjects := makeStackSet 4
  finalizableObjectsNext := makeStackSet 4
  currentColor := 0
  nextHeapExtension := initialHeapExtension
  log := []

def rootedStore (r : Nat) : Option Nat := if r = 100 then some 0 else none

theorem rootedState_listInv : ListInv rootedState [0, 1, 2, 3] [] :=
  ⟨⟨rfl, rfl, rfl, by decide, by decide, by decide⟩, represents_empty _,
    List.disjoint_nil_right _, fun a => by
      show _ ↔ a < 4
      simp only [List.mem_cons, List.not_mem_nil, or_false]
      omega⟩

theorem rootedState_bounded : Bounded rootedStore rootedState := by
  refine ⟨by decide, fun a ⟨r, mem, stored⟩ => ?_⟩
  obtain rfl : 100 = r := by
    simpa [rootedState, stackSetPush, makeStackSet, StackSet.contents] using mem
  obtain rfl : a = 0 := by simpa [rootedStore] using stored.symm
  decide

theorem rootedState_colorWindow : ColorWindow rootedState := fun a _ =>
  .inl (by rcases a with _ | _ | _ | _ | a <;> rfl)

theorem rootedState_collect_old_eq_reachable :
    ListInv rootedState [0, 1, 2, 3] [] ∧ Bounded rootedStore rootedState ∧
    ColorWindow rootedState ∧
    ∃ s' A' O', bakerCollect rootedStore rootedState = .ok (s', A'.length) ∧ ListInv s' A' O' ∧
      (∀ a, a ∈ O' ↔ Reachable rootedState.payloads (RootTarget rootedStore rootedState.rootObjects) a) ∧
      (∀ a ∈ O', nextColor (s'.cells a).color = s'.currentColor) ∧
      ∃ s'' A'' O'', bakerCollect rootedStore s' = .ok (s'', A''.length) ∧
        ListInv s'' A'' O'' ∧ (∀ a, a ∈ O'' ↔ a ∈ O') ∧ A''.length = A'.length :=
  ⟨rootedState_listInv, rootedState_bounded, rootedState_colorWindow,
    bakerCollect_old_eq_reachable rootedState_listInv rootedState_bounded rootedState_colorWindow⟩

/-- A one-cell pool whose only cell, still free at `Next_Free_Object`, carries color 1 while
`current_color` is 0, and is the target of the only root. -/
def staleState : GcState :=
  { cells := fun _ => ⟨.uninitialized, 1, none, none⟩, poolSize := 1,
    activeHeapObjects := ⟨some 0, some 0, 1⟩, oldHeapObjects := DoublyLinkedList.empty,
    nextFreeObject := some 0, rootObjects := ⟨fun _ => 0, 1, 1⟩,
    finalizableObjects := makeStackSet 1, finalizableObjectsNext := makeStackSet 1,
    currentColor := 0, nextHeapExtension := initialHeapExtension, log := [] }

def staleStore : Nat → Option Nat := fun _ => some 0

theorem bakerCollect_skips_root_with_marking_color :
    ListInv staleState [0] [] ∧ staleState.nextFreeObject = staleState.activeHeapObjects.head ∧
    Reachable staleState.payloads (RootTarget staleStore staleState.rootObjects) 0 ∧
    (bakerCollect staleStore staleState).map (fun r => (r.1.oldHeapObjects.head, r.2)) =
      .ok (none, 1) := by
  refine ⟨⟨⟨rfl, rfl, rfl, by simp [staleState, nextIn], by simp [staleState, prevIn, nextIn],
      by simp⟩, represents_empty _, by simp, fun a => by simp [staleState]⟩, rfl,
    .target ⟨0, by simp [StackSet.contents, staleState], rfl⟩, rfl⟩

end BrianScheme
