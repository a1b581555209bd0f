import BrianScheme.Gc.Machine
import Mathlib.Algebra.Group.Nat.Basic

/-! The invariant of a running collector. Between calls, Active is the cells handed out since
the last collection followed by the free chain from `Next_Free_Object`; Old cells carry the
previous marking color and handed cells the current one; Finalizable lists, once each, the
cells allocated with `needs_finalization` and not finalized since. Every step of a program
that stores only cells of the pool keeps it. -/

namespace BrianScheme

section Log

def handedStep (handed : List Nat) : GcLog → List Nat
  | .allocated obj _ => handed ++ [obj]
  | .finalized _ => handed
  | .noSpace => []

/-- The cells `alloc_object` handed out since the last collection, or since `gc_init`. -/
def handedSince (log : List GcLog) : List Nat := log.foldl handedStep []

@[simp] theorem handedSince_append_allocated (log : List GcLog) (obj : Nat) (nf : Bool) :
    handedSince (log ++ [.allocated obj nf]) = handedSince log ++ [obj] := by
  simp [handedSince, handedStep]

@[simp] theorem handedSince_append_noSpace (log : List GcLog) :
    handedSince (log ++ [.noSpace]) = [] := by
  simp [handedSince, handedStep]

@[simp] theorem handedSince_append_finalized (log : List GcLog) (objs : List Nat) :
    handedSince (log ++ objs.map .finalized) = handedSince log := by
  induction objs generalizing log with
  | nil => simp
  | cons obj objs ih =>
    rw [List.map_cons, ← List.singleton_append, ← List.append_assoc, ih]
    simp [handedSince, handedStep]

/-- `obj` was handed out with `needs_finalization` and has not been finalized since. -/
def PendingFinalizer (log : List GcLog) (obj : Nat) : Prop :=
  ∃ before after, log = before ++ .allocated obj true :: after ∧ .finalized obj ∉ after

theorem pendingFinalizer_append {log : List GcLog} {entry : GcLog} {obj : Nat} :
    PendingFinalizer (log ++ [entry]) obj ↔
      PendingFinalizer log obj ∧ entry ≠ .finalized obj ∨ entry = .allocated obj true := by
  constructor
  · rintro ⟨before, after, split, absent⟩
    rcases List.eq_nil_or_concat after with rfl | ⟨after', last, rfl⟩
    · obtain ⟨-, same⟩ := List.append_inj' split rfl
      exact .inr (List.singleton_inj.mp same)
    · rw [List.concat_eq_append, ← List.cons_append, ← List.append_assoc] at split
      obtain ⟨rfl, same⟩ := List.append_inj' split rfl
      obtain rfl := List.singleton_inj.mp same
      simp only [List.concat_eq_append, List.mem_append, List.mem_singleton, not_or] at absent
      exact .inl ⟨⟨before, after', rfl, absent.1⟩, Ne.symm absent.2⟩
  · rintro (⟨⟨before, after, rfl, absent⟩, ne⟩ | rfl)
    · exact ⟨before, after ++ [entry], by simp, by simp [absent, Ne.symm ne]⟩
    · exact ⟨log, [], rfl, by simp⟩

@[simp] theorem pendingFinalizer_append_allocated {log : List GcLog} {obj x : Nat} {nf : Bool} :
    PendingFinalizer (log ++ [.allocated x nf]) obj ↔
      PendingFinalizer log obj ∨ obj = x ∧ nf = true := by
  rw [pendingFinalizer_append]
  simp [eq_comm]

@[simp] theorem pendingFinalizer_append_noSpace {log : List GcLog} {obj : Nat} :
    PendingFinalizer (log ++ [.noSpace]) obj ↔ PendingFinalizer log obj := by
  rw [pendingFinalizer_append]
  simp

@[simp] theorem pendingFinalizer_append_finalized {log : List GcLog} {objs : List Nat} {obj : Nat} :
    PendingFinalizer (log ++ objs.map .finalized) obj ↔ PendingFinalizer log obj ∧ obj ∉ objs := by
  induction objs generalizing log with
  | nil => simp
  | cons x objs ih =>
    rw [List.map_cons, ← List.singleton_append, ← List.append_assoc, ih, pendingFinalizer_append]
    by_cases same : obj = x
    · subst same; simp
    · simp [same, Ne.symm same]

/-- Each `finalize_object` call in the log finalizes a pending allocation. -/
def FinalizedOnce (log : List GcLog) : Prop :=
  ∀ before obj after, log = before ++ .finalized obj :: after → PendingFinalizer before obj

theorem FinalizedOnce.append {log : List GcLog} {entry : GcLog} (once : FinalizedOnce log)
    (pending : ∀ obj, entry = .finalized obj → PendingFinalizer log obj) :
    FinalizedOnce (log ++ [entry]) := by
  intro before obj after split
  rcases List.eq_nil_or_concat after with rfl | ⟨after', last, rfl⟩
  · obtain ⟨rfl, same⟩ := List.append_inj' split rfl
    exact pending obj (List.singleton_inj.mp same)
  · rw [List.concat_eq_append, ← List.cons_append, ← List.append_assoc] at split
    exact once before obj after' (List.append_inj' split rfl).1

theorem FinalizedOnce.append_finalized {log : List GcLog} {objs : List Nat}
    (once : FinalizedOnce log) (distinct : objs.Nodup)
    (pending : ∀ obj ∈ objs, PendingFinalizer log obj) :
    FinalizedOnce (log ++ objs.map .finalized) := by
  induction objs generalizing log with
  | nil => simpa using once
  | cons x objs ih =>
    rw [List.map_cons, ← List.singleton_append, ← List.append_assoc]
    obtain ⟨absent, distinct⟩ := List.nodup_cons.mp distinct
    refine ih (once.append fun obj same => ?_) distinct fun obj mem => ?_
    · cases same; exact pending x (List.mem_cons_self _ _)
    · have ne : obj ≠ x := fun same => absent (same ▸ mem)
      exact pendingFinalizer_append.mpr
        (.inl ⟨pending obj (List.mem_cons_of_mem _ mem), by simpa using Ne.symm ne⟩)

end Log

/-- The collector between two calls from the program; `free` is the chain from
`Next_Free_Object` to Active's tail. -/
structure HeapInv (s : GcState) (free old : List Nat) : Prop where
  lists : ListInv s (handedSince s.log ++ free) old
  nextFree : s.nextFreeObject = free.head?
  handedColor : ∀ a ∈ handedSince s.log, (s.cells a).color = s.currentColor
  oldColor : ∀ a ∈ old, nextColor (s.cells a).color = s.currentColor
  children : ∀ a < s.poolSize, ∀ b ∈ (s.payloads a).children, b < s.poolSize
  beyond : ∀ a, s.poolSize ≤ a → s.payloads a = .uninitialized
  extension : 2 ≤ s.nextHeapExtension
  finalizable : ∀ x, x ∈ s.finalizableObjects.contents ↔ PendingFinalizer s.log x
  finalizableNodup : s.finalizableObjects.contents.Nodup
  finalizableHeld : ∀ x ∈ s.finalizableObjects.contents, x ∈ handedSince s.log ∨ x ∈ old
  finalizableNext : s.finalizableObjectsNext.contents = []
  finalizedOnce : FinalizedOnce s.log

section HeapInv

variable {s : GcState} {free old : List Nat}

theorem gcInit_heapInv : HeapInv gcInit (List.range' 0 initialHeapExtension) [] where
  lists := by simpa [gcInit, handedSince] using gcInit_listInv
  nextFree := rfl
  handedColor := by simp [gcInit, handedSince]
  oldColor := by simp
  children := (gcInit_bounded : Bounded (fun _ => none) gcInit).children
  beyond a _ := by simp [GcState.payloads, gcInit]
  extension := by decide
  finalizable x := by simp [gcInit, PendingFinalizer]
  finalizableNodup := by simp [gcInit]
  finalizableHeld := by simp [gcInit]
  finalizableNext := by simp [gcInit]
  finalizedOnce := by simp [FinalizedOnce, gcInit]

theorem HeapInv.color_window (inv : HeapInv s [] old) : ColorWindow s := by
  intro a lt
  rcases (inv.lists.cover a).mpr lt with handed | old
  · exact .inl (inv.handedColor a (by simpa using handed))
  · exact .inr (inv.oldColor a old)

theorem HeapInv.setRoots (inv : HeapInv s free old) (roots : StackSet Nat) :
    HeapInv { s with rootObjects := roots } free old :=
  { inv with lists := ⟨inv.lists.activeList, inv.lists.oldList, inv.lists.disjoint, inv.lists.cover⟩ }

theorem HeapInv.write (inv : HeapInv s free old) {obj : Nat} {payload : Payload}
    (inside : obj < s.poolSize) (fields : ∀ b ∈ payload.children, b < s.poolSize) :
    HeapInv { s with cells := setPayload s.cells obj payload } free old :=
  { inv with
    lists := ⟨inv.lists.activeList.frame (by simp), inv.lists.oldList.frame (by simp),
      inv.lists.disjoint, inv.lists.cover⟩
    handedColor := by simpa using inv.handedColor
    oldColor := by simpa using inv.oldColor
    children := fun a lt b child => by
      by_cases same : a = obj
      · subst same; exact fields b (by simpa [GcState.payloads] using child)
      · exact inv.children a lt b (by simpa [GcState.payloads, same] using child)
    beyond := fun a above => by
      have : a ≠ obj := by rintro rfl; exact absurd inside (Nat.not_lt.mpr above)
      simpa [GcState.payloads, this] using inv.beyond a above }

theorem handOut_eq {obj : Nat} (next : s.nextFreeObject = some obj) (nf : Bool) :
    handOut s nf = .ok ({ s with
      cells := setColor s.cells obj s.currentColor,
      finalizableObjects := if nf then stackSetPush s.finalizableObjects obj
        else s.finalizableObjects,
      nextFreeObject := (s.cells obj).next, log := s.log ++ [.allocated obj nf] }, obj) := by
  simp only [handOut, next, setColor_next]
  rfl

theorem HeapInv.head_unfinalized {x : Nat} {rest : List Nat} (inv : HeapInv s (x :: rest) old) :
    x ∉ s.finalizableObjects.contents := by
  have notHanded : x ∉ handedSince s.log := fun mem =>
    List.disjoint_of_nodup_append inv.lists.activeList.nodup mem (List.mem_cons_self _ _)
  have notOld : x ∉ old := fun mem => inv.lists.disjoint (by simp) mem
  exact fun mem => (inv.finalizableHeld x mem).elim notHanded notOld

theorem HeapInv.handOut_registers {x : Nat} {rest : List Nat} (inv : HeapInv s (x :: rest) old)
    (nf : Bool) :
    x ∈ (if nf then stackSetPush s.finalizableObjects x else s.finalizableObjects).contents ↔
      nf = true := by
  cases nf <;> simp [inv.head_unfinalized]

theorem HeapInv.handOut {x : Nat} {rest : List Nat} (inv : HeapInv s (x :: rest) old) (nf : Bool) :
    HeapInv { s with
      cells := setColor s.cells x s.currentColor,
      finalizableObjects := if nf then stackSetPush s.finalizableObjects x
        else s.finalizableObjects,
      nextFreeObject := (s.cells x).next, log := s.log ++ [.allocated x nf] } rest old := by
  have distinct := inv.lists.activeList.nodup
  have notHanded : x ∉ handedSince s.log := fun mem =>
    List.disjoint_of_nodup_append distinct mem (List.mem_cons_self _ _)
  have active : x ∈ handedSince s.log ++ x :: rest := by simp
  have notOld : x ∉ old := fun mem => inv.lists.disjoint active mem
  refine ⟨?_, ?_, ?_, ?_, ?_, ?_, inv.extension, ?_, ?_, ?_, inv.finalizableNext, ?_⟩
  · simp only [handedSince_append_allocated, List.append_assoc, List.singleton_append]
    exact ⟨inv.lists.activeList.setColor x _, inv.lists.oldList.setColor x _,
      inv.lists.disjoint, inv.lists.cover⟩
  · rw [inv.lists.activeList.next x active, nextIn_append, if_neg notHanded]
    simp [nextIn]
  · intro a mem
    by_cases same : a = x
    · simp [same]
    · simpa [same] using inv.handedColor a (by simpa [same] using mem)
  · intro a mem
    have : a ≠ x := by rintro rfl; exact notOld mem
    simpa [this] using inv.oldColor a mem
  · simpa [GcState.payloads] using inv.children
  · simpa [GcState.payloads] using inv.beyond
  · intro y
    cases nf <;> simp [inv.finalizable]
  · cases nf
    · exact inv.finalizableNodup
    · simpa [List.nodup_append, inv.head_unfinalized] using inv.finalizableNodup
  · intro y mem
    have held : y ∈ s.finalizableObjects.contents ∨ y = x := by
      cases nf <;> simp at mem <;> tauto
    rcases held with held | rfl
    · rcases inv.finalizableHeld y held with handed | old
      · exact .inl (by simp [handed])
      · exact .inr old
    · exact .inl (by simp)
  · exact inv.finalizedOnce.append (by simp)

theorem HeapInv.followNext_free (inv : HeapInv s free old) :
    followNext s.cells s.poolSize s.nextFreeObject = free := by
  rw [inv.nextFree]
  apply inv.lists.activeList.followNext_suffix
  have := inv.lists.length_add
  simp only [List.length_append] at this
  omega

theorem HeapInv.handOut_spec {x : Nat} {rest : List Nat} (inv : HeapInv s (x :: rest) old)
    (nf : Bool) :
    ∃ s', BrianScheme.handOut s nf = .ok (s', x) ∧ s'.poolSize = s.poolSize ∧
      (s'.cells x).color = s'.currentColor ∧ s'.nextFreeObject = (s'.cells x).next ∧
      x ∉ followNext s'.cells s'.poolSize s'.nextFreeObject := by
  refine ⟨_, handOut_eq inv.nextFree nf, rfl, by simp, by simp, ?_⟩
  rw [(inv.handOut nf).followNext_free]
  exact (List.nodup_cons.mp (List.nodup_append.mp inv.lists.activeList.nodup).2.1).1

variable {store : Nat → Option Nat}

theorem HeapInv.noSpace_listInv (inv : HeapInv s [] old) :
    ListInv (noSpace s) (handedSince s.log) old := by
  have lists := inv.lists
  rw [List.append_nil] at lists
  exact ⟨lists.activeList, lists.oldList, lists.disjoint, lists.cover⟩

/-- The state marking starts from, after `append_to_tail` and the first `++current_color`. -/
theorem HeapInv.marking_start (inv : HeapInv s [] old)
    (roots : ∀ a, RootTarget store s.rootObjects a → a < s.poolSize) :
    MarkInv store (startMarking (noSpace s)) (handedSince s.log ++ old) [] [] :=
  startMarking_inv inv.noSpace_listInv ⟨inv.children, roots⟩ inv.color_window.unmarked

theorem HeapInv.bakerCollect (inv : HeapInv s [] old)
    (roots : ∀ a, RootTarget store s.rootObjects a → a < s.poolSize) :
    ∃ s' A' O', bakerCollect store (noSpace s) = .ok (s', A'.length) ∧
      Collected store (noSpace s) s' A' O' ∧ handedSince s'.log = [] ∧ HeapInv s' A' O' := by
  have window : ColorWindow (noSpace s) := inv.color_window
  obtain ⟨s', A', O', run, col⟩ := bakerCollect_spec inv.noSpace_listInv
    (⟨inv.children, roots⟩ : Bounded store (noSpace s)) window.unmarked
  have log : s'.log = (s.log ++ [.noSpace]) ++ (s.finalizableObjects.contents.filter
      (fun o => (s'.cells o).color ≠ nextColor s.currentColor)).map .finalized := col.log
  have handed : handedSince s'.log = [] := by
    rw [log, handedSince_append_finalized, handedSince_append_noSpace]
  have kept : ∀ x, x ∈ s'.finalizableObjects.contents ↔
      x ∈ s.finalizableObjects.contents ∧ (s'.cells x).color = nextColor s.currentColor := by
    intro x
    rw [col.finalizableObjects]
    simp [noSpace, inv.finalizableNext]
  refine ⟨s', A', O', run, col, handed, ?_⟩
  refine ⟨by rw [handed]; exact col.lists, col.nextFreeObject, by simp [handed], ?_, ?_, ?_,
    col.nextHeapExtension ▸ inv.extension, ?_, ?_, ?_, col.finalizableObjectsNext, ?_⟩
  · intro a mem
    have lt : a < s.poolSize := col.poolSize ▸ (col.lists.cover a).mp (.inr mem)
    rw [col.colors a lt, if_pos mem, col.currentColor]
  · intro a lt b child
    rw [col.payloads] at child
    rw [col.poolSize] at lt ⊢
    exact inv.children a lt b child
  · intro a above
    rw [col.payloads]
    exact inv.beyond a (col.poolSize ▸ above)
  · intro x
    rw [kept, log, pendingFinalizer_append_finalized, pendingFinalizer_append_noSpace,
      ← inv.finalizable]
    simp only [List.mem_filter, decide_eq_true_eq]
    tauto
  · rw [col.finalizableObjects]
    simpa [noSpace, inv.finalizableNext] using inv.finalizableNodup.filter _
  · intro x mem
    rw [kept] at mem
    have lt : x < s.poolSize := (inv.lists.cover x).mp <| by
      simpa using inv.finalizableHeld x mem.1
    exact .inr ((col.marked_iff window.unmarked lt).mp mem.2)
  · rw [log]
    exact (inv.finalizedOnce.append (by simp)).append_finalized (inv.finalizableNodup.filter _)
      fun x mem => pendingFinalizer_append_noSpace.mpr
        ((inv.finalizable x).mp (List.mem_filter.mp mem).1)

/-- `extend_heap(Next_Heap_Extension)` right after a collection, and the tripling after it. -/
theorem HeapInv.extend (inv : HeapInv s free old) (noneHanded : handedSince s.log = []) :
    HeapInv { extendHeap s s.nextHeapExtension with
      nextHeapExtension := s.nextHeapExtension * 3 }
      (List.range' s.poolSize s.nextHeapExtension ++ free) old := by
  have lt : ∀ a ∈ old, a < s.poolSize := fun a mem => (inv.lists.cover a).mp (.inr mem)
  obtain ⟨k, hk⟩ : ∃ k, s.nextHeapExtension = k + 1 := ⟨_, (Nat.succ_pred_eq_of_pos
    (by have := inv.extension; omega)).symm⟩
  refine ⟨?_, ?_, by simp [noneHanded], ?_, ?_, ?_, by simp; omega, by simpa using inv.finalizable,
    by simpa using inv.finalizableNodup, by simpa using inv.finalizableHeld,
    by simpa using inv.finalizableNext, by simpa using inv.finalizedOnce⟩
  · have lists := inv.lists.extendHeap inv.extension
    rw [noneHanded, List.nil_append] at lists
    show ListInv _ (handedSince (extendHeap s s.nextHeapExtension).log ++ _) old
    rw [extendHeap_log, noneHanded, List.nil_append]
    exact ⟨lists.activeList, lists.oldList, lists.disjoint, lists.cover⟩
  · simp [hk, List.range'_succ]
  · intro a mem
    have : ¬(s.poolSize ≤ a ∧ a < s.poolSize + s.nextHeapExtension) := by have := lt a mem; omega
    simpa [this] using inv.oldColor a mem
  · intro a below b child
    simp only [GcState.payloads, extendHeap_payload, extendHeap_poolSize] at child below ⊢
    split_ifs at child with fresh
    · simp [Payload.children] at child
    · have := inv.children a (by omega) b child
      omega
  · intro a above
    simp only [GcState.payloads, extendHeap_payload, extendHeap_poolSize] at above ⊢
    split_ifs
    · rfl
    · exact inv.beyond a (by omega)

theorem HeapInv.extendHeap_payloads (inv : HeapInv s free old) (extension : Nat) :
    (extendHeap s extension).payloads = s.payloads := by
  funext a
  simp only [GcState.payloads, extendHeap_payload]
  split_ifs with fresh
  · exact (inv.beyond a fresh.1).symm
  · rfl

theorem collectAndExtend_eq {s s' : GcState} {freed : Nat}
    (run : BrianScheme.bakerCollect store s = .ok (s', freed)) :
    collectAndExtend store s = .ok (if freed = 0 ∨ s'.nextHeapExtension / freed > 2 then
      { extendHeap s' s'.nextHeapExtension with nextHeapExtension := s'.nextHeapExtension * 3 }
      else s') := by
  simp only [BrianScheme.collectAndExtend, run, bind, Except.bind, pure, Except.pure]
  split_ifs <;> rfl

theorem HeapInv.collectAndExtend (inv : HeapInv s [] old)
    (roots : ∀ a, RootTarget store s.rootObjects a → a < s.poolSize) :
    ∃ ready x rest old', collectAndExtend store (noSpace s) = .ok ready ∧
      HeapInv ready (x :: rest) old' ∧
      (∀ a, a ∈ old' ↔ Reachable s.payloads (RootTarget store s.rootObjects) a) ∧
      ready.payloads = s.payloads ∧ ready.rootObjects = s.rootObjects ∧
      s.poolSize ≤ ready.poolSize := by
  obtain ⟨s', A', O', run, col, handed, inv'⟩ := inv.bakerCollect roots
  rw [collectAndExtend_eq run]
  split_ifs with grow
  · have first : List.range' s'.poolSize s'.nextHeapExtension =
        s'.poolSize :: List.range' (s'.poolSize + 1) (s'.nextHeapExtension - 1) := by
      obtain ⟨k, hk⟩ : ∃ k, s'.nextHeapExtension = k + 1 :=
        ⟨s'.nextHeapExtension - 1, by have := inv'.extension; omega⟩
      rw [hk, List.range'_succ, Nat.add_sub_cancel]
    have extended := inv'.extend handed
    rw [first, List.cons_append] at extended
    refine ⟨_, _, _, O', rfl, extended, col.reached, (inv'.extendHeap_payloads _).trans col.payloads,
      (extendHeap_rootObjects _ _).trans col.rootObjects, ?_⟩
    show s.poolSize ≤ (extendHeap s' _).poolSize
    rw [extendHeap_poolSize, col.poolSize]
    exact Nat.le_add_right _ _
  · obtain ⟨x, rest, rfl⟩ : ∃ x rest, A' = x :: rest :=
      List.exists_cons_of_ne_nil fun empty => grow (.inl (by simp [empty]))
    exact ⟨s', x, rest, O', rfl, inv', col.reached, col.payloads, col.rootObjects, col.poolSize.ge⟩

theorem allocObject_of_nextFree {x : Nat} (next : s.nextFreeObject = some x) (nf : Bool) :
    BrianScheme.allocObject store s nf = handOut s nf := by
  simp only [BrianScheme.allocObject, next, reduceCtorEq, if_false]
  rfl

theorem HeapInv.allocObject (inv : HeapInv s free old)
    (roots : ∀ a, RootTarget store s.rootObjects a → a < s.poolSize) (nf : Bool) :
    ∃ s' x free' old', BrianScheme.allocObject store s nf = .ok (s', x) ∧ HeapInv s' free' old' ∧
      x ∈ handedSince s'.log ∧ (x ∈ s'.finalizableObjects.contents ↔ nf = true) ∧
      s'.payloads = s.payloads ∧ s'.rootObjects = s.rootObjects ∧
      s.poolSize ≤ s'.poolSize ∧
      (free = x :: free' ∧ old' = old ∨
        free = [] ∧ ∀ a, a ∈ old' ↔ Reachable s.payloads (RootTarget store s.rootObjects) a) := by
  rcases free with _ | ⟨x, rest⟩
  · obtain ⟨ready, x, rest, old', run, inv', reached, payloads, rootObjects, grew⟩ :=
      inv.collectAndExtend roots
    refine ⟨_, x, rest, old', ?_, inv'.handOut nf, by simp, inv'.handOut_registers nf, ?_,
      rootObjects, grew, .inr ⟨rfl, reached⟩⟩
    · simp only [BrianScheme.allocObject, inv.nextFree, List.head?_nil, if_true, run]
      exact handOut_eq inv'.nextFree nf
    · rw [← payloads]
      funext a
      simp [GcState.payloads]
  · refine ⟨_, x, rest, old, ?_, inv.handOut nf, by simp, inv.handOut_registers nf, ?_, rfl,
      le_rfl, .inl ⟨rfl, rfl⟩⟩
    · rw [allocObject_of_nextFree inv.nextFree]
      exact handOut_eq inv.nextFree nf
    · funext a
      simp [GcState.payloads]

end HeapInv

/-- The collector's invariant, and Roots pointing into the pool. -/
structure MachineInv (m : Machine) (free old : List Nat) : Prop where
  heap : HeapInv m.gc free old
  roots : ∀ a, RootTarget m.store m.gc.rootObjects a → a < m.gc.poolSize

theorem MachineInv.bounded {m : Machine} {free old : List Nat} (inv : MachineInv m free old) :
    Bounded m.store m.gc :=
  ⟨inv.heap.children, inv.roots⟩

section Mutator

variable {m : Machine} {free old : List Nat} (inv : MachineInv m free old)
include inv

theorem MachineInv.pushRoot {root : Nat} (bound : ∀ a, m.store root = some a → a < m.gc.poolSize) :
    MachineInv { m with gc := pushRoot m.gc root } free old := by
  refine ⟨inv.heap.setRoots _, ?_⟩
  rintro a ⟨r, mem, found⟩
  simp only [BrianScheme.pushRoot, contents_stackSetPush, List.mem_append,
    List.mem_singleton] at mem
  rcases mem with old | rfl
  · exact inv.roots a ⟨r, old, found⟩
  · exact bound a found

theorem MachineInv.popRoot {root : Nat} {gc : GcState} (popped : popRoot m.gc root = some (.ok gc)) :
    MachineInv { m with gc := gc } free old := by
  obtain ⟨shape, kept⟩ := popRoot_ok popped
  refine ⟨shape ▸ inv.heap.setRoots gc.rootObjects, ?_⟩
  rintro a ⟨r, mem, found⟩
  exact (inv.roots a ⟨r, kept r mem, found⟩).trans_eq (by rw [shape])

theorem MachineInv.setLocal {root : Nat} {value : Option Nat}
    (bound : ∀ a, value = some a → a < m.gc.poolSize) :
    MachineInv { m with store := Function.update m.store root value } free old := by
  refine ⟨inv.heap, ?_⟩
  rintro a ⟨r, mem, found⟩
  by_cases same : r = root
  · subst same
    exact bound a (by simpa using found)
  · exact inv.roots a ⟨r, mem, by simpa [same] using found⟩

theorem MachineInv.write {obj : Nat} {payload : Payload} (inside : obj < m.gc.poolSize)
    (fields : ∀ b ∈ payload.children, b < m.gc.poolSize) (fresh : Option Nat) :
    MachineInv { m with gc := { m.gc with cells := setPayload m.gc.cells obj payload },
                        fresh := fresh } free old :=
  ⟨inv.heap.write inside fields, inv.roots⟩

end Mutator

theorem MachineInv.step {m m' : Machine} {event : Event} {free old : List Nat}
    (inv : MachineInv m free old) (allowed : InPool m event) (stepped : m.step event = some m') :
    ∃ free' old', MachineInv m' free' old' := by
  cases event with
  | alloc nf =>
    obtain ⟨gc, obj, allocated, rfl⟩ := step_alloc stepped
    obtain ⟨s', x, free', old', run, heap, -, -, -, rootObjects, grew, -⟩ :=
      inv.heap.allocObject inv.roots nf
    obtain ⟨rfl, rfl⟩ := Prod.mk.inj (Except.ok.inj (allocated.symm.trans run))
    exact ⟨free', old', heap, fun a target => (inv.roots a (rootObjects ▸ target)).trans_le grew⟩
  | pushRoot root => cases stepped; exact ⟨free, old, inv.pushRoot allowed⟩
  | popRoot root =>
    obtain ⟨gc, popped, rfl⟩ := step_popRoot stepped
    exact ⟨free, old, inv.popRoot popped⟩
  | setLocal root value => cases stepped; exact ⟨free, old, inv.setLocal allowed⟩
  | write obj payload => cases stepped; exact ⟨free, old, inv.write allowed.1 allowed.2 _⟩

theorem Reaches.machineInv {m : Machine} (reach : Reaches InPool m) :
    ∃ free old, MachineInv m free old := by
  induction reach with
  | init => exact ⟨_, _, gcInit_heapInv, by simp [RootTarget, initMachine, gcInit]⟩
  | step _ allowed stepped ih =>
    obtain ⟨free, old, inv⟩ := ih
    exact inv.step allowed stepped

theorem MachineInv.free_eq_nil {m : Machine} {free old : List Nat} (inv : MachineInv m free old)
    (empty : m.gc.nextFreeObject = none) : free = [] := by
  simpa [inv.heap.nextFree] using empty

theorem MachineInv.alloc_returned {m m' : Machine} {free old : List Nat}
    (inv : MachineInv m free old) {nf : Bool} (stepped : m.step (.alloc nf) = some m') :
    ∃ x, m'.returned = some x ∧ x ∈ handedSince m'.gc.log ∧
      (x ∈ m'.gc.finalizableObjects.contents ↔ nf = true) := by
  obtain ⟨gc, obj, allocated, rfl⟩ := step_alloc stepped
  obtain ⟨s', y, -, -, run, -, handed, registers, -⟩ := inv.heap.allocObject inv.roots nf
  obtain ⟨rfl, rfl⟩ := Prod.mk.inj (Except.ok.inj (allocated.symm.trans run))
  exact ⟨_, rfl, handed, registers⟩

theorem Reaches.returned_handed {m : Machine} (reach : Reaches InPool m) :
    ∀ x, m.returned = some x → x ∈ handedSince m.gc.log := by
  induction reach with
  | init => exact fun _ none' => nomatch none'
  | @step m m' event reach _ stepped ih =>
    cases event with
    | alloc nf =>
      obtain ⟨free, old, inv⟩ := reach.machineInv
      obtain ⟨x, returned, handed, -⟩ := inv.alloc_returned stepped
      rintro y returned'
      obtain rfl := Option.some.inj (returned'.symm.trans returned)
      exact handed
    | popRoot root =>
      obtain ⟨gc, popped, rfl⟩ := step_popRoot stepped
      rw [(popRoot_ok popped).1]
      exact ih
    | pushRoot | setLocal | write =>
      simp only [Machine.step, Option.some.injEq] at stepped
      subst stepped
      exact ih

section Runs

variable {allowed : Machine → Event → Prop}

theorem HeapInv.step_alloc {m : Machine} {x : Nat} {rest old : List Nat}
    (inv : HeapInv m.gc (x :: rest) old) (nf : Bool) :
    ∃ gc, m.step (.alloc nf) = some { m with gc := gc, returned := some x, fresh := some x } ∧
      HeapInv gc rest old ∧ handedSince gc.log = handedSince m.gc.log ++ [x] ∧
      gc.payloads = m.gc.payloads ∧ gc.rootObjects = m.gc.rootObjects ∧
      gc.nextHeapExtension = m.gc.nextHeapExtension ∧
      gc.finalizableObjects = if nf then stackSetPush m.gc.finalizableObjects x
        else m.gc.finalizableObjects := by
  refine ⟨_, ?_, inv.handOut nf, by simp, by funext a; simp [GcState.payloads], rfl, rfl, rfl⟩
  simp only [Machine.step, allocObject_of_nextFree inv.nextFree, handOut_eq inv.nextFree]

theorem Reaches.allocs (allocAllowed : ∀ m, allowed m (.alloc false)) (handed : List Nat)
    {m : Machine} {free old : List Nat} (reach : Reaches allowed m)
    (inv : HeapInv m.gc (handed ++ free) old) :
    ∃ m', Reaches allowed m' ∧ HeapInv m'.gc free old ∧
      handedSince m'.gc.log = handedSince m.gc.log ++ handed ∧
      m'.returned = handed.getLast?.or m.returned ∧ m'.store = m.store ∧
      m'.gc.payloads = m.gc.payloads ∧ m'.gc.rootObjects = m.gc.rootObjects ∧
      m'.gc.nextHeapExtension = m.gc.nextHeapExtension ∧
      m'.gc.finalizableObjects = m.gc.finalizableObjects := by
  induction handed generalizing m with
  | nil => exact ⟨m, reach, inv, by simp, by simp, rfl, rfl, rfl, rfl, rfl⟩
  | cons x rest ih =>
    obtain ⟨gc, stepped, inv₁, handed₁, payloads₁, roots₁, extension₁, finalizable₁⟩ :=
      inv.step_alloc false
    obtain ⟨m', reach', inv', handed', returned', store', payloads', roots', extension',
      finalizable'⟩ := ih (reach.step (allocAllowed m) stepped) inv₁
    refine ⟨m', reach', inv', by simp [handed', handed₁], ?_, store',
      payloads'.trans payloads₁, roots'.trans roots₁, extension'.trans extension₁,
      finalizable'.trans finalizable₁⟩
    rw [returned', List.getLast?_cons]
    cases rest.getLast? <;> rfl

end Runs

/-- A run from `gc_init`: cell `0` (finalizable) and cell `1` linked as `0 = (1 . 1)`,
`1 = (0 . 1)`, `0` pinned at `100`, and then every other cell taken, so the next allocation
collects. -/
theorem Reaches.rootedCycle : ∃ m, Reaches InPool m ∧ m.gc.nextFreeObject = none ∧
    m.gc.payloads 0 = .pair 1 1 ∧ m.gc.payloads 1 = .pair 0 1 ∧
    RootTarget m.store m.gc.rootObjects 0 ∧ m.gc.finalizableObjects.contents = [0] := by
  have allocAllowed : ∀ m, InPool m (.alloc false) := fun _ => trivial
  have inv₀ : HeapInv initMachine.gc (0 :: ([1] ++ List.range' 2 998)) [] := gcInit_heapInv
  obtain ⟨gc₀, stepped₀, inv₀, handed₀, -, roots₀, -, finalizable₀⟩ := inv₀.step_alloc true
  have reach₀ := @Reaches.step InPool _ _ (.alloc true) .init trivial stepped₀
  obtain ⟨m₁, reach₁, inv₁, handed₁, -, store₁, -, roots₁, -, finalizable₁⟩ :=
    Reaches.allocs allocAllowed [1] reach₀ inv₀
  have inPool : ∀ a ∈ [0, 1], a < m₁.gc.poolSize := fun a mem =>
    (inv₁.lists.cover a).mp (.inl (by
      simp only [List.mem_cons, List.mem_singleton, List.not_mem_nil, or_false] at mem
      rcases mem with rfl | rfl <;> simp [handed₁, handed₀]))
  have zero := inPool 0 (by simp)
  have one := inPool 1 (by simp)
  have fields₀ : ∀ b ∈ (Payload.pair 1 1).children, b < m₁.gc.poolSize := fun b mem =>
    inPool b (by simp [Payload.children] at mem; simp [mem])
  have reach₂ := @Reaches.step InPool m₁ _ (.write 0 (.pair 1 1)) reach₁ ⟨zero, fields₀⟩ rfl
  have inv₂ := inv₁.write zero fields₀
  have fields₁ : ∀ b ∈ (Payload.pair 0 1).children, b < m₁.gc.poolSize := fun b mem =>
    inPool b (by simp [Payload.children] at mem; rcases mem with rfl | rfl <;> simp)
  have reach₃ := @Reaches.step InPool _ _ (.write 1 (.pair 0 1)) reach₂ ⟨one, fields₁⟩ rfl
  have inv₃ := inv₂.write one fields₁
  have reach₄ := @Reaches.step InPool _ _ (.setLocal 100 (some 0)) reach₃
    (by rintro a ⟨⟩; exact zero) rfl
  have reach₅ := @Reaches.step InPool _ _ (.pushRoot 100) reach₄
    (by rintro a ⟨⟩; exact zero) rfl
  have inv₅ := inv₃.setRoots (pushRoot m₁.gc 100).rootObjects
  rw [← List.append_nil (List.range' 2 998)] at inv₅
  obtain ⟨m₆, reach₆, inv₆, -, -, store₆, payloads₆, roots₆, -, finalizable₆⟩ :=
    Reaches.allocs allocAllowed (List.range' 2 998) reach₅ inv₅
  refine ⟨m₆, reach₆, by simp [inv₆.nextFree], ?_, ?_, ⟨100, ?_, ?_⟩, ?_⟩
  · rw [payloads₆]
    simp [GcState.payloads, setPayload, BrianScheme.pushRoot]
  · rw [payloads₆]
    simp [GcState.payloads, setPayload, BrianScheme.pushRoot]
  · rw [roots₆]
    simp [BrianScheme.pushRoot, roots₁, roots₀, initMachine, gcInit, StackSet.contents,
      stackSetPush, makeStackSet]
  · rw [store₆]
    simp
  · rw [finalizable₆]
    simp [BrianScheme.pushRoot, finalizable₁, finalizable₀, initMachine, gcInit]

/-- Over every run, Active is the cells handed out since the last collection followed by the free
chain, and Active and Old are well formed and share out the pool, also through marking. -/
theorem heap_lists_invariant {m : Machine} (reach : Reaches InPool m) :
    ∃ free old, ListInv m.gc (handedSince m.gc.log ++ free) old ∧
      m.gc.activeHeapObjects.numObjects + m.gc.oldHeapObjects.numObjects = m.gc.poolSize ∧
      m.gc.nextFreeObject = free.head? ∧
      (∀ x, m.returned = some x → x ∈ handedSince m.gc.log) ∧
      (m.gc.nextFreeObject = none →
        ListInv (mergeHeaps (noSpace m.gc)) (handedSince m.gc.log ++ old) [] ∧
        ∀ t, Relation.ReflTransGen MarkStep (startMarking (noSpace m.gc)) t →
          ∃ active old', ListInv t active old') := by
  obtain ⟨free, old, inv⟩ := reach.machineInv
  have lists := inv.heap.lists
  refine ⟨free, old, lists, ?_, inv.heap.nextFree, reach.returned_handed, fun empty => ?_⟩
  · rw [lists.activeList.count, lists.oldList.count]
    exact lists.length_add
  · obtain rfl := inv.free_eq_nil empty
    refine ⟨mergeHeaps_listInv inv.heap.noSpace_listInv, fun t steps => ?_⟩
    obtain ⟨active, old', marking⟩ :=
      (inv.heap.marking_start inv.roots).toMarking.markSteps steps
    exact ⟨active, old', marking.lists⟩

theorem rootedCycle_heap_lists :
    ∃ m, Reaches InPool m ∧ m.gc.nextFreeObject = none ∧ m.gc.payloads 0 = .pair 1 1 ∧
    m.gc.payloads 1 = .pair 0 1 ∧ RootTarget m.store m.gc.rootObjects 0 ∧
    ∃ free old, ListInv m.gc (handedSince m.gc.log ++ free) old ∧
      m.gc.activeHeapObjects.numObjects + m.gc.oldHeapObjects.numObjects = m.gc.poolSize ∧
      m.gc.nextFreeObject = free.head? ∧
      (∀ x, m.returned = some x → x ∈ handedSince m.gc.log) ∧
      (m.gc.nextFreeObject = none →
        ListInv (mergeHeaps (noSpace m.gc)) (handedSince m.gc.log ++ old) [] ∧
        ∀ t, Relation.ReflTransGen MarkStep (startMarking (noSpace m.gc)) t →
          ∃ active old', ListInv t active old') := by
  obtain ⟨m, reach, empty, zero, one, root, -⟩ := Reaches.rootedCycle
  exact ⟨m, reach, empty, zero, one, root, heap_lists_invariant reach⟩

/-- Over every run, Old cells carry `current_color - 1` and handed cells `current_color`, mod 256;
so when a collection starts marking no cell of the pool carries the marking color, and in every
state of marking a cell `maybe_move` would move (one not of the marking color) is on Active. -/
theorem color_invariant {m : Machine} (reach : Reaches InPool m) :
    ∃ free old, ListInv m.gc (handedSince m.gc.log ++ free) old ∧
      m.gc.nextFreeObject = free.head? ∧
      (∀ a ∈ old, nextColor (m.gc.cells a).color = m.gc.currentColor) ∧
      (∀ a ∈ handedSince m.gc.log, (m.gc.cells a).color = m.gc.currentColor) ∧
      (m.gc.nextFreeObject = none →
        (∀ a < m.gc.poolSize, ((startMarking (noSpace m.gc)).cells a).color ≠
          (startMarking (noSpace m.gc)).currentColor) ∧
        ∀ t, Relation.ReflTransGen MarkStep (startMarking (noSpace m.gc)) t →
          ∃ active old', Marking t active old' ∧
            ∀ y < t.poolSize, (t.cells y).color ≠ t.currentColor → y ∈ active) := by
  obtain ⟨free, old, inv⟩ := reach.machineInv
  refine ⟨free, old, inv.heap.lists, inv.heap.nextFree, inv.heap.oldColor, inv.heap.handedColor,
    fun empty => ?_⟩
  obtain rfl := inv.free_eq_nil empty
  have start := inv.heap.marking_start inv.roots
  refine ⟨fun a lt => by simpa using inv.heap.color_window.unmarked a lt, fun t steps => ?_⟩
  obtain ⟨active, old', marking⟩ := start.toMarking.markSteps steps
  refine ⟨active, old', marking, fun y lt uncolored => ?_⟩
  rcases (marking.lists.cover y).mpr lt with mem | mem
  · exact mem
  · exact absurd ((marking.marked y lt).mpr mem) uncolored

theorem rootedCycle_colors :
    ∃ m, Reaches InPool m ∧ m.gc.nextFreeObject = none ∧ m.gc.payloads 0 = .pair 1 1 ∧
    m.gc.payloads 1 = .pair 0 1 ∧ RootTarget m.store m.gc.rootObjects 0 ∧
    ∃ free old, ListInv m.gc (handedSince m.gc.log ++ free) old ∧
      m.gc.nextFreeObject = free.head? ∧
      (∀ a ∈ old, nextColor (m.gc.cells a).color = m.gc.currentColor) ∧
      (∀ a ∈ handedSince m.gc.log, (m.gc.cells a).color = m.gc.currentColor) ∧
      (m.gc.nextFreeObject = none →
        (∀ a < m.gc.poolSize, ((startMarking (noSpace m.gc)).cells a).color ≠
          (startMarking (noSpace m.gc)).currentColor) ∧
        ∀ t, Relation.ReflTransGen MarkStep (startMarking (noSpace m.gc)) t →
          ∃ active old', Marking t active old' ∧
            ∀ y < t.poolSize, (t.cells y).color ≠ t.currentColor → y ∈ active) := by
  obtain ⟨m, reach, empty, zero, one, root, -⟩ := Reaches.rootedCycle
  exact ⟨m, reach, empty, zero, one, root, color_invariant reach⟩

/-- Over every run, Finalizable lists once each the cells allocated with `needs_finalization` and
not finalized since; a collection finalizes, once each, exactly the entries it does not reach. -/
theorem finalizers_run_once {m : Machine} (reach : Reaches InPool m) :
    m.gc.finalizableObjectsNext.contents = [] ∧
    (∀ x, PendingFinalizer m.gc.log x → m.gc.finalizableObjects.contents.count x = 1) ∧
    (∀ x ∈ m.gc.finalizableObjects.contents, PendingFinalizer m.gc.log x) ∧
    FinalizedOnce m.gc.log ∧
    (∀ nf m', m.step (.alloc nf) = some m' →
      ∃ x, m'.returned = some x ∧ (x ∈ m'.gc.finalizableObjects.contents ↔ nf = true)) ∧
    (m.gc.nextFreeObject = none →
      ∃ (s' : GcState) (freed : Nat) (finalized kept : List Nat), bakerCollect m.store (noSpace m.gc) = .ok (s', freed) ∧
        s'.log = m.gc.log ++ .noSpace :: finalized.map .finalized ∧
        s'.finalizableObjects.contents = kept ∧ finalized.Nodup ∧ kept.Nodup ∧
        (∀ x, x ∈ finalized ↔ x ∈ m.gc.finalizableObjects.contents ∧
          ¬Reachable m.gc.payloads (RootTarget m.store m.gc.rootObjects) x) ∧
        (∀ x, x ∈ kept ↔ x ∈ m.gc.finalizableObjects.contents ∧
          Reachable m.gc.payloads (RootTarget m.store m.gc.rootObjects) x)) := by
  obtain ⟨free, old, inv⟩ := reach.machineInv
  have heap := inv.heap
  refine ⟨heap.finalizableNext,
    fun x pending => List.count_eq_one_of_mem heap.finalizableNodup ((heap.finalizable x).mpr pending),
    fun x mem => (heap.finalizable x).mp mem, heap.finalizedOnce,
    fun nf m' stepped => (inv.alloc_returned stepped).imp fun _ ⟨returned, _, registers⟩ =>
      ⟨returned, registers⟩, fun empty => ?_⟩
  obtain rfl := inv.free_eq_nil empty
  obtain ⟨s', A', O', run, col, -, heap'⟩ := heap.bakerCollect inv.roots
  have inPool : ∀ x ∈ m.gc.finalizableObjects.contents, x < m.gc.poolSize := fun x mem =>
    (heap.lists.cover x).mp (by simpa using heap.finalizableHeld x mem)
  have reached : ∀ x ∈ m.gc.finalizableObjects.contents,
      (s'.cells x).color = nextColor m.gc.currentColor ↔
        Reachable m.gc.payloads (RootTarget m.store m.gc.rootObjects) x := fun x mem =>
    (col.marked_iff heap.color_window.unmarked (inPool x mem)).trans (col.reached x)
  refine ⟨s', _, m.gc.finalizableObjects.contents.filter
    (fun o => (s'.cells o).color ≠ nextColor m.gc.currentColor), _, run,
    by rw [col.log]; simp [noSpace], rfl,
    heap.finalizableNodup.filter _, heap'.finalizableNodup, fun x => ?_, fun x => ?_⟩
  · rw [List.mem_filter, decide_eq_true_eq]
    exact and_congr_right fun mem => not_congr (reached x mem)
  · rw [col.finalizableObjects]
    simp only [noSpace, heap.finalizableNext, List.nil_append, List.mem_filter, decide_eq_true_eq]
    exact and_congr_right fun mem => reached x mem

theorem rootedCycle_finalizers :
    ∃ m, Reaches InPool m ∧ m.gc.nextFreeObject = none ∧ m.gc.payloads 0 = .pair 1 1 ∧
    m.gc.payloads 1 = .pair 0 1 ∧ RootTarget m.store m.gc.rootObjects 0 ∧
    m.gc.finalizableObjects.contents = [0] ∧ m.gc.finalizableObjectsNext.contents = [] ∧
    (∀ x, PendingFinalizer m.gc.log x → m.gc.finalizableObjects.contents.count x = 1) ∧
    (∀ x ∈ m.gc.finalizableObjects.contents, PendingFinalizer m.gc.log x) ∧
    FinalizedOnce m.gc.log ∧
    (∀ nf m', m.step (.alloc nf) = some m' →
      ∃ x, m'.returned = some x ∧ (x ∈ m'.gc.finalizableObjects.contents ↔ nf = true)) ∧
    (m.gc.nextFreeObject = none →
      ∃ (s' : GcState) (freed : Nat) (finalized kept : List Nat), bakerCollect m.store (noSpace m.gc) = .ok (s', freed) ∧
        s'.log = m.gc.log ++ .noSpace :: finalized.map .finalized ∧
        s'.finalizableObjects.contents = kept ∧ finalized.Nodup ∧ kept.Nodup ∧
        (∀ x, x ∈ finalized ↔ x ∈ m.gc.finalizableObjects.contents ∧
          ¬Reachable m.gc.payloads (RootTarget m.store m.gc.rootObjects) x) ∧
        (∀ x, x ∈ kept ↔ x ∈ m.gc.finalizableObjects.contents ∧
          Reachable m.gc.payloads (RootTarget m.store m.gc.rootObjects) x)) := by
  obtain ⟨m, reach, empty, zero, one, root, finalizable⟩ := Reaches.rootedCycle
  exact ⟨m, reach, empty, zero, one, root, finalizable, finalizers_run_once reach⟩

/-- Over every run, `alloc_object` never reaches `throw_gc("extend_heap didn't work")`: it hands
out the head of the free chain, after a collection (and an extension) when the chain was empty. -/
theorem alloc_object_succeeds {m : Machine} (reach : Reaches InPool m) (nf : Bool) :
    ∃ s' x, allocObject m.store m.gc nf = .ok (s', x) ∧
      (m.gc.nextFreeObject ≠ none → m.gc.nextFreeObject = some x) ∧
      (m.gc.nextFreeObject = none → ∃ collected freed,
        bakerCollect m.store (noSpace m.gc) = .ok (collected, freed) ∧
        (if freed = 0 ∨ collected.nextHeapExtension / freed > 2 then some collected.poolSize
          else collected.nextFreeObject) = some x ∧
        s'.poolSize = collected.poolSize +
          if freed = 0 ∨ collected.nextHeapExtension / freed > 2 then collected.nextHeapExtension
          else 0) ∧
      (s'.cells x).color = s'.currentColor ∧ s'.nextFreeObject = (s'.cells x).next ∧
      x ∉ followNext s'.cells s'.poolSize s'.nextFreeObject := by
  obtain ⟨free, old, inv⟩ := reach.machineInv
  rcases free with _ | ⟨y, rest⟩
  · have empty : m.gc.nextFreeObject = none := by simpa using inv.heap.nextFree
    obtain ⟨collected, A', -, run, -⟩ := inv.heap.bakerCollect inv.roots
    obtain ⟨ready, x, rest, old', readyRun, readyInv, -⟩ := inv.heap.collectAndExtend inv.roots
    obtain rfl := Except.ok.inj ((collectAndExtend_eq run).symm.trans readyRun)
    obtain ⟨s', handed, pool, color, next, off⟩ := readyInv.handOut_spec nf
    refine ⟨s', x, ?_, fun ne => absurd empty ne, fun _ => ⟨collected, A'.length, run, ?_, ?_⟩,
      color, next, off⟩
    · simp only [BrianScheme.allocObject, empty, if_true, readyRun, bind, Except.bind]
      exact handed
    · have head := readyInv.nextFree
      split_ifs at head ⊢ <;> simpa using head
    · rw [pool]
      split_ifs <;> simp
  · have next : m.gc.nextFreeObject = some y := inv.heap.nextFree
    obtain ⟨s', handed, -, color, next', off⟩ := inv.heap.handOut_spec nf
    refine ⟨s', y, ?_, fun _ => next, fun empty => absurd next (by simp [empty]), color, next', off⟩
    rw [allocObject_of_nextFree next]
    exact handed

theorem rootedCycle_alloc_succeeds :
    ∃ m, Reaches InPool m ∧ m.gc.nextFreeObject = none ∧ m.gc.payloads 0 = .pair 1 1 ∧
    m.gc.payloads 1 = .pair 0 1 ∧ RootTarget m.store m.gc.rootObjects 0 ∧
    ∃ s' x, allocObject m.store m.gc false = .ok (s', x) ∧
      (m.gc.nextFreeObject ≠ none → m.gc.nextFreeObject = some x) ∧
      (m.gc.nextFreeObject = none → ∃ collected freed,
        bakerCollect m.store (noSpace m.gc) = .ok (collected, freed) ∧
        (if freed = 0 ∨ collected.nextHeapExtension / freed > 2 then some collected.poolSize
          else collected.nextFreeObject) = some x ∧
        s'.poolSize = collected.poolSize +
          if freed = 0 ∨ collected.nextHeapExtension / freed > 2 then collected.nextHeapExtension
          else 0) ∧
      (s'.cells x).color = s'.currentColor ∧ s'.nextFreeObject = (s'.cells x).next ∧
      x ∉ followNext s'.cells s'.poolSize s'.nextFreeObject := by
  obtain ⟨m, reach, empty, zero, one, root, -⟩ := Reaches.rootedCycle
  exact ⟨m, reach, empty, zero, one, root, alloc_object_succeeds reach false⟩

section Growth

variable {store : Nat → Option Nat}

/-- The heap-growth law of `alloc_object`: once the heap has been extended `k` times after
`gc_init`, `Next_Heap_Extension` is `1000 · 3^k`, and twice the pool is the first extension plus
the next one, so the pool holds `500 · (3^k + 1)` cells. -/
def GrowthLaw (s : GcState) : Prop :=
  (∃ k, s.nextHeapExtension = initialHeapExtension * 3 ^ k) ∧
    2 * s.poolSize = initialHeapExtension + s.nextHeapExtension

theorem gcInit_growthLaw : GrowthLaw gcInit := ⟨⟨0, rfl⟩, rfl⟩

/-- The branch of `alloc_object` that collects: `baker_collect` leaves the pool and
`Next_Heap_Extension`, and `extend_heap(Next_Heap_Extension)` adds that many cells before
`Next_Heap_Extension *= 3`. -/
theorem GrowthLaw.collectAndExtend {s ready : GcState} (law : GrowthLaw s)
    (run : collectAndExtend store s = .ok ready) : GrowthLaw ready := by
  obtain ⟨⟨collected, freed⟩, collectedRun, -⟩ := except_bind_eq_ok.mp run
  obtain ⟨-, -, pool, next⟩ := bakerCollect_frame collectedRun
  obtain ⟨⟨k, power⟩, sum⟩ := law
  rw [collectAndExtend_eq collectedRun] at run
  split_ifs at run
  · cases run
    refine ⟨⟨k + 1, ?_⟩, ?_⟩
    · show collected.nextHeapExtension * 3 = _
      rw [next, power, Nat.pow_succ, Nat.mul_assoc]
    · show 2 * (extendHeap collected collected.nextHeapExtension).poolSize =
        initialHeapExtension + collected.nextHeapExtension * 3
      rw [extendHeap_poolSize, pool, next]
      omega
  · cases run
    exact ⟨⟨k, next.trans power⟩, by rw [pool, next]; exact sum⟩

theorem GrowthLaw.allocObject {s s' : GcState} {nf : Bool} {x : Nat} (law : GrowthLaw s)
    (run : allocObject store s nf = .ok (s', x)) : GrowthLaw s' := by
  simp only [BrianScheme.allocObject] at run
  split at run
  · obtain ⟨ready, readyRun, handed⟩ := except_bind_eq_ok.mp run
    obtain ⟨-, -, pool, next⟩ := handOut_frame handed
    rw [GrowthLaw, pool, next]
    exact (show GrowthLaw (noSpace s) from law).collectAndExtend readyRun
  · obtain ⟨-, -, pool, next⟩ := handOut_frame run
    rw [GrowthLaw, pool, next]
    exact law

theorem GrowthLaw.step {m m' : Machine} {event : Event} (law : GrowthLaw m.gc)
    (stepped : m.step event = some m') : GrowthLaw m'.gc := by
  cases event with
  | alloc nf =>
    obtain ⟨gc, obj, run, rfl⟩ := step_alloc stepped
    exact law.allocObject run
  | popRoot root =>
    obtain ⟨gc, popped, rfl⟩ := step_popRoot stepped
    obtain ⟨shape, -⟩ := popRoot_ok popped
    rw [shape]
    exact law
  | pushRoot root | setLocal root value | write obj payload =>
    cases stepped
    exact law

/-- Whatever a program does from `gc_init`, the pool and `Next_Heap_Extension` follow the
growth law. -/
theorem pool_grows_geometrically {allowed : Machine → Event → Prop} {m : Machine}
    (reach : Reaches allowed m) : GrowthLaw m.gc := by
  induction reach with
  | init => exact gcInit_growthLaw
  | step _ _ stepped law => exact law.step stepped

/-- Writes that link the cells below `n` into a chain, `i = (i+1 . i+1)`, and change nothing
else. -/
theorem Reaches.chain {m : Machine} (reach : Reaches InPool m) :
    ∀ n, n < m.gc.poolSize → ∃ m', Reaches InPool m' ∧ m'.store = m.store ∧
      m'.gc.rootObjects = m.gc.rootObjects ∧ m'.gc.poolSize = m.gc.poolSize ∧
      m'.gc.nextFreeObject = m.gc.nextFreeObject ∧
      ∀ i < n, m'.gc.payloads i = .pair (i + 1) (i + 1)
  | 0, _ => ⟨m, reach, rfl, rfl, rfl, rfl, fun _ below => absurd below (Nat.not_lt_zero _)⟩
  | n + 1, inside => by
    obtain ⟨m', reach', store, roots, pool, next, linked⟩ := Reaches.chain reach n (by omega)
    have children : ∀ b ∈ (Payload.pair (n + 1) (n + 1)).children, b < m'.gc.poolSize := by
      simp only [Payload.children, List.mem_cons, List.mem_singleton, List.not_mem_nil, or_false,
        or_self, forall_eq]
      omega
    refine ⟨_, @Reaches.step InPool m' _ (.write n (.pair (n + 1) (n + 1))) reach'
      ⟨by omega, children⟩ rfl, store, roots, pool, next, fun i below => ?_⟩
    by_cases same : i = n
    · subst same
      simp [GcState.payloads]
    · simpa [GcState.payloads, same] using linked i (by omega)

/-- A run from `gc_init` that takes all the cells, links them into one chain from cell `0` and
pins `0`: every cell is reachable, the collection frees none, and `alloc_object` extends the
heap. -/
theorem Reaches.poolExtended : ∃ m, Reaches InPool m ∧ initialHeapExtension < m.gc.poolSize := by
  have allocAllowed : ∀ m, InPool m (.alloc false) := fun _ => trivial
  have inv₀ : HeapInv initMachine.gc (List.range' 0 1000 ++ []) [] := by
    rw [List.append_nil]
    exact gcInit_heapInv
  obtain ⟨m₁, reach₁, inv₁, handed₁, -⟩ :=
    Reaches.allocs allocAllowed (List.range' 0 1000) Reaches.init inv₀
  have cover : ∀ a, a < 1000 ↔ a < m₁.gc.poolSize := fun a => by
    have cover := inv₁.lists.cover a
    rw [handed₁] at cover
    simpa [initMachine, gcInit, handedSince] using cover
  have pool₁ : m₁.gc.poolSize = 1000 := by
    have below := (cover 999).mp (by omega)
    have above := mt (cover 1000).mpr (by omega)
    omega
  obtain ⟨m₂, reach₂, -, -, pool₂, next₂, linked⟩ := Reaches.chain reach₁ 999 (by omega)
  have zero : 0 < m₂.gc.poolSize := by omega
  have reach₃ := @Reaches.step InPool _ _ (.setLocal 100 (some 0)) reach₂
    (by rintro a ⟨⟩; exact zero) rfl
  have reach₄ := @Reaches.step InPool _ _ (.pushRoot 100) reach₃ (by rintro a ⟨⟩; exact zero) rfl
  obtain ⟨m₄, reach₄, next₄, pool₄, linked₄, root₄⟩ : ∃ m₄, Reaches InPool m₄ ∧
      m₄.gc.nextFreeObject = none ∧ m₄.gc.poolSize = 1000 ∧
      (∀ i < 999, m₄.gc.payloads i = .pair (i + 1) (i + 1)) ∧
      RootTarget m₄.store m₄.gc.rootObjects 0 :=
    ⟨_, reach₄, next₂.trans inv₁.nextFree, pool₂.trans pool₁, linked,
      100, by simp [BrianScheme.pushRoot], by simp⟩
  have reached : ∀ a < 1000, Reachable m₄.gc.payloads (RootTarget m₄.store m₄.gc.rootObjects) a := by
    intro a below
    induction a with
    | zero => exact .target root₄
    | succ a ih => exact .child (ih (by omega)) (by simp [linked₄ a (by omega), Payload.children])
  obtain ⟨free, old, inv⟩ := reach₄.machineInv
  obtain rfl := inv.free_eq_nil next₄
  obtain ⟨s', x, free', old', run, inv', handed, -, -, -, -, collected⟩ :=
    inv.heap.allocObject inv.roots false
  obtain ⟨-, reachedOld⟩ := collected.resolve_left fun ⟨nil, _⟩ => nomatch nil
  have active : x ∈ handedSince s'.log ++ free' := List.mem_append_left _ handed
  have notOld : x ∉ old' := fun old => inv'.lists.disjoint active old
  have beyond : 1000 ≤ x := by
    by_contra small
    exact notOld ((reachedOld x).mpr (reached x (by omega)))
  have inPool : x < s'.poolSize := (inv'.lists.cover x).mp (.inl active)
  have stepped : m₄.step (.alloc false) =
      some { m₄ with gc := s', returned := some x, fresh := some x } := by
    simp only [Machine.step, run]
  exact ⟨_, reach₄.step (allocAllowed m₄) stepped, show 1000 < s'.poolSize by omega⟩

/-- The witness run extends the heap once: the pool is `INITIAL_HEAP_EXTENSION * 2` and
`Next_Heap_Extension` is three times its first value. -/
theorem poolExtended_grows : ∃ m, Reaches InPool m ∧ initialHeapExtension < m.gc.poolSize ∧
    GrowthLaw m.gc := by
  obtain ⟨m, reach, grown⟩ := Reaches.poolExtended
  exact ⟨m, reach, grown, pool_grows_geometrically reach⟩

end Growth

end BrianScheme
