import BrianScheme.HeapList
import BrianScheme.StackSet

/-! The collector's global state and the operations of `gc.c` that do not collect:
`extend_heap`, `gc_init`, `push_root` and `pop_root`. -/

namespace BrianScheme

/-- What the run of the collector shows to an observer: each result of `alloc_object`,
each call of `finalize_object`, and each collection `alloc_object` starts (its
"no space. trying baker-collect" line). -/
inductive GcLog where
  | allocated (obj : Nat) (needsFinalization : Bool)
  | finalized (obj : Nat)
  | noSpace
  deriving DecidableEq, Repr

/-- Exits of the collector: `throw_gc` and the fuel of the scan loop running out. -/
inductive GcFault where
  | fatal (code : Nat) (message : String)
  | scanDiverged
  deriving DecidableEq, Repr

/-- The globals of `gc.c`. `poolSize` counts the cells `extend_heap` has taken from the
pool; they are the cells `0 .. poolSize`. Roots holds the addresses of native `object *`
variables, numbered like the cells. -/
structure GcState where
  cells : Cells
  poolSize : Nat
  activeHeapObjects : DoublyLinkedList
  oldHeapObjects : DoublyLinkedList
  nextFreeObject : Option Nat
  rootObjects : StackSet Nat
  finalizableObjects : StackSet Nat
  finalizableObjectsNext : StackSet Nat
  currentColor : Nat
  nextHeapExtension : Nat
  log : List GcLog

/-- `++current_color` on the 8-bit `char`. -/
def nextColor (color : Nat) : Nat := (color + 1) % 256

/-- `extend_heap(extension)`. The cells of `MALLOC` get the color and links the source writes:
`new_heap[0]` and the loop over `1 .. extension - 2` give the chain below; the last cell is
then pointed at the old head (and, for `extension = 1`, its `prev` at `&new_heap[-1]`). -/
def extendHeap (s : GcState) (extension : Nat) : GcState :=
  let base := s.poolSize
  let last := base + (extension - 1)
  let chain : Cells := fun a =>
    if base ≤ a ∧ a < base + extension then
      ⟨.uninitialized, s.currentColor, if a = base then none else some (a - 1), some (a + 1)⟩
    else s.cells a
  let cells := setPrev (setNext chain last s.activeHeapObjects.head) last (some (last - 1))
  match s.activeHeapObjects.head with
  | some h =>
    { s with cells := setPrev cells h (some last), poolSize := base + extension,
             activeHeapObjects := ⟨some base, s.activeHeapObjects.tail,
               s.activeHeapObjects.numObjects + extension⟩,
             nextFreeObject := some base }
  | none =>
    { s with cells := cells, poolSize := base + extension,
             activeHeapObjects := ⟨some base, some last, s.activeHeapObjects.numObjects + extension⟩,
             nextFreeObject := some base }

/-- `Next_Heap_Extension`'s initial value, also the size `gc_init` extends by. -/
def initialHeapExtension : Nat := 1000

/-- `gc_init`: empty lists, three stacks of 400 entries, and a first extension. -/
def gcInit : GcState :=
  let empty : GcState :=
    { cells := fun _ => ⟨.uninitialized, 0, none, none⟩, poolSize := 0,
      activeHeapObjects := DoublyLinkedList.empty, oldHeapObjects := DoublyLinkedList.empty,
      nextFreeObject := none, rootObjects := makeStackSet 400,
      finalizableObjects := makeStackSet 400, finalizableObjectsNext := makeStackSet 400,
      currentColor := 0, nextHeapExtension := initialHeapExtension, log := [] }
  let extended := extendHeap empty initialHeapExtension
  { extended with nextFreeObject := extended.activeHeapObjects.head }

def pushRoot (s : GcState) (root : Nat) : GcState :=
  { s with rootObjects := stackSetPush s.rootObjects root }

/-- `pop_root`; a missing entry is `throw_gc`'s exit 2, and popping an empty Roots is the
out-of-bounds read `stackSetPop` reports as `none`. -/
def popRoot (s : GcState) (root : Nat) : Option (Except GcFault GcState) :=
  (stackSetPop s.rootObjects root).map fun popped =>
    if popped.1 then .ok { s with rootObjects := popped.2 }
    else .error (.fatal 2 "pop_stack_root - object not found\n")

theorem popRoot_spec (s : GcState) (root : Nat) :
    s.rootObjects.contents = [] ∧ popRoot s root = none ∨
      s.rootObjects.contents ≠ [] ∧ ∃ roots : StackSet Nat,
        roots.contents = (popList root s.rootObjects.contents).2 ∧
        popRoot s root = some (if (popList root s.rootObjects.contents).1
          then .ok { s with rootObjects := roots }
          else .error (.fatal 2 "pop_stack_root - object not found\n")) := by
  by_cases empty : s.rootObjects.top = 0
  · exact .inl ⟨by simp [StackSet.contents, empty], by simp [popRoot, stackSetPop_eq_none.mpr empty]⟩
  · obtain ⟨roots, popped, contents, -, -⟩ := stackSetPop_spec s.rootObjects root empty
    exact .inr ⟨by simpa [StackSet.contents] using empty, roots, contents, by simp [popRoot, popped]⟩

section Range

theorem nextIn_range' {base n a : Nat} (lower : base ≤ a) (upper : a < base + n) :
    nextIn (List.range' base n) a = if a + 1 < base + n then some (a + 1) else none := by
  induction n generalizing base with
  | zero => omega
  | succ n ih =>
    rw [List.range'_succ]
    by_cases h : base = a
    · subst h; cases n <;> simp [nextIn, List.range'_succ]
    · have := @ih (base + 1) (by omega) (by omega)
      rw [show base + 1 + n = base + (n + 1) by omega] at this
      simp only [nextIn, h, if_false, this]

theorem prevIn_range' {base n a : Nat} (lower : base ≤ a) (upper : a < base + n) :
    prevIn (List.range' base n) a = if a = base then none else some (a - 1) := by
  induction n generalizing base with
  | zero => omega
  | succ n ih =>
    rw [List.range'_succ, prevIn_cons]
    by_cases h : a = base
    · subst h; simp
    · have inner : a ∈ List.range' (base + 1) n := List.mem_range'_1.mpr ⟨by omega, by omega⟩
      rw [if_pos inner, ih (by omega) (by omega)]
      by_cases h' : a = base + 1 <;> simp [h, h']

end Range

section ExtendHeap

variable (s : GcState) (extension a : Nat)

theorem extendHeap_next :
    ((extendHeap s extension).cells a).next =
      if a = s.poolSize + (extension - 1) then s.activeHeapObjects.head
      else if s.poolSize ≤ a ∧ a < s.poolSize + extension then some (a + 1)
      else (s.cells a).next := by
  unfold extendHeap
  split <;> simp only [setPrev_next, setNext_next] <;> split_ifs <;> simp_all

theorem extendHeap_prev :
    ((extendHeap s extension).cells a).prev =
      if s.activeHeapObjects.head = some a then some (s.poolSize + (extension - 1))
      else if a = s.poolSize + (extension - 1) then some (s.poolSize + (extension - 1) - 1)
      else if s.poolSize ≤ a ∧ a < s.poolSize + extension then
        (if a = s.poolSize then none else some (a - 1))
      else (s.cells a).prev := by
  unfold extendHeap
  split
  · rename_i h head
    simp only [setPrev_prev, setNext_prev, head, Option.some.injEq]
    by_cases ha : a = h
    · subst ha; simp
    · simp only [ha, if_false, Ne.symm ha]
      split_ifs <;> rfl
  · rename_i head
    simp only [setPrev_prev, setNext_prev, head, reduceCtorEq, if_false]
    split_ifs <;> simp_all

@[simp] theorem extendHeap_color :
    ((extendHeap s extension).cells a).color =
      if s.poolSize ≤ a ∧ a < s.poolSize + extension then s.currentColor
      else (s.cells a).color := by
  unfold extendHeap
  split <;> simp only [setPrev_color, setNext_color] <;> split <;> rfl

@[simp] theorem extendHeap_payload :
    ((extendHeap s extension).cells a).payload =
      if s.poolSize ≤ a ∧ a < s.poolSize + extension then .uninitialized
      else (s.cells a).payload := by
  unfold extendHeap
  split <;> simp only [setPrev_payload, setNext_payload] <;> split <;> rfl

@[simp] theorem extendHeap_activeHeapObjects :
    (extendHeap s extension).activeHeapObjects =
      ⟨some s.poolSize,
        if s.activeHeapObjects.head = none then some (s.poolSize + (extension - 1))
        else s.activeHeapObjects.tail,
        s.activeHeapObjects.numObjects + extension⟩ := by
  unfold extendHeap; split <;> simp_all

@[simp] theorem extendHeap_poolSize : (extendHeap s extension).poolSize = s.poolSize + extension := by
  unfold extendHeap; split <;> rfl

@[simp] theorem extendHeap_nextFreeObject :
    (extendHeap s extension).nextFreeObject = some s.poolSize := by
  unfold extendHeap; split <;> rfl

@[simp] theorem extendHeap_oldHeapObjects :
    (extendHeap s extension).oldHeapObjects = s.oldHeapObjects := by
  unfold extendHeap; split <;> rfl

@[simp] theorem extendHeap_rootObjects : (extendHeap s extension).rootObjects = s.rootObjects := by
  unfold extendHeap; split <;> rfl

@[simp] theorem extendHeap_finalizableObjects :
    (extendHeap s extension).finalizableObjects = s.finalizableObjects := by
  unfold extendHeap; split <;> rfl

@[simp] theorem extendHeap_finalizableObjectsNext :
    (extendHeap s extension).finalizableObjectsNext = s.finalizableObjectsNext := by
  unfold extendHeap; split <;> rfl

@[simp] theorem extendHeap_currentColor : (extendHeap s extension).currentColor = s.currentColor := by
  unfold extendHeap; split <;> rfl

@[simp] theorem extendHeap_nextHeapExtension :
    (extendHeap s extension).nextHeapExtension = s.nextHeapExtension := by
  unfold extendHeap; split <;> rfl

@[simp] theorem extendHeap_log : (extendHeap s extension).log = s.log := by
  unfold extendHeap; split <;> rfl

end ExtendHeap

theorem extendHeap_represents {s : GcState} {nodes : List Nat} {extension : Nat}
    (represents : Represents s.cells s.activeHeapObjects nodes)
    (older : ∀ a ∈ nodes, a < s.poolSize) (several : 2 ≤ extension) :
    Represents (extendHeap s extension).cells (extendHeap s extension).activeHeapObjects
      (List.range' s.poolSize extension ++ nodes) := by
  obtain ⟨k, rfl⟩ : ∃ k, extension = k + 2 := ⟨extension - 2, by omega⟩
  have fresh : ∀ {a}, a ∈ List.range' s.poolSize (k + 2) ↔ s.poolSize ≤ a ∧ a < s.poolSize + (k + 2) :=
    List.mem_range'_1
  have notFresh : ∀ a ∈ nodes, a ∉ List.range' s.poolSize (k + 2) := fun a mem inside => by
    rw [fresh] at inside; have := older a mem; omega
  have lastFresh : (List.range' s.poolSize (k + 2)).getLast? = some (s.poolSize + (k + 2 - 1)) := by
    rw [List.getLast?_eq_some_iff]
    exact ⟨List.range' s.poolSize (k + 1), by rw [List.range'_concat, Nat.one_mul]; rfl⟩
  rw [extendHeap_activeHeapObjects]
  refine ⟨?_, ?_, ?_, ?_, ?_, ?_⟩
  · simp [List.range'_succ]
  · rw [List.getLast?_append]
    by_cases empty : nodes = []
    · simp [represents.head, empty, lastFresh]
    · have : s.activeHeapObjects.head ≠ none := by
        rw [represents.head]; simpa [List.head?_eq_none_iff] using empty
      obtain ⟨z, hz⟩ := Option.ne_none_iff_exists'.mp (mt List.getLast?_eq_none_iff.mp empty)
      simp [this, represents.tail, hz]
  · simp [represents.count, Nat.add_comm]
  · intro a inside
    rw [extendHeap_next, nextIn_append]
    rcases List.mem_append.mp inside with mem | mem
    · have range := fresh.mp mem
      rw [if_pos mem, nextIn_range' range.1 range.2, represents.head]
      split_ifs <;> first | rfl | omega
    · have out := notFresh a mem
      have ne : a ≠ s.poolSize + (k + 2 - 1) := by
        rintro rfl; exact out (fresh.mpr ⟨by omega, by omega⟩)
      rw [if_neg out, if_neg ne, if_neg (fresh.not.mp out), represents.next a mem]
  · intro a inside
    rw [extendHeap_prev, prevIn_append, represents.head]
    rcases List.mem_append.mp inside with mem | mem
    · have range := fresh.mp mem
      have notHead : nodes.head? ≠ some a := fun first =>
        notFresh a (List.mem_of_mem_head? first) mem
      have notOld : a ∉ nodes := fun old => notFresh a old mem
      rw [if_neg notHead, if_neg notOld, prevIn_range' range.1 range.2]
      split_ifs <;> first | rfl | omega | (congr 1; omega)
    · have out := notFresh a mem
      have ne : a ≠ s.poolSize + (k + 2 - 1) := by
        rintro rfl; exact out (fresh.mpr ⟨by omega, by omega⟩)
      rw [if_pos mem, represents.prev a mem, lastFresh]
      by_cases first : nodes.head? = some a
      · simp [first, (prevIn_eq_none_iff represents.nodup mem).mpr first]
      · obtain ⟨p, hp⟩ := Option.ne_none_iff_exists'.mp
          (mt (prevIn_eq_none_iff represents.nodup mem).mp first)
        have outRange := fresh.not.mp out
        simp only [first, if_false, hp]
        split_ifs <;> first | rfl | omega
  · exact List.nodup_append.mpr ⟨List.nodup_range' _ _, represents.nodup,
      fun a inRange inNodes => notFresh a inNodes inRange⟩

/-- `extend_heap(1)` overwrites the `prev = NULL` it gave `new_heap[0]` with `&new_heap[-1]`:
Active's head then has a predecessor, and Active describes no list at all. -/
theorem extendHeap_one_malformed (s : GcState) (nodes : List Nat) :
    ¬ Represents (extendHeap s 1).cells (extendHeap s 1).activeHeapObjects nodes := by
  intro represents
  have head : nodes.head? = some s.poolSize := by rw [← represents.head]; simp
  have mem : s.poolSize ∈ nodes := List.mem_of_mem_head? head
  have first := represents.prev _ mem
  rw [(prevIn_eq_none_iff represents.nodup mem).mpr head, extendHeap_prev] at first
  split_ifs at first <;> omega

/-- On an empty Roots, `pop_root` does not reach its `throw_gc`: `stack_set_pop` decrements
`top` and reads `objs[-1]` before it compares anything. -/
theorem popRoot_of_empty_roots (s : GcState) (root : Nat) (empty : s.rootObjects.top = 0) :
    popRoot s root = none := by
  simp [popRoot, stackSetPop_eq_none.mpr empty]

theorem gcInit_popRoot_reads_below : gcInit.rootObjects.top = 0 ∧ popRoot gcInit 0 = none :=
  ⟨rfl, popRoot_of_empty_roots gcInit 0 rfl⟩

end BrianScheme
