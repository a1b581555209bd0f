import BrianScheme.Object
import Mathlib.Data.List.Nodup

/-! The Active and Old lists of `gc.c`: the `doubly_linked_list` header, the primitives
`move_object_to_head` and `append_to_tail`, and the representation of a header and the
cells' links by an abstract list of cells, head first. -/

namespace BrianScheme

/-- The cell after the first occurrence of `x` in `nodes`. -/
def nextIn : List Nat → Nat → Option Nat
  | [], _ => none
  | a :: rest, x => if a = x then rest.head? else nextIn rest x

/-- The cell before `x` in `nodes`. -/
def prevIn (nodes : List Nat) (x : Nat) : Option Nat := nextIn nodes.reverse x

theorem nextIn_of_not_mem {nodes : List Nat} {x : Nat} (absent : x ∉ nodes) :
    nextIn nodes x = none := by
  induction nodes with
  | nil => rfl
  | cons a rest ih =>
    simp only [List.mem_cons, not_or] at absent
    simp [nextIn, Ne.symm absent.1, ih absent.2]

theorem mem_of_nextIn {nodes : List Nat} {x y : Nat} (found : nextIn nodes x = some y) :
    y ∈ nodes := by
  induction nodes with
  | nil => cases found
  | cons a rest ih =>
    simp only [nextIn] at found
    split at found
    · cases rest <;> simp_all
    · exact List.mem_cons_of_mem _ (ih found)

theorem mem_of_prevIn {nodes : List Nat} {x y : Nat} (found : prevIn nodes x = some y) :
    y ∈ nodes :=
  List.mem_reverse.mp (mem_of_nextIn found)

theorem nextIn_append (l1 l2 : List Nat) (x : Nat) :
    nextIn (l1 ++ l2) x = if x ∈ l1 then (nextIn l1 x).or l2.head? else nextIn l2 x := by
  induction l1 with
  | nil => simp [nextIn]
  | cons a rest ih =>
    by_cases h : a = x
    · subst h; simp [nextIn]
    · simp [nextIn, h, ih, Ne.symm h]

theorem prevIn_append (l1 l2 : List Nat) (x : Nat) :
    prevIn (l1 ++ l2) x = if x ∈ l2 then (prevIn l2 x).or l1.getLast? else prevIn l1 x := by
  simp [prevIn, nextIn_append]

theorem prevIn_cons (a : Nat) (rest : List Nat) (x : Nat) :
    prevIn (a :: rest) x = if x ∈ rest then (prevIn rest x).or (some a) else none := by
  have single : prevIn [a] x = none := by simp [prevIn, nextIn]
  simpa [single] using prevIn_append [a] rest x

theorem nextIn_eq_none_iff {nodes : List Nat} (distinct : nodes.Nodup) {x : Nat}
    (present : x ∈ nodes) : nextIn nodes x = none ↔ nodes.getLast? = some x := by
  induction nodes with
  | nil => cases present
  | cons a rest ih =>
    rw [List.nodup_cons] at distinct
    by_cases h : a = x
    · subst h
      cases rest with
      | nil => simp [nextIn]
      | cons b tail =>
        simp only [nextIn, if_true, List.head?_cons, reduceCtorEq, false_iff]
        intro last
        exact distinct.1 (List.mem_of_getLast?_eq_some (by simpa using last))
    · have inner : x ∈ rest := by simpa [Ne.symm h] using present
      cases rest with
      | nil => cases inner
      | cons b tail => simpa [nextIn, h] using ih distinct.2 inner

theorem prevIn_eq_none_iff {nodes : List Nat} (distinct : nodes.Nodup) {x : Nat}
    (present : x ∈ nodes) : prevIn nodes x = none ↔ nodes.head? = some x := by
  simpa [prevIn] using nextIn_eq_none_iff (List.nodup_reverse.mpr distinct)
    (List.mem_reverse.mpr present)

theorem nextIn_eq_some_iff {nodes : List Nat} (distinct : nodes.Nodup) {x y : Nat} :
    nextIn nodes x = some y ↔ [x, y] <:+: nodes := by
  induction nodes with
  | nil => simp [nextIn]
  | cons a rest ih =>
    rw [List.nodup_cons] at distinct
    rw [List.infix_cons_iff]
    by_cases h : a = x
    · subst h
      have notInner : ¬ [a, y] <:+: rest := fun inner =>
        distinct.1 (inner.subset (List.mem_cons_self _ _))
      cases rest <;> simp [nextIn, notInner, eq_comm]
    · simp [nextIn, h, ih distinct.2, Ne.symm h]

theorem prevIn_eq_some_iff {nodes : List Nat} (distinct : nodes.Nodup) {x y : Nat} :
    prevIn nodes y = some x ↔ nextIn nodes x = some y := by
  rw [prevIn, nextIn_eq_some_iff (List.nodup_reverse.mpr distinct),
    nextIn_eq_some_iff distinct, ← List.reverse_infix]
  simp

theorem head?_erase (nodes : List Nat) (x : Nat) :
    (nodes.erase x).head? = if nodes.head? = some x then nodes.tail.head? else nodes.head? := by
  cases nodes with
  | nil => rfl
  | cons a rest => by_cases h : a = x <;> simp [List.erase_cons, h]

theorem nextIn_erase {nodes : List Nat} (distinct : nodes.Nodup) {x y : Nat} (ne : y ≠ x) :
    nextIn (nodes.erase x) y = if nextIn nodes y = some x then nextIn nodes x else nextIn nodes y := by
  induction nodes with
  | nil => rfl
  | cons a rest ih =>
    rw [List.nodup_cons] at distinct
    by_cases hx : a = x
    · subst hx
      have never : nextIn rest y ≠ some a := fun found => distinct.1 (mem_of_nextIn found)
      simp [nextIn, Ne.symm ne, never]
    · have keep : (a :: rest).erase x = a :: rest.erase x := by simp [List.erase_cons, hx]
      rw [keep]
      by_cases hy : a = y
      · subst hy
        cases rest with
        | nil => simp [nextIn]
        | cons b tail =>
          by_cases hb : b = x
          · subst hb; simp [nextIn, hx]
          · simp [nextIn, hb, hx, List.erase_cons]
      · simp only [nextIn, hy, hx, if_false, ih distinct.2]

theorem reverse_erase {nodes : List Nat} (distinct : nodes.Nodup) (x : Nat) :
    (nodes.erase x).reverse = nodes.reverse.erase x := by
  rw [distinct.erase_eq_filter, (List.nodup_reverse.mpr distinct).erase_eq_filter,
    List.filter_reverse]

theorem prevIn_erase {nodes : List Nat} (distinct : nodes.Nodup) {x y : Nat} (ne : y ≠ x) :
    prevIn (nodes.erase x) y = if prevIn nodes y = some x then prevIn nodes x else prevIn nodes y := by
  simp only [prevIn, reverse_erase distinct]
  exact nextIn_erase (List.nodup_reverse.mpr distinct) ne

theorem getLast?_erase {nodes : List Nat} (distinct : nodes.Nodup) (x : Nat) :
    (nodes.erase x).getLast? =
      if nodes.getLast? = some x then prevIn nodes x else nodes.getLast? := by
  rw [← List.head?_reverse, reverse_erase distinct, head?_erase, List.head?_reverse]
  split
  · rename_i last
    obtain ⟨init, rfl⟩ := List.getLast?_eq_some_iff.mp last
    simp [prevIn, nextIn]
  · rfl

theorem head?_erase_eq {nodes : List Nat} (x : Nat) :
    (nodes.erase x).head? = if nodes.head? = some x then nextIn nodes x else nodes.head? := by
  rw [head?_erase]
  split
  · rename_i first
    obtain ⟨rest, rfl⟩ := List.head?_eq_some_iff.mp first
    simp [nextIn]
  · rfl

structure DoublyLinkedList where
  head : Option Nat
  tail : Option Nat
  numObjects : Nat
  deriving DecidableEq, Repr

def DoublyLinkedList.empty : DoublyLinkedList := ⟨none, none, 0⟩

/-- The header `list` and the links of `cells` describe the list `nodes`. -/
structure Represents (cells : Cells) (list : DoublyLinkedList) (nodes : List Nat) : Prop where
  head : list.head = nodes.head?
  tail : list.tail = nodes.getLast?
  count : list.numObjects = nodes.length
  next : ∀ x ∈ nodes, (cells x).next = nextIn nodes x
  prev : ∀ x ∈ nodes, (cells x).prev = prevIn nodes x
  nodup : nodes.Nodup

theorem Represents.frame {cells cells' : Cells} {list : DoublyLinkedList} {nodes : List Nat}
    (represents : Represents cells list nodes)
    (kept : ∀ x ∈ nodes, (cells' x).next = (cells x).next ∧ (cells' x).prev = (cells x).prev) :
    Represents cells' list nodes where
  head := represents.head
  tail := represents.tail
  count := represents.count
  next x present := (kept x present).1.trans (represents.next x present)
  prev x present := (kept x present).2.trans (represents.prev x present)
  nodup := represents.nodup

theorem represents_empty (cells : Cells) : Represents cells DoublyLinkedList.empty [] where
  head := rfl
  tail := rfl
  count := rfl
  next _ absent := by cases absent
  prev _ absent := by cases absent
  nodup := List.nodup_nil

theorem Represents.nil_iff {cells : Cells} {list : DoublyLinkedList} {nodes : List Nat}
    (represents : Represents cells list nodes) : list.head = none ↔ nodes = [] := by
  rw [represents.head, List.head?_eq_none_iff]

/-- The unlinking half of `move_object_to_head`; `obj->next` is read again after the
first write, as in the source. -/
def unlinkObject (cells : Cells) (obj : Nat) (src : DoublyLinkedList) :
    Cells × DoublyLinkedList :=
  let first : Cells × DoublyLinkedList := match (cells obj).prev with
    | none => (cells, { src with head := (cells obj).next })
    | some p => (setNext cells p (cells obj).next, src)
  match (first.1 obj).next with
  | none =>
    (first.1, { first.2 with tail := (first.1 obj).prev, numObjects := first.2.numObjects - 1 })
  | some n => (setPrev first.1 n (first.1 obj).prev,
      { first.2 with numObjects := first.2.numObjects - 1 })

/-- The linking half of `move_object_to_head`. -/
def linkAtHead (cells : Cells) (obj : Nat) (dest : DoublyLinkedList) :
    Cells × DoublyLinkedList :=
  match dest.head with
  | none => (setPrev (setNext cells obj none) obj none,
      { dest with head := some obj, tail := some obj, numObjects := dest.numObjects + 1 })
  | some h => (setPrev (setNext (setPrev cells obj none) obj (some h)) h (some obj),
      { dest with head := some obj, numObjects := dest.numObjects + 1 })

/-- `move_object_to_head(obj, src, dest)`. -/
def moveObjectToHead (cells : Cells) (obj : Nat) (src dest : DoublyLinkedList) :
    Cells × DoublyLinkedList × DoublyLinkedList :=
  let unlinked := unlinkObject cells obj src
  let linked := linkAtHead unlinked.1 obj dest
  (linked.1, unlinked.2, linked.2)

/-- `append_to_tail(dest, src)`; it returns early, leaving both headers alone, when
`dest` is non-empty and `src` is empty. -/
def appendToTail (cells : Cells) (dest src : DoublyLinkedList) :
    Cells × DoublyLinkedList × DoublyLinkedList :=
  match dest.tail, src.head with
  | none, _ =>
    (cells, ⟨src.head, src.tail, dest.numObjects + src.numObjects⟩, DoublyLinkedList.empty)
  | some _, none => (cells, dest, src)
  | some t, some h => (setPrev (setNext cells t (some h)) h (some t),
      { dest with tail := src.tail, numObjects := dest.numObjects + src.numObjects },
      DoublyLinkedList.empty)

section Primitives

variable (cells : Cells) (obj y : Nat)

theorem unlinkObject_next (src : DoublyLinkedList) :
    ((unlinkObject cells obj src).1 y).next =
      if (cells obj).prev = some y then (cells obj).next else (cells y).next := by
  rcases hp : (cells obj).prev with _ | p <;> rcases hn : (cells obj).next with _ | n <;>
    simp [unlinkObject, hp, hn, eq_comm]

theorem unlinkObject_prev (src : DoublyLinkedList) :
    ((unlinkObject cells obj src).1 y).prev =
      if (cells obj).next = some y then (cells obj).prev else (cells y).prev := by
  rcases hp : (cells obj).prev with _ | p <;> rcases hn : (cells obj).next with _ | n <;>
    simp [unlinkObject, hp, hn, eq_comm]

@[simp] theorem unlinkObject_payload (src : DoublyLinkedList) :
    ((unlinkObject cells obj src).1 y).payload = (cells y).payload := by
  rcases hp : (cells obj).prev with _ | p <;> rcases hn : (cells obj).next with _ | n <;>
    simp [unlinkObject, hp, hn]

@[simp] theorem unlinkObject_color (src : DoublyLinkedList) :
    ((unlinkObject cells obj src).1 y).color = (cells y).color := by
  rcases hp : (cells obj).prev with _ | p <;> rcases hn : (cells obj).next with _ | n <;>
    simp [unlinkObject, hp, hn]

theorem unlinkObject_header (src : DoublyLinkedList) :
    (unlinkObject cells obj src).2 =
      ⟨if (cells obj).prev = none then (cells obj).next else src.head,
        if (cells obj).next = none then (cells obj).prev else src.tail, src.numObjects - 1⟩ := by
  rcases hp : (cells obj).prev with _ | p <;> rcases hn : (cells obj).next with _ | n <;>
    simp [unlinkObject, hp, hn]

theorem linkAtHead_next (dest : DoublyLinkedList) :
    ((linkAtHead cells obj dest).1 y).next = if y = obj then dest.head else (cells y).next := by
  rcases hh : dest.head with _ | h <;> simp [linkAtHead, hh]

theorem linkAtHead_prev (dest : DoublyLinkedList) :
    ((linkAtHead cells obj dest).1 y).prev =
      if dest.head = some y then some obj else if y = obj then none else (cells y).prev := by
  rcases hh : dest.head with _ | h <;> simp [linkAtHead, hh, eq_comm]

@[simp] theorem linkAtHead_payload (dest : DoublyLinkedList) :
    ((linkAtHead cells obj dest).1 y).payload = (cells y).payload := by
  rcases hh : dest.head with _ | h <;> simp [linkAtHead, hh]

@[simp] theorem linkAtHead_color (dest : DoublyLinkedList) :
    ((linkAtHead cells obj dest).1 y).color = (cells y).color := by
  rcases hh : dest.head with _ | h <;> simp [linkAtHead, hh]

theorem linkAtHead_header (dest : DoublyLinkedList) :
    (linkAtHead cells obj dest).2 =
      ⟨some obj, if dest.head = none then some obj else dest.tail, dest.numObjects + 1⟩ := by
  rcases hh : dest.head with _ | h <;> simp [linkAtHead, hh]

@[simp] theorem moveObjectToHead_payload (src dest : DoublyLinkedList) :
    ((moveObjectToHead cells obj src dest).1 y).payload = (cells y).payload := by
  simp [moveObjectToHead]

@[simp] theorem moveObjectToHead_color (src dest : DoublyLinkedList) :
    ((moveObjectToHead cells obj src dest).1 y).color = (cells y).color := by
  simp [moveObjectToHead]

@[simp] theorem appendToTail_payload (dest src : DoublyLinkedList) :
    ((appendToTail cells dest src).1 y).payload = (cells y).payload := by
  unfold appendToTail; split <;> simp

@[simp] theorem appendToTail_color (dest src : DoublyLinkedList) :
    ((appendToTail cells dest src).1 y).color = (cells y).color := by
  unfold appendToTail; split <;> simp

theorem moveObjectToHead_setColor (src dest : DoublyLinkedList) (a : Nat) (color : Nat) :
    moveObjectToHead (setColor cells a color) obj src dest =
      (setColor (moveObjectToHead cells obj src dest).1 a color,
        (moveObjectToHead cells obj src dest).2) := by
  have header : (unlinkObject (setColor cells a color) obj src).2 = (unlinkObject cells obj src).2 := by
    simp [unlinkObject_header]
  refine Prod.ext (funext fun b => Cell.ext ?_ ?_ ?_ ?_) (Prod.ext header (by simp [moveObjectToHead, linkAtHead_header]))
  · simp
  · simp
  · simp [moveObjectToHead, linkAtHead_prev, unlinkObject_prev]
  · simp [moveObjectToHead, linkAtHead_next, unlinkObject_next]

end Primitives

variable {cells : Cells} {obj : Nat}

theorem unlinkObject_represents {src : DoublyLinkedList} {nodes : List Nat}
    (represents : Represents cells src nodes) (present : obj ∈ nodes) :
    Represents (unlinkObject cells obj src).1 (unlinkObject cells obj src).2 (nodes.erase obj) := by
  have distinct := represents.nodup
  have prevObj := represents.prev obj present
  have nextObj := represents.next obj present
  have member : ∀ {y}, y ∈ nodes.erase obj ↔ y ≠ obj ∧ y ∈ nodes := distinct.mem_erase_iff
  rw [unlinkObject_header]
  refine ⟨?_, ?_, ?_, ?_, ?_, distinct.erase obj⟩
  · simp only [head?_erase_eq, prevObj, nextObj, ← represents.head,
      prevIn_eq_none_iff distinct present]
  · simp only [getLast?_erase distinct, prevObj, nextObj, ← represents.tail,
      nextIn_eq_none_iff distinct present]
  · simp [represents.count, List.length_erase_of_mem present]
  · intro y inside
    obtain ⟨ne, mem⟩ := member.mp inside
    rw [unlinkObject_next, nextIn_erase distinct ne, prevObj, nextObj, represents.next y mem]
    simp only [prevIn_eq_some_iff distinct]
  · intro y inside
    obtain ⟨ne, mem⟩ := member.mp inside
    rw [unlinkObject_prev, prevIn_erase distinct ne, prevObj, nextObj, represents.prev y mem]
    simp only [prevIn_eq_some_iff distinct]

theorem linkAtHead_represents {dest : DoublyLinkedList} {nodes : List Nat}
    (represents : Represents cells dest nodes) (absent : obj ∉ nodes) :
    Represents (linkAtHead cells obj dest).1 (linkAtHead cells obj dest).2 (obj :: nodes) := by
  rw [linkAtHead_header]
  refine ⟨rfl, ?_, ?_, ?_, ?_, List.nodup_cons.mpr ⟨absent, represents.nodup⟩⟩
  · rw [represents.head]
    cases nodes with
    | nil => rfl
    | cons a rest => simp [represents.tail, List.getLast?_cons]
  · simp [represents.count]
  · intro y inside
    rw [linkAtHead_next, represents.head]
    rcases List.mem_cons.mp inside with rfl | mem
    · simp [nextIn]
    · have ne : y ≠ obj := fun same => absent (same ▸ mem)
      simp [nextIn, ne, Ne.symm ne, represents.next y mem]
  · intro y inside
    rw [linkAtHead_prev, represents.head, prevIn_cons]
    rcases List.mem_cons.mp inside with rfl | mem
    · have notHead : nodes.head? ≠ some y := fun first => absent (List.mem_of_mem_head? first)
      simp [notHead, absent]
    · have ne : y ≠ obj := fun same => absent (same ▸ mem)
      rw [represents.prev y mem]
      by_cases first : nodes.head? = some y
      · simp [first, mem, (prevIn_eq_none_iff represents.nodup mem).mpr first]
      · obtain ⟨p, hp⟩ := Option.ne_none_iff_exists'.mp
          (mt (prevIn_eq_none_iff represents.nodup mem).mp first)
        simp [first, ne, mem, hp]

theorem moveObjectToHead_represents {src dest : DoublyLinkedList} {ls ld : List Nat}
    (fromList : Represents cells src ls) (toList : Represents cells dest ld)
    (disjoint : ls.Disjoint ld) (present : obj ∈ ls) :
    Represents (moveObjectToHead cells obj src dest).1 (moveObjectToHead cells obj src dest).2.1
        (ls.erase obj) ∧
      Represents (moveObjectToHead cells obj src dest).1 (moveObjectToHead cells obj src dest).2.2
        (obj :: ld) := by
  have prevOut : ∀ y ∈ ld, (cells obj).prev ≠ some y := fun y mem same =>
    disjoint (mem_of_prevIn ((fromList.prev obj present).symm.trans same)) mem
  have nextOut : ∀ y ∈ ld, (cells obj).next ≠ some y := fun y mem same =>
    disjoint (mem_of_nextIn ((fromList.next obj present).symm.trans same)) mem
  have destKept : Represents (unlinkObject cells obj src).1 dest ld :=
    toList.frame fun y mem => by
      simp [unlinkObject_next, unlinkObject_prev, prevOut y mem, nextOut y mem]
  have srcKept : Represents (linkAtHead (unlinkObject cells obj src).1 obj dest).1
      (unlinkObject cells obj src).2 (ls.erase obj) :=
    (unlinkObject_represents fromList present).frame fun y inside => by
      obtain ⟨ne, mem⟩ := fromList.nodup.mem_erase_iff.mp inside
      have notHead : dest.head ≠ some y := fun first =>
        disjoint mem (List.mem_of_mem_head? (toList.head ▸ first))
      simp [linkAtHead_next, linkAtHead_prev, ne, notHead]
  exact ⟨srcKept, linkAtHead_represents destKept fun mem => disjoint present mem⟩

theorem appendToTail_represents {dest src : DoublyLinkedList} {ld ls : List Nat}
    (toList : Represents cells dest ld) (fromList : Represents cells src ls)
    (disjoint : ld.Disjoint ls) :
    Represents (appendToTail cells dest src).1 (appendToTail cells dest src).2.1 (ld ++ ls) ∧
      Represents (appendToTail cells dest src).1 (appendToTail cells dest src).2.2 [] := by
  rcases ht : dest.tail with _ | t
  · have empty : ld = [] := List.getLast?_eq_none_iff.mp (toList.tail ▸ ht)
    subst empty
    simp only [appendToTail, ht, List.nil_append]
    refine ⟨⟨fromList.head, fromList.tail, ?_, fromList.next, fromList.prev, fromList.nodup⟩,
      represents_empty cells⟩
    simp [toList.count, fromList.count]
  rcases hh : src.head with _ | h
  · have empty : ls = [] := List.head?_eq_none_iff.mp (fromList.head ▸ hh)
    subst empty
    simpa [appendToTail, ht, hh] using ⟨toList, fromList⟩
  have last : ld.getLast? = some t := toList.tail ▸ ht
  have first : ls.head? = some h := fromList.head ▸ hh
  have tIn : t ∈ ld := List.mem_of_getLast?_eq_some last
  have hIn : h ∈ ls := List.mem_of_mem_head? first
  have ne : ld ≠ [] := fun nil => by simp [nil] at last
  have ne' : ls ≠ [] := fun nil => by simp [nil] at first
  simp only [appendToTail, ht, hh]
  refine ⟨⟨?_, ?_, ?_, ?_, ?_, List.nodup_append.mpr ⟨toList.nodup, fromList.nodup, disjoint⟩⟩,
    represents_empty _⟩
  · obtain ⟨a, rest, rfl⟩ := List.exists_cons_of_ne_nil ne
    simp [toList.head]
  · obtain ⟨z, hz⟩ := Option.ne_none_iff_exists'.mp (mt List.getLast?_eq_none_iff.mp ne')
    simp [fromList.tail, List.getLast?_append, hz]
  · simp [toList.count, fromList.count]
  · intro y inside
    rw [nextIn_append]
    rcases List.mem_append.mp inside with mem | mem
    · have yNotH : y ≠ h := fun same => disjoint mem (same ▸ hIn)
      by_cases yt : y = t
      · subst yt
        simp [(nextIn_eq_none_iff toList.nodup mem).mpr last, mem, first]
      · have some' : nextIn ld y ≠ none := fun none' =>
          yt (Option.some.inj (((nextIn_eq_none_iff toList.nodup mem).mp none').symm.trans last))
        obtain ⟨z, hz⟩ := Option.ne_none_iff_exists'.mp some'
        simp [yt, mem, hz, toList.next y mem]
    · have notLd : y ∉ ld := fun mem' => disjoint mem' mem
      have yNotT : y ≠ t := fun same => notLd (same ▸ tIn)
      simp [yNotT, notLd, fromList.next y mem]
  · intro y inside
    rw [prevIn_append]
    rcases List.mem_append.mp inside with mem | mem
    · have notLs : y ∉ ls := fun mem' => disjoint mem mem'
      have yNotH : y ≠ h := fun same => notLs (same ▸ hIn)
      simp [yNotH, notLs, toList.prev y mem]
    · by_cases yh : y = h
      · subst yh
        simp [(prevIn_eq_none_iff fromList.nodup mem).mpr first, mem, last]
      · have some' : prevIn ls y ≠ none := fun none' =>
          yh (Option.some.inj (((prevIn_eq_none_iff fromList.nodup mem).mp none').symm.trans first))
        obtain ⟨z, hz⟩ := Option.ne_none_iff_exists'.mp some'
        simp [yh, mem, hz, fromList.prev y mem]

/-- The cells met following `next` from `start`, at most `fuel` of them. -/
def followNext (cells : Cells) : Nat → Option Nat → List Nat
  | _, none => []
  | 0, some _ => []
  | fuel + 1, some a => a :: followNext cells fuel (cells a).next

theorem Represents.followNext_suffix {list : DoublyLinkedList} {front rest : List Nat}
    (represents : Represents cells list (front ++ rest)) {fuel : Nat} (enough : rest.length ≤ fuel) :
    followNext cells fuel rest.head? = rest := by
  induction rest generalizing front fuel with
  | nil => cases fuel <;> rfl
  | cons a rest ih =>
    obtain ⟨fuel, rfl⟩ : ∃ f, fuel = f + 1 := ⟨fuel - 1, by simp at enough; omega⟩
    have notFront : a ∉ front := fun mem =>
      List.disjoint_of_nodup_append represents.nodup mem (List.mem_cons_self _ _)
    have next : (cells a).next = rest.head? := by
      rw [represents.next a (by simp), nextIn_append, if_neg notFront]
      simp [nextIn]
    have shifted : Represents cells list ((front ++ [a]) ++ rest) := by simpa using represents
    rw [List.head?_cons, followNext, next, ih shifted (by simp at enough; omega)]

theorem Represents.eq_empty {cells : Cells} {list : DoublyLinkedList}
    (represents : Represents cells list []) : list = DoublyLinkedList.empty := by
  obtain ⟨head, tail, count⟩ := list
  obtain ⟨rfl, rfl, rfl, -⟩ := represents
  rfl

/-- On two disjoint well-formed lists, `move_object_to_head` and `append_to_tail` are the list
operations `erase`-and-`cons` and `++`. -/
theorem list_primitives_implement_lists {src dest : DoublyLinkedList} {ls ld : List Nat}
    (fromList : Represents cells src ls) (toList : Represents cells dest ld) (disjoint : ls.Disjoint ld) :
    (∀ obj ∈ ls,
      Represents (moveObjectToHead cells obj src dest).1 (moveObjectToHead cells obj src dest).2.1
          (ls.erase obj) ∧
        Represents (moveObjectToHead cells obj src dest).1 (moveObjectToHead cells obj src dest).2.2
          (obj :: ld)) ∧
      Represents (appendToTail cells dest src).1 (appendToTail cells dest src).2.1 (ld ++ ls) ∧
      (appendToTail cells dest src).2.2 = DoublyLinkedList.empty :=
  have appended := appendToTail_represents toList fromList fun _ inD inS => disjoint inS inD
  ⟨fun _ present => moveObjectToHead_represents fromList toList disjoint present, appended.1,
    appended.2.eq_empty⟩

/-- Two lists `0 ⇄ 1 ⇄ 2` and `3 ⇄ 4`. -/
def twoListCells : Cells
  | 0 => ⟨.uninitialized, 0, none, some 1⟩
  | 1 => ⟨.uninitialized, 0, some 0, some 2⟩
  | 2 => ⟨.uninitialized, 0, some 1, none⟩
  | 3 => ⟨.uninitialized, 0, none, some 4⟩
  | 4 => ⟨.uninitialized, 0, some 3, none⟩
  | _ => ⟨.uninitialized, 0, none, none⟩

theorem twoListCells_primitives :
    Represents twoListCells ⟨some 0, some 2, 3⟩ [0, 1, 2] ∧
      Represents twoListCells ⟨some 3, some 4, 2⟩ [3, 4] ∧ [0, 1, 2].Disjoint [3, 4] ∧
      (∀ obj ∈ [0, 1, 2],
        Represents (moveObjectToHead twoListCells obj ⟨some 0, some 2, 3⟩ ⟨some 3, some 4, 2⟩).1
          (moveObjectToHead twoListCells obj ⟨some 0, some 2, 3⟩ ⟨some 3, some 4, 2⟩).2.1
          ([0, 1, 2].erase obj) ∧
        Represents (moveObjectToHead twoListCells obj ⟨some 0, some 2, 3⟩ ⟨some 3, some 4, 2⟩).1
          (moveObjectToHead twoListCells obj ⟨some 0, some 2, 3⟩ ⟨some 3, some 4, 2⟩).2.2
          (obj :: [3, 4])) ∧
      Represents (appendToTail twoListCells ⟨some 3, some 4, 2⟩ ⟨some 0, some 2, 3⟩).1
        (appendToTail twoListCells ⟨some 3, some 4, 2⟩ ⟨some 0, some 2, 3⟩).2.1
        ([3, 4] ++ [0, 1, 2]) ∧
      (appendToTail twoListCells ⟨some 3, some 4, 2⟩ ⟨some 0, some 2, 3⟩).2.2 =
        DoublyLinkedList.empty :=
  have src : Represents twoListCells ⟨some 0, some 2, 3⟩ [0, 1, 2] :=
    ⟨rfl, rfl, rfl, by decide, by decide, by decide⟩
  have dest : Represents twoListCells ⟨some 3, some 4, 2⟩ [3, 4] :=
    ⟨rfl, rfl, rfl, by decide, by decide, by decide⟩
  have disjoint : [0, 1, 2].Disjoint [3, 4] := by simp [List.Disjoint]
  ⟨src, dest, disjoint, list_primitives_implement_lists src dest disjoint⟩

end BrianScheme
