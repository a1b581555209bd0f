import BrianScheme.Gc.Invariant

/-! The list checks `gc.c` compiles under `DEBUG_GC`. `debug_validate` walks a header and the
links of its cells; `debug_list_contains` looks for a cell. A failed `assert_gc` prints its message
and exits: the error of the result, with the format string as the source writes it (the values it
prints are left out). A walk that never meets the tail runs forever, and one that follows a null
`next` reads through a null pointer: with `fuel` steps both are `none`.

`debug_validate` accepts every list that is well formed but for the `prev` link of its second cell,
which it only checks to be non-null, unless the list has two cells: it never accepts a header
whose count is two, so it rejects every well-formed list of two cells. `debug_list_contains` returns
the position of a cell in a well-formed list, and fails on one it does not find. -/

namespace BrianScheme

/-- `assert_gc(test, msg, ...)` under `DEBUG_GC`. -/
def assertGc (test : Prop) [Decidable test] (msg : String) : ExceptT String Option Unit :=
  if test then pure () else throw msg

/-- One central node of `debug_validate`'s loop: its links checked, then `iter = iter->next`. The
check of `prev` against `last` is made only once `last` is set. -/
def checkCentral (cells : Cells) (iter : Nat) (last : Option Nat) : ExceptT String Option Nat := do
  assertGc ((cells iter).prev ≠ none) "central node %ld prev is null"
  assertGc ((cells iter).next ≠ none) "central node %ld next is null"
  assertGc (last = none ∨ (cells iter).prev = last)
    "central node %ld prev is wrong. Is %p. Should be %p"
  pure ((cells iter).next.getD 0)

/-- `while(iter != list->tail)` in `debug_validate`, from `iter`, `last` and `idx`: the `last` and
`idx` it leaves. -/
def validateCentral (cells : Cells) (tail : Nat) :
    Nat → Nat → Option Nat → Nat → ExceptT String Option (Option Nat × Nat)
  | 0, iter, last, idx => if iter = tail then pure (last, idx) else ExceptT.lift none
  | fuel + 1, iter, last, idx => if iter = tail then pure (last, idx) else do
    let next ← checkCentral cells iter last
    validateCentral cells tail fuel next (some iter) (idx + 1)

/-- `debug_validate(list)`. -/
def debugValidate (cells : Cells) (list : DoublyLinkedList) (fuel : Nat) :
    ExceptT String Option Unit :=
  match list.head, list.tail with
  | some head, some tail => do
    assertGc ((cells head).prev = none) "head's prev is not null"
    if head = tail then do
      assertGc (list.numObjects = 1) "1 length list invalid"
      assertGc ((cells head).next = none) "next of only item not null"
      assertGc ((cells tail).prev = none) "prev of only item not null"
    else do
      assertGc ((cells head).next ≠ none) "list head next is null"
      let (last, idx) ← validateCentral cells tail fuel ((cells head).next.getD 0) none 1
      assertGc ((cells tail).next = none) "list tail next is not null"
      assertGc ((cells tail).prev ≠ none) "list tail prev is null"
      assertGc ((cells tail).prev = last) "list tail prev is wrong. Is %p. Should be %p"
      assertGc (idx + 1 = list.numObjects) "list object count is wrong %ld != %ld"
  | _, _ => do
    assertGc (list.head = none ∧ list.tail = none) "head and tail must be null together"
    assertGc (list.numObjects = 0) "head is null. count != 0"

/-- After the loop of `debug_list_contains`, at the tail: it must be `obj`, the last position. -/
def containsExit (count obj : Nat) (iter : Option Nat) : ExceptT String Option Nat := do
  assertGc (iter = some obj) "object %p not in list\n"
  pure (count - 1)

/-- `while(iter != list->tail)` in `debug_list_contains`, from `iter` at `pos`. -/
def containsLoop (cells : Cells) (tail : Option Nat) (count obj : Nat) :
    Nat → Option Nat → Nat → ExceptT String Option Nat
  | 0, iter, pos => if iter = tail then containsExit count obj iter
    else if iter = some obj then pure pos else ExceptT.lift none
  | fuel + 1, iter, pos => if iter = tail then containsExit count obj iter
    else if iter = some obj then pure pos
    else match iter with
      | none => ExceptT.lift none
      | some it => containsLoop cells tail count obj fuel (cells it).next (pos + 1)

/-- `debug_list_contains(list, obj)`. -/
def debugListContains (cells : Cells) (list : DoublyLinkedList) (obj fuel : Nat) :
    ExceptT String Option Nat :=
  if list.head = list.tail then do
    assertGc (list.head = some obj) "object %p not in length1 list\n"
    pure 0
  else containsLoop cells list.tail list.numObjects obj fuel list.head 0

/-- What `debug_validate` checks of a header and the links of its cells: all `Represents` says,
except that the `prev` of the second cell need only be non-null. -/
structure CheckedList (cells : Cells) (list : DoublyLinkedList) (nodes : List Nat) : Prop where
  head : list.head = nodes.head?
  tail : list.tail = nodes.getLast?
  count : list.numObjects = nodes.length
  next : ∀ x ∈ nodes, (cells x).next = nextIn nodes x
  prev : ∀ x ∈ nodes, nodes[1]? ≠ some x → (cells x).prev = prevIn nodes x
  second : ∀ x, nodes[1]? = some x → (cells x).prev ≠ none
  nodup : nodes.Nodup

theorem Represents.checked {cells : Cells} {list : DoublyLinkedList} {nodes : List Nat}
    (represents : Represents cells list nodes) : CheckedList cells list nodes where
  head := represents.head
  tail := represents.tail
  count := represents.count
  next := represents.next
  prev x present _ := represents.prev x present
  nodup := represents.nodup
  second x found := by
    obtain ⟨a, b, rest, rfl⟩ : ∃ a b rest, nodes = a :: b :: rest := by
      match nodes, found with
      | a :: b :: rest, _ => exact ⟨a, b, rest, rfl⟩
    obtain rfl : b = x := by simpa using found
    rw [represents.prev b (by simp), (prevIn_eq_some_iff represents.nodup).mpr
      ((nextIn_eq_some_iff represents.nodup).mpr ⟨[], rest, rfl⟩)]
    exact Option.some_ne_none a

section Checks

variable {α β : Type} {cells : Cells} {list : DoublyLinkedList} {nodes : List Nat}

theorem assertGc_bind {test : Prop} [Decidable test] {msg : String}
    {f : Unit → ExceptT String Option α} :
    (assertGc test msg >>= f).run = if test then (f ()).run else some (.error msg) := by
  unfold assertGc
  split_ifs <;> rfl

theorem assertGc_run {test : Prop} [Decidable test] {msg : String} :
    (assertGc test msg).run = if test then some (.ok ()) else some (.error msg) := by
  unfold assertGc
  split_ifs <;> rfl

theorem exceptT_bind_ok {x : ExceptT String Option α} {f : α → ExceptT String Option β} {r : β} :
    (x >>= f).run = some (.ok r) ↔ ∃ a, x.run = some (.ok a) ∧ (f a).run = some (.ok r) := by
  simp only [ExceptT.run_bind]
  rcases found : x.run with _ | _ | a <;> simp [found]

theorem exceptT_bind_of_ok {x : ExceptT String Option α} {f : α → ExceptT String Option β} {a : α}
    (found : x.run = some (.ok a)) : (x >>= f).run = (f a).run := by
  simp only [ExceptT.run_bind, found]
  rfl

theorem nextIn_of_split {pre mid : List Nat} {x y : Nat} (distinct : nodes.Nodup)
    (split : nodes = pre ++ x :: y :: mid) : nextIn nodes x = some y :=
  (nextIn_eq_some_iff distinct).mpr ⟨pre, mid, by simp [split]⟩

theorem CheckedList.next_of_split (checked : CheckedList cells list nodes) {pre mid : List Nat}
    {x y : Nat} (split : nodes = pre ++ x :: y :: mid) : (cells x).next = some y :=
  (checked.next x (by simp [split])).trans (nextIn_of_split checked.nodup split)

theorem CheckedList.prev_of_split (checked : CheckedList cells list nodes) {pre mid : List Nat}
    {x y : Nat} (split : nodes = pre ++ x :: y :: mid) (notFirst : pre ≠ []) :
    (cells y).prev = some x := by
  have notSecond : nodes[1]? ≠ some y := fun found => by
    have later : nodes[pre.length + 1]? = some y := by
      rw [split, List.getElem?_append_right (by omega)]
      simp
    have long := List.length_pos.mpr notFirst
    have same := List.getElem?_inj (by simp [split]; omega) checked.nodup (found.trans later.symm)
    exact notFirst (List.length_eq_zero.mp (by omega))
  rw [checked.prev y (by simp [split]) notSecond,
    (prevIn_eq_some_iff checked.nodup).mpr (nextIn_of_split checked.nodup split)]

theorem CheckedList.prev_ne_none (checked : CheckedList cells list nodes) {pre mid : List Nat}
    {x : Nat} (split : nodes = pre ++ x :: mid) (notFirst : pre ≠ []) : (cells x).prev ≠ none := by
  rcases List.eq_nil_or_concat pre with rfl | ⟨pre, p, rfl⟩
  · exact absurd rfl notFirst
  by_cases first : pre = []
  · subst first
    exact checked.second x (by simp [split])
  · have split' : nodes = pre ++ p :: x :: mid := by simp [split]
    rw [checked.prev_of_split split' first]
    exact Option.some_ne_none p

theorem validateCentral_checked (checked : CheckedList cells list nodes) {t : Nat}
    (final : nodes.getLast? = some t) :
    ∀ (mid pre : List Nat) (iter : Nat) (last : Option Nat) (fuel : Nat),
      nodes = pre ++ iter :: mid → pre ≠ [] → mid.length ≤ fuel →
      (last = none ∨ (cells iter).prev = last) →
      (validateCentral cells t fuel iter last pre.length).run =
        some (.ok (if mid = [] then last else prevIn nodes t, nodes.length - 1))
  | [], pre, iter, last, fuel, split, _, _, _ => by
    obtain rfl : iter = t := by simpa [split] using final
    cases fuel <;> simp [validateCentral, split]
  | y :: mid, pre, iter, last, fuel, split, notFirst, enough, lastOk => by
    obtain ⟨fuel, rfl⟩ : ∃ f, fuel = f + 1 := ⟨fuel - 1, by simp at enough; omega⟩
    have notTail : iter ≠ t := by
      rintro rfl
      have later : iter ∈ y :: mid := List.mem_of_getLast?_eq_some (by simpa [split] using final)
      exact (List.nodup_cons.mp (List.Nodup.of_append_right (split ▸ checked.nodup))).1 later
    have step : (checkCentral cells iter last).run = some (.ok y) := by
      simp [checkCentral, assertGc, checked.prev_ne_none split notFirst, checked.next_of_split split,
        lastOk]
    have rest := validateCentral_checked checked final mid (pre ++ [iter]) y (some iter) fuel
      (by simp [split]) (by simp) (by simpa using enough) (.inr (checked.prev_of_split split notFirst))
    rw [List.length_append, List.length_singleton] at rest
    rw [validateCentral, if_neg notTail, exceptT_bind_of_ok step, rest]
    rcases mid with _ | ⟨z, mid⟩
    · have : y = t := by simpa [split] using final
      subst this
      simp [(prevIn_eq_some_iff checked.nodup).mpr (nextIn_of_split checked.nodup split)]
    · simp

/-- A checked list of two cells: the loop starts at the tail, so `last` is still null when the
tail's `prev`, which is not null, is compared with it. -/
theorem CheckedList.debugValidate_pair {a b : Nat} (checked : CheckedList cells list [a, b])
    (fuel : Nat) : (debugValidate cells list fuel).run =
      some (.error "list tail prev is wrong. Is %p. Should be %p") := by
  have distinct := checked.nodup
  simp only [List.nodup_cons, List.mem_singleton, List.not_mem_nil, not_false_eq_true,
    List.nodup_nil, and_true] at distinct
  have prevA : (cells a).prev = none := by
    rw [checked.prev a (by simp) (by simpa using Ne.symm distinct)]
    exact (prevIn_eq_none_iff checked.nodup (by simp)).mpr rfl
  have nextA : (cells a).next = some b := by
    rw [checked.next a (by simp)]
    simp [nextIn]
  have nextB : (cells b).next = none := by
    rw [checked.next b (by simp)]
    simp [nextIn, distinct]
  have prevB : (cells b).prev ≠ none := checked.second b rfl
  have loop : (validateCentral cells b fuel b none 1).run = some (.ok (none, 1)) := by
    cases fuel <;> simp [validateCentral]
  simp [debugValidate, checked.head, checked.tail, assertGc, prevA, distinct, nextA,
    ExceptT.run_bind, loop, nextB, prevB]

theorem CheckedList.debugValidate_long {h x y : Nat} {rest : List Nat}
    (checked : CheckedList cells list (h :: x :: y :: rest)) {fuel : Nat}
    (enough : rest.length + 3 ≤ fuel) : (debugValidate cells list fuel).run = some (.ok ()) := by
  obtain ⟨t, final⟩ : ∃ t, (h :: x :: y :: rest).getLast? = some t :=
    Option.ne_none_iff_exists'.mp (by simp)
  have later : t ∈ y :: rest := List.mem_of_getLast?_eq_some (by simpa using final)
  have headOut := (List.nodup_cons.mp checked.nodup).1
  have secondOut := (List.nodup_cons.mp (List.nodup_cons.mp checked.nodup).2).1
  have notTail : h ≠ t := fun same => headOut (List.mem_cons_of_mem x (same ▸ later))
  have headPrev : (cells h).prev = none := by
    rw [checked.prev h (by simp) fun same => headOut (by simp at same; simp [same])]
    exact (prevIn_eq_none_iff checked.nodup (by simp)).mpr rfl
  have headNext : (cells h).next = some x := checked.next_of_split (show _ = [] ++ _ from rfl)
  have tailNext : (cells t).next = none := by
    rw [checked.next t (by simp [later]), (nextIn_eq_none_iff checked.nodup (by simp [later])).mpr final]
  have tailPrev : (cells t).prev = prevIn (h :: x :: y :: rest) t :=
    checked.prev t (by simp [later]) fun same => secondOut (by simp at same; simpa [same] using later)
  have tailSome : prevIn (h :: x :: y :: rest) t ≠ none := fun none' =>
    notTail (Option.some.inj ((prevIn_eq_none_iff checked.nodup (by simp [later])).mp none'))
  have loop := validateCentral_checked checked final (y :: rest) [h] x none fuel rfl (by simp)
    (by simp only [List.length_cons]; omega) (.inl rfl)
  simp only [List.length_singleton, reduceCtorEq, if_false] at loop
  simp [debugValidate, checked.head, checked.tail, checked.count, final, assertGc, headPrev,
    notTail, headNext, ExceptT.run_bind, loop, tailNext, tailPrev, tailSome]

theorem CheckedList.debugValidate (checked : CheckedList cells list nodes) {fuel : Nat}
    (enough : nodes.length ≤ fuel) :
    (debugValidate cells list fuel).run =
      if nodes.length = 2 then some (.error "list tail prev is wrong. Is %p. Should be %p")
      else some (.ok ()) := by
  match nodes, checked, enough with
  | [], checked, _ => simp [BrianScheme.debugValidate, checked.head, checked.tail, checked.count, assertGc]
  | [x], checked, _ =>
    have prev : (cells x).prev = none := by
      rw [checked.prev x (by simp) (by simp)]
      simp [prevIn, nextIn]
    have next : (cells x).next = none := by
      rw [checked.next x (by simp)]
      simp [nextIn]
    simp [BrianScheme.debugValidate, checked.head, checked.tail, checked.count, assertGc, prev, next]
  | [_, _], checked, _ => exact checked.debugValidate_pair fuel
  | _ :: _ :: _ :: _, checked, enough => exact checked.debugValidate_long enough

/-- `debug_validate` accepts every checked list that has not two cells: every well-formed one,
and every one that differs from a well-formed one only in the `prev` of its second cell, as long as
that is not null. -/
theorem debug_validate_accepts_checked (checked : CheckedList cells list nodes)
    (notPair : nodes.length ≠ 2) {fuel : Nat} (enough : nodes.length ≤ fuel) :
    (debugValidate cells list fuel).run = some (.ok ()) := by
  rw [checked.debugValidate enough, if_neg notPair]

/-- A list `0 ⇄ 1 ⇄ 2` whose second cell's `prev` is `2` instead of `0`. -/
def skewedCells : Cells
  | 0 => ⟨.uninitialized, 0, none, some 1⟩
  | 1 => ⟨.uninitialized, 0, some 2, some 2⟩
  | 2 => ⟨.uninitialized, 0, some 1, none⟩
  | _ => ⟨.uninitialized, 0, none, none⟩

theorem skewedCells_accepted : CheckedList skewedCells ⟨some 0, some 2, 3⟩ [0, 1, 2] ∧
    [0, 1, 2].length ≠ 2 ∧ [0, 1, 2].length ≤ 3 ∧
    (debugValidate skewedCells ⟨some 0, some 2, 3⟩ 3).run = some (.ok ()) :=
  have checked : CheckedList skewedCells ⟨some 0, some 2, 3⟩ [0, 1, 2] :=
    ⟨rfl, rfl, rfl, by decide, by decide, fun x found => by
      obtain rfl : x = 1 := by simpa using found.symm
      decide, by decide⟩
  ⟨checked, by decide, le_rfl, debug_validate_accepts_checked checked (by decide) le_rfl⟩

theorem validateCentral_progress {t : Nat} :
    ∀ (fuel iter : Nat) (last : Option Nat) (idx : Nat) (r : Option Nat × Nat),
      (validateCentral cells t fuel iter last idx).run = some (.ok r) →
      r = (last, idx) ∨ r.1 ≠ none ∧ idx < r.2
  | 0, iter, last, idx, r, ran => by
    unfold validateCentral at ran
    split_ifs at ran
    · exact .inl (Except.ok.inj (Option.some.inj ran)).symm
    · cases ran
  | fuel + 1, iter, last, idx, r, ran => by
    unfold validateCentral at ran
    split_ifs at ran
    · exact .inl (Except.ok.inj (Option.some.inj ran)).symm
    · obtain ⟨next, -, rest⟩ := exceptT_bind_ok.mp ran
      rcases validateCentral_progress fuel next (some iter) (idx + 1) r rest with rfl | ⟨set, more⟩
      · exact .inr ⟨Option.some_ne_none iter, Nat.lt_succ_self idx⟩
      · exact .inr ⟨set, by omega⟩

theorem Represents.debugValidate (represents : Represents cells list nodes) {fuel : Nat}
    (enough : nodes.length ≤ fuel) :
    (debugValidate cells list fuel).run =
      if list.numObjects = 2 then some (.error "list tail prev is wrong. Is %p. Should be %p")
      else some (.ok ()) := by
  rw [represents.count]
  exact represents.checked.debugValidate enough

/-- `debug_validate` never accepts a header whose count is two: with two cells the loop starts at
the tail, so `last` is still null when the tail's `prev` is compared with it, after it was checked
to be non-null. A well-formed list of two cells is therefore rejected. -/
theorem debug_validate_rejects_two_cells :
    (∀ fuel, (debugValidate cells list fuel).run = some (.ok ()) → list.numObjects ≠ 2) ∧
      ∀ a b, Represents cells list [a, b] → ∀ fuel,
        (debugValidate cells list fuel).run = some (.error "list tail prev is wrong. Is %p. Should be %p") := by
  refine ⟨fun fuel accepted => ?_, fun a b represents fuel => ?_⟩
  · unfold debugValidate at accepted
    split at accepted
    · simp only [assertGc_bind] at accepted
      split_ifs at accepted with headPrev same
      · simp only [assertGc_bind, assertGc_run] at accepted
        split_ifs at accepted with count <;> first | omega | cases accepted
      · simp only [assertGc_bind] at accepted
        split_ifs at accepted with headNext
        · obtain ⟨⟨last, idx⟩, loop, rest⟩ := exceptT_bind_ok.mp accepted
          dsimp only at rest
          simp only [assertGc_bind, assertGc_run] at rest
          split_ifs at rest with tailNext tailSet tailPrev count
          · rcases validateCentral_progress _ _ _ _ _ loop with same | ⟨-, more⟩
            · cases same
              exact absurd tailPrev tailSet
            · omega
          all_goals cases rest
        · cases accepted
      · cases accepted
    · simp only [assertGc_bind, assertGc_run] at accepted
      split_ifs at accepted with empty count <;> first | omega | cases accepted
  · exact represents.checked.debugValidate_pair fuel

/-- A well-formed list `0 ⇄ 1`. -/
def pairCells : Cells
  | 0 => ⟨.uninitialized, 0, none, some 1⟩
  | 1 => ⟨.uninitialized, 0, some 0, none⟩
  | _ => ⟨.uninitialized, 0, none, none⟩

theorem pairCells_rejected : Represents pairCells ⟨some 0, some 1, 2⟩ [0, 1] ∧
    (debugValidate pairCells ⟨some 0, some 1, 2⟩ 2).run =
      some (.error "list tail prev is wrong. Is %p. Should be %p") :=
  have represents : Represents pairCells ⟨some 0, some 1, 2⟩ [0, 1] :=
    ⟨rfl, rfl, rfl, by decide, by decide, by decide⟩
  ⟨represents, debug_validate_rejects_two_cells.2 0 1 represents 2⟩

theorem containsLoop_represents (represents : Represents cells list nodes) (obj : Nat) :
    ∀ (mid pre : List Nat) (iter fuel : Nat), nodes = pre ++ iter :: mid → obj ∉ pre →
      mid.length ≤ fuel →
      (containsLoop cells list.tail list.numObjects obj fuel (some iter) pre.length).run =
        if obj ∈ iter :: mid then some (.ok (nodes.indexOf obj))
        else some (.error "object %p not in list\n")
  | [], pre, iter, fuel, split, before, _ => by
    have tail : list.tail = some iter := by rw [represents.tail, split]; simp
    have count : list.numObjects - 1 = pre.length := by rw [represents.count, split]; simp
    have exit : (containsExit list.numObjects obj (some iter)).run =
        if obj ∈ [iter] then some (.ok (nodes.indexOf obj))
        else some (.error "object %p not in list\n") := by
      by_cases found : iter = obj
      · subst found
        simp [containsExit, assertGc, count, split, List.indexOf_append_of_not_mem before,
          List.indexOf_cons_self]
      · simp [containsExit, assertGc, found, Ne.symm found]
    cases fuel <;> simpa [containsLoop, tail] using exit
  | y :: mid, pre, iter, fuel, split, before, enough => by
    obtain ⟨fuel, rfl⟩ : ∃ f, fuel = f + 1 := ⟨fuel - 1, by simp at enough; omega⟩
    have notTail : some iter ≠ list.tail := by
      rw [represents.tail, split]
      intro same
      have later : iter ∈ y :: mid := List.mem_of_getLast?_eq_some (by simpa using same.symm)
      exact (List.nodup_cons.mp (List.Nodup.of_append_right (split ▸ represents.nodup))).1 later
    by_cases found : iter = obj
    · subst found
      simp [containsLoop, notTail, split, List.indexOf_append_of_not_mem before,
        List.indexOf_cons_self]
    · have next : (cells iter).next = some y :=
        (represents.next iter (by simp [split])).trans (nextIn_of_split represents.nodup split)
      have rest := containsLoop_represents represents obj mid (pre ++ [iter]) y fuel (by simp [split])
        (by simp [before, Ne.symm found]) (by simpa using enough)
      rw [List.length_append, List.length_singleton] at rest
      simp only [containsLoop, if_neg notTail, Option.some.injEq, found, if_false, next, rest]
      simp [Ne.symm found]

/-- `debug_list_contains` on a well-formed list: the position of `obj` when it is in the list;
otherwise its assertion fails, with the message for a list of at most one cell or the other. -/
theorem debug_list_contains_finds (represents : Represents cells list nodes) (obj : Nat) {fuel : Nat}
    (enough : nodes.length ≤ fuel) :
    (debugListContains cells list obj fuel).run =
      if obj ∈ nodes then some (.ok (nodes.indexOf obj))
      else some (.error (if nodes.length ≤ 1 then "object %p not in length1 list\n"
        else "object %p not in list\n")) := by
  match nodes, represents, enough with
  | [], represents, _ =>
    simp [debugListContains, represents.head, represents.tail, assertGc]
  | [x], represents, _ =>
    by_cases found : x = obj
    · subst found
      simp [debugListContains, represents.head, represents.tail, assertGc]
    · simp [debugListContains, represents.head, represents.tail, assertGc, found, Ne.symm found]
  | x :: y :: rest, represents, enough =>
    have apart : list.head ≠ list.tail := by
      rw [represents.head, represents.tail]
      intro same
      have later : x ∈ y :: rest := List.mem_of_getLast?_eq_some (by simpa using same.symm)
      exact (List.nodup_cons.mp represents.nodup).1 later
    have loop := containsLoop_represents represents obj (y :: rest) [] x fuel rfl (by simp)
      (by simp at enough ⊢; omega)
    rw [debugListContains, if_neg apart, represents.head]
    simpa using loop

theorem pairCells_contains : Represents pairCells ⟨some 0, some 1, 2⟩ [0, 1] ∧ [0, 1].length ≤ 2 ∧
    (debugListContains pairCells ⟨some 0, some 1, 2⟩ 1 2).run =
      if 1 ∈ [0, 1] then some (.ok ([0, 1].indexOf 1))
      else some (.error (if [0, 1].length ≤ 1 then "object %p not in length1 list\n"
        else "object %p not in list\n")) :=
  have represents : Represents pairCells ⟨some 0, some 1, 2⟩ [0, 1] :=
    ⟨rfl, rfl, rfl, by decide, by decide, by decide⟩
  ⟨represents, le_rfl, debug_list_contains_finds represents 1 le_rfl⟩

end Checks

/-! Under `DEBUG_GC`, `baker_collect` ends by validating Old and then Active. -/

section Collections

/-- Under `DEBUG_GC`, the collection `alloc_object` starts validates two well-formed lists, and
exits exactly when one of them has two cells. -/
theorem debug_gc_collect_rejects_two_cell_lists {m : Machine} (reach : Reaches InPool m) :
    m.gc.nextFreeObject = none → ∃ collected freed, ∃ reached : List Nat,
      bakerCollect m.store (noSpace m.gc) = .ok (collected, freed) ∧ reached.Nodup ∧
      (∀ a, a ∈ reached ↔ Reachable m.gc.payloads (RootTarget m.store m.gc.rootObjects) a) ∧
      collected.oldHeapObjects.numObjects = reached.length ∧
      collected.activeHeapObjects.numObjects = freed ∧
      ∀ list ∈ [collected.oldHeapObjects, collected.activeHeapObjects], ∀ fuel,
        collected.poolSize ≤ fuel → (debugValidate collected.cells list fuel).run =
          if list.numObjects = 2 then some (.error "list tail prev is wrong. Is %p. Should be %p")
          else some (.ok ()) := by
  intro empty
  obtain ⟨free, old, inv⟩ := reach.machineInv
  obtain rfl := inv.free_eq_nil empty
  obtain ⟨s', A', O', run, col, -, -⟩ := inv.heap.bakerCollect inv.roots
  have pool := col.lists.length_add
  refine ⟨s', A'.length, O', run, col.lists.oldList.nodup, col.reached, col.lists.oldList.count,
    col.lists.activeList.count, fun list mem fuel enough => ?_⟩
  simp only [List.mem_cons, List.mem_singleton, List.not_mem_nil, or_false] at mem
  rcases mem with rfl | rfl
  · exact col.lists.oldList.debugValidate (by omega)
  · exact col.lists.activeList.debugValidate (by omega)

theorem rootedCycle_collect_validates :
    ∃ m, Reaches InPool m ∧ m.gc.nextFreeObject = none ∧ m.gc.payloads 0 = .pair 1 1 ∧
    m.gc.payloads 1 = .pair 0 1 ∧ RootTarget m.store m.gc.rootObjects 0 ∧
    (m.gc.nextFreeObject = none → ∃ collected freed, ∃ reached : List Nat,
      bakerCollect m.store (noSpace m.gc) = .ok (collected, freed) ∧ reached.Nodup ∧
      (∀ a, a ∈ reached ↔ Reachable m.gc.payloads (RootTarget m.store m.gc.rootObjects) a) ∧
      collected.oldHeapObjects.numObjects = reached.length ∧
      collected.activeHeapObjects.numObjects = freed ∧
      ∀ list ∈ [collected.oldHeapObjects, collected.activeHeapObjects], ∀ fuel,
        collected.poolSize ≤ fuel → (debugValidate collected.cells list fuel).run =
          if list.numObjects = 2 then some (.error "list tail prev is wrong. Is %p. Should be %p")
          else some (.ok ())) := by
  obtain ⟨m, reach, empty, zero, one, root, -⟩ := Reaches.rootedCycle
  exact ⟨m, reach, empty, zero, one, root, debug_gc_collect_rejects_two_cell_lists reach⟩

end Collections

end BrianScheme
