import BrianScheme.Gc.Collect
import Mathlib.Data.List.Perm.Subperm
import Mathlib.Logic.Relation

/-! Marking. While `baker_collect` runs `move_reachable` from each root, Old is a queue of
pending cells (at its head) followed by scanned ones, a cell has the marking color exactly
when it is on Old, and every scanned cell has all its fields on Old. The loop lemmas carry
this invariant through `maybe_move`, the scan loop and the loop over Roots. -/

namespace BrianScheme

def GcState.payloads (s : GcState) : Nat → Payload := fun a => (s.cells a).payload

/-- The cells reachable from `targets` through the fields `move_reachable` scans. -/
inductive Reachable (payloads : Nat → Payload) (targets : Nat → Prop) : Nat → Prop
  | target {a : Nat} : targets a → Reachable payloads targets a
  | child {a b : Nat} : Reachable payloads targets a → b ∈ (payloads a).children →
      Reachable payloads targets b

theorem Reachable.closed {payloads : Nat → Payload} {targets : Nat → Prop} {held : Nat → Prop}
    (start : ∀ t, targets t → held t) (step : ∀ a b, held a → b ∈ (payloads a).children → held b)
    {a : Nat} (reach : Reachable payloads targets a) : held a := by
  induction reach with
  | target found => exact start _ found
  | child _ child ih => exact step _ _ ih child

theorem Reachable.of_targets {payloads : Nat → Payload} {targets targets' : Nat → Prop}
    (cover : ∀ t, targets' t → Reachable payloads targets t) {a : Nat}
    (reach : Reachable payloads targets' a) : Reachable payloads targets a :=
  reach.closed cover fun _ _ held child => held.child child

/-- `a` is `*r` for an entry `r` of Roots. -/
def RootTarget (store : Nat → Option Nat) (roots : StackSet Nat) (a : Nat) : Prop :=
  ∃ r ∈ roots.contents, store r = some a

/-- Every reference the collector follows is a cell of the pool. -/
structure Bounded (store : Nat → Option Nat) (s : GcState) : Prop where
  children : ∀ a < s.poolSize, ∀ b ∈ (s.payloads a).children, b < s.poolSize
  roots : ∀ a, RootTarget store s.rootObjects a → a < s.poolSize

/-- Active and Old are well formed, disjoint, and together hold exactly the pool. -/
structure ListInv (s : GcState) (active old : List Nat) : Prop where
  activeList : Represents s.cells s.activeHeapObjects active
  oldList : Represents s.cells s.oldHeapObjects old
  disjoint : active.Disjoint old
  cover : ∀ a, a ∈ active ∨ a ∈ old ↔ a < s.poolSize

/-- While marking, a cell of the pool carries the marking color exactly when it is on Old. -/
structure Marking (s : GcState) (active old : List Nat) : Prop where
  lists : ListInv s active old
  marked : ∀ a < s.poolSize, (s.cells a).color = s.currentColor ↔ a ∈ old

/-- The marking invariant; Old is `pending ++ scanned` and `scan_iter` is the last pending cell. -/
structure MarkInv (store : Nat → Option Nat) (s : GcState) (active pending scanned : List Nat)
    extends Marking s active (pending ++ scanned) : Prop where
  closed : ∀ a ∈ scanned, ∀ b ∈ (s.payloads a).children, b ∈ pending ++ scanned
  sound : ∀ a ∈ pending ++ scanned, Reachable s.payloads (RootTarget store s.rootObjects) a
  bounded : Bounded store s

/-- `s'` differs from `s` only in colors, links and list headers. -/
structure OnlyMarks (s s' : GcState) : Prop where
  payloads : s'.payloads = s.payloads
  poolSize : s'.poolSize = s.poolSize
  rootObjects : s'.rootObjects = s.rootObjects
  currentColor : s'.currentColor = s.currentColor
  finalizableObjects : s'.finalizableObjects = s.finalizableObjects
  finalizableObjectsNext : s'.finalizableObjectsNext = s.finalizableObjectsNext
  log : s'.log = s.log
  nextFreeObject : s'.nextFreeObject = s.nextFreeObject
  nextHeapExtension : s'.nextHeapExtension = s.nextHeapExtension
  colors : ∀ a, (s'.cells a).color = (s.cells a).color ∨ (s'.cells a).color = s.currentColor

theorem OnlyMarks.refl (s : GcState) : OnlyMarks s s :=
  ⟨rfl, rfl, rfl, rfl, rfl, rfl, rfl, rfl, rfl, fun _ => Or.inl rfl⟩

theorem OnlyMarks.trans {s t u : GcState} (first : OnlyMarks s t) (second : OnlyMarks t u) :
    OnlyMarks s u :=
  ⟨second.payloads.trans first.payloads, second.poolSize.trans first.poolSize,
    second.rootObjects.trans first.rootObjects, second.currentColor.trans first.currentColor,
    second.finalizableObjects.trans first.finalizableObjects,
    second.finalizableObjectsNext.trans first.finalizableObjectsNext, second.log.trans first.log,
    second.nextFreeObject.trans first.nextFreeObject,
    second.nextHeapExtension.trans first.nextHeapExtension, fun a => by
      rcases second.colors a with same | marked
      · rw [same]; exact first.colors a
      · exact Or.inr (marked.trans first.currentColor)⟩

theorem Represents.setColor {cells : Cells} {list : DoublyLinkedList} {nodes : List Nat}
    (represents : Represents cells list nodes) (a : Nat) (color : Nat) :
    Represents (setColor cells a color) list nodes :=
  represents.frame fun _ _ => by simp

theorem prevIn_append_cons {front rest : List Nat} {x : Nat} (distinct : (front ++ x :: rest).Nodup) :
    prevIn (front ++ x :: rest) x = front.getLast? := by
  have absent : x ∉ rest := (List.nodup_cons.mp (List.nodup_append.mp distinct).2.1).1
  simp [prevIn_append, prevIn_cons, absent]

theorem ListInv.nodup {s : GcState} {A O : List Nat} (lists : ListInv s A O) : (A ++ O).Nodup :=
  List.nodup_append.mpr ⟨lists.activeList.nodup, lists.oldList.nodup, lists.disjoint⟩

theorem ListInv.length_add {s : GcState} {A O : List Nat} (lists : ListInv s A O) :
    A.length + O.length = s.poolSize := by
  have perm : (A ++ O).Perm (List.range s.poolSize) :=
    (List.perm_ext_iff_of_nodup lists.nodup (List.nodup_range _)).mpr fun a => by
      simp [← lists.cover a]
  simpa using perm.length_eq

theorem maybeMove_onlyMarks (s : GcState) (y : Nat) : OnlyMarks s (maybeMove s y) := by
  unfold maybeMove
  split
  · refine ⟨funext fun a => by simp [GcState.payloads], rfl, rfl, rfl, rfl, rfl, rfl, rfl, rfl,
      fun a => ?_⟩
    by_cases same : a = y <;> simp [same]
  · exact OnlyMarks.refl s

theorem maybeMove_of_colored {s : GcState} {y : Nat}
    (colored : (s.cells y).color = s.currentColor) : maybeMove s y = s := by
  simp [maybeMove, colored]

theorem maybeMove_marking {s : GcState} {A O : List Nat} {y : Nat} (marking : Marking s A O)
    (bound : y < s.poolSize) (colored : (s.cells y).color ≠ s.currentColor) :
    y ∈ A ∧ Marking (maybeMove s y) (A.erase y) (y :: O) := by
  have frame := maybeMove_onlyMarks s y
  have inActive : y ∈ A := by
    rcases (marking.lists.cover y).mpr bound with mem | mem
    · exact mem
    · exact absurd ((marking.marked y bound).mpr mem) colored
  obtain ⟨srcRep, destRep⟩ := moveObjectToHead_represents marking.lists.activeList
    marking.lists.oldList marking.lists.disjoint inActive
  have erased : ∀ {a}, a ∈ A.erase y ↔ a ≠ y ∧ a ∈ A :=
    marking.lists.activeList.nodup.mem_erase_iff
  have cells : (maybeMove s y).cells =
      setColor (moveObjectToHead s.cells y s.activeHeapObjects s.oldHeapObjects).1 y
        s.currentColor := by simp [maybeMove, colored]
  refine ⟨inActive, ⟨⟨?_, ?_, ?_, ?_⟩, ?_⟩⟩
  · rw [cells]; simpa [maybeMove, colored] using srcRep.setColor y s.currentColor
  · rw [cells]; simpa [maybeMove, colored] using destRep.setColor y s.currentColor
  · intro a inErased inOld
    obtain ⟨ne, mem⟩ := erased.mp inErased
    rcases List.mem_cons.mp inOld with same | old
    · exact ne same
    · exact marking.lists.disjoint mem old
  · intro a
    rw [frame.poolSize, ← marking.lists.cover a, erased]
    by_cases same : a = y
    · subst same; simp [inActive]
    · simp [same]
  · intro a lt
    rw [frame.poolSize] at lt
    rw [cells, frame.currentColor]
    by_cases same : a = y
    · subst same; simp
    · simp [same, marking.marked a lt]

/-- One `maybe_move` of a cell of the pool: while marking, the lists change only by such steps. -/
def MarkStep (s s' : GcState) : Prop := ∃ y < s.poolSize, maybeMove s y = s'

theorem markSteps_onlyMarks {s s' : GcState} (steps : Relation.ReflTransGen MarkStep s s') :
    OnlyMarks s s' := by
  induction steps with
  | refl => exact OnlyMarks.refl s
  | tail _ step ih =>
    obtain ⟨y, -, rfl⟩ := step
    exact ih.trans (maybeMove_onlyMarks _ y)

theorem Marking.markSteps {s s' : GcState} {A O : List Nat} (marking : Marking s A O)
    (steps : Relation.ReflTransGen MarkStep s s') : ∃ A' O', Marking s' A' O' := by
  induction steps with
  | refl => exact ⟨A, O, marking⟩
  | @tail t _ _ step ih =>
    obtain ⟨A', O', marking'⟩ := ih
    obtain ⟨y, bound, rfl⟩ := step
    by_cases colored : (t.cells y).color = t.currentColor
    · exact ⟨A', O', by rwa [maybeMove_of_colored colored]⟩
    · exact ⟨_, _, (maybeMove_marking marking' bound colored).2⟩

variable {store : Nat → Option Nat}

theorem maybeMove_inv {s : GcState} {A Q D : List Nat} {y : Nat}
    (inv : MarkInv store s A Q D) (bound : y < s.poolSize)
    (reach : Reachable s.payloads (RootTarget store s.rootObjects) y) :
    ∃ A' moved, MarkInv store (maybeMove s y) A' (moved ++ Q) D ∧ y ∈ moved ++ Q ++ D ∧
      A'.length + moved.length = A.length ∧
      moved = if (s.cells y).color = s.currentColor then [] else [y] := by
  have frame := maybeMove_onlyMarks s y
  by_cases colored : (s.cells y).color = s.currentColor
  · refine ⟨A, [], ?_, ?_, rfl, by simp [colored]⟩
    · simpa [maybeMove_of_colored colored] using inv
    · simpa using (inv.marked y bound).mp colored
  obtain ⟨inActive, marking⟩ := maybeMove_marking inv.toMarking bound colored
  refine ⟨A.erase y, [y], ⟨by simpa using marking, ?_, ?_, ?_⟩, by simp, ?_, by simp [colored]⟩
  · intro a mem b child
    rw [frame.payloads] at child
    exact List.mem_cons_of_mem _ (inv.closed a mem b child)
  · intro a mem
    rw [frame.payloads, frame.rootObjects]
    rcases List.mem_cons.mp mem with rfl | old
    · exact reach
    · exact inv.sound a old
  · exact ⟨by rw [frame.poolSize, frame.payloads]; exact inv.bounded.children,
      by rw [frame.poolSize, frame.rootObjects]; exact inv.bounded.roots⟩
  · simp [List.length_erase_of_mem inActive]
    have : 0 < A.length := List.length_pos_of_mem inActive
    omega

theorem foldl_maybeMove_markSteps (cs : List Nat) {s : GcState}
    (bound : ∀ c ∈ cs, c < s.poolSize) : Relation.ReflTransGen MarkStep s (cs.foldl maybeMove s) := by
  induction cs generalizing s with
  | nil => exact .refl
  | cons c cs ih =>
    exact .head ⟨c, bound c (List.mem_cons_self _ _), rfl⟩ (ih fun c' mem =>
      (maybeMove_onlyMarks s c).poolSize ▸ bound c' (List.mem_cons_of_mem _ mem))

theorem foldl_maybeMove_inv (cs : List Nat) {s : GcState} {A Q D : List Nat}
    (inv : MarkInv store s A Q D) (bound : ∀ c ∈ cs, c < s.poolSize)
    (reach : ∀ c ∈ cs, Reachable s.payloads (RootTarget store s.rootObjects) c) :
    ∃ A' moved, MarkInv store (cs.foldl maybeMove s) A' (moved ++ Q) D ∧
      (∀ c ∈ cs, c ∈ moved ++ Q ++ D) ∧ A'.length + moved.length = A.length := by
  induction cs generalizing s A Q with
  | nil => exact ⟨A, [], by simpa using inv, by simp, rfl⟩
  | cons c cs ih =>
    obtain ⟨A₁, m₁, inv₁, member₁, length₁, -⟩ :=
      maybeMove_inv inv (bound c (List.mem_cons_self _ _)) (reach c (List.mem_cons_self _ _))
    have frame := maybeMove_onlyMarks s c
    obtain ⟨A₂, m₂, inv₂, member₂, length₂⟩ := ih inv₁
      (fun c' mem => frame.poolSize ▸ bound c' (List.mem_cons_of_mem _ mem))
      (fun c' mem => frame.payloads ▸ frame.rootObjects ▸ reach c' (List.mem_cons_of_mem _ mem))
    refine ⟨A₂, m₂ ++ m₁, by simpa using inv₂, ?_, by simp; omega⟩
    intro c' mem
    rcases List.mem_cons.mp mem with rfl | rest
    · have := member₁; simp only [List.mem_append] at this ⊢; tauto
    · simpa using member₂ c' rest

theorem MarkInv.scan {s : GcState} {A P D : List Nat} {x : Nat}
    (inv : MarkInv store s A (P ++ [x]) D)
    (fields : ∀ b ∈ (s.payloads x).children, b ∈ P ++ [x] ++ D) :
    MarkInv store s A P (x :: D) := by
  have e : P ++ [x] ++ D = P ++ x :: D := by simp
  refine ⟨⟨e ▸ inv.lists, fun a lt => e ▸ inv.marked a lt⟩, ?_,
    fun a mem => inv.sound a (e ▸ mem), inv.bounded⟩
  intro a mem b child
  rw [← e]
  rcases List.mem_cons.mp mem with rfl | rest
  · exact fields b child
  · exact inv.closed a rest b child

theorem scanLoop_inv (fuel : Nat) {s : GcState} {A Q D : List Nat}
    (inv : MarkInv store s A Q D) (enough : A.length + Q.length ≤ fuel) :
    ∃ s' A' D', scanLoop fuel s Q.getLast? = .ok s' ∧ MarkInv store s' A' [] D' ∧
      Relation.ReflTransGen MarkStep s s' ∧ ∀ a ∈ Q ++ D, a ∈ D' := by
  induction fuel generalizing s A Q D with
  | zero =>
    have empty : Q = [] := List.eq_nil_of_length_eq_zero (by omega)
    subst empty
    exact ⟨s, A, D, rfl, inv, .refl, by simp⟩
  | succ f ih =>
    rcases List.eq_nil_or_concat Q with rfl | ⟨Q', x, hQ⟩
    · exact ⟨s, A, D, rfl, inv, .refl, by simp⟩
    rw [List.concat_eq_append] at hQ
    subst hQ
    have xOld : x ∈ Q' ++ [x] ++ D := by simp
    have xBound : x < s.poolSize := (inv.lists.cover x).mp (Or.inr xOld)
    obtain ⟨A₁, moved, inv₁, member₁, length₁⟩ := foldl_maybeMove_inv (s.payloads x).children inv
      (fun c mem => inv.bounded.children x xBound c mem)
      (fun c mem => Reachable.child (inv.sound x xOld) mem)
    have steps₁ := foldl_maybeMove_markSteps (s.payloads x).children
      (inv.bounded.children x xBound)
    have frame₁ := markSteps_onlyMarks steps₁
    rw [← List.append_assoc] at inv₁
    have inv₂ := inv₁.scan fun b child => by
      rw [congrFun frame₁.payloads x] at child
      simpa using member₁ b child
    have prev : ((scanFields s x).cells x).prev = (moved ++ Q').getLast? := by
      have e : moved ++ Q' ++ [x] ++ D = (moved ++ Q') ++ x :: D := by simp
      have distinct := inv₁.lists.oldList.nodup
      have := inv₁.lists.oldList.prev x (by simp)
      rw [e] at distinct this
      exact this.trans (prevIn_append_cons distinct)
    obtain ⟨s', A', D', run, inv', steps', member'⟩ := ih inv₂ (by simp at enough ⊢; omega)
    refine ⟨s', A', D', ?_, inv', steps₁.trans steps', ?_⟩
    · simp only [List.getLast?_append, List.getLast?_singleton, Option.or_some, scanLoop]
      rw [prev]
      exact run
    · intro a mem
      apply member'
      simp only [List.mem_append, List.mem_cons, List.mem_singleton] at mem ⊢
      tauto

theorem moveReachable_eq (s : GcState) (root : Nat) :
    moveReachable s (some root) =
      if (s.cells root).color = s.currentColor then .ok s
      else scanLoop s.poolSize (maybeMove s root) (maybeMove s root).oldHeapObjects.head := by
  simp only [moveReachable]
  by_cases colored : (s.cells root).color = s.currentColor
  · simp [colored]
  · simp only [colored, if_false, maybeMove, ne_eq, not_false_eq_true, if_true,
      moveObjectToHead_setColor]

theorem moveReachable_inv {s : GcState} {A D : List Nat} (inv : MarkInv store s A [] D)
    (root : Option Nat) (target : ∀ r, root = some r → RootTarget store s.rootObjects r) :
    ∃ s' A' D', moveReachable s root = .ok s' ∧ MarkInv store s' A' [] D' ∧
      Relation.ReflTransGen MarkStep s s' ∧ (∀ a ∈ D, a ∈ D') ∧ ∀ r, root = some r → r ∈ D' := by
  rcases root with _ | r
  · exact ⟨s, A, D, rfl, inv, .refl, fun _ mem => mem, by simp⟩
  have rTarget := target r rfl
  have bound := inv.bounded.roots r rTarget
  rw [moveReachable_eq]
  by_cases colored : (s.cells r).color = s.currentColor
  · refine ⟨s, A, D, by simp [colored], inv, .refl, fun _ mem => mem, ?_⟩
    simpa using (inv.marked r bound).mp colored
  obtain ⟨A₁, moved, inv₁, -, length₁, rfl⟩ := maybeMove_inv inv bound (.target rTarget)
  simp only [colored, if_false] at inv₁ length₁ ⊢
  have frame₁ := maybeMove_onlyMarks s r
  have head : (maybeMove s r).oldHeapObjects.head = [r].getLast? := by
    simpa using inv₁.lists.oldList.head
  have enough : A₁.length + [r].length ≤ s.poolSize := by
    have := inv.lists.length_add
    simp only [List.length_singleton] at length₁ ⊢
    omega
  obtain ⟨s', A', D', run, inv', steps', member'⟩ :=
    scanLoop_inv s.poolSize inv₁ (frame₁.poolSize ▸ enough)
  refine ⟨s', A', D', ?_, inv', .head ⟨r, bound, rfl⟩ steps', fun a mem => member' a (by simp [mem]),
    fun r' same => member' r' (by simp [Option.some.inj same])⟩
  rw [head]
  exact run

theorem mem_contents {roots : StackSet Nat} {ii : Nat} (below : ii < roots.top) :
    roots.objs ii ∈ roots.contents :=
  List.mem_map.mpr ⟨ii, List.mem_range.mpr below, rfl⟩

theorem foldlM_moveReachable_inv (l : List Nat) {s : GcState} {A D : List Nat}
    (inv : MarkInv store s A [] D) (indices : ∀ ii ∈ l, ii < s.rootObjects.top) :
    ∃ s' A' D', l.foldlM (fun t ii => moveReachable t (store (t.rootObjects.objs ii))) s = .ok s' ∧
      MarkInv store s' A' [] D' ∧ Relation.ReflTransGen MarkStep s s' ∧ (∀ a ∈ D, a ∈ D') ∧
      ∀ ii ∈ l, ∀ a, store (s.rootObjects.objs ii) = some a → a ∈ D' := by
  induction l generalizing s A D with
  | nil => exact ⟨s, A, D, rfl, inv, .refl, fun _ mem => mem, by simp⟩
  | cons ii rest ih =>
    have below := indices ii (List.mem_cons_self _ _)
    obtain ⟨s₁, A₁, D₁, run₁, inv₁, steps₁, kept₁, root₁⟩ := moveReachable_inv inv
      (store (s.rootObjects.objs ii)) fun r found => ⟨_, mem_contents below, found⟩
    have frame₁ := markSteps_onlyMarks steps₁
    obtain ⟨s₂, A₂, D₂, run₂, inv₂, steps₂, kept₂, roots₂⟩ := ih inv₁
      fun jj mem => frame₁.rootObjects ▸ indices jj (List.mem_cons_of_mem _ mem)
    refine ⟨s₂, A₂, D₂, ?_, inv₂, steps₁.trans steps₂, fun a mem => kept₂ a (kept₁ a mem), ?_⟩
    · simp only [List.foldlM_cons, run₁]
      exact run₂
    · intro jj mem a found
      rcases List.mem_cons.mp mem with rfl | later
      · exact kept₂ a (root₁ a found)
      · exact roots₂ jj later a (frame₁.rootObjects ▸ found)

theorem markRoots_inv {s : GcState} {A D : List Nat} (inv : MarkInv store s A [] D) :
    ∃ s' A' D', markRoots store s = .ok s' ∧ MarkInv store s' A' [] D' ∧
      Relation.ReflTransGen MarkStep s s' ∧ (∀ a ∈ D, a ∈ D') ∧
      ∀ a, RootTarget store s.rootObjects a → a ∈ D' := by
  obtain ⟨s', A', D', run, inv', steps, kept, roots⟩ :=
    foldlM_moveReachable_inv (List.range s.rootObjects.top) inv fun ii => List.mem_range.mp
  refine ⟨s', A', D', run, inv', steps, kept, ?_⟩
  rintro a ⟨r, mem, found⟩
  obtain ⟨ii, below, rfl⟩ := List.mem_map.mp mem
  exact roots ii below a found

section Frame

/-! Whatever the heap looks like, marking changes only colors and the two lists. -/

theorem scanFields_onlyMarks (s : GcState) (scanIter : Nat) : OnlyMarks s (scanFields s scanIter) := by
  unfold scanFields
  generalize (s.cells scanIter).payload.children = cs
  induction cs generalizing s with
  | nil => exact OnlyMarks.refl s
  | cons c cs ih => exact (maybeMove_onlyMarks s c).trans (ih _)

theorem scanLoop_onlyMarks {fuel : Nat} {s s' : GcState} {scan : Option Nat}
    (run : scanLoop fuel s scan = .ok s') : OnlyMarks s s' := by
  induction fuel generalizing s scan with
  | zero => cases scan <;> cases run; exact OnlyMarks.refl _
  | succ f ih =>
    cases scan with
    | none => cases run; exact OnlyMarks.refl _
    | some scanIter => exact (scanFields_onlyMarks s scanIter).trans (ih run)

theorem moveReachable_onlyMarks {s s' : GcState} {root : Option Nat}
    (run : moveReachable s root = .ok s') : OnlyMarks s s' := by
  rcases root with _ | r
  · cases run; exact OnlyMarks.refl _
  rw [moveReachable_eq] at run
  split at run
  · cases run; exact OnlyMarks.refl _
  · exact (maybeMove_onlyMarks s r).trans (scanLoop_onlyMarks run)

theorem markRoots_onlyMarks {s s' : GcState} (run : markRoots store s = .ok s') : OnlyMarks s s' := by
  unfold markRoots at run
  generalize List.range s.rootObjects.top = l at run
  induction l generalizing s with
  | nil => cases run; exact OnlyMarks.refl _
  | cons ii rest ih =>
    rw [List.foldlM_cons] at run
    cases first : moveReachable s (store (s.rootObjects.objs ii)) with
    | error e => rw [first] at run; cases run
    | ok t => rw [first] at run; exact (moveReachable_onlyMarks first).trans (ih run)

end Frame

theorem MarkInv.mem_iff_reachable {s : GcState} {A D : List Nat} (inv : MarkInv store s A [] D)
    (roots : ∀ a, RootTarget store s.rootObjects a → a ∈ D) (a : Nat) :
    a ∈ D ↔ Reachable s.payloads (RootTarget store s.rootObjects) a := by
  refine ⟨fun mem => inv.sound a mem, fun reach => ?_⟩
  induction reach with
  | target found => exact roots _ found
  | child _ child ih => exact inv.closed _ ih _ child

end BrianScheme
