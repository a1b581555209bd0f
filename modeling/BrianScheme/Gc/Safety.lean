import BrianScheme.Gc.Invariant

/-! No live cell is handed out again. A program that writes each new cell before it does
anything else, and pins and stores only live references, never gets back from `alloc_object`
a cell reachable from Roots. Without the first condition it can: a reused cell keeps the
fields of its previous life, and pinning it before writing them makes their targets
reachable while they are still on the free chain. -/

namespace BrianScheme

section Reach

variable {payloads : Nat → Payload} {targets : Nat → Prop}

theorem Reachable.lt_poolSize {store : Nat → Option Nat} {s : GcState} (bounded : Bounded store s)
    {a : Nat} (reach : Reachable s.payloads (RootTarget store s.rootObjects) a) : a < s.poolSize :=
  reach.closed bounded.roots fun a b lt child => bounded.children a lt b child

theorem Reachable.of_setPayload {cells : Cells} {obj : Nat} {payload : Payload} (held : Nat → Prop)
    (start : ∀ t, targets t → held t)
    (closed : ∀ a b, held a → a ≠ obj → b ∈ (cells a).payload.children → held b)
    (fields : ∀ b ∈ payload.children, held b) {a : Nat}
    (reach : Reachable (fun c => (setPayload cells obj payload c).payload) targets a) : held a :=
  reach.closed start fun a b hA child => by
    by_cases same : a = obj
    · subst same; exact fields b (by simpa using child)
    · exact closed a b hA same (by simpa [same] using child)

end Reach

/-- The cells a program holds directly: the targets of Roots, and the cell `alloc_object`
returned last once the program has written it. -/
def Machine.Held (m : Machine) (t : Nat) : Prop :=
  RootTarget m.store m.gc.rootObjects t ∨ m.fresh = none ∧ m.returned = some t

/-- What a `Constructing` program keeps: no cell it can reach is on the free chain, and the
cell it has not written yet is reachable from nothing. -/
structure SafeInv (m : Machine) (free old : List Nat) extends MachineInv m free old : Prop where
  returnedInPool : ∀ x, m.returned = some x → x < m.gc.poolSize
  fresh : ∀ x, m.fresh = some x → m.returned = some x ∧
    ¬Reachable m.gc.payloads (RootTarget m.store m.gc.rootObjects) x ∧ x ∉ free
  held : ∀ a, Reachable m.gc.payloads m.Held a → a ∉ free

section SafeInv

variable {m : Machine} {free old : List Nat}

theorem Machine.Live.reachable {a : Nat} (live : m.Live a) (written : m.fresh = none) :
    Reachable m.gc.payloads m.Held a := by
  rcases live with reach | returned
  · exact reach.of_targets fun t root => .target (.inl root)
  · exact .target (.inr ⟨written, returned⟩)

theorem SafeInv.lt_of_live (inv : SafeInv m free old) {a : Nat} (live : m.Live a) :
    a < m.gc.poolSize := by
  rcases live with reach | returned
  · exact reach.lt_poolSize inv.bounded
  · exact inv.returnedInPool a returned

theorem SafeInv.of_held (inv : SafeInv m free old) {m' : Machine} (machine : MachineInv m' free old)
    (written : m'.fresh = none) (returned : m'.returned = m.returned)
    (payloads : m'.gc.payloads = m.gc.payloads) (poolSize : m'.gc.poolSize = m.gc.poolSize)
    (held : ∀ t, m'.Held t → Reachable m.gc.payloads m.Held t) : SafeInv m' free old where
  toMachineInv := machine
  returnedInPool x same := poolSize ▸ inv.returnedInPool x (returned ▸ same)
  fresh x same := absurd (written.symm.trans same) (by simp)
  held a reach := inv.held a ((payloads ▸ reach).of_targets held)

theorem Constructing.written {event : Event} (allowed : Constructing m event)
    (notWrite : ∀ obj payload, event ≠ .write obj payload) : m.fresh = none := by
  cases fresh : m.fresh with
  | none => rfl
  | some obj =>
    obtain ⟨payload, rfl⟩ := allowed.2 obj fresh
    exact absurd rfl (notWrite obj payload)

theorem SafeInv.alloc (inv : SafeInv m free old) (nf : Bool) :
    ∃ gc x free' old', allocObject m.store m.gc nf = .ok (gc, x) ∧
      ¬Reachable gc.payloads (RootTarget m.store gc.rootObjects) x ∧
      SafeInv { m with gc := gc, returned := some x, fresh := some x } free' old' := by
  obtain ⟨s', x, free', old', run, heap, handed, -, payloads, rootObjects, grew, cases⟩ :=
    inv.heap.allocObject inv.roots nf
  have active : x ∈ handedSince s'.log ++ free' := List.mem_append_left _ handed
  have notFree : x ∉ free' :=
    List.disjoint_of_nodup_append heap.lists.activeList.nodup handed
  have away : ∀ a, Reachable m.gc.payloads (RootTarget m.store m.gc.rootObjects) a →
      a ≠ x ∧ a ∉ free' := by
    intro a reach
    rcases cases with ⟨rfl, -⟩ | ⟨-, reached⟩
    · have := inv.held a (reach.of_targets fun t root => .target (.inl root))
      simp only [List.mem_cons, not_or] at this
      exact this
    · have old := (reached a).mpr reach
      refine ⟨fun same => heap.lists.disjoint active (same ▸ old), fun mem =>
        heap.lists.disjoint (List.mem_append_right _ mem) old⟩
  have fromRoots : ∀ {a}, Reachable s'.payloads (RootTarget m.store s'.rootObjects) a →
      Reachable m.gc.payloads (RootTarget m.store m.gc.rootObjects) a := by
    intro a reach
    rwa [payloads, rootObjects] at reach
  refine ⟨s', x, free', old', run, fun reach => (away x (fromRoots reach)).1 rfl,
    ⟨heap, fun a target => (inv.roots a (rootObjects ▸ target)).trans_le grew⟩, ?_, ?_, ?_⟩
  · rintro _ ⟨⟩
    exact (heap.lists.cover x).mp (.inl active)
  · rintro _ ⟨⟩
    exact ⟨rfl, fun reach => (away x (fromRoots reach)).1 rfl, notFree⟩
  · intro a reach
    refine (away a (fromRoots (reach.of_targets fun t held => .target ?_))).2
    simpa [Machine.Held] using held

theorem SafeInv.write_event {m' : Machine} {obj : Nat} {payload : Payload}
    (inv : SafeInv m free old) (allowed : Constructing m (.write obj payload))
    (stepped : m.step (.write obj payload) = some m') : SafeInv m' free old := by
  cases stepped
  have machine := inv.write (inv.lt_of_live allowed.1.1)
    (fun b mem => inv.lt_of_live (allowed.1.2 b mem)) (if m.fresh = some obj then none else m.fresh)
  refine ⟨machine, inv.returnedInPool, ?_, ?_⟩
  · intro x same
    by_cases written : m.fresh = some obj
    · simp [written] at same
    · rw [if_neg written] at same
      obtain ⟨_, same'⟩ := allowed.2 x same
      exact absurd ((Event.write.inj same').1 ▸ same) written
  cases fresh : m.fresh with
  | none =>
    intro a reach
    refine inv.held a (Reachable.of_setPayload _ (fun t held => .target ?_)
      (fun _ _ reach _ child => reach.child child)
      (fun b mem => (allowed.1.2 b mem).reachable fresh) reach)
    simpa [Machine.Held, fresh] using held
  | some x =>
    obtain ⟨returned, unreached, notFree⟩ := inv.fresh x fresh
    obtain ⟨_, same⟩ := allowed.2 x fresh
    have objEq : obj = x := (Event.write.inj same).1
    intro a reach
    have held : Reachable m.gc.payloads (RootTarget m.store m.gc.rootObjects) a ∨ a = x :=
      Reachable.of_setPayload (fun a => _ ∨ a = x) (fun t held => ?_)
        (fun _ _ reach other child => .inl ((reach.resolve_right (objEq ▸ other)).child child))
        (fun b mem => ?_) reach
    · rcases held with reach | rfl
      · exact inv.held a (reach.of_targets fun t root => .target (.inl root))
      · exact notFree
    · simp only [Machine.Held, fresh, objEq, if_true] at held
      rcases held with root | ⟨-, same⟩
      · exact .inl (.target root)
      · exact .inr (Option.some.inj (returned.symm.trans same)).symm
    · rcases allowed.1.2 b mem with reach | same
      · exact .inl reach
      · exact .inr (Option.some.inj (same.symm.trans returned))

theorem SafeInv.step {m' : Machine} {event : Event} (inv : SafeInv m free old)
    (allowed : Constructing m event) (stepped : m.step event = some m') :
    ∃ free' old', SafeInv m' free' old' := by
  cases event with
  | alloc nf =>
    obtain ⟨gc, obj, allocated, rfl⟩ := step_alloc stepped
    obtain ⟨s', x, free', old', run, -, safe⟩ := inv.alloc nf
    obtain ⟨rfl, rfl⟩ := Prod.mk.inj (Except.ok.inj (allocated.symm.trans run))
    exact ⟨free', old', safe⟩
  | pushRoot root =>
    cases stepped
    have written := allowed.written (by simp)
    refine ⟨free, old, inv.of_held (inv.pushRoot fun a found => inv.lt_of_live (allowed.1 a found))
      written rfl rfl rfl ?_⟩
    rintro t (⟨r, mem, found⟩ | returned)
    · simp only [BrianScheme.pushRoot, contents_stackSetPush, List.mem_append,
        List.mem_singleton] at mem
      rcases mem with old | rfl
      · exact .target (.inl ⟨r, old, found⟩)
      · exact (allowed.1 t found).reachable written
    · exact .target (.inr returned)
  | popRoot root =>
    obtain ⟨gc, popped, rfl⟩ := step_popRoot stepped
    obtain ⟨shape, kept⟩ := popRoot_ok popped
    have written := allowed.written (by simp)
    refine ⟨free, old, inv.of_held (inv.popRoot popped) written rfl (by rw [shape]; rfl)
      (by rw [shape]) ?_⟩
    rintro t (⟨r, mem, found⟩ | returned)
    · exact .target (.inl ⟨r, kept r mem, found⟩)
    · exact .target (.inr returned)
  | setLocal root value =>
    cases stepped
    have written := allowed.written (by simp)
    refine ⟨free, old, inv.of_held (inv.setLocal fun a same => inv.lt_of_live (allowed.1 a same))
      written rfl rfl rfl ?_⟩
    rintro t (⟨r, mem, found⟩ | returned)
    · by_cases same : r = root
      · subst same
        exact (allowed.1 t (by simpa using found)).reachable written
      · exact .target (.inl ⟨r, mem, by simpa [same] using found⟩)
    · exact .target (.inr returned)
  | write obj payload => exact ⟨free, old, inv.write_event allowed stepped⟩

end SafeInv

theorem initMachine_safeInv : SafeInv initMachine (List.range' 0 initialHeapExtension) [] where
  toMachineInv := ⟨gcInit_heapInv, by simp [RootTarget, initMachine, gcInit]⟩
  returnedInPool := by simp [initMachine]
  fresh := by simp [initMachine]
  held a reach := (@Reachable.closed _ _ (fun _ => False) (fun t held => by
      simp [Machine.Held, RootTarget, initMachine, gcInit] at held) (fun _ _ held _ => held) a
    reach).elim

theorem Reaches.safeInv {m : Machine} (reach : Reaches Constructing m) :
    ∃ free old, SafeInv m free old := by
  induction reach with
  | init => exact ⟨_, _, initMachine_safeInv⟩
  | step _ allowed stepped ih =>
    obtain ⟨free, old, inv⟩ := ih
    exact inv.step allowed stepped

/-- In every run of a program that writes each new cell before anything else and pins and
stores only live references, `alloc_object` succeeds and returns a cell that nothing on Roots
reaches at the moment it returns it. -/
theorem alloc_never_returns_reachable {m : Machine} (reach : Reaches Constructing m) (nf : Bool) :
    ∃ gc x, allocObject m.store m.gc nf = .ok (gc, x) ∧
      ¬Reachable gc.payloads (RootTarget m.store gc.rootObjects) x := by
  obtain ⟨free, old, inv⟩ := reach.safeInv
  obtain ⟨gc, x, -, -, run, unreached, -⟩ := inv.alloc nf
  exact ⟨gc, x, run, unreached⟩

/-- A constructor call of a constructing program: `alloc_object`, then the store of the new
cell's payload. -/
theorem Reaches.construct {m m₁ m₂ : Machine} (x : Nat) (payload : Payload)
    (reach : Reaches Constructing m) (written : m.fresh = none)
    (allocated : m.step (.alloc false) = some m₁) (handed : m₁.fresh = some x)
    (returned : m₁.returned = some x) (children : ∀ b ∈ payload.children, m₁.Live b)
    (stepped : m₁.step (.write x payload) = some m₂) : Reaches Constructing m₂ :=
  @Reaches.step _ _ _ (.write x payload)
    (@Reaches.step _ _ _ (.alloc false) reach ⟨trivial, fun _ fresh => by simp [written] at fresh⟩
      allocated)
    ⟨⟨.inr returned, children⟩, fun _ fresh => ⟨payload, by rw [handed] at fresh; cases fresh; rfl⟩⟩
    stepped

/-- `*root = a; push_root(root);` for a cell `a` the program holds. -/
theorem Reaches.pin {m m₁ m₂ : Machine} (root a : Nat) (reach : Reaches Constructing m)
    (written : m.fresh = none) (live : m.Live a) (assigned : m.step (.setLocal root (some a)) = some m₁)
    (held : m₁.store root = some a) (liveAfter : m₁.Live a) (written₁ : m₁.fresh = none)
    (pushed : m₁.step (.pushRoot root) = some m₂) : Reaches Constructing m₂ :=
  @Reaches.step _ _ _ (.pushRoot root)
    (@Reaches.step _ _ _ (.setLocal root (some a)) reach
      ⟨fun _ same => by cases same; exact live, fun _ fresh => by simp [written] at fresh⟩ assigned)
    ⟨fun _ found => by rw [held] at found; cases found; exact liveAfter,
      fun _ fresh => by simp [written₁] at fresh⟩ pushed

theorem Machine.live_of_held {m : Machine} {children : List Nat}
    (held : ∀ b ∈ children, ∃ r ∈ m.gc.rootObjects.contents, m.store r = some b) :
    ∀ b ∈ children, m.Live b := fun b mem =>
  .inl (.target (held b mem))

/-- A constructing program from `gc_init`: the empty list in cell 0 and the pair `(() . ())` in
cell 1, each held by a variable at addresses 100 and 101 and pushed on Roots. -/
def pairEvents : List Event :=
  [.alloc false, .write 0 .theEmptyList, .setLocal 100 (some 0), .pushRoot 100,
   .alloc false, .write 1 (.pair 0 0), .setLocal 101 (some 1), .pushRoot 101]

def pairMachine : Machine := (pairEvents.foldlM Machine.step initMachine).getD initMachine

theorem pairMachine_reaches : Reaches Constructing pairMachine := by
  have emptyList := Reaches.init.construct 0 .theEmptyList rfl rfl rfl rfl
    (fun _ mem => nomatch mem) rfl
  have pinned₀ := emptyList.pin 100 0 rfl (.inr rfl) rfl rfl (.inr rfl) rfl rfl
  have pair := pinned₀.construct 1 (.pair 0 0) rfl rfl rfl rfl
    (fun b mem => by
      obtain rfl : b = 0 := by simpa [Payload.children] using mem
      exact .inl (.target ⟨100, by decide, rfl⟩)) rfl
  exact pair.pin 101 1 rfl (.inr rfl) rfl rfl (.inr rfl) rfl rfl

theorem pairMachine_alloc_unreachable :
    Reaches Constructing pairMachine ∧
    Reachable pairMachine.gc.payloads (RootTarget pairMachine.store pairMachine.gc.rootObjects) 1 ∧
    Reachable pairMachine.gc.payloads (RootTarget pairMachine.store pairMachine.gc.rootObjects) 0 ∧
    ∃ gc x, allocObject pairMachine.store pairMachine.gc false = .ok (gc, x) ∧
      ¬Reachable gc.payloads (RootTarget pairMachine.store gc.rootObjects) x :=
  ⟨pairMachine_reaches, .target ⟨101, by decide, rfl⟩, .target ⟨100, by decide, rfl⟩,
    alloc_never_returns_reachable pairMachine_reaches false⟩

section Runs

variable {allowed : Machine → Event → Prop}

theorem Reaches.popRoot_top {m : Machine} {below : List Nat} {root : Nat} (reach : Reaches allowed m)
    (allowedPop : allowed m (.popRoot root))
    (stacked : m.gc.rootObjects.contents = below ++ [root]) :
    ∃ roots : StackSet Nat, Reaches allowed { m with gc := { m.gc with rootObjects := roots } } ∧
      roots.contents = below := by
  obtain ⟨roots, popped, contents⟩ := stackSetPop_top stacked
  exact ⟨roots, reach.step allowedPop (by simp [Machine.step, BrianScheme.popRoot, popped]),
    contents⟩

theorem markRoots_of_empty {store : Nat → Option Nat} {s : GcState}
    (empty : s.rootObjects.top = 0) : markRoots store s = .ok s := by
  simp only [markRoots, empty, List.range_zero, List.foldlM_nil]
  rfl

theorem bakerCollect_of_empty_roots {store : Nat → Option Nat} {s : GcState}
    (empty : s.rootObjects.top = 0) :
    ∃ done, bakerCollect store s = .ok (done, (mergeHeaps s).activeHeapObjects.numObjects) ∧
      done.cells = (mergeHeaps s).cells ∧
      done.nextFreeObject = (mergeHeaps s).activeHeapObjects.head ∧
      done.nextHeapExtension = s.nextHeapExtension ∧ done.rootObjects = s.rootObjects := by
  have marked : markRoots store (startMarking s) = .ok (startMarking s) := markRoots_of_empty empty
  obtain ⟨next, -, finalized⟩ := finalizeUnreached_spec (startMarking s)
  simp only [bakerCollect, marked, bind, Except.bind, pure, Except.pure, finalized, swapFinalizable]
  exact ⟨_, rfl, rfl, rfl, rfl, rfl⟩

/-- A program that pins a reused cell before writing it: it takes cell 0, pins it, stores
cell 1 into its fields and unpins it, fills the pool, and allocates again. The collection
frees everything and hands cell 0 out again with its old fields; the program pins it, and
`alloc_object` returns cell 1, which those fields reach from Roots. -/
theorem alloc_returns_cell_reached_through_stale_field :
    ∃ m gc x, Reaches Pinning m ∧ allocObject m.store m.gc false = .ok (gc, x) ∧
      Reachable gc.payloads (RootTarget m.store gc.rootObjects) x := by
  have allocAllowed : ∀ m, Pinning m (.alloc false) := fun _ => trivial
  -- take cell 0 and pin it in variable 0
  have inv₀ : HeapInv initMachine.gc ([0] ++ ([1] ++ List.range' 2 998)) [] := gcInit_heapInv
  obtain ⟨m₁, reach₁, inv₁, handed₁, returned₁, -, payloads₁, roots₁, extension₁, -⟩ :=
    Reaches.allocs allocAllowed [0] Reaches.init inv₀
  have live₁ : m₁.Live 0 := .inr (by simpa using returned₁)
  have reach₂ := @Reaches.step Pinning m₁ _ (.setLocal 0 (some 0)) reach₁
    (by rintro a ⟨⟩; exact live₁) rfl
  have reach₃ := @Reaches.step Pinning _ _ (.pushRoot 0) reach₂
    (by rintro a ⟨⟩; exact .inr (by simpa using returned₁)) rfl
  -- take cell 1 and store it into both fields of cell 0, then unpin cell 0
  obtain ⟨m₄, reach₄, inv₄, handed₄, returned₄, store₄, payloads₄, roots₄, extension₄, -⟩ :=
    Reaches.allocs allocAllowed [1] reach₃ (inv₁.setRoots _)
  have roots₃ : (pushRoot m₁.gc 0).rootObjects.contents = [0] := by
    simp [BrianScheme.pushRoot, roots₁, initMachine, gcInit]
  have pinned : m₄.Live 0 :=
    .inl (.target ⟨0, by rw [roots₄]; simp [roots₃], by rw [store₄]; simp⟩)
  have reach₅ := @Reaches.step Pinning _ _ (.write 0 (.pair 1 1)) reach₄
    ⟨pinned, by simpa [Payload.children, Machine.Live] using Or.inr returned₄⟩ rfl
  obtain ⟨roots₆, reach₆, emptied⟩ := reach₅.popRoot_top trivial
    (show _ = [] ++ [0] by rw [roots₄]; simpa using roots₃)
  -- fill the pool; cell 0 keeps its fields
  have handed₆ : handedSince m₄.gc.log = [0, 1] := by
    rw [handed₄]
    dsimp only [BrianScheme.pushRoot]
    rw [handed₁]
    rfl
  have inPool : ∀ a ∈ [0, 1], a < m₄.gc.poolSize := fun a mem =>
    (inv₄.lists.cover a).mp (.inl (by rw [handed₆]; exact List.mem_append_left _ mem))
  have fields : ∀ b ∈ (Payload.pair 1 1).children, b < m₄.gc.poolSize := fun b mem =>
    inPool b (by simp [Payload.children] at mem; simp [mem])
  have inv₆ := (inv₄.write (inPool 0 (by simp)) fields).setRoots roots₆
  rw [← List.append_nil (List.range' 2 998)] at inv₆
  obtain ⟨m₇, reach₇, inv₇, handed₇, -, -, payloads₇, roots₇, extension₇, -⟩ :=
    Reaches.allocs allocAllowed (List.range' 2 998) reach₆ inv₆
  -- the pool is full: the next allocation collects, with nothing on Roots
  have lists₇ : ListInv (noSpace m₇.gc) (List.range' 0 1000) [] := by
    have lists := inv₇.lists
    rw [handed₇, handed₆, List.append_nil] at lists
    exact ⟨lists.activeList, lists.oldList, lists.disjoint, lists.cover⟩
  have merged := mergeHeaps_listInv lists₇
  have top₇ : (noSpace m₇.gc).rootObjects.top = 0 := by
    show m₇.gc.rootObjects.top = 0
    rw [roots₇]
    simpa [StackSet.contents] using congrArg List.length emptied
  have stale₇ : (m₇.gc.cells 0).payload = .pair 1 1 := by
    simpa [GcState.payloads] using congrFun payloads₇ 0
  obtain ⟨done, run, cells, next, extension, -⟩ :=
    @bakerCollect_of_empty_roots m₇.store (noSpace m₇.gc) top₇
  have extension₇' : (noSpace m₇.gc).nextHeapExtension = 1000 :=
    extension₇.trans (extension₄.trans extension₁)
  have ready : collectAndExtend m₇.store (noSpace m₇.gc) = .ok done := by
    rw [collectAndExtend_eq run, merged.activeList.count, extension, extension₇']
    simp
  have head : done.nextFreeObject = some 0 := by
    rw [next, merged.activeList.head]
    rfl
  have collected : allocObject m₇.store m₇.gc false = handOut done false := by
    simp only [BrianScheme.allocObject, inv₇.nextFree, List.head?_nil, if_true, ready]
    rfl
  have reach₈ := @Reaches.step Pinning m₇ _ (.alloc false) reach₇ trivial
    (by simp only [Machine.step, collected, handOut_eq head false]; rfl)
  have chained : (done.cells 0).next = some 1 := by
    rw [cells, merged.activeList.next 0 (by simp)]
    rfl
  have stale₈ : (done.cells 0).payload = .pair 1 1 := by
    rw [cells]
    simpa [mergeHeaps, noSpace] using stale₇
  -- cell 0 comes back with its old fields; pin it and allocate once more
  have reach₉ := @Reaches.step Pinning _ _ (.setLocal 0 (some 0)) reach₈
    (by rintro a ⟨⟩; exact .inr rfl) rfl
  have reach₁₀ := @Reaches.step Pinning _ _ (.pushRoot 0) reach₉
    (by rintro a ⟨⟩; exact .inr rfl) rfl
  refine ⟨_, _, 1, reach₁₀, (allocObject_of_nextFree ?next false).trans (handOut_eq ?next false),
    @Reachable.child _ _ 0 1 (.target ⟨0, ?pinned, by simp⟩) ?stale⟩
  case next => simpa [BrianScheme.pushRoot] using chained
  case pinned => simp [BrianScheme.pushRoot, roots₇, emptied]
  case stale => simp [GcState.payloads, BrianScheme.pushRoot, stale₈, Payload.children]

end Runs

end BrianScheme
