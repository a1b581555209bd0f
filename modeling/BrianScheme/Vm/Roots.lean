import BrianScheme.Vm.Execute
import BrianScheme.Gc.Collection

/-! Roots across `vm_execute`. Every operation an opcode is made of leaves Roots alone,
except the `push_root`/`pop_root` pairs of `pinned` and the three pops of `VM_RETURN`; so at
each `vm_begin` Roots is what it was at entry followed by `&fn, &env, &top`, every exit
leaves it as it was at entry, and every pop finds its address on top. -/

namespace BrianScheme

/-- What the root discipline is about: Roots' entries, the count of slow pops, and where
`vm_execute`'s variables are. -/
def Vm.rootsView (v : Vm) : List Nat × Nat × Nat := (v.gc.rootObjects.contents, v.slowPops, v.base)

/-- The entries `vm_execute` keeps on Roots between opcodes. -/
def Vm.frameRoots (v : Vm) : List Nat := [v.addr .fn, v.addr .env, v.addr .top]

/-- `p` leaves Roots and the count of slow pops as it found them. -/
def KeepsRoots {α : Type} (p : VmM α) : Prop :=
  ∀ v a v', p.run v = .ok (a, v') → v'.rootsView = v.rootsView

/-- Entered with Roots holding some `R` and then `&fn, &env, &top`, `p` goes on to `vm_begin`
with Roots unchanged or returns with Roots back to `R`, and no pop of it is slow. -/
def Balanced (p : VmM Control) : Prop :=
  ∀ v c v' R, p.run v = .ok (c, v') → v.gc.rootObjects.contents = R ++ v.frameRoots →
    v'.base = v.base ∧ v'.slowPops = v.slowPops ∧
      v'.gc.rootObjects.contents = match c with
        | .next => R ++ v.frameRoots
        | .exit _ _ => R

/-- What a function of another file must do for the discipline: leave Roots as it found it. -/
def KeepsRootsCall {α : Type} (call : (Nat → Option Nat) → GcState → Except VmFault (GcState × α)) :
    Prop :=
  ∀ store gc gc' a, call store gc = .ok (gc', a) → gc'.rootObjects.contents = gc.rootObjects.contents

/-- Every primitive and both functions of the global environment leave Roots as they found it. -/
structure Externals.KeepRoots (x : Externals) : Prop where
  primitive : ∀ p stack n top, KeepsRootsCall fun store gc => x.primitive p store gc stack n top
  lookupGlobalValue : ∀ sym, KeepsRootsCall fun store gc => x.lookupGlobalValue store gc sym
  defineGlobalVariable : ∀ var val,
    KeepsRootsCall fun store gc => (x.defineGlobalVariable store gc var val).map fun gc => (gc, ())

section Rules

variable {α β : Type}

theorem KeepsRoots.bind {p : VmM α} {f : α → VmM β} (first : KeepsRoots p)
    (rest : ∀ a, KeepsRoots (f a)) : KeepsRoots (p >>= f) := by
  intro v b v' run
  obtain ⟨⟨a, u⟩, run₁, run₂⟩ := except_bind_eq_ok.mp (by simpa only [StateT.run_bind] using run)
  exact (rest a u b v' run₂).trans (first v a u run₁)

theorem KeepsRoots.pure (a : α) : KeepsRoots (pure a : VmM α) := by
  intro v b v' run
  cases run
  rfl

theorem KeepsRoots.throw (fault : VmFault) : KeepsRoots (throw fault : VmM α) := by
  intro v b v' run
  cases run

theorem KeepsRoots.of_eq {p : VmM α} (same : ∀ v a v', p.run v = .ok (a, v') →
    v'.gc.rootObjects = v.gc.rootObjects ∧ v'.slowPops = v.slowPops ∧ v'.base = v.base) :
    KeepsRoots p := by
  intro v a v' run
  obtain ⟨roots, slow, base⟩ := same v a v' run
  simp only [Vm.rootsView, roots, slow, base]

theorem Balanced.bind {p : VmM α} {f : α → VmM Control} (first : KeepsRoots p)
    (rest : ∀ a, Balanced (f a)) : Balanced (p >>= f) := by
  intro v c v' R run roots
  obtain ⟨⟨a, u⟩, run₁, run₂⟩ := except_bind_eq_ok.mp (by simpa only [StateT.run_bind] using run)
  have kept := first v a u run₁
  simp only [Vm.rootsView, Prod.mk.injEq] at kept
  have frame : u.frameRoots = v.frameRoots := by simp [Vm.frameRoots, Vm.addr, kept.2.2]
  obtain ⟨base, slow, roots'⟩ := rest a u c v' R run₂ (by rw [kept.1, frame, roots])
  exact ⟨base.trans kept.2.2, slow.trans kept.2.1, by rw [roots', frame]⟩

theorem Balanced.next : Balanced (pure .next) := by
  intro v c v' R run roots
  cases run
  exact ⟨rfl, rfl, roots⟩


end Rules

section Operations

variable (g : Globals)

theorem onHeap_keepsRoots {α : Type} (read : Cells → Except VmFault α) :
    KeepsRoots (onHeap read) := by
  intro v a v' run
  obtain ⟨r, -, done⟩ := except_bind_eq_ok.mp run
  cases done
  rfl

theorem toHeap_keepsRoots (obj : Nat) (write : Cells → Nat → Except VmFault Cells) :
    KeepsRoots (toHeap obj write) := by
  intro v a v' run
  obtain ⟨r, -, done⟩ := except_bind_eq_ok.mp run
  cases done
  rfl

theorem get_keepsRoots : KeepsRoots (get : VmM Vm) := by
  intro v a v' run
  cases run
  rfl

theorem modify_keepsRoots {f : Vm → Vm}
    (same : ∀ v, (f v).gc.rootObjects = v.gc.rootObjects ∧ (f v).slowPops = v.slowPops ∧
      (f v).base = v.base) : KeepsRoots (modify f : VmM Unit) :=
  KeepsRoots.of_eq fun v a v' run => by
    cases run
    exact same v

theorem getLocal_keepsRoots (l : VmLocal) : KeepsRoots (getLocal l) := by
  intro v a v' run
  cases run
  rfl

theorem setLocal_keepsRoots (l : VmLocal) (value : Nat) : KeepsRoots (setLocal l value) := by
  intro v a v' run
  cases run
  rfl

theorem setPc_keepsRoots (pc : Int) : KeepsRoots (setPc pc) :=
  modify_keepsRoots fun _ => ⟨rfl, rfl, rfl⟩

theorem setNArgs_keepsRoots (nArgs : Int) : KeepsRoots (setNArgs nArgs) :=
  modify_keepsRoots fun _ => ⟨rfl, rfl, rfl⟩

theorem vpush_keepsRoots (thing : Nat) : KeepsRoots (vpush g thing) := by
  intro v a v' run
  obtain ⟨r, -, done⟩ := except_bind_eq_ok.mp run
  cases done
  rfl

theorem vpop_keepsRoots : KeepsRoots (vpop g) := by
  intro v a v' run
  obtain ⟨r, -, done⟩ := except_bind_eq_ok.mp run
  cases done
  rfl

theorem construct_keepsRoots (payload : Payload) (nf : Bool) :
    KeepsRoots (construct payload nf) :=
  KeepsRoots.of_eq fun v a v' run => by
    simp only [construct, StateT.run] at run
    split at run
    · rename_i gc obj allocated
      have roots := (allocObject_frame allocated).1
      cases run
      exact ⟨roots, rfl, rfl⟩
    · cases run

theorem makeVector_keepsRoots (fill : Nat) (size : Int) : KeepsRoots (makeVector fill size) := by
  unfold makeVector
  split
  · exact construct_keepsRoots _ _
  · intro v a v' run
    cases run

theorem external_keepsRoots {α : Type}
    {call : (Nat → Option Nat) → GcState → Except VmFault (GcState × α)}
    (kept : KeepsRootsCall call) : KeepsRoots (external call) := by
  intro v a v' run
  obtain ⟨⟨gc, r⟩, called, done⟩ := except_bind_eq_ok.mp run
  cases done
  simp only [Vm.rootsView, kept _ _ _ _ called]

theorem popRootOf_top {v : Vm} {below : List Nat} {l : VmLocal}
    (stacked : v.gc.rootObjects.contents = below ++ [v.addr l]) :
    ∃ roots : StackSet Nat, (popRootOf l).run v = .ok ((), { v with gc := { v.gc with rootObjects := roots } }) ∧
      roots.contents = below := by
  obtain ⟨roots, fast, contents⟩ := stackSetPop_top stacked
  refine ⟨roots, ?_, contents⟩
  simp only [popRootOf, StateT.run, BrianScheme.popRoot, fast, Option.map_some', if_true, stacked,
    List.getLast?_concat]
  rfl

theorem popRootOf_view {v u : Vm} {below : List Nat} {l : VmLocal}
    (stacked : v.gc.rootObjects.contents = below ++ [v.addr l])
    (run : (popRootOf l).run v = .ok ((), u)) :
    u.gc.rootObjects.contents = below ∧ u.slowPops = v.slowPops ∧ u.base = v.base := by
  obtain ⟨roots, popped, contents⟩ := popRootOf_top stacked
  rw [popped] at run
  cases run
  exact ⟨contents, rfl, rfl⟩

/-- `pinned` pushes an address and pops it again; if `body` keeps Roots, the pop finds the
address on top, so it takes the fast path. -/
theorem pinned_keepsRoots {α : Type} (l : VmLocal) {body : VmM α} (kept : KeepsRoots body) :
    KeepsRoots (pinned l body) := by
  intro v a v' run
  simp only [pinned, StateT.run_bind] at run
  obtain ⟨⟨_, u⟩, pushed, run⟩ := except_bind_eq_ok.mp run
  cases pushed
  obtain ⟨⟨b, w⟩, ran, run⟩ := except_bind_eq_ok.mp run
  have view := kept _ b w ran
  simp only [Vm.rootsView, pushRoot, contents_stackSetPush, Prod.mk.injEq] at view
  obtain ⟨roots, slow, base⟩ := view
  obtain ⟨⟨_, w'⟩, popped, done⟩ := except_bind_eq_ok.mp run
  cases done
  obtain ⟨contents, slow', base'⟩ := popRootOf_view
    (by rw [roots, Vm.addr, Vm.addr, base] :
      w.gc.rootObjects.contents = v.gc.rootObjects.contents ++ [w.addr l]) popped
  simp only [Vm.rootsView, contents, slow', slow, base', base]

theorem cons_keepsRoots (a d : Nat) : KeepsRoots (cons a d) := construct_keepsRoots _ _

theorem makeCompiledProc_keepsRoots (code env : Nat) : KeepsRoots (makeCompiledProc code env) :=
  construct_keepsRoots _ _

theorem makeFixnum_keepsRoots (value : Int) : KeepsRoots (makeFixnum value) :=
  construct_keepsRoots _ _

end Operations

section Opcodes

variable (x : Externals) (g : Globals)

theorem vmReturn_balanced (obj : Nat) (message : Option String) :
    Balanced (vmReturn obj message) := by
  intro v c v' R run roots
  simp only [vmReturn, StateT.run_bind] at run
  obtain ⟨⟨_, u₁⟩, pop₁, run⟩ := except_bind_eq_ok.mp run
  obtain ⟨⟨_, u₂⟩, pop₂, run⟩ := except_bind_eq_ok.mp run
  obtain ⟨⟨_, u₃⟩, pop₃, run⟩ := except_bind_eq_ok.mp run
  cases run
  obtain ⟨roots₁, slow₁, base₁⟩ := popRootOf_view
    (by simpa [Vm.frameRoots] using roots :
      v.gc.rootObjects.contents = (R ++ [v.addr .fn, v.addr .env]) ++ [v.addr .top]) pop₁
  obtain ⟨roots₂, slow₂, base₂⟩ := popRootOf_view
    (by simp [roots₁, Vm.addr, base₁] :
      u₁.gc.rootObjects.contents = (R ++ [v.addr .fn]) ++ [u₁.addr .env]) pop₂
  obtain ⟨roots₃, slow₃, base₃⟩ := popRootOf_view
    (by simp [roots₂, Vm.addr, base₁, base₂] : u₂.gc.rootObjects.contents = R ++ [u₂.addr .fn]) pop₃
  exact ⟨base₃.trans (base₂.trans base₁), slow₃.trans (slow₂.trans slow₁), roots₃⟩

theorem vmFail_balanced (message : String) : Balanced (vmFail g message) :=
  vmReturn_balanced _ _

theorem Balanced.ite {c : Prop} [Decidable c] {p q : VmM Control} (yes : Balanced p)
    (no : Balanced q) : Balanced (if c then p else q) := by
  split
  · exact yes
  · exact no

theorem jumpIf_balanced (taken : Bool) (instr : Nat) : Balanced (jumpIf taken instr) :=
  .ite (.bind (onHeap_keepsRoots _) fun _ => .bind (setPc_keepsRoots _) fun _ => .next) .next

theorem fnBegin_balanced : Balanced (fnBegin g) :=
  .bind (getLocal_keepsRoots _) fun _ => .bind get_keepsRoots fun _ =>
    .ite (.bind (onHeap_keepsRoots _) fun _ => .bind (onHeap_keepsRoots _) fun _ =>
      .bind (modify_keepsRoots fun _ => ⟨rfl, rfl, rfl⟩) fun _ => .next) (vmFail_balanced g _)

theorem returnOpcode_balanced : Balanced (returnOpcode g) :=
  .bind get_keepsRoots fun _ =>
    .ite (.bind (vpop_keepsRoots g) fun _ => vmReturn_balanced _ _)
      (.bind (vpop_keepsRoots g) fun _ => .bind (vpop_keepsRoots g) fun _ =>
        .bind (onHeap_keepsRoots _) fun _ => .bind (setLocal_keepsRoots _ _) fun _ =>
        .bind (onHeap_keepsRoots _) fun _ => .bind (setPc_keepsRoots _) fun _ =>
        .bind (onHeap_keepsRoots _) fun _ => .bind (setLocal_keepsRoots _ _) fun _ =>
        .bind (vpush_keepsRoots g _) fun _ => fnBegin_balanced g)

theorem popArgs_keepsRoots (vector : Nat) (n : Nat) : KeepsRoots (popArgs g vector n) := by
  induction n with
  | zero => exact KeepsRoots.pure ()
  | succ n ih =>
    exact .bind (vpop_keepsRoots g) fun _ => .bind (setLocal_keepsRoots _ _) fun _ =>
      .bind (toHeap_keepsRoots _ _) fun _ => ih

theorem consRest_keepsRoots (vector : Nat) (idx : Int) (n : Nat) :
    KeepsRoots (consRest g vector idx n) := by
  induction n with
  | zero => exact KeepsRoots.pure ()
  | succ n ih =>
    exact .bind (vpop_keepsRoots g) fun _ => .bind (setLocal_keepsRoots _ _) fun _ =>
      .bind (onHeap_keepsRoots _) fun _ => .bind (cons_keepsRoots _ _) fun _ =>
      .bind (toHeap_keepsRoots _ _) fun _ => ih

theorem dropArgs_keepsRoots (n : Nat) : KeepsRoots (dropArgs g n) := by
  induction n with
  | zero => exact KeepsRoots.pure ()
  | succ n ih => exact .bind (vpop_keepsRoots g) fun _ => ih

theorem copyStack_keepsRoots (newStack idx n : Nat) : KeepsRoots (copyStack newStack idx n) := by
  induction n generalizing idx with
  | zero => exact KeepsRoots.pure ()
  | succ n ih =>
    exact .bind get_keepsRoots fun _ => .bind (onHeap_keepsRoots _) fun _ =>
      .bind (toHeap_keepsRoots _ _) fun _ => ih _

theorem splatLoop_keepsRoots (fuel : Nat) (count : Int) :
    KeepsRoots (splatLoop g fuel count) := by
  induction fuel generalizing count with
  | zero =>
    rw [splatLoop]
    refine .bind (getLocal_keepsRoots _) fun _ => ?_
    split
    · exact KeepsRoots.pure _
    · exact KeepsRoots.throw _
  | succ fuel ih =>
    rw [splatLoop]
    refine .bind (getLocal_keepsRoots _) fun _ => ?_
    split
    · exact KeepsRoots.pure _
    · exact .bind (onHeap_keepsRoots _) fun _ => .bind (vpush_keepsRoots g _) fun _ =>
        .bind (onHeap_keepsRoots _) fun _ => .bind (setLocal_keepsRoots _ _) fun _ => ih _

theorem resizeFrame_keepsRoots (needed : Int) : KeepsRoots (resizeFrame g needed) := by
  refine .bind (getLocal_keepsRoots _) fun _ => .bind (onHeap_keepsRoots _) fun _ => ?_
  split
  · exact .bind (makeVector_keepsRoots _ _) fun _ => toHeap_keepsRoots _ _
  · exact KeepsRoots.pure ()

theorem popCallee_keepsRoots : KeepsRoots (popCallee g) :=
  .bind (vpop_keepsRoots g) fun _ => .bind (setLocal_keepsRoots _ _) fun _ =>
    .bind (onHeap_keepsRoots _) fun _ => setLocal_keepsRoots _ _

theorem splat_keepsRoots : KeepsRoots (splat g) :=
  .bind (getLocal_keepsRoots _) fun _ => .bind (setLocal_keepsRoots _ _) fun _ =>
    pinned_keepsRoots _ (.bind (vpop_keepsRoots g) fun _ => .bind (setLocal_keepsRoots _ _) fun _ =>
      .bind get_keepsRoots fun _ => .bind (splatLoop_keepsRoots g _ _) fun _ =>
      .bind (setLocal_keepsRoots _ _) fun _ => KeepsRoots.pure _)

variable {x}

theorem callPrimitive_balanced (keep : x.KeepRoots) (primitive : Nat) (argsForCall : Int) :
    Balanced (callPrimitive x g primitive argsForCall) :=
  .bind (getLocal_keepsRoots _) fun _ => .bind (setLocal_keepsRoots _ _) fun _ =>
    .bind (pinned_keepsRoots _ (.bind get_keepsRoots fun _ =>
      .bind (external_keepsRoots (keep.primitive _ _ _ _)) fun _ =>
      .bind (setLocal_keepsRoots _ _) fun _ => .bind (dropArgs_keepsRoots g _) fun _ =>
      vpush_keepsRoots g _)) fun _ => returnOpcode_balanced g

theorem fcalljTo_balanced (keep : x.KeepRoots) (argsForCall : Int) :
    Balanced (fcalljTo x g argsForCall) := by
  refine .bind (getLocal_keepsRoots _) fun _ => .bind get_keepsRoots fun _ => ?_
  split
  · exact .bind (setLocal_keepsRoots _ _) fun _ => .bind (setPc_keepsRoots _) fun _ =>
      .bind (setNArgs_keepsRoots _) fun _ => .bind (onHeap_keepsRoots _) fun _ =>
      .bind (setLocal_keepsRoots _ _) fun _ => .bind (makeVector_keepsRoots _ _) fun _ =>
      .bind (setLocal_keepsRoots _ _) fun _ =>
      .bind (pinned_keepsRoots _ (.bind (getLocal_keepsRoots _) fun _ =>
        .bind (cons_keepsRoots _ _) fun _ => setLocal_keepsRoots _ _)) fun _ => fnBegin_balanced g
  · exact callPrimitive_balanced g keep _ _
  · exact vmFail_balanced g _

theorem calljTo_balanced (keep : x.KeepRoots) (argsForCall : Int) :
    Balanced (calljTo x g argsForCall) := by
  refine .bind (getLocal_keepsRoots _) fun _ => .bind get_keepsRoots fun _ => ?_
  split
  · exact .bind (setLocal_keepsRoots _ _) fun _ => .bind (setPc_keepsRoots _) fun _ =>
      .bind (setNArgs_keepsRoots _) fun _ => .bind (onHeap_keepsRoots _) fun _ =>
      .bind (getLocal_keepsRoots _) fun _ => .bind (toHeap_keepsRoots _ _) fun _ => fnBegin_balanced g
  · exact callPrimitive_balanced g keep _ _
  · exact vmFail_balanced g _

theorem execute_balanced (keep : x.KeepRoots) (instr : Nat) (opcode : Opcode) :
    Balanced (execute x g instr opcode) := by
  cases opcode
  case args =>
    refine .bind (onHeap_keepsRoots _) fun _ => .bind get_keepsRoots fun _ =>
      .ite (vmFail_balanced g _) ?_
    exact .bind (resizeFrame_keepsRoots g _) fun _ => .bind (getLocal_keepsRoots _) fun _ =>
      .bind (onHeap_keepsRoots _) fun _ => .bind (popArgs_keepsRoots g _ _) fun _ => .next
  case argsdot =>
    refine .bind (onHeap_keepsRoots _) fun _ => .bind get_keepsRoots fun _ =>
      .ite ?_ (vmFail_balanced g _)
    exact .bind (resizeFrame_keepsRoots g _) fun _ => .bind (getLocal_keepsRoots _) fun _ =>
      .bind (onHeap_keepsRoots _) fun _ => .bind (toHeap_keepsRoots _ _) fun _ =>
      .bind (consRest_keepsRoots g _ _ _) fun _ => .bind (popArgs_keepsRoots g _ _) fun _ => .next
  case «return» => exact returnOpcode_balanced g
  case const => exact .bind (onHeap_keepsRoots _) fun _ => .bind (vpush_keepsRoots g _) fun _ => .next
  case fn =>
    exact .bind (onHeap_keepsRoots _) fun _ => .bind (getLocal_keepsRoots _) fun _ =>
      .bind (makeCompiledProc_keepsRoots _ _) fun _ => .bind (setLocal_keepsRoots _ _) fun _ =>
      .bind (pinned_keepsRoots _ (vpush_keepsRoots g _)) fun _ => .next
  case fjump | tjump =>
    exact .bind (vpop_keepsRoots g) fun _ => .bind (setLocal_keepsRoots _ _) fun _ =>
      jumpIf_balanced _ _
  case jump => exact jumpIf_balanced _ _
  case fcallj =>
    exact .bind (popCallee_keepsRoots g) fun _ => .bind (onHeap_keepsRoots _) fun _ =>
      fcalljTo_balanced g keep _
  case callj =>
    refine .bind (popCallee_keepsRoots g) fun _ => .bind (onHeap_keepsRoots _) fun _ =>
      .ite ?_ (calljTo_balanced g keep _)
    exact .bind (splat_keepsRoots g) fun _ => calljTo_balanced g keep _
  case lvar =>
    exact .bind (onHeap_keepsRoots _) fun _ => .bind (onHeap_keepsRoots _) fun _ =>
      .bind (getLocal_keepsRoots _) fun _ => .bind (onHeap_keepsRoots _) fun _ =>
      .bind (vpush_keepsRoots g _) fun _ => .next
  case save =>
    exact .bind (getLocal_keepsRoots _) fun _ => .bind (getLocal_keepsRoots _) fun _ =>
      .bind (cons_keepsRoots _ _) fun _ => .bind (setLocal_keepsRoots _ _) fun _ =>
      .bind (pinned_keepsRoots _ (.bind (onHeap_keepsRoots _) fun _ =>
        .bind (getLocal_keepsRoots _) fun _ => .bind (cons_keepsRoots _ _) fun _ =>
        .bind (setLocal_keepsRoots _ _) fun _ => vpush_keepsRoots g _)) fun _ => .next
  case gvar =>
    exact .bind (onHeap_keepsRoots _) fun _ =>
      .bind (external_keepsRoots (keep.lookupGlobalValue _)) fun _ =>
      .bind (setLocal_keepsRoots _ _) fun _ =>
      .bind (pinned_keepsRoots _ (vpush_keepsRoots g _)) fun _ => .next
  case lset =>
    exact .bind (onHeap_keepsRoots _) fun _ => .bind (onHeap_keepsRoots _) fun _ =>
      .bind (getLocal_keepsRoots _) fun _ => .bind (onHeap_keepsRoots _) fun _ =>
      .bind get_keepsRoots fun _ => .bind (onHeap_keepsRoots _) fun _ =>
      .bind (toHeap_keepsRoots _ _) fun _ => .next
  case gset =>
    exact .bind (onHeap_keepsRoots _) fun _ => .bind get_keepsRoots fun _ =>
      .bind (onHeap_keepsRoots _) fun _ =>
      .bind (external_keepsRoots (keep.defineGlobalVariable _ _)) fun _ => .next
  case setcc =>
    exact .bind (vpop_keepsRoots g) fun _ => .bind (vpop_keepsRoots g) fun _ =>
      .bind get_keepsRoots fun _ => .bind (onHeap_keepsRoots _) fun _ =>
      .bind (onHeap_keepsRoots _) fun _ =>
      .bind (modify_keepsRoots fun _ => ⟨rfl, rfl, rfl⟩) fun _ => .next
  case cc =>
    exact .bind (makeVector_keepsRoots _ _) fun _ => .bind (setLocal_keepsRoots _ _) fun _ =>
      .bind (pinned_keepsRoots _ (.bind get_keepsRoots fun _ => .bind (onHeap_keepsRoots _) fun _ =>
        .bind (makeVector_keepsRoots _ _) fun _ => .bind (setLocal_keepsRoots _ _) fun _ =>
        .bind (pinned_keepsRoots _ (.bind get_keepsRoots fun _ =>
          .bind (copyStack_keepsRoots _ _ _) fun _ => .bind (toHeap_keepsRoots _ _) fun _ =>
          .bind get_keepsRoots fun _ => .bind (makeFixnum_keepsRoots _) fun _ =>
          toHeap_keepsRoots _ _)) fun _ =>
        .bind (cons_keepsRoots _ _) fun _ => .bind (setLocal_keepsRoots _ _) fun _ =>
        makeCompiledProc_keepsRoots _ _)) fun _ =>
      .bind (vpush_keepsRoots g _) fun _ => .next
  case pop =>
    exact .bind (vpop_keepsRoots g) fun _ => .bind (setLocal_keepsRoots _ _) fun _ => .next

theorem dispatch_balanced (keep : x.KeepRoots) : Balanced (dispatch x g) := by
  refine .bind get_keepsRoots fun _ => .ite (fun _ _ _ _ run => by cases run) ?_
  refine .bind (onHeap_keepsRoots _) fun _ => .bind (setPc_keepsRoots _) fun _ =>
    .bind (onHeap_keepsRoots _) fun _ => ?_
  split
  · exact execute_balanced g keep _ _
  · exact vmFail_balanced g _

end Opcodes

/-- Entered with any Roots `R`, `p` goes on to `vm_begin` with `R` followed by
`&fn, &env, &top`, or returns with `R`; no pop of it is slow. -/
def OpensFrame (p : VmM Control) : Prop :=
  ∀ v c v', p.run v = .ok (c, v') → v'.base = v.base ∧ v'.slowPops = v.slowPops ∧
    v'.gc.rootObjects.contents = match c with
      | .next => v.gc.rootObjects.contents ++ v.frameRoots
      | .exit _ _ => v.gc.rootObjects.contents

theorem OpensFrame.bind {α : Type} {p : VmM α} {f : α → VmM Control} (first : KeepsRoots p)
    (rest : ∀ a, OpensFrame (f a)) : OpensFrame (p >>= f) := by
  intro v c v' run
  obtain ⟨⟨a, u⟩, run₁, run₂⟩ := except_bind_eq_ok.mp (by simpa only [StateT.run_bind] using run)
  have kept := first v a u run₁
  simp only [Vm.rootsView, Prod.mk.injEq] at kept
  have frame : u.frameRoots = v.frameRoots := by simp [Vm.frameRoots, Vm.addr, kept.2.2]
  obtain ⟨base, slow, roots⟩ := rest a u c v' run₂
  refine ⟨base.trans kept.2.2, slow.trans kept.2.1, ?_⟩
  rw [roots, frame, kept.1]

section Run

variable {x : Externals} (g : Globals)

theorem pushFrame_opensFrame :
    OpensFrame (do pushRootOf .fn; pushRootOf .env; pushRootOf .top; fnBegin g) := by
  intro v c v' run
  exact fnBegin_balanced g
    { v with gc := pushRoot (pushRoot (pushRoot v.gc (v.addr .fn)) (v.addr .env)) (v.addr .top) }
    c v' v.gc.rootObjects.contents run (by simp [pushRoot, Vm.frameRoots, Vm.addr])

theorem vmEnter_opensFrame : OpensFrame (vmEnter g) :=
  .bind (getLocal_keepsRoots _) fun _ => .bind (onHeap_keepsRoots _) fun _ =>
    .bind (setLocal_keepsRoots _ _) fun _ => .bind (getLocal_keepsRoots _) fun _ =>
    .bind (cons_keepsRoots _ _) fun _ => .bind (setLocal_keepsRoots _ _) fun _ =>
    .bind (setLocal_keepsRoots _ _) fun _ => pushFrame_opensFrame g

theorem Dispatches.roots (keep : x.KeepRoots) {start v : Vm} (run : Dispatches x g start v) :
    v.base = start.base ∧ v.slowPops = start.slowPops ∧
      v.gc.rootObjects.contents = start.gc.rootObjects.contents ++ start.frameRoots := by
  induction run with
  | enter entered => exact vmEnter_opensFrame g _ _ _ entered
  | step _ stepped ih =>
    obtain ⟨base, slow, roots⟩ := ih
    obtain ⟨base', slow', roots'⟩ := dispatch_balanced g keep _ _ _ start.gc.rootObjects.contents
      stepped (by simp [roots, Vm.frameRoots, Vm.addr, base])
    refine ⟨base'.trans base, slow'.trans slow, ?_⟩
    rw [roots']
    simp [Vm.frameRoots, Vm.addr, base]

theorem Returns.roots (keep : x.KeepRoots) {start v : Vm} {value : Nat} {message : Option String}
    (ret : Returns x g start v value message) :
    v.slowPops = start.slowPops ∧ v.gc.rootObjects.contents = start.gc.rootObjects.contents := by
  cases ret with
  | enter entered =>
    obtain ⟨-, slow, roots⟩ := vmEnter_opensFrame g _ _ _ entered
    exact ⟨slow, roots⟩
  | step dispatched stepped =>
    obtain ⟨base, slow, roots⟩ := dispatched.roots g keep
    obtain ⟨-, slow', roots'⟩ := dispatch_balanced g keep _ _ _ start.gc.rootObjects.contents
      stepped (by simp [roots, Vm.frameRoots, Vm.addr, base])
    exact ⟨slow'.trans slow, roots'⟩

/-- `vm_execute` keeps Roots balanced when every function it calls in another file does: every
return leaves Roots as it was at entry, and no `pop_root` misses its address on top. -/
theorem vm_execute_roots_balanced (keep : x.KeepRoots) (gc : GcState) (outer : Nat → Option Nat)
    (base : Nat) (locals : VmLocal → Nat) (stack : Nat) (stackTop nArgs : Int) :
    (∀ v, Dispatches x g (Vm.start gc outer base locals stack stackTop nArgs) v →
      v.gc.rootObjects.contents = gc.rootObjects.contents ++
        [base + VmLocal.fn.index, base + VmLocal.env.index, base + VmLocal.top.index] ∧
      v.slowPops = 0) ∧
    ∀ v value message, Returns x g (Vm.start gc outer base locals stack stackTop nArgs) v value message →
      v.gc.rootObjects.contents = gc.rootObjects.contents ∧ v.slowPops = 0 := by
  refine ⟨fun v run => ?_, fun v value message ret => ?_⟩
  · obtain ⟨-, slow, roots⟩ := run.roots g keep
    exact ⟨roots, slow⟩
  · obtain ⟨slow, roots⟩ := ret.roots g keep
    exact ⟨roots, slow⟩

end Run

theorem idleExternals_keepRoots : idleExternals.KeepRoots where
  primitive _ _ _ _ store gc gc' a called := by cases called; rfl
  lookupGlobalValue _ store gc gc' a called := by cases called; rfl
  defineGlobalVariable _ _ store gc gc' a called := by cases called; rfl

theorem constReturnVm_roots_balanced :
    idleExternals.KeepRoots ∧
    (∃ v, Returns idleExternals constReturnGlobals constReturnVm v 2002 none) ∧
    (∀ v, Dispatches idleExternals constReturnGlobals constReturnVm v →
      v.gc.rootObjects.contents = gcInit.rootObjects.contents ++
        [400 + VmLocal.fn.index, 400 + VmLocal.env.index, 400 + VmLocal.top.index] ∧
      v.slowPops = 0) ∧
    ∀ v value message, Returns idleExternals constReturnGlobals constReturnVm v value message →
      v.gc.rootObjects.contents = gcInit.rootObjects.contents ∧ v.slowPops = 0 :=
  ⟨idleExternals_keepRoots, constReturnVm_returns,
    vm_execute_roots_balanced constReturnGlobals idleExternals_keepRoots
      { gcInit with cells := constReturnCells } (fun _ => none) 400
      (fun l => if l = .fn then 2000 else 2002) 999 1 0⟩

end BrianScheme
