import BrianScheme.Vm.Collector
import BrianScheme.Vm.Continuation

/-! `vm_execute` keeps the collector safe. Every opcode, run from `vm_begin` in a state with the
invariant of `Vm/Collector` and the code loaded, goes on to `vm_begin` in such a state or returns
a value the collector keeps; `vm_execute`'s entry establishes the invariant. So along every run,
at every `vm_begin` and at every return, no cell the program can reach is on the free chain, and
every allocation returns a cell nothing on Roots reaches. -/

namespace BrianScheme

/-- Where an opcode leaves `vm_execute`: at `vm_begin` with the invariant and the code loaded, or
returning a value the collector keeps. -/
def Vm.Ends (g : Globals) (v : Vm) : Control → Prop
  | .next => ∃ ret, v.Sound g ret ∧ v.Loaded
  | .exit value _ => v.Safe (some value)

section Leaving

variable {g : Globals} {v v' : Vm} {ret : Option Nat} {ctl : Control}

theorem setNArgs_bind {β : Type} {f : Unit → VmM β} (nArgs : Int) :
    (setNArgs nArgs >>= f).run v = (f ()).run { v with nArgs := nArgs } := rfl

/-- `VM_RETURN(obj)` of a value `vm_execute` holds: the three pops keep the invariant. -/
theorem vmReturn_ends {obj : Nat} {message : Option String} (sound : v.Sound g ret)
    (held : v.Holds ret obj) (run : (vmReturn obj message).run v = .ok (ctl, v')) :
    v'.Ends g ctl := by
  obtain ⟨_, u₁, popped₁, run⟩ := run_bind_inv run
  obtain ⟨_, u₂, popped₂, run⟩ := run_bind_inv run
  obtain ⟨_, u₃, popped₃, done⟩ := run_bind_inv run
  cases done
  exact (((sound.safe.retarget held).popRoot popped₁).popRoot popped₂).popRoot popped₃

theorem vmFail_ends {message : String} (sound : v.Sound g ret)
    (run : (vmFail g message).run v = .ok (ctl, v')) : v'.Ends g ctl :=
  vmReturn_ends sound sound.pins.error.reached.holds run

/-- `vm_fn_begin` loads the code of `fn`, or returns `error_sym`. -/
theorem fnBegin_ends (sound : v.Sound g ret) (run : (fnBegin g).run v = .ok (ctl, v')) :
    v'.Ends g ctl := by
  rw [fnBegin, getLocal_bind, get_bind] at run
  split at run
  · obtain ⟨code, read, run⟩ := onHeap_bind_inv run
    obtain ⟨codes, -, run⟩ := onHeap_bind_inv run
    obtain ⟨_, u, set, done⟩ := run_bind_inv run
    cases set
    cases done
    exact ⟨ret, sound.congr rfl rfl rfl rfl rfl, read⟩
  · exact vmFail_ends sound run

/-- `RETURN_OPCODE_INSTRUCTIONS`. Between popping the value and pushing it back nothing allocates,
so the value needs no root: the state after the push is judged against the one after the first
pop, whose native variable holds the value. -/
theorem returnOpcode_ends (sound : v.Sound g ret) (run : (returnOpcode g).run v = .ok (ctl, v')) :
    v'.Ends g ctl := by
  rw [returnOpcode, get_bind] at run
  split at run
  · obtain ⟨val, u, popped, run⟩ := run_bind_inv run
    exact vmReturn_ends (sound.vpop popped).1 (Vm.holds_ret u val) run
  obtain ⟨val, u₁, popped₁, run⟩ := run_bind_inv run
  obtain ⟨retAddr, u₂, popped₂, run⟩ := run_bind_inv run
  obtain ⟨fn, readFn, run⟩ := onHeap_bind_inv run
  rw [setLocal_bind] at run
  obtain ⟨pc, -, run⟩ := onHeap_bind_inv run
  rw [setPc_bind] at run
  obtain ⟨env, readEnv, run⟩ := onHeap_bind_inv run
  rw [setLocal_bind] at run
  obtain ⟨_, u₃, pushed, begun⟩ := run_bind_inv run
  refine @fnBegin_ends g _ _ (some val) _ ?_ begun
  have sound₁ := (sound.vpop popped₁).1
  obtain ⟨es₂, vector₂, popped, rfl⟩ := vpop_cells popped₂
  obtain ⟨es₃, es₄, vector₃, fields, rfl⟩ := vpush_cells pushed
  dsimp only [Vm.restack] at readFn readEnv vector₃ fields ⊢
  simp only [setPayload_payload, if_true, Payload.vector.injEq] at vector₃
  subst vector₃
  have touched : Retouched u₁.gc.cells (setPayload u₁.gc.cells u₁.stack
      (.vector (es₂.set (u₁.stackTop - 1).toNat g.theEmptyList))) u₁.stack :=
    (Restacked.setPayload ⟨es₂, vector₂⟩).retouched
  obtain ⟨rest, cdrRead, carRead⟩ := except_bind_eq_ok.mp readFn
  obtain ⟨rest', cdrRead', cdrRead''⟩ := except_bind_eq_ok.mp readEnv
  rw [touched.cdr] at cdrRead cdrRead'
  rw [touched.car] at carRead
  rw [touched.cdr] at cdrRead''
  obtain rfl : rest = rest' := Except.ok.inj (cdrRead.symm.trans cdrRead')
  /- `fn` and `env` come from the triple below the value, a slot of the stack. -/
  have restored : ∀ {w : Vm} {r : Option Nat}, w.Sound g r → w.gc.cells = u₁.gc.cells →
      w.stack = u₁.stack → w.Holds r fn ∧ w.Holds r env := by
    intro w r soundW cells stack
    have base : w.Holds r w.stack := soundW.pins.stack.reached.holds
    have slot : w.Holds r retAddr := base.child (by
      show retAddr ∈ (w.gc.cells w.stack).payload.children
      rw [cells, stack, vector₂]
      exact popped)
    have triple : w.Holds r rest := slot.child (by
      show rest ∈ (w.gc.cells retAddr).payload.children
      rw [cells]
      exact cdr_mem cdrRead)
    exact ⟨triple.child (by rw [GcState.payloads, cells]; exact car_mem carRead),
      triple.child (by rw [GcState.payloads, cells]; exact cdr_mem cdrRead'')⟩
  have sound₂ := sound₁.assign .fn (restored sound₁ rfl rfl).1
  have sound₃ : ({ u₁ with locals := Function.update u₁.locals .fn fn, pc := pc } : Vm).Sound g
      (some val) := sound₂.congr rfl rfl rfl rfl rfl
  have sound₄ := sound₃.assign .env (restored sound₃ rfl rfl).2
  rw [setPayload_setPayload]
  refine sound₄.restack vector₂ (fun b mem => ?_) _ fun _ same => ?_
  swap
  · obtain rfl := Option.some.inj same
    exact Vm.holds_ret _ _
  rcases fields b mem with old | empty | rfl
  · exact (List.mem_or_eq_of_mem_set old).elim .inl fun same => .inr (.inl same)
  · exact .inr (.inl empty)
  · exact .inr (.inr (Vm.holds_ret _ b))

end Leaving

section Opcodes

variable {x : Externals} {g : Globals} {v v' : Vm} {ret : Option Nat} {ctl : Control}
  {instr : Nat}

theorem jumpIf_ends {taken : Bool} (sound : v.Sound g ret) (loaded : v.Loaded)
    (run : (jumpIf taken instr).run v = .ok (ctl, v')) : v'.Ends g ctl := by
  unfold jumpIf at run
  split at run
  · obtain ⟨pc, -, run⟩ := onHeap_bind_inv run
    rw [setPc_bind] at run
    cases run
    exact ⟨ret, sound.congr rfl rfl rfl rfl rfl, loaded⟩
  · cases run
    exact ⟨ret, sound, loaded⟩

/-- `VPOP(top, ...)` and the branch of `fjump` or `tjump`. -/
theorem popJump_ends {taken : Nat → Bool} (sound : v.Sound g ret) (loaded : v.Loaded)
    (run : (do let top ← vpop g; setLocal .top top; jumpIf (taken top) instr).run v =
      .ok (ctl, v')) : v'.Ends g ctl := by
  obtain ⟨top, u, popped, run⟩ := run_bind_inv run
  rw [setLocal_bind] at run
  obtain ⟨sound₁, loaded₁, -⟩ := sound.vpop popped
  exact jumpIf_ends (sound₁.assign .top (Vm.holds_ret u top)) ((loaded₁ loaded).assign (by decide) top)
    run

theorem constOp_ends (sound : v.Sound g ret) (loaded : v.Loaded) (fromFn : v.FromFn instr)
    (run : (constOp g instr).run v = .ok (ctl, v')) : v'.Ends g ctl := by
  obtain ⟨a, read, run⟩ := onHeap_bind_inv run
  obtain ⟨_, u, pushed, done⟩ := run_bind_inv run
  cases done
  obtain ⟨sound₁, loaded₁, -⟩ :=
    sound.vpush (Reachable.arg1 (sound.pins.reached fromFn).holds read) pushed
  exact ⟨ret, sound₁, loaded₁ loaded⟩

theorem popOp_ends (sound : v.Sound g ret) (loaded : v.Loaded)
    (run : (popOp g).run v = .ok (ctl, v')) : v'.Ends g ctl := by
  obtain ⟨top, u, popped, run⟩ := run_bind_inv run
  rw [setLocal_bind] at run
  cases run
  obtain ⟨sound₁, loaded₁, -⟩ := sound.vpop popped
  exact ⟨_, sound₁.assign .top (Vm.holds_ret u top), (loaded₁ loaded).assign (by decide) top⟩

theorem Vm.Sound.frame_holds {n next frame : Nat} (sound : v.Sound g ret)
    (found : nthFrame v.gc.cells n (v.locals .env) = .ok next)
    (first : car v.gc.cells next = .ok frame) : v.Holds ret frame :=
  Reachable.child (Reachable.nthFrame (v.reached_local sound.pins.env).holds found) (car_mem first)

theorem lvarOp_ends (sound : v.Sound g ret) (loaded : v.Loaded)
    (run : (lvarOp g instr).run v = .ok (ctl, v')) : v'.Ends g ctl := by
  obtain ⟨envNum, -, run⟩ := onHeap_bind_inv run
  obtain ⟨idx, -, run⟩ := onHeap_bind_inv run
  rw [getLocal_bind] at run
  obtain ⟨value, read, run⟩ := onHeap_bind_inv run
  obtain ⟨_, u, pushed, done⟩ := run_bind_inv run
  cases done
  obtain ⟨next, found, read⟩ := except_bind_eq_ok.mp read
  obtain ⟨frame, first, slot⟩ := except_bind_eq_ok.mp read
  obtain ⟨sound₁, loaded₁, -⟩ :=
    sound.vpush (Reachable.child (sound.frame_holds found first) (vectorRef_mem slot)) pushed
  exact ⟨ret, sound₁, loaded₁ loaded⟩

theorem lsetOp_ends (sound : v.Sound g ret) (loaded : v.Loaded)
    (run : (lsetOp instr).run v = .ok (ctl, v')) : v'.Ends g ctl := by
  obtain ⟨envNum, -, run⟩ := onHeap_bind_inv run
  obtain ⟨idx, -, run⟩ := onHeap_bind_inv run
  rw [getLocal_bind] at run
  obtain ⟨frame, framed, run⟩ := onHeap_bind_inv run
  rw [get_bind] at run
  obtain ⟨value, read, run⟩ := onHeap_bind_inv run
  obtain ⟨_, u, stored, done⟩ := run_bind_inv run
  cases done
  obtain ⟨next, found, first⟩ := except_bind_eq_ok.mp framed
  obtain ⟨sound₁, loaded₁, -⟩ := sound.store (vectorSet_storesField idx value)
    (sound.frame_holds found first)
    (Reachable.child sound.pins.stack.reached.holds (vectorRef_mem read)) stored
  exact ⟨ret, sound₁, loaded₁ loaded⟩

/-- `push_root(&l); VPUSH(l, ...); pop_root(&l);` -/
theorem pinned_vpush_sound {l : VmLocal} {a : Nat} {u : Unit} (sound : v.Sound g ret)
    (kept : l ≠ .fn ∧ l ≠ .env ∧ l ≠ .top) (held : v.Holds ret a) (bound : v.locals l = a)
    (run : (pinned l (vpush g a)).run v = .ok (u, v')) :
    v'.Sound g ret ∧ (v.Loaded → v'.Loaded) := by
  simp only [pinned] at run
  rw [pushRootOf_bind] at run
  obtain ⟨_, w, pushed, run⟩ := run_bind_inv run
  obtain ⟨_, w', popped, done⟩ := run_bind_inv run
  cases done
  obtain ⟨sound₁, loaded₁, -⟩ := (sound.pushRoot l (bound ▸ held)).vpush
    (bound ▸ (v.reached_pushed l).holds) pushed
  exact ⟨sound₁.popRoot kept popped, fun loaded => (loaded₁ loaded).popRoot popped⟩

theorem gvarOp_ends (calls : x.SafeCalls) (sound : v.Sound g ret) (loaded : v.Loaded)
    (fromFn : v.FromFn instr) (run : (gvarOp x g instr).run v = .ok (ctl, v')) :
    v'.Ends g ctl := by
  obtain ⟨sym, read, run⟩ := onHeap_bind_inv run
  obtain ⟨var, u, called, run⟩ := run_bind_inv run
  rw [setLocal_bind] at run
  obtain ⟨_, u', pinnedRun, done⟩ := run_bind_inv run
  cases done
  obtain ⟨sound₁, loaded₁, -⟩ := sound.external (calls.lookupGlobalValue sym)
    (fun b mem => (List.mem_singleton.mp mem) ▸ Reachable.arg1 (sound.pins.reached fromFn) read) called
  obtain ⟨sound₂, loaded₂⟩ := pinned_vpush_sound (sound₁.assign .var (Vm.holds_ret u var))
    (by decide) (Vm.holds_ret _ var) (Function.update_same _ _ _) pinnedRun
  exact ⟨_, sound₂, loaded₂ ((loaded₁ loaded).assign (by decide) var)⟩

theorem gsetOp_ends (calls : x.SafeCalls) (sound : v.Sound g ret) (loaded : v.Loaded)
    (fromFn : v.FromFn instr) (run : (gsetOp x instr).run v = .ok (ctl, v')) :
    v'.Ends g ctl := by
  obtain ⟨var, varRead, run⟩ := onHeap_bind_inv run
  rw [get_bind] at run
  obtain ⟨val, valRead, run⟩ := onHeap_bind_inv run
  obtain ⟨_, u, called, done⟩ := run_bind_inv run
  cases done
  have args : ∀ b ∈ [var, val], v.Reached b := by
    simp only [List.mem_cons, List.mem_singleton, List.not_mem_nil, or_false]
    rintro b (rfl | rfl)
    · exact Reachable.arg1 (sound.pins.reached fromFn) varRead
    · exact Reachable.child sound.pins.stack.reached (vectorRef_mem valRead)
  obtain ⟨sound₁, loaded₁, -⟩ := sound.external (calls.defineGlobalVariable var val) args called
  exact ⟨_, sound₁, loaded₁ loaded⟩

theorem fnOp_ends (sound : v.Sound g ret) (loaded : v.Loaded) (fromFn : v.FromFn instr)
    (run : (fnOp g instr).run v = .ok (ctl, v')) : v'.Ends g ctl := by
  obtain ⟨code, read, run⟩ := onHeap_bind_inv run
  rw [getLocal_bind] at run
  obtain ⟨newFn, u, made, run⟩ := run_bind_inv run
  rw [setLocal_bind] at run
  obtain ⟨_, u', pinnedRun, done⟩ := run_bind_inv run
  cases done
  obtain ⟨op, opRead, codeRead⟩ := except_bind_eq_ok.mp read
  have children : ∀ b ∈ (Payload.compiledProc code (v.locals .env)).children, v.Reached b := by
    simp only [Payload.children, List.mem_cons, List.mem_singleton, List.not_mem_nil, or_false]
    rintro b (rfl | rfl)
    · exact Reachable.child (Reachable.arg1 (sound.pins.reached fromFn) opRead)
        (bytecode_mem codeRead)
    · exact v.reached_local sound.pins.env
  obtain ⟨sound₁, loaded₁, -⟩ := sound.construct children made
  obtain ⟨sound₂, loaded₂⟩ := pinned_vpush_sound (sound₁.assign .newFn (Vm.holds_ret u newFn))
    (by decide) (Vm.holds_ret _ newFn) (Function.update_same _ _ _) pinnedRun
  exact ⟨_, sound₂, loaded₂ ((loaded₁ loaded).assign (by decide) newFn)⟩

/-- `save`: the return address `(pc . (fn . env))` is built with `ret_addr` pinned, so the first
cons survives the second allocation, and `ARG1(instr)` is still reachable from `fn`. -/
theorem saveOp_ends (sound : v.Sound g ret) (loaded : v.Loaded) (fromFn : v.FromFn instr)
    (run : (saveOp g instr).run v = .ok (ctl, v')) : v'.Ends g ctl := by
  rw [saveOp, getLocal_bind, getLocal_bind] at run
  obtain ⟨link, u, consed, run⟩ := run_bind_inv run
  rw [setLocal_bind] at run
  obtain ⟨_, u', pinnedRun, done⟩ := run_bind_inv run
  cases done
  have children : ∀ b ∈ (Payload.pair (v.locals .fn) (v.locals .env)).children, v.Reached b := by
    simp only [Payload.children, List.mem_cons, List.mem_singleton, List.not_mem_nil, or_false]
    rintro b (rfl | rfl)
    · exact v.reached_local sound.pins.fn
    · exact v.reached_local sound.pins.env
  obtain ⟨sound₁, loaded₁, locals₁, -, kept₁⟩ := sound.construct children consed
  have fromFn₁ : ({ u with locals := Function.update u.locals .retAddr link } : Vm).FromFn instr :=
    (fromFn.kept sound.pins (fun c reach => (kept₁ c reach).2) locals₁).assign (by decide) link
  have sound₂ := (sound₁.assign .retAddr (Vm.holds_ret u link)).pushRoot .retAddr
    (by simpa only [Function.update_same] using Vm.holds_ret _ link)
  simp only [pinned] at pinnedRun
  rw [pushRootOf_bind] at pinnedRun
  obtain ⟨_, w, body, run⟩ := run_bind_inv pinnedRun
  obtain ⟨_, w', popped, done⟩ := run_bind_inv run
  cases done
  obtain ⟨op, opRead, body⟩ := onHeap_bind_inv body
  rw [getLocal_bind] at body
  obtain ⟨triple, w₁, consed₂, body⟩ := run_bind_inv body
  rw [setLocal_bind] at body
  obtain ⟨sound₃, loaded₃, -⟩ := sound₂.construct (by
    intro b mem
    rcases List.mem_cons.mp mem with rfl | mem
    · exact Reachable.arg1 (sound₂.pins.reached fromFn₁) opRead
    · rw [List.mem_singleton.mp mem]
      exact Vm.reached_pushed _ .retAddr) consed₂
  obtain ⟨sound₄, loaded₄, -⟩ := (sound₃.assign .retAddr (Vm.holds_ret w₁ triple)).vpush
    (Vm.holds_ret _ triple) body
  exact ⟨_, sound₄.popRoot (by decide) popped, (loaded₄ ((loaded₃ ((loaded₁ loaded).assign
    (by decide) link)).assign (by decide) triple)).popRoot popped⟩

end Opcodes

section Calls

variable {x : Externals} {g : Globals} {v v' : Vm} {ret : Option Nat} {ctl : Control}

/-- `VPOP(top, ...)` of the callee and the unwrapping of a META_PROC. -/
theorem popCallee_sound {u : Unit} (sound : v.Sound g ret) (run : (popCallee g).run v = .ok (u, v')) :
    ∃ ret', v'.Sound g ret' := by
  obtain ⟨top, w, popped, run⟩ := run_bind_inv run
  rw [setLocal_bind] at run
  obtain ⟨unwrapped, read, run⟩ := onHeap_bind_inv run
  cases run
  cases read
  have sound₁ := (sound.vpop popped).1.assign .top (Vm.holds_ret w top)
  exact ⟨_, sound₁.assign .top (Reachable.unwrapMeta (Vm.holds_ret _ top))⟩

theorem dropArgs_sound : ∀ (n : Nat) {v v' : Vm} {ret : Option Nat} {u : Unit}, v.Sound g ret →
    (dropArgs g n).run v = .ok (u, v') → ∃ ret', v'.Sound g ret' ∧ v'.locals = v.locals
  | 0, _, _, ret, _, sound, run => by
    cases run
    exact ⟨ret, sound, rfl⟩
  | n + 1, _, _, _, _, sound, run => by
    rw [dropArgs] at run
    obtain ⟨_, w, popped, run⟩ := run_bind_inv run
    obtain ⟨sound₁, -, cells, -, rfl⟩ := sound.vpop popped
    obtain ⟨ret', sound', locals'⟩ := dropArgs_sound n sound₁ run
    exact ⟨ret', sound', locals'⟩

/-- The primitive path: `pfn` pinned while the primitive runs, its arguments dropped, its result
pushed from `top`, and the return sequence. -/
theorem callPrimitive_ends (calls : x.SafeCalls) {primitive : Nat} {n : Int}
    (sound : v.Sound g ret) (run : (callPrimitive x g primitive n).run v = .ok (ctl, v')) :
    v'.Ends g ctl := by
  rw [callPrimitive, getLocal_bind, setLocal_bind] at run
  obtain ⟨_, u, pinnedRun, returned⟩ := run_bind_inv run
  simp only [pinned] at pinnedRun
  rw [pushRootOf_bind] at pinnedRun
  obtain ⟨_, w, body, run⟩ := run_bind_inv pinnedRun
  obtain ⟨_, w', popped, done⟩ := run_bind_inv run
  cases done
  have sound₀ := sound.assign .pfn (sound.holds_local (.inr (.inr rfl)) rfl)
  have sound₁ := sound₀.pushRoot .pfn
    (sound₀.holds_local (.inr (.inr rfl)) (by
      dsimp only; rw [Function.update_noteq (by decide), Function.update_same]))
  rw [get_bind] at body
  obtain ⟨result, w₁, called, body⟩ := run_bind_inv body
  rw [setLocal_bind] at body
  obtain ⟨_, w₂, dropped, pushed⟩ := run_bind_inv body
  obtain ⟨sound₂, -, gc, rfl, -⟩ := sound₁.external (calls.primitive _ _ _ _)
    (fun b mem => List.mem_singleton.mp mem ▸ sound₁.pins.stack.reached) called
  obtain ⟨ret₃, sound₃, locals₃⟩ := dropArgs_sound _ (sound₂.assign .top (Vm.holds_ret _ result))
    dropped
  have top := sound₃.holds_local (.inr (.inr rfl)) rfl
  rw [locals₃] at top
  dsimp only at top
  rw [Function.update_same] at top
  obtain ⟨sound₄, -, -⟩ := sound₃.vpush top pushed
  exact returnOpcode_ends (sound₄.popRoot (by decide) popped) returned

/-- `fcallj` of a compiled procedure: `fn = top`, `env = CENV(top)`, then a fresh frame consed onto
`env` with `newframe` pinned across the cons, and `vm_fn_begin`. -/
theorem fcalljTo_ends (calls : x.SafeCalls) {n : Int} (sound : v.Sound g ret)
    (run : (fcalljTo x g n).run v = .ok (ctl, v')) : v'.Ends g ctl := by
  rw [fcalljTo, getLocal_bind, get_bind] at run
  split at run
  · rw [setLocal_bind, setPc_bind, setNArgs_bind] at run
    obtain ⟨env, envRead, run⟩ := onHeap_bind_inv run
    rw [setLocal_bind] at run
    obtain ⟨newframe, u, made, run⟩ := run_bind_inv run
    rw [setLocal_bind] at run
    obtain ⟨_, w', pinnedRun, begun⟩ := run_bind_inv run
    have sound₁ : ({ v with
        locals := Function.update v.locals .fn (v.locals .top), pc := 0, nArgs := n } : Vm).Sound g
        ret := (sound.assign .fn (sound.holds_local (.inr (.inr rfl)) rfl)).congr rfl rfl rfl rfl rfl
    have callee := sound₁.holds_local (a := v.locals .top) (.inr (.inr rfl))
      (Function.update_noteq (by decide : VmLocal.top ≠ .fn) (v.locals .top) v.locals)
    obtain ⟨sound₂, -⟩ := (sound₁.assign .env (callee.child (cenv_mem envRead))).makeVector made
    simp only [pinned] at pinnedRun
    rw [pushRootOf_bind] at pinnedRun
    obtain ⟨_, w, body, run⟩ := run_bind_inv pinnedRun
    obtain ⟨_, w'', popped, done⟩ := run_bind_inv run
    cases done
    rw [getLocal_bind] at body
    obtain ⟨cell, w₁, consed, body⟩ := run_bind_inv body
    cases body
    have sound₃ := (sound₂.assign .newframe (Vm.holds_ret u newframe)).pushRoot .newframe
      (by simpa only [Function.update_same] using Vm.holds_ret _ newframe)
    obtain ⟨sound₄, -⟩ := sound₃.construct (by
      intro b mem
      rcases List.mem_cons.mp mem with same | mem
      · rw [same]
        simpa only [Function.update_same] using
          Vm.reached_pushed ({ u with locals := Function.update u.locals .newframe newframe } : Vm)
            .newframe
      · rw [List.mem_singleton.mp mem]
        exact Vm.reached_local sound₃.pins.env) consed
    exact fnBegin_ends ((sound₄.assign .env (Vm.holds_ret w₁ cell)).popRoot (by decide) popped) begun
  · exact callPrimitive_ends calls sound run
  · exact vmFail_ends sound run

/-- `callj` of a compiled procedure: the current env cons gets `CENV(top)` as its cdr. -/
theorem calljTo_ends (calls : x.SafeCalls) {n : Int} (sound : v.Sound g ret)
    (run : (calljTo x g n).run v = .ok (ctl, v')) : v'.Ends g ctl := by
  rw [calljTo, getLocal_bind, get_bind] at run
  split at run
  · rw [setLocal_bind, setPc_bind, setNArgs_bind] at run
    obtain ⟨fnEnv, envRead, run⟩ := onHeap_bind_inv run
    rw [getLocal_bind] at run
    obtain ⟨_, u, stored, begun⟩ := run_bind_inv run
    have sound₁ : ({ v with
        locals := Function.update v.locals .fn (v.locals .top), pc := 0, nArgs := n } : Vm).Sound g
        ret := (sound.assign .fn (sound.holds_local (.inr (.inr rfl)) rfl)).congr rfl rfl rfl rfl rfl
    have callee := sound₁.holds_local (a := v.locals .top) (.inr (.inr rfl))
      (Function.update_noteq (by decide : VmLocal.top ≠ .fn) (v.locals .top) v.locals)
    obtain ⟨sound₂, -⟩ := sound₁.store (setCdr_storesField fnEnv)
      (sound₁.holds_local (.inr (.inl rfl)) rfl) (callee.child (cenv_mem envRead)) stored
    exact fnBegin_ends sound₂ begun
  · exact callPrimitive_ends calls sound run
  · exact vmFail_ends sound run

/-- The splat loop pushes the elements of `top`'s list: `top` walks down the list, which it holds,
and every other local pinned on Roots stays reachable. -/
theorem splatLoop_sound (fuel : Nat) (count : Int) {count' : Int} (sound : v.Sound g ret)
    (run : (splatLoop g fuel count).run v = .ok (count', v')) :
    ∃ ret', v'.Sound g ret' ∧
      ∀ l, l ≠ .top → v.addr l ∈ v.gc.rootObjects.contents → v'.Reached (v.locals l) := by
  induction fuel generalizing count v ret with
  | zero =>
    rw [splatLoop, getLocal_bind] at run
    split at run
    · cases run
      exact ⟨ret, sound, fun _ _ => Vm.reached_local⟩
    · cases run
  | succ fuel ih =>
    rw [splatLoop, getLocal_bind] at run
    split at run
    · cases run
      exact ⟨ret, sound, fun _ _ => Vm.reached_local⟩
    obtain ⟨head, headRead, run⟩ := onHeap_bind_inv run
    obtain ⟨_, u₁, pushed, run⟩ := run_bind_inv run
    obtain ⟨tail, tailRead, run⟩ := onHeap_bind_inv run
    rw [setLocal_bind] at run
    have list := sound.holds_local (.inr (.inr rfl)) rfl
    obtain ⟨sound₁, -, cells, -, rfl⟩ := sound.vpush (list.child (car_mem headRead)) pushed
    have list₁ : (v.restack cells (v.stackTop + 1)).Holds ret (v.locals .top) :=
      sound₁.holds_local (.inr (.inr rfl)) rfl
    obtain ⟨ret', sound', pinned'⟩ :=
      ih (count + 1) (sound₁.assign .top (list₁.child (cdr_mem tailRead))) run
    refine ⟨ret', sound', fun l other mem => ?_⟩
    have reach := pinned' l other mem
    dsimp only at reach
    rwa [Function.update_noteq other] at reach

/-- The `args_for_call == -1` block of `callj`: the callee is pinned in `target_fn` while its
argument list is splatted onto the stack, and put back in `top`. -/
theorem splat_sound {count : Int} (sound : v.Sound g ret) (run : (splat g).run v = .ok (count, v')) :
    ∃ ret', v'.Sound g ret' := by
  rw [splat, getLocal_bind, setLocal_bind] at run
  simp only [pinned] at run
  rw [pushRootOf_bind] at run
  obtain ⟨_, w, body, run⟩ := run_bind_inv run
  obtain ⟨_, w', popped, done⟩ := run_bind_inv run
  cases done
  obtain ⟨list, w₁, vpopped, body⟩ := run_bind_inv body
  rw [setLocal_bind, get_bind] at body
  obtain ⟨_, w₂, looped, body⟩ := run_bind_inv body
  rw [setLocal_bind] at body
  cases body
  have sound₀ := sound.assign .targetFn (sound.holds_local (.inr (.inr rfl)) rfl)
  have sound₁ := sound₀.pushRoot .targetFn (sound₀.holds_local (.inr (.inr rfl)) (by
    dsimp only; rw [Function.update_noteq (by decide), Function.update_same]))
  obtain ⟨sound₂, -, cells, -, rfl⟩ := sound₁.vpop vpopped
  obtain ⟨ret₃, sound₃, pinned₃⟩ :=
    splatLoop_sound _ 0 (sound₂.assign .top (Vm.holds_ret _ list)) looped
  have target := pinned₃ .targetFn (by decide) ((Vm.mem_pushRoot _).mpr (.inr rfl))
  simp only [Vm.restack, ne_eq, reduceCtorEq, not_false_eq_true, Function.update_noteq,
    Function.update_same] at target
  exact ⟨ret₃, (sound₃.assign .top target.holds).popRoot (by decide) popped⟩

/-- `callj` once the count is read, splatting first for `-1`. -/
theorem calljWith_ends (calls : x.SafeCalls) {n : Int} (sound : v.Sound g ret)
    (run : (calljWith x g n).run v = .ok (ctl, v')) : v'.Ends g ctl := by
  unfold calljWith at run
  split at run
  · obtain ⟨count, u, splatted, run⟩ := run_bind_inv run
    obtain ⟨ret', sound'⟩ := splat_sound sound splatted
    exact calljTo_ends calls sound' run
  · exact calljTo_ends calls sound run

theorem fcalljOp_ends (calls : x.SafeCalls) {instr : Nat} (sound : v.Sound g ret)
    (run : (fcalljOp x g instr).run v = .ok (ctl, v')) : v'.Ends g ctl := by
  obtain ⟨_, u, popped, run⟩ := run_bind_inv run
  obtain ⟨n, -, run⟩ := onHeap_bind_inv run
  obtain ⟨ret', sound'⟩ := popCallee_sound sound popped
  exact fcalljTo_ends calls sound' run

theorem calljOp_ends (calls : x.SafeCalls) {instr : Nat} (sound : v.Sound g ret)
    (run : (calljOp x g instr).run v = .ok (ctl, v')) : v'.Ends g ctl := by
  obtain ⟨_, u, popped, run⟩ := run_bind_inv run
  obtain ⟨n, -, run⟩ := onHeap_bind_inv run
  obtain ⟨ret', sound'⟩ := popCallee_sound sound popped
  exact calljWith_ends calls sound' run

end Calls

section Continuation

variable {g : Globals} {v v' : Vm} {ret : Option Nat} {ctl : Control}

/-- The copy loop of `cc`: each slot of the stack is stored into `new_stack`, which is pinned. -/
theorem copyStack_sound {newStack : Nat} : ∀ (idx n : Nat) {v v' : Vm} {ret : Option Nat}
    {u : Unit}, v.Sound g ret → v.Pinned .newStack newStack →
    (copyStack newStack idx n).run v = .ok (u, v') →
    v'.Sound g ret ∧ (v.Loaded → v'.Loaded) ∧ ∀ l a, v.Pinned l a → v'.Pinned l a
  | _, 0, _, _, _, _, sound, _, run => by
    cases run
    exact ⟨sound, id, fun _ _ => id⟩
  | idx, n + 1, _, _, _, _, sound, target, run => by
    rw [copyStack, get_bind] at run
    obtain ⟨value, read, run⟩ := onHeap_bind_inv run
    obtain ⟨_, w, stored, run⟩ := run_bind_inv run
    obtain ⟨sound₁, loaded₁, p, -, rfl⟩ := sound.store (vectorSet_storesField idx value)
      target.reached.holds (sound.pins.stack.reached.holds.child (vectorRef_mem read)) stored
    obtain ⟨sound', loaded', kept⟩ := copyStack_sound (idx + 1) n sound₁ target run
    exact ⟨sound', fun loaded => loaded' (loaded₁ loaded), fun l a pinned => kept l a pinned⟩

theorem vectorRef_congr {cells cells' : Cells} {o : Nat} {idx : Int}
    (same : (cells' o).payload = (cells o).payload) : vectorRef cells' o idx = vectorRef cells o idx := by
  simp only [vectorRef, varray, same]

theorem vectorRef_set_ne {cells : Cells} {o i j x : Nat} {es : List Nat}
    (vector : (cells o).payload = .vector es) (other : j ≠ i) :
    vectorRef (setPayload cells o (.vector (es.set j x))) o i = vectorRef cells o i := by
  simp [vectorRef, varray, vector, List.getElem?_set_ne other]

theorem vectorRef_set_self {cells : Cells} {o j x : Nat} {es : List Nat} (inside : j < es.length) :
    vectorRef (setPayload cells o (.vector (es.set j x))) o j = .ok x := by
  simp [vectorRef, varray, inside]
  rfl

theorem vectorSet_slot {cells cells' : Cells} {o value : Nat} {idx : Int}
    (written : vectorSet cells o idx value = .ok cells') :
    ∃ es, (cells o).payload = .vector es ∧ (cells' o).payload = .vector (es.set idx.toNat value) ∧
      ∀ b ≠ o, (cells' b).payload = (cells b).payload := by
  obtain ⟨es, vector, -, -, rfl⟩ := vectorSet_ok written
  exact ⟨es, vector, by simp only [setPayload_payload, if_true],
    fun b other => by simp only [setPayload_payload, if_neg other]⟩

theorem copyStack_copies {newStack : Nat} : ∀ (idx n : Nat) {v v' : Vm} {u : Unit},
    (copyStack newStack idx n).run v = .ok (u, v') → newStack ≠ v.stack →
    (∃ cells written, v' = { v with gc := { v.gc with cells := cells }, written := written }) ∧
      (∀ o ≠ newStack, (v'.gc.cells o).payload = (v.gc.cells o).payload) ∧
      (∀ i < idx, vectorRef v'.gc.cells newStack i = vectorRef v.gc.cells newStack i) ∧
      ∀ i, idx ≤ i → i < idx + n → vectorRef v'.gc.cells newStack i = vectorRef v.gc.cells v.stack i
  | _, 0, _, _, _, run, _ => by
    cases run
    exact ⟨⟨_, _, rfl⟩, fun _ _ => rfl, fun _ _ => rfl, fun _ lo hi => absurd hi (by omega)⟩
  | idx, n + 1, v, _, _, run, apart => by
    rw [copyStack, get_bind] at run
    obtain ⟨value, read, run⟩ := onHeap_bind_inv run
    obtain ⟨_, w, stored, run⟩ := run_bind_inv run
    obtain ⟨cells₁, written, done⟩ := except_bind_eq_ok.mp stored
    cases done
    obtain ⟨es, vector, -, inside, rfl⟩ := vectorSet_ok written
    obtain ⟨⟨cells, wr, rfl⟩, other, below, copied⟩ := copyStack_copies (idx + 1) n run apart
    have stack : (setPayload v.gc.cells newStack (.vector (es.set idx value)) v.stack).payload =
        (v.gc.cells v.stack).payload := by
      rw [setPayload_payload, if_neg apart.symm]
    refine ⟨⟨cells, wr, rfl⟩, fun o ne => ?_, fun i lt => ?_, fun i lo hi => ?_⟩
    · exact (other o ne).trans (by rw [setPayload_payload, if_neg ne])
    · exact (below i (by omega)).trans (vectorRef_set_ne vector (by omega))
    · rcases Nat.eq_or_lt_of_le lo with rfl | lo
      · exact ((below idx (by omega)).trans (vectorRef_set_self inside)).trans read.symm
      · exact (copied i lo (by omega)).trans (vectorRef_congr stack)

/-- What `cc` pushes, as `cells` hold it: `make_compiled_proc(cc_bytecode, env)` with `env` the
list of the one frame `#(new_stack, make_fixnum(top))`, where `new_stack` is a vector other than
`stack` whose first `top` slots read as the slots of `stack` read in `before`. -/
def Captures (g : Globals) (cells before : Cells) (stack : Nat) (top : Int) (ccFn : Nat) : Prop :=
  ∃ env ccEnv copy topCell, (cells ccFn).payload = .compiledProc g.ccBytecode env ∧
    (cells env).payload = .pair ccEnv g.theEmptyList ∧
    (cells ccEnv).payload = .vector [copy, topCell] ∧ (cells topCell).payload = .fixnum top ∧
    copy ≠ stack ∧ ∀ i < top.toNat, vectorRef cells copy i = vectorRef before stack i

/-- The body of `push_root(&new_stack)` in `cc`: the live slots of the stack are copied into
`new_stack`, then `new_stack` and `make_fixnum(stack_top)` are stored into the two slots of
`cc_env`. The stack vector is not written. -/
theorem ccFill_spec {ccEnv newStack : Nat} {u : Unit} (sound : v.Sound g (some newStack))
    (assigned : v.locals .newStack = newStack) (env : v.Pinned .ccEnv ccEnv)
    (two : (v.gc.cells ccEnv).payload = .vector [g.theEmptyList, g.theEmptyList])
    (apart : newStack ≠ v.stack) (envApart : ccEnv ≠ v.stack) (distinct : ccEnv ≠ newStack)
    (run : (pinned .newStack do
      copyStack newStack 0 (← get).stackTop.toNat
      toHeap ccEnv (vectorSet · · 0 newStack)
      let top ← makeFixnum (← get).stackTop
      toHeap ccEnv (vectorSet · · 1 top) : VmM Unit).run v = .ok (u, v')) :
    (∃ ret', v'.Sound g ret') ∧ (v.Loaded → v'.Loaded) ∧ v'.Pinned .ccEnv ccEnv ∧
      v'.stack = v.stack ∧ v'.stackTop = v.stackTop ∧
      (v'.gc.cells v.stack).payload = (v.gc.cells v.stack).payload ∧
      ∃ top, top ≠ v.stack ∧ (v'.gc.cells ccEnv).payload = .vector [newStack, top] ∧
        (v'.gc.cells top).payload = .fixnum v.stackTop ∧
        ∀ i < v.stackTop.toNat, vectorRef v'.gc.cells newStack i = vectorRef v.gc.cells v.stack i := by
  simp only [pinned] at run
  rw [pushRootOf_bind] at run
  obtain ⟨_, x₁, stored, run⟩ := run_bind_inv run
  obtain ⟨_, x₂, popped, done⟩ := run_bind_inv run
  cases done
  rw [get_bind] at stored
  obtain ⟨_, x₃, copied, stored⟩ := run_bind_inv stored
  obtain ⟨_, x₄, stored₁, stored⟩ := run_bind_inv stored
  rw [get_bind] at stored
  obtain ⟨top, x₅, fixed, stored₂⟩ := run_bind_inv stored
  have stack₃ : ({ v with gc := pushRoot v.gc (v.addr .newStack) } : Vm).Pinned .newStack newStack :=
    assigned ▸ Vm.pinned_pushed v .newStack
  obtain ⟨sound₄, loaded₄, kept₄⟩ := copyStack_sound 0 _
    (sound.pushRoot .newStack (assigned ▸ Vm.holds_ret v newStack)) stack₃ copied
  obtain ⟨⟨cells₃, wr₃, rfl⟩, other₃, -, copies⟩ := copyStack_copies 0 _ copied apart
  have env₄ := kept₄ _ _ (env.pushRoot .newStack)
  /- `VARRAY(cc_env)[0] = new_stack` -/
  obtain ⟨sound₅, loaded₅, p, written₁, rfl⟩ := sound₄.store (vectorSet_storesField 0 newStack)
    env₄.reached.holds (kept₄ _ _ stack₃).reached.holds stored₁
  obtain ⟨es, envBefore, envAfter, other₅⟩ := vectorSet_slot written₁
  obtain rfl := Payload.vector.inj (envBefore.symm.trans ((other₃ _ distinct).trans two))
  /- `VARRAY(cc_env)[1] = make_fixnum(stack_top)` -/
  obtain ⟨sound₆, loaded₆, -, pins₆, kept₆⟩ := sound₅.construct (by
    simp only [Payload.children, List.not_mem_nil, false_implies, implies_true]) fixed
  obtain ⟨⟨gc₆, rfl⟩, topCell, topFresh⟩ := sound₅.safe.constructed (by
    simp only [Payload.children, List.not_mem_nil, false_implies, implies_true]) fixed
  obtain ⟨sound₇, loaded₇, p', written₂, rfl⟩ := sound₆.store (vectorSet_storesField 1 top)
    (pins₆ _ _ env₄).reached.holds (Vm.holds_ret _ top) stored₂
  obtain ⟨es', envBefore', envAfter', other₇⟩ := vectorSet_slot written₂
  obtain ⟨cells₂, -, -, -, stack₂, top₂, -⟩ := popRootOf_inert _ _ _ _ popped
  have env₅ := env₄.writeCell ccEnv p
  have stack₅ := (kept₄ _ _ stack₃).writeCell ccEnv p
  obtain rfl := Payload.vector.inj (envBefore'.symm.trans ((kept₆ _ env₅.reached).2.trans envAfter))
  have topApart : top ≠ ccEnv := fun same => topFresh (same ▸ env₅.reached)
  refine ⟨⟨_, sound₇.popRoot (by decide) popped⟩,
    fun loaded => (loaded₇ (loaded₆ (loaded₅ (loaded₄ loaded)))).popRoot popped,
    Vm.Pinned.popRoot ((pins₆ _ _ env₅).writeCell ccEnv p') (by decide) popped, stack₂, top₂, ?_,
    top, fun same => topFresh (same ▸ sound₅.pins.stack.reached), ?_, ?_, fun i lt => ?_⟩ <;>
    rw [cells₂]
  · exact (other₇ _ envApart.symm).trans ((kept₆ _ sound₅.pins.stack.reached).2.trans
      ((other₅ _ envApart.symm).trans (other₃ _ apart.symm)))
  · exact envAfter'
  · exact (other₇ _ topApart).trans topCell
  · exact (vectorRef_congr (other₇ _ distinct.symm)).trans
      ((vectorRef_congr (kept₆ _ stack₅.reached).2).trans ((vectorRef_congr (other₅ _ distinct.symm)).trans
        (copies i (Nat.zero_le _) (by simpa only [Nat.zero_add] using lt))))

/-- `cc`: `cc_env`, and then `new_stack`, are pinned while the stack is copied into `new_stack`
and both are stored into `cc_env`; the closure over `cc_env` is pushed. Until the push the stack
vector is not written, and every cell of the closure is new. -/
theorem ccOp_spec (sound : v.Sound g ret) (run : (ccOp g).run v = .ok (ctl, v')) :
    ctl = .next ∧ ∃ w ccFn, w.Sound g (some ccFn) ∧ (v.Loaded → w.Loaded) ∧
      (vpush g ccFn).run w = .ok ((), v') ∧ w.stack = v.stack ∧ w.stackTop = v.stackTop ∧
      (w.gc.cells v.stack).payload = (v.gc.cells v.stack).payload ∧
      Captures g v'.gc.cells v.gc.cells v.stack v.stackTop ccFn := by
  obtain ⟨ccEnv, u₁, made, run⟩ := run_bind_inv run
  rw [setLocal_bind] at run
  obtain ⟨ccFn, u₂, pinnedRun, run⟩ := run_bind_inv run
  obtain ⟨_, u₃, pushed, done⟩ := run_bind_inv run
  cases done
  simp only [pinned] at pinnedRun
  rw [pushRootOf_bind] at pinnedRun
  obtain ⟨_, w, body, run⟩ := run_bind_inv pinnedRun
  obtain ⟨_, w', popped, done⟩ := run_bind_inv run
  cases done
  rw [get_bind] at body
  obtain ⟨size, -, body₁⟩ := onHeap_bind_inv body
  obtain ⟨newStack, w₁, made₂, body₂⟩ := run_bind_inv body₁
  rw [setLocal_bind] at body₂
  obtain ⟨_, w₂, inner, body₃⟩ := run_bind_inv body₂
  obtain ⟨env, w₃, consed, closed⟩ := run_bind_inv body₃
  rw [setLocal_bind] at closed
  /- `cc_env = make_vector(the_empty_list, 2)`, pinned -/
  obtain ⟨sound₁, loaded₁, -, -, kept₁⟩ := sound.makeVector made
  have sound₂ := (sound₁.assign .ccEnv (Vm.holds_ret u₁ ccEnv)).pushRoot .ccEnv
    (by simpa only [Function.update_same] using Vm.holds_ret _ ccEnv)
  have env₂ :=
    Vm.pinned_pushed ({ u₁ with locals := Function.update u₁.locals .ccEnv ccEnv } : Vm) .ccEnv
  simp only [Function.update_same] at env₂
  obtain ⟨⟨gc₁, rfl⟩, envPayload, envFresh⟩ := sound.madeVector made
  /- `new_stack = make_vector(the_empty_list, VSIZE(stack))`, pinned and filled -/
  obtain ⟨sound₃, loaded₃, -, pins₃, kept₃⟩ := sound₂.makeVector made₂
  have sound₄ := sound₃.assign .newStack (Vm.holds_ret w₁ newStack)
  have env₄ := (pins₃ _ _ env₂).assign (by decide : VmLocal.ccEnv ≠ .newStack) newStack
  obtain ⟨⟨gc₃, rfl⟩, -, stackFresh⟩ := sound₂.madeVector made₂
  have apart : newStack ≠ v.stack := fun same => stackFresh (same ▸ sound₂.pins.stack.reached)
  have envApart : ccEnv ≠ v.stack := fun same => envFresh (same ▸ sound.pins.stack.reached)
  obtain ⟨⟨ret₅, sound₅⟩, loaded₅, env₅, stack₅, top₅, stackKept, top, topApart, envPayload₅,
      topPayload, copies⟩ := ccFill_spec sound₄ (by simp only [Function.update_same]) env₄
    ((kept₃ _ env₂.reached).2.trans envPayload) apart envApart
    (fun same => stackFresh (same ▸ env₂.reached)) inner
  /- `cc_env = cons(cc_env, the_empty_list)`, then the closure over it -/
  have children₁₀ : ∀ b ∈ (Payload.pair ccEnv g.theEmptyList).children, w₂.Reached b := by
    intro b mem
    rcases List.mem_cons.mp mem with same | mem
    · exact same ▸ env₅.reached
    · exact List.mem_singleton.mp mem ▸ sound₅.pins.empty.reached
  obtain ⟨sound₁₀, loaded₁₀, -, pins₁₀, kept₁₀⟩ := sound₅.construct children₁₀ consed
  have env₁₁ :
      ({ w₃ with locals := Function.update w₃.locals .ccEnv env } : Vm).Pinned .ccEnv env :=
    ⟨(pins₁₀ _ _ env₅).1, Function.update_same VmLocal.ccEnv env w₃.locals⟩
  have sound₁₁ := sound₁₀.assign .ccEnv (Vm.holds_ret w₃ env)
  have children₁₂ : ∀ b ∈ (Payload.compiledProc g.ccBytecode env).children,
      ({ w₃ with locals := Function.update w₃.locals .ccEnv env } : Vm).Reached b := by
    intro b mem
    rcases List.mem_cons.mp mem with same | mem
    · exact same ▸ sound₁₁.pins.cc.reached
    · exact List.mem_singleton.mp mem ▸ env₁₁.reached
  obtain ⟨sound₁₂, loaded₁₂, -, -, kept₁₂⟩ := sound₁₁.construct children₁₂ closed
  /- `pop_root(&cc_env)`, then `VPUSH(cc_fn)`: only the stack vector is written -/
  obtain ⟨cells₁₃, -, -, -, stack₁₃, top₁₃, -⟩ := popRootOf_inert _ _ _ _ popped
  obtain ⟨-, -, -, -, touched, -⟩ := vpush_run g pushed
  obtain ⟨⟨gc₁₂, rfl⟩, fnPayload, fnFresh⟩ := sound₁₁.safe.constructed children₁₂ closed
  obtain ⟨⟨gc₁₀, rfl⟩, envPayload₁₀, envFresh₁₀⟩ := sound₅.safe.constructed children₁₀ consed
  have stackAt : w₂.stack = v.stack := stack₅
  have held₅ : w₂.Reached v.stack := stackAt ▸ sound₅.pins.stack.reached
  have late : ∀ o ≠ v.stack, (v'.gc.cells o).payload = (u₂.gc.cells o).payload :=
    fun o other => by rw [touched.1 o fun same => other (same.trans (stack₁₃.trans stackAt))]
  rw [cells₁₃] at late
  have frame₁₁ := (kept₁₀ _ env₅.reached).2.trans envPayload₅
  have env₁₂ := env₁₁.reached.field envPayload₁₀ (List.mem_cons_self _ _)
  have stackKept₃ := (kept₃ _ sound₂.pins.stack.reached).2.trans (kept₁ _ sound.pins.stack.reached).2
  have copy₁₂ := env₁₂.field frame₁₁ (List.mem_cons_self _ _)
  have copy₁₀ := env₅.reached.field envPayload₅ (List.mem_cons_self _ _)
  have loadedEnd : v.Loaded → u₂.Loaded := fun loaded => (loaded₁₂ ((loaded₁₀ (loaded₅ ((loaded₃
    ((loaded₁ loaded).assign (by decide) ccEnv)).assign (by decide) newStack))).assign
    (by decide) env)).popRoot popped
  refine ⟨rfl, u₂, ccFn, sound₁₂.popRoot (by decide) popped, loadedEnd, pushed,
    stack₁₃.trans stack₅, top₁₃.trans top₅, ?_, env, ccEnv, newStack, top, ?_, ?_, ?_, ?_, apart,
    fun i lt => ?_⟩
  · rw [cells₁₃]
    exact (kept₁₂ v.stack (stackAt ▸ sound₁₁.pins.stack.reached)).2.trans
      ((kept₁₀ _ held₅).2.trans (stackKept.trans stackKept₃))
  · exact (late ccFn fun same => fnFresh (same ▸ stackAt ▸ sound₁₁.pins.stack.reached)).trans
      fnPayload
  · exact (late env fun same => envFresh₁₀ (same ▸ held₅)).trans
      ((kept₁₂ _ env₁₁.reached).2.trans envPayload₁₀)
  · exact (late _ envApart).trans ((kept₁₂ _ env₁₂).2.trans frame₁₁)
  · exact (late _ topApart).trans
      ((kept₁₂ _ (env₁₂.field frame₁₁ (by simp [Payload.children]))).2.trans
      ((kept₁₀ _ (env₅.reached.field envPayload₅ (by simp [Payload.children]))).2.trans topPayload))
  · exact (vectorRef_congr (late _ apart)).trans ((vectorRef_congr (kept₁₂ _ copy₁₂).2).trans
      ((vectorRef_congr (kept₁₀ _ copy₁₀).2).trans ((copies i lt).trans
      (vectorRef_congr stackKept₃))))

theorem ccOp_ends (sound : v.Sound g ret) (loaded : v.Loaded)
    (run : (ccOp g).run v = .ok (ctl, v')) : v'.Ends g ctl := by
  obtain ⟨rfl, w, ccFn, sound', loaded', pushed, -⟩ := ccOp_spec sound run
  obtain ⟨sound'', loaded'', -⟩ := sound'.vpush (Vm.holds_ret _ ccFn) pushed
  exact ⟨_, sound'', loaded'' (loaded' loaded)⟩

theorem ccOp_pushes (sound : v.Sound g ret) (run : (ccOp g).run v = .ok (ctl, v')) :
    ctl = .next ∧ v'.stack = v.stack ∧ v'.stackTop = v.stackTop + 1 ∧ ∃ ccFn,
      (∀ slots, v.slots = some slots → v'.slots = some (slots ++ [ccFn])) ∧
      Captures g v'.gc.cells v.gc.cells v.stack v.stackTop ccFn := by
  obtain ⟨rfl, w, ccFn, -, -, pushed, stack, top, payload, captures⟩ := ccOp_spec sound run
  obtain ⟨carries, top', -, -, -, slots'⟩ := vpush_run g pushed
  exact ⟨rfl, carries.stack.trans stack, by rw [top', top], ccFn,
    fun slots stacked => slots' slots ((Vm.slots_congr stack top payload).trans stacked), captures⟩

end Continuation

section Args

variable {g : Globals} {v v' : Vm} {ret : Option Nat} {ctl : Control}

theorem car_vectorSet {cells : Cells} {o vector a value : Nat} {idx : Int} {p : Payload}
    (read : car cells o = .ok a)
    (written : vectorSet cells vector idx value = .ok (setPayload cells vector p)) :
    car (setPayload cells vector p) o = .ok a := by
  obtain ⟨d, pair⟩ := car_ok read
  obtain ⟨elements, vec, -⟩ := vectorSet_ok written
  have same : (setPayload cells vector p o).payload = (cells o).payload := by
    rw [setPayload_payload, if_neg (ne_of_pair_vector pair vec)]
  rw [car_congr same]
  exact read

/-- `if(needed > VSIZE(car(env))) set_car(env, make_vector(the_empty_list, needed));` -/
theorem resizeFrame_sound {needed : Int} {u : Unit} (sound : v.Sound g ret)
    (run : (resizeFrame g needed).run v = .ok (u, v')) :
    ∃ ret', v'.Sound g ret' ∧ (v.Loaded → v'.Loaded) := by
  rw [resizeFrame, getLocal_bind] at run
  obtain ⟨size, -, run⟩ := onHeap_bind_inv run
  split at run
  · obtain ⟨frame, w, made, stored⟩ := run_bind_inv run
    obtain ⟨sound₁, loaded₁, -, pins₁, -⟩ := sound.makeVector made
    obtain ⟨sound₂, loaded₂, -⟩ := sound₁.store (setCar_storesField frame)
      (pins₁ _ _ ⟨sound.pins.env, rfl⟩).reached.holds (Vm.holds_ret w frame) stored
    exact ⟨_, sound₂, fun loaded => loaded₂ (loaded₁ loaded)⟩
  · cases run
    exact ⟨ret, sound, id⟩

/-- The loop of `args`: each argument is popped into `top` and stored into the frame vector,
which stays `car(env)`. -/
theorem popArgs_sound {vector : Nat} : ∀ (n : Nat) {v v' : Vm} {ret : Option Nat} {u : Unit},
    v.Sound g ret → car v.gc.cells (v.locals .env) = .ok vector →
    (popArgs g vector n).run v = .ok (u, v') →
    ∃ ret', v'.Sound g ret' ∧ (v.Loaded → v'.Loaded) ∧
      car v'.gc.cells (v'.locals .env) = .ok vector
  | 0, _, _, ret, _, sound, framed, run => by
    cases run
    exact ⟨ret, sound, id, framed⟩
  | n + 1, v, _, _, _, sound, framed, run => by
    rw [popArgs] at run
    obtain ⟨top, w, popped, run⟩ := run_bind_inv run
    rw [setLocal_bind] at run
    obtain ⟨_, w', stored, run⟩ := run_bind_inv run
    obtain ⟨sound₁, loaded₁, cells, touched, rfl⟩ := sound.vpop popped
    have sound₂ := sound₁.assign .top (Vm.holds_ret _ top)
    have framed₂ : car cells (Function.update v.locals .top top .env) = .ok vector := by
      rw [Function.update_noteq (by decide), touched.car]
      exact framed
    obtain ⟨sound₃, loaded₃, p, written, rfl⟩ := sound₂.store (vectorSet_storesField n top)
      ((sound₂.holds_local (.inr (.inl rfl)) rfl).child (car_mem framed₂)) (Vm.holds_ret _ top)
      stored
    obtain ⟨ret', sound', loaded', framed'⟩ :=
      popArgs_sound n sound₃ (car_vectorSet framed₂ written) run
    exact ⟨ret', sound', fun loaded => loaded' (loaded₃ ((loaded₁ loaded).assign (by decide) top)),
      framed'⟩

/-- The first loop of `argsdot`: `top` is pinned while the excess argument is consed onto the list
in the frame vector. -/
theorem consRest_sound {vector : Nat} {idx : Int} : ∀ (n : Nat) {v v' : Vm} {ret : Option Nat}
    {u : Unit}, v.Sound g ret → car v.gc.cells (v.locals .env) = .ok vector →
    (consRest g vector idx n).run v = .ok (u, v') →
    ∃ ret', v'.Sound g ret' ∧ (v.Loaded → v'.Loaded) ∧
      car v'.gc.cells (v'.locals .env) = .ok vector
  | 0, _, _, ret, _, sound, framed, run => by
    cases run
    exact ⟨ret, sound, id, framed⟩
  | n + 1, v, _, _, _, sound, framed, run => by
    rw [consRest] at run
    obtain ⟨top, w, popped, run⟩ := run_bind_inv run
    rw [setLocal_bind] at run
    obtain ⟨rest, restRead, run⟩ := onHeap_bind_inv run
    obtain ⟨cell, w₁, consed, run⟩ := run_bind_inv run
    obtain ⟨_, w₂, stored, run⟩ := run_bind_inv run
    obtain ⟨sound₁, loaded₁, cells, touched, rfl⟩ := sound.vpop popped
    have sound₂ := sound₁.assign .top (Vm.holds_ret _ top)
    have framed₂ : car cells (Function.update v.locals .top top .env) = .ok vector := by
      rw [Function.update_noteq (by decide), touched.car]
      exact framed
    have env₂ := Vm.reached_local sound₂.pins.env
    obtain ⟨sound₃, loaded₃, locals₃, -, kept₃⟩ := sound₂.construct (by
      intro b mem
      rcases List.mem_cons.mp mem with same | mem
      · rw [same]
        simpa only [Function.update_same] using Vm.reached_local sound₂.pins.top
      · rw [List.mem_singleton.mp mem]
        exact (env₂.child (car_mem framed₂)).child (vectorRef_mem restRead)) consed
    have framed₃ : car w₁.gc.cells (w₁.locals .env) = .ok vector := by
      rw [locals₃, car_congr (kept₃ _ env₂).2]
      exact framed₂
    obtain ⟨sound₄, loaded₄, p, written, rfl⟩ := sound₃.store (vectorSet_storesField idx cell)
      ((Vm.reached_local sound₃.pins.env).holds.child (car_mem framed₃)) (Vm.holds_ret _ cell)
      stored
    obtain ⟨ret', sound', loaded', framed'⟩ :=
      consRest_sound n sound₄ (car_vectorSet framed₃ written) run
    exact ⟨ret', sound', fun loaded =>
      loaded' (loaded₄ (loaded₃ ((loaded₁ loaded).assign (by decide) top))), framed'⟩

theorem argsOp_ends {instr : Nat} (sound : v.Sound g ret) (loaded : v.Loaded)
    (run : (argsOp g instr).run v = .ok (ctl, v')) : v'.Ends g ctl := by
  obtain ⟨numArgs, -, run⟩ := onHeap_bind_inv run
  rw [get_bind] at run
  split at run
  · exact vmFail_ends sound run
  obtain ⟨_, u, resized, run⟩ := run_bind_inv run
  rw [getLocal_bind] at run
  obtain ⟨vector, framed, run⟩ := onHeap_bind_inv run
  obtain ⟨_, u', popped, done⟩ := run_bind_inv run
  cases done
  obtain ⟨ret₁, sound₁, loaded₁⟩ := resizeFrame_sound sound resized
  obtain ⟨ret₂, sound₂, loaded₂, -⟩ := popArgs_sound _ sound₁ framed popped
  exact ⟨ret₂, sound₂, loaded₂ (loaded₁ loaded)⟩

theorem argsdotOp_ends {instr : Nat} (sound : v.Sound g ret) (loaded : v.Loaded)
    (run : (argsdotOp g instr).run v = .ok (ctl, v')) : v'.Ends g ctl := by
  obtain ⟨reqArgs, -, run⟩ := onHeap_bind_inv run
  rw [get_bind] at run
  dsimp only at run
  split at run
  · obtain ⟨_, u, resized, run⟩ := run_bind_inv run
    rw [getLocal_bind] at run
    obtain ⟨vector, framed, run⟩ := onHeap_bind_inv run
    obtain ⟨_, u₁, stored, run⟩ := run_bind_inv run
    obtain ⟨_, u₂, consed, run⟩ := run_bind_inv run
    obtain ⟨_, u₃, popped, done⟩ := run_bind_inv run
    cases done
    obtain ⟨ret₁, sound₁, loaded₁⟩ := resizeFrame_sound sound resized
    obtain ⟨sound₂, loaded₂, p, written, rfl⟩ := sound₁.store
      (vectorSet_storesField reqArgs g.theEmptyList)
      ((Vm.reached_local sound₁.pins.env).holds.child (car_mem framed))
      sound₁.pins.empty.reached.holds stored
    obtain ⟨ret₃, sound₃, loaded₃, framed₃⟩ :=
      consRest_sound _ sound₂ (car_vectorSet framed written) consed
    obtain ⟨ret₄, sound₄, loaded₄, -⟩ := popArgs_sound _ sound₃ framed₃ popped
    exact ⟨ret₄, sound₄, loaded₄ (loaded₃ (loaded₂ (loaded₁ loaded)))⟩
  · exact vmFail_ends sound run

end Args

section Run

variable {x : Externals} {g : Globals} {v v' : Vm} {ret : Option Nat} {ctl : Control}

/-- One opcode, from `vm_begin` with the instruction fetched from `fn`'s code. `setcc` never
gets past its `car` of the stack vector. -/
theorem execute_ends (calls : x.SafeCalls) {instr : Nat} (sound : v.Sound g ret)
    (loaded : v.Loaded) (fromFn : v.FromFn instr) :
    ∀ op, (execute x g instr op).run v = .ok (ctl, v') → v'.Ends g ctl
  | .args, run => argsOp_ends sound loaded run
  | .argsdot, run => argsdotOp_ends sound loaded run
  | .«return», run => returnOpcode_ends sound run
  | .const, run => constOp_ends sound loaded fromFn run
  | .fn, run => fnOp_ends sound loaded fromFn run
  | .fjump, run => popJump_ends sound loaded run
  | .tjump, run => popJump_ends sound loaded run
  | .jump, run => jumpIf_ends sound loaded run
  | .fcallj, run => fcalljOp_ends calls sound run
  | .callj, run => calljOp_ends calls sound run
  | .lvar, run => lvarOp_ends sound loaded run
  | .save, run => saveOp_ends sound loaded fromFn run
  | .gvar, run => gvarOp_ends calls sound loaded fromFn run
  | .lset, run => lsetOp_ends sound loaded run
  | .gset, run => gsetOp_ends calls sound loaded fromFn run
  | .setcc, run => by
    rw [execute, setccOp_undefined] at run
    cases run
  | .cc, run => ccOp_ends sound loaded run
  | .pop, run => popOp_ends sound loaded run

/-- `vm_begin`: the fetch, and the opcode it dispatches to. -/
theorem dispatch_ends (calls : x.SafeCalls) (sound : v.Sound g ret) (loaded : v.Loaded)
    (run : (dispatch x g).run v = .ok (ctl, v')) : v'.Ends g ctl := by
  rw [dispatch, get_bind] at run
  split at run
  · cases run
  obtain ⟨instr, read, run⟩ := onHeap_bind_inv run
  rw [setPc_bind] at run
  obtain ⟨code, -, run⟩ := onHeap_bind_inv run
  have sound₁ : ({ v with pc := v.pc + 1 } : Vm).Sound g ret := sound.congr rfl rfl rfl rfl rfl
  split at run
  · exact execute_ends calls sound₁ loaded (loaded.fromFn read) _ run
  · exact vmFail_ends sound₁ run

/-- What `vm_execute`'s caller provides: the invariant, with `fn` reachable from Roots, no entry of
Roots in `vm_execute`'s frame yet, and the stack and the objects `vm.c` uses by name held by the
caller's entries. Until `push_root(&fn)`, `fn` and `CENV(fn)` survive the `cons` only through
the caller. -/
structure Vm.Entry (g : Globals) (v : Vm) : Prop where
  safe : v.Safe none
  outside : ∀ r ∈ v.gc.rootObjects.contents, ∀ l, r ≠ v.addr l
  fn : v.Reached (v.locals .fn)
  stack : v.Outer v.stack
  empty : v.Outer g.theEmptyList
  vector : v.Outer g.theEmptyVector
  error : v.Outer g.errorSym
  cc : v.Outer g.ccBytecode

theorem Vm.Reached.assign {b : Nat} (reach : v.Reached b) {l : VmLocal}
    (outside : ∀ r ∈ v.gc.rootObjects.contents, r ≠ v.addr l) (a : Nat) :
    ({ v with locals := Function.update v.locals l a } : Vm).Reached b :=
  reach.of_targets fun _ ⟨r, mem, found⟩ => .target ⟨r, mem, by
    rw [Vm.store_update, Function.update_noteq (outside r mem)]
    exact found⟩

theorem Vm.Reached.pushRoot {b : Nat} (reach : v.Reached b) (l : VmLocal) :
    ({ v with gc := pushRoot v.gc (v.addr l) } : Vm).Reached b :=
  reach.of_targets fun _ ⟨r, mem, found⟩ => .target ⟨r, (Vm.mem_pushRoot l).mpr (.inl mem), found⟩

theorem mem_pushRoot_roots {s : GcState} {r a : Nat} :
    r ∈ (pushRoot s a).rootObjects.contents ↔ r ∈ s.rootObjects.contents ∨ r = a := by
  show r ∈ (stackSetPush s.rootObjects a).contents ↔ _
  rw [contents_stackSetPush, List.mem_append, List.mem_singleton]

/-- `push_root(&fn); push_root(&env); push_root(&top);` pins the three variables, and the
caller's entries stay. -/
theorem Vm.Outer.pins (stack : v.Outer v.stack) (empty : v.Outer g.theEmptyList)
    (error : v.Outer g.errorSym) (cc : v.Outer g.ccBytecode) :
    ({ v with
      gc := pushRoot (pushRoot (pushRoot v.gc (v.addr .fn)) (v.addr .env)) (v.addr .top) } :
      Vm).Pins g := by
  have grown : ∀ r ∈ v.gc.rootObjects.contents, r ∈ (pushRoot (pushRoot (pushRoot v.gc
      (v.addr .fn)) (v.addr .env)) (v.addr .top)).rootObjects.contents := fun r mem =>
    mem_pushRoot_roots.mpr (.inl (mem_pushRoot_roots.mpr (.inl (mem_pushRoot_roots.mpr (.inl mem)))))
  exact ⟨mem_pushRoot_roots.mpr (.inl (mem_pushRoot_roots.mpr (.inl (mem_pushRoot_roots.mpr
      (.inr rfl))))), mem_pushRoot_roots.mpr (.inl (mem_pushRoot_roots.mpr (.inr rfl))),
    mem_pushRoot_roots.mpr (.inr rfl), stack.of_roots rfl rfl grown, empty.of_roots rfl rfl grown,
    error.of_roots rfl rfl grown, cc.of_roots rfl rfl grown⟩

/-- The entry of `vm_execute` up to `vm_fn_begin` establishes the invariant with its pins. -/
theorem vmEnter_ends (entry : v.Entry g) (run : (vmEnter g).run v = .ok (ctl, v')) :
    v'.Ends g ctl := by
  rw [vmEnter, getLocal_bind] at run
  obtain ⟨env, envRead, run⟩ := onHeap_bind_inv run
  rw [setLocal_bind, getLocal_bind] at run
  obtain ⟨frame, u, consed, run⟩ := run_bind_inv run
  rw [setLocal_bind, setLocal_bind, pushRootOf_bind, pushRootOf_bind, pushRootOf_bind] at run
  have env₁ : v.Reached env := Reachable.child entry.fn (cenv_mem envRead)
  have fn₁ := entry.fn.assign (fun r mem => entry.outside r mem .env) env
  obtain ⟨x, gc, constructed, unreached, roots, kept, safe₂⟩ :=
    (entry.safe.assign .env env₁.holds).construct (.pair g.theEmptyVector env) false (by
      intro b mem
      rcases List.mem_cons.mp mem with same | mem
      · exact same ▸ entry.vector.reached.assign (fun r mem => entry.outside r mem .env) env
      · exact List.mem_singleton.mp mem ▸ env₁.assign (fun r mem => entry.outside r mem .env) env)
  obtain ⟨same, rfl⟩ := Prod.mk.inj (Except.ok.inj (constructed.symm.trans consed))
  subst same
  /- Roots is the caller's until the three pushes, so the assignments keep what it reaches. -/
  have grown : ∀ r ∈ v.gc.rootObjects.contents, r ∈ gc.rootObjects.contents := fun r mem =>
    roots ▸ mem
  have outside : ∀ r ∈ gc.rootObjects.contents, ∀ l, r ≠ v.addr l := fun r mem =>
    entry.outside r (roots ▸ mem)
  have outer₂ : ∀ {a}, v.Outer a → Vm.Outer { v with
      locals := Function.update v.locals .env env,
      gc := { gc with cells := setPayload gc.cells x (.pair g.theEmptyVector env) },
      written := x :: v.written } a := fun held => held.of_roots rfl rfl grown
  have fn₂ : Vm.Reached { v with
      locals := Function.update v.locals .env env,
      gc := { gc with cells := setPayload gc.cells x (.pair g.theEmptyVector env) },
      written := x :: v.written } (v.locals .fn) := by
    show Reachable _ (RootTarget _ gc.rootObjects) _
    rw [roots]
    refine fn₁.congr_payloads fun c reach => ?_
    show (setPayload gc.cells x (.pair g.theEmptyVector env) c).payload = (v.gc.cells c).payload
    rw [setPayload_payload, if_neg fun (same : c = x) => unreached (same ▸ reach)]
    exact kept c reach
  have outer₄ : ∀ {a}, v.Outer a → _ := fun held => ((outer₂ held).assign .env x).assign .top
    g.theEmptyList
  have fn₄ := (fn₂.assign (fun r mem => outside r mem .env) x).assign
    (fun r mem => outside r mem .top) g.theEmptyList
  have safe₄ := (safe₂.assign .env (Vm.holds_ret _ x)).assign .top
    ((outer₂ entry.empty).assign .env x).reached.holds
  have safe₅ := safe₄.pushRoot .fn (by
    simpa only [ne_eq, reduceCtorEq, not_false_eq_true, Function.update_noteq] using fn₄.holds)
  have safe₆ := safe₅.pushRoot .env (by
    simpa only [ne_eq, reduceCtorEq, not_false_eq_true, Function.update_noteq,
      Function.update_same] using Vm.holds_ret _ x)
  have safe₇ := safe₆.pushRoot .top (by
    simpa only [Function.update_same] using
      (((outer₄ entry.empty).reached.pushRoot .fn).pushRoot .env).holds)
  exact fnBegin_ends ⟨safe₇, Vm.Outer.pins (outer₄ entry.stack) (outer₄ entry.empty)
    (outer₄ entry.error) (outer₄ entry.cc)⟩ run

theorem Dispatches.sound (calls : x.SafeCalls) (entry : v.Entry g) {u : Vm}
    (reached : Dispatches x g v u) : ∃ ret, u.Sound g ret ∧ u.Loaded := by
  induction reached with
  | enter run => exact vmEnter_ends entry run
  | step _ run ih =>
    obtain ⟨ret, sound, loaded⟩ := ih
    exact dispatch_ends calls sound loaded run

/-- The collector is safe along every run of `vm_execute` entered as its caller must, when the
functions it calls in other files keep it safe. -/
theorem vm_execute_keeps_collector_safe (calls : x.SafeCalls) (entry : v.Entry g) :
    (∀ u, Dispatches x g v u → ∃ ret, u.Sound g ret ∧ u.Loaded) ∧
      ∀ u value message, Returns x g v u value message → u.Safe (some value) := by
  refine ⟨fun _ => Dispatches.sound calls entry, fun u value message returned => ?_⟩
  cases returned with
  | enter run => exact vmEnter_ends entry run
  | step reached run =>
    obtain ⟨ret, sound, loaded⟩ := Dispatches.sound calls entry reached
    exact dispatch_ends calls sound loaded run

/-- Functions of other files that change nothing and return one of their arguments. -/
def echoExternals : Externals :=
  ⟨fun _ _ gc stack _ _ => .ok (gc, stack), fun _ gc sym => .ok (gc, sym), fun _ gc _ _ => .ok gc⟩

theorem safeCall_echo {args : List Nat} {a : Nat} (mem : a ∈ args) :
    SafeCall (fun _ gc => .ok (gc, a)) args some := by
  intro store gc gc' r free old inv reached called
  cases called
  refine ⟨rfl, fun _ _ _ => id, free, old,
    inv.of_reach ⟨inv.heap, inv.roots⟩ rfl le_rfl fun b reach => ?_⟩
  exact reach.of_targets fun _ held => held.elim (fun root => .target (.inl root))
    fun ⟨_, same⟩ => Option.some.inj same ▸ (reached a mem).of_targets fun _ root => .target (.inl root)

theorem echoExternals_safeCalls : echoExternals.SafeCalls where
  primitive _ _ _ _ := safeCall_echo (List.mem_singleton_self _)
  lookupGlobalValue _ := safeCall_echo (List.mem_singleton_self _)
  defineGlobalVariable _ _ := by
    intro store gc gc' r free old inv reached called
    cases called
    exact ⟨rfl, fun _ _ _ => id, free, old, inv⟩

/-- A caller of `vm_execute` from `gc_init`. It builds the empty list in cell 0, the fixnum 7 in
cell 1, and the opcodes of `cc` and `return` in cells 2 and 3. The instructions `(cc)` and
`(return)` go in cells 4 and 5, the code vector `#((cc) (return))` in cell 6, and the stack
`#(7 ())` in cell 7. Cell 8 holds `fn`, a compiled procedure of that code over the empty
environment. Each cell `a` is held by a variable of the caller at address `100 + a`. -/
def callerEvents : List Event :=
  [.alloc false, .write 0 .theEmptyList, .setLocal 100 (some 0), .pushRoot 100,
   .alloc false, .write 1 (.fixnum 7), .setLocal 101 (some 1), .pushRoot 101,
   .alloc false, .write 2 (.character 16), .setLocal 102 (some 2), .pushRoot 102,
   .alloc false, .write 3 (.character 2), .setLocal 103 (some 3), .pushRoot 103,
   .alloc false, .write 4 (.pair 2 0), .setLocal 104 (some 4), .pushRoot 104,
   .alloc false, .write 5 (.pair 3 0), .setLocal 105 (some 5), .pushRoot 105,
   .alloc false, .write 6 (.vector [4, 5]), .setLocal 106 (some 6), .pushRoot 106,
   .alloc false, .write 7 (.vector [1, 0]), .setLocal 107 (some 7), .pushRoot 107,
   .alloc false, .write 8 (.compiledProc 6 0), .setLocal 108 (some 8), .pushRoot 108]

def callerMachine : Machine := (callerEvents.foldlM Machine.step initMachine).getD initMachine

theorem callerMachine_reaches : Reaches Constructing callerMachine := by
  have c₀ := Reaches.init.construct 0 .theEmptyList rfl rfl rfl rfl (fun _ mem => nomatch mem) rfl
  have p₀ := c₀.pin 100 0 rfl (.inr rfl) rfl rfl (.inr rfl) rfl rfl
  have c₁ := p₀.construct 1 (.fixnum 7) rfl rfl rfl rfl (fun _ mem => nomatch mem) rfl
  have p₁ := c₁.pin 101 1 rfl (.inr rfl) rfl rfl (.inr rfl) rfl rfl
  have c₂ := p₁.construct 2 (.character 16) rfl rfl rfl rfl (fun _ mem => nomatch mem) rfl
  have p₂ := c₂.pin 102 2 rfl (.inr rfl) rfl rfl (.inr rfl) rfl rfl
  have c₃ := p₂.construct 3 (.character 2) rfl rfl rfl rfl (fun _ mem => nomatch mem) rfl
  have p₃ := c₃.pin 103 3 rfl (.inr rfl) rfl rfl (.inr rfl) rfl rfl
  have c₄ := p₃.construct 4 (.pair 2 0) rfl rfl rfl rfl (Machine.live_of_held (by decide)) rfl
  have p₄ := c₄.pin 104 4 rfl (.inr rfl) rfl rfl (.inr rfl) rfl rfl
  have c₅ := p₄.construct 5 (.pair 3 0) rfl rfl rfl rfl (Machine.live_of_held (by decide)) rfl
  have p₅ := c₅.pin 105 5 rfl (.inr rfl) rfl rfl (.inr rfl) rfl rfl
  have c₆ := p₅.construct 6 (.vector [4, 5]) rfl rfl rfl rfl (Machine.live_of_held (by decide)) rfl
  have p₆ := c₆.pin 106 6 rfl (.inr rfl) rfl rfl (.inr rfl) rfl rfl
  have c₇ := p₆.construct 7 (.vector [1, 0]) rfl rfl rfl rfl (Machine.live_of_held (by decide)) rfl
  have p₇ := c₇.pin 107 7 rfl (.inr rfl) rfl rfl (.inr rfl) rfl rfl
  have c₈ := p₇.construct 8 (.compiledProc 6 0) rfl rfl rfl rfl
    (Machine.live_of_held (by decide)) rfl
  exact c₈.pin 108 8 rfl (.inr rfl) rfl rfl (.inr rfl) rfl rfl

/-- `vm_execute(fn, stack, 1, 0)` called from there, with `7` live on the stack; its own
variables are at addresses from 200. -/
@[irreducible] def callerVm : Vm :=
  Vm.start callerMachine.gc (fun r => if 100 ≤ r ∧ r ≤ 108 then some (r - 100) else none) 200
    (fun l => if l = .fn then 8 else 0) 7 1 0

theorem callerVm_entry : callerVm.Entry ⟨0, 0, 0, 0, 0⟩ := by
  have roots : callerVm.gc.rootObjects.contents = List.range' 100 9 := by
    unfold callerVm
    decide
  have outside : ∀ r ∈ callerVm.gc.rootObjects.contents, ∀ l, r ≠ callerVm.addr l := by
    intro r mem l same
    have base : callerVm.addr l = 200 + l.index := by
      unfold callerVm
      rfl
    rw [roots, List.mem_range'_1] at mem
    omega
  have outer : ∀ {a : Nat} (r : Nat), r ∈ callerVm.gc.rootObjects.contents →
      callerVm.outer r = some a → callerVm.Outer a := fun r mem found =>
    ⟨r, mem, outside r mem, found⟩
  obtain ⟨free, old, inv⟩ := callerMachine_reaches.safeInv
  have safe : callerVm.Safe (some 8) := ⟨free, old, inv.of_roots (by unfold callerVm; rfl) rfl rfl
    (by unfold callerVm; decide)⟩
  refine ⟨safe.release, outside, .target ⟨108, by rw [roots]; decide, ?_⟩,
    outer 107 (by rw [roots]; decide) ?_, outer 100 (by rw [roots]; decide) ?_,
    outer 100 (by rw [roots]; decide) ?_, outer 100 (by rw [roots]; decide) ?_,
    outer 100 (by rw [roots]; decide) ?_⟩ <;>
  · unfold callerVm
    decide

/-- The caller's run: after the entry, `cc` runs at the first `vm_begin` with `7` the one live
slot; it leaves the continuation on the stack, and `return` hands it, cell 14, to the caller. -/
theorem callerVm_runs_cc : (∃ u, Dispatches echoExternals ⟨0, 0, 0, 0, 0⟩ callerVm u ∧
      u.slots = some [1] ∧ ∃ ctl u', (ccOp ⟨0, 0, 0, 0, 0⟩).run u = .ok (ctl, u')) ∧
    (∃ u, Dispatches echoExternals ⟨0, 0, 0, 0, 0⟩ callerVm u ∧ u.stackTop = 2) ∧
    ∃ u, Returns echoExternals ⟨0, 0, 0, 0, 0⟩ callerVm u 14 none := by
  obtain ⟨u, reached, check⟩ := @Dispatches.of_check echoExternals ⟨0, 0, 0, 0, 0⟩ callerVm
    (fun u => u.slots == some [1] && ((ccOp ⟨0, 0, 0, 0, 0⟩).run u).toBool) 0 (by decide!)
  obtain ⟨w, after, top⟩ := @Dispatches.of_check echoExternals ⟨0, 0, 0, 0, 0⟩ callerVm
    (fun u => u.stackTop == 2) 1 (by decide!)
  simp only [Bool.and_eq_true, beq_iff_eq] at check top
  obtain ⟨slots, ran⟩ := check
  refine ⟨?_, ⟨w, after, top⟩, Returns.of_check 2 (by decide!)⟩
  cases run : (ccOp ⟨0, 0, 0, 0, 0⟩).run u with
  | error => simp [run, Except.toBool] at ran
  | ok r => exact ⟨u, reached, slots, r.1, r.2, run⟩

theorem callerVm_keeps_collector_safe : echoExternals.SafeCalls ∧ callerVm.Entry ⟨0, 0, 0, 0, 0⟩ ∧
    (∃ u, Dispatches echoExternals ⟨0, 0, 0, 0, 0⟩ callerVm u ∧ u.stackTop = 2) ∧
    (∃ u, Returns echoExternals ⟨0, 0, 0, 0, 0⟩ callerVm u 14 none) ∧
    (∀ u, Dispatches echoExternals ⟨0, 0, 0, 0, 0⟩ callerVm u →
      ∃ ret, u.Sound ⟨0, 0, 0, 0, 0⟩ ret ∧ u.Loaded) ∧
    ∀ u value message, Returns echoExternals ⟨0, 0, 0, 0, 0⟩ callerVm u value message →
      u.Safe (some value) :=
  ⟨echoExternals_safeCalls, callerVm_entry, callerVm_runs_cc.2.1, callerVm_runs_cc.2.2,
    vm_execute_keeps_collector_safe echoExternals_safeCalls callerVm_entry⟩

/-- Every `cc` run at a `vm_begin` of `vm_execute` pushes a continuation that owns a copy of the
live stack, in a new vector. -/
theorem cc_pushes_stack_copy (calls : x.SafeCalls) (entry : v.Entry g) :
    ∀ u, Dispatches x g v u → ∀ ctl u', (ccOp g).run u = .ok (ctl, u') →
      ctl = .next ∧ u'.stack = u.stack ∧ u'.stackTop = u.stackTop + 1 ∧ ∃ ccFn,
        (∀ slots, u.slots = some slots → u'.slots = some (slots ++ [ccFn])) ∧
        Captures g u'.gc.cells u.gc.cells u.stack u.stackTop ccFn := fun _ reached _ _ run =>
  let ⟨_, sound, _⟩ := Dispatches.sound calls entry reached
  ccOp_pushes sound run

theorem callerVm_cc_pushes_stack_copy : echoExternals.SafeCalls ∧ callerVm.Entry ⟨0, 0, 0, 0, 0⟩ ∧
    (∃ u, Dispatches echoExternals ⟨0, 0, 0, 0, 0⟩ callerVm u ∧ u.slots = some [1] ∧
      ∃ ctl u', (ccOp ⟨0, 0, 0, 0, 0⟩).run u = .ok (ctl, u')) ∧
    ∀ u, Dispatches echoExternals ⟨0, 0, 0, 0, 0⟩ callerVm u → ∀ ctl u',
      (ccOp ⟨0, 0, 0, 0, 0⟩).run u = .ok (ctl, u') →
      ctl = .next ∧ u'.stack = u.stack ∧ u'.stackTop = u.stackTop + 1 ∧ ∃ ccFn,
        (∀ slots, u.slots = some slots → u'.slots = some (slots ++ [ccFn])) ∧
        Captures ⟨0, 0, 0, 0, 0⟩ u'.gc.cells u.gc.cells u.stack u.stackTop ccFn :=
  ⟨echoExternals_safeCalls, callerVm_entry, callerVm_runs_cc.1,
    cc_pushes_stack_copy echoExternals_safeCalls callerVm_entry⟩

end Run

end BrianScheme
