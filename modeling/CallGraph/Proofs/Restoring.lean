/-
  CallGraph.Proofs.Restoring — leaving a call or a handler restores what was there before.

  What a call or a handler leaves behind is told above a part of the thread's story that does not
  change meanwhile (`Story.Over`), as long as its code stays below the stack pointers of that part.
  So however a call is left, the caller has its frames, its functions and its context back
  (`call_restores_caller`), and a handler that returned has changed nothing on its thread
  (`handler_restores_interrupted`). Other threads may do anything in between.
-/

import CallGraph.Proofs.Telling

namespace CallGraph.Tracker

variable {t t' t₁ t₂ : Tracker} {u : ThreadId}

/-! ## Parts of a run -/

/-- A part of a run whose steps are all as `ok` says of the state before, the operation and the state after. -/
inductive Course (ok : Tracker → Op → Tracker → Prop) : Tracker → Tracker → Prop
  | here {t : Tracker} : Course ok t t
  | step {t t₁ t' : Tracker} {op : Op} {reply : Reply} :
      t.step op = .ok (reply, t₁) → ok t op t₁ → Course ok t₁ t' → Course ok t t'

theorem Course.inv {ok : Tracker → Op → Tracker → Prop} (h : t.Inv) (hc : Course ok t t') : t'.Inv := by
  induction hc with
  | here => exact h
  | step hstep _ _ ih => exact ih (step_inv h hstep).1

/-- An operation that spares a thread: nothing is discarded and the run goes on, the thread runs blocks at
stack pointers `level` only, and leaves only handlers above the `n` outermost ones. -/
def Spares (u : ThreadId) (n : Nat) (level : Addr → Prop) (t : Tracker) : Op → Prop
  | .enterBlock pos _ => pos.thread = u → level pos.sp
  | .exitHandler thread _ => thread = u → n < (t.state u).handlers.length
  | op => op.sweeps = false

instance (u : ThreadId) (n : Nat) (level : Addr → Prop) [DecidablePred level] (t : Tracker) (op : Op) :
    Decidable (Spares u n level t op) := by
  cases op <;> unfold Spares <;> infer_instance

theorem Spares.sweeps {n : Nat} {level : Addr → Prop} {op : Op} (h : Spares u n level t op) : op.sweeps = false := by
  cases op with
  | enterBlock | exitHandler => rfl
  | _ => exact h

/-- A run whose steps are checked on the way. -/
def follow (ok : Tracker → Op → Tracker → Bool) (t : Tracker) : List Op → Option Tracker
  | [] => some t
  | op :: ops =>
    match t.step op with
    | .error _ => none
    | .ok (_, t₁) => if ok t op t₁ then follow ok t₁ ops else none

theorem Course.of_follow {ok : Tracker → Op → Tracker → Prop} [∀ t op t', Decidable (ok t op t')] {ops : List Op}
    (h : follow (fun t op t' => ok t op t') t ops = some t') : Course ok t t' := by
  induction ops generalizing t with
  | nil =>
    cases h
    exact .here
  | cons op ops ih =>
    unfold follow at h
    split at h
    · cases h
    · rename_i reply t₁ hstep
      split at h
      · rename_i hok
        exact .step hstep (of_decide_eq_true hok) (ih h)
      · cases h

/-- A story stays above a part of it, with the operations that spare the part. -/
theorem step_over {base : Story ContextId Kept AnchorId} {P : OpenCall AnchorId → Prop} {n : Nat} {level : Addr → Prop}
    (h : t.Inv) {op : Op} {reply : Reply} (hstep : t.step op = .ok (reply, t')) (hspares : Spares u n level t op)
    (hn : base.nesting ≤ n) {sc : Scene ContextId Kept AnchorId} (hs : (t.state u).Tells sc)
    (hover : base.Over P sc.story)
    (hblock : ∀ sp skip b a c kept sc', level sp →
      sc' = sc.enter t.blockOf t.config.tailCalls skip b sp a c kept → (t'.state u).Tells sc' → base.Over P sc'.story) :
    ∃ sc', (t'.state u).Tells sc' ∧ base.Over P sc'.story := by
  obtain ⟨sc', hs', htold⟩ := step_tells h hstep hspares.sweeps u hs
  refine ⟨sc', hs', ?_⟩
  cases htold with
  | aside e =>
    rw [e]
    exact hover
  | block sp id skip b a c kept => exact hblock sp skip b a c kept _ (hspares rfl) rfl hs'
  | signal signal => exact .handler signal sc.last sc.passed hover
  | signalReturn =>
    refine hover.leave ?_
    have hlt : n < (t.state u).handlers.length := hspares rfl
    rw [hs.handlers, Story.length_handlers] at hlt
    omega

/-! ## Calls -/

/-- Nothing runs on the thread but handlers that are left again. -/
theorem quiet_over {base : Story ContextId Kept AnchorId} {n : Nat} (h : t.Inv) (hn : base.nesting ≤ n)
    (hc : Course (fun t op _ => Spares u n (fun _ => False) t op) t t') {sc : Scene ContextId Kept AnchorId}
    (hs : (t.state u).Tells sc) (hover : base.Over (fun _ => False) sc.story) :
    ∃ sc', (t'.state u).Tells sc' ∧ base.Over (fun _ => False) sc'.story := by
  induction hc generalizing sc with
  | here => exact ⟨sc, hs, hover⟩
  | step hstep hspares _ ih =>
    obtain ⟨sc₁, hs₁, hover₁⟩ := step_over h hstep hspares hn hs hover fun _ _ _ _ _ _ _ hlevel => hlevel.elim
    exact ih (step_inv h hstep).1 hs₁ hover₁

/-- The body of a call: its thread stays above the part of the story that is its caller's, and no frame above
it is above `top`. -/
theorem body_over {base : Story ContextId Kept AnchorId} {n : Nat} {top : Addr} (h : t.Inv) (hn : base.nesting ≤ n)
    (hc : Course (fun t op t' => Spares u n (fun sp => ¬top < sp) t op ∧ base.depth < (t'.state u).shadow.depth) t t')
    {sc : Scene ContextId Kept AnchorId} (hs : (t.state u).Tells sc) (hover : base.Over (fun c => ¬top < c.sp) sc.story)
    (hd : base.depth < sc.story.depth) :
    ∃ sc', (t'.state u).Tells sc' ∧ base.Over (fun c => ¬top < c.sp) sc'.story ∧ base.depth < sc'.story.depth := by
  induction hc generalizing sc with
  | here => exact ⟨sc, hs, hover, hd⟩
  | @step t t₁ _ _ _ hstep hok _ ih =>
    obtain ⟨hspares, habove⟩ := hok
    obtain ⟨sc₁, hs₁, hover₁⟩ := step_over h hstep hspares hn hs hover <| by
      intro sp skip b a c kept sc' hlevel e hs'
      subst e
      rw [hs'.depth] at habove
      refine hover.enter (fun hx => ?_) fun hx call hsp => ?_
      · rw [Scene.depth_enter hx] at habove
        omega
      · -- The call is at the stack pointer, or level with the frame on top, which is one of the body.
        rw [hsp]
        obtain e | ⟨f, hf, e, -⟩ := Transfer.level_of_enters hx
        · rw [Scene.transfer, e]
          exact hlevel
        · rw [Scene.transfer, e]
          obtain ⟨above, hmarks, hcalls⟩ := hover.marks
          cases above with
          | nil =>
            have hlength := congrArg List.length hmarks
            simp only [Story.length_marks, List.nil_append] at hlength
            omega
          | cons g above =>
            rw [hmarks] at hf
            cases hf
            obtain ⟨c', hc', e'⟩ := hcalls f (List.mem_cons_self ..)
            rw [e']
            exact hc'
    have hd₁ : base.depth < sc₁.story.depth := by
      rw [hs₁.depth] at habove
      exact habove
    exact ih (step_inv h hstep).1 hs₁ hover₁ hd₁

/-- At a stack pointer above the calls told above a part, but not above the part itself, exactly those calls are
left. -/
theorem enter_base {base : Story ContextId Kept AnchorId} {top sp : Addr} {sc : Scene ContextId Kept AnchorId}
    (hover : base.Over (fun c => ¬top < c.sp) sc.story) (hw : sc.story.WellFormed) (hstarted : base.started = true)
    (hlevel : ∀ f, base.marks.head? = some f → ¬f.sp < sp) (hlt : top < sp) (hd : base.depth < sc.story.depth)
    (hn : sc.story.nesting = base.nesting) (blockOf : AnchorId → Option Block) (rule : TailCallRule) (skip : Bool)
    (b : Block) (a : AnchorId) (c : ContextId) (kept : Kept) :
    (sc.enter blockOf rule skip b sp a c kept).story = base := by
  obtain ⟨above, hmarks, hcalls⟩ := hover.marks
  have hlength : sc.story.depth = above.length + base.depth := by
    have := congrArg List.length hmarks
    rwa [Story.length_marks, List.length_append, Story.length_marks] at this
  -- All calls above the part lie below the stack pointer, so all of them are left.
  have hbelow : ∀ f ∈ above, f.sp < sp := by
    intro f hf
    obtain ⟨c, hc, e⟩ := hcalls f hf
    rw [e, Addr.lt_iff]
    rw [Addr.lt_iff] at hc hlt
    omega
  have hbottom : sc.story.bottom < sc.story.marks.length := by
    rw [Story.length_marks, hover.bottom_eq hn]
    exact Nat.lt_of_le_of_lt base.bottom_le hd
  obtain ⟨f, rest, hf⟩ : ∃ f rest, sc.story.marks = f :: rest := by
    cases hm : sc.story.marks with
    | nil =>
      rw [hm] at hbottom
      cases hbottom
    | cons f rest => exact ⟨f, rest, rfl⟩
  have hfabove : f ∈ above := by
    cases above with
    | nil =>
      rw [List.length_nil] at hlength
      omega
    | cons g above =>
      rw [hmarks] at hf
      cases hf
      exact List.mem_cons_self ..
  obtain ⟨hstays, n, hone, hpops⟩ : (sc.transfer blockOf rule b sp).enters = false ∧
      ∃ n ≤ 1, (sc.transfer blockOf rule b sp).pops = leftBehind sp n sc.story.marks :=
    Transfer.leaves_of_below hf (hbelow f hfabove) hbottom
  have hpops : (sc.transfer blockOf rule b sp).pops = above.length := by
    rw [hpops, hmarks]
    have : n ≤ above.length := Nat.le_trans hone (List.length_pos_of_mem hfabove)
    exact leftBehind_append hbelow this hlevel
  have hbase : (sc.popCalls above.length).story = base := by
    have hover' : base.Over (fun c => ¬top < c.sp) (sc.popCalls above.length).story := hover.popCalls _ (by omega)
    have hle := sc.nesting_popCalls_le above.length
    have hge := hover'.nesting_le
    exact hover'.eq_base (Scene.popCalls_wellFormed _ hw) hstarted (by rw [Scene.depth_popCalls]; omega) (by omega)
  rw [Scene.enter_of_stays hstays, hpops, hbase, if_pos hstarted]

/-- What a thread has open: its frames, its function stack, its active context, the last costed anchor and its
handlers. -/
structure SameOpen (s s' : ThreadState) : Prop where
  frames : s'.shadow.frames = s.shadow.frames
  fns : s'.fns = s.fns
  context : s'.exec.context = s.exec.context
  costed : s'.exec.costed = s.exec.costed
  handlers : s'.handlers = s.handlers

theorem sameOpen_of_story {s s' : ThreadState} {sc sc' : Scene ContextId Kept AnchorId} (h : s.Tells sc)
    (h' : s'.Tells sc') (e : sc'.story = sc.story) : SameOpen s s' where
  frames := by rw [h'.frames, h.frames, e]
  fns := congrArg FnStack.mk (by rw [h'.slots, h.slots, e])
  context := by rw [h'.exec, h.exec, e]
  costed := by rw [h'.exec, h.exec, e]
  handlers := by rw [h'.handlers, h.handlers, e]

/-- Leaving a call restores the caller, however it is left: a thread that pushed a frame below the stack
pointer `s` of a block, and came back to `s` with its handlers left, has the frames, functions, context, last
costed anchor and handlers that it had there, whichever block runs then. -/
theorem call_restores_caller {config : Config} {t₀ t t₁ t₂ t₃ : Tracker} {u : ThreadId} {s sp : Addr} {id id₁ id₃ : BlockId}
    {reply reply₁ : Reply} {f : Frame} (hreach : Reach config t₀)
    (harrive : t₀.step (.enterBlock { thread := u, sp := s } id) = .ok (reply, t))
    (hquiet : Course (fun t' op _ => Spares u (t.state u).handlers.length (fun _ => False) t' op) t t₁)
    (hcall : t₁.step (.enterBlock { thread := u, sp } id₁) = .ok (reply₁, t₂))
    (hpush : (t₂.state u).shadow.frames = f :: (t.state u).shadow.frames) (hbelow : f.sp < s)
    (hbody : Course (fun t' op t'' => Spares u (t.state u).handlers.length (fun sp => ¬f.sp < sp) t' op ∧
      (t.state u).shadow.depth < (t''.state u).shadow.depth) t₂ t₃)
    (hleft : (t₃.state u).handlers.length = (t.state u).handlers.length) (hlive : t₃.blocks.contains id₃ = true) :
    ∃ a t₄, t₃.step (.enterBlock { thread := u, sp := s } id₃) = .ok (.billed a, t₄) ∧
      SameOpen (t.state u) (t₄.state u) := by
  obtain ⟨h₀, -⟩ := reach_inv hreach
  have h := (step_inv h₀ harrive).1
  have h₁ := hquiet.inv h
  have h₂ := (step_inv h₁ hcall).1
  -- The caller's story: its top frame is not below `s`, and some block ran.
  obtain ⟨sc₀, hs₀⟩ := (h₀.state u).1.story
  have hlive₀ : t₀.blocks.contains id = true := (step_ok_iff h₀ _).mp ⟨_, _, harrive⟩
  obtain ⟨a, t', skip, b, c, kept, harrive', hs⟩ := enterBlock_total h₀ { thread := u, sp := s } hlive₀ hs₀
  rw [harrive] at harrive'
  cases harrive'
  obtain ⟨sc, hs, hlevel, hstarted⟩ : ∃ sc, (t.state u).Tells sc ∧
      (∀ f, sc.story.marks.head? = some f → ¬f.sp < s) ∧ sc.story.started = true :=
    ⟨_, hs, Scene.level_enter, Scene.started_enter⟩
  have hn : sc.story.nesting = (t.state u).handlers.length := by rw [hs.handlers, Story.length_handlers]
  have hdepth : (t.state u).shadow.depth = sc.story.depth := by rw [ShadowStack.depth, hs.frames, Story.length_frames]
  -- The call pushes its frame right above it.
  obtain ⟨sc₁, hs₁, hover₁⟩ := quiet_over h (Nat.le_of_eq hn) hquiet hs .here
  have hlive₁ : t₁.blocks.contains id₁ = true := (step_ok_iff h₁ _).mp ⟨_, _, hcall⟩
  obtain ⟨a₁, t', skip₁, b₁, c₁, kept₁, hcall', hs₂⟩ := enterBlock_total h₁ { thread := u, sp } hlive₁ hs₁
  rw [hcall] at hcall'
  cases hcall'
  have hdepth₂ : (sc₁.enter t₁.blockOf t₁.config.tailCalls skip₁ b₁ sp a₁ c₁ kept₁).story.depth = sc.story.depth + 1 := by
    have := congrArg List.length hpush
    rwa [hs₂.frames, Story.length_frames, List.length_cons, hs.frames, Story.length_frames] at this
  have hover₂ : sc.story.Over (fun c => ¬f.sp < c.sp)
      (sc₁.enter t₁.blockOf t₁.config.tailCalls skip₁ b₁ sp a₁ c₁ kept₁).story := by
    cases hx : (sc₁.transfer t₁.blockOf t₁.config.tailCalls b₁ sp).enters with
    | false =>
      rw [Scene.depth_enter hx, hover₁.depth_of_no_call] at hdepth₂
      omega
    | true =>
      have hframes := hs₂.frames
      rw [hpush, Scene.enter_of_enters hx] at hframes
      rw [Scene.enter_of_enters hx]
      refine .call c₁ kept₁ ?_ (hover₁.mono fun _ hc => hc.elim)
      have hf : f.sp = (sc₁.transfer t₁.blockOf t₁.config.tailCalls b₁ sp).sp := by
        have := (List.cons.inj hframes).1
        rw [this]
        split <;> rfl
      rw [hf, Addr.lt_iff]
      exact Nat.lt_irrefl _
  -- What runs then stays above the caller's story, until the block at `s` leaves it all.
  rw [hdepth] at hbody
  obtain ⟨sc₃, hs₃, hover₃, hd₃⟩ := body_over h₂ (Nat.le_of_eq hn) hbody hs₂ hover₂ (Nat.lt_of_succ_le hdepth₂.ge)
  have hn₃ : sc₃.story.nesting = sc.story.nesting := by
    rw [hn, ← hleft, hs₃.handlers, Story.length_handlers]
  obtain ⟨a₃, t₄, skip₃, b₃, c₃, kept₃, hback, hs₄⟩ :=
    enterBlock_total (hbody.inv h₂) { thread := u, sp := s } hlive hs₃
  exact ⟨a₃, t₄, hback, sameOpen_of_story hs hs₄
    (enter_base hover₃ hs₃.wellFormed hstarted hlevel hbelow hd₃ hn₃ ..)⟩

/-- The blocks of `signalledRun`, before anything runs. -/
def callBlocks : List Op :=
  [.registerFunction "main" ⟨0⟩, .registerFunction "work" ⟨0⟩,
    .registerBlock (callBlock 100 ⟨0⟩), .registerBlock (callBlock 200 ⟨1⟩)]

/-- The frame that the first call of `work` pushes. -/
def workFrame : Frame :=
  { arc := some { id := ⟨0⟩, caller := ⟨0⟩, callee := ⟨1⟩ }, sp := ⟨990⟩, returnTo := ⟨105⟩, context := some ⟨0⟩
    fnDepth := 1, costed := none }

/-- While `work` runs it calls itself, a signal is handled, and another thread runs. -/
def workBody : List Op :=
  [.enterBlock { thread := ⟨1⟩, sp := ⟨980⟩ } ⟨1⟩, .enterHandler ⟨1⟩ 10, .enterBlock { thread := ⟨1⟩, sp := ⟨900⟩ } ⟨0⟩,
    .enterBlock { thread := ⟨2⟩, sp := ⟨2000⟩ } ⟨0⟩, .exitHandler ⟨1⟩ 10]

theorem call_restores_caller_workBody :
    ∃ (t t₃ : Tracker) (a : AnchorId) (t₄ : Tracker), (t₃.state ⟨1⟩).shadow.depth = 2 ∧
      t₃.step (.enterBlock { thread := ⟨1⟩, sp := ⟨1000⟩ } ⟨1⟩) = .ok (.billed a, t₄) ∧
      SameOpen (t.state ⟨1⟩) (t₄.state ⟨1⟩) := by
  have hrun : (runFrom fewBuckets callBlocks).map (fun t₀ =>
      ((t₀.step (.enterBlock { thread := ⟨1⟩, sp := ⟨1000⟩ } ⟨0⟩)).toOption.bind fun p =>
        (follow (fun t' op _ => Spares ⟨1⟩ (p.2.state ⟨1⟩).handlers.length (fun _ => False) t' op) p.2
          [.enterBlock { thread := ⟨2⟩, sp := ⟨2010⟩ } ⟨1⟩]).bind fun t₁ =>
        (t₁.step (.enterBlock { thread := ⟨1⟩, sp := ⟨990⟩ } ⟨1⟩)).toOption.bind fun q =>
        (follow (fun t' op t'' => Spares ⟨1⟩ (p.2.state ⟨1⟩).handlers.length (fun sp => ¬workFrame.sp < sp) t' op ∧
          (p.2.state ⟨1⟩).shadow.depth < (t''.state ⟨1⟩).shadow.depth) q.2 workBody).map fun t₃ =>
        (decide ((q.2.state ⟨1⟩).shadow.frames = workFrame :: (p.2.state ⟨1⟩).shadow.frames),
          decide ((t₃.state ⟨1⟩).handlers.length = (p.2.state ⟨1⟩).handlers.length), t₃.blocks.contains ⟨1⟩,
          (t₃.state ⟨1⟩).shadow.depth))) = .ok (some (true, true, true, 2)) := by decide +kernel
  obtain ⟨t₀, hr, hrun⟩ := runFrom_of_map hrun
  obtain ⟨⟨reply, t⟩, harrive, hrun⟩ := Option.bind_eq_some_iff.mp hrun
  obtain ⟨t₁, hquiet, hrun⟩ := Option.bind_eq_some_iff.mp hrun
  obtain ⟨⟨reply₁, t₂⟩, hcall, hrun⟩ := Option.bind_eq_some_iff.mp hrun
  obtain ⟨t₃, hbody, hrun⟩ := Option.map_eq_some_iff.mp hrun
  simp only [Prod.mk.injEq, decide_eq_true_eq] at hrun
  obtain ⟨hpush, hleft, hlive, hdepth⟩ := hrun
  obtain ⟨a, t₄, hback, hsame⟩ := call_restores_caller (reach_runFrom hr) (toOption_eq_some.mp harrive) (.of_follow hquiet)
    (toOption_eq_some.mp hcall) hpush (by decide) (.of_follow hbody) hleft hlive
  exact ⟨t, t₃, a, t₄, hdepth, hback, hsame⟩

/-! ## Handlers -/

/-- Code below the top frame of a part of the story stays above it. -/
theorem handler_over {base : Story ContextId Kept AnchorId} {n : Nat} {level : Addr → Prop} (h : t.Inv)
    (hn : base.nesting ≤ n) (hlevel : ∀ sp, level sp → ∀ f, base.marks.head? = some f → sp < f.sp)
    (hc : Course (fun t op _ => Spares u n level t op) t t') {sc : Scene ContextId Kept AnchorId}
    (hs : (t.state u).Tells sc) (hover : base.Over (fun _ => True) sc.story) :
    ∃ sc', (t'.state u).Tells sc' ∧ base.Over (fun _ => True) sc'.story := by
  induction hc generalizing sc with
  | here => exact ⟨sc, hs, hover⟩
  | step hstep hspares _ ih =>
    obtain ⟨sc₁, hs₁, hover₁⟩ := step_over h hstep hspares hn hs hover <| by
      intro sp skip b a c kept sc' hsp e _
      subst e
      refine hover.enter (fun hx => ?_) fun _ _ _ => trivial
      obtain ⟨above, hmarks, -⟩ := hover.marks
      obtain ⟨m, hpops⟩ := Transfer.of_stays hx
      have hle := leftBehind_le_of_above m above (hlevel sp hsp)
      rw [← hmarks, ← hpops] at hle
      have hlength := congrArg List.length hmarks
      rw [Story.length_marks, List.length_append, Story.length_marks] at hlength
      have hle : (sc.transfer _ _ b sp).pops ≤ above.length := hle
      omega
    exact ih (step_inv h hstep).1 hs₁ hover₁

/-- A handler that returned is invisible to the code it interrupted: a thread whose handler ran below its top
frame, and left the handlers that interrupted it, has everything back that it had when the signal came, and
its part in the activations of every function is what it was. -/
theorem handler_restores_interrupted {config : Config} {t t₁ t₂ : Tracker} {u : ThreadId} {signal : Int} {reply : Reply}
    (hreach : Reach config t) (hsignal : t.step (.enterHandler u signal) = .ok (reply, t₁))
    (hbody : Course (fun t' op _ => Spares u ((t.state u).handlers.length + 1)
      (fun sp => ∀ f ∈ (t.state u).shadow.top?, sp < f.sp) t' op) t₁ t₂)
    (hleft : (t₂.state u).handlers.length = (t.state u).handlers.length + 1) :
    ∃ t₃, t₂.step (.exitHandler u signal) = .ok (.done, t₃) ∧
      (t₃.state u).shadow.frames = (t.state u).shadow.frames ∧ (t₃.state u).fns = (t.state u).fns ∧
      (t₃.state u).exec = (t.state u).exec ∧ (t₃.state u).handlers = (t.state u).handlers ∧
      ∀ fn, t.functions.activeCount fn = (t.state u).fns.slots.count (some fn) + t.slotsBeside u fn ∧
        t₃.functions.activeCount fn = (t.state u).fns.slots.count (some fn) + t₃.slotsBeside u fn := by
  obtain ⟨h, -⟩ := reach_inv hreach
  have h₁ := (step_inv h hsignal).1
  have h₂ := hbody.inv h₁
  obtain ⟨sc, hs⟩ := (h.state u).1.story
  obtain ⟨t', henter, h'⟩ := bind_eq_ok.mp hsignal
  cases h'
  obtain ⟨hpos, -, hs₁⟩ := enterHandler_tells henter hs
  have hn : sc.story.nesting + 1 = (t.state u).handlers.length + 1 := by rw [hs.handlers, Story.length_handlers]
  obtain ⟨sc₂, hs₂, hover⟩ : ∃ sc₂, (t₂.state u).Tells sc₂ ∧
      (Story.handler signal sc.last sc.passed sc.story).Over (fun _ => True) sc₂.story := by
    refine handler_over h₁ (Nat.le_of_eq hn) (fun sp hsp m hm => ?_) hbody hs₁ .here
    have htop := hs.top_sp
    rw [show sc.story.marks.head? = some m from hm] at htop
    obtain ⟨f, hf, e⟩ := Option.map_eq_some_iff.mp htop.symm
    have e : f.sp = m.sp := e
    rw [← e]
    exact hsp f hf
  obtain ⟨hleave, hsignal₂⟩ := hover.leave_handler (by rw [← Story.length_handlers, ← hs₂.handlers, hleft, hn])
  have hallowed : t₂.Allowed (.exitHandler u signal) := by
    refine ⟨hpos, ?_⟩
    rw [← signal_switchTo, thread_switchTo_state, hs₂.exec]
    exact hsignal₂
  obtain ⟨reply₃, t₃, hexit, h₃, -⟩ := step_ok h₂ hallowed
  obtain ⟨t'', hexit', h''⟩ := bind_eq_ok.mp hexit
  cases h''
  obtain ⟨-, -, hs₃⟩ := exitHandler_tells hexit' hs₂
  rw [hleave] at hs₃
  have hfns : (t₃.state u).fns = (t.state u).fns := congrArg FnStack.mk (hs₃.slots.trans hs.slots.symm)
  refine ⟨t₃, hexit, hs₃.frames.trans hs.frames.symm, hfns, hs₃.exec.trans hs.exec.symm,
    hs₃.handlers.trans hs.handlers.symm, fun fn => ⟨activeCount_eq h u fn, ?_⟩⟩
  rw [← hfns]
  exact activeCount_eq h₃ u fn

/-- A handler that calls `work`, is interrupted itself, and leaves the frame of its call behind. -/
def handlerBody : List Op :=
  [.enterBlock { thread := ⟨1⟩, sp := ⟨960⟩ } ⟨0⟩, .enterBlock { thread := ⟨1⟩, sp := ⟨950⟩ } ⟨1⟩, .enterHandler ⟨1⟩ 12,
    .enterBlock { thread := ⟨2⟩, sp := ⟨2000⟩ } ⟨0⟩, .enterBlock { thread := ⟨1⟩, sp := ⟨900⟩ } ⟨0⟩, .exitHandler ⟨1⟩ 12]

theorem handler_restores_interrupted_handlerBody :
    ∃ t t₂ t₃ : Tracker, (t.state ⟨1⟩).shadow.depth = 1 ∧ (t₂.state ⟨1⟩).shadow.depth = 2 ∧
      t₂.step (.exitHandler ⟨1⟩ 10) = .ok (.done, t₃) ∧
      (t₃.state ⟨1⟩).shadow.frames = (t.state ⟨1⟩).shadow.frames ∧ (t₃.state ⟨1⟩).exec = (t.state ⟨1⟩).exec := by
  have hrun : (runFrom fewBuckets (callBlocks ++ [.enterBlock { thread := ⟨1⟩, sp := ⟨1000⟩ } ⟨0⟩,
      .enterBlock { thread := ⟨1⟩, sp := ⟨990⟩ } ⟨1⟩])).map (fun t =>
      (t.step (.enterHandler ⟨1⟩ 10)).toOption.bind fun p =>
        (follow (fun t' op _ => Spares ⟨1⟩ ((t.state ⟨1⟩).handlers.length + 1)
          (fun sp => ∀ f ∈ (t.state ⟨1⟩).shadow.top?, sp < f.sp) t' op) p.2 handlerBody).map fun t₂ =>
        (decide ((t₂.state ⟨1⟩).handlers.length = (t.state ⟨1⟩).handlers.length + 1),
          (t.state ⟨1⟩).shadow.depth, (t₂.state ⟨1⟩).shadow.depth)) = .ok (some (true, 1, 2)) := by decide +kernel
  obtain ⟨t, hr, hrun⟩ := runFrom_of_map hrun
  obtain ⟨⟨reply, t₁⟩, hsignal, hrun⟩ := Option.bind_eq_some_iff.mp hrun
  obtain ⟨t₂, hbody, hrun⟩ := Option.map_eq_some_iff.mp hrun
  simp only [Prod.mk.injEq, decide_eq_true_eq] at hrun
  obtain ⟨hleft, hdepth, hdepth₂⟩ := hrun
  obtain ⟨t₃, hexit, hframes, -, hexec, -⟩ :=
    handler_restores_interrupted (reach_runFrom hr) (toOption_eq_some.mp hsignal) (.of_follow hbody) hleft
  exact ⟨t, t₂, t₃, hdepth, hdepth₂, hexit, hframes, hexec⟩

end CallGraph.Tracker
