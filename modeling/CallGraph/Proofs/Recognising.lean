/-
  CallGraph.Proofs.Recognising — which frame a level return is recognised by.

  A return that is level with the top frame leaves the frames down to the first one whose return address is the
  block returned to, and nothing but that address decides. Along a run every frame keeps the level and the address
  that it was pushed with (`FrameSince.mark_eq`), so the frame found was pushed with that very address. An address
  is known only where a call is billed to a call instruction; outside skipped code that is the exit that control
  came through, and then the transfer was counted neither as a promoted jump nor as an emulated call
  (`matched_frame_was_called`). The address that stands for an unknown one is no exception: a block may start there,
  and a return to it finds the frames that return nowhere (`unknown_address_matches`).
-/

import Mathlib.Data.List.TakeWhile
import CallGraph.Proofs.Bracketing
import CallGraph.Proofs.Delivering
import CallGraph.Proofs.ReturnAddresses

namespace CallGraph

/-! ## One return -/

section Frames

variable {sp target : Addr} {frames : List Frame} {top : Frame} {n k : Nat}

/-- The frame that a search of the level ends at. -/
theorem frame_of_match (h : ((level sp frames).findIdx? fun f => f.returnTo = target) = some k) :
    ∃ f, frames[k]? = some f ∧ f.sp = sp ∧ f.returnTo = target := by
  obtain ⟨hk, hto, -⟩ := List.findIdx?_eq_some_iff_getElem.mp h
  have hsp := List.mem_takeWhile_imp (List.getElem_mem hk)
  have hprefix : level sp frames <+: frames := List.takeWhile_prefix _
  exact ⟨_, List.prefix_iff_getElem?.mp hprefix k hk, of_decide_eq_true hsp, of_decide_eq_true hto⟩

/-- A level return goes to the address of the frame that it is recognised by. -/
theorem frame_of_returnDepth (htop : frames.head? = some top) (hsp : top.sp = sp)
    (h : returnDepth frames sp target = some n) :
    ∃ k f, n = k + 1 ∧ frames[k]? = some f ∧ f.sp = sp ∧ f.returnTo = target := by
  rw [returnDepth_level htop hsp] at h
  obtain ⟨k, hk, rfl⟩ := Option.map_eq_some_iff.mp h
  obtain ⟨f, hf⟩ := frame_of_match hk
  exact ⟨k, f, rfl, hf⟩

/-- The frame at a place from the top has all frames but those down to it under it. -/
theorem frameAt_of_getElem? {f : Frame} (h : frames[k]? = some f) : frameAt frames (frames.length - 1 - k) = some f := by
  have hk : k < frames.length := (List.getElem?_eq_some_iff.mp h).1
  rw [frameAt, List.getElem?_reverse (by omega), ← h]
  congr 1
  omega

end Frames

/-! ## Marks -/

/-- The level and the return address of the frame that has `k` frames under it. -/
def ThreadState.markOf (s : ThreadState) (k : Nat) : Option (Addr × Addr) := (frameAt s.shadow.frames k).map Frame.mark

theorem Story.frames_leave (s : Story ContextId Kept AnchorId) : ∃ n, s.leave.story.frames = s.frames.drop n := by
  induction s with
  | fresh => exact ⟨0, rfl⟩
  | first _ _ _ ih => exact ih
  | call _ _ _ _ ih =>
    obtain ⟨n, hn⟩ := ih
    exact ⟨n + 1, hn⟩
  | handler => exact ⟨0, rfl⟩

theorem ThreadState.markOf_eq (s : ThreadState) (k : Nat) : s.markOf k = (s.shadow.frames.map Frame.mark).reverse[k]? := by
  rw [markOf, frameAt, ← List.map_reverse, List.getElem?_map]

theorem getElem?_reverse_drop {α : Type} {l : List α} {n k : Nat} (h : k < (l.drop n).length) :
    (l.drop n).reverse[k]? = l.reverse[k]? := by
  rw [List.reverse_drop, List.getElem?_take_of_lt]
  rw [List.length_drop] at h
  exact h

namespace Tracker

variable {config : Config} {t t' t₀ t₁ : Tracker} {u : ThreadId} {op : Op} {reply : Reply}
  {trail since : List (Op × Reply)} {k : Nat}

/-- What an operation does to the frames of a thread: it takes some off, or it is a block that pushes one. Frames
that are left may lose the anchors that they keep. -/
theorem step_frames (h : t.Inv) (hstep : t.step op = .ok (reply, t')) (u : ThreadId) :
    (∃ n, (t'.state u).shadow.frames.map Frame.mark = ((t.state u).shadow.frames.map Frame.mark).drop n) ∨
      ∃ sp id f, op = .enterBlock { thread := u, sp } id ∧
        (t'.state u).shadow.frames = f :: (t.state u).shadow.frames := by
  cases hsweeps : op.sweeps with
  | true =>
    cases step_effect hstep with
    | discardBlock id =>
      obtain ⟨dead, hdead⟩ := step_beside (u := u) h hstep trivial
      refine .inl ⟨0, ?_⟩
      rw [hdead, ThreadState.forget, List.map_map]
      rfl
    | finish hfinish =>
      refine .inl ⟨(t.state u).shadow.depth, ?_⟩
      rw [List.eq_nil_of_length_eq_zero (finish_bare h hfinish u), ← List.map_drop, ShadowStack.depth, List.drop_length]
    | _ => cases hsweeps
  | false =>
    obtain ⟨sc, hs⟩ := (h.state u).1.story
    obtain ⟨sc', hs', htold⟩ := step_tells h hstep hsweeps u hs
    rw [hs.frames, hs'.frames]
    cases htold with
    | aside e => exact .inl ⟨0, by rw [e]; rfl⟩
    | block sp id skip b a c kept =>
      cases hx : (sc.transfer t.blockOf t.config.tailCalls b sp).enters with
      | true =>
        obtain ⟨f, hf, -⟩ := Scene.frames_of_enters skip a c kept hx
        exact .inr ⟨sp, id, f, rfl, hf⟩
      | false =>
        have hframes := Scene.frames_of_stays skip a c kept hx
        exact .inl ⟨_, by rw [hframes, List.map_drop]⟩
    | signal signal => exact .inl ⟨0, rfl⟩
    | signalReturn =>
      obtain ⟨n, hn⟩ := sc.story.frames_leave
      exact .inl ⟨n, by rw [hn, List.map_drop]⟩

/-- A frame that an operation leaves there keeps its mark. -/
theorem step_mark (h : t.Inv) (hstep : t.step op = .ok (reply, t')) (hk : k < (t.state u).shadow.depth)
    (hk' : k < (t'.state u).shadow.depth) : (t'.state u).markOf k = (t.state u).markOf k := by
  rw [ThreadState.markOf_eq, ThreadState.markOf_eq]
  rcases step_frames h hstep u with ⟨n, hmarks⟩ | ⟨-, -, f, -, hframes⟩
  · rw [hmarks, getElem?_reverse_drop]
    rw [← hmarks, List.length_map]
    exact hk'
  · rw [hframes, List.map_cons, List.reverse_cons, List.getElem?_append_left]
    rw [List.length_reverse, List.length_map]
    exact hk

theorem Span.mark (hs : Span (fun t => k < (t.state u).shadow.depth) t trail t') (h : t.Inv) :
    (t'.state u).markOf k = (t.state u).markOf k := by
  induction hs with
  | here => rfl
  | step hk hstep hrest ih => exact (ih (step_inv h hstep).1).trans (step_mark h hstep hk hrest.first)

/-! ## Where a frame comes from -/

/-- A block that ran on a thread pushed a frame. -/
structure PushedBy (u : ThreadId) (t : Tracker) (op : Op) (reply : Reply) (t' : Tracker) (f : Frame) : Prop where
  step : t.step op = .ok (reply, t')
  block : ∃ sp id, op = .enterBlock { thread := u, sp } id
  frames : (t'.state u).shadow.frames = f :: (t.state u).shadow.frames

/-- A frame that is there after an operation and was not before is the one that a block pushed. -/
theorem step_pushed (h : t.Inv) (hstep : t.step op = .ok (reply, t')) (hk : (t.state u).shadow.depth ≤ k)
    (hk' : k < (t'.state u).shadow.depth) : (t.state u).shadow.depth = k ∧ ∃ f, PushedBy u t op reply t' f := by
  rw [ShadowStack.depth] at hk hk' ⊢
  rcases step_frames h hstep u with ⟨n, hmarks⟩ | ⟨sp, id, f, hop, hframes⟩
  · have hlength := congrArg List.length hmarks
    simp only [List.length_drop, List.length_map] at hlength
    omega
  · have hlength := congrArg List.length hframes
    rw [List.length_cons] at hlength
    exact ⟨by omega, f, hstep, ⟨sp, id, hop⟩, hframes⟩

/-- A step of the run pushed a frame with this mark, and its place was never left since. -/
def MarkedSince (t₀ : Tracker) (trail : List (Op × Reply)) (t : Tracker) (u : ThreadId) (k : Nat) (t₁ t₂ : Tracker)
    (f : Frame) : Prop :=
  ∃ before op reply after, trail = before ++ (op, reply) :: after ∧ Span (fun _ => True) t₀ before t₁ ∧
    PushedBy u t₁ op reply t₂ f ∧ FrameSince u k t₁ ((op, reply) :: after) t

/-- A frame keeps the mark that it was pushed with. -/
theorem FrameSince.mark_eq (hsince : FrameSince u k t₁ since t) (h : t₁.Inv) :
    ∃ op reply after t₂ f, since = (op, reply) :: after ∧ PushedBy u t₁ op reply t₂ f ∧
      (t.state u).markOf k = some f.mark := by
  cases hsince with
  | @pushed t₂ _ op reply after hstep hdepth hafter =>
    obtain ⟨-, f, hpushed⟩ := step_pushed h hstep hdepth.le hafter.first
    refine ⟨op, reply, after, t₂, f, rfl, hpushed, ?_⟩
    rw [hafter.mark (step_inv h hstep).1, ThreadState.markOf, hpushed.frames, ← hdepth, ShadowStack.depth,
      frameAt_cons_length]
    rfl

/-- Every frame of a thread was pushed in the run and has been there since. By induction on what is left of the run. -/
theorem Span.frameSince {P : Tracker → Prop} (hrun : Span P t since t') (h : t.Inv)
    (hpast : Span (fun _ => True) t₀ trail t)
    (hframes : ∀ k, k < (t.state u).shadow.depth → ∃ before since t₁, trail = before ++ since ∧
      Span (fun _ => True) t₀ before t₁ ∧ FrameSince u k t₁ since t) {k : Nat} (hk : k < (t'.state u).shadow.depth) :
    ∃ before rest t₁, trail ++ since = before ++ rest ∧ Span (fun _ => True) t₀ before t₁ ∧ FrameSince u k t₁ rest t' := by
  induction hrun generalizing trail with
  | here =>
    rw [List.append_nil]
    exact hframes k hk
  | @step t t₁ t' op reply rest _ hstep _ ih =>
    rw [List.append_cons]
    refine ih (step_inv h hstep).1 (hpast.snoc hstep trivial) (fun k hk => ?_) hk
    by_cases hold : k < (t.state u).shadow.depth
    · obtain ⟨before, since, t₂, rfl, hbefore, hsince⟩ := hframes k hold
      exact ⟨before, _, t₂, List.append_assoc .., hbefore, hsince.snoc hstep hk⟩
    · have hdepth := (step_pushed h hstep (Nat.not_lt.mp hold) hk).1
      exact ⟨trail, _, t, rfl, hpast, .pushed hstep hdepth (.here hk)⟩

/-- Frames are found with the mark that they were pushed with. -/
theorem marked_since (h₀ : ofConfig config = .ok t₀) (hrun : Span (fun _ => True) t₀ trail t) {f : Frame}
    (hf : frameAt (t.state u).shadow.frames k = some f) :
    ∃ t₁ t₂ g, MarkedSince t₀ trail t u k t₁ t₂ g ∧ g.mark = f.mark := by
  have hinv₀ := (ofConfig_inv h₀).1
  have hnone : ∀ k, ¬k < (t₀.state u).shadow.depth := by
    intro k hk
    rw [(ofConfig_tells h₀ u).depth] at hk
    exact Nat.not_lt_zero k hk
  have hstart : Span (fun _ => True) t₀ [] t₀ := .here trivial
  obtain ⟨before, since, t₁, htrail, hbefore, hsince⟩ :=
    hrun.frameSince hinv₀ hstart (fun k hk => absurd hk (hnone k)) (lt_of_frameAt hf)
  obtain ⟨op, reply, after, t₂, g, rfl, hpushed, hmark⟩ := hsince.mark_eq (hbefore.inv hinv₀)
  refine ⟨t₁, t₂, g, ⟨before, op, reply, after, htrail, hbefore, hpushed, hsince⟩, ?_⟩
  rw [ThreadState.markOf, hf] at hmark
  exact (Option.some.inj hmark).symm

/-! ## Calls -/

/-- After a call instruction no transfer is counted as a promoted jump or an emulated call. -/
theorem enterBlock_called (hreach : Reach config t) {pos : Position} {id : BlockId}
    (hstep : t.step (.enterBlock pos id) = .ok (reply, t')) (hkind : t.exitKind pos.thread = some .call) :
    t'.stats.promotedCalls = t.stats.promotedCalls ∧ t'.stats.emulatedCalls = t.stats.emulatedCalls := by
  obtain ⟨h, -⟩ := reach_inv hreach
  obtain ⟨⟨a, t₁⟩, he, h'⟩ := bind_eq_ok.mp hstep
  cases h'
  obtain ⟨sc, hs⟩ := (h.state pos.thread).1.story
  obtain ⟨r, hr⟩ : ∃ r, t.blocks.get? id = some r :=
    Option.isSome_iff_exists.mp ((step_ok_iff h (.enterBlock pos id)).mp ⟨_, _, hstep⟩)
  have hb : t.blocks.block? id = some r.block := by rw [BlockTable.block?, hr]; rfl
  have hmoves := enterBlock_moves h (reach_inOrder hreach).contexts he hs hb
  obtain ⟨d, hd, hcall⟩ := Option.map_eq_some_iff.mp ((departure_kind hs).2.trans hkind)
  have hjump : sc.transfer t.blockOf t.config.tailCalls r.block pos.sp =
      .ofJump pos.sp (t.state pos.thread).shadow.frames true false false := by
    rw [hs.transfer_eq, hd]
    simp only [Transfer.classify, hcall]
  have hpromoted := hmoves.promotedCalls
  have hemulated := hmoves.emulatedCalls
  rw [hjump] at hpromoted hemulated
  exact ⟨hpromoted, hemulated⟩

/-- Outside skipped code a frame with a known return address was pushed after a call instruction. -/
theorem PushedBy.called {f : Frame} (hp : PushedBy u t op reply t' f) (hreach : Reach config t)
    (hknown : f.returnTo ≠ .unknown) (hcosted : (t.state u).exec.costed = none) :
    t.exitKind u = some .call ∧ t'.stats.promotedCalls = t.stats.promotedCalls ∧
      t'.stats.emulatedCalls = t.stats.emulatedCalls := by
  obtain ⟨sp, id, rfl⟩ := hp.block
  obtain ⟨h, -⟩ := reach_inv hreach
  have hlive := (step_ok_iff h _).mp ⟨_, _, hp.step⟩
  obtain ⟨a, t₁, hstep, hpushed⟩ := pushed_returnTo hreach { thread := u, sp } hlive
  cases hp.step.symm.trans hstep
  have hdeeper : (t.state u).shadow.depth < (t'.state u).shadow.depth := by
    rw [ShadowStack.depth, ShadowStack.depth, hp.frames]
    exact Nat.lt_succ_self _
  obtain ⟨g, b, e, hframes, hbilled, hto⟩ := hpushed hdeeper
  cases (List.cons.inj (hp.frames.symm.trans hframes)).1
  have hcall : e.kind = .call := by
    by_contra hkind
    rw [Block.after, if_neg hkind] at hto
    exact hknown hto
  simp only [BilledExit, hcosted] at hbilled
  obtain ⟨last, hanchor, hb, rfl⟩ := hbilled
  have hkind : t.exitKind u = some .call := by
    rw [exitKind, lastBlock, hanchor, Option.bind_some, hb, Option.bind_some, b.exits_min, Option.map_some, hcall]
  exact ⟨hkind, enterBlock_called hreach hp.step hkind⟩

/-- What a level return tells of the frame that it is recognised by: it returns to the block that runs, and the
frames are left down to it. Unless the block starts at the address that stands for an unknown one, the frame was pushed
after a call instruction or in skipped code. -/
structure Recognises (t₀ : Tracker) (trail : List (Op × Reply)) (t : Tracker) (pos : Position) (b : Block)
    (t' : Tracker) (k : Nat) (f : Frame) : Prop where
  depth : (t.state pos.thread).shadow.returnDepth pos.sp b.addr = some (k + 1)
  frame : (t.state pos.thread).shadow.frames[k]? = some f
  level : f.sp = pos.sp
  returns : f.returnTo = b.addr
  pops : Pops t t' pos.thread (k + 1 + (below pos.sp ((t.state pos.thread).shadow.frames.drop (k + 1))).length)
  pushed : ∃ t₁ t₂ g, MarkedSince t₀ trail t pos.thread ((t.state pos.thread).shadow.depth - 1 - k) t₁ t₂ g ∧
    g.mark = f.mark ∧ (b.addr ≠ .unknown → (t₁.state pos.thread).exec.costed = none →
      t₁.exitKind pos.thread = some .call ∧ t₂.stats.promotedCalls = t₁.stats.promotedCalls ∧
        t₂.stats.emulatedCalls = t₁.stats.emulatedCalls)

theorem matched_pushed (h₀ : ofConfig config = .ok t₀) (hrun : Span (fun _ => True) t₀ trail t) {f : Frame}
    (hf : (t.state u).shadow.frames[k]? = some f) :
    ∃ t₁ t₂ g, MarkedSince t₀ trail t u ((t.state u).shadow.depth - 1 - k) t₁ t₂ g ∧ g.mark = f.mark ∧
      (f.returnTo ≠ .unknown → (t₁.state u).exec.costed = none → t₁.exitKind u = some .call ∧
        t₂.stats.promotedCalls = t₁.stats.promotedCalls ∧ t₂.stats.emulatedCalls = t₁.stats.emulatedCalls) := by
  obtain ⟨t₁, t₂, g, hmarked, hmark⟩ := marked_since h₀ hrun (frameAt_of_getElem? hf)
  refine ⟨t₁, t₂, g, hmarked, hmark, fun hknown hcosted => ?_⟩
  obtain ⟨before, op, reply, after, -, hbefore, hpushed, -⟩ := hmarked
  have hto : g.returnTo = f.returnTo := congrArg Prod.snd hmark
  exact hpushed.called (hbefore.reach (.init h₀)) (hto ▸ hknown) hcosted

/-- For all frames, and in every run: a level return is recognised by a frame that returns to the block it goes to.
That frame was not pushed by a promoted jump or an emulated call, unless it was pushed in skipped code or the block starts
at the address that stands for an unknown one. -/
theorem matched_frame_was_called (h₀ : ofConfig config = .ok t₀) (hrun : Span (fun _ => True) t₀ trail t) :
    (∀ (s : ShadowStack) sp target top n, s.top? = some top → top.sp = sp → s.returnDepth sp target = some n →
      ∃ k f, n = k + 1 ∧ s.frames[k]? = some f ∧ f.sp = sp ∧ f.returnTo = target) ∧
    ∀ pos id b top, t.blocks.block? id = some b → t.exitKind pos.thread = some .ret →
      (t.state pos.thread).shadow.top? = some top → top.sp = pos.sp →
      ∃ a t', t.step (.enterBlock pos id) = .ok (.billed a, t') ∧
        ((t'.state pos.thread).shadow.depth < (t.state pos.thread).shadow.depth →
          ∃ k f, Recognises t₀ trail t pos b t' k f) := by
  refine ⟨fun s sp target top n htop hsp hn => frame_of_returnDepth htop hsp hn, ?_⟩
  intro pos id b top hb hret htop hsp
  obtain ⟨a, t', hstep, heffect⟩ := transfer_net_effect (hrun.reach (.init h₀)) pos hb
  refine ⟨a, t', hstep, fun hshallower => ?_⟩
  -- Frames were left, so the return found one, and one of the handler if the thread runs one.
  have hpushes : ∀ {l}, ¬Pushes t t' pos.thread l := by
    rintro l ⟨⟨f, hframes, -⟩, -⟩
    rw [ShadowStack.depth, ShadowStack.depth, hframes] at hshallower
    exact Nat.not_lt.mpr (Nat.le_succ _) hshallower
  have hstray : ¬Stray pos.sp b.addr (t.state pos.thread).shadow.frames := by
    intro hstray
    obtain ⟨_, -, hp⟩ := heffect.stray hret hstray
    exact hpushes hp
  have hown : (t.state pos.thread).bottom < (t.state pos.thread).shadow.depth := by
    by_contra hbare
    exact hpushes (heffect.bare hret hstray (Nat.not_lt.mp hbare))
  obtain ⟨k, hk, hpops⟩ := heffect.matched hret hstray hown top htop hsp
  obtain ⟨f, hf, hlevel, hto⟩ := frame_of_match hk
  refine ⟨k, f, ?_, hf, hlevel, hto, hpops, ?_⟩
  · rw [ShadowStack.returnDepth, returnDepth_level htop hsp, hk]
    rfl
  · rw [← hto]
    exact matched_pushed h₀ hrun hf

/-- The return from `puts` goes to the block after the call in `main`, two frames down. -/
theorem matched_frame_was_called_leveledRun :
    ∃ t₀ trail t a t' f, ofConfig fewBuckets = .ok t₀ ∧ Span (fun _ => True) t₀ trail t ∧
      t.step (.enterBlock { thread := ⟨1⟩, sp := ⟨990⟩ } ⟨3⟩) = .ok (.billed a, t') ∧ resumedBlock.addr ≠ .unknown ∧
      Recognises t₀ trail t { thread := ⟨1⟩, sp := ⟨990⟩ } resumedBlock t' 1 f := by
  have hrun : (runFrom fewBuckets leveledRun).map (fun t =>
      (t.blocks.block? ⟨3⟩, t.exitKind ⟨1⟩, (t.state ⟨1⟩).shadow.top?.map (·.sp),
        [(t.state ⟨1⟩).shadow.returnDepth ⟨990⟩ ⟨105⟩, some (t.state ⟨1⟩).shadow.depth,
          (t.step (.enterBlock { thread := ⟨1⟩, sp := ⟨990⟩ } ⟨3⟩)).toOption.map (·.2.state ⟨1⟩ |>.shadow.depth)])) =
      .ok (some resumedBlock, some .ret, some ⟨990⟩, [some 2, some 2, some 0]) := by decide +kernel
  obtain ⟨t, hr, h⟩ := runFrom_of_map hrun
  simp only [Prod.mk.injEq] at h
  obtain ⟨hb, hret, htop, hdepths⟩ := h
  simp only [List.cons.injEq, Option.some.injEq, and_true] at hdepths
  obtain ⟨hdepth, hbefore, hafter⟩ := hdepths
  obtain ⟨top, htop, hsp⟩ := Option.map_eq_some_iff.mp htop
  obtain ⟨t₀, h₀, hr⟩ := runFrom_eq_ok hr
  obtain ⟨trail, -, hs⟩ := Span.of_run hr
  obtain ⟨a, t', hstep, hmatched⟩ :=
    (matched_frame_was_called h₀ hs).2 { thread := ⟨1⟩, sp := ⟨990⟩ } ⟨3⟩ resumedBlock top hb hret htop hsp
  rw [hstep] at hafter
  have hafter : (t'.state ⟨1⟩).shadow.depth = 0 := Option.some.inj hafter
  obtain ⟨k, f, hrec⟩ := hmatched (by rw [hafter, hbefore]; decide)
  have hk : k = 1 := by
    have hk : some (k + 1) = some 2 := hrec.depth.symm.trans hdepth
    cases hk
    rfl
  subst hk
  exact ⟨t₀, trail, t, a, t', f, h₀, hs, hstep, by decide, hrec⟩

/-- `main` jumps to `work`, which returns to a block at address 0. -/
def nullRun : List Op :=
  [.registerFunction "main" ⟨0⟩, .registerFunction "work" ⟨0⟩,
    .registerBlock { callBlock 100 ⟨0⟩ with finalExit := { kind := .jump } },
    .registerBlock { callBlock 200 ⟨1⟩ with finalExit := { kind := .ret } },
    .registerBlock { callBlock 0 ⟨0⟩ with isEntry := false, finalExit := { kind := .jump } },
    .enterBlock { thread := ⟨1⟩, sp := ⟨1000⟩ } ⟨0⟩]

/-- The frame of the promoted jump has no return address, and the return is recognised by it. -/
theorem unknown_address_matches :
    ∃ t a t₁ a' t₂ f, Reach fewBuckets t ∧
      t.step (.enterBlock { thread := ⟨1⟩, sp := ⟨1000⟩ } ⟨1⟩) = .ok (.billed a, t₁) ∧
      t₁.stats.promotedCalls = t.stats.promotedCalls + 1 ∧
      (t₁.state ⟨1⟩).shadow.frames = f :: (t.state ⟨1⟩).shadow.frames ∧ f.sp = ⟨1000⟩ ∧ f.returnTo = .unknown ∧
      t₁.exitKind ⟨1⟩ = some .ret ∧ (t₁.state ⟨1⟩).shadow.returnDepth ⟨1000⟩ ⟨0⟩ = some 1 ∧
      t₁.step (.enterBlock { thread := ⟨1⟩, sp := ⟨1000⟩ } ⟨2⟩) = .ok (.billed a', t₂) ∧
      (t₂.state ⟨1⟩).shadow.frames = (t.state ⟨1⟩).shadow.frames := by
  have hrun : (runFrom fewBuckets nullRun).map (fun t =>
      ([(t.state ⟨1⟩).shadow.depth, t.stats.promotedCalls],
        (t.enterBlock { thread := ⟨1⟩, sp := ⟨1000⟩ } ⟨1⟩).toOption.map fun p =>
          ((p.2.state ⟨1⟩).shadow.frames.map Frame.mark,
            [some p.2.stats.promotedCalls, (p.2.state ⟨1⟩).shadow.returnDepth ⟨1000⟩ ⟨0⟩,
              (p.2.enterBlock { thread := ⟨1⟩, sp := ⟨1000⟩ } ⟨2⟩).toOption.map (·.2.state ⟨1⟩ |>.shadow.depth)]))) =
      .ok ([0, 0], some ([(⟨1000⟩, .unknown)], [some 1, some 1, some 0])) := by decide +kernel
  have hkind : (runFrom fewBuckets nullRun).map (fun t =>
      (t.enterBlock { thread := ⟨1⟩, sp := ⟨1000⟩ } ⟨1⟩).toOption.bind (·.2.exitKind ⟨1⟩)) = .ok (some .ret) := by
    decide +kernel
  obtain ⟨t, hr, h⟩ := runFrom_of_map hrun
  obtain ⟨hbefore, h⟩ := Prod.mk.inj h
  obtain ⟨⟨a, t₁⟩, henter, h⟩ := Option.map_eq_some_iff.mp h
  simp only [Prod.mk.injEq, List.cons.injEq, Option.some.injEq, and_true] at hbefore h
  obtain ⟨hdepth, hpromoted⟩ := hbefore
  obtain ⟨hframes, hpromoted', hmatch, hleft⟩ := h
  obtain ⟨⟨a', t₂⟩, henter', hdepth'⟩ := Option.map_eq_some_iff.mp hleft
  have hkind : t₁.exitKind ⟨1⟩ = some .ret := by
    rw [hr] at hkind
    have hkind : (t.enterBlock _ ⟨1⟩).toOption.bind (·.2.exitKind ⟨1⟩) = some .ret := Except.ok.inj hkind
    rw [henter] at hkind
    exact hkind
  have hnone : (t.state ⟨1⟩).shadow.frames = [] := List.eq_nil_of_length_eq_zero hdepth
  have hleft : (t₂.state ⟨1⟩).shadow.frames = [] := List.eq_nil_of_length_eq_zero hdepth'
  obtain ⟨f, rest, hcons, hmark, hrest⟩ := List.map_eq_cons_iff.mp hframes
  obtain ⟨hsp, hto⟩ := Prod.mk.inj hmark
  refine ⟨t, a, t₁, a', t₂, f, reach_runFrom hr, ?_, by omega, ?_, hsp, hto, hkind, hmatch, ?_, hleft.trans hnone.symm⟩
  · simp only [step, toOption_eq_some.mp henter, ok_bind, pure_eq_ok]
  · rw [hcons, List.map_eq_nil_iff.mp hrest, hnone]
  · simp only [step, toOption_eq_some.mp henter', ok_bind, pure_eq_ok]

end Tracker
end CallGraph
