/-
  CallGraph.Proofs.Unwinding — leaving calls and handlers is going back in the story.

  The story of a thread says what a pop restores before it is known that the pop succeeds: whenever
  an operation that leaves frames or handlers comes to its end, the running thread is told by the
  part of the story before them, and everything else but the activations and the count of returns
  is as before (`Unwinds`).
  - `popFrame_tells` / `popFrames_tells`: calls of the innermost handler.
  - `leaveHandler_tells`: the handler, with the calls that are left in it.
  - `popCall_tells` / `popCalls_tells`: any call, with the handlers above it.
-/

import CallGraph.Proofs.Leaving
import CallGraph.Proofs.Story

namespace CallGraph

/-- What was registered under a function's number. -/
def FunctionTable.decl? (t : FunctionTable) (fn : FnId) : Option Function :=
  (t.nodes[fn.num]?).map fun f => { f with hint := none, active := 0 }

theorem FunctionTable.decl?_modify {t : FunctionTable} {fn : FnId} {f : Function → Function}
    (h : ∀ x, { f x with hint := none, active := 0 } = { x with hint := none, active := 0 }) (g : FnId) :
    (t.modify fn f).decl? g = t.decl? g := by
  simp only [decl?, modify, Array.getElem?_modify]
  split
  · rename_i e
    simp only [Option.map_map, Function.comp_def, h]
  · rfl

/-- The same arcs with the same calls. -/
structure Ledger.SameCalls (l l' : Ledger) : Prop where
  arcs : l'.arcs = l.arcs
  calls : l'.calls = l.calls

theorem ShadowStack.pop_eq {s s' : ShadowStack} {f : Frame} (h : s.pop = .ok (f, s')) : s.frames = f :: s'.frames := by
  unfold pop at h
  split at h
  · cases h
  · rename_i frames hframes
    split at h
    · cases h
    · cases h
      exact hframes

namespace Tracker

variable {t t' : Tracker}

/-! ## What stays -/

/-- Frames were popped on the running thread, and each was counted as a return. Functions keep what they
were registered with, and nothing was interned, billed or called. -/
structure Unwinds (t t' : Tracker) : Prop extends Within t t' where
  decls : ∀ fn, t'.functions.decl? fn = t.functions.decl? fn
  activity : ∀ fn, t'.functions.activeCount fn ≤ t.functions.activeCount fn
  ledger : t.ledger.SameCalls t'.ledger
  entries : t'.ledger.entries = t.ledger.entries
  returns : ∃ n, t'.stats = { t.stats with returns := t.stats.returns + n } ∧
    t.thread.shadow.depth = t'.thread.shadow.depth + n

theorem Unwinds.refl (t : Tracker) : Unwinds t t :=
  ⟨.refl t, fun _ => rfl, fun _ => Nat.le_refl _, ⟨rfl, rfl⟩, rfl, 0, rfl, rfl⟩

theorem Unwinds.trans {t'' : Tracker} (u : Unwinds t t') (u' : Unwinds t' t'') : Unwinds t t'' := by
  obtain ⟨n, hn, hd⟩ := u.returns
  obtain ⟨n', hn', hd'⟩ := u'.returns
  refine ⟨u.toWithin.trans u'.toWithin, fun fn => (u'.decls fn).trans (u.decls fn),
    fun fn => Nat.le_trans (u'.activity fn) (u.activity fn),
    ⟨u'.ledger.arcs.trans u.ledger.arcs, u'.ledger.calls.trans u.ledger.calls⟩, u'.entries.trans u.entries, n + n', ?_, ?_⟩
  · rw [hn', hn]
    simp only [Nat.add_assoc]
  · rw [hd, hd', Nat.add_assoc, Nat.add_comm n']

/-- Only activations were closed. -/
structure Closes (t : Tracker) (F : FunctionTable) (L : Ledger) : Prop where
  functions : t.functions.Keeps F
  decls : ∀ fn, F.decl? fn = t.functions.decl? fn
  activity : ∀ fn, F.activeCount fn ≤ t.functions.activeCount fn
  ledger : t.ledger.SameCalls L
  entries : L.entries = t.ledger.entries

/-- One activation is counted off, and the ledger hears of the last one of a function. -/
theorem leaveFunction_counts {fn : FnId} (h : t.leaveFunction fn = .ok t') :
    ∃ last : Bool, t' = { t with
      functions := t.functions.modify fn fun f => { f with active := f.active - 1 }
      ledger := if last then t.ledger.leave fn else t.ledger } := by
  simp only [leaveFunction, FunctionTable.leave, bind_eq_ok] at h
  obtain ⟨⟨last, F⟩, ⟨f, -, hF⟩, h⟩ := h
  split at hF
  · cases hF
  · cases hF
    cases h
    exact ⟨_, rfl⟩

/-- Leaving a context is leaving its innermost function. -/
theorem leaveContext_cases {c : Option ContextId} (h : t.leaveContext c = .ok t') :
    t' = t ∨ ∃ fn, t.leaveFunction fn = .ok t' := by
  cases c with
  | none =>
    cases h
    exact .inl rfl
  | some c =>
    simp only [leaveContext, bind_eq_ok] at h
    obtain ⟨x, -, h⟩ := h
    exact .inr ⟨_, h⟩

theorem leaveFunction_eq {fn : FnId} (h : t.leaveFunction fn = .ok t') :
    ∃ F L, t' = { t with functions := F, ledger := L } ∧ Closes t F L := by
  obtain ⟨last, rfl⟩ := leaveFunction_counts h
  refine ⟨_, _, rfl, t.functions.keeps_modify fn fun _ => rfl, FunctionTable.decl?_modify fun _ => rfl, fun g => ?_, ?_, ?_⟩
  · rw [FunctionTable.activeCount_modify]
    split
    · rename_i e
      rw [e, FunctionTable.activeCount]
      cases t.functions.nodes[fn.num]? with
      | none => exact Nat.le_refl 0
      | some f => exact Nat.sub_le f.active 1
    · exact Nat.le_refl _
  · split <;> exact ⟨rfl, rfl⟩
  · split <;> rfl

theorem leaveContext_eq {c : Option ContextId} (h : t.leaveContext c = .ok t') :
    ∃ F L, t' = { t with functions := F, ledger := L } ∧ Closes t F L := by
  obtain rfl | ⟨fn, hleave⟩ := leaveContext_cases h
  · exact ⟨_, _, rfl, .refl _, fun _ => rfl, fun _ => Nat.le_refl _, ⟨rfl, rfl⟩, rfl⟩
  · exact leaveFunction_eq hleave

/-! ## Frames -/

/-- A pop takes the frame on top, sets what else the thread was in, and may close the activation of the callee. -/
theorem popFrame_eq (h : t.popFrame = .ok t') :
    ∃ f s t₁, t.thread.shadow.frames = f :: s.shadow.frames ∧
      (t₁ = t.setThread s ∨ ∃ fn, (t.setThread s).leaveFunction fn = .ok t₁) ∧
      t' = { t₁ with stats := { t₁.stats with returns := t₁.stats.returns + 1 } } := by
  unfold popFrame at h
  obtain ⟨⟨f, shadow⟩, hpop, h⟩ := bind_eq_ok.mp h
  have hframes := ShadowStack.pop_eq hpop
  cases harc : f.arc with
  | none =>
    simp only [harc] at h
    cases h
    exact ⟨f, _, _, hframes, .inl rfl, rfl⟩
  | some arc =>
    cases hcontext : f.context with
    | none =>
      simp only [harc, hcontext] at h
      cases h
    | some context =>
      simp only [harc, hcontext] at h
      obtain ⟨fns, -, h⟩ := bind_eq_ok.mp h
      split at h
      · obtain ⟨t₁, hleave, h⟩ := bind_eq_ok.mp h
        cases h
        exact ⟨f, _, t₁, hframes, .inr ⟨_, hleave⟩, rfl⟩
      · cases h
        exact ⟨f, _, _, hframes, .inl rfl, rfl⟩

theorem popFrame_tells {c : OpenCall AnchorId} {context : ContextId} {kept : Kept}
    {before : Story ContextId Kept AnchorId} {last : Option AnchorId} {passed : Nat}
    (hs : t.thread.Tells ⟨.call c context kept before, last, passed⟩) (h : t.popFrame = .ok t') :
    t'.thread.Tells ⟨before, last, passed⟩ ∧ Unwinds t t' := by
  obtain ⟨hframes, hunstaged, hslots, hexec, hhandlers, hw⟩ := hs
  simp only at hframes hslots hexec hhandlers hw
  simp only [popFrame, ShadowStack.pop_ok hframes hunstaged, ok_bind] at h
  have hdepth : t.thread.shadow.depth = before.frames.length + 1 := congrArg List.length hframes
  cases hskip : c.skipped with
  | true =>
    simp only [hskip, if_true, pure_eq_ok, ok_bind, Except.ok.injEq] at h
    subst h
    -- The call into a skipped function only changed where calls come from.
    have hsame : t.thread.fns.slots = before.slots := by simpa [Story.slots, hskip] using hslots
    refine ⟨⟨rfl, rfl, hsame, ?_, hhandlers, hw.2⟩, ⟨rfl, .refl _, rfl, rfl, rfl, rfl, rfl⟩, fun _ => rfl,
      fun _ => Nat.le_refl _, ⟨rfl, rfl⟩, rfl, 1, rfl, hdepth⟩
    show { t.thread.exec with costed := before.costed } = _
    rw [hexec]
    simp [Story.signal, Story.context, hskip]
  | false =>
    have hcontext : before.context.isSome := (Story.isSome_context hw.2).trans hw.1
    obtain ⟨x, hx⟩ := Option.isSome_iff_exists.mp hcontext
    -- Cutting back to the depth of the caller takes the slot of the callee, if it has one.
    have hcut : t.thread.fns.cutTo before.slots.length = .ok ⟨before.slots⟩ := by
      have hfns : t.thread.fns = ⟨(Story.call c context kept before).slots⟩ := congrArg FnStack.mk hslots
      rw [hfns, Story.slots]
      split
      · exact FnStack.cutTo_length [] before.slots
      · exact FnStack.cutTo_length [some c.fn] before.slots
    have hexec' : { t.thread.exec with costed := before.costed, context := some x } =
        ({ signal := before.signal, context := before.context, anchor := last, exitsPassed := passed
           costed := before.costed } : Exec) := by
      rw [hexec, hx]
      rfl
    simp only [hskip, Bool.false_eq_true, if_false, hx, hcut, ok_bind] at h
    split at h
    · obtain ⟨t₁, hleave, h⟩ := bind_eq_ok.mp h
      obtain ⟨F, L, rfl, c⟩ := leaveFunction_eq hleave
      cases h
      exact ⟨⟨rfl, rfl, rfl, hexec', hhandlers, hw.2⟩, ⟨rfl, c.functions, rfl, rfl, rfl, rfl, rfl⟩, c.decls, c.activity,
        c.ledger, c.entries, 1, rfl, hdepth⟩
    · cases h
      exact ⟨⟨rfl, rfl, rfl, hexec', hhandlers, hw.2⟩, ⟨rfl, .refl _, rfl, rfl, rfl, rfl, rfl⟩, fun _ => rfl,
        fun _ => Nat.le_refl _, ⟨rfl, rfl⟩, rfl, 1, rfl, hdepth⟩

/-- What is left of a handler or thread without a call in it is its story. -/
theorem popFrames_none {s : Story ContextId Kept AnchorId} {last : Option AnchorId} {passed n : Nat}
    (hs : t.thread.Tells ⟨s, last, passed⟩) (h : popFrames n t = .ok t') (hn : n = 0) (hground : s.ground = s) :
    t'.thread.Tells ⟨s.ground, last, passed⟩ ∧ Unwinds t t' := by
  subst hn
  cases h
  exact ⟨by rw [hground]; exact hs, .refl t⟩

theorem popFrames_tells {s : Story ContextId Kept AnchorId} {last : Option AnchorId} {passed : Nat}
    (hs : t.thread.Tells ⟨s, last, passed⟩) (h : popFrames (s.depth - s.bottom) t = .ok t') :
    t'.thread.Tells ⟨s.ground, last, passed⟩ ∧ Unwinds t t' := by
  induction s generalizing t with
  | fresh => exact popFrames_none hs h rfl rfl
  | first fn c before =>
    refine popFrames_none hs h ?_ rfl
    have := (Story.of_not_started hs.wellFormed.1).2.1
    simp only [Story.depth, Story.bottom, this, Nat.sub_self]
  | handler signal l p before => exact popFrames_none hs h (Nat.sub_self _) rfl
  | call c context kept before ih =>
    have hn : (Story.call c context kept before).depth - (Story.call c context kept before).bottom =
        (before.depth - before.bottom) + 1 := by
      have := before.bottom_le
      simp only [Story.depth, Story.bottom]
      omega
    rw [hn, popFrames, bind_eq_ok] at h
    obtain ⟨t₁, hpop, h⟩ := h
    obtain ⟨hs₁, u₁⟩ := popFrame_tells hs hpop
    obtain ⟨hs', u⟩ := ih hs₁ h
    exact ⟨hs', u₁.trans u⟩

/-! ## Handlers -/

theorem leaveHandler_tells {sc : Scene ContextId Kept AnchorId} (hs : t.thread.Tells sc)
    (h : t.leaveHandler = .ok t') : t'.thread.Tells sc.story.leave ∧ Unwinds t t' := by
  obtain ⟨s, last, passed⟩ := sc
  have hn : 0 < s.nesting := by
    by_contra hzero
    have hnil : t.thread.handlers = [] := by
      rw [hs.handlers]
      exact List.length_eq_zero_iff.mp (s.length_handlers.trans (by omega))
    simp only [leaveHandler, hnil] at h
    cases h
  obtain ⟨signal, l, p, before, hleave, -, hground⟩ := Story.innermost hs.wellFormed hn
  -- The frames of the handler are popped first, and what is told then is its ground.
  have hhandlers : t.thread.handlers = (Story.handler signal l p before).handlers := by
    rw [hs.handlers, ← Story.handlers_ground]
    obtain hground | ⟨fn, c, hground⟩ := hground
    · rw [hground]
    · rw [hground]
      rfl
  have hbottom : before.depth = s.bottom := by
    rw [← Story.bottomOf_handlers, ← hs.handlers, hhandlers]
    rfl
  have hdepth : t.thread.shadow.depth = s.depth := hs.depth
  simp only [leaveHandler, hhandlers, Story.handlers, hdepth, hbottom, bind_eq_ok] at h
  obtain ⟨t₁, hpops, t₂, hcontext, fns, hcut, h⟩ := h
  cases h
  obtain ⟨hs₁, u₁⟩ := popFrames_tells hs hpops
  obtain ⟨F, L, rfl, c⟩ := leaveContext_eq hcontext
  have hfns : fns = ⟨before.slots⟩ := by
    have hslots : t₁.thread.fns = ⟨s.ground.slots⟩ := congrArg FnStack.mk hs₁.slots
    have hcut : t₁.thread.fns.cutTo before.slots.length = .ok fns := hcut
    obtain hground | ⟨fn, c, hground⟩ := hground
    · have := FnStack.cutTo_length [none] before.slots
      rw [hslots, hground] at hcut
      exact Except.ok.inj (hcut.symm.trans this)
    · have := FnStack.cutTo_length [some fn, none] before.slots
      rw [hslots, hground] at hcut
      exact Except.ok.inj (hcut.symm.trans this)
  have hframes : s.ground.frames = before.frames := by
    obtain hground | ⟨fn, c, hground⟩ := hground
    all_goals
      rw [hground]
      rfl
  have hw := Story.leave_wellFormed hs.wellFormed
  rw [hleave] at hw ⊢
  subst hfns
  refine ⟨⟨hs₁.frames.trans hframes, hs₁.unstaged, rfl, rfl, rfl, hw⟩, u₁.trans ?_⟩
  exact ⟨⟨rfl, c.functions, rfl, rfl, rfl, rfl, rfl⟩, c.decls, c.activity, c.ledger, c.entries, 0, rfl, rfl⟩

/-- Handlers without a frame of their own are left before a frame is popped. -/
theorem popCall_of_handler {s before : Story ContextId Kept AnchorId} {last l : Option AnchorId} {passed p : Nat}
    (signal : Int) (hs : t.thread.Tells ⟨s, last, passed⟩) (hleave : s.leave = ⟨before, l, p⟩)
    (hsignal : 0 < s.signal) (hhandlers : s.handlers = (Story.handler signal l p before).handlers)
    (hdepth : s.depth = before.depth)
    (h : leaveHandlers (ThreadState.exhaustedHandlers s.depth s.signal s.handlers) t = .ok t') :
    ∃ t₁, t₁.thread.Tells ⟨before, l, p⟩ ∧ Unwinds t t₁ ∧
      leaveHandlers (ThreadState.exhaustedHandlers before.depth before.signal before.handlers) t₁ = .ok t' := by
  have hone : ThreadState.exhaustedHandlers s.depth s.signal s.handlers =
      ThreadState.exhaustedHandlers before.depth before.signal before.handlers + 1 := by
    simp only [hhandlers, Story.handlers, ThreadState.exhaustedHandlers, hsignal, hdepth, and_self, if_true]
  rw [hone, leaveHandlers, bind_eq_ok] at h
  obtain ⟨t₁, hone, h⟩ := h
  obtain ⟨hs₁, u₁⟩ := leaveHandler_tells hs hone
  rw [hleave] at hs₁
  exact ⟨t₁, hs₁, u₁, h⟩

theorem popCall_tells {sc : Scene ContextId Kept AnchorId} (hs : t.thread.Tells sc) (hd : 0 < sc.story.depth)
    (h : t.popCall = .ok t') : t'.thread.Tells sc.popCall ∧ Unwinds t t' := by
  obtain ⟨s, last, passed⟩ := sc
  simp only [popCall, ShadowStack.depth, hs.frames, Story.length_frames, hs.exec, hs.handlers, bind_eq_ok] at h
  obtain ⟨t₀, hleaves, hpop⟩ := h
  -- The handlers above the call are left one by one.
  generalize hn : s.nesting = n
  induction n using Nat.strong_induction_on generalizing s last passed t with
  | _ n ih =>
    cases s with
    | fresh => cases hd
    | call c context kept before =>
      have hnone : ThreadState.exhaustedHandlers (before.depth + 1) before.signal before.handlers = 0 := by
        have hle := before.bottom_le
        rw [← Story.bottomOf_handlers] at hle
        cases hh : before.handlers with
        | nil => rfl
        | cons hd hds =>
          rw [hh] at hle
          have hne : hd.bottom ≠ before.depth + 1 := by
            have : hd.bottom ≤ before.depth := hle
            omega
          simp only [ThreadState.exhaustedHandlers, hne, and_false, if_false]
      have hleaves : leaveHandlers (ThreadState.exhaustedHandlers (before.depth + 1) before.signal before.handlers) t =
          .ok t₀ := hleaves
      rw [hnone] at hleaves
      cases hleaves
      exact popFrame_tells hs hpop
    | handler signal l p before =>
      obtain ⟨t₁, hs₁, u₁, hleaves⟩ := popCall_of_handler signal hs rfl hs.wellFormed.1 rfl rfl hleaves
      have hlt : before.nesting < n := by
        rw [← hn]
        exact Nat.lt_succ_self _
      obtain ⟨hs', u⟩ := ih _ hlt before l p hs₁ hd hleaves rfl
      exact ⟨hs', u₁.trans u⟩
    | first fn c below =>
      cases below with
      | fresh => cases hd
      | first | call => cases hs.wellFormed.1
      | handler signal l p before =>
        obtain ⟨t₁, hs₁, u₁, hleaves⟩ := popCall_of_handler signal hs rfl hs.wellFormed.2.1 rfl rfl hleaves
        have hlt : before.nesting < n := by
          rw [← hn]
          exact Nat.lt_succ_self _
        obtain ⟨hs', u⟩ := ih _ hlt before l p hs₁ hd hleaves rfl
        exact ⟨hs', u₁.trans u⟩

theorem popCalls_tells (n : Nat) {sc : Scene ContextId Kept AnchorId} (hs : t.thread.Tells sc) (hn : n ≤ sc.story.depth)
    (h : popCalls n t = .ok t') : t'.thread.Tells (sc.popCalls n) ∧ Unwinds t t' := by
  induction n generalizing t sc with
  | zero =>
    cases h
    exact ⟨hs, .refl _⟩
  | succ n ih =>
    rw [popCalls, bind_eq_ok] at h
    obtain ⟨t₁, hpop, h⟩ := h
    obtain ⟨hs₁, u₁⟩ := popCall_tells hs (by omega) hpop
    have hdepth : sc.popCall.story.depth = sc.story.depth - 1 := Story.depth_popCall sc.last sc.passed
    obtain ⟨hs', u⟩ := ih hs₁ (by omega) h
    exact ⟨hs', u₁.trans u⟩

end Tracker
end CallGraph
