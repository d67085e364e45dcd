/-
  CallGraph.Proofs.Leaving — frames and handlers are left without a fault.

  From a sound state every pop succeeds as long as there is a frame for it, and the state stays sound:
  the lineage of the thread says what the frame or handler saved, the balance that the activation to
  be closed is open.
  - `popFrame_ok` / `popFrames_ok`: frames above the innermost handler's bottom.
  - `leaveHandler_ok`: what the handler left is popped, and the interrupted state is back.
  - `popCall_ok` / `popCalls_ok`: any frame, after the handlers that have none above it.
  - `finishThread_ok` / `finish_ok`: everything on one thread, and on all.
-/

import CallGraph.Proofs.Invariant

namespace CallGraph

theorem ShadowStack.pop_ok {s : ShadowStack} {f : Frame} {frames : List Frame} (hf : s.frames = f :: frames)
    (hs : s.staged.context = none) : s.pop = .ok (f, { frames }) := by
  simp [pop, hf, hs]

namespace Tracker

variable {t : Tracker}

theorem count_cons_slot (fn g : FnId) (slots : List (Option FnId)) :
    (some fn :: slots).count (some g) = slots.count (some g) + if g = fn then 1 else 0 := by
  rw [List.count_cons]
  by_cases e : g = fn
  · simp [e]
  · simp [e, Ne.symm e]

/-! ## Frames -/

theorem popFrame_ok (h : t.Sound) {f : Frame} {frames : List Frame} (hf : t.thread.shadow.frames = f :: frames)
    (hb : bottomOf t.thread.handlers ≤ frames.length) :
    ∃ t', t.popFrame = .ok t' ∧ t'.Sound ∧ Within t t' ∧ t'.thread.shadow.frames = frames ∧
      t'.thread.handlers = t.thread.handlers := by
  have hl := h.active.lineage
  rw [hf] at hl
  obtain ⟨c, above, below, hslots, hl, hm⟩ := hl.pop hb
  have hpop := ShadowStack.pop_ok hf h.active.unstaged
  cases ha : f.arc with
  | none =>
    rw [ha] at hm
    obtain ⟨hctx, rfl⟩ := hm
    -- A call into a skipped function opened nothing, so nothing is closed.
    refine ⟨_, by simp only [popFrame, hpop, ok_bind, ha, pure_eq_ok]; rfl, ?_⟩
    refine ⟨?_, ⟨rfl, .refl _, rfl, rfl, rfl, rfl, rfl⟩, rfl, rfl⟩
    refine h.within ⟨rfl, .refl _, rfl, rfl, rfl, rfl, rfl⟩ ⟨?_, rfl⟩ h.balance h.reported
    have hbelow : t.thread.fns.slots = below := hslots
    rw [← hbelow, ← hctx] at hl
    exact hl
  | some arc =>
    rw [ha] at hm
    obtain ⟨hctx, hdepth, habove⟩ := hm
    have hcut : t.thread.fns.cutTo f.fnDepth = .ok ⟨below⟩ := by
      have : t.thread.fns = ⟨above ++ below⟩ := congrArg FnStack.mk hslots
      rw [this, hdepth]
      exact FnStack.cutTo_length above below
    -- A function that called itself shares its activation with the call.
    by_cases e : arc.caller = arc.callee
    · rw [if_pos e] at habove
      subst habove
      refine ⟨_, by
        simp only [popFrame, hpop, ok_bind, ha, hctx, hcut, ne_eq, e, not_true, if_false, pure_eq_ok]; rfl, ?_⟩
      refine ⟨?_, ⟨rfl, .refl _, rfl, rfl, rfl, rfl, rfl⟩, rfl, rfl⟩
      refine h.within ⟨rfl, .refl _, rfl, rfl, rfl, rfl, rfl⟩ ⟨hl, rfl⟩ (fun g => ?_) h.reported
      have hbelow : t.thread.fns.slots = below := hslots
      have := h.balance g
      simp only [Registry.slotsOf, setThread] at this ⊢
      rw [this, ← hbelow]
      rfl
    · rw [if_neg e] at habove
      subst habove
      have hmem : some arc.callee ∈ t.thread.fns.slots := by rw [hslots]; exact List.mem_cons_self ..
      obtain ⟨F, L, hleave, hkeeps, hc, hr⟩ := leaveFunction_ok
        (t := t.setThread { t.thread with
          shadow := { frames }, fns := ⟨below⟩
          exec := { t.thread.exec with costed := f.costed, context := some c } }) (h.active_pos hmem)
      refine ⟨_, by
        simp only [popFrame, hpop, ok_bind, ha, hctx, hcut, ne_eq, e, not_false_eq_true, if_true, hleave]; rfl, ?_⟩
      refine ⟨?_, ⟨rfl, hkeeps, rfl, rfl, rfl, rfl, rfl⟩, rfl, rfl⟩
      refine h.within ⟨rfl, hkeeps, rfl, rfl, rfl, rfl, rfl⟩ ⟨hl, rfl⟩ (fun g => ?_) (hr h.reported)
      -- One slot of the callee goes, and one activation with it.
      have h1 := h.balance g
      have h2 := hc g
      have h3 := count_cons_slot arc.callee g below
      have h4 : t.thread.fns.slots.count (some g) = (some arc.callee :: below).count (some g) := by rw [hslots]; rfl
      simp only [Registry.slotsOf, setThread, thread] at h1 h2 h4 ⊢
      omega

theorem popFrames_ok (n : Nat) (h : t.Sound) (hn : bottomOf t.thread.handlers + n ≤ t.thread.shadow.frames.length) :
    ∃ t', popFrames n t = .ok t' ∧ t'.Sound ∧ Within t t' ∧
      t'.thread.shadow.frames = t.thread.shadow.frames.drop n ∧ t'.thread.handlers = t.thread.handlers := by
  induction n generalizing t with
  | zero => exact ⟨t, rfl, h, .refl t, rfl, rfl⟩
  | succ n ih =>
    cases hf : t.thread.shadow.frames with
    | nil => rw [hf, List.length_nil] at hn; omega
    | cons f frames =>
      rw [hf, List.length_cons] at hn
      obtain ⟨t₁, hpop, h₁, w₁, hf₁, hh₁⟩ := popFrame_ok h hf (by omega)
      obtain ⟨t₂, hpops, h₂, w₂, hf₂, hh₂⟩ := ih h₁ (by rw [hh₁, hf₁]; omega)
      refine ⟨t₂, by simp only [popFrames, hpop, ok_bind, hpops], h₂, w₁.trans w₂, ?_, hh₂.trans hh₁⟩
      rw [hf₂, hf₁, List.drop_succ_cons]

/-! ## Handlers -/

/-- Closing the activation of a first function takes its slot off the balance. -/
theorem leaveContext_ok (h : t.Sound) {above below : List (Option FnId)}
    (hslots : t.thread.fns.slots = above ++ below)
    (hfirst : FirstOnly (Stands t.contexts) t.thread.fns.slots t.thread.exec.context above) :
    ∃ F L, t.leaveContext t.thread.exec.context = .ok { t with functions := F, ledger := L } ∧
      t.functions.Keeps F ∧
      (∀ g, F.activeCount g + above.count (some g) = t.functions.activeCount g) ∧ Reported F L := by
  cases hctx : t.thread.exec.context with
  | none =>
    rw [hctx] at hfirst
    cases hfirst
    exact ⟨t.functions, t.ledger, rfl, .refl _, fun g => rfl, h.reported⟩
  | some c =>
    rw [hctx] at hfirst
    obtain ⟨fn, rfl, hstands⟩ := hfirst
    have hs : t.thread.fns.slots = some fn :: below := hslots
    rw [hs] at hstands
    obtain ⟨x, hx, rfl⟩ := hstands.top
    have hmem : some x.top ∈ t.thread.fns.slots := by rw [hs]; exact List.mem_cons_self ..
    obtain ⟨F, L, hleave, hkeeps, hc, hr⟩ := leaveFunction_ok (h.active_pos hmem)
    refine ⟨F, L, by simp only [leaveContext, hx, ok_bind, hleave], hkeeps, fun g => ?_, hr h.reported⟩
    rw [count_cons_slot, List.count_nil, Nat.zero_add, hc g]

theorem leaveHandler_ok (h : t.Sound) {hd : Handler} {handlers : List Handler}
    (hh : t.thread.handlers = hd :: handlers) :
    ∃ t', t.leaveHandler = .ok t' ∧ t'.Sound ∧ t'.thread.Settled t'.anchors t'.threads.current ∧ Within t t' ∧
      t'.thread.shadow.frames = t.thread.shadow.frames.drop (t.thread.shadow.frames.length - hd.bottom) ∧
      t'.thread.handlers = handlers ∧ t'.thread.exec = hd.interrupted := by
  have hb : hd.bottom ≤ t.thread.shadow.frames.length := by
    have := h.active.lineage.bottom_le
    rwa [hh] at this
  obtain ⟨t₁, hpops, h₁, w₁, hf₁, hh₁⟩ :=
    popFrames_ok (t.thread.shadow.frames.length - hd.bottom) h (by rw [hh]; simp only [bottomOf]; omega)
  have hl := h₁.active.lineage
  rw [hh₁, hh] at hl
  have hlen : t₁.thread.shadow.frames.length = hd.bottom := by rw [hf₁, List.length_drop]; omega
  obtain ⟨above, below, hslots, hdepth, hl, hset, hm⟩ := hl.leave hlen
  have hslots' : t₁.thread.fns.slots = (above ++ [none]) ++ below := by simp [hslots]
  obtain ⟨F, L, hleave, hkeeps, hc, hr⟩ := leaveContext_ok h₁ hslots hm
  have hcut : t₁.thread.fns.cutTo hd.fnDepth = .ok ⟨below⟩ := by
    have : t₁.thread.fns = ⟨(above ++ [none]) ++ below⟩ := congrArg FnStack.mk hslots'
    rw [this, hdepth]
    exact FnStack.cutTo_length _ below
  have w₂ : Within t ({ t₁ with functions := F, ledger := L }.setThread
      { t₁.thread with fns := ⟨below⟩, handlers, exec := hd.interrupted }) :=
    w₁.trans ⟨rfl, hkeeps, rfl, rfl, rfl, rfl, rfl⟩
  refine ⟨_, by
      simp only [leaveHandler, hh, ShadowStack.depth, hpops, ok_bind, hleave]
      rw [show Tracker.thread { t₁ with functions := F, ledger := L } = t₁.thread from rfl, hcut]
      rfl, ?_⟩
  refine ⟨?_, ?_, w₂, hf₁, rfl, rfl⟩
  · refine h₁.within ⟨rfl, hkeeps, rfl, rfl, rfl, rfl, rfl⟩ ⟨hl, h₁.active.unstaged⟩ (fun g => ?_) hr
    -- The marker below the slots of the handler is no activation.
    have h1 := h₁.balance g
    have h2 := hc g
    have h3 : t₁.thread.fns.slots.count (some g) = above.count (some g) + below.count (some g) := by
      rw [hslots, List.count_append]
      rfl
    simp only [Registry.slotsOf, setThread, thread] at h1 h2 h3 ⊢
    omega
  · intro a e
    exact hset a e

/-- The `n` innermost handlers can be left. -/
theorem leaveHandlers_ok (n : Nat) (h : t.Inv) (hn : n ≤ t.thread.handlers.length) :
    ∃ t', leaveHandlers n t = .ok t' ∧ t'.Inv ∧ Within t t' ∧ t'.thread.handlers = t.thread.handlers.drop n := by
  induction n generalizing t with
  | zero => exact ⟨t, rfl, h, .refl t, rfl⟩
  | succ n ih =>
    cases hh : t.thread.handlers with
    | nil => rw [hh] at hn; cases hn
    | cons hd handlers =>
      rw [hh, List.length_cons] at hn
      obtain ⟨t₁, hleave, h₁, hs₁, w₁, -, hh₁, -⟩ := leaveHandler_ok h.toSound hh
      obtain ⟨t₂, hleaves, h₂, w₂, hh₂⟩ := ih ⟨h₁, hs₁⟩ (by rw [hh₁]; omega)
      refine ⟨t₂, by simp only [leaveHandlers, hleave, ok_bind, hleaves], h₂, w₁.trans w₂, ?_⟩
      rw [hh₂, hh₁, List.drop_succ_cons]

/-- Leaving the handlers that have no frame keeps the frames, and then every frame there is belongs to
the innermost handler that is left. -/
theorem leaveExhausted_ok (handlers : List Handler) (h : t.Sound) (hh : t.thread.handlers = handlers)
    (hpos : 0 < t.thread.shadow.depth) :
    ∃ t', leaveHandlers (ThreadState.exhaustedHandlers t.thread.shadow.depth t.thread.exec.signal handlers) t = .ok t' ∧
      t'.Sound ∧ Within t t' ∧ t'.thread.shadow.frames = t.thread.shadow.frames ∧
      bottomOf t'.thread.handlers < t.thread.shadow.depth := by
  induction handlers generalizing t with
  | nil => exact ⟨t, rfl, h, .refl t, rfl, by rw [hh]; exact hpos⟩
  | cons hd handlers ih =>
    have hl := h.active.lineage
    rw [hh] at hl
    have hsig : 0 < t.thread.exec.signal := by simpa using hl.signal_pos
    by_cases hb : hd.bottom = t.thread.shadow.depth
    · obtain ⟨t₁, hleave, h₁, -, w₁, hf₁, hh₁, he₁⟩ := leaveHandler_ok h hh
      have hf₁ : t₁.thread.shadow.frames = t.thread.shadow.frames := by
        rw [hf₁, hb, ShadowStack.depth, Nat.sub_self, List.drop_zero]
      have hd₁ : t₁.thread.shadow.depth = t.thread.shadow.depth := congrArg List.length hf₁
      obtain ⟨t₂, hleaves, h₂, w₂, hf₂, hb₂⟩ := ih h₁ hh₁ (hd₁ ▸ hpos)
      rw [hd₁, he₁] at hleaves
      refine ⟨t₂, ?_, h₂, w₁.trans w₂, hf₂.trans hf₁, hd₁ ▸ hb₂⟩
      simp only [ThreadState.exhaustedHandlers, hsig, hb, and_self, if_true, leaveHandlers, hleave, ok_bind, hleaves]
    · refine ⟨t, ?_, h, .refl t, rfl, ?_⟩
      · simp only [ThreadState.exhaustedHandlers, hb, and_false, if_false]
        rfl
      · have : hd.bottom ≤ t.thread.shadow.frames.length := hl.bottom_le
        rw [hh]
        exact Nat.lt_of_le_of_ne this hb

theorem popCall_ok (h : t.Sound) (hpos : 0 < t.thread.shadow.depth) :
    ∃ t', t.popCall = .ok t' ∧ t'.Sound ∧ Within t t' ∧
      t'.thread.shadow.frames = t.thread.shadow.frames.drop 1 := by
  obtain ⟨t₁, hleave, h₁, w₁, hf₁, hb₁⟩ := leaveExhausted_ok _ h rfl hpos
  cases hf : t.thread.shadow.frames with
  | nil => rw [ShadowStack.depth, hf] at hpos; cases hpos
  | cons f frames =>
    rw [hf] at hf₁
    rw [ShadowStack.depth, hf, List.length_cons] at hb₁
    obtain ⟨t₂, hpop, h₂, w₂, hf₂, -⟩ := popFrame_ok h₁ hf₁ (Nat.le_of_lt_succ hb₁)
    exact ⟨t₂, by simp only [popCall, hleave, ok_bind, hpop], h₂, w₁.trans w₂, hf₂⟩

theorem popCalls_ok (n : Nat) (h : t.Sound) (hn : n ≤ t.thread.shadow.depth) :
    ∃ t', popCalls n t = .ok t' ∧ t'.Sound ∧ Within t t' ∧
      t'.thread.shadow.frames = t.thread.shadow.frames.drop n := by
  induction n generalizing t with
  | zero => exact ⟨t, rfl, h, .refl t, rfl⟩
  | succ n ih =>
    obtain ⟨t₁, hpop, h₁, w₁, hf₁⟩ := popCall_ok h (by omega)
    have hn₁ : n ≤ t₁.thread.shadow.depth := by
      rw [ShadowStack.depth] at hn ⊢
      rw [hf₁, List.length_drop]
      omega
    obtain ⟨t₂, hpops, h₂, w₂, hf₂⟩ := ih h₁ hn₁
    refine ⟨t₂, by simp only [popCalls, hpop, ok_bind, hpops], h₂, w₁.trans w₂, ?_⟩
    rw [hf₂, hf₁, List.drop_drop, Nat.add_comm]

/-! ## Everything -/

theorem finishThread_ok (h : t.Inv) (u : ThreadId) :
    ∃ t', t.finishThread u = .ok t' ∧ t'.Inv ∧ Grows t t' := by
  have h₀ := h.switch u t.stats
  obtain ⟨t₁, hleaves, h₁, w₁, hh₁⟩ := leaveHandlers_ok _ h₀ (Nat.le_refl _)
  rw [List.drop_length] at hh₁
  obtain ⟨t₂, hpops, h₂, w₂, hf₂, hh₂⟩ :=
    popFrames_ok t₁.thread.shadow.depth h₁.toSound (by rw [hh₁]; exact Nat.le_of_eq (Nat.zero_add _))
  rw [ShadowStack.depth, List.drop_length] at hf₂
  have hl := h₂.active.lineage
  rw [hf₂, hh₂, hh₁] at hl
  obtain ⟨F, L, hleave, hkeeps, hc, hr⟩ := leaveContext_ok h₂ (List.append_nil _).symm hl.base
  have hcut : t₂.thread.fns.cutTo 0 = .ok ⟨[]⟩ := FnStack.cutTo_zero _
  have w₃ : Within t₂
      ({ t₂ with functions := F, ledger := L }.setThread { t₂.thread with fns := ⟨[]⟩, exec := {} }) :=
    ⟨rfl, hkeeps, rfl, rfl, rfl, rfl, rfl⟩
  have g₃ : Grows t
      ({ t₂ with functions := F, ledger := L }.setThread { t₂.thread with fns := ⟨[]⟩, exec := {} }) :=
    (Grows.switch t u t.stats).trans (w₁.trans (w₂.trans w₃)).grows
  refine ⟨_, by
      simp only [finishThread, hleaves, ok_bind, hpops, hleave]
      rw [show Tracker.thread { t₂ with functions := F, ledger := L } = t₂.thread from rfl, hcut]
      rfl, ?_⟩
  refine ⟨⟨?_, fun _ e => by cases e⟩, g₃⟩
  refine h₂.within w₃ ⟨?_, h₂.active.unstaged⟩ (fun g => ?_) hr
  · show Lineage _ _ 0 none none t₂.thread.shadow.frames [] t₂.thread.handlers
    rw [hf₂, hh₂, hh₁]
    exact .fresh
  · have h1 := h₂.balance g
    have h2 := hc g
    simp only [Registry.slotsOf, setThread, thread, List.count_nil] at h1 h2 ⊢
    omega

theorem finish_ok (h : t.Inv) : ∃ t', t.finish = .ok t' ∧ t'.Inv ∧ Grows t t' := by
  unfold finish
  generalize t.threads.ids = ids
  induction ids generalizing t with
  | nil => exact ⟨t, rfl, h, .refl t⟩
  | cons u ids ih =>
    obtain ⟨t₁, hfin, h₁, g₁⟩ := finishThread_ok h u
    obtain ⟨t₂, hfins, h₂, g₂⟩ := ih h₁
    exact ⟨t₂, by simp only [List.foldlM_cons, hfin, ok_bind, hfins], h₂, g₁.trans g₂⟩

end Tracker
end CallGraph
