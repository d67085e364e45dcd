/-
  CallGraph.Proofs.Finishing — at the end of a run every call is left.

  Leaving a thread for good leaves its handlers, its calls and its first function. Nothing is
  interned, billed or called meanwhile, so the tables are what they were, and the count of returns
  grows by the frames that were left (`finish_eq`). So calls and returns are balanced then if they were
  balanced against the frames before.
-/

import CallGraph.Proofs.Arriving

namespace CallGraph

namespace Story

variable {κ ι α : Type} {s : Story κ ι α}

theorem nesting_leave : s.leave.story.nesting = s.nesting - 1 := by
  induction s with
  | fresh => rfl
  | first _ _ _ ih | call _ _ _ _ ih => exact ih
  | handler => rfl

/-- A thread or handler with no call in it has no frame of its own. -/
theorem depth_ground (h : s.WellFormed) : s.ground.depth = s.bottom := by
  induction s with
  | fresh | handler => rfl
  | first _ _ _ _ => exact (of_not_started h.1).2.1
  | call _ _ _ _ ih => exact ih h.2

theorem bottom_of_no_handler (h : s.nesting = 0) : s.bottom = 0 := by
  induction s with
  | fresh => rfl
  | first _ _ _ ih | call _ _ _ _ ih => exact ih h
  | handler => cases h

end Story

/-- How many frames all threads have. -/
def Registry.depths (r : Registry) : Nat := r.weigh fun s => s.shadow.depth

namespace Tracker

variable {t t' : Tracker} {u : ThreadId}

/-- Every frame that was left is a return. -/
theorem Unwinds.depths (h : Unwinds t t') :
    ∃ n, t'.stats = { t.stats with returns := t.stats.returns + n } ∧ t.threads.depths = t'.threads.depths + n := by
  obtain ⟨n, hstats, hdepth⟩ := h.returns
  refine ⟨n, hstats, ?_⟩
  have hdepth : t.threads.active.shadow.depth = t'.threads.active.shadow.depth + n := hdepth
  simp only [Registry.depths, Registry.weigh, h.parked, hdepth]
  omega

theorem leaveHandlers_tells (n : Nat) {sc : Scene ContextId Kept AnchorId} (hs : t.thread.Tells sc)
    (h : leaveHandlers n t = .ok t') :
    ∃ sc', t'.thread.Tells sc' ∧ sc'.story.nesting = sc.story.nesting - n ∧ Unwinds t t' := by
  induction n generalizing t sc with
  | zero =>
    cases h
    exact ⟨sc, hs, rfl, .refl _⟩
  | succ n ih =>
    rw [leaveHandlers, bind_eq_ok] at h
    obtain ⟨t₁, hleave, h⟩ := h
    obtain ⟨hs₁, u₁⟩ := leaveHandler_tells hs hleave
    obtain ⟨sc', hs', hn, u'⟩ := ih hs₁ h
    refine ⟨sc', hs', ?_, u₁.trans u'⟩
    rw [hn, Story.nesting_leave, Nat.sub_sub, Nat.add_comm]

/-- A thread is left for good by leaving its handlers, the calls below them and the first function, in this order. -/
theorem finishThread_eq (h : t.finishThread u = .ok t') :
    ∃ t₁ t₂ t₃, leaveHandlers (t.threads.switchTo u).active.handlers.length
        { t with threads := t.threads.switchTo u } = .ok t₁ ∧
      popFrames t₁.thread.shadow.depth t₁ = .ok t₂ ∧ t₂.leaveContext t₂.thread.exec.context = .ok t₃ ∧
      t' = t₃.setThread { t₃.thread with fns := .empty, exec := {} } := by
  unfold finishThread at h
  obtain ⟨t₁, hleaves, h⟩ := bind_eq_ok.mp h
  obtain ⟨t₂, hpops, h⟩ := bind_eq_ok.mp h
  obtain ⟨t₃, hcontext, h⟩ := bind_eq_ok.mp h
  rw [FnStack.cutTo_zero] at h
  exact ⟨t₁, t₂, t₃, hleaves, hpops, hcontext, (Except.ok.inj h).symm⟩

/-- A thread that is left for good has no frame left. -/
theorem finishThread_unwinds (h : t.Inv) (hf : t.finishThread u = .ok t') :
    Unwinds { t with threads := t.threads.switchTo u } t' ∧ t'.thread.shadow.depth = 0 := by
  have h₀ := h.switch u t.stats
  obtain ⟨sc, hs⟩ := h₀.active.story
  obtain ⟨t₁, t₂, t₃, hleaves, hpops, hcontext, rfl⟩ := finishThread_eq hf
  obtain ⟨sc₁, hs₁, hn, u₁⟩ := leaveHandlers_tells _ hs hleaves
  have hbottom : sc₁.story.bottom = 0 := by
    refine Story.bottom_of_no_handler ?_
    rw [hn, ← Story.length_handlers, ← hs.handlers]
    exact Nat.sub_self _
  have hdepth : t₁.thread.shadow.depth = sc₁.story.depth - sc₁.story.bottom := by
    rw [hs₁.depth, hbottom, Nat.sub_zero]
  rw [hdepth] at hpops
  obtain ⟨hs₂, u₂⟩ := popFrames_tells hs₁ hpops
  obtain ⟨F, L, rfl, c⟩ := leaveContext_eq hcontext
  refine ⟨u₁.trans (u₂.trans ⟨⟨rfl, c.functions, rfl, rfl, rfl, rfl, rfl⟩, c.decls, c.activity, c.ledger, c.entries, 0, rfl,
    rfl⟩), ?_⟩
  show t₂.thread.shadow.depth = 0
  rw [hs₂.depth, Story.depth_ground hs₁.wellFormed, hbottom]

/-- Everything was left: only activations, the ledger's reports and the count of returns changed. -/
structure Ends (t t' : Tracker) : Prop where
  config : t'.config = t.config
  size : t'.functions.size = t.functions.size
  decls : ∀ fn, t'.functions.decl? fn = t.functions.decl? fn
  blocks : t'.blocks = t.blocks
  contexts : t'.contexts = t.contexts
  anchors : t'.anchors = t.anchors
  ledger : t.ledger.SameCalls t'.ledger
  entries : t'.ledger.entries = t.ledger.entries
  returns : ∃ n, t'.stats = { t.stats with returns := t.stats.returns + n } ∧ t.threads.depths = t'.threads.depths + n
  /-- A thread without frames stays so. -/
  bare : ∀ u, (t.state u).shadow.depth = 0 → (t'.state u).shadow.depth = 0

theorem Ends.refl (t : Tracker) : Ends t t :=
  ⟨rfl, rfl, fun _ => rfl, rfl, rfl, rfl, ⟨rfl, rfl⟩, rfl, ⟨0, rfl, rfl⟩, fun _ h => h⟩

theorem Ends.trans {t'' : Tracker} (e : Ends t t') (e' : Ends t' t'') : Ends t t'' := by
  obtain ⟨n, hn, hd⟩ := e.returns
  obtain ⟨n', hn', hd'⟩ := e'.returns
  refine ⟨e'.config.trans e.config, e'.size.trans e.size, fun fn => (e'.decls fn).trans (e.decls fn),
    e'.blocks.trans e.blocks, e'.contexts.trans e.contexts, e'.anchors.trans e.anchors,
    ⟨e'.ledger.arcs.trans e.ledger.arcs, e'.ledger.calls.trans e.ledger.calls⟩, e'.entries.trans e.entries,
    ⟨n + n', ?_, ?_⟩, fun u hu => e'.bare u (e.bare u hu)⟩
  · rw [hn', hn]
    simp only [Nat.add_assoc]
  · rw [hd, hd', Nat.add_assoc, Nat.add_comm n']

theorem finishThread_elsewhere (h : t.Inv) (hf : t.finishThread u = .ok t') {v : ThreadId} (hv : v ≠ u) :
    t'.state v = t.state v := by
  obtain ⟨w, -⟩ := finishThread_unwinds h hf
  have hsame := state_of_parked w.current w.parked (u := v) (by rw [Registry.current_switchTo]; exact hv)
  rw [hsame, state, Registry.get?_switchTo, if_neg hv]
  rfl

/-- A thread that is left runs then. -/
theorem finishThread_current (h : t.Inv) (hf : t.finishThread u = .ok t') : t'.state u = t'.thread := by
  obtain ⟨w, -⟩ := finishThread_unwinds h hf
  have hcurrent : t'.threads.current = u := w.current.trans (Registry.current_switchTo t.threads u)
  rw [← hcurrent, state_current]

theorem finishThread_ends (h : t.Inv) (hf : t.finishThread u = .ok t') :
    Ends t t' ∧ (t'.state u).shadow.depth = 0 := by
  obtain ⟨hu, hbare⟩ := finishThread_unwinds h hf
  obtain ⟨n, hstats, hdepths⟩ := hu.depths
  rw [← finishThread_current h hf] at hbare
  refine ⟨⟨hu.config, hu.functions.size, hu.decls, hu.blocks, hu.contexts, hu.anchors, hu.ledger, hu.entries,
    ⟨n, hstats, ?_⟩, fun v hv => ?_⟩, hbare⟩
  · rw [← hdepths]
    exact (Registry.weigh_switchTo h.apart rfl u).symm
  · by_cases e : v = u
    · rw [e]
      exact hbare
    · rw [finishThread_elsewhere h hf e]
      exact hv

/-- One thread is left, and then the others. -/
theorem finishThreads_cons {us : List ThreadId} (h : t.Inv) (hf : (u :: us).foldlM finishThread t = .ok t') :
    ∃ t₁, t.finishThread u = .ok t₁ ∧ t₁.Inv ∧ us.foldlM finishThread t₁ = .ok t' := by
  rw [List.foldlM_cons] at hf
  obtain ⟨t₁, hfirst, hf⟩ := bind_eq_ok.mp hf
  obtain ⟨t₁', hfirst', h₁, -⟩ := finishThread_ok h u
  cases hfirst.symm.trans hfirst'
  exact ⟨t₁, hfirst, h₁, hf⟩

theorem finishThreads_ends (us : List ThreadId) (h : t.Inv) (hf : us.foldlM finishThread t = .ok t') :
    Ends t t' ∧ (∀ u ∈ us, (t'.state u).shadow.depth = 0) ∧
      ∀ v, v ∈ t'.threads.ids ↔ v ∈ us ∨ v ∈ t.threads.ids := by
  induction us generalizing t with
  | nil =>
    cases hf
    exact ⟨.refl _, List.forall_mem_nil _, fun v => (or_iff_right List.not_mem_nil).symm⟩
  | cons u us ih =>
    obtain ⟨t₁, hfirst, h₁, hf⟩ := finishThreads_cons h hf
    obtain ⟨e₁, hu⟩ := finishThread_ends h hfirst
    obtain ⟨w₁, -⟩ := finishThread_unwinds h hfirst
    obtain ⟨e', hus, hids⟩ := ih h₁ hf
    refine ⟨e₁.trans e', fun v hv => ?_, fun v => ?_⟩
    · obtain rfl | hv := List.mem_cons.mp hv
      · exact e'.bare v hu
      · exact hus v hv
    · rw [hids, Registry.mem_ids_of_parked w₁.current w₁.parked, Registry.mem_ids_switchTo, List.mem_cons, or_left_comm,
        or_assoc]

theorem finish_ends (h : t.Inv) (hf : t.finish = .ok t') :
    Ends t t' ∧ ∀ u ∈ t.threads.ids, (t'.state u).shadow.depth = 0 := by
  obtain ⟨e, hids, -⟩ := finishThreads_ends t.threads.ids h hf
  exact ⟨e, hids⟩

/-- The end of a run brings no thread. -/
theorem mem_ids_finish (h : t.Inv) (hf : t.finish = .ok t') {u : ThreadId} : u ∈ t'.threads.ids ↔ u ∈ t.threads.ids := by
  obtain ⟨-, -, hids⟩ := finishThreads_ends t.threads.ids h hf
  rw [hids, or_self]

/-- A thread that is not listed is fresh. -/
theorem state_of_not_listed (hu : u ∉ t.threads.ids) : t.state u = .fresh := by
  have hnone : t.threads.get? u = none := by
    rw [Option.eq_none_iff_forall_not_mem]
    exact fun s hs => hu (Registry.mem_ids.mpr ⟨s, hs⟩)
  rw [state, hnone]
  rfl

/-- What no thread has is not there in all. -/
theorem weigh_eq_zero (h : t.Inv) {w : ThreadState → Nat} (hw : ∀ u, w (t.state u) = 0) : t.threads.weigh w = 0 := by
  refine Registry.weigh_eq_zero h.apart fun u s hs => ?_
  have hu := hw u
  rw [state, hs] at hu
  exact hu

/-- At the end no thread has a frame. -/
theorem finish_bare (h : t.Inv) (hf : t.finish = .ok t') (u : ThreadId) : (t'.state u).shadow.depth = 0 := by
  obtain ⟨e, hids⟩ := finish_ends h hf
  by_cases hu : u ∈ t.threads.ids
  · exact hids u hu
  · exact e.bare u (by rw [state_of_not_listed hu]; rfl)

/-- The end of a run leaves every call, and counts a return for it. -/
theorem finish_eq (h : t.Inv) (hf : t.finish = .ok t') :
    Ends t t' ∧ t'.stats = { t.stats with returns := t.stats.returns + t.threads.depths } := by
  obtain ⟨e, -⟩ := finish_ends h hf
  obtain ⟨n, hstats, hdepths⟩ := e.returns
  obtain ⟨t'', hf', h', -⟩ := finish_ok h
  rw [hf] at hf'
  cases hf'
  have hzero : t'.threads.depths = 0 := weigh_eq_zero h' (finish_bare h hf)
  rw [hzero, Nat.zero_add] at hdepths
  rw [hdepths]
  exact ⟨e, hstats⟩

end Tracker
end CallGraph
