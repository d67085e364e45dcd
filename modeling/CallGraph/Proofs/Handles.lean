/-
  CallGraph.Proofs.Handles — no reference to an anchor dangles or changes its meaning.

  Anchors are referred to by number from threads, handlers, frames, hints and blocks, and the number
  of a dropped anchor is given out again. `Place` lists every place that holds such a number. In every
  state what a place holds is a live anchor, of the thread and the context it is held in. As long
  as any place holds a number, the number stands for the same record: no step on the way discards
  its block or registers another one under the block's number (`handles_are_sound`).
-/

import CallGraph.Proofs.Reach

namespace CallGraph

/-! ## Places -/

/-- The places in a thread that hold an anchor. Handlers and frames are counted from the outermost. -/
inductive ThreadPlace where
  | last
  | costed
  | interruptedLast (handler : Nat)
  | interruptedCosted (handler : Nat)
  | frame (frame : Nat)

def ThreadState.held (s : ThreadState) : ThreadPlace → Option AnchorId
  | .last => s.exec.anchor
  | .costed => s.exec.costed
  | .interruptedLast k => s.handlers.reverse[k]?.bind (·.interrupted.anchor)
  | .interruptedCosted k => s.handlers.reverse[k]?.bind (·.interrupted.costed)
  | .frame k => s.shadow.frames.reverse[k]?.bind (·.costed)

/-- All places that hold an anchor. -/
inductive Place where
  | thread (thread : ThreadId) (place : ThreadPlace)
  /-- The hint of an anchor to its follower. -/
  | follower (anchor : AnchorId)
  /-- The hint of a block to its latest anchor. -/
  | recent (block : BlockId)

def Tracker.held (t : Tracker) : Place → Option AnchorId
  | .thread u p => (t.threads.get? u).bind (·.held p)
  | .follower a => (t.anchors.get? a).bind (·.next)
  | .recent b => (t.blocks.get? b).bind (·.recent)

/-! ## Threads -/

namespace Lineage

variable {stands : ContextId → List (Option FnId) → Prop} {good : ContextId → AnchorId → Prop}
  {signal : Int} {context : Option ContextId} {costed : Option AnchorId} {frames : List Frame}
  {slots : List (Option FnId)} {handlers : List Handler}

theorem frames_good (l : Lineage stands good signal context costed frames slots handlers) :
    ∀ f ∈ frames, ∀ a, f.costed = some a → ∃ c, good c a := by
  induction l with
  | fresh => exact fun _ hm => nomatch hm
  | first _ _ _ _ ih | handler _ _ _ _ _ _ _ ih => exact ih
  | skipped f _ l _ _ ih | itself f _ l _ _ _ _ ih | across f _ _ l _ _ _ _ _ ih =>
    intro g hm a ha
    rcases List.mem_cons.mp hm with rfl | hm
    · rw [ha] at l
      exact ⟨_, l.costed_good⟩
    · exact ih g hm a ha

theorem handlers_good (l : Lineage stands good signal context costed frames slots handlers) :
    ∀ h ∈ handlers, ∀ a, h.interrupted.anchor = some a ∨ h.interrupted.costed = some a → ∃ c, good c a := by
  induction l with
  | fresh => exact fun _ hm => nomatch hm
  | first _ _ _ _ ih | skipped _ _ _ _ _ ih | itself _ _ _ _ _ _ _ ih | across _ _ _ _ _ _ _ _ _ ih => exact ih
  | handler _ g _ l _ _ hlast ih =>
    intro h hm a ha
    rcases List.mem_cons.mp hm with rfl | hm
    · rcases ha with ha | ha
      · obtain ⟨c, -, hgood⟩ := hlast a ha
        exact ⟨c, hgood⟩
      · rw [ha] at l
        cases hc : h.interrupted.context with
        | none =>
          rw [hc] at l
          cases l.bottom_of_no_context.1
        | some c =>
          rw [hc] at l
          exact ⟨c, l.costed_good⟩
    · exact ih h hm a ha

end Lineage

namespace ThreadState

variable {contexts : ContextTable} {anchors : Directory} {thread : ThreadId} {s : ThreadState}

/-- The anchors of the running code are of the active context. -/
theorem Sound.exec_denotes (h : s.Sound contexts anchors thread) (hs : s.Settled anchors thread) {a : AnchorId}
    (ha : s.exec.anchor = some a ∨ s.exec.costed = some a) :
    ∃ c, s.exec.context = some c ∧ Denotes anchors thread c a := by
  rcases ha with ha | ha
  · exact hs a ha
  · have hl := h.lineage
    rw [ha] at hl
    cases hc : s.exec.context with
    | none =>
      rw [hc] at hl
      cases hl.bottom_of_no_context.1
    | some c =>
      rw [hc] at hl
      exact ⟨c, rfl, hl.costed_good⟩

theorem Sound.held_denotes (h : s.Sound contexts anchors thread) (hs : s.Settled anchors thread) {p : ThreadPlace}
    {a : AnchorId} (ha : s.held p = some a) : ∃ c, Denotes anchors thread c a := by
  cases p with
  | last =>
    obtain ⟨c, -, hd⟩ := h.exec_denotes hs (.inl ha)
    exact ⟨c, hd⟩
  | costed =>
    obtain ⟨c, -, hd⟩ := h.exec_denotes hs (.inr ha)
    exact ⟨c, hd⟩
  | interruptedLast k =>
    obtain ⟨hd, hk, ha⟩ := Option.bind_eq_some_iff.mp ha
    exact h.lineage.handlers_good hd (List.mem_reverse.mp (List.mem_of_getElem? hk)) a (.inl ha)
  | interruptedCosted k =>
    obtain ⟨hd, hk, ha⟩ := Option.bind_eq_some_iff.mp ha
    exact h.lineage.handlers_good hd (List.mem_reverse.mp (List.mem_of_getElem? hk)) a (.inr ha)
  | frame k =>
    obtain ⟨f, hk, ha⟩ := Option.bind_eq_some_iff.mp ha
    exact h.lineage.frames_good f (List.mem_reverse.mp (List.mem_of_getElem? hk)) a ha

end ThreadState

namespace Tracker

variable {t t' : Tracker} {a : AnchorId}

theorem Inv.held_live (h : t.Inv) {p : Place} (ha : t.held p = some a) : ∃ x, t.anchors.get? a = some x := by
  cases p with
  | thread u p =>
    obtain ⟨s, hs, ha⟩ := Option.bind_eq_some_iff.mp ha
    obtain ⟨hsound, hsettled⟩ := h.thread hs
    obtain ⟨c, x, hx, -⟩ := hsound.held_denotes hsettled ha
    exact ⟨x, hx⟩
  | follower b =>
    obtain ⟨y, hy, ha⟩ := Option.bind_eq_some_iff.mp ha
    exact h.tables.nextLive b y a hy ha
  | recent b =>
    obtain ⟨r, hr, ha⟩ := Option.bind_eq_some_iff.mp ha
    obtain ⟨x, hx, -⟩ := (h.tables.listed b r hr a).mp (h.tables.recent b r a hr ha)
    exact ⟨x, hx⟩

/-! ## Spans of a run -/

/-- A part of a run, with its operations and answers, in all of whose states a condition holds. -/
inductive Span (P : Tracker → Prop) : Tracker → List (Op × Reply) → Tracker → Prop
  | here {t : Tracker} : P t → Span P t [] t
  | step {t t₁ t' : Tracker} {op : Op} {reply : Reply} {trail : List (Op × Reply)} :
      P t → t.step op = .ok (reply, t₁) → Span P t₁ trail t' → Span P t ((op, reply) :: trail) t'

section Span

variable {t₁ : Tracker} {op : Op} {reply : Reply} {trail : List (Op × Reply)} {P Q : Tracker → Prop}

theorem Span.mono (hs : Span P t trail t') (hpq : ∀ t, P t → Q t) : Span Q t trail t' := by
  induction hs with
  | here hp => exact .here (hpq _ hp)
  | step hp hstep _ ih => exact .step (hpq _ hp) hstep ih

theorem Span.inv (hs : Span P t trail t') (h : t.Inv) : t'.Inv := by
  induction hs with
  | here => exact h
  | step _ hstep _ ih => exact ih (step_inv h hstep).1

theorem Span.reach {config : Config} (hs : Span P t trail t') (hreach : Reach config t) : Reach config t' := by
  induction hs with
  | here => exact hreach
  | step _ hstep _ ih => exact ih (.step hreach hstep)

theorem Span.first (hs : Span P t trail t') : P t := by
  cases hs with
  | here hp | step hp => exact hp

theorem Span.snoc (hs : Span P t trail t₁) (hstep : t₁.step op = .ok (reply, t')) (hp : P t') :
    Span P t (trail ++ [(op, reply)]) t' := by
  induction hs with
  | here hp₁ => exact .step hp₁ hstep (.here hp)
  | step hp₁ hstep₁ _ ih => exact .step hp₁ hstep₁ (ih hstep)

theorem Span.of_run {ops : List Op} (hr : t.run ops = .ok t') :
    ∃ trail, trail.map Prod.fst = ops ∧ Span (fun _ => True) t trail t' := by
  induction ops generalizing t with
  | nil =>
    cases hr
    exact ⟨[], rfl, .here trivial⟩
  | cons op ops ih =>
    obtain ⟨t₁, hstep, hr⟩ := bind_eq_ok.mp hr
    obtain ⟨⟨reply, t₁⟩, hstep, h'⟩ := bind_eq_ok.mp hstep
    cases h'
    obtain ⟨trail, hops, hs⟩ := ih hr
    exact ⟨(op, reply) :: trail, congrArg (op :: ·) hops, .step trivial hstep hs⟩

end Span

/-- A number stands for the same record at both ends of a span: for the same context and thread, and for
the same registration of the same block. -/
structure SameRecord (t : Tracker) (trail : List (Op × Reply)) (t' : Tracker) (a : AnchorId) : Prop where
  key : ∃ x x', t.anchors.get? a = some x ∧ t'.anchors.get? a = some x' ∧ x'.key = x.key
  block : ∀ x, t.anchors.get? a = some x → ∃ r r', t.blocks.get? x.key.block = some r ∧
    t'.blocks.get? x.key.block = some r' ∧ r'.block = r.block ∧
    ∀ op reply, (op, reply) ∈ trail → op ≠ .discardBlock x.key.block ∧ reply ≠ .block x.key.block

/-- An anchor that is live all the time is the same record all the time. -/
theorem Span.sameRecord {P : Tracker → Prop} {trail : List (Op × Reply)} (hs : Span P t trail t') (h : t.Inv)
    (hlive : ∀ t : Tracker, t.Inv → P t → ∃ x, t.anchors.get? a = some x) : SameRecord t trail t' a := by
  induction hs with
  | here hp =>
    obtain ⟨x, hx⟩ := hlive _ h hp
    refine ⟨⟨x, x, hx, hx, rfl⟩, fun y hy => ?_⟩
    obtain ⟨r, hr⟩ := h.tables.blockLive a y hy
    exact ⟨r, r, hr, hr, rfl, fun _ _ hm => nomatch hm⟩
  | step hp hstep _ ih =>
    obtain ⟨h₁, c⟩ := step_inv h hstep
    obtain ⟨⟨x₁, x', hx₁, hx', hk'⟩, hblock⟩ := ih h₁
    obtain ⟨x, hx⟩ := hlive _ h hp
    have hk : x₁.key = x.key := c.anchors a x x₁ hx hx₁
    refine ⟨⟨x, x', hx, hx', hk'.trans hk⟩, fun y hy => ?_⟩
    rw [hx] at hy
    cases hy
    obtain ⟨r, hr⟩ := h.tables.blockLive a x hx
    obtain ⟨r₁, r', hr₁, hr', hb', htrail⟩ := hblock x₁ hx₁
    rw [hk] at hr₁ hr' htrail
    obtain ⟨hb, hop, hreply⟩ := c.blocks _ r r₁ hr hr₁
    refine ⟨r, r', hr, hr', hb'.trans hb, fun op reply hm => ?_⟩
    rcases List.mem_cons.mp hm with e | hm
    · cases e
      exact ⟨hop, hreply⟩
    · exact htrail op reply hm

/-! ## Every reachable state -/

/-- What the places of a tracker hold, and which anchors the blocks list. -/
structure HandlesSound (t : Tracker) : Prop where
  live : ∀ p a, t.held p = some a → ∃ x, t.anchors.get? a = some x
  ownThread : ∀ u p a x, t.held (.thread u p) = some a → t.anchors.get? a = some x → x.key.thread = u
  ownContext : ∀ u s a x, t.threads.get? u = some s → s.exec.anchor = some a ∨ s.exec.costed = some a →
    t.anchors.get? a = some x → s.exec.context = some x.key.context
  nodup : ∀ b r, t.blocks.get? b = some r → r.anchors.Nodup
  listed : ∀ b r, t.blocks.get? b = some r → ∀ a, a ∈ r.anchors ↔ ∃ x, t.anchors.get? a = some x ∧ x.key.block = b
  blockLive : ∀ a x, t.anchors.get? a = some x → ∃ r, t.blocks.get? x.key.block = some r

theorem Inv.handlesSound (h : t.Inv) : t.HandlesSound where
  live := fun _ _ => h.held_live
  ownThread := by
    intro u p a x ha hx
    obtain ⟨s, hs, ha⟩ := Option.bind_eq_some_iff.mp ha
    obtain ⟨hsound, hsettled⟩ := h.thread hs
    obtain ⟨c, y, hy, -, hthread⟩ := hsound.held_denotes hsettled ha
    rw [hx] at hy
    cases hy
    exact hthread
  ownContext := by
    intro u s a x hs ha hx
    obtain ⟨hsound, hsettled⟩ := h.thread hs
    obtain ⟨c, hctx, y, hy, hc, -⟩ := hsound.exec_denotes hsettled ha
    rw [hx] at hy
    cases hy
    rw [hctx, hc]
  nodup := h.tables.nodup
  listed := h.tables.listed
  blockLive := h.tables.blockLive

/-- In every state that can be reached no place holds a stale number, and as long as any place holds a
number from then on, it is the number of the same record. -/
theorem handles_are_sound {config : Config} (h : Reach config t) :
    t.HandlesSound ∧ ∀ a trail t', Span (fun t => ∃ p, t.held p = some a) t trail t' → SameRecord t trail t' a := by
  obtain ⟨hinv, -⟩ := reach_inv h
  refine ⟨hinv.handlesSound, fun a trail t' hs => hs.sameRecord hinv fun _ hi hp => ?_⟩
  obtain ⟨p, ha⟩ := hp
  exact hi.held_live ha

/-- The interrupted code of the first thread keeps its anchor when a block of the other one goes. -/
theorem handles_are_sound_signalledRun :
    ∃ t, Reach fewBuckets t ∧ t.held (.thread ⟨1⟩ (.interruptedLast 0)) = some ⟨1⟩ ∧
      SameRecord t [(.discardBlock ⟨0⟩, .discarded true)] (t.discardBlock ⟨0⟩).2 ⟨1⟩ := by
  have hrun : (runFrom fewBuckets signalledRun).map (fun t =>
      (t.held (.thread ⟨1⟩ (.interruptedLast 0)), (t.discardBlock ⟨0⟩).2.held (.thread ⟨1⟩ (.interruptedLast 0)),
        (t.discardBlock ⟨0⟩).1)) = .ok (some ⟨1⟩, some ⟨1⟩, true) := by decide +kernel
  obtain ⟨t, hr, h⟩ := runFrom_of_map hrun
  simp only [Prod.mk.injEq] at h
  obtain ⟨hheld, hheld', htrue⟩ := h
  obtain ⟨-, hsame⟩ := handles_are_sound (reach_runFrom hr)
  have hstep : t.step (.discardBlock ⟨0⟩) = .ok (.discarded true, (t.discardBlock ⟨0⟩).2) := by rw [← htrue]; rfl
  exact ⟨t, reach_runFrom hr, hheld, hsame ⟨1⟩ _ _ (.step ⟨_, hheld⟩ hstep (.here ⟨_, hheld'⟩))⟩

end Tracker
end CallGraph
