/-
  CallGraph.Proofs.Following — a hint to the anchor that comes next lasts.

  A block that runs notes its anchor at the anchor that ran last on its thread. Nothing else writes this hint, and only
  a discard clears it, and only if the anchor that it points to goes. So from the block on, the hint points to the
  same record until the thread runs another block from the same anchor or one of the two blocks is discarded
  (`step_hinted`), whatever other threads, handlers, clones of the block and discards do in between. When the thread
  runs the block from that anchor again and the context is the same, the anchor is found through the hint at once
  (`repeated_transfer_follows`).
-/

import CallGraph.Proofs.Counters
import CallGraph.Proofs.Evicting
import CallGraph.Proofs.Restoring

namespace CallGraph.Tracker

variable {config : Config} {t t' t₀ t₁ : Tracker} {u : ThreadId} {p q a : AnchorId} {k k' : AnchorKey}
  {op : Op} {reply : Reply}

/-! ## One operation -/

/-- A block runs from the anchor that ran last on its thread, and in the context that is active then. -/
theorem enterBlock_from (h : t.Inv) (o : t.InOrder) {pos : Position} {id : BlockId}
    (he : t.enterBlock pos id = .ok (a, t')) :
    ∃ sc x skip c, sc.last = (t.state pos.thread).exec.anchor ∧ (t'.state pos.thread).exec.context = some c ∧
      Entered t { block := id, context := c, thread := pos.thread } sc x skip a t' := by
  obtain ⟨sc, hs⟩ := (h.state pos.thread).1.story
  obtain ⟨r, -, -, hr, -⟩ := enterBlock_finding h o he
  have hb : t.blocks.block? id = some r.block := by rw [BlockTable.block?, hr]; rfl
  obtain ⟨f, hf⟩ := known_decl h hb
  obtain ⟨c, hcontext, e⟩ := enterBlock_entered h he hs hb hf o.contexts
  exact ⟨sc, _, f.skip, c, by rw [hs.exec], hcontext, e⟩

/-- A block that runs writes the hint of the anchor that ran last on its thread, and no other. -/
theorem enterBlock_hints (h : t.Inv) (o : t.InOrder) {pos : Position} {id : BlockId}
    (he : t.enterBlock pos id = .ok (a, t')) {x : Anchor} (hx : t.anchors.get? p = some x) :
    ∃ x', t'.anchors.get? p = some x' ∧ x'.key = x.key ∧
      x'.next = if (t.state pos.thread).exec.anchor = some p then some a else x.next := by
  obtain ⟨r, -, -, hr, -⟩ := enterBlock_finding h o he
  obtain ⟨a₁, t₁, he₁, -, g⟩ := enterBlock_ok h pos hr
  cases he.symm.trans he₁
  obtain ⟨x', hx', hkey⟩ := g.anchors p x hx
  obtain ⟨sc, _, _, _, hfrom, -, e⟩ := enterBlock_from h o he
  obtain ⟨hold, hlast⟩ := e.of_live h.tables.anchorSlots hx'
  refine ⟨x', hx', hkey, ?_⟩
  rw [← hfrom]
  split
  · rename_i e
    exact hlast e
  · rename_i hne
    obtain ⟨x₀, hx₀, -, hnext⟩ | ⟨-, -, hnone, -⟩ := hold
    · cases hx.symm.trans hx₀
      exact hnext hne
    · cases hx.symm.trans hnone

/-- Other operations leave the directory alone, unless they discard a block. -/
theorem step_anchors (h : t.Inv) (hstep : t.step op = .ok (reply, t')) (henter : ∀ pos id, op ≠ .enterBlock pos id)
    (hdiscard : ∀ id, op ≠ .discardBlock id) : t'.anchors = t.anchors := by
  cases step_effect hstep with
  | @enterBlock pos id => exact absurd rfl (henter pos id)
  | discardBlock id => exact absurd rfl (hdiscard id)
  | registerFunction | setFunctionSkip | registerBlock | setExitsPassed => rfl
  | enterHandler hhandler =>
    obtain ⟨s, rfl⟩ := enterHandler_eq hhandler
    exact anchors_switchTo t _
  | exitHandler hexit => exact (exitHandler_unwinds h hexit).anchors.trans (anchors_switchTo t _)
  | finish hfinish => exact (finish_ends h hfinish).1.anchors

/-! ## The hint -/

/-- An anchor is live, and so is the one that it points to. -/
structure Hinted (t : Tracker) (p : AnchorId) (k : AnchorKey) (q : AnchorId) (k' : AnchorKey) : Prop where
  source : ∃ x, t.anchors.get? p = some x ∧ x.key = k ∧ x.next = some q
  target : ∃ y, t.anchors.get? q = some y ∧ y.key = k'

/-- No block runs on a thread from an anchor, and neither of two blocks is discarded. -/
def Spared (u : ThreadId) (p : AnchorId) (b b' : BlockId) (t : Tracker) : Op → Prop
  | .enterBlock pos _ => pos.thread = u → (t.state u).exec.anchor ≠ some p
  | .discardBlock id => id ≠ b ∧ id ≠ b'
  | _ => True

instance (u : ThreadId) (p : AnchorId) (b b' : BlockId) (t : Tracker) : ∀ op, Decidable (Spared u p b b' t op)
  | .enterBlock pos _ => instDecidableForall (p := pos.thread = u) (q := (t.state u).exec.anchor ≠ some p)
  | .discardBlock id => instDecidableAnd (p := id ≠ b) (q := id ≠ b')
  | .registerFunction .. | .setFunctionSkip .. | .registerBlock _ | .setExitsPassed _ | .enterHandler .. |
    .exitHandler .. | .finish => .isTrue trivial

/-- A thread runs on from its own anchors only. -/
theorem Inv.last_thread (h : t.Inv) {x : Anchor} (hlast : (t.state u).exec.anchor = some p)
    (hx : t.anchors.get? p = some x) : x.key.thread = u := by
  obtain ⟨c, -, y, hy, -, hthread⟩ := (h.state u).2 p hlast
  cases hx.symm.trans hy
  exact hthread

theorem Hinted.discardBlock (hh : Hinted t p k q k') (h : t.Inv) (o : t.InOrder) {id : BlockId}
    (hp : id ≠ k.block) (hq : id ≠ k'.block) : Hinted (t.discardBlock id).2 p k q k' := by
  cases hr : t.blocks.get? id with
  | none =>
    rw [discardBlock_dead hr]
    exact hh
  | some r =>
    obtain ⟨t', heq, e⟩ := discardBlock_evicts h o hr
    obtain ⟨⟨x, hx, rfl, hnext⟩, y, hy, rfl⟩ := hh
    have hkept : ∀ {b : AnchorId} {z : Anchor}, t.anchors.get? b = some z → id ≠ z.key.block → b ∉ r.anchors := by
      intro b z hz hne hm
      obtain ⟨z', hz', hblock⟩ := (e.owned b).mp hm
      cases hz.symm.trans hz'
      exact hne hblock.symm
    have hp' := hkept hx hp
    have hq' := hkept hy hq
    rw [heq]
    constructor
    · refine ⟨{ x with next := some q }, ?_, rfl, rfl⟩
      rw [e.anchors, if_neg hp', hx, Option.map_some, hnext]
      simp [hq']
    · refine ⟨{ y with next := y.next.filter fun n => n ∉ r.anchors }, ?_, rfl⟩
      rw [e.anchors, if_neg hq', hy, Option.map_some]

theorem step_hinted (hh : Hinted t p k q k') (h : t.Inv) (o : t.InOrder)
    (hstep : t.step op = .ok (reply, t')) (hop : Spared k.thread p k.block k'.block t op) :
    Hinted t' p k q k' := by
  by_cases henter : ∃ pos id, op = .enterBlock pos id
  · obtain ⟨pos, id, rfl⟩ := henter
    obtain ⟨⟨a, t₁⟩, he, h'⟩ := bind_eq_ok.mp hstep
    cases h'
    obtain ⟨⟨x, hx, rfl, hnext⟩, y, hy, rfl⟩ := hh
    obtain ⟨x', hx', hkey, hnext'⟩ := enterBlock_hints h o he hx
    obtain ⟨y', hy', hkey', -⟩ := enterBlock_hints h o he hy
    refine ⟨⟨x', hx', hkey, ?_⟩, y', hy', hkey'⟩
    rw [hnext', if_neg, hnext]
    intro hlast
    have hthread := h.last_thread hlast hx
    exact hop hthread.symm (hthread ▸ hlast)
  by_cases hdiscard : ∃ id, op = .discardBlock id
  · obtain ⟨id, rfl⟩ := hdiscard
    cases hstep
    exact hh.discardBlock h o hop.1 hop.2
  have hanchors : t'.anchors = t.anchors :=
    step_anchors h hstep (fun pos id e => henter ⟨pos, id, e⟩) fun id e => hdiscard ⟨id, e⟩
  obtain ⟨hsource, htarget⟩ := hh
  rw [← hanchors] at hsource htarget
  exact ⟨hsource, htarget⟩

theorem Course.hinted (hc : Course (fun t op _ => Spared k.thread p k.block k'.block t op) t t')
    (hreach : Reach config t) (hh : Hinted t p k q k') : Reach config t' ∧ Hinted t' p k q k' := by
  induction hc with
  | here => exact ⟨hreach, hh⟩
  | step hstep hop _ ih =>
    exact ih (.step hreach hstep) (step_hinted hh (reach_inv hreach).1 (reach_inOrder hreach) hstep hop)

/-! ## The same transfer again -/

/-- The anchor of a block was found through the hint of the last one. -/
structure FollowsHint (t t' : Tracker) : Prop where
  lruHits : t'.stats.lruHits = t.stats.lruHits + 1
  blockHintHits : t'.stats.blockHintHits = t.stats.blockHintHits
  directoryProbes : t'.stats.directoryProbes = t.stats.directoryProbes
  anchorClones : t'.stats.anchorClones = t.stats.anchorClones

/-- Only an anchor that follows the last one is counted as such. -/
theorem enterBlock_followsHint (h : t.Inv) (o : t.InOrder) {pos : Position} {id : BlockId}
    (he : t.enterBlock pos id = .ok (a, t')) (hhit : t'.stats.lruHits = t.stats.lruHits + 1) : FollowsHint t t' := by
  obtain ⟨r, f, x, -, -, -, hwork, -⟩ := enterBlock_finding h o he
  have hcount : t'.stats.work.lruHits = (f.count (t.countTransfer x).stats.work).lruHits := congrArg _ hwork
  have hfollowed : f = .followed := by
    cases f with
    | followed => rfl
    | first | recent | probed | cloned => exact absurd (hhit.symm.trans hcount) (Nat.succ_ne_self _)
  subst hfollowed
  exact ⟨hhit, congrArg (·.blockHintHits) hwork, congrArg (·.directoryProbes) hwork, congrArg (·.anchorClones) hwork⟩

theorem Hinted.hit (hh : Hinted t p k q k') (h : t.Inv) (o : t.InOrder)
    (hlast : (t.state k'.thread).exec.anchor = some p) {sp : Addr}
    (he : t.enterBlock { thread := k'.thread, sp } k'.block = .ok (a, t'))
    (hcontext : (t'.state k'.thread).exec.context = some k'.context) : a = q ∧ FollowsHint t t' := by
  obtain ⟨⟨x, hx, -, hnext⟩, y, hy, hkey⟩ := hh
  obtain ⟨sc, _, _, c, hfrom, hc, e⟩ := enterBlock_from h o he
  cases hc.symm.trans hcontext
  have hfollowed : followed t.anchors sc.last k' = true := by
    rw [followed, hfrom, hlast, Option.bind_some, hx, Option.bind_some, hnext, Option.any_some]
    exact Directory.holds_iff.mpr ⟨y, hy, hkey⟩
  have hhit := e.stats.lruHits
  rw [hfollowed] at hhit
  refine ⟨?_, enterBlock_followsHint h o he hhit⟩
  obtain ⟨y', hy', hkey', -⟩ := enterBlock_hints h o he hy
  obtain ⟨-, c, hc, z, hz, hzkey⟩ := enterBlock_stays h he
  cases hc.symm.trans hcontext
  have hfiled := (e.anchors_filed h.tables.anchorSlots o.anchors).1
  exact hfiled.distinct a q z y' hz hy' (hzkey.trans (hkey.symm.trans hkey'.symm))

/-- Where a block ran on a thread from some anchor, running it from that anchor again finds its anchor through the hint,
unless the thread ran a block from that anchor in between or one of the two blocks was discarded. All else may happen
in between. -/
theorem repeated_transfer_follows (hreach : Reach config t₀) (hlast : (t₀.state u).exec.anchor = some p) {sp : Addr}
    {id : BlockId} (hstep : t₀.step (.enterBlock { thread := u, sp } id) = .ok (.billed q, t₁)) :
    ∃ x y, t₀.anchors.get? p = some x ∧ t₁.anchors.get? q = some y ∧ y.key.block = id ∧
      ∀ t, Course (fun t op _ => Spared u p x.key.block id t op) t₁ t → (t.state u).exec.anchor = some p →
        ∀ sp, ∃ a t', t.step (.enterBlock { thread := u, sp } id) = .ok (.billed a, t') ∧
          ((t'.state u).exec.context = some y.key.context → a = q ∧ FollowsHint t t') := by
  obtain ⟨h, -⟩ := reach_inv hreach
  have o := reach_inOrder hreach
  obtain ⟨⟨q', t₁'⟩, he, h'⟩ := bind_eq_ok.mp hstep
  cases h'
  obtain ⟨-, -, x, hx, -⟩ := (h.state u).2 p hlast
  have hthread := h.last_thread hlast hx
  obtain ⟨-, c, -, y, hy, hkey⟩ := enterBlock_stays h he
  obtain ⟨x', hx', hkey', hnext⟩ := enterBlock_hints h o he hx
  -- The block itself notes its anchor at the last one; after that the hint only has to last.
  have hhinted : Hinted t₁ p x.key q { block := id, context := c, thread := u } :=
    ⟨⟨x', hx', hkey', by rw [hnext, if_pos hlast]⟩, y, hy, hkey⟩
  refine ⟨x, y, hx, hy, by rw [hkey], fun t hcourse hagain sp => ?_⟩
  obtain ⟨hreach', hhinted⟩ := Course.hinted (by rw [hthread]; exact hcourse) (.step hreach hstep) hhinted
  obtain ⟨h', -⟩ := reach_inv hreach'
  obtain ⟨z, hz, hzkey⟩ := hhinted.target
  obtain ⟨r, hr⟩ := h'.tables.blockLive q z hz
  rw [hzkey] at hr
  obtain ⟨a, t', he', -⟩ := enterBlock_ok h' { thread := u, sp } hr
  refine ⟨a, t', by simp only [step, he', ok_bind, pure_eq_ok], fun hcontext => ?_⟩
  rw [hkey] at hcontext
  exact hhinted.hit h' (reach_inOrder hreach') hagain he' hcontext

/-- The first half of a loop of `main`, whose halves are blocks of their own. -/
def loopRun : List Op :=
  [.registerFunction "main" ⟨0⟩, .registerFunction "work" ⟨0⟩,
    .registerBlock { callBlock 100 ⟨0⟩ with isEntry := false, finalExit := { kind := .jump } },
    .registerBlock { callBlock 110 ⟨0⟩ with isEntry := false, finalExit := { kind := .jump } },
    .registerBlock (callBlock 200 ⟨1⟩), .enterBlock { thread := ⟨1⟩, sp := ⟨1000⟩ } ⟨0⟩]

/-- A handler and another thread come to the second half, too, and a block of another function is discarded, whose
number is given to a new one. -/
def loopMeanwhile : List Op :=
  [.enterBlock { thread := ⟨1⟩, sp := ⟨1000⟩ } ⟨0⟩, .enterHandler ⟨1⟩ 10,
    .enterBlock { thread := ⟨1⟩, sp := ⟨990⟩ } ⟨2⟩, .enterBlock { thread := ⟨1⟩, sp := ⟨980⟩ } ⟨1⟩, .exitHandler ⟨1⟩ 10,
    .enterBlock { thread := ⟨2⟩, sp := ⟨2000⟩ } ⟨0⟩, .enterBlock { thread := ⟨2⟩, sp := ⟨2000⟩ } ⟨1⟩, .discardBlock ⟨2⟩,
    .registerBlock (callBlock 300 ⟨1⟩)]

theorem repeated_transfer_follows_loopRun :
    ∃ t₀ q t₁ t t', Reach fewBuckets t₀ ∧ (t₀.state ⟨1⟩).exec.anchor = some ⟨0⟩ ∧
      t₀.step (.enterBlock { thread := ⟨1⟩, sp := ⟨1000⟩ } ⟨1⟩) = .ok (.billed q, t₁) ∧
      Course (fun t op _ => Spared ⟨1⟩ ⟨0⟩ ⟨0⟩ ⟨1⟩ t op) t₁ t ∧ t.anchors.size = 5 ∧ t.stats.discardedBlocks = 1 ∧
      t.step (.enterBlock { thread := ⟨1⟩, sp := ⟨1000⟩ } ⟨1⟩) = .ok (.billed q, t') ∧ FollowsHint t t' := by
  have hrun : (runFrom fewBuckets loopRun).map (fun t₀ =>
      ((t₀.state ⟨1⟩).exec.anchor, (t₀.anchors.get? ⟨0⟩).map (·.key.block),
        (t₀.enterBlock { thread := ⟨1⟩, sp := ⟨1000⟩ } ⟨1⟩).toOption.bind fun p =>
        (follow (fun t op _ => Spared ⟨1⟩ ⟨0⟩ ⟨0⟩ ⟨1⟩ t op) p.2 loopMeanwhile).map fun t =>
          ([t.anchors.size, t.stats.discardedBlocks],
            decide ((t.state ⟨1⟩).exec.anchor = some ⟨0⟩ ∧
              (t.enterBlock { thread := ⟨1⟩, sp := ⟨1000⟩ } ⟨1⟩).toOption.bind (·.2.state ⟨1⟩ |>.exec.context) =
                (p.2.anchors.get? p.1).map (·.key.context))))) =
      .ok (some ⟨0⟩, some ⟨0⟩, some ([5, 1], true)) := by decide +kernel
  obtain ⟨t₀, hr, hrun⟩ := runFrom_of_map hrun
  simp only [Prod.mk.injEq] at hrun
  obtain ⟨hlast, hblock, hrun⟩ := hrun
  obtain ⟨⟨q, t₁⟩, henter, hrun⟩ := Option.bind_eq_some_iff.mp hrun
  obtain ⟨t, hcourse, hrun⟩ := Option.map_eq_some_iff.mp hrun
  simp only [Prod.mk.injEq, decide_eq_true_eq, List.cons.injEq, and_true] at hrun
  obtain ⟨⟨hsize, hdiscarded⟩, hagain, hsame⟩ := hrun
  have hstep : t₀.step (.enterBlock { thread := ⟨1⟩, sp := ⟨1000⟩ } ⟨1⟩) = .ok (.billed q, t₁) := by
    simp only [step, toOption_eq_some.mp henter, ok_bind, pure_eq_ok]
  have hspared : Course (fun t op _ => Spared ⟨1⟩ ⟨0⟩ ⟨0⟩ ⟨1⟩ t op) t₁ t := .of_follow hcourse
  obtain ⟨x, y, hx, hy, -, hfollows⟩ := repeated_transfer_follows (reach_runFrom hr) hlast hstep
  rw [hx] at hblock
  have hblock : x.key.block = ⟨0⟩ := Option.some.inj hblock
  obtain ⟨a, t', hstep', hhit⟩ := hfollows t (by rw [hblock]; exact hspared) hagain ⟨1000⟩
  obtain ⟨⟨a', t''⟩, he, h'⟩ := bind_eq_ok.mp hstep'
  cases h'
  rw [he, hy] at hsame
  obtain ⟨rfl, hfollowed⟩ := hhit hsame
  exact ⟨t₀, a, t₁, t, t', reach_runFrom hr, hlast, hstep, hspared, hsize, hdiscarded, hstep', hfollowed⟩

end CallGraph.Tracker
