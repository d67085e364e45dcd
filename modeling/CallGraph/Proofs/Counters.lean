/-
  CallGraph.Proofs.Counters — the counts of a tracker agree with each other and with its state.

  A block that runs finds its anchor in one of five ways (`Finding`), and each has its own counts: the first anchor
  of the block is made without any, an anchor is found through one of the two hints or in the directory, or it
  is not found there and is made for a block that has some already. Every other operation leaves these counts alone,
  but that a discard counts the anchors it takes away. So the counts of all ways add up to the blocks that
  ran, and the anchors that were made are those that are live or were dropped (`step_reckoned`).
-/

import CallGraph.Proofs.Upkeep

namespace CallGraph

/-- A return that is taken for a jump is a promoted one. -/
theorem Transfer.promoted_of_returnAsJump {rule : TailCallRule} {source : Option Departure} {target : Block}
    {sp : Addr} {frames : List Frame} {bottom : Nat}
    (h : (classify rule source target sp frames bottom).returnAsJump = true) :
    (classify rule source target sp frames bottom).promoted = true := by
  unfold classify at h ⊢
  cases source with
  | none => cases h
  | some d =>
    cases hkind : d.kind with
    | call => simp [hkind, ofJump] at h
    | ret =>
      simp only [hkind] at h ⊢
      cases hpops : minPops frames sp target.addr with
      | none => rfl
      | some n =>
        simp only [hpops, ofReturn] at h
        split at h <;> cases h
    | fallThrough | jump => simp [hkind, ofJump] at h

/-- The counts of blocks and anchors: without those of frames, switches between threads and signals. -/
def Stats.work (s : Stats) : Stats := { s with calls := 0, returns := 0, threadSwitches := 0, signals := 0 }

/-! ## Finding an anchor -/

/-- How a block that runs comes by its anchor. -/
inductive Finding where
  /-- The block had none, and its first one was made. -/
  | first
  /-- It is the one that followed the last anchor before. -/
  | followed
  /-- It is the one that the block used last. -/
  | recent
  | probed
  /-- The directory had none for the key, and another one of the block was made. -/
  | cloned
deriving DecidableEq

namespace Finding

def count (f : Finding) (s : Stats) : Stats :=
  match f with
  | first => s
  | followed => { s with lruHits := s.lruHits + 1 }
  | recent => { s with blockHintHits := s.blockHintHits + 1 }
  | probed => { s with directoryProbes := s.directoryProbes + 1 }
  | cloned => { s with directoryProbes := s.directoryProbes + 1, anchorClones := s.anchorClones + 1 }

theorem work_count (f : Finding) (s : Stats) : (f.count s).work = f.count s.work := by
  cases f <;> rfl

/-- Whether an anchor was made. -/
def makes : Finding → Bool
  | first | cloned => true
  | _ => false

end Finding

namespace Tracker

variable {t t' : Tracker} {config : Config} {firsts : Nat}

/-- The cases are those of the search, in its order. -/
theorem billTo_finding {key : AnchorKey} {last : Option AnchorId} {a : AnchorId} {r : Resident}
    (hr : t.blocks.get? key.block = some r) (h : t.billTo key last = .ok (a, t')) :
    ∃ f : Finding, (f = .first ↔ r.anchors.isEmpty = true) ∧ t'.stats = f.count t.stats ∧
      if f.makes then t.anchors.spawn key = .ok (a, t'.anchors) else t'.anchors = t.anchors := by
  simp only [billTo, BlockTable.get_eq_ok hr, ok_bind] at h
  split at h
  · rename_i hempty
    obtain ⟨A, hspawn, rfl⟩ := spawnAnchor_eq h
    exact ⟨.first, iff_of_true rfl hempty, rfl, hspawn⟩
  · rename_i hempty
    obtain ⟨hint, -, h⟩ := bind_eq_ok.mp h
    split at h
    · cases h
      exact ⟨.followed, iff_of_false (by decide) hempty, rfl, rfl⟩
    · split at h
      · cases h
        exact ⟨.recent, iff_of_false (by decide) hempty, rfl, rfl⟩
      · obtain ⟨found, -, h⟩ := bind_eq_ok.mp h
        cases found with
        | some _ =>
          cases h
          exact ⟨.probed, iff_of_false (by decide) hempty, rfl, rfl⟩
        | none =>
          obtain ⟨A, hspawn, rfl⟩ := spawnAnchor_eq h
          exact ⟨.cloned, iff_of_false (by decide) hempty, rfl, hspawn⟩

theorem made_of_finding {d A : Directory} {key : AnchorKey} {a : AnchorId} (f : Finding) (hfiled : d.Filed)
    (hslots : d.arena.Sound) (h : if f.makes then d.spawn key = .ok (a, A) else A = d) :
    A.Filed ∧ A.size = d.size + f.makes.toNat := by
  split at h
  · rename_i hf
    obtain ⟨hA, hsize, -⟩ := hfiled.spawn hslots h
    rw [hf]
    exact ⟨hA, hsize⟩
  · rename_i hf
    rw [h, Bool.eq_false_iff.mpr hf]
    exact ⟨hfiled, rfl⟩

section
variable {pos : Position} {id : BlockId} {source : Option Departure} {r : Resident} {x : Transfer} {skip : Bool}
  {c : ContextId} {a : AnchorId} {t₁ t₂ t₃ t₄ : Tracker}

/-- Of the steps of running a block only the count of its transfer and the search for its anchor count any work. -/
theorem Stages.finding (st : Stages t pos id source r x skip c a t₁ t₂ t₃ t₄) (h : t.Inv) (hcontexts : t.contexts.Filed)
    (hanchors : t.anchors.Filed) :
    ∃ f : Finding, (f = .first ↔ r.anchors.isEmpty = true) ∧
      t₄.stats.work = f.count (t.countTransfer x).stats.work ∧ t₄.anchors.size = t.anchors.size + f.makes.toNat := by
  obtain ⟨sc, hs⟩ := h.active.story
  obtain ⟨-, w⟩ := st.left hs
  obtain ⟨n, hstats₁, -⟩ := w.depths
  obtain ⟨-, hanchors₂, hblocks₂, hledger₂, hstats₂, -⟩ := st.prepared_accounts w hcontexts
  have hr₂ : t₂.blocks.get? id = some r := by rw [hblocks₂]; exact st.block
  obtain ⟨f, hfirst, hstats₃, hmakes⟩ := billTo_finding hr₂ st.billed
  obtain ⟨-, -, -, hledger₃, -⟩ := st.billed_accounts hr₂
  obtain ⟨hnext, -, hstats₄, -⟩ := st.link_accounts h hs (by rw [hledger₃]; exact hledger₂)
  rw [hanchors₂] at hmakes
  obtain ⟨hfiled₃, hsize₃⟩ := made_of_finding f hanchors h.tables.anchorSlots hmakes
  have hsize₄ : t₄.anchors.size = t₃.anchors.size := by
    rcases hnext with ⟨-, hsame⟩ | ⟨l, -, hset⟩
    · rw [hsame]
    · exact (hfiled₃.setNext hset).2
  refine ⟨f, hfirst, ?_, hsize₄.trans hsize₃⟩
  calc t₄.stats.work = t₃.stats.work := by rw [hstats₄]; rfl
    _ = f.count t₂.stats.work := by rw [hstats₃, Finding.work_count]
    _ = f.count (t.countTransfer x).stats.work := by rw [hstats₂, hstats₁]; rfl

end

/-- Running a block counts it, what its transfer was taken for and how its anchor was found. -/
theorem enterBlock_finding (h : t.Inv) (o : t.InOrder) {pos : Position} {id : BlockId} {a : AnchorId}
    (he : t.enterBlock pos id = .ok (a, t')) :
    ∃ (r : Resident) (f : Finding) (x : Transfer), t.blocks.get? id = some r ∧
      (f = .first ↔ r.anchors.isEmpty = true) ∧ (x.returnAsJump = true → x.promoted = true) ∧
      t'.stats.work = f.count (t.countTransfer x).stats.work ∧ t'.anchors.size = t.anchors.size + f.makes.toNat := by
  obtain ⟨source, r, x, skip, c, t₁, t₂, t₃, t₄, st, rfl⟩ := enterBlock_stages he
  obtain ⟨-, -, hblocks, hcontexts, hanchors, -⟩ := Stays.switchTo t pos.thread
  obtain ⟨f, hfirst, hwork, hsize⟩ := st.finding (h.switchTo pos.thread) (by rw [hcontexts]; exact o.contexts)
    (by rw [hanchors]; exact o.anchors)
  have hcounted : ((t.switchTo pos.thread).countTransfer x).stats.work = (t.countTransfer x).stats.work := by
    simp only [countTransfer]
    rw [stats_switchTo]
    rfl
  rw [hcounted] at hwork
  rw [hanchors] at hsize
  refine ⟨r, f, x, ?_, hfirst, ?_, hwork, hsize⟩
  · rw [← hblocks]
    exact st.block
  · rw [← st.transfer]
    exact Transfer.promoted_of_returnAsJump

end Tracker

/-! ## The balance of the counts -/

/-- The blocks that ran are accounted for by how their anchors were found, where `firsts` of them got the first
anchor of their block, and `live` anchors are left of those that were made. -/
structure Stats.Reckoned (s : Stats) (live firsts : Nat) : Prop where
  blocks : s.blocksExecuted = s.lruHits + s.blockHintHits + s.directoryProbes + firsts
  anchors : live + s.discardedAnchors = s.anchorClones + firsts
  clones : s.anchorClones ≤ s.directoryProbes
  jumps : s.returnsAsJumps ≤ s.promotedCalls

namespace Stats.Reckoned

variable {s s' : Stats} {live firsts : Nat}

/-- Only the counts of blocks and anchors matter. -/
theorem of_work (h : s.Reckoned live firsts) (hwork : s'.work = s.work) : s'.Reckoned live firsts := by
  have hs : s.work.Reckoned live firsts := ⟨h.blocks, h.anchors, h.clones, h.jumps⟩
  rw [← hwork] at hs
  exact ⟨hs.blocks, hs.anchors, hs.clones, hs.jumps⟩

/-- One block more, whichever way its anchor was found. -/
theorem count (h : s.Reckoned live firsts) (f : Finding) {x : Transfer}
    (hx : x.returnAsJump = true → x.promoted = true) :
    (f.count { s with
        blocksExecuted := s.blocksExecuted + 1
        promotedCalls := s.promotedCalls + x.promoted.toNat
        returnsAsJumps := s.returnsAsJumps + x.returnAsJump.toNat
        emulatedCalls := s.emulatedCalls + x.emulated.toNat }).Reckoned
      (live + f.makes.toNat) (firsts + (decide (f = .first)).toNat) := by
  obtain ⟨hblocks, hanchors, hclones, hjumps⟩ := h
  have hpromoted : x.returnAsJump.toNat ≤ x.promoted.toNat := by
    cases hjump : x.returnAsJump with
    | false => exact Nat.zero_le _
    | true => rw [hx hjump]
  cases f
  all_goals
    constructor
    all_goals
      simp only [Finding.count, Finding.makes, reduceCtorEq, decide_true, decide_false, Bool.toNat_true,
        Bool.toNat_false]
      omega

end Stats.Reckoned

namespace Tracker

variable {t t' : Tracker} {config : Config} {firsts : Nat}

/-- Whether an operation runs a block that has no anchor yet. -/
def opens (t : Tracker) : Op → Bool
  | .enterBlock _ id => (t.blocks.get? id).any (·.anchors.isEmpty)
  | _ => false

theorem enterBlock_reckoned (h : t.Inv) (o : t.InOrder) (hk : t.stats.Reckoned t.anchors.size firsts) {pos : Position}
    {id : BlockId} {a : AnchorId} (he : t.enterBlock pos id = .ok (a, t')) :
    t'.stats.Reckoned t'.anchors.size (firsts + (t.opens (.enterBlock pos id)).toNat) := by
  obtain ⟨r, f, x, hr, hfirst, hx, hwork, hsize⟩ := enterBlock_finding h o he
  have hopens : t.opens (.enterBlock pos id) = decide (f = .first) := by
    rw [opens, hr, Option.any_some, Bool.eq_iff_iff, decide_eq_true_iff, hfirst]
  rw [hopens, hsize]
  exact (hk.count f hx).of_work (hwork.trans (Finding.work_count f _).symm)

theorem discardBlock_reckoned (h : t.Inv) (o : t.InOrder) (hk : t.stats.Reckoned t.anchors.size firsts) (id : BlockId) :
    (t.discardBlock id).2.stats.Reckoned (t.discardBlock id).2.anchors.size firsts := by
  cases hr : t.blocks.get? id with
  | none =>
    rw [discardBlock_dead hr]
    exact hk
  | some r =>
    have hcounted := (discardBlock_inOrder o id).counted
    obtain ⟨A, B, L, heq, c, -⟩ := discardBlock_live hr
    rw [heq] at hcounted ⊢
    have hsize : A.size + r.anchors.length = t.anchors.size := c.size_add h.tables o.counted hcounted
    refine ⟨hk.blocks, ?_, hk.clones, hk.jumps⟩
    have hanchors := hk.anchors
    show A.size + (t.stats.discardedAnchors + r.anchors.length) = t.stats.anchorClones + firsts
    omega

theorem step_reckoned (h : t.Inv) (o : t.InOrder) (hk : t.stats.Reckoned t.anchors.size firsts) {op : Op}
    {reply : Reply} (hs : t.step op = .ok (reply, t')) :
    t'.stats.Reckoned t'.anchors.size (firsts + (t.opens op).toNat) := by
  cases step_effect hs with
  | registerFunction | setFunctionSkip | registerBlock | setExitsPassed => exact hk
  | enterBlock henter => exact enterBlock_reckoned h o hk henter
  | @enterHandler u signal _ henter =>
    obtain ⟨s, rfl⟩ := enterHandler_eq henter
    show Stats.Reckoned _ (t.switchTo u).anchors.size _
    rw [anchors_switchTo]
    refine hk.of_work ?_
    rw [stats_switchTo]
    rfl
  | @exitHandler u signal _ hexit =>
    -- Calls that are left with the handler count as returns only.
    have w := exitHandler_unwinds h hexit
    obtain ⟨n, hstats, -⟩ := w.returns
    rw [w.anchors, anchors_switchTo]
    refine hk.of_work ?_
    rw [hstats, stats_switchTo]
    rfl
  | discardBlock id => exact discardBlock_reckoned h o hk id
  | finish hfinish =>
    obtain ⟨e, hstats⟩ := finish_eq h hfinish
    rw [e.anchors]
    refine hk.of_work ?_
    rw [hstats]
    rfl

/-! ## Runs -/

/-- How many operations of a run give a block its first anchor. -/
def firstRuns (t : Tracker) : List Op → Nat
  | [] => 0
  | op :: ops =>
    (t.opens op).toNat +
      match t.step op with
      | .ok (_, t') => t'.firstRuns ops
      | .error _ => 0

theorem run_reckoned (ops : List Op) (hreach : Reach config t) (hk : t.stats.Reckoned t.anchors.size firsts)
    (hr : t.run ops = .ok t') : t'.stats.Reckoned t'.anchors.size (firsts + t.firstRuns ops) := by
  induction ops generalizing t firsts with
  | nil =>
    cases hr
    exact hk
  | cons op ops ih =>
    rw [run_cons] at hr
    cases hs : t.step op with
    | error e =>
      rw [hs] at hr
      cases hr
    | ok p =>
      obtain ⟨reply, t₁⟩ := p
      rw [hs] at hr
      have hk₁ := step_reckoned (reach_inv hreach).1 (reach_inOrder hreach) hk hs
      rw [firstRuns, hs, ← Nat.add_assoc]
      exact ih (.step hreach hs) hk₁ hr

theorem ofConfig_reckoned (h : ofConfig config = .ok t) : t.stats.Reckoned t.anchors.size 0 := by
  obtain ⟨-, C, -, A, hA, rfl⟩ := ofConfig_eq_ok.mp h
  obtain ⟨-, hsize, -⟩ := Directory.ofBuckets_filed hA
  exact ⟨rfl, hsize, Nat.le_refl 0, Nat.le_refl 0⟩

/-- What the counts say of a state, where `firsts` of the blocks that ran got the first anchor of their block. -/
structure CountersAgree (t : Tracker) (firsts : Nat) : Prop where
  frames : t.stats.calls = t.stats.returns + (t.threads.ids.map fun u => (t.state u).shadow.depth).foldr (· + ·) 0
  blocks : t.stats.blocksExecuted = t.stats.lruHits + t.stats.blockHintHits + t.stats.directoryProbes + firsts
  anchors : t.anchors.ids.card + t.stats.discardedAnchors = t.stats.anchorClones + firsts
  clones : t.stats.anchorClones ≤ t.stats.directoryProbes
  jumps : t.stats.returnsAsJumps ≤ t.stats.promotedCalls

/-- After any run that comes to its end. -/
theorem counters_agree {t₀ : Tracker} {ops : List Op} (h₀ : ofConfig config = .ok t₀) (hr : t₀.run ops = .ok t) :
    t.CountersAgree (t₀.firstRuns ops) := by
  have hreach : Reach config t := (Reach.init h₀).run hr
  have o := reach_inOrder hreach
  have hk := run_reckoned ops (.init h₀) (ofConfig_reckoned h₀) hr
  rw [Nat.zero_add] at hk
  have hcounted : t.anchors.size = t.anchors.ids.card := o.counted
  have hbalanced : t.stats.calls = t.stats.returns + t.threads.depths := o.balanced
  have hdepths := Registry.weigh_eq_foldr (reach_inv hreach).1.apart fun s => s.shadow.depth
  refine ⟨?_, hk.blocks, ?_, hk.clones, hk.jumps⟩
  · rw [hbalanced, Registry.depths, hdepths]
    rfl
  · rw [← hcounted]
    exact hk.anchors

/-- A run with calls on both threads after `signalledRun`, in which an anchor is found in every way there is, and a
block that is gone at the end. -/
def findingRun : List Op :=
  signalledRun ++ [.enterBlock { thread := ⟨2⟩, sp := ⟨1990⟩ } ⟨1⟩, .enterBlock { thread := ⟨2⟩, sp := ⟨1980⟩ } ⟨1⟩,
    .enterBlock { thread := ⟨2⟩, sp := ⟨1970⟩ } ⟨1⟩, .enterBlock { thread := ⟨1⟩, sp := ⟨890⟩ } ⟨1⟩, .discardBlock ⟨0⟩]

theorem counters_agree_findingRun :
    ∃ t₀ t, ofConfig fewBuckets = .ok t₀ ∧ t₀.run findingRun = .ok t ∧ t.stats.blocksExecuted = 9 ∧
      t.stats.lruHits = 1 ∧ t.stats.blockHintHits = 2 ∧ t.stats.directoryProbes = 4 ∧ t.stats.anchorClones = 3 ∧
      t.stats.discardedAnchors = 2 ∧ t.CountersAgree 2 := by
  have hrun : (runFrom fewBuckets findingRun).map (fun t => (t.stats.blocksExecuted, t.stats.lruHits,
      t.stats.blockHintHits, t.stats.directoryProbes, t.stats.anchorClones, t.stats.discardedAnchors)) =
      .ok (9, 1, 2, 4, 3, 2) := by decide +kernel
  have hfirsts : (ofConfig fewBuckets).map (·.firstRuns findingRun) = .ok 2 := by decide +kernel
  obtain ⟨t, hr, h⟩ := runFrom_of_map hrun
  simp only [Prod.mk.injEq] at h
  obtain ⟨hexecuted, hlru, hrecent, hprobes, hclones, hdiscarded⟩ := h
  obtain ⟨t₀, h₀, hr⟩ := runFrom_eq_ok hr
  rw [h₀] at hfirsts
  have hfirsts : t₀.firstRuns findingRun = 2 := Except.ok.inj hfirsts
  have hagree := counters_agree h₀ hr
  rw [hfirsts] at hagree
  exact ⟨t₀, t, h₀, hr, hexecuted, hlru, hrecent, hprobes, hclones, hdiscarded, hagree⟩

end Tracker
end CallGraph
