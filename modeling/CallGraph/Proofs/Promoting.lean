/-
  CallGraph.Proofs.Promoting — which of the transfers counted as calls are calls.

  A return that finds no frame to leave is counted as an emulated call where its frame is pushed, so every
  one of these is a call. A jump is counted as a promoted call before the frames below the stack pointer are
  left, and if there are any it is a return after all: it pops frames, pushes none and is counted all the
  same (`jump_counted_as_call`). `overshoots` counts these jumps along a run. Up to them the promoted and
  emulated calls are among the calls (`reclassified_are_calls`).
-/

import CallGraph.Proofs.Transferring

namespace CallGraph

namespace Transfer

variable {rule : TailCallRule} {source : Option Departure} {target : Block} {sp : Addr} {frames : List Frame}
  {bottom : Nat}

theorem enters_of_emulated (h : (classify rule source target sp frames bottom).emulated = true) :
    (classify rule source target sp frames bottom).enters = true ∧
      (classify rule source target sp frames bottom).promoted = false := by
  obtain ⟨calls, promoted, returnAsJump, e⟩ | ⟨n, e⟩ := classify_cases rule source target sp frames bottom
  · rw [e] at h
    cases h
  · rw [e] at h ⊢
    unfold ofReturn at h ⊢
    split at h
    · rename_i hbare
      rw [if_pos hbare]
      exact ⟨rfl, rfl⟩
    · cases h

/-- A promoted jump enters a function unless the frame on top is below the stack pointer, and then it leaves it. -/
theorem of_promoted (h : (classify rule source target sp frames bottom).promoted = true) :
    (classify rule source target sp frames bottom).emulated = false ∧
      ((∀ f ∈ frames.head?, ¬f.sp < sp) → (classify rule source target sp frames bottom).enters = true) ∧
      (∀ f ∈ frames.head?, f.sp < sp → (classify rule source target sp frames bottom).enters = false ∧
        0 < (classify rule source target sp frames bottom).pops) := by
  obtain ⟨calls, promoted, returnAsJump, e⟩ | ⟨n, e⟩ := classify_cases rule source target sp frames bottom
  · rw [e] at h ⊢
    have hpromoted : promoted = true := h
    subst hpromoted
    refine ⟨rfl, fun hlevel => ?_, fun f hf hlt => ?_⟩
    · simp [ofJump, leftBehind_eq_zero.mpr hlevel]
    · have hpos : 0 < leftBehind sp 0 frames :=
        Nat.pos_of_ne_zero fun hzero => leftBehind_eq_zero.mp hzero f hf hlt
      simp [ofJump, Nat.ne_of_gt hpos, hpos]
  · rw [e, ofReturn] at h
    split at h <;> cases h

end Transfer

namespace Tracker

variable {config : Config} {t t' t₀ : Tracker} {u : ThreadId} {sp : Addr}

/-- The frame on top of a thread is below the stack pointer. -/
def Overshot (t : Tracker) (u : ThreadId) (sp : Addr) : Prop :=
  ∃ top, (t.state u).shadow.top? = some top ∧ top.sp < sp

instance (t : Tracker) (u : ThreadId) (sp : Addr) : Decidable (t.Overshot u sp) :=
  decidable_of_iff ((t.state u).shadow.top?.any (·.sp < sp) = true) (by simp [Overshot, Option.any_eq_true])

/-! ## One block -/

/-- What a block did whose transfer was counted as a call of some kind. -/
structure Reclassified (t t' : Tracker) (u : ThreadId) (sp : Addr) : Prop where
  emulated : t'.stats.emulatedCalls ≠ t.stats.emulatedCalls → ∃ level, Pushes t t' u level
  promoted : t'.stats.promotedCalls ≠ t.stats.promotedCalls → ¬t.Overshot u sp → ∃ level, Pushes t t' u level
  overshot : t'.stats.promotedCalls ≠ t.stats.promotedCalls → t.Overshot u sp → ∃ n, 0 < n ∧ Pops t t' u n

theorem Moves.reclassified {x : Transfer} (m : Moves t t' u x) (hemulated : x.emulated = true → x.enters = true)
    (hpromoted : x.promoted = true → ¬t.Overshot u sp → x.enters = true)
    (hovershot : x.promoted = true → t.Overshot u sp → x.enters = false ∧ 0 < x.pops) : Reclassified t t' u sp := by
  have hcounted : ∀ {b : Bool} {n n' : Nat}, n' = n + b.toNat → n' ≠ n → b = true := by
    rintro (_ | _) n n' rfl hne
    · exact absurd rfl hne
    · rfl
  refine ⟨fun h => ?_, fun h hlevel => ?_, fun h hlow => ?_⟩
  · exact ⟨_, m.pushes (hemulated (hcounted m.emulatedCalls h))⟩
  · exact ⟨_, m.pushes (hpromoted (hcounted m.promotedCalls h) hlevel)⟩
  · obtain ⟨hstays, hpos⟩ := hovershot (hcounted m.promotedCalls h) hlow
    exact ⟨_, hpos, m.pops hstays⟩

/-- The transfer into a block is known from the frames. -/
theorem enterBlock_classified (h : t.Inv) (hcontexts : t.contexts.Filed) {pos : Position} {id : BlockId}
    {a : AnchorId} (he : t.enterBlock pos id = .ok (a, t')) :
    ∃ source b, Moves t t' pos.thread (.classify t.config.tailCalls source b pos.sp
      (t.state pos.thread).shadow.frames (t.state pos.thread).bottom) := by
  obtain ⟨_, r, _, _, _, _, _, _, _, st, -⟩ := enterBlock_stages he
  obtain ⟨sc, hs⟩ := (h.state pos.thread).1.story
  have hb : t.blocks.block? id = some r.block := by
    have hr := st.block
    rw [(Stays.switchTo t pos.thread).2.2.1] at hr
    rw [BlockTable.block?, hr]
    rfl
  have hmoves := enterBlock_moves h hcontexts he hs hb
  rw [hs.transfer_eq] at hmoves
  exact ⟨_, _, hmoves⟩

theorem enterBlock_reclassified (h : t.Inv) (hcontexts : t.contexts.Filed) {pos : Position} {id : BlockId}
    {a : AnchorId} (he : t.enterBlock pos id = .ok (a, t')) : Reclassified t t' pos.thread pos.sp := by
  obtain ⟨source, b, m⟩ := enterBlock_classified h hcontexts he
  refine m.reclassified (fun hx => (Transfer.enters_of_emulated hx).1) (fun hx hlevel => ?_) fun hx hlow => ?_
  · exact (Transfer.of_promoted hx).2.1 fun f hf hlt => hlevel ⟨f, hf, hlt⟩
  · obtain ⟨top, htop, hlt⟩ := hlow
    exact (Transfer.of_promoted hx).2.2 top htop hlt

/-! ## Runs -/

/-- Whether an operation is a jump that is counted as a call and overshoots the frame on top. -/
def overshoots (t : Tracker) (op : Op) (t' : Tracker) : Bool :=
  match op with
  | .enterBlock pos _ => t'.stats.promotedCalls ≠ t.stats.promotedCalls && t.Overshot pos.thread pos.sp
  | _ => false

/-- How many operations of a run are. -/
def overshootsIn (t : Tracker) : List Op → Nat
  | [] => 0
  | op :: ops =>
    match t.step op with
    | .ok (_, t') => (t.overshoots op t').toNat + t'.overshootsIn ops
    | .error _ => 0

end Tracker

/-- All but `n` of the promoted and emulated calls are calls, and each of those `n` popped a frame. -/
structure Stats.Recounted (s : Stats) (n : Nat) : Prop where
  calls : s.promotedCalls + s.emulatedCalls ≤ s.calls + n
  returns : n ≤ s.returns

/-- Calls of all kinds stay as they are, and more frames may have been popped. -/
theorem Stats.Recounted.of_same {s s' : Stats} {n : Nat} (h : s.Recounted n) (hcalls : s'.calls = s.calls)
    (hpromoted : s'.promotedCalls = s.promotedCalls) (hemulated : s'.emulatedCalls = s.emulatedCalls)
    (hreturns : s.returns ≤ s'.returns) : s'.Recounted n := by
  refine ⟨?_, Nat.le_trans h.returns hreturns⟩
  rw [hcalls, hpromoted, hemulated]
  exact h.calls

namespace Tracker

variable {config : Config} {t t' t₀ : Tracker} {n : Nat}

theorem enterBlock_recounted (h : t.Inv) (hcontexts : t.contexts.Filed) (hn : t.stats.Recounted n) {pos : Position}
    {id : BlockId} {a : AnchorId} (he : t.enterBlock pos id = .ok (a, t')) :
    t'.stats.Recounted (n + (t.overshoots (.enterBlock pos id) t').toNat) := by
  obtain ⟨source, b, m⟩ := enterBlock_classified h hcontexts he
  generalize hx : Transfer.classify _ _ _ _ _ _ = x at m
  have hpromoted := m.promotedCalls
  have hemulated := m.emulatedCalls
  obtain ⟨hcalls, hreturns⟩ := hn
  cases hp : x.promoted with
  | false =>
    rw [hp, Bool.toNat_false] at hpromoted
    have hnone : t.overshoots (.enterBlock pos id) t' = false := by simp [overshoots, hpromoted]
    rw [hnone, Bool.toNat_false]
    cases hen : x.enters with
    | true =>
      obtain ⟨-, hcalls', hreturns'⟩ := m.pushes hen
      have hle := Bool.toNat_le x.emulated
      exact ⟨by omega, by omega⟩
    | false =>
      have hzero : x.emulated = false := by
        rw [Bool.eq_false_iff]
        intro hem
        rw [← hx] at hem hen
        rw [(Transfer.enters_of_emulated hem).1] at hen
        cases hen
      obtain ⟨-, -, hcalls', hreturns'⟩ := m.pops hen
      rw [hzero, Bool.toNat_false] at hemulated
      exact ⟨by omega, by omega⟩
  | true =>
    have hpromotes := hp
    rw [← hx] at hpromotes
    obtain ⟨hzero, hpushed, hpopped⟩ := Transfer.of_promoted hpromotes
    rw [hx] at hzero hpushed hpopped
    rw [hp, Bool.toNat_true] at hpromoted
    rw [hzero, Bool.toNat_false] at hemulated
    have hchanged : t'.stats.promotedCalls ≠ t.stats.promotedCalls := by omega
    -- A promoted jump pops if the stack pointer has passed the frame on top, and pushes otherwise.
    by_cases hlow : t.Overshot pos.thread pos.sp
    · have hone : t.overshoots (.enterBlock pos id) t' = true := by simp [overshoots, hchanged, hlow]
      obtain ⟨top, htop, hlt⟩ := hlow
      obtain ⟨hstays, hpos⟩ := hpopped top htop hlt
      obtain ⟨-, -, hcalls', hreturns'⟩ := m.pops hstays
      rw [hone, Bool.toNat_true]
      exact ⟨by omega, by omega⟩
    · have hnone : t.overshoots (.enterBlock pos id) t' = false := by simp [overshoots, hlow]
      obtain ⟨-, hcalls', hreturns'⟩ := m.pushes (hpushed fun f hf hlt => hlow ⟨f, hf, hlt⟩)
      rw [hnone, Bool.toNat_false]
      exact ⟨by omega, by omega⟩

theorem discardBlock_recounted (hn : t.stats.Recounted n) (id : BlockId) :
    (t.discardBlock id).2.stats.Recounted n := by
  cases hr : t.blocks.get? id with
  | none =>
    rw [discardBlock_dead hr]
    exact hn
  | some r =>
    obtain ⟨A, B, L, heq, -⟩ := discardBlock_live hr
    rw [heq]
    exact hn.of_same rfl rfl rfl (Nat.le_refl _)

theorem step_recounted (h : t.Inv) (hcontexts : t.contexts.Filed) (hn : t.stats.Recounted n) {op : Op} {reply : Reply}
    (hs : t.step op = .ok (reply, t')) : t'.stats.Recounted (n + (t.overshoots op t').toNat) := by
  cases step_effect hs with
  | registerFunction | setFunctionSkip | registerBlock | setExitsPassed => exact hn
  | enterBlock henter => exact enterBlock_recounted h hcontexts hn henter
  | @enterHandler u signal _ henter =>
    obtain ⟨s, rfl⟩ := enterHandler_eq henter
    have hstats := stats_switchTo t u
    refine hn.of_same ?_ ?_ ?_ (Nat.le_of_eq ?_)
    all_goals
      show _ = _
      rw [hstats]
  | exitHandler hexit =>
    obtain ⟨k, hstats, -⟩ := (exitHandler_unwinds h hexit).returns
    rw [stats_switchTo] at hstats
    exact hn.of_same (by rw [hstats]) (by rw [hstats]) (by rw [hstats]) (by rw [hstats]; exact Nat.le_add_right _ _)
  | discardBlock id => exact discardBlock_recounted hn id
  | finish hfinish =>
    obtain ⟨-, hstats⟩ := finish_eq h hfinish
    exact hn.of_same (by rw [hstats]) (by rw [hstats]) (by rw [hstats]) (by rw [hstats]; exact Nat.le_add_right _ _)

theorem run_recounted (ops : List Op) (hreach : Reach config t) (hn : t.stats.Recounted n) (hr : t.run ops = .ok t') :
    t'.stats.Recounted (n + t.overshootsIn ops) := by
  induction ops generalizing t n with
  | nil =>
    cases hr
    exact hn
  | cons op ops ih =>
    rw [run_cons] at hr
    cases hs : t.step op with
    | error e =>
      rw [hs] at hr
      cases hr
    | ok p =>
      obtain ⟨reply, t₁⟩ := p
      rw [hs] at hr
      have hn₁ := step_recounted (reach_inv hreach).1 (reach_inOrder hreach).contexts hn hs
      rw [overshootsIn, hs, ← Nat.add_assoc]
      exact ih (.step hreach hs) hn₁ hr

theorem ofConfig_recounted (h : ofConfig config = .ok t) : t.stats.Recounted 0 := by
  obtain ⟨-, C, -, A, -, rfl⟩ := ofConfig_eq_ok.mp h
  exact ⟨Nat.le_refl 0, Nat.le_refl 0⟩

/-- After any run, a block that is counted as an emulated call pushes a frame, and so does one that is counted as
a promoted one unless it overshoots the frame on top. So up to the jumps that did, all of them are calls. -/
theorem reclassified_are_calls {ops : List Op} (h₀ : ofConfig config = .ok t₀) (hr : t₀.run ops = .ok t) :
    (∀ pos id, t.blocks.contains id = true →
      ∃ a t', t.step (.enterBlock pos id) = .ok (.billed a, t') ∧ Reclassified t t' pos.thread pos.sp) ∧
    t.stats.Recounted (t₀.overshootsIn ops) := by
  have hreach : Reach config t := (Reach.init h₀).run hr
  obtain ⟨h, -⟩ := reach_inv hreach
  refine ⟨fun pos id hlive => ?_, ?_⟩
  · obtain ⟨r, hlive⟩ := Option.isSome_iff_exists.mp hlive
    obtain ⟨a, t', he, -⟩ := enterBlock_ok h pos hlive
    exact ⟨a, t', by simp only [step, he, ok_bind, pure_eq_ok],
      enterBlock_reclassified h (reach_inOrder hreach).contexts he⟩
  · have hn := run_recounted ops (.init h₀) (ofConfig_recounted h₀) hr
    rw [Nat.zero_add] at hn
    exact hn

/-- `main` jumps to `puts` in another object, which jumps back to where `main` started. -/
def overshootRun : List Op :=
  [.registerFunction "main" ⟨0⟩, .registerFunction "puts" ⟨1⟩,
    .registerBlock { callBlock 100 ⟨0⟩ with finalExit := { kind := .jump } },
    .registerBlock { callBlock 200 ⟨1⟩ with object := ⟨1⟩, finalExit := { kind := .jump } },
    .enterBlock { thread := ⟨1⟩, sp := ⟨1000⟩ } ⟨0⟩, .enterBlock { thread := ⟨1⟩, sp := ⟨1000⟩ } ⟨1⟩]

theorem reclassified_are_calls_overshootRun :
    ∃ t₀ t, ofConfig fewBuckets = .ok t₀ ∧
      t₀.run (overshootRun ++ [.enterBlock { thread := ⟨1⟩, sp := ⟨1010⟩ } ⟨0⟩]) = .ok t ∧
      t.stats.promotedCalls = 2 ∧ t.stats.emulatedCalls = 0 ∧ t.stats.calls = 1 ∧ t.stats.Recounted 1 ∧
      ∃ a t', t.step (.enterBlock { thread := ⟨1⟩, sp := ⟨1010⟩ } ⟨1⟩) = .ok (.billed a, t') ∧
        ∃ level, Pushes t t' ⟨1⟩ level := by
  have hrun : (runFrom fewBuckets (overshootRun ++ [.enterBlock { thread := ⟨1⟩, sp := ⟨1010⟩ } ⟨0⟩])).map (fun t =>
      ([t.stats.promotedCalls, t.stats.emulatedCalls, t.stats.calls], t.blocks.contains ⟨1⟩,
        decide (t.Overshot ⟨1⟩ ⟨1010⟩),
        (t.step (.enterBlock { thread := ⟨1⟩, sp := ⟨1010⟩ } ⟨1⟩)).toOption.map (·.2.stats.promotedCalls))) =
      .ok ([2, 0, 1], true, false, some 3) := by decide +kernel
  have hcount : (ofConfig fewBuckets).map (·.overshootsIn (overshootRun ++
      [.enterBlock { thread := ⟨1⟩, sp := ⟨1010⟩ } ⟨0⟩])) = .ok 1 := by decide +kernel
  obtain ⟨t, hr, h⟩ := runFrom_of_map hrun
  simp only [Prod.mk.injEq, List.cons.injEq, decide_eq_false_iff_not] at h
  obtain ⟨⟨hpromoted, hemulated, hcalls, -⟩, hlive, hlevel, hthird⟩ := h
  obtain ⟨t₀, h₀, hr⟩ := runFrom_eq_ok hr
  rw [h₀] at hcount
  have hcount : t₀.overshootsIn _ = 1 := Except.ok.inj hcount
  obtain ⟨hblocks, hrecounted⟩ := reclassified_are_calls h₀ hr
  rw [hcount] at hrecounted
  obtain ⟨a, t', hstep, hreclassified⟩ := hblocks { thread := ⟨1⟩, sp := ⟨1010⟩ } ⟨1⟩ hlive
  rw [hstep] at hthird
  have hthird : t'.stats.promotedCalls = 3 := Option.some.inj hthird
  exact ⟨t₀, t, h₀, hr, hpromoted, hemulated, hcalls, hrecounted, a, t', hstep,
    hreclassified.promoted (by rw [hthird, hpromoted]; decide) hlevel⟩

/-- The second jump is counted as a call too. It pops the frame of the first one and pushes none, so there are more
promoted calls than calls. -/
theorem jump_counted_as_call :
    ∃ t a t', Reach fewBuckets t ∧ t.step (.enterBlock { thread := ⟨1⟩, sp := ⟨1010⟩ } ⟨0⟩) = .ok (.billed a, t') ∧
      t'.stats.promotedCalls = t.stats.promotedCalls + 1 ∧ t'.stats.calls = t.stats.calls ∧
      (t.state ⟨1⟩).shadow.depth = 1 ∧ (t'.state ⟨1⟩).shadow.depth = 0 ∧
      t'.stats.calls < t'.stats.promotedCalls + t'.stats.emulatedCalls := by
  have hrun : (runFrom fewBuckets overshootRun).map (fun t =>
      ([t.stats.promotedCalls, t.stats.calls, (t.state ⟨1⟩).shadow.depth],
        (t.enterBlock { thread := ⟨1⟩, sp := ⟨1010⟩ } ⟨0⟩).toOption.map fun p =>
          [p.2.stats.promotedCalls, p.2.stats.calls, p.2.stats.emulatedCalls, (p.2.state ⟨1⟩).shadow.depth])) =
      .ok ([1, 1, 1], some [2, 1, 0, 0]) := by decide +kernel
  obtain ⟨t, hr, h⟩ := runFrom_of_map hrun
  obtain ⟨hbefore, hafter⟩ := Prod.mk.inj h
  obtain ⟨⟨a, t'⟩, henter, hafter⟩ := Option.map_eq_some_iff.mp hafter
  simp only [List.cons.injEq, and_true] at hbefore hafter
  obtain ⟨hpromoted, hcalls, hdepth⟩ := hbefore
  obtain ⟨hpromoted', hcalls', hemulated', hdepth'⟩ := hafter
  refine ⟨t, a, t', reach_runFrom hr, ?_, by omega, by omega, hdepth, hdepth', by omega⟩
  simp only [step, toOption_eq_some.mp henter, ok_bind, pure_eq_ok]

end Tracker
end CallGraph
