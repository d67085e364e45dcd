/-
  CallGraph.Proofs.Counting — what an operation adds to the totals.

  The totals of a tracker are the counts that do not depend on the numbers of contexts and anchors:
  calls, entries of functions, kinds of transfers and signals. A block adds to them what its transfer is
  and whether its function became active (`Entered.totals`, `enterBlock_entries`); whether a function is
  active is told by the function stacks alone (`activeCount_congr`).
-/

import CallGraph.Proofs.Upkeep

namespace CallGraph

/-! ## Activity -/

namespace Tracker

variable {t t' : Tracker} {u : ThreadId}

/-- Where all function stacks are the same, the same functions are active. -/
theorem activeCount_congr (h : t.Inv) (h' : t'.Inv) (hslots : ∀ u, (t'.state u).fns.slots = (t.state u).fns.slots)
    (fn : FnId) : t'.functions.activeCount fn = t.functions.activeCount fn := by
  have hall : ∀ {t : Tracker}, t.Inv →
      t.functions.activeCount fn = t.threads.all.weigh fun s => s.fns.slots.count (some fn) :=
    fun {t} h => by
      rw [h.balance, Registry.all, SortedMap.weigh_insert h.apart]
      rfl
  have hstate : ∀ (t : Tracker) (k : Nat),
      ((t.threads.all.get? k).map fun s => s.fns.slots.count (some fn)).getD 0 =
        (t.state ⟨k⟩).fns.slots.count (some fn) := by
    intro t k
    rw [Registry.get?_all t.threads ⟨k⟩, state]
    cases t.threads.get? ⟨k⟩ <;> rfl
  rw [hall h, hall h']
  refine SortedMap.weigh_congr fun k => ?_
  rw [hstate, hstate, hslots]

end Tracker

/-! ## Entries -/

namespace Story

variable {κ ι α : Type}

/-- Below a call some block ran. -/
theorem started_popCall {s : Story κ ι α} (h : s.WellFormed) (hd : 0 < s.depth) (last : Option α) (passed : Nat) :
    (s.popCall last passed).story.started = true := by
  induction s generalizing last passed with
  | fresh => cases hd
  | first _ _ _ ih | handler _ _ _ _ ih => exact ih h.2 hd _ _
  | call => exact h.1

end Story

theorem Scene.started_popCalls {κ ι α : Type} (n : Nat) {sc : Scene κ ι α} (h : sc.story.WellFormed)
    (hn : n + 1 ≤ sc.story.depth) : (sc.popCalls (n + 1)).story.started = true := by
  induction n generalizing sc with
  | zero => exact Story.started_popCall h hn _ _
  | succ n ih =>
    rw [popCalls]
    refine ih (Story.popCall_wellFormed h _ _) ?_
    rw [popCall, Story.depth_popCall]
    omega

namespace Tracker

variable {t t' : Tracker} {pos : Position} {id : BlockId} {source : Option Departure} {r : Resident} {x : Transfer}
  {skip : Bool} {c : ContextId} {a : AnchorId} {t₁ t₂ t₃ t₄ : Tracker}

/-- What links a block to the one before enters its function at most. -/
theorem Stages.link_enters (st : Stages t pos id source r x skip c a t₁ t₂ t₃ t₄) (h : t.Inv)
    {sc : Scene ContextId Kept AnchorId} (hs : t.thread.Tells sc) (hx : x.enters = true) :
    Enters r.block.fn t.functions t₄.functions t.ledger t₄.ledger := by
  obtain ⟨ht₁, d, A, s, n, arc, F, L, -, hset, rfl, -, ⟨c₀, hctx, -⟩, -, harc⟩ := st.pushes h hs hx
  have hcallee : ∀ arc', Interns t₁ t₂ r.block.fn → Opens { t₃ with anchors := A } s n a arc' F L →
      arc'.callee = r.block.fn := fun _ i o => st.callee_eq h ht₁ i hset o
  obtain ⟨A₃, B, S, rfl, -⟩ := st.bill h
  obtain ⟨-, -, hprepare⟩ := prepare_eq st.prepared
  have hctx₁ : t₁.thread.exec.context = some c₀ := by
    rw [ht₁]
    exact hctx
  rw [hx, hctx₁, Bool.true_and, Option.isNone_some, Bool.or_false] at hprepare
  subst ht₁
  cases skip with
  | true =>
    rw [Bool.not_true, if_neg Bool.false_ne_true] at hprepare
    subst hprepare
    obtain ⟨-, rfl, rfl⟩ := harc
    exact .of_same rfl rfl
  | false =>
    rw [Bool.not_false, if_pos rfl] at hprepare
    obtain ⟨arc, -, hopens⟩ := harc
    have henters := hopens.enters
    rw [hcallee arc hprepare hopens] at henters
    exact hprepare.enters.trans henters

/-- Where no function is entered, what was left is not active more often, and where nothing ran yet the first
function is entered. -/
theorem Stages.stays_enters (st : Stages t pos id source r x skip c a t₁ t₂ t₃ t₄) (h : t.Inv)
    {sc : Scene ContextId Kept AnchorId} (hs : t.thread.Tells sc) (hx : x.enters = false) :
    Enters r.block.fn t.functions t₄.functions t.ledger t₄.ledger ∨
      t₄.functions.activeCount r.block.fn ≤ t.functions.activeCount r.block.fn ∧ t₄.ledger.entries = t.ledger.entries := by
  obtain ⟨hs₁, u⟩ := st.left hs
  obtain ⟨A, B, S, rfl, -⟩ := st.bill h
  obtain ⟨A', rfl, -⟩ := link_stays st.linked hx
  obtain ⟨-, -, hprepare⟩ := prepare_eq st.prepared
  rw [hx, Bool.false_and, Bool.false_or] at hprepare
  split at hprepare
  · rename_i hnone
    -- Nothing was left: below a call some block ran, so that there is a context.
    have hzero : x.pops = 0 := by
      by_contra hne
      obtain ⟨n, hn⟩ := Nat.exists_eq_succ_of_ne_zero hne
      have hle : x.pops ≤ sc.story.depth := by
        rw [← Story.length_frames, ← hs.frames, ← st.transfer]
        exact Transfer.pops_le
      have hstarted := Scene.started_popCalls n hs.wellFormed (by omega)
      rw [← Option.not_isSome, hs₁.isSome_context, hn, hstarted] at hnone
      cases hnone
    have hpops := st.pops
    rw [hzero] at hpops
    cases hpops
    exact .inl hprepare.enters
  · subst hprepare
    exact .inr ⟨u.activity _, u.entries⟩

/-- An entry is counted exactly if the block's function became active. -/
theorem enterBlock_entries (h : t.Inv) (he : t.enterBlock pos id = .ok (a, t')) {b : Block}
    (hb : t.blocks.block? id = some b) :
    t'.ledger.entries = t.ledger.entries + (wakes b.fn t.functions t'.functions).toNat := by
  obtain ⟨source, r, x, skip, c, t₁, t₂, t₃, t₄, st, rfl⟩ := enterBlock_stages he
  obtain ⟨-, hfunctions, hblocks, -, -, hledger⟩ := Stays.switchTo t pos.thread
  have h₀ := h.switchTo pos.thread
  obtain ⟨sc, hs⟩ := h₀.active.story
  have hr : r.block = b := by
    have hr := st.block
    rw [hblocks] at hr
    rw [BlockTable.block?, hr] at hb
    exact Option.some.inj hb
  have hboth : Enters b.fn t.functions t₄.functions t.ledger t₄.ledger ∨
      t₄.functions.activeCount b.fn ≤ t.functions.activeCount b.fn ∧ t₄.ledger.entries = t.ledger.entries := by
    rw [← hr, ← hfunctions, ← hledger]
    cases hx : x.enters with
    | true => exact .inl (st.link_enters h₀ hs hx)
    | false => exact st.stays_enters h₀ hs hx
  show t₄.ledger.entries = _ + (wakes b.fn t.functions t₄.functions).toNat
  obtain henters | ⟨hle, hentries⟩ := hboth
  · exact henters.entries
  · rw [hentries, wakes_of_le hle]
    rfl

end Tracker

/-! ## Totals -/

/-- What was counted, whatever numbers were given out. -/
structure Totals where
  /-- The calls over arcs. -/
  calls : Nat
  /-- How often a function became active. -/
  entries : Nat
  /-- The frames pushed. -/
  frames : Nat
  promotedCalls : Nat
  returnsAsJumps : Nat
  emulatedCalls : Nat
  signals : Nat

/-- With one block more, reached by a transfer; the block's function may have become active. -/
def Totals.block (n : Totals) (x : Transfer) (skip becameActive : Bool) : Totals where
  calls := n.calls + (x.enters && !skip).toNat
  entries := n.entries + becameActive.toNat
  frames := n.frames + x.enters.toNat
  promotedCalls := n.promotedCalls + x.promoted.toNat
  returnsAsJumps := n.returnsAsJumps + x.returnAsJump.toNat
  emulatedCalls := n.emulatedCalls + x.emulated.toNat
  signals := n.signals

def Totals.signal (n : Totals) : Totals := { n with signals := n.signals + 1 }

namespace Tracker

variable {t t' : Tracker} {u : ThreadId}

def totals (t : Tracker) : Totals where
  calls := t.ledger.totalCalls
  entries := t.ledger.entries
  frames := t.stats.calls
  promotedCalls := t.stats.promotedCalls
  returnsAsJumps := t.stats.returnsAsJumps
  emulatedCalls := t.stats.emulatedCalls
  signals := t.stats.signals

theorem totals_switchTo (t : Tracker) (u : ThreadId) : (t.switchTo u).totals = t.totals := by
  unfold switchTo
  split <;> rfl

/-- Leaving calls and handlers only counts returns. -/
theorem Unwinds.totals (w : Unwinds t t') : t'.totals = t.totals := by
  obtain ⟨n, hstats, -⟩ := w.returns
  simp only [Tracker.totals, hstats, w.entries, Ledger.totalCalls, w.ledger.calls]

/-- A call over an arc is counted, and opens at most one arc. -/
theorem Entered.calls {key : AnchorKey} {sc : Scene ContextId Kept AnchorId} {x : Transfer} {skip : Bool}
    {a : AnchorId} (e : Entered t key sc x skip a t') (hnumbered : t.ledger.Numbered) :
    t'.ledger.totalCalls = t.ledger.totalCalls + (x.enters && !skip).toNat ∧
      t'.ledger.arcCount ≤ t.ledger.arcCount + (x.enters && !skip).toNat := by
  have hledger := e.ledger
  split at hledger
  · rename_i hcall
    obtain ⟨s, n, -, hsame⟩ := hledger
    have hcalls := (Ledger.call_calls hnumbered _).same hsame
    rw [hcall]
    refine ⟨hcalls.totalCalls, ?_⟩
    rw [hcalls.arcCount]
    split
    · exact Nat.le_succ _
    · exact Nat.le_refl _
  · rename_i hcall
    rw [Bool.eq_false_iff.mpr hcall, Ledger.totalCalls, Ledger.arcCount, hledger.calls]
    exact ⟨rfl, Nat.le_refl _⟩

theorem Entered.totals {key : AnchorKey} {sc : Scene ContextId Kept AnchorId} {x : Transfer} {skip : Bool}
    {a : AnchorId} (e : Entered t key sc x skip a t') (hnumbered : t.ledger.Numbered) {becameActive : Bool}
    (hentries : t'.ledger.entries = t.ledger.entries + becameActive.toNat) :
    t'.totals = t.totals.block x skip becameActive := by
  obtain ⟨hcalls, -⟩ := e.calls hnumbered
  have hstats := e.stats
  simp only [Tracker.totals, Totals.block, hcalls, hentries, hstats.calls, hstats.promotedCalls, hstats.returnsAsJumps,
    hstats.emulatedCalls, hstats.signals]

theorem enterHandler_totals {signal : Int} (he : t.enterHandler u signal = .ok t') : t'.totals = t.totals.signal := by
  obtain ⟨s, rfl⟩ := enterHandler_eq he
  show Totals.signal (t.switchTo u).totals = _
  rw [totals_switchTo]

theorem exitHandler_totals (h : t.Inv) {signal : Int} (he : t.exitHandler u signal = .ok t') : t'.totals = t.totals := by
  obtain ⟨sc, hs⟩ := (h.state u).1.story
  rw [(exitHandler_tells he hs).2.1.totals, totals_switchTo]

theorem discardBlock_totals (t : Tracker) (id : BlockId) : (t.discardBlock id).2.totals = t.totals := by
  cases hr : t.blocks.get? id with
  | none => rw [discardBlock_dead hr]
  | some r =>
    obtain ⟨A, B, L, heq, -, hdrops⟩ := discardBlock_live hr
    rw [heq]
    simp only [totals, Ledger.totalCalls, hdrops.calls, hdrops.entries]

end Tracker
end CallGraph
