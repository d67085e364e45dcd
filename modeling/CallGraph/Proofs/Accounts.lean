/-
  CallGraph.Proofs.Accounts — what running a block adds to tables, ledger and counts.

  A block adds at most one context, for a chain that had none, and at most one anchor, for a key that had
  none. Its anchor becomes the hint of the last one. A call that is not rolled up is counted over the arc
  between the anchors that the story names, and the counts of what happened follow the kind of the
  transfer (`enterBlock_entered`). Every frame that is pushed is a call and every frame that is left a
  return, so calls and returns differ by the frames that are there (`Balanced`).
-/

import CallGraph.Proofs.Buckets
import CallGraph.Proofs.Finishing
import CallGraph.Proofs.Telling

namespace CallGraph

/-! ## The ledger -/

namespace Ledger

variable {l l' : Ledger} {arc : Arc}

/-- Every open arc has a count. -/
def Numbered (l : Ledger) : Prop := ∀ p ∈ l.arcs, p.2.num < l.calls.size

theorem empty_numbered : empty.Numbered := fun p hp => by cases hp

theorem SameCalls.refl (l : Ledger) : l.SameCalls l := ⟨rfl, rfl⟩

theorem SameCalls.trans {l'' : Ledger} (s : l.SameCalls l') (s' : l'.SameCalls l'') : l.SameCalls l'' :=
  ⟨s'.arcs.trans s.arcs, s'.calls.trans s.calls⟩

theorem SameCalls.numbered (s : l.SameCalls l') (h : l.Numbered) : l'.Numbered := by
  rw [Numbered, s.arcs, s.calls]
  exact h

/-- What a call does to arcs and their counts depends on these alone. -/
theorem SameCalls.call (s : l.SameCalls l') (arc : Arc) : (l.call arc).2.SameCalls (l'.call arc).2 := by
  have hfind : l'.find? arc = l.find? arc := by rw [find?, find?, s.arcs]
  unfold Ledger.call
  rw [hfind]
  cases l.find? arc with
  | none => exact ⟨by simp only [report, s.arcs, s.calls], by simp only [report, s.calls]⟩
  | some id => exact ⟨s.arcs, by simp only [report, s.calls]⟩

theorem find?_eq_none : l.find? arc = none ↔ arc ∉ l.arcs.map Prod.fst := by
  rw [find?, Option.map_eq_none_iff, List.find?_eq_none]
  constructor
  · intro h hmem
    obtain ⟨p, hp, harc⟩ := List.mem_map.mp hmem
    exact h p hp (decide_eq_true harc)
  · intro h p hp harc
    exact h (List.mem_map.mpr ⟨p, hp, of_decide_eq_true harc⟩)

theorem mem_of_find? {id : ArcId} (h : l.find? arc = some id) : (arc, id) ∈ l.arcs := by
  obtain ⟨p, hp, rfl⟩ := Option.map_eq_some_iff.mp h
  have harc := List.find?_some hp
  rw [decide_eq_true_eq] at harc
  rw [← harc]
  exact List.mem_of_find?_eq_some hp

theorem totalCalls_eq (l : Ledger) : l.totalCalls = l.calls.toList.foldl (· + ·) 0 := (Array.foldl_toList ..).symm

theorem foldl_add_succ (l : List Nat) (k : Nat) : l.foldl (· + ·) (k + 1) = l.foldl (· + ·) k + 1 := by
  induction l generalizing k with
  | nil => rfl
  | cons n l ih => rw [List.foldl_cons, List.foldl_cons, Nat.add_right_comm, ih]

theorem foldl_modify_succ {l : List Nat} {i : Nat} (h : i < l.length) (k : Nat) :
    (l.modify i (· + 1)).foldl (· + ·) k = l.foldl (· + ·) k + 1 := by
  induction l generalizing i k with
  | nil => cases h
  | cons n l ih =>
    cases i with
    | zero => exact foldl_add_succ l (k + n)
    | succ i => exact ih (Nat.lt_of_succ_lt_succ h) (k + n)

/-- A call was counted over an arc, which was opened if it was not open. -/
structure Calls (l l' : Ledger) (arc : Arc) : Prop where
  numbered : l'.Numbered
  totalCalls : l'.totalCalls = l.totalCalls + 1
  arcs : ∀ arc', arc' ∈ l'.arcs.map Prod.fst ↔ arc' = arc ∨ arc' ∈ l.arcs.map Prod.fst
  arcCount : l'.arcCount = if arc ∈ l.arcs.map Prod.fst then l.arcCount else l.arcCount + 1

theorem call_calls (h : l.Numbered) (arc : Arc) : l.Calls (l.call arc).2 arc := by
  unfold Ledger.call
  cases hfind : l.find? arc with
  | some id =>
    have hmem := mem_of_find? hfind
    have harc : arc ∈ l.arcs.map Prod.fst := List.mem_map.mpr ⟨_, hmem, rfl⟩
    -- A known arc is counted up under the number that it has.
    refine ⟨fun p hp => ?_, ?_, fun arc' => ⟨.inr, ?_⟩, ?_⟩
    · show p.2.num < (l.calls.modify id.num (· + 1)).size
      rw [Array.size_modify]
      exact h p hp
    · rw [totalCalls_eq, totalCalls_eq]
      show (l.calls.modify id.num (· + 1)).toList.foldl (· + ·) 0 = _
      rw [Array.toList_modify]
      exact foldl_modify_succ (h _ hmem) 0
    · rintro (rfl | h')
      · exact harc
      · exact h'
    · rw [if_pos harc]
      exact Array.size_modify
  | none =>
    -- A new arc gets the next number, and a count of one.
    refine ⟨fun p hp => ?_, ?_, fun arc' => ?_, ?_⟩
    · show p.2.num < (l.calls.push 1).size
      rw [Array.size_push]
      obtain rfl | hp := List.mem_cons.mp hp
      · exact Nat.lt_succ_self _
      · exact Nat.lt_succ_of_lt (h p hp)
    · rw [totalCalls_eq, totalCalls_eq]
      show (l.calls.push 1).toList.foldl (· + ·) 0 = _
      rw [Array.toList_push, List.foldl_append]
      rfl
    · exact List.mem_cons
    · rw [if_neg (find?_eq_none.mp hfind)]
      exact Array.size_push _

theorem Calls.same {l'' : Ledger} (h : l.Calls l' arc) (s : l'.SameCalls l'') : l.Calls l'' arc := by
  refine ⟨s.numbered h.numbered, ?_, ?_, ?_⟩
  · rw [Ledger.totalCalls, s.calls]
    exact h.totalCalls
  · rw [s.arcs]
    exact h.arcs
  · rw [Ledger.arcCount, s.calls]
    exact h.arcCount

end Ledger

/-! ## The counts -/

/-- A transfer into a block was counted, and whether its anchor was found through the last one. -/
structure Stats.Counts (s s' : Stats) (x : Transfer) (hit : Bool) : Prop where
  blocksExecuted : s'.blocksExecuted = s.blocksExecuted + 1
  calls : s'.calls = s.calls + x.enters.toNat
  promotedCalls : s'.promotedCalls = s.promotedCalls + x.promoted.toNat
  returnsAsJumps : s'.returnsAsJumps = s.returnsAsJumps + x.returnAsJump.toNat
  emulatedCalls : s'.emulatedCalls = s.emulatedCalls + x.emulated.toNat
  lruHits : s'.lruHits = s.lruHits + hit.toNat
  signals : s'.signals = s.signals
  discardedBlocks : s'.discardedBlocks = s.discardedBlocks
  discardedAnchors : s'.discardedAnchors = s.discardedAnchors

namespace Tracker

variable {t t' : Tracker}

/-- Every call returned or has a frame. -/
def Balanced (t : Tracker) : Prop := t.stats.calls = t.stats.returns + t.threads.depths

theorem depths_of_parked (hp : t'.threads.parked = t.threads.parked) {n : Nat}
    (hd : t'.thread.shadow.depth = t.thread.shadow.depth + n) : t'.threads.depths = t.threads.depths + n := by
  have hd : t'.threads.active.shadow.depth = t.threads.active.shadow.depth + n := hd
  simp only [Registry.depths, Registry.weigh, hp, hd]
  omega

theorem Unwinds.balanced (u : Unwinds t t') (h : t.Balanced) : t'.Balanced := by
  obtain ⟨n, hstats, hdepths⟩ := u.depths
  rw [Balanced] at h ⊢
  rw [hstats]
  show t.stats.calls = t.stats.returns + n + t'.threads.depths
  omega

theorem depths_switchTo (h : t.Inv) (u : ThreadId) : (t.switchTo u).threads.depths = t.threads.depths := by
  unfold switchTo
  split
  · rfl
  · exact Registry.weigh_switchTo h.apart rfl u

theorem stats_switchTo (t : Tracker) (u : ThreadId) :
    (t.switchTo u).stats = { t.stats with threadSwitches := (t.switchTo u).stats.threadSwitches } := by
  unfold switchTo
  split <;> rfl

theorem Balanced.switchTo (hb : t.Balanced) (h : t.Inv) (u : ThreadId) : (t.switchTo u).Balanced := by
  rw [Balanced, depths_switchTo h, stats_switchTo]
  exact hb

/-! ## Running a block -/

/-- What running a block added, where `sc` tells of its thread before, `x` is the transfer into the block, and
`c` and `a` are the context and the anchor that it got. -/
structure Entered (t : Tracker) (key : AnchorKey) (sc : Scene ContextId Kept AnchorId) (x : Transfer) (skip : Bool)
    (a : AnchorId) (t' : Tracker) : Prop where
  contexts : t'.contexts.Filed ∧ (t'.contexts = t.contexts ∨ t.contexts.Adds t'.contexts key.context)
  anchors : ∃ A, (t.anchors.holds a key = true ∧ A = t.anchors ∨ t.anchors.spawn key = .ok (a, A)) ∧
    (sc.last = none ∧ t'.anchors = A ∨ ∃ l, sc.last = some l ∧ A.setNext l a = .ok t'.anchors)
  ledger : if (x.enters && !skip) = true then ∃ s n, sc.callSource t.blockOf = some (s, n) ∧
      (t.ledger.call { source := s, exit := n, target := a }).2.SameCalls t'.ledger
    else t.ledger.SameCalls t'.ledger
  stats : t.stats.Counts t'.stats x (followed t.anchors sc.last key)
  balance : t'.stats.returns + t'.threads.depths = t.stats.returns + t.threads.depths + x.enters.toNat

theorem Entered.balanced {key : AnchorKey} {sc : Scene ContextId Kept AnchorId} {x : Transfer} {skip : Bool}
    {a : AnchorId} (e : Entered t key sc x skip a t') (h : t.Balanced) : t'.Balanced := by
  rw [Balanced] at h ⊢
  rw [e.stats.calls, e.balance, h]

section
variable {key : AnchorKey} {sc : Scene ContextId Kept AnchorId} {x : Transfer} {skip : Bool} {a : AnchorId}

theorem Entered.setExitsPassed (e : Entered t key sc x skip a t') (n : Nat) :
    Entered t key sc x skip a (t'.setExitsPassed n) :=
  ⟨e.contexts, e.anchors, e.ledger, e.stats, e.balance⟩

/-- An anchor that is live then was live before with the same key, or is the new one. The hint of the last
anchor is the anchor of the block, and other hints are what they were. -/
theorem Entered.of_live (e : Entered t key sc x skip a t') (hslots : t.anchors.arena.Sound) {b : AnchorId} {y : Anchor}
    (hy : t'.anchors.get? b = some y) :
    ((∃ y₀, t.anchors.get? b = some y₀ ∧ y₀.key = y.key ∧ (sc.last ≠ some b → y.next = y₀.next)) ∨
      b = a ∧ y.key = key ∧ t.anchors.get? b = none ∧ (sc.last ≠ some b → y.next = none)) ∧
      (sc.last = some b → y.next = some a) := by
  obtain ⟨A, hfound, hnext⟩ := e.anchors
  -- Before any hint is written: what is live was there, or is the new anchor.
  have hA : ∀ z, A.get? b = some z → (∃ y₀, t.anchors.get? b = some y₀ ∧ y₀.key = z.key ∧ z.next = y₀.next) ∨
      b = a ∧ z.key = key ∧ t.anchors.get? b = none ∧ z.next = none := by
    intro z hz
    obtain ⟨-, rfl⟩ | hspawn := hfound
    · exact .inl ⟨z, hz, rfl, rfl⟩
    · obtain ⟨-, hnew, -, hget⟩ := Directory.spawn_eq hslots hspawn
      rcases write_cases hget hz with ⟨e, rfl⟩ | ⟨-, hz⟩
      · exact .inr ⟨e, rfl, by rw [e]; exact hnew, rfl⟩
      · exact .inl ⟨z, hz, rfl, rfl⟩
  obtain ⟨hlast, hsame⟩ | ⟨l, hlast, hset⟩ := hnext
  · rw [hsame] at hy
    rw [hlast]
    refine ⟨?_, fun h => by cases h⟩
    obtain ⟨y₀, hy₀, hk, hn⟩ | ⟨hb, hk, hnone, hn⟩ := hA y hy
    · exact .inl ⟨y₀, hy₀, hk, fun _ => hn⟩
    · exact .inr ⟨hb, hk, hnone, fun _ => hn⟩
  · obtain ⟨z, hz, hget⟩ := Directory.setNext_eq hset
    rw [hlast]
    -- Only the last anchor gets a hint.
    rcases write_cases hget hy with ⟨rfl, rfl⟩ | ⟨hl, hy⟩
    · refine ⟨?_, fun _ => rfl⟩
      obtain ⟨y₀, hy₀, hk, -⟩ | ⟨hb, hk, hnone, -⟩ := hA z hz
      · exact .inl ⟨y₀, hy₀, hk, fun h => absurd rfl h⟩
      · exact .inr ⟨hb, hk, hnone, fun h => absurd rfl h⟩
    · refine ⟨?_, fun h => absurd (Option.some.inj h).symm hl⟩
      obtain ⟨y₀, hy₀, hk, hn⟩ | ⟨hb, hk, hnone, hn⟩ := hA y hy
      · exact .inl ⟨y₀, hy₀, hk, fun _ => hn⟩
      · exact .inr ⟨hb, hk, hnone, fun _ => hn⟩

/-- The anchor was there, or there was none for the key and one was made. -/
theorem Entered.anchors_filed (e : Entered t key sc x skip a t') (hslots : t.anchors.arena.Sound)
    (h : t.anchors.Filed) :
    t'.anchors.Filed ∧ (t.anchors.holds a key = true ∧ t'.anchors.size = t.anchors.size ∨
      (∀ b y, t.anchors.get? b = some y → y.key ≠ key) ∧ t'.anchors.size = t.anchors.size + 1) := by
  obtain ⟨A, hfound, hnext⟩ := e.anchors
  obtain ⟨hA, hsize⟩ : A.Filed ∧ (t.anchors.holds a key = true ∧ A.size = t.anchors.size ∨
      (∀ b y, t.anchors.get? b = some y → y.key ≠ key) ∧ A.size = t.anchors.size + 1) := by
    obtain ⟨hholds, rfl⟩ | hspawn := hfound
    · exact ⟨h, .inl ⟨hholds, rfl⟩⟩
    · obtain ⟨hA, hsize, hnew⟩ := h.spawn hslots hspawn
      exact ⟨hA, .inr ⟨hnew, hsize⟩⟩
  obtain ⟨-, hsame⟩ | ⟨l, -, hset⟩ := hnext
  · rw [hsame]
    exact ⟨hA, hsize⟩
  · obtain ⟨hfiled, hsame⟩ := hA.setNext hset
    rw [hsame]
    exact ⟨hfiled, hsize⟩

end

variable {pos : Position} {id : BlockId} {source : Option Departure} {r : Resident} {x : Transfer} {skip : Bool}
  {c : ContextId} {a : AnchorId} {t₁ t₂ t₃ t₄ : Tracker} {sc : Scene ContextId Kept AnchorId}

theorem Stages.last_eq (st : Stages t pos id source r x skip c a t₁ t₂ t₃ t₄) (hs : t.thread.Tells sc) :
    source.map (·.anchor) = sc.last := by
  obtain ⟨hl, rfl⟩ | ⟨l, b, hl, -, rfl⟩ := departure_of st.departure hs
  · exact hl.symm
  · exact hl.symm

/-- An anchor that is followed by the right one is followed by one that its block lists. -/
theorem followed_listed (h : t.Inv) {key : AnchorKey} (hr : t.blocks.get? key.block = some r) (last : Option AnchorId) :
    (!r.anchors.isEmpty && followed t.anchors last key) = followed t.anchors last key := by
  cases hf : followed t.anchors last key with
  | false => exact Bool.and_false _
  | true =>
    obtain ⟨n, -, hn⟩ := (Option.any_eq_true _ _).mp hf
    obtain ⟨y, hy, hk⟩ := Directory.holds_iff.mp hn
    have hm := (h.tables.mem_anchors_iff hr hy).mpr (by rw [hk])
    cases hempty : r.anchors with
    | nil =>
      rw [hempty] at hm
      cases hm
    | cons => rfl

/-- Only the hint of the last anchor and, for a call, the ledger, the counts and the frames change. -/
theorem Stages.link_accounts (st : Stages t pos id source r x skip c a t₁ t₂ t₃ t₄) (h : t.Inv)
    (hs : t.thread.Tells sc) (hledger : t.ledger.SameCalls t₃.ledger) :
    (sc.last = none ∧ t₄.anchors = t₃.anchors ∨ ∃ l, sc.last = some l ∧ t₃.anchors.setNext l a = .ok t₄.anchors) ∧
      (if (x.enters && !skip) = true then ∃ s n, sc.callSource t.blockOf = some (s, n) ∧
          (t.ledger.call { source := s, exit := n, target := a }).2.SameCalls t₄.ledger
        else t.ledger.SameCalls t₄.ledger) ∧
      t₄.stats = { t₃.stats with calls := t₃.stats.calls + x.enters.toNat } ∧
      t₄.threads.depths = t₃.threads.depths + x.enters.toNat := by
  have hlast := st.last_eq hs
  cases hx : x.enters with
  | false =>
    obtain ⟨rfl, rfl⟩ | ⟨d, A, rfl, hset, h'⟩ := link_eq st.linked
    · exact ⟨.inl ⟨hlast.symm, rfl⟩, hledger, rfl, rfl⟩
    · rw [hx, if_neg Bool.false_ne_true] at h'
      subst h'
      exact ⟨.inr ⟨d.anchor, hlast.symm, hset⟩, hledger, rfl, rfl⟩
  | true =>
    obtain ⟨-, d, A, s, n, arc, F, L, rfl, hset, rfl, hcall, -, -, harc⟩ := st.pushes h hs hx
    refine ⟨.inr ⟨d.anchor, hlast.symm, hset⟩, ?_, rfl, ?_⟩
    · cases skip with
      | true =>
        obtain ⟨-, -, rfl⟩ := harc
        exact hledger
      | false =>
        obtain ⟨arc', -, hopens⟩ := harc
        exact ⟨s, n, hcall, (hledger.call _).trans hopens.ledger⟩
    · refine depths_of_parked ?_ ?_
      · rfl
      · rfl

/-- Up to the billing the contexts grew at most, and nothing was counted but returns. -/
theorem Stages.prepared_accounts (st : Stages t pos id source r x skip c a t₁ t₂ t₃ t₄)
    (u : Unwinds (t.countTransfer x) t₁) (hcontexts : t.contexts.Filed) :
    (t₂.contexts.Filed ∧ (t₂.contexts = t.contexts ∨ t.contexts.Adds t₂.contexts c)) ∧ t₂.anchors = t.anchors ∧
      t₂.blocks = t.blocks ∧ t.ledger.SameCalls t₂.ledger ∧ t₂.stats = t₁.stats ∧
      t₂.threads.depths = t₁.threads.depths := by
  obtain ⟨-, -, hprepare⟩ := prepare_eq st.prepared
  split at hprepare
  · refine ⟨?_, hprepare.anchors.trans u.anchors, hprepare.blocks.trans u.blocks, u.ledger.trans hprepare.ledger,
      hprepare.stats, depths_of_parked hprepare.parked (n := 0) (by rw [hprepare.thread]; rfl)⟩
    have hinterned := hprepare.contexts
    split at hinterned
    · rw [hinterned.1, u.contexts]
      exact ⟨hcontexts, .inl rfl⟩
    · obtain ⟨F, hintern, -⟩ := hinterned
      rw [u.contexts, st.context] at hintern
      exact hcontexts.intern hintern
  · subst hprepare
    exact ⟨⟨by rw [u.contexts]; exact hcontexts, .inl u.contexts⟩, u.anchors, u.blocks, u.ledger, rfl, rfl⟩

/-- Billing makes the anchor of a key that has none, and counts how it was found. -/
theorem Stages.billed_accounts (st : Stages t pos id source r x skip c a t₁ t₂ t₃ t₄)
    (hr : t₂.blocks.get? id = some r) :
    ∃ S, Stats.Found t₂.stats S (!r.anchors.isEmpty && followed t₂.anchors (source.map (·.anchor))
        { block := id, context := c, thread := pos.thread }) ∧ t₃.contexts = t₂.contexts ∧ t₃.ledger = t₂.ledger ∧
      t₃.stats = S ∧ t₃.threads = t₂.threads ∧
      (t₂.anchors.holds a { block := id, context := c, thread := pos.thread } = true ∧ t₃.anchors = t₂.anchors ∨
        t₂.anchors.spawn { block := id, context := c, thread := pos.thread } = .ok (a, t₃.anchors)) := by
  obtain ⟨S, hfound, hbilled⟩ := billTo_eq hr st.billed
  refine ⟨S, hfound, ?_⟩
  obtain ⟨hholds, rfl⟩ | ⟨A, hspawn, rfl⟩ := hbilled
  · exact ⟨rfl, rfl, rfl, rfl, .inl ⟨hholds, rfl⟩⟩
  · exact ⟨rfl, rfl, rfl, rfl, .inr hspawn⟩

theorem Stages.entered (st : Stages t pos id source r x skip c a t₁ t₂ t₃ t₄) (h : t.Inv) (hs : t.thread.Tells sc)
    (hcontexts : t.contexts.Filed) :
    Entered t { block := id, context := c, thread := pos.thread } sc x skip a (t₄.settle a) := by
  obtain ⟨-, u⟩ := st.left hs
  obtain ⟨n, hstats, hdepths⟩ := u.depths
  obtain ⟨hfiled, hanchors, hblocks, hledger, hstats₂, hdepths₂⟩ := st.prepared_accounts u hcontexts
  obtain ⟨S, hfound, hcontexts₃, hledger₃, hstats₃, hthreads₃, hanchors₃⟩ :=
    st.billed_accounts (by rw [hblocks]; exact st.block)
  rw [hanchors] at hanchors₃ hfound
  rw [st.last_eq hs, followed_listed h st.block] at hfound
  obtain ⟨hnext, hcalls, hstats₄, hdepths₄⟩ := st.link_accounts h hs (by rw [hledger₃]; exact hledger)
  have hcontexts₄ : t₄.contexts = t₂.contexts := (link_keeps st.linked).2.2.trans hcontexts₃
  have hothers := hfound.others
  have hhits := hfound.lruHits
  rw [hstats₂, hstats] at hothers hhits
  simp only [Stats.mk.injEq] at hothers
  obtain ⟨hexecuted, hcalled, hreturned, hpromoted, hjumped, hemulated, -, -, -, -, -, hsignals, hdiscarded,
    hretired⟩ := hothers
  have hsettled : (t₄.settle a).stats = { S with calls := S.calls + x.enters.toNat } := by
    rw [← hstats₃]
    exact hstats₄
  refine ⟨?_, ⟨t₃.anchors, hanchors₃, hnext⟩, hcalls, ?_, ?_⟩
  · show t₄.contexts.Filed ∧ (t₄.contexts = _ ∨ t.contexts.Adds t₄.contexts c)
    rw [hcontexts₄]
    exact hfiled
  · rw [hsettled]
    exact ⟨hexecuted, congrArg (· + x.enters.toNat) hcalled, hpromoted, hjumped, hemulated, hhits, hsignals,
      hdiscarded, hretired⟩
  · have hdepths : t.threads.depths = t₁.threads.depths + n := hdepths
    have hdepths' : (t₄.settle a).threads.depths = t₁.threads.depths + x.enters.toNat := by
      rw [← hdepths₂, ← hthreads₃]
      exact hdepths₄
    rw [hsettled, hdepths', hdepths]
    show S.returns + _ = _
    rw [hreturned]
    show t.stats.returns + n + _ = _
    omega

/-- Running a block where `sc` tells of its thread. -/
theorem enterBlock_entered (h : t.Inv) (he : t.enterBlock pos id = .ok (a, t')) (hs : (t.state pos.thread).Tells sc)
    {b : Block} (hb : t.blocks.block? id = some b) {f : Function} (hf : t.functions.decl? b.fn = some f)
    (hcontexts : t.contexts.Filed) :
    ∃ c, (t'.state pos.thread).exec.context = some c ∧
      Entered t { block := id, context := c, thread := pos.thread } sc (sc.transfer t.blockOf t.config.tailCalls b pos.sp)
        f.skip a t' := by
  obtain ⟨source, r, x, skip, c, t₁, t₂, t₃, t₄, st, rfl⟩ := enterBlock_stages he
  obtain ⟨hconfig, -, -, hcontexts₀, hanchors, hledger⟩ := Stays.switchTo t pos.thread
  have h₀ := h.switchTo pos.thread
  rw [← thread_switchTo_state] at hs
  obtain ⟨hstays, hctx, -⟩ := st.stays h₀
  obtain ⟨hr, hskip⟩ := st.registered hs hb hf
  have htransfer := st.transfer_eq hs
  rw [blockOf_switchTo, hconfig, hr] at htransfer
  have hskip : (x.enters && !skip) = (x.enters && !f.skip) := by
    cases hx : x.enters with
    | false => rfl
    | true => rw [hskip hx]
  obtain ⟨hctxs, hanchors', hcalls, hcounts, hbalance⟩ := st.entered h₀ hs (by rw [hcontexts₀]; exact hcontexts)
  rw [hcontexts₀] at hctxs
  rw [hanchors] at hanchors' hcounts
  rw [hskip, blockOf_switchTo, hledger] at hcalls
  rw [depths_switchTo h, stats_switchTo] at hbalance
  rw [stats_switchTo] at hcounts
  refine ⟨c, by rw [hstays.state_eq]; exact hctx, ?_⟩
  rw [htransfer]
  exact ⟨hctxs, hanchors', hcalls,
    ⟨hcounts.blocksExecuted, hcounts.calls, hcounts.promotedCalls, hcounts.returnsAsJumps, hcounts.emulatedCalls,
      hcounts.lruHits, hcounts.signals, hcounts.discardedBlocks, hcounts.discardedAnchors⟩, hbalance⟩

end Tracker
end CallGraph
