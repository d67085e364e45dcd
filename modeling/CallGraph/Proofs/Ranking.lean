/-
  CallGraph.Proofs.Ranking — the ranking says what was recorded.

  `times` and `firsts` count in the list of what the tallies were told: how often a context was executed, and how
  often billed to an anchor that was new there or had been retired since it was there last. The tallies agree with these
  counts whatever they are told (`after_recounts`), also where an anchor is retired that no execution was billed to. The
  ranking lists each context that was executed once, strictly by executions and number (`ranked_outranks`), so it does
  not depend on how the tallies are kept (`rows_recount`).

  The tallies are those after a list of uses, the latest in front.
-/

import Mathlib.Data.List.Basic
import CallGraph.Proofs.Tallying

namespace CallGraph

namespace Hotspots

/-- What the tallies are told. -/
inductive Use where
  | record (context : ContextId) (anchor : AnchorId)
  | retire (context : ContextId) (anchor : AnchorId)
deriving DecidableEq

def use (h : Hotspots) : Use → Hotspots
  | .record c a => h.record c a
  | .retire c a => h.retire c a

/-- The tallies after some uses, the latest in front. -/
def after : List Use → Hotspots
  | [] => empty
  | u :: past => (after past).use u

/-! ## Counts -/

/-- How many executions there were. -/
def executed : List Use → Nat
  | [] => 0
  | .record _ _ :: past => executed past + 1
  | .retire _ _ :: past => executed past

/-- How often a context was executed. -/
def times (c : ContextId) : List Use → Nat
  | [] => 0
  | .record d _ :: past => times c past + if d = c then 1 else 0
  | .retire _ _ :: past => times c past

/-- An anchor was executed in a context since it was retired there, or was never retired there and was executed. -/
def Since (c : ContextId) (a : AnchorId) (past : List Use) : Prop :=
  .record c a ∈ past.takeWhile fun u => u ≠ .retire c a

instance (c : ContextId) (a : AnchorId) (past : List Use) : Decidable (Since c a past) :=
  inferInstanceAs (Decidable (.record c a ∈ past.takeWhile fun u => u ≠ .retire c a))

/-- How many executions in a context were the first of their anchor there, at all or since it was retired there. -/
def firsts (c : ContextId) : List Use → Nat
  | [] => 0
  | .record d a :: past => firsts c past + if d = c ∧ ¬ Since d a past then 1 else 0
  | .retire _ _ :: past => firsts c past

variable {c d : ContextId} {a b : AnchorId} {past : List Use}

theorem since_record : Since c a (.record d b :: past) ↔ Since c a past ∨ c = d ∧ a = b := by
  simp [Since, or_comm]

theorem since_retire : Since c a (.retire d b :: past) ↔ Since c a past ∧ ¬ (c = d ∧ a = b) := by
  unfold Since
  by_cases e : d = c ∧ b = a
  · obtain ⟨rfl, rfl⟩ := e
    simp
  · have hne : (Use.retire d b ≠ .retire c a) := by simpa using e
    have hne' : ¬ (c = d ∧ a = b) := fun h => e ⟨h.1.symm, h.2.symm⟩
    simp [hne, hne', List.takeWhile_cons_of_pos]

theorem times_pos_iff : 0 < times c past ↔ ∃ a, .record c a ∈ past := by
  induction past with
  | nil => simp [times]
  | cons u past ih =>
    cases u with
    | retire d b => simp [times, ih]
    | record d b =>
      by_cases e : d = c
      · subst e
        simp [times]
      · simp [times, e, ih, Ne.symm e]

/-! ## Tallies -/

/-- The tallies say what there was. -/
structure Recounts (h : Hotspots) (past : List Use) : Prop where
  lists : h.Lists fun c a => Since c a past
  known : ∀ c, (h.tallies.get? c.num).isSome ↔ 0 < times c past
  times : ∀ c, (h.tallyOf c).executions = times c past
  firsts : ∀ c, (h.tallyOf c).blocks = firsts c past
  executions : h.executions = executed past
  total : h.total = executed past

variable {h : Hotspots}

theorem empty_recounts : empty.Recounts [] where
  lists := ⟨fun _ => .nil, fun _ _ => iff_of_false nofun nofun⟩
  known _ := iff_of_false nofun (Nat.lt_irrefl 0)
  times _ := rfl
  firsts _ := rfl
  executions := rfl
  total := rfl

theorem Recounts.record (r : h.Recounts past) (c : ContextId) (a : AnchorId) :
    (h.record c a).Recounts (.record c a :: past) where
  lists := (r.lists.record c a).congr fun _ _ => since_record
  known d := by
    rw [get?_record]
    by_cases e : d = c
    · simp [e, Hotspots.times]
    · simp [e, Ne.symm e, Hotspots.times, r.known d]
  times d := by
    rw [tallyOf_record]
    by_cases e : d = c
    · rw [if_pos e, e, Hotspots.times, if_pos rfl, ← r.times c]
      rfl
    · rw [if_neg e, Hotspots.times, if_neg (Ne.symm e), r.times d, Nat.add_zero]
  firsts d := by
    rw [tallyOf_record]
    by_cases e : d = c
    · have hnew : (!(h.tallyOf c).live.contains a).toNat = if ¬ Since c a past then 1 else 0 := by
        have hlive := r.lists.mem c a
        by_cases hsince : Since c a past
        · simp [hsince, hlive.mpr hsince]
        · simp [hsince, mt hlive.mp hsince]
      rw [if_pos e, e, Tally.blocks_record, r.firsts c, Hotspots.firsts, hnew]
      simp only [true_and]
    · rw [if_neg e, Hotspots.firsts, if_neg fun h => e h.1.symm, r.firsts d, Nat.add_zero]
  executions := by rw [executions_record, r.executions, executed]
  total := congrArg (· + 1) r.total

theorem Recounts.retire (r : h.Recounts past) (c : ContextId) (a : AnchorId) :
    (h.retire c a).Recounts (.retire c a :: past) where
  lists := (r.lists.retire c a).congr fun _ _ => since_retire
  known d := by
    rw [get?_retire, Hotspots.times, ← r.known d]
    by_cases e : d = c
    · simp [e]
    · simp [e]
  times d := by
    rw [tallyOf_retire, Hotspots.times, ← r.times d]
    by_cases e : d = c
    · rw [if_pos e, e, Tally.executions_retire]
    · rw [if_neg e]
  firsts d := by
    rw [tallyOf_retire, Hotspots.firsts, ← r.firsts d]
    by_cases e : d = c
    · rw [if_pos e, e, Tally.blocks_retire]
    · rw [if_neg e]
  executions := (weigh_retire (fun _ => Tally.executions_retire) h c).trans r.executions
  total := by
    refine Eq.trans ?_ r.total
    unfold Hotspots.retire
    split <;> rfl

theorem after_recounts (past : List Use) : (after past).Recounts past := by
  induction past with
  | nil => exact empty_recounts
  | cons u past ih =>
    cases u with
    | record c a => exact ih.record c a
    | retire c a => exact ih.retire c a

/-! ## The ranking -/

/-- More executions come first, and of equally many the lower number. -/
def Outranks (p q : ContextId × Tally) : Prop :=
  q.2.executions < p.2.executions ∨ p.2.executions = q.2.executions ∧ p.1.num < q.1.num

/-- No two contexts share a place. -/
theorem ranked_outranks (h : Hotspots) : h.ranked.Pairwise Outranks := by
  have htrans : ∀ p q r, ranksBefore p q = true → ranksBefore q r = true → ranksBefore p r = true := by
    intro p q r hpq hqr
    simp only [ranksBefore, Bool.or_eq_true, Bool.and_eq_true, decide_eq_true_eq] at hpq hqr ⊢
    omega
  have htotal : ∀ p q, (ranksBefore p q || ranksBefore q p) = true := by
    intro p q
    simp only [ranksBefore, Bool.or_eq_true, Bool.and_eq_true, decide_eq_true_eq]
    omega
  have hsorted := List.pairwise_mergeSort htrans htotal h.tallies.entries
  have hapart : (h.tallies.entries.mergeSort ranksBefore).Pairwise fun p q => p.1 ≠ q.1 := by
    have hkeys : h.tallies.entries.Pairwise fun p q => p.1 ≠ q.1 := h.tallies.sorted.imp Nat.ne_of_lt
    exact ((List.mergeSort_perm _ _).pairwise_iff Ne.symm).mpr hkeys
  refine List.pairwise_map.mpr ((hsorted.and hapart).imp ?_)
  rintro p q ⟨hbefore, hne⟩
  simp only [ranksBefore, Bool.or_eq_true, Bool.and_eq_true, decide_eq_true_eq] at hbefore
  show q.2.executions < p.2.executions ∨ p.2.executions = q.2.executions ∧ p.1 < q.1
  omega

theorem mem_ranked {h : Hotspots} {p : ContextId × Tally} : p ∈ h.ranked ↔ h.tallies.get? p.1.num = some p.2 := by
  rw [ranked, List.mem_map]
  constructor
  · rintro ⟨q, hq, rfl⟩
    exact SortedMap.get?_of_mem (List.mem_mergeSort.mp hq)
  · intro hget
    exact ⟨(p.1.num, p.2), List.mem_mergeSort.mpr (SortedMap.mem_of_get? hget), rfl⟩

/-- The row of a context after some uses, with the name and the depth that it is said to have. -/
def recount (past : List Use) (describe : ContextId → String × Nat) (c : ContextId) : Hotspot where
  context := (describe c).1
  depth := (describe c).2
  blocks := firsts c past
  executions := times c past
  total := executed past

/-- Whatever the tallies are told and however contexts are described: there is one row for each context that was
executed, with its counts, and the rows stand in one order. -/
theorem rows_recount (past : List Use) :
    (after past).total = executed past ∧
    ∃ order : List ContextId,
      order.Nodup ∧ (∀ c, c ∈ order ↔ ∃ a, .record c a ∈ past) ∧
      order.Pairwise (fun c d => times d past < times c past ∨ times c past = times d past ∧ c.num < d.num) ∧
      (order.map fun c => times c past).sum = executed past ∧
      ∀ describe, (after past).rows (fun c => (.ok (describe c) : Except Fault _)) =
        .ok (order.map (recount past describe)) := by
  have r := after_recounts past
  have htally : ∀ p ∈ (after past).ranked, p.2 = (after past).tallyOf p.1 := by
    intro p hp
    rw [tallyOf, mem_ranked.mp hp]
    rfl
  have htimes : ∀ p ∈ (after past).ranked, p.2.executions = times p.1 past := fun p hp => by rw [htally p hp, r.times]
  have hfirsts : ∀ p ∈ (after past).ranked, p.2.blocks = firsts p.1 past := fun p hp => by rw [htally p hp, r.firsts]
  have hranks : ((after past).ranked.map Prod.fst).Pairwise fun c d =>
      times d past < times c past ∨ times c past = times d past ∧ c.num < d.num := by
    refine List.pairwise_map.mpr ((ranked_outranks _).imp_of_mem fun {p q} hp hq hpq => ?_)
    rwa [Outranks, htimes p hp, htimes q hq] at hpq
  refine ⟨r.total, (after past).ranked.map Prod.fst, hranks.imp ?_, fun c => ?_, hranks, ?_, fun describe => ?_⟩
  · rintro c d h rfl
    omega
  · rw [← times_pos_iff, ← r.known c, Option.isSome_iff_exists, List.mem_map]
    constructor
    · rintro ⟨p, hp, rfl⟩
      exact ⟨p.2, mem_ranked.mp hp⟩
    · rintro ⟨t, ht⟩
      exact ⟨(c, t), mem_ranked.mpr ht, rfl⟩
  · have hsum := (after past).weigh_ranked Tally.executions
    rw [List.map_congr_left htimes] at hsum
    rw [List.map_map]
    exact hsum.trans r.executions
  · rw [List.map_map]
    refine mapM_eq_ok fun p hp => ?_
    show Except.ok ((after past).row _ _ p.2) = .ok (recount past describe p.1)
    rw [row, recount, htimes p hp, hfirsts p hp, r.total]

/-- An anchor that was retired counts again, but not for a retirement of another one. -/
example : firsts ⟨5⟩ [.record ⟨5⟩ ⟨1⟩, .record ⟨5⟩ ⟨1⟩, .retire ⟨5⟩ ⟨1⟩, .record ⟨5⟩ ⟨1⟩, .retire ⟨5⟩ ⟨7⟩,
    .record ⟨5⟩ ⟨1⟩] = 2 := by decide

end Hotspots
end CallGraph
