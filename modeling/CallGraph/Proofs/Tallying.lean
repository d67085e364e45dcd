/-
  CallGraph.Proofs.Tallying — what the tallies of the contexts add up to.

  A billed anchor is listed once in the tally of its context, and counts there from then on, retired or
  not. So an execution adds one to all executions, and one to all blocks exactly if its anchor was not
  listed (`Hotspots.Lists.record`). To retire anchors changes neither how often a context was executed
  (`Hotspots.loads_retireAll`) nor the number of blocks (`Hotspots.Lists.retireAll`).
-/

import Mathlib.Algebra.GroupWithZero.Nat
import CallGraph.Proofs.Storage
import CallGraph.Proofs.Threads
import CallGraph.Replay.Summary

namespace CallGraph

namespace Tally

variable {t : Tally} {a b : AnchorId}

theorem mem_record : b ∈ (t.record a).live ↔ b = a ∨ b ∈ t.live := by
  unfold record
  simp only [List.contains_eq_mem, decide_eq_true_eq]
  split
  · rename_i ha
    constructor
    · exact .inr
    · rintro (rfl | hb)
      · exact ha
      · exact hb
  · exact List.mem_cons

theorem record_nodup (h : t.live.Nodup) : (t.record a).live.Nodup := by
  unfold record
  simp only [List.contains_eq_mem, decide_eq_true_eq]
  split
  · exact h
  · rename_i ha
    exact List.nodup_cons.mpr ⟨ha, h⟩

/-- Only an anchor that is not listed is another block. -/
theorem blocks_record : (t.record a).blocks = t.blocks + (!t.live.contains a).toNat := by
  unfold record
  cases ha : t.live.contains a with
  | true => rfl
  | false =>
    show t.live.length + 1 + t.retired = t.live.length + t.retired + 1
    omega

theorem mem_retire (h : t.live.Nodup) : b ∈ (t.retire a).live ↔ b ∈ t.live ∧ b ≠ a := by
  unfold retire
  split
  · show b ∈ t.live.erase a ↔ _
    rw [h.mem_erase_iff, and_comm]
  · rename_i ha
    rw [List.contains_eq_mem, decide_eq_true_eq] at ha
    refine (and_iff_left_of_imp fun hb => ?_).symm
    rintro rfl
    exact ha hb

theorem retire_nodup (h : t.live.Nodup) : (t.retire a).live.Nodup := by
  unfold retire
  split
  · exact h.erase a
  · exact h

theorem executions_retire : (t.retire a).executions = t.executions := by
  unfold retire
  split <;> rfl

/-- A retired anchor still counts. -/
theorem blocks_retire : (t.retire a).blocks = t.blocks := by
  unfold retire
  split
  · rename_i ha
    rw [List.contains_eq_mem, decide_eq_true_eq] at ha
    have hpos := List.length_pos_of_mem ha
    show (t.live.erase a).length + (t.retired + 1) = t.live.length + t.retired
    rw [List.length_erase_of_mem ha]
    omega
  · rfl

end Tally

namespace Hotspots

variable {h h' : Hotspots} {c d : ContextId} {a : AnchorId} {w : Tally → Nat}

/-! ## One tally -/

/-- What was recorded for a context so far. -/
def tallyOf (h : Hotspots) (c : ContextId) : Tally := (h.tallies.get? c.num).getD {}

theorem num_eq_iff : d.num = c.num ↔ d = c := ⟨congrArg ContextId.mk, congrArg ContextId.num⟩

theorem get?_record : (h.record c a).tallies.get? d.num =
    if d = c then some ((h.tallyOf c).record a) else h.tallies.get? d.num := by
  rw [record, SortedMap.get?_insert, tallyOf]
  simp only [num_eq_iff]

theorem tallyOf_record : (h.record c a).tallyOf d = if d = c then (h.tallyOf c).record a else h.tallyOf d := by
  rw [tallyOf, get?_record]
  split <;> rfl

theorem get?_retire : (h.retire c a).tallies.get? d.num =
    if d = c then (h.tallies.get? c.num).map (·.retire a) else h.tallies.get? d.num := by
  unfold retire
  split
  · rename_i hnone
    split
    · rename_i e
      rw [e, hnone]
      rfl
    · rfl
  · rename_i t ht
    rw [SortedMap.get?_insert, ht]
    simp only [num_eq_iff]
    rfl

theorem tallyOf_retire : (h.retire c a).tallyOf d = if d = c then (h.tallyOf c).retire a else h.tallyOf d := by
  rw [tallyOf, get?_retire]
  split
  · rw [tallyOf]
    cases h.tallies.get? c.num <;> rfl
  · rfl

/-! ## All tallies -/

/-- The executions of all contexts. -/
def executions (h : Hotspots) : Nat := h.tallies.weigh Tally.executions

/-- The blocks of all contexts. -/
def blocks (h : Hotspots) : Nat := h.tallies.weigh Tally.blocks

theorem weight_tallyOf (hw : w {} = 0) (h : Hotspots) (c : ContextId) :
    ((h.tallies.get? c.num).map w).getD 0 = w (h.tallyOf c) := by
  rw [tallyOf]
  cases h.tallies.get? c.num with
  | none => exact hw.symm
  | some t => rfl

theorem weigh_record (hw : w {} = 0) (h : Hotspots) (c : ContextId) (a : AnchorId) :
    (h.record c a).tallies.weigh w + w (h.tallyOf c) = h.tallies.weigh w + w ((h.tallyOf c).record a) := by
  rw [← weight_tallyOf hw]
  exact SortedMap.weigh_insert_add ..

theorem weigh_retire (hw : ∀ t : Tally, w (t.retire a) = w t) (h : Hotspots) (c : ContextId) :
    (h.retire c a).tallies.weigh w = h.tallies.weigh w := by
  unfold retire
  split
  · rfl
  · rename_i t ht
    have hadd := SortedMap.weigh_insert_add h.tallies w c.num (t.retire a)
    rw [ht, Option.map_some, Option.getD_some, hw] at hadd
    exact Nat.add_right_cancel hadd

theorem executions_record (h : Hotspots) (c : ContextId) (a : AnchorId) :
    (h.record c a).executions = h.executions + 1 := by
  have hadd := weigh_record (w := Tally.executions) rfl h c a
  have hone : ((h.tallyOf c).record a).executions = (h.tallyOf c).executions + 1 := rfl
  rw [hone] at hadd
  unfold executions
  omega

theorem blocks_record (h : Hotspots) (c : ContextId) (a : AnchorId) :
    (h.record c a).blocks = h.blocks + (!(h.tallyOf c).live.contains a).toNat := by
  have hadd := weigh_record (w := Tally.blocks) rfl h c a
  rw [Tally.blocks_record] at hadd
  unfold blocks
  omega

/-! ## Executions by context -/

/-- How often each context was executed. -/
def loads (h : Hotspots) : SortedMap Nat := h.tallies.map Tally.executions

theorem loads_record : (h.record c a).loads = h.loads.insert c.num ((h.loads.get? c.num).getD 0 + 1) := by
  refine SortedMap.ext_get? fun k => ?_
  have hload : ((h.tallyOf c).record a).executions = (h.loads.get? c.num).getD 0 + 1 := by
    rw [loads, SortedMap.get?_map, tallyOf]
    cases h.tallies.get? c.num <;> rfl
  rw [loads, SortedMap.get?_map, @get?_record h c ⟨k⟩ a, SortedMap.get?_insert, ← hload, loads, SortedMap.get?_map]
  simp only [← num_eq_iff]
  split <;> rfl

/-- Executions that were billed to a retired anchor still count. -/
theorem loads_retire : (h.retire c a).loads = h.loads := by
  refine SortedMap.ext_get? fun k => ?_
  rw [loads, loads, SortedMap.get?_map, SortedMap.get?_map, @get?_retire h c ⟨k⟩ a]
  split
  · rename_i e
    rw [← e, Option.map_map]
    congr 1
    exact funext fun t => Tally.executions_retire
  · rfl

theorem loads_retireAll {A : Directory} {ids : List AnchorId}
    (hfold : ids.foldlM (fun (h : Hotspots) a => do
      let y ← A.get a
      pure (h.retire y.key.context a)) h = .ok h') : h'.loads = h.loads ∧ h'.total = h.total := by
  induction ids generalizing h with
  | nil =>
    cases hfold
    exact ⟨rfl, rfl⟩
  | cons a ids ih =>
    rw [List.foldlM_cons] at hfold
    obtain ⟨h₁, hfirst, hfold⟩ := bind_eq_ok.mp hfold
    obtain ⟨y, -, hfirst⟩ := bind_eq_ok.mp hfirst
    cases hfirst
    obtain ⟨hloads, htotal⟩ := ih hfold
    refine ⟨hloads.trans loads_retire, htotal.trans ?_⟩
    unfold retire
    split <;> rfl

theorem executions_loads (h : Hotspots) : h.loads.weigh id = h.executions :=
  SortedMap.weigh_map h.tallies Tally.executions Tally.executions id fun _ => rfl

theorem isSome_loads (h : Hotspots) (c : ContextId) : (h.loads.get? c.num).isSome = (h.tallies.get? c.num).isSome := by
  rw [loads, SortedMap.get?_map, Option.isSome_map]

/-! ## Anchors of contexts -/

/-- The tally of a context lists the anchors that the context has, each of them once. -/
structure Lists (h : Hotspots) (has : ContextId → AnchorId → Prop) : Prop where
  nodup : ∀ c, (h.tallyOf c).live.Nodup
  mem : ∀ c a, a ∈ (h.tallyOf c).live ↔ has c a

variable {has has' : ContextId → AnchorId → Prop}

theorem Lists.congr (l : h.Lists has) (hsame : ∀ c a, has' c a ↔ has c a) : h.Lists has' :=
  ⟨l.nodup, fun c a => (l.mem c a).trans (hsame c a).symm⟩

theorem Lists.record (l : h.Lists has) (c : ContextId) (a : AnchorId) :
    (h.record c a).Lists fun d b => has d b ∨ d = c ∧ b = a := by
  refine ⟨fun d => ?_, fun d b => ?_⟩
  · rw [tallyOf_record]
    split
    · exact Tally.record_nodup (l.nodup c)
    · exact l.nodup d
  · rw [tallyOf_record]
    split
    · rename_i e
      rw [Tally.mem_record, l.mem, e, and_iff_right rfl, or_comm]
    · rename_i e
      rw [l.mem]
      exact (or_iff_left fun hd => e hd.1).symm

/-- An anchor is retired in one context. -/
theorem Lists.retire (l : h.Lists has) (c : ContextId) (a : AnchorId) :
    (h.retire c a).Lists fun d b => has d b ∧ ¬ (d = c ∧ b = a) := by
  refine ⟨fun d => ?_, fun d b => ?_⟩
  · rw [tallyOf_retire]
    split
    · exact Tally.retire_nodup (l.nodup c)
    · exact l.nodup d
  · rw [tallyOf_retire]
    split
    · rename_i e
      rw [Tally.mem_retire (l.nodup c), l.mem, e, and_iff_right rfl]
    · rename_i e
      rw [l.mem]
      exact (and_iff_left fun hd => e hd.1).symm

/-- The anchors of a block are retired, each in its context. -/
theorem Lists.retireAll {A : Directory} (l : h.Lists has)
    (honly : ∀ a y, A.get? a = some y → ∀ d, has d a → d = y.key.context) {ids : List AnchorId}
    (hfold : ids.foldlM (fun (h : Hotspots) a => do
      let y ← A.get a
      pure (h.retire y.key.context a)) h = .ok h') :
    (h'.Lists fun d b => has d b ∧ b ∉ ids) ∧ h'.blocks = h.blocks := by
  -- Induction on the anchors; those that were retired are not listed any more.
  induction ids generalizing h has with
  | nil =>
    cases hfold
    exact ⟨l.congr fun _ _ => and_iff_left List.not_mem_nil, rfl⟩
  | cons a ids ih =>
    rw [List.foldlM_cons] at hfold
    obtain ⟨h₁, hfirst, hfold⟩ := bind_eq_ok.mp hfold
    obtain ⟨y, hy, hfirst⟩ := bind_eq_ok.mp hfirst
    cases hfirst
    have hy : A.get? a = some y := Directory.get_eq_ok_iff.mp hy
    obtain ⟨l', hblocks⟩ := ih (l.retire y.key.context a) (fun b z hz d hd => honly b z hz d hd.1) hfold
    refine ⟨l'.congr fun d b => ?_, hblocks.trans ?_⟩
    · rw [List.mem_cons, not_or, and_assoc]
      refine and_congr_right fun hd => and_congr_left fun _ => not_congr ⟨fun e => ⟨?_, e⟩, And.right⟩
      exact honly a y hy d (e ▸ hd)
    · exact weigh_retire (fun _ => Tally.blocks_retire) h y.key.context

/-! ## The ranking -/

/-- The rows of the ranking are those of the tallies. -/
theorem ranked_perm (h : Hotspots) :
    (h.ranked.map fun p => (p.1.num, p.2)).Perm h.tallies.entries := by
  rw [ranked, List.map_map]
  exact (List.Perm.of_eq (List.map_id _)).trans (List.mergeSort_perm ..)

theorem weigh_ranked (h : Hotspots) (w : Tally → Nat) :
    (h.ranked.map fun p => w p.2).sum = h.tallies.weigh w := by
  have hweigh : ∀ es : List (Nat × Tally), es.foldr (fun p n => w p.2 + n) 0 = (es.map fun p => w p.2).sum := by
    intro es
    induction es with
    | nil => rfl
    | cons p es ih => rw [List.foldr_cons, List.map_cons, List.sum_cons, ih]
  have hperm := h.ranked_perm.map fun p => w p.2
  rw [List.map_map] at hperm
  rw [SortedMap.weigh, hweigh, ← hperm.sum_nat]
  rfl

/-- The ranking is one of how often contexts were executed. -/
theorem ranked_loads (h : Hotspots) : h.ranked.map (fun p => (p.1, p.2.executions)) =
    (h.loads.entries.mergeSort fun p q => q.2 < p.2 || (q.2 = p.2 && p.1 ≤ q.1)).map fun p => (⟨p.1⟩, p.2) := by
  have hsort := List.map_mergeSort (f := fun p : Nat × Tally => (p.1, p.2.executions)) (r := ranksBefore)
    (s := fun p q => q.2 < p.2 || (q.2 = p.2 && p.1 ≤ q.1)) (l := h.tallies.entries) fun _ _ _ _ => rfl
  rw [loads, SortedMap.map, ← hsort, ranked, List.map_map, List.map_map]
  rfl

end Hotspots
end CallGraph
