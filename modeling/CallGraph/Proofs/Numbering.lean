/-
  CallGraph.Proofs.Numbering — one number for one arc while its anchors live.

  The ledger looks a call up among the open arcs and takes the number of a new one from the counts, which never shrink.
  Dropping an anchor closes its arcs and leaves their counts alone, and numbers of anchors are used again. So a number
  belongs to an arc from its first call to the drop of one of its ends and to nothing else, whatever the ledger is told
  in between; its count stays for good (`numbered_by_lifetime`).

  The ledger is that after a list of uses, the latest in front. `given` lists the numbers that its calls were given.
-/

import Mathlib.Data.List.Dedup
import CallGraph.Proofs.Accounts

namespace CallGraph

theorem ArcId.num_ne {i j : ArcId} (h : i ≠ j) : i.num ≠ j.num := by
  intro e
  cases i
  cases j
  exact h (congrArg _ e)

namespace Ledger

/-- What the ledger is told. -/
inductive Use where
  | call (arc : Arc)
  | drop (anchor : AnchorId)
  | enter (fn : FnId)
  | leave (fn : FnId)
deriving DecidableEq

def use (l : Ledger) : Use → Ledger
  | .call arc => (l.call arc).2
  | .drop anchor => l.drop anchor
  | .enter fn => l.enter fn
  | .leave fn => l.leave fn

/-- The ledger after some uses, the latest in front. -/
def after : List Use → Ledger
  | [] => empty
  | u :: past => (after past).use u

/-- The number of the next call. -/
def number (past : List Use) (arc : Arc) : ArcId := ((after past).call arc).1

/-- The numbers of the calls, the latest in front. -/
def given : List Use → List ArcId
  | [] => []
  | .call arc :: past => number past arc :: given past
  | _ :: past => given past

/-- Dropping an anchor closes the arcs that start or end there. -/
def Use.closes (arc : Arc) (u : Use) : Prop := u = .drop arc.source ∨ u = .drop arc.target

/-! ## One use -/

variable {l : Ledger} {arc arc' : Arc} {id id' : ArcId}

/-- Open arcs have counts, and no two have the same arc or the same number. -/
structure Open (l : Ledger) : Prop where
  numbered : l.Numbered
  arcs : (l.arcs.map Prod.fst).Nodup
  numbers : (l.arcs.map Prod.snd).Nodup

namespace Open

theorem find?_iff (o : l.Open) : l.find? arc = some id ↔ (arc, id) ∈ l.arcs := by
  refine ⟨mem_of_find?, fun hmem => ?_⟩
  cases hfind : l.find? arc with
  | none => exact absurd (List.mem_map.mpr ⟨_, hmem, rfl⟩) (find?_eq_none.mp hfind)
  | some id' =>
    have := List.inj_on_of_nodup_map o.arcs (mem_of_find? hfind) hmem rfl
    cases this
    rfl

/-- A number belongs to one open arc. -/
theorem same_arc (o : l.Open) (h : (arc, id) ∈ l.arcs) (h' : (arc', id) ∈ l.arcs) : arc' = arc := by
  have := List.inj_on_of_nodup_map o.numbers h h' rfl
  cases this
  rfl

theorem fresh (o : l.Open) : ⟨l.calls.size⟩ ∉ l.arcs.map Prod.snd := by
  intro hmem
  obtain ⟨p, hp, hid⟩ := List.mem_map.mp hmem
  have := o.numbered p hp
  rw [hid] at this
  exact Nat.lt_irrefl _ this

end Open

/-- A call goes through an open arc, or opens one with the next number. -/
theorem call_cases (l : Ledger) (arc : Arc) :
    ((arc, (l.call arc).1) ∈ l.arcs ∧ (l.call arc).2.arcs = l.arcs ∧
        (l.call arc).2.calls = l.calls.modify (l.call arc).1.num (· + 1)) ∨
      (arc ∉ l.arcs.map Prod.fst ∧ (l.call arc).1 = ⟨l.calls.size⟩ ∧
        (l.call arc).2.arcs = (arc, ⟨l.calls.size⟩) :: l.arcs ∧ (l.call arc).2.calls = l.calls.push 1) := by
  unfold Ledger.call
  cases hfind : l.find? arc with
  | some id => exact .inl ⟨mem_of_find? hfind, rfl, rfl⟩
  | none => exact .inr ⟨find?_eq_none.mp hfind, rfl, rfl, rfl⟩

theorem Open.call (o : l.Open) (arc : Arc) : (l.call arc).2.Open := by
  have hnumbered := (call_calls o.numbered arc).numbered
  rcases call_cases l arc with ⟨-, harcs, -⟩ | ⟨hnew, -, harcs, -⟩
  · exact ⟨hnumbered, by rw [harcs]; exact o.arcs, by rw [harcs]; exact o.numbers⟩
  · refine ⟨hnumbered, ?_, ?_⟩
    · rw [harcs]
      exact List.nodup_cons.mpr ⟨hnew, o.arcs⟩
    · rw [harcs]
      exact List.nodup_cons.mpr ⟨o.fresh, o.numbers⟩

theorem Open.drop (o : l.Open) (anchor : AnchorId) : (l.drop anchor).Open := by
  have hsub : (l.drop anchor).arcs.Sublist l.arcs := List.filter_sublist
  exact ⟨fun p hp => o.numbered p (hsub.subset hp), o.arcs.sublist (hsub.map _), o.numbers.sublist (hsub.map _)⟩

theorem Open.use (o : l.Open) : ∀ u, (l.use u).Open
  | .call arc => o.call arc
  | .drop anchor => o.drop anchor
  | .enter _ => ⟨o.numbered, o.arcs, o.numbers⟩
  | .leave _ => ⟨o.numbered, o.arcs, o.numbers⟩

/-- A number that was given stays with its arc until that is closed, and goes to no other arc. -/
theorem mem_arcs_use (hid : id.num < l.calls.size) (u : Use) :
    (arc, id) ∈ (l.use u).arcs ↔ (arc, id) ∈ l.arcs ∧ ¬ u.closes arc := by
  cases u with
  | call arc' =>
    have hcloses : ¬ (Use.call arc').closes arc := by simp [Use.closes]
    show (arc, id) ∈ (l.call arc').2.arcs ↔ _
    rcases call_cases l arc' with ⟨-, harcs, -⟩ | ⟨-, -, harcs, -⟩
    · simp only [harcs, hcloses, not_false_eq_true, and_true]
    · have hne : id ≠ ⟨l.calls.size⟩ := by
        rintro rfl
        exact Nat.lt_irrefl _ hid
      simp [harcs, hcloses, hne]
  | drop anchor =>
    simp only [Ledger.use, Ledger.drop, report, List.mem_filter, decide_eq_true_eq, Use.closes, Use.drop.injEq, not_or]
    exact and_congr_right fun _ => and_congr ne_comm ne_comm
  | enter | leave => simp [Ledger.use, enter, leave, report, Use.closes]

theorem size_le_use (l : Ledger) (u : Use) : l.calls.size ≤ (l.use u).calls.size := by
  cases u with
  | call arc =>
    show _ ≤ (l.call arc).2.calls.size
    rcases call_cases l arc with ⟨-, -, hcalls⟩ | ⟨-, -, -, hcalls⟩
    · rw [hcalls, Array.size_modify]
    · rw [hcalls, Array.size_push]
      exact Nat.le_succ _
  | drop | enter | leave => exact Nat.le_refl _

/-- A call is counted under its number and nowhere else. -/
theorem callsOf_call (o : l.Open) (arc : Arc) (id : ArcId) :
    (l.call arc).2.callsOf id = l.callsOf id + if (l.call arc).1 = id then 1 else 0 := by
  rcases call_cases l arc with ⟨hmem, -, hcalls⟩ | ⟨-, hnum, -, hcalls⟩
  · have hlt : (l.call arc).1.num < l.calls.size := o.numbered _ hmem
    simp only [callsOf, hcalls, Array.getD_eq_getD_getElem?, Array.getElem?_modify]
    by_cases hid : (l.call arc).1 = id
    · rw [if_pos (congrArg _ hid), if_pos hid, ← hid, Array.getElem?_eq_getElem hlt]
      rfl
    · rw [if_neg (ArcId.num_ne hid), if_neg hid]
      rfl
  · simp only [callsOf, hcalls, hnum, Array.getD_eq_getD_getElem?, Array.getElem?_push]
    by_cases hid : (⟨l.calls.size⟩ : ArcId) = id
    · subst hid
      simp
    · rw [if_neg (ArcId.num_ne hid).symm, if_neg hid]
      rfl

/-! ## One after the other -/

theorem after_open (past : List Use) : (after past).Open := by
  induction past with
  | nil => exact ⟨empty_numbered, .nil, .nil⟩
  | cons u past ih => exact ih.use u

theorem mem_of_dedup {ids : List ArcId} {n : Nat} (h : ids.dedup.reverse = (List.range n).map ArcId.mk) :
    id ∈ ids ↔ id.num < n := by
  rw [← List.mem_dedup, ← List.mem_reverse, h, List.mem_map]
  constructor
  · rintro ⟨n, hn, rfl⟩
    exact List.mem_range.mp hn
  · intro hlt
    exact ⟨_, List.mem_range.mpr hlt, rfl⟩

/-- The numbers given are 0, 1, 2, … in the order of their first calls. -/
theorem given_dedup (past : List Use) :
    (given past).dedup.reverse = (List.range (after past).arcCount).map ArcId.mk := by
  induction past with
  | nil => rfl
  | cons u past ih =>
    cases u with
    | drop | enter | leave => exact ih
    | call arc =>
      show (number past arc :: given past).dedup.reverse = (List.range ((after past).call arc).2.calls.size).map _
      rcases call_cases (after past) arc with ⟨hopen, -, hcalls⟩ | ⟨-, hnum, -, hcalls⟩
      · have hgiven : number past arc ∈ given past := (mem_of_dedup ih).mpr ((after_open past).numbered _ hopen)
        rw [List.dedup_cons_of_mem hgiven, ih, hcalls, Array.size_modify]
        rfl
      · have hgiven : number past arc ∉ given past := by
          rw [mem_of_dedup ih, number, hnum]
          exact Nat.lt_irrefl _
        rw [List.dedup_cons_of_notMem hgiven, List.reverse_cons, ih, hcalls, Array.size_push, List.range_succ,
          List.map_append, number, hnum]
        rfl

/-- A count is the number of calls that were given its number, closed or not. -/
theorem callsOf_after (past : List Use) (id : ArcId) : (after past).callsOf id = (given past).count id := by
  induction past with
  | nil => rfl
  | cons u past ih =>
    cases u with
    | drop | enter | leave => exact ih
    | call arc =>
      show ((after past).call arc).2.callsOf id = (number past arc :: given past).count id
      rw [callsOf_call (after_open past), ih, List.count_cons]
      simp only [beq_iff_eq, number]

theorem totalCalls_after (past : List Use) : (after past).totalCalls = (given past).length := by
  induction past with
  | nil => rfl
  | cons u past ih =>
    cases u with
    | drop | enter | leave => exact ih
    | call arc => exact (call_calls (after_open past).numbered arc).totalCalls.trans (congrArg (· + 1) ih)

/-! ## Lifetimes -/

/-- The number of a call belongs to its arc until the arc is closed, and to no other arc for good. By induction on what
the ledger is told from then on. -/
theorem mem_arcs_after (past between : List Use) (arc arc' : Arc) :
    (number past arc).num < (after (between ++ .call arc :: past)).calls.size ∧
      ((arc', number past arc) ∈ (after (between ++ .call arc :: past)).arcs ↔
        arc' = arc ∧ ∀ u ∈ between, ¬ u.closes arc) := by
  induction between with
  | nil =>
    have hcall : (arc, number past arc) ∈ (after (.call arc :: past)).arcs := by
      show (arc, ((after past).call arc).1) ∈ ((after past).call arc).2.arcs
      rcases call_cases (after past) arc with ⟨hmem, harcs, -⟩ | ⟨-, hnum, harcs, -⟩
      · rw [harcs]
        exact hmem
      · rw [harcs, hnum]
        exact List.mem_cons_self ..
    have hopen := after_open (.call arc :: past)
    refine ⟨hopen.numbered _ hcall, ?_⟩
    simp only [List.nil_append, List.not_mem_nil, false_implies, implies_true, and_true]
    exact ⟨hopen.same_arc hcall, fun e => e ▸ hcall⟩
  | cons u between ih =>
    obtain ⟨hlt, ih⟩ := ih
    refine ⟨Nat.lt_of_lt_of_le hlt (size_le_use _ u), (mem_arcs_use hlt u).trans ?_⟩
    rw [ih, List.forall_mem_cons, and_assoc]
    refine and_congr_right fun e => ?_
    rw [e]
    exact And.comm

theorem number_eq_iff (past : List Use) (arc : Arc) {id : ArcId} (h : id.num < (after past).calls.size) :
    number past arc = id ↔ (arc, id) ∈ (after past).arcs := by
  rw [← (after_open past).find?_iff, number]
  unfold Ledger.call
  cases hfind : (after past).find? arc with
  | some id' => exact (Option.some.injEq ..).symm.to_iff
  | none =>
    simp only [reduceCtorEq, iff_false]
    rintro rfl
    exact Nat.lt_irrefl _ h

/-- Over any list of uses from the empty ledger. -/
theorem numbered_by_lifetime (past : List Use) :
    -- new numbers are 0, 1, 2, … in the order they are given, as many as there are arcs
    (given past).dedup.reverse = (List.range (after past).arcCount).map ArcId.mk ∧
      (after past).arcCount = (given past).dedup.length ∧
      -- a count is the number of calls that were given its number
      (∀ id, (after past).callsOf id = (given past).count id) ∧
      (after past).totalCalls = (given past).length ∧
      -- two calls, with any uses between them
      ∀ arc arc' between, number (between ++ .call arc :: past) arc' = number past arc ↔
        arc' = arc ∧ ∀ anchor, .drop anchor ∈ between → anchor ≠ arc.source ∧ anchor ≠ arc.target := by
  have hgiven := given_dedup past
  refine ⟨hgiven, ?_, callsOf_after past, totalCalls_after past, fun arc arc' between => ?_⟩
  · rw [← List.length_reverse, hgiven, List.length_map, List.length_range]
  · obtain ⟨hlt, hmem⟩ := mem_arcs_after past between arc arc'
    rw [number_eq_iff _ _ hlt, hmem]
    refine and_congr_right fun _ => ⟨fun h anchor hdrop => ?_, fun h u hu => ?_⟩
    · have := h _ hdrop
      simpa only [Use.closes, Use.drop.injEq, not_or] using this
    · rintro (rfl | rfl)
      · exact (h _ hu).1 rfl
      · exact (h _ hu).2 rfl

/-- The second anchor is dropped between the second call and the third. -/
example : given [.call ⟨⟨0⟩, 0, ⟨2⟩⟩, .call ⟨⟨0⟩, 0, ⟨1⟩⟩, .drop ⟨1⟩, .call ⟨⟨0⟩, 0, ⟨1⟩⟩, .call ⟨⟨0⟩, 0, ⟨1⟩⟩] =
    [⟨2⟩, ⟨1⟩, ⟨0⟩, ⟨0⟩] := by decide

end Ledger
end CallGraph
