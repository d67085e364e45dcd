/-
  CallGraph.Proofs.Activity — open activations, and what the accounting side hears of them.

  A function is reported when the number of its open activations leaves zero and when it comes back
  to zero. `Reported` says what the ledger then shows of every function: reports in turn, the first
  that it became active, and the latest that it became active exactly while an activation is open.
  Opening and closing an activation keep this (`Tracker.enterFunction_ok`,
  `Tracker.leaveFunction_ok`); closing needs one that is open.
-/

import CallGraph.Proofs.Storage
import Mathlib.Data.List.Chain

namespace CallGraph

/-! ## Counting activations -/

namespace FunctionTable

/-- The hint of a function; none if the function is not registered. -/
def hint? (t : FunctionTable) (fn : FnId) : Option ContextId := (t.nodes[fn.num]?).bind (·.hint)

/-- No function comes or goes, and the hints stay. -/
structure Keeps (t t' : FunctionTable) : Prop where
  size : t'.size = t.size
  hints : ∀ fn, t'.hint? fn = t.hint? fn

theorem Keeps.refl (t : FunctionTable) : t.Keeps t := ⟨rfl, fun _ => rfl⟩

theorem Keeps.trans {t t' t'' : FunctionTable} (h : t.Keeps t') (h' : t'.Keeps t'') : t.Keeps t'' :=
  ⟨h'.size.trans h.size, fun fn => (h'.hints fn).trans (h.hints fn)⟩

/-- How many activations of a function are open; none of a function that is not registered. -/
def activeCount (t : FunctionTable) (fn : FnId) : Nat := ((t.nodes[fn.num]?).map (·.active)).getD 0

theorem num_ne {f g : FnId} (h : f ≠ g) : f.num ≠ g.num := by
  intro e
  cases f; cases g
  exact h (congrArg FnId.mk e)

theorem activeCount_modify (t : FunctionTable) (fn : FnId) (f : Function → Function) (g : FnId) :
    (t.modify fn f).activeCount g =
      if g = fn then ((t.nodes[fn.num]?).map fun x => (f x).active).getD 0 else t.activeCount g := by
  simp only [activeCount, modify, Array.getElem?_modify]
  by_cases e : g = fn
  · subst e; simp [Function.comp_def]
  · simp [e, (num_ne e).symm]

theorem activeCount_modify_of_eq (t : FunctionTable) (fn : FnId) {f : Function → Function}
    (h : ∀ x, (f x).active = x.active) (g : FnId) : (t.modify fn f).activeCount g = t.activeCount g := by
  rw [activeCount_modify]
  split
  · rename_i e
    subst e
    simp [activeCount, h]
  · rfl

theorem size_modify (t : FunctionTable) (fn : FnId) (f : Function → Function) :
    (t.modify fn f).size = t.size := by
  simp [modify, size]

theorem hint?_modify (t : FunctionTable) (fn : FnId) (f : Function → Function) (g : FnId) :
    (t.modify fn f).hint? g = if g = fn then (t.nodes[fn.num]?).bind fun x => (f x).hint else t.hint? g := by
  simp only [hint?, modify, Array.getElem?_modify]
  by_cases e : g = fn
  · subst e
    cases t.nodes[g.num]? <;> simp
  · simp [e, (num_ne e).symm]

theorem hint?_setHint {t : FunctionTable} {fn : FnId} (h : fn.num < t.size) (c : ContextId) (g : FnId) :
    (t.setHint fn c).hint? g = if g = fn then some c else t.hint? g := by
  rw [setHint, hint?_modify, Array.getElem?_eq_getElem h]
  rfl

/-- A change that leaves the hint of a function alone. -/
theorem keeps_modify (t : FunctionTable) (fn : FnId) {f : Function → Function} (h : ∀ x, (f x).hint = x.hint) :
    t.Keeps (t.modify fn f) := by
  refine ⟨size_modify .., fun g => ?_⟩
  rw [hint?_modify]
  split
  · rename_i e
    subst e
    simp [hint?, h]
  · rfl

theorem size_register (t : FunctionTable) (name : String) (object : ObjId) (skip : Bool) :
    (t.register name object skip).2.size = t.size + 1 := by
  simp [register, size]

/-- A new function has no hint, and the others keep theirs. -/
theorem hint?_register (t : FunctionTable) (name : String) (object : ObjId) (skip : Bool) (g : FnId) :
    (t.register name object skip).2.hint? g = t.hint? g := by
  simp only [hint?, register, Array.getElem?_push]
  split
  · rename_i e
    rw [e, Array.getElem?_eq_none (Nat.le_refl _)]
    rfl
  · rfl

theorem activeCount_register (t : FunctionTable) (name : String) (object : ObjId) (skip : Bool) (g : FnId) :
    (t.register name object skip).2.activeCount g = t.activeCount g := by
  simp only [register, activeCount, Array.getElem?_push]
  split
  · rename_i e
    simp [e]
  · rfl

theorem get_ok {t : FunctionTable} {fn : FnId} (h : fn.num < t.size) :
    ∃ f, t.get fn = .ok f ∧ t.nodes[fn.num]? = some f := by
  have hf : t.nodes[fn.num]? = some t.nodes[fn.num] := Array.getElem?_eq_getElem h
  exact ⟨_, by simp [get, hf], hf⟩

theorem node_of_get {t : FunctionTable} {fn : FnId} {f : Function} (h : t.get fn = .ok f) :
    t.nodes[fn.num]? = some f := by
  unfold get at h
  split at h
  · cases h
  · rename_i hf
    cases h
    exact hf

theorem setSkip_ok {t : FunctionTable} {fn : FnId} (h : fn.num < t.size) (skip : Bool) :
    t.setSkip fn skip = .ok (t.modify fn fun f => { f with skip }) := by
  obtain ⟨f, hf, -⟩ := get_ok h
  simp [setSkip, hf]

theorem enter_ok {t : FunctionTable} {fn : FnId} (h : fn.num < t.size) :
    ∃ t', t.enter fn = .ok (t.activeCount fn = 0, t') ∧ t.Keeps t' ∧
      ∀ g, t'.activeCount g = t.activeCount g + if g = fn then 1 else 0 := by
  obtain ⟨f, hf, hn⟩ := get_ok h
  refine ⟨_, by simp only [enter, hf, ok_bind, activeCount, hn]; rfl, ?_, fun g => ?_⟩
  · exact t.keeps_modify fn fun _ => rfl
  · rw [activeCount_modify]
    split
    · rename_i e
      subst e
      simp [activeCount, hn]
    · rfl

/-- An open activation can be closed. -/
theorem leave_ok {t : FunctionTable} {fn : FnId} (h : 0 < t.activeCount fn) :
    ∃ t', t.leave fn = .ok (t.activeCount fn = 1, t') ∧ t.Keeps t' ∧
      ∀ g, t'.activeCount g + (if g = fn then 1 else 0) = t.activeCount g := by
  cases hn : t.nodes[fn.num]? with
  | none => simp [activeCount, hn] at h
  | some f =>
    have ha : t.activeCount fn = f.active := by simp [activeCount, hn]
    rw [ha] at h ⊢
    have hf : t.get fn = .ok f := by simp [get, hn]
    refine ⟨_, by simp only [leave, hf, ok_bind, if_neg (Nat.ne_of_gt h)]; rfl, ?_, fun g => ?_⟩
    · exact t.keeps_modify fn fun _ => rfl
    · rw [activeCount_modify]
      split
      · rename_i e
        subst e
        simp only [hn, Option.map_some, Option.getD_some, ha]
        omega
      · rfl

end FunctionTable

/-! ## Reports -/

/-- What a report says of one function: that it became active, or that it no longer is. -/
def Notice.switch (fn : FnId) : Notice → Option Bool
  | .entered g => if g = fn then some true else none
  | .left g => if g = fn then some false else none
  | _ => none

/-- The reports on one function, the latest in front. -/
def Ledger.switches (l : Ledger) (fn : FnId) : List Bool := l.notices.filterMap (Notice.switch fn)

/-- The reports on every function come in turn, the first says that it became active, and the latest
says so exactly while an activation is open. -/
structure Reported (functions : FunctionTable) (ledger : Ledger) : Prop where
  inTurn : ∀ fn, (ledger.switches fn).IsChain (· ≠ ·)
  first : ∀ fn, (ledger.switches fn).getLast? ≠ some false
  latest : ∀ fn, (ledger.switches fn).head? = some true ↔ 0 < functions.activeCount fn

namespace Reported

variable {F G : FunctionTable} {l : Ledger}

theorem empty (h : ∀ fn, F.activeCount fn = 0) : Reported F .empty :=
  ⟨fun _ => List.isChain_nil, fun _ => nofun, fun fn => by simp [Ledger.switches, Ledger.empty, h fn]⟩

/-- Only the numbers of open activations and the reports on them matter. -/
theorem congr {l' : Ledger} (h : Reported F l) (hc : ∀ fn, G.activeCount fn = F.activeCount fn)
    (hl : ∀ fn, l'.switches fn = l.switches fn) : Reported G l' :=
  ⟨fun fn => hl fn ▸ h.inTurn fn, fun fn => hl fn ▸ h.first fn, fun fn => by rw [hl, hc]; exact h.latest fn⟩

theorem switches_enter (l : Ledger) (fn g : FnId) :
    (l.enter fn).switches g = if fn = g then true :: l.switches g else l.switches g := by
  by_cases e : fn = g <;> simp [Ledger.enter, Ledger.report, Ledger.switches, Notice.switch, e]

theorem switches_leave (l : Ledger) (fn g : FnId) :
    (l.leave fn).switches g = if fn = g then false :: l.switches g else l.switches g := by
  by_cases e : fn = g <;> simp [Ledger.leave, Ledger.report, Ledger.switches, Notice.switch, e]

theorem switches_call (l : Ledger) (arc : Arc) (g : FnId) : (l.call arc).2.switches g = l.switches g := by
  unfold Ledger.call
  split <;> rfl

theorem enter {fn : FnId} (h : Reported F l)
    (hc : ∀ g, G.activeCount g = F.activeCount g + if g = fn then 1 else 0) :
    Reported G (if F.activeCount fn = 0 then l.enter fn else l) := by
  split
  · rename_i h0
    -- An inactive function was not reported as entered last, so this report takes its turn.
    have hhead : (l.switches fn).head? ≠ some true := fun e => by have := (h.latest fn).mp e; omega
    refine ⟨fun g => ?_, fun g => ?_, fun g => ?_⟩ <;> rw [switches_enter] <;> by_cases e : fn = g
    · subst e
      rw [if_pos rfl, List.isChain_cons]
      refine ⟨fun b hb ht => hhead ?_, h.inTurn fn⟩
      subst ht
      exact hb
    · rw [if_neg e]; exact h.inTurn g
    · subst e
      rw [if_pos rfl, List.getLast?_cons]
      have := h.first fn
      cases hl : (l.switches fn).getLast? <;> simp_all
    · rw [if_neg e]; exact h.first g
    · subst e
      simp [hc]
    · rw [if_neg e, hc, if_neg (Ne.symm e)]; exact h.latest g
  · rename_i h0
    refine ⟨h.inTurn, h.first, fun g => ?_⟩
    rw [h.latest, hc]
    by_cases e : g = fn
    · subst e; simp; omega
    · simp [e]

theorem leave {fn : FnId} (h : Reported F l) (hpos : 0 < F.activeCount fn)
    (hc : ∀ g, G.activeCount g + (if g = fn then 1 else 0) = F.activeCount g) :
    Reported G (if F.activeCount fn = 1 then l.leave fn else l) := by
  have hfn := hc fn
  rw [if_pos rfl] at hfn
  split
  · -- An active function was reported as entered last.
    have hhead : (l.switches fn).head? = some true := (h.latest fn).mpr hpos
    refine ⟨fun g => ?_, fun g => ?_, fun g => ?_⟩ <;> rw [switches_leave] <;> by_cases e : fn = g
    · subst e
      rw [if_pos rfl, List.isChain_cons]
      refine ⟨fun b hb ht => ?_, h.inTurn fn⟩
      subst ht
      rw [hhead] at hb
      cases hb
    · rw [if_neg e]; exact h.inTurn g
    · subst e
      rw [if_pos rfl, List.getLast?_cons]
      have := h.first fn
      cases hl : (l.switches fn).getLast? with
      | none => simp [List.getLast?_eq_none_iff.mp hl] at hhead
      | some b => simp_all
    · rw [if_neg e]; exact h.first g
    · subst e
      simp
      omega
    · have := hc g
      rw [if_neg (Ne.symm e)] at this
      rw [if_neg e, h.latest g, ← this, Nat.add_zero]
  · refine ⟨h.inTurn, h.first, fun g => ?_⟩
    have := hc g
    rw [h.latest]
    by_cases e : g = fn
    · subst e; omega
    · rw [if_neg e] at this; omega

end Reported

/-! ## Opening and closing an activation -/

namespace Tracker

theorem enterFunction_ok {t : Tracker} {fn : FnId} (h : fn.num < t.functions.size) :
    ∃ F L, t.enterFunction fn = .ok { t with functions := F, ledger := L } ∧ t.functions.Keeps F ∧
      (∀ g, F.activeCount g = t.functions.activeCount g + if g = fn then 1 else 0) ∧
      (Reported t.functions t.ledger → Reported F L) := by
  obtain ⟨F, hF, hkeeps, hc⟩ := FunctionTable.enter_ok h
  refine ⟨F, _, by simp only [enterFunction, hF, ok_bind]; rfl, hkeeps, hc, fun hr => ?_⟩
  simpa using hr.enter hc

theorem leaveFunction_ok {t : Tracker} {fn : FnId} (h : 0 < t.functions.activeCount fn) :
    ∃ F L, t.leaveFunction fn = .ok { t with functions := F, ledger := L } ∧ t.functions.Keeps F ∧
      (∀ g, F.activeCount g + (if g = fn then 1 else 0) = t.functions.activeCount g) ∧
      (Reported t.functions t.ledger → Reported F L) := by
  obtain ⟨F, hF, hkeeps, hc⟩ := FunctionTable.leave_ok h
  refine ⟨F, _, by simp only [leaveFunction, hF, ok_bind]; rfl, hkeeps, hc, fun hr => ?_⟩
  simpa using hr.leave h hc

end Tracker
end CallGraph
