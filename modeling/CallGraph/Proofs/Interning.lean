/-
  CallGraph.Proofs.Interning — one number for one chain.

  A table of contexts is used together with the hints of a table of functions. Between two calls the functions may
  change in any way that leaves the hints alone; new functions have none. Over any such course of calls
  (`Interning`) every answer stands for the chain that was asked for, cut to the functions that count: neither the
  hints nor the buckets, collisions of hashes or growth decide anything but where it is found. So equal chains have
  equal numbers, different ones different numbers, and the size of the table counts the chains
  (`intern_canonical`).
-/

import Mathlib.Data.Finset.Card
import CallGraph.Proofs.Buckets

namespace CallGraph

namespace ContextTable

variable {t t' t'' t₀ : ContextTable} {F F' F'' F₀ : FunctionTable} {n : Nat} {limit : Option Nat}

/-! ## One call -/

theorem cut_eq_nil (hlimit : t.depthLimit ≠ some 0) {chain : List FnId} : t.cut chain = [] ↔ chain = [] := by
  cases chain with
  | nil =>
    refine iff_of_true ?_ rfl
    unfold cut
    split
    · rfl
    · exact List.take_nil
  | cons fn callers =>
    obtain ⟨rest, hcut⟩ := cut_cons hlimit fn callers
    rw [hcut]
    exact iff_of_false (List.cons_ne_nil _ _) (List.cons_ne_nil _ _)

theorem intern_empty (F : FunctionTable) {chain : List FnId} (h : t.cut chain = []) :
    t.intern F chain = .ok (none, t, F) := by
  rw [intern, h]
  rfl

theorem Interned.of_none {chain : List FnId} (i : Interned t F chain none t' F') :
    t.cut chain = [] ∧ t' = t ∧ F' = F := by
  cases i with
  | empty hcut => exact ⟨hcut, rfl, rfl⟩

/-- The answer is the hint of the innermost function from then on, and the other hints stay. -/
theorem Interned.hints {chain : List FnId} {c : ContextId} (i : Interned t F chain (some c) t' F') {x : Context}
    (hx : t'.get? c = some x) (g : FnId) : F'.hint? g = if g = x.top then some c else F.hint? g := by
  obtain ⟨y, hy, hchain⟩ := i.stored
  cases hx.symm.trans hy
  have htop : ∀ {top callers}, t.cut chain = top :: callers → x.top = top :=
    fun hcut => (List.cons.inj (hchain.trans hcut)).1
  have hknown : ∀ {top : FnId} {f}, F.nodes[top.num]? = some f → top.num < F.size :=
    fun hnode => (Array.getElem?_eq_some_iff.mp hnode).1
  cases i with
  | hinted hcut hnode hhint =>
    rw [htop hcut]
    split
    · rename_i e
      rw [e, FunctionTable.hint?, hnode]
      exact hhint
    · rfl
  | found hcut hnode =>
    rw [htop hcut]
    exact FunctionTable.hint?_setHint (hknown hnode) _ g
  | added hcut hnode =>
    rw [htop hcut]
    exact FunctionTable.hint?_setHint (hknown hnode) _ g

/-! ## Calls one after the other -/

/-- A course of calls, the latest in front, each with its answer. Between the calls functions may be registered and
changed, but their hints are not. -/
inductive Interning : ContextTable → FunctionTable → List (List FnId × Option ContextId) → ContextTable →
    FunctionTable → Prop
  | refl (t : ContextTable) (F : FunctionTable) : Interning t F [] t F
  | functions {t F past t' F' F''} : Interning t F past t' F' → (∀ fn, F''.hint? fn = F'.hint? fn) →
      Interning t F past t' F''
  | intern {t F past t' F' chain c t'' F''} : Interning t F past t' F' → t'.intern F' chain = .ok (c, t'', F'') →
      Interning t F ((chain, c) :: past) t'' F''

theorem Interning.extends {past : List (List FnId × Option ContextId)} (h : Interning t F past t' F') :
    t.Extends t' := by
  induction h with
  | refl => exact .refl _
  | functions _ _ ih => exact ih
  | intern _ hi ih => exact ih.trans (interned hi).extends

/-- What the answers say of the table, and what the hints say of the functions. -/
structure Answered (t : ContextTable) (F : FunctionTable) (past : List (List FnId × Option ContextId)) : Prop where
  filed : t.Filed
  known : t.Known F
  hints : ∀ fn c, F.hint? fn = some c → ∃ x, t.get? c = some x ∧ x.top = fn
  stored : ∀ chain c, (chain, some c) ∈ past → ∃ x, t.get? c = some x ∧ x.chain = t.cut chain
  empty : ∀ chain, (chain, none) ∈ past → chain = []
  asked : ∀ c x, t.get? c = some x → ∃ chain, (chain, some c) ∈ past

theorem Answered.intern {past : List (List FnId × Option ContextId)} (a : t.Answered F past)
    (hlimit : t.depthLimit ≠ some 0) {chain : List FnId} {answer : Option ContextId}
    (hi : t.intern F chain = .ok (answer, t', F')) : t'.Answered F' ((chain, answer) :: past) := by
  cases answer with
  | none =>
    -- Only the empty chain gets no number, and nothing is stored for it.
    obtain ⟨hcut, rfl, rfl⟩ := (interned hi).of_none
    obtain rfl := (cut_eq_nil hlimit).mp hcut
    refine ⟨a.filed, a.known, a.hints, fun chain c hm => ?_, fun chain hm => ?_, fun c x hx => ?_⟩
    · rcases List.mem_cons.mp hm with hm | hm
      · cases hm
      · exact a.stored chain c hm
    · rcases List.mem_cons.mp hm with hm | hm
      · cases hm
        rfl
      · exact a.empty chain hm
    · obtain ⟨chain, hm⟩ := a.asked c x hx
      exact ⟨chain, List.mem_cons_of_mem _ hm⟩
  | some d =>
    obtain ⟨hfiled, hadds⟩ := a.filed.intern hi
    have hextends := (interned hi).extends
    obtain ⟨x, hx, hchain⟩ := (interned hi).stored
    have hhints := (interned hi).hints hx
    have hcut : ∀ chain, t'.cut chain = t.cut chain := fun chain => by simp only [cut, hextends.limit]
    refine ⟨hfiled, (interned hi).known a.known, fun fn c hc => ?_, fun chain c hm => ?_, fun chain hm => ?_,
      fun c y hy => ?_⟩
    · rw [hhints] at hc
      split at hc
      · rename_i e
        cases hc
        exact ⟨x, hx, e.symm⟩
      · obtain ⟨y, hy, htop⟩ := a.hints fn c hc
        exact ⟨y, hextends.kept c y hy, htop⟩
    · rw [hcut]
      rcases List.mem_cons.mp hm with hm | hm
      · cases hm
        exact ⟨x, hx, hchain⟩
      · obtain ⟨y, hy, hstored⟩ := a.stored chain c hm
        exact ⟨y, hextends.kept c y hy, hstored⟩
    · rcases List.mem_cons.mp hm with hm | hm
      · cases hm
      · exact a.empty chain hm
    · -- A chain that is stored was asked for before, or is asked for now.
      have hold : c = d ∨ t.get? c = some y := by
        rcases hadds with rfl | hadds
        · exact .inr hy
        · exact hadds.old c y hy
      rcases hold with rfl | hy
      · exact ⟨chain, List.mem_cons_self ..⟩
      · obtain ⟨chain', hm⟩ := a.asked c y hy
        exact ⟨chain', List.mem_cons_of_mem _ hm⟩

/-- By induction on the calls, from a table and hints that are empty. -/
theorem Interning.answered {past : List (List FnId × Option ContextId)} (h₀ : ofBuckets n limit = .ok t₀)
    (hlimit : t₀.depthLimit ≠ some 0) (hF : ∀ fn, F₀.hint? fn = none) (h : Interning t₀ F₀ past t F) :
    t.Answered F past := by
  induction h with
  | refl =>
    obtain ⟨hfiled, -, hnone⟩ := ofBuckets_filed h₀
    refine ⟨hfiled, ofBuckets_known h₀ hF, fun fn c hc => ?_, fun _ _ hm => absurd hm List.not_mem_nil,
      fun _ hm => absurd hm List.not_mem_nil, fun c x hx => absurd hx (hnone c x)⟩
    rw [hF] at hc
    cases hc
  | functions _ hhints ih =>
    exact ⟨ih.filed, ⟨ih.known.filed, fun fn c hc => ih.known.hinted fn c (by rw [← hhints]; exact hc)⟩,
      fun fn c hc => ih.hints fn c (by rw [← hhints]; exact hc), ih.stored, ih.empty, ih.asked⟩
  | intern h hi ih =>
    refine ih.intern ?_ hi
    rw [h.extends.limit]
    exact hlimit

/-! ## Canonical numbers -/

/-- The table is as large as there are chains in it. -/
theorem Filed.size_eq (h : t.Filed) {chains : Finset (List FnId)}
    (hmem : ∀ chain, chain ∈ chains ↔ ∃ c x, t.get? c = some x ∧ x.chain = chain) : t.size = chains.card := by
  have hget : ∀ i : Nat, t.get? ⟨i⟩ = t.contexts.toList[i]? := fun i => (Array.getElem?_toList ..).symm
  have hnodup : (t.contexts.toList.map Context.chain).Nodup := by
    rw [List.Nodup, List.pairwise_map, List.pairwise_iff_getElem]
    intro i j hi hj hij e
    have hx := (hget i).trans (List.getElem?_eq_getElem hi)
    have hy := (hget j).trans (List.getElem?_eq_getElem hj)
    exact Nat.ne_of_lt hij (congrArg ContextId.num (h.distinct _ _ _ _ hx hy e))
  have heq : (t.contexts.toList.map Context.chain).toFinset = chains := by
    ext chain
    rw [hmem, List.mem_toFinset, List.mem_map]
    constructor
    · rintro ⟨x, hx, rfl⟩
      obtain ⟨i, hi⟩ := List.mem_iff_getElem?.mp hx
      exact ⟨⟨i⟩, x, (hget i).trans hi, rfl⟩
    · rintro ⟨c, x, hx, rfl⟩
      exact ⟨x, List.mem_iff_getElem?.mpr ⟨c.num, (hget c.num).symm.trans hx⟩, rfl⟩
  rw [← heq, List.toFinset_card_of_nodup hnodup, List.length_map, Array.length_toList]
  rfl

/-- The distinct chains that were asked for, each cut to the functions that count. -/
def chainsOf (t : ContextTable) (past : List (List FnId × Option ContextId)) : Finset (List FnId) :=
  ((past.map fun p => t.cut p.1).filter fun chain => chain ≠ []).toFinset

/-- What interning promises after a course of calls, and of all that may follow it. -/
structure Canonical (t : ContextTable) (F : FunctionTable) (past : List (List FnId × Option ContextId)) : Prop where
  /-- The empty chain has no number and changes nothing. -/
  unnumbered : t.intern F [] = .ok (none, t, F)
  /-- Any other chain that starts with a registered function gets a number that stands for it. -/
  numbered : ∀ fn callers, fn.num < F.size → ∃ c x t' F', t.intern F (fn :: callers) = .ok (some c, t', F') ∧
    t'.get? c = some x ∧ x.chain = t.cut (fn :: callers)
  /-- Every answer up to now stands for the chain that was asked for. -/
  empty : ∀ chain, (chain, none) ∈ past → chain = []
  stored : ∀ chain c, (chain, some c) ∈ past → ∃ x, t.get? c = some x ∧ x.chain = t.cut chain
  same : ∀ chain chain' c c', (chain, some c) ∈ past → (chain', some c') ∈ past → (c = c' ↔ t.cut chain = t.cut chain')
  size : t.size = (t.chainsOf past).card
  /-- A hint is the number of a chain with the function innermost. -/
  hints : ∀ fn c, F.hint? fn = some c → ∃ x, t.get? c = some x ∧ x.top = fn
  /-- What is stored stays as it is. -/
  kept : ∀ later t' F', Interning t F later t' F' → t.Extends t'

theorem Answered.canonical {past : List (List FnId × Option ContextId)} (a : t.Answered F past)
    (hlimit : t.depthLimit ≠ some 0) : t.Canonical F past := by
  refine ⟨intern_empty F ((cut_eq_nil hlimit).mpr rfl), fun fn callers hfn => ?_, a.empty, a.stored,
    fun chain chain' c c' hc hc' => ?_, a.filed.size_eq fun chain => ?_, a.hints, fun _ _ _ h => h.extends⟩
  · obtain ⟨c, t', F', hi⟩ := intern_registered a.known hlimit hfn callers
    obtain ⟨x, hx, hchain⟩ := (interned hi).stored
    exact ⟨c, x, t', F', hi, hx, hchain⟩
  · obtain ⟨x, hx, hchain⟩ := a.stored chain c hc
    obtain ⟨x', hx', hchain'⟩ := a.stored chain' c' hc'
    constructor
    · rintro rfl
      cases hx.symm.trans hx'
      exact hchain.symm.trans hchain'
    · intro e
      exact a.filed.distinct c c' x x' hx hx' (hchain.trans (e.trans hchain'.symm))
  · -- The stored chains are the cut ones of the chains that were asked for, but for the empty one.
    rw [chainsOf, List.mem_toFinset, List.mem_filter, List.mem_map, decide_eq_true_iff]
    constructor
    · rintro ⟨⟨⟨asked, answer⟩, hm, rfl⟩, hne⟩
      cases answer with
      | none =>
        obtain rfl := a.empty asked hm
        exact absurd ((cut_eq_nil hlimit).mpr rfl) hne
      | some c =>
        obtain ⟨x, hx, hchain⟩ := a.stored asked c hm
        exact ⟨c, x, hx, hchain⟩
    · rintro ⟨c, x, hx, rfl⟩
      obtain ⟨asked, hm⟩ := a.asked c x hx
      obtain ⟨x', hx', hchain⟩ := a.stored asked c hm
      cases hx.symm.trans hx'
      exact ⟨⟨_, hm, hchain.symm⟩, List.cons_ne_nil _ _⟩

/-- From an empty table with any number of buckets and any bound, over any course of calls: equal chains have equal
numbers and different ones different numbers. -/
theorem intern_canonical (hn : 0 < n) (hlimit : limit ≠ some 0) :
    ∃ t₀, ofBuckets n limit = .ok t₀ ∧ t₀.size = 0 ∧ ∀ F₀ past t F, (∀ fn, F₀.hint? fn = none) →
      Interning t₀ F₀ past t F → t.depthLimit = limit ∧ t.Canonical F past := by
  have h₀ : ofBuckets n limit = .ok { buckets := Array.replicate n [], depthLimit := limit } :=
    ofBuckets_eq_ok.mpr ⟨Nat.ne_of_gt hn, hlimit, rfl⟩
  refine ⟨_, h₀, rfl, fun F₀ past t F hF h => ?_⟩
  have hsame : t.depthLimit = limit := h.extends.limit
  refine ⟨hsame, (h.answered h₀ hlimit hF).canonical ?_⟩
  rw [hsame]
  exact hlimit

/-- The answers to a list of chains, the latest in front. -/
def internAll (t : ContextTable) (F : FunctionTable) (past : List (List FnId × Option ContextId))
    (chains : List (List FnId)) : Except Fault (List (List FnId × Option ContextId) × ContextTable × FunctionTable) :=
  chains.foldlM (fun (past, t, F) chain => do
    let (c, t, F) ← t.intern F chain
    pure ((chain, c) :: past, t, F)) (past, t, F)

theorem Interning.all {past past' : List (List FnId × Option ContextId)} (chains : List (List FnId))
    (h : Interning t₀ F₀ past t F) (hi : t.internAll F past chains = .ok (past', t', F')) :
    Interning t₀ F₀ past' t' F' := by
  induction chains generalizing past t F with
  | nil =>
    cases hi
    exact h
  | cons chain chains ih =>
    rw [internAll, List.foldlM_cons] at hi
    obtain ⟨⟨past₁, t₁, F₁⟩, hfirst, hi⟩ := bind_eq_ok.mp hi
    obtain ⟨⟨c, t₂, F₂⟩, hintern, hfirst⟩ := bind_eq_ok.mp hfirst
    cases hfirst
    exact ih (h.intern hintern) hi

def threeFunctions : FunctionTable :=
  (((FunctionTable.empty.register "main" ⟨0⟩ false).2.register "work" ⟨0⟩ false).2.register "leaf" ⟨0⟩ false).2

/-- The first two chains have the same hash, the fourth is cut to the third, and the table grows twice. -/
def someChains : List (List FnId) :=
  [[⟨0⟩], [⟨0⟩, ⟨0⟩], [⟨2⟩, ⟨1⟩], [⟨2⟩, ⟨1⟩, ⟨0⟩], [⟨1⟩, ⟨0⟩], [], [⟨1⟩], [⟨0⟩, ⟨0⟩]]

theorem intern_canonical_someChains :
    0 < 1 ∧ (some 2 : Option Nat) ≠ some 0 ∧ ∃ t₀ past t F, ofBuckets 1 (some 2) = .ok t₀ ∧
      Interning t₀ .empty past t F ∧
      past.map (·.2) = [some ⟨1⟩, some ⟨4⟩, none, some ⟨3⟩, some ⟨2⟩, some ⟨2⟩, some ⟨1⟩, some ⟨0⟩] ∧
      t.size = 5 ∧ t.resizes = 2 ∧ t.depthLimit = some 2 ∧ t.Canonical F past := by
  have hpos : 0 < 1 := Nat.one_pos
  have hlimit : (some 2 : Option Nat) ≠ some 0 := by decide
  obtain ⟨t₀, h₀, -, hcanonical⟩ := intern_canonical hpos hlimit
  have hrun : (ofBuckets 1 (some 2) >>= fun t => t.internAll threeFunctions [] someChains).map (fun r =>
      (r.1.map (·.2), r.2.1.size, r.2.1.resizes)) =
      .ok ([some ⟨1⟩, some ⟨4⟩, none, some ⟨3⟩, some ⟨2⟩, some ⟨2⟩, some ⟨1⟩, some ⟨0⟩], 5, 2) := by decide +kernel
  rw [h₀] at hrun
  obtain ⟨⟨past, t, F⟩, hall, hend⟩ := map_eq_ok.mp hrun
  simp only [Prod.mk.injEq] at hend
  obtain ⟨hanswers, hsize, hresizes⟩ := hend
  have hempty : ∀ fn, FunctionTable.empty.hint? fn = none := fun _ => rfl
  have hregistered : Interning t₀ .empty [] t₀ threeFunctions := by
    refine .functions (.refl t₀ .empty) fun fn => ?_
    rw [threeFunctions, FunctionTable.hint?_register, FunctionTable.hint?_register, FunctionTable.hint?_register]
  have hsession := hregistered.all someChains hall
  obtain ⟨hdepth, hcanon⟩ := hcanonical .empty past t F hempty hsession
  exact ⟨hpos, hlimit, t₀, past, t, F, h₀, hsession, hanswers, hsize, hresizes, hdepth, hcanon⟩

end ContextTable
end CallGraph
