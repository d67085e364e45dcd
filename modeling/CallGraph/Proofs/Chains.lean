/-
  CallGraph.Proofs.Chains — which chain a context stands for.

  A context stands for what a function stack shows from its top down to the nearest marker, cut to
  the functions that count. Interning the chain under a new innermost function always gives a
  context that stands for it, and every context that was there keeps its chain (`intern_ok`). The hint
  and the buckets only decide where the context is found, never what it stands for: `Interned` lists the ways
  in which a chain gets its number.
-/

import CallGraph.Proofs.Indices

namespace CallGraph

namespace FnStack

@[simp] theorem chain_nil : chain ⟨[]⟩ = [] := rfl

@[simp] theorem chain_marker (slots : List (Option FnId)) : chain ⟨none :: slots⟩ = [] := rfl

@[simp] theorem chain_function (fn : FnId) (slots : List (Option FnId)) :
    chain ⟨some fn :: slots⟩ = fn :: chain ⟨slots⟩ := rfl

theorem mem_of_mem_chain {s : FnStack} {fn : FnId} (h : fn ∈ s.chain) : some fn ∈ s.slots := by
  obtain ⟨o, ho, rfl⟩ := List.mem_filterMap.mp h
  exact (List.takeWhile_sublist _).subset ho

/-- Cutting back to the depth of a lower part leaves that part. -/
theorem cutTo_length (above below : List (Option FnId)) :
    cutTo ⟨above ++ below⟩ below.length = .ok ⟨below⟩ := by
  simp [cutTo, depth]

theorem cutTo_zero (s : FnStack) : s.cutTo 0 = .ok .empty := by
  rw [cutTo, if_neg (Nat.not_lt_zero _), Nat.sub_zero, depth, List.drop_length]
  rfl

end FnStack

namespace ContextTable

theorem mem_of_mem_cut {t : ContextTable} {chain : List FnId} {fn : FnId} (h : fn ∈ t.cut chain) : fn ∈ chain := by
  unfold cut at h
  split at h
  · exact h
  · exact List.mem_of_mem_take h

/-- Contexts that are there keep their chains, and the bound stays. -/
structure Extends (t t' : ContextTable) : Prop where
  limit : t'.depthLimit = t.depthLimit
  kept : ∀ c x, t.get? c = some x → t'.get? c = some x

theorem Extends.refl (t : ContextTable) : Extends t t := ⟨rfl, fun _ _ h => h⟩

theorem Extends.trans {t t' t'' : ContextTable} (h : Extends t t') (h' : Extends t' t'') : Extends t t'' :=
  ⟨h'.limit.trans h.limit, fun c x hc => h'.kept c x (h.kept c x hc)⟩

theorem num_ne {c d : ContextId} (h : c ≠ d) : c.num ≠ d.num := by
  intro e
  cases c; cases d
  exact h (congrArg ContextId.mk e)

theorem get?_insert (t : ContextTable) (top : FnId) (callers : List FnId) (hash : UInt64) (c : ContextId) :
    (t.insert top callers hash).2.get? c =
      if c = ⟨t.size⟩ then some { top, callers, hash } else t.get? c := by
  obtain ⟨contexts, buckets, limit, resizes⟩ := t
  have hget : (contexts.push { top, callers, hash })[c.num]? =
      if c = ⟨contexts.size⟩ then some { top, callers, hash } else contexts[c.num]? := by
    rw [Array.getElem?_push]
    by_cases e : c = ⟨contexts.size⟩
    · subst e; simp
    · simp [e, num_ne e]
  simp only [insert]
  split <;> exact hget

theorem insert_spec (t : ContextTable) (top : FnId) (callers : List FnId) (hash : UInt64) :
    Extends t (t.insert top callers hash).2 ∧
      (t.insert top callers hash).2.get? (t.insert top callers hash).1 = some { top, callers, hash } := by
  refine ⟨⟨?_, fun c x hc => ?_⟩, ?_⟩
  · obtain ⟨contexts, buckets, limit, resizes⟩ := t
    simp only [insert]
    split <;> rfl
  · have hne : c ≠ ⟨t.size⟩ := by
      intro e
      rw [e] at hc
      exact absurd (Array.getElem?_eq_some_iff.mp hc).1 (Nat.lt_irrefl _)
    rw [get?_insert, if_neg hne, hc]
  · exact (get?_insert ..).trans (if_pos rfl)

end ContextTable

/-- A context stands for what a function stack shows. -/
def Stands (t : ContextTable) (c : ContextId) (slots : List (Option FnId)) : Prop :=
  ∃ x, t.get? c = some x ∧ x.chain = t.cut (FnStack.chain ⟨slots⟩)

namespace Stands

theorem mono {t t' : ContextTable} (h : t.Extends t') {c : ContextId} {slots : List (Option FnId)}
    (hs : Stands t c slots) : Stands t' c slots := by
  obtain ⟨x, hx, hc⟩ := hs
  refine ⟨x, h.kept c x hx, hc.trans ?_⟩
  simp only [ContextTable.cut, h.limit]

/-- The innermost function of the context is the one on top of the stack. -/
theorem top {t : ContextTable} {c : ContextId} {fn : FnId} {slots : List (Option FnId)}
    (h : Stands t c (some fn :: slots)) : ∃ x, t.get c = .ok x ∧ x.top = fn := by
  obtain ⟨x, hx, hc⟩ := h
  refine ⟨x, by simp [ContextTable.get, hx], ?_⟩
  simp only [Context.chain, ContextTable.cut, FnStack.chain_function] at hc
  split at hc
  · exact (List.cons.inj hc).1
  · rename_i n _
    cases n with
    | zero => simp at hc
    | succ n => simpa using (List.cons.inj hc).1

end Stands

namespace ContextTable

variable {t t' : ContextTable} {F F' : FunctionTable} {chain : List FnId}

/-- A bound lets the innermost function through. -/
theorem cut_cons (hlimit : t.depthLimit ≠ some 0) (fn : FnId) (callers : List FnId) :
    ∃ rest, t.cut (fn :: callers) = fn :: rest := by
  unfold cut
  split
  · exact ⟨_, rfl⟩
  · rename_i k hk
    cases k with
    | zero => exact absurd hk hlimit
    | succ k => exact ⟨_, rfl⟩

theorem get_eq_ok_iff {c : ContextId} {x : Context} : t.get c = .ok x ↔ t.get? c = some x := by
  unfold get
  split <;> simp_all

theorem holds_chain {c : ContextId} {hash : UInt64} (h : t.holds hash chain c = .ok true) :
    ∃ x, t.get? c = some x ∧ x.chain = chain := by
  obtain ⟨x, hx, h⟩ := bind_eq_ok.mp h
  simp only [pure_eq_ok, Except.ok.injEq, Bool.and_eq_true, decide_eq_true_eq] at h
  exact ⟨x, get_eq_ok_iff.mp hx, h.2⟩

theorem bucket_of_lookup {hash : UInt64} {o : Option ContextId} (h : t.lookup hash chain = .ok o) :
    (t.buckets.getD (bucketOf hash t.buckets.size) []).findM? (t.holds hash chain) = .ok o := by
  unfold lookup at h
  rw [Array.getD_eq_getD_getElem?]
  split at h
  · cases h
  · rename_i ids hids
    rw [hids]
    exact h

theorem lookup_chain {c : ContextId} {hash : UInt64} (h : t.lookup hash chain = .ok (some c)) :
    ∃ x, t.get? c = some x ∧ x.chain = chain :=
  holds_chain (findM?_eq_some (bucket_of_lookup h)).2

/-- How a chain gets its number: the empty one has none, and another one is there under the hint of its innermost
function or in its bucket, or is put in. -/
inductive Interned (t : ContextTable) (F : FunctionTable) (chain : List FnId) :
    Option ContextId → ContextTable → FunctionTable → Prop
  | empty : t.cut chain = [] → Interned t F chain none t F
  | hinted {top : FnId} {callers : List FnId} {f : Function} {c : ContextId} : t.cut chain = top :: callers →
      F.nodes[top.num]? = some f → f.hint = some c → t.holds (chainHash (top :: callers)) (top :: callers) c = .ok true →
      Interned t F chain (some c) t F
  | found {top : FnId} {callers : List FnId} {f : Function} {c : ContextId} : t.cut chain = top :: callers →
      F.nodes[top.num]? = some f → t.lookup (chainHash (top :: callers)) (top :: callers) = .ok (some c) →
      Interned t F chain (some c) t (F.setHint top c)
  | added {top : FnId} {callers : List FnId} {f : Function} : t.cut chain = top :: callers →
      F.nodes[top.num]? = some f → t.lookup (chainHash (top :: callers)) (top :: callers) = .ok none →
      Interned t F chain (some (t.insert top callers (chainHash (top :: callers))).1)
        (t.insert top callers (chainHash (top :: callers))).2
        (F.setHint top (t.insert top callers (chainHash (top :: callers))).1)

theorem interned {c : Option ContextId} (h : t.intern F chain = .ok (c, t', F')) : Interned t F chain c t' F' := by
  unfold intern at h
  split at h
  · rename_i hcut
    cases h
    exact .empty hcut
  · rename_i top callers hcut
    obtain ⟨f, hf, h⟩ := bind_eq_ok.mp h
    have hnode := FunctionTable.node_of_get hf
    obtain ⟨hinted, hhint, h⟩ := bind_eq_ok.mp h
    cases hinted with
    | some d =>
      cases h
      obtain ⟨hhint, hholds⟩ := filterM_eq_some hhint
      exact .hinted hcut hnode hhint hholds
    | none =>
      obtain ⟨found, hfound, h⟩ := bind_eq_ok.mp h
      cases found with
      | some d =>
        cases h
        exact .found hcut hnode hfound
      | none =>
        cases h
        exact .added hcut hnode hfound

/-- A chain whose innermost function is registered gets a number. -/
theorem intern_registered (h : t.Known F) (hlimit : t.depthLimit ≠ some 0) {fn : FnId} (hfn : fn.num < F.size)
    (callers : List FnId) : ∃ c t' F', t.intern F (fn :: callers) = .ok (some c, t', F') := by
  obtain ⟨f, hf, hnode⟩ := FunctionTable.get_ok hfn
  obtain ⟨rest, hcut⟩ := cut_cons hlimit fn callers
  obtain ⟨hinted, hhint⟩ := h.hinted_ok hnode (chainHash (fn :: rest)) (fn :: rest)
  obtain ⟨found, hfound⟩ := h.lookup_ok (chainHash (fn :: rest)) (fn :: rest)
  unfold intern
  simp only [hcut, hf, ok_bind, hhint, hfound]
  cases hinted with
  | some c => exact ⟨_, _, _, rfl⟩
  | none =>
    cases found with
    | some c => exact ⟨_, _, _, rfl⟩
    | none => exact ⟨_, _, _, rfl⟩

theorem Interned.extends {c : Option ContextId} (i : Interned t F chain c t' F') : t.Extends t' := by
  cases i with
  | empty | hinted | found => exact .refl t
  | added => exact (insert_spec ..).1

namespace Interned

variable {c : Option ContextId}

theorem stored {d : ContextId} (i : Interned t F chain (some d) t' F') :
    ∃ x, t'.get? d = some x ∧ x.chain = t.cut chain := by
  cases i with
  | hinted hcut _ _ hholds =>
    rw [hcut]
    exact holds_chain hholds
  | found hcut _ hfound =>
    rw [hcut]
    exact lookup_chain hfound
  | added hcut =>
    rw [hcut]
    exact ⟨_, (insert_spec ..).2, rfl⟩

/-- The context is the one of the stack with the function on top. -/
theorem stands {fn : FnId} {slots : List (Option FnId)} (i : Interned t F (FnStack.chain ⟨some fn :: slots⟩) c t' F')
    (hlimit : t.depthLimit ≠ some 0) : ∃ d, c = some d ∧ Stands t' d (some fn :: slots) := by
  rw [FnStack.chain_function] at i
  cases c with
  | none =>
    obtain ⟨rest, hcut⟩ := cut_cons hlimit fn (FnStack.chain ⟨slots⟩)
    cases i with
    | empty hempty =>
      rw [hcut] at hempty
      cases hempty
  | some d =>
    obtain ⟨x, hx, hchain⟩ := i.stored
    refine ⟨d, rfl, x, hx, hchain.trans ?_⟩
    simp only [cut, i.extends.limit, FnStack.chain_function]

/-- Only numbers that were handed out are filed and hinted at again. -/
theorem known (i : Interned t F chain c t' F') (h : t.Known F) : t'.Known F' := by
  have hlt : ∀ {d : ContextId} {x : Context}, t.get? d = some x → d.num < t.size :=
    fun hx => (Array.getElem?_eq_some_iff.mp hx).1
  cases i with
  | empty | hinted => exact h
  | found _ hnode hfound =>
    obtain ⟨x, hx, -⟩ := lookup_chain hfound
    exact h.setHint (Array.getElem?_eq_some_iff.mp hnode).1 (hlt hx)
  | added _ hnode =>
    refine (h.insert _ _ _).setHint (Array.getElem?_eq_some_iff.mp hnode).1 ?_
    rw [(insert_eq ..).1, size_insert]
    exact Nat.lt_succ_self _

/-- The functions change by a hint at most. -/
theorem functions (i : Interned t F chain c t' F') : F' = F ∨ ∃ fn d, F' = F.setHint fn d := by
  cases i with
  | empty | hinted => exact .inl rfl
  | found | added => exact .inr ⟨_, _, rfl⟩

theorem size (i : Interned t F chain c t' F') : F'.size = F.size := by
  rcases i.functions with rfl | ⟨fn, d, rfl⟩
  · rfl
  · exact FunctionTable.size_modify ..

theorem activeCount (i : Interned t F chain c t' F') (g : FnId) : F'.activeCount g = F.activeCount g := by
  rcases i.functions with rfl | ⟨fn, d, rfl⟩
  · rfl
  · exact FunctionTable.activeCount_modify_of_eq F fn (f := fun f => { f with hint := some d }) (fun _ => rfl) g

/-- A context that was not there is the one that was asked for. -/
theorem new (i : Interned t F chain c t' F') {d : ContextId} {x : Context} (hx : t'.get? d = some x) :
    t.get? d = some x ∨ c = some d := by
  cases i with
  | empty | hinted | found => exact .inl hx
  | added =>
    rcases write_cases (t.get?_insert _ _ _) hx with ⟨e, -⟩ | ⟨-, hx⟩
    · exact .inr (congrArg some e.symm)
    · exact .inl hx

end Interned

theorem intern_ok {t : ContextTable} {functions : FunctionTable} {fn : FnId} (h : t.Known functions)
    (hlimit : t.depthLimit ≠ some 0) (hfn : fn.num < functions.size) (slots : List (Option FnId)) :
    ∃ c t' functions', t.intern functions (FnStack.chain ⟨some fn :: slots⟩) = .ok (some c, t', functions') ∧
      Stands t' c (some fn :: slots) ∧ t.Extends t' ∧ t'.Known functions' ∧ functions'.size = functions.size ∧
      ∀ g, functions'.activeCount g = functions.activeCount g := by
  obtain ⟨c, t', functions', hi⟩ := intern_registered h hlimit hfn (FnStack.chain ⟨slots⟩)
  have i := interned hi
  obtain ⟨d, hd, hs⟩ := i.stands hlimit
  cases hd
  exact ⟨c, t', functions', hi, hs, i.extends, i.known h, i.size, i.activeCount⟩

end ContextTable
end CallGraph
