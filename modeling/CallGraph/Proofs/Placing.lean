/-
  CallGraph.Proofs.Placing — a file that was put where a path leads is read there.

  Paths are followed through directories and links only. Where a file is put for a path there was a file before, or
  nothing in an open directory, so no directory and no link comes or goes (`sameWays_put`). Trees that agree on these
  take every path to the same place (`SameWays.place?_eq`), and what was put there is read there (`read?_put`).
-/

import CallGraph.CommandLine.Run

namespace CallGraph.Files.Tree

variable {t t' : Tree} {place q : Place} (content : ByteArray)

/-! ## Trees with the same ways -/

/-- The same directories and the same links. -/
structure SameWays (t t' : Tree) : Prop where
  working : t'.working = t.working
  directories : ∀ q, t'.isDirectory q = t.isDirectory q
  links : ∀ q target, t'.node? q = some (.link target) ↔ t.node? q = some (.link target)

theorem SameWays.follow_eq (h : SameWays t t') (place : Place) (names : List String) :
    t'.follow place names = t.follow place names := by
  induction names generalizing place with
  | nil => rfl
  | cons name names ih =>
    have hlink := h.links (place ++ [name])
    unfold follow
    rw [h.directories, ih, ih, ih]
    split
    · rfl
    · split
      · rfl
      · split
        · rfl
        · split
          · rename_i target htarget
            rw [(hlink target).mp htarget]
          · rename_i hno
            split
            · rename_i target htarget
              exact absurd ((hlink target).mpr htarget) (hno target)
            · rfl

theorem SameWays.resolve_eq (h : SameWays t t') (links : Nat) (place : Place) (names : List String) :
    t'.resolve links place names = t.resolve links place names := by
  induction links generalizing place names with
  | zero =>
    unfold resolve
    rw [h.follow_eq]
  | succ links ih =>
    unfold resolve
    rw [h.follow_eq]
    split
    · rfl
    · rfl
    · exact ih _ _

theorem SameWays.place?_eq (h : SameWays t t') (path : String) : t'.place? path = t.place? path := by
  unfold place?
  rw [h.working, h.resolve_eq]

/-! ## A file more -/

/-- Something stands at a place or below it. -/
def Covers (t : Tree) (q : Place) : Prop := q = [] ∨ ∃ n ∈ t.nodes, q <+: n.1

theorem node?_of_not_listed (h : t.nodes.lookup q = none) :
    t.node? q = none ∧ ¬ t.Covers q ∨ t.node? q = some (.directory false) ∧ t.Covers q := by
  have hcovers : (q = [] ∨ (t.nodes.any fun n => q.isPrefixOf n.1) = true) ↔ t.Covers q := by
    simp [Covers, List.any_eq_true]
  unfold node?
  rw [h]
  by_cases hq : q = [] ∨ (t.nodes.any fun n => q.isPrefixOf n.1) = true
  · exact .inr ⟨if_pos hq, hcovers.mp hq⟩
  · exact .inl ⟨if_neg hq, fun hc => hq (hcovers.mpr hc)⟩

theorem node?_of_listed {n : Node} (h : t.nodes.lookup q = some n) : t.node? q = some n := by
  unfold node?
  rw [h]

theorem covers_of_node? {n : Node} (h : t.node? q = some n) : t.Covers q := by
  cases hlist : t.nodes.lookup q with
  | some n' =>
    obtain ⟨before, after, hnodes, -⟩ := List.lookup_eq_some_iff.mp hlist
    exact .inr ⟨(q, n'), by simp [hnodes], List.prefix_rfl⟩
  | none =>
    rcases node?_of_not_listed hlist with ⟨hnone, -⟩ | ⟨-, hcovers⟩
    · rw [hnone] at h
      cases h
    · exact hcovers

theorem Covers.mono {p : Place} (h : t.Covers q) (hp : p <+: q) : t.Covers p := by
  rcases h with rfl | ⟨n, hn, hq⟩
  · exact .inl (List.prefix_nil.mp hp)
  · exact .inr ⟨n, hn, hp.trans hq⟩

theorem node?_put_self (t : Tree) (place : Place) :
    (t.put place content).node? place = some (.file content) :=
  node?_of_listed List.lookup_cons_self

theorem lookup_put (hq : q ≠ place) : (t.put place content).nodes.lookup q = t.nodes.lookup q := by
  have hcons : (q == place) = false := by simpa using hq
  have hlater : (t.put place content).nodes.lookup q = (t.nodes.filter fun n => n.1 ≠ place).lookup q := by
    show List.lookup q ((place, _) :: _) = _
    rw [List.lookup_cons, hcons]
  rw [hlater]
  induction t.nodes with
  | nil => rfl
  | cons n nodes ih =>
    by_cases hn : n.1 = place
    · have hne : (q == n.1) = false := by simpa [hn] using hq
      rw [List.filter_cons_of_neg (by simpa using hn), ih, List.lookup_cons, hne]
    · rw [List.filter_cons_of_pos (by simpa using hn), List.lookup_cons, List.lookup_cons, ih]

/-- The directories above a place that are there are enough for a file at the place. -/
theorem covers_put (habove : ∀ p, p <+: place → p ≠ place → t.Covers p) (hq : q ≠ place) :
    (t.put place content).Covers q ↔ t.Covers q := by
  constructor
  · rintro (rfl | ⟨n, hn, hqn⟩)
    · exact .inl rfl
    · rcases List.mem_cons.mp hn with rfl | hn
      · exact habove q hqn hq
      · exact .inr ⟨n, (List.mem_filter.mp hn).1, hqn⟩
  · rintro (rfl | ⟨n, hn, hqn⟩)
    · exact .inl rfl
    · by_cases hplace : n.1 = place
      · exact .inr ⟨(place, .file content), List.mem_cons_self, hplace ▸ hqn⟩
      · exact .inr ⟨n, List.mem_cons_of_mem _ (List.mem_filter.mpr ⟨hn, by simpa using hplace⟩), hqn⟩

theorem node?_put (habove : ∀ p, p <+: place → p ≠ place → t.Covers p) (hq : q ≠ place) :
    (t.put place content).node? q = t.node? q := by
  have hlist := lookup_put (t := t) content hq
  cases h : t.nodes.lookup q with
  | some n => rw [node?_of_listed h, node?_of_listed (hlist.trans h)]
  | none =>
    have hcovers := covers_put content habove hq
    rcases node?_of_not_listed h with ⟨hnode, hnot⟩ | ⟨hnode, hcov⟩
    · rcases node?_of_not_listed (hlist.trans h) with ⟨hnode', -⟩ | ⟨-, hcov'⟩
      · rw [hnode, hnode']
      · exact absurd (hcovers.mp hcov') hnot
    · rcases node?_of_not_listed (hlist.trans h) with ⟨-, hnot'⟩ | ⟨hnode', -⟩
      · exact absurd (hcovers.mpr hcov) hnot'
      · rw [hnode, hnode']

/-! ## Where a path leads for writing -/

/-- A file is there, or nothing and room for one. -/
theorem target?_eq_file {path : String} (h : t.target? path = some (.file place)) :
    t.place? path = some place ∧
      ((∃ old, t.node? place = some (.file old)) ∨ t.node? place = none ∧ t.isOpen place.dropLast = true) := by
  unfold target? at h
  split at h
  · cases h
  · rename_i p hp
    cases hnode : t.node? p with
    | none =>
      simp only [hnode] at h
      split at h
      · rename_i hopen
        cases h
        exact ⟨hp, .inr ⟨hnode, hopen⟩⟩
      · cases h
    | some n =>
      simp only [hnode] at h
      cases n with
      | file old =>
        cases h
        exact ⟨hp, .inl ⟨old, hnode⟩⟩
      | fixed content refusal => cases refusal <;> cases h
      | directory | link | channel | sink | endless | full | closed => cases h

theorem covers_above {path : String} (h : t.target? path = some (.file place)) :
    ∀ p, p <+: place → p ≠ place → t.Covers p := by
  intro p hp hne
  obtain ⟨-, ⟨old, hnode⟩ | ⟨-, hopen⟩⟩ := target?_eq_file h
  · exact (covers_of_node? hnode).mono hp
  · have habove : p <+: place.dropLast := by
      have hplace : place ≠ [] := by
        rintro rfl
        exact hne (List.prefix_nil.mp hp)
      rw [← List.dropLast_concat_getLast hplace] at hp hne
      exact (List.prefix_concat_iff.mp hp).resolve_left hne
    unfold isOpen at hopen
    cases hnode : t.node? place.dropLast with
    | none =>
      rw [hnode] at hopen
      cases hopen
    | some n => exact (covers_of_node? hnode).mono habove

theorem sameWays_put {path : String} (h : t.target? path = some (.file place)) :
    SameWays t (t.put place content) := by
  -- At the place itself there was neither a directory nor a link.
  have hplain : t.isDirectory place = false ∧ ∀ target, t.node? place ≠ some (.link target) := by
    unfold isDirectory
    obtain ⟨-, ⟨old, hnode⟩ | ⟨hnode, -⟩⟩ := target?_eq_file h
    · simp [hnode]
    · simp [hnode]
  refine ⟨rfl, fun q => ?_, fun q target => ?_⟩
  · by_cases hq : q = place
    · rw [hq, hplain.1, isDirectory, node?_put_self content]
    · rw [isDirectory, isDirectory, node?_put content (covers_above h) hq]
  · by_cases hq : q = place
    · rw [hq, node?_put_self]
      exact iff_of_false nofun (hplain.2 target)
    · rw [node?_put content (covers_above h) hq]

/-- What is written to the file that a path leads to is read there. -/
theorem read?_put {path : String} (h : t.target? path = some (.file place)) :
    (t.put place content).read? path = some content := by
  have hplace := (sameWays_put content h).place?_eq path
  rw [(target?_eq_file h).1] at hplace
  unfold read?
  rw [hplace, Option.bind_some, node?_put_self]

end CallGraph.Files.Tree
