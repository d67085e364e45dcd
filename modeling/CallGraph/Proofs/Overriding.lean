/-
  CallGraph.Proofs.Overriding — settings under those of a command line.

  A depth on the command line replaces the one there is, and every name to skip comes behind the names there are,
  unless it is one of them (`Merged`). Nothing else changes (`Args.apply_overrides`), and a second time nothing changes
  at all. As no depth is taken from a command line that is 0 (`depth_of_parse`), settings that can be used stay so.
-/

import CallGraph.CommandLine.Parser
import CallGraph.Proofs.Storage
import Mathlib.Data.List.Basic
import Mathlib.Data.List.Induction

namespace CallGraph

/-! ## Names -/

/-- Some names come behind others in the order of their first appearance, and only those that are not there. -/
def Merged (names before after : List String) : Prop :=
  ∃ new, after = before ++ new ∧ (∀ name, name ∈ new ↔ name ∈ names ∧ name ∉ before) ∧
    new.Pairwise fun x y => names.idxOf x < names.idxOf y

section
variable {names before after : List String}

theorem Merged.nil (before : List String) : Merged [] before before :=
  ⟨[], (List.append_nil before).symm, fun _ => iff_of_false List.not_mem_nil fun h => List.not_mem_nil h.1, .nil⟩

theorem Merged.mem (h : Merged names before after) {name : String} : name ∈ after ↔ name ∈ before ∨ name ∈ names := by
  obtain ⟨new, rfl, hnew, -⟩ := h
  rw [List.mem_append, hnew]
  tauto

/-- More names at the end leave the first appearances of the others where they are. -/
theorem pairwise_idxOf_append {new : List String} (h : new.Pairwise fun x y => names.idxOf x < names.idxOf y)
    (hnew : ∀ name ∈ new, name ∈ names) (more : List String) :
    new.Pairwise fun x y => (names ++ more).idxOf x < (names ++ more).idxOf y := by
  refine h.imp_of_mem fun {x y} hx hy hlt => ?_
  rwa [List.idxOf_append_of_mem (hnew x hx), List.idxOf_append_of_mem (hnew y hy)]

/-- A name that is there comes again. -/
theorem Merged.known (h : Merged names before after) {name : String} (hin : name ∈ after) :
    Merged (names ++ [name]) before after := by
  have hmem := h.mem.mp hin
  obtain ⟨new, rfl, hnew, horder⟩ := h
  refine ⟨new, rfl, fun x => ?_, pairwise_idxOf_append horder (fun x hx => ((hnew x).mp hx).1) [name]⟩
  rw [hnew, List.mem_append, List.mem_singleton]
  constructor
  · exact fun ⟨hx, hb⟩ => ⟨.inl hx, hb⟩
  · rintro ⟨hx | rfl, hb⟩
    · exact ⟨hx, hb⟩
    · exact ⟨hmem.resolve_left hb, hb⟩

/-- A name comes that is not there, so that it appears first behind all others. -/
theorem Merged.fresh (h : Merged names before after) {name : String} (hout : name ∉ after) :
    Merged (names ++ [name]) before (after ++ [name]) := by
  obtain ⟨hbefore, hnames⟩ := not_or.mp (mt h.mem.mpr hout)
  obtain ⟨new, rfl, hnew, horder⟩ := h
  have hsub : ∀ x ∈ new, x ∈ names := fun x hx => ((hnew x).mp hx).1
  refine ⟨new ++ [name], List.append_assoc .., fun x => ?_, ?_⟩
  · rw [List.mem_append, hnew, List.mem_append, List.mem_singleton]
    constructor
    · rintro (⟨hx, hb⟩ | rfl)
      · exact ⟨.inl hx, hb⟩
      · exact ⟨.inr rfl, hbefore⟩
    · rintro ⟨hx | hx, hb⟩
      · exact .inl ⟨hx, hb⟩
      · exact .inr hx
  · refine List.pairwise_append.mpr ⟨pairwise_idxOf_append horder hsub [name], List.pairwise_singleton .., ?_⟩
    intro x hx y hy
    obtain rfl := List.mem_singleton.mp hy
    rw [List.idxOf_append_of_mem (hsub x hx), List.idxOf_append_of_notMem hnames]
    exact Nat.lt_of_lt_of_le (List.idxOf_lt_length_of_mem (hsub x hx)) (Nat.le_add_right ..)

/-- One name more. -/
theorem Merged.snoc (h : Merged names before after) (name : String) :
    Merged (names ++ [name]) before (if name ∈ after then after else after ++ [name]) := by
  split
  · rename_i hin
    exact h.known hin
  · rename_i hout
    exact h.fresh hout

end

/-! ## Settings -/

namespace Config

variable {c : Config}

theorem isSkipped_iff {name : String} : c.isSkipped name = true ↔ name ∈ c.skip := List.contains_iff_mem

theorem addSkip_eq (c : Config) (name : String) :
    c.addSkip name = { c with skip := if name ∈ c.skip then c.skip else c.skip ++ [name] } := by
  unfold addSkip
  by_cases h : name ∈ c.skip
  · rw [if_pos (isSkipped_iff.mpr h), if_pos h]
  · rw [if_neg fun e => h (isSkipped_iff.mp e), if_neg h]

/-- Adding names changes the names only. -/
theorem addSkips_eq (names : List String) (c : Config) :
    ∃ skip, names.foldl addSkip c = { c with skip } ∧ Merged names c.skip skip := by
  -- From the end: whether the last name is new is decided by those before it.
  induction names using List.reverseRecOn with
  | nil => exact ⟨c.skip, rfl, .nil c.skip⟩
  | append_singleton names name ih =>
    obtain ⟨skip, hfold, hmerged⟩ := ih
    refine ⟨_, ?_, hmerged.snoc name⟩
    rw [List.foldl_append, hfold, List.foldl_cons, List.foldl_nil, addSkip_eq]

/-- Names that are there are not added. -/
theorem addSkips_known {names : List String} (h : ∀ name ∈ names, name ∈ c.skip) : names.foldl addSkip c = c := by
  induction names with
  | nil => rfl
  | cons name names ih =>
    obtain ⟨hname, hnames⟩ := List.forall_mem_cons.mp h
    rw [List.foldl_cons, addSkip, if_pos (isSkipped_iff.mpr hname), ih hnames]

end Config

namespace Args

/-- What the command line makes of some settings. -/
structure Overrides (a : Args) (c c' : Config) : Prop where
  depth : c'.contextDepth = a.contextDepth.or c.contextDepth
  skip : Merged a.skip c.skip c'.skip
  rest : c' = { c with contextDepth := c'.contextDepth, skip := c'.skip }

variable {a : Args} {c c' : Config}

theorem apply_overrides (a : Args) (c : Config) : a.Overrides c (a.apply c) := by
  obtain ⟨skip, heq, hmerged⟩ := Config.addSkips_eq a.skip { c with contextDepth := a.contextDepth.or c.contextDepth }
  rw [apply, heq]
  exact ⟨rfl, hmerged, rfl⟩

/-- What is overridden stays as it is. -/
theorem Overrides.apply_eq (h : a.Overrides c c') : a.apply c' = c' := by
  have hdepth : a.contextDepth.or c'.contextDepth = c'.contextDepth := by
    rw [h.depth]
    cases a.contextDepth <;> rfl
  rw [apply, hdepth]
  exact Config.addSkips_known fun name hname => h.skip.mem.mpr (.inr hname)

/-- The sizes of tables and stacks are not overridden. -/
theorem Overrides.fits_eq (h : a.Overrides c c') : c'.fits = c.fits := by
  rw [h.rest]
  rfl

theorem Overrides.check_ok (h : a.Overrides c c') (hdepth : a.contextDepth ≠ some 0) (hc : c.check = .ok ()) :
    c'.check = .ok () := by
  have hused : c'.contextDepth ≠ some 0 := by
    rw [h.depth]
    cases ha : a.contextDepth with
    | none =>
      intro hzero
      have hzero : c.contextDepth = some 0 := hzero
      rw [Config.check, if_pos hzero] at hc
      cases hc
    | some n => exact fun e => hdepth (ha.trans e)
  -- Only the depth is checked that may have changed.
  rw [h.rest]
  unfold Config.check at hc ⊢
  rw [if_neg hused]
  split at hc
  · cases hc
  · exact hc

end Args

/-! ## Words -/

namespace CommandLine

/-- What an outcome satisfies if it is one. -/
def Yields {ε α : Type} (p : α → Prop) (x : Except ε α) : Prop := ∀ a, x = .ok a → p a

section
variable {ε α β : Type} {p : α → Prop} {q : β → Prop} {x : Except ε α}

theorem Yields.ok {a : α} (h : p a) : Yields p (.ok a : Except ε α) := fun _ e => Except.ok.inj e ▸ h

theorem Yields.error (p : α → Prop) (e : ε) : Yields p (.error e) := fun _ h => nomatch h

theorem Yields.bind {f : α → Except ε β} (hx : Yields p x) (hf : ∀ a, p a → Yields q (f a)) : Yields q (x >>= f) := by
  intro b hb
  obtain ⟨a, ha, hb⟩ := bind_eq_ok.mp hb
  exact hf a (hx a ha) b hb

theorem Yields.foldlM {f : α → β → Except ε α} (hf : ∀ a b, p a → Yields p (f a b)) (l : List β) {a : α} (h : p a) :
    Yields p (l.foldlM f a) := by
  induction l generalizing a with
  | nil => exact .ok h
  | cons b l ih =>
    rw [List.foldlM_cons]
    exact (hf a b h).bind fun a h => ih h

end

theorem readDepth_yields (s : String) : Yields (· ≠ 0) (readDepth s) := by
  unfold readDepth
  refine Yields.bind (p := fun _ => True) (fun _ _ => trivial) fun n _ => ?_
  split
  · exact .error _ _
  · rename_i hne
    exact .ok hne

theorem once_yields {α : Type} {p : α → Prop} {before : Option α} {value : Except UsageError α} (h : Yields p value) :
    Yields (fun after => ∃ a, after = some a ∧ p a) (once before value) := by
  unfold once
  split
  · exact .error _ _
  · intro after e
    obtain ⟨a, ha, rfl⟩ := map_eq_ok.mp e
    exact ⟨a, rfl, h a ha⟩

/-- No depth of 0 was taken in. -/
def Draft.Usable (d : Draft) : Prop := d.contextDepth ≠ some 0

namespace Draft

variable {d : Draft}

theorem setOption_usable (h : d.Usable) (o : ValueOption) (value : String) : Yields Usable (d.setOption o value) := by
  have hall : ∀ {α : Type} (x : Except UsageError α), Yields (fun _ => True) x := fun _ _ _ => trivial
  cases o with
  | contextDepth =>
    refine (once_yields (readDepth_yields value)).bind fun depth hdepth => .ok ?_
    obtain ⟨n, rfl, hn⟩ := hdepth
    exact fun e => hn (Option.some.inj e)
  | skip => exact .ok h
  | json => exact (hall _).bind fun _ _ => .ok h
  | top => exact (hall _).bind fun _ _ => .ok h

theorem setFlag_usable (h : d.Usable) (f : Flag) : Yields Usable (d.setFlag f) := by
  cases f with
  | quiet =>
    simp only [setFlag]
    split
    · exact .error _ _
    · exact .ok h
  | help => exact .error _ _

theorem setTrace_usable (h : d.Usable) (name : String) : Yields Usable (d.setTrace name) :=
  Yields.bind (p := fun _ => True) (fun _ _ => trivial) fun _ _ => .ok h

end Draft

/-- What was taken in is usable. -/
def Parser.Usable (p : Parser) : Prop := p.draft.Usable

namespace Parser

variable {p : Parser}

theorem settle_usable (h : p.Usable) : Yields Usable p.settle := by
  have hdraft : ∀ draft : Draft, draft.Usable →
      Yields Usable (.ok { p with draft, held := .nothing } : Except UsageError Parser) := fun _ hd => .ok hd
  unfold settle
  split
  · exact hdraft _ h
  · exact .error _ _
  · exact (Draft.setOption_usable h _ _).bind hdraft
  · exact (Draft.setTrace_usable h _).bind hdraft

theorem takeFlag_usable (h : p.Usable) (f : Flag) : Yields Usable (p.takeFlag f) :=
  (settle_usable h).bind fun _ hp => (Draft.setFlag_usable hp f).bind fun _ hd => .ok hd

theorem takeOption_usable (h : p.Usable) (o : ValueOption) (value : Option String) :
    Yields Usable (p.takeOption o value) := by
  refine (settle_usable h).bind fun p hp => ?_
  cases value with
  | none => exact .ok hp
  | some text => exact (Draft.setOption_usable hp o text).bind fun _ hd => .ok hd

theorem takeLong_usable (h : p.Usable) (name : String) (value : Option String) : Yields Usable (p.takeLong name value) := by
  unfold takeLong
  split
  · exact takeOption_usable h _ _
  · exact takeFlag_usable h _
  · exact .error _ _
  · exact .error _ _

theorem takeLetter_usable (h : p.Usable) (letter : Char) : Yields Usable (p.takeLetter letter) := by
  unfold takeLetter
  split
  · exact takeFlag_usable h _
  · exact .error _ _

theorem takeTrace_usable (h : p.Usable) (name : String) : Yields Usable (p.takeTrace name) := by
  unfold takeTrace
  split
  · exact .error _ _
  · exact (settle_usable h).bind fun _ hp => .ok hp

theorem take_usable (h : p.Usable) (word : String) : Yields Usable (p.take word) := by
  unfold take
  split
  · exact takeTrace_usable h word
  · split
    · exact .ok h
    · exact takeLong_usable h _ _
    · exact Yields.foldlM (fun _ letter hp => takeLetter_usable hp letter) _ h
    · unfold takePlain
      split
      · exact .ok h
      · exact takeTrace_usable h _

end Parser

/-- No command line asks for a depth of 0. -/
theorem depth_of_parse {words : List String} {a : Args} (h : parse words = .ok a) : a.contextDepth ≠ some 0 := by
  have hparse : Yields (fun a : Args => a.contextDepth ≠ some 0) (parse words) := by
    have hstart : Parser.Usable {} := fun e => nomatch e
    refine (Yields.foldlM (fun _ word hp => Parser.take_usable hp word) words hstart).bind fun p hp => ?_
    refine (Parser.settle_usable hp).bind fun p hp => ?_
    dsimp only
    split
    · exact .error _ _
    · exact .ok hp
  exact hparse a h

end CommandLine

end CallGraph
