/-
  CallGraph.Proofs.Resolving — a block is billed to the one anchor of its key.

  The anchor of a key is looked for along the hints before the directory is asked, and a hint may be out of
  date, or be for another thread, another context or a slot that was filled again. In every state that can be
  reached a live block runs, and it is billed to the only live anchor for it, its thread and the context that
  is active then, which is made exactly if none was live. The reference engine without hints comes to the same
  anchors (`enterBlock_resolves`).
-/

import CallGraph.Proofs.Hintless

namespace CallGraph

namespace Directory

variable {d d' : Directory} {a : AnchorId} {key : AnchorKey}

/-- What an anchor is for, if it is live. -/
def keyOf (d : Directory) (a : AnchorId) : Option AnchorKey := (d.get? a).map (·.key)

theorem keyOf_eq_some : d.keyOf a = some key ↔ d.holds a key = true := by
  rw [holds_iff, keyOf, Option.map_eq_some_iff]

theorem keyOf_eq_none : d.keyOf a = none ↔ d.get? a = none :=
  Option.map_eq_none_iff

theorem keyOf_unhinted (d : Directory) : d.unhinted.keyOf = d.keyOf := by
  funext a
  simp only [keyOf, get?_unhinted, Option.map_map]
  rfl

theorem Keeps.keyOf (h : d.Keeps d') (ha : d.keyOf a = some key) : d'.keyOf a = some key := by
  obtain ⟨y, hy, rfl⟩ := Option.map_eq_some_iff.mp ha
  obtain ⟨y', hy', hk⟩ := h a y hy
  rw [Directory.keyOf, hy', Option.map_some, hk]

/-- The anchor `a` was found or made for a key. The directory was `d` before and is `d'` after. -/
structure Resolves (d d' : Directory) (key : AnchorKey) (a : AnchorId) : Prop where
  live : d'.keyOf a = some key
  only : ∀ b, d'.keyOf b = some key → b = a
  found : d'.lookup key = some a
  /-- No anchor goes, and no other one comes. -/
  others : ∀ b, d'.keyOf b = d.keyOf b ∨ b = a ∧ d.keyOf b = none
  /-- An anchor is made exactly if there was none for the key. -/
  made : d.keyOf a = none ↔ ∀ b, d.keyOf b ≠ some key
  size : d'.size = d.size + (d.keyOf a).isNone.toNat

end Directory

namespace Tracker

variable {t t' : Tracker} {config : Config} {ops : List Op}

theorem Entered.resolves {key : AnchorKey} {sc : Scene ContextId Kept AnchorId} {x : Transfer} {skip : Bool}
    {a : AnchorId} (e : Entered t key sc x skip a t') (h : t.Inv) (o : t.InOrder)
    (hkept : t.anchors.Keeps t'.anchors) (ha : t'.anchors.keyOf a = some key) :
    t.anchors.Resolves t'.anchors key a := by
  have hslots := h.tables.anchorSlots
  obtain ⟨hfiled, hnew⟩ := e.anchors_filed hslots o.anchors
  have honly : ∀ b, t'.anchors.keyOf b = some key → b = a := by
    intro b hb
    obtain ⟨y, hy, hk⟩ := Option.map_eq_some_iff.mp hb
    obtain ⟨z, hz, hk'⟩ := Option.map_eq_some_iff.mp ha
    exact hfiled.distinct b a y z hy hz (hk.trans hk'.symm)
  refine ⟨ha, honly, hfiled.lookup_eq_some_iff.mpr (Directory.keyOf_eq_some.mp ha), fun b => ?_, ?_, ?_⟩
  · cases hb : t.anchors.keyOf b with
    | some k => exact .inl (hkept.keyOf hb)
    | none =>
      cases hb' : t'.anchors.keyOf b with
      | none => exact .inl rfl
      | some k =>
        obtain ⟨y, hy, -⟩ := Option.map_eq_some_iff.mp hb'
        obtain ⟨⟨y₀, hy₀, -⟩ | ⟨rfl, -⟩, -⟩ := e.of_live hslots hy
        · rw [Directory.keyOf_eq_none, hy₀] at hb
          cases hb
        · exact .inr ⟨rfl, rfl⟩
  · constructor
    · intro hnone b hb
      rw [honly b (hkept.keyOf hb), hnone] at hb
      cases hb
    · intro hnone
      cases hk : t.anchors.keyOf a with
      | none => rfl
      | some k =>
        -- An anchor that stays keeps its key, so this one was for the key before.
        rw [hkept.keyOf hk] at ha
        exact absurd (hk.trans ha) (hnone a)
  · obtain ⟨hholds, hsize⟩ | ⟨hnone, hsize⟩ := hnew
    · rw [hsize, Directory.keyOf_eq_some.mpr hholds]
      rfl
    · cases hk : t.anchors.keyOf a with
      | none => exact hsize
      | some k =>
        obtain ⟨y, hy, rfl⟩ := Option.map_eq_some_iff.mp hk
        rw [hkept.keyOf hk] at ha
        exact absurd (Option.some.inj ha) (hnone a y hy)

/-- In every state that can be reached, by whatever hints, a live block is billed to the one anchor that is
live for its key, and the reference engine without hints bills it to the same one of the same anchors. -/
theorem enterBlock_resolves (h : runFrom config ops = .ok t) (pos : Position) {id : BlockId}
    (hid : t.blocks.contains id = true) :
    ∃ a t' c, t.enterBlock pos id = .ok (a, t') ∧ t'.threads.current = pos.thread ∧
      t'.thread.exec.context = some c ∧
      t.anchors.Resolves t'.anchors { block := id, context := c, thread := pos.thread } a ∧
      ∃ s s', runPlainlyFrom config ops = .ok s ∧ s.anchors.keyOf = t.anchors.keyOf ∧
        s.enterPlainly pos id = .ok (a, s') ∧ s'.anchors.keyOf = t'.anchors.keyOf := by
  have hreach := reach_runFrom h
  obtain ⟨hinv, -⟩ := reach_inv hreach
  have o := reach_inOrder hreach
  obtain ⟨r, hr⟩ := Option.isSome_iff_exists.mp hid
  obtain ⟨a, t', he, -, g⟩ := enterBlock_ok hinv pos hr
  obtain ⟨hstays, c, hctx, y, hy, hkey⟩ := enterBlock_stays hinv he
  have hb : t.blocks.block? id = some r.block := Option.map_eq_some_iff.mpr ⟨r, hr, rfl⟩
  obtain ⟨f, hf⟩ := known_decl hinv hb
  obtain ⟨sc, hs⟩ := (hinv.state pos.thread).1.story
  obtain ⟨c', hctx', e⟩ := enterBlock_entered hinv he hs hb hf o.contexts
  obtain rfl : c = c' := by
    rw [hctx] at hctx'
    exact Option.some.inj hctx'
  refine ⟨a, t', c, he, hstays.current_eq, ?_, ?_, ?_⟩
  · rw [← hstays.state_eq]
    exact hctx
  · exact e.resolves hinv o g.anchors (Option.map_eq_some_iff.mpr ⟨y, hy, hkey⟩)
  · refine ⟨t.unhinted, t'.unhinted, runFrom_unhinted h, t.anchors.keyOf_unhinted, ?_, t'.anchors.keyOf_unhinted⟩
    exact enterBlock_unhinted hinv o he

/-- A block is dropped and another one takes its slot, which a call that was hinted to the old one runs. -/
def refilledRun : List Op :=
  signalledRun ++ [.discardBlock ⟨1⟩, .registerBlock (callBlock 300 ⟨1⟩)]

theorem enterBlock_resolves_refilledRun :
    ∃ t, runFrom fewBuckets refilledRun = .ok t ∧ t.blocks.contains ⟨1⟩ = true ∧
      ∃ a t' c, t.enterBlock { thread := ⟨2⟩, sp := ⟨1990⟩ } ⟨1⟩ = .ok (a, t') ∧
        t'.threads.current = ⟨2⟩ ∧ t'.thread.exec.context = some c ∧
        t.anchors.Resolves t'.anchors { block := ⟨1⟩, context := c, thread := ⟨2⟩ } a ∧
        ∃ s s', runPlainlyFrom fewBuckets refilledRun = .ok s ∧ s.anchors.keyOf = t.anchors.keyOf ∧
          s.enterPlainly { thread := ⟨2⟩, sp := ⟨1990⟩ } ⟨1⟩ = .ok (a, s') ∧ s'.anchors.keyOf = t'.anchors.keyOf := by
  have hrun : (runFrom fewBuckets refilledRun).map (fun t => t.blocks.contains ⟨1⟩) = .ok true := by
    decide +kernel
  obtain ⟨t, h, hid⟩ := runFrom_of_map hrun
  exact ⟨t, h, hid, enterBlock_resolves h { thread := ⟨2⟩, sp := ⟨1990⟩ } hid⟩

end Tracker
end CallGraph
