/-
  CallGraph.Proofs.Recycling — the table of blocks gives its ids again, and never an id that is in use.

  The table is that after a list of uses, the latest in front. An id belongs to the latest block that was given it until
  that is removed, with what is noted of the block meanwhile (`get?_after_iff`), and the free list has the ids that were
  given and belong to no block (`Recycles`). A tracker puts its table to no other use (`reach_used`). A replay keeps the
  ids of the table for the declared blocks, each for one of them (`Houses`).
-/

import CallGraph.Proofs.Conservation
import CallGraph.Proofs.Evicting

namespace CallGraph

namespace Arena

variable {α : Type} {a : Arena α}

theorem fst_insert {i : Nat} {free : List Nat} (h : a.free = i :: free) (x : α) : (a.insert x).1 = i := by
  obtain ⟨slots, _, live, hfree⟩ := a
  cases h
  rfl

/-- An insertion makes a slot at most, that whose number it returns. -/
theorem lt_size_insert (h : a.Sound) (x : α) {i : Nat} :
    i < (a.insert x).2.slots.size ↔ i = (a.insert x).1 ∨ i < a.slots.size := by
  obtain ⟨slots, free, live⟩ := a
  cases free with
  | nil => simp only [insert, Array.size_push, Nat.lt_succ_iff_lt_or_eq, or_comm]
  | cons k free =>
    have hk : k < slots.size := (h.mem_free_iff.mp (List.mem_cons_self ..)).1
    simp only [insert, Array.size_set]
    exact ⟨.inr, fun hi => hi.elim (fun e => e ▸ hk) id⟩

end Arena

namespace BlockTable

/-! ## Uses -/

/-- What changes the table. -/
inductive Use where
  | insert (b : Block)
  | remove (id : BlockId)
  | addAnchor (id : BlockId) (a : AnchorId)
  | setRecent (id : BlockId) (a : AnchorId)
deriving DecidableEq

def use (t : BlockTable) : Use → BlockTable
  | .insert b => (t.insert b).2
  | .remove id => (t.remove? id).elim t (·.2)
  | .addAnchor id a => t.addAnchor id a
  | .setRecent id a => t.setRecent id a

/-- The table after some uses, the latest in front. -/
def after : List Use → BlockTable
  | [] => empty
  | u :: past => (after past).use u

/-- The id of the next block. -/
def newId (past : List Use) (b : Block) : BlockId := ((after past).insert b).1

/-- The ids that were given, the latest in front. -/
def given : List Use → List BlockId
  | [] => []
  | .insert b :: past => newId past b :: given past
  | _ :: past => given past

/-- What a use notes of the block with an id. -/
def Use.note (id : BlockId) (u : Use) (r : Resident) : Resident :=
  match u with
  | .addAnchor j a => if j = id then { r with anchors := r.anchors ++ [a], recent := some a } else r
  | .setRecent j a => if j = id then { r with recent := some a } else r
  | _ => r

/-- The latest block that was given an id, with the uses since then and those before, the latest in front. -/
structure Latest (past : List Use) (id : BlockId) (b : Block) (since before : List Use) : Prop where
  parts : past = since ++ .insert b :: before
  returned : newId before b = id
  latest : ∀ later b' earlier, since = later ++ .insert b' :: earlier → newId (earlier ++ .insert b :: before) b' ≠ id

/-! ## One use -/

variable {t : BlockTable} {id : BlockId} {r : Resident} {b : Block} {past since before : List Use}

theorem get?_use_remove (t : BlockTable) (id j : BlockId) :
    (t.use (.remove id)).get? j = if j = id then none else t.get? j := by
  rw [use]
  cases hr : t.remove? id with
  | none =>
    have hdead := remove?_eq_none.mp hr
    split
    · rename_i e
      rw [e]
      exact hdead
    · rfl
  | some p => exact (get?_of_remove? hr).2 j

theorem use_sound (h : t.arena.Sound) (u : Use) : (t.use u).arena.Sound := by
  cases u with
  | insert b => exact Arena.insert_sound h _
  | remove id =>
    rw [use]
    cases hr : t.remove? id with
    | none => exact h
    | some p => exact remove?_sound h hr
  | addAnchor id a | setRecent id a => exact Arena.modify_sound h _ _

theorem use_counted (h : t.arena.Sound) (hcounted : t.arena.Counted) (u : Use) : (t.use u).arena.Counted := by
  cases u with
  | insert b => exact hcounted.insert h _
  | remove id =>
    rw [use, remove?]
    cases hr : t.arena.remove? id.num with
    | none => exact hcounted
    | some p => exact hcounted.remove hr
  | addAnchor id a | setRecent id a => exact hcounted.modify _ _

/-- A block that is there stays until it is removed. -/
theorem get?_use_live (h : t.arena.Sound) (hr : t.get? id = some r) {u : Use} (hu : u ≠ .remove id) :
    (t.use u).get? id = some (u.note id r) := by
  cases u with
  | insert b => exact (write_keeps (get?_insert h b) (get?_insert_new h b) hr).2
  | remove j =>
    rw [get?_use_remove, if_neg fun e => hu (congrArg _ e.symm)]
    exact hr
  | addAnchor j a | setRecent j a =>
    show get? ⟨t.arena.modify j.num _⟩ id = _
    rw [get?_modify, Use.note]
    by_cases e : j = id
    · rw [if_pos e.symm, if_pos e, e, hr]
      rfl
    · rw [if_neg (Ne.symm e), if_neg e]
      exact hr

/-- An id that belongs to no block is given to a block, or still belongs to none. -/
theorem get?_use_dead (h : t.arena.Sound) (hdead : t.get? id = none) (u : Use) :
    (t.use u).get? id = none ∨ ∃ b, u = .insert b ∧ (t.insert b).1 = id ∧ (t.use u).get? id = some { block := b } := by
  cases u with
  | insert b =>
    by_cases e : (t.insert b).1 = id
    · exact .inr ⟨b, rfl, e, by rw [use, get?_insert h, if_pos e.symm]⟩
    · exact .inl (by rw [use, get?_insert h, if_neg (Ne.symm e), hdead])
  | remove j => exact .inl (by rw [get?_use_remove, hdead, ite_self])
  | addAnchor j a | setRecent j a =>
    refine .inl ?_
    show get? ⟨t.arena.modify j.num _⟩ id = none
    rw [get?_modify]
    split
    · rename_i e
      rw [← e, hdead]
      rfl
    · exact hdead

/-! ## One after the other -/

theorem after_sound (past : List Use) : (after past).arena.Sound := by
  induction past with
  | nil => exact Arena.empty_sound
  | cons u past ih => exact use_sound ih u

theorem after_counted (past : List Use) : (after past).arena.Counted := by
  induction past with
  | nil => exact Arena.empty_counted
  | cons u past ih => exact use_counted (after_sound past) ih u

theorem newId_dead (past : List Use) (b : Block) : (after past).get? (newId past b) = none :=
  get?_insert_new (after_sound past) b

/-- The ids that were given are those of the slots. -/
theorem mem_given_iff : id ∈ given past ↔ id.num < (after past).arena.slots.size := by
  induction past with
  | nil => exact iff_of_false List.not_mem_nil (Nat.not_lt_zero _)
  | cons u past ih =>
    cases u with
    | insert b =>
      have hid : id = newId past b ↔ id.num = ((after past).arena.insert { block := b }).1 :=
        ⟨fun e => congrArg BlockId.num e, fun e => congrArg BlockId.mk e⟩
      rw [given, List.mem_cons, ih, hid]
      exact (Arena.lt_size_insert (after_sound past) _).symm
    | remove j =>
      show id ∈ given past ↔ id.num < ((after past).use (.remove j)).arena.slots.size
      have hsize : ((after past).use (.remove j)).arena.slots.size = (after past).arena.slots.size := by
        rw [use]
        cases hremove : (after past).remove? j with
        | none => rfl
        | some p => exact Arena.size_remove? (arena_remove? hremove)
      rw [ih, hsize]
    | addAnchor j a | setRecent j a =>
      show id ∈ given past ↔ id.num < ((after past).arena.slots.modify j.num _).size
      rw [ih, Array.size_modify]

/-- What is there stays as long as it is not removed, with what is noted of it. By induction on the uses since. -/
theorem get?_kept (hr : (after past).get? id = some r) (hkept : .remove id ∉ since) :
    (after (since ++ past)).get? id = some (since.foldr (Use.note id) r) := by
  induction since with
  | nil => exact hr
  | cons u since ih =>
    rw [List.mem_cons, not_or] at hkept
    exact get?_use_live (after_sound _) (ih hkept.2) (Ne.symm hkept.1)

/-- The id of a block that is there is given to no other, so the block is still the latest one. -/
theorem Latest.cons (h : Latest past id b since before) (hr : (after past).get? id = some r) (u : Use) :
    Latest (u :: past) id b (u :: since) before := by
  refine ⟨congrArg (u :: ·) h.parts, h.returned, fun later b' earlier hparts => ?_⟩
  cases later with
  | nil =>
    obtain ⟨rfl, rfl⟩ := List.cons.inj hparts
    rw [← h.parts]
    intro e
    rw [← e, newId_dead] at hr
    cases hr
  | cons v later => exact h.latest later b' earlier (List.cons.inj hparts).2

theorem exists_latest (hr : (after past).get? id = some r) :
    ∃ b since before, Latest past id b since before ∧ .remove id ∉ since ∧
      r = since.foldr (Use.note id) { block := b } := by
  induction past generalizing r with
  | nil =>
    rw [after, get?, empty, Arena.get?_empty] at hr
    cases hr
  | cons u past ih =>
    cases hbefore : (after past).get? id with
    | some r₀ =>
      obtain ⟨b, since, before, hlatest, hkept, hr₀⟩ := ih hbefore
      have hu : u ≠ .remove id := by
        rintro rfl
        rw [after, get?_use_remove, if_pos rfl] at hr
        cases hr
      rw [after, get?_use_live (after_sound past) hbefore hu] at hr
      cases hr
      refine ⟨b, u :: since, before, hlatest.cons hbefore u, ?_, hr₀ ▸ rfl⟩
      rw [List.mem_cons, not_or]
      exact ⟨Ne.symm hu, hkept⟩
    | none =>
      obtain hdead | ⟨b, rfl, hid, hb⟩ := get?_use_dead (after_sound past) hbefore u
      · cases hr.symm.trans hdead
      · cases hr.symm.trans hb
        exact ⟨b, [], past, ⟨rfl, hid, fun later b' earlier h => by simp at h⟩, List.not_mem_nil, rfl⟩

/-- Under an id is the latest block that was given it, unless that was removed. -/
theorem get?_after_iff : (after past).get? id = some r ↔
    ∃ b since before, Latest past id b since before ∧ .remove id ∉ since ∧
      r = since.foldr (Use.note id) { block := b } := by
  refine ⟨exists_latest, ?_⟩
  rintro ⟨b, since, before, ⟨rfl, rfl, -⟩, hkept, rfl⟩
  refine get?_kept ?_ hkept
  rw [after, use, get?_insert (after_sound before)]
  exact if_pos rfl

/-! ## Any uses -/

theorem contains_eq_true : t.contains id = true ↔ ∃ r, t.get? id = some r := Option.isSome_iff_exists

theorem contains_eq_false : t.contains id = false ↔ t.get? id = none :=
  Option.isSome_eq_false_iff.trans Option.isNone_iff_eq_none

/-- What the table does after some uses. -/
structure Recycles (past : List Use) : Prop where
  /-- The next block gets an id that belongs to no block, and nothing else changes. -/
  inserts : ∀ b, (after past).contains (newId past b) = false ∧
    ∀ id, (after (.insert b :: past)).get? id = if id = newId past b then some { block := b } else (after past).get? id
  /-- An id that belongs to a block belongs to the latest one that was given it, with what was noted since. -/
  gets : ∀ id r, (after past).get id = .ok r ↔ ∃ b since before, Latest past id b since before ∧
    .remove id ∉ since ∧ r = since.foldr (Use.note id) { block := b }
  live : ∀ id, (after past).contains id = true ↔ ∃ r, (after past).get id = .ok r
  /-- Where there is no block none is removed. -/
  removesNone : ∀ id, (after past).contains id = false →
    (after past).remove? id = none ∧ after (.remove id :: past) = after past
  neverGiven : ∀ id, id ∉ given past → (after past).contains id = false
  /-- Otherwise that id alone belongs to no block any more, and the next block gets it. -/
  removes : ∀ id r, (after past).get id = .ok r →
    (after past).remove? id = some (r, after (.remove id :: past)) ∧
      (∀ j, (after (.remove id :: past)).get? j = if j = id then none else (after past).get? j) ∧
      ∀ b, newId (.remove id :: past) b = id
  /-- The free list has each id that was given and belongs to no block, once. -/
  free : (after past).arena.free.Nodup ∧
    ∀ id : BlockId, id.num ∈ (after past).arena.free ↔ id ∈ given past ∧ (after past).contains id = false
  size : (after past).size = (after past).arena.ids.card ∧
    ∀ id : BlockId, id.num ∈ (after past).arena.ids ↔ (after past).contains id = true

theorem after_recycles (past : List Use) : Recycles past where
  inserts b := ⟨contains_eq_false.mpr (newId_dead past b), get?_insert (after_sound past) b⟩
  gets _ _ := get_eq_ok_iff.trans get?_after_iff
  live _ := contains_eq_true.trans (exists_congr fun _ => get_eq_ok_iff.symm)
  removesNone id hdead := by
    have hnone := remove?_eq_none.mpr (contains_eq_false.mp hdead)
    refine ⟨hnone, ?_⟩
    rw [after, use, hnone]
    rfl
  neverGiven id hnever := by
    rw [mem_given_iff, Nat.not_lt] at hnever
    rw [contains_eq_false, get?, Arena.get?, Array.getElem?_eq_none hnever]
    rfl
  removes id r hr := by
    have hr := get_eq_ok_iff.mp hr
    cases hremove : (after past).remove? id with
    | none => cases hr.symm.trans (remove?_eq_none.mp hremove)
    | some p =>
      obtain ⟨r', t'⟩ := p
      cases hr.symm.trans (get?_of_remove? hremove).1
      have hafter : after (.remove id :: past) = t' := by rw [after, use, hremove]; rfl
      rw [hafter]
      refine ⟨rfl, (get?_of_remove? hremove).2, fun b => ?_⟩
      -- The slot that was freed last is the first that is used again.
      obtain ⟨-, -, hfree, -⟩ := Arena.remove?_parts (arena_remove? hremove)
      rw [newId, hafter]
      exact congrArg BlockId.mk (Arena.fst_insert hfree _)
  free := by
    refine ⟨(after_sound past).nodup, fun id => ?_⟩
    rw [(after_sound past).mem_free_iff, mem_given_iff, contains_eq_false]
    rfl
  size := ⟨after_counted past, fun _ => Arena.mem_ids.trans contains_eq_true.symm⟩

/-- The first block is removed, once more in vain, and the third one gets its id. -/
example (a b c : Block) :
    given [.insert c, .remove ⟨0⟩, .remove ⟨0⟩, .insert b, .insert a] = [⟨0⟩, ⟨1⟩, ⟨0⟩] := by rfl

end BlockTable

/-! ## The table of a tracker -/

namespace Tracker

variable {config : Config} {t t' : Tracker}

/-- A block that runs is noted in the table. -/
theorem enterBlock_uses (h : t.Inv) {pos : Position} {id : BlockId} {a : AnchorId}
    (he : t.enterBlock pos id = .ok (a, t')) : ∃ u, t'.blocks = t.blocks.use u := by
  obtain ⟨source, r, x, skip, c, t₁, t₂, t₃, t₄, st, rfl⟩ := enterBlock_stages he
  obtain ⟨-, hblocks⟩ := st.unbilled (h.switchTo pos.thread)
  have hsame : t₂.blocks = t.blocks := hblocks.trans (blocks_switchTo t pos.thread)
  show ∃ u, t₄.blocks = t.blocks.use u
  rw [link_blocks st.linked]
  obtain ⟨S, -, ⟨-, rfl⟩ | ⟨A, -, rfl⟩⟩ := billTo_eq (hblocks ▸ st.block) st.billed
  · exact ⟨.setRecent id a, congrArg (·.setRecent id a) hsame⟩
  · exact ⟨.addAnchor id a, congrArg (·.addAnchor id a) hsame⟩

theorem registerBlock_uses {block : Block} {id : BlockId} (hs : t.registerBlock block = .ok (id, t')) :
    id = (t.blocks.insert block).1 ∧ t'.blocks = t.blocks.use (.insert block) := by
  unfold registerBlock at hs
  split at hs
  · cases hs
    exact ⟨rfl, rfl⟩
  · cases hs

theorem discardBlock_uses (t : Tracker) (id : BlockId) :
    (t.discardBlock id).2.blocks = t.blocks.use (.remove id) := by
  unfold discardBlock
  rw [BlockTable.use]
  cases t.blocks.remove? id with
  | none => rfl
  | some p =>
    obtain ⟨A, L, hfold, -⟩ := dropAnchors_spec p.1.anchors { t with blocks := p.2 }
    simp only [hfold]
    rfl

/-- An operation uses the table once, or not at all. -/
theorem step_uses (h : t.Inv) {op : Op} {reply : Reply} (hs : t.step op = .ok (reply, t')) :
    t'.blocks = t.blocks ∨ ∃ u, t'.blocks = t.blocks.use u := by
  cases step_effect hs with
  | registerFunction | setFunctionSkip | setExitsPassed => exact .inl rfl
  | registerBlock => exact .inr ⟨.insert _, rfl⟩
  | enterBlock henter => exact .inr (enterBlock_uses h henter)
  | enterHandler henter =>
    obtain ⟨s, rfl⟩ := enterHandler_eq henter
    exact .inl (blocks_switchTo t _)
  | exitHandler hexit => exact .inl ((exitHandler_unwinds h hexit).blocks.trans (blocks_switchTo t _))
  | discardBlock id => exact .inr ⟨_, discardBlock_uses t id⟩
  | finish hfinish => exact .inl (finish_eq h hfinish).1.blocks

theorem reach_used (h : Reach config t) : ∃ past, t.blocks = BlockTable.after past := by
  induction h with
  | init h₀ =>
    obtain ⟨-, C, -, A, -, rfl⟩ := ofConfig_eq_ok.mp h₀
    exact ⟨[], rfl⟩
  | step hreach hs ih =>
    obtain ⟨past, hpast⟩ := ih
    obtain hsame | ⟨u, hu⟩ := step_uses (reach_inv hreach).1 hs
    · exact ⟨past, hsame.trans hpast⟩
    · exact ⟨u :: past, hu.trans (congrArg (·.use u) hpast)⟩

end Tracker

/-! ## The ids that a replay keeps -/

namespace Replay

variable {trace : Trace} {config : Config} {r r₁ r' : Replay}

/-- There is a place for every declared block, and every block of the table is at one. -/
structure Placed (trace : Trace) (r : Replay) : Prop where
  places : r.live.size = trace.blocks.size
  placed : ∀ id b, r.tracker.blocks.block? id = some b → ∃ place, r.idOf place = some id

theorem Placed.of_blocks (h : r.Placed trace) (hblocks : ∀ id, r'.tracker.blocks.block? id = r.tracker.blocks.block? id)
    (hlive : r'.live = r.live) : r'.Placed trace := by
  refine ⟨by rw [hlive]; exact h.places, fun id b hb => ?_⟩
  rw [hblocks] at hb
  obtain ⟨place, hplace⟩ := h.placed id b hb
  exact ⟨place, by rw [idOf, hlive]; exact hplace⟩

theorem start_placed (h : start trace config = .ok r) : r.Placed trace := by
  obtain ⟨C, A, F, -, -, rfl, -⟩ := start_eq h
  refine ⟨Array.size_replicate, fun id b hb => ?_⟩
  have hnone : BlockTable.empty.block? id = none := by
    rw [BlockTable.block?, BlockTable.get?, show BlockTable.empty.arena = Arena.empty from rfl, Arena.get?_empty]
    rfl
  cases hnone.symm.trans hb

/-- A block that is registered now has its place. -/
theorem Placed.resident (h : r.Placed trace) (hsound : r.tracker.blocks.arena.Sound) {place : Nat} {d : BlockDecl}
    {id : BlockId} (hr : resident trace r place d = .ok (id, r₁)) : r₁.Placed trace := by
  obtain ⟨hplace, ⟨-, rfl⟩ | ⟨hnone, b, t, -, hregister, rfl⟩⟩ := resident_eq hr
  · exact h
  · have hlive : ∀ q, (r.live.setIfInBounds place (some id))[q]?.join = if q = place then some id else r.idOf q :=
      join_setIfInBounds hplace (some id)
    obtain ⟨hid, hused⟩ := Tracker.registerBlock_uses hregister
    refine ⟨Array.size_setIfInBounds.trans h.places, fun j b' hb' => ?_⟩
    by_cases e : j = id
    · exact ⟨place, by rw [e]; exact (hlive place).trans (if_pos rfl)⟩
    · have hother : t.blocks.block? j = r.tracker.blocks.block? j := by
        rw [BlockTable.block?, hused, BlockTable.use, BlockTable.get?_insert hsound, ← hid, if_neg e]
        rfl
      obtain ⟨q, hq⟩ := h.placed j b' (hother ▸ hb')
      -- The place had no id, so it is another one.
      have hne : q ≠ place := by
        rintro rfl
        cases hnone.symm.trans hq
      exact ⟨q, (hlive q).trans ((if_neg hne).trans hq)⟩

theorem Placed.visit (h : r.Placed trace) (hsound : r.tracker.blocks.arena.Sound) (hinv₁ : r₁.tracker.Inv)
    {pos : Position} {place : Nat} {exit : Option Nat} {d : BlockDecl} {id : BlockId} {a : AnchorId} {t : Tracker}
    {y : Anchor} (v : Visited trace r pos place exit d id r₁ a t y r') : r'.Placed trace := by
  obtain ⟨hstays, -⟩ := Tracker.enterBlock_stays hinv₁ v.entered
  refine (h.resident hsound v.resident).of_blocks (fun j => ?_) ?_
  · rw [v.result]
    exact (hstays.blocks j).trans (congrArg (·.block? j) (Tracker.blocks_switchTo ..))
  · rw [v.result]

theorem Placed.discard (h : r.Placed trace) {place : Nat} (hplay : playDiscard r place = .ok r') : r'.Placed trace := by
  obtain ⟨-, rfl⟩ | ⟨id, o, hotspots, hid, -, -, rfl⟩ := playDiscard_eq hplay
  · exact h
  · have hlive : ∀ q, (r.live.setIfInBounds place none)[q]?.join = if q = place then none else r.idOf q :=
      join_setIfInBounds (size_of_idOf hid) none
    refine ⟨Array.size_setIfInBounds.trans h.places, fun j b hb => ?_⟩
    have hget : (r.tracker.discardBlock id).2.blocks.block? j = if j = id then none else r.tracker.blocks.block? j := by
      rw [BlockTable.block?, Tracker.discardBlock_uses, BlockTable.get?_use_remove,
        apply_ite (Option.map Resident.block)]
      rfl
    have hb := hget.symm.trans hb
    split at hb
    · cases hb
    · rename_i hne
      obtain ⟨q, hq⟩ := h.placed j b hb
      have hother : q ≠ place := by
        rintro rfl
        exact hne (Option.some.inj (hq.symm.trans hid))
      exact ⟨q, (hlive q).trans ((if_neg hother).trans hq)⟩

/-- The ids that a replay keeps. -/
structure Houses (trace : Trace) (r : Replay) : Prop where
  /-- The table was used in some way, so that all that holds of a table after any uses holds of it. -/
  used : ∃ past, r.tracker.blocks = BlockTable.after past
  places : r.live.size = trace.blocks.size
  /-- The id of a declared block belongs to what was built from its declaration. -/
  built : ∀ place id, r.idOf place = some id → ∃ d b o, trace.blocks[place]? = some d ∧ trace.toBlock d = .ok b ∧
    r.tracker.blocks.get id = .ok o ∧ o.block = b
  /-- No two declared blocks have the same id, be they alike. -/
  apart : ∀ p q id, r.idOf p = some id → r.idOf q = some id → p = q
  /-- No block is left in the table without its declaration. -/
  placed : ∀ id, r.tracker.blocks.contains id = true → ∃ place, r.idOf place = some id

end Replay

namespace Trace

variable {trace : Trace} {config : Config} {r : Replay} {n : Nat}

theorem after_placed (hvalid : trace.check = .ok ()) (hr : trace.after config n = .ok r) : r.Placed trace := by
  obtain ⟨hblocks, -⟩ := check_eq_ok hvalid
  refine after_induction (fun _ => Replay.start_placed) (fun n e r r' he hr h hplay => ?_) hr
  obtain ⟨w, -, hshows⟩ := after_eq hvalid (config_ok hr) hr
  cases e with
  | block tid sp place exit =>
    obtain ⟨d, b, id, r₁, a, t, y, v, hb, hP⟩ := Replay.play_visited hblocks hplay
    obtain ⟨h₁, -⟩ := v.registered hshows hb hP
    exact h.visit hshows.inv.tables.blockSlots h₁.inv v
  | signal | signalReturn =>
    obtain ⟨t, rfl, m⟩ := Replay.play_turns hshows.inv rfl rfl hplay
    refine h.of_blocks (fun j => ?_) rfl
    exact (m.stays.blocks j).trans (congrArg (·.block? j) (Tracker.blocks_switchTo ..))
  | discard place => exact h.discard (lift_eq_ok.mp hplay)

theorem after_houses (hr : trace.after config n = .ok r) : Replay.Houses trace r := by
  have hvalid := check_ok hr
  obtain ⟨w, -, h⟩ := after_eq hvalid (config_ok hr) hr
  obtain ⟨hplaces, hplaced⟩ := after_placed hvalid hr
  refine ⟨Tracker.reach_used (after_reach hr), hplaces, fun place id hid => ?_, h.apart, fun id hid => ?_⟩
  · obtain ⟨b, hb, hlive⟩ := h.resident place id hid
    obtain ⟨d, hd, hb⟩ := Option.bind_eq_some_iff.mp hb
    obtain ⟨o, ho, hblock⟩ := Option.map_eq_some_iff.mp hlive
    exact ⟨d, b, o, hd, toOption_eq_some.mp hb, BlockTable.get_eq_ok ho, hblock⟩
  · obtain ⟨o, ho⟩ := BlockTable.contains_eq_true.mp hid
    exact hplaced id o.block (congrArg (Option.map Resident.block) ho)

/-- The table gives an id again once its block was removed and not before. After any events of a replay each declared
block has an id of its own at most, for what was built from its declaration, and no other block is in the table. -/
theorem block_ids_recycled :
    (∀ past, BlockTable.Recycles past) ∧
      ∀ trace config n r, trace.after config n = .ok r → Replay.Houses trace r :=
  ⟨BlockTable.after_recycles, fun _ _ _ _ => after_houses⟩

/-- The block of `main` is dropped, and another one gets its id before it runs again. Two blocks are declared alike. -/
def recycledRun : Trace where
  objects := #["program"]
  functions := #[{ name := "main", object := 0 }, { name := "work", object := 0 }]
  blocks := #[
    { addr := ⟨100⟩, function := 0, isEntry := true, exits := [{ kind := .call, size := 5 }] },
    { addr := ⟨200⟩, function := 1, isEntry := true, exits := [{ kind := .ret, size := 1 }] },
    { addr := ⟨200⟩, function := 1, isEntry := true, exits := [{ kind := .ret, size := 1 }] }]
  events := [.block 1 ⟨1000⟩ 0 none, .block 1 ⟨990⟩ 1 none, .discard 0, .block 2 ⟨2000⟩ 2 none, .block 3 ⟨3000⟩ 0 none]

theorem block_ids_recycled_recycledRun :
    ∃ r past, recycledRun.after Tracker.fewBuckets 5 = .ok r ∧ r.live = #[some ⟨2⟩, some ⟨1⟩, some ⟨0⟩] ∧
      Replay.Houses recycledRun r ∧ r.tracker.blocks = BlockTable.after past ∧ BlockTable.Recycles past ∧
      (BlockTable.after past).arena.ids.card = 3 := by
  have hrun : (recycledRun.after Tracker.fewBuckets 5).map (fun r => (r.live, r.tracker.blocks.size)) =
      .ok (#[some ⟨2⟩, some ⟨1⟩, some ⟨0⟩], 3) := by decide +kernel
  obtain ⟨r, hr, h⟩ := map_eq_ok.mp hrun
  obtain ⟨hlive, hsize⟩ := Prod.mk.inj h
  obtain ⟨hrecycles, hreplay⟩ := block_ids_recycled
  have hhouses := hreplay recycledRun Tracker.fewBuckets 5 r hr
  obtain ⟨past, hpast⟩ := hhouses.used
  refine ⟨r, past, hr, hlive, hhouses, hpast, hrecycles past, ?_⟩
  rw [← (hrecycles past).size.1, ← hpast]
  exact hsize

end Trace
end CallGraph
