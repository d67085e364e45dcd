/-
  CallGraph.Proofs.Isolation — threads do not disturb each other.

  The state of the running thread is kept apart from those of the parked ones, and every switch moves two of them. Seen
  through `get?` the registry is a map all the same (`Registry.IsMap`): a switch changes nothing but that a thread seen
  for the first time is there and fresh. So an operation leaves every thread alone but the one that it runs on, and
  a discard takes from each of them the references to what was evicted (`step_isolates`). However many switches lie in
  between, a thread that control comes back to is as it was left (`threads_isolated`).
-/

import CallGraph.Proofs.Delivering
import CallGraph.Proofs.Evicting

namespace CallGraph

/-! ## The registry -/

/-- The registry is a map from the threads seen to their states. -/
structure Registry.IsMap (r : Registry) (seen : ThreadId → Prop) : Prop where
  /-- The running thread is not parked as well. -/
  apart : r.parked.get? r.current.num = none
  running : r.get? r.current = some r.active
  listed : ∀ u, u ∈ r.ids ↔ seen u
  ascending : r.ids.Pairwise fun u v => u.num < v.num
  size : r.size = r.ids.length
  unseen : ∀ u, r.get? u = none ↔ ¬seen u
  /-- Where control switches to, a thread goes on from its state or, if it was not seen before, from the fresh one. No
  other thread notices. -/
  switched : ∀ u, (r.switchTo u).current = u ∧ (r.switchTo u).active = (r.get? u).getD .fresh ∧
    ∀ v, v ≠ u → (r.switchTo u).get? v = r.get? v

namespace Registry

theorem ids_ascending (r : Registry) : r.ids.Pairwise fun u v => u.num < v.num := by
  rw [ids, SortedMap.keys, List.map_map, List.pairwise_map]
  exact r.all.sorted

theorem get?_eq_none {r : Registry} {u : ThreadId} : r.get? u = none ↔ u ∉ r.ids := by
  rw [mem_ids]
  cases r.get? u <;> simp

/-- The state of a thread that was seen, or the fresh one, and which threads were seen are all there is to know. -/
theorem get?_congr {r r' : Registry} {u : ThreadId} (hids : u ∈ r'.ids ↔ u ∈ r.ids)
    (hstate : (r'.get? u).getD .fresh = (r.get? u).getD .fresh) : r'.get? u = r.get? u := by
  rw [mem_ids, mem_ids] at hids
  cases hr : r.get? u <;> cases hr' : r'.get? u <;> simp_all

theorem Apart.isMap {r : Registry} (h : r.Apart) {seen : ThreadId → Prop} (hseen : ∀ u, u ∈ r.ids ↔ seen u) :
    r.IsMap seen where
  apart := h
  running := get?_current r
  listed := hseen
  ascending := r.ids_ascending
  size := (length_ids h).symm
  unseen := fun u => by rw [get?_eq_none, hseen]
  switched := by
    intro u
    refine ⟨current_switchTo r u, active_switchTo r u, fun v hv => ?_⟩
    rw [get?_switchTo, if_neg hv]

end Registry

namespace Tracker

variable {config : Config} {t t' t₀ : Tracker} {u : ThreadId} {op : Op} {reply : Reply} {trail : List (Op × Reply)}

/-! ## The threads seen -/

/-- The thread that an operation switches to. -/
def Op.names : Op → Option ThreadId
  | .enterBlock pos _ => some pos.thread
  | .enterHandler u _ | .exitHandler u _ => some u
  | _ => none

theorem mem_ids_discard (t : Tracker) (id : BlockId) (u : ThreadId) :
    u ∈ (t.discardBlock id).2.threads.ids ↔ u ∈ t.threads.ids := by
  cases hr : t.blocks.get? id with
  | none => rw [discardBlock_dead hr]
  | some r =>
    obtain ⟨A, B, L, heq, -⟩ := discardBlock_live hr
    rw [heq]
    exact Registry.mem_ids_forget

/-- An operation switches to the thread that it names and leaves the parked ones alone, unless it sweeps over all
threads. -/
theorem step_registry (h : t.Inv) (hstep : t.step op = .ok (reply, t')) (hop : op.sweeps = false) :
    t'.threads.current = (op.names.elim t.threads t.threads.switchTo).current ∧
      t'.threads.parked = (op.names.elim t.threads t.threads.switchTo).parked := by
  have hnamed : ∀ {v : ThreadId}, Stays (t.switchTo v) t' →
      t'.threads.current = (t.threads.switchTo v).current ∧ t'.threads.parked = (t.threads.switchTo v).parked := by
    intro v hstays
    rw [← threads_switchTo]
    exact ⟨hstays.current, hstays.parked⟩
  cases step_effect hstep with
  | registerFunction | setFunctionSkip | registerBlock | setExitsPassed => exact ⟨rfl, rfl⟩
  | enterBlock henter => exact hnamed (enterBlock_stays h henter).1
  | enterHandler henter => exact hnamed (enterHandler_stays henter)
  | exitHandler hexit => exact hnamed (exitHandler_unwinds h hexit).stays
  | discardBlock | finish => cases hop

/-- An operation adds the thread that it names to those seen. -/
theorem step_ids (h : t.Inv) (hstep : t.step op = .ok (reply, t')) (u : ThreadId) :
    u ∈ t'.threads.ids ↔ op.names = some u ∨ u ∈ t.threads.ids := by
  cases hsweeps : op.sweeps with
  | true =>
    cases step_effect hstep with
    | discardBlock id => exact (mem_ids_discard t id u).trans (or_iff_right nofun).symm
    | finish hfinish => exact (mem_ids_finish h hfinish).trans (or_iff_right nofun).symm
    | _ => cases hsweeps
  | false =>
    obtain ⟨hcurrent, hparked⟩ := step_registry h hstep hsweeps
    rw [Registry.mem_ids_of_parked hcurrent hparked]
    cases op.names with
    | none => exact (or_iff_right nofun).symm
    | some v =>
      rw [Option.elim_some, Registry.mem_ids_switchTo, Option.some.injEq]
      exact or_congr_left eq_comm

/-- The first thread and those that the run named were seen. -/
def Seen (trail : List (Op × Reply)) (u : ThreadId) : Prop :=
  u = .initial ∨ ∃ op reply, (op, reply) ∈ trail ∧ op.names = some u

/-- By induction on what is left of the run. -/
theorem Span.ids {P : Tracker → Prop} (hs : Span P t trail t') (h : t.Inv) (u : ThreadId) :
    u ∈ t'.threads.ids ↔ u ∈ t.threads.ids ∨ ∃ op reply, (op, reply) ∈ trail ∧ op.names = some u := by
  induction hs with
  | here => simp
  | @step _ _ _ op reply _ _ hstep _ ih =>
    rw [ih (step_inv h hstep).1, step_ids h hstep]
    constructor
    · rintro ((hnames | hold) | ⟨op', reply', hm, hnames⟩)
      · exact .inr ⟨op, reply, List.mem_cons_self .., hnames⟩
      · exact .inl hold
      · exact .inr ⟨op', reply', List.mem_cons_of_mem _ hm, hnames⟩
    · rintro (hold | ⟨op', reply', hm, hnames⟩)
      · exact .inl (.inr hold)
      · rcases List.mem_cons.mp hm with e | hm
        · cases e
          exact .inl (.inl hnames)
        · exact .inr ⟨op', reply', hm, hnames⟩

/-! ## One operation -/

/-- Whose block an anchor is of, if it is live. -/
def blockIdOf (t : Tracker) (a : AnchorId) : Option BlockId := (t.anchors.get? a).map (·.key.block)

/-- A thread lost references, and only to anchors of a block that went with it. -/
structure Loses (t t' : Tracker) (id : BlockId) (u : ThreadId) : Prop where
  unreferenced : (t'.threads.get? u).map ThreadState.unreferenced = (t.threads.get? u).map ThreadState.unreferenced
  held : ∀ p, t'.held (.thread u p) = t.held (.thread u p) ∨ t'.held (.thread u p) = none ∧
    ∃ a, t.held (.thread u p) = some a ∧ t.blockIdOf a = some id ∧ t'.blockIdOf a = none

/-- What an operation does to the threads that it does not run on. -/
structure Isolates (t : Tracker) (op : Op) (t' : Tracker) : Prop where
  others : op.sweeps = false → ∀ u, op.moves t ≠ some u → t'.threads.get? u = t.threads.get? u
  /-- The thread that an operation names runs from then on. -/
  current : op ≠ .finish → t'.threads.current = op.names.getD t.threads.current
  discard : ∀ id, op = .discardBlock id → ∀ u, Loses t t' id u

theorem current_discard (t : Tracker) (id : BlockId) : (t.discardBlock id).2.threads.current = t.threads.current := by
  cases hr : t.blocks.get? id with
  | none => rw [discardBlock_dead hr]
  | some r =>
    obtain ⟨A, B, L, heq, -⟩ := discardBlock_live hr
    rw [heq]
    rfl

theorem step_current (h : t.Inv) (hstep : t.step op = .ok (reply, t')) (hop : op ≠ .finish) :
    t'.threads.current = op.names.getD t.threads.current := by
  cases hsweeps : op.sweeps with
  | true =>
    cases step_effect hstep with
    | discardBlock id => exact current_discard t id
    | finish => exact absurd rfl hop
    | _ => cases hsweeps
  | false =>
    rw [(step_registry h hstep hsweeps).1]
    cases op.names with
    | none => rfl
    | some v => exact Registry.current_switchTo t.threads v

/-- An operation names no thread that it does not move. -/
theorem Op.names_moves (hu : op.moves t ≠ some u) : op.names ≠ some u := by
  cases op with
  | enterBlock | enterHandler | exitHandler => exact hu
  | registerFunction | setFunctionSkip | registerBlock | setExitsPassed | discardBlock | finish => exact nofun

theorem step_others (h : t.Inv) (hstep : t.step op = .ok (reply, t')) (hop : op.sweeps = false)
    (hu : op.moves t ≠ some u) : t'.threads.get? u = t.threads.get? u := by
  refine Registry.get?_congr ?_ (step_elsewhere h hstep hop hu)
  rw [step_ids h hstep]
  exact or_iff_right (Op.names_moves hu)

theorem discardBlock_loses (h : t.Inv) (o : t.InOrder) (id : BlockId) (u : ThreadId) :
    Loses t (t.discardBlock id).2 id u := by
  cases hr : t.blocks.get? id with
  | none =>
    rw [discardBlock_dead hr]
    exact ⟨rfl, fun _ => .inl rfl⟩
  | some r =>
    obtain ⟨t', heq, e⟩ := discardBlock_evicts h o hr
    rw [heq]
    refine ⟨e.threads u, fun p => ?_⟩
    rw [e.held u p]
    cases hheld : t.held (.thread u p) with
    | none => exact .inl rfl
    | some a =>
      by_cases hm : a ∈ r.anchors
      · obtain ⟨x, hx, hblock⟩ := (e.owned a).mp hm
        refine .inr ⟨by simp [hm], a, rfl, ?_, ?_⟩
        · rw [blockIdOf, hx, Option.map_some, hblock]
        · rw [blockIdOf, e.anchors, if_pos hm, Option.map_none]
      · exact .inl (by simp [hm])

theorem step_isolates (h : t.Inv) (o : t.InOrder) (hstep : t.step op = .ok (reply, t')) : Isolates t op t' where
  others := fun hop _ hu => step_others h hstep hop hu
  current := step_current h hstep
  discard := by
    rintro id rfl u
    cases hstep
    exact discardBlock_loses h o id u

/-! ## Away and back -/

/-- While only other threads run and nothing is discarded, a thread waits as it is. -/
theorem Course.waits (hc : Course (fun t op _ => Beside u t op ∧ op.sweeps = false) t t') (h : t.Inv) :
    t'.threads.get? u = t.threads.get? u := by
  induction hc with
  | here => rfl
  | step hstep hop _ ih => exact (ih (step_inv h hstep).1).trans (step_others h hstep hop.2 hop.1.moves)

/-- A reference of a waiting thread is kept unless the block of the anchor is discarded. -/
theorem step_holds (h : t.Inv) (o : t.InOrder) (hstep : t.step op = .ok (reply, t')) (hbeside : Beside u t op)
    {p : ThreadPlace} {a : AnchorId} {b : BlockId} (hheld : t.held (.thread u p) = some a)
    (hblock : t.blockIdOf a = some b) (hop : op ≠ .discardBlock b) :
    t'.held (.thread u p) = some a ∧ t'.blockIdOf a = some b := by
  have hkept : t'.held (.thread u p) = some a := by
    cases hsweeps : op.sweeps with
    | false =>
      rw [Tracker.held, step_others h hstep hsweeps hbeside.moves]
      exact hheld
    | true =>
      cases op with
      | discardBlock id =>
        rcases ((step_isolates h o hstep).discard id rfl u).held p with hsame | ⟨-, a', hheld', hblock', -⟩
        · exact hsame.trans hheld
        · cases hheld.symm.trans hheld'
          cases hblock.symm.trans hblock'
          exact absurd rfl hop
      | finish => exact hbeside.elim
      | _ => cases hsweeps
  obtain ⟨h', c⟩ := step_inv h hstep
  obtain ⟨x, hx, rfl⟩ := Option.map_eq_some_iff.mp hblock
  obtain ⟨x', hx'⟩ := h'.held_live hkept
  refine ⟨hkept, ?_⟩
  rw [blockIdOf, hx', Option.map_some, c.anchors a x x' hx hx']

theorem Course.holds {p : ThreadPlace} {a : AnchorId} {b : BlockId}
    (hc : Course (fun t op _ => Beside u t op ∧ op ≠ .discardBlock b) t t') (h : t.Inv) (o : t.InOrder)
    (hheld : t.held (.thread u p) = some a) (hblock : t.blockIdOf a = some b) : t'.held (.thread u p) = some a := by
  induction hc with
  | here => exact hheld
  | step hstep hop _ ih =>
    obtain ⟨hheld', hblock'⟩ := step_holds h o hstep hop.1 hheld hblock hop.2
    exact ih (step_inv h hstep).1 (step_inOrder h o hstep) hheld' hblock'

/-- What a thread finds when control comes back to it. -/
structure Waits (t : Tracker) (u : ThreadId) : Prop where
  /-- Without discards all of it is as it was left. -/
  same : ∀ t', Course (fun t op _ => Beside u t op ∧ op.sweeps = false) t t' →
    t'.threads.get? u = t.threads.get? u ∧ (t'.switchTo u).threads.active = t.state u
  /-- With discards it may hold fewer references. -/
  unreferenced : ∀ t', Course (fun t op _ => Beside u t op) t t' →
    (t'.state u).unreferenced = (t.state u).unreferenced ∧ ∀ p, (t'.state u).held p = (t.state u).held p ∨
      (t'.state u).held p = none
  held : ∀ p a b t', t.held (.thread u p) = some a → t.blockIdOf a = some b →
    Course (fun t op _ => Beside u t op ∧ op ≠ .discardBlock b) t t' → t'.held (.thread u p) = some a

theorem Inv.waits (h : t.Inv) (o : t.InOrder) (u : ThreadId) : Waits t u where
  same := by
    intro t' hc
    have hget := hc.waits h
    refine ⟨hget, ?_⟩
    rw [threads_switchTo, Registry.active_switchTo, hget]
    rfl
  unreferenced := by
    intro t' hc
    obtain ⟨dead, e⟩ := beside_forgets h hc
    rw [e]
    refine ⟨(t.state u).unreferenced_forget dead, fun p => ?_⟩
    rw [ThreadState.held_forget]
    cases (t.state u).held p with
    | none => exact .inl rfl
    | some a => cases hdead : dead a <;> simp [hdead]
  held := fun _ _ _ _ hheld hblock hc => hc.holds h o hheld hblock

/-- In every state that a run comes to the registry is a map of the threads seen, every operation from there leaves the
other threads alone, and a thread that control comes back to goes on from the state it was left with. -/
theorem threads_isolated (h₀ : ofConfig config = .ok t₀) (hrun : Span (fun _ => True) t₀ trail t) :
    t.threads.IsMap (Seen trail) ∧ (∀ op reply t', t.step op = .ok (reply, t') → Isolates t op t') ∧
      ∀ u, Waits t u := by
  have hinv₀ := (ofConfig_inv h₀).1
  have h := hrun.inv hinv₀
  have hfirst : t₀.threads = .initial := by
    obtain ⟨-, C, -, A, -, rfl⟩ := ofConfig_eq_ok.mp h₀
    rfl
  have o := reach_inOrder (hrun.reach (.init h₀))
  refine ⟨h.apart.isMap fun u => ?_, fun op reply t' hstep => step_isolates h o hstep, h.waits o⟩
  have hids : Registry.initial.ids = [.initial] := rfl
  rw [hrun.ids hinv₀, hfirst, hids, List.mem_singleton, Seen]

/-- Two other threads run, one of them in a handler. -/
def othersRun : List Op :=
  [.enterBlock { thread := ⟨7⟩, sp := ⟨3000⟩ } ⟨1⟩, .setExitsPassed 3, .enterHandler ⟨2⟩ 10,
    .enterBlock { thread := ⟨2⟩, sp := ⟨1900⟩ } ⟨1⟩, .registerFunction "leaf" ⟨0⟩, .exitHandler ⟨2⟩ 10]

/-- The first thread is in a handler when the second one starts. -/
theorem threads_isolated_signalledRun :
    ∃ t₀ trail t t', ofConfig fewBuckets = .ok t₀ ∧ Span (fun _ => True) t₀ trail t ∧ t.threads.IsMap (Seen trail) ∧
      t.threads.ids = [⟨1⟩, ⟨2⟩] ∧ (t.state ⟨1⟩).handlers.length = 1 ∧
      Course (fun t op _ => Beside ⟨1⟩ t op ∧ op.sweeps = false) t t' ∧ t'.threads.ids = [⟨1⟩, ⟨2⟩, ⟨7⟩] ∧
      (t'.switchTo ⟨1⟩).threads.active = t.state ⟨1⟩ ∧ Isolates t (.discardBlock ⟨0⟩) (t.discardBlock ⟨0⟩).2 := by
  have hrun : (runFrom fewBuckets signalledRun).map (fun t =>
      (t.threads.ids, (t.state ⟨1⟩).handlers.length,
        (follow (fun t op _ => Beside ⟨1⟩ t op ∧ op.sweeps = false) t othersRun).map fun t' => t'.threads.ids)) =
      .ok ([⟨1⟩, ⟨2⟩], 1, some [⟨1⟩, ⟨2⟩, ⟨7⟩]) := by decide +kernel
  obtain ⟨t, hr, h⟩ := runFrom_of_map hrun
  simp only [Prod.mk.injEq] at h
  obtain ⟨hids, hhandlers, h⟩ := h
  obtain ⟨t', hothers, hids'⟩ := Option.map_eq_some_iff.mp h
  have hothers : Course (fun t op _ => Beside ⟨1⟩ t op ∧ op.sweeps = false) t t' := .of_follow hothers
  obtain ⟨t₀, h₀, hr⟩ := runFrom_eq_ok hr
  obtain ⟨trail, -, hs⟩ := Span.of_run hr
  obtain ⟨hmap, hisolates, hwaits⟩ := threads_isolated h₀ hs
  exact ⟨t₀, trail, t, t', h₀, hs, hmap, hids, hhandlers, hothers, hids', ((hwaits ⟨1⟩).same t' hothers).2,
    hisolates _ _ _ rfl⟩

end Tracker
end CallGraph
