/-
  CallGraph.Proofs.Invariant — what holds of a tracker between two operations.

  `Tables` says how blocks and anchors refer to each other, whichever thread runs, and
  `ContextTable.Known` that no number leads beyond the table of contexts. `ThreadState.Sound`
  gives a thread its lineage, and `ThreadState.Settled` says that its last anchor is one of the
  active context. `Tracker.Sound` collects these with the balance of activations and the reports;
  it also holds while frames are popped, when the last anchor of the running thread may be out of
  date. `Tracker.Inv` adds that it is not.

  An operation changes either the running thread alone (`Tracker.Within`) or adds to what is known
  (`Tracker.Grows`); both carry the other threads over.
-/

import CallGraph.Proofs.Lineage
import CallGraph.Proofs.Threads

namespace CallGraph

/-! ## Tables -/

/-- How blocks and anchors refer to each other. -/
structure Tables (limit : Option Nat) (functions : Nat) (blocks : BlockTable) (anchors : Directory) : Prop where
  limitPos : limit ≠ some 0
  blockSlots : blocks.arena.Sound
  anchorSlots : anchors.arena.Sound
  indexed : anchors.Indexed
  fnKnown : ∀ b r, blocks.get? b = some r → r.block.fn.num < functions
  /-- A block lists its anchors, each once. -/
  nodup : ∀ b r, blocks.get? b = some r → r.anchors.Nodup
  listed : ∀ b r, blocks.get? b = some r → ∀ a, a ∈ r.anchors ↔ ∃ x, anchors.get? a = some x ∧ x.key.block = b
  recent : ∀ b r a, blocks.get? b = some r → r.recent = some a → a ∈ r.anchors
  blockLive : ∀ a x, anchors.get? a = some x → ∃ r, blocks.get? x.key.block = some r
  nextLive : ∀ a x n, anchors.get? a = some x → x.next = some n → ∃ y, anchors.get? n = some y

theorem Tables.mem_anchors_iff {limit : Option Nat} {functions : Nat} {blocks : BlockTable} {anchors : Directory}
    (h : Tables limit functions blocks anchors) {b : BlockId} {r : Resident} (hr : blocks.get? b = some r)
    {a : AnchorId} {x : Anchor} (hx : anchors.get? a = some x) : a ∈ r.anchors ↔ x.key.block = b := by
  simp only [h.listed b r hr, hx, Option.some.injEq, exists_eq_left']

/-- Anchors that are live keep their keys. -/
def Directory.Keeps (d d' : Directory) : Prop :=
  ∀ a x, d.get? a = some x → ∃ x', d'.get? a = some x' ∧ x'.key = x.key

theorem Directory.Keeps.refl (d : Directory) : d.Keeps d := fun _ x h => ⟨x, h, rfl⟩

theorem Directory.Keeps.trans {d d' d'' : Directory} (h : d.Keeps d') (h' : d'.Keeps d'') : d.Keeps d'' := by
  intro a x hx
  obtain ⟨x', hx', hk⟩ := h a x hx
  obtain ⟨x'', hx'', hk'⟩ := h' a x' hx'
  exact ⟨x'', hx'', hk'.trans hk⟩

/-- Blocks that are live stay the blocks they are. -/
def BlockTable.Keeps (t t' : BlockTable) : Prop :=
  ∀ b r, t.get? b = some r → ∃ r', t'.get? b = some r' ∧ r'.block = r.block

theorem BlockTable.Keeps.refl (t : BlockTable) : t.Keeps t := fun _ r h => ⟨r, h, rfl⟩

theorem BlockTable.Keeps.trans {t t' t'' : BlockTable} (h : t.Keeps t') (h' : t'.Keeps t'') : t.Keeps t'' := by
  intro b r hr
  obtain ⟨r', hr', hb⟩ := h b r hr
  obtain ⟨r'', hr'', hb'⟩ := h' b r' hr'
  exact ⟨r'', hr'', hb'.trans hb⟩

/-- An anchor that code of a thread in a context may refer to. -/
def Denotes (d : Directory) (thread : ThreadId) (c : ContextId) (a : AnchorId) : Prop :=
  ∃ x, d.get? a = some x ∧ x.key.context = c ∧ x.key.thread = thread

theorem Denotes.mono {d d' : Directory} (h : d.Keeps d') {thread : ThreadId} {c : ContextId} {a : AnchorId}
    (hd : Denotes d thread c a) : Denotes d' thread c a := by
  obtain ⟨x, hx, hc, ht⟩ := hd
  obtain ⟨x', hx', hk⟩ := h a x hx
  exact ⟨x', hx', hk ▸ hc, hk ▸ ht⟩

/-! ## Threads -/

namespace ThreadState

structure Sound (contexts : ContextTable) (anchors : Directory) (thread : ThreadId) (s : ThreadState) : Prop where
  lineage : Lineage (Stands contexts) (Denotes anchors thread) s.exec.signal s.exec.context s.exec.costed
    s.shadow.frames s.fns.slots s.handlers
  unstaged : s.shadow.staged.context = none

/-- The last anchor is one of the active context. -/
def Settled (anchors : Directory) (thread : ThreadId) (s : ThreadState) : Prop :=
  ∀ a, s.exec.anchor = some a → ∃ c, s.exec.context = some c ∧ Denotes anchors thread c a

variable {contexts contexts' : ContextTable} {anchors anchors' : Directory} {thread : ThreadId} {s : ThreadState}

theorem fresh_sound : fresh.Sound contexts anchors thread := ⟨.fresh, rfl⟩

theorem fresh_settled : fresh.Settled anchors thread := fun _ h => nomatch h

theorem Sound.mono (hc : contexts.Extends contexts') (ha : anchors.Keeps anchors')
    (h : s.Sound contexts anchors thread) : s.Sound contexts' anchors' thread :=
  ⟨h.lineage.mono (fun _ _ => Stands.mono hc) fun _ _ => Denotes.mono ha, h.unstaged⟩

theorem Settled.mono (ha : anchors.Keeps anchors') (h : s.Settled anchors thread) : s.Settled anchors' thread := by
  intro a e
  obtain ⟨c, hc, hd⟩ := h a e
  exact ⟨c, hc, hd.mono ha⟩

end ThreadState

/-! ## The tracker -/

namespace Tracker

structure Sound (t : Tracker) : Prop where
  tables : Tables t.contexts.depthLimit t.functions.size t.blocks t.anchors
  known : t.contexts.Known t.functions
  apart : t.threads.Apart
  active : t.thread.Sound t.contexts t.anchors t.threads.current
  parked : ∀ u s, u ≠ t.threads.current → t.threads.get? u = some s →
    s.Sound t.contexts t.anchors u ∧ s.Settled t.anchors u
  /-- An activation is open for every slot of a function stack. -/
  balance : ∀ fn, t.functions.activeCount fn = t.threads.slotsOf fn
  reported : Reported t.functions t.ledger

structure Inv (t : Tracker) : Prop extends Sound t where
  settled : t.thread.Settled t.anchors t.threads.current

theorem Inv.thread {t : Tracker} (h : t.Inv) {u : ThreadId} {s : ThreadState} (hs : t.threads.get? u = some s) :
    s.Sound t.contexts t.anchors u ∧ s.Settled t.anchors u := by
  by_cases e : u = t.threads.current
  · subst e
    rw [Registry.get?_current] at hs
    cases hs
    exact ⟨h.active, h.settled⟩
  · exact h.parked u s e hs

/-- A function on the running thread's stack has an open activation. -/
theorem Sound.active_pos {t : Tracker} (h : t.Sound) {fn : FnId} (hm : some fn ∈ t.thread.fns.slots) :
    0 < t.functions.activeCount fn := by
  have : 0 < t.threads.active.fns.slots.count (some fn) := List.count_pos_iff.mpr hm
  rw [h.balance, Registry.slotsOf]
  omega

theorem Sound.costed {t : Tracker} (h : t.Sound) {c : ContextId} {a : AnchorId} (hc : t.thread.exec.context = some c)
    (ha : t.thread.exec.costed = some a) : Denotes t.anchors t.threads.current c a := by
  have hl := h.active.lineage
  rw [hc, ha] at hl
  exact hl.costed_good

/-! ## Switching threads -/

/-- Every thread stays as it is when another one runs; an unseen one starts fresh. -/
theorem Inv.switch {t : Tracker} (h : t.Inv) (u : ThreadId) (stats : Stats) :
    Inv { t with threads := t.threads.switchTo u, stats } := by
  have hall : ∀ v s, (t.threads.switchTo u).get? v = some s →
      s.Sound t.contexts t.anchors v ∧ s.Settled t.anchors v := by
    intro v s hs
    rw [Registry.get?_switchTo] at hs
    split at hs
    · rename_i e
      subst e
      cases hs
      cases hv : t.threads.get? v with
      | none => exact ⟨ThreadState.fresh_sound, ThreadState.fresh_settled⟩
      | some s => exact h.thread hv
    · exact h.thread hs
  have hactive := hall _ _ (Registry.get?_current (t.threads.switchTo u))
  exact {
    tables := h.tables
    known := h.known
    apart := Registry.switchTo_apart h.apart u
    active := hactive.1
    parked := fun v s _ hs => hall v s hs
    balance := fun fn => (h.balance fn).trans (Registry.slotsOf_switchTo h.apart u fn).symm
    reported := h.reported
    settled := hactive.2 }

theorem Inv.switchTo {t : Tracker} (h : t.Inv) (u : ThreadId) : (t.switchTo u).Inv := by
  unfold Tracker.switchTo
  split
  · exact h
  · exact h.switch u _

theorem current_switchTo (t : Tracker) (u : ThreadId) : (t.switchTo u).threads.current = u := by
  unfold Tracker.switchTo
  split
  · rename_i e; exact e.symm
  · exact Registry.current_switchTo t.threads u

theorem thread_switchTo (t : Tracker) (u : ThreadId) : (t.switchTo u).thread = (t.threads.get? u).getD .fresh := by
  unfold Tracker.switchTo
  split
  · rename_i e
    subst e
    simp [Registry.get?_current, thread]
  · exact Registry.active_switchTo t.threads u

/-! ## What an operation leaves alone -/

/-- Only the running thread, the numbers of activations, the ledger and the counts differ. -/
structure Within (t t' : Tracker) : Prop where
  config : t'.config = t.config
  functions : t.functions.Keeps t'.functions
  blocks : t'.blocks = t.blocks
  contexts : t'.contexts = t.contexts
  anchors : t'.anchors = t.anchors
  current : t'.threads.current = t.threads.current
  parked : t'.threads.parked = t.threads.parked

theorem Within.refl (t : Tracker) : Within t t := ⟨rfl, .refl _, rfl, rfl, rfl, rfl, rfl⟩

theorem Within.trans {t t' t'' : Tracker} (h : Within t t') (h' : Within t' t'') : Within t t'' :=
  ⟨h'.config.trans h.config, h.functions.trans h'.functions, h'.blocks.trans h.blocks,
    h'.contexts.trans h.contexts, h'.anchors.trans h.anchors, h'.current.trans h.current,
    h'.parked.trans h.parked⟩

theorem get?_of_parked {r r' : Registry} (hc : r'.current = r.current) (hp : r'.parked = r.parked) {u : ThreadId}
    (hu : u ≠ r.current) : r'.get? u = r.get? u := by
  rw [Registry.get?_of_ne hu, Registry.get?_of_ne (hc ▸ hu), hp]

theorem slotsOf_of_parked {r r' : Registry} (hp : r'.parked = r.parked) (fn : FnId) :
    r'.slotsOf fn + r.active.fns.slots.count (some fn) = r.slotsOf fn + r'.active.fns.slots.count (some fn) := by
  simp only [Registry.slotsOf, hp]
  omega

/-- Contexts, anchors and blocks that are there stay what they are. -/
structure Grows (t t' : Tracker) : Prop where
  config : t'.config = t.config
  contexts : t.contexts.Extends t'.contexts
  anchors : t.anchors.Keeps t'.anchors
  blocks : t.blocks.Keeps t'.blocks

theorem Grows.refl (t : Tracker) : Grows t t := ⟨rfl, .refl _, .refl _, .refl _⟩

theorem Grows.trans {t t' t'' : Tracker} (h : Grows t t') (h' : Grows t' t'') : Grows t t'' :=
  ⟨h'.config.trans h.config, h.contexts.trans h'.contexts, h.anchors.trans h'.anchors, h.blocks.trans h'.blocks⟩

theorem Within.grows {t t' : Tracker} (w : Within t t') : Grows t t' :=
  ⟨w.config, w.contexts ▸ .refl _, w.anchors ▸ .refl _, w.blocks ▸ .refl _⟩

theorem Grows.switch (t : Tracker) (u : ThreadId) (stats : Stats) :
    Grows t { t with threads := t.threads.switchTo u, stats } :=
  ⟨rfl, .refl _, .refl _, .refl _⟩

theorem Grows.switchTo (t : Tracker) (u : ThreadId) : Grows t (t.switchTo u) := by
  unfold Tracker.switchTo
  split
  · exact .refl t
  · exact .switch t u _

/-- What holds of the parked threads is carried over; the tables, the running thread, the balance and
the reports are left to show. -/
theorem Sound.grown {t t' : Tracker} (h : t.Sound) (g : Grows t t')
    (current : t'.threads.current = t.threads.current) (parked : t'.threads.parked = t.threads.parked)
    (tables : Tables t'.contexts.depthLimit t'.functions.size t'.blocks t'.anchors)
    (known : t'.contexts.Known t'.functions)
    (active : t'.thread.Sound t'.contexts t'.anchors t.threads.current)
    (balance : ∀ fn, t'.functions.activeCount fn = t'.threads.slotsOf fn)
    (reported : Reported t'.functions t'.ledger) : t'.Sound where
  tables := tables
  known := known
  apart := by
    have ha := h.apart
    unfold Registry.Apart at ha ⊢
    rw [parked, current]
    exact ha
  active := by rw [current]; exact active
  parked := by
    intro u s hu hs
    rw [current] at hu
    rw [get?_of_parked current parked hu] at hs
    obtain ⟨hsound, hsettled⟩ := h.parked u s hu hs
    exact ⟨hsound.mono g.contexts g.anchors, hsettled.mono g.anchors⟩
  balance := balance
  reported := reported

/-- When only the running thread changes, the tables are carried over as well. -/
theorem Sound.within {t t' : Tracker} (h : t.Sound) (w : Within t t')
    (active : t'.thread.Sound t.contexts t.anchors t.threads.current)
    (balance : ∀ fn, t'.functions.activeCount fn = t'.threads.slotsOf fn)
    (reported : Reported t'.functions t'.ledger) : t'.Sound := by
  refine h.grown w.grows w.current w.parked ?_ ?_ ?_ balance reported
  · rw [w.contexts, w.functions.size, w.blocks, w.anchors]
    exact h.tables
  · rw [w.contexts]
    exact h.known.keeps w.functions
  · rw [w.contexts, w.anchors]
    exact active

end Tracker
end CallGraph
