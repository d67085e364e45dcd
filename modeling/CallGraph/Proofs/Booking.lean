/-
  CallGraph.Proofs.Booking — contexts and anchors of a replay as a record of its visits.

  A `Visit` is one execution of a block, told without the numbers that the tables gave out. As long as
  no block is dropped, there is a context for every chain that was visited (`ChainsBooked`) and an anchor
  for every site that a thread visited, whose hint is where the thread went from there the last time
  (`SitesBooked`). `Bills` says what a visit does to the sites that there are anchors for; that both
  records go on through a visit follows from it.
-/

import Mathlib.Data.List.Dedup
import CallGraph.Proofs.Accounts
import CallGraph.Proofs.Playing

namespace CallGraph

/-! ## Visits -/

/-- One execution of a block. -/
structure Visit where
  thread : ThreadId
  site : Site
  transfer : Transfer
  /-- Where a call over an arc came from, and through which exit. -/
  source : Option (Site × Nat)
  /-- Where the thread ran before. -/
  after : Option Site
  /-- The thread went from there to the same site the last time too. -/
  hit : Bool
deriving DecidableEq

namespace Visit

/-- What has an anchor. -/
def seat (v : Visit) : ThreadId × Site := (v.thread, v.site)

/-- What has an arc. -/
def arc (v : Visit) : Option (ThreadId × Site × Nat × Site) :=
  v.source.map fun s => (v.thread, s.1, s.2, v.site)

/-- The visit was in a chain. -/
def isIn (chain : List FnId) (v : Visit) : Bool := v.site.chain = chain

/-- Where a thread went from a site the last time. -/
def follower (visits : List Visit) (u : ThreadId) (s : Site) : Option Site :=
  (visits.find? fun v => v.thread = u ∧ v.after = some s).map (·.site)

theorem follower_cons (v : Visit) (visits : List Visit) (u : ThreadId) (s : Site) :
    follower (v :: visits) u s = if v.thread = u ∧ v.after = some s then some v.site else follower visits u s := by
  rw [follower, List.find?_cons]
  by_cases h : v.thread = u ∧ v.after = some s
  · rw [decide_eq_true h, if_pos h]
    rfl
  · rw [decide_eq_false h, if_neg h]
    rfl

end Visit

/-- The visit of a block by a thread. -/
def Program.visitOf (P : Program) (visits : List Visit) (u : ThreadId) (sp : Addr) (place : Nat) (b : Block)
    (sc : Actor) : Visit :=
  { thread := u
    site := P.site sp place b sc
    transfer := sc.transfer P.blockOf P.tailCalls b sp
    source := if (sc.transfer P.blockOf P.tailCalls b sp).enters && !P.skips b.fn then sc.callSource P.blockOf else none
    after := sc.last
    hit := sc.last.bind (Visit.follower visits u) = some (P.site sp place b sc) }

/-- How many different things are on a list. -/
def distinct {α : Type} [DecidableEq α] (l : List α) : Nat := l.dedup.length

section
variable {α : Type} [DecidableEq α] {a : α} {l l' : List α}

theorem distinct_of_mem (h : a ∈ l) : distinct (a :: l) = distinct l := by
  rw [distinct, distinct, List.dedup_cons_of_mem h]

theorem distinct_of_not_mem (h : a ∉ l) : distinct (a :: l) = distinct l + 1 := by
  rw [distinct, distinct, List.dedup_cons_of_notMem h]
  rfl

theorem distinct_perm (h : l.Perm l') : distinct l = distinct l' := h.dedup.length_eq

end

namespace Replay

variable {P : Program} {trace : Trace} {r r₁ r' : Replay} {w : World} {u v : ThreadId}

/-! ## Sites and anchors -/

/-- An anchor is for one site of one thread. -/
theorem Shows.sits_unique (h : Shows P r w) {a : AnchorId} {s s' : Site} (hs : r.Sits u a s) (hs' : r.Sits v a s') :
    u = v ∧ s = s' := by
  obtain ⟨y, x, hy, rfl, hlive, hx, hchain⟩ := hs
  obtain ⟨y', x', hy', rfl, hlive', hx', hchain'⟩ := hs'
  rw [hy] at hy'
  cases hy'
  rw [hx] at hx'
  cases hx'
  refine ⟨rfl, ?_⟩
  obtain ⟨place, chain⟩ := s
  obtain ⟨place', chain'⟩ := s'
  have hplace : place = place' := h.apart place place' _ hlive hlive'
  have hsame : chain = chain' := hchain.symm.trans hchain'
  rw [hplace, hsame]

/-- A site of a thread has one anchor. -/
theorem sits_single (hcontexts : r.tracker.contexts.Filed) (hanchors : r.tracker.anchors.Filed) {a b : AnchorId}
    {s : Site} (ha : r.Sits u a s) (hb : r.Sits u b s) : a = b := by
  obtain ⟨y, x, hy, hu, hlive, hx, hchain⟩ := ha
  obtain ⟨y', x', hy', hu', hlive', hx', hchain'⟩ := hb
  refine hanchors.distinct a b y y' hy hy' ?_
  have hblock : y.key.block = y'.key.block := Option.some.inj (hlive.symm.trans hlive')
  have hcontext : y.key.context = y'.key.context :=
    hcontexts.distinct _ _ x x' hx hx' (hchain.trans hchain'.symm)
  have hthread : y.key.thread = y'.key.thread := hu.trans hu'.symm
  calc y.key = ⟨y.key.block, y.key.context, y.key.thread⟩ := rfl
    _ = y'.key := by rw [hblock, hcontext, hthread]

/-- Every anchor is for a site, as long as no block was dropped. -/
def Seated (r : Replay) : Prop := ∀ a y, r.tracker.anchors.get? a = some y → ∃ s, r.Sits y.key.thread a s

section
variable {pos : Position} {place : Nat} {exit : Option Nat} {d : BlockDecl} {id : BlockId} {a : AnchorId} {t : Tracker}
  {y : Anchor} {b : Block}

/-- The accounts of a visit, in the world before it; `r₁` is the replay once the block is registered. -/
theorem Visited.entered_eq (vis : Visited trace r pos place exit d id r₁ a t y r') (h : Shows P r w)
    (hb : trace.toBlock d = .ok b) (hP : P.block place = some b) (hcontexts : r.tracker.contexts.Filed) :
    ∃ blocks live p, r₁ = { r with tracker := { r.tracker with blocks }, live } ∧ Shows P r₁ w ∧
      (∀ u a s, r₁.Sits u a s ↔ r.Sits u a s) ∧ r₁.idOf place = some id ∧ y.key.block = id ∧
      y.key.thread = pos.thread ∧ p.Same (r₁.Sits pos.thread) (w pos.thread) ∧
      r₁.tracker.Entered y.key p ((w pos.thread).transfer P.blockOf P.tailCalls b pos.sp) (P.skips b.fn) a r'.tracker := by
  obtain ⟨h₁, hid, hsits, ⟨blocks, live, hr₁⟩, hblock⟩ := vis.registered h hb hP
  obtain ⟨f, hf⟩ := Tracker.known_decl h₁.inv hblock
  obtain ⟨p, hp, hsame⟩ := h₁.told pos.thread
  obtain ⟨-, c, hctx, y', hy', hkey⟩ := Tracker.enterBlock_stays h₁.inv vis.entered
  rw [vis.anchor] at hy'
  cases hy'
  obtain ⟨c', hctx', hentered⟩ :=
    Tracker.enterBlock_entered h₁.inv vis.entered hp hblock hf (by rw [hr₁]; exact hcontexts)
  rw [hctx] at hctx'
  cases hctx'
  refine ⟨blocks, live, p, hr₁, h₁, hsits, hid, by rw [hkey], by rw [hkey], hsame, ?_⟩
  rw [hkey, ← (h₁.decls _ f hf).1, ← h₁.tailCalls]
  rw [← hsame.transfer fun _ _ hs => h₁.blockOf hs] at hentered
  rw [vis.result]
  exact hentered.setExitsPassed _

/-- A visit keeps contexts and anchors, and records an execution of its own anchor. -/
theorem Visited.kept (vis : Visited trace r pos place exit d id r₁ a t y r') (h : Shows P r w)
    (hb : trace.toBlock d = .ok b) (hP : P.block place = some b) :
    r.tracker.contexts.Extends r'.tracker.contexts ∧ r.tracker.anchors.Keeps r'.tracker.anchors ∧
      r'.tracker.anchors.get? a = some y ∧ r'.hotspots = r.hotspots.record y.key.context a := by
  obtain ⟨h₁, -, -, ⟨blocks, live, hr₁⟩, -⟩ := vis.registered h hb hP
  obtain ⟨-, -, -, hcontexts, hanchors, -⟩ := Tracker.Stays.switchTo r₁.tracker pos.thread
  obtain ⟨hstays, -⟩ := Tracker.enterBlock_stays h₁.inv vis.entered
  have hextends := hstays.contexts
  have hkeeps := hstays.anchors
  rw [hcontexts, hr₁] at hextends
  rw [hanchors, hr₁] at hkeeps
  rw [vis.result, hr₁]
  exact ⟨hextends, hkeeps, vis.anchor, rfl⟩

/-- One visit, from what was there when its block was about to run to what was there afterwards. -/
structure Bills (r r' : Replay) (u : ThreadId) (site : Site) (a : AnchorId) (key : AnchorKey) : Prop where
  sits : ∀ v b s, r'.Sits v b s ↔ r.Sits v b s ∨ v = u ∧ b = a ∧ s = site
  unique : ∀ v v' b s s', r'.Sits v b s → r'.Sits v' b s' → v = v' ∧ s = s'
  single : ∀ v b b' s, r'.Sits v b s → r'.Sits v b' s → b = b'
  /-- Where the site had an anchor, it is the one of the key. -/
  holds : ∀ b, r.Sits u b site ↔ r.tracker.anchors.holds b key = true
  kept : r.tracker.contexts.Extends r'.tracker.contexts
  context : ∃ x, r'.tracker.contexts.get? key.context = some x ∧ x.chain = site.chain

theorem Visited.bills (vis : Visited trace r pos place exit d id r₁ a t y r') (h : Shows P r w)
    (hb : trace.toBlock d = .ok b) (hP : P.block place = some b) (h₁ : Shows P r₁ w) (hid : r₁.idOf place = some id)
    (hblock : y.key.block = id) (hthread : y.key.thread = pos.thread) {sc : Scene ContextId Kept AnchorId}
    {x : Transfer}
    {skip : Bool} (e : r₁.tracker.Entered y.key sc x skip a r'.tracker) (hanchors : r₁.tracker.anchors.Filed)
    (hseated : r₁.Seated) : Bills r₁ r' pos.thread (P.site pos.sp place b (w pos.thread)) a y.key := by
  obtain ⟨hshows, hsits, -⟩ := vis.shows h hb hP
  obtain ⟨hstays, -⟩ := Tracker.enterBlock_stays h₁.inv vis.entered
  have hslots := h₁.inv.tables.anchorSlots
  have hcontexts₀ := (Tracker.Stays.switchTo r₁.tracker pos.thread).2.2.2.1
  have hanchor := vis.anchor
  have hresult := vis.result
  subst hresult
  have hkept : r₁.tracker.contexts.Extends t.contexts := hcontexts₀ ▸ hstays.contexts
  have hold : ∀ {v b s}, r₁.Sits v b s → Sits { r₁ with
      tracker := t.setExitsPassed (exit.getD d.finalIndex)
      hotspots := r₁.hotspots.record y.key.context a } v b s :=
    fun hs => hs.stays (hstays.trans (Tracker.setExitsPassed_stays t (exit.getD d.finalIndex)))
  obtain ⟨z, x, hz, -, -, hx, hchain⟩ := hsits
  cases hanchor.symm.trans hz
  refine ⟨fun v b s => ⟨fun hs => ?_, ?_⟩, fun _ _ _ _ _ hs hs' => hshows.sits_unique hs hs',
    fun _ _ _ _ hs hs' => sits_single e.contexts.1 (e.anchors_filed hslots hanchors).1 hs hs',
    fun c => ⟨fun hs => ?_, fun hc => ?_⟩, hkept, x, hx, hchain⟩
  · -- An anchor that was live before is for the same site as before.
    have hs' := hs
    obtain ⟨z, -, hz, -⟩ := hs'
    obtain ⟨⟨z₀, hz₀, -⟩ | ⟨rfl, -⟩, -⟩ := e.of_live hslots hz
    · obtain ⟨s₀, hs₀⟩ := hseated b z₀ hz₀
      obtain ⟨rfl, rfl⟩ := hshows.sits_unique hs (hold hs₀)
      exact .inl hs₀
    · obtain ⟨rfl, rfl⟩ := hshows.sits_unique hs (vis.shows h hb hP).2.1
      exact .inr ⟨rfl, rfl, rfl⟩
  · rintro (hs | ⟨rfl, rfl, rfl⟩)
    · exact hold hs
    · exact (vis.shows h hb hP).2.1
  · obtain ⟨z, x', hz, hv, hlive, hx', hchain'⟩ := hs
    have hz' : z.key.block = y.key.block := by
      rw [hblock]
      exact Option.some.inj (hlive.symm.trans hid)
    have hz'' : z.key.context = y.key.context :=
      e.contexts.1.distinct _ _ x' x (hkept.kept _ _ hx') hx (hchain'.trans hchain.symm)
    refine Directory.holds_iff.mpr ⟨z, hz, ?_⟩
    calc z.key = ⟨z.key.block, z.key.context, z.key.thread⟩ := rfl
      _ = y.key := by rw [hz', hz'', hv, ← hthread]
  · obtain ⟨z, hz, hk⟩ := Directory.holds_iff.mp hc
    obtain ⟨s, z', x', hz', -, -, hx', -⟩ := hseated c z hz
    rw [hz] at hz'
    cases hz'
    rw [hk] at hx'
    have hsame := hkept.kept _ _ hx'
    cases hx.symm.trans hsame
    exact ⟨z, x, hz, by rw [hk, hthread], by rw [hk, hblock]; exact hid, by rw [hk]; exact hx', hchain⟩

end

section
variable {site : Site} {a : AnchorId} {key : AnchorKey}

theorem Bills.me (m : Bills r r' u site a key) : r'.Sits u a site := (m.sits ..).mpr (.inr ⟨rfl, rfl, rfl⟩)

theorem Bills.old (m : Bills r r' u site a key) {b : AnchorId} {s : Site} (hs : r.Sits v b s) : r'.Sits v b s :=
  (m.sits ..).mpr (.inl hs)

theorem Bills.seated (m : Bills r r' u site a key) {sc : Scene ContextId Kept AnchorId} {x : Transfer} {skip : Bool}
    (e : r.tracker.Entered key sc x skip a r'.tracker) (hslots : r.tracker.anchors.arena.Sound) (h : r.Seated) :
    r'.Seated := by
  intro b z hz
  obtain ⟨⟨z₀, hz₀, hk, -⟩ | ⟨rfl, -⟩, -⟩ := e.of_live hslots hz
  · obtain ⟨s, hs⟩ := h b z₀ hz₀
    rw [← hk]
    exact ⟨s, m.old hs⟩
  · obtain ⟨y, -, hy, hu, -⟩ := m.me
    rw [hz] at hy
    cases hy
    rw [hu]
    exact ⟨site, m.me⟩

end

/-! ## Chains -/

/-- There is a context for every chain that was visited. -/
structure ChainsBooked (C : ContextTable) (visits : List Visit) : Prop where
  filed : C.Filed
  size : C.size = distinct (visits.map fun v => v.site.chain)
  mem : ∀ chain, (∃ c x, C.get? c = some x ∧ x.chain = chain) ↔ chain ∈ visits.map fun v => v.site.chain

theorem ChainsBooked.visit {C C' : ContextTable} {visits : List Visit} (h : ChainsBooked C visits) {c : ContextId}
    (hC : C'.Filed ∧ (C' = C ∨ C.Adds C' c)) (hkept : C.Extends C') {x : Context} (hx : C'.get? c = some x) {v : Visit}
    (hchain : x.chain = v.site.chain) : ChainsBooked C' (v :: visits) := by
  obtain ⟨hfiled, hC⟩ := hC
  refine ⟨hfiled, ?_, fun chain => ?_⟩
  · rw [List.map_cons]
    obtain rfl | hadds := hC
    · rw [distinct_of_mem ((h.mem _).mp ⟨c, x, hx, hchain⟩)]
      exact h.size
    · rw [distinct_of_not_mem fun hmem => ?_, hadds.size, h.size]
      obtain ⟨d, y, hy, e⟩ := (h.mem _).mpr hmem
      exact hadds.fresh x hx d y hy (e.trans hchain.symm)
  · rw [List.map_cons, List.mem_cons, ← h.mem chain, ContextTable.known_iff hC hkept hx, hchain, eq_comm]

/-! ## Sites -/

/-- There is an anchor for every site of a thread that was visited, and its hint is where the thread went from
there the last time. -/
structure SitesBooked (r : Replay) (visits : List Visit) : Prop where
  filed : r.tracker.anchors.Filed
  size : r.tracker.anchors.size = distinct (visits.map Visit.seat)
  seated : r.Seated
  mem : ∀ u s, (∃ a, r.Sits u a s) ↔ (u, s) ∈ visits.map Visit.seat
  after : ∀ v ∈ visits, ∀ s, v.after = some s → ∃ a, r.Sits v.thread a s
  hints : ∀ u a s y, r.Sits u a s → r.tracker.anchors.get? a = some y →
    Option.Rel (r.Sits u) y.next (Visit.follower visits u s)

section
variable {visits : List Visit} {site : Site} {a : AnchorId} {key : AnchorKey} {sc : Scene ContextId Kept AnchorId}
  {x : Transfer} {skip : Bool}

/-- The anchor is found through the hint of the last one exactly if the thread went to the same site the last
time. -/
theorem SitesBooked.hit (h : SitesBooked r visits) (m : Bills r r' u site a key) {last : Option AnchorId}
    {last' : Option Site} (hlast : Option.Rel (r.Sits u) last last') :
    Tracker.followed r.tracker.anchors last key = decide (last'.bind (Visit.follower visits u) = some site) := by
  obtain ⟨rfl, rfl⟩ | ⟨l, s, rfl, rfl, hl⟩ := rel_cases hlast
  · rfl
  · have hl' := hl
    obtain ⟨y, -, hy, -⟩ := hl'
    simp only [Tracker.followed, Option.bind_some, hy]
    obtain ⟨e, e'⟩ | ⟨n, s', e, e', hn⟩ := rel_cases (h.hints u l s y hl hy)
    · simp [e, e']
    · simp only [e, e', Option.any_some]
      have hiff : r.tracker.anchors.holds n key = true ↔ s' = site := by
        rw [← m.holds]
        constructor
        · intro hs
          exact (m.unique u u n s' site (m.old hn) (m.old hs)).2
        · rintro rfl
          exact hn
      rw [Bool.eq_iff_iff, hiff, decide_eq_true_iff, Option.some.injEq]

/-- The hint of the anchor that the thread comes from is the anchor of the visit; all others are what they were. -/
theorem SitesBooked.hint (h : SitesBooked r visits) (m : Bills r r' u site a key)
    (e : r.tracker.Entered key sc x skip a r'.tracker) (hslots : r.tracker.anchors.arena.Sound) {v : Visit}
    (hthread : v.thread = u) (hsite : v.site = site) (hlast : Option.Rel (r.Sits u) sc.last v.after) {u' : ThreadId}
    {b : AnchorId} {s : Site} {y : Anchor} (hs : r'.Sits u' b s) (hy : r'.tracker.anchors.get? b = some y) :
    Option.Rel (r'.Sits u') y.next (Visit.follower (v :: visits) u' s) := by
  obtain ⟨hbefore, hnext⟩ := e.of_live hslots hy
  rw [Visit.follower_cons]
  by_cases hl : sc.last = some b
  · -- The last anchor is for the site that the thread comes from.
    rw [hl] at hlast
    obtain ⟨hnone, -⟩ | ⟨l, s', hl', hs', hsits⟩ := rel_cases hlast
    · cases hnone
    · cases hl'
      obtain ⟨rfl, rfl⟩ := m.unique _ _ _ _ _ hs (m.old hsits)
      rw [if_pos ⟨hthread, hs'⟩, hnext hl, hsite]
      exact .some m.me
  · rw [if_neg fun hv => hl ?_]
    · obtain ⟨y₀, hy₀, hk, hsame⟩ | ⟨rfl, hk, hnone, hfresh⟩ := hbefore
      · obtain hs | ⟨rfl, rfl, rfl⟩ := (m.sits ..).mp hs
        · rw [hsame hl]
          exact rel_mono (h.hints u' b s y₀ hs hy₀) fun _ _ hn => m.old hn
        · obtain ⟨s', hs'⟩ := h.seated b y₀ hy₀
          obtain ⟨rfl, rfl⟩ := m.unique _ _ _ _ _ m.me (m.old hs')
          rw [hsame hl]
          exact rel_mono (h.hints _ b _ y₀ hs' hy₀) fun _ _ hn => m.old hn
      · -- Nothing was there for the site, so nothing followed it.
        obtain ⟨rfl, rfl⟩ := m.unique _ _ _ _ _ hs m.me
        have hnot : Visit.follower visits u' s = none := by
          rw [Visit.follower, Option.map_eq_none_iff, List.find?_eq_none]
          intro v' hv' hfollows
          obtain ⟨rfl, hs'⟩ := of_decide_eq_true hfollows
          obtain ⟨b', hb'⟩ := h.after v' hv' s hs'
          obtain rfl := m.single _ _ _ _ hs (m.old hb')
          obtain ⟨y', -, hy', -⟩ := hb'
          rw [hnone] at hy'
          cases hy'
        rw [hfresh hl, hnot]
        exact .none
    · obtain ⟨rfl, hs'⟩ := hv
      rw [hs'] at hlast
      obtain ⟨-, hnone⟩ | ⟨l, s', hl', hs'', hsits⟩ := rel_cases hlast
      · cases hnone
      · cases hs''
        rw [hthread] at hs
        rw [hl', m.single _ _ _ _ hs (m.old hsits)]

theorem SitesBooked.visit (h : SitesBooked r visits) (m : Bills r r' u site a key)
    (e : r.tracker.Entered key sc x skip a r'.tracker) (hslots : r.tracker.anchors.arena.Sound) {v : Visit}
    (hthread : v.thread = u) (hsite : v.site = site) (hlast : Option.Rel (r.Sits u) sc.last v.after) :
    SitesBooked r' (v :: visits) := by
  have hseat : v.seat = (u, site) := by rw [Visit.seat, hthread, hsite]
  obtain ⟨hfiled, hsize⟩ := e.anchors_filed hslots h.filed
  refine ⟨hfiled, ?_, m.seated e hslots h.seated, fun u' s => ?_, fun v' hv' s hs => ?_,
    fun u' b s y hs hy => h.hint m e hslots hthread hsite hlast hs hy⟩
  · rw [List.map_cons, hseat]
    -- An anchor more was made exactly if the site was not visited before.
    obtain ⟨hholds, hsize⟩ | ⟨hnew, hsize⟩ := hsize
    · rw [distinct_of_mem ((h.mem u site).mp ⟨a, (m.holds a).mpr hholds⟩), hsize, h.size]
    · rw [distinct_of_not_mem fun hmem => ?_, hsize, h.size]
      obtain ⟨b, hb⟩ := (h.mem u site).mpr hmem
      obtain ⟨y, hy, hk⟩ := Directory.holds_iff.mp ((m.holds b).mp hb)
      exact hnew b y hy hk
  · rw [List.map_cons, List.mem_cons, ← h.mem, hseat, Prod.mk.injEq]
    constructor
    · intro hb
      obtain ⟨b, hb⟩ := hb
      obtain hb | ⟨rfl, -, rfl⟩ := (m.sits ..).mp hb
      · exact .inr ⟨b, hb⟩
      · exact .inl ⟨rfl, rfl⟩
    · rintro (⟨rfl, rfl⟩ | ⟨b, hb⟩)
      · exact ⟨a, m.me⟩
      · exact ⟨b, m.old hb⟩
  · obtain rfl | hv' := List.mem_cons.mp hv'
    · rw [hs] at hlast
      obtain ⟨-, hnone⟩ | ⟨l, s', -, hs', hl⟩ := rel_cases hlast
      · cases hnone
      · cases hs'
        rw [hthread]
        exact ⟨l, m.old hl⟩
    · obtain ⟨b, hb⟩ := h.after v' hv' s hs
      exact ⟨b, m.old hb⟩

end

end Replay
end CallGraph
