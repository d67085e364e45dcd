/-
  CallGraph.Proofs.Playing — a replay told without the numbers that its tables give out.

  What a replay does to the threads of the program is determined by the declared blocks alone. A
  `World` has for every thread what it has open, with declared blocks in call chains (`Site`) where the
  tracker has anchors, and `World.play` says what an event makes of it. A replay shows a world
  (`Replay.Shows`) at the start, and after every event it shows the world after that event; it stops
  exactly where the world does (`play_shows`, `after_shows`). So what two replays have in common can be
  said of their worlds (`World.play_match`).
-/

import Mathlib.Logic.Function.Basic
import CallGraph.Proofs.Fingerprint
import CallGraph.Proofs.Matching
import CallGraph.Proofs.Telling
import CallGraph.Replay.Run

namespace CallGraph

/-! ## Worlds -/

/-- A declared block in a call chain. -/
structure Site where
  place : Nat
  chain : List FnId
deriving DecidableEq

/-- What a thread has open. -/
abbrev Actor := Scene Unit Unit Site

abbrev World := ThreadId → Actor

/-- The thread that an event happens on. -/
def Event.thread? : Event → Option ThreadId
  | .block tid .. | .signal tid _ | .signalReturn tid _ => some ⟨tid.toNat⟩
  | .discard _ => none

/-- What a replay takes from the declarations of a trace and from its settings. -/
structure Program where
  tailCalls : TailCallRule
  depthLimit : Option Nat
  block : Nat → Option Block
  name : FnId → String
  skips : FnId → Bool

namespace Program

variable (P : Program)

/-- The part of a chain that counts. -/
def cut (chain : List FnId) : List FnId :=
  match P.depthLimit with
  | none => chain
  | some n => chain.take n

def blockOf (s : Site) : Option Block := P.block s.place

/-- What is open once a block runs at a stack pointer. -/
def arrive (sp : Addr) (b : Block) (sc : Actor) : Story Unit Unit Site :=
  sc.arrive P.blockOf P.tailCalls (P.skips b.fn) b sp () ()

/-- What the block is billed to. -/
def site (sp : Addr) (place : Nat) (b : Block) (sc : Actor) : Site :=
  { place, chain := P.cut (FnStack.chain ⟨(P.arrive sp b sc).slots⟩) }

/-- A block runs and is left once so many of its exits were passed. -/
def visit (sp : Addr) (place : Nat) (b : Block) (passed : Nat) (sc : Actor) : Actor :=
  { story := P.arrive sp b sc, last := some (P.site sp place b sc), passed }

/-- What an event does to the thread that it happens on; a discard happens to all threads. -/
def act : Event → Actor → Option Actor
  | .block _ sp place exit, sc => (P.block place.toNat).map fun b =>
      P.visit sp place.toNat b ((exit.map UInt64.toNat).getD b.finalIndex) sc
  | .signal _ signal, sc => some { story := .handler signal.toInt sc.last sc.passed sc.story }
  | .signalReturn _ signal, sc => if sc.story.signal = signal.toInt then some sc.story.leave else none
  | .discard place, sc => some (sc.forget fun s => s.place = place.toNat)

end Program

namespace World

/-- Nothing ran. -/
def initial : World := fun _ => { story := .fresh }

def play (P : Program) (w : World) (e : Event) : Option World :=
  match e.thread? with
  | some u => (P.act e (w u)).map (Function.update w u)
  | none => some fun u => (P.act e (w u)).getD (w u)

def run (P : Program) (w : World) (events : List Event) : Option World := events.foldlM (play P) w

/-- Worlds that match thread by thread, for two programs with the same blocks, match after an event or are both
stopped by it, as long as they match after a block or a discard. -/
theorem play_match {C : OpenCall Site → OpenCall Site → Prop} {R : Site → Site → Prop} {P P' : Program} {w w' : World}
    {e : Event} (h : ∀ u, Scene.Match C R (w u) (w' u)) (hblock : P'.block = P.block)
    (hvisit : ∀ tid sp place exit b passed, e = .block tid sp place exit →
      Scene.Match C R (P.visit sp place.toNat b passed (w ⟨tid.toNat⟩))
        (P'.visit sp place.toNat b passed (w' ⟨tid.toNat⟩)))
    (hforget : ∀ place u, Scene.Match C R ((w u).forget fun s => decide (s.place = place))
      ((w' u).forget fun s => decide (s.place = place))) :
    (w.play P e = none ∧ w'.play P' e = none) ∨
      ∃ v v', w.play P e = some v ∧ w'.play P' e = some v' ∧ ∀ u, Scene.Match C R (v u) (v' u) := by
  -- Only the thread that the event is of moves.
  have hmoved : ∀ {u : ThreadId} {sc sc' : Actor}, Scene.Match C R sc sc' →
      ∀ v, Scene.Match C R (Function.update w u sc v) (Function.update w' u sc' v) := by
    intro u sc sc' hsc v
    by_cases e : v = u
    · subst e
      rw [Function.update_self, Function.update_self]
      exact hsc
    · rw [Function.update_of_ne e, Function.update_of_ne e]
      exact h v
  cases e with
  | block tid sp place exit =>
    simp only [play, Event.thread?, Program.act, hblock]
    cases P.block place.toNat with
    | none => exact .inl ⟨rfl, rfl⟩
    | some b => exact .inr ⟨_, _, rfl, rfl, hmoved (hvisit tid sp place exit b _ rfl)⟩
  | signal tid signal =>
    have hu := h ⟨tid.toNat⟩
    refine .inr ⟨_, _, rfl, rfl, hmoved ⟨?_, .none, rfl⟩⟩
    rw [hu.passed]
    exact .handler signal.toInt _ hu.last hu.story
  | signalReturn tid signal =>
    have hu := (h ⟨tid.toNat⟩).story
    simp only [play, Event.thread?, Program.act, hu.signal]
    by_cases hsignal : (w ⟨tid.toNat⟩).story.signal = signal.toInt
    · rw [if_pos hsignal, if_pos hsignal]
      exact .inr ⟨_, _, rfl, rfl, hmoved hu.leave⟩
    · rw [if_neg hsignal, if_neg hsignal]
      exact .inl ⟨rfl, rfl⟩
  | discard place => exact .inr ⟨_, _, rfl, rfl, hforget place.toNat⟩

end World

/-- The block declared at a place. -/
def Trace.block? (trace : Trace) (place : Nat) : Option Block :=
  trace.blocks[place]?.bind fun b => (trace.toBlock b).toOption

/-- Whether calls into a declared function are rolled up. -/
def Trace.skips (trace : Trace) (config : Config) (fn : FnId) : Bool :=
  trace.functions[fn.num]?.any fun f => config.isSkipped f.name || f.skip

def Trace.program (trace : Trace) (config : Config) : Program where
  tailCalls := config.tailCalls
  depthLimit := config.contextDepth.map UInt64.toNat
  block := trace.block?
  name := fun fn => (trace.functions[fn.num]?.map FunctionDecl.name).getD ""
  skips := trace.skips config

theorem Trace.program_block {trace : Trace} {config : Config} {place : Nat} {d : BlockDecl} {b : Block}
    (hd : trace.blocks[place]? = some d) (hb : trace.toBlock d = .ok b) :
    (trace.program config).block place = some b := by
  show trace.block? place = _
  rw [block?, hd, Option.bind_some, hb]
  rfl

/-- The block of an event that was checked is declared. -/
theorem Trace.checkEvent_block {trace : Trace} (config : Config)
    (hblocks : ∀ d ∈ trace.blocks, ∃ b, trace.toBlock d = .ok b) {i : Nat} {tid : UInt32} {sp : Addr} {place : UInt32}
    {exit : Option UInt64} (he : trace.checkEvent i (.block tid sp place exit) = .ok ()) :
    ∃ d b, trace.blocks[place.toNat]? = some d ∧ trace.toBlock d = .ok b ∧
      (trace.program config).block place.toNat = some b := by
  unfold Trace.checkEvent at he
  cases hd : trace.blocks[place.toNat]? with
  | none => simp [hd] at he
  | some d =>
    obtain ⟨b, hb⟩ := hblocks d (Array.mem_of_getElem? hd)
    exact ⟨d, b, rfl, hb, program_block hd hb⟩

/-- So is the block of a discard. -/
theorem Trace.checkEvent_discard {trace : Trace} (config : Config)
    (hblocks : ∀ d ∈ trace.blocks, ∃ b, trace.toBlock d = .ok b) {i : Nat} {place : UInt32}
    (he : trace.checkEvent i (.discard place) = .ok ()) : ∃ b, (trace.program config).block place.toNat = some b := by
  unfold Trace.checkEvent at he
  cases hd : trace.blocks[place.toNat]? with
  | none => simp [hd] at he
  | some d =>
    obtain ⟨b, hb⟩ := hblocks d (Array.mem_of_getElem? hd)
    exact ⟨b, program_block hd hb⟩

theorem lift_eq_ok {α : Type} {x : Except Fault α} {a : α} : (liftM x : Except ReplayError α) = .ok a ↔ x = .ok a := by
  cases x with
  | error => exact iff_of_false nofun nofun
  | ok b => exact ⟨fun h => by cases h; rfl, fun h => by cases h; rfl⟩

namespace Replay

variable {P : Program} {trace : Trace} {r r' : Replay} {w w' : World} {u : ThreadId}

/-- The id that a declared block has now, if it is registered. -/
def idOf (r : Replay) (place : Nat) : Option BlockId := r.live[place]?.join

theorem live_eq {place : Nat} (h : place < r.live.size) : r.live[place]? = some (r.idOf place) := by
  rw [idOf, Array.getElem?_eq_getElem h]
  rfl

theorem idOf_eq {place : Nat} {o : Option BlockId} (h : r.live[place]? = some o) :
    place < r.live.size ∧ r.idOf place = o := by
  refine ⟨(Array.getElem?_eq_some_iff.mp h).1, ?_⟩
  rw [idOf, h]
  rfl

/-- An anchor of a thread is for a site. -/
def Sits (r : Replay) (u : ThreadId) (a : AnchorId) (s : Site) : Prop :=
  ∃ y x, r.tracker.anchors.get? a = some y ∧ y.key.thread = u ∧ r.idOf s.place = some y.key.block ∧
    r.tracker.contexts.get? y.key.context = some x ∧ x.chain = s.chain

/-- A replay that is at a world. -/
structure Shows (P : Program) (r : Replay) (w : World) : Prop where
  inv : r.tracker.Inv
  tailCalls : r.tracker.config.tailCalls = P.tailCalls
  limit : r.tracker.contexts.depthLimit = P.depthLimit
  decls : ∀ fn f, r.tracker.functions.decl? fn = some f → f.skip = P.skips fn ∧ f.name = P.name fn
  declared : ∀ place b, P.block place = some b → b.fn.num < r.tracker.functions.size ∧ place < r.live.size
  resident : ∀ place id, r.idOf place = some id →
    ∃ b, P.block place = some b ∧ r.tracker.blocks.block? id = some b
  apart : ∀ p q id, r.idOf p = some id → r.idOf q = some id → p = q
  /-- The functions of a context are registered, so that it has a name. -/
  named : ∀ c x, r.tracker.contexts.get? c = some x → ∀ fn ∈ x.chain, fn.num < r.tracker.functions.size
  ranked : ∀ p ∈ r.hotspots.tallies.entries, ∃ x, r.tracker.contexts.get? ⟨p.1⟩ = some x
  told : ∀ u, ∃ p, (r.tracker.state u).Tells p ∧ p.Same (r.Sits u) (w u)

/-- The site of an anchor is a declared block. -/
theorem Shows.blockOf (h : Shows P r w) {a : AnchorId} {s : Site} (hs : r.Sits u a s) :
    P.blockOf s = r.tracker.blockOf a := by
  obtain ⟨y, -, hy, -, hlive, -⟩ := hs
  obtain ⟨b, hb, hid⟩ := h.resident _ _ hlive
  rw [Program.blockOf, hb, Tracker.blockOf_eq, hy, Option.bind_some, hid]

/-! ## One thread moves -/

/-- What stays in an operation stays a site. -/
theorem Sits.stays {t' : Tracker} (s : Tracker.Stays (r.tracker.switchTo u) t') {hotspots : Hotspots} {v : ThreadId}
    {a : AnchorId} {site : Site} (h : r.Sits v a site) : Sits { r with tracker := t', hotspots } v a site := by
  obtain ⟨-, -, -, hcontexts, hanchors, -⟩ := Tracker.Stays.switchTo r.tracker u
  obtain ⟨y, x, hy, hu, hlive, hx, hchain⟩ := h
  obtain ⟨y', hy', hk⟩ := s.anchors a y (by rw [hanchors]; exact hy)
  rw [← hk] at hu hlive hx
  exact ⟨y', x, hy', hu, hlive, s.contexts.kept _ x (by rw [hcontexts]; exact hx), hchain⟩

/-- Where one thread moved on, the world is told by where it came to. -/
theorem Shows.moved (h : Shows P r w) {t' : Tracker} (s : Tracker.Stays (r.tracker.switchTo u) t') (hinv : t'.Inv)
    (hnew : ∀ c x, t'.contexts.get? c = some x → r.tracker.contexts.get? c = some x ∨
      (t'.state u).exec.context = some c) {hotspots : Hotspots}
    (hranked : ∀ p ∈ hotspots.tallies.entries, ∃ x, t'.contexts.get? ⟨p.1⟩ = some x) {sc : Actor}
    (htold : ∃ p, (t'.state u).Tells p ∧ p.Same (Sits { r with tracker := t', hotspots } u) sc) :
    Shows P { r with tracker := t', hotspots } (Function.update w u sc) := by
  obtain ⟨hconfig, hfunctions, hblocks, hcontexts, -⟩ := Tracker.Stays.switchTo r.tracker u
  have hsize : t'.functions.size = r.tracker.functions.size := by rw [s.size, hfunctions]
  refine ⟨hinv, ?_, ?_, fun fn f hf => ?_, fun place b hb => ?_, fun place id hid => ?_, h.apart, fun c x hx => ?_,
    hranked, fun v => ?_⟩
  · rw [← h.tailCalls, ← hconfig, ← s.config]
  · rw [← h.limit, ← hcontexts, ← s.contexts.limit]
  · rw [s.decls, hfunctions] at hf
    exact h.decls fn f hf
  · rw [hsize]
    exact h.declared place b hb
  · obtain ⟨b, hb, hget⟩ := h.resident place id hid
    exact ⟨b, hb, by rw [s.blocks, hblocks, hget]⟩
  · rw [hsize]
    obtain hx | hc := hnew c x hx
    · exact h.named c x hx
    · -- The functions of the new context are on the thread's stack.
      intro fn hfn
      have hactive := (hinv.state u).1.fingerprinted.active
      rw [hc] at hactive
      obtain ⟨-, y, hy, hchain⟩ := hactive
      rw [hx] at hy
      cases hy
      rw [hchain] at hfn
      have hfn := ContextTable.mem_of_mem_cut hfn
      rw [← hsize]
      exact hinv.slots_registered (FnStack.mem_of_mem_chain hfn)
  · by_cases e : v = u
    · subst e
      rw [Function.update_self]
      exact htold
    · obtain ⟨p, hp, hsame⟩ := h.told v
      rw [Function.update_of_ne e]
      refine ⟨p, by rw [s.elsewhere e]; exact hp, ?_⟩
      exact hsame.mono fun _ _ hs => hs.stays s

/-- The context of a thread stands for what the thread has open. -/
theorem chain_eq {t : Tracker} (h : t.Inv) (hlimit : t.contexts.depthLimit = P.depthLimit) {c : ContextId}
    (hc : (t.state u).exec.context = some c) {slots : List (Option FnId)} (hslots : (t.state u).fns.slots = slots) :
    ∃ x, t.contexts.get? c = some x ∧ x.chain = P.cut (FnStack.chain ⟨slots⟩) := by
  have hactive := (h.state u).1.fingerprinted.active
  rw [hc] at hactive
  obtain ⟨-, x, hx, hchain⟩ := hactive
  refine ⟨x, hx, hchain.trans ?_⟩
  rw [ContextTable.cut, hlimit, ← hslots]
  rfl

/-! ## Blocks -/

/-- The id of a declared block is set, and those of others are as they were. -/
theorem join_setIfInBounds {live : Array (Option BlockId)} {place : Nat} (h : place < live.size) (o : Option BlockId)
    (q : Nat) : (live.setIfInBounds place o)[q]?.join = if q = place then o else live[q]?.join := by
  rw [Array.getElem?_setIfInBounds]
  by_cases e : place = q
  · subst e
    rw [if_pos rfl, if_pos h, if_pos rfl]
    rfl
  · rw [if_neg e, if_neg (Ne.symm e)]

/-- Registering a declared block changes no site. -/
theorem Shows.registered (h : Shows P r w) {place : Nat} {b : Block} (hb : P.block place = some b)
    (hnone : r.idOf place = none) {blocks : BlockTable} {id : BlockId}
    (hinv : Tracker.Inv { r.tracker with blocks }) (hfresh : r.tracker.blocks.get? id = none)
    (hget : ∀ j, blocks.block? j = if j = id then some b else r.tracker.blocks.block? j) {r₁ : Replay}
    (hr₁ : r₁ = { r with tracker := { r.tracker with blocks }, live := r.live.setIfInBounds place (some id) }) :
    Shows P r₁ w ∧ r₁.idOf place = some id ∧ ∀ u a s, r₁.Sits u a s ↔ r.Sits u a s := by
  subst hr₁
  have hplace := (h.declared place b hb).2
  have hlive : ∀ q, (r.live.setIfInBounds place (some id))[q]?.join = if q = place then some id else r.idOf q :=
    join_setIfInBounds hplace (some id)
  have hfree : r.tracker.blocks.block? id = none := by rw [BlockTable.block?, hfresh]; rfl
  have hother : ∀ q j, r.idOf q = some j → j ≠ id := by
    intro q j hj
    obtain ⟨b', -, hb'⟩ := h.resident q j hj
    exact (write_keeps hget hfree hb').1
  -- No anchor is for the new block yet.
  have hsits : ∀ u a s, Sits { r with
      tracker := { r.tracker with blocks }, live := r.live.setIfInBounds place (some id) } u a s ↔ r.Sits u a s := by
    intro u a s
    refine exists_congr fun y => exists_congr fun x => and_congr_right fun hy => and_congr_right fun _ =>
      and_congr_left fun _ => ?_
    obtain ⟨o, ho⟩ := h.inv.tables.blockLive a y hy
    show (r.live.setIfInBounds place (some id))[s.place]?.join = _ ↔ _
    rw [hlive]
    split
    · rename_i e
      rw [e, hnone]
      refine iff_of_false (fun e => ?_) (Option.some_ne_none _).symm
      rw [← Option.some.inj e, hfresh] at ho
      cases ho
    · rfl
  refine ⟨⟨hinv, h.tailCalls, h.limit, h.decls, fun q b' hb' => ?_, fun q j hj => ?_, fun p q j hp hq => ?_, h.named,
    h.ranked, fun u => ?_⟩, (hlive place).trans (if_pos rfl), hsits⟩
  · obtain ⟨hknown, hq⟩ := h.declared q b' hb'
    exact ⟨hknown, by rw [Array.size_setIfInBounds]; exact hq⟩
  · rcases write_cases hlive hj with ⟨e, rfl⟩ | ⟨-, hj⟩
    · exact ⟨b, e ▸ hb, (hget j).trans (if_pos rfl)⟩
    · obtain ⟨b', hb', hj'⟩ := h.resident q j hj
      exact ⟨b', hb', (write_keeps hget hfree hj').2⟩
  · rcases write_cases hlive hp with ⟨ep, ej⟩ | ⟨-, hp'⟩
    · rcases write_cases hlive hq with ⟨eq, -⟩ | ⟨-, hq'⟩
      · rw [ep, eq]
      · exact absurd ej (hother q j hq')
    · rcases write_cases hlive hq with ⟨-, ej⟩ | ⟨-, hq'⟩
      · exact absurd ej (hother p j hp')
      · exact h.apart p q j hp' hq'
  · obtain ⟨p, hp, hsame⟩ := h.told u
    exact ⟨p, hp, hsame.mono fun a s hs => (hsits u a s).mpr hs⟩

/-- A declared block keeps the id that it has, or it is registered and gets one. -/
theorem resident_eq {place : Nat} {d : BlockDecl} {id : BlockId} (h : resident trace r place d = .ok (id, r')) :
    place < r.live.size ∧ ((r.idOf place = some id ∧ r' = r) ∨ r.idOf place = none ∧
      ∃ b t, trace.toBlock d = .ok b ∧ r.tracker.registerBlock b = .ok (id, t) ∧
        r' = { r with tracker := t, live := r.live.setIfInBounds place (some id) }) := by
  unfold resident at h
  split at h
  · cases h
  · rename_i hlive
    cases h
    obtain ⟨hplace, hid⟩ := idOf_eq hlive
    exact ⟨hplace, .inl ⟨hid, rfl⟩⟩
  · rename_i hlive
    obtain ⟨hplace, hid⟩ := idOf_eq hlive
    obtain ⟨b, hb, h⟩ := bind_eq_ok.mp h
    obtain ⟨⟨id', t⟩, hregister, h⟩ := bind_eq_ok.mp h
    cases h
    exact ⟨hplace, .inr ⟨hid, b, t, hb, hregister, rfl⟩⟩

/-- A declared block is registered when it is about to run. -/
theorem resident_ok (h : Shows P r w) {place : Nat} {d : BlockDecl} {b : Block} (hd : trace.toBlock d = .ok b)
    (hb : P.block place = some b) :
    ∃ id r₁, resident trace r place d = .ok (id, r₁) ∧ Shows P r₁ w ∧ r₁.idOf place = some id ∧
      (∀ u a s, r₁.Sits u a s ↔ r.Sits u a s) ∧
      ∃ blocks live, r₁ = { r with tracker := { r.tracker with blocks }, live } := by
  obtain ⟨hknown, hplace⟩ := h.declared place b hb
  unfold resident
  rw [live_eq hplace]
  cases hid : r.idOf place with
  | some id => exact ⟨id, r, rfl, h, hid, fun _ _ _ => Iff.rfl, _, _, rfl⟩
  | none =>
    obtain ⟨id, t', hregister, hinv, -, hfresh⟩ := Tracker.registerBlock_ok h.inv hknown
    have ht' := hregister
    simp only [Tracker.registerBlock, hknown, if_true, pure_eq_ok, Except.ok.injEq, Prod.mk.injEq] at ht'
    obtain ⟨hnew, rfl⟩ := ht'
    have hget : ∀ j, BlockTable.block? (r.tracker.blocks.insert b).2 j =
        if j = id then some b else r.tracker.blocks.block? j := by
      intro j
      rw [BlockTable.block?, BlockTable.get?_insert h.inv.tables.blockSlots, hnew]
      split <;> rfl
    obtain ⟨h₁, hid₁, hsits⟩ := h.registered hb hid hinv hfresh hget rfl
    exact ⟨id, _, by simp only [hd, ok_bind, hregister, pure_eq_ok], h₁, hid₁, hsits, _, _, rfl⟩

/-- What a played block did on the way. -/
structure Visited (trace : Trace) (r : Replay) (pos : Position) (place : Nat) (exit : Option Nat) (d : BlockDecl)
    (id : BlockId) (r₁ : Replay) (a : AnchorId) (t : Tracker) (y : Anchor) (r' : Replay) : Prop where
  decl : trace.blocks[place]? = some d
  resident : resident trace r place d = .ok (id, r₁)
  entered : r₁.tracker.enterBlock pos id = .ok (a, t)
  anchor : t.anchors.get? a = some y
  result : r' = { r₁ with
    tracker := t.setExitsPassed (exit.getD d.finalIndex), hotspots := r₁.hotspots.record y.key.context a }

theorem playBlock_eq {pos : Position} {place : Nat} {exit : Option Nat} :
    playBlock trace r pos place exit = .ok r' ↔ ∃ d id r₁ a t y, Visited trace r pos place exit d id r₁ a t y r' := by
  constructor
  · intro h
    unfold playBlock at h
    split at h
    · cases h
    · rename_i d hd
      simp only [bind_eq_ok] at h
      obtain ⟨⟨id, r₁⟩, hresident, ⟨a, t⟩, henter, y, hy, h⟩ := h
      cases h
      exact ⟨d, id, r₁, a, t, y, hd, hresident, henter, Directory.get_eq_ok_iff.mp hy, rfl⟩
  · intro h
    obtain ⟨d, id, r₁, a, t, y, h⟩ := h
    have hy : (t.setExitsPassed (exit.getD d.finalIndex)).anchors.get a = .ok y := Directory.get_eq_ok_iff.mpr h.anchor
    simp only [playBlock, h.decl, h.resident, h.entered, ok_bind, hy, pure_eq_ok, h.result]

theorem playBlock_ok (h : Shows P r w) (pos : Position) {place : Nat} (exit : Option Nat) {d : BlockDecl} {b : Block}
    (hd : trace.blocks[place]? = some d) (hb : trace.toBlock d = .ok b) (hP : P.block place = some b) :
    ∃ r', playBlock trace r pos place exit = .ok r' := by
  obtain ⟨id, r₁, hresident, h₁, hid, -⟩ := resident_ok h hb hP
  obtain ⟨b', -, hb'⟩ := h₁.resident place id hid
  obtain ⟨o, ho, -⟩ := Option.map_eq_some_iff.mp hb'
  obtain ⟨a, t, henter, -⟩ := Tracker.enterBlock_ok h₁.inv pos ho
  obtain ⟨-, c, -, y, hy, -⟩ := Tracker.enterBlock_stays h₁.inv henter
  exact ⟨_, playBlock_eq.mpr ⟨d, id, r₁, a, t, y, hd, hresident, henter, hy, rfl⟩⟩

/-- Once its block was registered a visit is of that block. -/
theorem Visited.registered {pos : Position} {place : Nat} {exit : Option Nat} {d : BlockDecl} {id : BlockId}
    {r₁ : Replay} {a : AnchorId} {t : Tracker} {y : Anchor} (v : Visited trace r pos place exit d id r₁ a t y r')
    (h : Shows P r w) {b : Block} (hb : trace.toBlock d = .ok b) (hP : P.block place = some b) :
    Shows P r₁ w ∧ r₁.idOf place = some id ∧ (∀ u a s, r₁.Sits u a s ↔ r.Sits u a s) ∧
      (∃ blocks live, r₁ = { r with tracker := { r.tracker with blocks }, live }) ∧
      r₁.tracker.blocks.block? id = some b := by
  obtain ⟨id', r₁', hresident, h₁, hid, hsits, hr₁⟩ := resident_ok h hb hP
  cases v.resident.symm.trans hresident
  obtain ⟨b', hb', hblock⟩ := h₁.resident place id hid
  cases hP.symm.trans hb'
  exact ⟨h₁, hid, hsits, hr₁, hblock⟩

/-- The replay came to where the world came to, and billed the block to its site. -/
theorem Visited.shows {pos : Position} {place : Nat} {exit : Option Nat} {d : BlockDecl} {id : BlockId} {r₁ : Replay}
    {a : AnchorId} {t : Tracker} {y : Anchor} (v : Visited trace r pos place exit d id r₁ a t y r') (h : Shows P r w)
    {b : Block} (hb : trace.toBlock d = .ok b) (hP : P.block place = some b) :
    Shows P r' (Function.update w pos.thread (P.visit pos.sp place b (exit.getD d.finalIndex) (w pos.thread))) ∧
      r'.Sits pos.thread a (P.site pos.sp place b (w pos.thread)) ∧
      r'.tracker.threads.current = pos.thread ∧ r'.tracker.thread.exec.anchor = some a := by
  obtain ⟨h₁, hid, -, -, hblock⟩ := v.registered h hb hP
  obtain ⟨f, hf⟩ := Tracker.known_decl h₁.inv hblock
  obtain ⟨p, hp, hsame⟩ := h₁.told pos.thread
  obtain ⟨c', kept, htells⟩ := Tracker.enterBlock_tells h₁.inv v.entered hp hblock hf
  obtain ⟨hstays, c, hctx, y', hy', hkey⟩ := Tracker.enterBlock_stays h₁.inv v.entered
  rw [v.anchor] at hy'
  cases hy'
  have hcurrent : t.threads.current = pos.thread := hstays.current_eq
  have hinv : t.Inv := (Tracker.step_inv h₁.inv (Tracker.Effect.enterBlock v.entered).step).1
  rw [(h₁.decls _ f hf).1, h₁.tailCalls] at htells
  have hstory : Story.Match (OpenCall.Same (r₁.Sits pos.thread)) (r₁.Sits pos.thread)
      (p.arrive r₁.tracker.blockOf P.tailCalls (P.skips b.fn) b pos.sp c' kept) (P.arrive pos.sp b (w pos.thread)) :=
    hsame.arrive (fun _ _ hs => h₁.blockOf hs) c' () kept ()
  -- The context of the block stands for what the thread has open now.
  have hlimit : t.contexts.depthLimit = P.depthLimit := by
    rw [hstays.contexts.limit, ← h₁.limit, (Tracker.Stays.switchTo r₁.tracker pos.thread).2.2.2.1]
  obtain ⟨x, hx, hchain⟩ : ∃ x, t.contexts.get? c = some x ∧ x.chain = (P.site pos.sp place b (w pos.thread)).chain :=
    chain_eq hinv hlimit hctx (htells.slots.trans hstory.slots.symm)
  obtain rfl := v.result
  have hpassed := Tracker.setExitsPassed_stays t (exit.getD d.finalIndex)
  have hsits : Sits { r₁ with
      tracker := t.setExitsPassed (exit.getD d.finalIndex), hotspots := r₁.hotspots.record y.key.context a } pos.thread a
      (P.site pos.sp place b (w pos.thread)) := by
    refine ⟨y, x, v.anchor, by rw [hkey], ?_, ?_, hchain⟩
    · rw [hkey]
      exact hid
    · rw [hkey]
      exact hx
  have hthread : (t.setExitsPassed (exit.getD d.finalIndex)).state pos.thread =
      (t.setExitsPassed (exit.getD d.finalIndex)).thread := by
    rw [← hcurrent]
    exact Tracker.state_current (t.setExitsPassed _)
  rw [← hcurrent, Tracker.state_current] at htells
  refine ⟨h₁.moved (hstays.trans hpassed) (Tracker.setExitsPassed_inv hinv _) (fun i z hz => ?_) (fun q hq => ?_) ?_, hsits,
    hcurrent, ?_⟩
  · rw [hthread]
    have := Tracker.enterBlock_new h₁.inv v.entered hz
    rw [← hcurrent, Tracker.state_current] at this
    exact this
  · obtain rfl | hq := SortedMap.mem_insertEntry hq
    · exact ⟨x, by rw [hkey]; exact hx⟩
    · obtain ⟨z, hz⟩ := h₁.ranked q hq
      have hcontexts := (Tracker.Stays.switchTo r₁.tracker pos.thread).2.2.2.1
      exact ⟨z, hstays.contexts.kept _ z (by rw [hcontexts]; exact hz)⟩
  · refine ⟨_, by rw [hthread]; exact Tracker.setExitsPassed_tells _ htells, ?_, .some hsits, rfl⟩
    exact hstory.mono fun _ _ hs => hs.stays (hstays.trans hpassed)
  · show t.thread.exec.anchor = some a
    rw [htells.exec]
    rfl

/-! ## Discards -/

theorem ranked_retire {hs : Hotspots} {c : ContextId} {a : AnchorId} {q : Nat × Tally}
    (h : q ∈ (hs.retire c a).tallies.entries) : ∃ q' ∈ hs.tallies.entries, q'.1 = q.1 := by
  unfold Hotspots.retire at h
  split at h
  · exact ⟨q, h, rfl⟩
  · rename_i t ht
    obtain rfl | h := SortedMap.mem_insertEntry h
    · exact ⟨_, SortedMap.mem_of_get? ht, rfl⟩
    · exact ⟨q, h, rfl⟩

/-- Retiring the anchors of a block ranks no further context. -/
theorem retire_ok {t : Tracker} (anchors : List AnchorId) (hs : Hotspots)
    (hlive : ∀ a ∈ anchors, ∃ y, t.anchors.get? a = some y) :
    ∃ hs', anchors.foldlM (fun (hs : Hotspots) a => do
        let y ← t.anchors.get a
        pure (hs.retire y.key.context a)) hs = .ok hs' ∧
      ∀ q ∈ hs'.tallies.entries, ∃ q' ∈ hs.tallies.entries, q'.1 = q.1 := by
  induction anchors generalizing hs with
  | nil => exact ⟨hs, rfl, fun q hq => ⟨q, hq, rfl⟩⟩
  | cons a anchors ih =>
    obtain ⟨y, hy⟩ := hlive a (List.mem_cons_self ..)
    obtain ⟨hs', hfold, hsub⟩ := ih (hs.retire y.key.context a) fun b hb => hlive b (List.mem_cons_of_mem a hb)
    refine ⟨hs', by simp only [List.foldlM_cons, Directory.get_eq_ok_iff.mpr hy, ok_bind, pure_eq_ok]; exact hfold, ?_⟩
    intro q hq
    obtain ⟨q', hq', e⟩ := hsub q hq
    obtain ⟨q'', hq'', e'⟩ := ranked_retire hq'
    exact ⟨q'', hq'', e'.trans e⟩

theorem size_of_idOf {place : Nat} {id : BlockId} (h : r.idOf place = some id) : place < r.live.size := by
  have hget : r.live[place]? = some (some id) := Option.join_eq_some_iff.mp h
  exact (Array.getElem?_eq_some_iff.mp hget).1

/-- The anchors for the sites of a declared block are those that the block lists. -/
theorem Shows.sits_at (h : Shows P r w) {place : Nat} {id : BlockId} (hid : r.idOf place = some id) {o : Resident}
    (ho : r.tracker.blocks.get? id = some o) {a : AnchorId} {s : Site} (hs : r.Sits u a s) :
    decide (s.place = place) = o.anchors.contains a := by
  obtain ⟨y, -, hy, -, hlive, -⟩ := hs
  have hiff : s.place = place ↔ a ∈ o.anchors := by
    rw [h.inv.tables.mem_anchors_iff ho hy]
    constructor
    · intro e
      rw [e, hid] at hlive
      exact (Option.some.inj hlive).symm
    · intro hk
      rw [hk] at hlive
      exact h.apart _ _ id hlive hid
  rw [List.contains_eq_mem]
  exact decide_eq_decide.mpr hiff

/-- Where a registered block went, the sites that are left are those of other places. -/
theorem Shows.sits_cleared (h : Shows P r w) {place : Nat} {id : BlockId} (hid : r.idOf place = some id) {o : Resident}
    {blocks : BlockTable} (c : Cleared r.tracker.blocks blocks r.tracker.anchors r'.tracker.anchors id o)
    (hcontexts : r'.tracker.contexts = r.tracker.contexts)
    (hlive : ∀ q, r'.idOf q = if q = place then none else r.idOf q) {a : AnchorId} {s : Site} :
    r'.Sits u a s ↔ r.Sits u a s ∧ s.place ≠ place := by
  constructor
  · rintro ⟨y, x, hy, hu, hid', hx, hchain⟩
    obtain ⟨y₀, hy₀, -, hk, -⟩ := c.of_anchor h.inv.tables hy
    rw [hlive] at hid'
    split at hid'
    · cases hid'
    · rename_i hne
      rw [hk] at hu hid' hx
      rw [hcontexts] at hx
      exact ⟨⟨y₀, x, hy₀, hu, hid', hx, hchain⟩, hne⟩
  · rintro ⟨⟨y, x, hy, hu, hid', hx, hchain⟩, hne⟩
    have hm : a ∉ o.anchors := by
      rw [h.inv.tables.mem_anchors_iff c.live hy]
      intro hk
      rw [hk] at hid'
      exact hne (h.apart _ _ id hid' hid)
    obtain ⟨y', hy', hk⟩ := c.kept hy hm
    rw [← hk] at hu hid' hx
    exact ⟨y', x, hy', hu, by rw [hlive, if_neg hne, hid'], by rw [hcontexts, hx], hchain⟩

/-- A registered block that went is forgotten. -/
theorem Shows.discarded (h : Shows P r w) {place : Nat} {id : BlockId} (hid : r.idOf place = some id) {o : Resident}
    {blocks : BlockTable} {anchors : Directory} (c : Cleared r.tracker.blocks blocks r.tracker.anchors anchors id o)
    {stats : Stats} {ledger : Ledger} {hotspots : Hotspots} {t' : Tracker}
    (ht' : t' = { r.tracker with
      blocks, anchors, stats, ledger, threads := r.tracker.threads.forget fun a => o.anchors.contains a })
    (hinv : t'.Inv) (hsub : ∀ q ∈ hotspots.tallies.entries, ∃ q' ∈ r.hotspots.tallies.entries, q'.1 = q.1) :
    Shows P { tracker := t', live := r.live.setIfInBounds place none, hotspots }
      fun u => (w u).forget fun s => s.place = place := by
  have hlive : ∀ q, (r.live.setIfInBounds place none)[q]?.join = if q = place then none else r.idOf q :=
    join_setIfInBounds (size_of_idOf hid) none
  have hkept : ∀ q j, (r.live.setIfInBounds place none)[q]?.join = some j → r.idOf q = some j ∧ j ≠ id := by
    intro q j hj
    rw [hlive] at hj
    split at hj
    · cases hj
    · rename_i hne
      refine ⟨hj, fun e => hne ?_⟩
      rw [e] at hj
      exact h.apart q place id hj hid
  -- A site is at the place exactly if its anchor is one of the block that goes.
  have hdead : ∀ u a s, r.Sits u a s → decide (s.place = place) = o.anchors.contains a :=
    fun _ _ _ hs => h.sits_at hid c.live hs
  have hsits : ∀ u a s, Sits { tracker := t', live := r.live.setIfInBounds place none, hotspots } u a s ↔
      r.Sits u a s ∧ s.place ≠ place := by
    intro u a s
    apply h.sits_cleared
    · exact hid
    · rw [ht']
      exact c
    · rw [ht']
    · exact hlive
  subst ht'
  refine ⟨hinv, h.tailCalls, h.limit, h.decls, fun q b hb => ?_, fun q j hj => ?_, fun p q j hp hq => ?_, h.named,
    fun q hq => ?_, fun u => ?_⟩
  · obtain ⟨hknown, hq⟩ := h.declared q b hb
    exact ⟨hknown, by rw [Array.size_setIfInBounds]; exact hq⟩
  · obtain ⟨hj, hne⟩ := hkept q j hj
    obtain ⟨b, hb, hblock⟩ := h.resident q j hj
    refine ⟨b, hb, ?_⟩
    rw [BlockTable.block?, c.blocksGet, if_neg hne]
    exact hblock
  · exact h.apart p q j (hkept p j hp).1 (hkept q j hq).1
  · obtain ⟨q', hq', e⟩ := hsub q hq
    rw [← e]
    exact h.ranked q' hq'
  · obtain ⟨p, hp, hsame⟩ := h.told u
    refine ⟨p.forget fun a => o.anchors.contains a, ?_, hsame.forget (hdead u) fun a s hs hlive' => ?_⟩
    · rw [Tracker.state_of_forget (t := r.tracker) rfl]
      exact hp.forget _
    · have hne : s.place ≠ place := by
        have := hdead u a s hs
        rw [hlive'] at this
        exact of_decide_eq_false this
      exact (hsits ..).mpr ⟨hs, hne⟩

/-- A discard drops a registered block, once its anchors were retired, and does nothing otherwise. -/
theorem playDiscard_eq {place : Nat} (h : playDiscard r place = .ok r') :
    (r.idOf place = none ∧ r' = r) ∨ ∃ id o hotspots, r.idOf place = some id ∧ r.tracker.blocks.get? id = some o ∧
      o.anchors.foldlM (fun (h : Hotspots) a => do
        let y ← r.tracker.anchors.get a
        pure (h.retire y.key.context a)) r.hotspots = .ok hotspots ∧
      r' = { tracker := (r.tracker.discardBlock id).2, live := r.live.setIfInBounds place none, hotspots } := by
  unfold playDiscard at h
  split at h
  · cases h
  · rename_i hlive
    cases h
    exact .inl ⟨(idOf_eq hlive).2, rfl⟩
  · rename_i id hlive
    have hid := (idOf_eq hlive).2
    obtain ⟨o, ho, h⟩ := bind_eq_ok.mp h
    obtain ⟨hotspots, hretire, h⟩ := bind_eq_ok.mp h
    cases h
    exact .inr ⟨id, o, hotspots, hid, BlockTable.get_eq_ok_iff.mp ho, hretire, rfl⟩

/-- Dropping the code of a declared block is forgetting its sites. -/
theorem playDiscard_shows (h : Shows P r w) {place : Nat} {b : Block} (hP : P.block place = some b) :
    ∃ r', playDiscard r place = .ok r' ∧ Shows P r' fun u => (w u).forget fun s => s.place = place := by
  unfold playDiscard
  rw [live_eq (h.declared place b hP).2]
  cases hid : r.idOf place with
  | none =>
    refine ⟨r, rfl, h.inv, h.tailCalls, h.limit, h.decls, h.declared, h.resident, h.apart, h.named, h.ranked, fun u => ?_⟩
    obtain ⟨p, hp, hsame⟩ := h.told u
    refine ⟨p, hp, ?_⟩
    rw [← @Scene.forget_eq _ _ _ (fun _ => false) p fun _ _ => rfl]
    refine hsame.forget (fun a s hs => ?_) fun _ _ hs _ => hs
    obtain ⟨y, -, -, -, hlive, -⟩ := hs
    refine decide_eq_false fun e => ?_
    rw [e, hid] at hlive
    cases hlive
  | some id =>
    obtain ⟨b, hb, hblock⟩ := h.resident place id hid
    obtain ⟨o, ho, -⟩ := Option.map_eq_some_iff.mp hblock
    obtain ⟨hotspots, hretire, hsub⟩ := retire_ok o.anchors r.hotspots fun a ha => by
      obtain ⟨y, hy, -⟩ := (h.inv.tables.listed id o ho a).mp ha
      exact ⟨y, hy⟩
    have hinv := Tracker.discardBlock_inv h.inv id
    obtain ⟨A, B, L, hdiscard, c, -⟩ := Tracker.discardBlock_live ho
    rw [hdiscard] at hinv
    simp only [BlockTable.get_eq_ok ho, ok_bind]
    rw [hretire]
    simp only [hdiscard, ok_bind, pure_eq_ok]
    exact ⟨_, rfl, h.discarded hid c rfl hinv hsub⟩

/-! ## Signals -/

/-- What is handled is what the world says. -/
theorem Shows.signal (h : Shows P r w) (u : ThreadId) : r.tracker.handledSignal u = (w u).story.signal := by
  obtain ⟨p, hp, hsame⟩ := h.told u
  rw [← Tracker.signal_switchTo, Tracker.thread_switchTo_state, hp.exec]
  exact hsame.story.signal.symm

/-- Control comes from where the world says. -/
theorem Shows.departure (h : Shows P r w) (u : ThreadId) :
    ∃ source, (r.tracker.switchTo u).departure = .ok source ∧
      source.map (fun d => (d.block, d.kind)) = ((w u).departure P.blockOf).map fun d => (d.block, d.kind) := by
  obtain ⟨source, hsource, -⟩ := Tracker.departure_ok (h.inv.switchTo u)
  obtain ⟨p, hp, hsame⟩ := h.told u
  rw [← Tracker.thread_switchTo_state] at hp
  refine ⟨source, hsource, ?_⟩
  rw [← Tracker.departure_tells hsource hp, Tracker.blockOf_switchTo, Scene.Match.departure hsame fun _ _ hs => h.blockOf hs]

/-- The frames of a thread are those of the calls that it has open. -/
theorem Shows.levels (h : Shows P r w) (u : ThreadId) :
    (r.tracker.state u).shadow.frames.map (·.sp) = (w u).story.marks.map (·.sp) := by
  obtain ⟨p, hp, hsame⟩ := h.told u
  rw [hp.frames, hsame.story.marks]
  exact (Transfer.levels_congr p.story.marks_eq).symm

theorem Shows.slots (h : Shows P r w) (u : ThreadId) : (r.tracker.state u).fns.slots = (w u).story.slots := by
  obtain ⟨p, hp, hsame⟩ := h.told u
  exact hp.slots.trans hsame.story.slots.symm

theorem Shows.wellFormed (h : Shows P r w) (u : ThreadId) : (w u).story.WellFormed := by
  obtain ⟨p, hp, hsame⟩ := h.told u
  exact hsame.story.wellFormed hp.wellFormed

theorem enterHandler_shows (h : Shows P r w) (u : ThreadId) {signal : Int} (hpos : 0 < signal) :
    ∃ t', r.tracker.enterHandler u signal = .ok t' ∧ Shows P { r with tracker := t' }
      (Function.update w u { story := .handler signal (w u).last (w u).passed (w u).story }) := by
  obtain ⟨t', henter, hinv, -⟩ := Tracker.enterHandler_ok h.inv u hpos
  obtain ⟨p, hp, hsame⟩ := h.told u
  obtain ⟨-, hstays, htells⟩ := Tracker.enterHandler_tells henter hp
  have hcontexts : t'.contexts = r.tracker.contexts := by
    obtain ⟨s, rfl⟩ := Tracker.enterHandler_eq henter
    exact (Tracker.Stays.switchTo r.tracker u).2.2.2.1
  have hsame : p.Same (Sits { r with tracker := t' } u) (w u) := hsame.mono fun _ _ hs => hs.stays hstays
  refine ⟨t', henter, h.moved hstays hinv (fun c x hx => .inl (by rw [← hcontexts]; exact hx)) (fun q hq => ?_)
    ⟨_, htells, ?_, .none, rfl⟩⟩
  · rw [hcontexts]
    exact h.ranked q hq
  · rw [hsame.passed]
    exact .handler signal p.passed hsame.last hsame.story

theorem exitHandler_shows (h : Shows P r w) (u : ThreadId) {signal : Int} (hpos : 0 < signal)
    (hsignal : (w u).story.signal = signal) :
    ∃ t', r.tracker.exitHandler u signal = .ok t' ∧ Shows P { r with tracker := t' }
      (Function.update w u (w u).story.leave) := by
  obtain ⟨t', hexit, hinv, -⟩ := Tracker.exitHandler_ok h.inv hpos ((h.signal u).trans hsignal)
  obtain ⟨p, hp, hsame⟩ := h.told u
  obtain ⟨-, hu, htells⟩ := Tracker.exitHandler_tells hexit hp
  have hcontexts : t'.contexts = r.tracker.contexts :=
    hu.contexts.trans (Tracker.Stays.switchTo r.tracker u).2.2.2.1
  have hsame : p.Same (Sits { r with tracker := t' } u) (w u) := hsame.mono fun _ _ hs => hs.stays hu.stays
  refine ⟨t', hexit, h.moved hu.stays hinv (fun c x hx => .inl (by rw [← hcontexts]; exact hx)) (fun q hq => ?_)
    ⟨_, htells, hsame.story.leave⟩⟩
  rw [hcontexts]
  exact h.ranked q hq

/-! ## One event -/

theorem checkSignal_eq_ok {i : Nat} {signal : Int32} (h : Trace.checkSignal i signal = .ok ()) : 0 < signal.toInt := by
  unfold Trace.checkSignal at h
  split at h
  · cases h
  · omega

theorem finalIndex_eq {d : BlockDecl} {b : Block} (h : trace.toBlock d = .ok b) : b.finalIndex = d.finalIndex := by
  unfold Trace.toBlock Block.ofExits at h
  split at h
  · cases h
  · split at h
    · cases h
    · cases h
      exact List.length_dropLast

/-- The chain that the block that ran last was billed to. -/
def billed (r : Replay) : Option (List FnId) := do
  let a ← r.tracker.thread.exec.anchor
  let y ← r.tracker.anchors.get? a
  let x ← r.tracker.contexts.get? y.key.context
  pure x.chain

/-- An event that only refers to what is declared does to the replay what it does to the world, and stops the
one where it stops the other. -/
theorem play_shows {config : Config} (h : Shows (trace.program config) r w)
    (hblocks : ∀ d ∈ trace.blocks, ∃ b, trace.toBlock d = .ok b) {i : Nat} {e : Event}
    (he : trace.checkEvent i e = .ok ()) :
    (∃ r' w', play trace r i e = .ok r' ∧ w.play (trace.program config) e = some w' ∧
      Shows (trace.program config) r' w') ∨
      ((∃ x, play trace r i e = .error x) ∧ w.play (trace.program config) e = none) := by
  cases e with
  | block tid sp place exit =>
    obtain ⟨d, b, hd, hb, hP⟩ := Trace.checkEvent_block config hblocks he
    obtain ⟨r', hplay⟩ := playBlock_ok h ⟨⟨tid.toNat⟩, sp⟩ (exit.map UInt64.toNat) hd hb hP
    obtain ⟨d', id, r₁, a, t, y, v⟩ := playBlock_eq.mp hplay
    have hd' := v.decl
    rw [hd] at hd'
    cases hd'
    refine .inl ⟨r', _, ?_, ?_, (v.shows h hb hP).1⟩
    · simp only [play, hplay]
      rfl
    · simp only [World.play, Event.thread?, Program.act, hP, Option.map_some, finalIndex_eq hb]
  | signal tid signal =>
    obtain ⟨t', henter, hshows⟩ := enterHandler_shows h ⟨tid.toNat⟩ (checkSignal_eq_ok he)
    refine .inl ⟨_, _, ?_, rfl, hshows⟩
    simp only [play, henter]
    rfl
  | signalReturn tid signal =>
    have hpos := checkSignal_eq_ok he
    simp only [play, World.play, Event.thread?, Program.act, h.signal]
    by_cases hsignal : (w ⟨tid.toNat⟩).story.signal = signal.toInt
    · obtain ⟨t', hexit, hshows⟩ := exitHandler_shows h ⟨tid.toNat⟩ hpos hsignal
      refine .inl ⟨_, _, ?_, by rw [if_pos hsignal]; rfl, hshows⟩
      rw [if_neg (not_not_intro hsignal), hexit]
      rfl
    · refine .inr ⟨⟨_, by rw [if_pos hsignal]; rfl⟩, by rw [if_neg hsignal]; rfl⟩
  | discard place =>
    obtain ⟨b, hP⟩ := Trace.checkEvent_discard config hblocks he
    obtain ⟨r', hplay, hshows⟩ := playDiscard_shows h hP
    refine .inl ⟨r', _, ?_, rfl, hshows⟩
    simp only [play, hplay]
    rfl

theorem play_signal_eq {i : Nat} {tid : UInt32} {signal : Int32} :
    play trace r i (.signal tid signal) = .ok r' ↔
      ∃ t, r.tracker.enterHandler ⟨tid.toNat⟩ signal.toInt = .ok t ∧ r' = { r with tracker := t } := by
  rw [play, bind_eq_ok]
  refine exists_congr fun t => and_congr lift_eq_ok ⟨fun h => (Except.ok.inj h).symm, fun h => ?_⟩
  rw [h]
  rfl

/-- Only the signal that is handled returns. -/
theorem play_signalReturn_eq {i : Nat} {tid : UInt32} {signal : Int32} :
    play trace r i (.signalReturn tid signal) = .ok r' ↔
      r.tracker.handledSignal ⟨tid.toNat⟩ = signal.toInt ∧
        ∃ t, r.tracker.exitHandler ⟨tid.toNat⟩ signal.toInt = .ok t ∧ r' = { r with tracker := t } := by
  rw [play]
  split
  · rename_i hne
    exact iff_of_false nofun fun h => hne h.1
  · rename_i hsignal
    rw [bind_eq_ok, and_iff_right (of_not_not hsignal)]
    refine exists_congr fun t => and_congr lift_eq_ok ⟨fun h => (Except.ok.inj h).symm, fun h => ?_⟩
    rw [h]
    rfl

/-- A block event that was played is a visit of its declared block. -/
theorem play_visited {config : Config} (hblocks : ∀ d ∈ trace.blocks, ∃ b, trace.toBlock d = .ok b) {i : Nat}
    {tid : UInt32}
    {sp : Addr} {place : UInt32} {exit : Option UInt64} (hplay : play trace r i (.block tid sp place exit) = .ok r') :
    ∃ d b id r₁ a t y, Visited trace r ⟨⟨tid.toNat⟩, sp⟩ place.toNat (exit.map UInt64.toNat) d id r₁ a t y r' ∧
      trace.toBlock d = .ok b ∧ (trace.program config).block place.toNat = some b := by
  obtain ⟨d, id, r₁, a, t, y, v⟩ := playBlock_eq.mp (lift_eq_ok.mp hplay)
  obtain ⟨b, hb⟩ := hblocks d (Array.mem_of_getElem? v.decl)
  exact ⟨d, b, id, r₁, a, t, y, v, hb, Trace.program_block v.decl hb⟩

/-- A block is billed to the chain that is open once it runs. -/
theorem play_billed {config : Config} (h : Shows (trace.program config) r w)
    (hblocks : ∀ d ∈ trace.blocks, ∃ b, trace.toBlock d = .ok b) {i : Nat} {tid : UInt32} {sp : Addr} {place : UInt32}
    {exit : Option UInt64} (hplay : play trace r i (.block tid sp place exit) = .ok r')
    (hw : w.play (trace.program config) (.block tid sp place exit) = some w') :
    r'.billed = some ((trace.program config).cut (FnStack.chain ⟨(w' ⟨tid.toNat⟩).story.slots⟩)) := by
  obtain ⟨d, b, id, r₁, a, t, y, v, hb, hP⟩ := play_visited hblocks hplay
  obtain ⟨-, ⟨y', x, hy, -, -, hx, hchain⟩, -, ha⟩ := v.shows h hb hP
  simp only [World.play, Event.thread?, Program.act, hP, Option.map_some, Option.some.injEq] at hw
  rw [← hw, Function.update_self]
  simp only [billed, ha, hy, hx, hchain, Option.bind_eq_bind, Option.bind_some, Option.pure_def]
  rfl

end Replay
end CallGraph
