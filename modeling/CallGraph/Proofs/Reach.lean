/-
  CallGraph.Proofs.Reach — every state of every run.

  An operation succeeds exactly if its precondition holds, whatever ran before (`step_ok`,
  `step_refused`), and then the invariant holds again. So the invariant holds in every state that
  can be reached (`reach_inv`), and a run comes to its end exactly if every precondition on the way
  holds (`run_ok_iff_lawful`): no other fault can be met.
-/

import CallGraph.Proofs.Discarding
import CallGraph.Proofs.Entering

namespace CallGraph

/-- The faults that say that a precondition of an operation does not hold. -/
def Fault.isRefusal : Fault → Bool
  | .outOfRange | .blockWithoutFunction .. | .deadBlock _ => true
  | .signalNotPositive _ | .signalNotHandled .. | .noHandler _ => true
  | _ => false

namespace Config

variable {c : Config}

/-- The settings are accepted, and there is room for what they ask for. -/
def Usable (c : Config) : Prop := c.check = .ok () ∧ c.fits = true

theorem check_eq_ok_iff : c.check = .ok () ↔ c.contextDepth ≠ some 0 ∧ c.contextBuckets ≠ 0 ∧ c.anchorBuckets ≠ 0 := by
  unfold check
  split
  · simp [*]
  · split
    · simp [*]
    · split <;> simp [*]

theorem fits_iff : c.fits = true ↔
    hasRoom bucketBytes c.contextBuckets = true ∧ hasRoom bucketBytes c.anchorBuckets = true ∧
      hasRoom frameBytes c.callStackCapacity = true ∧ hasRoom slotBytes c.fnStackCapacity = true := by
  simp only [fits, Bool.and_eq_true, and_assoc]

end Config

namespace Tracker

variable {t : Tracker}

/-- The preconditions of the operations. -/
def Allowed (t : Tracker) : Op → Prop
  | .setFunctionSkip fn _ => fn.num < t.functions.size
  | .registerBlock block => block.fn.num < t.functions.size
  | .enterBlock _ id => t.blocks.contains id = true
  | .enterHandler _ signal => 0 < signal
  | .exitHandler thread signal => 0 < signal ∧ t.handledSignal thread = signal
  | _ => True

/-! ## The program -/

theorem registerFunction_inv (h : t.Inv) (name : String) (object : ObjId) :
    (t.registerFunction name object).2.Inv := by
  have hcount : ∀ fn, (t.registerFunction name object).2.functions.activeCount fn = t.functions.activeCount fn :=
    t.functions.activeCount_register name object _
  refine ⟨⟨{ h.tables with fnKnown := fun b r hr => ?_ }, h.known.register name object _, h.apart, h.active, h.parked,
    fun fn => (hcount fn).trans (h.balance fn), h.reported.congr hcount fun _ => rfl⟩, h.settled⟩
  have := h.tables.fnKnown b r hr
  exact Nat.lt_trans this (FunctionTable.size_register t.functions name object _ ▸ Nat.lt_succ_self _)

theorem setFunctionSkip_ok (h : t.Inv) {fn : FnId} (hknown : fn.num < t.functions.size) (skip : Bool) :
    ∃ t', t.setFunctionSkip fn skip = .ok t' ∧ t'.Inv ∧ Grows t t' := by
  have hset := FunctionTable.setSkip_ok hknown skip
  have hkeeps := t.functions.keeps_modify fn (f := fun f => { f with skip }) fun _ => rfl
  have hcount := t.functions.activeCount_modify_of_eq fn (f := fun f => { f with skip }) fun _ => rfl
  generalize t.functions.modify fn _ = F at hset hkeeps hcount
  refine ⟨{ t with functions := F }, by simp only [setFunctionSkip, hset, ok_bind, pure_eq_ok], ?_,
    rfl, .refl _, .refl _, .refl _⟩
  have w : Within t { t with functions := F } := ⟨rfl, hkeeps, rfl, rfl, rfl, rfl, rfl⟩
  have hbalance : ∀ g, F.activeCount g = t.threads.slotsOf g := fun g => (hcount g).trans (h.balance g)
  exact ⟨h.within w h.active hbalance (h.reported.congr hcount fun _ => rfl), h.settled⟩

/-- A block is registered under a number that no live block has, so no anchor refers to it yet. -/
theorem register_tables {limit : Option Nat} {functions : Nat} {blocks blocks' : BlockTable} {anchors : Directory}
    (h : Tables limit functions blocks anchors) {block : Block} (hknown : block.fn.num < functions) {id : BlockId}
    (hnew : blocks.get? id = none) (hslots : blocks'.arena.Sound)
    (hget : ∀ j, blocks'.get? j = if j = id then some { block } else blocks.get? j) :
    Tables limit functions blocks' anchors ∧ blocks.Keeps blocks' := by
  have hkeeps : blocks.Keeps blocks' := fun b r hr => ⟨r, (write_keeps hget hnew hr).2, rfl⟩
  have hnone : ∀ a x, anchors.get? a = some x → x.key.block ≠ id := by
    intro a x hx e
    obtain ⟨r, hr⟩ := h.blockLive a x hx
    rw [e, hnew] at hr
    cases hr
  refine ⟨{ h with blockSlots := hslots, fnKnown := ?fnKnown, nodup := ?nodup, listed := ?listed, recent := ?recent,
                   blockLive := ?blockLive }, hkeeps⟩
  case fnKnown =>
    intro b r hr
    rcases write_cases hget hr with ⟨-, rfl⟩ | ⟨-, hr⟩
    · exact hknown
    · exact h.fnKnown b r hr
  case nodup =>
    intro b r hr
    rcases write_cases hget hr with ⟨-, rfl⟩ | ⟨-, hr⟩
    · exact List.nodup_nil
    · exact h.nodup b r hr
  case listed =>
    intro b r hr a
    rcases write_cases hget hr with ⟨rfl, rfl⟩ | ⟨-, hr⟩
    · constructor
      · intro hm
        cases hm
      · intro hx
        obtain ⟨x, hx, e⟩ := hx
        exact absurd e (hnone a x hx)
    · exact h.listed b r hr a
  case recent =>
    intro b r a hr ha
    rcases write_cases hget hr with ⟨-, rfl⟩ | ⟨-, hr⟩
    · cases ha
    · exact h.recent b r a hr ha
  case blockLive =>
    intro a x hx
    obtain ⟨r, hr⟩ := h.blockLive a x hx
    obtain ⟨r', hr', -⟩ := hkeeps _ r hr
    exact ⟨r', hr'⟩

theorem registerBlock_of_known {block : Block} (hknown : block.fn.num < t.functions.size) :
    t.registerBlock block = .ok ((t.blocks.insert block).1, { t with blocks := (t.blocks.insert block).2 }) := by
  simp only [registerBlock, hknown, if_true, pure_eq_ok]

theorem registerBlock_ok (h : t.Inv) {block : Block} (hknown : block.fn.num < t.functions.size) :
    ∃ id t', t.registerBlock block = .ok (id, t') ∧ t'.Inv ∧ Grows t t' ∧ t.blocks.get? id = none := by
  have hnew := BlockTable.get?_insert_new h.tables.blockSlots block
  have hget := BlockTable.get?_insert h.tables.blockSlots block
  have hslots : (t.blocks.insert block).2.arena.Sound := Arena.insert_sound h.tables.blockSlots _
  obtain ⟨tables, hkeeps⟩ := register_tables h.tables hknown hnew hslots hget
  have g : Grows t { t with blocks := (t.blocks.insert block).2 } := ⟨rfl, .refl _, .refl _, hkeeps⟩
  exact ⟨_, _, registerBlock_of_known hknown, ⟨h.grown g rfl rfl tables h.known h.active h.balance h.reported, h.settled⟩,
    g, hnew⟩

/-! ## Handlers -/

theorem enterHandler_ok (h : t.Inv) (thread : ThreadId) {signal : Int} (hpos : 0 < signal) :
    ∃ t', t.enterHandler thread signal = .ok t' ∧ t'.Inv ∧ Grows t t' := by
  have h₀ := h.switchTo thread
  have g₀ := Grows.switchTo t thread
  unfold enterHandler
  generalize t.switchTo thread = t₀ at *
  refine ⟨_, by rw [if_neg (Int.not_le.mpr hpos)]; rfl, ?_⟩
  refine ⟨⟨?_, fun _ e => nomatch e⟩, g₀.trans ⟨rfl, .refl _, .refl _, .refl _⟩⟩
  refine h₀.within ⟨rfl, .refl _, rfl, rfl, rfl, rfl, rfl⟩ ⟨?_, h₀.active.unstaged⟩ (fun fn => ?_) h₀.reported
  · let hd : Handler :=
      { interrupted := t₀.thread.exec, bottom := t₀.thread.shadow.depth, fnDepth := t₀.thread.fns.depth }
    exact .handler signal hd hpos h₀.active.lineage rfl rfl h₀.settled
  · exact h₀.balance fn

theorem signal_switchTo (t : Tracker) (thread : ThreadId) :
    (t.switchTo thread).thread.exec.signal = t.handledSignal thread := by
  rw [thread_switchTo, handledSignal]
  cases t.threads.get? thread <;> rfl

theorem exitHandler_ok (h : t.Inv) {thread : ThreadId} {signal : Int} (hpos : 0 < signal)
    (hh : t.handledSignal thread = signal) : ∃ t', t.exitHandler thread signal = .ok t' ∧ t'.Inv ∧ Grows t t' := by
  have h₀ := h.switchTo thread
  have g₀ := Grows.switchTo t thread
  have hs := signal_switchTo t thread
  rw [hh] at hs
  unfold exitHandler
  generalize t.switchTo thread = t₀ at *
  have hl := h₀.active.lineage
  rw [hs] at hl
  cases hhandlers : t₀.thread.handlers with
  | nil =>
    have := hl.signal_pos
    rw [hhandlers, if_pos rfl] at this
    omega
  | cons hd handlers =>
    obtain ⟨t', hleave, h', hsettled, w, -⟩ := leaveHandler_ok h₀.toSound hhandlers
    refine ⟨t', ?_, ⟨h', hsettled⟩, g₀.trans w.grows⟩
    simp only [hs, ne_eq, not_true, if_false, hleave]

theorem setExitsPassed_inv (h : t.Inv) (n : Nat) : (t.setExitsPassed n).Inv := by
  have w : Within t (t.setExitsPassed n) := ⟨rfl, .refl _, rfl, rfl, rfl, rfl, rfl⟩
  exact ⟨h.within w ⟨h.active.lineage, h.active.unstaged⟩ h.balance h.reported, h.settled⟩

/-! ## One operation -/

/-- What each operation does where it comes to its end. Whatever an operation preserves is proved by cases of
this relation. -/
inductive Effect (t : Tracker) : Op → Reply → Tracker → Prop
  | registerFunction (name : String) (object : ObjId) :
      Effect t (.registerFunction name object) (.function (t.registerFunction name object).1)
        (t.registerFunction name object).2
  | setFunctionSkip {fn : FnId} {skip : Bool} {functions : FunctionTable} :
      t.functions.setSkip fn skip = .ok functions → Effect t (.setFunctionSkip fn skip) .done { t with functions }
  | registerBlock {block : Block} : block.fn.num < t.functions.size →
      Effect t (.registerBlock block) (.block (t.blocks.insert block).1)
        { t with blocks := (t.blocks.insert block).2 }
  | enterBlock {pos : Position} {id : BlockId} {a : AnchorId} {t' : Tracker} :
      t.enterBlock pos id = .ok (a, t') → Effect t (.enterBlock pos id) (.billed a) t'
  | setExitsPassed (n : Nat) : Effect t (.setExitsPassed n) .done (t.setExitsPassed n)
  | enterHandler {u : ThreadId} {signal : Int} {t' : Tracker} :
      t.enterHandler u signal = .ok t' → Effect t (.enterHandler u signal) .done t'
  | exitHandler {u : ThreadId} {signal : Int} {t' : Tracker} :
      t.exitHandler u signal = .ok t' → Effect t (.exitHandler u signal) .done t'
  | discardBlock (id : BlockId) :
      Effect t (.discardBlock id) (.discarded (t.discardBlock id).1) (t.discardBlock id).2
  | finish {t' : Tracker} : t.finish = .ok t' → Effect t .finish .done t'

theorem step_effect {op : Op} {reply : Reply} {t' : Tracker} (hs : t.step op = .ok (reply, t')) :
    t.Effect op reply t' := by
  cases op with
  | registerFunction name object =>
    cases hs
    exact .registerFunction name object
  | setFunctionSkip fn skip =>
    obtain ⟨t₁, hset, h'⟩ := bind_eq_ok.mp hs
    obtain ⟨functions, hfunctions, h''⟩ := bind_eq_ok.mp hset
    cases h''
    cases h'
    exact .setFunctionSkip hfunctions
  | registerBlock block =>
    by_cases hknown : block.fn.num < t.functions.size
    · simp only [step, registerBlock_of_known hknown, ok_bind, pure_eq_ok] at hs
      cases hs
      exact .registerBlock hknown
    · simp only [step, registerBlock, hknown, if_false, throw_eq_error, error_bind] at hs
      cases hs
  | enterBlock pos id =>
    obtain ⟨⟨a, t₁⟩, henter, h'⟩ := bind_eq_ok.mp hs
    cases h'
    exact .enterBlock henter
  | setExitsPassed n =>
    cases hs
    exact .setExitsPassed n
  | enterHandler u signal =>
    obtain ⟨t₁, henter, h'⟩ := bind_eq_ok.mp hs
    cases h'
    exact .enterHandler henter
  | exitHandler u signal =>
    obtain ⟨t₁, hexit, h'⟩ := bind_eq_ok.mp hs
    cases h'
    exact .exitHandler hexit
  | discardBlock id =>
    cases hs
    exact .discardBlock id
  | finish =>
    obtain ⟨t₁, hfinish, h'⟩ := bind_eq_ok.mp hs
    cases h'
    exact .finish hfinish

theorem Effect.step {op : Op} {reply : Reply} {t' : Tracker} (e : t.Effect op reply t') :
    t.step op = .ok (reply, t') := by
  cases e with
  | registerFunction | setExitsPassed | discardBlock => rfl
  | setFunctionSkip hset => simp only [Tracker.step, Tracker.setFunctionSkip, hset, ok_bind, pure_eq_ok]
  | registerBlock hknown => simp only [Tracker.step, registerBlock_of_known hknown, ok_bind, pure_eq_ok]
  | enterBlock h | enterHandler h | exitHandler h | finish h => simp only [Tracker.step, h, ok_bind, pure_eq_ok]

/-- What is live before and after a step is the same anchor or block, which the step neither discarded
nor registered. -/
structure Carries (t : Tracker) (op : Op) (reply : Reply) (t' : Tracker) : Prop where
  config : t'.config = t.config
  contexts : t.contexts.Extends t'.contexts
  anchors : ∀ a x x', t.anchors.get? a = some x → t'.anchors.get? a = some x' → x'.key = x.key
  blocks : ∀ b r r', t.blocks.get? b = some r → t'.blocks.get? b = some r' →
    r'.block = r.block ∧ op ≠ .discardBlock b ∧ reply ≠ .block b

theorem Grows.carries {t' : Tracker} (g : Grows t t') {op : Op} {reply : Reply} (hop : ∀ b, op ≠ .discardBlock b)
    (hreply : ∀ b r, t.blocks.get? b = some r → reply ≠ .block b) : Carries t op reply t' where
  config := g.config
  contexts := g.contexts
  anchors := by
    intro a x x' hx hx'
    obtain ⟨y, hy, hk⟩ := g.anchors a x hx
    rw [hx'] at hy
    cases hy
    exact hk
  blocks := by
    intro b r r' hr hr'
    obtain ⟨y, hy, hb⟩ := g.blocks b r hr
    rw [hr'] at hy
    cases hy
    exact ⟨hb, hop b, hreply b r hr⟩

theorem discardBlock_carries (h : t.Inv) (id : BlockId) :
    Carries t (.discardBlock id) (.discarded (t.discardBlock id).1) (t.discardBlock id).2 := by
  cases hr : t.blocks.get? id with
  | none =>
    rw [discardBlock_dead hr]
    refine ⟨rfl, .refl _, fun a x x' hx hx' => ?_, fun b r r' hb hb' => ?_⟩
    · rw [hx] at hx'
      cases hx'
      rfl
    · rw [hb] at hb'
      cases hb'
      refine ⟨rfl, ?_, nofun⟩
      intro e
      cases e
      rw [hr] at hb
      cases hb
  | some r =>
    obtain ⟨A, B, L, heq, c, -⟩ := discardBlock_live hr
    rw [heq]
    refine ⟨rfl, .refl _, fun a x x' hx hx' => ?_, fun b r r' hb hb' => ?_⟩
    · obtain ⟨y, hy, -, hk, -⟩ := c.of_anchor h.tables hx'
      rw [hx] at hy
      cases hy
      exact hk
    · obtain ⟨hne, hb'⟩ := c.of_block hb'
      rw [hb] at hb'
      cases hb'
      refine ⟨rfl, ?_, nofun⟩
      intro e
      cases e
      exact hne rfl

/-- With its precondition an operation succeeds, and what does not discard only adds to the tables. -/
theorem step_ok (h : t.Inv) {op : Op} (ha : t.Allowed op) :
    ∃ reply t', t.step op = .ok (reply, t') ∧ t'.Inv ∧ Carries t op reply t' ∧
      ((∀ id, op ≠ .discardBlock id) → Grows t t') := by
  cases op with
  | registerFunction name object =>
    have g : Grows t (t.registerFunction name object).2 := ⟨rfl, .refl _, .refl _, .refl _⟩
    exact ⟨_, _, rfl, registerFunction_inv h name object, g.carries nofun (fun _ _ _ => nofun), fun _ => g⟩
  | setFunctionSkip fn skip =>
    obtain ⟨t', hset, h', g⟩ := setFunctionSkip_ok h ha skip
    refine ⟨.done, t', ?_, h', g.carries nofun (fun _ _ _ => nofun), fun _ => g⟩
    simp only [step, hset, ok_bind, pure_eq_ok]
  | registerBlock block =>
    obtain ⟨id, t', hreg, h', g, hnew⟩ := registerBlock_ok h ha
    have hfresh : ∀ b r, t.blocks.get? b = some r → Reply.block id ≠ .block b := by
      intro b r hr e
      cases e
      rw [hnew] at hr
      cases hr
    refine ⟨.block id, t', ?_, h', g.carries nofun hfresh, fun _ => g⟩
    simp only [step, hreg, ok_bind, pure_eq_ok]
  | enterBlock pos id =>
    obtain ⟨r, hr⟩ : ∃ r, t.blocks.get? id = some r := Option.isSome_iff_exists.mp ha
    obtain ⟨a, t', henter, h', g⟩ := enterBlock_ok h pos hr
    exact ⟨_, _, (Effect.enterBlock henter).step, h', g.carries nofun (fun _ _ _ => nofun), fun _ => g⟩
  | setExitsPassed n =>
    have g : Grows t (t.setExitsPassed n) := ⟨rfl, .refl _, .refl _, .refl _⟩
    exact ⟨_, _, rfl, setExitsPassed_inv h n, g.carries nofun (fun _ _ _ => nofun), fun _ => g⟩
  | enterHandler thread signal =>
    obtain ⟨t', henter, h', g⟩ := enterHandler_ok h thread ha
    exact ⟨_, _, (Effect.enterHandler henter).step, h', g.carries nofun (fun _ _ _ => nofun), fun _ => g⟩
  | exitHandler thread signal =>
    obtain ⟨t', hexit, h', g⟩ := exitHandler_ok h ha.1 ha.2
    exact ⟨_, _, (Effect.exitHandler hexit).step, h', g.carries nofun (fun _ _ _ => nofun), fun _ => g⟩
  | discardBlock id =>
    exact ⟨_, _, rfl, discardBlock_inv h id, discardBlock_carries h id, fun hop => absurd rfl (hop id)⟩
  | finish =>
    obtain ⟨t', hfin, h', g⟩ := finish_ok h
    exact ⟨_, _, (Effect.finish hfin).step, h', g.carries nofun (fun _ _ _ => nofun), fun _ => g⟩

theorem blocks_switchTo (t : Tracker) (u : ThreadId) : (t.switchTo u).blocks = t.blocks := by
  unfold Tracker.switchTo
  split <;> rfl

/-- Without its precondition an operation stops with the fault that says so. -/
theorem step_refused (h : t.Inv) {op : Op} (hn : ¬t.Allowed op) :
    ∃ e, t.step op = .error e ∧ e.isRefusal = true := by
  cases op with
  | registerFunction | setExitsPassed | discardBlock | finish => exact absurd trivial hn
  | setFunctionSkip fn skip =>
    have hget : t.functions.get fn = .error .outOfRange := by
      simp only [FunctionTable.get, Array.getElem?_eq_none (Nat.le_of_not_lt hn)]
      rfl
    exact ⟨.outOfRange, by simp only [step, setFunctionSkip, FunctionTable.setSkip, hget, error_bind], rfl⟩
  | registerBlock block =>
    have : ¬block.fn.num < t.functions.size := hn
    exact ⟨_, by simp only [step, registerBlock, if_neg this, throw_eq_error, error_bind]; rfl, rfl⟩
  | enterBlock pos id =>
    obtain ⟨source, hdep, -⟩ := departure_ok (h.switchTo pos.thread)
    have hdead : (t.switchTo pos.thread).blocks.get id = .error (.deadBlock id) := by
      have : t.blocks.get? id = none := Option.not_isSome_iff_eq_none.mp hn
      simp only [BlockTable.get, blocks_switchTo, this]
      rfl
    exact ⟨_, by simp only [step, enterBlock, hdep, ok_bind, hdead, error_bind]; rfl, rfl⟩
  | enterHandler thread signal =>
    have : signal ≤ 0 := Int.not_lt.mp hn
    exact ⟨_, by simp only [step, enterHandler, if_pos this, throw_eq_error, error_bind]; rfl, rfl⟩
  | exitHandler thread signal =>
    have hs := signal_switchTo t thread
    have hl := (h.switchTo thread).active.lineage
    generalize ht : t.switchTo thread = t₀ at *
    by_cases e : t₀.thread.exec.signal = signal
    · -- The signal is handled but not positive, so it stands for no handler.
      have hhandlers : t₀.thread.handlers = [] := by
        by_contra hne
        have hpos := hl.signal_pos
        rw [if_neg hne] at hpos
        exact hn ⟨e ▸ hpos, hs.symm.trans e⟩
      refine ⟨.noHandler t₀.threads.current, ?_, rfl⟩
      simp only [step, exitHandler, ht, e, ne_eq, not_true, if_false, leaveHandler, hhandlers, throw_eq_error,
        error_bind]
    · refine ⟨.signalNotHandled signal thread t₀.thread.exec.signal, ?_, rfl⟩
      simp only [step, exitHandler, ht, ne_eq, e, not_false_eq_true, if_true, throw_eq_error, error_bind]

theorem step_ok_iff (h : t.Inv) (op : Op) : (∃ reply t', t.step op = .ok (reply, t')) ↔ t.Allowed op := by
  constructor
  · intro h'
    obtain ⟨reply, t', hstep⟩ := h'
    by_contra hn
    obtain ⟨e, he, -⟩ := step_refused h hn
    rw [hstep] at he
    cases he
  · intro ha
    obtain ⟨reply, t', hstep, -⟩ := step_ok h ha
    exact ⟨reply, t', hstep⟩

theorem step_inv (h : t.Inv) {op : Op} {reply : Reply} {t' : Tracker} (hs : t.step op = .ok (reply, t')) :
    t'.Inv ∧ Carries t op reply t' := by
  obtain ⟨reply', t'', hstep, h', c, -⟩ := step_ok h ((step_ok_iff h op).mp ⟨reply, t', hs⟩)
  rw [hs] at hstep
  cases hstep
  exact ⟨h', c⟩

theorem step_grows (h : t.Inv) {op : Op} {reply : Reply} {t' : Tracker} (hs : t.step op = .ok (reply, t'))
    (hop : ∀ id, op ≠ .discardBlock id) : Grows t t' := by
  obtain ⟨reply', t'', hstep, -, -, g⟩ := step_ok h ((step_ok_iff h op).mp ⟨reply, t', hs⟩)
  rw [hs] at hstep
  cases hstep
  exact g hop

/-! ## Whole runs -/

/-- The states that a tracker with these settings can come into. -/
inductive Reach (config : Config) : Tracker → Prop
  | init {t : Tracker} : ofConfig config = .ok t → Reach config t
  | step {t t' : Tracker} {op : Op} {reply : Reply} : Reach config t → t.step op = .ok (reply, t') → Reach config t'

theorem empty_tables {limit : Option Nat} (hlimit : limit ≠ some 0) {anchors : Directory}
    (h : anchors.arena = .empty) (hindexed : anchors.Indexed) : Tables limit 0 .empty anchors := by
  have hblock : ∀ b r, BlockTable.empty.get? b ≠ some r := fun b r hr => by
    rw [BlockTable.get?, show BlockTable.empty.arena = Arena.empty from rfl, Arena.get?_empty] at hr
    cases hr
  have hanchor : ∀ a x, anchors.get? a ≠ some x := fun a x hx => by
    rw [Directory.get?, h, Arena.get?_empty] at hx
    cases hx
  exact {
    limitPos := hlimit
    blockSlots := Arena.empty_sound
    anchorSlots := h ▸ Arena.empty_sound
    indexed := hindexed
    fnKnown := fun b r hr => absurd hr (hblock b r)
    nodup := fun b r hr => absurd hr (hblock b r)
    listed := fun b r hr => absurd hr (hblock b r)
    recent := fun b r _ hr => absurd hr (hblock b r)
    blockLive := fun a x hx => absurd hx (hanchor a x)
    nextLive := fun a x _ hx => absurd hx (hanchor a x) }

theorem reserve_eq_ok {bytes : Nat} {count : UInt64} {u : Unit} :
    reserve bytes count = .ok u ↔ Config.hasRoom bytes count = true := by
  unfold reserve
  split <;> simp [*]

theorem reserve_refused {bytes : Nat} {count : UInt64} (h : Config.hasRoom bytes count ≠ true) :
    reserve bytes count = .error .capacityOverflow := if_neg h

theorem ofConfig_eq_ok {config : Config} : ofConfig config = .ok t ↔ config.fits = true ∧
    ∃ C, ContextTable.ofBuckets config.contextBuckets.toNat (config.contextDepth.map UInt64.toNat) = .ok C ∧
      ∃ A, Directory.ofBuckets config.anchorBuckets.toNat = .ok A ∧ t = { config, contexts := C, anchors := A } := by
  unfold ofConfig
  by_cases hlimit : config.contextDepth.map UInt64.toNat = some 0
  · -- With a bound of no function there is no table, whether or not there is room.
    have hnone : ∀ C, ContextTable.ofBuckets config.contextBuckets.toNat
        (config.contextDepth.map UInt64.toNat) ≠ .ok C :=
      fun C hC => (ContextTable.ofBuckets_eq_ok.mp hC).2.1 hlimit
    simp only [hlimit, if_true] at hnone ⊢
    simp [bind_eq_ok, hnone]
  · simp only [hlimit, if_false, bind_eq_ok, reserve_eq_ok, exists_const, pure_eq_ok, Except.ok.injEq,
      @eq_comm _ _ t, Config.fits_iff]
    constructor
    · rintro ⟨hcontexts, C, hC, hanchors, A, hA, hframes, hslots, ht⟩
      exact ⟨⟨hcontexts, hanchors, hframes, hslots⟩, C, hC, A, hA, ht⟩
    · rintro ⟨⟨hcontexts, hanchors, hframes, hslots⟩, C, hC, A, hA, ht⟩
      exact ⟨hcontexts, C, hC, hanchors, A, hA, hframes, hslots, ht⟩

theorem ofConfig_inv {config : Config} (h : ofConfig config = .ok t) :
    t.Inv ∧ t.config = config ∧ t.contexts.depthLimit = config.contextDepth.map UInt64.toNat := by
  obtain ⟨-, C, hC, A, hA, rfl⟩ := ofConfig_eq_ok.mp h
  have hknown := ContextTable.ofBuckets_known (F := .empty) hC fun _ => rfl
  have hindexed := Directory.ofBuckets_indexed hA
  obtain ⟨-, hlimit, rfl⟩ := ContextTable.ofBuckets_eq_ok.mp hC
  obtain ⟨-, rfl⟩ := Directory.ofBuckets_eq_ok.mp hA
  refine ⟨?_, rfl, rfl⟩
  exact {
    tables := empty_tables hlimit rfl hindexed
    known := hknown
    apart := Registry.initial_apart
    active := ThreadState.fresh_sound
    parked := fun u s hu hs => by
      rw [Registry.get?_of_ne hu] at hs
      cases hs
    balance := fun _ => rfl
    reported := .empty fun _ => rfl
    settled := ThreadState.fresh_settled }

/-- The check asks exactly for what the two tables need, but for room. -/
theorem check_eq_ok_iff_tables {config : Config} : config.check = .ok () ↔
    (∃ C, ContextTable.ofBuckets config.contextBuckets.toNat (config.contextDepth.map UInt64.toNat) = .ok C) ∧
      ∃ A, Directory.ofBuckets config.anchorBuckets.toNat = .ok A := by
  have hzero : ∀ n : UInt64, n.toNat ≠ 0 ↔ n ≠ 0 := fun n => not_congr (UInt64.toNat_inj (b := 0))
  have hdepth : config.contextDepth.map UInt64.toNat ≠ some 0 ↔ config.contextDepth ≠ some 0 := by
    cases config.contextDepth with
    | none => simp
    | some n => simpa using hzero n
  rw [Config.check_eq_ok_iff, ← hdepth, ← hzero, ← hzero]
  constructor
  · rintro ⟨hlimit, hcontexts, hanchors⟩
    exact ⟨⟨_, ContextTable.ofBuckets_eq_ok.mpr ⟨hcontexts, hlimit, rfl⟩⟩,
      ⟨_, Directory.ofBuckets_eq_ok.mpr ⟨hanchors, rfl⟩⟩⟩
  · rintro ⟨⟨C, hC⟩, A, hA⟩
    obtain ⟨hcontexts, hlimit, -⟩ := ContextTable.ofBuckets_eq_ok.mp hC
    exact ⟨hlimit, hcontexts, (Directory.ofBuckets_eq_ok.mp hA).1⟩

/-- A tracker is built exactly from settings that are accepted and leave room for what they ask for. -/
theorem ofConfig_ok_iff {config : Config} : (∃ t, ofConfig config = .ok t) ↔ config.Usable := by
  rw [Config.Usable, check_eq_ok_iff_tables]
  constructor
  · rintro ⟨t, h⟩
    obtain ⟨hfits, C, hC, A, hA, -⟩ := ofConfig_eq_ok.mp h
    exact ⟨⟨⟨C, hC⟩, A, hA⟩, hfits⟩
  · rintro ⟨⟨⟨C, hC⟩, A, hA⟩, hfits⟩
    exact ⟨_, ofConfig_eq_ok.mpr ⟨hfits, C, hC, A, hA, rfl⟩⟩

/-- Of accepted settings those without room are refused for just that. -/
theorem ofConfig_overfull {config : Config} (hcheck : config.check = .ok ()) (hfull : config.fits = false) :
    ofConfig config = .error .capacityOverflow := by
  obtain ⟨⟨C, hC⟩, A, hA⟩ := check_eq_ok_iff_tables.mp hcheck
  have hlimit := (ContextTable.ofBuckets_eq_ok.mp hC).2.1
  unfold ofConfig
  simp only [hlimit, if_false, hC, hA, ok_bind]
  by_cases hcontexts : Config.hasRoom Config.bucketBytes config.contextBuckets = true
  · rw [(reserve_eq_ok (u := ())).mpr hcontexts, ok_bind]
    by_cases hanchors : Config.hasRoom Config.bucketBytes config.anchorBuckets = true
    · rw [(reserve_eq_ok (u := ())).mpr hanchors, ok_bind]
      by_cases hframes : Config.hasRoom Config.frameBytes config.callStackCapacity = true
      · rw [(reserve_eq_ok (u := ())).mpr hframes, ok_bind]
        have hslots : Config.hasRoom Config.slotBytes config.fnStackCapacity ≠ true := by
          intro hslots
          rw [Config.fits_iff.mpr ⟨hcontexts, hanchors, hframes, hslots⟩] at hfull
          cases hfull
        rw [reserve_refused hslots]
        rfl
      · rw [reserve_refused hframes]
        rfl
    · rw [reserve_refused hanchors]
      rfl
  · rw [reserve_refused hcontexts]
    rfl

variable {config : Config}

theorem reach_inv (h : Reach config t) :
    t.Inv ∧ t.config = config ∧ t.contexts.depthLimit = config.contextDepth.map UInt64.toNat := by
  induction h with
  | init h => exact ofConfig_inv h
  | step _ hs ih =>
    obtain ⟨hinv, hconfig, hlimit⟩ := ih
    obtain ⟨hinv', c⟩ := step_inv hinv hs
    exact ⟨hinv', c.config.trans hconfig, c.contexts.limit.trans hlimit⟩

theorem run_cons (t : Tracker) (op : Op) (ops : List Op) :
    t.run (op :: ops) = (do let (_, t') ← t.step op; t'.run ops) := by
  simp only [run, List.foldlM_cons]
  cases t.step op <;> rfl

theorem Reach.run (h : Reach config t) {ops : List Op} {t' : Tracker} (hr : t.run ops = .ok t') :
    Reach config t' := by
  induction ops generalizing t with
  | nil => cases hr; exact h
  | cons op ops ih =>
    rw [run_cons] at hr
    cases hs : t.step op with
    | error e => rw [hs] at hr; cases hr
    | ok p =>
      rw [hs] at hr
      exact ih (.step h hs) hr

/-- A run from the beginning. -/
def runFrom (config : Config) (ops : List Op) : Except Fault Tracker := do
  let t ← ofConfig config
  t.run ops

theorem runFrom_eq_ok {ops : List Op} (h : runFrom config ops = .ok t) :
    ∃ t₀, ofConfig config = .ok t₀ ∧ t₀.run ops = .ok t := by
  unfold runFrom at h
  cases h₀ : ofConfig config with
  | error e => rw [h₀] at h; cases h
  | ok t₀ => rw [h₀] at h; exact ⟨t₀, rfl, h⟩

/-- What a run ends in can be computed. -/
theorem runFrom_of_map {α : Type} {ops : List Op} {f : Tracker → α} {a : α}
    (h : (runFrom config ops).map f = .ok a) : ∃ t, runFrom config ops = .ok t ∧ f t = a := map_eq_ok.mp h

theorem reach_runFrom {ops : List Op} (h : runFrom config ops = .ok t) : Reach config t := by
  obtain ⟨t₀, h₀, hr⟩ := runFrom_eq_ok h
  exact (Reach.init h₀).run hr

/-- Few buckets, so that runs are small terms. -/
def fewBuckets : Config := { contextBuckets := 3, anchorBuckets := 3 }

def callBlock (addr : UInt64) (fn : FnId) : Block :=
  { addr := ⟨addr⟩, fn, object := ⟨0⟩, inSection := .text, isEntry := true, sideExits := []
    finalExit := { kind := .call, size := 5 } }

/-- A function calls another one, which calls itself until a signal comes, and runs in the handler too.
Then a second thread starts with the first function. -/
def signalledRun : List Op :=
  [.registerFunction "main" ⟨0⟩, .registerFunction "work" ⟨0⟩,
    .registerBlock (callBlock 100 ⟨0⟩), .registerBlock (callBlock 200 ⟨1⟩),
    .enterBlock { thread := ⟨1⟩, sp := ⟨1000⟩ } ⟨0⟩, .enterBlock { thread := ⟨1⟩, sp := ⟨990⟩ } ⟨1⟩,
    .enterBlock { thread := ⟨1⟩, sp := ⟨980⟩ } ⟨1⟩, .enterHandler ⟨1⟩ 10,
    .enterBlock { thread := ⟨1⟩, sp := ⟨900⟩ } ⟨1⟩, .enterBlock { thread := ⟨2⟩, sp := ⟨2000⟩ } ⟨0⟩]

/-- In every state that can be reached a function has as many open activations as slots on all
threads, its reports come in turn, and no activation is closed that is not open. -/
theorem activations_balanced (h : Reach config t) :
    (∀ fn, t.functions.activeCount fn = t.threads.slotsOf fn) ∧
    (∀ fn, (t.ledger.switches fn).IsChain (· ≠ ·) ∧ (t.ledger.switches fn).getLast? ≠ some false ∧
      ((t.ledger.switches fn).head? = some true ↔ 0 < t.functions.activeCount fn)) ∧
    ∀ op name fn, t.step op ≠ .error (.inactiveFunction name fn) := by
  obtain ⟨hinv, -⟩ := reach_inv h
  refine ⟨hinv.balance, fun fn => ⟨hinv.reported.inTurn fn, hinv.reported.first fn, hinv.reported.latest fn⟩, ?_⟩
  intro op name fn hs
  by_cases ha : t.Allowed op
  · obtain ⟨reply, t', hok, -⟩ := step_ok hinv ha
    rw [hs] at hok
    cases hok
  · obtain ⟨e, he, hrefusal⟩ := step_refused hinv ha
    rw [hs] at he
    cases he
    cases hrefusal

theorem activations_balanced_signalledRun :
    ∃ t, Reach fewBuckets t ∧ t.functions.activeCount ⟨1⟩ = 2 ∧ t.threads.slotsOf ⟨1⟩ = 2 ∧
      (t.ledger.switches ⟨1⟩).head? = some true := by
  have hrun : (runFrom fewBuckets signalledRun).map (fun t => t.functions.activeCount ⟨1⟩) = .ok 2 := by
    decide +kernel
  obtain ⟨t, hr, hcount⟩ := runFrom_of_map hrun
  obtain ⟨hbalance, hreports, -⟩ := activations_balanced (reach_runFrom hr)
  refine ⟨t, reach_runFrom hr, hcount, (hbalance ⟨1⟩).symm.trans hcount, (hreports ⟨1⟩).2.2.mpr ?_⟩
  rw [hcount]
  exact Nat.two_pos

end Tracker
end CallGraph
