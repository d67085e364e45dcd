/-
  CallGraph.Proofs.Telling — what an operation does to the story of every thread.

  Each operation moves at most one thread, and where it came to its end, the story of that thread is
  known from the story before: `enterBlock_tells`, `enterHandler_tells`, `exitHandler_tells`,
  `setExitsPassed_tells`. All other threads keep theirs (`Stays.elsewhere`), but for a discard and
  the end of the run.
-/

import CallGraph.Proofs.Arriving
import CallGraph.Proofs.Reach

namespace CallGraph.Tracker

variable {t t' : Tracker} {u : ThreadId}

/-- Where another thread was switched to, every thread is as before. -/
theorem Stays.switchTo (t : Tracker) (u : ThreadId) :
    (t.switchTo u).config = t.config ∧ (t.switchTo u).functions = t.functions ∧ (t.switchTo u).blocks = t.blocks ∧
      (t.switchTo u).contexts = t.contexts ∧ (t.switchTo u).anchors = t.anchors ∧ (t.switchTo u).ledger = t.ledger := by
  unfold Tracker.switchTo
  split <;> exact ⟨rfl, rfl, rfl, rfl, rfl, rfl⟩

theorem anchors_switchTo (t : Tracker) (u : ThreadId) : (t.switchTo u).anchors = t.anchors :=
  (Stays.switchTo t u).2.2.2.2.1

theorem Stays.elsewhere (s : Stays (t.switchTo u) t') {v : ThreadId} (hv : v ≠ u) : t'.state v = t.state v := by
  have hcur := current_switchTo t u
  rw [state_of_parked s.current s.parked (by rw [hcur]; exact hv), state_switchTo]

theorem Stays.current_eq (s : Stays (t.switchTo u) t') : t'.threads.current = u :=
  s.current.trans (current_switchTo t u)

theorem Stays.state_eq (s : Stays (t.switchTo u) t') : t'.state u = t'.thread := by
  rw [← state_current, s.current_eq]

theorem threads_switchTo (t : Tracker) (u : ThreadId) : (t.switchTo u).threads = t.threads.switchTo u := by
  unfold Tracker.switchTo
  split
  · rename_i e
    rw [e, Registry.switchTo_current]
  · rfl

theorem Stays.mem_ids (s : Stays (t.switchTo u) t') {v : ThreadId} : v ∈ t'.threads.ids ↔ v = u ∨ v ∈ t.threads.ids := by
  rw [Registry.mem_ids_of_parked s.current s.parked, threads_switchTo, Registry.mem_ids_switchTo]

theorem thread_switchTo_state (t : Tracker) (u : ThreadId) : (t.switchTo u).thread = t.state u := thread_switchTo t u

/-! ## Blocks -/

theorem enterBlock_stays (h : t.Inv) {pos : Position} {id : BlockId} {a : AnchorId}
    (he : t.enterBlock pos id = .ok (a, t')) :
    Stays (t.switchTo pos.thread) t' ∧ ∃ c, (t'.state pos.thread).exec.context = some c ∧
      ∃ y, t'.anchors.get? a = some y ∧ y.key = { block := id, context := c, thread := pos.thread } := by
  obtain ⟨source, r, x, skip, c, t₁, t₂, t₃, t₄, st, rfl⟩ := enterBlock_stages he
  obtain ⟨hstays, hctx, hbilled⟩ := st.stays (h.switchTo pos.thread)
  exact ⟨hstays, c, by rw [hstays.state_eq]; exact hctx, hbilled⟩

/-- A context that was not there is that of the block. -/
theorem enterBlock_new (h : t.Inv) {pos : Position} {id : BlockId} {a : AnchorId}
    (he : t.enterBlock pos id = .ok (a, t')) {i : ContextId} {x : Context} (hx : t'.contexts.get? i = some x) :
    t.contexts.get? i = some x ∨ (t'.state pos.thread).exec.context = some i := by
  obtain ⟨source, r, y, skip, c, t₁, t₂, t₃, t₄, st, rfl⟩ := enterBlock_stages he
  obtain ⟨-, -, -, hcontexts, -⟩ := Stays.switchTo t pos.thread
  obtain ⟨hstays, hctx, -⟩ := st.stays (h.switchTo pos.thread)
  rw [← hcontexts, hstays.state_eq, hctx]
  exact (st.new (h.switchTo pos.thread) hx).imp_right fun e => by rw [e]

theorem blockOf_switchTo (t : Tracker) (u : ThreadId) : (t.switchTo u).blockOf = t.blockOf := by
  obtain ⟨-, -, hblocks, -, hanchors, -⟩ := Stays.switchTo t u
  funext a
  simp only [blockOf, hanchors, hblocks]

/-- The block is the one registered, and a call is rolled up if its function is. -/
theorem Stages.registered {pos : Position} {id : BlockId} {source : Option Departure} {r : Resident} {x : Transfer}
    {skip : Bool} {c : ContextId} {a : AnchorId} {t₁ t₂ t₃ t₄ : Tracker}
    (st : Stages (t.switchTo pos.thread) pos id source r x skip c a t₁ t₂ t₃ t₄) {sc : Scene ContextId Kept AnchorId}
    (hs : (t.switchTo pos.thread).thread.Tells sc) {b : Block} (hb : t.blocks.block? id = some b) {f : Function}
    (hf : t.functions.decl? b.fn = some f) : r.block = b ∧ (x.enters = true → skip = f.skip) := by
  obtain ⟨-, hfunctions, hblocks, -⟩ := Stays.switchTo t pos.thread
  have hr : r.block = b := by
    have hr := st.block
    rw [hblocks] at hr
    simp only [BlockTable.block?, hr, Option.map_some, Option.some.injEq] at hb
    exact hb
  refine ⟨hr, fun hx => ?_⟩
  obtain ⟨hskip, -⟩ := prepare_eq st.prepared
  obtain ⟨f', hf', rfl⟩ := hskip hx
  obtain ⟨-, u⟩ := st.left hs
  have hdecl : t₁.functions.decl? b.fn = t.functions.decl? b.fn := by
    rw [u.decls]
    show (t.switchTo pos.thread).functions.decl? b.fn = _
    rw [hfunctions]
  rw [hr, hdecl, hf] at hf'
  cases hf'
  rfl

theorem enterBlock_tells (h : t.Inv) {pos : Position} {id : BlockId} {a : AnchorId}
    (he : t.enterBlock pos id = .ok (a, t')) {sc : Scene ContextId Kept AnchorId} (hs : (t.state pos.thread).Tells sc)
    {b : Block} (hb : t.blocks.block? id = some b) {f : Function} (hf : t.functions.decl? b.fn = some f) :
    ∃ c kept, (t'.state pos.thread).Tells (sc.enter t.blockOf t.config.tailCalls f.skip b pos.sp a c kept) := by
  obtain ⟨source, r, x, skip, c, t₁, t₂, t₃, t₄, st, rfl⟩ := enterBlock_stages he
  obtain ⟨hconfig, -⟩ := Stays.switchTo t pos.thread
  have h₀ := h.switchTo pos.thread
  rw [← thread_switchTo_state] at hs
  obtain ⟨hstays, -⟩ := st.stays h₀
  obtain ⟨kept, htells⟩ := st.tells h₀ hs
  obtain ⟨hr, hskip⟩ := st.registered hs hb hf
  have htransfer := st.transfer_eq hs
  rw [blockOf_switchTo, hconfig, hr] at htells htransfer
  refine ⟨c, kept, ?_⟩
  rw [hstays.state_eq]
  cases hx : x.enters with
  | false =>
    rw [← htransfer] at hx
    rw [Scene.enter_of_stays hx] at htells ⊢
    exact htells
  | true =>
    rw [← hskip hx]
    exact htells

/-! ## Handlers -/

/-- Only the thread and the count of signals change. -/
theorem enterHandler_eq {signal : Int} (he : t.enterHandler u signal = .ok t') :
    ∃ s, t' = { (t.switchTo u).setThread s with
      stats := { (t.switchTo u).stats with signals := (t.switchTo u).stats.signals + 1 } } := by
  unfold enterHandler at he
  split at he
  · cases he
  · cases he
    exact ⟨_, rfl⟩

theorem enterHandler_stays {signal : Int} (he : t.enterHandler u signal = .ok t') : Stays (t.switchTo u) t' := by
  obtain ⟨s, rfl⟩ := enterHandler_eq he
  exact ⟨rfl, rfl, fun _ => rfl, fun _ => rfl, .refl _, .refl _, rfl, rfl⟩

theorem enterHandler_tells {signal : Int} (he : t.enterHandler u signal = .ok t')
    {sc : Scene ContextId Kept AnchorId} (hs : (t.state u).Tells sc) :
    0 < signal ∧ Stays (t.switchTo u) t' ∧
      (t'.state u).Tells ⟨.handler signal sc.last sc.passed sc.story, none, 0⟩ := by
  have hstays := enterHandler_stays he
  unfold enterHandler at he
  split at he
  · cases he
  · rename_i hpos
    have ht' := Except.ok.inj he
    rw [← thread_switchTo_state] at hs
    refine ⟨Int.not_le.mp hpos, hstays, ?_⟩
    rw [hstays.state_eq, ← ht']
    refine ⟨hs.frames, hs.unstaged, congrArg (none :: ·) hs.slots, rfl, ?_, Int.not_le.mp hpos, hs.wellFormed⟩
    show _ :: (t.switchTo u).thread.handlers = _
    rw [hs.handlers, hs.exec, ShadowStack.depth, hs.frames, FnStack.depth, hs.slots, Story.length_frames]
    rfl

theorem exitHandler_tells {signal : Int} (he : t.exitHandler u signal = .ok t') {sc : Scene ContextId Kept AnchorId}
    (hs : (t.state u).Tells sc) :
    sc.story.signal = signal ∧ Unwinds (t.switchTo u) t' ∧ (t'.state u).Tells sc.story.leave := by
  rw [← thread_switchTo_state] at hs
  simp only [exitHandler] at he
  split at he
  · cases he
  · rename_i hsignal
    have hsignal := of_not_not hsignal
    obtain ⟨htells, hu⟩ := leaveHandler_tells hs he
    rw [hs.exec] at hsignal
    refine ⟨hsignal, hu, ?_⟩
    rw [hu.stays.state_eq]
    exact htells

/-- The return of a handler pops frames of its thread, whatever the story of the thread is. -/
theorem exitHandler_unwinds (h : t.Inv) {signal : Int} (he : t.exitHandler u signal = .ok t') :
    Unwinds (t.switchTo u) t' := by
  obtain ⟨sc, hs⟩ := (h.state u).1.story
  exact (exitHandler_tells he hs).2.1

theorem setExitsPassed_tells (n : Nat) {sc : Scene ContextId Kept AnchorId} (hs : t.thread.Tells sc) :
    (t.setExitsPassed n).thread.Tells ⟨sc.story, sc.last, n⟩ := by
  refine ⟨hs.frames, hs.unstaged, hs.slots, ?_, hs.handlers, hs.wellFormed⟩
  show { t.thread.exec with exitsPassed := n } = _
  rw [hs.exec]

theorem setExitsPassed_stays (t : Tracker) (n : Nat) : Stays t (t.setExitsPassed n) :=
  ⟨rfl, rfl, fun _ => rfl, fun _ => rfl, .refl _, .refl _, rfl, rfl⟩

/-! ## One operation -/

/-- Discarding a block and ending the run touch every thread. -/
def Op.sweeps : Op → Bool
  | .discardBlock _ | .finish => true
  | _ => false

/-- How the story of one thread moves with an operation of any thread. -/
inductive Told (t : Tracker) (u : ThreadId) : Op → Scene ContextId Kept AnchorId → Scene ContextId Kept AnchorId → Prop
  | aside {op : Op} {sc sc' : Scene ContextId Kept AnchorId} : sc'.story = sc.story → Told t u op sc sc'
  | block {sc : Scene ContextId Kept AnchorId} (sp : Addr) (id : BlockId) (skip : Bool) (b : Block) (a : AnchorId)
      (c : ContextId) (kept : Kept) :
      Told t u (.enterBlock { thread := u, sp } id) sc (sc.enter t.blockOf t.config.tailCalls skip b sp a c kept)
  | signal {sc : Scene ContextId Kept AnchorId} (signal : Int) :
      Told t u (.enterHandler u signal) sc ⟨.handler signal sc.last sc.passed sc.story, none, 0⟩
  | signalReturn {sc : Scene ContextId Kept AnchorId} : Told t u (.exitHandler u sc.story.signal) sc sc.story.leave

theorem known_decl (h : t.Inv) {id : BlockId} {b : Block} (hb : t.blocks.block? id = some b) :
    ∃ f, t.functions.decl? b.fn = some f := by
  obtain ⟨r, hr, rfl⟩ := Option.map_eq_some_iff.mp hb
  obtain ⟨f, -, hf⟩ := FunctionTable.get_ok (h.tables.fnKnown id r hr)
  exact ⟨_, by rw [FunctionTable.decl?, hf]; rfl⟩

theorem enterBlock_total (h : t.Inv) (pos : Position) {id : BlockId} (hlive : t.blocks.contains id = true)
    {sc : Scene ContextId Kept AnchorId} (hs : (t.state pos.thread).Tells sc) :
    ∃ a t' skip b c kept, t.step (.enterBlock pos id) = .ok (.billed a, t') ∧
      (t'.state pos.thread).Tells (sc.enter t.blockOf t.config.tailCalls skip b pos.sp a c kept) := by
  obtain ⟨r, hr⟩ : ∃ r, t.blocks.get? id = some r := Option.isSome_iff_exists.mp hlive
  have hb : t.blocks.block? id = some r.block := by rw [BlockTable.block?, hr]; rfl
  obtain ⟨f, hf⟩ := known_decl h hb
  obtain ⟨a, t', henter, -, -⟩ := enterBlock_ok h pos hr
  obtain ⟨c, kept, htells⟩ := enterBlock_tells h henter hs hb hf
  exact ⟨a, t', f.skip, r.block, c, kept, (Effect.enterBlock henter).step, htells⟩

/-- The thread that an operation moves. -/
def Op.moves (t : Tracker) : Op → Option ThreadId
  | .enterBlock pos _ => some pos.thread
  | .setExitsPassed _ => some t.threads.current
  | .enterHandler u _ | .exitHandler u _ => some u
  | _ => none

/-- An operation leaves every thread alone that it does not move, unless it sweeps over all of them. -/
theorem step_elsewhere (h : t.Inv) {op : Op} {reply : Reply} (hstep : t.step op = .ok (reply, t'))
    (hop : op.sweeps = false) (hu : op.moves t ≠ some u) : t'.state u = t.state u := by
  cases step_effect hstep with
  | registerFunction | setFunctionSkip | registerBlock => rfl
  | enterBlock henter => exact (enterBlock_stays h henter).1.elsewhere fun e => hu (congrArg some e.symm)
  | setExitsPassed n =>
    have hstays := setExitsPassed_stays t n
    exact state_of_parked hstays.current hstays.parked fun e => hu (congrArg some e.symm)
  | enterHandler henter => exact (enterHandler_stays henter).elsewhere fun e => hu (congrArg some e.symm)
  | exitHandler hexit => exact (exitHandler_unwinds h hexit).stays.elsewhere fun e => hu (congrArg some e.symm)
  | discardBlock | finish => cases hop

/-- The story of every thread goes on through every operation that does not sweep over the threads. -/
theorem step_tells (h : t.Inv) {op : Op} {reply : Reply} (hstep : t.step op = .ok (reply, t'))
    (hop : op.sweeps = false) (u : ThreadId) {sc : Scene ContextId Kept AnchorId} (hs : (t.state u).Tells sc) :
    ∃ sc', (t'.state u).Tells sc' ∧ Told t u op sc sc' := by
  by_cases hu : op.moves t = some u
  case neg =>
    refine ⟨sc, ?_, .aside rfl⟩
    rw [step_elsewhere h hstep hop hu]
    exact hs
  case pos =>
    have hallowed := (step_ok_iff h op).mp ⟨reply, t', hstep⟩
    cases step_effect hstep with
    | registerFunction | setFunctionSkip | registerBlock => cases hu
    | @enterBlock pos id a t' henter =>
      obtain ⟨thread, sp⟩ := pos
      cases hu
      obtain ⟨r, hr⟩ : ∃ r, t.blocks.get? id = some r := Option.isSome_iff_exists.mp hallowed
      have hb : t.blocks.block? id = some r.block := by rw [BlockTable.block?, hr]; rfl
      obtain ⟨f, hf⟩ := known_decl h hb
      obtain ⟨c, kept, htells⟩ := enterBlock_tells h henter hs hb hf
      exact ⟨_, htells, .block sp id f.skip r.block a c kept⟩
    | setExitsPassed n =>
      cases hu
      rw [state_current] at hs
      have hcur : (t.setExitsPassed n).state t.threads.current = (t.setExitsPassed n).thread :=
        state_current (t.setExitsPassed n)
      exact ⟨⟨sc.story, sc.last, n⟩, by rw [hcur]; exact setExitsPassed_tells n hs, .aside rfl⟩
    | @enterHandler v signal t' henter =>
      cases hu
      obtain ⟨-, -, htells⟩ := enterHandler_tells henter hs
      exact ⟨_, htells, .signal signal⟩
    | exitHandler hexit =>
      cases hu
      obtain ⟨rfl, -, htells⟩ := exitHandler_tells hexit hs
      exact ⟨_, htells, .signalReturn⟩
    | discardBlock | finish => cases hop

end CallGraph.Tracker
