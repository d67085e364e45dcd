/-
  CallGraph.Proofs.Delivering — the first block of a signal handler.

  A handler that was entered waits for its first block, and its thread only forgets evicted anchors
  meanwhile, whatever the other threads do (`beside_forgets`). The block has no predecessor, but its
  stack pointer still leaves frames behind, and every frame there is belongs to the interrupted code.
  So the block is the handler's exactly if no frame is below its stack pointer; otherwise frames of
  the interrupted code are popped and the handler is left before it ran (`first_block_of_handler`,
  `handler_abandoned_above`).
-/

import CallGraph.Proofs.Restoring
import CallGraph.Proofs.Matching

namespace CallGraph

/-! ## Waiting -/

theorem keepLive_none (o : Option AnchorId) : keepLive (fun _ => false) o = o := by
  cases o <;> rfl

theorem keepLive_keepLive (dead dead' : AnchorId → Bool) (o : Option AnchorId) :
    keepLive dead' (keepLive dead o) = keepLive (fun a => dead a || dead' a) o := by
  simp only [keepLive, Option.filter_filter, Bool.not_or]

namespace ThreadState

variable (s : ThreadState)

theorem forget_none : s.forget (fun _ => false) = s := by
  simp [forget, Exec.forget, keepLive_none]

theorem forget_forget (dead dead' : AnchorId → Bool) :
    (s.forget dead).forget dead' = s.forget fun a => dead a || dead' a := by
  simp [forget, Exec.forget, keepLive_keepLive, Function.comp_def]

end ThreadState
namespace Tracker

variable {config : Config} {t t' t₁ t₂ : Tracker} {u : ThreadId} {signal : Int}

/-- An operation that is not one on a thread. A block may be discarded, but the run goes on. -/
def Beside (u : ThreadId) (t : Tracker) : Op → Prop
  | .enterBlock pos _ => pos.thread ≠ u
  | .setExitsPassed _ => t.threads.current ≠ u
  | .enterHandler thread _ | .exitHandler thread _ => thread ≠ u
  | .finish => False
  | _ => True

instance (u : ThreadId) (t : Tracker) : ∀ op, Decidable (Beside u t op)
  | .enterBlock pos _ => instDecidableNot (p := pos.thread = u)
  | .setExitsPassed _ => instDecidableNot (p := t.threads.current = u)
  | .enterHandler thread _ | .exitHandler thread _ => instDecidableNot (p := thread = u)
  | .finish => .isFalse id
  | .registerFunction .. | .setFunctionSkip .. | .registerBlock _ | .discardBlock _ => .isTrue trivial

theorem Beside.moves {op : Op} (h : Beside u t op) : op.moves t ≠ some u := by
  cases op with
  | enterBlock | setExitsPassed | enterHandler | exitHandler => exact fun e => h (Option.some.inj e)
  | finish => exact h.elim
  | registerFunction | setFunctionSkip | registerBlock | discardBlock => exact (Option.some_ne_none u).symm

theorem discardBlock_forgets (t : Tracker) (id : BlockId) (u : ThreadId) :
    ∃ dead, (t.discardBlock id).2.state u = (t.state u).forget dead := by
  cases hr : t.blocks.get? id with
  | none => exact ⟨fun _ => false, by rw [discardBlock_dead hr, ThreadState.forget_none]⟩
  | some r =>
    obtain ⟨A, B, L, heq, -⟩ := discardBlock_live hr
    rw [heq]
    exact ⟨_, state_of_forget rfl u⟩

theorem step_beside (h : t.Inv) {op : Op} {reply : Reply} (hstep : t.step op = .ok (reply, t')) (hb : Beside u t op) :
    ∃ dead, t'.state u = (t.state u).forget dead := by
  cases hop : op.sweeps with
  | false => exact ⟨fun _ => false, by rw [step_elsewhere h hstep hop hb.moves, ThreadState.forget_none]⟩
  | true =>
    cases step_effect hstep with
    | discardBlock id => exact discardBlock_forgets t id u
    | finish => exact hb.elim
    | _ => cases hop

/-- While only other threads run, a thread forgets anchors and nothing else. -/
theorem beside_forgets (h : t.Inv) (hc : Course (fun t op _ => Beside u t op) t t') :
    ∃ dead, t'.state u = (t.state u).forget dead := by
  induction hc with
  | here => exact ⟨fun _ => false, (ThreadState.forget_none _).symm⟩
  | step hstep hbeside _ ih =>
    obtain ⟨dead, e⟩ := step_beside h hstep hbeside
    obtain ⟨dead', e'⟩ := ih (step_inv h hstep).1
    exact ⟨_, by rw [e', e, ThreadState.forget_forget]⟩

/-- A handler that was entered keeps what it interrupted, and waits for its first block. -/
theorem enterHandler_state (he : t.enterHandler u signal = .ok t') :
    0 < signal ∧ t'.state u =
      { t.state u with
        handlers :=
          { interrupted := (t.state u).exec, bottom := (t.state u).shadow.depth, fnDepth := (t.state u).fns.depth } ::
            (t.state u).handlers
        exec := { signal }, fns := (t.state u).fns.push none } := by
  unfold enterHandler at he
  split at he
  · cases he
  · rename_i hpos
    have ht' := Except.ok.inj he
    have hcur : t'.threads.current = u := by
      rw [← ht']
      exact current_switchTo t u
    have hstate := state_current t'
    rw [hcur] at hstate
    refine ⟨Int.not_le.mp hpos, ?_⟩
    rw [hstate, ← ht', ← thread_switchTo_state]
    rfl

/-! ## The first block -/

/-- What stands for a first function is a chain of one function. -/
theorem chain_of_first {contexts : ContextTable} {c : ContextId} {fn : FnId} {below : List (Option FnId)}
    (hs : Stands contexts c (some fn :: none :: below)) : ∃ x, contexts.get? c = some x ∧ x.chain = [fn] := by
  obtain ⟨x, hx, hchain⟩ := hs
  refine ⟨x, hx, ?_⟩
  rw [FnStack.chain_function, FnStack.chain_marker] at hchain
  unfold ContextTable.cut at hchain
  split at hchain
  · exact hchain
  · rename_i n _
    cases n with
    | zero => cases hchain
    | succ n => rw [hchain, List.take_succ_cons, List.take_nil]

/-- A thread that waits for the first block of a handler. -/
theorem waiting_story {s : ThreadState} {sc : Scene ContextId Kept AnchorId} (hs : s.Tells sc) (hpos : 0 < signal)
    (hexec : s.exec = { signal }) : ∃ last passed before, sc = ⟨.handler signal last passed before, none, 0⟩ := by
  obtain ⟨story, last, passed⟩ := sc
  have hexec := hexec.symm.trans hs.exec
  obtain ⟨rfl, hctx, rfl, rfl, -⟩ := Exec.mk.inj hexec
  have hstarted : story.started = false := by
    rw [← Story.isSome_context hs.wellFormed, ← hctx]
    rfl
  cases story with
  | fresh => exact absurd hpos (Int.lt_irrefl 0)
  | first | call => cases hstarted
  | handler sig last passed before => exact ⟨last, passed, before, rfl⟩

/-- The block was the first one of a handler: the signal is still handled, nothing of the interrupted code was
left, and the block is billed to the context of its function alone. -/
structure StartsHandler (t t' : Tracker) (u : ThreadId) (signal : Int) (id : BlockId) (a : AnchorId) : Prop where
  signal : (t'.state u).exec.signal = signal
  frames : (t'.state u).shadow.frames = (t.state u).shadow.frames
  handlers : (t'.state u).handlers = (t.state u).handlers
  billed : ∃ b y x, t.blocks.block? id = some b ∧ t'.anchors.get? a = some y ∧ y.key.block = id ∧ y.key.thread = u ∧
    t'.contexts.get? y.key.context = some x ∧ x.chain = [b.fn]

/-- The block was none of the innermost handler: that was left, and frames below it. -/
structure AbandonsHandler (t t' : Tracker) (u : ThreadId) : Prop where
  depth : (t'.state u).shadow.depth < (t.state u).shadow.depth
  handlers : (t'.state u).handlers.length < (t.state u).handlers.length

/-- Nothing precedes the block: it enters no function, and leaves what its stack pointer leaves. -/
theorem waiting_transfer {κ ι α : Type} {blockOf : α → Option Block} {rule : TailCallRule} {target : Block} {sp : Addr}
    {s : Story κ ι α} :
    Scene.transfer blockOf rule target sp ⟨s, none, 0⟩ = { pops := leftBehind sp 0 s.marks, enters := false, sp } := rfl

/-- A call below a handler that has none of its own is not left without the handler. -/
theorem nesting_of_pops {κ ι α : Type} {last l : Option α} {passed p n : Nat} {before : Story κ ι α} (hn : 0 < n) :
    (Scene.popCalls ⟨.handler signal last passed before, l, p⟩ n).story.nesting ≤ before.nesting := by
  obtain ⟨n, rfl⟩ : ∃ m, n = m + 1 := Nat.exists_eq_succ_of_ne_zero (Nat.ne_of_gt hn)
  calc (Scene.popCalls (before.popCall last passed) n).story.nesting
    _ ≤ (before.popCall last passed).story.nesting := Scene.nesting_popCalls_le ..
    _ ≤ before.nesting := Story.nesting_popCall_le ..

section
variable {last : Option AnchorId} {passed : Nat} {before : Story ContextId Kept AnchorId} {id : BlockId} {a : AnchorId}
  {b : Block} {c : ContextId}

/-- The handler has its first function now. -/
theorem starts_of_first (h : t.Inv) (henter : t.enterBlock { thread := u, sp } id = .ok (a, t')) (h' : t'.Inv)
    (hb : t.blocks.block? id = some b) (hs : (t.state u).Tells ⟨.handler signal last passed before, none, 0⟩)
    (hs' : (t'.state u).Tells ⟨.first b.fn c (.handler signal last passed before), some a, 0⟩) :
    StartsHandler t t' u signal id a := by
  obtain ⟨-, c', hctx, y, hy, hk⟩ := enterBlock_stays h henter
  have hlineage := (h'.state u).1.lineage
  rw [hctx] at hlineage
  obtain ⟨-, -, -, hstands⟩ := hlineage.top_of_context
  rw [hs'.slots] at hstands
  obtain ⟨x, hx, hchain⟩ := chain_of_first hstands
  refine ⟨by rw [hs'.exec]; rfl, hs'.frames.trans hs.frames.symm, hs'.handlers.trans hs.handlers.symm, b, y, x, hb, hy,
    by rw [hk], by rw [hk], ?_, hchain⟩
  rw [hk]
  exact hx

/-- Where a frame is left, the handler is left before. -/
theorem abandons_of_pops {n : Nat} (hn : 0 < n) (hle : n ≤ before.depth)
    (hs : (t.state u).Tells ⟨.handler signal last passed before, none, 0⟩)
    (hs' : (t'.state u).Tells ⟨if (Scene.popCalls ⟨.handler signal last passed before, none, 0⟩ n).story.started then
        (Scene.popCalls ⟨.handler signal last passed before, none, 0⟩ n).story
      else .first b.fn c (Scene.popCalls ⟨.handler signal last passed before, none, 0⟩ n).story, some a, 0⟩) :
    AbandonsHandler t t' u := by
  have hdepth := Scene.depth_popCalls n (⟨.handler signal last passed before, none, 0⟩ : Scene ContextId Kept AnchorId)
  have hnesting : (Scene.popCalls ⟨.handler signal last passed before, none, 0⟩ n).story.nesting ≤ before.nesting :=
    nesting_of_pops hn
  generalize (Scene.popCalls ⟨.handler signal last passed before, none, 0⟩ n).story = left at *
  have hfirst : ∀ s : Story ContextId Kept AnchorId, s.depth = left.depth → s.nesting = left.nesting →
      (t'.state u).Tells ⟨s, some a, 0⟩ → AbandonsHandler t t' u := by
    intro s hd hn' htells
    constructor
    · rw [htells.depth, hs.depth]
      show s.depth < before.depth
      rw [hd, hdepth]
      exact Nat.sub_lt (Nat.lt_of_lt_of_le hn hle) hn
    · rw [htells.handlers, hs.handlers, Story.length_handlers, Story.length_handlers]
      show s.nesting < before.nesting + 1
      rw [hn']
      exact Nat.lt_succ_of_le hnesting
  split at hs'
  · exact hfirst left rfl rfl hs'
  · exact hfirst (.first b.fn c left) rfl rfl hs'

end

theorem waiting_block (h : t.Inv) (hpos : 0 < signal) (hexec : (t.state u).exec = { signal }) (sp : Addr) {id : BlockId}
    (hlive : t.blocks.contains id = true) :
    ∃ a t', t.step (.enterBlock { thread := u, sp } id) = .ok (.billed a, t') ∧
      ((∀ f ∈ (t.state u).shadow.top?, ¬f.sp < sp) → StartsHandler t t' u signal id a) ∧
      ((∃ f ∈ (t.state u).shadow.top?, f.sp < sp) → AbandonsHandler t t' u) := by
  obtain ⟨sc, hs⟩ := (h.state u).1.story
  obtain ⟨last, passed, before, rfl⟩ := waiting_story hs hpos hexec
  obtain ⟨r, hr⟩ : ∃ r, t.blocks.get? id = some r := Option.isSome_iff_exists.mp hlive
  have hb : t.blocks.block? id = some r.block := by rw [BlockTable.block?, hr]; rfl
  obtain ⟨f, hf⟩ := known_decl h hb
  obtain ⟨a, t', henter, h', -⟩ := enterBlock_ok h { thread := u, sp } hr
  obtain ⟨c, kept, hs'⟩ := enterBlock_tells h henter hs hb hf
  rw [Scene.enter_of_stays (congrArg Transfer.enters waiting_transfer), waiting_transfer] at hs'
  -- The marks of the story are where the frames are, so the top frame decides whether any is left.
  have hleft : leftBehind sp 0 before.marks = 0 ↔ ∀ f ∈ (t.state u).shadow.top?, ¬f.sp < sp := by
    have htop : before.marks.head?.map (·.sp) = (t.state u).shadow.top?.map (·.sp) := hs.top_sp
    have hall : ∀ o : Option Frame, (∀ f ∈ o, ¬f.sp < sp) ↔ ∀ l ∈ o.map (·.sp), ¬l < sp := by
      intro o
      cases o <;> simp
    rw [leftBehind_eq_zero, hall, hall, htop]
  refine ⟨a, t', by simp only [step, henter, ok_bind, pure_eq_ok], fun hnone => ?_, fun hbelow => ?_⟩
  · rw [show Story.marks (.handler signal last passed before) = before.marks from rfl, hleft.mpr hnone] at hs'
    exact starts_of_first h henter h' hb hs hs'
  · have hne : leftBehind sp 0 before.marks ≠ 0 := by
      obtain ⟨g, hg, hlt⟩ := hbelow
      exact fun hzero => hleft.mp hzero g hg hlt
    refine abandons_of_pops (Nat.pos_of_ne_zero hne) ?_ hs hs'
    rw [← Story.length_marks]
    exact leftBehind_le ..

/-- The first block of a handler belongs to the handler exactly if no frame of the interrupted code is below its
stack pointer: then the signal is handled, nothing was left, and the block is billed to the context of its function
alone. Otherwise frames of the interrupted code are popped, and the handler is left with them. Other threads may do
anything in between. -/
theorem first_block_of_handler (hreach : Reach config t) {reply : Reply}
    (hsignal : t.step (.enterHandler u signal) = .ok (reply, t₁)) (hbeside : Course (fun t op _ => Beside u t op) t₁ t₂)
    (sp : Addr) {id : BlockId} (hlive : t₂.blocks.contains id = true) :
    ∃ dead h a t', (t₂.state u).shadow = ((t.state u).forget dead).shadow ∧
      (t₂.state u).handlers = h :: ((t.state u).forget dead).handlers ∧ h.interrupted = ((t.state u).forget dead).exec ∧
      t₂.step (.enterBlock { thread := u, sp } id) = .ok (.billed a, t') ∧
      ((∀ f ∈ (t.state u).shadow.top?, ¬f.sp < sp) → StartsHandler t₂ t' u signal id a) ∧
      ((∃ f ∈ (t.state u).shadow.top?, f.sp < sp) → AbandonsHandler t₂ t' u) := by
  obtain ⟨h, -⟩ := reach_inv hreach
  have h₁ := (step_inv h hsignal).1
  obtain ⟨t', henter, h'⟩ := bind_eq_ok.mp hsignal
  cases h'
  obtain ⟨hpos, hstate⟩ := enterHandler_state henter
  obtain ⟨dead, hdead⟩ := beside_forgets h₁ hbeside
  rw [hstate] at hdead
  obtain ⟨a, t', hstep, hstarts, habandons⟩ := waiting_block (hbeside.inv h₁) hpos (by rw [hdead]; rfl) sp hlive
  refine ⟨dead, _, a, t', by rw [hdead]; rfl, by rw [hdead]; rfl, rfl, hstep, fun hnone => ?_, fun hbelow => ?_⟩
  · refine hstarts fun f hf => ?_
    rw [hdead] at hf
    obtain ⟨g, hg, rfl⟩ := Option.map_eq_some_iff.mp ((List.head?_map ..).symm.trans hf)
    exact hnone g hg
  · obtain ⟨g, hg, hlt⟩ := hbelow
    refine habandons ⟨{ g with costed := keepLive dead g.costed }, ?_, hlt⟩
    rw [hdead]
    exact (List.head?_map ..).trans (Option.map_eq_some_iff.mpr ⟨g, hg, rfl⟩)

/-- A function called another one, and a signal may come. -/
def calledRun : List Op :=
  callBlocks ++ [.enterBlock { thread := ⟨1⟩, sp := ⟨1000⟩ } ⟨0⟩, .enterBlock { thread := ⟨1⟩, sp := ⟨990⟩ } ⟨1⟩]

theorem first_block_of_handler_calledRun :
    ∃ t t₁ t₂ a t', Reach fewBuckets t ∧ t.step (.enterHandler ⟨1⟩ 10) = .ok (.done, t₁) ∧
      Course (fun t op _ => Beside ⟨1⟩ t op) t₁ t₂ ∧
      t₂.step (.enterBlock { thread := ⟨1⟩, sp := ⟨900⟩ } ⟨1⟩) = .ok (.billed a, t') ∧
      StartsHandler t₂ t' ⟨1⟩ 10 ⟨1⟩ a := by
  have hrun : (runFrom fewBuckets calledRun).map (fun t =>
      (t.step (.enterHandler ⟨1⟩ 10)).toOption.bind fun p =>
        (follow (fun t op _ => Beside ⟨1⟩ t op) p.2
          [.enterBlock { thread := ⟨2⟩, sp := ⟨2000⟩ } ⟨0⟩, .discardBlock ⟨0⟩]).map fun t₂ =>
        (t₂.blocks.contains ⟨1⟩, decide (∀ f ∈ (t.state ⟨1⟩).shadow.top?, ¬f.sp < ⟨900⟩))) =
      .ok (some (true, true)) := by decide +kernel
  obtain ⟨t, hr, hrun⟩ := runFrom_of_map hrun
  obtain ⟨⟨reply, t₁⟩, hsignal, hrun⟩ := Option.bind_eq_some_iff.mp hrun
  obtain ⟨t₂, hbeside, hrun⟩ := Option.map_eq_some_iff.mp hrun
  obtain ⟨hlive, hnone⟩ := Prod.mk.inj hrun
  obtain ⟨-, -, a, t', -, -, -, hstep, hstarts, -⟩ := first_block_of_handler (reach_runFrom hr)
    (toOption_eq_some.mp hsignal) (.of_follow hbeside) ⟨900⟩ hlive
  obtain ⟨t'', henter, h'⟩ := bind_eq_ok.mp (toOption_eq_some.mp hsignal)
  cases h'
  exact ⟨t, t₁, t₂, a, t', reach_runFrom hr, toOption_eq_some.mp hsignal, .of_follow hbeside, hstep,
    hstarts (of_decide_eq_true hnone)⟩

/-- On a stack of its own, above the interrupted frames, a handler is left by its first block: no signal is
handled, the interrupted call is popped, and the block is billed to the caller of the interrupted function. -/
theorem handler_abandoned_above :
    ∃ t t₁ a t' y x, Reach fewBuckets t ∧ (t.state ⟨1⟩).shadow.depth = 1 ∧
      t.step (.enterHandler ⟨1⟩ 10) = .ok (.done, t₁) ∧
      t₁.step (.enterBlock { thread := ⟨1⟩, sp := ⟨5000⟩ } ⟨1⟩) = .ok (.billed a, t') ∧
      (t'.state ⟨1⟩).exec.signal = 0 ∧ (t'.state ⟨1⟩).handlers = [] ∧ (t'.state ⟨1⟩).shadow.depth = 0 ∧
      t'.anchors.get? a = some y ∧ t'.contexts.get? y.key.context = some x ∧ x.chain = [⟨0⟩] := by
  have hrun : (runFrom fewBuckets calledRun).map (fun t => ((t.state ⟨1⟩).shadow.depth,
      (t.step (.enterHandler ⟨1⟩ 10)).toOption.bind fun p =>
        (p.2.enterBlock { thread := ⟨1⟩, sp := ⟨5000⟩ } ⟨1⟩).toOption.bind fun q =>
        (q.2.anchors.get? q.1).bind fun y => (q.2.contexts.get? y.key.context).map fun x =>
        decide ((q.2.state ⟨1⟩).exec.signal = 0 ∧ (q.2.state ⟨1⟩).handlers = [] ∧ (q.2.state ⟨1⟩).shadow.depth = 0 ∧
          x.chain = [⟨0⟩]))) = .ok (1, some true) := by decide +kernel
  obtain ⟨t, hr, hrun⟩ := runFrom_of_map hrun
  obtain ⟨hdepth, hrun⟩ := Prod.mk.inj hrun
  obtain ⟨⟨reply, t₁⟩, hsignal, hrun⟩ := Option.bind_eq_some_iff.mp hrun
  obtain ⟨⟨a, t'⟩, henter, hrun⟩ := Option.bind_eq_some_iff.mp hrun
  obtain ⟨y, hy, hrun⟩ := Option.bind_eq_some_iff.mp hrun
  obtain ⟨x, hx, hrun⟩ := Option.map_eq_some_iff.mp hrun
  obtain ⟨hsig, hhandlers, hleft, hchain⟩ := of_decide_eq_true hrun
  have hsignal := toOption_eq_some.mp hsignal
  obtain ⟨t'', -, h'⟩ := bind_eq_ok.mp hsignal
  cases h'
  refine ⟨t, t₁, a, t', y, x, reach_runFrom hr, hdepth, hsignal, ?_, hsig, hhandlers, hleft, hy, hx, hchain⟩
  simp only [step, toOption_eq_some.mp henter, ok_bind, pure_eq_ok]

end Tracker
end CallGraph
