/-
  CallGraph.Proofs.ReturnAddresses — where the frame of a call returns to.

  A frame returns to right after the instruction of an exit, if that exit is a call (`Block.after`).
  Outside skipped code it is the exit that control came through. Inside skipped code a call is
  billed to the last costed block, and its frame also returns to right after that block's final exit,
  whichever instruction pushed it: `pushed_returnTo` says both. So a frame that a jump pushed can have
  the return address of a call made before (`jump_returns_after_call`).
-/

import CallGraph.Proofs.Finishing
import CallGraph.Proofs.Telling

namespace CallGraph

namespace Block

/-- Right after the instruction of an exit, if it is a call. -/
def after (b : Block) (e : Exit) : Addr := if e.kind = .call then b.addr.offset e.next else .unknown

variable {b : Block}

theorem exits_exitAfter (b : Block) (n : Nat) : b.exits[(b.exitAfter n).1]? = some (b.exitAfter n).2 := by
  unfold exitAfter exits
  split
  · rename_i e he
    have hlt : n < b.sideExits.length := (List.getElem?_eq_some_iff.mp he).1
    rw [List.getElem?_append_left hlt]
    exact he
  · exact List.getElem?_concat_length

theorem exits_finalIndex (b : Block) : b.exits[b.finalIndex]? = some b.finalExit := List.getElem?_concat_length

theorem returnTo_of_exit {i : Nat} {e : Exit} (h : b.exits[i]? = some e) : b.returnTo i = b.after e := by
  have haddr : b.returnAddress i = .ok (if e.kind = .call then some (b.addr.offset e.next) else none) := by
    simp only [returnAddress, h, pure_eq_ok]
  rw [returnTo_eq haddr, after]
  split <;> rfl

end Block

namespace Scene

variable {κ ι α : Type} {blockOf : α → Option Block} {sc : Scene κ ι α} {a : α} {b : Block}

/-- Outside skipped code a call returns to after the exit that control comes from. -/
theorem returnTo_of_last (hcosted : sc.story.costed = none) (hlast : sc.last = some a) (hb : blockOf a = some b) :
    sc.returnTo blockOf = b.after (b.exitAfter sc.passed).2 := by
  simp only [returnTo, callSource, hcosted, hlast, Option.bind_some, hb, Option.map_some, Option.getD_some]
  exact Block.returnTo_of_exit (b.exits_exitAfter sc.passed)

/-- Inside skipped code it returns to after the final exit of the last costed block. -/
theorem returnTo_of_costed (hcosted : sc.story.costed = some a) (hb : blockOf a = some b) :
    sc.returnTo blockOf = b.after b.finalExit := by
  simp only [returnTo, callSource, hcosted, Option.bind_some, hb, Option.map_some, Option.getD_some]
  exact Block.returnTo_of_exit b.exits_finalIndex

end Scene

/-- Leaving a handler leaves calls only. -/
theorem Story.marks_leave {κ ι α : Type} {s : Story κ ι α} : ∀ m ∈ s.leave.story.marks, m ∈ s.marks := by
  induction s with
  | fresh => exact fun _ hm => hm
  | first _ _ _ ih => exact ih
  | call _ _ _ _ ih => exact fun m hm => List.mem_cons_of_mem _ (ih m hm)
  | handler => exact fun _ hm => hm

/-- What the frames of a thread return to can be read off the marks of its story. -/
theorem ThreadState.Tells.forall_returnTo {s : ThreadState} {sc : Scene ContextId Kept AnchorId} (hs : s.Tells sc)
    (Q : Addr → Prop) : (∀ f ∈ s.shadow.frames, Q f.returnTo) ↔ ∀ m ∈ sc.story.marks, Q m.returnTo := by
  have hto := congrArg (List.map Prod.snd) sc.story.marks_eq
  rw [List.map_map, List.map_map, ← hs.frames] at hto
  have hall : ∀ l : List Frame, (∀ f ∈ l, Q f.returnTo) ↔ ∀ addr ∈ l.map (·.returnTo), Q addr := by
    intro l
    simp only [List.forall_mem_map]
  rw [hall, hall]
  exact iff_of_eq (congrArg (fun l => ∀ addr ∈ l, Q addr) hto.symm)

/-- A frame is pushed by a transfer that enters a function, and returns to where the story says. -/
theorem ThreadState.Tells.pushed {rule : TailCallRule} {skip : Bool} {b : Block} {sp : Addr} {me : AnchorId}
    {c : ContextId} {kept : Kept} {blockOf : AnchorId → Option Block} {s s' : ThreadState}
    {sc : Scene ContextId Kept AnchorId} (hs : s.Tells sc) (hs' : s'.Tells (sc.enter blockOf rule skip b sp me c kept))
    (hdeeper : s.shadow.depth < s'.shadow.depth) :
    (sc.transfer blockOf rule b sp).enters = true ∧
      ∃ f, s'.shadow.frames = f :: s.shadow.frames ∧ f.returnTo = sc.returnTo blockOf := by
  rw [hs.depth, hs'.depth] at hdeeper
  cases hx : (sc.transfer blockOf rule b sp).enters with
  | false =>
    rw [Scene.depth_enter hx] at hdeeper
    omega
  | true =>
    refine ⟨rfl, ?_⟩
    rw [hs'.frames, Scene.enter_of_enters hx, hs.frames]
    refine ⟨_, rfl, ?_⟩
    split <;> rfl

namespace Tracker

variable {config : Config} {t : Tracker} {u : ThreadId}

/-- The exit that a call made now on a thread is billed to: the one that its last block is left through or,
inside skipped code, the final exit of the last costed block. -/
def BilledExit (t : Tracker) (s : ThreadState) (b : Block) (e : Exit) : Prop :=
  match s.exec.costed with
  | none => ∃ a, s.exec.anchor = some a ∧ t.blockOf a = some b ∧ e = (b.exitAfter s.exec.exitsPassed).2
  | some a => t.blockOf a = some b ∧ e = b.finalExit

/-- The last block of a thread is live, and so is the last costed one. -/
theorem Inv.blockOf_exec (h : t.Inv) {a : AnchorId}
    (ha : (t.state u).exec.anchor = some a ∨ (t.state u).exec.costed = some a) (hctx : (t.state u).exec.context.isSome) :
    ∃ b, t.blockOf a = some b := by
  have h₀ := h.switchTo u
  rw [← thread_switchTo_state] at ha hctx
  rw [← blockOf_switchTo t u]
  obtain ⟨c, hc⟩ := Option.isSome_iff_exists.mp hctx
  rcases ha with ha | ha
  · obtain ⟨_, -, hdenotes⟩ := h₀.settled a ha
    exact h₀.blockOf_of_denotes hdenotes
  · exact h₀.blockOf_of_denotes (h₀.toSound.costed hc ha)

/-- Wherever a call comes from, it is billed to an exit, and returns to after it. -/
theorem billedExit_of_enters (h : t.Inv) {sc : Scene ContextId Kept AnchorId} (hs : (t.state u).Tells sc)
    {rule : TailCallRule} {target : Block} {sp : Addr} (hx : (sc.transfer t.blockOf rule target sp).enters = true) :
    ∃ b e, t.BilledExit (t.state u) b e ∧ sc.returnTo t.blockOf = b.after e := by
  obtain ⟨-, d, hd⟩ := Transfer.of_enters hx
  obtain ⟨b, hb, -⟩ := Option.map_eq_some_iff.mp hd
  obtain ⟨a, hlast, hb⟩ := Option.bind_eq_some_iff.mp hb
  have hanchor : (t.state u).exec.anchor = some a := by
    rw [hs.exec]
    exact hlast
  have hpassed : (t.state u).exec.exitsPassed = sc.passed := by rw [hs.exec]
  have hcostedS : (t.state u).exec.costed = sc.story.costed := by rw [hs.exec]
  unfold BilledExit
  cases hcosted : sc.story.costed with
  | none =>
    rw [hcostedS, hcosted]
    exact ⟨b, _, ⟨a, hanchor, hb, rfl⟩, by rw [Scene.returnTo_of_last hcosted hlast hb, hpassed]⟩
  | some a' =>
    have hctx : (t.state u).exec.context.isSome := by
      obtain ⟨c, hctx, -⟩ := (h.state u).2 a hanchor
      rw [hctx]
      rfl
    obtain ⟨b', hb'⟩ := h.blockOf_exec (.inr (hcostedS.trans hcosted)) hctx
    rw [hcostedS, hcosted]
    exact ⟨b', _, ⟨hb', rfl⟩, Scene.returnTo_of_costed hcosted hb'⟩

/-- A block that is entered pushes at most one frame, which returns to right after the exit that the call is
billed to if that exit is a call, and nowhere if it is not. -/
theorem pushed_returnTo (hreach : Reach config t) (pos : Position) {id : BlockId}
    (hlive : t.blocks.contains id = true) :
    ∃ a t', t.step (.enterBlock pos id) = .ok (.billed a, t') ∧
      ((t.state pos.thread).shadow.depth < (t'.state pos.thread).shadow.depth →
        ∃ f b e, (t'.state pos.thread).shadow.frames = f :: (t.state pos.thread).shadow.frames ∧
          t.BilledExit (t.state pos.thread) b e ∧ f.returnTo = b.after e) := by
  obtain ⟨h, -⟩ := reach_inv hreach
  obtain ⟨sc, hs⟩ := (h.state pos.thread).1.story
  obtain ⟨a, t', skip, b, c, kept, hstep, hs'⟩ := enterBlock_total h pos hlive hs
  refine ⟨a, t', hstep, fun hdeeper => ?_⟩
  obtain ⟨hx, f, hframes, hto⟩ := hs.pushed hs' hdeeper
  obtain ⟨b', e, hbilled, he⟩ := billedExit_of_enters h hs hx
  exact ⟨f, b', e, hframes, hbilled, hto.trans he⟩

/-- A function calls a skipped one, whose block ends in a jump, and a third one is there to be jumped to. -/
def rolledRun : List Op :=
  [.registerFunction "main" ⟨0⟩, .registerFunction "memcpy" ⟨0⟩, .registerFunction "work" ⟨0⟩,
    .setFunctionSkip ⟨1⟩ true, .registerBlock (callBlock 100 ⟨0⟩),
    .registerBlock { callBlock 200 ⟨1⟩ with finalExit := { kind := .jump } }, .registerBlock (callBlock 300 ⟨2⟩),
    .enterBlock { thread := ⟨1⟩, sp := ⟨1000⟩ } ⟨0⟩, .enterBlock { thread := ⟨1⟩, sp := ⟨990⟩ } ⟨1⟩]

theorem pushed_returnTo_rolledRun :
    ∃ t a t' f b e, Reach fewBuckets t ∧
      t.step (.enterBlock { thread := ⟨1⟩, sp := ⟨980⟩ } ⟨2⟩) = .ok (.billed a, t') ∧
      (t'.state ⟨1⟩).shadow.frames = f :: (t.state ⟨1⟩).shadow.frames ∧ t.BilledExit (t.state ⟨1⟩) b e ∧
      f.returnTo = b.after e := by
  have hrun : (runFrom fewBuckets rolledRun).map (fun t => (t.blocks.contains ⟨2⟩,
      (t.step (.enterBlock { thread := ⟨1⟩, sp := ⟨980⟩ } ⟨2⟩)).toOption.map fun p =>
        decide ((t.state ⟨1⟩).shadow.depth < (p.2.state ⟨1⟩).shadow.depth))) = .ok (true, some true) := by decide +kernel
  obtain ⟨t, hr, hrun⟩ := runFrom_of_map hrun
  obtain ⟨hlive, hdeeper⟩ := Prod.mk.inj hrun
  obtain ⟨a, t', hstep, hpushed⟩ :=
    pushed_returnTo (reach_runFrom hr) { thread := ⟨1⟩, sp := ⟨980⟩ } hlive
  rw [hstep] at hdeeper
  obtain ⟨f, b, e, hframes, hbilled, hto⟩ := hpushed (of_decide_eq_true (Option.some.inj hdeeper))
  exact ⟨t, a, t', f, b, e, reach_runFrom hr, hstep, hframes, hbilled, hto⟩

/-- Not only calls leave a return address: a jump out of skipped code onto a function pushes a frame that
returns to right after the call into the skipped code. -/
theorem jump_returns_after_call :
    ∃ t reply t' b f, Reach fewBuckets t ∧
      t.step (.enterBlock { thread := ⟨1⟩, sp := ⟨980⟩ } ⟨2⟩) = .ok (reply, t') ∧
      (t.state ⟨1⟩).exec.anchor.bind t.blockOf = some b ∧
      (b.exitAfter (t.state ⟨1⟩).exec.exitsPassed).2.kind = .jump ∧
      (t'.state ⟨1⟩).shadow.frames = f :: (t.state ⟨1⟩).shadow.frames ∧ f.returnTo = ⟨105⟩ := by
  have hrun : (runFrom fewBuckets rolledRun).map (fun t =>
      (((t.state ⟨1⟩).exec.anchor.bind t.blockOf).map fun b => (b.exitAfter (t.state ⟨1⟩).exec.exitsPassed).2.kind,
        (t.step (.enterBlock { thread := ⟨1⟩, sp := ⟨980⟩ } ⟨2⟩)).toOption.map fun p =>
          (decide ((p.2.state ⟨1⟩).shadow.frames.drop 1 = (t.state ⟨1⟩).shadow.frames),
            (p.2.state ⟨1⟩).shadow.frames.head?.map (·.returnTo)))) =
      .ok (some .jump, some (true, some ⟨105⟩)) := by decide +kernel
  obtain ⟨t, hr, hrun⟩ := runFrom_of_map hrun
  obtain ⟨hblock, hrun⟩ := Prod.mk.inj hrun
  obtain ⟨b, hb, hkind⟩ := Option.map_eq_some_iff.mp hblock
  obtain ⟨⟨reply, t'⟩, hstep, hrun⟩ := Option.map_eq_some_iff.mp hrun
  obtain ⟨hrest, hhead⟩ := Prod.mk.inj hrun
  obtain ⟨f, hf, hto⟩ := Option.map_eq_some_iff.mp hhead
  obtain ⟨rest, hframes⟩ := List.head?_eq_some_iff.mp hf
  have hrest := of_decide_eq_true hrest
  rw [hframes] at hrest
  refine ⟨t, reply, t', b, f, reach_runFrom hr, toOption_eq_some.mp hstep, hb, hkind, ?_, hto⟩
  rw [hframes, ← hrest]
  rfl

/-! ## Whole runs -/

/-- Nowhere, or right after a call instruction of a block. -/
def ReturnsAfter (P : Block → Prop) (addr : Addr) : Prop :=
  addr = .unknown ∨ ∃ b e, P b ∧ e ∈ b.exits ∧ e.kind = .call ∧ addr = b.addr.offset e.next

/-- The blocks that are live are such blocks, and every call of every thread returns after one of them. -/
structure Returning (P : Block → Prop) (t : Tracker) : Prop where
  blocks : ∀ id b, t.blocks.block? id = some b → P b
  frames : ∀ u, ∀ f ∈ (t.state u).shadow.frames, ReturnsAfter P f.returnTo

theorem returnsAfter_of_billed {P : Block → Prop} (hblocks : ∀ id b, t.blocks.block? id = some b → P b)
    {s : ThreadState} {b : Block} {e : Exit} (h : t.BilledExit s b e) : ReturnsAfter P (b.after e) := by
  obtain ⟨⟨a, hb⟩, he⟩ : (∃ a, t.blockOf a = some b) ∧ e ∈ b.exits := by
    unfold BilledExit at h
    split at h
    · obtain ⟨a, -, hb, rfl⟩ := h
      exact ⟨⟨a, hb⟩, List.mem_of_getElem? (b.exits_exitAfter _)⟩
    · obtain ⟨hb, rfl⟩ := h
      exact ⟨⟨_, hb⟩, List.mem_of_getElem? b.exits_finalIndex⟩
  rw [blockOf_eq] at hb
  obtain ⟨y, -, hb⟩ := Option.bind_eq_some_iff.mp hb
  unfold Block.after
  split
  · rename_i hkind
    exact .inr ⟨b, e, hblocks _ _ hb, he, hkind, rfl⟩
  · exact .inl rfl

/-- What a thread's calls return to, after an operation on one thread. -/
theorem Told.returnsAfter {P : Block → Prop} (h : t.Inv) (hblocks : ∀ id b, t.blocks.block? id = some b → P b) {op : Op}
    {sc sc' : Scene ContextId Kept AnchorId} (hs : (t.state u).Tells sc) (told : Told t u op sc sc')
    (hm : ∀ m ∈ sc.story.marks, ReturnsAfter P m.returnTo) : ∀ m ∈ sc'.story.marks, ReturnsAfter P m.returnTo := by
  cases told with
  | aside e =>
    rw [e]
    exact hm
  | block sp id skip b a c kept =>
    cases hx : (sc.transfer t.blockOf t.config.tailCalls b sp).enters with
    | true =>
      obtain ⟨b', e, hbilled, hto⟩ := billedExit_of_enters h hs hx
      rw [Scene.enter_of_enters hx]
      refine List.forall_mem_cons.mpr ⟨?_, hm⟩
      show ReturnsAfter P (sc.returnTo t.blockOf)
      rw [hto]
      exact returnsAfter_of_billed hblocks hbilled
    | false =>
      rw [Scene.marks_of_stays hx]
      exact fun m hm' => hm m (List.mem_of_mem_drop hm')
  | signal => exact hm
  | signalReturn => exact fun m hm' => hm m (Story.marks_leave m hm')

theorem Returning.of_told {P : Block → Prop} {t' : Tracker} (h : t.Inv) (hr : Returning P t) {op : Op} {reply : Reply}
    (hs : t.step op = .ok (reply, t')) (hop : op.sweeps = false) (u : ThreadId) :
    ∀ f ∈ (t'.state u).shadow.frames, ReturnsAfter P f.returnTo := by
  obtain ⟨sc, htells⟩ := (h.state u).1.story
  obtain ⟨sc', htells', told⟩ := step_tells h hs hop u htells
  exact (htells'.forall_returnTo _).mpr (told.returnsAfter h hr.blocks htells ((htells.forall_returnTo _).mp (hr.frames u)))

theorem discardBlock_returning {P : Block → Prop} (hr : Returning P t) (id : BlockId) :
    Returning P (t.discardBlock id).2 := by
  cases hid : t.blocks.get? id with
  | none =>
    rw [discardBlock_dead hid]
    exact hr
  | some r =>
    obtain ⟨A, B, L, heq, c, -⟩ := discardBlock_live hid
    rw [heq]
    refine ⟨fun j b hb => ?_, fun u f hf => ?_⟩
    · obtain ⟨r', hr', rfl⟩ := Option.map_eq_some_iff.mp hb
      exact hr.blocks j _ (congrArg (Option.map Resident.block) (c.of_block hr').2)
    · rw [state_of_forget (t := t) rfl] at hf
      obtain ⟨g, hg, rfl⟩ := List.mem_map.mp hf
      exact hr.frames u g hg

theorem registerBlock_blocks {P : Block → Prop} (h : t.Inv) (hblocks : ∀ id b, t.blocks.block? id = some b → P b)
    {block : Block} (hP : P block) : ∀ id b, (t.blocks.insert block).2.block? id = some b → P b := by
  intro j b hb
  obtain ⟨r, hr, rfl⟩ := Option.map_eq_some_iff.mp hb
  rcases write_cases (BlockTable.get?_insert h.tables.blockSlots block) hr with ⟨-, rfl⟩ | ⟨-, hr⟩
  · exact hP
  · exact hblocks j _ (congrArg (Option.map Resident.block) hr)

/-- What is live after an operation on one thread was live before, or the operation registered it. -/
theorem step_blocks {P : Block → Prop} {t' : Tracker} (h : t.Inv) (hblocks : ∀ id b, t.blocks.block? id = some b → P b)
    {op : Op} {reply : Reply} (hs : t.step op = .ok (reply, t')) (hop : op.sweeps = false)
    (hP : ∀ b, op = .registerBlock b → P b) : ∀ id b, t'.blocks.block? id = some b → P b := by
  have hsame : (∀ id, t'.blocks.block? id = t.blocks.block? id) → ∀ id b, t'.blocks.block? id = some b → P b :=
    fun e id b hb => hblocks id b ((e id).symm.trans hb)
  cases step_effect hs with
  | registerFunction | setFunctionSkip | setExitsPassed => exact hblocks
  | @registerBlock block => exact registerBlock_blocks h hblocks (hP block rfl)
  | enterBlock henter => exact hsame fun j => by rw [(enterBlock_stays h henter).1.blocks, blocks_switchTo]
  | enterHandler henter => exact hsame fun j => by rw [(enterHandler_stays henter).blocks, blocks_switchTo]
  | exitHandler hexit => exact hsame fun j => by rw [(exitHandler_unwinds h hexit).blocks, blocks_switchTo]
  | discardBlock | finish => cases hop

theorem step_returning {P : Block → Prop} {t' : Tracker} (h : t.Inv) (hr : Returning P t) {op : Op} {reply : Reply}
    (hs : t.step op = .ok (reply, t')) (hP : ∀ b, op = .registerBlock b → P b) : Returning P t' := by
  cases hop : op.sweeps with
  | false => exact ⟨step_blocks h hr.blocks hs hop hP, hr.of_told h hs hop⟩
  | true =>
    cases step_effect hs with
    | discardBlock id => exact discardBlock_returning hr id
    | finish hfinish =>
      refine ⟨fun j b hb => hr.blocks j b ?_, fun u => ?_⟩
      · rw [(finish_ends h hfinish).1.blocks] at hb
        exact hb
      · rw [List.eq_nil_of_length_eq_zero (finish_bare h hfinish u)]
        exact nofun
    | _ => cases hop

theorem run_returning {P : Block → Prop} {t' : Tracker} (h : t.Inv) (hr : Returning P t) {ops : List Op}
    (hrun : t.run ops = .ok t') (hP : ∀ b, .registerBlock b ∈ ops → P b) : Returning P t' := by
  induction ops generalizing t with
  | nil =>
    cases hrun
    exact hr
  | cons op ops ih =>
    rw [run_cons] at hrun
    obtain ⟨⟨reply, t₁⟩, hstep, hrun⟩ := bind_eq_ok.mp hrun
    have hr₁ : Returning P t₁ := step_returning h hr hstep fun b e => hP b (e ▸ List.mem_cons_self ..)
    exact ih (step_inv h hstep).1 hr₁ hrun fun b hb => hP b (List.mem_cons_of_mem _ hb)

/-- In every state that a run comes into a frame returns nowhere, or right after a call instruction of a block that
the run registered. -/
theorem returns_after_calls {ops : List Op} (hrun : runFrom config ops = .ok t) (u : ThreadId) :
    ∀ f ∈ (t.state u).shadow.frames, ReturnsAfter (fun b => .registerBlock b ∈ ops) f.returnTo := by
  obtain ⟨t₀, h₀, hrun⟩ := runFrom_eq_ok hrun
  have hr₀ : Returning (fun b => .registerBlock b ∈ ops) t₀ := by
    obtain ⟨-, C, -, A, -, rfl⟩ := ofConfig_eq_ok.mp h₀
    refine ⟨fun id b hb => ?_, fun u => ?_⟩
    · rw [BlockTable.block?, BlockTable.get?, show BlockTable.empty.arena = Arena.empty from rfl, Arena.get?_empty] at hb
      cases hb
    · rw [state_of_fresh rfl]
      exact List.forall_mem_nil _
  exact (run_returning (ofConfig_inv h₀).1 hr₀ hrun fun b hb => hb).frames u

end Tracker
end CallGraph
