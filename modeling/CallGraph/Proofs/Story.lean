/-
  CallGraph.Proofs.Story — the open calls and handlers of a thread, told as a story.

  A thread state spreads what is open over its frames, its function stack and its handlers, each
  with a saved depth or context of the others. A `Story` says the same once: the moves that are not
  taken back, innermost first. Frames, slots and handlers are read off it, and leaving a call or a
  handler is going back to the part of the story before it (`Scene.popCall`, `Story.leave`).

  What stands for a context (`κ`), for an anchor (`α`) and for whatever else a frame keeps (`ι`) is
  left open: `ThreadState.Tells` fits a story with the numbers that the tables gave out to a
  thread state, and a story without these numbers can be the same in different runs.
  - `Lineage.story`: every state that has a lineage has a story.
  - `Over.popCall`, `Over.leave`: what is left above a part of a story stays above it.
-/

import CallGraph.Proofs.Invariant
import CallGraph.Tracker.Enter

namespace CallGraph

/-- A call that has not returned. -/
structure OpenCall (α : Type) where
  fn : FnId
  /-- Rolled up into its caller. -/
  skipped : Bool
  sp : Addr
  returnTo : Addr
  /-- The last costed anchor from this call on. -/
  costed : Option α

/-- What a thread has open, innermost first. -/
inductive Story (κ ι α : Type) where
  /-- Nothing ran. -/
  | fresh
  /-- The first function of the thread or of a handler. -/
  | first (fn : FnId) (context : κ) (before : Story κ ι α)
  | call (c : OpenCall α) (context : κ) (kept : ι) (before : Story κ ι α)
  /-- A handler, and the last anchor and the exits passed of the code it interrupted. -/
  | handler (signal : Int) (last : Option α) (passed : Nat) (before : Story κ ι α)

/-- A story and where the code is at its end. -/
structure Scene (κ ι α : Type) where
  story : Story κ ι α
  /-- The anchor of the block that ran last. -/
  last : Option α := none
  passed : Nat := 0

namespace Story

variable {κ ι α : Type}

/-! ## What a story tells -/

/-- The function stack. A call of the function on top shares its slot, and so does a skipped one. -/
def slots : Story κ ι α → List (Option FnId)
  | fresh => []
  | first fn _ before => some fn :: before.slots
  | call c _ _ before =>
    if c.skipped = true ∨ before.slots.head? = some (some c.fn) then before.slots else some c.fn :: before.slots
  | handler _ _ _ before => none :: before.slots

def signal : Story κ ι α → Int
  | fresh => 0
  | first _ _ before | call _ _ _ before => before.signal
  | handler signal _ _ _ => signal

def context : Story κ ι α → Option κ
  | fresh | handler .. => none
  | first _ context _ => some context
  | call c context _ before => if c.skipped then before.context else some context

/-- Some block ran since the thread or its innermost handler started. -/
def started : Story κ ι α → Bool
  | fresh | handler .. => false
  | first .. | call .. => true

def costed : Story κ ι α → Option α
  | fresh | first .. | handler .. => none
  | call c _ _ _ => c.costed

/-- The number of frames. -/
def depth : Story κ ι α → Nat
  | fresh => 0
  | first _ _ before | handler _ _ _ before => before.depth
  | call _ _ _ before => before.depth + 1

/-- The number of frames when the innermost handler started. -/
def bottom : Story κ ι α → Nat
  | fresh => 0
  | first _ _ before | call _ _ _ before => before.bottom
  | handler _ _ _ before => before.depth

/-- The number of handlers. -/
def nesting : Story κ ι α → Nat
  | fresh => 0
  | first _ _ before | call _ _ _ before => before.nesting
  | handler _ _ _ before => before.nesting + 1

/-- The frames, as far as the kind of a transfer depends on them. -/
def marks : Story κ ι α → List Frame
  | fresh => []
  | first _ _ before | handler _ _ _ before => before.marks
  | call c _ _ before =>
    { arc := none, sp := c.sp, returnTo := c.returnTo, context := none, fnDepth := 0, costed := none } :: before.marks

/-- A thread or handler starts with its first function, and only then there are calls. -/
def WellFormed : Story κ ι α → Prop
  | fresh => True
  | first _ _ before => before.started = false ∧ before.WellFormed
  | call _ _ _ before => before.started = true ∧ before.WellFormed
  | handler signal _ _ before => 0 < signal ∧ before.WellFormed

@[simp] theorem length_marks (s : Story κ ι α) : s.marks.length = s.depth := by
  induction s with
  | fresh => rfl
  | first _ _ _ ih | handler _ _ _ _ ih => exact ih
  | call _ _ _ _ ih => simp only [marks, depth, List.length_cons, ih]

theorem bottom_le (s : Story κ ι α) : s.bottom ≤ s.depth := by
  induction s with
  | fresh => exact Nat.le_refl 0
  | first _ _ _ ih => exact ih
  | call _ _ _ _ ih => exact Nat.le_succ_of_le ih
  | handler => exact Nat.le_refl _

theorem isSome_context {s : Story κ ι α} (h : s.WellFormed) : s.context.isSome = s.started := by
  induction s with
  | fresh | first | handler => rfl
  | call c _ _ before ih =>
    cases hs : c.skipped with
    | false => simp [context, started, hs]
    | true =>
      have hb := ih h.2
      rw [h.1] at hb
      simp [context, started, hs, hb]

/-- Before its first block a thread or handler has no frame and no function of its own. -/
theorem of_not_started {s : Story κ ι α} (h : s.started = false) :
    s.slots.head?.join = none ∧ s.depth = s.bottom ∧ s.context = none ∧ s.costed = none := by
  cases s with
  | fresh => exact ⟨rfl, rfl, rfl, rfl⟩
  | first | call => cases h
  | handler => exact ⟨rfl, rfl, rfl, rfl⟩

/-- From then on there is an innermost function. -/
theorem top_of_started {s : Story κ ι α} (h : s.WellFormed) (hs : s.started = true) :
    ∃ fn rest, s.slots = some fn :: rest := by
  induction s with
  | fresh | handler => cases hs
  | first fn _ before => exact ⟨fn, _, rfl⟩
  | call c _ _ before ih =>
    simp only [slots]
    split
    · exact ih h.2 h.1
    · exact ⟨c.fn, _, rfl⟩

/-! ## Leaving -/

/-- Leaves the innermost handler with all its calls. -/
def leave : Story κ ι α → Scene κ ι α
  | fresh => ⟨fresh, none, 0⟩
  | first _ _ before | call _ _ _ before => before.leave
  | handler _ last passed before => ⟨before, last, passed⟩

/-- Leaves the innermost call, and the handlers above it. -/
def popCall : Story κ ι α → Option α → Nat → Scene κ ι α
  | fresh, last, passed => ⟨fresh, last, passed⟩
  | first _ _ before, last, passed => before.popCall last passed
  | call _ _ _ before, last, passed => ⟨before, last, passed⟩
  | handler _ last passed before, _, _ => before.popCall last passed

/-- The story up to the first function of the thread or of the innermost handler. -/
def ground : Story κ ι α → Story κ ι α
  | call _ _ _ before => before.ground
  | s => s

/-- Down to the innermost handler: what it left is at most a first function, and below it is the
interrupted code. -/
theorem innermost {s : Story κ ι α} (h : s.WellFormed) (hn : 0 < s.nesting) :
    ∃ signal last passed before, s.leave = ⟨before, last, passed⟩ ∧ before.nesting + 1 = s.nesting ∧
      (s.ground = handler signal last passed before ∨ ∃ fn c, s.ground = first fn c (handler signal last passed before)) := by
  induction s with
  | fresh => cases hn
  | first fn c before ih =>
    cases before with
    | fresh => cases hn
    | first | call => cases h.1
    | handler signal last passed before => exact ⟨signal, last, passed, before, rfl, rfl, .inr ⟨fn, c, rfl⟩⟩
  | call _ _ _ before ih => exact ih h.2 hn
  | handler signal last passed before => exact ⟨signal, last, passed, before, rfl, rfl, .inl rfl⟩

theorem leave_wellFormed {s : Story κ ι α} (h : s.WellFormed) : s.leave.story.WellFormed := by
  induction s with
  | fresh => exact h
  | first _ _ _ ih | call _ _ _ _ ih => exact ih h.2
  | handler => exact h.2

theorem popCall_wellFormed {s : Story κ ι α} (h : s.WellFormed) (last : Option α) (passed : Nat) :
    (s.popCall last passed).story.WellFormed := by
  induction s generalizing last passed with
  | fresh => exact h
  | first _ _ _ ih | handler _ _ _ _ ih => exact ih h.2 _ _
  | call => exact h.2

theorem depth_popCall {s : Story κ ι α} (last : Option α) (passed : Nat) :
    (s.popCall last passed).story.depth = s.depth - 1 := by
  induction s generalizing last passed with
  | fresh => rfl
  | first _ _ _ ih | handler _ _ _ _ ih => exact ih _ _
  | call => rfl

theorem nesting_popCall_le {s : Story κ ι α} (last : Option α) (passed : Nat) :
    (s.popCall last passed).story.nesting ≤ s.nesting := by
  induction s generalizing last passed with
  | fresh => exact Nat.le_refl 0
  | first _ _ _ ih => exact ih _ _
  | call => exact Nat.le_refl _
  | handler _ _ _ _ ih => exact Nat.le_succ_of_le (ih _ _)

theorem marks_popCall {s : Story κ ι α} (last : Option α) (passed : Nat) :
    (s.popCall last passed).story.marks = s.marks.drop 1 := by
  induction s generalizing last passed with
  | fresh => rfl
  | first _ _ _ ih | handler _ _ _ _ ih => exact ih _ _
  | call => rfl

end Story

namespace Scene

variable {κ ι α : Type}

def popCall (s : Scene κ ι α) : Scene κ ι α := s.story.popCall s.last s.passed

def popCalls (s : Scene κ ι α) : Nat → Scene κ ι α
  | 0 => s
  | n + 1 => popCalls s.popCall n

theorem popCalls_wellFormed (n : Nat) {s : Scene κ ι α} (h : s.story.WellFormed) :
    (popCalls s n).story.WellFormed := by
  induction n generalizing s with
  | zero => exact h
  | succ n ih => exact ih (Story.popCall_wellFormed h _ _)

theorem depth_popCalls (n : Nat) (s : Scene κ ι α) : (popCalls s n).story.depth = s.story.depth - n := by
  induction n generalizing s with
  | zero => rfl
  | succ n ih =>
    rw [popCalls, ih, popCall, Story.depth_popCall]
    omega

theorem nesting_popCalls_le (n : Nat) (s : Scene κ ι α) : (popCalls s n).story.nesting ≤ s.story.nesting := by
  induction n generalizing s with
  | zero => exact Nat.le_refl _
  | succ n ih => exact Nat.le_trans (ih _) (Story.nesting_popCall_le s.last s.passed)

end Scene

/-! ## Parts of a story -/

namespace Story

variable {κ ι α : Type}

/-- What was opened above a part of a story, by calls that are all as `P` says. -/
inductive Over (base : Story κ ι α) (P : OpenCall α → Prop) : Story κ ι α → Prop
  | here : Over base P base
  | first (fn : FnId) (context : κ) {before : Story κ ι α} : Over base P before → Over base P (first fn context before)
  | call {c : OpenCall α} (context : κ) (kept : ι) {before : Story κ ι α} :
      P c → Over base P before → Over base P (call c context kept before)
  | handler (signal : Int) (last : Option α) (passed : Nat) {before : Story κ ι α} :
      Over base P before → Over base P (handler signal last passed before)

namespace Over

variable {base s : Story κ ι α} {P : OpenCall α → Prop}

theorem depth_le (h : Over base P s) : base.depth ≤ s.depth := by
  induction h with
  | here => exact Nat.le_refl _
  | first _ _ _ ih | handler _ _ _ _ ih => exact ih
  | call _ _ _ _ ih => exact Nat.le_succ_of_le ih

theorem nesting_le (h : Over base P s) : base.nesting ≤ s.nesting := by
  induction h with
  | here => exact Nat.le_refl _
  | first _ _ _ ih | call _ _ _ _ ih => exact ih
  | handler _ _ _ _ ih => exact Nat.le_succ_of_le ih

theorem mono {P' : OpenCall α → Prop} (hP : ∀ c, P c → P' c) (h : Over base P s) : Over base P' s := by
  induction h with
  | here => exact .here
  | first fn context _ ih => exact .first fn context ih
  | call context kept hc _ ih => exact .call context kept (hP _ hc) ih
  | handler signal last passed _ ih => exact .handler signal last passed ih

/-- Without a call above it, the depth is that of the part. -/
theorem depth_of_no_call (h : Over base (fun _ => False) s) : s.depth = base.depth := by
  induction h with
  | here => rfl
  | first _ _ _ ih | handler _ _ _ _ ih => exact ih
  | call _ _ hc => exact hc.elim

/-- In no handler more, the innermost handler is the same. -/
theorem bottom_eq (h : Over base P s) (hn : s.nesting = base.nesting) : s.bottom = base.bottom := by
  induction h with
  | here => rfl
  | first _ _ _ ih | call _ _ _ _ ih => exact ih hn
  | handler _ _ _ h _ =>
    have := h.nesting_le
    have hn' : _ + 1 = base.nesting := hn
    omega

/-- A call above the part can be left, whatever handlers are above it. -/
theorem popCall (h : Over base P s) (hd : base.depth < s.depth) (last : Option α) (passed : Nat) :
    Over base P (s.popCall last passed).story := by
  induction h generalizing last passed with
  | here => exact absurd hd (Nat.lt_irrefl _)
  | first _ _ _ ih | handler _ _ _ _ ih => exact ih hd _ _
  | call _ _ _ h _ => exact h

/-- Leaving as many calls as are above the part goes nowhere below it. -/
theorem popCalls (n : Nat) {sc : Scene κ ι α} (h : Over base P sc.story) (hd : base.depth + n ≤ sc.story.depth) :
    Over base P (sc.popCalls n).story := by
  induction n generalizing sc with
  | zero => exact h
  | succ n ih =>
    refine ih (h.popCall (by omega) _ _) ?_
    have := Story.depth_popCall (s := sc.story) sc.last sc.passed
    rw [Scene.popCall, this]
    omega

/-- A handler above the part can be left. -/
theorem leave (h : Over base P s) (hn : base.nesting < s.nesting) : Over base P s.leave.story := by
  induction h with
  | here => exact absurd hn (Nat.lt_irrefl _)
  | first _ _ _ ih | call _ _ _ _ ih => exact ih hn
  | handler _ _ _ h _ => exact h

/-- Above a handler, but in no handler more, the handler is the innermost one. -/
theorem leave_handler {signal : Int} {last : Option α} {passed : Nat} {before : Story κ ι α}
    (h : Over (.handler signal last passed before) P s) (hn : s.nesting = before.nesting + 1) :
    s.leave = ⟨before, last, passed⟩ ∧ s.signal = signal := by
  induction h with
  | here => exact ⟨rfl, rfl⟩
  | first _ _ _ ih | call _ _ _ _ ih => exact ih hn
  | handler _ _ _ h _ =>
    have hle : before.nesting + 1 ≤ _ := h.nesting_le
    have hn' : _ + 1 = before.nesting + 1 := hn
    omega

/-- What has no call and no handler more than the part is the part. -/
theorem eq_base (h : Over base P s) (hs : s.WellFormed) (hbase : base.started = true) (hd : s.depth = base.depth)
    (hn : s.nesting = base.nesting) : s = base := by
  induction h with
  | here => rfl
  | first _ _ _ ih =>
    -- A first function is told above nothing that started.
    have hstarted := hs.1
    rw [ih hs.2 hd hn, hbase] at hstarted
    cases hstarted
  | call _ _ _ h _ =>
    have := h.depth_le
    have hd' : _ + 1 = base.depth := hd
    omega
  | handler _ _ _ h _ =>
    have := h.nesting_le
    have hn' : _ + 1 = base.nesting := hn
    omega

end Over

end Story

/-! ## Thread states -/

/-- What a frame keeps that the story does not tell: the number of its arc or, for a skipped call, what
happened to be staged. -/
structure Kept where
  arc : ArcId
  staged : Staged

namespace Story

/-- The frames that the numbers given out make of a story. -/
def frames : Story ContextId Kept AnchorId → List Frame
  | fresh => []
  | first _ _ before | handler _ _ _ before => before.frames
  | call c _ kept before =>
    (if c.skipped then
      { arc := none, sp := c.sp, returnTo := c.returnTo, context := kept.staged.context
        fnDepth := kept.staged.fnDepth, costed := before.costed }
    else
      { arc := some { id := kept.arc, caller := before.slots.head?.join.getD c.fn, callee := c.fn }
        sp := c.sp, returnTo := c.returnTo, context := before.context, fnDepth := before.slots.length
        costed := before.costed }) :: before.frames

def handlers : Story ContextId Kept AnchorId → List Handler
  | fresh => []
  | first _ _ before | call _ _ _ before => before.handlers
  | handler _ last passed before =>
    { interrupted :=
        { signal := before.signal, context := before.context, anchor := last, exitsPassed := passed
          costed := before.costed }
      bottom := before.depth, fnDepth := before.slots.length } :: before.handlers

variable (s : Story ContextId Kept AnchorId)

@[simp] theorem length_frames : s.frames.length = s.depth := by
  induction s with
  | fresh => rfl
  | first _ _ _ ih | handler _ _ _ _ ih => exact ih
  | call _ _ _ _ ih => simp only [frames, depth, List.length_cons, ih]

@[simp] theorem length_handlers : s.handlers.length = s.nesting := by
  induction s with
  | fresh => rfl
  | first _ _ _ ih | call _ _ _ _ ih => exact ih
  | handler _ _ _ _ ih => simp only [handlers, nesting, List.length_cons, ih]

theorem handlers_ground : s.ground.handlers = s.handlers := by
  induction s with
  | fresh | first | handler => rfl
  | call _ _ _ _ ih => exact ih

theorem bottomOf_handlers : bottomOf s.handlers = s.bottom := by
  induction s with
  | fresh | handler => rfl
  | first _ _ _ ih | call _ _ _ _ ih => exact ih

/-- Marks and frames agree in what the kind of a transfer depends on. -/
theorem marks_eq : s.marks.map (fun f => (f.sp, f.returnTo)) = s.frames.map fun f => (f.sp, f.returnTo) := by
  induction s with
  | fresh => rfl
  | first _ _ _ ih | handler _ _ _ _ ih => exact ih
  | call c _ _ _ ih =>
    simp only [marks, frames, List.map_cons, ih]
    split <;> rfl

end Story

/-- A scene fits a thread state. -/
structure ThreadState.Tells (s : ThreadState) (sc : Scene ContextId Kept AnchorId) : Prop where
  frames : s.shadow.frames = sc.story.frames
  unstaged : s.shadow.staged.context = none
  slots : s.fns.slots = sc.story.slots
  exec : s.exec =
    { signal := sc.story.signal, context := sc.story.context, anchor := sc.last, exitsPassed := sc.passed
      costed := sc.story.costed }
  handlers : s.handlers = sc.story.handlers
  wellFormed : sc.story.WellFormed

theorem ThreadState.Tells.depth {s : ThreadState} {sc : Scene ContextId Kept AnchorId} (hs : s.Tells sc) :
    s.shadow.depth = sc.story.depth := by
  rw [ShadowStack.depth, hs.frames, Story.length_frames]

/-- A thread has a context once a block ran. -/
theorem ThreadState.Tells.isSome_context {s : ThreadState} {sc : Scene ContextId Kept AnchorId} (hs : s.Tells sc) :
    s.exec.context.isSome = sc.story.started := by
  rw [hs.exec]
  exact Story.isSome_context hs.wellFormed

/-- The frame on top is where the innermost call was recorded. -/
theorem ThreadState.Tells.top_sp {s : ThreadState} {sc : Scene ContextId Kept AnchorId} (hs : s.Tells sc) :
    sc.story.marks.head?.map (·.sp) = s.shadow.top?.map (·.sp) := by
  have hheads := congrArg (fun l => (l.map Prod.fst).head?) sc.story.marks_eq
  simp only [List.map_map, List.head?_map, ← hs.frames] at hheads
  exact hheads

theorem ThreadState.fresh_tells : fresh.Tells ⟨.fresh, none, 0⟩ := ⟨rfl, rfl, rfl, rfl, rfl, trivial⟩

/-- The frame of a call over an arc keeps what the story says of its caller. -/
theorem Story.frames_over {s : Story ContextId Kept AnchorId} {f : Frame} {arc : CallArc} {slots : List (Option FnId)}
    (hslots : s.slots = some arc.caller :: slots) (ha : f.arc = some arc) (hc : f.context = s.context)
    (hd : f.fnDepth = slots.length + 1) (hcosted : s.costed = f.costed) (c : ContextId) :
    frames (.call { fn := arc.callee, skipped := false, sp := f.sp, returnTo := f.returnTo, costed := none } c
      ⟨arc.id, {}⟩ s) = f :: s.frames := by
  simp only [frames, hslots, List.head?_cons, Option.join_some, Option.getD_some, List.length_cons, hcosted, ← hc, ← hd,
    ← ha, Bool.false_eq_true, if_false]

/-- The moves of a lineage are a story. -/
theorem Lineage.story {stands : ContextId → List (Option FnId) → Prop} {good : ContextId → AnchorId → Prop}
    {signal : Int} {context : Option ContextId} {costed : Option AnchorId} {frames : List Frame}
    {slots : List (Option FnId)} {handlers : List Handler}
    (l : Lineage stands good signal context costed frames slots handlers) :
    ∃ s : Story ContextId Kept AnchorId, s.WellFormed ∧ s.signal = signal ∧ s.context = context ∧ s.costed = costed ∧
      s.frames = frames ∧ s.slots = slots ∧ s.handlers = handlers := by
  induction l with
  | fresh => exact ⟨.fresh, trivial, rfl, rfl, rfl, rfl, rfl, rfl⟩
  | first fn c _ _ ih =>
    obtain ⟨s, hw, rfl, hctx, -, rfl, rfl, rfl⟩ := ih
    refine ⟨.first fn c s, ⟨?_, hw⟩, rfl, rfl, rfl, rfl, rfl, rfl⟩
    rw [← Story.isSome_context hw, hctx]
    rfl
  | @skipped _ c _ _ _ f costed _ ha _ ih =>
    obtain ⟨s, hw, rfl, hctx, hcosted, rfl, rfl, rfl⟩ := ih
    -- Frames and slots do not tell which function was skipped, so it may be any.
    refine ⟨.call { fn := ⟨0⟩, skipped := true, sp := f.sp, returnTo := f.returnTo, costed } c
      ⟨⟨0⟩, { context := f.context, fnDepth := f.fnDepth }⟩ s, ⟨?_, hw⟩, rfl, hctx, rfl, ?_, ?_, rfl⟩
    · rw [← Story.isSome_context hw, hctx]
      rfl
    · simp only [Story.frames, if_true, hcosted, ← ha]
    · simp [Story.slots]
  | @itself _ c _ slots _ f arc _ ha hcc hc hd ih =>
    obtain ⟨s, hw, rfl, hctx, hcosted, rfl, hslots, rfl⟩ := ih
    refine ⟨.call { fn := arc.callee, skipped := false, sp := f.sp, returnTo := f.returnTo, costed := none } c
      ⟨arc.id, {}⟩ s, ⟨?_, hw⟩, rfl, rfl, rfl, Story.frames_over hslots ha (hc.trans hctx.symm) hd hcosted c, ?_, rfl⟩
    · rw [← Story.isSome_context hw, hctx]
      rfl
    · simp [Story.slots, hslots, hcc]
  | @across _ c _ slots _ f arc c' _ ha hcc hc hd _ ih =>
    obtain ⟨s, hw, rfl, hctx, hcosted, rfl, hslots, rfl⟩ := ih
    refine ⟨.call { fn := arc.callee, skipped := false, sp := f.sp, returnTo := f.returnTo, costed := none } c'
      ⟨arc.id, {}⟩ s, ⟨?_, hw⟩, rfl, rfl, rfl, Story.frames_over hslots ha (hc.trans hctx.symm) hd hcosted c', ?_, rfl⟩
    · rw [← Story.isSome_context hw, hctx]
      rfl
    · simp [Story.slots, hslots, Ne.symm hcc]
  | handler signal h hpos _ hb hd _ ih =>
    obtain ⟨s, hw, hsig, hctx, hcosted, rfl, rfl, rfl⟩ := ih
    refine ⟨.handler signal h.interrupted.anchor h.interrupted.exitsPassed s, ⟨hpos, hw⟩, rfl, rfl, rfl, rfl, rfl, ?_⟩
    simp only [Story.handlers, hsig, hctx, hcosted, ← hd, ← Story.length_frames, ← hb]

/-- Every sound thread state has a story. -/
theorem ThreadState.Sound.story {contexts : ContextTable} {anchors : Directory} {thread : ThreadId} {s : ThreadState}
    (h : s.Sound contexts anchors thread) : ∃ sc, s.Tells sc := by
  obtain ⟨st, hw, hsig, hctx, hcosted, hframes, hslots, hhandlers⟩ := h.lineage.story
  refine ⟨⟨st, s.exec.anchor, s.exec.exitsPassed⟩, hframes.symm, h.unstaged, hslots.symm, ?_, hhandlers.symm, hw⟩
  simp only [hsig, hctx, hcosted]

end CallGraph
