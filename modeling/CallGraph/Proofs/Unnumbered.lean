/-
  CallGraph.Proofs.Unnumbered — thread states without the numbers that the tables give out.

  The numbers of contexts, anchors and arcs in a thread state are put down to whether there is one.
  What is left is told by the story alone (`ThreadState.Tells.unnumbered`), and scenes that are the
  same but for what stands for contexts and anchors are equal without numbers (`Scene.Same.unnumbered`).
  So the states that such scenes tell are equal without numbers (`ThreadState.Tells.same`).
-/

import CallGraph.Proofs.Matching

namespace CallGraph

/-! ## Scenes -/

section
variable {κ ι α κ' ι' β : Type} {R : α → β → Prop}

/-- The story with one number for all contexts, anchors and arcs. -/
def Story.unnumbered : Story κ ι α → Story ContextId Kept AnchorId
  | fresh => fresh
  | first fn _ s => first fn ⟨0⟩ s.unnumbered
  | call c _ _ s => call { c with costed := c.costed.map fun _ => ⟨0⟩ } ⟨0⟩ ⟨⟨0⟩, {}⟩ s.unnumbered
  | handler signal last passed s => handler signal (last.map fun _ => ⟨0⟩) passed s.unnumbered

def Scene.unnumbered (sc : Scene κ ι α) : Scene ContextId Kept AnchorId :=
  { sc with story := sc.story.unnumbered, last := sc.last.map fun _ => ⟨0⟩ }

theorem rel_map_const {γ : Type} {o : Option α} {o' : Option β} (h : Option.Rel R o o') (z : γ) :
    (o'.map fun _ => z) = o.map fun _ => z := by
  cases h <;> rfl

/-- Stories that only differ in numbers are equal without them. -/
theorem Story.Match.unnumbered {s : Story κ ι α} {s' : Story κ' ι' β} (h : Match (OpenCall.Same R) R s s') :
    s'.unnumbered = s.unnumbered := by
  induction h with
  | fresh => rfl
  | first fn _ _ _ ih => rw [Story.unnumbered, Story.unnumbered, ih]
  | call _ _ _ _ hc _ ih =>
    simp only [Story.unnumbered, ih, hc.fn, hc.skipped, hc.sp, hc.returnTo, rel_map_const hc.costed]
  | handler _ _ hr _ ih => rw [Story.unnumbered, Story.unnumbered, ih, rel_map_const hr]

theorem Scene.Same.unnumbered {sc : Scene κ ι α} {sc' : Scene κ' ι' β} (h : Same R sc sc') :
    sc'.unnumbered = sc.unnumbered := by
  rw [Scene.unnumbered, Scene.unnumbered, h.story.unnumbered, rel_map_const h.last, h.passed]

end

namespace Story

variable {κ ι α : Type} (s : Story κ ι α)

@[simp] theorem slots_unnumbered : s.unnumbered.slots = s.slots := by
  induction s with
  | fresh => rfl
  | first _ _ _ ih => exact congrArg (some _ :: ·) ih
  | call _ _ _ _ ih => simp only [unnumbered, slots, ih]
  | handler _ _ _ _ ih => exact congrArg (none :: ·) ih

@[simp] theorem signal_unnumbered : s.unnumbered.signal = s.signal := by
  induction s with
  | fresh | handler => rfl
  | first _ _ _ ih | call _ _ _ _ ih => exact ih

@[simp] theorem context_unnumbered : s.unnumbered.context = s.context.map fun _ => ⟨0⟩ := by
  induction s with
  | fresh | first | handler => rfl
  | call c _ _ _ ih =>
    simp only [unnumbered, context, ih]
    split <;> rfl

@[simp] theorem costed_unnumbered : s.unnumbered.costed = s.costed.map fun _ => ⟨0⟩ := by
  cases s <;> rfl

@[simp] theorem depth_unnumbered : s.unnumbered.depth = s.depth := by
  induction s with
  | fresh => rfl
  | first _ _ _ ih | handler _ _ _ _ ih => exact ih
  | call _ _ _ _ ih => exact congrArg (· + 1) ih

theorem unnumbered_wellFormed (h : s.WellFormed) : s.unnumbered.WellFormed := by
  have hstarted : ∀ s : Story κ ι α, s.unnumbered.started = s.started := fun s => by cases s <;> rfl
  induction s with
  | fresh => exact h
  | first _ _ _ ih | call _ _ _ _ ih => exact ⟨(hstarted _).trans h.1, ih h.2⟩
  | handler _ _ _ _ ih => exact ⟨h.1, ih h.2⟩

end Story

/-! ## Thread states -/

/-- A frame without numbers. No context and no depth is restored from the frame of a call into skipped code, so
it shows neither. -/
def Frame.unnumbered (f : Frame) : Frame :=
  { f with
    arc := f.arc.map fun arc => { arc with id := ⟨0⟩ }
    context := if f.arc.isSome then f.context.map fun _ => ⟨0⟩ else none
    fnDepth := if f.arc.isSome then f.fnDepth else 0
    costed := f.costed.map fun _ => ⟨0⟩ }

def Exec.unnumbered (e : Exec) : Exec :=
  { e with
    context := e.context.map fun _ => ⟨0⟩
    anchor := e.anchor.map fun _ => ⟨0⟩
    costed := e.costed.map fun _ => ⟨0⟩ }

def Handler.unnumbered (h : Handler) : Handler := { h with interrupted := h.interrupted.unnumbered }

/-- A thread state between two events, without the numbers of contexts, anchors and arcs. -/
def ThreadState.unnumbered (s : ThreadState) : ThreadState where
  shadow := { frames := s.shadow.frames.map Frame.unnumbered }
  fns := s.fns
  exec := s.exec.unnumbered
  handlers := s.handlers.map Handler.unnumbered

namespace Story

variable (s : Story ContextId Kept AnchorId)

theorem frames_unnumbered : s.unnumbered.frames = s.frames.map Frame.unnumbered := by
  induction s with
  | fresh => rfl
  | first _ _ _ ih | handler _ _ _ _ ih => exact ih
  | call c _ _ s ih =>
    rw [frames, List.map_cons, ← ih]
    simp only [unnumbered, frames, slots_unnumbered, context_unnumbered, costed_unnumbered, Frame.unnumbered]
    split <;> rfl

theorem handlers_unnumbered : s.unnumbered.handlers = s.handlers.map Handler.unnumbered := by
  induction s with
  | fresh => rfl
  | first _ _ _ ih | call _ _ _ _ ih => exact ih
  | handler _ _ _ s ih =>
    rw [handlers, List.map_cons, ← ih]
    simp only [unnumbered, handlers, slots_unnumbered, signal_unnumbered, context_unnumbered, costed_unnumbered,
      depth_unnumbered, Handler.unnumbered, Exec.unnumbered]

end Story

namespace ThreadState.Tells

variable {th th' : ThreadState} {sc sc' : Scene ContextId Kept AnchorId}

theorem unnumbered (h : th.Tells sc) : th.unnumbered.Tells sc.unnumbered where
  frames := (congrArg (List.map Frame.unnumbered) h.frames).trans sc.story.frames_unnumbered.symm
  unstaged := rfl
  slots := h.slots.trans sc.story.slots_unnumbered.symm
  exec := by
    show th.exec.unnumbered = _
    rw [h.exec]
    simp only [Scene.unnumbered, Exec.unnumbered, Story.signal_unnumbered, Story.context_unnumbered,
      Story.costed_unnumbered]
  handlers := (congrArg (List.map Handler.unnumbered) h.handlers).trans sc.story.handlers_unnumbered.symm
  wellFormed := Story.unnumbered_wellFormed _ h.wellFormed

/-- Scenes that are equal without numbers tell thread states that are equal without them. -/
theorem same (h : th.Tells sc) (h' : th'.Tells sc') (hs : sc'.unnumbered = sc.unnumbered) :
    th'.unnumbered = th.unnumbered := by
  have hu := h.unnumbered
  have hu' := h'.unnumbered
  rw [hs] at hu'
  have hframes := hu'.frames.trans hu.frames.symm
  have hslots := hu'.slots.trans hu.slots.symm
  have hexec := hu'.exec.trans hu.exec.symm
  have hhandlers := hu'.handlers.trans hu.handlers.symm
  cases hfns : th.fns
  cases hfns' : th'.fns
  simp only [ThreadState.unnumbered, hfns, hfns'] at hframes hslots hexec hhandlers ⊢
  rw [hframes, hslots, hexec, hhandlers]

end ThreadState.Tells
end CallGraph
