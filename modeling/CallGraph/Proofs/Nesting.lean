/-
  CallGraph.Proofs.Nesting — handlers lie inside one another.

  A handler notes how many frames and how many functions the code has that it interrupts. What runs in it only adds
  to both, so the frames and the functions of the interrupted code stay where they are: the notes of handlers grow
  inwards, every marker of the function stack is where a handler started, and what a frame has saved says on which
  side of a marker it was pushed (`Nested`). Every move of a lineage keeps this (`Lineage.nested`), so it holds in
  every state that can be reached, and also between the pops of one operation (`handlers_nested`).

  A handler is left before a frame of the code that it interrupted is popped, and it is recognised by as many frames
  as it noted, no more and no less. As no thread has fewer frames than one of its handlers noted, that is enough
  (`Nested.exhausted`), and while a handler has frames of its own no handler is left (`popCalls_eq_popFrames`).
-/

import CallGraph.Proofs.Telling

namespace CallGraph

/-! ## Markers -/

/-- There is a marker on the function stack with so many slots below it. -/
def MarkedAt (slots : List (Option FnId)) (depth : Nat) : Prop :=
  ∃ above below, slots = above ++ none :: below ∧ below.length = depth

section
variable {slots : List (Option FnId)} {depth : Nat}

theorem not_markedAt_nil : ¬MarkedAt [] depth := by
  rintro ⟨above, below, h, -⟩
  exact List.append_ne_nil_of_right_ne_nil above (List.cons_ne_nil none below) h.symm

theorem markedAt_cons (slot : Option FnId) :
    MarkedAt (slot :: slots) depth ↔ slot = none ∧ depth = slots.length ∨ MarkedAt slots depth := by
  constructor
  · rintro ⟨above, below, h, hdepth⟩
    obtain ⟨rfl, hslot⟩ | ⟨above, rfl, rfl⟩ := List.cons_eq_append_iff.mp h
    · cases hslot
      exact .inl ⟨rfl, hdepth.symm⟩
    · exact .inr ⟨above, below, rfl, hdepth⟩
  · rintro (⟨rfl, rfl⟩ | ⟨above, below, rfl, hdepth⟩)
    · exact ⟨[], slots, rfl, rfl⟩
    · exact ⟨slot :: above, below, rfl, hdepth⟩

theorem markedAt_function (fn : FnId) : MarkedAt (some fn :: slots) depth ↔ MarkedAt slots depth := by
  rw [markedAt_cons]
  exact or_iff_right nofun

theorem MarkedAt.lt (h : MarkedAt slots depth) : depth < slots.length := by
  obtain ⟨above, below, rfl, rfl⟩ := h
  rw [List.length_append, List.length_cons]
  omega

end

/-! ## Frames inside and outside of a handler -/

/-- The frames of costed calls among some frames satisfy a condition on what they saved. -/
def Saved (p : Nat → Prop) (frames : List Frame) : Prop := ∀ f ∈ frames, f.arc.isSome = true → p f.fnDepth

/-- How the handlers of a thread, innermost first, lie in its frames and in its function stack. -/
structure Nested (signal : Int) (frames : List Frame) (slots : List (Option FnId)) (handlers : List Handler) :
    Prop where
  /-- A signal is handled exactly where there is a handler. -/
  handling : 0 < signal ↔ handlers ≠ []
  /-- The outermost handler interrupted code outside of handlers, and the others interrupted a handler. -/
  interrupted : ∀ inner h outer, handlers = inner ++ h :: outer →
    if outer = [] then h.interrupted.signal = 0 else 0 < h.interrupted.signal
  bottoms : handlers.Pairwise fun g h => h.bottom ≤ g.bottom
  bottom_le : ∀ h ∈ handlers, h.bottom ≤ frames.length
  depths : handlers.Pairwise fun g h => h.fnDepth < g.fnDepth
  /-- Above the slots that a handler noted there is its marker, and there are no other markers. -/
  markers : ∀ depth, MarkedAt slots depth ↔ ∃ h ∈ handlers, h.fnDepth = depth
  /-- A call in a handler was made above its marker and the first function on it. -/
  inside : ∀ h ∈ handlers, Saved (h.fnDepth + 1 < ·) (frames.take (frames.length - h.bottom))
  /-- A call in interrupted code was made below the marker. -/
  outside : ∀ h ∈ handlers, Saved (· ≤ h.fnDepth) (frames.drop (frames.length - h.bottom))
  /-- No frame saved more than there is. -/
  saved : Saved (· ≤ slots.length) frames
  /-- The handlers with as many frames below them as there are, counted inside out, are all that have as many or
  more. -/
  exhausted : ThreadState.exhaustedHandlers frames.length signal handlers =
    (handlers.filter fun h => frames.length ≤ h.bottom).length

namespace Nested

variable {signal : Int} {frames : List Frame} {slots : List (Option FnId)} {handlers : List Handler}

theorem fresh : Nested 0 [] [] [] where
  handling := iff_of_false (Int.lt_irrefl 0) (not_not_intro rfl)
  interrupted := fun inner h outer e =>
    absurd e.symm (List.append_ne_nil_of_right_ne_nil inner (List.cons_ne_nil h outer))
  bottoms := .nil
  bottom_le := fun _ hm => absurd hm List.not_mem_nil
  depths := .nil
  markers := fun _ => iff_of_false not_markedAt_nil nofun
  inside := fun _ hm => absurd hm List.not_mem_nil
  outside := fun _ hm => absurd hm List.not_mem_nil
  saved := fun _ hm => absurd hm List.not_mem_nil
  exhausted := rfl

/-- A function comes onto the function stack. -/
theorem function (n : Nested signal frames slots handlers) (fn : FnId) :
    Nested signal frames (some fn :: slots) handlers :=
  { n with
    markers := fun depth => (markedAt_function fn).trans (n.markers depth)
    saved := fun f hf ha => Nat.le_succ_of_le (n.saved f hf ha) }

/-- A function on top is above the markers of all handlers. -/
theorem top_above {fn : FnId} (n : Nested signal frames (some fn :: slots) handlers) {h : Handler} (hm : h ∈ handlers) :
    h.fnDepth < slots.length :=
  ((markedAt_function fn).mp ((n.markers h.fnDepth).mpr ⟨h, hm, rfl⟩)).lt

/-- A frame is pushed. That of a costed call saved the whole function stack, with the caller on top. -/
theorem frame (n : Nested signal frames slots handlers) (f : Frame)
    (hf : f.arc.isSome = true → f.fnDepth = slots.length ∧ ∃ fn rest, slots = some fn :: rest) :
    Nested signal (f :: frames) slots handlers :=
  { n with
    bottom_le := fun h hm => Nat.le_succ_of_le (n.bottom_le h hm)
    inside := fun h hm g hg ha => by
      rw [List.length_cons, Nat.succ_sub (n.bottom_le h hm), List.take_succ_cons] at hg
      obtain rfl | hg := List.mem_cons.mp hg
      · obtain ⟨hdepth, fn, rest, rfl⟩ := hf ha
        rw [hdepth, List.length_cons]
        exact Nat.succ_lt_succ (n.top_above hm)
      · exact n.inside h hm g hg ha
    outside := fun h hm g hg ha => by
      rw [List.length_cons, Nat.succ_sub (n.bottom_le h hm), List.drop_succ_cons] at hg
      exact n.outside h hm g hg ha
    saved := fun g hg ha => by
      obtain rfl | hg := List.mem_cons.mp hg
      · exact Nat.le_of_eq (hf ha).1
      · exact n.saved g hg ha
    exhausted := by
      -- No handler noted as many frames as there are now.
      have habove : ∀ h ∈ handlers, h.bottom < (f :: frames).length := fun h hm => Nat.lt_succ_of_le (n.bottom_le h hm)
      rw [List.filter_eq_nil_iff.mpr fun h hm => by simpa using habove h hm]
      cases handlers with
      | nil => rfl
      | cons h handlers =>
        have hne : ¬(0 < signal ∧ h.bottom = (f :: frames).length) :=
          fun e => Nat.ne_of_lt (habove h (List.mem_cons_self ..)) e.2
        rw [ThreadState.exhaustedHandlers, if_neg hne]
        rfl }

/-- A signal comes. -/
theorem handler (n : Nested signal frames slots handlers) (hzero : handlers = [] → signal = 0) {h : Handler}
    (hsignal : h.interrupted.signal = signal) (hb : h.bottom = frames.length) (hd : h.fnDepth = slots.length)
    {signal' : Int} (hpos : 0 < signal') : Nested signal' frames (none :: slots) (h :: handlers) where
  handling := iff_of_true hpos (List.cons_ne_nil h handlers)
  interrupted := fun inner g outer e => by
    obtain ⟨-, houter⟩ | ⟨inner', -, hrest⟩ := List.cons_eq_append_iff.mp e
    · cases houter
      split
      · rename_i hnil
        rw [hsignal, hzero hnil]
      · rename_i hne
        rw [hsignal]
        exact n.handling.mpr hne
    · exact n.interrupted inner' g outer hrest
  bottoms := .cons (fun g hg => hb ▸ n.bottom_le g hg) n.bottoms
  bottom_le := fun g hg => by
    obtain rfl | hg := List.mem_cons.mp hg
    · exact Nat.le_of_eq hb
    · exact n.bottom_le g hg
  depths := .cons (fun g hg => hd ▸ ((n.markers g.fnDepth).mpr ⟨g, hg, rfl⟩).lt) n.depths
  markers := fun depth => by
    rw [markedAt_cons, n.markers, List.exists_mem_cons_iff, hd, eq_comm, and_iff_right rfl]
    exact or_congr_left eq_comm
  inside := fun g hg => by
    obtain rfl | hg := List.mem_cons.mp hg
    · rw [hb, Nat.sub_self]
      exact fun _ hf => absurd hf List.not_mem_nil
    · exact n.inside g hg
  outside := fun g hg => by
    obtain rfl | hg := List.mem_cons.mp hg
    · rw [hb, Nat.sub_self, hd]
      exact n.saved
    · exact n.outside g hg
  saved := fun f hf ha => Nat.le_succ_of_le (n.saved f hf ha)
  exhausted := by
    rw [ThreadState.exhaustedHandlers, if_pos ⟨hpos, hb⟩, hsignal, n.exhausted,
      List.filter_cons_of_pos (by simpa using Nat.le_of_eq hb.symm), List.length_cons]

end Nested

/-- The moves that lead to a state keep its handlers nested. -/
theorem Lineage.nested {stands : ContextId → List (Option FnId) → Prop} {good : ContextId → AnchorId → Prop}
    {signal : Int} {context : Option ContextId} {costed : Option AnchorId} {frames : List Frame}
    {slots : List (Option FnId)} {handlers : List Handler}
    (l : Lineage stands good signal context costed frames slots handlers) : Nested signal frames slots handlers := by
  -- A call into another function pushes its frame before its slot, so that the frame saved the caller on top.
  induction l with
  | fresh => exact .fresh
  | first fn _ _ _ ih => exact ih.function fn
  | skipped f _ _ ha _ ih => exact ih.frame f fun hsome => by simp [ha] at hsome
  | itself f arc _ _ _ _ hd ih => exact ih.frame f fun _ => ⟨hd, arc.caller, _, rfl⟩
  | across f arc _ _ _ _ _ hd _ ih => exact (ih.frame f fun _ => ⟨hd, arc.caller, _, rfl⟩).function arc.callee
  | handler _ h hpos l hb hd _ ih =>
    refine ih.handler (fun hnone => ?_) rfl hb hd hpos
    have hsignal := l.signal_pos
    rwa [if_pos hnone] at hsignal

/-! ## Threads -/

/-- How the handlers of a thread lie in its frames and its function stack. -/
def ThreadState.Nested (s : ThreadState) : Prop :=
  CallGraph.Nested s.exec.signal s.shadow.frames s.fns.slots s.handlers

theorem ThreadState.Sound.nested {contexts : ContextTable} {anchors : Directory} {thread : ThreadId} {s : ThreadState}
    (h : s.Sound contexts anchors thread) : s.Nested := h.lineage.nested

namespace Tracker

variable {config : Config} {t : Tracker}

/-- No handler is exhausted while the innermost one has frames of its own. -/
theorem exhaustedHandlers_of_lt {depth : Nat} {signal : Int} {handlers : List Handler}
    (h : bottomOf handlers < depth) : ThreadState.exhaustedHandlers depth signal handlers = 0 := by
  cases handlers with
  | nil => rfl
  | cons g handlers => exact if_neg fun e => Nat.ne_of_lt h e.2

/-- As long as the innermost handler has frames of its own, these are popped and no handler is left. -/
theorem popCalls_eq_popFrames (n : Nat) (h : t.Sound)
    (hn : bottomOf t.thread.handlers + n ≤ t.thread.shadow.frames.length) : popCalls n t = popFrames n t := by
  induction n generalizing t with
  | zero => rfl
  | succ n ih =>
    have hstays : ThreadState.exhaustedHandlers t.thread.shadow.depth t.thread.exec.signal t.thread.handlers = 0 :=
      exhaustedHandlers_of_lt (Nat.lt_of_lt_of_le (Nat.lt_add_of_pos_right n.succ_pos) hn)
    have hcall : t.popCall = t.popFrame := by
      simp only [popCall, hstays, leaveHandlers, pure_eq_ok, ok_bind]
    cases hf : t.thread.shadow.frames with
    | nil => rw [hf, List.length_nil] at hn; omega
    | cons f frames =>
      rw [hf, List.length_cons] at hn
      obtain ⟨t₁, hpop, h₁, -, hf₁, hh₁⟩ := popFrame_ok h hf (by omega)
      rw [popCalls, popFrames, hcall, hpop]
      exact ih h₁ (by rw [hh₁, hf₁]; omega)

/-- In every state that can be reached the handlers of every thread are nested. They are after every number of pops
of a transfer too, so that a handler is left before a frame below it is popped, and no handler is left for a frame
of its own. -/
theorem handlers_nested (h : Reach config t) (u : ThreadId) :
    (t.state u).Nested ∧
    (∀ x n, n ≤ (t.state u).shadow.depth → ∃ t', popCalls n ((t.switchTo u).countTransfer x) = .ok t' ∧
      t'.thread.Nested ∧ t'.thread.shadow.frames = (t.state u).shadow.frames.drop n) ∧
    ∀ x n, (t.state u).bottom + n ≤ (t.state u).shadow.depth →
      popCalls n ((t.switchTo u).countTransfer x) = popFrames n ((t.switchTo u).countTransfer x) := by
  obtain ⟨hinv, -⟩ := reach_inv h
  have hcounted : ∀ x, ((t.switchTo u).countTransfer x).Sound := (hinv.switchTo u).counted
  have hthread : ∀ x, ((t.switchTo u).countTransfer x).thread = t.state u := fun _ => thread_switchTo_state t u
  refine ⟨(hinv.state u).1.nested, fun x n hn => ?_, fun x n hn => ?_⟩
  · obtain ⟨t', hpops, h', -, hframes⟩ := popCalls_ok n (hcounted x) ((hthread x).symm ▸ hn)
    exact ⟨t', hpops, h'.active.nested, hthread x ▸ hframes⟩
  · refine popCalls_eq_popFrames n (hcounted x) ?_
    rw [hthread x]
    unfold ThreadState.bottom at hn
    unfold bottomOf
    exact hn

/-- A second signal comes while the handler of `signalledRun` makes a call, and its handler makes one too. -/
def stackedRun : List Op :=
  signalledRun ++ [.enterBlock { thread := ⟨1⟩, sp := ⟨890⟩ } ⟨1⟩, .enterHandler ⟨1⟩ 12,
    .enterBlock { thread := ⟨1⟩, sp := ⟨800⟩ } ⟨0⟩, .enterBlock { thread := ⟨1⟩, sp := ⟨790⟩ } ⟨1⟩]

theorem handlers_nested_stackedRun :
    ∃ t, Reach fewBuckets t ∧ (t.state ⟨1⟩).handlers.map (fun h => (h.bottom, h.fnDepth)) = [(3, 4), (2, 2)] ∧
      (t.state ⟨1⟩).shadow.depth = 4 ∧ (t.state ⟨1⟩).Nested ∧
      ∃ t', popCalls 3 ((t.switchTo ⟨1⟩).countTransfer { pops := 3, enters := false, sp := ⟨990⟩ }) = .ok t' ∧
        t'.thread.Nested ∧ t'.thread.shadow.frames = (t.state ⟨1⟩).shadow.frames.drop 3 := by
  have hrun : (runFrom fewBuckets stackedRun).map (fun t =>
      ((t.state ⟨1⟩).handlers.map (fun h => (h.bottom, h.fnDepth)), (t.state ⟨1⟩).shadow.depth)) =
      .ok ([(3, 4), (2, 2)], 4) := by
    decide +kernel
  obtain ⟨t, hr, heq⟩ := runFrom_of_map hrun
  obtain ⟨hhandlers, hdepth⟩ := Prod.mk.inj heq
  obtain ⟨hnested, hpops, -⟩ := handlers_nested (reach_runFrom hr) ⟨1⟩
  exact ⟨t, reach_runFrom hr, hhandlers, hdepth, hnested, hpops _ 3 (by rw [hdepth]; decide)⟩

end Tracker
end CallGraph
