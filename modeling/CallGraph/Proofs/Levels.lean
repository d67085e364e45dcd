/-
  CallGraph.Proofs.Levels — the shadow stack grows downwards, as the real one does.

  A call is recorded at the live stack pointer, or level with the frame on top where a jump was promoted, and
  a return taken for a call leaves no frame first. The handlers of a thread split its frames into regions, and
  within a region no frame is recorded above one that was pushed before it (`Story.Sorted`, kept by
  `Scene.enter_sorted`). In every state that can be reached the regions of all threads are stacked so, and a
  block that ran at a stack pointer leaves no frame of its region below it (`levels_stacked`).
-/

import CallGraph.Proofs.Finishing
import CallGraph.Proofs.Matching
import CallGraph.Proofs.Telling

namespace CallGraph

/-- Frames innermost first, where none is recorded above one below it. -/
def Stacked (frames : List Frame) : Prop := frames.Pairwise fun f g => f.sp.val ≤ g.sp.val

/-- The frames above the innermost handler's bottom, those between the handlers' bottoms, and those below all
of them. -/
def regions : List Handler → List Frame → List (List Frame)
  | [], frames => [frames]
  | h :: handlers, frames =>
    frames.take (frames.length - h.bottom) :: regions handlers (frames.drop (frames.length - h.bottom))

namespace ThreadState

def regions (s : ThreadState) : List (List Frame) := CallGraph.regions s.handlers s.shadow.frames

/-- The frames of the innermost handler, or of the thread where it is in none. -/
def region (s : ThreadState) : List Frame := s.shadow.frames.take (s.shadow.depth - s.bottom)

theorem region_mem_regions (s : ThreadState) : s.region ∈ s.regions := by
  unfold region regions bottom CallGraph.regions
  cases s.handlers with
  | nil =>
    rw [Nat.sub_zero, ShadowStack.depth, List.take_length]
    exact List.mem_singleton.mpr rfl
  | cons h handlers => exact List.mem_cons_self ..

end ThreadState

/-- A frame pushed above the bottoms of all handlers is in the first region. -/
theorem regions_cons {handlers : List Handler} {frames : List Frame} (f : Frame)
    (hb : bottomOf handlers ≤ frames.length) : ∃ region rest, regions handlers frames = region :: rest ∧
      regions handlers (f :: frames) = (f :: region) :: rest := by
  cases handlers with
  | nil => exact ⟨frames, [], rfl, rfl⟩
  | cons h handlers =>
    have hb : h.bottom ≤ frames.length := hb
    refine ⟨_, _, rfl, ?_⟩
    rw [regions, List.length_cons, Nat.succ_sub hb, List.take_succ_cons, List.drop_succ_cons]

/-! ## Stories -/

namespace Story

variable {κ ι α : Type} {s : Story κ ι α}

/-- Where the calls since the innermost handler started are recorded. -/
def levels : Story κ ι α → List Addr
  | fresh | handler .. => []
  | first _ _ before => before.levels
  | call c _ _ before => c.sp :: before.levels

/-- No call is recorded above one that it was made in, unless a handler started in between. -/
def Sorted : Story κ ι α → Prop
  | fresh => True
  | first _ _ before | handler _ _ _ before => before.Sorted
  | call c _ _ before => (∀ l ∈ before.levels, c.sp.val ≤ l.val) ∧ before.Sorted

theorem Sorted.pairwise (h : s.Sorted) : s.levels.Pairwise fun l l' => l.val ≤ l'.val := by
  induction s with
  | fresh | handler => exact .nil
  | first _ _ _ ih => exact ih h
  | call c _ _ _ ih => exact .cons h.1 (ih h.2)

/-- The innermost of these calls has the frame on top. -/
theorem top_of_levels {l : Addr} (h : s.levels.head? = some l) :
    s.bottom < s.depth ∧ ∃ f, s.marks.head? = some f ∧ f.sp = l := by
  induction s with
  | fresh | handler => cases h
  | first _ _ _ ih => exact ih h
  | call c _ _ before =>
    cases h
    exact ⟨Nat.lt_succ_of_le before.bottom_le, _, rfl, rfl⟩

theorem popCall_sorted (h : s.Sorted) (last : Option α) (passed : Nat) : (s.popCall last passed).story.Sorted := by
  induction s generalizing last passed with
  | fresh => exact h
  | first _ _ _ ih | handler _ _ _ _ ih => exact ih h _ _
  | call => exact h.2

theorem leave_sorted (h : s.Sorted) : s.leave.story.Sorted := by
  induction s with
  | fresh => exact h
  | first _ _ _ ih => exact ih h
  | call _ _ _ _ ih => exact ih h.2
  | handler => exact h

theorem forget_sorted (dead : α → Bool) (h : s.Sorted) : (s.forget dead).Sorted := by
  have hlevels : ∀ s : Story κ ι α, (s.forget dead).levels = s.levels := by
    intro s
    induction s with
    | fresh | handler => rfl
    | first _ _ _ ih => exact ih
    | call c _ _ _ ih => exact congrArg (c.sp :: ·) ih
  induction s with
  | fresh => exact h
  | first _ _ _ ih | handler _ _ _ _ ih => exact ih h
  | call c _ _ before ih =>
    refine ⟨?_, ih h.2⟩
    rw [hlevels]
    exact h.1

/-- Without a call everything is sorted. -/
theorem sorted_of_depth (h : s.depth = 0) : s.Sorted := by
  induction s with
  | fresh => trivial
  | first _ _ _ ih | handler _ _ _ _ ih => exact ih h
  | call => cases h

/-- The frames of a sorted story are stacked in every region. -/
theorem Sorted.stacked {s : Story ContextId Kept AnchorId} (h : s.Sorted) :
    ∃ region rest, regions s.handlers s.frames = region :: rest ∧ region.map (·.sp) = s.levels ∧
      ∀ r ∈ region :: rest, Stacked r := by
  induction s with
  | fresh =>
    refine ⟨[], [], rfl, rfl, fun r hr => ?_⟩
    rw [List.mem_singleton.mp hr]
    exact .nil
  | first _ _ _ ih => exact ih h
  | handler _ _ _ before ih =>
    -- A handler opens a region of its own.
    obtain ⟨region, rest, heq, -, hstacked⟩ := ih h
    refine ⟨[], region :: rest, ?_, rfl, fun r hr => ?_⟩
    · simp only [handlers, frames, regions, length_frames, Nat.sub_self, List.take_zero, List.drop_zero, heq]
    · obtain rfl | hr := List.mem_cons.mp hr
      · exact .nil
      · exact hstacked r hr
  | call c _ kept before ih =>
    -- A call goes on the innermost region.
    obtain ⟨region, rest, heq, hlevels, hstacked⟩ := ih h.2
    have hbottom : bottomOf before.handlers ≤ before.frames.length := by
      rw [bottomOf_handlers, length_frames]
      exact before.bottom_le
    obtain ⟨f, hf, hsp⟩ : ∃ f, frames (.call c _ kept before) = f :: before.frames ∧ f.sp = c.sp := by
      refine ⟨_, rfl, ?_⟩
      split <;> rfl
    obtain ⟨region', rest', heq', hcons⟩ := regions_cons f hbottom
    rw [heq] at heq'
    cases heq'
    refine ⟨f :: region, rest, by rw [hf]; exact hcons, ?_, fun r hr => ?_⟩
    · rw [List.map_cons, hlevels, hsp]
      rfl
    · obtain rfl | hr := List.mem_cons.mp hr
      · refine .cons (fun g hg => ?_) (hstacked _ (List.mem_cons_self ..))
        rw [hsp]
        refine h.1 g.sp ?_
        rw [← hlevels]
        exact List.mem_map_of_mem hg
      · exact hstacked r (List.mem_cons_of_mem _ hr)

end Story

/-! ## Entering a block -/

/-- The frame of a call is not above the frame on top, unless that belongs to interrupted code. -/
theorem Transfer.under_of_enters {rule : TailCallRule} {source : Option Departure} {target : Block} {sp : Addr}
    {frames : List Frame} {bottom : Nat} (h : (classify rule source target sp frames bottom).enters = true)
    (hb : bottom < frames.length) {f : Frame} (hf : frames.head? = some f) :
    (classify rule source target sp frames bottom).sp.val ≤ f.sp.val := by
  obtain ⟨frames, rfl⟩ : ∃ rest, frames = f :: rest := by
    cases frames with
    | nil => cases hf
    | cons g rest => exact ⟨rest, by rw [Option.some.inj hf]⟩
  obtain ⟨calls, promoted, returnAsJump, e⟩ | ⟨n, e⟩ := classify_cases rule source target sp (f :: frames) bottom
  · rw [e] at h ⊢
    have hzero : leftBehind sp 0 (f :: frames) = 0 := (ofJump_enters h).1
    have hlevel : (ofJump sp (f :: frames) calls promoted returnAsJump).sp = if promoted then f.sp else sp := if_pos h
    rw [hlevel]
    split
    · exact UInt64.le_refl _
    · exact UInt64.not_lt.mp (leftBehind_eq_zero.mp hzero f rfl)
  · rw [e, ofReturn, if_neg (Nat.not_le.mpr hb)] at h
    cases h

namespace Scene

variable {κ ι α : Type}

theorem popCalls_sorted (n : Nat) {sc : Scene κ ι α} (h : sc.story.Sorted) : (sc.popCalls n).story.Sorted := by
  induction n generalizing sc with
  | zero => exact h
  | succ n ih => exact ih (Story.popCall_sorted h _ _)

theorem enter_sorted {blockOf : α → Option Block} {rule : TailCallRule} {skip : Bool} {target : Block} {sp : Addr}
    {me : α} {context : κ} {kept : ι} {sc : Scene κ ι α} (h : sc.story.Sorted) :
    (sc.enter blockOf rule skip target sp me context kept).story.Sorted := by
  cases hx : (sc.transfer blockOf rule target sp).enters with
  | true =>
    rw [enter_of_enters hx]
    refine ⟨fun l hl => ?_, h⟩
    cases hlevels : sc.story.levels with
    | nil =>
      rw [hlevels] at hl
      cases hl
    | cons top levels =>
      obtain ⟨hb, f, hf, rfl⟩ := Story.top_of_levels (congrArg List.head? hlevels)
      -- A call is entered only at or under the level of the frame on top.
      have hunder : (sc.transfer blockOf rule target sp).sp.val ≤ f.sp.val :=
        Transfer.under_of_enters hx (by rw [Story.length_marks]; exact hb) hf
      have hsorted := h.pairwise
      rw [hlevels] at hl hsorted
      obtain rfl | hl := List.mem_cons.mp hl
      · exact hunder
      · exact UInt64.le_trans hunder (List.rel_of_pairwise_cons hsorted hl)
  | false =>
    rw [enter_of_stays hx]
    have hpopped := popCalls_sorted (sc.transfer blockOf rule target sp).pops h
    show Story.Sorted (if _ then _ else _)
    split
    · exact hpopped
    · exact hpopped

end Scene

/-! ## Every state -/

namespace Tracker

variable {t t' : Tracker} {config : Config}

/-- A story of every thread is sorted. -/
def Sorted (t : Tracker) : Prop := ∀ u, ∃ sc, (t.state u).Tells sc ∧ sc.story.Sorted

theorem Told.sorted {u : ThreadId} {op : Op} {sc sc' : Scene ContextId Kept AnchorId} (h : Told t u op sc sc')
    (hs : sc.story.Sorted) : sc'.story.Sorted := by
  cases h with
  | aside e =>
    rw [e]
    exact hs
  | block => exact Scene.enter_sorted hs
  | signal => exact hs
  | signalReturn => exact Story.leave_sorted hs

theorem discardBlock_sorted (h : t.Sorted) (id : BlockId) : (t.discardBlock id).2.Sorted := by
  cases hr : t.blocks.get? id with
  | none =>
    rw [discardBlock_dead hr]
    exact h
  | some r =>
    obtain ⟨A, B, L, heq, -⟩ := discardBlock_live hr
    rw [heq]
    intro u
    obtain ⟨sc, hs, hsorted⟩ := h u
    refine ⟨sc.forget fun a => r.anchors.contains a, ?_, Story.forget_sorted _ hsorted⟩
    rw [state_of_forget (t := t) rfl]
    exact hs.forget _

theorem finish_sorted (h : t.Inv) (hf : t.finish = .ok t') : t'.Sorted := by
  intro u
  obtain ⟨t'', hf', h', -⟩ := finish_ok h
  rw [hf] at hf'
  cases hf'
  obtain ⟨sc, hs⟩ := (h'.state u).1.story
  have hdepth := finish_bare h hf u
  rw [hs.depth] at hdepth
  exact ⟨sc, hs, Story.sorted_of_depth hdepth⟩

theorem step_sorted (h : t.Inv) (hsorted : t.Sorted) {op : Op} {reply : Reply} (hs : t.step op = .ok (reply, t')) :
    t'.Sorted := by
  cases hop : op.sweeps with
  | false =>
    intro u
    obtain ⟨sc, htells, hsc⟩ := hsorted u
    obtain ⟨sc', htells', told⟩ := step_tells h hs hop u htells
    exact ⟨sc', htells', told.sorted hsc⟩
  | true =>
    cases step_effect hs with
    | discardBlock id => exact discardBlock_sorted hsorted id
    | finish hfinish => exact finish_sorted h hfinish
    | _ => cases hop

theorem reach_sorted (h : Reach config t) : t.Sorted := by
  induction h with
  | init h =>
    intro u
    obtain ⟨-, C, -, A, -, rfl⟩ := ofConfig_eq_ok.mp h
    exact ⟨⟨.fresh, none, 0⟩, by rw [state_of_fresh rfl]; exact ThreadState.fresh_tells, trivial⟩
  | step hreach hs ih => exact step_sorted (reach_inv hreach).1 ih hs

theorem Sorted.stacked (h : t.Sorted) (u : ThreadId) : ∀ region ∈ (t.state u).regions, Stacked region := by
  obtain ⟨sc, hs, hsorted⟩ := h u
  obtain ⟨region, rest, heq, -, hstacked⟩ := hsorted.stacked
  rw [ThreadState.regions, hs.handlers, hs.frames, heq]
  exact hstacked

/-- The frame on top is not below the stack pointer of the block that was entered last. -/
theorem top_of_tells {sc : Scene ContextId Kept AnchorId} {s : ThreadState} {sp : Addr} (hs : s.Tells sc)
    (hlevel : ∀ f, sc.story.marks.head? = some f → ¬f.sp < sp) {f : Frame} (hf : s.shadow.top? = some f) :
    sp.val ≤ f.sp.val := by
  have htop := hs.top_sp
  rw [hf] at htop
  obtain ⟨g, hg, hsp⟩ := Option.map_eq_some_iff.mp htop
  have hnot := hlevel g hg
  rw [hsp] at hnot
  exact UInt64.not_lt.mp hnot

/-- In every state that can be reached no frame of a region is recorded above one below it, and a block that
runs leaves no frame of its region, and no top frame, below its stack pointer. -/
theorem levels_stacked (h : Reach config t) :
    (∀ u, ∀ region ∈ (t.state u).regions, Stacked region) ∧
    ∀ pos id, t.blocks.contains id = true → ∃ a t', t.enterBlock pos id = .ok (a, t') ∧
      (∀ f, (t'.state pos.thread).shadow.top? = some f → pos.sp.val ≤ f.sp.val) ∧
      ∀ f ∈ (t'.state pos.thread).region, pos.sp.val ≤ f.sp.val := by
  refine ⟨(reach_sorted h).stacked, fun pos id hid => ?_⟩
  obtain ⟨hinv, -⟩ := reach_inv h
  obtain ⟨sc, hs⟩ := (hinv.state pos.thread).1.story
  obtain ⟨a, t', skip, b, c, kept, hstep, hs'⟩ := enterBlock_total hinv pos hid hs
  have he : t.enterBlock pos id = .ok (a, t') := by
    obtain ⟨p, he, h'⟩ := bind_eq_ok.mp hstep
    cases h'
    exact he
  have htop : ∀ f, (t'.state pos.thread).shadow.top? = some f → pos.sp.val ≤ f.sp.val :=
    fun f hf => top_of_tells hs' Scene.level_enter hf
  refine ⟨a, t', he, htop, fun f hf => ?_⟩
  have hstacked := (reach_sorted (h.step hstep)).stacked pos.thread _ (ThreadState.region_mem_regions _)
  -- The frame on top is the first one of the region, and the others are not below it.
  cases hregion : (t'.state pos.thread).region with
  | nil =>
    rw [hregion] at hf
    cases hf
  | cons g region =>
    have hg := congrArg List.head? hregion
    rw [ThreadState.region, List.head?_take] at hg
    split at hg
    · cases hg
    · rw [hregion] at hf hstacked
      obtain rfl | hf := List.mem_cons.mp hf
      · exact htop _ hg
      · exact UInt64.le_trans (htop g hg) (List.rel_of_pairwise_cons hstacked hf)

/-- The handler of `signalledRun` makes a call too. -/
def handlerRun : List Op := signalledRun ++ [.enterBlock { thread := ⟨1⟩, sp := ⟨890⟩ } ⟨1⟩]

theorem levels_stacked_handlerRun :
    ∃ t, Reach fewBuckets t ∧ (t.state ⟨1⟩).regions.map List.length = [1, 2] ∧ t.blocks.contains ⟨1⟩ = true ∧
      (∀ u, ∀ region ∈ (t.state u).regions, Stacked region) ∧
      ∃ a t', t.enterBlock { thread := ⟨1⟩, sp := ⟨985⟩ } ⟨1⟩ = .ok (a, t') ∧
        (∀ f, (t'.state ⟨1⟩).shadow.top? = some f → 985 ≤ f.sp.val) ∧
        ∀ f ∈ (t'.state ⟨1⟩).region, 985 ≤ f.sp.val := by
  have hrun : (runFrom fewBuckets handlerRun).map
      (fun t => ((t.state ⟨1⟩).regions.map List.length, t.blocks.contains ⟨1⟩)) = .ok ([1, 2], true) := by
    decide +kernel
  obtain ⟨t, h, heq⟩ := runFrom_of_map hrun
  obtain ⟨hlengths, hid⟩ := Prod.mk.inj heq
  obtain ⟨hstacked, henter⟩ := levels_stacked (reach_runFrom h)
  exact ⟨t, reach_runFrom h, hlengths, hid, hstacked, henter { thread := ⟨1⟩, sp := ⟨985⟩ } ⟨1⟩ hid⟩

end Tracker
end CallGraph
