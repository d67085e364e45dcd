/-
  CallGraph.Proofs.Searching — the nearest frame that a return matches, and the frames that are left for it.

  A return that is level with the top frame is looked for in the run of frames on top that are recorded at the stack
  pointer. What is found is the nearest one of the run that returns to the target (`returnDepth_eq_some_iff`). How many
  frames are left for it is counted before the first one is popped. A loop that looks at the top frame again after
  every pop leaves as many (`unwinding_iff`), for a handler that is left on the way has no frame of its own any more
  (`popCall_takes`). All of this holds of any frames, whatever the order they are recorded in
  (`nearest_match_left`).
-/

import Mathlib.Order.Bounds.Defs
import CallGraph.Proofs.Recognising

namespace CallGraph

/-! ## The search -/

section Frames

variable {sp target : Addr} {frames : List Frame} {top : Frame} {k : Nat}

/-- The places, counted from one, of the frames that return to the target in the run at the stack pointer. -/
def places (sp target : Addr) (frames : List Frame) : Set Nat :=
  {k | ∃ i f, k = i + 1 ∧ (level sp frames)[i]? = some f ∧ f.returnTo = target}

theorem le_of_mem_places (h : k ∈ places sp target frames) : k ≤ (level sp frames).length := by
  obtain ⟨i, f, rfl, hf, -⟩ := h
  exact (List.getElem?_eq_some_iff.mp hf).1

/-- The search of the run ends at the first place. -/
theorem findIdx?_level_iff {i : Nat} :
    (level sp frames).findIdx? (fun f => f.returnTo = target) = some i ↔ IsLeast (places sp target frames) (i + 1) := by
  rw [List.findIdx?_eq_some_iff_getElem]
  constructor
  · rintro ⟨hi, hto, hbefore⟩
    refine ⟨⟨i, _, rfl, List.getElem?_eq_getElem hi, of_decide_eq_true hto⟩, ?_⟩
    rintro _ ⟨j, f, rfl, hj, hto'⟩
    by_contra hlt
    obtain ⟨_, rfl⟩ := List.getElem?_eq_some_iff.mp hj
    exact hbefore j (by omega) (decide_eq_true hto')
  · rintro ⟨⟨j, f, hij, hf, hto⟩, hleast⟩
    obtain rfl : i = j := Nat.succ.inj hij
    obtain ⟨hi, rfl⟩ := List.getElem?_eq_some_iff.mp hf
    refine ⟨hi, decide_eq_true hto, fun j hj hto' => ?_⟩
    have hle : i + 1 ≤ j + 1 := hleast ⟨j, _, rfl, List.getElem?_eq_getElem _, of_decide_eq_true hto'⟩
    omega

theorem returnDepth_eq_some_iff (htop : frames.head? = some top) (hsp : top.sp = sp) :
    returnDepth frames sp target = some k ↔ IsLeast (places sp target frames) k := by
  rw [returnDepth_level htop hsp, Option.map_eq_some_iff]
  constructor
  · rintro ⟨i, hi, rfl⟩
    exact findIdx?_level_iff.mp hi
  · intro hleast
    obtain ⟨i, -, rfl, -⟩ := hleast.1
    exact ⟨i, findIdx?_level_iff.mpr hleast, rfl⟩

theorem returnDepth_eq_none_iff (htop : frames.head? = some top) (hsp : top.sp = sp) :
    returnDepth frames sp target = none ↔ places sp target frames = ∅ := by
  rw [returnDepth_level htop hsp, Option.map_eq_none_iff, List.findIdx?_eq_none_iff, Set.eq_empty_iff_forall_notMem]
  constructor
  · rintro hnone _ ⟨i, f, -, hf, hto⟩
    exact of_decide_eq_false (hnone f (List.mem_of_getElem? hf)) hto
  · intro hempty f hf
    obtain ⟨i, hi, rfl⟩ := List.getElem_of_mem hf
    exact decide_eq_false fun hto => hempty (i + 1) ⟨i, _, rfl, List.getElem?_eq_getElem hi, hto⟩

/-- Frames at the stack pointer are left down to a place, and those below it that come next. -/
theorem leftBehind_of_place (h : k ∈ places sp target frames) :
    leftBehind sp k frames = k + leftBehind sp 0 (frames.drop k) := by
  rw [leftBehind_level (le_of_mem_places h), leftBehind_zero]

end Frames

namespace Tracker

variable {config : Config} {t t' t₁ : Tracker} {sp target : Addr} {m n : Nat}

/-! ## One pop, in whatever state -/

/-- The `n` frames on top of the running thread were taken off, and counted as returns. -/
structure Takes (n : Nat) (t t' : Tracker) : Prop where
  enough : n ≤ t.thread.shadow.depth
  frames : t'.thread.shadow.frames = t.thread.shadow.frames.drop n
  returns : t'.stats.returns = t.stats.returns + n

theorem Takes.refl (t : Tracker) : Takes 0 t t := ⟨Nat.zero_le _, rfl, rfl⟩

theorem Takes.trans (h : Takes m t t₁) (h' : Takes n t₁ t') : Takes (m + n) t t' := by
  obtain ⟨henough, hframes, hreturns⟩ := h
  obtain ⟨henough', hframes', hreturns'⟩ := h'
  refine ⟨?_, by rw [hframes', hframes, List.drop_drop], by rw [hreturns', hreturns, Nat.add_assoc]⟩
  rw [ShadowStack.depth, hframes, List.length_drop] at henough'
  rw [ShadowStack.depth] at henough ⊢
  omega

theorem popFrame_takes (h : t.popFrame = .ok t') : Takes 1 t t' := by
  obtain ⟨f, s, t₁, hcons, hleave, rfl⟩ := popFrame_eq h
  -- Closing an activation does not touch the frames that are left.
  obtain ⟨F, L, rfl⟩ : ∃ F L, t₁ = { t.setThread s with functions := F, ledger := L } := by
    rcases hleave with rfl | ⟨fn, hleave⟩
    · exact ⟨_, _, rfl⟩
    · obtain ⟨F, L, rfl, -⟩ := leaveFunction_eq hleave
      exact ⟨F, L, rfl⟩
  refine ⟨?_, ?_, rfl⟩
  · rw [ShadowStack.depth, hcons]
    exact Nat.succ_pos _
  · rw [hcons]
    rfl

/-- A handler without a frame of its own takes none with it. -/
theorem leaveHandler_takes {hd : Handler} {handlers : List Handler} (hh : t.thread.handlers = hd :: handlers)
    (hb : hd.bottom = t.thread.shadow.depth) (h : t.leaveHandler = .ok t') :
    Takes 0 t t' ∧ t'.thread.handlers = handlers ∧ t'.thread.exec = hd.interrupted := by
  simp only [leaveHandler, hh, hb, Nat.sub_self, popFrames, pure_eq_ok, ok_bind] at h
  obtain ⟨t₁, hcontext, h⟩ := bind_eq_ok.mp h
  obtain ⟨fns, -, h⟩ := bind_eq_ok.mp h
  obtain ⟨F, L, rfl, -⟩ := leaveContext_eq hcontext
  cases h
  exact ⟨⟨Nat.zero_le _, rfl, rfl⟩, rfl, rfl⟩

theorem leaveExhausted_takes (handlers : List Handler) (hh : t.thread.handlers = handlers)
    (h : leaveHandlers (ThreadState.exhaustedHandlers t.thread.shadow.depth t.thread.exec.signal handlers) t = .ok t') :
    Takes 0 t t' := by
  induction handlers generalizing t with
  | nil =>
    cases h
    exact .refl _
  | cons hd handlers ih =>
    rw [ThreadState.exhaustedHandlers] at h
    split at h
    · rename_i hleft
      obtain ⟨t₁, hleave, h⟩ := bind_eq_ok.mp h
      obtain ⟨hnone, hh₁, hexec⟩ := leaveHandler_takes hh hleft.2 hleave
      have hdepth : t₁.thread.shadow.depth = t.thread.shadow.depth := congrArg List.length hnone.frames
      refine hnone.trans (ih hh₁ ?_)
      rw [hdepth, hexec]
      exact h
    · cases h
      exact .refl _

/-- A pop takes one frame, however many handlers it leaves. -/
theorem popCall_takes (h : t.popCall = .ok t') : Takes 1 t t' := by
  obtain ⟨t₁, hleaves, hpop⟩ := bind_eq_ok.mp h
  exact (leaveExhausted_takes _ rfl hleaves).trans (popFrame_takes hpop)

/-! ## Pops in a loop -/

/-- A frame is left behind: it is recorded below the stack pointer, or at it while frames there have to be left. -/
def Left (sp : Addr) (atLevel : Nat) (f : Frame) : Prop := f.sp < sp ∨ f.sp = sp ∧ 0 < atLevel

theorem leftBehind_of_left {f : Frame} {frames : List Frame} (h : Left sp m f) :
    leftBehind sp m (f :: frames) = leftBehind sp (m - 1) frames + 1 := by
  rw [leftBehind]
  exact if_pos h

theorem leftBehind_of_stays {f : Frame} {frames : List Frame} (h : ¬Left sp m f) :
    leftBehind sp m (f :: frames) = 0 := by
  rw [leftBehind]
  exact if_neg h

/-- Unwinding as a loop, which looks at the top frame before every pop. Every pop counts against `atLevel`, and `n` is
how many there were. -/
inductive Unwinding (sp : Addr) : Nat → Tracker → Nat → Tracker → Prop
  | stop {atLevel : Nat} {t : Tracker} : (∀ f, t.thread.shadow.top? = some f → ¬Left sp atLevel f) →
      Unwinding sp atLevel t 0 t
  | pop {atLevel n : Nat} {t t₁ t' : Tracker} {f : Frame} : t.thread.shadow.top? = some f → Left sp atLevel f →
      t.popCall = .ok t₁ → Unwinding sp (atLevel - 1) t₁ n t' → Unwinding sp atLevel t (n + 1) t'

theorem Unwinding.takes (h : Unwinding sp m t n t') : Takes n t t' := by
  induction h with
  | stop => exact .refl _
  | pop _ _ hpop _ ih =>
    rw [Nat.add_comm]
    exact (popCall_takes hpop).trans ih

/-- The loop pops what was counted as left behind before the first pop. -/
theorem unwinding_iff : Unwinding sp m t n t' ↔
    n = leftBehind sp m t.thread.shadow.frames ∧ popCalls n t = .ok t' := by
  constructor
  · intro h
    -- By induction on the loop: what is popped was counted.
    induction h with
    | stop hstays =>
      refine ⟨?_, rfl⟩
      rename_i atLevel t
      cases hf : t.thread.shadow.frames with
      | nil => rfl
      | cons f frames => rw [leftBehind_of_stays (hstays f (congrArg List.head? hf))]
    | pop htop hleft hpop _ ih =>
      obtain ⟨hn, hpops⟩ := ih
      obtain ⟨frames, hf⟩ := List.head?_eq_some_iff.mp htop
      rw [(popCall_takes hpop).frames, hf] at hn
      refine ⟨?_, by simp only [popCalls, hpop, ok_bind, hpops]⟩
      rw [hf, leftBehind_of_left hleft, hn]
      rfl
  · rintro ⟨hn, hpops⟩
    -- By induction on the count: what is counted is left, so the loop pops it.
    induction n generalizing t m with
    | zero =>
      cases hpops
      refine .stop fun f htop hleft => ?_
      obtain ⟨frames, hf⟩ := List.head?_eq_some_iff.mp htop
      rw [hf, leftBehind_of_left hleft] at hn
      cases hn
    | succ n ih =>
      obtain ⟨t₁, hpop, hpops⟩ := bind_eq_ok.mp hpops
      cases hf : t.thread.shadow.frames with
      | nil =>
        rw [hf] at hn
        cases hn
      | cons f frames =>
        by_cases hleft : Left sp m f
        · have hf₁ : t₁.thread.shadow.frames = frames := by
            rw [(popCall_takes hpop).frames, hf]
            rfl
          rw [hf, leftBehind_of_left hleft] at hn
          exact .pop (congrArg List.head? hf) hleft hpop (ih (hf₁ ▸ Nat.succ.inj hn) hpops)
        · rw [hf, leftBehind_of_stays hleft] at hn
          cases hn

/-- In every state that can be reached the loop comes to its end, on every thread. -/
theorem unwinding_ends (h : Reach config t) (u : ThreadId) (x : Transfer) (sp : Addr) (m : Nat) :
    ∃ n t', Unwinding sp m ((t.switchTo u).countTransfer x) n t' := by
  have hcounted : ((t.switchTo u).countTransfer x).Sound := ((reach_inv h).1.switchTo u).counted x
  obtain ⟨t', hpops, -⟩ := popCalls_ok _ hcounted (leftBehind_le sp m _)
  exact ⟨_, t', unwinding_iff.mpr ⟨rfl, hpops⟩⟩

/-! ## A return that is level with the top frame -/

/-- What is left of a stack for a return that has to leave `k` frames at the stack pointer. -/
structure Leaves (s : ShadowStack) (sp target : Addr) (k : Nat) : Prop where
  /-- What a block does that is entered by the return, where the thread or handler has a frame. -/
  pops : ∀ rule d (block : Block) bottom t t', d.kind = .ret → block.addr = target → bottom < s.depth →
    t.thread.shadow = s → (popCalls (Transfer.classify rule (some d) block sp s.frames bottom).pops t = .ok t' ↔
      ∃ n, Unwinding sp k t n t')
  /-- In whatever state it ends, at least `k` frames were taken off. -/
  takes : ∀ t n t', t.thread.shadow = s → Unwinding sp k t n t' → k ≤ n ∧ Takes n t t'
  /-- No other frame is, unless the next one is recorded below the stack pointer. -/
  noOther : ∀ t n t', t.thread.shadow = s → Unwinding sp k t n t' → (∀ f, s.frames[k]? = some f → ¬f.sp < sp) → n = k
  /-- It does end in every state that can be reached, on every thread that has this stack. -/
  ends : ∀ config t u x, Reach config t → (t.state u).shadow = s →
    ∃ n t', Unwinding sp k ((t.switchTo u).countTransfer x) n t' ∧ t'.thread.shadow.frames = s.frames.drop n

theorem leaves_of_returnDepth {s : ShadowStack} {top : Frame} {k : Nat} (htop : s.top? = some top) (hsp : top.sp = sp)
    (hk : s.returnDepth sp target = some k) : Leaves s sp target k := by
  have hplace : k ∈ places sp target s.frames := ((returnDepth_eq_some_iff htop hsp).mp hk).1
  -- The loop takes the frames down to the match, and those left behind from there on.
  have hcount : ∀ {t n t'}, t.thread.shadow = s → Unwinding sp k t n t' →
      n = k + leftBehind sp 0 (s.frames.drop k) := by
    rintro t n t' rfl h
    rw [(unwinding_iff.mp h).1, leftBehind_of_place hplace]
  refine ⟨fun rule d block bottom t t' hret hto hown hs => ?_, fun t n t' hs h => ⟨?_, h.takes⟩,
    fun t n t' hs h hnext => ?_, fun config t u x hreach hs => ?_⟩
  · have hmin : Transfer.minPops s.frames sp block.addr = some k := by
      rw [Transfer.minPops_eq htop, hto]
      exact hk
    have hpops : (Transfer.classify rule (some d) block sp s.frames bottom).pops = leftBehind sp k s.frames := by
      have hown' : ¬s.frames.length ≤ bottom := Nat.not_le.mpr hown
      simp only [Transfer.classify, hret, hmin, Transfer.ofReturn, if_neg hown']
    rw [hpops, ← hs]
    constructor
    · exact fun h => ⟨_, unwinding_iff.mpr ⟨rfl, h⟩⟩
    · rintro ⟨n, h⟩
      obtain ⟨rfl, h⟩ := unwinding_iff.mp h
      exact h
  · rw [hcount hs h]
    exact Nat.le_add_right ..
  · have hnone : leftBehind sp 0 (s.frames.drop k) = 0 := by
      rw [leftBehind_eq_zero, List.head?_drop]
      exact hnext
    rw [hcount hs h, hnone, Nat.add_zero]
  · obtain ⟨n, t', h⟩ := unwinding_ends hreach u x sp k
    have hshadow : ((t.switchTo u).countTransfer x).thread.shadow = s := by
      rw [← hs, ← thread_switchTo_state]
      rfl
    exact ⟨n, t', h, hshadow ▸ h.takes.frames⟩

/-- What a return matches is searched for as it should be, in every stack, whatever order its frames are recorded in:
the nearest frame level with the stack pointer that returns to the target. The frames down to that one are left. -/
theorem nearest_match_left (s : ShadowStack) (sp target : Addr) :
    (s.top? = none → s.returnDepth sp target = none) ∧
    ∀ top, s.top? = some top →
      (sp < top.sp → s.returnDepth sp target = none) ∧
      (top.sp < sp → s.returnDepth sp target = some 1) ∧
      (top.sp = sp → (s.returnDepth sp target = none ↔ places sp target s.frames = ∅) ∧
        ∀ k, s.returnDepth sp target = some k ↔ IsLeast (places sp target s.frames) k) ∧
      (top.sp = sp → ∀ k, s.returnDepth sp target = some k → Leaves s sp target k) := by
  refine ⟨fun hnone => ?_, fun top htop => ⟨returnDepth_above htop, returnDepth_below htop,
    fun hsp => ⟨?_, fun k => ?_⟩, fun hsp k hk => leaves_of_returnDepth htop hsp hk⟩⟩
  · rw [ShadowStack.returnDepth, List.head?_eq_none_iff.mp hnone]
    rfl
  · exact returnDepth_eq_none_iff htop hsp
  · exact returnDepth_eq_some_iff htop hsp

/-- Four calls, of which the last three leave the stack pointer where it is. -/
def stillRun : List Op :=
  [.registerFunction "main" ⟨0⟩, .registerFunction "f" ⟨0⟩, .registerFunction "g" ⟨0⟩, .registerFunction "h" ⟨0⟩,
    .registerBlock (callBlock 100 ⟨0⟩), .registerBlock (callBlock 200 ⟨1⟩), .registerBlock (callBlock 300 ⟨2⟩),
    .registerBlock (callBlock 400 ⟨3⟩),
    .enterBlock { thread := ⟨1⟩, sp := ⟨1000⟩ } ⟨0⟩, .enterBlock { thread := ⟨1⟩, sp := ⟨995⟩ } ⟨1⟩,
    .enterBlock { thread := ⟨1⟩, sp := ⟨990⟩ } ⟨2⟩, .enterBlock { thread := ⟨1⟩, sp := ⟨990⟩ } ⟨3⟩,
    .enterBlock { thread := ⟨1⟩, sp := ⟨990⟩ } ⟨3⟩]

/-- Three frames are left for a return to the second function. None are for a return to the first one, whose frame
is recorded at another level. -/
theorem nearest_match_left_stillRun :
    ∃ t t', Reach fewBuckets t ∧
      (t.state ⟨1⟩).shadow.frames.map Frame.mark =
        [(⟨990⟩, ⟨405⟩), (⟨990⟩, ⟨305⟩), (⟨990⟩, ⟨205⟩), (⟨995⟩, ⟨105⟩)] ∧
      IsLeast (places ⟨990⟩ ⟨205⟩ (t.state ⟨1⟩).shadow.frames) 3 ∧
      places ⟨990⟩ ⟨105⟩ (t.state ⟨1⟩).shadow.frames = ∅ ∧
      Unwinding ⟨990⟩ 3 ((t.switchTo ⟨1⟩).countTransfer { pops := 3, enters := false, sp := ⟨990⟩ }) 3 t' ∧
      t'.thread.shadow.frames.map Frame.mark = [(⟨995⟩, ⟨105⟩)] := by
  have hrun : (runFrom fewBuckets stillRun).map (fun t =>
      ((t.state ⟨1⟩).shadow.frames.map Frame.mark, (t.state ⟨1⟩).shadow.returnDepth ⟨990⟩ ⟨205⟩,
        (t.state ⟨1⟩).shadow.returnDepth ⟨990⟩ ⟨105⟩)) =
      .ok ([(⟨990⟩, ⟨405⟩), (⟨990⟩, ⟨305⟩), (⟨990⟩, ⟨205⟩), (⟨995⟩, ⟨105⟩)], some 3, none) := by decide +kernel
  obtain ⟨t, hr, h⟩ := runFrom_of_map hrun
  obtain ⟨hframes, h⟩ := Prod.mk.inj h
  obtain ⟨hdepth, hnone⟩ := Prod.mk.inj h
  obtain ⟨top, frames, hcons, htop, -⟩ := List.map_eq_cons_iff.mp hframes
  have hsp : top.sp = ⟨990⟩ := congrArg Prod.fst htop
  have htop : (t.state ⟨1⟩).shadow.top? = some top := congrArg List.head? hcons
  obtain ⟨-, -, hlevel, hleft⟩ := (nearest_match_left (t.state ⟨1⟩).shadow ⟨990⟩ ⟨205⟩).2 top htop
  obtain ⟨hnone', -⟩ := ((nearest_match_left (t.state ⟨1⟩).shadow ⟨990⟩ ⟨105⟩).2 top htop).2.2.1 hsp
  have hleaves := hleft hsp 3 hdepth
  obtain ⟨n, t', hunwinds, hframes'⟩ :=
    hleaves.ends _ t ⟨1⟩ { pops := 3, enters := false, sp := ⟨990⟩ } (reach_runFrom hr) rfl
  have hn : n = 3 := by
    refine hleaves.noOther _ n t' (thread_switchTo_state t ⟨1⟩ ▸ rfl) hunwinds fun f hf => ?_
    have hmark : ((t.state ⟨1⟩).shadow.frames.map Frame.mark)[3]? = some f.mark := by rw [List.getElem?_map, hf]; rfl
    rw [hframes] at hmark
    have hf : f.sp = ⟨995⟩ := congrArg Prod.fst (Option.some.inj hmark).symm
    rw [hf]
    decide
  subst hn
  refine ⟨t, t', reach_runFrom hr, hframes, ((hlevel hsp).2 3).mp hdepth, hnone'.mp hnone, hunwinds, ?_⟩
  rw [hframes', List.map_drop, hframes]
  rfl

end Tracker
end CallGraph
