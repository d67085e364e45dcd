/-
  CallGraph.Proofs.Bracketing — where skipped code was entered.

  A thread inside skipped code keeps the anchor that its calls are billed to, and every frame keeps
  what the thread had kept when the frame was pushed. These marks belong to heights of the shadow
  stack: the mark at a height is set exactly if the frame right under it is a skipped one, where a
  handler starts anew (`SkippedUnder`). It goes back to the lowest of the skipped frames that the
  height stands on (`SkipRun`): no matter which calls and handlers came and went since, it is the
  anchor that had run last when that frame was pushed.
  - `Story.Bracketed`: what each call of a story says about this. A block, a handler and leaving
    either keep it.
  - `skips_bracketed`: the marks of every thread, in every run that discards nothing.
-/

import CallGraph.Proofs.Finishing
import CallGraph.Proofs.Handles
import CallGraph.Proofs.Transferring

namespace CallGraph

/-! ## Heights of the shadow stack -/

/-- The frame that has `k` frames under it. -/
def frameAt (frames : List Frame) (k : Nat) : Option Frame := frames.reverse[k]?

/-- The mark at a height: that of the frame there or, on top, that of the thread. -/
def markAt (frames : List Frame) (costed : Option AnchorId) (k : Nat) : Option AnchorId :=
  if k = frames.length then costed else (frameAt frames k).bind (·.costed)

/-- No handler started between two heights. -/
def SameRegion (handlers : List Handler) (i k : Nat) : Prop := ∀ h ∈ handlers, h.bottom ≤ i ↔ h.bottom ≤ k

/-- Right under a height, in the same region, is a skipped frame. -/
def SkippedUnder (frames : List Frame) (handlers : List Handler) (k : Nat) : Prop :=
  ∃ i f, k = i + 1 ∧ frameAt frames i = some f ∧ f.arc = none ∧ SameRegion handlers i k

/-- The skipped frames that a height stands on start at height `j`. -/
structure SkipRun (frames : List Frame) (handlers : List Handler) (j k : Nat) : Prop where
  nonempty : j < k
  skipped : ∀ i, j < i → i ≤ k → SkippedUnder frames handlers i
  lowest : ¬SkippedUnder frames handlers j

section Heights

variable {frames frames' : List Frame} {handlers handlers' : List Handler} {f : Frame} {i j k : Nat}

theorem frameAt_cons_of_lt (hi : i < frames.length) : frameAt (f :: frames) i = frameAt frames i := by
  rw [frameAt, List.reverse_cons, List.getElem?_append_left (by rw [List.length_reverse]; exact hi), frameAt]

theorem frameAt_cons_length : frameAt (f :: frames) frames.length = some f := by
  rw [frameAt, List.reverse_cons, ← List.length_reverse]
  exact List.getElem?_concat_length

theorem lt_of_frameAt (h : frameAt frames i = some f) : i < frames.length := by
  rw [← List.length_reverse]
  exact (List.getElem?_eq_some_iff.mp h).1

theorem markAt_length (costed : Option AnchorId) : markAt frames costed frames.length = costed := if_pos rfl

theorem markAt_of_frame {costed : Option AnchorId} (h : frameAt frames k = some f) :
    markAt frames costed k = f.costed := by
  rw [markAt, if_neg (Nat.ne_of_lt (lt_of_frameAt h)), h, Option.bind_some]

theorem markAt_of_lt (costed costed' : Option AnchorId) (hk : k < frames.length) :
    markAt frames costed k = markAt frames costed' k := by
  rw [markAt, markAt, if_neg (Nat.ne_of_lt hk), if_neg (Nat.ne_of_lt hk)]

/-- Under a frame the mark is what the frame keeps. -/
theorem markAt_cons (costed : Option AnchorId) (hk : k ≤ frames.length) :
    markAt (f :: frames) costed k = markAt frames f.costed k := by
  obtain hlt | rfl := Nat.lt_or_eq_of_le hk
  · rw [markAt, markAt, if_neg (by simp only [List.length_cons]; omega), if_neg (Nat.ne_of_lt hlt),
      frameAt_cons_of_lt hlt]
  · rw [markAt_of_frame frameAt_cons_length, markAt_length]

theorem le_of_markAt {costed : Option AnchorId} {a : AnchorId} (h : markAt frames costed k = some a) :
    k ≤ frames.length := by
  unfold markAt at h
  split at h
  · omega
  · obtain ⟨f, hf, -⟩ := Option.bind_eq_some_iff.mp h
    exact Nat.le_of_lt (lt_of_frameAt hf)

theorem not_skippedUnder_zero : ¬SkippedUnder frames handlers 0 := by
  rintro ⟨_, _, ⟨⟩, -⟩

theorem skippedUnder_cons (hk : k ≤ frames.length) :
    SkippedUnder (f :: frames) handlers k ↔ SkippedUnder frames handlers k := by
  refine exists_congr fun i => exists_congr fun g => and_congr_right fun e => ?_
  rw [frameAt_cons_of_lt (by omega)]

/-- All handlers started at the height of the frame on top or under it. -/
theorem skippedUnder_top (hbottom : ∀ h ∈ handlers, h.bottom ≤ frames.length) :
    SkippedUnder (f :: frames) handlers (frames.length + 1) ↔ f.arc = none := by
  constructor
  · rintro ⟨i, g, e, hg, harc, -⟩
    cases Nat.succ.inj e
    rw [frameAt_cons_length] at hg
    cases hg
    exact harc
  · intro harc
    refine ⟨frames.length, f, rfl, frameAt_cons_length, harc, fun h hh => ?_⟩
    have := hbottom h hh
    omega

/-- A handler starts a region where the frames end. -/
theorem skippedUnder_handler {h : Handler} (hbottom : h.bottom = frames.length) (hk : k ≤ frames.length) :
    SkippedUnder frames (h :: handlers) k ↔ SkippedUnder frames handlers k ∧ k < frames.length := by
  constructor
  · rintro ⟨i, g, rfl, hg, harc, hregion⟩
    have hnew := hregion h (List.mem_cons_self ..)
    refine ⟨⟨i, g, rfl, hg, harc, fun h' hh' => hregion h' (List.mem_cons_of_mem h hh')⟩, ?_⟩
    omega
  · rintro ⟨⟨i, g, rfl, hg, harc, hregion⟩, hlt⟩
    refine ⟨i, g, rfl, hg, harc, fun h' hh' => ?_⟩
    rcases List.mem_cons.mp hh' with rfl | hh'
    · omega
    · exact hregion h' hh'

theorem SkipRun.congr (h : SkipRun frames handlers j k)
    (hunder : ∀ i ≤ k, SkippedUnder frames' handlers' i ↔ SkippedUnder frames handlers i) :
    SkipRun frames' handlers' j k where
  nonempty := h.nonempty
  skipped := fun i hj hk => (hunder i hk).mpr (h.skipped i hj hk)
  lowest := fun hj => h.lowest ((hunder j (Nat.le_of_lt h.nonempty)).mp hj)

/-- One skipped frame more on top. -/
theorem SkipRun.succ (h : SkipRun frames handlers j k) (hk : SkippedUnder frames handlers (k + 1)) :
    SkipRun frames handlers j (k + 1) where
  nonempty := Nat.lt_succ_of_lt h.nonempty
  skipped := by
    intro i hj hi
    obtain hlt | rfl := Nat.lt_or_eq_of_le hi
    · exact h.skipped i hj (Nat.le_of_lt_succ hlt)
    · exact hk
  lowest := h.lowest

theorem SkipRun.single (hk : ¬SkippedUnder frames handlers k) (hk' : SkippedUnder frames handlers (k + 1)) :
    SkipRun frames handlers k (k + 1) where
  nonempty := Nat.lt_succ_self k
  skipped := by
    intro i hj hi
    cases Nat.le_antisymm hi hj
    exact hk'
  lowest := hk

end Heights

/-! ## Stories -/

namespace Story

variable {κ ι α : Type} {origin origin' : Nat → α → Prop} {s : Story κ ι α}

/-- The marks of the calls of a story, where `origin k a` says that a frame was pushed at height `k` when `a`
had run last. -/
inductive Bracketed (origin : Nat → α → Prop) : Story κ ι α → Prop
  | fresh : Bracketed origin fresh
  | first (fn : FnId) (context : κ) {before : Story κ ι α} :
      Bracketed origin before → Bracketed origin (first fn context before)
  | costed {c : OpenCall α} (context : κ) (kept : ι) {before : Story κ ι α} :
      c.skipped = false → c.costed = none → Bracketed origin before → Bracketed origin (call c context kept before)
  /-- Skipped code is entered. -/
  | outer {c : OpenCall α} {a : α} (context : κ) (kept : ι) {before : Story κ ι α} :
      c.skipped = true → c.costed = some a → before.costed = none → origin before.depth a →
      Bracketed origin before → Bracketed origin (call c context kept before)
  /-- A skipped call in skipped code. -/
  | inner {c : OpenCall α} {a : α} (context : κ) (kept : ι) {before : Story κ ι α} :
      c.skipped = true → c.costed = some a → before.costed = some a →
      Bracketed origin before → Bracketed origin (call c context kept before)
  | handler (signal : Int) (last : Option α) (passed : Nat) {before : Story κ ι α} :
      Bracketed origin before → Bracketed origin (handler signal last passed before)

namespace Bracketed

/-- Only the heights of frames matter. -/
theorem mono (h : s.Bracketed origin) (himp : ∀ k a, k < s.depth → origin k a → origin' k a) :
    s.Bracketed origin' := by
  induction h with
  | fresh => exact .fresh
  | first fn context _ ih => exact .first fn context (ih himp)
  | costed context kept hskip hcosted _ ih =>
    exact .costed context kept hskip hcosted (ih fun k a hk => himp k a (Nat.lt_succ_of_lt hk))
  | outer context kept hskip hcosted hbefore horigin _ ih =>
    exact .outer context kept hskip hcosted hbefore (himp _ _ (Nat.lt_succ_self _) horigin)
      (ih fun k a hk => himp k a (Nat.lt_succ_of_lt hk))
  | inner context kept hskip hcosted hbefore _ ih =>
    exact .inner context kept hskip hcosted hbefore (ih fun k a hk => himp k a (Nat.lt_succ_of_lt hk))
  | handler signal last passed _ ih => exact .handler signal last passed (ih himp)

theorem leave (h : s.Bracketed origin) : s.leave.story.Bracketed origin := by
  induction h with
  | fresh => exact .fresh
  | first _ _ _ ih | costed _ _ _ _ _ ih | outer _ _ _ _ _ _ _ ih | inner _ _ _ _ _ _ ih => exact ih
  | handler _ _ _ h _ => exact h

theorem popCall (h : s.Bracketed origin) (last : Option α) (passed : Nat) :
    (s.popCall last passed).story.Bracketed origin := by
  induction h generalizing last passed with
  | fresh => exact .fresh
  | first _ _ _ ih | handler _ _ _ _ ih => exact ih _ _
  | costed _ _ _ _ h _ | outer _ _ _ _ _ _ h _ | inner _ _ _ _ _ h _ => exact h

theorem popCalls (n : Nat) {sc : Scene κ ι α} (h : sc.story.Bracketed origin) :
    (sc.popCalls n).story.Bracketed origin := by
  induction n generalizing sc with
  | zero => exact h
  | succ n ih => exact ih (h.popCall _ _)

/-- Without a frame there is nothing to say. -/
theorem of_bare (h : s.depth = 0) : s.Bracketed origin := by
  induction s with
  | fresh => exact .fresh
  | first fn context _ ih => exact .first fn context (ih h)
  | call => cases h
  | handler signal last passed _ ih => exact .handler signal last passed (ih h)

/-- A block keeps it, where a frame that it pushes comes from the anchor that ran last. -/
theorem enter {blockOf : α → Option Block} {rule : TailCallRule} {skip : Bool} {target : Block} {sp : Addr}
    {me : α} {context : κ} {kept : ι} {sc : Scene κ ι α} (h : sc.story.Bracketed origin)
    (hcall : (sc.transfer blockOf rule target sp).enters = true → ∀ a, sc.last = some a → origin sc.story.depth a) :
    (sc.enter blockOf rule skip target sp me context kept).story.Bracketed origin := by
  cases hx : (sc.transfer blockOf rule target sp).enters with
  | true =>
    obtain ⟨-, d, hd⟩ := Transfer.of_enters hx
    obtain ⟨b, hb, -⟩ := Option.map_eq_some_iff.mp hd
    obtain ⟨a, hlast, -⟩ := Option.bind_eq_some_iff.mp hb
    rw [Scene.enter_of_enters hx]
    cases skip with
    | false => exact .costed context kept rfl rfl h
    | true =>
      cases hcosted : sc.story.costed with
      | none => exact .outer context kept rfl hlast hcosted (hcall hx a hlast) h
      | some a' => exact .inner context kept rfl rfl hcosted h
  | false =>
    rw [Scene.enter_of_stays hx]
    have hbefore := h.popCalls (sc.transfer blockOf rule target sp).pops
    show Bracketed origin (if _ then _ else _)
    split
    · exact hbefore
    · exact .first _ _ hbefore

end Bracketed

/-! ## The marks of a story -/

section Marks

variable {s s' : Story ContextId Kept AnchorId} {origin : Nat → AnchorId → Prop} {k : Nat}

/-- A handler starts where frames end. -/
theorem bottom_le_depth (s : Story ContextId Kept AnchorId) : ∀ h ∈ s.handlers, h.bottom ≤ s.depth := by
  induction s with
  | fresh => exact fun _ hh => nomatch hh
  | first _ _ _ ih => exact ih
  | call _ _ _ _ ih => exact fun h hh => Nat.le_succ_of_le (ih h hh)
  | handler _ _ _ before ih =>
    intro h hh
    rcases List.mem_cons.mp hh with rfl | hh
    · exact Nat.le_refl _
    · exact ih h hh

/-- A call pushes a frame that keeps the mark under it, and has no arc exactly if it is skipped. -/
theorem frames_call (c : OpenCall AnchorId) (context : ContextId) (kept : Kept)
    (before : Story ContextId Kept AnchorId) : ∃ f, (call c context kept before).frames = f :: before.frames ∧
      f.costed = before.costed ∧ (f.arc = none ↔ c.skipped = true) := by
  refine ⟨_, rfl, ?_⟩
  cases c.skipped with
  | true => exact ⟨rfl, iff_of_true rfl rfl⟩
  | false => exact ⟨rfl, iff_of_false nofun nofun⟩

/-- What the mark at a height is. -/
def Marked (origin : Nat → AnchorId → Prop) (s : Story ContextId Kept AnchorId) (k : Nat) : Prop :=
  ((markAt s.frames s.costed k).isSome = true ↔ SkippedUnder s.frames s.handlers k) ∧
    ∀ a, markAt s.frames s.costed k = some a → ∃ j, SkipRun s.frames s.handlers j k ∧ origin j a

theorem Marked.congr (h : s.Marked origin k) (hmark : markAt s'.frames s'.costed k = markAt s.frames s.costed k)
    (hunder : ∀ i ≤ k, SkippedUnder s'.frames s'.handlers i ↔ SkippedUnder s.frames s.handlers i) :
    s'.Marked origin k := by
  obtain ⟨hsome, hrun⟩ := h
  rw [Marked, hmark, hunder k (Nat.le_refl k)]
  refine ⟨hsome, fun a ha => ?_⟩
  obtain ⟨j, hj, horigin⟩ := hrun a ha
  exact ⟨j, hj.congr hunder, horigin⟩

theorem Marked.of_none (hmark : markAt s.frames s.costed k = none) (hunder : ¬SkippedUnder s.frames s.handlers k) :
    s.Marked origin k := by
  rw [Marked, hmark]
  exact ⟨iff_of_false nofun hunder, nofun⟩

theorem Marked.of_some {j : Nat} {a : AnchorId} (hmark : markAt s.frames s.costed k = some a)
    (hrun : SkipRun s.frames s.handlers j k) (horigin : origin j a) : s.Marked origin k := by
  rw [Marked, hmark]
  refine ⟨iff_of_true rfl (hrun.skipped k hrun.nonempty (Nat.le_refl k)), ?_⟩
  rintro _ ⟨⟩
  exact ⟨j, hrun, horigin⟩

/-- The mark under the frame of a call is the one that was there before. -/
theorem markAt_call (c : OpenCall AnchorId) (context : ContextId) (kept : Kept) (hk : k ≤ s.depth) :
    markAt (call c context kept s).frames (call c context kept s).costed k = markAt s.frames s.costed k := by
  obtain ⟨f, hframes, hcosted, -⟩ := frames_call c context kept s
  rw [← length_frames] at hk
  rw [hframes, markAt_cons _ hk, hcosted]

theorem Marked.call (c : OpenCall AnchorId) (context : ContextId) (kept : Kept) (h : s.Marked origin k)
    (hk : k ≤ s.depth) : (call c context kept s).Marked origin k := by
  obtain ⟨f, hframes, -⟩ := frames_call c context kept s
  refine h.congr (markAt_call c context kept hk) fun i hi => ?_
  rw [hframes]
  exact skippedUnder_cons (by rw [length_frames]; exact Nat.le_trans hi hk)

theorem markAt_depth (s : Story ContextId Kept AnchorId) : markAt s.frames s.costed s.depth = s.costed := by
  rw [← length_frames, markAt_length]

/-- On top of a call there is a skipped frame exactly if the call is skipped. -/
theorem skippedUnder_call (c : OpenCall AnchorId) (context : ContextId) (kept : Kept) :
    SkippedUnder (call c context kept s).frames (call c context kept s).handlers (s.depth + 1) ↔
      c.skipped = true := by
  obtain ⟨f, hframes, -, harc⟩ := frames_call c context kept s
  rw [hframes, ← length_frames, ← harc]
  refine skippedUnder_top fun h hh => ?_
  rw [length_frames]
  exact s.bottom_le_depth h hh

/-- The mark on top of a call is the only new one. -/
theorem marked_call {c : OpenCall AnchorId} {context : ContextId} {kept : Kept}
    (h : ∀ k ≤ s.depth, s.Marked origin k) (htop : (call c context kept s).Marked origin (s.depth + 1)) :
    ∀ k ≤ s.depth + 1, (call c context kept s).Marked origin k := by
  intro k hk
  obtain hlt | rfl := Nat.lt_or_eq_of_le hk
  · exact (h k (Nat.le_of_lt_succ hlt)).call c context kept (Nat.le_of_lt_succ hlt)
  · exact htop

/-- A handler starts without a mark, whatever code it interrupts. -/
theorem Marked.handler (signal : Int) (last : Option AnchorId) (passed : Nat) (h : s.Marked origin k)
    (hk : k ≤ s.depth) : (handler signal last passed s).Marked origin k := by
  have hbottom := s.length_frames.symm
  obtain hlt | rfl := Nat.lt_or_eq_of_le hk
  · rw [← length_frames] at hlt
    refine h.congr (markAt_of_lt none s.costed hlt) fun i hi => ?_
    refine (skippedUnder_handler hbottom (Nat.le_of_lt (Nat.lt_of_le_of_lt hi hlt))).trans ?_
    exact and_iff_left (Nat.lt_of_le_of_lt hi hlt)
  · refine .of_none (markAt_depth _) fun hunder => ?_
    obtain ⟨-, hlt⟩ := (skippedUnder_handler hbottom (Nat.le_of_eq hbottom)).mp hunder
    rw [length_frames] at hlt
    exact Nat.lt_irrefl _ hlt

theorem Bracketed.marked (hb : s.Bracketed origin) (hw : s.WellFormed) : ∀ k ≤ s.depth, s.Marked origin k := by
  induction hb with
  | fresh =>
    intro k hk
    cases Nat.le_zero.mp hk
    exact .of_none rfl not_skippedUnder_zero
  | first fn context _ ih =>
    intro k hk
    obtain ⟨-, -, -, hcosted⟩ := of_not_started hw.1
    refine (ih hw.2 k hk).congr ?_ fun i _ => Iff.rfl
    rw [hcosted]
    rfl
  | costed context kept hskip hcosted _ ih =>
    refine marked_call (ih hw.2) (.of_none ((markAt_depth _).trans hcosted) fun hunder => ?_)
    rw [(skippedUnder_call _ context kept).mp hunder] at hskip
    cases hskip
  | @outer c a context kept before hskip hcosted hbefore horigin _ ih =>
    -- The code before the call is not skipped, so the run of skipped frames starts with this one.
    have hlevel := (ih hw.2 _ (Nat.le_refl _)).call c context kept (Nat.le_refl _)
    have hnone : ¬SkippedUnder (call c context kept before).frames (call c context kept before).handlers
        before.depth := by
      rw [← hlevel.1, markAt_call c context kept (Nat.le_refl _), markAt_depth, hbefore]
      exact nofun
    exact marked_call (ih hw.2) (.of_some ((markAt_depth _).trans hcosted)
      (.single hnone ((skippedUnder_call c context kept).mpr hskip)) horigin)
  | @inner c a context kept before hskip hcosted hbefore _ ih =>
    have hlevel := (ih hw.2 _ (Nat.le_refl _)).call c context kept (Nat.le_refl _)
    obtain ⟨j, hrun, horigin⟩ := hlevel.2 a <| by
      rw [markAt_call c context kept (Nat.le_refl _), markAt_depth, hbefore]
    exact marked_call (ih hw.2) (.of_some ((markAt_depth _).trans hcosted)
      (hrun.succ ((skippedUnder_call c context kept).mpr hskip)) horigin)
  | handler signal last passed _ ih =>
    intro k hk
    exact (ih hw.2 k hk).handler signal last passed hk

/-- The thread is in skipped code exactly if its handler, or the thread where there is none, has a frame and the
one on top is skipped. -/
theorem Bracketed.current (hb : s.Bracketed origin) (hw : s.WellFormed) :
    s.costed.isSome = true ↔ s.bottom < s.depth ∧ ∃ f, s.frames.head? = some f ∧ f.arc = none := by
  cases hb with
  | fresh => exact iff_of_false nofun fun h => Nat.lt_irrefl _ h.1
  | @first _ _ before =>
    obtain ⟨-, hdepth, -⟩ := of_not_started hw.1
    refine iff_of_false nofun fun h => ?_
    have hlt : before.bottom < before.depth := h.1
    omega
  | @costed c context kept before hskip hcosted _ =>
    obtain ⟨f, hframes, -, harc⟩ := frames_call c context kept before
    refine iff_of_false (by rw [Story.costed, hcosted]; exact nofun) ?_
    rintro ⟨-, g, hg, hnone⟩
    rw [hframes] at hg
    cases hg
    rw [harc.mp hnone] at hskip
    cases hskip
  | @outer c a context kept before hskip hcosted _ _ _ | @inner c a context kept before hskip hcosted _ _ =>
    obtain ⟨f, hframes, -, harc⟩ := frames_call c context kept before
    have hlt : before.bottom < before.depth + 1 := Nat.lt_succ_of_le before.bottom_le
    refine iff_of_true (by rw [Story.costed, hcosted]; rfl) ⟨hlt, f, ?_, harc.mpr hskip⟩
    rw [hframes]
    rfl
  | handler => exact iff_of_false nofun fun h => Nat.lt_irrefl _ h.1

end Marks

end Story

namespace Tracker

variable {config : Config} {t t' t₀ t₁ : Tracker} {u : ThreadId} {op : Op} {reply : Reply}
  {trail since : List (Op × Reply)} {k : Nat} {a : AnchorId}

/-! ## Runs without discards -/

/-- An anchor that is live stays live. -/
theorem Span.live {P : Tracker → Prop} (hs : Span P t trail t') (h : t.Inv)
    (hkeep : ∀ id reply, (.discardBlock id, reply) ∉ trail) {x : Anchor} (hx : t.anchors.get? a = some x) :
    Span (fun t => ∃ x, t.anchors.get? a = some x) t trail t' := by
  induction hs generalizing x with
  | here => exact .here ⟨x, hx⟩
  | @step _ _ _ _ reply _ _ hstep _ ih =>
    have g := step_grows h hstep fun id e => hkeep id reply (e ▸ List.mem_cons_self ..)
    obtain ⟨y, hy, -⟩ := g.anchors a x hx
    exact .step ⟨x, hx⟩ hstep (ih (step_inv h hstep).1 (fun id r hm => hkeep id r (List.mem_cons_of_mem _ hm)) hy)

/-! ## Since a frame was pushed -/

/-- The first step pushed the frame that has `k` frames under it, and it has been there since. -/
inductive FrameSince (u : ThreadId) (k : Nat) : Tracker → List (Op × Reply) → Tracker → Prop
  | pushed {t₁ t₂ t : Tracker} {op : Op} {reply : Reply} {after : List (Op × Reply)} :
      t₁.step op = .ok (reply, t₂) → (t₁.state u).shadow.depth = k →
      Span (fun t => k < (t.state u).shadow.depth) t₂ after t → FrameSince u k t₁ ((op, reply) :: after) t

theorem FrameSince.snoc (h : FrameSince u k t₁ since t) (hstep : t.step op = .ok (reply, t'))
    (hk : k < (t'.state u).shadow.depth) : FrameSince u k t₁ (since ++ [(op, reply)]) t' := by
  cases h with
  | pushed hfirst hdepth hafter => exact .pushed hfirst hdepth (hafter.snoc hstep hk)

/-- An anchor that was live when the frame was pushed stands for the same record since. -/
theorem FrameSince.sameRecord (h : FrameSince u k t₁ since t) (h₁ : t₁.Inv)
    (hkeep : ∀ id reply, (.discardBlock id, reply) ∉ since) {x : Anchor} (hx : t₁.anchors.get? a = some x) :
    SameRecord t₁ since t a := by
  cases h with
  | pushed hfirst _ hafter =>
    have hs : Span (fun _ => True) t₁ _ t := .step trivial hfirst (hafter.mono fun _ _ => trivial)
    exact (hs.live h₁ hkeep hx).sameRecord h₁ fun _ _ hlive => hlive

/-- The frame with `k` frames under it was pushed in the run, when `a` had run last on the thread. -/
def CameFrom (t₀ : Tracker) (trail : List (Op × Reply)) (t : Tracker) (u : ThreadId) (k : Nat) (a : AnchorId) :
    Prop :=
  ∃ before since t₁, trail = before ++ since ∧ Span (fun _ => True) t₀ before t₁ ∧ FrameSince u k t₁ since t ∧
    (t₁.state u).exec.anchor = some a

theorem CameFrom.snoc (h : CameFrom t₀ trail t u k a) (hstep : t.step op = .ok (reply, t'))
    (hk : k < (t'.state u).shadow.depth) : CameFrom t₀ (trail ++ [(op, reply)]) t' u k a := by
  obtain ⟨before, since, t₁, rfl, hbefore, hsince, hlast⟩ := h
  exact ⟨before, since ++ [(op, reply)], t₁, List.append_assoc .., hbefore, hsince.snoc hstep hk, hlast⟩

/-! ## One operation -/

theorem step_bracketed (h : t.Inv) (hpast : Span (fun _ => True) t₀ trail t)
    (hstep : t.step op = .ok (reply, t')) (hop : ∀ id, op ≠ .discardBlock id)
    {sc : Scene ContextId Kept AnchorId} (hs : (t.state u).Tells sc)
    (hb : sc.story.Bracketed (CameFrom t₀ trail t u)) :
    ∃ sc', (t'.state u).Tells sc' ∧ sc'.story.Bracketed (CameFrom t₀ (trail ++ [(op, reply)]) t' u) := by
  cases hsweeps : op.sweeps with
  | true =>
    cases step_effect hstep with
    | discardBlock id => exact absurd rfl (hop id)
    | finish hfinish =>
      obtain ⟨sc', hs'⟩ := ((step_inv h hstep).1.state u).1.story
      exact ⟨sc', hs', .of_bare (hs'.depth ▸ finish_bare h hfinish u)⟩
    | _ => cases hsweeps
  | false =>
    obtain ⟨sc', hs', htold⟩ := step_tells h hstep hsweeps u hs
    -- A frame that the operation pops has no later origin, so the origins are carried over under the new depth.
    have hb' : sc'.story.Bracketed fun k a =>
        k < (t'.state u).shadow.depth → CameFrom t₀ (trail ++ [(op, reply)]) t' u k a := by
      have hbefore := hb.mono fun k a _ (hfrom : CameFrom t₀ trail t u k a) => hfrom.snoc hstep
      cases htold with
      | aside e =>
        rw [e]
        exact hbefore
      | block sp id skip b a c kept =>
        refine hbefore.enter fun _ a hlast hk => ⟨trail, _, t, rfl, hpast, .pushed hstep hs.depth (.here hk), ?_⟩
        rw [hs.exec]
        exact hlast
      | signal signal => exact .handler signal sc.last sc.passed hbefore
      | signalReturn => exact hbefore.leave
    exact ⟨sc', hs', hb'.mono fun k a hk hfrom => hfrom (hs'.depth ▸ hk)⟩

theorem Span.bracketed {P : Tracker → Prop} (hrun : Span P t since t') (h : t.Inv)
    (hpast : Span (fun _ => True) t₀ trail t) (hkeep : ∀ id reply, (.discardBlock id, reply) ∉ since)
    {sc : Scene ContextId Kept AnchorId} (hs : (t.state u).Tells sc)
    (hb : sc.story.Bracketed (CameFrom t₀ trail t u)) :
    ∃ sc', (t'.state u).Tells sc' ∧ sc'.story.Bracketed (CameFrom t₀ (trail ++ since) t' u) := by
  induction hrun generalizing trail sc with
  | here =>
    rw [List.append_nil]
    exact ⟨sc, hs, hb⟩
  | @step _ _ _ op reply _ _ hstep _ ih =>
    have hop : ∀ id, op ≠ .discardBlock id := fun id e => hkeep id reply (e ▸ List.mem_cons_self ..)
    obtain ⟨sc₁, hs₁, hb₁⟩ := step_bracketed h hpast hstep hop hs hb
    rw [List.append_cons]
    exact ih (step_inv h hstep).1 (hpast.snoc hstep trivial) (fun id r hm => hkeep id r (List.mem_cons_of_mem _ hm))
      hs₁ hb₁

/-! ## Every reachable state -/

theorem ofConfig_tells (h : ofConfig config = .ok t) (u : ThreadId) : (t.state u).Tells ⟨.fresh, none, 0⟩ := by
  obtain ⟨-, C, -, A, -, rfl⟩ := ofConfig_eq_ok.mp h
  rw [state_of_fresh rfl]
  exact ThreadState.fresh_tells

/-- What the marks on a thread say about its skipped frames. -/
structure SkipBrackets (t₀ : Tracker) (trail : List (Op × Reply)) (t : Tracker) (u : ThreadId) : Prop where
  current : (t.state u).exec.costed.isSome = true ↔ (t.state u).bottom < (t.state u).shadow.depth ∧
    ∃ f, (t.state u).shadow.top? = some f ∧ f.arc = none
  frames : ∀ k f, frameAt (t.state u).shadow.frames k = some f →
    (f.costed.isSome = true ↔ SkippedUnder (t.state u).shadow.frames (t.state u).handlers k)
  /-- The mark is the anchor that had run last on the thread when the lowest of the skipped frames was pushed, and
  still stands for it. After a handler returned, that is the anchor of the code it interrupted. -/
  denotes : ∀ k a, markAt (t.state u).shadow.frames (t.state u).exec.costed k = some a →
    ∃ j, SkipRun (t.state u).shadow.frames (t.state u).handlers j k ∧
      ∃ before since t₁, trail = before ++ since ∧ Span (fun _ => True) t₀ before t₁ ∧ FrameSince u j t₁ since t ∧
        (t₁.state u).exec.anchor = some a ∧ SameRecord t₁ since t a

/-- In every run that discards nothing, the marks of every thread bracket its skipped frames. -/
theorem skips_bracketed (h₀ : ofConfig config = .ok t₀) (hrun : Span (fun _ => True) t₀ trail t)
    (hkeep : ∀ id reply, (.discardBlock id, reply) ∉ trail) (u : ThreadId) : SkipBrackets t₀ trail t u := by
  obtain ⟨hinv₀, -⟩ := ofConfig_inv h₀
  obtain ⟨sc, hs, hb⟩ := hrun.bracketed hinv₀ (.here trivial) hkeep (ofConfig_tells h₀ u) .fresh
  have hmarked := hb.marked hs.wellFormed
  have hcosted : (t.state u).exec.costed = sc.story.costed := by rw [hs.exec]
  have hlength : (t.state u).shadow.frames.length = sc.story.depth := hs.depth
  refine ⟨?_, fun k f hf => ?_, fun k a ha => ?_⟩
  · rw [hcosted, hs.bottom, hs.depth, ShadowStack.top?, hs.frames]
    exact hb.current hs.wellFormed
  · have hk := hmarked k (hlength ▸ Nat.le_of_lt (lt_of_frameAt hf))
    rw [Story.Marked, ← hs.frames, ← hs.handlers, markAt_of_frame hf] at hk
    exact hk.1
  · have hk := hmarked k (hlength ▸ le_of_markAt ha)
    rw [Story.Marked, ← hs.frames, ← hs.handlers, ← hcosted] at hk
    obtain ⟨j, hskips, before, since, t₁, rfl, hbefore, hsince, hlast⟩ := hk.2 a ha
    have h₁ := hbefore.inv hinv₀
    obtain ⟨c, -, x, hx, -⟩ := (h₁.state u).2 a hlast
    refine ⟨j, hskips, before, since, t₁, rfl, hbefore, hsince, hlast, hsince.sameRecord h₁ (fun id r hm => ?_) hx⟩
    exact hkeep id r (List.mem_append_right before hm)

/-- A function calls a skipped one, which calls another. The handler of a signal calls the first one, too. -/
def bracketedRun : List Op :=
  [.registerFunction "main" ⟨0⟩, .registerFunction "memcpy" ⟨0⟩, .registerFunction "memset" ⟨0⟩,
    .registerFunction "handler" ⟨0⟩, .setFunctionSkip ⟨1⟩ true, .setFunctionSkip ⟨2⟩ true,
    .registerBlock (callBlock 100 ⟨0⟩), .registerBlock (callBlock 200 ⟨1⟩), .registerBlock (callBlock 300 ⟨2⟩),
    .registerBlock (callBlock 400 ⟨3⟩), .enterBlock { thread := ⟨1⟩, sp := ⟨1000⟩ } ⟨0⟩,
    .enterBlock { thread := ⟨1⟩, sp := ⟨990⟩ } ⟨1⟩, .enterBlock { thread := ⟨1⟩, sp := ⟨980⟩ } ⟨2⟩,
    .enterHandler ⟨1⟩ 10, .enterBlock { thread := ⟨1⟩, sp := ⟨970⟩ } ⟨3⟩,
    .enterBlock { thread := ⟨1⟩, sp := ⟨960⟩ } ⟨1⟩]

/-- `main` is marked in the code that the signal interrupted, and the handler in what it calls. -/
theorem skips_bracketed_bracketedRun :
    ∃ t₀ trail t, ofConfig fewBuckets = .ok t₀ ∧ Span (fun _ => True) t₀ trail t ∧
      (∀ id reply, (.discardBlock id, reply) ∉ trail) ∧
      (List.range 4).map (markAt (t.state ⟨1⟩).shadow.frames (t.state ⟨1⟩).exec.costed) =
        [none, some ⟨0⟩, none, some ⟨3⟩] ∧
      SkipBrackets t₀ trail t ⟨1⟩ := by
  have hrun : (runFrom fewBuckets bracketedRun).map (fun t =>
      (List.range 4).map (markAt (t.state ⟨1⟩).shadow.frames (t.state ⟨1⟩).exec.costed)) =
      .ok [none, some ⟨0⟩, none, some ⟨3⟩] := by decide +kernel
  obtain ⟨t, hr, hmarks⟩ := runFrom_of_map hrun
  obtain ⟨t₀, h₀, hr⟩ := runFrom_eq_ok hr
  obtain ⟨trail, hops, hs⟩ := Span.of_run hr
  have hkeep : ∀ id reply, (.discardBlock id, reply) ∉ trail := by
    intro id reply hm
    have hop : .discardBlock id ∈ bracketedRun := hops ▸ List.mem_map_of_mem hm
    simp [bracketedRun] at hop
  exact ⟨t₀, trail, t, h₀, hs, hkeep, hmarks, skips_bracketed h₀ hs hkeep ⟨1⟩⟩

end Tracker
end CallGraph
