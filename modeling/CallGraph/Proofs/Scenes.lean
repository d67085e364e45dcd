/-
  CallGraph.Proofs.Scenes — what entering a block does to a story.

  Which calls a block ends and whether it starts one depends on the marks of the story and on the
  block that ran last, and not on any number that was given out. `Scene.enter` says it for stories
  of any kind. What was opened above a part of a story stays above it as long as the transfer ends
  no call of that part (`Over.enter`).
-/

import CallGraph.Proofs.Entering
import CallGraph.Proofs.Story

namespace CallGraph

/-- Where a call through an exit returns to, as far as it is known. -/
def Block.returnTo (b : Block) (exit : Nat) : Addr :=
  match b.returnAddress exit with
  | .ok addr => addr.getD .unknown
  | .error _ => .unknown

theorem Block.returnTo_eq {b : Block} {n : Nat} {o : Option Addr} (h : b.returnAddress n = .ok o) :
    b.returnTo n = o.getD .unknown := by
  rw [returnTo, h]

/-! ## Transfers -/

/-- What the kind of a transfer depends on in a frame. -/
def Frame.mark (f : Frame) : Addr × Addr := (f.sp, f.returnTo)

namespace Transfer

variable {frames frames' : List Frame}

theorem levels_congr (h : frames'.map Frame.mark = frames.map Frame.mark) :
    frames'.map (·.sp) = frames.map (·.sp) := by
  have hfst := congrArg (List.map Prod.fst) h
  rw [List.map_map, List.map_map] at hfst
  exact hfst

theorem leftBehind_congr (h : frames'.map (·.sp) = frames.map (·.sp)) (sp : Addr) (n : Nat) :
    leftBehind sp n frames' = leftBehind sp n frames := by
  induction frames generalizing frames' n with
  | nil => rw [List.map_eq_nil_iff.mp h]
  | cons f frames ih =>
    obtain ⟨f', fs', rfl, hsp, hfs⟩ := List.map_eq_cons_iff.mp h
    simp only [leftBehind, hsp, ih hfs]

theorem matchAt_congr (h : frames'.map Frame.mark = frames.map Frame.mark) (sp target : Addr) :
    matchAt sp target frames' = matchAt sp target frames := by
  induction frames generalizing frames' with
  | nil => rw [List.map_eq_nil_iff.mp h]
  | cons f frames ih =>
    obtain ⟨f', fs', rfl, hf, hfs⟩ := List.map_eq_cons_iff.mp h
    have hsp : f'.sp = f.sp := congrArg Prod.fst hf
    have hto : f'.returnTo = f.returnTo := congrArg Prod.snd hf
    simp only [matchAt, hsp, hto, ih hfs]

theorem returnDepth_congr (h : frames'.map Frame.mark = frames.map Frame.mark) (sp target : Addr) :
    returnDepth frames' sp target = returnDepth frames sp target := by
  have hmatch := matchAt_congr h sp target
  cases frames with
  | nil => rw [List.map_eq_nil_iff.mp h]
  | cons f frames =>
    obtain ⟨f', fs', rfl, hf, -⟩ := List.map_eq_cons_iff.mp h
    have hsp : f'.sp = f.sp := congrArg Prod.fst hf
    simp only [returnDepth, hsp, hmatch]

/-- Where a return is not level with the top frame, no address matters. -/
theorem returnDepth_of_apart (h : frames'.map (·.sp) = frames.map (·.sp)) {sp : Addr}
    (hapart : ∀ f, frames.head? = some f → f.sp ≠ sp) (target : Addr) :
    returnDepth frames' sp target = returnDepth frames sp target := by
  cases frames with
  | nil => rw [List.map_eq_nil_iff.mp h]
  | cons f frames =>
    obtain ⟨f', fs', rfl, hsp, -⟩ := List.map_eq_cons_iff.mp h
    have hsp : f'.sp = f.sp := hsp
    have hne : ¬f.sp.val.toNat = sp.val.toNat := fun e =>
      hapart f rfl (congrArg Addr.mk (UInt64.toNat_inj.mp e))
    simp only [returnDepth, hsp, Addr.lt_iff]
    split
    · rfl
    · split
      · rfl
      · omega

/-- Only the block and the exit that control comes from and the levels of the frames matter, and for a return
how many frames match it. -/
theorem classify_congr {source source' : Option Departure} (hs : source'.map (fun d => (d.block, d.kind)) =
    source.map fun d => (d.block, d.kind)) (h : frames'.map (·.sp) = frames.map (·.sp)) (rule : TailCallRule)
    (target : Block) (sp : Addr) (bottom : Nat) (hto : ∀ d, source = some d → d.kind = .ret →
      returnDepth frames' sp target.addr = returnDepth frames sp target.addr) :
    classify rule source' target sp frames' bottom = classify rule source target sp frames bottom := by
  have hlength : frames'.length = frames.length := by simpa using congrArg List.length h
  have hhead : frames'.head?.map (·.sp) = frames.head?.map (·.sp) := by
    simpa using congrArg List.head? h
  have hempty : frames'.isEmpty = frames.isEmpty := by
    simpa using congrArg List.isEmpty h
  have hjump : ∀ calls promoted returnAsJump,
      ofJump sp frames' calls promoted returnAsJump = ofJump sp frames calls promoted returnAsJump := by
    intro calls promoted returnAsJump
    simp only [ofJump, leftBehind_congr h, hhead]
  have hreturn : ∀ n, ofReturn sp frames' bottom n = ofReturn sp frames bottom n := by
    intro n
    simp only [ofReturn, hlength, leftBehind_congr h]
  cases source with
  | none =>
    have : source' = none := by simpa using hs
    rw [this]
    exact hjump ..
  | some d =>
    obtain ⟨d', rfl, he⟩ := Option.map_eq_some_iff.mp hs
    obtain ⟨hblock, hkind⟩ := Prod.mk.inj he
    cases hd : d.kind with
    | ret => simp only [classify, hkind, hd, minPops, hempty, hto d rfl hd, hjump, hreturn]
    | fallThrough | jump | call => simp only [classify, hblock, hkind, hd, hjump]

variable {rule : TailCallRule} {source : Option Departure} {target : Block} {sp : Addr} {bottom : Nat}

/-- A transfer that enters no function leaves what is below the stack pointer. -/
theorem of_stays (h : (classify rule source target sp frames bottom).enters = false) :
    ∃ n, (classify rule source target sp frames bottom).pops = leftBehind sp n frames := by
  obtain ⟨calls, promoted, returnAsJump, e⟩ | ⟨n, e⟩ := classify_cases rule source target sp frames bottom
  · rw [e]
    exact ⟨0, rfl⟩
  · rw [e] at h ⊢
    unfold ofReturn at h ⊢
    split at h
    · cases h
    · rename_i hle
      exact ⟨n, by rw [if_neg hle]⟩

/-- The frame of a call is at the stack pointer or level with the frame on top. -/
theorem level_of_enters (h : (classify rule source target sp frames bottom).enters = true) :
    (classify rule source target sp frames bottom).sp = sp ∨
      ∃ f, frames.head? = some f ∧ (classify rule source target sp frames bottom).sp = f.sp ∧ ¬f.sp < sp := by
  obtain ⟨calls, promoted, returnAsJump, e⟩ | ⟨n, e⟩ := classify_cases rule source target sp frames bottom
  · rw [e] at h ⊢
    have hzero : leftBehind sp 0 frames = 0 := (ofJump_enters h).1
    have hsp : (ofJump sp frames calls promoted returnAsJump).sp =
        if promoted then (frames.head?.map (·.sp)).getD sp else sp := if_pos h
    rw [hsp]
    cases promoted with
    | false => exact .inl rfl
    | true =>
      cases frames with
      | nil => exact .inl rfl
      | cons f frames => exact .inr ⟨f, rfl, rfl, leftBehind_eq_zero.mp hzero f rfl⟩
  · rw [e] at h ⊢
    unfold ofReturn at h ⊢
    split at h
    · rename_i hle
      rw [if_pos hle]
      exact .inl rfl
    · cases h

/-- With a frame of its own below the stack pointer, a thread or handler leaves frames and enters nothing, and
at most one frame at the stack pointer is left. -/
theorem leaves_of_below {f : Frame} {rest : List Frame} (hf : frames = f :: rest) (hlt : f.sp < sp)
    (hbottom : bottom < frames.length) :
    (classify rule source target sp frames bottom).enters = false ∧
      ∃ n ≤ 1, (classify rule source target sp frames bottom).pops = leftBehind sp n frames := by
  have hjump : ∀ calls promoted returnAsJump, (ofJump sp frames calls promoted returnAsJump).enters = false ∧
      ∃ n ≤ 1, (ofJump sp frames calls promoted returnAsJump).pops = leftBehind sp n frames := by
    intro calls promoted returnAsJump
    refine ⟨?_, 0, Nat.zero_le 1, rfl⟩
    simp [ofJump, hf, leftBehind, hlt]
  have htop : frames.head? = some f := by rw [hf, List.head?_cons]
  have hreturn : minPops frames sp target.addr = some 1 := by rw [minPops_eq htop, returnDepth_below htop hlt]
  unfold classify
  cases source with
  | none => exact hjump ..
  | some d =>
    cases hkind : d.kind with
    | fallThrough | jump | call =>
      simp only [hkind]
      exact hjump ..
    | ret =>
      simp only [hkind, hreturn, ofReturn, if_neg (Nat.not_le.mpr hbottom)]
      exact ⟨trivial, 1, Nat.le_refl 1, rfl⟩

end Transfer

/-! ## Frames left behind -/

/-- What is on top then is not below the stack pointer. -/
theorem level_of_leftBehind (sp : Addr) (n : Nat) (frames : List Frame) :
    ∀ f, (frames.drop (leftBehind sp n frames)).head? = some f → ¬f.sp < sp := by
  induction frames generalizing n with
  | nil => exact fun _ h => nomatch h
  | cons f frames ih =>
    rw [leftBehind]
    split
    · exact ih (n - 1)
    · rename_i hn
      intro g hg
      cases hg
      exact fun hlt => hn (.inl hlt)

/-- Below a frame above the stack pointer nothing is left. -/
theorem leftBehind_le_of_above {sp : Addr} (n : Nat) (above : List Frame) {below : List Frame}
    (h : ∀ f, below.head? = some f → sp < f.sp) : leftBehind sp n (above ++ below) ≤ above.length := by
  induction above generalizing n with
  | nil =>
    cases below with
    | nil => exact Nat.le_refl 0
    | cons f below =>
      have hf : ¬(f.sp < sp ∨ f.sp = sp ∧ 0 < n) := by
        have hlt := h f rfl
        rw [Addr.lt_iff] at hlt
        rintro (hlt' | ⟨e, -⟩)
        · rw [Addr.lt_iff] at hlt'
          omega
        · rw [e] at hlt
          omega
      rw [List.nil_append, leftBehind, if_neg hf]
      exact Nat.le_refl 0
  | cons f above ih =>
    rw [List.cons_append, leftBehind]
    split
    · exact Nat.succ_le_succ (ih _)
    · exact Nat.zero_le _

/-- Exactly the frames below the stack pointer are left if there are enough of them to use up what may be left
at its level. -/
theorem leftBehind_append {sp : Addr} {n : Nat} {above below : List Frame} (ha : ∀ f ∈ above, f.sp < sp)
    (hn : n ≤ above.length) (hb : ∀ f, below.head? = some f → ¬f.sp < sp) :
    leftBehind sp n (above ++ below) = above.length := by
  induction above generalizing n with
  | nil =>
    cases below with
    | nil => rfl
    | cons f below =>
      have hn : n = 0 := Nat.le_zero.mp hn
      have hf : ¬(f.sp < sp ∨ f.sp = sp ∧ 0 < n) := by
        rintro (hlt | ⟨-, hpos⟩)
        · exact hb f rfl hlt
        · omega
      rw [List.nil_append, leftBehind, if_neg hf]
      rfl
  | cons f above ih =>
    rw [List.cons_append, leftBehind, if_pos (.inl (ha f (List.mem_cons_self ..))),
      ih (fun g hg => ha g (List.mem_cons_of_mem f hg)) (by simp only [List.length_cons] at hn; omega)]
    rfl

/-! ## Entering a block -/

namespace Scene

variable {κ ι α : Type} (blockOf : α → Option Block)

/-- Where control comes from. The number of the anchor plays no part. -/
def departure (sc : Scene κ ι α) : Option Departure :=
  (sc.last.bind blockOf).map fun b =>
    { anchor := ⟨0⟩, block := b, exit := (b.exitAfter sc.passed).1, kind := (b.exitAfter sc.passed).2.kind }

/-- What a call comes from: the final exit of the last costed anchor, or the exit that control comes from. -/
def callSource (sc : Scene κ ι α) : Option (α × Nat) :=
  match sc.story.costed with
  | some a => (blockOf a).map fun b => (a, b.finalIndex)
  | none => sc.last.bind fun a => (blockOf a).map fun b => (a, (b.exitAfter sc.passed).1)

def returnTo (sc : Scene κ ι α) : Addr :=
  ((sc.callSource blockOf).bind fun (a, n) => (blockOf a).map fun b => b.returnTo n).getD .unknown

/-- What the transfer into a block is. -/
def transfer (rule : TailCallRule) (target : Block) (sp : Addr) (sc : Scene κ ι α) : Transfer :=
  .classify rule (sc.departure blockOf) target sp sc.story.marks sc.story.bottom

/-- The story once a block was entered: a call opens, or the calls that the transfer ends are left. -/
def arrive (rule : TailCallRule) (skip : Bool) (target : Block) (sp : Addr) (context : κ) (kept : ι)
    (sc : Scene κ ι α) : Story κ ι α :=
  let x := sc.transfer blockOf rule target sp
  if x.enters then
    .call
      { fn := target.fn, skipped := skip, sp := x.sp, returnTo := sc.returnTo blockOf
        costed := if skip then sc.story.costed.or sc.last else none } context kept sc.story
  else
    let s := (sc.popCalls x.pops).story
    if s.started then s else .first target.fn context s

/-- A block with the anchor `me` is entered, and none of its exits is passed yet. -/
def enter (rule : TailCallRule) (skip : Bool) (target : Block) (sp : Addr) (me : α) (context : κ) (kept : ι)
    (sc : Scene κ ι α) : Scene κ ι α :=
  { story := sc.arrive blockOf rule skip target sp context kept, last := some me }

variable {blockOf} {rule : TailCallRule} {skip : Bool} {target : Block} {sp : Addr} {me : α} {context : κ} {kept : ι}
  {sc : Scene κ ι α}

theorem enter_of_enters (h : (sc.transfer blockOf rule target sp).enters = true) :
    sc.enter blockOf rule skip target sp me context kept =
      { story := .call
          { fn := target.fn, skipped := skip, sp := (sc.transfer blockOf rule target sp).sp
            returnTo := sc.returnTo blockOf, costed := if skip then sc.story.costed.or sc.last else none }
          context kept sc.story
        last := some me } := by
  simp only [enter, arrive, h, if_true]

theorem enter_of_stays (h : (sc.transfer blockOf rule target sp).enters = false) :
    sc.enter blockOf rule skip target sp me context kept =
      { story :=
          if (sc.popCalls (sc.transfer blockOf rule target sp).pops).story.started then
            (sc.popCalls (sc.transfer blockOf rule target sp).pops).story
          else .first target.fn context (sc.popCalls (sc.transfer blockOf rule target sp).pops).story
        last := some me } := by
  simp only [enter, arrive, h, Bool.false_eq_true, if_false]

theorem depth_enter (h : (sc.transfer blockOf rule target sp).enters = false) :
    (sc.enter blockOf rule skip target sp me context kept).story.depth =
      sc.story.depth - (sc.transfer blockOf rule target sp).pops := by
  rw [enter_of_stays h, ← depth_popCalls]
  show Story.depth (if _ then _ else _) = _
  split <;> rfl

/-- Some block ran once a block was entered. -/
theorem started_enter : (sc.enter blockOf rule skip target sp me context kept).story.started = true := by
  cases h : (sc.transfer blockOf rule target sp).enters with
  | true =>
    rw [enter_of_enters h]
    rfl
  | false =>
    rw [enter_of_stays h]
    show Story.started (if _ then _ else _) = true
    split
    · assumption
    · rfl

theorem marks_popCalls (n : Nat) (sc : Scene κ ι α) : (sc.popCalls n).story.marks = sc.story.marks.drop n := by
  induction n generalizing sc with
  | zero => rfl
  | succ n ih =>
    rw [popCalls, ih, popCall, Story.marks_popCall, List.drop_drop, Nat.add_comm]

/-- A transfer that enters no function only takes marks off. -/
theorem marks_of_stays (h : (sc.transfer blockOf rule target sp).enters = false) :
    (sc.enter blockOf rule skip target sp me context kept).story.marks =
      sc.story.marks.drop (sc.transfer blockOf rule target sp).pops := by
  rw [enter_of_stays h, ← marks_popCalls]
  show Story.marks (if _ then _ else _) = _
  split <;> rfl

/-- The top frame is not below the stack pointer once a block was entered there. -/
theorem level_enter : ∀ f, (sc.enter blockOf rule skip target sp me context kept).story.marks.head? = some f →
    ¬f.sp < sp := by
  intro f hf
  cases h : (sc.transfer blockOf rule target sp).enters with
  | true =>
    rw [enter_of_enters h] at hf
    cases hf
    obtain hsp | ⟨g, -, hsp, hlevel⟩ := Transfer.level_of_enters h
    · show ¬(sc.transfer blockOf rule target sp).sp < sp
      rw [show (sc.transfer blockOf rule target sp).sp = sp from hsp, Addr.lt_iff]
      exact Nat.lt_irrefl _
    · show ¬(sc.transfer blockOf rule target sp).sp < sp
      rw [show (sc.transfer blockOf rule target sp).sp = g.sp from hsp]
      exact hlevel
  | false =>
    obtain ⟨n, hn⟩ := Transfer.of_stays h
    rw [marks_of_stays h, transfer, hn] at hf
    exact level_of_leftBehind sp n _ f hf

end Scene

namespace Story

variable {κ ι α : Type} {base : Story κ ι α} {P : OpenCall α → Prop}

/-- The marks of a story are those of a part below those of the calls above it. -/
theorem Over.marks {s : Story κ ι α} (h : Over base P s) :
    ∃ above, s.marks = above ++ base.marks ∧ ∀ f ∈ above, ∃ c : OpenCall α, P c ∧ f.sp = c.sp := by
  induction h with
  | here => exact ⟨[], rfl, fun _ hf => nomatch hf⟩
  | first _ _ _ ih | handler _ _ _ _ ih => exact ih
  | @call c _ _ _ hc _ ih =>
    obtain ⟨above, hmarks, habove⟩ := ih
    refine ⟨_ :: above, by rw [Story.marks, hmarks]; rfl, fun f hf => ?_⟩
    rcases List.mem_cons.mp hf with rfl | hf
    · exact ⟨c, hc, rfl⟩
    · exact habove f hf

/-- A block entered above a part stays above it. -/
theorem Over.enter {blockOf : α → Option Block} {rule : TailCallRule} {skip : Bool} {target : Block} {sp : Addr}
    {me : α} {context : κ} {kept : ι} {sc : Scene κ ι α} (h : Over base P sc.story)
    (hpops : (sc.transfer blockOf rule target sp).enters = false →
      base.depth + (sc.transfer blockOf rule target sp).pops ≤ sc.story.depth)
    (hcall : (sc.transfer blockOf rule target sp).enters = true →
      ∀ c : OpenCall α, c.sp = (sc.transfer blockOf rule target sp).sp → P c) :
    Over base P (sc.enter blockOf rule skip target sp me context kept).story := by
  cases hen : (sc.transfer blockOf rule target sp).enters with
  | true =>
    rw [Scene.enter_of_enters hen]
    exact .call context kept (hcall hen _ rfl) h
  | false =>
    rw [Scene.enter_of_stays hen]
    have hbefore := h.popCalls _ (hpops hen)
    show Over base P (if _ then _ else _)
    split
    · exact hbefore
    · exact .first _ _ hbefore

end Story
end CallGraph
