/-
  CallGraph.Proofs.Transferring — what a transfer does to the frames of its thread.

  A block that runs either pushes one frame or pops the topmost ones, and never does both. Which of the
  two, at which level and how many, is said here by the frames alone (`NetEffect`): by those on top that
  are recorded below the stack pointer (`below`) and by those on top that are level with it (`level`).
  - `leftBehind_zero`, `leftBehind_level`, `matchAt_eq`: the recursions over the frames, said by these runs.
  - `classify_stray` and the `classify_…` after it: the kinds of transfers.
  - `enterBlock_moves`: a block moves the frames and the counts as its transfer says.
-/

import CallGraph.Proofs.Upkeep

namespace CallGraph

/-! ## Runs of frames -/

/-- The frames on top that are recorded below the stack pointer. -/
def below (sp : Addr) (frames : List Frame) : List Frame := frames.takeWhile fun f => f.sp < sp

/-- The frames on top that are recorded at the stack pointer. -/
def level (sp : Addr) (frames : List Frame) : List Frame := frames.takeWhile fun f => f.sp = sp

/-- A return to `target` that leaves no frame: the stack grew below the top frame, or is level with it, and no
frame at that level was called from right before `target`. -/
def Stray (sp target : Addr) (frames : List Frame) : Prop :=
  ∃ top, frames.head? = some top ∧
    (sp < top.sp ∨ top.sp = sp ∧ ∀ f ∈ level sp frames, f.returnTo ≠ target)

theorem Addr.lt_irrefl (a : Addr) : ¬a < a := Nat.lt_irrefl _

theorem Addr.eq_of_not_lt {a b : Addr} (hab : ¬a < b) (hba : ¬b < a) : a = b := by
  rw [Addr.lt_iff] at hab hba
  exact congrArg Addr.mk (UInt64.toNat_inj.mp (by omega))

theorem leftBehind_zero (sp : Addr) (frames : List Frame) : leftBehind sp 0 frames = (below sp frames).length := by
  induction frames with
  | nil => rfl
  | cons f frames ih =>
    rw [leftBehind, below, List.takeWhile_cons]
    by_cases hlt : f.sp < sp
    · simp only [hlt, true_or, decide_true, if_true, List.length_cons]
      exact congrArg (· + 1) ih
    · simp [hlt]

/-- The frame on top of those below the stack pointer may be the one that has to be left. -/
theorem leftBehind_one {sp : Addr} {top : Frame} {frames : List Frame} (hlt : top.sp < sp) :
    leftBehind sp 1 (top :: frames) = (below sp (top :: frames)).length := by
  rw [leftBehind, if_pos (.inl hlt), leftBehind_zero, below, below, List.takeWhile_cons, decide_eq_true hlt]
  rfl

/-- Frames level with the stack pointer are left one by one, and then those below it. -/
theorem leftBehind_level {sp : Addr} {n : Nat} {frames : List Frame} (hn : n ≤ (level sp frames).length) :
    leftBehind sp n frames = n + (below sp (frames.drop n)).length := by
  induction n generalizing frames with
  | zero => rw [leftBehind_zero, Nat.zero_add, List.drop_zero]
  | succ n ih =>
    cases frames with
    | nil => cases hn
    | cons f frames =>
      rw [level, List.takeWhile_cons] at hn
      by_cases hsp : f.sp = sp
      · rw [decide_eq_true hsp] at hn
        rw [leftBehind, if_pos (.inr ⟨hsp, Nat.succ_pos n⟩), Nat.add_sub_cancel, ih (Nat.le_of_succ_le_succ hn),
          List.drop_succ_cons, Nat.add_right_comm]
      · rw [decide_eq_false hsp] at hn
        cases hn

/-- The nearest frame at the level of the stack pointer that was called from right before the target. -/
theorem matchAt_eq (sp target : Addr) (frames : List Frame) :
    matchAt sp target frames = ((level sp frames).findIdx? fun f => f.returnTo = target).map (· + 1) := by
  induction frames with
  | nil => rfl
  | cons f frames ih =>
    rw [matchAt, level, List.takeWhile_cons]
    by_cases hsp : f.sp = sp
    · rw [if_pos hsp, decide_eq_true hsp, if_pos rfl, List.findIdx?_cons]
      by_cases hto : f.returnTo = target
      · simp [hto]
      · simp only [hto, if_false, ih, decide_false, Bool.false_eq_true]
        rfl
    · rw [if_neg hsp, decide_eq_false hsp]
      rfl

theorem returnDepth_level {sp target : Addr} {frames : List Frame} {top : Frame} (htop : frames.head? = some top)
    (hsp : top.sp = sp) :
    returnDepth frames sp target = ((level sp frames).findIdx? fun f => f.returnTo = target).map (· + 1) := by
  cases frames with
  | nil => cases htop
  | cons f frames =>
    cases htop
    rw [← matchAt_eq, returnDepth, hsp, if_neg (Addr.lt_irrefl sp), if_neg (Addr.lt_irrefl sp)]

/-- A return that is level with the top frame matches a frame unless it is stray. -/
theorem exists_match {sp target : Addr} {frames : List Frame} {top : Frame} (hstray : ¬Stray sp target frames)
    (htop : frames.head? = some top) (hsp : top.sp = sp) :
    ∃ k, ((level sp frames).findIdx? fun f => f.returnTo = target) = some k := by
  refine Option.ne_none_iff_exists'.mp fun hnone => hstray ⟨top, htop, .inr ⟨hsp, fun f hf => ?_⟩⟩
  exact of_decide_eq_false (List.findIdx?_eq_none_iff.mp hnone f hf)

namespace Transfer

variable {sp target : Addr} {frames : List Frame} {top : Frame} {d : Departure} {block : Block} {bottom : Nat}

/-! ## Returns -/

/-- A return is none exactly if it is stray. -/
theorem minPops_eq_none : minPops frames sp target = none ↔ Stray sp target frames := by
  cases htop : frames.head? with
  | none =>
    rw [List.head?_eq_none_iff] at htop
    subst htop
    exact iff_of_false (by simp [minPops]) fun ⟨top, htop, _⟩ => by cases htop
  | some top =>
    rw [minPops_eq htop]
    constructor
    · intro hnone
      refine ⟨top, htop, ?_⟩
      by_cases habove : sp < top.sp
      · exact .inl habove
      by_cases hbelow : top.sp < sp
      · cases (returnDepth_below htop hbelow).symm.trans hnone
      · have hsp := Addr.eq_of_not_lt hbelow habove
        rw [returnDepth_level htop hsp, Option.map_eq_none_iff, List.findIdx?_eq_none_iff] at hnone
        exact .inr ⟨hsp, fun f hf => of_decide_eq_false (hnone f hf)⟩
    · rintro ⟨top', htop', hlevel⟩
      cases htop.symm.trans htop'
      rcases hlevel with habove | ⟨hsp, hto⟩
      · exact returnDepth_above htop habove
      · rw [returnDepth_level htop hsp, Option.map_eq_none_iff, List.findIdx?_eq_none_iff]
        exact fun f hf => decide_eq_false (hto f hf)

/-- A stray return is a call at the level of the top frame. -/
theorem classify_stray (rule : TailCallRule) (bottom : Nat) (hkind : d.kind = .ret)
    (htop : frames.head? = some top) (hstray : Stray sp block.addr frames) :
    (classify rule (some d) block sp frames bottom).enters = true ∧
      (classify rule (some d) block sp frames bottom).sp = top.sp := by
  have hzero : leftBehind sp 0 frames = 0 := by
    rw [leftBehind_eq_zero]
    intro f hf
    obtain ⟨g, hg, hlevel⟩ := hstray
    rw [hg] at hf
    cases hf
    rcases hlevel with hlt | ⟨hsp, -⟩
    · rw [Addr.lt_iff] at hlt ⊢
      omega
    · rw [hsp]
      exact Addr.lt_irrefl sp
  have hjump : classify rule (some d) block sp frames bottom = ofJump sp frames false true true := by
    simp only [classify, hkind, minPops_eq_none.mpr hstray]
  rw [hjump]
  simp [ofJump, hzero, htop]

/-- Any other return is one that leaves some frames, if the thread or handler has one. -/
theorem classify_return (rule : TailCallRule) (bottom : Nat) (hkind : d.kind = .ret)
    (hstray : ¬Stray sp block.addr frames) :
    ∃ n, minPops frames sp block.addr = some n ∧
      classify rule (some d) block sp frames bottom = ofReturn sp frames bottom n := by
  obtain ⟨n, hn⟩ := Option.ne_none_iff_exists'.mp fun hnone => hstray (minPops_eq_none.mp hnone)
  exact ⟨n, hn, by simp only [classify, hkind, hn]⟩

/-- Without a frame of its own it is a call at the stack pointer. -/
theorem classify_return_bare (rule : TailCallRule) (hkind : d.kind = .ret)
    (hstray : ¬Stray sp block.addr frames) (hbare : frames.length ≤ bottom) :
    (classify rule (some d) block sp frames bottom).enters = true ∧
      (classify rule (some d) block sp frames bottom).sp = sp := by
  obtain ⟨n, -, hreturn⟩ := classify_return rule bottom hkind hstray
  rw [hreturn, ofReturn, if_pos hbare]
  exact ⟨rfl, rfl⟩

/-- Level with the top frame it leaves the frames down to the nearest one that matches, and those below the stack
pointer that come next. -/
theorem classify_return_level (rule : TailCallRule) (hkind : d.kind = .ret) (htop : frames.head? = some top)
    (hsp : top.sp = sp) {k : Nat} (hk : ((level sp frames).findIdx? fun f => f.returnTo = block.addr) = some k)
    (hown : bottom < frames.length) :
    (classify rule (some d) block sp frames bottom).enters = false ∧
      (classify rule (some d) block sp frames bottom).pops = k + 1 + (below sp (frames.drop (k + 1))).length := by
  have hpops : minPops frames sp block.addr = some (k + 1) := by
    rw [minPops_eq htop, returnDepth_level htop hsp, hk, Option.map_some]
  have hlevel : k + 1 ≤ (level sp frames).length := (List.findIdx?_eq_some_iff_findIdx_eq.mp hk).1
  simp only [classify, hkind, hpops, ofReturn, if_neg (Nat.not_le.mpr hown), leftBehind_level hlevel, and_self]

/-- Above the top frame it leaves the frames below the stack pointer. -/
theorem classify_return_below (rule : TailCallRule) (block : Block) (hkind : d.kind = .ret)
    (htop : frames.head? = some top) (hlt : top.sp < sp) (hown : bottom < frames.length) :
    (classify rule (some d) block sp frames bottom).enters = false ∧
      (classify rule (some d) block sp frames bottom).pops = (below sp frames).length := by
  cases frames with
  | nil => cases htop
  | cons f frames =>
    cases htop
    have hpops : minPops (top :: frames) sp block.addr = some 1 := by
      rw [minPops_eq rfl, returnDepth_below rfl hlt]
    simp only [classify, hkind, hpops, ofReturn, if_neg (Nat.not_le.mpr hown), leftBehind_one hlt, and_self]

/-! ## Other transfers -/

/-- A transfer that is no return is a call, a jump that may count as one, or comes from no block. -/
theorem classify_other (rule : TailCallRule) (block : Block) (sp : Addr) (frames : List Frame) (bottom : Nat)
    {source : Option Departure} (hkind : ∀ d, source = some d → d.kind ≠ .ret) :
    ∃ calls promoted, classify rule source block sp frames bottom = ofJump sp frames calls promoted false ∧
      (calls = true ↔ ∃ d, source = some d ∧ d.kind = .call) ∧
      (promoted = true ↔ ∃ d, source = some d ∧ d.kind ≠ .call ∧ rule.promotes d.block block = true) := by
  cases source with
  | none => exact ⟨false, false, rfl, by simp, by simp⟩
  | some d =>
    cases hd : d.kind with
    | ret => exact absurd hd (hkind d rfl)
    | call => exact ⟨true, false, by simp only [classify, hd], by simp [hd], by simp [hd]⟩
    | fallThrough | jump =>
      exact ⟨false, rule.promotes d.block block, by simp only [classify, hd], by simp [hd], by simp [hd]⟩

variable (calls promoted returnAsJump : Bool)

/-- The frames below the stack pointer are left, and then no function is entered. -/
theorem ofJump_leaves (h : 0 < (below sp frames).length) :
    (ofJump sp frames calls promoted returnAsJump).enters = false ∧
      (ofJump sp frames calls promoted returnAsJump).pops = (below sp frames).length := by
  have hne : below sp frames ≠ [] := List.ne_nil_of_length_pos h
  simp [ofJump, leftBehind_zero, hne]

/-- Otherwise a call enters a function, and so does a promoted jump, which does it at the level of the top frame. -/
theorem ofJump_level (h : below sp frames = []) :
    (ofJump sp frames calls promoted returnAsJump).enters = (calls || promoted) ∧
      (ofJump sp frames calls promoted returnAsJump).pops = 0 ∧
      ((calls || promoted) = true → (ofJump sp frames calls promoted returnAsJump).sp =
        if promoted then (frames.head?.map (·.sp)).getD sp else sp) := by
  have hzero : leftBehind sp 0 frames = 0 := by rw [leftBehind_zero, h]; rfl
  refine ⟨by simp [ofJump, hzero], hzero, fun henters => ?_⟩
  simp only [ofJump, hzero, henters, decide_true, Bool.and_true, if_true]

/-- Whatever leaves frames is a return, though it is none. -/
theorem classify_left (rule : TailCallRule) (block : Block) (bottom : Nat) {source : Option Departure}
    (hret : ∀ d, source = some d → d.kind ≠ .ret) (h : 0 < (below sp frames).length) :
    (classify rule source block sp frames bottom).enters = false ∧
      (classify rule source block sp frames bottom).pops = (below sp frames).length := by
  obtain ⟨calls, promoted, hjump, -⟩ := classify_other rule block sp frames bottom hret
  rw [hjump]
  exact ofJump_leaves calls promoted false h

theorem classify_call (rule : TailCallRule) (block : Block) (bottom : Nat) (hkind : d.kind = .call)
    (h : below sp frames = []) :
    (classify rule (some d) block sp frames bottom).enters = true ∧
      (classify rule (some d) block sp frames bottom).sp = sp := by
  have hjump : classify rule (some d) block sp frames bottom = ofJump sp frames true false false := by
    simp only [classify, hkind]
  obtain ⟨henters, -, hsp⟩ := ofJump_level true false false h
  rw [hjump]
  exact ⟨henters, hsp rfl⟩

theorem classify_promoted {rule : TailCallRule} {block : Block} (bottom : Nat)
    (hkind : d.kind = .jump ∨ d.kind = .fallThrough) (hpromotes : rule.promotes d.block block = true)
    (h : below sp frames = []) :
    (classify rule (some d) block sp frames bottom).enters = true ∧
      (classify rule (some d) block sp frames bottom).sp = (frames.head?.map (·.sp)).getD sp := by
  have hjump : classify rule (some d) block sp frames bottom = ofJump sp frames false true false := by
    rcases hkind with hd | hd
    all_goals simp only [classify, hd, hpromotes]
  obtain ⟨henters, -, hsp⟩ := ofJump_level false true false h
  rw [hjump]
  exact ⟨henters, hsp rfl⟩

/-- A jump that does not count as a call moves no frame, and neither does a block with none before it. -/
theorem classify_stayed {rule : TailCallRule} {block : Block} (bottom : Nat) {source : Option Departure}
    (hret : ∀ d, source = some d → d.kind ≠ .ret) (hcall : ∀ d, source = some d → d.kind ≠ .call)
    (hpromotes : ∀ d, source = some d → rule.promotes d.block block = false) (h : below sp frames = []) :
    (classify rule source block sp frames bottom).enters = false ∧
      (classify rule source block sp frames bottom).pops = 0 := by
  obtain ⟨calls, promoted, hjump, hcalls, hpromoted⟩ := classify_other rule block sp frames bottom hret
  have hc : calls = false := by
    rw [Bool.eq_false_iff, ne_eq, hcalls]
    intro h'
    obtain ⟨d, hd, hk⟩ := h'
    exact hcall d hd hk
  have hp : promoted = false := by
    rw [Bool.eq_false_iff, ne_eq, hpromoted]
    intro h'
    obtain ⟨d, hd, -, hk⟩ := h'
    rw [hpromotes d hd] at hk
    cases hk
  obtain ⟨hstays, hpops, -⟩ := ofJump_level false false false h
  rw [hjump, hc, hp]
  exact ⟨hstays, hpops⟩

end Transfer

/-! ## Stories -/

namespace Story

theorem frames_popCall {s : Story ContextId Kept AnchorId} (last : Option AnchorId) (passed : Nat) :
    (s.popCall last passed).story.frames = s.frames.drop 1 := by
  induction s generalizing last passed with
  | fresh => rfl
  | first _ _ _ ih | handler _ _ _ _ ih => exact ih _ _
  | call => rfl

end Story

namespace Scene

theorem frames_popCalls (n : Nat) (sc : Scene ContextId Kept AnchorId) :
    (sc.popCalls n).story.frames = sc.story.frames.drop n := by
  induction n generalizing sc with
  | zero => rfl
  | succ n ih => rw [popCalls, ih, popCall, Story.frames_popCall, List.drop_drop, Nat.add_comm]

variable {blockOf : AnchorId → Option Block} {rule : TailCallRule} {target : Block} {sp : Addr}
  {sc : Scene ContextId Kept AnchorId} (skip : Bool) (me : AnchorId) (context : ContextId) (kept : Kept)

/-- A transfer that enters no function takes frames off. -/
theorem frames_of_stays (h : (sc.transfer blockOf rule target sp).enters = false) :
    (sc.enter blockOf rule skip target sp me context kept).story.frames =
      sc.story.frames.drop (sc.transfer blockOf rule target sp).pops := by
  rw [enter_of_stays h, ← frames_popCalls]
  show Story.frames (if _ then _ else _) = _
  split <;> rfl

/-- A transfer that enters one puts a frame on top. -/
theorem frames_of_enters (h : (sc.transfer blockOf rule target sp).enters = true) :
    ∃ f, (sc.enter blockOf rule skip target sp me context kept).story.frames = f :: sc.story.frames ∧
      f.sp = (sc.transfer blockOf rule target sp).sp := by
  rw [enter_of_enters h]
  refine ⟨_, rfl, ?_⟩
  split <;> rfl

end Scene

theorem ThreadState.Tells.bottom {s : ThreadState} {sc : Scene ContextId Kept AnchorId} (hs : s.Tells sc) :
    s.bottom = sc.story.bottom := by
  rw [← Story.bottomOf_handlers, ← hs.handlers]
  unfold ThreadState.bottom bottomOf
  cases s.handlers <;> rfl

/-- The frames tell what a transfer is as well as the story does. -/
theorem ThreadState.Tells.transfer_eq {s : ThreadState} {sc : Scene ContextId Kept AnchorId} (hs : s.Tells sc)
    (blockOf : AnchorId → Option Block) (rule : TailCallRule) (target : Block) (sp : Addr) :
    sc.transfer blockOf rule target sp =
      .classify rule (sc.departure blockOf) target sp s.shadow.frames s.bottom := by
  have hmarks : sc.story.marks.map Frame.mark = s.shadow.frames.map Frame.mark := by
    rw [hs.frames]
    exact sc.story.marks_eq
  rw [hs.bottom]
  exact Transfer.classify_congr rfl (Transfer.levels_congr hmarks) rule target sp _ fun _ _ _ =>
    Transfer.returnDepth_congr hmarks sp target.addr

/-! ## One block -/

/-- The exit that is taken after some side exits were passed is at their number, or the last one. -/
theorem Block.exits_min (b : Block) (n : Nat) : b.exits[min n b.finalIndex]? = some (b.exitAfter n).2 := by
  unfold exitAfter
  split
  · rename_i e he
    have hlt : n < b.finalIndex := (List.getElem?_eq_some_iff.mp he).1
    rw [Nat.min_eq_left (Nat.le_of_lt hlt), exits, List.getElem?_append_left hlt]
    exact he
  · rename_i hnone
    have hle : b.finalIndex ≤ n := List.getElem?_eq_none_iff.mp hnone
    rw [Nat.min_eq_right hle]
    exact List.getElem?_concat_length

namespace Tracker

variable {config : Config} {t t' : Tracker} {u : ThreadId} {sp : Addr} {b : Block}

/-- The block that ran last on a thread, or in the handler it is in. -/
def lastBlock (t : Tracker) (u : ThreadId) : Option Block := (t.state u).exec.anchor.bind t.blockOf

/-- The kind of the exit that control leaves it through. -/
def exitKind (t : Tracker) (u : ThreadId) : Option ExitKind :=
  (t.lastBlock u).bind fun p => (p.exits[min (t.state u).exec.exitsPassed p.finalIndex]?).map (·.kind)

/-- One frame was pushed on a thread, at a level, and none was popped. -/
structure Pushes (t t' : Tracker) (u : ThreadId) (sp : Addr) : Prop where
  frames : ∃ f, (t'.state u).shadow.frames = f :: (t.state u).shadow.frames ∧ f.sp = sp
  calls : t'.stats.calls = t.stats.calls + 1
  returns : t'.stats.returns = t.stats.returns

/-- The `n` frames on top were popped on a thread, and none was pushed. -/
structure Pops (t t' : Tracker) (u : ThreadId) (n : Nat) : Prop where
  enough : n ≤ (t.state u).shadow.depth
  frames : (t'.state u).shadow.frames = (t.state u).shadow.frames.drop n
  calls : t'.stats.calls = t.stats.calls
  returns : t'.stats.returns = t.stats.returns + n

/-- A thread's frames moved as a transfer says, and the transfer was counted. -/
structure Moves (t t' : Tracker) (u : ThreadId) (x : Transfer) : Prop where
  pushes : x.enters = true → Pushes t t' u x.sp
  pops : x.enters = false → Pops t t' u x.pops
  promotedCalls : t'.stats.promotedCalls = t.stats.promotedCalls + x.promoted.toNat
  emulatedCalls : t'.stats.emulatedCalls = t.stats.emulatedCalls + x.emulated.toNat

/-- The calls and returns that are counted are the frames pushed and popped. -/
theorem enterBlock_moves (h : t.Inv) (hcontexts : t.contexts.Filed) {pos : Position} {id : BlockId} {a : AnchorId}
    (he : t.enterBlock pos id = .ok (a, t')) {sc : Scene ContextId Kept AnchorId} (hs : (t.state pos.thread).Tells sc)
    (hb : t.blocks.block? id = some b) :
    Moves t t' pos.thread (sc.transfer t.blockOf t.config.tailCalls b pos.sp) := by
  obtain ⟨f, hf⟩ := known_decl h hb
  obtain ⟨c, kept, hs'⟩ := enterBlock_tells h he hs hb hf
  obtain ⟨_, -, e⟩ := enterBlock_entered h he hs hb hf hcontexts
  obtain ⟨hstays, -⟩ := enterBlock_stays h he
  have hcalls := e.stats.calls
  have hbalance := e.balance
  have hdepth : (t.state pos.thread).shadow.depth = (t.switchTo pos.thread).thread.shadow.depth := by
    rw [thread_switchTo_state]
  have hdepth' : (t'.state pos.thread).shadow.depth = t'.thread.shadow.depth := by rw [hstays.state_eq]
  rw [← depths_switchTo h pos.thread] at hbalance
  refine ⟨fun hx => ?_, fun hx => ?_, e.stats.promotedCalls, e.stats.emulatedCalls⟩
  · obtain ⟨g, hg, hsp⟩ := Scene.frames_of_enters f.skip a c kept hx
    rw [← hs'.frames, ← hs.frames] at hg
    -- The other threads wait, so all frames together are one more as well.
    have hdeeper : t'.threads.depths = (t.switchTo pos.thread).threads.depths + 1 := by
      refine depths_of_parked hstays.parked ?_
      rw [← hdepth, ← hdepth', ShadowStack.depth, hg]
      rfl
    rw [hx] at hcalls hbalance
    refine ⟨⟨g, hg, hsp⟩, hcalls, ?_⟩
    rw [hdeeper, Bool.toNat_true] at hbalance
    omega
  · have hframes := Scene.frames_of_stays f.skip a c kept hx
    have hle : (sc.transfer t.blockOf t.config.tailCalls b pos.sp).pops ≤ (t.state pos.thread).shadow.depth := by
      rw [hs.transfer_eq]
      exact Transfer.pops_le
    rw [← hs'.frames, ← hs.frames] at hframes
    have hshallower : (t.switchTo pos.thread).threads.depths =
        t'.threads.depths + (sc.transfer t.blockOf t.config.tailCalls b pos.sp).pops := by
      refine depths_of_parked hstays.parked.symm ?_
      rw [← hdepth, ← hdepth']
      rw [ShadowStack.depth] at hle
      rw [ShadowStack.depth, ShadowStack.depth, hframes, List.length_drop]
      omega
    rw [hx] at hcalls hbalance
    refine ⟨hle, hframes, hcalls, ?_⟩
    rw [hshallower, Bool.toNat_false] at hbalance
    omega

/-- What a block does to the frames of its thread: which case it is depends on the exit that control comes
through and on where the frames are recorded. -/
structure NetEffect (t : Tracker) (u : ThreadId) (sp : Addr) (b : Block) (t' : Tracker) : Prop where
  once : (∃ level, Pushes t t' u level) ∨ ∃ n, Pops t t' u n
  stray : t.exitKind u = some .ret → Stray sp b.addr (t.state u).shadow.frames →
    ∃ top, (t.state u).shadow.top? = some top ∧ Pushes t t' u top.sp
  /-- A return where the thread, or the handler it is in, has no frame of its own. -/
  bare : t.exitKind u = some .ret → ¬Stray sp b.addr (t.state u).shadow.frames →
    (t.state u).shadow.depth ≤ (t.state u).bottom → Pushes t t' u sp
  /-- A return that is level with the top frame, and the nearest frame that it matches. -/
  matched : t.exitKind u = some .ret → ¬Stray sp b.addr (t.state u).shadow.frames →
    (t.state u).bottom < (t.state u).shadow.depth → ∀ top, (t.state u).shadow.top? = some top → top.sp = sp →
    ∃ k, ((level sp (t.state u).shadow.frames).findIdx? fun f => f.returnTo = b.addr) = some k ∧
      Pops t t' u (k + 1 + (below sp ((t.state u).shadow.frames.drop (k + 1))).length)
  /-- A return from below the stack pointer. -/
  returned : t.exitKind u = some .ret → (t.state u).bottom < (t.state u).shadow.depth →
    ∀ top, (t.state u).shadow.top? = some top → top.sp < sp →
      Pops t t' u (below sp (t.state u).shadow.frames).length
  /-- Whatever else leaves frames is a return, too. -/
  left : t.exitKind u ≠ some .ret → 0 < (below sp (t.state u).shadow.frames).length →
    Pops t t' u (below sp (t.state u).shadow.frames).length
  called : t.exitKind u = some .call → below sp (t.state u).shadow.frames = [] → Pushes t t' u sp
  /-- A jump that counts as a call is one at the level of the top frame. -/
  promoted : t.exitKind u = some .jump ∨ t.exitKind u = some .fallThrough →
    below sp (t.state u).shadow.frames = [] → (∃ p, t.lastBlock u = some p ∧ t.config.tailCalls.promotes p b = true) →
    Pushes t t' u (((t.state u).shadow.top?.map (·.sp)).getD sp)
  /-- Any other jump, and a block without one before it. -/
  stayed : t.exitKind u ≠ some .ret → t.exitKind u ≠ some .call → below sp (t.state u).shadow.frames = [] →
    (∀ p, t.lastBlock u = some p → t.config.tailCalls.promotes p b = false) → Pops t t' u 0

/-- Where control comes from, by the story and by the thread. -/
theorem departure_kind {sc : Scene ContextId Kept AnchorId} (hs : (t.state u).Tells sc) :
    (sc.departure t.blockOf).map (·.block) = t.lastBlock u ∧
      (sc.departure t.blockOf).map (·.kind) = t.exitKind u := by
  have hlast : sc.last.bind t.blockOf = t.lastBlock u := by rw [lastBlock, hs.exec]
  rw [exitKind, ← hlast, show (t.state u).exec.exitsPassed = sc.passed by rw [hs.exec], Scene.departure]
  cases sc.last.bind t.blockOf with
  | none => exact ⟨rfl, rfl⟩
  | some p => exact ⟨rfl, by rw [Option.bind_some, p.exits_min]; rfl⟩

theorem Moves.pushesAt {x : Transfer} {level : Addr} (m : Moves t t' u x) (hx : x.enters = true ∧ x.sp = level) :
    Pushes t t' u level := by
  obtain ⟨henters, rfl⟩ := hx
  exact m.pushes henters

theorem Moves.popsOf {x : Transfer} {n : Nat} (m : Moves t t' u x) (hx : x.enters = false ∧ x.pops = n) :
    Pops t t' u n := by
  obtain ⟨hstays, rfl⟩ := hx
  exact m.pops hstays

/-- A transfer that moves the frames as it says has the net effect of its case. -/
theorem Moves.netEffect {source : Option Departure} (hblock : source.map (·.block) = t.lastBlock u)
    (hkind : source.map (·.kind) = t.exitKind u)
    (m : Moves t t' u (.classify t.config.tailCalls source b sp (t.state u).shadow.frames (t.state u).bottom)) :
    NetEffect t u sp b t' := by
  have hsource : ∀ kind, t.exitKind u = some kind → ∃ d, source = some d ∧ d.kind = kind := by
    intro kind h
    exact Option.map_eq_some_iff.mp (hkind.trans h)
  have hother : ∀ kind, t.exitKind u ≠ some kind → ∀ d, source = some d → d.kind ≠ kind := by
    rintro kind h d rfl hd
    exact h (hkind.symm.trans (congrArg some hd))
  -- The case fixes the transfer, and the transfer says how the frames move.
  refine ⟨?once, ?stray, ?bare, ?matched, ?returned, ?left, ?called, ?promoted, ?stayed⟩
  case once =>
    cases hx : (Transfer.classify t.config.tailCalls source b sp (t.state u).shadow.frames
        (t.state u).bottom).enters with
    | true => exact .inl ⟨_, m.pushes hx⟩
    | false => exact .inr ⟨_, m.pops hx⟩
  case stray =>
    intro h hstray
    obtain ⟨d, rfl, hd⟩ := hsource _ h
    obtain ⟨top, htop, -⟩ := id hstray
    exact ⟨top, htop, m.pushesAt (Transfer.classify_stray _ _ hd htop hstray)⟩
  case bare =>
    intro h hstray hbare
    obtain ⟨d, rfl, hd⟩ := hsource _ h
    exact m.pushesAt (Transfer.classify_return_bare _ hd hstray hbare)
  case matched =>
    intro h hstray hown top htop hsp
    obtain ⟨d, rfl, hd⟩ := hsource _ h
    obtain ⟨k, hk⟩ := exists_match hstray htop hsp
    exact ⟨k, hk, m.popsOf (Transfer.classify_return_level _ hd htop hsp hk hown)⟩
  case returned =>
    intro h hown top htop hlt
    obtain ⟨d, rfl, hd⟩ := hsource _ h
    exact m.popsOf (Transfer.classify_return_below _ b hd htop hlt hown)
  case left =>
    intro h hleft
    exact m.popsOf (Transfer.classify_left _ b _ (hother _ h) hleft)
  case called =>
    intro h hnone
    obtain ⟨d, rfl, hd⟩ := hsource _ h
    exact m.pushesAt (Transfer.classify_call _ b _ hd hnone)
  case promoted =>
    rintro h hnone ⟨p, hp, hpromotes⟩
    obtain ⟨d, rfl, rfl⟩ := Option.map_eq_some_iff.mp (hblock.trans hp)
    have hd : d.kind = .jump ∨ d.kind = .fallThrough := by
      rw [← hkind] at h
      exact h.imp Option.some.inj Option.some.inj
    exact m.pushesAt (Transfer.classify_promoted _ hd hpromotes hnone)
  case stayed =>
    intro h hcall hnone hpromotes
    refine m.popsOf (Transfer.classify_stayed _ (hother _ h) (hother _ hcall) ?_ hnone)
    intro d hd
    rw [hd] at hblock
    exact hpromotes d.block hblock.symm

/-- In every state that can be reached a live block runs, and its frames move as its case says. -/
theorem transfer_net_effect (hreach : Reach config t) (pos : Position) {id : BlockId}
    (hb : t.blocks.block? id = some b) :
    ∃ a t', t.step (.enterBlock pos id) = .ok (.billed a, t') ∧ NetEffect t pos.thread pos.sp b t' := by
  obtain ⟨h, -⟩ := reach_inv hreach
  obtain ⟨sc, hs⟩ := (h.state pos.thread).1.story
  obtain ⟨r, hlive, -⟩ := Option.map_eq_some_iff.mp hb
  obtain ⟨a, t', he, -⟩ := enterBlock_ok h pos hlive
  have hmoves := enterBlock_moves h (reach_inOrder hreach).contexts he hs hb
  rw [hs.transfer_eq] at hmoves
  obtain ⟨hblock, hkind⟩ := departure_kind hs
  exact ⟨a, t', by simp only [step, he, ok_bind, pure_eq_ok], hmoves.netEffect hblock hkind⟩

/-- The block that `main` goes on with after the call in its first block. -/
def resumedBlock : Block := { callBlock 105 ⟨0⟩ with isEntry := false, finalExit := { kind := .ret } }

/-- `main` calls `work`, which jumps to `puts` in another object, so that two frames are at one level. -/
def leveledRun : List Op :=
  [.registerFunction "main" ⟨0⟩, .registerFunction "work" ⟨0⟩, .registerFunction "puts" ⟨1⟩,
    .registerBlock (callBlock 100 ⟨0⟩), .registerBlock { callBlock 200 ⟨1⟩ with finalExit := { kind := .jump } },
    .registerBlock { callBlock 300 ⟨2⟩ with object := ⟨1⟩, finalExit := { kind := .ret } },
    .registerBlock resumedBlock, .enterBlock { thread := ⟨1⟩, sp := ⟨1000⟩ } ⟨0⟩,
    .enterBlock { thread := ⟨1⟩, sp := ⟨990⟩ } ⟨1⟩, .enterBlock { thread := ⟨1⟩, sp := ⟨990⟩ } ⟨2⟩]

/-- The return from `puts` matches the second frame, and both are popped. -/
theorem transfer_net_effect_leveledRun :
    ∃ t a t', Reach fewBuckets t ∧ t.blocks.block? ⟨3⟩ = some resumedBlock ∧
      (t.state ⟨1⟩).shadow.frames.map (fun f => (f.sp, f.returnTo)) = [(⟨990⟩, .unknown), (⟨990⟩, ⟨105⟩)] ∧
      t.step (.enterBlock { thread := ⟨1⟩, sp := ⟨990⟩ } ⟨3⟩) = .ok (.billed a, t') ∧
      NetEffect t ⟨1⟩ ⟨990⟩ resumedBlock t' ∧ Pops t t' ⟨1⟩ 2 := by
  have hrun : (runFrom fewBuckets leveledRun).map (fun t =>
      (t.blocks.block? ⟨3⟩, t.exitKind ⟨1⟩, (t.state ⟨1⟩).bottom,
        (t.state ⟨1⟩).shadow.frames.map fun f => (f.sp, f.returnTo))) =
      .ok (some resumedBlock, some .ret, 0, [(⟨990⟩, .unknown), (⟨990⟩, ⟨105⟩)]) := by decide +kernel
  obtain ⟨t, hr, h⟩ := runFrom_of_map hrun
  simp only [Prod.mk.injEq] at h
  obtain ⟨hb, hkind, hbottom, hframes⟩ := h
  obtain ⟨a, t', hstep, heffect⟩ := transfer_net_effect (reach_runFrom hr) { thread := ⟨1⟩, sp := ⟨990⟩ } hb
  refine ⟨t, a, t', reach_runFrom hr, hb, hframes, hstep, heffect, ?_⟩
  obtain ⟨top, rest, hcons, htop, hrest⟩ := List.map_eq_cons_iff.mp hframes
  obtain ⟨f, rest, rfl, hf, hnil⟩ := List.map_eq_cons_iff.mp hrest
  cases List.map_eq_nil_iff.mp hnil
  obtain ⟨htopSp, htopTo⟩ := Prod.mk.inj htop
  obtain ⟨hfSp, hfTo⟩ := Prod.mk.inj hf
  have hlevel : level ⟨990⟩ [top, f] = [top, f] := by simp [level, htopSp, hfSp]
  have hstray : ¬Stray ⟨990⟩ resumedBlock.addr (t.state ⟨1⟩).shadow.frames := by
    rw [hcons]
    rintro ⟨_, ⟨⟩, hlt | ⟨-, hnone⟩⟩
    · rw [htopSp] at hlt
      exact Addr.lt_irrefl _ hlt
    · exact hnone f (by rw [hlevel]; simp) hfTo
  have hown : (t.state ⟨1⟩).bottom < (t.state ⟨1⟩).shadow.depth := by
    rw [hbottom, ShadowStack.depth, hcons]
    exact Nat.two_pos
  obtain ⟨k, hk, hpops⟩ := heffect.matched hkind hstray hown top (by rw [ShadowStack.top?, hcons]; rfl) htopSp
  rw [hcons, hlevel, List.findIdx?_cons, List.findIdx?_cons, htopTo, hfTo] at hk
  have hk : some 1 = some k := hk
  cases hk
  rw [hcons] at hpops
  exact hpops

end Tracker
end CallGraph
