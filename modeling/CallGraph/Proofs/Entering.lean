/-
  CallGraph.Proofs.Entering — a live block can always run.

  A transfer enters a function only out of a block, and then it leaves no frame behind, so the
  caller's context is still the active one. What is left to do once the context is set is said by
  `Ready`: whatever anchor the block is billed to, noting the follower and pushing the frame of a
  call succeeds and leads to a sound state. Each kind of transfer is made ready by a lemma:
  - `ready_stay`: no frame is pushed, after `pushContext_first` where a thread or a handler starts.
  - `ready_skipped`: a call into a skipped function.
  - `ready_call`: any other call, of the innermost function to itself or into another one.
  `prepare_ok` puts them together, and `Ready.arrive` runs the block.
-/

import CallGraph.Proofs.Billing
import CallGraph.Proofs.Leaving

namespace CallGraph

/-! ## Transfers -/

theorem leftBehind_le (sp : Addr) (n : Nat) (frames : List Frame) : leftBehind sp n frames ≤ frames.length := by
  induction frames generalizing n with
  | nil => exact Nat.le_refl _
  | cons f frames ih =>
    rw [leftBehind]
    split
    · exact Nat.succ_le_succ (ih _)
    · exact Nat.zero_le _

/-- Where none at its level has to be left, the frame on top decides whether any is. -/
theorem leftBehind_eq_zero {sp : Addr} {frames : List Frame} :
    leftBehind sp 0 frames = 0 ↔ ∀ f ∈ frames.head?, ¬f.sp < sp := by
  cases frames with
  | nil => exact ⟨fun _ => nofun, fun _ => rfl⟩
  | cons f frames =>
    rw [leftBehind]
    by_cases hlt : f.sp < sp
    · simp [hlt]
    · simp [hlt]

section
variable {sp target : Addr} {frames : List Frame} {top : Frame}

/-! A return leaves no frame where the stack grew below the top frame, and one where it is above it. -/

theorem returnDepth_above (htop : frames.head? = some top) (hlt : sp < top.sp) :
    returnDepth frames sp target = none := by
  cases frames with
  | nil => cases htop
  | cons f frames =>
    cases htop
    rw [returnDepth, if_pos hlt]

theorem returnDepth_below (htop : frames.head? = some top) (hlt : top.sp < sp) :
    returnDepth frames sp target = some 1 := by
  cases frames with
  | nil => cases htop
  | cons f frames =>
    cases htop
    have hnot : ¬sp < top.sp := by
      rw [Addr.lt_iff] at hlt ⊢
      omega
    rw [returnDepth, if_neg hnot, if_pos hlt]

theorem Transfer.minPops_eq (htop : frames.head? = some top) :
    minPops frames sp target = returnDepth frames sp target := by
  cases frames with
  | nil => cases htop
  | cons f frames => rw [minPops, List.isEmpty_cons, if_neg Bool.false_ne_true]

end

namespace Transfer

theorem classify_cases (rule : TailCallRule) (source : Option Departure) (target : Block) (sp : Addr)
    (frames : List Frame) (bottom : Nat) :
    (∃ calls promoted returnAsJump,
      classify rule source target sp frames bottom = ofJump sp frames calls promoted returnAsJump) ∨
    ∃ n, classify rule source target sp frames bottom = ofReturn sp frames bottom n := by
  unfold classify
  split
  · exact .inl ⟨_, _, _, rfl⟩
  · split
    · exact .inl ⟨_, _, _, rfl⟩
    · split
      · exact .inr ⟨_, rfl⟩
      · exact .inl ⟨_, _, _, rfl⟩
    · exact .inl ⟨_, _, _, rfl⟩

theorem ofJump_enters {sp : Addr} {frames : List Frame} {calls promoted returnAsJump : Bool}
    (h : (ofJump sp frames calls promoted returnAsJump).enters = true) :
    (ofJump sp frames calls promoted returnAsJump).pops = 0 ∧ (calls || promoted) = true := by
  simp only [ofJump, Bool.and_eq_true, decide_eq_true_eq] at h ⊢
  exact ⟨h.2, h.1⟩

variable {rule : TailCallRule} {source : Option Departure} {target : Block} {sp : Addr} {frames : List Frame}
  {bottom : Nat}

theorem ofReturn_enters {n : Nat} (h : (ofReturn sp frames bottom n).enters = true) :
    (ofReturn sp frames bottom n).pops = 0 := by
  unfold ofReturn at h ⊢
  split at h
  · rename_i hle
    rw [if_pos hle]
  · cases h

/-- No transfer leaves more frames than there are. -/
theorem pops_le : (classify rule source target sp frames bottom).pops ≤ frames.length := by
  rcases classify_cases rule source target sp frames bottom with ⟨calls, promoted, returnAsJump, e⟩ | ⟨n, e⟩
  · rw [e]
    exact leftBehind_le sp 0 frames
  · rw [e, ofReturn]
    split
    · exact Nat.zero_le _
    · exact leftBehind_le ..

/-- A transfer that enters a function comes out of a block and leaves no frame. -/
theorem of_enters (h : (classify rule source target sp frames bottom).enters = true) :
    (classify rule source target sp frames bottom).pops = 0 ∧ ∃ d, source = some d := by
  cases source with
  | none =>
    have := (ofJump_enters h).2
    cases this
  | some d =>
    refine ⟨?_, d, rfl⟩
    rcases classify_cases rule (some d) target sp frames bottom with ⟨calls, promoted, returnAsJump, e⟩ | ⟨n, e⟩
    · rw [e] at h ⊢
      exact (ofJump_enters h).1
    · rw [e] at h ⊢
      exact ofReturn_enters h

end Transfer

namespace Block

theorem exits_length (b : Block) : b.exits.length = b.finalIndex + 1 := by simp [exits, finalIndex]

theorem exitAfter_lt (b : Block) (n : Nat) : (b.exitAfter n).1 < b.exits.length := by
  rw [exits_length, finalIndex]
  unfold exitAfter
  split
  · rename_i e he
    have := (List.getElem?_eq_some_iff.mp he).1
    exact Nat.lt_succ_of_lt this
  · exact Nat.lt_succ_self _

theorem returnAddress_ok {b : Block} {n : Nat} (h : n < b.exits.length) : ∃ addr, b.returnAddress n = .ok addr := by
  obtain ⟨e, he⟩ : ∃ e, b.exits[n]? = some e := ⟨_, List.getElem?_eq_getElem h⟩
  exact ⟨_, by simp only [returnAddress, he, pure_eq_ok]; rfl⟩

end Block

namespace Tracker

variable {t : Tracker}

/-! ## Exits -/

/-- The block of an anchor is live and has an exit of that number. -/
def HasExit (anchors : Directory) (blocks : BlockTable) (a : AnchorId) (exit : Nat) : Prop :=
  ∃ x r, anchors.get? a = some x ∧ blocks.get? x.key.block = some r ∧ exit < r.block.exits.length

theorem HasExit.mono {A A' : Directory} {B B' : BlockTable} (ha : A.Keeps A') (hb : B.Keeps B') {a : AnchorId}
    {exit : Nat} (h : HasExit A B a exit) : HasExit A' B' a exit := by
  obtain ⟨x, r, hx, hr, hlt⟩ := h
  obtain ⟨x', hx', hk⟩ := ha a x hx
  obtain ⟨r', hr', hblock⟩ := hb _ r hr
  exact ⟨x', r', hx', hk ▸ hr', hblock ▸ hlt⟩

theorem departure_ok (h : t.Inv) :
    ∃ source, t.departure = .ok source ∧
      ∀ d, source = some d → t.thread.exec.anchor = some d.anchor ∧ HasExit t.anchors t.blocks d.anchor d.exit := by
  cases ha : t.thread.exec.anchor with
  | none => exact ⟨none, by simp only [departure, ha, pure_eq_ok], fun d e => by cases e⟩
  | some a =>
    obtain ⟨-, -, x, hx, -, -⟩ := h.settled a ha
    obtain ⟨r, hr⟩ := h.tables.blockLive a x hx
    refine ⟨_, by
      simp only [departure, ha, Directory.get_eq_ok hx, BlockTable.get_eq_ok hr, ok_bind, pure_eq_ok]; rfl, ?_⟩
    intro d e
    cases e
    exact ⟨rfl, x, r, hx, hr, Block.exitAfter_lt ..⟩

/-- A call comes from the last costed anchor if there is one. -/
theorem callSource_ok (tables : Tables t.contexts.depthLimit t.functions.size t.blocks t.anchors) {d : Departure}
    {thread : ThreadId} {c : ContextId} (hexit : HasExit t.anchors t.blocks d.anchor d.exit)
    (hd : Denotes t.anchors thread c d.anchor)
    (hcosted : ∀ a, t.thread.exec.costed = some a → Denotes t.anchors thread c a) :
    ∃ source exit, t.callSource d = .ok (source, exit) ∧ HasExit t.anchors t.blocks source exit ∧
      Denotes t.anchors thread c source ∧ ∀ a, t.thread.exec.costed = some a → a = source := by
  cases hc : t.thread.exec.costed with
  | none => exact ⟨d.anchor, d.exit, by simp only [callSource, hc, pure_eq_ok], hexit, hd, fun a e => by cases e⟩
  | some a =>
    have hdenotes := hcosted a hc
    obtain ⟨x, hx, -⟩ := hcosted a hc
    obtain ⟨r, hr⟩ := tables.blockLive a x hx
    refine ⟨a, r.block.finalIndex, ?_, ⟨x, r, hx, hr, ?_⟩, hdenotes, fun b e => (Option.some.inj e).symm⟩
    · simp only [callSource, hc, Directory.get_eq_ok hx, BlockTable.get_eq_ok hr, ok_bind, pure_eq_ok]
    · rw [Block.exits_length]
      exact Nat.lt_succ_self _

theorem returnAddressOf_ok {source : AnchorId} {exit : Nat} (h : HasExit t.anchors t.blocks source exit) :
    ∃ addr, t.returnAddressOf source exit = .ok addr := by
  obtain ⟨x, r, hx, hr, hlt⟩ := h
  obtain ⟨addr, haddr⟩ := Block.returnAddress_ok hlt
  refine ⟨addr.getD .unknown, ?_⟩
  simp only [returnAddressOf, Directory.get_eq_ok hx, BlockTable.get_eq_ok hr, haddr, ok_bind, pure_eq_ok]

/-! ## Frames of calls -/

theorem pushFrame_skipped {source : AnchorId} {exit : Nat} (hexit : HasExit t.anchors t.blocks source exit)
    (target : AnchorId) (sp : Addr) :
    ∃ t' f, t.pushFrame source exit target sp true = .ok t' ∧ Within t t' ∧ t'.functions = t.functions ∧
      t'.ledger = t.ledger ∧ f.arc = none ∧ f.costed = t.thread.exec.costed ∧
      t'.thread = { t.thread with
        shadow := { frames := f :: t.thread.shadow.frames }
        exec := { t.thread.exec with costed := t.thread.exec.costed.or (some source) } } := by
  obtain ⟨addr, haddr⟩ := returnAddressOf_ok hexit
  refine ⟨_, { arc := none, sp, returnTo := addr, context := t.thread.shadow.staged.context
               fnDepth := t.thread.shadow.staged.fnDepth, costed := t.thread.exec.costed }, by
    simp only [pushFrame, if_true, ok_bind, pure_eq_ok, haddr]; rfl, ?_⟩
  exact ⟨⟨rfl, .refl _, rfl, rfl, rfl, rfl, rfl⟩, rfl, rfl, rfl, rfl, rfl⟩

theorem functionOf_ok {thread : ThreadId} {c : ContextId} {a : AnchorId} {fn : FnId} {slots : List (Option FnId)}
    (ha : Denotes t.anchors thread c a) (hs : Stands t.contexts c (some fn :: slots)) : t.functionOf a = .ok fn := by
  obtain ⟨x, hx, rfl, -⟩ := ha
  obtain ⟨y, hy, rfl⟩ := hs.top
  simp only [functionOf, Directory.get_eq_ok hx, hy, ok_bind, pure_eq_ok]

/-- An arc is opened between the functions of its anchors, with an activation if they differ. -/
theorem openArc_ok {source target : AnchorId} {caller callee : FnId} {c : ContextId}
    (hcostly : ∀ a, t.thread.exec.costed = some a → a = source)
    (hstaged : t.thread.shadow.staged.context = some c) (hcaller : t.functionOf source = .ok caller)
    (hcallee : t.functionOf target = .ok callee) (hknown : callee.num < t.functions.size) (exit : Nat) :
    ∃ id F L, t.openArc source exit target = .ok ({ id, caller, callee }, { t with functions := F, ledger := L }) ∧
      t.functions.Keeps F ∧
      (∀ g, F.activeCount g = t.functions.activeCount g + if caller ≠ callee ∧ g = callee then 1 else 0) ∧
      (Reported t.functions t.ledger → Reported F L) := by
  have hcheck : t.checkCall source = .ok () := by
    have : (t.thread.exec.costed.filter fun a => a ≠ source) = none := by
      cases hc : t.thread.exec.costed with
      | none => rfl
      | some a => simp [hcostly a hc]
    simp only [checkCall, this, hstaged, Option.isNone_some, Bool.false_eq_true, if_false, pure_eq_ok]
  have hcall : ∀ {F : FunctionTable}, Reported F t.ledger → Reported F (t.ledger.call { source, exit, target }).2 :=
    fun h => h.congr (fun _ => rfl) (Reported.switches_call t.ledger _)
  by_cases e : caller = callee
  · refine ⟨_, t.functions, _, by
      simp only [openArc, hcheck, hcaller, hcallee, ok_bind, ne_eq, e, not_true, if_false, pure_eq_ok]; rfl,
      .refl _, fun g => by simp [e], hcall⟩
  · obtain ⟨F, L, henter, hkeeps, hc, hr⟩ := enterFunction_ok
      (t := { t with ledger := (t.ledger.call { source, exit, target }).2 }) hknown
    refine ⟨_, F, L, by
      simp only [openArc, hcheck, hcaller, hcallee, ok_bind, ne_eq, e, not_false_eq_true, if_true, henter,
        pure_eq_ok]; rfl, hkeeps, fun g => ?_, fun h => hr (hcall h)⟩
    simpa [e] using hc g

theorem pushFrame_call {source target : AnchorId} {exit : Nat} {caller callee : FnId} {c : ContextId}
    (hexit : HasExit t.anchors t.blocks source exit) (hcostly : ∀ a, t.thread.exec.costed = some a → a = source)
    (hstaged : t.thread.shadow.staged.context = some c) (hcaller : t.functionOf source = .ok caller)
    (hcallee : t.functionOf target = .ok callee) (hknown : callee.num < t.functions.size) (sp : Addr) :
    ∃ t' f arc, t.pushFrame source exit target sp false = .ok t' ∧ Within t t' ∧ f.arc = some arc ∧
      arc.caller = caller ∧ arc.callee = callee ∧ f.context = some c ∧
      f.fnDepth = t.thread.shadow.staged.fnDepth ∧ f.costed = t.thread.exec.costed ∧
      t'.thread = { t.thread with
        shadow := { frames := f :: t.thread.shadow.frames }
        exec := { t.thread.exec with costed := none } } ∧
      (∀ g, t'.functions.activeCount g =
        t.functions.activeCount g + if caller ≠ callee ∧ g = callee then 1 else 0) ∧
      (Reported t.functions t.ledger → Reported t'.functions t'.ledger) := by
  obtain ⟨addr, haddr⟩ := returnAddressOf_ok hexit
  obtain ⟨id, F, L, harc, hkeeps, hc, hr⟩ := openArc_ok hcostly hstaged hcaller hcallee hknown exit
  have haddr' : returnAddressOf { t with functions := F, ledger := L } source exit = .ok addr := haddr
  refine ⟨_, { arc := some { id, caller, callee }, sp, returnTo := addr, context := t.thread.shadow.staged.context
               fnDepth := t.thread.shadow.staged.fnDepth, costed := t.thread.exec.costed }, { id, caller, callee }, by
    simp only [pushFrame, Bool.false_eq_true, if_false, harc, ok_bind, pure_eq_ok, haddr']; rfl, ?_⟩
  exact ⟨⟨rfl, hkeeps, rfl, rfl, rfl, rfl, rfl⟩, rfl, rfl, rfl, hstaged, rfl, rfl, rfl, hc, hr⟩

/-! ## Functions on top -/

/-- A call that is half done: the callee is on top of the function stack, and its context is active,
but neither its frame nor its activation is there yet. -/
structure Ahead (t t₁ : Tracker) (c : ContextId) (g : FnId) (slots : List (Option FnId)) (c' : ContextId) (fn : FnId)
    (slots' : List (Option FnId)) : Prop where
  caller : t.thread.fns.slots = some g :: slots
  callerStands : Stands t.contexts c (some g :: slots)
  grows : Grows t t₁
  current : t₁.threads.current = t.threads.current
  parked : t₁.threads.parked = t.threads.parked
  tables : Tables t₁.contexts.depthLimit t₁.functions.size t₁.blocks t₁.anchors
  thread : t₁.thread = { t.thread with
    shadow := { t.thread.shadow with staged := { context := some c, fnDepth := slots.length + 1 } }
    fns := ⟨some fn :: slots'⟩, exec := { t.thread.exec with context := some c' } }
  known : fn.num < t₁.functions.size
  contexts : t₁.contexts.Known t₁.functions
  count : ∀ f, t₁.functions.activeCount f = t.functions.activeCount f
  reported : Reported t₁.functions t₁.ledger
  stands : Stands t₁.contexts c' (some fn :: slots')
  shared : if fn = g then c' = c ∧ slots' = slots else slots' = some g :: slots

/-- The callee goes on top unless it is there already. -/
theorem pushContext_call (h : t.Sound) {c : ContextId} {fn : FnId} (hctx : t.thread.exec.context = some c)
    (hknown : fn.num < t.functions.size) :
    ∃ t₁ g slots c' slots', t.pushContext fn = .ok t₁ ∧ t₁.blocks = t.blocks ∧ t₁.anchors = t.anchors ∧
      Ahead t t₁ c g slots c' fn slots' := by
  have hl := h.active.lineage
  rw [hctx] at hl
  obtain ⟨g, slots, hslots, hs⟩ := hl.top_of_context
  rw [hslots] at hs
  have hstage : t.thread.shadow.stage t.thread.exec.context t.thread.fns.depth =
      .ok { t.thread.shadow with staged := { context := some c, fnDepth := slots.length + 1 } } := by
    simp [ShadowStack.stage, h.active.unstaged, hctx, FnStack.depth, hslots]
  have htop : t.thread.fns.top? = some g := by simp [FnStack.top?, hslots]
  by_cases e : fn = g
  · -- A function that calls itself is on top already.
    subst e
    have hfns : t.thread.fns = ⟨some fn :: slots⟩ := congrArg FnStack.mk hslots
    refine ⟨_, fn, slots, c, slots, by simp only [pushContext, hstage, ok_bind, htop, if_true, pure_eq_ok]; rfl, ?_⟩
    refine ⟨rfl, rfl, hslots, hs, ⟨rfl, .refl _, .refl _, .refl _⟩, rfl, rfl, h.tables, ?_, hknown,
      h.known, fun _ => rfl, h.reported, hs, by simp⟩
    rw [← hfns, ← hctx]
    rfl
  · -- Any other callee is pushed, and the chain with it is interned.
    have hne : ¬(some g = some fn) := fun he => e (Option.some.inj he).symm
    obtain ⟨c', C, F, hintern, hstands, hext, hcontexts, hsize, hc⟩ :=
      ContextTable.intern_ok h.known h.tables.limitPos hknown (some g :: slots)
    have hpush : t.thread.fns.push (some fn) = ⟨some fn :: some g :: slots⟩ := by rw [FnStack.push, hslots]
    refine ⟨_, g, slots, c', some g :: slots, by
      simp only [pushContext, hstage, ok_bind, htop, if_neg hne, Option.isNone_some, Bool.false_eq_true, if_false,
        pure_eq_ok, hpush, hintern]; rfl, ?_⟩
    refine ⟨rfl, rfl, hslots, hs, ⟨rfl, hext, .refl _, .refl _⟩, rfl, rfl, ?_, rfl, ?_,
      hcontexts, hc, h.reported.congr hc fun _ => rfl, hstands, by simp [e]⟩
    · show Tables C.depthLimit F.size t.blocks t.anchors
      rw [hext.limit, hsize]
      exact h.tables
    · show fn.num < F.size
      rw [hsize]
      exact hknown

/-- The first function of a thread or of a handler gets an activation at once. -/
theorem pushContext_first (h : t.Sound) {fn : FnId} (hctx : t.thread.exec.context = none)
    (hknown : fn.num < t.functions.size) :
    ∃ t' c, t.pushContext fn = .ok t' ∧ t'.Sound ∧ Grows t t' ∧ t'.threads.current = t.threads.current ∧
      t'.blocks = t.blocks ∧ t'.anchors = t.anchors ∧ t'.thread.exec.context = some c := by
  have hl := h.active.lineage
  rw [hctx] at hl
  obtain ⟨hcosted, -, htop⟩ := hl.bottom_of_no_context
  have hstage : t.thread.shadow.stage t.thread.exec.context t.thread.fns.depth =
      .ok { t.thread.shadow with staged := { context := none, fnDepth := t.thread.fns.depth } } := by
    simp [ShadowStack.stage, h.active.unstaged, hctx]
  obtain ⟨F, L, henter, hkeeps, hc, hr⟩ := enterFunction_ok hknown
  have hknown' : fn.num < F.size := by
    rw [hkeeps.size]
    exact hknown
  obtain ⟨c, C, G, hintern, hstands, hext, hcontexts, hsize, hc'⟩ :=
    ContextTable.intern_ok (h.known.keeps hkeeps) h.tables.limitPos hknown' t.thread.fns.slots
  have htop' : t.thread.fns.top? = none := htop
  refine ⟨_, c, by
    simp only [pushContext, hstage, ok_bind, htop', reduceCtorEq, if_false, Option.isNone_none, if_true, henter,
      FnStack.push, hintern, pure_eq_ok]; rfl, ?_⟩
  refine ⟨?_, ⟨rfl, hext, .refl _, .refl _⟩, rfl, rfl, rfl, rfl⟩
  refine h.grown ⟨rfl, hext, .refl _, .refl _⟩ rfl rfl ?_ hcontexts ⟨?_, rfl⟩ (fun g => ?_) ?_
  · show Tables C.depthLimit G.size t.blocks t.anchors
    rw [hext.limit, hsize, hkeeps.size]
    exact h.tables
  · rw [hcosted] at hl
    have hfirst := (hl.mono (fun _ _ => Stands.mono hext) fun _ _ hd => hd).first fn c hstands
    rw [← hcosted] at hfirst
    exact hfirst
  · have h1 := h.balance g
    have h2 := count_cons_slot fn g t.thread.fns.slots
    have h3 := hc g
    have h4 := hc' g
    simp only [Registry.slotsOf, setThread, thread] at h1 h2 ⊢
    omega
  · exact (hr h.reported).congr hc' fun _ => rfl

/-! ## Getting ready -/

/-- The tables may change while a block is billed. -/
theorem Sound.billed (h : t.Sound) {A : Directory} {B : BlockTable} (S : Stats)
    (tables : Tables t.contexts.depthLimit t.functions.size B A) (ha : t.anchors.Keeps A) (hb : t.blocks.Keeps B) :
    Sound { t with anchors := A, blocks := B, stats := S } :=
  h.grown ⟨rfl, .refl _, ha, hb⟩ rfl rfl tables h.known (h.active.mono (.refl _) ha) h.balance h.reported

/-- A context is active, and once the block is billed the rest of entering it succeeds. -/
structure Ready (t : Tracker) (source : Option Departure) (x : Transfer) (skip : Bool) : Prop where
  tables : Tables t.contexts.depthLimit t.functions.size t.blocks t.anchors
  last : ∀ d, source = some d → ∃ y, t.anchors.get? d.anchor = some y
  link : ∃ c, t.thread.exec.context = some c ∧ ∀ A B S a,
    Tables t.contexts.depthLimit t.functions.size B A → t.anchors.Keeps A → t.blocks.Keeps B →
    Denotes A t.threads.current c a →
    ∃ t', link { t with anchors := A, blocks := B, stats := S } source x a skip = .ok t' ∧ t'.Sound ∧
      Grows { t with anchors := A, blocks := B, stats := S } t' ∧ t'.threads.current = t.threads.current ∧
      t'.thread.exec.context = some c

variable {source : Option Departure} {d : Departure} {x : Transfer} {c : ContextId}

theorem ready_stay (h : t.Sound) (hlast : ∀ d, source = some d → ∃ y, t.anchors.get? d.anchor = some y)
    (hctx : t.thread.exec.context = some c) (hx : x.enters = false) (skip : Bool) : t.Ready source x skip := by
  refine ⟨h.tables, hlast, c, hctx, fun A B S a tables ha hb hd => ?_⟩
  cases hs : source with
  | none => exact ⟨_, rfl, h.billed S tables ha hb, .refl _, rfl, hctx⟩
  | some d =>
    obtain ⟨y, hy⟩ := hlast d hs
    obtain ⟨y', hy', -⟩ := ha _ y hy
    obtain ⟨z, hz, -⟩ := hd
    obtain ⟨A', hset, tables', ha'⟩ := tables.setNext_ok hy' hz
    refine ⟨_, by simp only [Tracker.link, hset, ok_bind, hx, Bool.false_eq_true, if_false, pure_eq_ok]; rfl, ?_⟩
    exact ⟨h.billed S tables' (ha.trans ha') hb, ⟨rfl, .refl _, ha', .refl _⟩, rfl, hctx⟩

theorem ready_skipped (h : t.Sound) (hexit : HasExit t.anchors t.blocks d.anchor d.exit)
    (hctx : t.thread.exec.context = some c) (hd : Denotes t.anchors t.threads.current c d.anchor)
    (hx : x.enters = true) : t.Ready (some d) x true := by
  have ⟨y, _, hy, _⟩ := hexit
  refine ⟨h.tables, fun _ e => Option.some.inj e ▸ ⟨y, hy⟩, c, hctx, fun A B S a tables ha hb hbilled => ?_⟩
  obtain ⟨y', hy', -⟩ := ha _ y hy
  obtain ⟨z, hz, -⟩ := hbilled
  obtain ⟨A', hset, tables', hA⟩ := tables.setNext_ok hy' hz
  have ha' := ha.trans hA
  have h' := h.billed S tables' ha' hb
  have hl := h'.active.lineage
  obtain ⟨s, n, hsource, hexit', hs, hsame⟩ := callSource_ok tables' (hexit.mono ha' hb) (hd.mono ha')
    fun a e => h'.costed hctx e
  obtain ⟨t', f, hpush, w, hF, hL, harc, hfc, hthread⟩ := pushFrame_skipped hexit' a x.sp
  have g : Grows { t with anchors := A, blocks := B, stats := S } { t with anchors := A', blocks := B, stats := S } :=
    ⟨rfl, .refl _, hA, .refl _⟩
  refine ⟨t', ?_, ?_, g.trans w.grows, w.current, ?_⟩
  · simp only [Tracker.link, hset, ok_bind, hx, if_true, hsource, hpush]
  · refine h'.within w ?_ (fun k => ?_) ?_
    · rw [hthread]
      refine ⟨?_, rfl⟩
      -- The frame of a skipped function changes nothing but where calls come from.
      have hnew : Lineage (Stands t.contexts) (Denotes A' t.threads.current) t.thread.exec.signal (some c)
          (t.thread.exec.costed.or (some s)) (f :: t.thread.shadow.frames) t.thread.fns.slots t.thread.handlers := by
        refine .skipped f _ ?_ harc fun a' e => ?_
        · rw [hfc, ← hctx]
          exact hl
        · have : a' = s := by
            cases hc : t.thread.exec.costed with
            | none => rw [hc] at e; exact (Option.some.inj e).symm
            | some b => rw [hc] at e; exact (Option.some.inj e).symm.trans (hsame b hc)
          exact this ▸ hs
      rw [← hctx] at hnew
      exact hnew
    · have h1 := h.balance k
      have h2 := slotsOf_of_parked w.parked k
      have h3 : t'.threads.active.fns.slots = t.threads.active.fns.slots := congrArg (·.fns.slots) hthread
      rw [hF, h1]
      rw [h3] at h2
      exact (Nat.add_right_cancel h2).symm
    · rw [hF, hL]
      exact h.reported
  · rw [hthread]
    exact hctx

/-- The second half of a call pushes its frame and opens its activation. -/
theorem Ahead.link {t₁ : Tracker} {g fn : FnId} {slots slots' : List (Option FnId)} {c' : ContextId}
    (w : Ahead t t₁ c g slots c' fn slots') (h : t.Sound) (hexit : HasExit t.anchors t.blocks d.anchor d.exit)
    (hctx : t.thread.exec.context = some c) (hd : Denotes t.anchors t.threads.current c d.anchor) {a : AnchorId}
    (ha : Denotes t₁.anchors t₁.threads.current c' a) (sp : Addr) :
    ∃ s n t', t₁.callSource d = .ok (s, n) ∧ t₁.pushFrame s n a sp false = .ok t' ∧ t'.Sound ∧ Grows t₁ t' ∧
      t'.threads.current = t₁.threads.current ∧ t'.thread.exec.context = some c' := by
  have hcosted : t₁.thread.exec.costed = t.thread.exec.costed := by rw [w.thread]
  obtain ⟨s, n, hsource, hexit', hs, hsame⟩ := callSource_ok w.tables (hexit.mono w.grows.anchors w.grows.blocks)
    (hd.mono w.grows.anchors) fun a e => (h.costed hctx (hcosted ▸ e)).mono w.grows.anchors
  have hcaller : t₁.functionOf s = .ok g := functionOf_ok hs (w.callerStands.mono w.grows.contexts)
  have hcallee : t₁.functionOf a = .ok fn := functionOf_ok ha w.stands
  obtain ⟨t', f, arc, hpush, w', harc, hg, hfn, hfctx, hfdepth, hfcosted, hthread, hcount, hr⟩ :=
    pushFrame_call hexit' hsame (by rw [w.thread]) hcaller hcallee w.known sp
  refine ⟨s, n, t', hsource, hpush, ?_, w'.grows, w'.current, by rw [hthread, w.thread]⟩
  have hcontexts : t.contexts.Extends t'.contexts := w.grows.contexts.trans w'.grows.contexts
  have hanchors : t.anchors.Keeps t'.anchors := w.grows.anchors.trans w'.grows.anchors
  refine h.grown (w.grows.trans w'.grows) (w'.current.trans w.current) (w'.parked.trans w.parked) ?_ ?_ ⟨?_, ?_⟩
    (fun k => ?_) (hr w.reported)
  · rw [w'.contexts, w'.functions.size, w'.blocks, w'.anchors]
    exact w.tables
  · rw [w'.contexts]
    exact w.contexts.keeps w'.functions
  · have hl := h.active.lineage.mono (fun _ _ => Stands.mono hcontexts) fun _ _ => Denotes.mono hanchors
    rw [hctx, w.caller, ← hcosted, ← hfcosted] at hl
    have hfdepth : f.fnDepth = slots.length + 1 := by rw [hfdepth, w.thread]
    rw [hthread, w.thread]
    subst hg hfn
    -- A function that calls itself shares its slot with the call.
    by_cases e : arc.callee = arc.caller
    · have := w.shared
      rw [if_pos e] at this
      obtain ⟨rfl, rfl⟩ := this
      rw [e]
      exact .itself f arc hl harc e hfctx hfdepth
    · have := w.shared
      rw [if_neg e] at this
      subst this
      refine .across f arc c' hl harc e hfctx hfdepth ?_
      rw [w'.contexts]
      exact w.stands
  · rw [hthread]
  · have h1 := h.balance k
    have h2 := slotsOf_of_parked (w'.parked.trans w.parked) k
    have h3 : t'.threads.active.fns.slots = some fn :: slots' := by
      have : t'.thread.fns.slots = some fn :: slots' := by rw [hthread, w.thread]
      exact this
    have h4 : t.threads.active.fns.slots = some g :: slots := w.caller
    rw [hcount, w.count, h1]
    rw [h3, h4, count_cons_slot, count_cons_slot] at h2
    have h5 := w.shared
    by_cases e : fn = g
    · rw [if_pos e] at h5
      simp only [e, h5.2, ne_eq, not_true, false_and, if_false] at h2 ⊢
      omega
    · rw [if_neg e] at h5
      rw [h5, count_cons_slot] at h2
      simp only [ne_eq, Ne.symm e, not_false_eq_true, true_and]
      omega

theorem ready_call (h : t.Sound) (hexit : HasExit t.anchors t.blocks d.anchor d.exit)
    (hctx : t.thread.exec.context = some c) (hd : Denotes t.anchors t.threads.current c d.anchor)
    (hx : x.enters = true) {fn : FnId} (hknown : fn.num < t.functions.size) :
    ∃ t₁, t.pushContext fn = .ok t₁ ∧ Grows t t₁ ∧ t₁.blocks = t.blocks ∧
      t₁.threads.current = t.threads.current ∧ t₁.Ready (some d) x false := by
  obtain ⟨t₁, g, slots, c', slots', hpush, hblocks, hanchors, w⟩ := pushContext_call h hctx hknown
  refine ⟨t₁, hpush, w.grows, hblocks, w.current, w.tables, fun _ e => ?_, c', by rw [w.thread], ?_⟩
  · obtain ⟨y, _, hy, _⟩ := hexit
    cases e
    exact ⟨y, hanchors ▸ hy⟩
  intro A B S a tables ha hb hbilled
  obtain ⟨y, _, hy, _⟩ := hexit.mono (hanchors ▸ ha) (hblocks ▸ hb)
  have ⟨z, hz, _⟩ := hbilled
  obtain ⟨A', hset, tables', hA⟩ := tables.setNext_ok hy hz
  have g₁ : Grows t₁ { t₁ with anchors := A', blocks := B, stats := S } := ⟨rfl, .refl _, ha.trans hA, hb⟩
  have w' : Ahead t { t₁ with anchors := A', blocks := B, stats := S } c g slots c' fn slots' :=
    { w with grows := w.grows.trans g₁, tables := tables' }
  obtain ⟨s, n, t', hsource, hpush', h', g', hcur, hctx'⟩ := w'.link h hexit hctx hd (hbilled.mono hA) x.sp
  have g₂ : Grows { t₁ with anchors := A, blocks := B, stats := S }
      { t₁ with anchors := A', blocks := B, stats := S } :=
    ⟨rfl, .refl _, hA, .refl _⟩
  refine ⟨t', ?_, h', g₂.trans g', hcur, hctx'⟩
  simp only [Tracker.link, hset, ok_bind, hx, if_true, hsource, hpush']

/-! ## Entering a block -/

/-- A state that is ready takes the block, and its anchor becomes the last one. -/
theorem Ready.arrive {skip : Bool} (hr : t.Ready source x skip) {id : BlockId} {r : Resident}
    (hb : t.blocks.get? id = some r) :
    ∃ c a t₁ t', t.thread.exec.context = some c ∧
      t.billTo { block := id, context := c, thread := t.threads.current } (source.map (·.anchor)) = .ok (a, t₁) ∧
      t₁.link source x a skip = .ok t' ∧
      Inv (t'.setThread { t'.thread with exec := { t'.thread.exec with anchor := some a, exitsPassed := 0 } }) ∧
      Grows t (t'.setThread { t'.thread with exec := { t'.thread.exec with anchor := some a, exitsPassed := 0 } }) := by
  obtain ⟨c, hctx, hlink⟩ := hr.link
  have hlast : ∀ a, source.map (·.anchor) = some a → ∃ y, t.anchors.get? a = some y := by
    intro a e
    obtain ⟨d, hd, rfl⟩ := Option.map_eq_some_iff.mp e
    exact hr.last d hd
  obtain ⟨a, A, B, S, hbill, tables, hA, hB, y, hy, hk⟩ :=
    billTo_ok hr.tables { block := id, context := c, thread := t.threads.current } hb hlast
  have hbilled : Denotes A t.threads.current c a := ⟨y, hy, by rw [hk], by rw [hk]⟩
  obtain ⟨t', hlink, h', g', hcur, hctx'⟩ := hlink A B S a tables hA hB hbilled
  have w : Within t'
      (t'.setThread { t'.thread with exec := { t'.thread.exec with anchor := some a, exitsPassed := 0 } }) :=
    ⟨rfl, .refl _, rfl, rfl, rfl, rfl, rfl⟩
  have g : Grows t { t with anchors := A, blocks := B, stats := S } := ⟨rfl, .refl _, hA, hB⟩
  refine ⟨c, a, _, t', hctx, hbill, hlink, ⟨?_, ?_⟩, g.trans (g'.trans w.grows)⟩
  · exact h'.within w ⟨h'.active.lineage, h'.active.unstaged⟩ h'.balance h'.reported
  · intro a' e
    cases e
    refine ⟨c, hctx', ?_⟩
    have hd := hbilled.mono g'.anchors
    rw [← hcur] at hd
    exact hd

/-- What `enterBlock` does between leaving the ended calls and billing the block: it reads whether
  the function entered is skipped, and pushes its context if it is not. -/
def prepare (t : Tracker) (x : Transfer) (fn : FnId) : Except Fault (Bool × Tracker) := do
  let skip ← if x.enters then do
      let f ← t.functions.get fn
      pure f.skip
    else pure false
  let t' ← if (x.enters && !skip) || t.thread.exec.context.isNone then t.pushContext fn else pure t
  pure (skip, t')

/-- Whichever transfer led to the block, the state is made ready for it. -/
theorem prepare_ok (h : t.Sound) (hdep : ∀ d, source = some d → HasExit t.anchors t.blocks d.anchor d.exit)
    (henters : x.enters = true → ∃ d c, source = some d ∧ t.thread.exec.context = some c ∧
      Denotes t.anchors t.threads.current c d.anchor)
    {fn : FnId} (hknown : fn.num < t.functions.size) :
    ∃ skip t₁, t.prepare x fn = .ok (skip, t₁) ∧ Grows t t₁ ∧ t₁.blocks = t.blocks ∧
      t₁.threads.current = t.threads.current ∧ t₁.Ready source x skip := by
  have hlast : ∀ {t' : Tracker}, t'.anchors = t.anchors →
      ∀ d, source = some d → ∃ y, t'.anchors.get? d.anchor = some y := by
    intro t' ha d e
    obtain ⟨y, _, hy, _⟩ := hdep d e
    exact ⟨y, ha ▸ hy⟩
  cases hx : x.enters with
  | false =>
    cases hctx : t.thread.exec.context with
    | none =>
      obtain ⟨t₁, c, hpush, h₁, g, hcur, hblocks, hanchors, hctx₁⟩ := pushContext_first h hctx hknown
      refine ⟨false, t₁, ?_, g, hblocks, hcur, ready_stay h₁ (hlast hanchors) hctx₁ hx false⟩
      simp only [prepare, hx, hctx, Bool.false_eq_true, if_false, Bool.false_and, Bool.false_or, Option.isNone_none,
        if_true, ok_bind, pure_eq_ok, hpush]
    | some c =>
      refine ⟨false, t, ?_, .refl t, rfl, rfl, ready_stay h (hlast rfl) hctx hx false⟩
      simp only [prepare, hx, hctx, Bool.false_eq_true, if_false, Bool.false_and, Bool.false_or, Option.isNone_some,
        ok_bind, pure_eq_ok]
  | true =>
    obtain ⟨d, c, rfl, hctx, hd⟩ := henters hx
    obtain ⟨f, hf, -⟩ := FunctionTable.get_ok hknown
    cases hskip : f.skip with
    | true =>
      refine ⟨true, t, ?_, .refl t, rfl, rfl, ready_skipped h (hdep d rfl) hctx hd hx⟩
      simp only [prepare, hx, hf, hskip, hctx, if_true, ok_bind, pure_eq_ok, Bool.not_true, Bool.and_false,
        Bool.false_or, Option.isNone_some, Bool.false_eq_true, if_false]
    | false =>
      obtain ⟨t₁, hpush, g, hblocks, hcur, hready⟩ := ready_call h (hdep d rfl) hctx hd hx hknown
      refine ⟨false, t₁, ?_, g, hblocks, hcur, hready⟩
      simp only [prepare, hx, hf, hskip, hpush, if_true, ok_bind, pure_eq_ok, Bool.not_false, Bool.and_true,
        Bool.true_or]

/-- The condition under which `prepare` pushes the context of `fn`. -/
theorem pushed_or_kept {p : Bool} {m : Except Fault Tracker} {s skip : Bool} {t t₁ : Tracker}
    (h : (if p = true then do
        let t' ← m
        pure (s, t')
      else pure (s, t)) = .ok (skip, t₁)) :
    s = skip ∧ (p = true ∧ m = .ok t₁ ∨ p = false ∧ t = t₁) := by
  split at h
  case isTrue hp =>
    cases m with
    | error e => cases h
    | ok t' =>
      cases h
      exact ⟨rfl, .inl ⟨hp, rfl⟩⟩
  case isFalse hp =>
    cases h
    exact ⟨rfl, .inr ⟨Bool.eq_false_iff.mpr hp, rfl⟩⟩

/-- `enterBlock` in steps, from the outcome of each. -/
theorem enterBlock_eq_ok {t₀ t₁ t₂ t₃ t₄ : Tracker} {pos : Position} {id : BlockId} {r : Resident} {skip : Bool}
    {a : AnchorId} (hsw : t.switchTo pos.thread = t₀) (hdep : t₀.departure = .ok source)
    (hblock : t₀.blocks.get id = .ok r)
    (hx : Transfer.classify t₀.config.tailCalls source r.block pos.sp t₀.thread.shadow.frames t₀.thread.bottom = x)
    (hpop : popCalls x.pops (t₀.countTransfer x) = .ok t₁) (hprepare : t₁.prepare x r.block.fn = .ok (skip, t₂))
    (hctx : t₂.thread.exec.context = some c)
    (hbill : t₂.billTo { block := id, context := c, thread := pos.thread } (source.map (·.anchor)) = .ok (a, t₃))
    (hlink : t₃.link source x a skip = .ok t₄) :
    t.enterBlock pos id =
      .ok (a, t₄.setThread { t₄.thread with exec := { t₄.thread.exec with anchor := some a, exitsPassed := 0 } }) := by
  simp only [enterBlock, hsw, hdep, hblock, hx, hpop, ok_bind]
  simp only [prepare, pure_bind] at hprepare ⊢
  cases hen : x.enters with
  | true =>
    simp only [hen, if_true] at hprepare ⊢
    cases hf : t₁.functions.get r.block.fn with
    | error e =>
      rw [hf] at hprepare
      cases hprepare
    | ok f =>
      rw [hf] at hprepare
      obtain ⟨rfl, ⟨hp, hpush⟩ | ⟨hp, rfl⟩⟩ := pushed_or_kept hprepare
      · simp only [ok_bind, hp, if_true, hpush, hctx, hbill, hlink, pure_eq_ok]
      · simp only [ok_bind, hp, Bool.false_eq_true, if_false]
        simp only [hctx, hbill, hlink, ok_bind, pure_eq_ok]
  | false =>
    simp only [hen, Bool.false_eq_true, if_false] at hprepare ⊢
    obtain ⟨rfl, ⟨hp, hpush⟩ | ⟨hp, rfl⟩⟩ := pushed_or_kept hprepare
    · simp only [ok_bind, hp, if_true, hpush, hctx, hbill, hlink, pure_eq_ok]
    · simp only [hp, Bool.false_eq_true, if_false]
      simp only [hctx, hbill, hlink, ok_bind, pure_eq_ok]

theorem enterBlock_ok (h : t.Inv) (pos : Position) {id : BlockId} {r : Resident} (hb : t.blocks.get? id = some r) :
    ∃ a t', t.enterBlock pos id = .ok (a, t') ∧ t'.Inv ∧ Grows t t' := by
  have h₀ := h.switchTo pos.thread
  have g₀ := Grows.switchTo t pos.thread
  have hcur := current_switchTo t pos.thread
  obtain ⟨r₀, hb₀, -⟩ := g₀.blocks id r hb
  generalize hsw : t.switchTo pos.thread = t₀ at *
  obtain ⟨source, hdep, hsource⟩ := departure_ok h₀
  generalize hx : Transfer.classify t₀.config.tailCalls source r₀.block pos.sp t₀.thread.shadow.frames
    t₀.thread.bottom = x
  have hpops : x.pops ≤ t₀.thread.shadow.depth := hx ▸ Transfer.pops_le
  have hcalls : x.enters = true → x.pops = 0 ∧ ∃ d, source = some d := hx ▸ Transfer.of_enters
  have wc : Within t₀ (t₀.countTransfer x) := ⟨rfl, .refl _, rfl, rfl, rfl, rfl, rfl⟩
  have hc : (t₀.countTransfer x).Inv := ⟨h₀.within wc h₀.active h₀.balance h₀.reported, h₀.settled⟩
  obtain ⟨t₁, hpop, h₁, w₁, -⟩ := popCalls_ok x.pops hc.toSound hpops
  have w₁ := wc.trans w₁
  have hb₁ : t₁.blocks.get? id = some r₀ := w₁.blocks ▸ hb₀
  have hexit : ∀ d, source = some d → HasExit t₁.anchors t₁.blocks d.anchor d.exit := by
    intro d e
    rw [w₁.anchors, w₁.blocks]
    exact (hsource d e).2
  have henters : x.enters = true → ∃ d c, source = some d ∧ t₁.thread.exec.context = some c ∧
      Denotes t₁.anchors t₁.threads.current c d.anchor := by
    intro hen
    obtain ⟨hzero, d, rfl⟩ := hcalls hen
    -- No frame was left, so the last anchor is still one of the active context.
    have hsame : t₁ = t₀.countTransfer x := by
      rw [hzero] at hpop
      exact (Except.ok.inj hpop).symm
    obtain ⟨c, hctx, hd⟩ := h₀.settled d.anchor (hsource d rfl).1
    rw [hsame]
    exact ⟨d, c, rfl, hctx, hd⟩
  obtain ⟨skip, t₂, hprepare, g₂, hblocks, hcur₂, hready⟩ :=
    prepare_ok h₁ hexit henters (h₁.tables.fnKnown id r₀ hb₁)
  obtain ⟨c, a, t₃, t₄, hctx, hbill, hlink, hinv, g₃⟩ := hready.arrive (hblocks ▸ hb₁)
  rw [hcur₂, w₁.current, hcur] at hbill
  exact ⟨a, _, enterBlock_eq_ok hsw hdep (BlockTable.get_eq_ok hb₀) hx hpop hprepare hctx hbill hlink, hinv,
    g₀.trans (w₁.grows.trans (g₂.trans g₃))⟩

end Tracker
end CallGraph
