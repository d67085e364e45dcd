/-
  CallGraph.Proofs.Lineage — how a thread came to where it is.

  The shadow stack, the function stack, the active context and the handlers of a thread are restored
  by different code on different occasions. `Lineage` ties them together: it lists the moves that
  lead from a fresh thread to a state (a first function, a call, a handler), each with what the
  frame or handler it leaves behind has saved. Leaving is reading the last move backwards:
  - `Lineage.pop`: the frame above the innermost handler's bottom restores the state before its call.
  - `Lineage.leave`: a handler with no frame left restores the interrupted state.
  - `Lineage.forget`: clearing references to evicted anchors leaves the moves as they are.
-/

import CallGraph.Proofs.Chains

namespace CallGraph

/-- The depth above which frames belong to the innermost handler. -/
def bottomOf : List Handler → Nat
  | [] => 0
  | h :: _ => h.bottom

section
variable (stands : ContextId → List (Option FnId) → Prop) (good : ContextId → AnchorId → Prop)

/-- The moves that lead to a signal, an active context, a last costed anchor, the frames, the slots of
the function stack and the handlers. `stands` says which context fits which function stack, and
`good` which anchors code in a context may refer to. -/
inductive Lineage : Int → Option ContextId → Option AnchorId → List Frame → List (Option FnId) →
    List Handler → Prop
  /-- Nothing ran. -/
  | fresh : Lineage 0 none none [] [] []
  /-- The first function of a thread or of a handler. -/
  | first {signal : Int} {frames : List Frame} {slots : List (Option FnId)} {handlers : List Handler}
      (fn : FnId) (c : ContextId) : Lineage signal none none frames slots handlers →
      stands c (some fn :: slots) → Lineage signal (some c) none frames (some fn :: slots) handlers
  /-- A call into a skipped function: the context stays. -/
  | skipped {signal : Int} {c : ContextId} {frames : List Frame} {slots : List (Option FnId)}
      {handlers : List Handler} (f : Frame) (costed : Option AnchorId) :
      Lineage signal (some c) f.costed frames slots handlers → f.arc = none →
      (∀ a, costed = some a → good c a) → Lineage signal (some c) costed (f :: frames) slots handlers
  /-- A call of a function to itself: the slot is shared. -/
  | itself {signal : Int} {c : ContextId} {frames : List Frame} {slots : List (Option FnId)}
      {handlers : List Handler} (f : Frame) (arc : CallArc) :
      Lineage signal (some c) f.costed frames (some arc.caller :: slots) handlers → f.arc = some arc →
      arc.callee = arc.caller → f.context = some c → f.fnDepth = slots.length + 1 →
      Lineage signal (some c) none (f :: frames) (some arc.caller :: slots) handlers
  /-- A call into another function. -/
  | across {signal : Int} {c : ContextId} {frames : List Frame} {slots : List (Option FnId)}
      {handlers : List Handler} (f : Frame) (arc : CallArc) (c' : ContextId) :
      Lineage signal (some c) f.costed frames (some arc.caller :: slots) handlers → f.arc = some arc →
      arc.callee ≠ arc.caller → f.context = some c → f.fnDepth = slots.length + 1 →
      stands c' (some arc.callee :: some arc.caller :: slots) →
      Lineage signal (some c') none (f :: frames) (some arc.callee :: some arc.caller :: slots) handlers
  /-- A signal: its handler starts over above a marker. -/
  | handler {frames : List Frame} {slots : List (Option FnId)} {handlers : List Handler} (signal : Int)
      (h : Handler) : 0 < signal →
      Lineage h.interrupted.signal h.interrupted.context h.interrupted.costed frames slots handlers →
      h.bottom = frames.length → h.fnDepth = slots.length →
      (∀ a, h.interrupted.anchor = some a → ∃ c, h.interrupted.context = some c ∧ good c a) →
      Lineage signal none none frames (none :: slots) (h :: handlers)

/-- Above a marker or the bottom there is at most the first function, which the context stands for. -/
def FirstOnly (slots : List (Option FnId)) : Option ContextId → List (Option FnId) → Prop
  | none, above => above = []
  | some c, above => ∃ fn, above = [some fn] ∧ stands c slots

end

namespace Lineage

variable {stands : ContextId → List (Option FnId) → Prop} {good : ContextId → AnchorId → Prop}
  {signal : Int} {context : Option ContextId} {costed : Option AnchorId} {frames : List Frame}
  {slots : List (Option FnId)} {handlers : List Handler}

/-! ## Shape -/

theorem signal_pos (l : Lineage stands good signal context costed frames slots handlers) :
    if handlers = [] then signal = 0 else 0 < signal := by
  induction l with
  | fresh => rfl
  | handler => assumption
  | first _ _ _ _ ih | skipped _ _ _ _ _ ih | itself _ _ _ _ _ _ _ ih | across _ _ _ _ _ _ _ _ _ ih => exact ih

theorem bottom_le (l : Lineage stands good signal context costed frames slots handlers) :
    bottomOf handlers ≤ frames.length := by
  induction l with
  | fresh => exact Nat.le_refl _
  | first _ _ _ _ ih => exact ih
  | skipped _ _ _ _ _ ih | itself _ _ _ _ _ _ _ ih | across _ _ _ _ _ _ _ _ _ ih => exact Nat.le_succ_of_le ih
  | handler _ h _ _ hb => exact Nat.le_of_eq hb

/-- Without a context nothing ran since the thread or its innermost handler started. -/
theorem bottom_of_no_context (l : Lineage stands good signal none costed frames slots handlers) :
    costed = none ∧ frames.length = bottomOf handlers ∧ slots.head?.join = none := by
  cases l with
  | fresh => exact ⟨rfl, rfl, rfl⟩
  | handler _ h _ _ hb => exact ⟨rfl, hb.symm, rfl⟩

/-- With a context there is an innermost function, and the context stands for it. -/
theorem top_of_context {c : ContextId}
    (l : Lineage stands good signal (some c) costed frames slots handlers) :
    ∃ fn rest, slots = some fn :: rest ∧ stands c slots := by
  generalize hctx : some c = context at l
  induction l generalizing c with
  | fresh => cases hctx
  | first fn c' _ hs => cases hctx; exact ⟨fn, _, rfl, hs⟩
  | skipped f _ _ _ _ ih => exact ih hctx
  | itself f arc _ _ _ _ _ ih => exact ih hctx
  | across f arc c' _ _ _ _ _ hs => cases hctx; exact ⟨arc.callee, _, rfl, hs⟩
  | handler => cases hctx

/-- The last costed anchor is one that code in the active context may refer to. -/
theorem costed_good {c : ContextId} {a : AnchorId}
    (l : Lineage stands good signal (some c) (some a) frames slots handlers) : good c a := by
  cases l with
  | skipped f costed _ _ hc => exact hc a rfl

/-! ## Leaving -/

/-- A frame above the innermost handler's bottom restores what held before its call. With an arc the
function stack goes back to the saved depth, and one slot is taken off if the call went into another
function; without one nothing but the last costed anchor changes. -/
theorem pop {f : Frame} (l : Lineage stands good signal context costed (f :: frames) slots handlers)
    (hb : bottomOf handlers ≤ frames.length) :
    ∃ c above below, slots = above ++ below ∧
      Lineage stands good signal (some c) f.costed frames below handlers ∧
      match f.arc with
      | none => context = some c ∧ above = []
      | some arc => f.context = some c ∧ f.fnDepth = below.length ∧
        above = if arc.caller = arc.callee then [] else [some arc.callee] := by
  generalize hf : f :: frames = fs at l
  cases l with
  | fresh => cases hf
  | first fn c l _ =>
    have := (bottom_of_no_context l).2.1
    rw [← hf, List.length_cons] at this
    omega
  | skipped g _ l ha _ =>
    cases hf
    exact ⟨_, [], slots, rfl, l, by simp [ha]⟩
  | itself g arc l ha hcc hc hd =>
    cases hf
    refine ⟨_, [], _, rfl, l, ?_⟩
    simp [ha, hcc, hc, hd]
  | across g arc c' l ha hcc hc hd _ =>
    cases hf
    refine ⟨_, [some arc.callee], _, rfl, l, ?_⟩
    simp [ha, Ne.symm hcc, hc, hd]
  | handler _ h _ _ hb' =>
    have : h.bottom ≤ frames.length := hb
    rw [hb', ← hf, List.length_cons] at this
    omega

/-- A handler with no frame left restores the interrupted state. -/
theorem leave {h : Handler} (l : Lineage stands good signal context costed frames slots (h :: handlers))
    (hb : frames.length = h.bottom) :
    ∃ above below, slots = above ++ none :: below ∧ h.fnDepth = below.length ∧
      Lineage stands good h.interrupted.signal h.interrupted.context h.interrupted.costed frames below handlers ∧
      (∀ a, h.interrupted.anchor = some a → ∃ c, h.interrupted.context = some c ∧ good c a) ∧
      FirstOnly stands slots context above := by
  -- A frame pushed since the handler started would be above its bottom.
  have habove : ∀ {signal context costed frames' slots},
      Lineage stands good signal context costed frames' slots (h :: handlers) →
      frames'.length < frames.length → False := by
    intro _ _ _ _ _ l hlt
    have : h.bottom ≤ _ := bottom_le l
    omega
  cases l with
  | first fn c l hs =>
    cases l with
    | handler _ _ _ l _ hd ha => exact ⟨[some fn], _, rfl, hd, l, ha, fn, rfl, hs⟩
  | skipped _ _ l => exact absurd (Nat.lt_succ_self _) (habove l)
  | itself _ _ l => exact absurd (Nat.lt_succ_self _) (habove l)
  | across _ _ _ l => exact absurd (Nat.lt_succ_self _) (habove l)
  | handler _ _ _ l _ hd ha => exact ⟨[], _, rfl, hd, l, ha, rfl⟩

/-- A thread with no frame and no handler has at most its first function. -/
theorem base (l : Lineage stands good signal context costed [] slots []) :
    FirstOnly stands slots context slots := by
  cases l with
  | fresh => rfl
  | first fn c l hs =>
    cases l with
    | fresh => exact ⟨fn, rfl, hs⟩

/-! ## Transport -/

theorem mono {stands' : ContextId → List (Option FnId) → Prop} {good' : ContextId → AnchorId → Prop}
    (hs : ∀ c slots, stands c slots → stands' c slots) (hg : ∀ c a, good c a → good' c a)
    (l : Lineage stands good signal context costed frames slots handlers) :
    Lineage stands' good' signal context costed frames slots handlers := by
  induction l with
  | fresh => exact .fresh
  | first fn c _ h ih => exact .first fn c ih (hs _ _ h)
  | skipped f costed _ ha hc ih => exact .skipped f costed ih ha fun a e => hg _ _ (hc a e)
  | itself f arc _ ha hcc hc hd ih => exact .itself f arc ih ha hcc hc hd
  | across f arc c' _ ha hcc hc hd h ih => exact .across f arc c' ih ha hcc hc hd (hs _ _ h)
  | handler signal h hp _ hb hd ha ih =>
    refine .handler signal h hp ih hb hd fun a e => ?_
    obtain ⟨c, hc, h⟩ := ha a e
    exact ⟨c, hc, hg _ _ h⟩

theorem keepLive_eq_some {evicted : AnchorId → Bool} {a : Option AnchorId} {id : AnchorId} :
    keepLive evicted a = some id ↔ a = some id ∧ evicted id = false := by
  cases a with
  | none => simp [keepLive]
  | some b =>
    simp only [keepLive, Option.filter_some, Option.some.injEq]
    constructor
    · intro h
      split at h
      · cases h
        exact ⟨rfl, by simp_all⟩
      · cases h
    · intro h'
      obtain ⟨rfl, h⟩ := h'
      simp [h]

/-- References to evicted anchors can be cleared everywhere at once; the others stay good. -/
theorem forget (evicted : AnchorId → Bool)
    (l : Lineage stands good signal context costed frames slots handlers) :
    Lineage stands (fun c a => good c a ∧ evicted a = false) signal context (keepLive evicted costed)
      (frames.map fun f => { f with costed := keepLive evicted f.costed }) slots
      (handlers.map fun h => { h with interrupted := h.interrupted.forget evicted }) := by
  induction l with
  | fresh => exact .fresh
  | first fn c _ h ih => exact .first fn c ih h
  | skipped f costed _ ha hc ih =>
    refine .skipped _ _ ih ha fun a e => ?_
    obtain ⟨e, he⟩ := keepLive_eq_some.mp e
    exact ⟨hc a e, he⟩
  | itself f arc _ ha hcc hc hd ih => exact .itself { f with costed := keepLive evicted f.costed } arc ih ha hcc hc hd
  | across f arc c' _ ha hcc hc hd h ih =>
    exact .across { f with costed := keepLive evicted f.costed } arc c' ih ha hcc hc hd h
  | handler signal h hp _ hb hd ha ih =>
    refine .handler signal { h with interrupted := h.interrupted.forget evicted } hp ih (by simpa using hb) hd
      fun a e => ?_
    obtain ⟨e, he⟩ := keepLive_eq_some.mp e
    obtain ⟨c, hc, h⟩ := ha a e
    exact ⟨c, hc, h, he⟩

end Lineage
end CallGraph
