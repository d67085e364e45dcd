/-
  CallGraph.Proofs.Fingerprint — the active context is the fingerprint of the function stack.

  Contexts and function stacks are saved and restored apart from each other, by calls, returns,
  handlers and long jumps. Read off the lineage of a thread, they fit in every state: the active
  context to the whole function stack, and what a handler or the frame of a call has saved to the
  function stack cut to the depth saved with it (`contexts_are_fingerprints`). The arc of a frame
  names the innermost functions of the context its call came from and of the one it entered, which
  `entered` finds above the frame.
-/

import CallGraph.Proofs.Reach

namespace CallGraph

/-! ## The context a call entered -/

/-- The context and the handlers once those without a frame of their own above `depth` are left. -/
def uncover (depth : Nat) (context : Option ContextId) : List Handler → Option ContextId × List Handler
  | [] => (context, [])
  | h :: handlers => if h.bottom = depth then uncover depth h.interrupted.context handlers else (context, h :: handlers)

/-- Each frame with the context that its call entered: what the handler or the call right above it saved,
or else the active context. -/
def entered : Option ContextId → List Handler → List Frame → List (Frame × Option ContextId)
  | _, _, [] => []
  | context, handlers, f :: frames =>
    let (context, handlers) := uncover (frames.length + 1) context handlers
    (f, context) :: entered (if f.arc.isSome then f.context else context) handlers frames

theorem entered_frames (context : Option ContextId) (handlers : List Handler) (frames : List Frame) :
    (entered context handlers frames).map (·.1) = frames := by
  induction frames generalizing context handlers with
  | nil => rfl
  | cons f frames ih => simp only [entered, List.map_cons, ih]

theorem uncover_of_bottom_lt {depth : Nat} {context : Option ContextId} {handlers : List Handler}
    (h : bottomOf handlers < depth) : uncover depth context handlers = (context, handlers) := by
  cases handlers with
  | nil => rfl
  | cons hd handlers =>
    have hlt : hd.bottom < depth := h
    rw [uncover, if_neg (Nat.ne_of_lt hlt)]

theorem entered_cons {context : Option ContextId} {handlers : List Handler} {f : Frame} {frames : List Frame}
    (h : bottomOf handlers ≤ frames.length) :
    entered context handlers (f :: frames) =
      (f, context) :: entered (if f.arc.isSome then f.context else context) handlers frames := by
  simp only [entered, uncover_of_bottom_lt (Nat.lt_succ_of_le h)]

/-- A handler without a frame of its own uncovers what it interrupted. -/
theorem entered_handler {context : Option ContextId} {handlers : List Handler} {h : Handler} {frames : List Frame}
    (hb : h.bottom = frames.length) :
    entered context (h :: handlers) frames = entered h.interrupted.context handlers frames := by
  cases frames with
  | nil => rfl
  | cons f frames =>
    rw [List.length_cons] at hb
    simp only [entered, uncover, hb, if_true]

/-- Without a frame of its own above the innermost handler, the active context entered none. -/
theorem entered_of_bottom {context context' : Option ContextId} {handlers : List Handler} {frames : List Frame}
    (h : frames.length = bottomOf handlers) : entered context handlers frames = entered context' handlers frames := by
  cases handlers with
  | nil =>
    rw [List.length_eq_zero_iff.mp h]
    rfl
  | cons hd handlers => rw [entered_handler h.symm, entered_handler h.symm]

/-! ## Reading the lineage -/

section
variable (stands : ContextId → List (Option FnId) → Prop)

/-- A context, or none, fits a function stack. -/
def Fits (slots : List (Option FnId)) : Option ContextId → Prop
  | none => slots.head?.join = none
  | some c => ∃ fn rest, slots = some fn :: rest ∧ stands c slots

/-- What a handler saved fits the lower part of a function stack. -/
def HandlerFits (slots : List (Option FnId)) (h : Handler) : Prop :=
  ∃ above below, slots = above ++ below ∧ h.fnDepth = below.length ∧ Fits stands below h.interrupted.context

/-- What the frame of a call saved fits the lower part of a function stack, and the arc names the innermost
functions of that context and of the one entered. -/
def FrameFits (slots : List (Option FnId)) (p : Frame × Option ContextId) : Prop :=
  ∀ arc, p.1.arc = some arc → ∃ above rest c c' rest', slots = above ++ some arc.caller :: rest ∧
    p.1.fnDepth = rest.length + 1 ∧ p.1.context = some c ∧ stands c (some arc.caller :: rest) ∧
    p.2 = some c' ∧ stands c' (some arc.callee :: rest')

end

variable {stands : ContextId → List (Option FnId) → Prop} {good : ContextId → AnchorId → Prop}
  {signal : Int} {context : Option ContextId} {costed : Option AnchorId} {frames : List Frame}
  {slots : List (Option FnId)} {handlers : List Handler}

theorem HandlerFits.above {h : Handler} (hf : HandlerFits stands slots h) (slot : Option FnId) :
    HandlerFits stands (slot :: slots) h := by
  obtain ⟨above, below, hslots, hd, hc⟩ := hf
  exact ⟨slot :: above, below, by rw [hslots]; rfl, hd, hc⟩

theorem FrameFits.above {p : Frame × Option ContextId} (hf : FrameFits stands slots p) (slot : Option FnId) :
    FrameFits stands (slot :: slots) p := by
  intro arc ha
  obtain ⟨above, rest, c, c', rest', hslots, h⟩ := hf arc ha
  exact ⟨slot :: above, rest, c, c', rest', by rw [hslots]; rfl, h⟩

namespace Lineage

theorem fits (l : Lineage stands good signal context costed frames slots handlers) : Fits stands slots context := by
  cases context with
  | none => exact l.bottom_of_no_context.2.2
  | some c => exact l.top_of_context

/-- No function is right above itself. -/
theorem slots_differ (l : Lineage stands good signal context costed frames slots handlers) :
    slots.IsChain fun a b => a = b → a = none := by
  induction l with
  | fresh => exact List.isChain_nil
  | first fn c l hs ih =>
    have htop := l.bottom_of_no_context.2.2
    refine List.isChain_cons.mpr ⟨fun b hb e => ?_, ih⟩
    subst e
    rw [hb] at htop
    cases htop
  | skipped _ _ _ _ _ ih | itself _ _ _ _ _ _ _ ih => exact ih
  | across f arc c' _ _ hne _ _ _ ih =>
    refine List.isChain_cons_cons.mpr ⟨fun e => ?_, ih⟩
    exact absurd (Option.some.inj e) hne
  | handler _ _ _ _ _ _ _ ih => exact List.isChain_cons.mpr ⟨fun _ _ _ => rfl, ih⟩

theorem handlers_fit (l : Lineage stands good signal context costed frames slots handlers) :
    ∀ h ∈ handlers, HandlerFits stands slots h := by
  induction l with
  | fresh => exact fun _ hm => nomatch hm
  | first fn c _ _ ih => exact fun h hm => (ih h hm).above _
  | skipped _ _ _ _ _ ih | itself _ _ _ _ _ _ _ ih => exact ih
  | across _ _ _ _ _ _ _ _ _ ih => exact fun h hm => (ih h hm).above _
  | handler signal hd _ l _ hdepth _ ih =>
    intro h hm
    rcases List.mem_cons.mp hm with rfl | hm
    · exact ⟨[none], _, rfl, hdepth, l.fits⟩
    · exact (ih h hm).above none

theorem frames_fit (l : Lineage stands good signal context costed frames slots handlers) :
    ∀ p ∈ entered context handlers frames, FrameFits stands slots p := by
  induction l with
  | fresh => exact fun _ hm => nomatch hm
  | first fn c l _ ih =>
    intro p hm
    rw [entered_of_bottom l.bottom_of_no_context.2.1] at hm
    exact (ih p hm).above _
  | skipped f costed l ha _ ih =>
    intro p hm
    rw [entered_cons l.bottom_le, ha] at hm
    rcases List.mem_cons.mp hm with rfl | hm
    · intro arc e
      rw [ha] at e
      cases e
    · exact ih p hm
  | @itself _ c _ slots _ f arc l ha he hc hd ih =>
    intro p hm
    rw [entered_cons l.bottom_le, ha, hc] at hm
    rcases List.mem_cons.mp hm with rfl | hm
    · intro arc' e
      rw [ha] at e
      cases e
      obtain ⟨fn, rest, hslots, hstands⟩ := l.top_of_context
      -- The call added no slot.
      exact ⟨[], slots, c, c, slots, rfl, hd, hc, hstands, rfl, he ▸ hstands⟩
    · exact ih p hm
  | @across _ c _ slots _ f arc c' l ha hne hc hd hs ih =>
    intro p hm
    rw [entered_cons l.bottom_le, ha, hc] at hm
    rcases List.mem_cons.mp hm with rfl | hm
    · intro arc' e
      rw [ha] at e
      cases e
      obtain ⟨fn, rest, hslots, hstands⟩ := l.top_of_context
      -- The slot of the callee is what a return cuts off.
      exact ⟨[some arc.callee], slots, c, c', _, rfl, hd, hc, hstands, rfl, hs⟩
    · exact (ih p hm).above _
  | handler signal h _ _ hb _ _ ih =>
    intro p hm
    rw [entered_handler hb] at hm
    exact (ih p hm).above none

end Lineage

/-! ## Every reachable state -/

/-- A context is the fingerprint of a function stack: there is none exactly if the chain is empty, and
otherwise it stands for the part of the chain that counts. -/
def Fingerprint (contexts : ContextTable) (fns : FnStack) : Option ContextId → Prop
  | none => fns.chain = []
  | some c => fns.chain ≠ [] ∧ ∃ x, contexts.get? c = some x ∧ x.chain = contexts.cut fns.chain

theorem Fits.fingerprint {contexts : ContextTable} {c : Option ContextId} (h : Fits (Stands contexts) slots c) :
    Fingerprint contexts ⟨slots⟩ c := by
  cases c with
  | none =>
    match slots, h with
    | [], _ => exact FnStack.chain_nil
    | none :: slots, _ => exact FnStack.chain_marker slots
  | some c =>
    obtain ⟨fn, rest, rfl, hs⟩ := h
    exact ⟨by simp, hs⟩

/-- The contexts of a thread, active and saved, are the fingerprints of its function stack. -/
structure Fingerprinted (contexts : ContextTable) (s : ThreadState) : Prop where
  active : Fingerprint contexts s.fns s.exec.context
  interrupted : ∀ h ∈ s.handlers, ∃ below, s.fns.cutTo h.fnDepth = .ok below ∧
    Fingerprint contexts below h.interrupted.context
  everyFrame : (entered s.exec.context s.handlers s.shadow.frames).map (·.1) = s.shadow.frames
  saved : ∀ p ∈ entered s.exec.context s.handlers s.shadow.frames, ∀ arc, p.1.arc = some arc →
    ∃ below c c' x x', s.fns.cutTo p.1.fnDepth = .ok below ∧ p.1.context = some c ∧
      Fingerprint contexts below (some c) ∧ contexts.get? c = some x ∧ x.top = arc.caller ∧
      p.2 = some c' ∧ contexts.get? c' = some x' ∧ x'.top = arc.callee
  unstaged : s.shadow.staged.context = none
  differ : s.fns.slots.IsChain fun a b => a = b → a = none

theorem Stands.top? {contexts : ContextTable} {c : ContextId} {fn : FnId}
    (h : Stands contexts c (some fn :: slots)) : ∃ x, contexts.get? c = some x ∧ x.top = fn := by
  obtain ⟨x, hx, htop⟩ := h.top
  obtain ⟨y, hy, -⟩ := h
  refine ⟨y, hy, ?_⟩
  simp only [ContextTable.get, hy, pure_eq_ok, Except.ok.injEq] at hx
  rw [hx, htop]

theorem ThreadState.Sound.fingerprinted {contexts : ContextTable} {anchors : Directory} {thread : ThreadId}
    {s : ThreadState} (h : s.Sound contexts anchors thread) : Fingerprinted contexts s where
  active := h.lineage.fits.fingerprint
  interrupted := by
    intro hd hm
    obtain ⟨above, below, hslots, hdepth, hc⟩ := h.lineage.handlers_fit hd hm
    refine ⟨⟨below⟩, ?_, hc.fingerprint⟩
    have : s.fns = ⟨above ++ below⟩ := congrArg FnStack.mk hslots
    rw [this, hdepth]
    exact FnStack.cutTo_length above below
  everyFrame := entered_frames ..
  saved := by
    intro p hm arc ha
    obtain ⟨above, rest, c, c', rest', hslots, hdepth, hc, hs, hc', hs'⟩ := h.lineage.frames_fit p hm arc ha
    obtain ⟨x, hx, htop⟩ := hs.top?
    obtain ⟨x', hx', htop'⟩ := hs'.top?
    refine ⟨⟨some arc.caller :: rest⟩, c, c', x, x', ?_, hc, ⟨by simp, hs⟩, hx, htop, hc', hx', htop'⟩
    have : s.fns = ⟨above ++ some arc.caller :: rest⟩ := congrArg FnStack.mk hslots
    rw [this, hdepth]
    exact FnStack.cutTo_length above (some arc.caller :: rest)
  unstaged := h.unstaged
  differ := h.lineage.slots_differ

namespace Tracker

/-- In every state that can be reached, the contexts of every thread are fingerprints of its function
stack, cut to the depth that the settings give. -/
theorem contexts_are_fingerprints {config : Config} {t : Tracker} (h : Reach config t) :
    t.contexts.depthLimit = config.contextDepth.map UInt64.toNat ∧
      ∀ u s, t.threads.get? u = some s → Fingerprinted t.contexts s := by
  obtain ⟨hinv, -, hlimit⟩ := reach_inv h
  refine ⟨hlimit, fun u s hs => ?_⟩
  obtain ⟨hsound, -⟩ := hinv.thread hs
  exact hsound.fingerprinted

theorem contexts_are_fingerprints_signalledRun :
    ∃ t s, Reach fewBuckets t ∧ t.threads.get? ⟨1⟩ = some s ∧ s.handlers.length = 1 ∧ s.shadow.depth = 2 ∧
      Fingerprinted t.contexts s := by
  have hrun : (runFrom fewBuckets signalledRun).map (fun t =>
      (t.threads.get? ⟨1⟩).map fun s => (s.handlers.length, s.shadow.depth)) = .ok (some (1, 2)) := by decide +kernel
  obtain ⟨t, hr, hthread⟩ := runFrom_of_map hrun
  obtain ⟨s, hs, hsize⟩ := Option.map_eq_some_iff.mp hthread
  obtain ⟨-, hprints⟩ := contexts_are_fingerprints (reach_runFrom hr)
  exact ⟨t, s, reach_runFrom hr, hs, congrArg Prod.fst hsize, congrArg Prod.snd hsize, hprints ⟨1⟩ s hs⟩

end Tracker
end CallGraph
