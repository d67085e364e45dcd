/-
  CallGraph.Proofs.Matching — stories with the same moves.

  Two stories match when they have the same moves, one by one: their calls are related by one
  relation, and the anchors that they remember by another. What is left of them matches again
  (`Match.popCalls`, `Match.leave`), and so does what a block makes of them, as long as the transfers
  agree (`Match.arrive`). A story that is the same but for what stands for contexts and anchors takes
  the same transfers (`Same.transfer`), so it stays the same (`Same.arrive`).
-/

import CallGraph.Proofs.Scenes

namespace CallGraph

variable {κ ι α κ' ι' β : Type} {C : OpenCall α → OpenCall β → Prop} {R : α → β → Prop}

theorem rel_cases {o : Option α} {o' : Option β} (h : Option.Rel R o o') :
    (o = none ∧ o' = none) ∨ ∃ a a', o = some a ∧ o' = some a' ∧ R a a' := by
  cases h with
  | none => exact .inl ⟨rfl, rfl⟩
  | some hr => exact .inr ⟨_, _, rfl, rfl, hr⟩

theorem rel_mono {R' : α → β → Prop} {o : Option α} {o' : Option β} (h : Option.Rel R o o')
    (hR : ∀ a a', R a a' → R' a a') : Option.Rel R' o o' := by
  cases h with
  | none => exact .none
  | some hr => exact .some (hR _ _ hr)

namespace Story

/-- Two stories with the same moves. -/
inductive Match (C : OpenCall α → OpenCall β → Prop) (R : α → β → Prop) : Story κ ι α → Story κ' ι' β → Prop
  | fresh : Match C R fresh fresh
  | first (fn : FnId) (x : κ) (x' : κ') {s : Story κ ι α} {s' : Story κ' ι' β} :
      Match C R s s' → Match C R (first fn x s) (first fn x' s')
  | call {c : OpenCall α} {c' : OpenCall β} (x : κ) (x' : κ') (k : ι) (k' : ι') {s : Story κ ι α}
      {s' : Story κ' ι' β} : C c c' → Match C R s s' → Match C R (call c x k s) (call c' x' k' s')
  | handler (signal : Int) (passed : Nat) {last : Option α} {last' : Option β} {s : Story κ ι α}
      {s' : Story κ' ι' β} : Option.Rel R last last' → Match C R s s' →
      Match C R (handler signal last passed s) (handler signal last' passed s')

end Story

/-- Two scenes with matching stories, at the same exit of blocks that are related. -/
structure Scene.Match (C : OpenCall α → OpenCall β → Prop) (R : α → β → Prop) (s : Scene κ ι α) (s' : Scene κ' ι' β) :
    Prop where
  story : Story.Match C R s.story s'.story
  last : Option.Rel R s.last s'.last
  passed : s'.passed = s.passed

namespace Story.Match

variable {s : Story κ ι α} {s' : Story κ' ι' β}

theorem depth (h : Match C R s s') : s'.depth = s.depth := by
  induction h with
  | fresh => rfl
  | first _ _ _ _ ih | handler _ _ _ _ ih => exact ih
  | call _ _ _ _ _ _ ih => exact congrArg (· + 1) ih

theorem bottom (h : Match C R s s') : s'.bottom = s.bottom := by
  induction h with
  | fresh => rfl
  | first _ _ _ _ ih | call _ _ _ _ _ _ ih => exact ih
  | handler _ _ _ h => exact h.depth

theorem signal (h : Match C R s s') : s'.signal = s.signal := by
  induction h with
  | fresh | handler => rfl
  | first _ _ _ _ ih | call _ _ _ _ _ _ ih => exact ih

theorem started (h : Match C R s s') : s'.started = s.started := by
  cases h <;> rfl

theorem wellFormed (h : Match C R s s') (hw : s.WellFormed) : s'.WellFormed := by
  induction h with
  | fresh => trivial
  | first _ _ _ h ih | call _ _ _ _ _ h ih => exact ⟨h.started.trans hw.1, ih hw.2⟩
  | handler _ _ _ _ ih => exact ⟨hw.1, ih hw.2⟩

theorem leave (h : Match C R s s') : Scene.Match C R s.leave s'.leave := by
  induction h with
  | fresh => exact ⟨.fresh, .none, rfl⟩
  | first _ _ _ _ ih | call _ _ _ _ _ _ ih => exact ih
  | handler _ _ hr h => exact ⟨h, hr, rfl⟩

theorem popCall (h : Match C R s s') {last : Option α} {last' : Option β} (hr : Option.Rel R last last')
    (passed : Nat) : Scene.Match C R (s.popCall last passed) (s'.popCall last' passed) := by
  induction h generalizing last last' passed with
  | fresh => exact ⟨.fresh, hr, rfl⟩
  | first _ _ _ _ ih => exact ih hr _
  | call _ _ _ _ _ h => exact ⟨h, hr, rfl⟩
  | handler _ _ hr' _ ih => exact ih hr' _

end Story.Match

/-! ## Entering a block -/

namespace Scene

variable {sc : Scene κ ι α} {sc' : Scene κ' ι' β} {blockOf : α → Option Block} {blockOf' : β → Option Block}
  {rule : TailCallRule} {skip skip' : Bool} {b : Block} {sp : Addr}

theorem Match.popCalls (n : Nat) (h : Match C R sc sc') : Match C R (sc.popCalls n) (sc'.popCalls n) := by
  induction n generalizing sc sc' with
  | zero => exact h
  | succ n ih =>
    refine ih ?_
    rw [Scene.popCall, Scene.popCall, h.passed]
    exact h.story.popCall h.last _

/-- Control comes from the same exit of the same block. -/
theorem Match.departure (h : Match C R sc sc') (hR : ∀ a a', R a a' → blockOf' a' = blockOf a) :
    sc'.departure blockOf' = sc.departure blockOf := by
  rw [Scene.departure, Scene.departure, h.passed]
  obtain ⟨e, e'⟩ | ⟨a, a', e, e', hr⟩ := rel_cases h.last
  · rw [e, e']
    rfl
  · rw [e, e', Option.bind_some, Option.bind_some, hR a a' hr]

/-- Where the transfers agree, matching scenes match once a block was entered. -/
theorem Match.arrive (h : Match C R sc sc')
    (hx : sc'.transfer blockOf' rule b sp = sc.transfer blockOf rule b sp)
    (hcall : (sc.transfer blockOf rule b sp).enters = true → ∀ c c', c.fn = b.fn → c'.fn = b.fn →
      c.skipped = skip → c'.skipped = skip' → c'.sp = c.sp → c.returnTo = sc.returnTo blockOf →
      c'.returnTo = sc'.returnTo blockOf' → (c.costed = if skip then sc.story.costed.or sc.last else none) →
      (c'.costed = if skip' then sc'.story.costed.or sc'.last else none) → C c c')
    (x : κ) (x' : κ') (k : ι) (k' : ι') :
    Story.Match C R (sc.arrive blockOf rule skip b sp x k) (sc'.arrive blockOf' rule skip' b sp x' k') := by
  unfold Scene.arrive
  cases hen : (sc.transfer blockOf rule b sp).enters with
  | true =>
    simp only [hx, hen, if_true]
    exact .call x x' k k' (hcall hen _ _ rfl rfl rfl rfl rfl rfl rfl rfl rfl) h.story
  | false =>
    have hpop := (h.popCalls (sc.transfer blockOf rule b sp).pops).story
    simp only [hx, hen, Bool.false_eq_true, if_false, hpop.started]
    split
    · exact hpop
    · exact .first b.fn x x' hpop

end Scene

/-! ## The same story -/

/-- The same call, but for what stands for the anchor. -/
structure OpenCall.Same (R : α → β → Prop) (c : OpenCall α) (c' : OpenCall β) : Prop where
  fn : c'.fn = c.fn
  skipped : c'.skipped = c.skipped
  sp : c'.sp = c.sp
  returnTo : c'.returnTo = c.returnTo
  costed : Option.Rel R c.costed c'.costed

/-- The same scene, but for what stands for contexts and anchors. -/
def Scene.Same (R : α → β → Prop) (sc : Scene κ ι α) (sc' : Scene κ' ι' β) : Prop := Scene.Match (OpenCall.Same R) R sc sc'

namespace Story.Match

variable {s : Story κ ι α} {s' : Story κ' ι' β}

theorem slots (h : Match (OpenCall.Same R) R s s') : s'.slots = s.slots := by
  induction h with
  | fresh => rfl
  | first _ _ _ _ ih => exact congrArg (some _ :: ·) ih
  | call _ _ _ _ hc _ ih => simp only [Story.slots, hc.skipped, hc.fn, ih]
  | handler _ _ _ _ ih => exact congrArg (none :: ·) ih

theorem marks (h : Match (OpenCall.Same R) R s s') : s'.marks = s.marks := by
  induction h with
  | fresh => rfl
  | first _ _ _ _ ih | handler _ _ _ _ ih => exact ih
  | call _ _ _ _ hc _ ih => simp only [Story.marks, hc.sp, hc.returnTo, ih]

theorem mono {R' : α → β → Prop} (h : Match (OpenCall.Same R) R s s') (hR : ∀ a a', R a a' → R' a a') :
    Match (OpenCall.Same R') R' s s' := by
  induction h with
  | fresh => exact .fresh
  | first fn x x' _ ih => exact .first fn x x' ih
  | call x x' k k' hc _ ih =>
    exact .call x x' k k' ⟨hc.fn, hc.skipped, hc.sp, hc.returnTo, rel_mono hc.costed hR⟩ ih
  | handler signal passed hr _ ih => exact .handler signal passed (rel_mono hr hR) ih

theorem costed (h : Match (OpenCall.Same R) R s s') : Option.Rel R s.costed s'.costed := by
  induction h with
  | fresh | first | handler => exact .none
  | call _ _ _ _ hc => exact hc.costed

end Story.Match

namespace Scene

variable {sc : Scene κ ι α} {sc' : Scene κ' ι' β} {blockOf : α → Option Block} {blockOf' : β → Option Block}
  {rule : TailCallRule} {skip : Bool} {b : Block} {sp : Addr}

theorem Same.mono {R' : α → β → Prop} (h : Same R sc sc') (hR : ∀ a a', R a a' → R' a a') : Same R' sc sc' :=
  ⟨h.story.mono hR, rel_mono h.last hR, h.passed⟩

theorem Same.transfer (h : Same R sc sc') (hR : ∀ a a', R a a' → blockOf' a' = blockOf a) :
    sc'.transfer blockOf' rule b sp = sc.transfer blockOf rule b sp := by
  rw [Scene.transfer, Scene.transfer, Match.departure h hR, h.story.marks, h.story.bottom]

/-- A call comes from related anchors, through the same exit. -/
theorem Same.callSource (h : Same R sc sc') (hR : ∀ a a', R a a' → blockOf' a' = blockOf a) :
    Option.Rel (fun p p' => R p.1 p'.1 ∧ p'.2 = p.2) (sc.callSource blockOf) (sc'.callSource blockOf') := by
  rw [Scene.callSource, Scene.callSource, h.passed]
  have hblock : ∀ {a : α} {a' : β} (exit : Block → Nat), R a a' → Option.Rel (fun p p' => R p.1 p'.1 ∧ p'.2 = p.2)
      ((blockOf a).map fun b => (a, exit b)) ((blockOf' a').map fun b => (a', exit b)) := by
    intro a a' exit hr
    rw [hR a a' hr]
    cases blockOf a with
    | none => exact .none
    | some => exact .some ⟨hr, rfl⟩
  obtain ⟨e, e'⟩ | ⟨a, a', e, e', hr⟩ := rel_cases h.story.costed
  · obtain ⟨el, el'⟩ | ⟨a, a', el, el', hr⟩ := rel_cases h.last
    · rw [e, e', el, el']
      exact .none
    · rw [e, e', el, el']
      exact hblock _ hr
  · rw [e, e']
    exact hblock _ hr

theorem Same.returnTo (h : Same R sc sc') (hR : ∀ a a', R a a' → blockOf' a' = blockOf a) :
    sc'.returnTo blockOf' = sc.returnTo blockOf := by
  rw [Scene.returnTo, Scene.returnTo]
  obtain ⟨e, e'⟩ | ⟨⟨a, n⟩, ⟨a', n'⟩, e, e', hr, hn⟩ := rel_cases (h.callSource hR)
  · rw [e, e']
    rfl
  · simp only [e, e', Option.bind_some, hR a a' hr, show n' = n from hn]

/-- The same block makes the same of the same scene. -/
theorem Same.arrive (h : Same R sc sc') (hR : ∀ a a', R a a' → blockOf' a' = blockOf a) (x : κ) (x' : κ') (k : ι)
    (k' : ι') : Story.Match (OpenCall.Same R) R (sc.arrive blockOf rule skip b sp x k)
      (sc'.arrive blockOf' rule skip b sp x' k') := by
  refine Match.arrive h (h.transfer hR) (fun _ c c' hfn hfn' hs hs' hsp hto hto' hc hc' => ?_) x x' k k'
  refine ⟨hfn'.trans hfn.symm, hs'.trans hs.symm, hsp, by rw [hto, hto', h.returnTo hR], ?_⟩
  rw [hc, hc']
  cases skip with
  | false => exact .none
  | true =>
    obtain ⟨e, e'⟩ | ⟨a, a', e, e', hr⟩ := rel_cases h.story.costed
    · rw [e, e']
      exact h.last
    · rw [e, e']
      exact .some hr

end Scene

/-! ## Forgetting anchors -/

def OpenCall.forget (dead : α → Bool) (c : OpenCall α) : OpenCall α :=
  { c with costed := c.costed.filter fun a => !dead a }

def Story.forget (dead : α → Bool) : Story κ ι α → Story κ ι α
  | fresh => fresh
  | first fn x s => first fn x (s.forget dead)
  | call c x k s => call (c.forget dead) x k (s.forget dead)
  | handler signal last passed s => handler signal (last.filter fun a => !dead a) passed (s.forget dead)

/-- The scene with no reference left to a dead anchor. -/
def Scene.forget (dead : α → Bool) (sc : Scene κ ι α) : Scene κ ι α :=
  { sc with story := sc.story.forget dead, last := sc.last.filter fun a => !dead a }

/-- What is remembered of the calls and of what handlers interrupted, innermost first. -/
def Story.refs : Story κ ι α → List α
  | fresh => []
  | first _ _ s => s.refs
  | call c _ _ s => c.costed.toList ++ s.refs
  | handler _ last _ s => last.toList ++ s.refs

/-- Everything that a scene refers to. -/
def Scene.refs (sc : Scene κ ι α) : List α := sc.last.toList ++ sc.story.refs

/-- Where nothing is referred to that is dead, nothing is forgotten. -/
theorem Scene.forget_eq {dead : α → Bool} {sc : Scene κ ι α} (h : ∀ a ∈ sc.refs, dead a = false) :
    sc.forget dead = sc := by
  have hfilter : ∀ {o : Option α}, (∀ a ∈ o.toList, dead a = false) → o.filter (fun a => !dead a) = o := by
    intro o ho
    cases o with
    | none => rfl
    | some a => rw [Option.filter_some, ho a (List.mem_singleton_self a)]; rfl
  have hstory : ∀ {s : Story κ ι α}, (∀ a ∈ s.refs, dead a = false) → s.forget dead = s := by
    intro s hs
    induction s with
    | fresh => rfl
    | first _ _ _ ih => rw [Story.forget, ih hs]
    | call c _ _ _ ih =>
      obtain ⟨hc, hs⟩ := List.forall_mem_append.mp hs
      rw [Story.forget, ih hs, OpenCall.forget, hfilter hc]
    | handler _ _ _ _ ih =>
      obtain ⟨hlast, hs⟩ := List.forall_mem_append.mp hs
      rw [Story.forget, ih hs, hfilter hlast]
  obtain ⟨hlast, hs⟩ := List.forall_mem_append.mp h
  rw [Scene.forget, hstory hs, hfilter hlast]

theorem exists_of_mem_toList {o : Option α} {o' : Option β} (h : Option.Rel R o o') {a' : β} (ha : a' ∈ o'.toList) :
    ∃ a ∈ o.toList, R a a' := by
  cases h with
  | none => cases ha
  | some hr =>
    obtain rfl := List.mem_singleton.mp ha
    exact ⟨_, List.mem_singleton_self _, hr⟩

/-- What the same scene refers to is related to what the first one refers to. -/
theorem Scene.Same.refs {sc : Scene κ ι α} {sc' : Scene κ' ι' β} (h : Same R sc sc') {a' : β} (ha : a' ∈ sc'.refs) :
    ∃ a ∈ sc.refs, R a a' := by
  have hstory : ∀ {s : Story κ ι α} {s' : Story κ' ι' β}, Story.Match (OpenCall.Same R) R s s' → a' ∈ s'.refs →
      ∃ a ∈ s.refs, R a a' := by
    intro s s' hs ha
    induction hs with
    | fresh => cases ha
    | first _ _ _ _ ih => exact ih ha
    | call _ _ _ _ hc _ ih =>
      obtain ha | ha := List.mem_append.mp ha
      · obtain ⟨a, ha, hr⟩ := exists_of_mem_toList hc.costed ha
        exact ⟨a, List.mem_append_left _ ha, hr⟩
      · obtain ⟨a, ha, hr⟩ := ih ha
        exact ⟨a, List.mem_append_right _ ha, hr⟩
    | handler _ _ hlast _ ih =>
      obtain ha | ha := List.mem_append.mp ha
      · obtain ⟨a, ha, hr⟩ := exists_of_mem_toList hlast ha
        exact ⟨a, List.mem_append_left _ ha, hr⟩
      · obtain ⟨a, ha, hr⟩ := ih ha
        exact ⟨a, List.mem_append_right _ ha, hr⟩
  obtain ha | ha := List.mem_append.mp ha
  · obtain ⟨a, ha, hr⟩ := exists_of_mem_toList h.last ha
    exact ⟨a, List.mem_append_left _ ha, hr⟩
  · obtain ⟨a, ha, hr⟩ := hstory h.story ha
    exact ⟨a, List.mem_append_right _ ha, hr⟩

theorem rel_filter {R' : α → β → Prop} {dead : α → Bool} {dead' : β → Bool} {o : Option α} {o' : Option β}
    (h : Option.Rel R o o') (hdead : ∀ a a', R a a' → dead' a' = dead a)
    (hR : ∀ a a', R a a' → dead a = false → R' a a') :
    Option.Rel R' (o.filter fun a => !dead a) (o'.filter fun a => !dead' a) := by
  cases h with
  | none => exact .none
  | @some a a' hr =>
    simp only [Option.filter_some, hdead a a' hr]
    cases hd : dead a with
    | true => exact .none
    | false => exact .some (hR a a' hr hd)

theorem Scene.Match.forget {C' : OpenCall α → OpenCall β → Prop} {R' : α → β → Prop} {dead : α → Bool}
    {dead' : β → Bool} {sc : Scene κ ι α} {sc' : Scene κ' ι' β} (h : Match C R sc sc')
    (hC : ∀ c c', C c c' → C' (c.forget dead) (c'.forget dead')) (hdead : ∀ a a', R a a' → dead' a' = dead a)
    (hR : ∀ a a', R a a' → dead a = false → R' a a') : Match C' R' (sc.forget dead) (sc'.forget dead') := by
  have hstory : ∀ {s : Story κ ι α} {s' : Story κ' ι' β}, Story.Match C R s s' →
      Story.Match C' R' (s.forget dead) (s'.forget dead') := by
    intro s s' hs
    induction hs with
    | fresh => exact .fresh
    | first fn x x' _ ih => exact .first fn x x' ih
    | call x x' k k' hc _ ih => exact .call x x' k k' (hC _ _ hc) ih
    | handler signal passed hr _ ih => exact .handler signal passed (rel_filter hr hdead hR) ih
  exact ⟨hstory h.story, rel_filter h.last hdead hR, h.passed⟩

theorem Scene.Same.forget {R' : α → β → Prop} {dead : α → Bool} {dead' : β → Bool} {sc : Scene κ ι α}
    {sc' : Scene κ' ι' β} (h : Same R sc sc') (hdead : ∀ a a', R a a' → dead' a' = dead a)
    (hR : ∀ a a', R a a' → dead a = false → R' a a') : Same R' (sc.forget dead) (sc'.forget dead') :=
  Match.forget h (fun _ _ hc => ⟨hc.fn, hc.skipped, hc.sp, hc.returnTo, rel_filter hc.costed hdead hR⟩) hdead hR

namespace Story

variable (dead : α → Bool) (s : Story κ ι α)

@[simp] theorem slots_forget : (s.forget dead).slots = s.slots := by
  induction s with
  | fresh => rfl
  | first _ _ _ ih => exact congrArg (some _ :: ·) ih
  | call c _ _ _ ih => simp only [forget, OpenCall.forget, slots, ih]
  | handler _ _ _ _ ih => exact congrArg (none :: ·) ih

@[simp] theorem signal_forget : (s.forget dead).signal = s.signal := by
  induction s with
  | fresh | handler => rfl
  | first _ _ _ ih | call _ _ _ _ ih => exact ih

@[simp] theorem context_forget : (s.forget dead).context = s.context := by
  induction s with
  | fresh | first | handler => rfl
  | call c _ _ _ ih => simp only [forget, OpenCall.forget, context, ih]

@[simp] theorem costed_forget : (s.forget dead).costed = s.costed.filter fun a => !dead a := by
  cases s <;> rfl

@[simp] theorem depth_forget : (s.forget dead).depth = s.depth := by
  induction s with
  | fresh => rfl
  | first _ _ _ ih | handler _ _ _ _ ih => exact ih
  | call _ _ _ _ ih => exact congrArg (· + 1) ih

theorem forget_wellFormed (h : s.WellFormed) : (s.forget dead).WellFormed := by
  have hstarted : ∀ s : Story κ ι α, (s.forget dead).started = s.started := fun s => by cases s <;> rfl
  induction s with
  | fresh => exact h
  | first _ _ _ ih | call _ _ _ _ ih => exact ⟨(hstarted _).trans h.1, ih h.2⟩
  | handler _ _ _ _ ih => exact ⟨h.1, ih h.2⟩

end Story

/-- A thread state that forgets anchors is told by the scene that forgets them. -/
theorem ThreadState.Tells.forget {th : ThreadState} {sc : Scene ContextId Kept AnchorId} (h : th.Tells sc)
    (dead : AnchorId → Bool) : (th.forget dead).Tells (sc.forget dead) where
  frames := by
    show th.shadow.frames.map _ = _
    rw [h.frames]
    show _ = (sc.story.forget dead).frames
    induction sc.story with
    | fresh => rfl
    | first _ _ _ ih | handler _ _ _ _ ih => exact ih
    | call c _ _ s ih =>
      rw [Story.frames, List.map_cons, ih]
      simp only [Story.frames, Story.forget, OpenCall.forget, Story.slots_forget, Story.context_forget,
        Story.costed_forget]
      split <;> rfl
  unstaged := h.unstaged
  slots := h.slots.trans (Story.slots_forget ..).symm
  exec := by
    show th.exec.forget dead = _
    rw [h.exec]
    simp only [Scene.forget, Exec.forget, Story.signal_forget, Story.context_forget, Story.costed_forget, keepLive]
  handlers := by
    show th.handlers.map _ = _
    rw [h.handlers]
    show _ = (sc.story.forget dead).handlers
    induction sc.story with
    | fresh => rfl
    | first _ _ _ ih | call _ _ _ _ ih => exact ih
    | handler _ _ _ s ih =>
      rw [Story.handlers, List.map_cons, ih]
      simp only [Story.handlers, Story.forget, Exec.forget, Story.slots_forget, Story.signal_forget, Story.context_forget,
        Story.costed_forget, Story.depth_forget, keepLive]
  wellFormed := Story.forget_wellFormed dead _ h.wellFormed

/-- What a story refers to is kept by its innermost call, by a frame or by a handler. -/
theorem Story.mem_refs {s : Story ContextId Kept AnchorId} (h : s.WellFormed) {a : AnchorId} (ha : a ∈ s.refs) :
    a ∈ s.costed.toList ∨ (∃ f ∈ s.frames, a ∈ f.costed.toList) ∨ ∃ h ∈ s.handlers, a ∈ h.interrupted.anchors := by
  induction s with
  | fresh => cases ha
  | first _ _ s ih =>
    obtain hc | habove := ih h.2 ha
    · -- Before the first function there is no call.
      obtain ⟨-, -, -, hnone⟩ := Story.of_not_started h.1
      rw [hnone] at hc
      cases hc
    · exact .inr habove
  | call c x kept s ih =>
    obtain ha | ha := List.mem_append.mp ha
    · exact .inl ha
    · have hframe : ∃ f, (call c x kept s).frames = f :: s.frames ∧ f.costed = s.costed := by
        rw [frames]
        split <;> exact ⟨_, rfl, rfl⟩
      obtain ⟨f, hframes, hcosted⟩ := hframe
      rw [hframes]
      obtain hc | ⟨g, hg, ha⟩ | hhandler := ih h.2 ha
      · exact .inr (.inl ⟨f, List.mem_cons_self .., hcosted ▸ hc⟩)
      · exact .inr (.inl ⟨g, List.mem_cons_of_mem f hg, ha⟩)
      · exact .inr (.inr hhandler)
  | handler _ last _ s ih =>
    obtain ha | ha := List.mem_append.mp ha
    · exact .inr (.inr ⟨_, List.mem_cons_self .., List.mem_append_left _ ha⟩)
    · obtain hc | hframe | ⟨g, hg, ha⟩ := ih h.2 ha
      · exact .inr (.inr ⟨_, List.mem_cons_self .., List.mem_append_right _ hc⟩)
      · exact .inr (.inl hframe)
      · exact .inr (.inr ⟨g, List.mem_cons_of_mem _ hg, ha⟩)

/-- The anchors of a thread state are what its scene refers to. -/
theorem ThreadState.Tells.mem_anchors {th : ThreadState} {sc : Scene ContextId Kept AnchorId} (h : th.Tells sc)
    {a : AnchorId} (ha : a ∈ sc.refs) : a ∈ th.anchors := by
  have hexec : th.exec.anchors = sc.last.toList ++ sc.story.costed.toList := by
    rw [h.exec]
    rfl
  rw [anchors, h.frames, h.handlers, hexec, List.mem_append, List.mem_append, List.mem_append, List.mem_flatMap,
    List.mem_flatMap]
  obtain hlast | hstory := List.mem_append.mp ha
  · exact .inl (.inl (.inl hlast))
  · obtain hc | hframe | hhandler := Story.mem_refs h.wellFormed hstory
    · exact .inl (.inl (.inr hc))
    · exact .inr hframe
    · exact .inl (.inr hhandler)

end CallGraph
