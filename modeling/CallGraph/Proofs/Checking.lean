/-
  CallGraph.Proofs.Checking — which traces are accepted, and which flaw the others are told.

  `Trace.Has` says what each flaw says of a trace, and `Flaw.Before` in which order flaws are come upon: by the part
  of the trace (settings, functions, blocks, events), in a part by the place in its list, and at one place in a fixed
  turn. A check finds the flaws of a kind (`Finds`) if it answers the first of them, or that there is none. Checks made
  one after the other find the flaws of both, when those of the first come before (`Finds.bind`), and so does a check
  along a list (`Finds.forM`). So the check of a trace accepts the consistent traces and names the first flaw of any
  other (`check_names_first_flaw`).
-/

import CallGraph.Proofs.Storage
import CallGraph.Trace.Flaw

namespace CallGraph

/-! ## Flaws and their order -/

namespace Event

/-- The place of the block that an event is about. -/
def place? : Event → Option Nat
  | .block _ _ place _ => some place.toNat
  | .discard place => some place.toNat
  | .signal _ _ => none
  | .signalReturn _ _ => none

/-- The signal that an event is about. -/
def signalNumber? : Event → Option Int
  | .block _ _ _ _ => none
  | .discard _ => none
  | .signal _ number => some number.toInt
  | .signalReturn _ number => some number.toInt

/-- The exit that an event names. -/
def exit? : Event → Option Nat
  | .block _ _ _ exit => exit.map UInt64.toNat
  | .discard _ => none
  | .signal _ _ => none
  | .signalReturn _ _ => none

end Event

/-- What a flaw says of a trace. -/
def Trace.Has (t : Trace) : Flaw → Prop
  | .config .zeroDepth => t.config.contextDepth = some 0
  | .config .noContextBuckets => t.config.contextBuckets = 0
  | .config .noAnchorBuckets => t.config.anchorBuckets = 0
  | .unknownObject i object => ∃ f, t.functions[i]? = some f ∧ f.object.toNat = object ∧ t.objects.size ≤ object
  | .unknownFunction i fn => ∃ b, t.blocks[i]? = some b ∧ b.function.toNat = fn ∧ t.functions.size ≤ fn
  | .unknownBlockObject i object =>
    ∃ b, t.blocks[i]? = some b ∧ b.object.map UInt32.toNat = some object ∧ t.objects.size ≤ object
  | .noExits i => ∃ b, t.blocks[i]? = some b ∧ b.exits = []
  | .unknownBlock i place => ∃ e, t.events[i]? = some e ∧ e.place? = some place ∧ t.blocks.size ≤ place
  | .exitOutOfRange i place exit =>
    ∃ e b, t.events[i]? = some e ∧ e.place? = some place ∧ t.blocks[place]? = some b ∧ e.exit? = some exit ∧
      b.finalIndex < exit
  | .signalNotPositive i signal => ∃ e, t.events[i]? = some e ∧ e.signalNumber? = some signal ∧ signal ≤ 0

namespace Flaw

/-- The part of the trace: the settings, the functions, the blocks, the events. -/
def part : Flaw → Nat
  | .config _ => 0
  | .unknownObject _ _ => 1
  | .unknownFunction _ _ | .unknownBlockObject _ _ | .noExits _ => 2
  | .unknownBlock _ _ | .exitOutOfRange _ _ _ | .signalNotPositive _ _ => 3

/-- The place in the part. -/
def index : Flaw → Nat
  | .config _ => 0
  | .unknownObject i _ => i
  | .unknownFunction i _ | .unknownBlockObject i _ | .noExits i => i
  | .unknownBlock i _ | .exitOutOfRange i _ _ | .signalNotPositive i _ => i

/-- The turn at the place. -/
def turn : Flaw → Nat
  | .config .zeroDepth | .unknownObject _ _ | .unknownFunction _ _ | .unknownBlock _ _ | .signalNotPositive _ _ => 0
  | .config .noContextBuckets | .unknownBlockObject _ _ | .exitOutOfRange _ _ _ => 1
  | .config .noAnchorBuckets | .noExits _ => 2

/-- One flaw is come upon before another. -/
def Before (f g : Flaw) : Prop :=
  f.part < g.part ∨ f.part = g.part ∧ (f.index < g.index ∨ f.index = g.index ∧ f.turn < g.turn)

theorem Before.asymm {f g : Flaw} (h : f.Before g) : ¬ g.Before f := by
  unfold Before at h ⊢
  omega

end Flaw

/-! ## Checks -/

/-- What a check answers that looks for the flaws of a kind: the first of them, or that there is none. -/
def Finds (kind : Flaw → Prop) : Except Flaw Unit → Prop
  | .ok () => ∀ g, ¬ kind g
  | .error f => kind f ∧ ∀ g, kind g → g = f ∨ f.Before g

namespace Finds

variable {kind kind' : Flaw → Prop} {c c' : Except Flaw Unit}

theorem congr (h : Finds kind c) (hkind : ∀ g, kind' g ↔ kind g) : Finds kind' c := by
  rwa [show kind' = kind from funext fun g => propext (hkind g)]

theorem eq_ok_iff (h : Finds kind c) : c = .ok () ↔ ∀ g, ¬ kind g := by
  cases c with
  | ok => exact iff_of_true rfl h
  | error f => exact iff_of_false nofun fun hnone => hnone f h.1

/-- There is one first flaw. -/
theorem eq_error_iff (h : Finds kind c) (f : Flaw) : c = .error f ↔ kind f ∧ ∀ g, kind g → g = f ∨ f.Before g := by
  cases c with
  | ok => exact iff_of_false nofun fun hf => h f hf.1
  | error f' =>
    obtain ⟨hf', hfirst'⟩ := h
    constructor
    · intro e
      cases e
      exact ⟨hf', hfirst'⟩
    · rintro ⟨hf, hfirst⟩
      rcases hfirst f' hf' with e | hbefore
      · rw [e]
      · rcases hfirst' f hf with e | hbefore'
        · rw [e]
        · exact absurd hbefore' hbefore.asymm

theorem nothing : Finds (fun _ => False) (pure ()) := fun _ => id

/-- First a check for one flaw. -/
theorem guard {p : Prop} [Decidable p] {f : Flaw} (h : Finds kind c) (hbefore : ∀ g, kind g → f.Before g) :
    Finds (fun g => p ∧ g = f ∨ kind g) (if p then throw f else c) := by
  by_cases hp : p
  · rw [if_pos hp]
    refine ⟨.inl ⟨hp, rfl⟩, fun g hg => ?_⟩
    rcases hg with hg | hg
    · exact .inl hg.2
    · exact .inr (hbefore g hg)
  · rw [if_neg hp]
    refine h.congr fun g => ?_
    exact or_iff_right fun hg => hp hg.1

/-- First a check for a flaw of what may be there. -/
theorem guardSome {α : Type} {o : Option α} {f : α → Flaw} (h : Finds kind c) (hbefore : ∀ a g, kind g → (f a).Before g)
    (hnone : o = none → c' = c) (hsome : ∀ a, o = some a → c' = .error (f a)) :
    Finds (fun g => (∃ a, o = some a ∧ g = f a) ∨ kind g) c' := by
  cases ho : o with
  | none =>
    rw [hnone ho]
    refine h.congr fun g => or_iff_right ?_
    rintro ⟨a, ha, -⟩
    cases ha
  | some a =>
    rw [hsome a ho]
    refine ⟨.inl ⟨a, rfl, rfl⟩, fun g hg => ?_⟩
    rcases hg with ⟨a', ha', hg⟩ | hg
    · cases ha'
      exact .inl hg
    · exact .inr (hbefore a g hg)

/-- One check after the other. -/
theorem bind (h : Finds kind c) (h' : Finds kind' c') (hbefore : ∀ f g, kind f → kind' g → f.Before g) :
    Finds (fun g => kind g ∨ kind' g) (c >>= fun _ => c') := by
  cases c with
  | error f =>
    refine ⟨.inl h.1, fun g hg => ?_⟩
    rcases hg with hg | hg
    · exact h.2 g hg
    · exact .inr (hbefore f g h.1 hg)
  | ok =>
    rw [ok_bind]
    refine h'.congr fun g => ?_
    exact or_iff_right (h g)

/-- A check along a list, whose flaws stand in one part of the trace at the places of their items. -/
theorem forM {α : Type} (kind : Flaw → Prop) (part : Nat) {check : α × Nat → Except Flaw Unit} (l : List α) (n : Nat)
    (h : ∀ p ∈ l.zipIdx n, Finds (fun g => kind g ∧ g.part = part ∧ g.index = p.2) (check p)) :
    Finds (fun g => kind g ∧ g.part = part ∧ n ≤ g.index ∧ g.index < n + l.length) ((l.zipIdx n).forM check) := by
  induction l generalizing n with
  | nil =>
    intro g hg
    have hlt := hg.2.2.2
    have hle := hg.2.2.1
    exact absurd hlt (Nat.not_lt.mpr hle)
  | cons a l ih =>
    have hrest := ih (n + 1) fun p hp => h p (List.mem_cons_of_mem _ hp)
    have hfirst := h (a, n) List.mem_cons_self
    refine (hfirst.bind hrest fun f g hf hg => ?_).congr fun g => ?_
    · refine .inr ⟨hf.2.1.trans hg.2.1.symm, .inl ?_⟩
      have hindex : f.index = n := hf.2.2
      omega
    · rw [List.length_cons, ← and_or_left, ← and_or_left]
      refine and_congr_right fun _ => and_congr_right fun _ => ?_
      show _ ↔ g.index = n ∨ _
      omega

end Finds

namespace Trace

variable {t : Trace}

/-- The flaws of one part of a trace. -/
def HasIn (t : Trace) (part : Nat) (g : Flaw) : Prop := t.Has g ∧ g.part = part

/-- The flaws at one place of a part of a trace. -/
def HasAt (t : Trace) (part i : Nat) (g : Flaw) : Prop := t.Has g ∧ g.part = part ∧ g.index = i

theorem checkConfig_eq (c : Config) : c.checkFlaw =
    if c.contextDepth = some 0 then throw (.config .zeroDepth)
    else if c.contextBuckets = 0 then throw (.config .noContextBuckets)
    else if c.anchorBuckets = 0 then throw (.config .noAnchorBuckets)
    else pure () := by
  unfold Config.checkFlaw Config.check
  by_cases hdepth : c.contextDepth = some 0
  · simp [hdepth]
  · by_cases hcontexts : c.contextBuckets = 0
    · simp [hdepth, hcontexts]
    · by_cases hanchors : c.anchorBuckets = 0 <;> simp [hdepth, hcontexts, hanchors]

theorem checkConfig_finds (t : Trace) : Finds (t.HasIn 0) t.config.checkFlaw := by
  rw [checkConfig_eq]
  refine (Finds.guard (.guard (.guard .nothing ?_) ?_) ?_).congr fun g => ?_
  · exact fun _ => False.elim
  · rintro g (⟨-, rfl⟩ | hg)
    · simp [Flaw.Before, Flaw.part, Flaw.index, Flaw.turn]
    · exact hg.elim
  · rintro g (⟨-, rfl⟩ | ⟨-, rfl⟩ | hg)
    · simp [Flaw.Before, Flaw.part, Flaw.index, Flaw.turn]
    · simp [Flaw.Before, Flaw.part, Flaw.index, Flaw.turn]
    · exact hg.elim
  · cases g with
    | config flaw => cases flaw <;> simp [HasIn, Has, Flaw.part]
    | _ => simp [HasIn, Flaw.part]

theorem checkFunction_finds {i : Nat} {f : FunctionDecl} (hf : t.functions[i]? = some f) :
    Finds (t.HasAt 1 i) (t.checkFunction i f) := by
  refine (Finds.nothing.guard fun _ => False.elim).congr fun g => ?_
  cases g with
  | unknownObject j object =>
    simp only [HasAt, Has, Flaw.part, Flaw.index, Flaw.unknownObject.injEq, or_false, true_and]
    constructor
    · rintro ⟨⟨f', hf', rfl, hle⟩, rfl⟩
      cases hf.symm.trans hf'
      exact ⟨hle, rfl, rfl⟩
    · rintro ⟨hle, rfl, rfl⟩
      exact ⟨⟨f, hf, rfl, hle⟩, rfl⟩
  | _ => simp [HasAt, Flaw.part]

theorem checkBlock_finds {i : Nat} {b : BlockDecl} (hb : t.blocks[i]? = some b) :
    Finds (t.HasAt 2 i) (t.checkBlock i b) := by
  have hexits := Finds.nothing.guard (p := b.exits.isEmpty) (f := .noExits i) fun _ => False.elim
  unfold checkBlock
  refine (Finds.guard (hexits.guardSome (o := b.object.filter fun o => t.objects.size ≤ o.toNat)
    (f := fun o => .unknownBlockObject i o.toNat) ?_ (fun h => by rw [h]) (fun o h => by rw [h]; rfl)) ?_).congr
    fun g => ?_
  · rintro o g (⟨-, rfl⟩ | hg)
    · simp [Flaw.Before, Flaw.part, Flaw.index, Flaw.turn]
    · exact hg.elim
  · rintro g (⟨o, -, rfl⟩ | ⟨-, rfl⟩ | hg)
    · simp [Flaw.Before, Flaw.part, Flaw.index, Flaw.turn]
    · simp [Flaw.Before, Flaw.part, Flaw.index, Flaw.turn]
    · exact hg.elim
  cases g with
  | unknownFunction j fn =>
    simp only [HasAt, Has, Flaw.part, Flaw.index, Flaw.unknownFunction.injEq, reduceCtorEq, and_false, exists_false,
      or_false, true_and]
    constructor
    · rintro ⟨⟨b', hb', rfl, hle⟩, rfl⟩
      cases hb.symm.trans hb'
      exact ⟨hle, rfl, rfl⟩
    · rintro ⟨hle, rfl, rfl⟩
      exact ⟨⟨b, hb, rfl, hle⟩, rfl⟩
  | unknownBlockObject j object =>
    simp only [HasAt, Has, Flaw.part, Flaw.index, Flaw.unknownBlockObject.injEq, reduceCtorEq, and_false, false_or,
      or_false, true_and, Option.filter_eq_some_iff, Option.map_eq_some_iff, decide_eq_true_eq]
    constructor
    · rintro ⟨⟨b', hb', ⟨o, ho, rfl⟩, hle⟩, rfl⟩
      cases hb.symm.trans hb'
      exact ⟨o, ⟨ho, hle⟩, rfl, rfl⟩
    · rintro ⟨o, ⟨ho, hle⟩, rfl, rfl⟩
      exact ⟨⟨b, hb, ⟨o, ho, rfl⟩, hle⟩, rfl⟩
  | noExits j =>
    simp only [HasAt, Has, Flaw.part, Flaw.index, Flaw.noExits.injEq, reduceCtorEq, and_false, exists_false, false_or,
      or_false, true_and, List.isEmpty_iff]
    constructor
    · rintro ⟨⟨b', hb', hnil⟩, rfl⟩
      cases hb.symm.trans hb'
      exact ⟨hnil, rfl⟩
    · rintro ⟨hnil, rfl⟩
      exact ⟨⟨b, hb, hnil⟩, rfl⟩
  | _ => simp [HasAt, Flaw.part]

/-- Among the flaws at an event, only what is said of it there counts. -/
theorem hasAt_event {i : Nat} {e : Event} (he : t.events[i]? = some e) (g : Flaw) : t.HasAt 3 i g ↔
    (∃ place, e.place? = some place ∧ t.blocks.size ≤ place ∧ g = .unknownBlock i place) ∨
    (∃ place b exit, e.place? = some place ∧ t.blocks[place]? = some b ∧ e.exit? = some exit ∧ b.finalIndex < exit ∧
      g = .exitOutOfRange i place exit) ∨
    ∃ number, e.signalNumber? = some number ∧ number ≤ 0 ∧ g = .signalNotPositive i number := by
  cases g with
  | unknownBlock j place =>
    simp only [HasAt, Has, Flaw.part, Flaw.index, Flaw.unknownBlock.injEq, reduceCtorEq, and_false, exists_false,
      or_false, true_and]
    constructor
    · rintro ⟨⟨e', he', hplace, hle⟩, rfl⟩
      cases he.symm.trans he'
      exact ⟨place, hplace, hle, rfl, rfl⟩
    · rintro ⟨_, hplace, hle, rfl, rfl⟩
      exact ⟨⟨e, he, hplace, hle⟩, rfl⟩
  | exitOutOfRange j place exit =>
    simp only [HasAt, Has, Flaw.part, Flaw.index, Flaw.exitOutOfRange.injEq, reduceCtorEq, and_false, exists_false,
      or_false, false_or, true_and]
    constructor
    · rintro ⟨⟨e', b, he', hplace, hb, hexit, hlt⟩, rfl⟩
      cases he.symm.trans he'
      exact ⟨place, b, exit, hplace, hb, hexit, hlt, rfl, rfl, rfl⟩
    · rintro ⟨_, b, _, hplace, hb, hexit, hlt, rfl, rfl, rfl⟩
      exact ⟨⟨e, b, he, hplace, hb, hexit, hlt⟩, rfl⟩
  | signalNotPositive j number =>
    simp only [HasAt, Has, Flaw.part, Flaw.index, Flaw.signalNotPositive.injEq, reduceCtorEq, and_false, exists_false,
      false_or, true_and]
    constructor
    · rintro ⟨⟨e', he', hnumber, hle⟩, rfl⟩
      cases he.symm.trans he'
      exact ⟨number, hnumber, hle, rfl, rfl⟩
    · rintro ⟨_, hnumber, hle, rfl, rfl⟩
      exact ⟨⟨e, he, hnumber, hle⟩, rfl⟩
  | _ => simp [HasAt, Flaw.part]

theorem checkSignal_finds {i : Nat} {e : Event} (he : t.events[i]? = some e) {number : Int32}
    (hplace : e.place? = none) (hnumber : e.signalNumber? = some number.toInt) :
    Finds (t.HasAt 3 i) (checkSignal i number) := by
  refine (Finds.nothing.guard fun _ => False.elim).congr fun g => ?_
  rw [hasAt_event he, hplace, hnumber]
  simp

/-- An event about a block that is not declared has no other flaw. -/
theorem unknownBlock_finds {i place : Nat} {e : Event} (he : t.events[i]? = some e) (hplace : e.place? = some place)
    (hnumber : e.signalNumber? = none) (hb : t.blocks[place]? = none) :
    Finds (t.HasAt 3 i) (.error (.unknownBlock i place)) := by
  refine ⟨(hasAt_event he _).mpr (.inl ⟨place, hplace, Array.getElem?_eq_none_iff.mp hb, rfl⟩), fun g hg => .inl ?_⟩
  rw [hasAt_event he, hplace, hnumber] at hg
  rcases hg with ⟨_, e, -, rfl⟩ | ⟨_, _, _, e, hb', -⟩ | ⟨_, e, -⟩
  · cases e
    rfl
  · cases e
    cases hb.symm.trans hb'
  · cases e

/-- An event about a declared block can only be wrong in its exit. -/
theorem hasAt_known {i place : Nat} {e : Event} {b : BlockDecl} (he : t.events[i]? = some e)
    (hplace : e.place? = some place) (hnumber : e.signalNumber? = none) (hb : t.blocks[place]? = some b) (g : Flaw) :
    t.HasAt 3 i g ↔ ∃ exit, e.exit? = some exit ∧ b.finalIndex < exit ∧ g = .exitOutOfRange i place exit := by
  have hlt := (Array.getElem?_eq_some_iff.mp hb).1
  rw [hasAt_event he, hplace, hnumber]
  constructor
  · rintro (⟨_, e, hle, -⟩ | ⟨_, _, exit, e, hb', hexit, hover, hg⟩ | ⟨_, e, -⟩)
    · cases e
      exact absurd hlt (Nat.not_lt.mpr hle)
    · cases e
      cases hb.symm.trans hb'
      exact ⟨exit, hexit, hover, hg⟩
    · cases e
  · rintro ⟨exit, hexit, hover, hg⟩
    exact .inr (.inl ⟨place, b, exit, rfl, hb, hexit, hover, hg⟩)

theorem checkEvent_finds {i : Nat} {e : Event} (he : t.events[i]? = some e) :
    Finds (t.HasAt 3 i) (t.checkEvent i e) := by
  cases e with
  | signal tid number => exact checkSignal_finds he rfl rfl
  | signalReturn tid number => exact checkSignal_finds he rfl rfl
  | discard place =>
    simp only [checkEvent]
    cases hb : t.blocks[place.toNat]? with
    | none => exact unknownBlock_finds he rfl rfl hb
    | some b =>
      refine Finds.nothing.congr fun g => ?_
      rw [hasAt_known he rfl rfl hb]
      simp [Event.exit?]
  | block tid sp place exit =>
    simp only [checkEvent]
    cases hb : t.blocks[place.toNat]? with
    | none => exact unknownBlock_finds he rfl rfl hb
    | some b =>
      refine (Finds.nothing.guardSome (o := exit.filter fun e => b.finalIndex < e.toNat)
        (f := fun e => .exitOutOfRange i place.toNat e.toNat) (fun _ _ => False.elim) (fun h => by simp only [h])
        (fun e h => by simp only [h, throw_eq_error])).congr fun g => ?_
      rw [hasAt_known he rfl rfl hb]
      simp only [Event.exit?, Option.map_eq_some_iff, Option.filter_eq_some_iff, decide_eq_true_eq, or_false]
      constructor
      · rintro ⟨_, ⟨e, hexit, rfl⟩, hover, rfl⟩
        exact ⟨e, ⟨hexit, hover⟩, rfl⟩
      · rintro ⟨e, ⟨hexit, hover⟩, rfl⟩
        exact ⟨_, ⟨e, hexit, rfl⟩, hover, rfl⟩

/-! ## The whole trace -/

/-- All that is referred to is declared, and the numbers that have to be positive are. -/
structure Consistent (t : Trace) : Prop where
  depth : t.config.contextDepth ≠ some 0
  contextBuckets : t.config.contextBuckets ≠ 0
  anchorBuckets : t.config.anchorBuckets ≠ 0
  functionObjects : ∀ f ∈ t.functions, f.object.toNat < t.objects.size
  blockFunctions : ∀ b ∈ t.blocks, b.function.toNat < t.functions.size
  blockObjects : ∀ b ∈ t.blocks, ∀ object, b.object = some object → object.toNat < t.objects.size
  blockExits : ∀ b ∈ t.blocks, b.exits ≠ []
  eventBlocks : ∀ e ∈ t.events, ∀ place, e.place? = some place → place < t.blocks.size
  eventExits : ∀ e ∈ t.events, ∀ place b exit, e.place? = some place → t.blocks[place]? = some b →
    e.exit? = some exit → exit ≤ b.finalIndex
  eventSignals : ∀ e ∈ t.events, ∀ number, e.signalNumber? = some number → 0 < number

theorem consistent_iff (t : Trace) : t.Consistent ↔ ∀ g, ¬ t.Has g := by
  constructor
  · intro h g hg
    cases g with
    | config flaw =>
      cases flaw with
      | zeroDepth => exact h.depth hg
      | noContextBuckets => exact h.contextBuckets hg
      | noAnchorBuckets => exact h.anchorBuckets hg
    | unknownObject i object =>
      obtain ⟨f, hf, rfl, hle⟩ := hg
      exact Nat.not_le.mpr (h.functionObjects f (Array.mem_of_getElem? hf)) hle
    | unknownFunction i fn =>
      obtain ⟨b, hb, rfl, hle⟩ := hg
      exact Nat.not_le.mpr (h.blockFunctions b (Array.mem_of_getElem? hb)) hle
    | unknownBlockObject i object =>
      obtain ⟨b, hb, hobject, hle⟩ := hg
      obtain ⟨o, ho, rfl⟩ := Option.map_eq_some_iff.mp hobject
      exact Nat.not_le.mpr (h.blockObjects b (Array.mem_of_getElem? hb) o ho) hle
    | noExits i =>
      obtain ⟨b, hb, hnil⟩ := hg
      exact h.blockExits b (Array.mem_of_getElem? hb) hnil
    | unknownBlock i place =>
      obtain ⟨e, he, hplace, hle⟩ := hg
      exact Nat.not_le.mpr (h.eventBlocks e (List.mem_of_getElem? he) place hplace) hle
    | exitOutOfRange i place exit =>
      obtain ⟨e, b, he, hplace, hb, hexit, hlt⟩ := hg
      exact Nat.not_lt.mpr (h.eventExits e (List.mem_of_getElem? he) place b exit hplace hb hexit) hlt
    | signalNotPositive i number =>
      obtain ⟨e, he, hnumber, hle⟩ := hg
      exact absurd (h.eventSignals e (List.mem_of_getElem? he) number hnumber) (Int.not_lt.mpr hle)
  · intro h
    refine ⟨h (.config .zeroDepth), h (.config .noContextBuckets), h (.config .noAnchorBuckets), ?_, ?_, ?_, ?_, ?_, ?_,
      ?_⟩
    · intro f hf
      obtain ⟨i, hi⟩ := Array.mem_iff_getElem?.mp hf
      exact Nat.not_le.mp fun hle => h (.unknownObject i _) ⟨f, hi, rfl, hle⟩
    · intro b hb
      obtain ⟨i, hi⟩ := Array.mem_iff_getElem?.mp hb
      exact Nat.not_le.mp fun hle => h (.unknownFunction i _) ⟨b, hi, rfl, hle⟩
    · intro b hb object hobject
      obtain ⟨i, hi⟩ := Array.mem_iff_getElem?.mp hb
      exact Nat.not_le.mp fun hle => h (.unknownBlockObject i _) ⟨b, hi, by rw [hobject]; rfl, hle⟩
    · intro b hb hnil
      obtain ⟨i, hi⟩ := Array.mem_iff_getElem?.mp hb
      exact h (.noExits i) ⟨b, hi, hnil⟩
    · intro e he place hplace
      obtain ⟨i, hi⟩ := List.mem_iff_getElem?.mp he
      exact Nat.not_le.mp fun hle => h (.unknownBlock i place) ⟨e, hi, hplace, hle⟩
    · intro e he place b exit hplace hb hexit
      obtain ⟨i, hi⟩ := List.mem_iff_getElem?.mp he
      exact Nat.not_lt.mp fun hlt => h (.exitOutOfRange i place exit) ⟨e, b, hi, hplace, hb, hexit, hlt⟩
    · intro e he number hnumber
      obtain ⟨i, hi⟩ := List.mem_iff_getElem?.mp he
      exact Int.not_le.mp fun hle => h (.signalNotPositive i number) ⟨e, hi, hnumber, hle⟩

/-- The place of a flaw lies in its list. -/
theorem Has.index_lt {g : Flaw} (h : t.Has g) :
    (g.part = 1 → g.index < t.functions.size) ∧ (g.part = 2 → g.index < t.blocks.size) ∧
      (g.part = 3 → g.index < t.events.length) := by
  cases g <;> simp only [Has, Flaw.part, Flaw.index] at h ⊢ <;> grind

/-- A check along the list of a part. -/
theorem forM_finds {α : Type} {part : Nat} {l : List α} {check : α × Nat → Except Flaw Unit}
    (hitem : ∀ i a, l[i]? = some a → Finds (t.HasAt part i) (check (a, i)))
    (hlist : ∀ g, t.HasIn part g → g.index < l.length) : Finds (t.HasIn part) (l.zipIdx.forM check) := by
  refine (Finds.forM t.Has part l 0 fun p hp => ?_).congr fun g => ?_
  · exact hitem p.2 p.1 (List.mem_zipIdx_iff_getElem?.mp hp)
  · constructor
    · intro hg
      exact ⟨hg.1, hg.2, Nat.zero_le _, by rw [Nat.zero_add]; exact hlist g hg⟩
    · rintro ⟨hhas, hpart, -⟩
      exact ⟨hhas, hpart⟩

theorem check_finds (t : Trace) : Finds t.Has t.check := by
  have hfunctions : Finds (t.HasIn 1) (t.functions.toList.zipIdx.forM fun p => t.checkFunction p.2 p.1) := by
    refine forM_finds (fun i f hf => checkFunction_finds ?_) fun g hg => hg.1.index_lt.1 hg.2
    rwa [Array.getElem?_toList] at hf
  have hblocks : Finds (t.HasIn 2) (t.blocks.toList.zipIdx.forM fun p => t.checkBlock p.2 p.1) := by
    refine forM_finds (fun i b hb => checkBlock_finds ?_) fun g hg => hg.1.index_lt.2.1 hg.2
    rwa [Array.getElem?_toList] at hb
  have hevents : Finds (t.HasIn 3) (t.events.zipIdx.forM fun p => t.checkEvent p.2 p.1) :=
    forM_finds (fun i e he => checkEvent_finds he) fun g hg => hg.1.index_lt.2.2 hg.2
  refine ((checkConfig_finds t).bind (hfunctions.bind (hblocks.bind hevents ?_) ?_) ?_).congr fun g => ?_
  · rintro f g ⟨-, hf⟩ ⟨-, hg⟩
    exact .inl (by omega)
  · rintro f g ⟨-, hf⟩ (⟨-, hg⟩ | ⟨-, hg⟩) <;> exact .inl (by omega)
  · rintro f g ⟨-, hf⟩ (⟨-, hg⟩ | ⟨-, hg⟩ | ⟨-, hg⟩) <;> exact .inl (by omega)
  · cases g <;> simp [HasIn, Flaw.part]

/-- A check accepts exactly the consistent traces, and of any other it names the first flaw. -/
theorem check_names_first_flaw (t : Trace) :
    (t.check = .ok () ↔ t.Consistent) ∧
      ∀ f, t.check = .error f ↔ t.Has f ∧ ∀ g, t.Has g → g = f ∨ f.Before g :=
  ⟨(check_finds t).eq_ok_iff.trans t.consistent_iff.symm, (check_finds t).eq_error_iff⟩

/-- The block of the first event is not declared; the second signal is not looked at any more. -/
example : check { events := [.block 1 ⟨0⟩ 3 (some 7), .signal 1 0] } = .error (.unknownBlock 0 3) := rfl

end Trace
end CallGraph
