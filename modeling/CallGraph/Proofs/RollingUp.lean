/-
  CallGraph.Proofs.RollingUp — skipping functions only rolls their cost up.

  Two runs of the same events, one without skipped functions and one that skips the functions of `K`,
  have calls that match one by one: the same function is called at the same stack pointer, and it is
  rolled up if it is in `K` (`Rolled`). What such calls show of a chain is the chain without `K`
  (`chain_rollUp`). Transfers agree as long as no return is level with the top frame, where
  the address that the frame returns to decides, and a call out of skipped code returns elsewhere. So the
  worlds of the two runs stay matched (`World.RollsUp.play`), and every block is billed to the rolled up
  chain (`skipping_rolls_up`).
-/

import Mathlib.Data.List.Destutter
import CallGraph.Proofs.Replaying

namespace CallGraph

/-! ## Chains without some functions -/

/-- The chain without the functions of `K` but for the outermost one, where equal neighbours are one. -/
def rollUp (K : FnId → Bool) (chain : List FnId) : List FnId :=
  (chain.dropLast.filter (fun fn => !K fn) ++ chain.getLast?.toList).destutter (· ≠ ·)

section
variable {K : FnId → Bool} {fn g : FnId} {chain : List FnId}

theorem head?_destutter {α : Type} (R : α → α → Prop) [DecidableRel R] (l : List α) :
    (l.destutter R).head? = l.head? := by
  have hhead : ∀ (a : α) (l : List α), (l.destutter' R a).head? = some a := by
    intro a l
    induction l with
    | nil => rfl
    | cons b l ih =>
      rw [List.destutter'_cons]
      split
      · rfl
      · exact ih
  cases l with
  | nil => rfl
  | cons a l => exact hhead a l

theorem destutter_cons {α : Type} [DecidableEq α] (a : α) (l : List α) :
    (a :: l).destutter (· ≠ ·) =
      if l.head? = some a then l.destutter (· ≠ ·) else a :: l.destutter (· ≠ ·) := by
  cases l with
  | nil => rfl
  | cons b l =>
    rw [List.destutter_cons_cons, List.head?_cons]
    by_cases e : b = a
    · rw [if_pos (congrArg some e), if_neg (not_not_intro e.symm), e]
      rfl
    · rw [if_neg fun h => e (Option.some.inj h), if_pos (Ne.symm e)]
      rfl

theorem rollUp_of_mem (h : K fn = true) (hne : chain ≠ []) : rollUp K (fn :: chain) = rollUp K chain := by
  have hlast : (fn :: chain).getLast? = chain.getLast? := by
    obtain ⟨g, rest, rfl⟩ := List.exists_cons_of_ne_nil hne
    exact List.getLast?_cons_cons
  rw [rollUp, rollUp, List.dropLast_cons_of_ne_nil hne, hlast, List.filter_cons_of_neg (by simp [h])]

theorem rollUp_of_not_mem (h : K fn = false) (hne : chain ≠ []) :
    rollUp K (fn :: chain) =
      if (rollUp K chain).head? = some fn then rollUp K chain else fn :: rollUp K chain := by
  have hlast : (fn :: chain).getLast? = chain.getLast? := by
    obtain ⟨g, rest, rfl⟩ := List.exists_cons_of_ne_nil hne
    exact List.getLast?_cons_cons
  rw [rollUp, rollUp, head?_destutter, List.dropLast_cons_of_ne_nil hne, hlast,
    List.filter_cons_of_pos (by simp [h]), List.cons_append, destutter_cons]

theorem head?_rollUp (h : K fn = false) : (rollUp K (fn :: chain)).head? = some fn := by
  rw [rollUp, head?_destutter]
  cases chain with
  | nil => rfl
  | cons g chain =>
    rw [List.dropLast_cons_of_ne_nil (List.cons_ne_nil g chain), List.filter_cons_of_pos (by simp [h])]
    rfl

end

/-! ## Matching calls -/

/-- A call that is not rolled up, and the same call in a run that skips the functions of `K`. -/
structure Rolled {α β : Type} (K : FnId → Bool) (c : OpenCall α) (c' : OpenCall β) : Prop where
  fn : c'.fn = c.fn
  sp : c'.sp = c.sp
  plain : c.skipped = false
  skipped : c'.skipped = K c.fn

namespace Story.Match

variable {κ ι α κ' ι' β : Type} {K : FnId → Bool} {R : α → β → Prop} {s : Story κ ι α} {s' : Story κ' ι' β}

theorem levels (h : Match (Rolled K) R s s') : s'.marks.map (·.sp) = s.marks.map (·.sp) := by
  induction h with
  | fresh => rfl
  | first _ _ _ _ ih | handler _ _ _ _ ih => exact ih
  | call _ _ _ _ hc _ ih => simp only [Story.marks, List.map_cons, hc.sp, ih]

theorem chain_nil_of_not_started (h : s.started = false) : FnStack.chain ⟨s.slots⟩ = [] := by
  cases s with
  | fresh | handler => rfl
  | first | call => cases h

/-- What the skipping run shows is the chain rolled up. -/
theorem chain_rollUp (h : Match (Rolled K) R s s') (hw : s.WellFormed) :
    FnStack.chain ⟨s'.slots⟩ = rollUp K (FnStack.chain ⟨s.slots⟩) := by
  induction h with
  | fresh | handler => rfl
  | first fn _ _ h _ =>
    have hs := chain_nil_of_not_started hw.1
    have hs' := chain_nil_of_not_started (h.started.trans hw.1)
    rw [Story.slots, Story.slots, FnStack.chain_function, FnStack.chain_function, hs, hs']
    rfl
  | @call c c' _ _ _ _ s s' hc h ih =>
    have ih := ih hw.2
    obtain ⟨g, rest, hslots⟩ := top_of_started hw.2 hw.1
    obtain ⟨g', rest', hslots'⟩ := top_of_started (h.wellFormed hw.2) (h.started.trans hw.1)
    have hne : FnStack.chain ⟨s.slots⟩ ≠ [] := by
      rw [hslots, FnStack.chain_function]
      exact List.cons_ne_nil _ _
    have htop : s.slots.head? = some (some c.fn) ↔ (FnStack.chain ⟨s.slots⟩).head? = some c.fn := by
      simp [hslots]
    have htop' : s'.slots.head? = some (some c.fn) ↔ (FnStack.chain ⟨s'.slots⟩).head? = some c.fn := by
      simp [hslots']
    simp only [Story.slots, hc.plain, hc.skipped, hc.fn, Bool.false_eq_true, false_or, htop, htop', ih]
    cases hK : K c.fn with
    | true =>
      rw [if_pos (.inl rfl), ih]
      split
      · rfl
      · rw [FnStack.chain_function, rollUp_of_mem hK hne]
    | false =>
      simp only [Bool.false_eq_true, false_or]
      by_cases e : (FnStack.chain ⟨s.slots⟩).head? = some c.fn
      · -- A call of a function to itself adds nothing to either chain.
        have hhead : (rollUp K (FnStack.chain ⟨s.slots⟩)).head? = some c.fn := by
          obtain ⟨rest, hrest⟩ := List.head?_eq_some_iff.mp e
          rw [hrest]
          exact head?_rollUp hK
        rw [if_pos e, if_pos hhead, ih]
      · rw [if_neg e, FnStack.chain_function, rollUp_of_not_mem hK hne]
        split
        · exact ih
        · rw [FnStack.chain_function, ih]

end Story.Match

/-! ## Matching worlds -/

/-- What every thread has open in the one run matches what it has open in the other. -/
def World.RollsUp (K : FnId → Bool) (w w' : World) : Prop :=
  ∀ u, Scene.Match (Rolled K) (fun s s' : Site => s'.place = s.place) (w u) (w' u)

/-- The event runs no block reached through a return at the level of its thread's top frame. -/
def World.ReturnsApart (P : Program) (w : World) (e : Event) : Prop :=
  ∀ tid sp place exit, e = .block tid sp place exit → ∀ d, (w ⟨tid.toNat⟩).departure P.blockOf = some d →
    d.kind = .ret → ∀ f, (w ⟨tid.toNat⟩).story.marks.head? = some f → f.sp ≠ sp

namespace World

variable {K : FnId → Bool} {P P' : Program} {w w' : World} {e : Event}

theorem initial_rollsUp : RollsUp K initial initial := fun _ => ⟨.fresh, .none, rfl⟩

/-- A block does the same to matching scenes, and shows the chain and the chain rolled up. -/
theorem RollsUp.visit (h : RollsUp K w w') (hP' : P' = { P with skips := K }) (hplain : P.skips = fun _ => false)
    {tid : UInt32} {sp : Addr} {place : UInt32} {exit : Option UInt64}
    (hapart : w.ReturnsApart P (.block tid sp place exit)) (b : Block) (passed : Nat) :
    Scene.Match (Rolled K) (fun s s' : Site => s'.place = s.place)
      (P.visit sp place.toNat b passed (w ⟨tid.toNat⟩)) (P'.visit sp place.toNat b passed (w' ⟨tid.toNat⟩)) := by
  subst hP'
  have hblock : ∀ s s' : Site, s'.place = s.place → Program.blockOf { P with skips := K } s' = P.blockOf s :=
    fun s s' e => congrArg P.block e
  have hu := h ⟨tid.toNat⟩
  have hdeparture := hu.departure hblock
  have htransfer : (w' ⟨tid.toNat⟩).transfer (Program.blockOf { P with skips := K }) P.tailCalls b sp =
      (w ⟨tid.toNat⟩).transfer P.blockOf P.tailCalls b sp := by
    rw [Scene.transfer, Scene.transfer, hu.story.bottom]
    refine Transfer.classify_congr (by rw [hdeparture]) hu.story.levels _ _ _ _ fun d hd hret => ?_
    exact Transfer.returnDepth_of_apart hu.story.levels (hapart _ _ _ _ rfl d hd hret) _
  refine ⟨hu.arrive htransfer (fun _ c c' hfn hfn' hs hs' hsp _ _ _ _ => ?_) () () () (), .some rfl, rfl⟩
  exact ⟨hfn'.trans hfn.symm, hsp, by rw [hs, hplain], by rw [hs', hfn]⟩

/-- An event that stops one of two matching worlds stops the other, and otherwise they match after it. -/
theorem RollsUp.play (h : RollsUp K w w') (hP' : P' = { P with skips := K }) (hplain : P.skips = fun _ => false)
    (hapart : w.ReturnsApart P e) :
    (w.play P e = none ∧ w'.play P' e = none) ∨
      ∃ v v', w.play P e = some v ∧ w'.play P' e = some v' ∧ RollsUp K v v' := by
  refine play_match h (by rw [hP']) (fun tid sp place exit b passed e' => ?_) fun place u => ?_
  · subst e'
    exact h.visit hP' hplain hapart b passed
  · refine (h u).forget (fun c c' hc => ⟨hc.fn, hc.sp, hc.plain, hc.skipped⟩) (fun s s' hs => ?_) fun s s' hs _ => hs
    rw [hs]

end World

/-! ## Two replays -/

namespace Trace

variable {trace : Trace} {config : Config} {K : FnId → Bool}

/-- The trace with other functions marked as skipped. -/
def marking (trace : Trace) (marks : FnId → Bool) : Trace :=
  { trace with functions := trace.functions.mapIdx fun i f => { f with skip := marks ⟨i⟩ } }

theorem functions_marking (trace : Trace) (marks : FnId → Bool) (i : Nat) :
    (trace.marking marks).functions[i]? = (trace.functions[i]?).map fun f => { f with skip := marks ⟨i⟩ } := by
  rw [marking, Array.getElem?_mapIdx]

theorem toBlock_marking (trace : Trace) (marks : FnId → Bool) (d : BlockDecl) :
    (trace.marking marks).toBlock d = trace.toBlock d := by
  unfold toBlock
  rw [functions_marking]
  cases trace.functions[d.function.toNat]? <;> rfl

theorem check_marking (hvalid : trace.check = .ok ()) (marks : FnId → Bool) : (trace.marking marks).check = .ok () := by
  unfold check at hvalid ⊢
  obtain ⟨⟨⟩, hconfig, hvalid⟩ := bind_eq_ok.mp hvalid
  obtain ⟨⟨⟩, hfunctions, hvalid⟩ := bind_eq_ok.mp hvalid
  refine bind_eq_ok.mpr ⟨(), hconfig, bind_eq_ok.mpr ⟨(), forM_eq_ok.mpr ?_, ?_⟩⟩
  · rintro ⟨f', i⟩ hf'
    have hf' : (trace.marking marks).functions[i]? = some f' := by
      rw [List.mem_zipIdx_iff_getElem?, Array.getElem?_toList] at hf'
      exact hf'
    rw [functions_marking] at hf'
    obtain ⟨f, hf, rfl⟩ := Option.map_eq_some_iff.mp hf'
    have hmem : (f, i) ∈ trace.functions.toList.zipIdx := by
      rw [List.mem_zipIdx_iff_getElem?, Array.getElem?_toList]
      exact hf
    exact forM_eq_ok.mp hfunctions (f, i) hmem
  · have hsize : (trace.marking marks).functions.size = trace.functions.size := Array.size_mapIdx
    have hblock : (trace.marking marks).checkBlock = trace.checkBlock := by
      funext i d
      simp only [checkBlock, hsize]
      rfl
    rw [hblock]
    exact hvalid

/-- Marks and names of skipped functions change nothing else of what a replay takes from its trace. -/
theorem program_marking (trace : Trace) (config : Config) (marks : FnId → Bool) (names : List String) :
    (trace.marking marks).program { config with skip := names } =
      { trace.program config with skips := (trace.marking marks).skips { config with skip := names } } := by
  have hblock : (trace.marking marks).block? = trace.block? := by
    funext place
    simp only [block?, toBlock_marking]
    rfl
  have hname : ∀ fn : FnId, ((trace.marking marks).functions[fn.num]?).map FunctionDecl.name =
      (trace.functions[fn.num]?).map FunctionDecl.name := by
    intro fn
    rw [functions_marking, Option.map_map]
    rfl
  simp only [program, hblock, hname]

end Trace

/-- The event runs no block reached through a return at the stack pointer of its thread's top frame. -/
def Replay.returnsApart (r : Replay) : Event → Bool
  | .block tid sp _ _ =>
    (r.tracker.switchTo ⟨tid.toNat⟩).departure.toOption.join.all fun d =>
      d.kind ≠ .ret || (r.tracker.state ⟨tid.toNat⟩).shadow.top?.all fun f => f.sp ≠ sp
  | _ => true

theorem Replay.Shows.returnsApart {P : Program} {r : Replay} {w : World} (h : Shows P r w) {e : Event}
    (he : r.returnsApart e = true) :
    w.ReturnsApart P e := by
  intro tid sp place exit e' d hd hret f hf hsp
  subst e'
  obtain ⟨source, hsource, hdeparture⟩ := h.departure ⟨tid.toNat⟩
  rw [hd] at hdeparture
  obtain ⟨d', rfl, hd'⟩ := Option.map_eq_some_iff.mp hdeparture
  have hkind : d'.kind = .ret := (Prod.mk.inj hd').2.trans hret
  have hlevels := congrArg List.head? (h.levels ⟨tid.toNat⟩)
  rw [List.head?_map, List.head?_map, hf] at hlevels
  obtain ⟨f', hf', hlevel⟩ := Option.map_eq_some_iff.mp hlevels
  have hlevel : f'.sp = f.sp := hlevel
  have hf' : (r.tracker.state ⟨tid.toNat⟩).shadow.top? = some f' := hf'
  simp [Replay.returnsApart, hsource, Except.toOption, hkind, hf', hlevel, hsp] at he

namespace Trace

variable {trace : Trace} {config : Config} {K : FnId → Bool}

/-- No block that is reached through a return runs at the stack pointer of its thread's top frame. -/
def ReturnsApart (trace : Trace) (config : Config) : Prop :=
  ∀ n < trace.events.length, ∀ r ∈ (trace.after config n).toOption, ∀ e ∈ trace.events[n]?, r.returnsApart e = true

instance (trace : Trace) (config : Config) : Decidable (trace.ReturnsApart config) :=
  inferInstanceAs (Decidable (∀ n < trace.events.length, ∀ r ∈ (trace.after config n).toOption,
    ∀ e ∈ trace.events[n]?, r.returnsApart e = true))

/-- After any number of events the worlds of the two runs match, or both stopped by then. -/
theorem worldAfter_rollsUp (hvalid : trace.check = .ok ()) (hconfig : config.Usable)
    (hplain : ∀ fn, trace.skips config fn = false) (hapart : trace.ReturnsApart config) {trace' : Trace}
    {config' : Config} (hevents : trace'.events = trace.events)
    (hprogram : trace'.program config' = { trace.program config with skips := K }) (n : Nat) :
    (trace.worldAfter config n = none ∧ trace'.worldAfter config' n = none) ∨
      ∃ w w', trace.worldAfter config n = some w ∧ trace'.worldAfter config' n = some w' ∧ World.RollsUp K w w' := by
  refine worldAfter_related hevents World.initial_rollsUp (fun n e w w' he hw hrolls => ?_) n
  obtain ⟨r, v, hr, hv, h⟩ | ⟨-, hnone⟩ := after_shows hvalid hconfig n
  · rw [hw] at hv
    cases hv
    refine hrolls.play hprogram (funext hplain) (h.returnsApart ?_)
    exact hapart n (List.getElem?_eq_some_iff.mp he).1 r (toOption_eq_some.mpr hr) e he
  · rw [hw] at hnone
    cases hnone

/-- Of a run that skips no function and a run of the same trace that skips exactly the functions of `K`, both come
to a summary or none does. Both get equally far, with frames at the same stack pointers on every thread, and
a block that the one bills to a chain is billed by the other to the chain rolled up. -/
theorem skipping_rolls_up (hvalid : trace.check = .ok ()) (hdepth : config.contextDepth = none)
    (hplain : ∀ fn, trace.skips config fn = false) (hapart : trace.ReturnsApart config) (marks : FnId → Bool)
    (names : List String) (hK : ∀ fn, (trace.marking marks).skips { config with skip := names } fn = K fn) :
    ((∃ s, trace.replay config = .ok s) ↔
        ∃ s, (trace.marking marks).replay { config with skip := names } = .ok s) ∧
      (∀ n, (∃ r, trace.after config n = .ok r) ↔
        ∃ r, (trace.marking marks).after { config with skip := names } n = .ok r) ∧
      ∀ n r r', trace.after config n = .ok r → (trace.marking marks).after { config with skip := names } n = .ok r' →
        (∀ u, (r'.tracker.state u).shadow.frames.map (·.sp) = (r.tracker.state u).shadow.frames.map (·.sp)) ∧
        ∀ i tid sp place exit, n = i + 1 → trace.events[i]? = some (.block tid sp place exit) →
          ∃ chain, r.billed = some chain ∧ r'.billed = some (rollUp K chain) := by
  have hvalid' := check_marking hvalid marks
  have husable : Config.Usable { config with skip := names } ↔ config.Usable := Iff.rfl
  have hprogram := program_marking trace config marks names
  rw [funext hK] at hprogram
  have hworlds := fun hconfig : config.Usable => worldAfter_rollsUp hvalid hconfig hplain hapart
    (rfl : (trace.marking marks).events = trace.events) hprogram
  have hreach : ∀ n, (∃ r, trace.after config n = .ok r) ↔
      ∃ r, (trace.marking marks).after { config with skip := names } n = .ok r := by
    refine fun n => after_together hvalid hvalid' husable fun hconfig => ?_
    obtain ⟨hw, hw'⟩ | ⟨w, w', hw, hw', -⟩ := hworlds hconfig n
    · rw [hw, hw']
    · exact iff_of_true ⟨w, hw⟩ ⟨w', hw'⟩
  refine ⟨?_, hreach, fun n r r' hr hr' => ?_⟩
  · rw [replay_ok_iff, replay_ok_iff]
    exact hreach _
  · have hconfig := config_ok hr
    have hconfig' := config_ok hr'
    obtain ⟨w, hw, h⟩ := after_eq hvalid hconfig hr
    obtain ⟨w', hw', h'⟩ := after_eq hvalid' hconfig' hr'
    obtain ⟨hnone, -⟩ | ⟨v, v', hv, hv', hrolls⟩ := hworlds hconfig n
    · rw [hw] at hnone
      cases hnone
    · rw [hw] at hv
      rw [hw'] at hv'
      cases hv
      cases hv'
      refine ⟨fun u => ?_, fun i tid sp place exit hi he => ?_⟩
      · rw [h.levels, h'.levels]
        exact (hrolls u).story.levels
      · subst hi
        have hcut : ∀ chain, (trace.program config).cut chain = chain := by
          intro chain
          simp only [Program.cut, program, hdepth, Option.map_none]
        refine ⟨_, after_billed hvalid hconfig he hr hw, ?_⟩
        have hbilled := after_billed hvalid' hconfig' (he : (trace.marking marks).events[i]? = _) hr' hw'
        rw [hprogram] at hbilled
        rw [hbilled, hcut, ← (hrolls _).story.chain_rollUp (h.wellFormed _)]
        exact congrArg some (hcut _)

/-- `main` calls `work` through `glue`, and both return. -/
def gluedRun : Trace where
  objects := #["program"]
  functions := #[{ name := "main", object := 0 }, { name := "glue", object := 0 }, { name := "work", object := 0 }]
  blocks := #[
    { addr := ⟨100⟩, function := 0, isEntry := true, exits := [{ kind := .call, size := 5 }] },
    { addr := ⟨200⟩, function := 1, isEntry := true, exits := [{ kind := .call, size := 5 }] },
    { addr := ⟨300⟩, function := 2, isEntry := true, exits := [{ kind := .ret, size := 1 }] },
    { addr := ⟨205⟩, function := 1, exits := [{ kind := .ret, size := 1 }] },
    { addr := ⟨105⟩, function := 0, exits := [{ kind := .jump, size := 1 }] }]
  events := [.block 1 ⟨1000⟩ 0 none, .block 1 ⟨990⟩ 1 none, .block 1 ⟨980⟩ 2 none, .block 1 ⟨990⟩ 3 none,
    .block 1 ⟨1000⟩ 4 none]

def smallTables : Config := { contextBuckets := 3, anchorBuckets := 3 }

theorem skipping_rolls_up_gluedRun :
    ∃ r r' : Replay, gluedRun.after smallTables 3 = .ok r ∧ r.billed = some [⟨2⟩, ⟨1⟩, ⟨0⟩] ∧
      (gluedRun.marking fun fn => fn.num == 1).after smallTables 3 = .ok r' ∧ r'.billed = some [⟨2⟩, ⟨0⟩] := by
  have hskips : ∀ fn,
      (gluedRun.marking fun fn => fn.num == 1).skips { smallTables with skip := [] } fn = (fn.num == 1) := by
    rintro ⟨i⟩
    rcases i with _ | _ | _ | i <;> rfl
  have hplain : ∀ fn, gluedRun.skips smallTables fn = false := by
    rintro ⟨i⟩
    rcases i with _ | _ | _ | i <;> rfl
  obtain ⟨-, hreach, hsame⟩ := skipping_rolls_up (by decide +kernel : gluedRun.check = .ok ())
    (rfl : smallTables.contextDepth = none) hplain (by decide +kernel) (fun fn => fn.num == 1) [] hskips
  have hbilled : (gluedRun.after smallTables 3).map Replay.billed = .ok (some [⟨2⟩, ⟨1⟩, ⟨0⟩]) := by decide +kernel
  obtain ⟨r, hr, hbilled⟩ := map_eq_ok.mp hbilled
  obtain ⟨r', hr'⟩ := (hreach 3).mp ⟨r, hr⟩
  obtain ⟨chain, hchain, hchain'⟩ := (hsame 3 r r' hr hr').2 2 1 ⟨980⟩ 2 none rfl rfl
  rw [hbilled] at hchain
  cases hchain
  exact ⟨r, r', hr, hbilled, hr', hchain'⟩

end Trace
end CallGraph
