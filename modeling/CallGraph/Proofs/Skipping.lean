/-
  CallGraph.Proofs.Skipping — the functions that a replay skips.

  A function is skipped by its own declaration, by the trace's settings or by the command line. The three meet when it
  is registered, and from then on its flag stays (`Trace.after_decls`). A replay looks there whenever it enters a
  function, so of the calls that are open just those into skipped functions are rolled up (`World.run_marked`).
-/

import CallGraph.Proofs.Holdings
import CallGraph.Proofs.Overriding

namespace CallGraph

/-! ## Flags -/

namespace Replay

variable {trace : Trace} {config : Config} {r r' : Replay} {w : World}

/-- An event leaves the functions as they were registered. -/
theorem play_decls (h : Shows (trace.program config) r w) (hblocks : ∀ d ∈ trace.blocks, ∃ b, trace.toBlock d = .ok b)
    {i : Nat} {e : Event} (hplay : play trace r i e = .ok r') (fn : FnId) :
    r'.tracker.functions.decl? fn = r.tracker.functions.decl? fn := by
  cases e with
  | block tid sp place exit =>
    obtain ⟨d, b, id, r₁, a, t, y, v, hb, hP⟩ := @play_visited _ _ _ config hblocks _ _ _ _ _ hplay
    obtain ⟨h₁, -, -, ⟨blocks, live, hr₁⟩, -⟩ := v.registered h hb hP
    obtain ⟨hstays, -⟩ := Tracker.enterBlock_stays h₁.inv v.entered
    have hfunctions : (r₁.tracker.switchTo ⟨tid.toNat⟩).functions = r.tracker.functions := by
      rw [(Tracker.Stays.switchTo r₁.tracker ⟨tid.toNat⟩).2.1, hr₁]
    rw [v.result, ← hfunctions, ← hstays.decls]
    rfl
  | signal tid signal =>
    obtain ⟨t', henter, hplay⟩ := bind_eq_ok.mp hplay
    cases hplay
    obtain ⟨s, rfl⟩ := Tracker.enterHandler_eq (lift_eq_ok.mp henter)
    exact congrArg (FunctionTable.decl? · fn) (Tracker.Stays.switchTo r.tracker ⟨tid.toNat⟩).2.1
  | signalReturn tid signal =>
    obtain ⟨-, t', hexit, rfl⟩ := play_signalReturn_eq.mp hplay
    obtain ⟨p, hp, -⟩ := h.told ⟨tid.toNat⟩
    obtain ⟨-, hu, -⟩ := Tracker.exitHandler_tells hexit hp
    rw [hu.decls, (Tracker.Stays.switchTo r.tracker ⟨tid.toNat⟩).2.1]
  | discard place =>
    obtain ⟨-, rfl⟩ | ⟨id, o, hotspots, -, ho, -, rfl⟩ := playDiscard_eq (lift_eq_ok.mp hplay)
    · rfl
    · obtain ⟨A, B, L, heq, -⟩ := Tracker.discardBlock_live ho
      rw [heq]

end Replay

namespace Trace

variable {trace : Trace} {config : Config} {r : Replay}

/-- After any number of events the functions are the declared ones. -/
theorem after_decls (hvalid : trace.check = .ok ()) {n : Nat} (hr : trace.after config n = .ok r) (fn : FnId) :
    r.tracker.functions.decl? fn = trace.functions[fn.num]?.map (Replay.node config) := by
  refine @after_induction trace config r
    (fun r => r.tracker.functions.decl? fn = trace.functions[fn.num]?.map (Replay.node config))
    (fun r₀ hstart => ?_) (fun n e r₁ r₂ _ hr₁ ih hplay => ?_) n hr
  · obtain ⟨C, A, F, -, -, rfl, -, hnode, -⟩ := Replay.start_eq hstart
    rw [FunctionTable.decl?, hnode, Option.map_map]
    rfl
  · obtain ⟨w, -, hshows⟩ := after_eq hvalid (config_ok hr₁) hr₁
    rw [Replay.play_decls hshows (check_eq_ok hvalid).1 hplay, ih]

end Trace

/-! ## Calls -/

namespace Story

variable {κ ι α κ' ι' β : Type} {P : OpenCall α → Prop} {s : Story κ ι α}

/-- All calls that are open are as `P` says. -/
def EveryCall (P : OpenCall α → Prop) : Story κ ι α → Prop
  | fresh => True
  | first _ _ before | handler _ _ _ before => before.EveryCall P
  | call c _ _ before => P c ∧ before.EveryCall P

theorem EveryCall.popCall (h : s.EveryCall P) (last : Option α) (passed : Nat) :
    (s.popCall last passed).story.EveryCall P := by
  induction s generalizing last passed with
  | fresh => exact h
  | first _ _ _ ih | handler _ _ _ _ ih => exact ih h _ _
  | call => exact h.2

theorem EveryCall.popCalls (n : Nat) {sc : Scene κ ι α} (h : sc.story.EveryCall P) :
    (sc.popCalls n).story.EveryCall P := by
  induction n generalizing sc with
  | zero => exact h
  | succ n ih => exact ih (h.popCall _ _)

theorem EveryCall.leave (h : s.EveryCall P) : s.leave.story.EveryCall P := by
  induction s with
  | fresh | handler => exact h
  | first _ _ _ ih => exact ih h
  | call _ _ _ _ ih => exact ih h.2

theorem EveryCall.forget {dead : α → Bool} (hP : ∀ c, P c → P (c.forget dead)) (h : s.EveryCall P) :
    (s.forget dead).EveryCall P := by
  induction s with
  | fresh => exact h
  | first _ _ _ ih | handler _ _ _ _ ih => exact ih h
  | call c _ _ _ ih => exact ⟨hP c h.1, ih h.2⟩

/-- A block opens at most one call, into its own function. -/
theorem EveryCall.arrive {blockOf : α → Option Block} {rule : TailCallRule} {skip : Bool} {b : Block} {sp : Addr}
    {context : κ} {kept : ι} {sc : Scene κ ι α} (hP : ∀ c : OpenCall α, c.fn = b.fn → c.skipped = skip → P c)
    (h : sc.story.EveryCall P) : (sc.arrive blockOf rule skip b sp context kept).EveryCall P := by
  simp only [Scene.arrive]
  split
  · exact ⟨hP _ rfl rfl, h⟩
  · split
    · exact h.popCalls _
    · exact h.popCalls _

/-- The calls of matching stories, one by one. -/
theorem Match.everyCall {C : OpenCall α → OpenCall β → Prop} {R : α → β → Prop} {P' : OpenCall β → Prop}
    {s' : Story κ' ι' β} (h : Match C R s s') (hC : ∀ c c', C c c' → P' c' → P c) (h' : s'.EveryCall P') :
    s.EveryCall P := by
  induction h with
  | fresh => trivial
  | first _ _ _ _ ih | handler _ _ _ _ ih => exact ih h'
  | call _ _ _ _ hc _ ih => exact ⟨hC _ _ hc h'.1, ih h'.2⟩

end Story

/-- A call is rolled up exactly if its function is one that the program skips. -/
def Program.Marks {α : Type} (P : Program) (c : OpenCall α) : Prop := c.skipped = P.skips c.fn

theorem Program.act_marked {P : Program} {e : Event} {sc sc' : Actor} (h : sc.story.EveryCall P.Marks)
    (ha : P.act e sc = some sc') : sc'.story.EveryCall P.Marks := by
  cases e with
  | block tid sp place exit =>
    obtain ⟨b, -, rfl⟩ := Option.map_eq_some_iff.mp ha
    refine Story.EveryCall.arrive (fun c hfn hskip => ?_) h
    rw [Marks, hskip, hfn]
  | signal tid signal =>
    cases ha
    exact h
  | signalReturn tid signal =>
    simp only [act] at ha
    split at ha
    · cases ha
      exact h.leave
    · cases ha
  | discard place =>
    cases ha
    exact h.forget fun _ hc => hc

namespace World

variable {P : Program} {w w' : World}

/-- An event keeps the calls of every thread marked. -/
theorem play_marked {e : Event} (h : ∀ u, (w u).story.EveryCall P.Marks) (hw : w.play P e = some w') (u : ThreadId) :
    (w' u).story.EveryCall P.Marks := by
  unfold play at hw
  split at hw
  · rename_i v _
    obtain ⟨sc, hsc, rfl⟩ := Option.map_eq_some_iff.mp hw
    by_cases e : u = v
    · subst e
      rw [Function.update_self]
      exact Program.act_marked (h u) hsc
    · rw [Function.update_of_ne e]
      exact h u
  · cases hw
    show ((P.act e (w u)).getD (w u)).story.EveryCall P.Marks
    cases hact : P.act e (w u) with
    | none => exact h u
    | some sc => exact Program.act_marked (h u) hact

theorem run_marked (events : List Event) (h : ∀ u, (w u).story.EveryCall P.Marks) (hw : w.run P events = some w')
    (u : ThreadId) : (w' u).story.EveryCall P.Marks := by
  induction events generalizing w with
  | nil =>
    cases hw
    exact h u
  | cons e events ih =>
    obtain ⟨w₁, hplay, hrun⟩ := Option.bind_eq_some_iff.mp hw
    exact ih (play_marked h hplay) hrun

end World

/-! ## Command lines -/

/-- A declared function is skipped by its declaration, by the settings of the trace or by the command line. -/
def Trace.Skipped (trace : Trace) (a : Args) (d : FunctionDecl) : Prop :=
  d.skip = true ∨ d.name ∈ trace.config.skip ∨ d.name ∈ a.skip

/-- A replay at a world whose functions are the declared ones and which skips those that are to be skipped. -/
structure Replay.Skips (trace : Trace) (a : Args) (r : Replay) (w : World) : Prop where
  size : r.tracker.functions.size = trace.functions.size
  flags : ∀ (i : Nat) d, trace.functions[i]? = some d →
    ∃ f, r.tracker.functions.get ⟨i⟩ = .ok f ∧ f.name = d.name ∧ (f.skip = true ↔ trace.Skipped a d)
  /-- The calls that the events opened on a thread are rolled up exactly if their functions are skipped. -/
  calls : ∀ u, ∃ sc, (r.tracker.state u).Tells sc ∧ sc.Same (r.Sits u) (w u) ∧ sc.story.EveryCall fun c =>
    (c.skipped = true ↔ ∃ d, trace.functions[c.fn.num]? = some d ∧ trace.Skipped a d)

namespace Trace

variable {trace : Trace} {a : Args}

theorem skipped_iff (d : FunctionDecl) :
    ((a.apply trace.config).isSkipped d.name || d.skip) = true ↔ trace.Skipped a d := by
  rw [Bool.or_eq_true, Config.isSkipped_iff, (a.apply_overrides trace.config).skip.mem, Skipped]
  tauto

theorem skips_iff (fn : FnId) : trace.skips (a.apply trace.config) fn = true ↔
    ∃ d, trace.functions[fn.num]? = some d ∧ trace.Skipped a d := by
  rw [skips, Option.any_eq_true]
  exact exists_congr fun d => and_congr_right fun _ => skipped_iff d

theorem config_of_check (h : trace.check = .ok ()) : trace.config.check = .ok () := by
  obtain ⟨_, hconfig, -⟩ := bind_eq_ok.mp h
  exact Config.check_of_checkFlaw hconfig

theorem after_skips (hvalid : trace.check = .ok ()) {n : Nat} {r : Replay}
    (hr : trace.after (a.apply trace.config) n = .ok r) :
    ∃ w, trace.worldAfter (a.apply trace.config) n = some w ∧ r.Skips trace a w := by
  obtain ⟨w, hw, hshows⟩ := after_eq hvalid (config_ok hr) hr
  have hdecls := after_decls hvalid hr
  -- A number is that of a function exactly if it is that of a declaration.
  have hknown : ∀ i : Nat, r.tracker.functions.size ≤ i ↔ trace.functions.size ≤ i := by
    intro i
    have hnone : r.tracker.functions.decl? ⟨i⟩ = none ↔ trace.functions[i]? = none := by
      rw [hdecls]
      exact Option.map_eq_none_iff
    rwa [FunctionTable.decl?, Option.map_eq_none_iff, Array.getElem?_eq_none_iff, Array.getElem?_eq_none_iff] at hnone
  refine ⟨w, hw, Nat.le_antisymm ((hknown _).mpr le_rfl) ((hknown _).mp le_rfl), fun i d hd => ?_, fun u => ?_⟩
  · have hi := (Array.getElem?_eq_some_iff.mp hd).1
    have hlt : (⟨i⟩ : FnId).num < r.tracker.functions.size :=
      Nat.not_le.mp fun hle => Nat.not_lt.mpr ((hknown i).mp hle) hi
    obtain ⟨f, hf, hnode⟩ := FunctionTable.get_ok hlt
    have hdecl := hdecls ⟨i⟩
    rw [FunctionTable.decl?, hnode, hd] at hdecl
    have hdecl := Option.some.inj hdecl
    refine ⟨f, hf, congrArg Function.name hdecl, ?_⟩
    rw [show f.skip = ((a.apply trace.config).isSkipped d.name || d.skip) from congrArg Function.skip hdecl]
    exact skipped_iff d
  · obtain ⟨sc, htells, hsame⟩ := hshows.told u
    have hinitial : ∀ v, (World.initial v).story.EveryCall (trace.program (a.apply trace.config)).Marks :=
      fun _ => trivial
    refine ⟨sc, htells, hsame, hsame.story.everyCall (fun c c' hc hmarks => ?_) (World.run_marked _ hinitial hw u)⟩
    -- The call is that of the world, which looks at the program's flags.
    rw [← hc.skipped, hmarks, hc.fn]
    exact skips_iff c.fn

end Trace

/-- What a command line asks for overrides any settings, a second time without effect, and keeps them accepted. Any
valid trace for whose tables and stacks there is room is replayed under it, and skips the functions that the trace or
the command line says. -/
theorem CommandLine.overrides_merge {words : List String} {a : Args} (h : parse words = .ok a) :
    (∀ c, a.Overrides c (a.apply c) ∧ a.apply (a.apply c) = a.apply c ∧
      (c.check = .ok () → (a.apply c).check = .ok ())) ∧
    ∀ trace : Trace, trace.check = .ok () →
      ((∃ r, trace.after (a.apply trace.config) 0 = .ok r) ↔ trace.config.fits = true) ∧
      ∀ n r, trace.after (a.apply trace.config) n = .ok r →
        ∃ w, trace.worldAfter (a.apply trace.config) n = some w ∧ r.Skips trace a w := by
  have hmerge : ∀ c, a.Overrides c (a.apply c) := a.apply_overrides
  have hchecked : ∀ c : Config, c.check = .ok () → (a.apply c).check = .ok () :=
    fun c => (hmerge c).check_ok (depth_of_parse h)
  refine ⟨fun c => ⟨hmerge c, (hmerge c).apply_eq, hchecked c⟩, fun trace hvalid => ?_⟩
  have hconfig := hchecked trace.config (Trace.config_of_check hvalid)
  refine ⟨?_, fun n r hr => Trace.after_skips hvalid hr⟩
  rw [Trace.after_zero_iff hvalid, Config.Usable, (hmerge trace.config).fits_eq]
  exact and_iff_right hconfig

/-- Each function calls the next one. `glue` is skipped by its declaration and `work` by the settings. -/
def skippedRun : Trace where
  config := { Tracker.fewBuckets with skip := ["work"] }
  objects := #["program"]
  functions := #[{ name := "main", object := 0 }, { name := "glue", object := 0, skip := true },
    { name := "work", object := 0 }, { name := "copy", object := 0 }, { name := "hash", object := 0 }]
  blocks := #[
    { addr := ⟨100⟩, function := 0, isEntry := true, exits := [{ kind := .call, size := 5 }] },
    { addr := ⟨200⟩, function := 1, isEntry := true, exits := [{ kind := .call, size := 5 }] },
    { addr := ⟨300⟩, function := 2, isEntry := true, exits := [{ kind := .call, size := 5 }] },
    { addr := ⟨400⟩, function := 3, isEntry := true, exits := [{ kind := .call, size := 5 }] },
    { addr := ⟨500⟩, function := 4, isEntry := true, exits := [{ kind := .ret, size := 1 }] }]
  events := [.block 1 ⟨1000⟩ 0 none, .block 1 ⟨990⟩ 1 none, .block 1 ⟨980⟩ 2 none, .block 1 ⟨970⟩ 3 none,
    .block 1 ⟨960⟩ 4 none]

theorem CommandLine.overrides_merge_skippedRun :
    let words := ["t.json", "--skip", "copy", "--skip", "work", "--skip", "copy", "--context-depth", "2"]
    ∃ a, parse words = .ok a ∧ a.Overrides skippedRun.config (a.apply skippedRun.config) ∧
      (a.apply skippedRun.config).skip = ["work", "copy"] ∧ skippedRun.check = .ok () ∧
      ∃ r w, skippedRun.after (a.apply skippedRun.config) 5 = .ok r ∧
        (r.tracker.state ⟨1⟩).shadow.frames.map (·.arc.isSome) = [true, false, false, false] ∧
        skippedRun.worldAfter (a.apply skippedRun.config) 5 = some w ∧ r.Skips skippedRun a w := by
  intro words
  let a : Args := { trace := "t.json", contextDepth := some 2, skip := ["copy", "work", "copy"] }
  have hparse : parse words = .ok a := by decide +kernel
  have hvalid : skippedRun.check = .ok () := by decide
  have hrun : (skippedRun.after (a.apply skippedRun.config) 5).map
      (fun r => (r.tracker.state ⟨1⟩).shadow.frames.map (·.arc.isSome)) = .ok [true, false, false, false] := by
    decide +kernel
  obtain ⟨r, hr, hframes⟩ := map_eq_ok.mp hrun
  obtain ⟨hmerge, hreplays⟩ := overrides_merge hparse
  obtain ⟨w, hskips⟩ := (hreplays skippedRun hvalid).2 5 r hr
  exact ⟨a, hparse, (hmerge _).1, rfl, hvalid, r, w, hr, hframes, hskips⟩

end CallGraph
