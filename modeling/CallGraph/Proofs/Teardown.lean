/-
  CallGraph.Proofs.Teardown — the end of a run leaves nothing open.

  Every thread is left for good in turn: its handlers from the innermost, then its calls, then the
  function it started with. Afterwards it is at rest (`finishThread_rests`), and a thread that is at rest
  stays so while the others are left. What is open on the threads is what the functions count as active
  and what the accounting side was told of, so all of this is back at zero too, and of what the tracker
  knows nothing else changed (`finish_tears_down`).
-/

import CallGraph.Proofs.Upkeep

namespace CallGraph

/-! ## Reports that come in turn -/

/-- A switch that was first turned on and then off and on in turn was turned on as often as off, and once
more if it is on. -/
theorem count_true_of_inTurn {l : List Bool} (h : l.IsChain (· ≠ ·)) (hfirst : l.getLast? ≠ some false) :
    l.count true = l.count false + if l.head? = some true then 1 else 0 := by
  induction l with
  | nil => rfl
  | cons b l ih =>
    cases l with
    | nil =>
      cases b with
      | true => rfl
      | false => exact absurd rfl hfirst
    | cons c l =>
      rw [List.isChain_cons_cons] at h
      rw [List.getLast?_cons_cons] at hfirst
      have hrest := ih h.2 hfirst
      cases b <;> cases c <;> simp_all

theorem Ledger.count_switches (l : Ledger) (fn : FnId) :
    (l.switches fn).count true = l.notices.count (.entered fn) ∧
      (l.switches fn).count false = l.notices.count (.left fn) := by
  unfold switches
  induction l.notices with
  | nil => exact ⟨rfl, rfl⟩
  | cons n notices ih =>
    simp only [List.filterMap_cons, List.count_cons]
    cases n with
    | called | dropped => simpa [Notice.switch] using ih
    | entered g | left g => by_cases e : g = fn <;> simpa [Notice.switch, e] using ih

/-- A function was reported active as often as not active, and once more while an activation is open. -/
theorem Reported.count_entered {F : FunctionTable} {l : Ledger} (h : Reported F l) (fn : FnId) :
    l.notices.count (.entered fn) = l.notices.count (.left fn) + if 0 < F.activeCount fn then 1 else 0 := by
  obtain ⟨hentered, hleft⟩ := l.count_switches fn
  have hturn := count_true_of_inTurn (h.inTurn fn) (h.first fn)
  rw [← hentered, ← hleft, hturn]
  simp only [h.latest fn]

/-! ## Functions without activations -/

namespace FunctionTable

/-- The functions as they are when none is active. -/
def idle (t : FunctionTable) : FunctionTable := ⟨t.nodes.map fun f => { f with active := 0 }⟩

theorem idle_modify (t : FunctionTable) (fn : FnId) {f : Function → Function}
    (h : ∀ x, { f x with active := 0 } = { x with active := 0 }) : (t.modify fn f).idle = t.idle := by
  refine congrArg FunctionTable.mk (Array.ext_getElem? fun i => ?_)
  rw [modify, Array.getElem?_map, Array.getElem?_map, Array.getElem?_modify]
  split
  · simp [Function.comp_def, h]
  · rfl

theorem idle_of_inactive {t : FunctionTable} (h : ∀ fn, t.activeCount fn = 0) : t.idle = t := by
  refine congrArg FunctionTable.mk (Array.ext_getElem? fun i => ?_)
  have hi := h ⟨i⟩
  rw [activeCount] at hi
  rw [Array.getElem?_map]
  cases hf : t.nodes[i]? with
  | none => rfl
  | some f =>
    simp only [hf, Option.map_some, Option.getD_some] at hi
    rw [Option.map_some, ← hi]

end FunctionTable

/-! ## One thread -/

/-- Nothing is open on a thread. -/
structure ThreadState.AtRest (s : ThreadState) : Prop where
  frames : s.shadow.frames = []
  unstaged : s.shadow.staged.context = none
  fns : s.fns = .empty
  handlers : s.handlers = []
  exec : s.exec = {}

theorem ThreadState.fresh_atRest : fresh.AtRest := ⟨rfl, rfl, rfl, rfl, rfl⟩

namespace Tracker

variable {t t' : Tracker} {u : ThreadId} {config : Config}

/-- A thread that was left is at rest. No signal is handled on it then, so it has no handler. -/
theorem finishThread_rests (h : t.Inv) (hf : t.finishThread u = .ok t') : (t'.state u).AtRest := by
  obtain ⟨-, hdepth⟩ := finishThread_unwinds h hf
  obtain ⟨t'', hf', h', -⟩ := finishThread_ok h u
  cases hf.symm.trans hf'
  rw [finishThread_current h hf]
  obtain ⟨t₁, t₂, t₃, -, -, -, hlast⟩ := finishThread_eq hf
  have hexec : t'.thread.exec = {} := by rw [hlast]; rfl
  have hfns : t'.thread.fns = .empty := by rw [hlast]; rfl
  have hhandlers : t'.thread.handlers = [] := by
    by_contra hne
    have hsignal := h'.active.lineage.signal_pos
    rw [hexec, if_neg hne] at hsignal
    exact absurd hsignal (by decide)
  exact ⟨List.length_eq_zero_iff.mp hdepth, h'.active.unstaged, hfns, hhandlers, hexec⟩

/-! ## All threads -/

/-- By induction on the threads that are left: what is at rest before stays so. -/
theorem finishThreads_rest (us : List ThreadId) (h : t.Inv) (hf : us.foldlM finishThread t = .ok t')
    (hrest : ∀ v, v ∉ us → (t.state v).AtRest) (v : ThreadId) : (t'.state v).AtRest := by
  induction us generalizing t with
  | nil =>
    cases hf
    exact hrest v List.not_mem_nil
  | cons u us ih =>
    obtain ⟨t₁, hfirst, h₁, hf⟩ := finishThreads_cons h hf
    refine ih h₁ hf fun w hw => ?_
    by_cases e : w = u
    · rw [e]
      exact finishThread_rests h hfirst
    · rw [finishThread_elsewhere h hfirst e]
      refine hrest w fun hm => ?_
      rcases List.mem_cons.mp hm with e' | hm
      · exact e e'
      · exact hw hm

theorem finish_rests (h : t.Inv) (hf : t.finish = .ok t') (u : ThreadId) : (t'.state u).AtRest := by
  refine finishThreads_rest t.threads.ids h hf (fun v hv => ?_) u
  rw [state_of_not_listed hv]
  exact ThreadState.fresh_atRest

/-! ## What is only closed -/

/-- Functions are what they were but for their activations, and all that the accounting side was told is
that functions are not active any more. -/
structure Retires (t t' : Tracker) : Prop where
  functions : t'.functions.idle = t.functions.idle
  ledger : ∃ fns : List FnId, t'.ledger = fns.foldl Ledger.leave t.ledger

theorem Retires.refl (t : Tracker) : Retires t t := ⟨rfl, [], rfl⟩

theorem Retires.trans {t'' : Tracker} (r : Retires t t') (r' : Retires t' t'') : Retires t t'' := by
  obtain ⟨fns, hfns⟩ := r.ledger
  obtain ⟨fns', hfns'⟩ := r'.ledger
  refine ⟨r'.functions.trans r.functions, fns ++ fns', ?_⟩
  rw [hfns', hfns, List.foldl_append]

theorem Retires.of_eq (hF : t'.functions = t.functions) (hL : t'.ledger = t.ledger) : Retires t t' :=
  ⟨congrArg FunctionTable.idle hF, [], hL⟩

theorem leaveFunction_retires {fn : FnId} (h : t.leaveFunction fn = .ok t') : Retires t t' := by
  obtain ⟨last, rfl⟩ := leaveFunction_counts h
  refine ⟨FunctionTable.idle_modify _ _ fun _ => rfl, ?_⟩
  cases last with
  | true => exact ⟨[fn], rfl⟩
  | false => exact ⟨[], rfl⟩

theorem leaveContext_retires {c : Option ContextId} (h : t.leaveContext c = .ok t') : Retires t t' := by
  obtain rfl | ⟨fn, hleave⟩ := leaveContext_cases h
  · exact .refl _
  · exact leaveFunction_retires hleave

theorem popFrame_retires (h : t.popFrame = .ok t') : Retires t t' := by
  obtain ⟨f, s, t₁, -, rfl | ⟨fn, hleave⟩, rfl⟩ := popFrame_eq h
  · exact .of_eq rfl rfl
  · have r := leaveFunction_retires hleave
    exact ⟨r.functions, r.ledger⟩

theorem popFrames_retires (n : Nat) (h : popFrames n t = .ok t') : Retires t t' := by
  induction n generalizing t with
  | zero =>
    cases h
    exact .refl _
  | succ n ih =>
    rw [popFrames, bind_eq_ok] at h
    obtain ⟨t₁, hpop, h⟩ := h
    exact (popFrame_retires hpop).trans (ih h)

theorem leaveHandler_retires (h : t.leaveHandler = .ok t') : Retires t t' := by
  unfold leaveHandler at h
  split at h
  · cases h
  · obtain ⟨t₁, hpops, h⟩ := bind_eq_ok.mp h
    obtain ⟨t₂, hcontext, h⟩ := bind_eq_ok.mp h
    obtain ⟨fns, -, h⟩ := bind_eq_ok.mp h
    cases h
    have r := (popFrames_retires _ hpops).trans (leaveContext_retires hcontext)
    exact ⟨r.functions, r.ledger⟩

theorem leaveHandlers_retires (n : Nat) (h : leaveHandlers n t = .ok t') : Retires t t' := by
  induction n generalizing t with
  | zero =>
    cases h
    exact .refl _
  | succ n ih =>
    rw [leaveHandlers, bind_eq_ok] at h
    obtain ⟨t₁, hleave, h⟩ := h
    exact (leaveHandler_retires hleave).trans (ih h)

theorem finishThread_retires (h : t.finishThread u = .ok t') : Retires t t' := by
  obtain ⟨t₁, t₂, t₃, hleaves, hpops, hcontext, rfl⟩ := finishThread_eq h
  have r := (leaveHandlers_retires _ hleaves).trans ((popFrames_retires _ hpops).trans (leaveContext_retires hcontext))
  exact ⟨r.functions, r.ledger⟩

theorem finish_retires (h : t.finish = .ok t') : Retires t t' := by
  unfold finish at h
  generalize t.threads.ids = us at h
  induction us generalizing t with
  | nil =>
    cases h
    exact .refl _
  | cons u us ih =>
    rw [List.foldlM_cons] at h
    obtain ⟨t₁, hfirst, h⟩ := bind_eq_ok.mp h
    exact (finishThread_retires hfirst).trans (ih h)

/-! ## Nothing is open -/

/-- Where all threads are at rest no function is active. -/
theorem inactive_of_atRest (h : t.Inv) (hrest : ∀ u, (t.state u).AtRest) (fn : FnId) :
    t.functions.activeCount fn = 0 := by
  have hnone : ∀ u, (t.state u).fns.slots.count (some fn) = 0 := by
    intro u
    rw [(hrest u).fns]
    rfl
  rw [h.balance]
  exact weigh_eq_zero h (w := fun s => s.fns.slots.count (some fn)) hnone

/-- What the end of a run leaves: threads at rest, functions that are not active and were reported so, a
return for every call, and everything else as it was. -/
structure TornDown (t t' : Tracker) : Prop where
  threads : ∀ u, u ∈ t'.threads.ids ↔ u ∈ t.threads.ids
  atRest : ∀ u s, t'.threads.get? u = some s → s.AtRest
  inactive : ∀ fn, t'.functions.activeCount fn = 0
  reports : ∀ fn, t'.ledger.notices.count (.entered fn) = t'.ledger.notices.count (.left fn)
  functions : t'.functions = t.functions.idle
  contexts : t'.contexts = t.contexts
  anchors : t'.anchors = t.anchors
  blocks : t'.blocks = t.blocks
  ledger : ∃ fns : List FnId, t'.ledger = fns.foldl Ledger.leave t.ledger
  arcs : t.ledger.SameCalls t'.ledger
  stats : t'.stats = { t.stats with returns := t.stats.calls }

/-- The end of a run is reached from every state, and then nothing is open. -/
theorem finish_tears_down (h : Reach config t) : ∃ t', t.finish = .ok t' ∧ t.TornDown t' := by
  obtain ⟨hinv, -⟩ := reach_inv h
  obtain ⟨t', hf, hinv', -⟩ := finish_ok hinv
  obtain ⟨e, hstats⟩ := finish_eq hinv hf
  have r := finish_retires hf
  have hrest := finish_rests hinv hf
  have hinactive := inactive_of_atRest hinv' hrest
  refine ⟨t', hf, ?_⟩
  exact {
    threads := fun u => mem_ids_finish hinv hf
    atRest := fun u s hs => by
      have hu := hrest u
      rw [state, hs] at hu
      exact hu
    inactive := hinactive
    reports := fun fn => by
      rw [hinv'.reported.count_entered, hinactive]
      rfl
    functions := (FunctionTable.idle_of_inactive hinactive).symm.trans r.functions
    contexts := e.contexts
    anchors := e.anchors
    blocks := e.blocks
    ledger := r.ledger
    arcs := e.ledger
    stats := by
      have hbalanced : t.stats.calls = t.stats.returns + t.threads.depths := (reach_inOrder h).balanced
      rw [hstats, hbalanced] }

/-- Two handlers, one in the other, on the second thread of `signalledRun`, and a block that is gone. -/
def nestedRun : List Op :=
  signalledRun ++ [.enterHandler ⟨2⟩ 10, .enterBlock { thread := ⟨2⟩, sp := ⟨1900⟩ } ⟨1⟩, .enterHandler ⟨2⟩ 11,
    .discardBlock ⟨0⟩]

theorem finish_tears_down_nestedRun :
    ∃ t t', Reach fewBuckets t ∧ t.threads.depths = 2 ∧ t.functions.activeCount ⟨1⟩ = 3 ∧
      (t.state ⟨2⟩).handlers.length = 2 ∧ t.finish = .ok t' ∧ t.TornDown t' := by
  have hrun : (runFrom fewBuckets nestedRun).map (fun t =>
      (t.threads.depths, t.functions.activeCount ⟨1⟩, (t.state ⟨2⟩).handlers.length)) = .ok (2, 3, 2) := by
    decide +kernel
  obtain ⟨t, hr, h⟩ := runFrom_of_map hrun
  simp only [Prod.mk.injEq] at h
  obtain ⟨hdepths, hactive, hhandlers⟩ := h
  obtain ⟨t', hf, htorn⟩ := finish_tears_down (reach_runFrom hr)
  exact ⟨t, t', reach_runFrom hr, hdepths, hactive, hhandlers, hf, htorn⟩

end Tracker
end CallGraph
