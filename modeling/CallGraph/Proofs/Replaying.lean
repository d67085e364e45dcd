/-
  CallGraph.Proofs.Replaying — a whole replay told by its world.

  A trace whose check passes refers only to what is declared. Its replay shows the initial world before
  the first event (`start_shows`) and the world after `n` events after them, or both stopped by then
  (`after_shows`); a replay that came to its end can be closed (`close_eq`). So a replay comes to a
  summary exactly when its world comes to the end of the events (`replay_ok_iff`), and two replays are
  compared by their worlds (`worldAfter_related`, `replay_together`).
-/

import CallGraph.Proofs.Buckets
import CallGraph.Proofs.Finishing
import CallGraph.Proofs.Playing

namespace CallGraph

/-! ## Checks -/

theorem Config.check_of_checkFlaw {c : Config} (h : c.checkFlaw = .ok ()) : c.check = .ok () := by
  unfold checkFlaw at h
  cases hcheck : c.check with
  | ok => rfl
  | error x =>
    rw [hcheck] at h
    cases h

namespace Trace

variable {trace : Trace} {config : Config}

/-- A block that passed its check can be registered. -/
theorem toBlock_ok {i : Nat} {d : BlockDecl} (h : trace.checkBlock i d = .ok ()) : ∃ b, trace.toBlock d = .ok b := by
  unfold checkBlock at h
  split at h
  · cases h
  · rename_i hknown
    split at h
    · cases h
    · split at h
      · cases h
      · rename_i hexits
        unfold toBlock
        rw [Array.getElem?_eq_getElem (Nat.not_le.mp hknown)]
        have hne : d.exits ≠ [] := fun e => hexits (by rw [e]; rfl)
        simp only [Block.ofExits, List.getLast?_eq_some_getLast hne]
        exact ⟨_, rfl⟩

theorem toBlock_fn {d : BlockDecl} {b : Block} (h : trace.toBlock d = .ok b) : b.fn.num < trace.functions.size := by
  unfold toBlock Block.ofExits at h
  split at h
  · cases h
  · rename_i f hf
    split at h
    · cases h
    · cases h
      exact (Array.getElem?_eq_some_iff.mp hf).1

/-- What a passed check says: the blocks can be registered, and every event refers to what is declared. -/
theorem check_eq_ok (h : trace.check = .ok ()) :
    (∀ d ∈ trace.blocks, ∃ b, trace.toBlock d = .ok b) ∧ ∀ p ∈ trace.events.zipIdx, trace.checkEvent p.2 p.1 = .ok () := by
  unfold check at h
  obtain ⟨-, -, h⟩ := bind_eq_ok.mp h
  obtain ⟨-, -, h⟩ := bind_eq_ok.mp h
  obtain ⟨⟨⟩, hblocks, hevents⟩ := bind_eq_ok.mp h
  refine ⟨fun d hd => ?_, fun p hp => forM_eq_ok.mp hevents p hp⟩
  obtain ⟨i, hi, rfl⟩ := Array.mem_iff_getElem.mp hd
  have hmem : (trace.blocks[i], i) ∈ trace.blocks.toList.zipIdx := by
    rw [List.mem_zipIdx_iff_getElem?]
    simp
  exact toBlock_ok (forM_eq_ok.mp hblocks _ hmem)

/-- The replay after the first `n` events. -/
def after (trace : Trace) (config : Config) (n : Nat) : Except ReplayError Replay := do
  trace.check
  config.checkFlaw
  let r ← Replay.start trace config
  (trace.events.take n).zipIdx.foldlM (fun r (e, i) => Replay.play trace r i e) r

theorem replay_eq (trace : Trace) (config : Config) :
    trace.replay config = (do
      let r ← trace.after config trace.events.length
      liftM (r.close trace)) := by
  unfold replay after Replay.playAll
  rw [List.take_length]
  simp only [bind_assoc]

theorem after_of_replay {s : Summary} (h : trace.replay config = .ok s) :
    ∃ r, trace.after config trace.events.length = .ok r ∧ r.close trace = .ok s := by
  rw [replay_eq] at h
  obtain ⟨r, hr, hclose⟩ := bind_eq_ok.mp h
  exact ⟨r, hr, lift_eq_ok.mp hclose⟩

/-- Nothing is played of a trace that has a flaw. -/
theorem check_ok {n : Nat} {r : Replay} (h : trace.after config n = .ok r) : trace.check = .ok () := by
  unfold after at h
  obtain ⟨_, hcheck, -⟩ := bind_eq_ok.mp h
  cases hvalid : trace.check with
  | ok => rfl
  | error x =>
    rw [hvalid] at hcheck
    cases hcheck

/-- Nothing is played with settings that cannot be used. -/
theorem config_ok {n : Nat} {r : Replay} (h : trace.after config n = .ok r) : config.Usable := by
  unfold after at h
  obtain ⟨-, -, h⟩ := bind_eq_ok.mp h
  obtain ⟨-, -, h⟩ := bind_eq_ok.mp h
  obtain ⟨r₀, hstart, -⟩ := bind_eq_ok.mp h
  obtain ⟨t, ht, -⟩ := bind_eq_ok.mp (lift_eq_ok.mp hstart)
  exact Tracker.ofConfig_ok_iff.mp ⟨t, ht⟩

end Trace

/-! ## Before the first event -/

namespace Replay

variable {trace : Trace} {config : Config} {r r' : Replay} {w w' : World}

/-- A declared function, as it is registered. -/
def node (config : Config) (f : FunctionDecl) : Function :=
  { name := f.name, object := ⟨f.object.toNat⟩, skip := config.isSkipped f.name || f.skip }

theorem modify_push {α : Type} (xs : Array α) (x : α) (f : α → α) :
    (xs.push x).modify xs.size f = xs.push (f x) := by
  refine Array.ext_getElem? fun i => ?_
  simp only [Array.getElem?_modify, Array.getElem?_push]
  by_cases e : xs.size = i
  · subst e
    simp
  · simp [e, Ne.symm e]

/-- Each declared function is registered with its own skip flag. -/
theorem registerFunction_ok {t : Tracker} (h : t.Inv) (f : FunctionDecl) :
    ∃ F, registerFunction t f = .ok { t with functions := F } ∧ F.nodes = t.functions.nodes.push (node t.config f) ∧
      Tracker.Inv { t with functions := F } := by
  have hinv := Tracker.registerFunction_inv h f.name ⟨f.object.toNat⟩
  unfold registerFunction
  cases hskip : f.skip with
  | false => exact ⟨_, rfl, by rw [node, hskip, Bool.or_false], hinv⟩
  | true =>
    have hknown : (⟨t.functions.size⟩ : FnId).num < (t.registerFunction f.name ⟨f.object.toNat⟩).2.functions.size := by
      rw [Tracker.registerFunction, FunctionTable.size_register]
      exact Nat.lt_succ_self _
    obtain ⟨t', hset, hinv', -⟩ := Tracker.setFunctionSkip_ok hinv hknown true
    have hset' := hset
    rw [Tracker.setFunctionSkip, FunctionTable.setSkip_ok hknown] at hset'
    cases hset'
    refine ⟨_, hset, ?_, hinv'⟩
    rw [node, hskip, Bool.or_true]
    exact modify_push t.functions.nodes
      { name := f.name, object := ⟨f.object.toNat⟩, skip := t.config.isSkipped f.name } fun f => { f with skip := true }

theorem registerFunctions_ok (fs : List FunctionDecl) {t : Tracker} (h : t.Inv) :
    ∃ F, fs.foldlM registerFunction t = .ok { t with functions := F } ∧
      F.nodes = t.functions.nodes ++ (fs.map (node t.config)).toArray ∧ Tracker.Inv { t with functions := F } := by
  induction fs generalizing t with
  | nil => exact ⟨t.functions, rfl, by simp, h⟩
  | cons f fs ih =>
    obtain ⟨F, hf, hnodes, hinv⟩ := registerFunction_ok h f
    obtain ⟨F', hfs, hnodes', hinv'⟩ := ih hinv
    refine ⟨F', by rw [List.foldlM_cons, hf, ok_bind, hfs], ?_, hinv'⟩
    rw [hnodes', hnodes]
    simp

theorem start_ok (trace : Trace) (hconfig : config.Usable) : ∃ r, start trace config = .ok r := by
  obtain ⟨t, ht⟩ := Tracker.ofConfig_ok_iff.mpr hconfig
  obtain ⟨F, hfold, -⟩ := registerFunctions_ok trace.functions.toList (Tracker.ofConfig_inv ht).1
  exact ⟨_, by rw [start, ht, ok_bind, hfold]; rfl⟩

/-- Before the first event the tables are empty, and the declared functions are registered. -/
theorem start_eq (hr : start trace config = .ok r) :
    ∃ C A F, ContextTable.ofBuckets config.contextBuckets.toNat (config.contextDepth.map UInt64.toNat) = .ok C ∧
      Directory.ofBuckets config.anchorBuckets.toNat = .ok A ∧
      r = {
        tracker := { config, functions := F, contexts := C, anchors := A }
        live := Array.replicate trace.blocks.size none } ∧
      C.depthLimit = config.contextDepth.map UInt64.toNat ∧
      (∀ i : Nat, F.nodes[i]? = trace.functions[i]?.map (node config)) ∧ F.size = trace.functions.size ∧ r.tracker.Inv := by
  unfold start at hr
  obtain ⟨t, ht, hr⟩ := bind_eq_ok.mp hr
  obtain ⟨hinv, -, hlimit⟩ := Tracker.ofConfig_inv ht
  obtain ⟨F, hfold, hnodes, hinv'⟩ := registerFunctions_ok trace.functions.toList hinv
  rw [hfold, ok_bind] at hr
  obtain ⟨-, C, hC, A, hA, rfl⟩ := Tracker.ofConfig_eq_ok.mp ht
  cases hr
  have hnodes : F.nodes = trace.functions.map (node config) := by
    rw [hnodes, ← Array.toList_map, Array.toArray_toList]
    exact Array.empty_append
  refine ⟨C, A, F, hC, hA, rfl, hlimit, fun i => ?_, ?_, hinv'⟩
  · rw [hnodes, Array.getElem?_map]
  · rw [FunctionTable.size, hnodes, Array.size_map]

/-- Before the first event nothing runs. -/
theorem start_shows (hr : start trace config = .ok r) : Shows (trace.program config) r World.initial := by
  obtain ⟨C, A, F, hC, -, rfl, hlimit, hnode, hsize, hinv⟩ := start_eq hr
  obtain ⟨-, -, hempty⟩ := ContextTable.ofBuckets_filed hC
  have hnone : ∀ {place : Nat} {id : BlockId},
      (Array.replicate trace.blocks.size (none : Option BlockId))[place]?.join ≠ some id := by
    intro place id
    rw [Array.getElem?_replicate]
    split <;> exact (Option.some_ne_none _).symm
  refine ⟨hinv, rfl, hlimit, fun fn f hf => ?_, fun place b hb => ?_, fun place id hid => absurd hid hnone,
    fun p q id hp => absurd hp hnone, fun c x hx => absurd hx (hempty c x), fun _ hp => ?_, fun u => ?_⟩
  · have hf : (F.nodes[fn.num]?).map (fun f => { f with hint := none, active := 0 }) = some f := hf
    rw [hnode, Option.map_map] at hf
    obtain ⟨d, hd, rfl⟩ := Option.map_eq_some_iff.mp hf
    refine ⟨?_, ?_⟩
    · show (config.isSkipped d.name || d.skip) = trace.skips config fn
      rw [Trace.skips, hd]
      rfl
    · show d.name = ((trace.functions[fn.num]?).map FunctionDecl.name).getD ""
      rw [hd]
      rfl
  · have hb : trace.blocks[place]?.bind (fun d => (trace.toBlock d).toOption) = some b := hb
    obtain ⟨d, hd, hb⟩ := Option.bind_eq_some_iff.mp hb
    refine ⟨?_, ?_⟩
    · rw [hsize]
      exact Trace.toBlock_fn (toOption_eq_some.mp hb)
    · rw [Array.size_replicate]
      exact (Array.getElem?_eq_some_iff.mp hd).1
  · cases hp
  · refine ⟨⟨.fresh, none, 0⟩, ?_, .fresh, .none, rfl⟩
    rw [Tracker.state_of_fresh rfl]
    exact ThreadState.fresh_tells

/-! ## After some events -/

/-- Playing events from some place on, the replay goes where the world goes. -/
theorem playAll_shows (hblocks : ∀ d ∈ trace.blocks, ∃ b, trace.toBlock d = .ok b) (events : List Event) (i : Nat)
    (hevents : ∀ p ∈ events.zipIdx i, trace.checkEvent p.2 p.1 = .ok ()) (h : Shows (trace.program config) r w) :
    (∃ r' w', (events.zipIdx i).foldlM (fun r (e, i) => play trace r i e) r = .ok r' ∧
      w.run (trace.program config) events = some w' ∧ Shows (trace.program config) r' w') ∨
    ((∃ x, (events.zipIdx i).foldlM (fun r (e, i) => play trace r i e) r = .error x) ∧
      w.run (trace.program config) events = none) := by
  induction events generalizing i r w with
  | nil => exact .inl ⟨r, w, rfl, rfl, h⟩
  | cons e events ih =>
    rw [List.zipIdx_cons] at hevents ⊢
    obtain ⟨he, hevents⟩ := List.forall_mem_cons.mp hevents
    simp only [List.foldlM_cons, World.run]
    obtain ⟨r₁, w₁, hplay, hw, h₁⟩ | ⟨⟨x, hplay⟩, hw⟩ := play_shows h hblocks he
    · simp only [hplay, hw, ok_bind, Option.bind_eq_bind, Option.bind_some]
      exact ih (i + 1) hevents h₁
    · rw [hplay, hw]
      exact .inr ⟨⟨x, rfl⟩, rfl⟩

end Replay

namespace Trace

variable {trace : Trace} {config : Config} {r r' : Replay} {w w' : World}

/-- The world after the first `n` events. -/
def worldAfter (trace : Trace) (config : Config) (n : Nat) : Option World :=
  World.initial.run (trace.program config) (trace.events.take n)

/-- A valid replay starts, and plays events that only refer to what is declared. -/
theorem after_played (hvalid : trace.check = .ok ()) (hconfig : config.Usable) (n : Nat) :
    ∃ r₀, Replay.start trace config = .ok r₀ ∧ Replay.Shows (trace.program config) r₀ World.initial ∧
      trace.after config n = (trace.events.take n).zipIdx.foldlM (fun r (e, i) => Replay.play trace r i e) r₀ ∧
      ∀ p ∈ (trace.events.take n).zipIdx, trace.checkEvent p.2 p.1 = .ok () := by
  obtain ⟨-, hevents⟩ := check_eq_ok hvalid
  obtain ⟨r₀, hstart⟩ := Replay.start_ok trace hconfig
  refine ⟨r₀, hstart, Replay.start_shows hstart, ?_, fun p hp => hevents p ?_⟩
  · unfold after Config.checkFlaw
    rw [hvalid, hconfig.1, hstart]
    rfl
  · rw [List.mem_zipIdx_iff_getElem?] at hp ⊢
    rw [List.getElem?_take] at hp
    split at hp
    · exact hp
    · cases hp

/-- A valid replay starts exactly with settings that can be used. -/
theorem after_zero_iff (hvalid : trace.check = .ok ()) : (∃ r, trace.after config 0 = .ok r) ↔ config.Usable := by
  constructor
  · rintro ⟨r, hr⟩
    exact config_ok hr
  · intro hconfig
    obtain ⟨r₀, -, -, hafter, -⟩ := after_played hvalid hconfig 0
    exact ⟨r₀, hafter⟩

/-- After any number of events a valid replay shows the world, or both stopped. -/
theorem after_shows (hvalid : trace.check = .ok ()) (hconfig : config.Usable) (n : Nat) :
    (∃ r w, trace.after config n = .ok r ∧ trace.worldAfter config n = some w ∧
      Replay.Shows (trace.program config) r w) ∨
    ((∃ x, trace.after config n = .error x) ∧ trace.worldAfter config n = none) := by
  obtain ⟨r₀, -, h₀, hafter, hevents⟩ := after_played hvalid hconfig n
  rw [hafter]
  exact Replay.playAll_shows (check_eq_ok hvalid).1 (trace.events.take n) 0 hevents h₀

/-- What a replay shows after some events is the world after them. -/
theorem after_eq (hvalid : trace.check = .ok ()) (hconfig : config.Usable) {n : Nat}
    (hr : trace.after config n = .ok r) :
    ∃ w, trace.worldAfter config n = some w ∧ Replay.Shows (trace.program config) r w := by
  obtain ⟨r', w, hr', hw, h⟩ | ⟨⟨x, hx⟩, -⟩ := after_shows hvalid hconfig n
  · rw [hr] at hr'
    cases hr'
    exact ⟨w, hw, h⟩
  · rw [hr] at hx
    cases hx

theorem after_ok_iff (hvalid : trace.check = .ok ()) (hconfig : config.Usable) {n : Nat} :
    (∃ r, trace.after config n = .ok r) ↔ ∃ w, trace.worldAfter config n = some w := by
  obtain ⟨r, w, hr, hw, -⟩ | ⟨⟨x, hx⟩, hw⟩ := after_shows hvalid hconfig n
  · exact iff_of_true ⟨r, hr⟩ ⟨w, hw⟩
  · rw [hx, hw]
    constructor
    · rintro ⟨r, hr⟩
      cases hr
    · rintro ⟨w, hw⟩
      cases hw

theorem after_succ {n : Nat} {e : Event} (he : trace.events[n]? = some e) :
    trace.after config (n + 1) = trace.after config n >>= fun r => Replay.play trace r n e := by
  have hlength : (trace.events.take n).length = n := by
    have := (List.getElem?_eq_some_iff.mp he).1
    rw [List.length_take]
    omega
  have htake : (trace.events.take (n + 1)).zipIdx = (trace.events.take n).zipIdx ++ [(e, n)] := by
    rw [List.take_add_one, he, Option.toList_some, List.zipIdx_append, hlength, Nat.zero_add]
    rfl
  simp only [after, htake, List.foldlM_append, List.foldlM_cons, List.foldlM_nil, bind_assoc, bind_pure]

theorem worldAfter_succ {n : Nat} {e : Event} (he : trace.events[n]? = some e) :
    trace.worldAfter config (n + 1) = (trace.worldAfter config n).bind fun w => w.play (trace.program config) e := by
  rw [worldAfter, worldAfter, World.run, World.run, List.take_add_one, he, Option.toList_some, List.foldlM_append]
  simp only [List.foldlM_cons, List.foldlM_nil, bind_pure]
  rfl

theorem worldAfter_stop {n : Nat} (he : trace.events[n]? = none) :
    trace.worldAfter config (n + 1) = trace.worldAfter config n := by
  rw [worldAfter, List.take_add_one, he, Option.toList_none, List.append_nil]
  rfl

/-- What relates the worlds of two replays of the same events before the first event and goes on through every event
relates them after any number of events, or both stopped by then. -/
theorem worldAfter_related {holds : World → World → Prop} {trace' : Trace} {config' : Config}
    (hevents : trace'.events = trace.events) (hstart : holds World.initial World.initial)
    (hplay : ∀ n e w w', trace.events[n]? = some e → trace.worldAfter config n = some w → holds w w' →
      (w.play (trace.program config) e = none ∧ w'.play (trace'.program config') e = none) ∨
        ∃ v v', w.play (trace.program config) e = some v ∧ w'.play (trace'.program config') e = some v' ∧ holds v v')
    (n : Nat) :
    (trace.worldAfter config n = none ∧ trace'.worldAfter config' n = none) ∨
      ∃ w w', trace.worldAfter config n = some w ∧ trace'.worldAfter config' n = some w' ∧ holds w w' := by
  induction n with
  | zero =>
    refine .inr ⟨_, _, ?_, ?_, hstart⟩ <;> rw [worldAfter, List.take_zero] <;> rfl
  | succ n ih =>
    cases he : trace.events[n]? with
    | none =>
      rw [worldAfter_stop he, worldAfter_stop (hevents ▸ he)]
      exact ih
    | some e =>
      rw [worldAfter_succ he, worldAfter_succ (hevents ▸ he)]
      obtain ⟨hw, hw'⟩ | ⟨w, w', hw, hw', h⟩ := ih
      · rw [hw, hw']
        exact .inl ⟨rfl, rfl⟩
      · rw [hw, hw']
        exact hplay n e w w' he hw h

/-- A block is billed to the chain that is open once it runs. -/
theorem after_billed (hvalid : trace.check = .ok ()) (hconfig : config.Usable) {n : Nat} {tid : UInt32}
    {sp : Addr} {place : UInt32} {exit : Option UInt64} (he : trace.events[n]? = some (.block tid sp place exit))
    (hr : trace.after config (n + 1) = .ok r) (hw : trace.worldAfter config (n + 1) = some w) :
    r.billed = some ((trace.program config).cut (FnStack.chain ⟨(w ⟨tid.toNat⟩).story.slots⟩)) := by
  rw [after_succ he] at hr
  obtain ⟨r₀, hr₀, hplay⟩ := bind_eq_ok.mp hr
  obtain ⟨w₀, hw₀, h₀⟩ := after_eq hvalid hconfig hr₀
  rw [worldAfter_succ he, hw₀] at hw
  exact Replay.play_billed h₀ (check_eq_ok hvalid).1 hplay hw

end Trace

/-! ## After the last event -/

/-- The name of a chain of declared functions. -/
def Program.title (P : Program) (chain : List FnId) : String := "\x27".intercalate (chain.map P.name)

namespace Replay

variable {P : Program} {r : Replay} {w : World}

/-- The chain that a context stands for. -/
def chainOf (r : Replay) (c : ContextId) : List FnId := ((r.tracker.contexts.get? c).map Context.chain).getD []

/-- After everything was left a context is still called after its functions. -/
theorem describe_eq (h : Shows P r w) {t : Tracker} (e : Tracker.Ends r.tracker t) {c : ContextId} {x : Context}
    (hx : r.tracker.contexts.get? c = some x) : describe t c = .ok (P.title x.chain, x.chain.length) := by
  have hget : t.contexts.get c = .ok x := by
    rw [e.contexts, ContextTable.get, hx]
    rfl
  have hnames : x.chain.mapM (fun fn => t.functions.get fn >>= fun f => pure f.name) = .ok (x.chain.map P.name) := by
    refine mapM_eq_ok fun fn hfn => ?_
    have hknown : fn.num < t.functions.size := by
      rw [e.size]
      exact h.named c x hx fn hfn
    obtain ⟨f, hf, hnode⟩ := FunctionTable.get_ok hknown
    have hdecl : r.tracker.functions.decl? fn = some { f with hint := none, active := 0 } := by
      rw [← e.decls, FunctionTable.decl?, hnode]
      rfl
    rw [hf, ok_bind, ← (h.decls fn _ hdecl).2]
    rfl
  simp only [describe, Tracker.contextName, Tracker.contextNames, hget, ok_bind, hnames]
  rfl

/-- What a replay that came to the end of its events is summed up to. -/
theorem close_eq (h : Shows P r w) (trace : Trace) :
    ∃ s, r.close trace = .ok s ∧ s.contexts = r.tracker.contexts.size ∧ s.anchors = r.tracker.anchors.size ∧
      s.arcs = r.tracker.ledger.arcCount ∧ s.calls = r.tracker.ledger.totalCalls ∧
      s.entries = r.tracker.ledger.entries ∧
      s.stats = { r.tracker.stats with returns := r.tracker.stats.returns + r.tracker.threads.depths } ∧
      s.hotspots = r.hotspots.ranked.map fun p =>
        r.hotspots.row (P.title (r.chainOf p.1)) (r.chainOf p.1).length p.2 := by
  obtain ⟨t, hfinish, -⟩ := Tracker.finish_ok h.inv
  obtain ⟨e, hstats⟩ := Tracker.finish_eq h.inv hfinish
  have hrows : r.hotspots.rows (describe t) = .ok (r.hotspots.ranked.map fun p =>
      r.hotspots.row (P.title (r.chainOf p.1)) (r.chainOf p.1).length p.2) := by
    refine mapM_eq_ok fun p hp => ?_
    obtain ⟨q, hq, rfl⟩ := List.mem_map.mp hp
    obtain ⟨x, hx⟩ := h.ranked q (List.mem_mergeSort.mp hq)
    show describe t ⟨q.1⟩ >>= _ = _
    rw [describe_eq h e hx, chainOf, hx]
    rfl
  exact ⟨_, by rw [close, hfinish, ok_bind, hrows, ok_bind]; rfl, by rw [e.contexts], by rw [e.anchors],
    congrArg Array.size e.ledger.calls, by rw [Ledger.totalCalls, Ledger.totalCalls, e.ledger.calls], e.entries,
    hstats, rfl⟩

end Replay

namespace Trace

variable {trace : Trace} {config : Config}

/-- A replay that came to the end of its events comes to a summary. -/
theorem replay_ok_iff : (∃ s, trace.replay config = .ok s) ↔ ∃ r, trace.after config trace.events.length = .ok r := by
  constructor
  · intro h
    obtain ⟨s, hs⟩ := h
    obtain ⟨r, hr, -⟩ := after_of_replay hs
    exact ⟨r, hr⟩
  · intro h
    obtain ⟨r, hr⟩ := h
    obtain ⟨w, -, hshows⟩ := after_eq (check_ok hr) (config_ok hr) hr
    obtain ⟨s, hs, -⟩ := Replay.close_eq hshows trace
    exact ⟨s, by rw [replay_eq, hr, ok_bind, hs]; rfl⟩

section
variable {trace' : Trace} {config' : Config}

/-- Two replays get to some place if their worlds do, whether or not the settings can be used. -/
theorem after_together (hvalid : trace.check = .ok ()) (hvalid' : trace'.check = .ok ())
    (husable : config'.Usable ↔ config.Usable) {n n' : Nat}
    (hworlds : config.Usable →
      ((∃ w, trace.worldAfter config n = some w) ↔ ∃ w, trace'.worldAfter config' n' = some w)) :
    (∃ r, trace.after config n = .ok r) ↔ ∃ r, trace'.after config' n' = .ok r := by
  by_cases hconfig : config.Usable
  · rw [after_ok_iff hvalid hconfig, after_ok_iff hvalid' (husable.mpr hconfig), hworlds hconfig]
  · -- With settings that cannot be used nothing is played.
    refine iff_of_false ?_ ?_
    · rintro ⟨r, hr⟩
      exact hconfig (config_ok hr)
    · rintro ⟨r, hr⟩
      exact hconfig (husable.mp (config_ok hr))

/-- Two replays get equally far as long as their worlds do, and then both come to a summary or none does. -/
theorem replay_together (hvalid : trace.check = .ok ()) (hvalid' : trace'.check = .ok ())
    (husable : config'.Usable ↔ config.Usable) (hlength : trace'.events.length = trace.events.length)
    (hworlds : ∀ n, (∃ w, trace.worldAfter config n = some w) ↔ ∃ w, trace'.worldAfter config' n = some w) :
    ((∃ s, trace.replay config = .ok s) ↔ ∃ s, trace'.replay config' = .ok s) ∧
      ∀ n, (∃ r, trace.after config n = .ok r) ↔ ∃ r, trace'.after config' n = .ok r := by
  have hreach : ∀ n, (∃ r, trace.after config n = .ok r) ↔ ∃ r, trace'.after config' n = .ok r :=
    fun n => after_together hvalid hvalid' husable fun _ => hworlds n
  refine ⟨?_, hreach⟩
  rw [replay_ok_iff, replay_ok_iff, hlength]
  exact hreach _

end

end Trace
end CallGraph
