/-
  CallGraph.Proofs.Outcome — what a replay can come to.

  Any trace can be replayed with any settings. A flaw that a check finds is the answer, the trace's own first.
  Settings that ask for more room than there is pass the check, and then no tracker is built: the one fault that
  a replay ends with (`after_overfull`). After that only the return of a signal that is not handled then can stop
  it (`play_stops`), and the first one does (`after_outcome`). So a checked trace whose signals return in order
  comes to a summary if there is room for the tables and stacks that are asked for (`replay_outcome`).
-/

import CallGraph.Proofs.Replaying

namespace CallGraph

namespace Trace

/-- The event at place `j`, if it is the return of a signal, is that of the signal handled then. -/
def Returns (trace : Trace) (config : Config) (j : Nat) : Prop :=
  ∀ tid signal, trace.events[j]? = some (.signalReturn tid signal) →
    ∃ r, trace.after config j = .ok r ∧ r.tracker.handledSignal ⟨tid.toNat⟩ = signal.toInt

/-- The first return of a signal that is not handled then: at place `i`, on a thread that handles another signal,
or none. -/
structure Mismatch (trace : Trace) (config : Config) (i : Nat) (tid : UInt32) (handled returned : Int) : Prop where
  event : ∃ signal, trace.events[i]? = some (.signalReturn tid signal) ∧ signal.toInt = returned
  earlier : ∀ j < i, trace.Returns config j
  reached : ∃ r, trace.after config i = .ok r ∧ r.tracker.handledSignal ⟨tid.toNat⟩ = handled
  differs : handled ≠ returned

/-- What a replay comes to. -/
inductive Outcome (trace : Trace) (config : Config) : Except ReplayError Summary → Prop
  | flawed {flaw : Flaw} : trace.check = .error flaw → Outcome trace config (.error (.flaw flaw))
  | misconfigured {flaw : ConfigFlaw} : trace.check = .ok () → config.check = .error flaw →
      Outcome trace config (.error (.flaw (.config flaw)))
  | overfull : trace.check = .ok () → config.check = .ok () → config.fits = false →
      Outcome trace config (.error (.fault .capacityOverflow))
  | mismatched {i : Nat} {tid : UInt32} {handled returned : Int} : trace.check = .ok () → config.Usable →
      trace.Mismatch config i tid handled returned →
      Outcome trace config (.error (.signalMismatch i tid handled returned))
  | done {s : Summary} : trace.check = .ok () → config.Usable → (∀ j, trace.Returns config j) →
      Outcome trace config (.ok s)

end Trace

/-! ## One event -/

namespace Replay

variable {trace : Trace} {config : Config} {r r' : Replay} {w : World}

/-- Only the return of a signal that is not handled stops a replay of a checked trace. -/
theorem play_stops (h : Shows (trace.program config) r w) (hblocks : ∀ d ∈ trace.blocks, ∃ b, trace.toBlock d = .ok b)
    {i : Nat} {e : Event} (he : trace.checkEvent i e = .ok ()) {x : ReplayError} (hx : play trace r i e = .error x) :
    ∃ tid signal, e = .signalReturn tid signal ∧ r.tracker.handledSignal ⟨tid.toNat⟩ ≠ signal.toInt ∧
      x = .signalMismatch i tid (r.tracker.handledSignal ⟨tid.toNat⟩) signal.toInt := by
  obtain ⟨r', w', hplay, -⟩ | ⟨-, hstops⟩ := play_shows h hblocks he
  · rw [hx] at hplay
    cases hplay
  · cases e with
    | block tid sp place exit =>
      obtain ⟨d, b, -, -, hP⟩ := Trace.checkEvent_block config hblocks he
      simp only [World.play, Event.thread?, Program.act, hP, Option.map_some] at hstops
      cases hstops
    | signal tid signal => cases hstops
    | discard place => cases hstops
    | signalReturn tid signal =>
      simp only [World.play, Event.thread?, Program.act, Option.map_eq_none_iff] at hstops
      have hne : r.tracker.handledSignal ⟨tid.toNat⟩ ≠ signal.toInt := by
        rw [h.signal]
        intro e
        rw [if_pos e] at hstops
        cases hstops
      simp only [play, if_pos hne] at hx
      cases hx
      exact ⟨tid, signal, rfl, hne, rfl⟩

end Replay

/-! ## Some events -/

namespace Trace

variable {trace : Trace} {config : Config}

/-- Where there is no room for the tables and the stacks, nothing is played. -/
theorem after_overfull (hvalid : trace.check = .ok ()) (hconfig : config.check = .ok ()) (hfull : config.fits = false)
    (n : Nat) : trace.after config n = .error (.fault .capacityOverflow) := by
  have hstart : Replay.start trace config = .error .capacityOverflow := by
    rw [Replay.start, Tracker.ofConfig_overfull hconfig hfull]
    rfl
  unfold after Config.checkFlaw
  rw [hvalid, hconfig, hstart]
  rfl

/-- After any number of events all signals returned in order, or the first one that did not stopped the replay. -/
theorem after_outcome (hvalid : trace.check = .ok ()) (hconfig : config.Usable) {n : Nat}
    (hn : n ≤ trace.events.length) :
    (∃ r, trace.after config n = .ok r ∧ ∀ j < n, trace.Returns config j) ∨
      ∃ i tid handled returned, trace.Mismatch config i tid handled returned ∧
        trace.after config n = .error (.signalMismatch i tid handled returned) := by
  induction n with
  | zero =>
    obtain ⟨r₀, -, -, hafter, -⟩ := after_played hvalid hconfig 0
    exact .inl ⟨r₀, hafter, fun _ hj => absurd hj (Nat.not_lt_zero _)⟩
  | succ n ih =>
    obtain ⟨hblocks, hevents⟩ := check_eq_ok hvalid
    have he : trace.events[n]? = some trace.events[n] := List.getElem?_eq_getElem hn
    generalize trace.events[n] = e at he
    obtain ⟨r, hr, hreturns⟩ | ⟨i, tid, handled, returned, hmismatch, herror⟩ := ih (Nat.le_of_succ_le hn)
    · obtain ⟨w, -, hshows⟩ := after_eq hvalid hconfig hr
      rw [after_succ he, hr, ok_bind]
      cases hplay : Replay.play trace r n e with
      | ok r' =>
        refine .inl ⟨r', rfl, fun j hj tid signal hsignal => ?_⟩
        obtain hj | rfl := Nat.lt_succ_iff_lt_or_eq.mp hj
        · exact hreturns j hj tid signal hsignal
        · rw [he] at hsignal
          cases hsignal
          exact ⟨r, hr, (Replay.play_signalReturn_eq.mp hplay).1⟩
      | error x =>
        have hcheck := hevents (e, n) (List.mem_zipIdx_iff_getElem?.mpr he)
        obtain ⟨tid, signal, rfl, hne, rfl⟩ := Replay.play_stops hshows hblocks hcheck hplay
        exact .inr ⟨n, tid, _, _, ⟨⟨signal, he, rfl⟩, hreturns, ⟨r, hr, rfl⟩, hne⟩, rfl⟩
    · -- A replay that was stopped plays no event more.
      refine .inr ⟨i, tid, handled, returned, hmismatch, ?_⟩
      rw [after_succ he, herror]
      rfl

theorem replay_flawed {flaw : Flaw} (h : trace.check = .error flaw) : trace.replay config = .error (.flaw flaw) := by
  rw [replay, h]
  rfl

theorem replay_misconfigured {flaw : ConfigFlaw} (hvalid : trace.check = .ok ()) (h : config.check = .error flaw) :
    trace.replay config = .error (.flaw (.config flaw)) := by
  rw [replay, hvalid, Config.checkFlaw, h]
  rfl

theorem replay_overfull (hvalid : trace.check = .ok ()) (hconfig : config.check = .ok ())
    (hfull : config.fits = false) : trace.replay config = .error (.fault .capacityOverflow) := by
  rw [replay_eq, after_overfull hvalid hconfig hfull]
  rfl

/-- With settings that can be used a valid trace is replayed to its end, or to the first signal that returned without
being handled. -/
theorem replay_played (hvalid : trace.check = .ok ()) (hconfig : config.Usable) :
    (∃ s, trace.replay config = .ok s ∧ ∀ j, trace.Returns config j) ∨
      ∃ i tid handled returned, trace.Mismatch config i tid handled returned ∧
        trace.replay config = .error (.signalMismatch i tid handled returned) := by
  obtain ⟨r, hr, hreturns⟩ | ⟨i, tid, handled, returned, hmismatch, herror⟩ :=
    after_outcome hvalid hconfig (Nat.le_refl trace.events.length)
  · obtain ⟨s, hs⟩ := replay_ok_iff.mpr ⟨r, hr⟩
    refine .inl ⟨s, hs, fun j tid signal hsignal => ?_⟩
    exact hreturns j (List.getElem?_eq_some_iff.mp hsignal).1 tid signal hsignal
  · refine .inr ⟨i, tid, handled, returned, hmismatch, ?_⟩
    rw [replay_eq, herror]
    rfl

/-- A replay ends with a fault exactly where there is no room for its tables and stacks. -/
theorem replay_fault_iff {f : Fault} : trace.replay config = .error (.fault f) ↔
    f = .capacityOverflow ∧ trace.check = .ok () ∧ config.check = .ok () ∧ config.fits = false := by
  constructor
  · intro h
    cases hvalid : trace.check with
    | error flaw => cases h.symm.trans (replay_flawed hvalid)
    | ok =>
      cases hconfig : config.check with
      | error flaw => cases h.symm.trans (replay_misconfigured hvalid hconfig)
      | ok =>
        cases hfits : config.fits with
        | true =>
          obtain ⟨s, hs, -⟩ | ⟨i, tid, handled, returned, -, hs⟩ := replay_played hvalid ⟨hconfig, hfits⟩
          · cases h.symm.trans hs
          · cases h.symm.trans hs
        | false =>
          cases h.symm.trans (replay_overfull hvalid hconfig hfits)
          exact ⟨rfl, rfl, rfl, rfl⟩
  · rintro ⟨rfl, hvalid, hconfig, hfits⟩
    exact replay_overfull hvalid hconfig hfits

/-- A signal that is handled on one thread returns on another one. -/
example : Trace.replay { events := [.signal 1 5, .signalReturn 2 5] } Tracker.fewBuckets =
    .error (.signalMismatch 1 2 0 5) := by
  decide +kernel

end Trace
end CallGraph
