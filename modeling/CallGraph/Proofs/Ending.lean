/-
  CallGraph.Proofs.Ending — what the code says that the command ends with.

  A trace is unreadable, spoiled, asks for too much room, or comes to a summary (`trace_cases`). The code is 2 exactly
  for the unreadable ones, to which a file that holds no text belongs; it is 1 for the spoiled ones and where the
  summary could not be delivered; a trace that asks for too much room crashes with 101; and it is 0 where the trace was
  replayed and the output is there (`exit_codes`). One delivery fails unseen: what a file refuses, on a full disk or
  because of what it is, when the document leaves the buffer at the end (`Lost`).
-/

import CallGraph.Proofs.Outcome
import CallGraph.Proofs.Placing

namespace CallGraph.CommandLine

open Files

variable {t : Tree} {words : List String} {a : Args} {s : Summary}

/-! ## What becomes of the trace -/

/-- The file of the trace can be read, and holds a text. -/
def Reads (t : Tree) (a : Args) (text : String) : Prop :=
  ∃ bytes, t.read? a.trace = some bytes ∧ String.fromUTF8? bytes = some text

/-- The file of the trace can be read and holds a text, but that is no trace, or a trace whose replay is refused. -/
def Spoiled (t : Tree) (a : Args) : Prop :=
  ∃ text, Reads t a text ∧
    (Trace.parse? text = none ∨
      ∃ trace e, Trace.parse? text = some trace ∧ trace.replay (a.apply trace.config) = .error e ∧ ∀ f, e ≠ .fault f)

/-- The file of the trace holds a trace without a flaw, but there is no room for the tables and stacks it asks for. -/
def Crashes (t : Tree) (a : Args) : Prop :=
  ∃ text trace, Reads t a text ∧ Trace.parse? text = some trace ∧ trace.check = .ok () ∧
    (a.apply trace.config).check = .ok () ∧ (a.apply trace.config).fits = false

/-- The file of the trace holds a trace whose replay comes to a summary. -/
def Replays (t : Tree) (a : Args) (s : Summary) : Prop :=
  ∃ text trace, Reads t a text ∧ Trace.parse? text = some trace ∧ trace.replay (a.apply trace.config) = .ok s

/-- What cannot be read, or can be read and is no text. -/
theorem not_reads_iff : (∀ text, ¬ Reads t a text) ↔
    t.read? a.trace = none ∨ ∃ bytes, t.read? a.trace = some bytes ∧ String.fromUTF8? bytes = none := by
  cases hread : t.read? a.trace with
  | none => simp [Reads, hread]
  | some bytes => simp [Reads, hread, Option.eq_none_iff_forall_ne_some]

theorem trace_cases (t : Tree) (a : Args) :
    (∀ text, ¬ Reads t a text) ∨ Spoiled t a ∨ Crashes t a ∨ ∃ s, Replays t a s := by
  by_cases hreads : ∃ text, Reads t a text
  · obtain ⟨text, htext⟩ := hreads
    refine .inr ?_
    cases hparse : Trace.parse? text with
    | none => exact .inl ⟨text, htext, .inl hparse⟩
    | some trace =>
      cases hreplay : trace.replay (a.apply trace.config) with
      | error e =>
        by_cases hfault : ∃ f, e = .fault f
        · obtain ⟨f, rfl⟩ := hfault
          obtain ⟨-, hvalid, hconfig, hfull⟩ := Trace.replay_fault_iff.mp hreplay
          exact .inr (.inl ⟨text, trace, htext, hparse, hvalid, hconfig, hfull⟩)
        · exact .inl ⟨text, htext, .inr ⟨trace, e, hparse, hreplay, fun f hf => hfault ⟨f, hf⟩⟩⟩
      | ok s => exact .inr (.inr ⟨s, text, trace, htext, hparse, hreplay⟩)
  · exact .inl fun text htext => hreads ⟨text, htext⟩

theorem conclude_of_reads (h : parse words = .ok a) {text : String} (htext : Reads t a text) :
    conclude words t.read? = .ofText a text := by
  obtain ⟨bytes, hread, hbytes⟩ := htext
  unfold conclude
  simp only [h, hread, Option.bind_some, hbytes]

theorem run_of_unreadable (h : parse words = .ok a) (hreads : ∀ text, ¬ Reads t a text) :
    ∃ complaint, run t words = ({ code := 2, complaint }, t) := by
  have hnone : (t.read? a.trace).bind String.fromUTF8? = none := by
    rw [Option.eq_none_iff_forall_ne_some]
    intro text htext
    obtain ⟨bytes, hread, hbytes⟩ := Option.bind_eq_some_iff.mp htext
    exact hreads text ⟨bytes, hread, hbytes⟩
  unfold run conclude
  simp only [h, hnone]
  exact ⟨_, rfl⟩

/-- How the command ends that has a summary to deliver. -/
def ending (t : Tree) (a : Args) (s : Summary) : Outcome × Tree := (Conclusion.ofSummary a s).outcome deliver t

theorem run_of_trace (h : parse words = .ok a) {text : String} {trace : Trace} (htext : Reads t a text)
    (hparse : Trace.parse? text = some trace) :
    run t words = match trace.replay (a.apply trace.config) with
      | .error e => (unplayed e, t)
      | .ok s => ending t a s := by
  unfold run
  rw [conclude_of_reads h htext, Conclusion.ofText, hparse]
  dsimp only
  cases trace.replay (a.apply trace.config) with
  | error e => rfl
  | ok s => rfl

theorem run_of_spoiled (h : parse words = .ok a) (hspoiled : Spoiled t a) :
    ∃ complaint, run t words = ({ code := 1, complaint }, t) := by
  obtain ⟨text, htext, hparse | ⟨trace, e, hparse, hreplay, hfault⟩⟩ := hspoiled
  · unfold run
    rw [conclude_of_reads h htext, Conclusion.ofText, hparse]
    exact ⟨_, rfl⟩
  · rw [run_of_trace h htext hparse, hreplay]
    cases e with
    | fault f => exact absurd rfl (hfault f)
    | flaw | signalMismatch => exact ⟨_, rfl⟩

theorem run_of_crashes (h : parse words = .ok a) (hcrashes : Crashes t a) :
    ∃ complaint, run t words = ({ code := 101, complaint }, t) := by
  obtain ⟨text, trace, htext, hparse, hvalid, hconfig, hfull⟩ := hcrashes
  rw [run_of_trace h htext hparse, Trace.replay_overfull hvalid hconfig hfull]
  exact ⟨_, rfl⟩

theorem run_of_replays (h : parse words = .ok a) (hs : Replays t a s) : run t words = ending t a s := by
  obtain ⟨text, trace, htext, hparse, hreplay⟩ := hs
  rw [run_of_trace h htext hparse, hreplay]

/-! ## What becomes of the summary -/

/-- What is said once the document is written. -/
def notice (a : Args) (path : String) : String := if a.quiet then "" else s!"Summary written to {path}\n"

/-- The output that is asked for is there. -/
inductive Produced (t : Tree) (a : Args) (s : Summary) (o : Outcome) (t' : Tree) : Prop
  /-- The table is printed, or nothing if the output is not wanted. -/
  | printed : a.json = none → o.output = (if a.quiet then "" else s.table a.top.toNat) → Produced t a s o t'
  /-- The file that is named holds the document. -/
  | filed {path : String} {place : Files.Place} : a.json = some path → t.target? path = some (.file place) →
      t.full place = false → t'.read? path = some s.document.toUTF8 → o.output = notice a path → Produced t a s o t'
  /-- The document is on the output, in front of the notice. -/
  | shown {path : String} : a.json = some path → t.target? path = some (.channel .output) →
      o.output = s.document ++ notice a path → Produced t a s o t'
  | complained {path : String} : a.json = some path → t.target? path = some (.channel .error) →
      o.complaint = s.document → o.output = notice a path → Produced t a s o t'
  /-- What the path leads to takes everything and keeps nothing. -/
  | swallowed {path : String} : a.json = some path →
      (t.target? path = some .sink ∨ t.target? path = some (.channel .input)) → o.output = notice a path →
      Produced t a s o t'

/-- What a path leads to can be opened for writing but takes nothing. -/
inductive Refuses (t : Tree) (path : String) : Prop
  | device {reason : String} : t.target? path = some (.refusing reason) → Refuses t path
  /-- The disk of the file is full. -/
  | disk {place : Files.Place} : t.target? path = some (.file place) → t.full place = true → Refuses t path

/-- The document was refused when it left the buffer, which nobody saw. -/
def Lost (t : Tree) (a : Args) (s : Summary) : Prop :=
  ∃ path, a.json = some path ∧ Refuses t path ∧ s.document.utf8ByteSize ≤ bufferSize

/-- There is no file for the document and none can be made, or the document was refused while it was written. -/
def Refused (t : Tree) (a : Args) (s : Summary) : Prop :=
  ∃ path, a.json = some path ∧ (t.target? path = none ∨ Refuses t path ∧ bufferSize < s.document.utf8ByteSize)

theorem ending_of_print (h : a.json = none) :
    ending t a s = ({ code := 0, output := if a.quiet then "" else s.table a.top.toNat }, t) := by
  unfold ending Conclusion.ofSummary
  rw [h]
  rfl

theorem ending_of_delivery {path : String} {d : Delivery} {t' : Tree} (h : a.json = some path)
    (hd : deliver path s.document t = (d, t')) : ending t a s = (d.outcome path s.document (notice a path), t') := by
  have hsave : ending t a s =
      ((deliver path s.document t).1.outcome path s.document (notice a path), (deliver path s.document t).2) := by
    unfold ending Conclusion.ofSummary
    rw [h]
    rfl
  rw [hsave, hd]

section Deliver
variable {path : String} {place : Files.Place} (document : String)

theorem deliver_nowhere (h : t.target? path = none) : deliver path document t = (.notCreated, t) := by rw [deliver, h]

theorem deliver_file (h : t.target? path = some (.file place)) (hroom : t.full place = false) :
    deliver path document t = (.written, t.put place document.toUTF8) := by
  simp only [deliver, h, hroom]
  rfl

theorem deliver_channel {c : Channel} (h : t.target? path = some (.channel c)) :
    deliver path document t = (.shown c, t) := by rw [deliver, h]

theorem deliver_sink (h : t.target? path = some .sink) : deliver path document t = (.written, t) := by rw [deliver, h]

/-- The answer to a refusal is that of the buffer. A file on a full disk was emptied before. -/
theorem Refuses.deliver_eq (h : Refuses t path) : ∃ reason t',
    deliver path document t = (Delivery.ofFailure document reason, t') ∧
      (t' = t ∨ ∃ place, t.target? path = some (.file place) ∧ t.full place = true ∧ t' = t.put place .empty) := by
  cases h with
  | device htarget =>
    simp only [deliver, htarget]
    exact ⟨_, t, rfl, .inl rfl⟩
  | @disk place htarget hfull =>
    simp only [deliver, htarget, if_pos hfull]
    exact ⟨_, _, rfl, .inr ⟨place, rfl, hfull, rfl⟩⟩

end Deliver

theorem Refuses.target {path : String} (h : Refuses t path) : t.target? path ≠ none := by
  cases h with
  | device htarget | disk htarget => simp [htarget]

/-- Output that is there was taken in. -/
theorem Produced.taken {o : Outcome} {t' : Tree} {path : String} (h : Produced t a s o t')
    (hpath : a.json = some path) : t.target? path ≠ none ∧ ¬ Refuses t path := by
  have htakes : ∃ target, t.target? path = some target ∧ (∀ reason, target ≠ .refusing reason) ∧
      ∀ place, target = .file place → t.full place = false := by
    cases h with
    | printed hjson => cases hpath.symm.trans hjson
    | @filed _ place hjson htarget hroom =>
      cases hpath.symm.trans hjson
      refine ⟨_, htarget, nofun, fun place' e => ?_⟩
      cases e
      exact hroom
    | shown hjson htarget | complained hjson htarget =>
      cases hpath.symm.trans hjson
      exact ⟨_, htarget, nofun, nofun⟩
    | swallowed hjson htarget =>
      cases hpath.symm.trans hjson
      obtain htarget | htarget := htarget
      · exact ⟨_, htarget, nofun, nofun⟩
      · exact ⟨_, htarget, nofun, nofun⟩
  obtain ⟨target, htarget, hdevice, hdisk⟩ := htakes
  refine ⟨by simp [htarget], fun hrefuses => ?_⟩
  cases hrefuses with
  | device h => exact hdevice _ (Option.some.inj (htarget.symm.trans h))
  | disk h hfull =>
    rw [hdisk _ (Option.some.inj (htarget.symm.trans h))] at hfull
    cases hfull

theorem Refused.not_produced {o : Outcome} {t' : Tree} (h : Refused t a s) : ¬ Produced t a s o t' := by
  intro hproduced
  obtain ⟨path, hpath, hnone | ⟨hrefuses, -⟩⟩ := h
  · exact (hproduced.taken hpath).1 hnone
  · exact (hproduced.taken hpath).2 hrefuses

theorem Lost.not_refused (h : Lost t a s) : ¬ Refused t a s := by
  rintro ⟨path', hpath', hrefused⟩
  obtain ⟨path, hpath, hrefuses, hfits⟩ := h
  cases hpath.symm.trans hpath'
  obtain hnone | ⟨-, hlong⟩ := hrefused
  · exact hrefuses.target hnone
  · exact absurd hfits (Nat.not_le_of_lt hlong)

/-- Where nothing is refused the output is there. -/
theorem ending_produces {path : String} {target : Tree.Target} (hjson : a.json = some path)
    (htarget : t.target? path = some target) (htakes : ¬ Refuses t path) :
    (ending t a s).1.code = 0 ∧ Produced t a s (ending t a s).1 (ending t a s).2 := by
  cases target with
  | file place =>
    have hroom : t.full place = false := Bool.eq_false_iff.mpr fun hfull => htakes (.disk htarget hfull)
    rw [ending_of_delivery hjson (deliver_file _ htarget hroom)]
    exact ⟨rfl, .filed hjson htarget hroom (Tree.read?_put _ htarget) rfl⟩
  | channel c =>
    rw [ending_of_delivery hjson (deliver_channel _ htarget)]
    cases c with
    | input => exact ⟨rfl, .swallowed hjson (.inr htarget) rfl⟩
    | output => exact ⟨rfl, .shown hjson htarget rfl⟩
    | error => exact ⟨rfl, .complained hjson htarget rfl rfl⟩
  | sink =>
    rw [ending_of_delivery hjson (deliver_sink _ htarget)]
    exact ⟨rfl, .swallowed hjson (.inl htarget) rfl⟩
  | refusing reason => exact absurd (.device htarget) htakes

/-- A delivery succeeds, or fails unseen, or is refused. -/
theorem ending_cases (t : Tree) (a : Args) (s : Summary) :
    ((ending t a s).1.code = 0 ∧ ¬ Refused t a s ∧ (Produced t a s (ending t a s).1 (ending t a s).2 ∨ Lost t a s)) ∨
      ((ending t a s).1.code = 1 ∧ Refused t a s) := by
  cases hjson : a.json with
  | none =>
    have hproduced : Produced t a s (ending t a s).1 (ending t a s).2 := .printed hjson (by rw [ending_of_print hjson])
    refine .inl ⟨by rw [ending_of_print hjson], fun hrefused => hrefused.not_produced hproduced, .inl hproduced⟩
  | some path =>
    by_cases hrefuses : Refuses t path
    · obtain ⟨reason, t', hd, -⟩ := hrefuses.deliver_eq s.document
      rw [ending_of_delivery hjson hd]
      -- What fits into the buffer is lost there without a word, and what is longer is written at once.
      by_cases hfits : s.document.utf8ByteSize ≤ bufferSize
      · have hlost : Lost t a s := ⟨path, hjson, hrefuses, hfits⟩
        rw [Delivery.ofFailure, if_pos hfits]
        exact .inl ⟨rfl, hlost.not_refused, .inr hlost⟩
      · rw [Delivery.ofFailure, if_neg hfits]
        exact .inr ⟨rfl, path, hjson, .inr ⟨hrefuses, Nat.lt_of_not_le hfits⟩⟩
    · cases htarget : t.target? path with
      | none =>
        rw [ending_of_delivery hjson (deliver_nowhere _ htarget)]
        exact .inr ⟨rfl, path, hjson, .inl htarget⟩
      | some target =>
        obtain ⟨hcode, hproduced⟩ := ending_produces (s := s) hjson htarget hrefuses
        exact .inl ⟨hcode, fun hrefused => hrefused.not_produced hproduced, .inl hproduced⟩

/-! ## The codes -/

/-- Every code has its reason. -/
theorem run_cases (t : Tree) (h : parse words = .ok a) :
    ((run t words).1.code = 2 ∧ ∀ text, ¬ Reads t a text) ∨
      ((run t words).1.code = 1 ∧ (Spoiled t a ∨ ∃ s, Replays t a s ∧ Refused t a s)) ∨
      ((run t words).1.code = 101 ∧ Crashes t a) ∨
      ((run t words).1.code = 0 ∧
        ∃ s, Replays t a s ∧ (Produced t a s (run t words).1 (run t words).2 ∨ Lost t a s)) := by
  obtain hreads | hspoiled | hcrashes | ⟨s, hs⟩ := trace_cases t a
  · obtain ⟨complaint, hrun⟩ := run_of_unreadable h hreads
    exact .inl ⟨by rw [hrun], hreads⟩
  · obtain ⟨complaint, hrun⟩ := run_of_spoiled h hspoiled
    exact .inr (.inl ⟨by rw [hrun], .inl hspoiled⟩)
  · obtain ⟨complaint, hrun⟩ := run_of_crashes h hcrashes
    exact .inr (.inr (.inl ⟨by rw [hrun], hcrashes⟩))
  · have hrun := run_of_replays h hs
    obtain ⟨hcode, -, hdone⟩ | ⟨hcode, hrefused⟩ := ending_cases t a s
    · exact .inr (.inr (.inr ⟨by rw [hrun, hcode], s, hs, by rw [hrun]; exact hdone⟩))
    · exact .inr (.inl ⟨by rw [hrun, hcode], .inr ⟨s, hs, hrefused⟩⟩)

/-- The code is 2 where the trace cannot be read or is no text, 1 where it is no trace or its replay is refused or the
document is, 101 where there is no room for what the trace asks for, and 0 where it was replayed and the output is there
or was lost. -/
theorem exit_codes (t : Tree) (h : parse words = .ok a) :
    ((run t words).1.code = 2 ↔
      t.read? a.trace = none ∨ ∃ bytes, t.read? a.trace = some bytes ∧ String.fromUTF8? bytes = none) ∧
    ((run t words).1.code = 1 ↔ Spoiled t a ∨ ∃ s, Replays t a s ∧ Refused t a s) ∧
    ((run t words).1.code = 101 ↔ Crashes t a) ∧
    ((run t words).1.code = 0 ↔
      ∃ s, Replays t a s ∧ (Produced t a s (run t words).1 (run t words).2 ∨ Lost t a s)) := by
  rw [← not_reads_iff]
  have hcases := run_cases t h
  refine ⟨⟨fun hcode => ?_, fun hreads => ?_⟩, ⟨fun hcode => ?_, ?_⟩, ⟨fun hcode => ?_, fun hcrashes => ?_⟩,
    ⟨fun hcode => ?_, ?_⟩⟩
  -- Each code is given for one reason only.
  · simpa [hcode] using hcases
  · obtain ⟨complaint, hrun⟩ := run_of_unreadable h hreads
    rw [hrun]
  · simpa [hcode] using hcases
  · rintro (hspoiled | ⟨s, hs, hrefused⟩)
    · obtain ⟨complaint, hrun⟩ := run_of_spoiled h hspoiled
      rw [hrun]
    · rw [run_of_replays h hs]
      obtain ⟨-, hno, -⟩ | ⟨hone, -⟩ := ending_cases t a s
      · exact absurd hrefused hno
      · exact hone
  · simpa [hcode] using hcases
  · obtain ⟨complaint, hrun⟩ := run_of_crashes h hcrashes
    rw [hrun]
  · simpa [hcode] using hcases
  · rintro ⟨s, hs, hdone⟩
    rw [run_of_replays h hs] at hdone ⊢
    obtain ⟨hzero, -⟩ | ⟨-, hrefused⟩ := ending_cases t a s
    · exact hzero
    · obtain hproduced | hlost := hdone
      · exact absurd hproduced hrefused.not_produced
      · exact absurd hrefused hlost.not_refused

/-- The theorem at an empty trace whose summary goes to a new file. -/
theorem exit_codes_newFile :
    let words := ["t.json", "--json", "out.json"]
    let t := Tree.ofFiles [("t.json", "\x7b\x7d".toUTF8)]
    let a : Args := { trace := "t.json", json := some "out.json" }
    parse words = .ok a ∧ ∃ s, Replays t a s ∧ (Produced t a s (run t words).1 (run t words).2 ∨ Lost t a s) :=
  ⟨rfl, (exit_codes _ rfl).2.2.2.mp (by decide +kernel)⟩

/-- A file that can be read and holds no text is no trace, and yet the code is the one of a file that cannot be read. -/
theorem textless_is_unreadable :
    let words := ["t.json"]
    let t := Tree.ofFiles [("t.json", ⟨#[0xff, 0x7b, 0x7d]⟩)]
    parse words = .ok { trace := "t.json" } ∧ t.read? "t.json" = some ⟨#[0xff, 0x7b, 0x7d]⟩ ∧
      String.fromUTF8? ⟨#[0xff, 0x7b, 0x7d]⟩ = none ∧ (run t words).1.code = 2 :=
  ⟨rfl, by decide +kernel, by decide +kernel, by decide +kernel⟩

end CallGraph.CommandLine
