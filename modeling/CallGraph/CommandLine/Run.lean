/-
  CallGraph.CommandLine.Run — what the command does for a command line.

  `conclude` decides everything from the command line and from what the trace's file holds; nothing
  is written before that. Reading the wrong file is a usage problem, a bad trace in it is not: the
  exit codes tell them apart, and a crash has a code of its own. `run` carries out on a tree of files
  what the command concludes. The tree changes only when the trace was played to its end, and then
  only in the file that is named for the summary. The output is taken to accept all that is printed.
-/

import CallGraph.CommandLine.Parser
import CallGraph.Files.System
import CallGraph.Replay.Run
import CallGraph.Report.Document
import CallGraph.Report.Table
import CallGraph.Trace.Decode

namespace CallGraph.CommandLine

/-- What is left to do. -/
inductive Conclusion where
  | badUsage (error : UsageError)
  /-- The trace's file is not there, cannot be read or is no text. -/
  | unreadable (path : String)
  /-- The text is no trace. -/
  | malformed (path : String)
  /-- The trace cannot be played. -/
  | unplayable (error : ReplayError)
  | print (text : String)
  /-- Write a document to a file, and then say so. -/
  | save (path document notice : String)
deriving DecidableEq

/-- What a summary is turned into. -/
def Conclusion.ofSummary (a : Args) (s : Summary) : Conclusion :=
  match a.json with
  | some path => .save path s.document (if a.quiet then "" else s!"Summary written to {path}\n")
  | none => .print (if a.quiet then "" else s.table a.top.toNat)

/-- Plays the trace in a text. -/
def Conclusion.ofText (a : Args) (text : String) : Conclusion :=
  match Trace.parse? text with
  | none => .malformed a.trace
  | some trace =>
    match trace.replay (a.apply trace.config) with
    | .error e => .unplayable e
    | .ok s => .ofSummary a s

/-- What the command comes to for its words, where `read` gives the bytes of a file. -/
def conclude (words : List String) (read : String → Option ByteArray) : Conclusion :=
  match parse words with
  | .error e => .badUsage e
  | .ok a =>
    match (read a.trace).bind String.fromUTF8? with
    | none => .unreadable a.trace
    | some text => .ofText a text

/-- What the command shows of itself, and the code it ends with. -/
structure Outcome where
  code : UInt8
  output : String := ""
  complaint : String := ""
deriving DecidableEq

def helpText : String :=
  "Rebuild the call graph of a recorded basic-block trace

Usage: callgraph [OPTIONS] <TRACE>

Arguments:
  <TRACE>  Trace file to replay

Options:
      --context-depth <N>  Maximum number of functions keying a context (default: whole chain)
      --skip <FN>          Roll the cost of calls into FN up into the caller (repeatable)
      --json <FILE>        Write the summary as JSON instead of printing it
      --top <TOP>          Number of contexts to print [default: 20]
  -q, --quiet              Suppress non-essential output
  -h, --help               Print help
"

def UsageError.message : UsageError → String
  | .help => "help was asked for"
  | .missingTrace => "the trace file is missing"
  | .unknownArgument => "unexpected argument"
  | .repeated => "an argument cannot be used multiple times"
  | .missingValue => "a value is required"
  | .badNumber => "invalid number"
  | .unexpectedValue => "unexpected value"

def UsageError.outcome : UsageError → Outcome
  | .help => { code := 0, output := helpText }
  | e => { code := 2, complaint := s!"error: {e.message}\n" }

/-- How the command ends on a trace that cannot be played. A fault is a crash. -/
def unplayed (e : ReplayError) : Outcome :=
  match e with
  | .fault f =>
    let text := f.message.getD "index or capacity out of range"
    { code := 101, complaint := s!"panicked: {text}\n" }
  | _ =>
    let text := e.message.getD ""
    { code := 1, complaint := s!"error: {text}\n" }

/-- What became of a document that was to be written to a file. -/
inductive Delivery where
  | written
  /-- The file is a channel of the command. -/
  | shown (c : Files.Channel)
  | notCreated
  /-- The file did not take the document. -/
  | broken (reason : String)
deriving DecidableEq

/-- How many bytes are collected before they go out to a file. -/
def bufferSize : Nat := 8192

/-- What became of a document that a file refused. What is left in the buffer at the end goes out
unobserved, so the refusal shows only if the document does not fit into the buffer. -/
def Delivery.ofFailure (document reason : String) : Delivery :=
  if document.utf8ByteSize ≤ bufferSize then .written else .broken reason

/-- How the command ends that was to write a document and then a notice. -/
def Delivery.outcome (path document notice : String) : Delivery → Outcome
  | .written => { code := 0, output := notice }
  | .shown .input => { code := 0, output := notice }
  | .shown .output => { code := 0, output := document ++ notice }
  | .shown .error => { code := 0, output := notice, complaint := document }
  | .notCreated => { code := 1, complaint := s!"error: Failed to create {path}\n" }
  | .broken reason => { code := 1, complaint := s!"error: {reason}\n" }

/-- How the command ends, where `deliver` writes a document to a file. -/
def Conclusion.outcome {m : Type → Type} [Monad m] (deliver : String → String → m Delivery) :
    Conclusion → m Outcome
  | .badUsage e => pure e.outcome
  | .unreadable path => pure { code := 2, complaint := s!"error: Failed to load trace {path}\n" }
  | .malformed path =>
    pure
      { code := 1
        complaint := s!"error: Failed to load trace {path}: Failed to parse trace file\n" }
  | .unplayable e => pure (unplayed e)
  | .print text => pure { code := 0, output := text }
  | .save path document notice => do
    let d ← deliver path document
    pure (d.outcome path document notice)

/-- Writes a document to where a path leads. A file is made or emptied first, also where it takes
nothing then. -/
def deliver (path document : String) : StateM Files.Tree Delivery := fun t =>
  match t.target? path with
  | none => (.notCreated, t)
  | some (.file place) =>
    if t.full place then (Delivery.ofFailure document Files.noSpace, t.put place .empty)
    else (.written, t.put place document.toUTF8)
  | some (.channel c) => (.shown c, t)
  | some .sink => (.written, t)
  | some (.refusing reason) => (Delivery.ofFailure document reason, t)

/-- Runs the command. -/
def run (t : Files.Tree) (words : List String) : Outcome × Files.Tree :=
  (conclude words t.read?).outcome deliver t

end CallGraph.CommandLine
