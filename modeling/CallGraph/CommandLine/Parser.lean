/-
  CallGraph.CommandLine.Parser — from the words of a command line to what it asks for.

  The settings of the trace hold unless the command line says otherwise: a depth replaces the
  trace's, and names of functions to skip are added to the trace's.

  Words are taken one by one. An option's value, and the trace, is held until the next option or
  flag that is known, or the trace, or the end; only then is it judged. So a word that fits nowhere
  is complained about before a bad value in front of it, and help is given only if nothing in
  front of it is wrong.
-/

import CallGraph.CommandLine.Word
import CallGraph.Config

namespace CallGraph

/-- What a command line asks for. -/
structure Args where
  /-- The file with the trace. -/
  trace : String
  contextDepth : Option UInt64 := none
  skip : List String := []
  /-- The file to write the summary to, instead of printing it. -/
  json : Option String := none
  /-- How many contexts to print. -/
  top : UInt64 := 20
  quiet : Bool := false
deriving DecidableEq

/-- The settings with one more name to skip, if it is not among them. -/
def Config.addSkip (c : Config) (name : String) : Config :=
  if c.isSkipped name then c else { c with skip := c.skip ++ [name] }

/-- The settings of a trace as the command line overrides them. -/
def Args.apply (a : Args) (c : Config) : Config :=
  a.skip.foldl Config.addSkip { c with contextDepth := a.contextDepth.or c.contextDepth }

namespace CommandLine

/-- Why a command line is not carried out. -/
inductive UsageError where
  /-- Help was asked for. -/
  | help
  | missingTrace
  /-- An option that does not exist, or a word after the trace. -/
  | unknownArgument
  /-- An option or a flag that is given once at most came again. -/
  | repeated
  /-- No value for an option, or an empty name of a file. -/
  | missingValue
  | badNumber
  /-- A value for a flag. -/
  | unexpectedValue
deriving DecidableEq

/-- The options that take a value. -/
inductive ValueOption where
  | contextDepth
  | skip
  | json
  | top
deriving DecidableEq

/-- The options that take none. -/
inductive Flag where
  | quiet
  | help
deriving DecidableEq

def ValueOption.named? (name : String) : Option ValueOption :=
  [("context-depth", .contextDepth), ("skip", .skip), ("json", .json), ("top", .top)].lookup name

def Flag.named? (name : String) : Option Flag := [("quiet", .quiet), ("help", .help)].lookup name

def Flag.lettered? (letter : Char) : Option Flag := [('q', .quiet), ('h', .help)].lookup letter

/-- What was taken in. -/
structure Draft where
  trace : Option String := none
  contextDepth : Option UInt64 := none
  skip : List String := []
  json : Option String := none
  top : Option UInt64 := none
  quiet : Bool := false
deriving DecidableEq

/-- A value for something that has none yet. -/
def once {α : Type} (before : Option α) (value : Except UsageError α) :
    Except UsageError (Option α) :=
  if before.isSome then throw .repeated else value.map some

def readNumber (s : String) : Except UsageError UInt64 :=
  match number? s with
  | none => throw .badNumber
  | some n => pure n

def readDepth (s : String) : Except UsageError UInt64 := do
  let n ← readNumber s
  if n = 0 then throw .badNumber else pure n

def readFileName (s : String) : Except UsageError String :=
  if s.isEmpty then throw .missingValue else pure s

namespace Draft

def setOption (d : Draft) (o : ValueOption) (value : String) : Except UsageError Draft :=
  match o with
  | .contextDepth => do
    let contextDepth ← once d.contextDepth (readDepth value)
    pure { d with contextDepth }
  | .skip => pure { d with skip := d.skip ++ [value] }
  | .json => do
    let json ← once d.json (readFileName value)
    pure { d with json }
  | .top => do
    let top ← once d.top (readNumber value)
    pure { d with top }

def setFlag (d : Draft) : Flag → Except UsageError Draft
  | .quiet => if d.quiet then throw .repeated else pure { d with quiet := true }
  | .help => throw .help

def setTrace (d : Draft) (name : String) : Except UsageError Draft := do
  let name ← readFileName name
  pure { d with trace := some name }

end Draft

/-- What is held until it is judged. -/
inductive Held where
  | nothing
  /-- An option whose value is the next word. -/
  | option (o : ValueOption)
  | value (o : ValueOption) (text : String)
  | trace (name : String)
deriving DecidableEq

structure Parser where
  draft : Draft := {}
  held : Held := .nothing
  /-- After the separator. -/
  ordinary : Bool := false

namespace Parser

/-- Judges what is held. -/
def settle (p : Parser) : Except UsageError Parser := do
  let draft ← match p.held with
    | .nothing => pure p.draft
    | .option _ => throw .missingValue
    | .value o text => p.draft.setOption o text
    | .trace name => p.draft.setTrace name
  pure { p with draft, held := .nothing }

def hasTrace (p : Parser) : Bool :=
  match p.held with
  | .trace _ => true
  | _ => p.draft.trace.isSome

def takeFlag (p : Parser) (f : Flag) : Except UsageError Parser := do
  let p ← p.settle
  let draft ← p.draft.setFlag f
  pure { p with draft }

def takeOption (p : Parser) (o : ValueOption) (value : Option String) :
    Except UsageError Parser := do
  let p ← p.settle
  match value with
  | none => pure { p with held := .option o }
  | some text => do
    let draft ← p.draft.setOption o text
    pure { p with draft }

def takeLong (p : Parser) (name : String) (value : Option String) : Except UsageError Parser :=
  match ValueOption.named? name, Flag.named? name, value with
  | some o, _, value => p.takeOption o value
  | none, some f, none => p.takeFlag f
  | none, some _, some _ => throw .unexpectedValue
  | none, none, _ => throw .unknownArgument

def takeLetter (p : Parser) (letter : Char) : Except UsageError Parser :=
  match Flag.lettered? letter with
  | some f => p.takeFlag f
  | none => throw .unknownArgument

/-- A word in the place of the trace. -/
def takeTrace (p : Parser) (name : String) : Except UsageError Parser :=
  if p.hasTrace then throw .unknownArgument
  else do
    let p ← p.settle
    pure { p with held := .trace name }

def takePlain (p : Parser) (text : String) : Except UsageError Parser :=
  match p.held with
  | .option o => pure { p with held := .value o text }
  | _ => p.takeTrace text

def take (p : Parser) (word : String) : Except UsageError Parser :=
  if p.ordinary then p.takeTrace word
  else
    match Word.ofString word with
    | .separator => pure { p with ordinary := true }
    | .long name value => p.takeLong name value
    | .short letters => letters.foldlM takeLetter p
    | .plain text => p.takePlain text

def finish (p : Parser) : Except UsageError Args := do
  let p ← p.settle
  let d := p.draft
  match d.trace with
  | none => throw .missingTrace
  | some trace =>
    pure
      { trace, contextDepth := d.contextDepth, skip := d.skip, json := d.json
        top := d.top.getD 20, quiet := d.quiet }

end Parser

/-- What a command line, without the name of the program, asks for. -/
def parse (words : List String) : Except UsageError Args := do
  let p ← words.foldlM Parser.take {}
  p.finish

end CommandLine
end CallGraph
