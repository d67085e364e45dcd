/-
  CallGraph.CommandLine.Word — what the words of a command line look like.

  The look of a word does not depend on the options that there are. A single dash is an ordinary
  word, so that it can name a file.
-/

namespace CallGraph.CommandLine

inductive Word where
  /-- Two dashes alone: all words after them are ordinary. -/
  | separator
  /-- Two dashes, a name, and perhaps a value behind an equals sign. -/
  | long (name : String) (value : Option String)
  /-- One dash and letters. -/
  | short (letters : List Char)
  | plain (text : String)
deriving DecidableEq

/-- A name and what stands behind the first equals sign. -/
def splitValue (cs : List Char) : String × Option String :=
  let name := cs.takeWhile fun c => c ≠ '='
  match cs.drop name.length with
  | [] => (String.ofList name, none)
  | _ :: value => (String.ofList name, some (String.ofList value))

def Word.ofString (s : String) : Word :=
  match s.toList with
  | ['-', '-'] => .separator
  | '-' :: '-' :: cs =>
    let (name, value) := splitValue cs
    .long name value
  | '-' :: c :: cs => .short (c :: cs)
  | _ => .plain s

/-- The number below 2^64 that a word spells in decimal, perhaps behind a plus sign. -/
def number? (s : String) : Option UInt64 :=
  let digits := match s.toList with
    | '+' :: cs => cs
    | cs => cs
  if digits.isEmpty || !digits.all Char.isDigit then none
  else
    let n := digits.foldl (fun n c => n * 10 + (c.toNat - '0'.toNat)) 0
    if n < UInt64.size then some (UInt64.ofNat n) else none

end CallGraph.CommandLine
