/-
  CallGraph.Json.Writer — JSON values as text, on one line or indented by two blanks a level.

  In strings the quote, the backslash and the control characters are escaped and all else stands
  for itself. Writing goes from the end of the text to its start: each function puts its part in
  front of what follows.
-/

import CallGraph.Json.Value

namespace CallGraph

/-- The digits of a number, then what follows. -/
def writeNat (n : Nat) (rest : List Char) : List Char := Nat.toDigits 10 n ++ rest

namespace Numeral

def write (n : Numeral) (rest : List Char) : List Char :=
  let rest :=
    match n.exponent with
    | none => rest
    | some (.ofNat e) => 'e' :: writeNat e rest
    | some (.negSucc e) => 'e' :: '-' :: writeNat (e + 1) rest
  let rest := if n.fraction.isEmpty then rest else '.' :: (n.fraction ++ rest)
  let rest := writeNat n.whole rest
  if n.negative then '-' :: rest else rest

end Numeral

namespace Json

def hexDigit (n : Nat) : Char := if n < 10 then Char.ofNat (48 + n) else Char.ofNat (87 + n)

/-- One character of a string. -/
def writeChar (c : Char) (rest : List Char) : List Char :=
  match c with
  | '"' => '\\' :: '"' :: rest
  | '\\' => '\\' :: '\\' :: rest
  | '\x08' => '\\' :: 'b' :: rest
  | '\x0c' => '\\' :: 'f' :: rest
  | '\n' => '\\' :: 'n' :: rest
  | '\r' => '\\' :: 'r' :: rest
  | '\t' => '\\' :: 't' :: rest
  | c =>
    if c < ' ' then
      '\\' :: 'u' :: '0' :: '0' :: hexDigit (c.toNat / 16) :: hexDigit (c.toNat % 16) :: rest
    else c :: rest

/-- A string in quotes. One that is no text is written as half of a surrogate pair. -/
def writeString (s : Option String) (rest : List Char) : List Char :=
  match s with
  | some s => '"' :: s.toList.foldr writeChar ('"' :: rest)
  | none => '"' :: '\\' :: 'u' :: 'd' :: '8' :: '0' :: '0' :: '"' :: rest

def writeBool (b : Bool) (rest : List Char) : List Char :=
  if b then 't' :: 'r' :: 'u' :: 'e' :: rest else 'f' :: 'a' :: 'l' :: 's' :: 'e' :: rest

mutual

/-- A value on one line. -/
def write : Json → List Char → List Char
  | .null, rest => 'n' :: 'u' :: 'l' :: 'l' :: rest
  | .bool b, rest => writeBool b rest
  | .number n, rest => n.write rest
  | .string s, rest => writeString s rest
  | .array items, rest => '[' :: writeItems items (']' :: rest)
  | .object fields, rest => '\x7b' :: writeFields fields ('\x7d' :: rest)

def writeItems : List Json → List Char → List Char
  | [], rest => rest
  | [j], rest => write j rest
  | j :: js, rest => write j (',' :: writeItems js rest)

def writeFields : List (Option String × Json) → List Char → List Char
  | [], rest => rest
  | [(k, j)], rest => writeString k (':' :: write j rest)
  | (k, j) :: fs, rest => writeString k (':' :: write j (',' :: writeFields fs rest))

end

def render (j : Json) : String := String.ofList (write j [])

/-- A new line at a level of indentation. -/
def writeIndent (level : Nat) (rest : List Char) : List Char :=
  '\n' :: (List.replicate (2 * level) ' ' ++ rest)

mutual

/-- A value over several lines, whose first line is already indented to a level. -/
def writePretty : Json → Nat → List Char → List Char
  | .null, _, rest => 'n' :: 'u' :: 'l' :: 'l' :: rest
  | .bool b, _, rest => writeBool b rest
  | .number n, _, rest => n.write rest
  | .string s, _, rest => writeString s rest
  | .array [], _, rest => '[' :: ']' :: rest
  | .array (j :: js), level, rest =>
    '[' :: writeIndent (level + 1) (writePretty j (level + 1)
      (writeMoreItems js (level + 1) (writeIndent level (']' :: rest))))
  | .object [], _, rest => '\x7b' :: '\x7d' :: rest
  | .object ((k, j) :: fs), level, rest =>
    '\x7b' :: writeIndent (level + 1) (writeString k (':' :: ' ' :: writePretty j (level + 1)
      (writeMoreFields fs (level + 1) (writeIndent level ('\x7d' :: rest)))))

def writeMoreItems : List Json → Nat → List Char → List Char
  | [], _, rest => rest
  | j :: js, level, rest =>
    ',' :: writeIndent level (writePretty j level (writeMoreItems js level rest))

def writeMoreFields : List (Option String × Json) → Nat → List Char → List Char
  | [], _, rest => rest
  | (k, j) :: fs, level, rest =>
    ',' :: writeIndent level (writeString k (':' :: ' ' :: writePretty j level
      (writeMoreFields fs level rest)))

end

def renderPretty (j : Json) : String := String.ofList (writePretty j 0 [])

end Json
end CallGraph
