/-
  CallGraph.Json.Token — the words of a JSON text.

  The lexer is a machine that is fed one character after the other. Blanks are the space, the
  tab and the two line ends; control characters do not stand in strings; a number has no leading
  zeros, and digits on both sides of its point. Two escapes that name the halves of a surrogate
  pair stand for one character, and half a pair alone makes the string no text.
-/

import CallGraph.Json.Value

namespace CallGraph.Json

inductive Token where
  | openArray
  | closeArray
  | openObject
  | closeObject
  | comma
  | colon
  | null
  | bool (b : Bool)
  | number (n : Numeral)
  | string (s : Option String)
deriving DecidableEq

/-! ## Strings -/

/-- What was read of a string: its characters, the last in front. -/
structure PartialString where
  chars : List Char := []
  /-- The first half of a surrogate pair whose second half has to come next. -/
  high : Option Nat := none
  /-- Half a pair stood alone. -/
  broken : Bool := false
deriving DecidableEq

namespace PartialString

def push (s : PartialString) (c : Char) : PartialString :=
  { chars := c :: s.chars, broken := s.broken || s.high.isSome }

/-- Takes a 16-bit unit in. -/
def pushUnit (s : PartialString) (u : Nat) : PartialString :=
  if 0xD800 ≤ u ∧ u < 0xDC00 then
    { s with high := some u, broken := s.broken || s.high.isSome }
  else if 0xDC00 ≤ u ∧ u < 0xE000 then
    match s.high with
    | some h =>
      { s with
        chars := Char.ofNat (0x10000 + (h - 0xD800) * 0x400 + (u - 0xDC00)) :: s.chars
        high := none }
    | none => { s with broken := true }
  else s.push (Char.ofNat u)

def finish (s : PartialString) : Option String :=
  if s.broken || s.high.isSome then none else some (String.ofList s.chars.reverse)

end PartialString

/-- The character that a short escape stands for. -/
def unescape (c : Char) : Option Char :=
  match c with
  | '"' => some '"'
  | '\\' => some '\\'
  | '/' => some '/'
  | 'b' => some '\x08'
  | 'f' => some '\x0c'
  | 'n' => some '\n'
  | 'r' => some '\r'
  | 't' => some '\t'
  | _ => none

def hexValue (c : Char) : Option Nat :=
  if '0' ≤ c ∧ c ≤ '9' then some (c.toNat - '0'.toNat)
  else if 'a' ≤ c ∧ c ≤ 'f' then some (c.toNat - 'a'.toNat + 10)
  else if 'A' ≤ c ∧ c ≤ 'F' then some (c.toNat - 'A'.toNat + 10)
  else none

/-! ## Numbers -/

/-- Which part of a number was read last. -/
inductive NumeralPart where
  | sign
  | zero
  | whole
  | point
  | fraction
  | mark
  | markSign
  | exponent
deriving DecidableEq

structure PartialNumeral where
  part : NumeralPart
  negative : Bool := false
  whole : Nat := 0
  /-- The digits after the point, the last in front. -/
  fraction : List Char := []
  exponentNegative : Bool := false
  exponent : Nat := 0
deriving DecidableEq

def digitValue (c : Char) : Nat := c.toNat - '0'.toNat

namespace PartialNumeral

def exponentDigit? (n : PartialNumeral) (c : Char) : Option PartialNumeral :=
  if c.isDigit then some { n with part := .exponent, exponent := n.exponent * 10 + digitValue c }
  else none

def mark? (n : PartialNumeral) (c : Char) : Option PartialNumeral :=
  if c = 'e' ∨ c = 'E' then some { n with part := .mark } else none

def point? (n : PartialNumeral) (c : Char) : Option PartialNumeral :=
  if c = '.' then some { n with part := .point } else n.mark? c

/-- The number with one character more, if the character goes on with it. -/
def push? (n : PartialNumeral) (c : Char) : Option PartialNumeral :=
  match n.part with
  | .sign =>
    if c = '0' then some { n with part := .zero }
    else if c.isDigit then some { n with part := .whole, whole := digitValue c }
    else none
  | .zero => n.point? c
  | .whole => if c.isDigit then some { n with whole := n.whole * 10 + digitValue c } else n.point? c
  | .point => if c.isDigit then some { n with part := .fraction, fraction := [c] } else none
  | .fraction => if c.isDigit then some { n with fraction := c :: n.fraction } else n.mark? c
  | .mark =>
    if c = '+' then some { n with part := .markSign }
    else if c = '-' then some { n with part := .markSign, exponentNegative := true }
    else n.exponentDigit? c
  | .markSign => n.exponentDigit? c
  | .exponent => n.exponentDigit? c

/-- The number, if it may end here. -/
def finish? (n : PartialNumeral) : Option Numeral :=
  let spelled : Numeral :=
    { negative := n.negative, whole := n.whole, fraction := n.fraction.reverse }
  match n.part with
  | .zero | .whole | .fraction => some spelled
  | .exponent =>
    let e : Int := n.exponent
    some { spelled with exponent := some (if n.exponentNegative then -e else e) }
  | _ => none

end PartialNumeral

/-! ## The lexer -/

inductive LexMode where
  | between
  /-- Inside `null`, `true` or `false`: the letters that have to come. -/
  | word (rest : List Char) (token : Token)
  | string (s : PartialString)
  /-- After a backslash. -/
  | escape (s : PartialString)
  /-- Inside a `\u` escape: how many hexadecimal digits are missing, and their value so far. -/
  | unit (s : PartialString) (missing : Nat) (value : Nat)
  | number (n : PartialNumeral)
deriving DecidableEq

structure Lexer where
  /-- The tokens read, the last in front. -/
  tokens : List Token := []
  mode : LexMode := .between
deriving DecidableEq

namespace Lexer

def isBlank (c : Char) : Bool := c = ' ' || c = '\t' || c = '\n' || c = '\r'

def emit (l : Lexer) (t : Token) : Lexer := { tokens := t :: l.tokens }

/-- A character between two tokens. -/
def start (l : Lexer) (c : Char) : Option Lexer :=
  if isBlank c then some { l with mode := .between }
  else if c.isDigit then
    some { l with
           mode := .number { part := if c = '0' then .zero else .whole, whole := digitValue c } }
  else
    match c with
    | '[' => some (l.emit .openArray)
    | ']' => some (l.emit .closeArray)
    | '\x7b' => some (l.emit .openObject)
    | '\x7d' => some (l.emit .closeObject)
    | ',' => some (l.emit .comma)
    | ':' => some (l.emit .colon)
    | '"' => some { l with mode := .string {} }
    | '-' => some { l with mode := .number { part := .sign, negative := true } }
    | 'n' => some { l with mode := .word ['u', 'l', 'l'] .null }
    | 't' => some { l with mode := .word ['r', 'u', 'e'] (.bool true) }
    | 'f' => some { l with mode := .word ['a', 'l', 's', 'e'] (.bool false) }
    | _ => none

def feed (l : Lexer) (c : Char) : Option Lexer :=
  match l.mode with
  | .between => l.start c
  | .word [] _ => none
  | .word (d :: rest) token =>
    if c = d then
      some (if rest.isEmpty then l.emit token else { l with mode := .word rest token })
    else none
  | .string s =>
    if c = '"' then some (l.emit (.string s.finish))
    else if c = '\\' then some { l with mode := .escape s }
    else if c < ' ' then none
    else some { l with mode := .string (s.push c) }
  | .escape s =>
    if c = 'u' then some { l with mode := .unit s 4 0 }
    else (unescape c).map fun d => { l with mode := .string (s.push d) }
  | .unit s missing value =>
    (hexValue c).map fun d =>
      let value := value * 16 + d
      { l with
        mode := if missing ≤ 1 then .string (s.pushUnit value) else .unit s (missing - 1) value }
  | .number n =>
    match n.push? c with
    | some n => some { l with mode := .number n }
    | none => n.finish?.bind fun spelled => (l.emit (.number spelled)).start c

/-- The tokens read, if the text may end here. -/
def finish (l : Lexer) : Option (List Token) :=
  match l.mode with
  | .between => some l.tokens.reverse
  | .number n => n.finish?.map fun spelled => (l.emit (.number spelled)).tokens.reverse
  | _ => none

end Lexer

def lex (text : List Char) : Option (List Token) := (text.foldlM Lexer.feed {}).bind Lexer.finish

end CallGraph.Json
