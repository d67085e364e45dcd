/-
  CallGraph.Json.Reader — from the words of a JSON text to its value.

  The reader, too, is fed word after word. It keeps the arrays and objects that are open, so it
  needs no recursion and takes values nested to any depth. Commas stand between items only, and
  nothing may follow the value.
-/

import CallGraph.Json.Token

namespace CallGraph.Json

/-- An open array or object, waiting for a value. -/
inductive Level where
  /-- The items before, the last in front. -/
  | array (items : List Json)
  /-- The fields before, the last in front, and the key of the value. -/
  | object (fields : List (Option String × Json)) (key : Option String)

inductive Reader where
  | value (outer : List Level)
  /-- After an opening bracket. -/
  | firstItem (outer : List Level)
  /-- After an opening brace. -/
  | firstField (outer : List Level)
  | afterItem (items : List Json) (outer : List Level)
  | afterField (fields : List (Option String × Json)) (outer : List Level)
  | key (fields : List (Option String × Json)) (outer : List Level)
  | colon (fields : List (Option String × Json)) (key : Option String) (outer : List Level)
  | done (j : Json)

namespace Reader

/-- Puts a finished value where it belongs. -/
def place (j : Json) : List Level → Reader
  | [] => .done j
  | .array items :: outer => .afterItem (j :: items) outer
  | .object fields k :: outer => .afterField ((k, j) :: fields) outer

/-- The first word of a value. -/
def start (outer : List Level) : Token → Option Reader
  | .openArray => some (.firstItem outer)
  | .openObject => some (.firstField outer)
  | .null => some (place .null outer)
  | .bool b => some (place (.bool b) outer)
  | .number n => some (place (.number n) outer)
  | .string s => some (place (.string s) outer)
  | .closeArray | .closeObject | .comma | .colon => none

def feed : Reader → Token → Option Reader
  | .value outer, t => start outer t
  | .firstItem outer, .closeArray => some (place (.array []) outer)
  | .firstItem outer, t => start (.array [] :: outer) t
  | .firstField outer, .closeObject => some (place (.object []) outer)
  | .firstField outer, .string k => some (.colon [] k outer)
  | .afterItem items outer, .comma => some (.value (.array items :: outer))
  | .afterItem items outer, .closeArray => some (place (.array items.reverse) outer)
  | .afterField fields outer, .comma => some (.key fields outer)
  | .afterField fields outer, .closeObject => some (place (.object fields.reverse) outer)
  | .key fields outer, .string k => some (.colon fields k outer)
  | .colon fields k outer, .colon => some (.value (.object fields k :: outer))
  | _, _ => none

end Reader

def ofTokens? (tokens : List Token) : Option Json :=
  match tokens.foldlM Reader.feed (.value []) with
  | some (.done j) => some j
  | _ => none

/-- Reads a text that holds one value. -/
def parse? (text : String) : Option Json := (lex text.toList).bind ofTokens?

end CallGraph.Json
