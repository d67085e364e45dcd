/-
  CallGraph.Json.Decode — from JSON values to the values they describe.

  A decoder answers `none` for what it does not accept. A record is written as an object, in which
  other fields are ignored and a field may not come twice, or as the array of its fields in their
  order, of which the last ones may be missing. Integers are spelled as integers and lie in their
  range; `null` stands for nothing else than an absent value.
-/

import CallGraph.Json.Value

namespace CallGraph.Json

def nat? (bound : Nat) : Json → Option Nat
  | .number n =>
    match n.int? with
    | some (.ofNat i) => if i < bound then some i else none
    | _ => none
  | _ => none

def uint32? (j : Json) : Option UInt32 := (j.nat? UInt32.size).map UInt32.ofNat

def uint64? (j : Json) : Option UInt64 := (j.nat? UInt64.size).map UInt64.ofNat

def int32? : Json → Option Int32
  | .number n =>
    match n.int? with
    | some i => if Int32.minValue.toInt ≤ i ∧ i ≤ Int32.maxValue.toInt then some (Int32.ofInt i) else none
    | none => none
  | _ => none

def bool? : Json → Option Bool
  | .bool b => some b
  | _ => none

def text? : Json → Option String
  | .string s => s
  | _ => none

def list? {α : Type} (item : Json → Option α) : Json → Option (List α)
  | .array items => items.mapM item
  | _ => none

/-- A value that may be absent. -/
def nullable? {α : Type} (value : Json → Option α) : Json → Option (Option α)
  | .null => some none
  | j => (value j).map some

/-- One of several names; the name may also be the only key of an object, over `null`. -/
def choice? {α : Type} (names : List (String × α)) : Json → Option α
  | .string (some s) => names.lookup s
  | .object [(some s, .null)] => names.lookup s
  | _ => none

/-! ## Records -/

/-- The value of a field; `none` if it comes twice, `some none` if it is not there. -/
def field? (fields : List (Option String × Json)) (name : String) : Option (Option Json) :=
  match fields.filter fun f => f.1 = some name with
  | [] => some none
  | [f] => some (some f.2)
  | _ => none

/-- The values of the named fields of an object, in the order of the names. -/
def fieldsOf? (names : List String) (fields : List (Option String × Json)) :
    Option (List (Option Json)) :=
  if fields.all (·.1.isSome) then names.mapM (field? fields) else none

/-- The values of the named fields where they are listed in order. -/
def fieldsInOrder? (names : List String) (items : List Json) : Option (List (Option Json)) :=
  if items.length ≤ names.length then
    some (items.map some ++ List.replicate (names.length - items.length) none)
  else none

def record? (names : List String) : Json → Option (List (Option Json))
  | .object fields => fieldsOf? names fields
  | .array items => fieldsInOrder? names items
  | _ => none

/-- The value of a field that has to be there. -/
def required {α : Type} (value : Json → Option α) (field : Option Json) : Option α :=
  field.bind value

/-- The value of a field, or what holds if it is not there. -/
def withDefault {α : Type} (default : α) (value : Json → Option α) (field : Option Json) :
    Option α :=
  match field with
  | none => some default
  | some j => value j

end CallGraph.Json
