/-
  CallGraph.Json.Value — JSON documents as values.

  A value keeps what a strict reader has to judge: a number is kept as it is spelled, and an object
  keeps its fields in order, repeated ones too. A string is `none` when its escapes name half of a
  surrogate pair and so stand for no text.
-/

namespace CallGraph

/-- A number in decimal notation, digit by digit. -/
structure Numeral where
  negative : Bool := false
  whole : Nat
  /-- The digits after the point; without digits there is no point. -/
  fraction : List Char := []
  exponent : Option Int := none
deriving DecidableEq

inductive Json where
  | null
  | bool (b : Bool)
  | number (n : Numeral)
  | string (s : Option String)
  | array (items : List Json)
  | object (fields : List (Option String × Json))

namespace Numeral

def ofNat (n : Nat) : Numeral := { whole := n }

def ofInt (i : Int) : Numeral := { negative := i < 0, whole := i.natAbs }

/-- The integer that is spelled as one: without point and exponent, and zero without a sign. -/
def int? (n : Numeral) : Option Int :=
  match n with
  | ⟨false, whole, [], none⟩ => some whole
  | ⟨true, whole, [], none⟩ => if whole = 0 then none else some (-whole)
  | _ => none

end Numeral

namespace Json

def ofNat (n : Nat) : Json := .number (.ofNat n)

def ofInt (i : Int) : Json := .number (.ofInt i)

def ofString (s : String) : Json := .string (some s)

def ofOption {α : Type} (f : α → Json) : Option α → Json
  | none => .null
  | some x => f x

def ofList {α : Type} (f : α → Json) (xs : List α) : Json := .array (xs.map f)

/-- An object with the given fields. -/
def record (fields : List (String × Json)) : Json :=
  .object (fields.map fun (k, v) => (some k, v))

end Json
end CallGraph
