/-
  CallGraph.Json.Range — which values can be held whole before it is known what they are for.

  To hold a value, its strings have to be text, its numbers have to have a finite double, and
  it may be nested to a limited depth only. The double of a long number is that of its leading
  digits, as many as fit into 64 bits, times a power of ten.
-/

import CallGraph.Decimal.Dyadic
import CallGraph.Json.Value

namespace CallGraph

namespace Numeral

/-- The leading digits that fit into 64 bits, after `lead`, and how many digits were taken. -/
def leading (lead taken : Nat) : List Char → Nat × Nat
  | [] => (lead, taken)
  | c :: cs =>
    let next := lead * 10 + (c.toNat - '0'.toNat)
    if next < UInt64.size then leading next (taken + 1) cs else (lead, taken)

/-- Whether `lead` times ten to the `scale` stays below the largest double. Both factors are
rounded first, and so is the product. -/
def productFinite (lead : Nat) (scale : Int) : Bool :=
  lead = 0 || scale ≤ 0 ||
    (scale ≤ 308 &&
      Decimal.round53 lead * Decimal.round53 (Nat.pow 10 scale.toNat) < Nat.pow 2 1024 - Nat.pow 2 970)

def isFinite (n : Numeral) : Bool :=
  let digits := Nat.toDigits 10 n.whole
  let (lead, taken) := leading 0 0 digits
  let (lead, places) := leading lead 0 n.fraction
  productFinite lead ((digits.length - taken : Nat) - (places : Int) + n.exponent.getD 0)

end Numeral

namespace Json

mutual

/-- Whether a value can be held, where arrays and objects may be nested `levels` deep. -/
def canHold : Nat → Json → Bool
  | _, .null => true
  | _, .bool _ => true
  | _, .number n => n.isFinite
  | _, .string s => s.isSome
  | 0, .array _ => false
  | levels + 1, .array items => canHoldItems levels items
  | 0, .object _ => false
  | levels + 1, .object fields => canHoldFields levels fields

def canHoldItems : Nat → List Json → Bool
  | _, [] => true
  | levels, j :: js => canHold levels j && canHoldItems levels js

def canHoldFields : Nat → List (Option String × Json) → Bool
  | _, [] => true
  | levels, (k, j) :: fs => k.isSome && canHold levels j && canHoldFields levels fs

end

end Json
end CallGraph
