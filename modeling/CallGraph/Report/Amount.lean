/-
  CallGraph.Report.Amount — how the amounts of a report are spelled.

  In a document an amount is the shortest decimal that reads back as the same double; it always
  shows a point, or else an exponent. It is written out from 10^-5 up to 10^16. In a table an
  amount has one decimal place.
-/

import CallGraph.Decimal.Shortest
import CallGraph.Json.Value

namespace CallGraph

/-- The spelling of a decimal. -/
def Numeral.ofScaled (s : Decimal.Scaled) : Numeral :=
  let digits := Nat.toDigits 10 s.digits
  -- How many digits stand in front of the point.
  let point : Int := digits.length + s.scale
  if 0 ≤ s.scale ∧ point ≤ 16 then
    { whole := s.digits * Nat.pow 10 s.scale.toNat, fraction := ['0'] }
  else if 0 < point ∧ point ≤ 16 then
    { whole := s.digits / Nat.pow 10 (-s.scale).toNat, fraction := digits.drop point.toNat }
  else if -5 < point ∧ point ≤ 0 then
    { whole := 0, fraction := List.replicate (-point).toNat '0' ++ digits }
  else
    { whole := s.digits / Nat.pow 10 (digits.length - 1)
      fraction := digits.drop 1
      exponent := some (point - 1) }

namespace Report

/-- An amount in a document. -/
def amount (x : Float) : Json := .number (.ofScaled (Decimal.Dyadic.ofFloat x).shortest)

/-- An amount in a table. -/
def tableAmount (x : Float) : String := (Decimal.Dyadic.ofFloat x).oneDecimal

end Report
end CallGraph
