/-
  CallGraph.Decimal.Shortest — the shortest decimal that reads back as a double.

  The decimals `digits * 10 ^ scale` of one scale form a grid; the higher the scale the fewer
  digits. If a grid has a point that reads back, one of the value's two neighbours on the grid
  does, so the first scale from above at which one of these reads back gives the fewest digits.
-/

import CallGraph.Decimal.Dyadic

namespace CallGraph.Decimal

/-- The number `digits * 10 ^ scale`. -/
structure Scaled where
  digits : Nat
  scale : Int
deriving DecidableEq

namespace Scaled

def fraction (s : Scaled) : Nat × Nat :=
  match s.scale with
  | .ofNat e => (s.digits * Nat.pow 10 e, 1)
  | .negSucc e => (s.digits, Nat.pow 10 (e + 1))

end Scaled

namespace Dyadic

/-- Whether a decimal reads back as this double. -/
def readsScaled (d : Dyadic) (s : Scaled) : Bool := d.reads s.fraction.1 s.fraction.2

/-- The grid point right below the value or at it. -/
def floorAt (d : Dyadic) (scale : Int) : Scaled :=
  let (num, den) := d.fraction
  match scale with
  | .ofNat e => { digits := num / (den * Nat.pow 10 e), scale }
  | .negSucc e => { digits := num * Nat.pow 10 (e + 1) / den, scale }

/-- Whether the value is nearer to the grid point above than to the one below; in the middle
the even one is taken. -/
def nearerAbove (d : Dyadic) (below : Scaled) : Bool :=
  let (num, den) := d.fraction
  -- Half of this is the middle between the two points.
  let (twice, unit) := { below with digits := 2 * below.digits + 1 : Scaled }.fraction
  let value := 2 * num * unit
  let middle := twice * den
  middle < value || (middle = value && below.digits % 2 = 1)

/-- The nearest of the value's neighbours at a scale that reads back. -/
def hitAt (d : Dyadic) (scale : Int) : Option Scaled :=
  let below := d.floorAt scale
  let above : Scaled := { below with digits := below.digits + 1 }
  let order := if d.nearerAbove below then [above, below] else [below, above]
  order.find? d.readsScaled

/-- The neighbour found `i` scales under `top`. -/
def hitUnder (d : Dyadic) (top : Int) (i : Nat) : Option Scaled := d.hitAt (top - i)

/-- The double written out: it has no more decimal places than binary ones. -/
def exact (d : Dyadic) : Scaled :=
  match d.exponent with
  | .ofNat e => { digits := d.significand * Nat.pow 2 e, scale := 0 }
  | .negSucc e => { digits := d.significand * Nat.pow 5 (e + 1), scale := .negSucc e }

/-- The shortest decimal that reads back as the double, and the nearest of these. -/
def shortest (d : Dyadic) : Scaled :=
  if d.significand = 0 then { digits := 0, scale := 0 }
  else
    let top : Int := (Nat.toDigits 10 (d.fraction.1 / d.fraction.2)).length
    ((List.range (top + 1075).toNat).findSome? (d.hitUnder top)).getD d.exact

end Dyadic
end CallGraph.Decimal
