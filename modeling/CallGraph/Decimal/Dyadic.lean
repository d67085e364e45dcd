/-
  CallGraph.Decimal.Dyadic — what a double stands for, and its rounding.

  A finite double that is not negative is a natural times a power of two. All decimal output is
  computed from this value exactly. Rounding is that of binary floating point, to the nearest and
  a tie to the even neighbour, done here on naturals.
-/

namespace CallGraph.Decimal

/-- The natural nearest to `num / den`; of two equally near ones the even one. -/
def roundDiv (num den : Nat) : Nat :=
  let q := num / den
  let twice := 2 * (num % den)
  if twice < den then q
  else if den < twice then q + 1
  else if q % 2 = 0 then q else q + 1

/-- The nearest natural that is 53 bits long with zeros behind. -/
def round53 (n : Nat) : Nat :=
  if n < Nat.pow 2 53 then n
  else
    let unit := Nat.pow 2 (n.log2 - 52)
    roundDiv n unit * unit

/-- The number `significand * 2 ^ exponent`. -/
structure Dyadic where
  significand : Nat
  exponent : Int
deriving DecidableEq

namespace Dyadic

/-- The value of the double with the given bits, its sign left out. -/
def ofBits (bits : UInt64) : Dyadic :=
  let fraction : Nat := bits.toNat % Nat.pow 2 52
  let scale : Nat := bits.toNat / Nat.pow 2 52 % Nat.pow 2 11
  if scale = 0 then { significand := fraction, exponent := -1074 }
  else { significand := Nat.pow 2 52 + fraction, exponent := (scale : Int) - 1075 }

def ofFloat (x : Float) : Dyadic := ofBits x.toBits

/-- A fraction for `n * 2 ^ (exponent - 2)`, quarters of the unit in which the significand
counts. -/
def quarters (d : Dyadic) (n : Nat) : Nat × Nat :=
  match d.exponent - 2 with
  | .ofNat e => (n * Nat.pow 2 e, 1)
  | .negSucc e => (n, Nat.pow 2 (e + 1))

/-- The value as a fraction. -/
def fraction (d : Dyadic) : Nat × Nat := d.quarters (4 * d.significand)

/-- Where the numbers that are rounded to this double start, in quarters. Under a power of two the
doubles lie twice as close. -/
def lower (d : Dyadic) : Nat :=
  if d.significand = Nat.pow 2 52 ∧ -1074 < d.exponent then 4 * d.significand - 1
  else 4 * d.significand - 2

/-- Where the numbers that are rounded to this double end, in quarters. -/
def upper (d : Dyadic) : Nat := 4 * d.significand + 2

/-- Whether a fraction is rounded to this double. On the border between two doubles the one with
the even significand is taken. -/
def reads (d : Dyadic) (num den : Nat) : Bool :=
  let (low, unit) := d.quarters d.lower
  let (high, _) := d.quarters d.upper
  if d.significand % 2 = 0 then low * den ≤ num * unit && num * unit ≤ high * den
  else low * den < num * unit && num * unit < high * den

/-- The value in units of the last of `places` decimal places. -/
def inPlaces (d : Dyadic) (places : Nat) : Nat :=
  roundDiv (d.fraction.1 * Nat.pow 10 places) d.fraction.2

/-- The value with one decimal place. -/
def oneDecimal (d : Dyadic) : String :=
  let tenths := d.inPlaces 1
  let whole := tenths / 10
  let tenth := tenths % 10
  s!"{whole}.{tenth}"

end Dyadic
end CallGraph.Decimal
