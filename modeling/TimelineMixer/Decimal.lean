/-!
# Decimal text of samples

The shortest decimal that stands for a 32-bit float: among the decimals inside the interval of
numbers that round to the float, one on the coarsest power-of-ten grid, and of those the nearest.
`Decimal.text` writes it positionally, without an exponent and without a trailing zero.
-/

set_option autoImplicit false
set_option relaxedAutoImplicit false

namespace TimelineMixer

/-- A decimal number: `digits * 10 ^ exponent`. -/
structure Decimal where
  digits : Nat
  exponent : Int
  deriving DecidableEq, Repr

namespace Decimal

/-- Ten to an integral power. -/
def power (exponent : Int) : Rat :=
  if exponent < 0 then mkRat 1 (Nat.pow 10 exponent.natAbs) else Nat.pow 10 exponent.natAbs

/-- The exact value. -/
def value (d : Decimal) : Rat :=
  d.digits * power d.exponent

/-- A nonnegative number and the interval of the numbers that are stored as it. -/
structure Target where
  exact : Rat
  low : Rat
  high : Rat
  /-- The ends belong to the interval. -/
  closed : Bool

/-- A decimal lies in the interval. -/
def Target.admits (t : Target) (d : Decimal) : Bool :=
  if t.closed then decide (t.low ≤ d.value ∧ d.value ≤ t.high)
  else decide (t.low < d.value ∧ d.value < t.high)

/-- The admitted neighbour of the exact value on one grid, the nearer if both are admitted. -/
def Target.onGrid (t : Target) (exponent : Int) : Option Decimal :=
  let below : Decimal := ⟨(t.exact / power exponent).floor.toNat, exponent⟩
  let above : Decimal := ⟨below.digits + 1, exponent⟩
  if t.admits below then
    if t.admits above ∧ above.value - t.exact < t.exact - below.value then some above
    else some below
  else if t.admits above then some above
  else none

/-- The first grid with an admitted neighbour, going from coarse to fine. -/
def Target.shortest (t : Target) (coarsest : Int) (grids : Nat) : Decimal :=
  ((List.range grids).findSome? fun (i : Nat) ↦ t.onGrid (coarsest - i)).getD ⟨0, 0⟩

/-- The decimal digits of a number. -/
def digitChars (n : Nat) : List Char :=
  (toString n).toList

/-- Positional notation: zeros fill up to the point on either side. -/
def text (d : Decimal) : String :=
  let row := digitChars d.digits
  let point := row.length + d.exponent
  if 0 ≤ d.exponent then
    String.ofList (row ++ List.replicate d.exponent.toNat '0')
  else if 0 < point then
    String.ofList (row.take point.toNat ++ '.' :: row.drop point.toNat)
  else
    String.ofList ('0' :: '.' :: List.replicate (-point).toNat '0' ++ row)

end Decimal

/-! ### 32-bit floats -/

namespace Single

/-- Two to an integral power. -/
def power (exponent : Int) : Rat :=
  if exponent < 0 then mkRat 1 (Nat.pow 2 exponent.natAbs) else Nat.pow 2 exponent.natAbs

/-- The magnitude of a finite float as `significand * 2 ^ exponent`. -/
def parts (x : Float32) : Nat × Int :=
  let bits : Nat := x.toBits.toNat
  let fraction : Nat := bits % 8388608
  let biased : Nat := bits / 8388608 % 256
  if biased = 0 then (fraction, -149) else (8388608 + fraction, (biased : Int) - 150)

/-- The magnitude of a finite float with the interval that rounds to it. The interval is narrower
below a power of two, and has its ends if the significand is even. -/
def target (x : Float32) : Decimal.Target :=
  let (significand, exponent) := parts x
  let unit := power (exponent - 2)
  let below : Nat := if significand = 8388608 ∧ -149 < exponent then 1 else 2
  { exact := (4 * significand : Nat) * unit
    low := (4 * significand - below : Nat) * unit
    high := (4 * significand + 2 : Nat) * unit
    closed := significand % 2 == 0 }

/-- The shortest decimal of the magnitude of a finite float. -/
def shortest (x : Float32) : Decimal :=
  if (parts x).1 = 0 then ⟨0, 0⟩ else (target x).shortest 39 86

/-- The sign bit is set. -/
def isNegative (x : Float32) : Bool :=
  0x80000000 ≤ x.toBits.toNat

/-- The written form of a float. -/
def text (x : Float32) : String :=
  if x.isNaN then "NaN"
  else
    let magnitude := if x.isInf then "inf" else (shortest x).text
    if isNegative x then "-" ++ magnitude else magnitude

end Single

end TimelineMixer
