import TimelineMixer.Sample

/-!
# Number literals

A number in a JSON text and what it stands for. A literal without point and exponent that fits a
64-bit word is an integer. Any other is a float: as many leading digits as fit an unsigned word,
scaled by one power of ten, so the last bit may differ from the nearest float. Minus zero is a
float.
-/

set_option autoImplicit false
set_option relaxedAutoImplicit false

namespace TimelineMixer

/-- A number as it is written. -/
structure NumberLiteral where
  negative : Bool
  /-- The digits before the point. -/
  whole : List Char
  /-- The digits after the point, if there is one. -/
  fraction : Option (List Char)
  /-- The exponent, if there is one: whether it is negative, and its digits. -/
  exponent : Option (Bool × List Char)
  deriving DecidableEq

/-- What a literal stands for. -/
inductive JsonNumber where
  /-- A number of an unsigned word. -/
  | natural (value : Nat)
  /-- A negative number of a signed word. -/
  | negative (value : Int)
  | float (value : Float)

/-- The value of a row of decimal digits. -/
def digitsValue (digits : List Char) : Nat :=
  Nat.ofDigitChars 10 digits 0

/-- The decimal digits of a number. -/
def decimalDigits (n : Nat) : List Char :=
  Nat.toDigits 10 n

@[simp] theorem digitsValue_decimalDigits (n : Nat) : digitsValue (decimalDigits n) = n :=
  Nat.ofDigitChars_toDigits (by decide) (by decide)

/-- Leading digits taken into a word, the power of ten that the word has to be scaled by, and
whether digits no longer fit. -/
structure Significand where
  word : Nat
  scale : Int
  full : Bool

namespace Significand

/-- The word with one more digit, if it fits. -/
def push? (word : Nat) (digit : Char) : Option Nat :=
  let longer := 10 * word + (digit.toNat - '0'.toNat)
  if longer < 0x10000000000000000 then some longer else none

/-- A digit before the point. One that does not fit scales the word. -/
def pushWhole (s : Significand) (digit : Char) : Significand :=
  if s.full then { s with scale := s.scale + 1 }
  else
    match push? s.word digit with
    | some word => { s with word }
    | none => { s with scale := s.scale + 1, full := true }

/-- A digit after the point. One that does not fit is dropped, and so are all behind it. -/
def pushFraction (s : Significand) (digit : Char) : Significand :=
  if s.full then s
  else
    match push? s.word digit with
    | some word => { s with word, scale := s.scale - 1 }
    | none => { s with full := true }

/-- The significand of digits before and after a point. -/
def ofDigits (whole fraction : List Char) : Significand :=
  let front := whole.foldl pushWhole ⟨0, 0, false⟩
  fraction.foldl pushFraction { front with full := false }

end Significand

namespace NumberLiteral

/-- The literal of a whole number. -/
def ofInt (value : Int) : NumberLiteral :=
  ⟨value < 0, decimalDigits value.natAbs, none, none⟩

/-- The greatest power of ten that scales in one step. -/
def widestScale : Nat := 308

/-- Scales a float by a power of ten; nothing if that is out of range. A negative power beyond the
widest takes several steps, after which every word has become zero. -/
def scaleBy? : Nat → Float → Int → Option Float
  | 0, x, _ => some x
  | steps + 1, x, scale =>
    if scale.natAbs ≤ widestScale then
      let power := Float.ofScientific 1 false scale.natAbs
      if 0 ≤ scale then
        let scaled := x * power
        if scaled.isInf then none else some scaled
      else some (x / power)
    else if x == 0 then some x
    else if 0 ≤ scale then none
    else scaleBy? steps (x / Float.ofScientific 1 false widestScale) (scale + widestScale)

/-- The magnitude of a literal as a float; nothing if it is out of range. Exponents are counted in
a signed 32-bit word. -/
def magnitude? (literal : NumberLiteral) : Option Float :=
  let s := Significand.ofDigits literal.whole (literal.fraction.getD [])
  let word := (UInt64.ofNat s.word).toFloat
  match literal.exponent with
  | none => scaleBy? 4 word s.scale
  | some (negative, digits) =>
    let exponent : Int := digitsValue digits
    if 0x80000000 ≤ exponent then
      if s.word ≠ 0 ∧ ¬ negative then none else some 0
    else
      let scale := if negative then s.scale - exponent else s.scale + exponent
      scaleBy? 4 word (max (-0x80000000) (min scale 0x7fffffff))

/-- The literal as a float. -/
def float? (literal : NumberLiteral) : Option Float :=
  literal.magnitude?.map fun x ↦ if literal.negative then -x else x

/-- The literal has neither point nor exponent. -/
def isWhole (literal : NumberLiteral) : Bool :=
  literal.fraction.isNone && literal.exponent.isNone

/-- What the literal stands for; nothing if it is out of range. -/
def value? (literal : NumberLiteral) : Option JsonNumber :=
  let n := digitsValue literal.whole
  if literal.isWhole ∧ ¬ literal.negative ∧ n < 0x10000000000000000 then some (.natural n)
  else if literal.isWhole ∧ literal.negative ∧ n ≠ 0 ∧ n ≤ 0x8000000000000000 then
    some (.negative (-n))
  else literal.float?.map .float

/-- A whole number within bounds. -/
def int? (low high : Int) (literal : NumberLiteral) : Option Int :=
  let inside (n : Int) := if low ≤ n ∧ n ≤ high then some n else none
  match literal.value? with
  | some (.natural n) => inside n
  | some (.negative n) => inside n
  | _ => none

/-- The literal as a sample: a word is rounded once, a float a second time. -/
def sample? (literal : NumberLiteral) : Option Float32 :=
  match literal.value? with
  | some (.natural n) => some (UInt64.ofNat n).toFloat32
  | some (.negative n) => some (Int64.ofInt n).toFloat32
  | some (.float x) => some (Sample.ofFloat x)
  | none => none

/-- A whole number that fits a signed or an unsigned word is read back from its literal. -/
theorem value?_ofInt {n : Int} (low : -0x8000000000000000 ≤ n)
    (high : n < 0x10000000000000000) :
    (ofInt n).value? = some (if n < 0 then .negative n else .natural n.toNat) := by
  by_cases h : n < 0
  · have : n.natAbs ≤ 0x8000000000000000 := by omega
    have : n.natAbs ≠ 0 := by omega
    have : -(n.natAbs : Int) = n := by omega
    simp_all [value?, ofInt, isWhole]
  · have : n.natAbs < 0x10000000000000000 := by omega
    have : n.natAbs = n.toNat := by omega
    simp_all [value?, ofInt, isWhole]

end NumberLiteral

end TimelineMixer
