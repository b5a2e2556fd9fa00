/-!
# Exact time

A presentation time or a duration is a `Seconds`: a reduced fraction whose parts fit a signed
64-bit word. Sums are exact as long as they can be stored; a fraction too large to store is
rounded down to whole nanoseconds and clamped (`ofRat`). Byte counts are exact fractions of a
second, so a clock built on this type does not drift.

`toRat` is the value of a time. The order, `add_eq` and `neg_eq` are stated through it.
-/

set_option autoImplicit false
set_option relaxedAutoImplicit false

namespace TimelineMixer

/-- Clamps to the signed 64-bit range. -/
def clampWord (n : Int) : Int :=
  max (-0x8000000000000000) (min n 0x7fffffffffffffff)

theorem neg_le_clampWord (n : Int) : -0x8000000000000000 ≤ clampWord n := by
  unfold clampWord; omega

theorem clampWord_lt (n : Int) : clampWord n < 0x8000000000000000 := by
  unfold clampWord; omega

theorem clampWord_of_fits {n : Int} (low : -0x8000000000000000 ≤ n)
    (high : n < 0x8000000000000000) : clampWord n = n := by
  unfold clampWord; omega

/-- Clamps to the signed 128-bit range, in which all intermediate results are kept. -/
def saturate (n : Int) : Int :=
  max (-0x80000000000000000000000000000000) (min n 0x7fffffffffffffffffffffffffffffff)

theorem saturate_of_fits {n : Int} (low : -0x80000000000000000000000000000000 ≤ n)
    (high : n < 0x80000000000000000000000000000000) : saturate n = n := by
  unfold saturate; omega

/-- A number of seconds: a reduced fraction with 64-bit parts. -/
structure Seconds extends Rat where
  num_ge : -0x8000000000000000 ≤ num
  num_lt : num < 0x8000000000000000
  den_lt : den < 0x8000000000000000

namespace Seconds

theorem toRat_injective {a b : Seconds} (h : a.toRat = b.toRat) : a = b := by
  cases a; cases b; simp_all

@[simp] theorem toRat_inj {a b : Seconds} : a.toRat = b.toRat ↔ a = b :=
  ⟨toRat_injective, fun h ↦ h ▸ rfl⟩

instance : DecidableEq Seconds := fun a b ↦
  decidable_of_iff (a.toRat = b.toRat) toRat_inj

theorem den_pos (a : Seconds) : 0 < a.den :=
  Nat.pos_of_ne_zero a.den_nz

/-! ### Storing a fraction -/

/-- The fraction can be stored as it is. -/
def Fits (q : Rat) : Prop :=
  -0x8000000000000000 ≤ q.num ∧ q.num < 0x8000000000000000 ∧ q.den < 0x8000000000000000

instance (q : Rat) : Decidable (Fits q) := by
  unfold Fits; infer_instance

theorem fits (a : Seconds) : Fits a.toRat :=
  ⟨a.num_ge, a.num_lt, a.den_lt⟩

/-- Reducing a fraction only makes its parts smaller. -/
theorem mkRat_fits {n : Int} {d : Nat} (low : -0x8000000000000000 ≤ n)
    (high : n < 0x8000000000000000) (pos : 0 < d) (small : d < 0x8000000000000000) :
    Fits (mkRat n d) := by
  have divisor : 0 < d.gcd n.natAbs := Nat.gcd_pos_of_pos_left _ pos
  have shrinks := Int.natAbs_ediv_le_natAbs n (d.gcd n.natAbs : Int)
  have den_le : d / d.gcd n.natAbs ≤ d := Nat.div_le_self _ _
  have nonneg : 0 ≤ n → 0 ≤ n / (d.gcd n.natAbs : Int) :=
    fun h ↦ Int.ediv_nonneg h (by omega)
  rw [Fits, Rat.num_mkRat, Rat.den_mkRat]
  simp only [show d ≠ 0 by omega, if_false]
  refine ⟨by omega, ?_, by omega⟩
  rcases Int.le_total 0 n with h | h
  · omega
  · have : n / (d.gcd n.natAbs : Int) ≤ 0 := by
      rw [Int.ediv_le_iff_le_mul (by omega)]
      omega
    omega

/-- Nanoseconds in a second. -/
def nanos : Nat := 1000000000

theorem mkRat_nanos_fits {n : Int} (low : -0x8000000000000000 ≤ n)
    (high : n < 0x8000000000000000) : Fits (mkRat n nanos) :=
  mkRat_fits low high (by decide) (by decide)

/-- A clamped number of nanoseconds. -/
def ofNanos (n : Int) : Seconds where
  toRat := mkRat (clampWord n) nanos
  num_ge := (mkRat_nanos_fits (neg_le_clampWord n) (clampWord_lt n)).1
  num_lt := (mkRat_nanos_fits (neg_le_clampWord n) (clampWord_lt n)).2.1
  den_lt := (mkRat_nanos_fits (neg_le_clampWord n) (clampWord_lt n)).2.2

/-- The nanoseconds of a remainder `part` over `den`. A denominator so large that `part` cannot
be scaled in 128 bits is scaled down instead. -/
def partNanos (part : Int) (den : Nat) : Int :=
  if den ≤ 0x7fffffffffffffffffffffffffffffff / nanos then part * nanos / den
  else part / (den / nanos : Nat)

/-- The nanoseconds that stand for a fraction too large to store. -/
def wholeNanos (q : Rat) : Int :=
  saturate (saturate (q.num / q.den * nanos) + partNanos (q.num % q.den) q.den)

/-- Stores a fraction: exactly if its parts fit, else in whole nanoseconds. -/
def ofRat (q : Rat) : Seconds :=
  if h : Fits q then ⟨q, h.1, h.2.1, h.2.2⟩ else ofNanos (wholeNanos q)

theorem toRat_ofRat {q : Rat} (h : Fits q) : (ofRat q).toRat = q := by
  simp [ofRat, h]

@[simp] theorem ofRat_toRat (a : Seconds) : ofRat a.toRat = a :=
  toRat_injective (toRat_ofRat a.fits)

/-- The time `num / den`, for a denominator of either sign; nothing over zero. -/
def ofFraction? (num den : Int) : Option Seconds :=
  if den = 0 then none else some (ofRat (Rat.divInt num den))

/-- A whole number of seconds. -/
def ofInt (n : Int) : Seconds :=
  ofRat n

instance : OfNat Seconds 0 := ⟨ofInt 0⟩

instance : Inhabited Seconds := ⟨0⟩

/-- A whole number of milliseconds. -/
def ofMillis (n : Int) : Seconds :=
  ofRat (mkRat n 1000)

/-! ### Order -/

instance : LE Seconds := ⟨fun a b ↦ a.toRat ≤ b.toRat⟩

instance : LT Seconds := ⟨fun a b ↦ a.toRat < b.toRat⟩

theorem le_def {a b : Seconds} : a ≤ b ↔ a.toRat ≤ b.toRat :=
  Iff.rfl

theorem lt_def {a b : Seconds} : a < b ↔ a.toRat < b.toRat :=
  Iff.rfl

instance (a b : Seconds) : Decidable (a ≤ b) :=
  inferInstanceAs (Decidable (a.toRat ≤ b.toRat))

instance (a b : Seconds) : Decidable (a < b) :=
  inferInstanceAs (Decidable (a.toRat < b.toRat))

instance : Max Seconds := ⟨fun a b ↦ if a ≤ b then b else a⟩

instance : Min Seconds := ⟨fun a b ↦ if a ≤ b then a else b⟩

/-- Denominators are positive, so products across the fractions keep their order. -/
instance : Ord Seconds := ⟨fun a b ↦ compare (a.num * b.den) (b.num * a.den)⟩

/-! ### Arithmetic -/

/-- The numerator of a sum over the product of the denominators. -/
def crossSum (a b : Seconds) : Int :=
  saturate (a.num * b.den + b.num * a.den)

/-- The fraction to store for a sum. -/
def sum (a b : Seconds) : Rat :=
  if a.den = b.den then mkRat (a.num + b.num) a.den else mkRat (crossSum a b) (a.den * b.den)

instance : Add Seconds := ⟨fun a b ↦ ofRat (sum a b)⟩

instance : Neg Seconds := ⟨fun a ↦ ofRat (-a.toRat)⟩

/-- A difference is the sum with the negated time. -/
instance : Sub Seconds := ⟨fun a b ↦ a + -b⟩

theorem add_def (a b : Seconds) : a + b = ofRat (sum a b) :=
  rfl

theorem neg_def (a : Seconds) : -a = ofRat (-a.toRat) :=
  rfl

theorem sub_def (a b : Seconds) : a - b = a + -b :=
  rfl

/-- The product of the denominators bounds the cross sum, so it never saturates. -/
theorem crossSum_eq (a b : Seconds) : crossSum a b = a.num * b.den + b.num * a.den := by
  have bound : ∀ c d : Seconds, -0x40000000000000000000000000000000 ≤ c.num * d.den ∧
      c.num * d.den < 0x40000000000000000000000000000000 := by
    intro c d
    have hlow := c.num_ge
    have hhigh := c.num_lt
    have hden : (d.den : Int) < 0x8000000000000000 := by have := d.den_lt; omega
    have hpos : (0 : Int) < d.den := by exact_mod_cast d.den_pos
    constructor
    · have : -0x8000000000000000 * (d.den : Int) ≤ c.num * d.den :=
        Int.mul_le_mul_of_nonneg_right hlow (by omega)
      omega
    · rcases Int.le_total c.num 0 with h | h
      · have := Int.mul_nonpos_of_nonpos_of_nonneg h (show (0 : Int) ≤ d.den by omega)
        omega
      · have step : c.num * (d.den : Int) ≤ c.num * 0x7fffffffffffffff :=
          Int.mul_le_mul_of_nonneg_left (by omega) h
        omega
  have first := bound a b
  have second := bound b a
  exact saturate_of_fits (by omega) (by omega)

/-- The fraction stored for a sum is the exact sum. -/
theorem sum_eq (a b : Seconds) : sum a b = a.toRat + b.toRat := by
  rw [Rat.add_def', sum]
  split
  · next same =>
    rw [same, ← Int.add_mul, Rat.mkRat_mul_right b.den_nz]
  · rw [crossSum_eq]

/-- Adding stores the exact sum. -/
theorem add_eq (a b : Seconds) : a + b = ofRat (a.toRat + b.toRat) := by
  rw [add_def, sum_eq]

/-! ### Conversions -/

/-- The floor of the time multiplied by a rate, clamped. -/
def floorMul (a : Seconds) (rate : Int) : Int :=
  clampWord (a.num * rate / a.den)

/-- The nearest quotient of the parts, each rounded to a float first. -/
def toFloat (a : Seconds) : Float :=
  (Int64.ofInt a.num).toFloat / (Int64.ofInt a.den).toFloat

/-- The written form: a whole number, or numerator and denominator. -/
def text (a : Seconds) : String :=
  if a.den = 1 then s!"{a.num}" else s!"{a.num}/{a.den}"

end Seconds

end TimelineMixer
