import Mathlib.Data.Rat.Floor
import TimelineMixer.Proofs.Time.Exactness

/-!
# Rounding to whole nanoseconds

A fraction whose parts fit a word is stored as it is. The others are counted in whole nanoseconds,
rounded down and clamped to a word (`rounded`). The count is taken in two pieces, the whole seconds
and the remainder, with both sums kept in 128 bits. As long as the remainder can be scaled to
nanoseconds there, the count is the floor of the scaled fraction (`clampWord_wholeNanos`), so
`rounded` is what is stored (`toRat_ofRat_eq_rounded`). A fraction of two words is always of that
kind (`den_divInt_le`).

Rounding never makes a time of at least zero larger (`toRat_ofRat_le`), so a stored sum beyond a
bound proves the exact sum to lie beyond it.
-/

set_option autoImplicit false
set_option relaxedAutoImplicit false

namespace TimelineMixer.Seconds

/-- The value that stands for a fraction: the fraction itself if it can be stored, else its
nanoseconds, rounded down and clamped. -/
def rounded (q : ℚ) : ℚ :=
  if Fits q then q else (clampWord ⌊q * nanos⌋ : ℚ) / nanos

/-- The largest denominator below which a remainder can be scaled to nanoseconds in 128 bits. -/
def widestDen : Nat :=
  0x7fffffffffffffffffffffffffffffff / nanos

theorem toRat_ofNanos (n : Int) : (ofNanos n).toRat = mkRat (clampWord n) nanos :=
  rfl

theorem partNanos_eq {den : Nat} (hden : den ≤ widestDen) (part : ℤ) :
    partNanos part den = part * nanos / den :=
  if_pos hden

theorem floor_mul_intCast (q : ℚ) (n : ℤ) : ⌊q * n⌋ = q.num * n / q.den := by
  have hscaled : q * n = ((q.num * n : ℤ) : ℚ) / (q.den : ℕ) := by
    rw [Int.cast_mul, mul_div_right_comm, Rat.num_div_den]
  rw [hscaled, Rat.floor_intCast_div_natCast]

theorem floor_mul_nanos (q : ℚ) : ⌊q * nanos⌋ = q.num * nanos / q.den :=
  floor_mul_intCast q nanos

/-- A multiple is the clamped floor of the exact product. -/
theorem floorMul_eq_floor (a : Seconds) (factor : ℤ) :
    a.floorMul factor = clampWord ⌊a.toRat * factor⌋ := by
  rw [floorMul, floor_mul_intCast]

/-- Whole seconds and the remainder, each in nanoseconds. -/
theorem floor_mul_nanos_eq_add {q : ℚ} (hden : q.den ≤ widestDen) :
    ⌊q * nanos⌋ = q.num / q.den * nanos + partNanos (q.num % q.den) q.den := by
  have hpos : (q.den : ℤ) ≠ 0 := by exact_mod_cast q.den_nz
  rw [floor_mul_nanos, partNanos_eq hden]
  calc q.num * nanos / q.den
      = (q.num % q.den * nanos + q.num / q.den * nanos * q.den) / q.den := by
        rw [Int.mul_right_comm, ← Int.add_mul, Int.emod_add_ediv_mul]
    _ = q.num % q.den * nanos / q.den + q.num / q.den * nanos :=
        Int.add_mul_ediv_right _ _ hpos
    _ = q.num / q.den * nanos + q.num % q.den * nanos / q.den := Int.add_comm _ _

/-- A remainder is less than a second. -/
theorem partNanos_bounds {q : ℚ} (hden : q.den ≤ widestDen) :
    0 ≤ partNanos (q.num % q.den) q.den ∧ partNanos (q.num % q.den) q.den < nanos := by
  have hpos : (0 : ℤ) < q.den := by exact_mod_cast q.den_pos
  have hnanos : (0 : ℤ) < nanos := by decide
  have hpart := Int.emod_nonneg q.num hpos.ne'
  have hless := Int.emod_lt_of_pos q.num hpos
  rw [partNanos_eq hden]
  refine ⟨Int.ediv_nonneg (Int.mul_nonneg hpart hnanos.le) hpos.le, ?_⟩
  rw [Int.ediv_lt_iff_lt_mul hpos, Int.mul_comm]
  exact Int.mul_lt_mul_of_pos_left hless hnanos

/-- What saturates in 128 bits is clamped to the same word. -/
theorem clampWord_saturate {n part : ℤ} (hlow : 0 ≤ part) (hhigh : part ≤ nanos) :
    clampWord (saturate (saturate n + part)) = clampWord (n + part) := by
  unfold nanos at hhigh
  unfold clampWord saturate
  omega

theorem clampWord_wholeNanos {q : ℚ} (hden : q.den ≤ widestDen) :
    clampWord (wholeNanos q) = clampWord ⌊q * nanos⌋ := by
  obtain ⟨hlow, hhigh⟩ := partNanos_bounds hden
  rw [wholeNanos, clampWord_saturate hlow hhigh.le, floor_mul_nanos_eq_add hden]

/-- A fraction is stored exactly or rounded down to whole nanoseconds. -/
theorem toRat_ofRat_eq_rounded {q : ℚ} (hden : q.den ≤ widestDen) :
    (ofRat q).toRat = rounded q := by
  rw [rounded]
  split_ifs with hfits
  · exact toRat_ofRat hfits
  · rw [ofRat, dif_neg hfits, toRat_ofNanos, clampWord_wholeNanos hden, Rat.mkRat_eq_div]

/-- Rounding never makes a fraction of at least zero larger. -/
theorem rounded_le {q : ℚ} (nonneg : 0 ≤ q) : rounded q ≤ q := by
  rw [rounded]
  split_ifs
  · exact le_rfl
  · have hnanos : (0 : ℚ) < nanos := by norm_num [nanos]
    have hfloor : 0 ≤ ⌊q * nanos⌋ := Int.floor_nonneg.mpr (mul_nonneg nonneg hnanos.le)
    have hclamp : clampWord ⌊q * nanos⌋ ≤ ⌊q * nanos⌋ := by
      unfold clampWord
      omega
    rw [div_le_iff₀ hnanos]
    calc (clampWord ⌊q * nanos⌋ : ℚ) ≤ ⌊q * nanos⌋ := by exact_mod_cast hclamp
      _ ≤ q * nanos := Int.floor_le _

/-- Storing a fraction of at least zero never makes it larger. -/
theorem toRat_ofRat_le {q : ℚ} (nonneg : 0 ≤ q) (small : q.den < 2 ^ 63) :
    (ofRat q).toRat ≤ q := by
  have hwidest : 2 ^ 63 ≤ widestDen := by decide
  rw [toRat_ofRat_eq_rounded (by omega)]
  exact rounded_le nonneg

/-- Reducing a fraction of two words leaves a denominator that is small enough. -/
theorem den_divInt_le {den : ℤ} (hlow : -0x8000000000000000 ≤ den)
    (hhigh : den < 0x8000000000000000) (hne : den ≠ 0) (num : ℤ) :
    (Rat.divInt num den).den ≤ widestDen := by
  have hdvd := Int.natAbs_dvd_natAbs.mpr (Rat.den_dvd num den)
  have hle := Nat.le_of_dvd (Int.natAbs_pos.mpr hne) hdvd
  have hwidest : 0x8000000000000000 ≤ widestDen := by decide
  omega

end TimelineMixer.Seconds
