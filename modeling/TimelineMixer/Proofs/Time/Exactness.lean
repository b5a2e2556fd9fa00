import Mathlib.Algebra.Order.Field.Rat
import Mathlib.Data.Rat.Cast.Order
import Mathlib.Tactic.FieldSimp
import Mathlib.Tactic.Linarith
import Mathlib.Tactic.Positivity
import Mathlib.Tactic.Ring
import TimelineMixer.AudioSpec

/-!
# Exact times

A sum or difference of times is the sum or difference of their values whenever the exact result
can be stored (`toRat_add`, `toRat_sub`). The length of a byte count of fewer than 64 bits is always
exact (`toRat_duration`).
-/

set_option autoImplicit false
set_option relaxedAutoImplicit false

namespace TimelineMixer

namespace Seconds

/-- The difference of two times, taken by adding the negated second one, can be stored. -/
def DifferenceFits (a b : Seconds) : Prop :=
  Fits (-b.toRat) ∧ Fits (a.toRat - b.toRat)

instance (a b : Seconds) : Decidable (DifferenceFits a b) :=
  inferInstanceAs (Decidable (_ ∧ _))

@[simp] theorem toRat_zero : (0 : Seconds).toRat = 0 :=
  toRat_ofRat (by decide)

theorem toRat_add {a b : Seconds} (h : Fits (a.toRat + b.toRat)) :
    (a + b).toRat = a.toRat + b.toRat := by
  rw [add_eq, toRat_ofRat h]

theorem toRat_neg {a : Seconds} (h : Fits (-a.toRat)) : (-a).toRat = -a.toRat := by
  rw [neg_def, toRat_ofRat h]

theorem toRat_sub {a b : Seconds} (h : DifferenceFits a b) :
    (a - b).toRat = a.toRat - b.toRat := by
  have hneg := toRat_neg h.1
  have hsum : Fits (a.toRat + (-b).toRat) := by
    rw [hneg, ← sub_eq_add_neg]
    exact h.2
  rw [sub_def, toRat_add hsum, hneg, sub_eq_add_neg]

@[simp] theorem zero_add (a : Seconds) : 0 + a = a := by
  rw [add_eq, toRat_zero, Rat.zero_add, ofRat_toRat]

@[simp] theorem add_zero (a : Seconds) : a + 0 = a := by
  rw [add_eq, toRat_zero, Rat.add_zero, ofRat_toRat]

/-! ### Order -/

theorem compare_eq (a b : Seconds) : compare a b = compareOfLessAndEq a b := by
  change compareOfLessAndEq (a.num * b.den) (b.num * a.den) = _
  have hlt : a.num * b.den < b.num * a.den ↔ a < b := (Rat.lt_iff a.toRat b.toRat).symm
  have heq : a.num * b.den = b.num * a.den ↔ a = b :=
    Rat.eq_iff_mul_eq_mul.symm.trans toRat_inj
  simp only [compareOfLessAndEq, hlt, heq]

/-- Times are ordered by their values. -/
instance : LinearOrder Seconds where
  le := (· ≤ ·)
  lt := (· < ·)
  min := min
  max := max
  compare := compare
  le_refl a := le_refl a.toRat
  le_trans _ _ _ := fun hab hbc ↦ Rat.le_trans hab hbc
  lt_iff_le_not_ge a b := @lt_iff_le_not_ge ℚ _ a.toRat b.toRat
  le_antisymm _ _ := fun hab hba ↦ toRat_injective (le_antisymm hab hba)
  le_total a b := le_total a.toRat b.toRat
  toDecidableLE := inferInstance
  toDecidableEq := inferInstance
  toDecidableLT := inferInstance
  min_def _ _ := rfl
  max_def _ _ := rfl
  compare_eq_compareOfLessAndEq := compare_eq

theorem toRat_min (a b : Seconds) : (min a b).toRat = min a.toRat b.toRat := by
  rcases le_total a b with h | h
  · rw [min_eq_left h, min_eq_left (le_def.mp h)]
  · rw [min_eq_right h, min_eq_right (le_def.mp h)]

theorem toRat_max (a b : Seconds) : (max a b).toRat = max a.toRat b.toRat := by
  rcases le_total a b with h | h
  · rw [max_eq_right h, max_eq_right (le_def.mp h)]
  · rw [max_eq_left h, max_eq_left (le_def.mp h)]

end Seconds

namespace AudioSpec

variable (spec : AudioSpec)

theorem bytesPerSecond_lt : spec.bytesPerSecond < 2 ^ 63 := by
  have hrate : spec.rate.toNat < 2 ^ 32 := spec.rate.toNat_lt
  have hchannels : spec.channels.toNat < 2 ^ 16 := spec.channels.toNat_lt
  have hwidth : spec.format.bytes = 4 := by cases spec.format; rfl
  rw [bytesPerSecond, frameBytes, hwidth]
  calc spec.rate.toNat * (4 * spec.channels.toNat)
      ≤ 2 ^ 32 * (4 * 2 ^ 16) := Nat.mul_le_mul (by omega) (by omega)
    _ < 2 ^ 63 := by norm_num

theorem bytesPerSecond_cast_pos : (0 : ℚ) < spec.bytesPerSecond := by
  exact_mod_cast spec.bytesPerSecond_pos

theorem count_eq_mkRat (bytes : Nat) :
    (bytes : ℚ) / spec.bytesPerSecond = mkRat bytes spec.bytesPerSecond := by
  rw [Rat.mkRat_eq_div]
  rfl

theorem den_count_lt (bytes : Nat) : ((bytes : ℚ) / spec.bytesPerSecond).den < 2 ^ 63 := by
  rw [count_eq_mkRat, Rat.den_mkRat, if_neg spec.bytesPerSecond_pos.ne']
  exact (Nat.div_le_self _ _).trans_lt spec.bytesPerSecond_lt

/-- A count of bytes divided by the byte rate can be stored. -/
theorem fits_count {bytes : Nat} (h : bytes < 2 ^ 63) :
    Seconds.Fits ((bytes : ℚ) / spec.bytesPerSecond) := by
  rw [count_eq_mkRat]
  exact Seconds.mkRat_fits (by omega) (by omega) spec.bytesPerSecond_pos spec.bytesPerSecond_lt

theorem toRat_duration_eq (bytes : Nat) :
    (spec.duration bytes).toRat = (min bytes 0x7fffffffffffffff : Nat) / spec.bytesPerSecond := by
  rw [duration, ← count_eq_mkRat, Seconds.toRat_ofRat (spec.fits_count (by omega))]

theorem toRat_duration {bytes : Nat} (h : bytes < 2 ^ 63) :
    (spec.duration bytes).toRat = (bytes : ℚ) / spec.bytesPerSecond := by
  rw [toRat_duration_eq, Nat.min_eq_left (by omega)]

/-- A time plus the length of a byte count, when the sum can be stored. -/
theorem toRat_add_duration {current : Seconds} {bytes : Nat}
    (hbytes : bytes < 2 ^ 63)
    (hfits : Seconds.Fits (current.toRat + bytes / spec.bytesPerSecond)) :
    (current + spec.duration bytes).toRat = current.toRat + bytes / spec.bytesPerSecond := by
  rw [← spec.toRat_duration hbytes] at hfits ⊢
  exact Seconds.toRat_add hfits

theorem duration_pos {bytes : Nat} (h : 0 < bytes) : 0 < spec.duration bytes := by
  have hcount : 0 < min bytes 0x7fffffffffffffff := by omega
  rw [Seconds.lt_def, Seconds.toRat_zero, toRat_duration_eq]
  exact div_pos (by exact_mod_cast hcount) spec.bytesPerSecond_cast_pos

@[simp] theorem duration_zero : spec.duration 0 = 0 := by
  apply Seconds.toRat_injective
  rw [spec.toRat_duration (by norm_num), Seconds.toRat_zero, Nat.cast_zero, zero_div]

end AudioSpec

end TimelineMixer
