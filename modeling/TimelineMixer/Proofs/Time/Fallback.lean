import Mathlib.Tactic.Linarith
import Mathlib.Tactic.Ring
import TimelineMixer.Proofs.Time.Rounding

/-!
# Sums too large to store

A sum of two times may have a denominator so large that the remainder cannot be scaled to
nanoseconds in 128 bits. Then the denominator is scaled down to nanoseconds instead, and what that
division leaves is dropped. The quotient by the smaller divisor is never too small, and at most one
too large (`counted_eq`).

So a sum is rounded down exactly if that division leaves enough over (`RoundsDown`); a fraction of
two words and the negative of a time always are (`toRat_eq_floor_iff_roundsDown`).
-/

set_option autoImplicit false
set_option relaxedAutoImplicit false

namespace TimelineMixer.Seconds

/-! ### Scaling the divisor down -/

section Scaling

variable {part den unit : ℤ}

/-- What a divisor that was scaled down leaves of the scaled dividend. -/
def leftOver (part den unit : ℤ) : ℤ :=
  part % (den / unit) * unit - part / (den / unit) * (den % unit)

/-- The scaled dividend is what is left over and the divisor times the quotient by the divisor that
was scaled down. -/
theorem mul_eq_leftOver_add (part den unit : ℤ) :
    part * unit = leftOver part den unit + part / (den / unit) * den := by
  have hpart := Int.mul_ediv_add_emod part (den / unit)
  have hdivisor := Int.mul_ediv_add_emod den unit
  calc part * unit
      = (den / unit * (part / (den / unit)) + part % (den / unit)) * unit := by rw [hpart]
    _ = leftOver part den unit +
        part / (den / unit) * (unit * (den / unit) + den % unit) := by
      rw [leftOver]
      ring
    _ = leftOver part den unit + part / (den / unit) * den := by rw [hdivisor]

theorem unit_le_ediv (hunit : 0 < unit) (hwide : unit * unit ≤ den) : unit ≤ den / unit :=
  Int.le_ediv_of_mul_le hunit hwide

theorem ediv_ediv_le (hless : part < den) (hunit : 0 < unit)
    (hwide : unit * unit ≤ den) : part / (den / unit) ≤ unit := by
  have hscale := unit_le_ediv hunit hwide
  have hrest := Int.emod_lt_of_pos den hunit
  have hdivisor := Int.mul_ediv_add_emod den unit
  rw [← Int.lt_add_one_iff, Int.ediv_lt_iff_lt_mul (by omega)]
  calc part < den := hless
    _ = unit * (den / unit) + den % unit := hdivisor.symm
    _ ≤ unit * (den / unit) + den / unit := by omega
    _ = (unit + 1) * (den / unit) := by ring

/-- What is left over is less than the divisor, on either side of zero. -/
theorem leftOver_bounds (hpart : 0 ≤ part) (hless : part < den) (hunit : 0 < unit)
    (hwide : unit * unit ≤ den) :
    -(unit * unit) ≤ leftOver part den unit ∧ leftOver part den unit < den := by
  have hscale := unit_le_ediv hunit hwide
  have hquotient : 0 ≤ part / (den / unit) := Int.ediv_nonneg hpart (by omega)
  have hrest := Int.emod_nonneg den hunit.ne'
  have hleft := Int.emod_nonneg part (show den / unit ≠ 0 by omega)
  have hover : part / (den / unit) * (den % unit) ≤ unit * unit :=
    mul_le_mul (ediv_ediv_le hless hunit hwide) (Int.emod_lt_of_pos den hunit).le hrest
      hunit.le
  have hunder : part % (den / unit) * unit < den :=
    calc part % (den / unit) * unit
        < den / unit * unit :=
          Int.mul_lt_mul_of_pos_right (Int.emod_lt_of_pos part (by omega)) hunit
      _ ≤ den := Int.ediv_mul_le den hunit.ne'
  have hover_nonneg := Int.mul_nonneg hquotient hrest
  have hunder_nonneg := Int.mul_nonneg hleft hunit.le
  rw [leftOver]
  constructor <;> omega

end Scaling

/-! ### The count of nanoseconds -/

variable {q : ℚ}

/-- The nanoseconds counted for a fraction that does not fit, before they are clamped. -/
def counted (q : ℚ) : ℤ :=
  q.num / q.den * nanos + partNanos (q.num % q.den) q.den

/-- The remainder can be scaled, or the scaled divisor leaves nothing over that would make the
quotient too large. -/
def RoundsDown (q : ℚ) : Prop :=
  q.den ≤ widestDen ∨ 0 ≤ leftOver (q.num % q.den) q.den nanos

instance (q : ℚ) : Decidable (RoundsDown q) :=
  inferInstanceAs (Decidable (_ ∨ _))

variable (q) in
theorem part_bounds : 0 ≤ q.num % q.den ∧ q.num % q.den < q.den := by
  have hpos : (0 : ℤ) < q.den := by exact_mod_cast q.den_pos
  exact ⟨Int.emod_nonneg _ hpos.ne', Int.emod_lt_of_pos _ hpos⟩

theorem partNanos_of_wide {den : ℕ} (hden : widestDen < den) (part : ℤ) :
    partNanos part den = part / ((den : ℤ) / nanos) :=
  if_neg (not_le.mpr hden)

theorem nanos_mul_nanos_le {den : ℕ} (hden : widestDen < den) : (nanos * nanos : ℤ) ≤ den := by
  have hwidest : nanos * nanos ≤ widestDen := by decide
  exact_mod_cast hwidest.trans hden.le

variable (q) in
/-- A remainder is at most a second. -/
theorem partNanos_le :
    0 ≤ partNanos (q.num % q.den) q.den ∧ partNanos (q.num % q.den) q.den ≤ nanos := by
  by_cases hden : q.den ≤ widestDen
  · exact ⟨(partNanos_bounds hden).1, (partNanos_bounds hden).2.le⟩
  · obtain ⟨hlow, hhigh⟩ := part_bounds q
    have hwide := nanos_mul_nanos_le (not_le.mp hden)
    have hnanos : (0 : ℤ) < nanos := by decide
    have hscale := unit_le_ediv hnanos hwide
    rw [partNanos_of_wide (not_le.mp hden)]
    exact ⟨Int.ediv_nonneg hlow (by omega), ediv_ediv_le hhigh hnanos hwide⟩

variable (q) in
/-- Saturating in 128 bits does not change the clamped count. -/
theorem clampWord_wholeNanos_eq_counted : clampWord (wholeNanos q) = clampWord (counted q) :=
  clampWord_saturate (partNanos_le q).1 (partNanos_le q).2

theorem toRat_ofRat_of_not_fits (h : ¬ Fits q) :
    (ofRat q).toRat = (clampWord (counted q) : ℚ) / nanos := by
  rw [ofRat, dif_neg h, toRat_ofNanos, clampWord_wholeNanos_eq_counted, Rat.mkRat_eq_div]

/-- What is left over is missing between the count and the scaled fraction. -/
theorem num_mul_nanos_eq (hden : widestDen < q.den) :
    q.num * nanos = leftOver (q.num % q.den) q.den nanos + counted q * q.den := by
  rw [counted, partNanos_of_wide hden]
  calc q.num * nanos
      = (q.num / q.den * q.den + q.num % q.den) * nanos := by rw [Int.mul_comm (q.num / _),
          Int.mul_ediv_add_emod]
    _ = q.num / q.den * nanos * q.den + q.num % q.den * nanos := by ring
    _ = leftOver (q.num % q.den) q.den nanos + (q.num / q.den * nanos +
        q.num % q.den / (q.den / nanos)) * q.den := by
      rw [mul_eq_leftOver_add (q.num % q.den) q.den nanos]
      ring

theorem leftOver_part_bounds (hden : widestDen < q.den) :
    -(nanos * nanos) ≤ leftOver (q.num % q.den) q.den nanos ∧
      leftOver (q.num % q.den) q.den nanos < q.den :=
  leftOver_bounds (part_bounds q).1 (part_bounds q).2 (by decide) (nanos_mul_nanos_le hden)

variable (q) in
/-- The count is the floor, or one more than the floor. -/
theorem counted_eq : counted q = ⌊q * nanos⌋ + if RoundsDown q then 0 else 1 := by
  by_cases hden : q.den ≤ widestDen
  · have hdown : RoundsDown q := Or.inl hden
    rw [counted, floor_mul_nanos_eq_add hden, if_pos hdown, Int.add_zero]
  · have hwide := not_le.mp hden
    have hpos : (0 : ℤ) < q.den := by exact_mod_cast q.den_pos
    have hbounds := leftOver_part_bounds hwide
    have hnanos := nanos_mul_nanos_le hwide
    have hrounds : RoundsDown q ↔ 0 ≤ leftOver (q.num % q.den) q.den nanos :=
      or_iff_right hden
    rw [floor_mul_nanos, num_mul_nanos_eq hwide, Int.add_mul_ediv_right _ _ hpos.ne']
    split_ifs with hdown
    · rw [Int.ediv_eq_zero_of_lt (hrounds.mp hdown) hbounds.2]
      ring
    · have hless := mt hrounds.mpr hdown
      have hborrow : leftOver (q.num % q.den) q.den nanos / q.den = -1 := by
        rw [Int.ediv_eq_iff_of_pos hpos]
        omega
      rw [hborrow]
      ring

variable (q) in
/-- The count exceeds the scaled fraction by less than the hundred-billionth part of a
nanosecond. -/
theorem counted_le : (counted q : ℚ) ≤ q * nanos + 1 / 10 ^ 11 := by
  by_cases hden : q.den ≤ widestDen
  · have hdown : RoundsDown q := Or.inl hden
    rw [counted_eq, if_pos hdown, Int.add_zero]
    linarith [Int.floor_le (q * nanos)]
  · have hwide := not_le.mp hden
    have hpos : (0 : ℚ) < q.den := by exact_mod_cast q.den_pos
    have hlow : (-(nanos * nanos) : ℚ) ≤ leftOver (q.num % q.den) q.den nanos := by
      exact_mod_cast (leftOver_part_bounds hwide).1
    have hscaled : q * nanos * q.den =
        leftOver (q.num % q.den) q.den nanos + counted q * q.den := by
      have hexact := congrArg (Int.cast (R := ℚ)) (num_mul_nanos_eq hwide)
      push_cast at hexact
      rw [← hexact, mul_right_comm, Rat.mul_den_eq_num]
    have hlarge : (nanos * nanos * 10 ^ 11 : ℚ) ≤ q.den := by
      have hwidest : nanos * nanos * 10 ^ 11 ≤ widestDen := by decide
      exact_mod_cast hwidest.trans hwide.le
    refine le_of_mul_le_mul_right ?_ hpos
    calc (counted q * q.den : ℚ)
        = q * nanos * q.den - leftOver (q.num % q.den) q.den nanos := by linarith
      _ ≤ q * nanos * q.den + nanos * nanos := by linarith
      _ ≤ (q * nanos + 1 / 10 ^ 11) * q.den := by linarith

/-! ### Sums -/

/-- The numerator of a fraction in lowest terms is no larger than any other one. -/
theorem natAbs_num_divInt_le (num den : ℤ) :
    (Rat.divInt num den).num.natAbs ≤ num.natAbs := by
  rcases eq_or_ne den 0 with rfl | hne
  · rw [Rat.divInt_zero]
    exact Nat.zero_le _
  · rw [Rat.num_divInt]
    refine (Int.natAbs_ediv_le_natAbs _ _).trans_eq ?_
    rw [Int.natAbs_mul, Int.natAbs_sign_of_ne_zero hne, Nat.one_mul]

theorem natAbs_num_le (a : Seconds) : a.num.natAbs ≤ 2 ^ 63 := by
  have hlow := a.num_ge
  have hhigh := a.num_lt
  omega

/-- A numerator times a denominator. -/
theorem natAbs_num_mul_den_lt (a b : Seconds) : (a.num * b.den).natAbs < 2 ^ 126 := by
  rw [Int.natAbs_mul, Int.natAbs_natCast]
  calc a.num.natAbs * b.den
      ≤ 2 ^ 63 * b.den := Nat.mul_le_mul_right _ a.natAbs_num_le
    _ < 2 ^ 63 * 2 ^ 63 := Nat.mul_lt_mul_of_pos_left b.den_lt (by norm_num)
    _ = 2 ^ 126 := by norm_num

theorem natAbs_num_add_lt (a b : Seconds) : (a.toRat + b.toRat).num.natAbs < 2 ^ 127 := by
  have hfirst := natAbs_num_mul_den_lt a b
  have hsecond := natAbs_num_mul_den_lt b a
  rw [Rat.add_def', Rat.mkRat_eq_divInt]
  refine (natAbs_num_divInt_le _ _).trans_lt ?_
  omega

/-- Over a denominator so large, few seconds are left: their count fits a word. -/
theorem clampWord_of_wide (hsmall : q.num.natAbs < 2 ^ 127) (hden : widestDen < q.den) {n : ℤ}
    (hlow : ⌊q * nanos⌋ ≤ n) (hhigh : n ≤ ⌊q * nanos⌋ + 1) : clampWord n = n := by
  have hpos : (0 : ℤ) < q.den := by exact_mod_cast q.den_pos
  have hlarge : 0x7fffffffffffffffffffffffffffffff / 1000000000 < q.den := hden
  have hfloor : -0x4000000000000000 ≤ ⌊q * nanos⌋ ∧ ⌊q * nanos⌋ < 0x4000000000000000 := by
    rw [floor_mul_nanos, Int.le_ediv_iff_mul_le hpos, Int.ediv_lt_iff_lt_mul hpos, nanos]
    omega
  exact clampWord_of_fits (by omega) (by omega)

theorem nanos_cast_pos : (0 : ℚ) < nanos := by
  norm_num [nanos]

/-- What is stored for a fraction that does not fit is rounded down exactly if its count is. -/
theorem toRat_ofRat_eq_floor_iff (h : ¬ Fits q) (hsmall : q.num.natAbs < 2 ^ 127) :
    (ofRat q).toRat = (clampWord ⌊q * nanos⌋ : ℚ) / nanos ↔ RoundsDown q := by
  rw [toRat_ofRat_of_not_fits h, div_left_inj' nanos_cast_pos.ne', Int.cast_inj, counted_eq]
  split_ifs with hdown
  · simp [hdown]
  · have hden : widestDen < q.den := not_le.mp fun hle ↦ hdown (Or.inl hle)
    rw [clampWord_of_wide hsmall hden (by omega) le_rfl,
      clampWord_of_wide hsmall hden le_rfl (by omega)]
    simp [hdown]

/-- A count that is not rounded down is one nanosecond too large. -/
theorem toRat_ofRat_of_not_roundsDown (h : ¬ Fits q) (hsmall : q.num.natAbs < 2 ^ 127)
    (hdown : ¬ RoundsDown q) : (ofRat q).toRat = (⌊q * nanos⌋ + 1 : ℚ) / nanos := by
  have hden : widestDen < q.den := not_le.mp fun hle ↦ hdown (Or.inl hle)
  rw [toRat_ofRat_of_not_fits h, counted_eq, if_neg hdown,
    clampWord_of_wide hsmall hden (by omega) le_rfl]
  push_cast
  rfl

theorem roundsDown_of_den_mul_le {a b : Seconds} (h : a.den * b.den ≤ widestDen) :
    RoundsDown (a.toRat + b.toRat) := by
  have hpos := Nat.mul_pos a.den_pos b.den_pos
  have hle := Nat.le_of_dvd hpos (Rat.add_den_dvd a.toRat b.toRat)
  exact Or.inl (hle.trans h)

/-- A fraction of two words, or the negative of a time, that does not fit is stored in whole
nanoseconds, rounded down and clamped. A sum is stored so exactly if it rounds down, as it does
unless the product of the denominators is beyond 10²⁹. Every other sum lies within the
hundred-billionth part of a nanosecond below a whole nanosecond and is stored as that. Differences
are sums as long as the second time has a negative. -/
theorem toRat_eq_floor_iff_roundsDown (num den : ℤ) (a b : Seconds) :
    (-0x8000000000000000 ≤ den → den < 0x8000000000000000 → den ≠ 0 → ¬ Fits (num / den : ℚ) →
      ∃ time, ofFraction? num den = some time ∧
        time.toRat = (clampWord ⌊(num / den : ℚ) * nanos⌋ : ℚ) / nanos) ∧
    (¬ Fits (-a.toRat) → (-a).toRat = (clampWord ⌊-a.toRat * nanos⌋ : ℚ) / nanos) ∧
    (¬ Fits (a.toRat + b.toRat) →
      ((a + b).toRat = (clampWord ⌊(a.toRat + b.toRat) * nanos⌋ : ℚ) / nanos ↔
        RoundsDown (a.toRat + b.toRat)) ∧
      (a.den * b.den ≤ widestDen → RoundsDown (a.toRat + b.toRat)) ∧
      (¬ RoundsDown (a.toRat + b.toRat) →
        (a + b).toRat = (⌊(a.toRat + b.toRat) * nanos⌋ + 1 : ℚ) / nanos ∧
        (⌊(a.toRat + b.toRat) * nanos⌋ + 1 : ℚ) ≤
          (a.toRat + b.toRat) * nanos + 1 / 10 ^ 11)) ∧
    (Fits (-b.toRat) → ¬ Fits (a.toRat - b.toRat) →
      ((a - b).toRat = (clampWord ⌊(a.toRat - b.toRat) * nanos⌋ : ℚ) / nanos ↔
        RoundsDown (a.toRat - b.toRat))) := by
  refine ⟨fun hlow hhigh hne hlarge ↦ ?_, fun hlarge ↦ ?_, fun hlarge ↦ ?_,
    fun hneg hlarge ↦ ?_⟩
  · have hstored := toRat_ofRat_eq_rounded (den_divInt_le hlow hhigh hne num)
    rw [Rat.divInt_eq_div, rounded, if_neg hlarge] at hstored
    refine ⟨_, if_neg hne, ?_⟩
    rw [Rat.divInt_eq_div, hstored]
  · have hden : (-a.toRat).den ≤ widestDen := by
      have hwidest : 0x8000000000000000 ≤ widestDen := by decide
      have hword := a.den_lt
      rw [Rat.neg_den]
      omega
    rw [neg_def, toRat_ofRat_eq_rounded hden, rounded, if_neg hlarge]
  · rw [add_eq]
    refine ⟨toRat_ofRat_eq_floor_iff hlarge (natAbs_num_add_lt a b), roundsDown_of_den_mul_le,
      fun hdown ↦ ⟨toRat_ofRat_of_not_roundsDown hlarge (natAbs_num_add_lt a b) hdown, ?_⟩⟩
    have hcount := counted_le (a.toRat + b.toRat)
    rw [counted_eq, if_neg hdown] at hcount
    exact_mod_cast hcount
  · have hsmall := natAbs_num_add_lt a (-b)
    rw [toRat_neg hneg, ← sub_eq_add_neg] at hsmall
    rw [sub_def, add_eq, toRat_neg hneg, ← sub_eq_add_neg]
    exact toRat_ofRat_eq_floor_iff hlarge hsmall

/-- A sum of reciprocals just below zero is not rounded down, their difference is. -/
theorem toRat_eq_floor_iff_roundsDown_reciprocals :
    let a : Seconds := .ofRat (mkRat 1 (2 ^ 50))
    let b : Seconds := .ofRat (mkRat (-1) (2 ^ 50 - 1))
    let least : Seconds := .ofInt (-0x8000000000000000)
    (¬ Fits (1 / (-0x8000000000000000 : ℤ) : ℚ) ∧
      ∃ time, ofFraction? 1 (-0x8000000000000000) = some time ∧ time.toRat = -1 / 10 ^ 9) ∧
    (¬ Fits (-least.toRat) ∧ (-least).toRat = 0x7fffffffffffffff / 10 ^ 9) ∧
    (¬ Fits (a.toRat + b.toRat) ∧ ¬ RoundsDown (a.toRat + b.toRat) ∧ (a + b).toRat = 0) ∧
    Fits (-b.toRat) ∧ ¬ Fits (a.toRat - b.toRat) ∧ RoundsDown (a.toRat - b.toRat) ∧
      (a - b).toRat = (clampWord ⌊(a.toRat - b.toRat) * nanos⌋ : ℚ) / nanos := by
  intro a b least
  have hlarge : ¬ Fits (((1 : ℤ) : ℚ) / (-0x8000000000000000 : ℤ)) := by decide +kernel
  have hleast : ¬ Fits (-least.toRat) := by decide +kernel
  have hsum : ¬ Fits (a.toRat + b.toRat) := by decide +kernel
  have hup : ¬ RoundsDown (a.toRat + b.toRat) := by decide +kernel
  have hneg : Fits (-b.toRat) := by decide +kernel
  have hdifference : ¬ Fits (a.toRat - b.toRat) := by decide +kernel
  have hdown : RoundsDown (a.toRat - b.toRat) := by decide +kernel
  obtain ⟨hfraction, -, hsums, hdifference_iff⟩ :=
    toRat_eq_floor_iff_roundsDown 1 (-0x8000000000000000) a b
  obtain ⟨-, hnegative, -⟩ := toRat_eq_floor_iff_roundsDown 1 (-0x8000000000000000) least b
  obtain ⟨time, htime, hvalue⟩ := hfraction (by decide) (by decide) (by decide) hlarge
  obtain ⟨-, -, hraised⟩ := hsums hsum
  refine ⟨⟨by simpa using hlarge, time, htime, hvalue.trans (by decide +kernel)⟩,
    ⟨hleast, (hnegative hleast).trans (by decide +kernel)⟩,
    ⟨hsum, hup, (hraised hup).1.trans (by decide +kernel)⟩,
    hneg, hdifference, hdown, (hdifference_iff hneg hdifference).mpr hdown⟩

/-- The sum of two reciprocals is less than zero by less than a nanosecond, and zero is stored for
it. -/
theorem not_floor_reciprocals :
    ¬ ∀ a b : Seconds, ¬ Fits (a.toRat + b.toRat) →
      (a + b).toRat = (clampWord ⌊(a.toRat + b.toRat) * nanos⌋ : ℚ) / nanos := by
  intro h
  let a : Seconds := .ofRat (mkRat 1 (2 ^ 50))
  let b : Seconds := .ofRat (mkRat (-1) (2 ^ 50 - 1))
  have hstored : (a + b).toRat = 0 := by decide +kernel
  have hfloor : (clampWord ⌊(a.toRat + b.toRat) * nanos⌋ : ℚ) / nanos = -1 / 10 ^ 9 := by
    decide +kernel
  have hclaimed := h a b (by decide +kernel)
  rw [hstored, hfloor] at hclaimed
  exact absurd hclaimed (by decide +kernel)

end TimelineMixer.Seconds
