import Mathlib.Tactic.FieldSimp
import TimelineMixer.Proofs.Time.Fallback

/-!
# Exact differences

A difference is the sum with the negated time, and the times with the least numerator of a word have
no negative that can be stored: less is stored for it. So a difference that can be stored is exact
unless the second time is one of these (`toRat_sub_eq_iff`). Rounding the sum makes up for what the
negative lacks in one place only: everything below the least count of nanoseconds is clamped to it,
so a difference of just that count is exact all the same.
-/

set_option autoImplicit false
set_option relaxedAutoImplicit false

namespace TimelineMixer.Seconds

variable {a b : Seconds}

theorem fits_neg_iff : Fits (-b.toRat) ↔ b.num ≠ -0x8000000000000000 := by
  have hlow := b.num_ge
  have hhigh := b.num_lt
  have hden := b.den_lt
  rw [Fits, Rat.neg_num, Rat.neg_den]
  constructor
  · intro h
    omega
  · intro h
    exact ⟨by omega, by omega, hden⟩

/-- Less is stored for a negative that does not fit. -/
theorem toRat_neg_lt (h : ¬ Fits (-b.toRat)) : (-b).toRat < -b.toRat := by
  have hsign : 0 ≤ -b.toRat := by
    have hnum : b.num ≤ 0 := by
      have := not_not.mp (mt fits_neg_iff.mpr h)
      omega
    exact neg_nonneg.mpr (Rat.num_nonpos.mp hnum)
  have hden : (-b.toRat).den < 2 ^ 63 := by
    rw [Rat.neg_den]
    exact b.den_lt
  rcases (toRat_ofRat_le hsign hden).lt_or_eq with hlt | heq
  · exact hlt
  · exact absurd (heq ▸ (-b).fits) h

/-- A time plus a whole number of nanoseconds is rounded down. -/
theorem roundsDown_add_nanos (n : ℤ) : RoundsDown (b.toRat + n / nanos) := by
  have hgrid : ((n : ℚ) / nanos).den ∣ nanos := by
    have hdvd := Rat.den_dvd n nanos
    rw [Rat.divInt_eq_div, Int.cast_natCast] at hdvd
    exact_mod_cast hdvd
  have hdvd := (Rat.add_den_dvd b.toRat (n / nanos)).trans (Nat.mul_dvd_mul_left b.den hgrid)
  have hle := Nat.le_of_dvd (Nat.mul_pos b.den_pos (by decide)) hdvd
  have hwidest : 2 ^ 63 * nanos ≤ widestDen := by decide
  have hbound := Nat.mul_le_mul_right nanos b.den_lt.le
  exact Or.inl (hle.trans (hbound.trans hwidest))

/-- A sum below the least count of nanoseconds is clamped to it. -/
theorem toRat_ofRat_of_lt_least {q : ℚ} (h : ¬ Fits q)
    (hless : q * nanos < -0x8000000000000000) : (ofRat q).toRat = -0x8000000000000000 / nanos := by
  have hfloor : ⌊q * nanos⌋ < -0x8000000000000000 := by
    rw [Int.floor_lt]
    exact_mod_cast hless
  have hcount := counted_eq q
  have hclamp : clampWord (counted q) = -0x8000000000000000 := by
    unfold clampWord
    split_ifs at hcount <;> omega
  rw [toRat_ofRat_of_not_fits h, hclamp]
  norm_cast

/-- A count of nanoseconds that is rounded down reaches a larger fraction only by being clamped. -/
theorem eq_least_of_toRat_ofRat {q e : ℚ} (h : ¬ Fits q) (hdown : RoundsDown q) (hless : q < e)
    (heq : (ofRat q).toRat = e) : e = -0x8000000000000000 / nanos := by
  rw [toRat_ofRat_of_not_fits h, counted_eq, if_pos hdown, Int.add_zero] at heq
  have hfloor := Int.floor_le (q * nanos)
  have hscaled : q * nanos < clampWord ⌊q * nanos⌋ := by
    rwa [← heq, lt_div_iff₀ nanos_cast_pos] at hless
  have hraised : ⌊q * nanos⌋ < clampWord ⌊q * nanos⌋ := by
    exact_mod_cast hfloor.trans_lt hscaled
  have hclamp : clampWord ⌊q * nanos⌋ = -0x8000000000000000 := by
    unfold clampWord at hraised ⊢
    omega
  rw [← heq, hclamp]
  norm_cast

/-- A difference that can be stored is exact as long as the second time has a negative, or the
difference is the least count of nanoseconds and everything else is rounded as well. -/
theorem toRat_sub_eq_iff (h : Fits (a.toRat - b.toRat)) :
    (a - b).toRat = a.toRat - b.toRat ↔ Fits (-b.toRat) ∨
      (a.toRat - b.toRat = -0x8000000000000000 / nanos ∧ ¬ Fits (a.toRat + (-b).toRat)) := by
  by_cases hneg : Fits (-b.toRat)
  · exact iff_of_true (toRat_sub ⟨hneg, h⟩) (Or.inl hneg)
  · have hless : a.toRat + (-b).toRat < a.toRat - b.toRat := by
      linarith [toRat_neg_lt hneg]
    rw [or_iff_right hneg, sub_def, add_eq]
    by_cases hsum : Fits (a.toRat + (-b).toRat)
    · rw [toRat_ofRat hsum]
      exact iff_of_false hless.ne fun hboth ↦ hboth.2 hsum
    · constructor
      · intro heq
        -- The negative and the difference are counts of nanoseconds, so the sum is one away from
        -- the second time.
        have hcounts : a.toRat + (-b).toRat = b.toRat + ((clampWord (counted (-b.toRat)) +
            clampWord (counted (a.toRat + (-b).toRat)) : ℤ) : ℚ) / nanos := by
          rw [Int.cast_add, add_div, ← toRat_ofRat_of_not_fits hneg,
            ← toRat_ofRat_of_not_fits hsum, heq, ← neg_def]
          ring
        have hdown : RoundsDown (a.toRat + (-b).toRat) := by
          rw [hcounts]
          exact roundsDown_add_nanos _
        exact ⟨eq_least_of_toRat_ofRat hsum hdown hless heq, hsum⟩
      · rintro ⟨hleast, -⟩
        have hscaled : (a.toRat + (-b).toRat) * nanos < -0x8000000000000000 := by
          rwa [hleast, lt_div_iff₀ nanos_cast_pos] at hless
        rw [toRat_ofRat_of_lt_least hsum hscaled, hleast]

/-- A difference that can be stored is exact exactly if the second time has no least numerator, or
the difference is the least count of nanoseconds and is clamped to it. Without a least numerator,
the difference is zero exactly for equal times; a time with one is not even zero away from
itself. -/
theorem sub_exact_iff (a b : Seconds) (h : Fits (a.toRat - b.toRat)) :
    ((a - b).toRat = a.toRat - b.toRat ↔ b.num ≠ -0x8000000000000000 ∨
      (a.toRat - b.toRat = -0x8000000000000000 / nanos ∧ ¬ Fits (a.toRat + (-b).toRat))) ∧
    (b.num ≠ -0x8000000000000000 → (a - b = 0 ↔ a = b)) ∧
    (b - b = 0 ↔ b.num ≠ -0x8000000000000000) := by
  refine ⟨?_, fun hnum ↦ ?_, ?_⟩
  · rw [toRat_sub_eq_iff h, fits_neg_iff]
  · have hexact := toRat_sub ⟨fits_neg_iff.mpr hnum, h⟩
    rw [← toRat_inj, hexact, toRat_zero, sub_eq_zero, toRat_inj]
  · have hself : Fits (b.toRat - b.toRat) := by
      rw [sub_self]
      decide
    have hleast : (0 : ℚ) ≠ -0x8000000000000000 / nanos := by norm_num [nanos]
    have hiff := toRat_sub_eq_iff hself
    rw [sub_self, fits_neg_iff] at hiff
    rw [← toRat_inj, toRat_zero, hiff]
    exact or_iff_left fun hboth ↦ hleast hboth.1

/-- A time with the least numerator is taken from an earlier one, and the difference is the least
count of nanoseconds. -/
theorem sub_exact_iff_clamped :
    let a : Seconds := .ofRat (mkRat (-1855483046476644352) 1171875)
    let b : Seconds := .ofRat (mkRat (-0x8000000000000000) 5859375)
    Fits (a.toRat - b.toRat) ∧ b.num = -0x8000000000000000 ∧
      (a - b).toRat = a.toRat - b.toRat ∧ b - b ≠ 0 := by
  intro a b
  have hfits : Fits (a.toRat - b.toRat) := by decide +kernel
  have hnum : b.num = -0x8000000000000000 := by decide +kernel
  obtain ⟨hexact, -, hself⟩ := sub_exact_iff a b hfits
  exact ⟨hfits, hnum, hexact.mpr (Or.inr (by decide +kernel)), fun hzero ↦ hself.mp hzero hnum⟩

/-- The least whole number of seconds minus itself is not zero. -/
theorem not_sub_exact_least :
    ¬ ∀ a b : Seconds, Fits (a.toRat - b.toRat) → (a - b).toRat = a.toRat - b.toRat := by
  intro h
  let least : Seconds := .ofInt (-0x8000000000000000)
  have hstored : (least - least).toRat = -0x8000000000000000 / 10 ^ 9 := by decide +kernel
  have hclaimed := h least least (by decide +kernel)
  rw [hstored] at hclaimed
  exact absurd hclaimed (by decide +kernel)

end TimelineMixer.Seconds
