import Mathlib.Algebra.Order.Floor.Semifield
import TimelineMixer.Proofs.Time.Rounding

/-!
# Whole frames

The bytes of the whole frames inside a time are given here by a floor of exact numbers,
`wholeBytes`. The stored computation agrees with it for every region of a buffer (`min_bytesIn`),
and moving a time by whole frames moves the count by their bytes (`wholeBytes_sub`): where a period
begins does not change which frames lie inside.
-/

set_option autoImplicit false
set_option relaxedAutoImplicit false

namespace TimelineMixer

namespace AudioSpec

variable (spec : AudioSpec)

/-- The bytes of the whole frames inside a time; none inside a negative one. -/
def wholeBytes (time : ℚ) : Nat :=
  ⌊time * spec.rate.toNat⌋₊ * spec.frameBytes

theorem frameBytes_eq : spec.frameBytes = Sample.width * spec.channels.toNat := by
  have hformat : spec.format.bytes = Sample.width := by cases spec.format; rfl
  rw [frameBytes, hformat]

theorem width_dvd_frameBytes : Sample.width ∣ spec.frameBytes := by
  rw [frameBytes_eq]
  exact Nat.dvd_mul_right _ _

theorem frameBytes_cast_pos : (0 : ℚ) < spec.frameBytes := by
  exact_mod_cast spec.frameBytes_pos

theorem bytesPerSecond_cast : (spec.bytesPerSecond : ℚ) = spec.rate.toNat * spec.frameBytes := by
  rw [bytesPerSecond]
  exact_mod_cast rfl

theorem rate_cast_pos : (0 : ℚ) < spec.rate.toNat := by
  have hbytes := spec.bytesPerSecond_cast_pos
  rw [bytesPerSecond_cast] at hbytes
  exact pos_of_mul_pos_left hbytes spec.frameBytes_cast_pos.le

theorem frameBytes_dvd_wholeBytes (time : ℚ) : spec.frameBytes ∣ spec.wholeBytes time :=
  Dvd.intro_left _ rfl

theorem wholeBytes_of_nonpos {time : ℚ} (h : time ≤ 0) : spec.wholeBytes time = 0 := by
  have hframes : time * spec.rate.toNat ≤ 0 :=
    mul_nonpos_of_nonpos_of_nonneg h spec.rate_cast_pos.le
  rw [wholeBytes, Nat.floor_of_nonpos hframes, Nat.zero_mul]

/-- Rounding down reaches every whole-frame count below. -/
theorem le_alignDown {bytes count : Nat} (h : spec.frameBytes ∣ bytes) (hle : bytes ≤ count) :
    bytes ≤ spec.alignDown count := by
  rw [alignDown, ← Nat.div_mul_self_eq_mod_sub_self]
  exact Nat.div_mul_cancel h ▸ Nat.mul_le_mul_right _ (Nat.div_le_div_right hle)

/-- Rounding bytes down to frames is rounding down once. -/
theorem alignDown_floor (time : ℚ) :
    spec.alignDown ⌊time * spec.bytesPerSecond⌋₊ = spec.wholeBytes time := by
  have hframes : ⌊time * spec.rate.toNat⌋₊ = ⌊time * spec.bytesPerSecond⌋₊ / spec.frameBytes := by
    rw [← Nat.floor_div_natCast, bytesPerSecond_cast, ← mul_assoc,
      mul_div_cancel_right₀ _ spec.frameBytes_cast_pos.ne']
  rw [alignDown, wholeBytes, hframes, Nat.div_mul_self_eq_mod_sub_self]

/-- Frames at a time of so many bytes are counted by the bytes. -/
theorem wholeBytes_div {bytes : Nat} (h : spec.frameBytes ∣ bytes) :
    spec.wholeBytes (bytes / spec.bytesPerSecond) = bytes := by
  obtain ⟨frames, rfl⟩ := h
  have hrate := spec.rate_cast_pos.ne'
  have hframe := spec.frameBytes_cast_pos.ne'
  have htime : ((spec.frameBytes * frames : Nat) : ℚ) / spec.bytesPerSecond * spec.rate.toNat =
      frames := by
    rw [bytesPerSecond_cast]
    push_cast
    field_simp
  rw [wholeBytes, htime, Nat.floor_natCast, Nat.mul_comm]

/-- Taking whole frames off a time takes their bytes off the count. -/
theorem wholeBytes_sub {bytes : Nat} (h : spec.frameBytes ∣ bytes) (time : ℚ) :
    spec.wholeBytes (time - bytes / spec.bytesPerSecond) = spec.wholeBytes time - bytes := by
  obtain ⟨frames, rfl⟩ := h
  have hrate := spec.rate_cast_pos.ne'
  have hframe := spec.frameBytes_cast_pos.ne'
  have hframes : (time - (spec.frameBytes * frames : Nat) / spec.bytesPerSecond) *
      spec.rate.toNat = time * spec.rate.toNat - frames := by
    rw [bytesPerSecond_cast]
    push_cast
    field_simp
  rw [wholeBytes, wholeBytes, hframes, Nat.floor_sub_natCast, Nat.sub_mul,
    Nat.mul_comm frames]

/-- A whole-frame count fits in a time exactly if its length does. -/
theorem le_wholeBytes {bytes : Nat} (h : spec.frameBytes ∣ bytes) {time : ℚ} (nonneg : 0 ≤ time) :
    bytes ≤ spec.wholeBytes time ↔ bytes / spec.bytesPerSecond ≤ time := by
  obtain ⟨frames, rfl⟩ := h
  have hframe := spec.frameBytes_cast_pos.ne'
  have hrate := spec.rate_cast_pos.ne'
  have hscaled : ((spec.frameBytes * frames : Nat) : ℚ) / spec.bytesPerSecond =
      frames / spec.rate.toNat := by
    rw [bytesPerSecond_cast]
    push_cast
    field_simp
  rw [hscaled, wholeBytes, Nat.mul_comm, Nat.mul_le_mul_right_iff spec.frameBytes_pos,
    Nat.le_floor_iff (mul_nonneg nonneg spec.rate_cast_pos.le),
    div_le_iff₀ spec.rate_cast_pos]

/-! ### The stored computation -/

theorem floorMul_eq (length : Seconds) (rate : Nat) :
    length.floorMul rate = clampWord ⌊length.toRat * rate⌋ :=
  length.floorMul_eq_floor rate

/-- Short of the largest count, bytes inside a length are those of its whole frames. -/
theorem bytesIn_eq {length : Seconds} (h : length.toRat * spec.bytesPerSecond < 2 ^ 63) :
    spec.bytesIn length = spec.wholeBytes length.toRat := by
  have hrate := spec.bytesPerSecond_cast_pos
  rw [bytesIn, ← alignDown_floor]
  split_ifs with hneg
  · have hnonpos : length.toRat * spec.bytesPerSecond ≤ 0 :=
      mul_nonpos_of_nonpos_of_nonneg (Rat.num_nonpos.mp hneg.le) hrate.le
    rw [Nat.floor_of_nonpos hnonpos, alignDown, Nat.zero_mod]
  · have hnonneg : 0 ≤ length.toRat * spec.bytesPerSecond :=
      mul_nonneg (Rat.num_nonneg.mp (not_lt.mp hneg)) hrate.le
    have hlow : 0 ≤ ⌊length.toRat * spec.bytesPerSecond⌋ := Int.floor_nonneg.mpr hnonneg
    have hhigh : ⌊length.toRat * spec.bytesPerSecond⌋ < 0x8000000000000000 := by
      rw [Int.floor_lt]
      exact h.trans_le (by norm_num)
    rw [floorMul_eq, clampWord_of_fits (by omega) hhigh, Int.floor_toNat]

/-- Inside a buffer, the bytes of a length are those of its whole frames. -/
theorem min_bytesIn (length : Seconds) {size : Nat} (hsize : spec.frameBytes ∣ size)
    (hmemory : size < 2 ^ 63) :
    min (spec.bytesIn length) size = min (spec.wholeBytes length.toRat) size := by
  by_cases h : length.toRat * spec.bytesPerSecond < 2 ^ 63
  · rw [bytesIn_eq spec h]
  · have hlong := not_lt.mp h
    have hrate := spec.bytesPerSecond_cast_pos
    have hnonneg : 0 ≤ length.toRat := by
      by_contra hneg
      have := mul_neg_of_neg_of_pos (not_le.mp hneg) hrate
      linarith
    have hclamp : length.floorMul spec.bytesPerSecond = 0x7fffffffffffffff := by
      have hfloor : (0x8000000000000000 : Int) ≤ ⌊length.toRat * spec.bytesPerSecond⌋ := by
        rw [Int.le_floor]
        exact le_trans (by norm_num) hlong
      rw [floorMul_eq]
      unfold clampWord
      omega
    have hbytes : size ≤ spec.bytesIn length := by
      have hsign : ¬ length.num < 0 := not_lt.mpr (Rat.num_nonneg.mpr hnonneg)
      rw [bytesIn, if_neg hsign, hclamp]
      exact spec.le_alignDown hsize (by omega)
    have hwhole : size ≤ spec.wholeBytes length.toRat := by
      rw [spec.le_wholeBytes hsize hnonneg, div_le_iff₀ hrate]
      exact le_trans (by exact_mod_cast hmemory.le) hlong
    rw [Nat.min_eq_right hbytes, Nat.min_eq_right hwhole]

/-- One frame a second in one channel. -/
def oneHertz : AudioSpec :=
  ⟨.f32le, 1, 1, by decide, by decide⟩

end AudioSpec

end TimelineMixer
