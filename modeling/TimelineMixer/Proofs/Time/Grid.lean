import Mathlib.Tactic.Linarith
import TimelineMixer.Proofs.Time.WholeFrames

/-!
# The grid of frames

A time on the grid is a whole number of frames, before or after zero. Between two such times nothing
is rounded: the bytes of the whole frames inside their distance last exactly that long
(`OnGrid.wholeBytes_div`), and if they are less than a frame apart the later one is not later at all
(`OnGrid.le_of_sub_lt`).
-/

set_option autoImplicit false
set_option relaxedAutoImplicit false

namespace TimelineMixer.AudioSpec

variable {spec : AudioSpec} {a b : ℚ}

variable (spec) in
/-- A time is a whole number of frames. -/
def OnGrid (time : ℚ) : Prop :=
  ∃ frames : ℤ, time * spec.rate.toNat = frames

instance (time : ℚ) : Decidable (spec.OnGrid time) :=
  decidable_of_iff ((time * spec.rate.toNat).den = 1)
    ⟨fun h ↦ ⟨_, ((Rat.den_eq_one_iff _).mp h).symm⟩, fun ⟨frames, h⟩ ↦ h ▸ Rat.den_intCast frames⟩

@[simp] theorem onGrid_zero : spec.OnGrid 0 :=
  ⟨0, by simp⟩

theorem OnGrid.add (ha : spec.OnGrid a) (hb : spec.OnGrid b) : spec.OnGrid (a + b) := by
  obtain ⟨m, hm⟩ := ha
  obtain ⟨n, hn⟩ := hb
  exact ⟨m + n, by rw [add_mul, hm, hn, Int.cast_add]⟩

theorem OnGrid.sub (ha : spec.OnGrid a) (hb : spec.OnGrid b) : spec.OnGrid (a - b) := by
  obtain ⟨m, hm⟩ := ha
  obtain ⟨n, hn⟩ := hb
  exact ⟨m - n, by rw [sub_mul, hm, hn, Int.cast_sub]⟩

theorem onGrid_max (ha : spec.OnGrid a) (hb : spec.OnGrid b) : spec.OnGrid (max a b) := by
  rcases max_choice a b with h | h
  · rwa [h]
  · rwa [h]

theorem onGrid_min (ha : spec.OnGrid a) (hb : spec.OnGrid b) : spec.OnGrid (min a b) := by
  rcases min_choice a b with h | h
  · rwa [h]
  · rwa [h]

theorem onGrid_frames (frames : Nat) : spec.OnGrid (frames / spec.rate.toNat) :=
  ⟨frames, by rw [div_mul_cancel₀ _ spec.rate_cast_pos.ne', Int.cast_natCast]⟩

variable (spec) in
/-- Bytes of whole frames last as long as the frames. -/
theorem frames_div (frames : Nat) :
    ((frames * spec.frameBytes : Nat) : ℚ) / spec.bytesPerSecond = frames / spec.rate.toNat := by
  rw [bytesPerSecond_cast, Nat.cast_mul, mul_div_mul_right _ _ spec.frameBytes_cast_pos.ne']

theorem onGrid_count {bytes : Nat} (h : spec.frameBytes ∣ bytes) :
    spec.OnGrid (bytes / spec.bytesPerSecond) := by
  obtain ⟨frames, rfl⟩ := h
  rw [Nat.mul_comm, frames_div]
  exact onGrid_frames frames

/-- A time on the grid that is later by less than a frame is not later. -/
theorem OnGrid.le_of_sub_lt (ha : spec.OnGrid a) (hb : spec.OnGrid b)
    (h : b - a < 1 / spec.rate.toNat) : b ≤ a := by
  obtain ⟨frames, hframes⟩ := hb.sub ha
  rw [lt_div_iff₀ spec.rate_cast_pos, hframes] at h
  have hnone : frames ≤ 0 := Int.lt_add_one_iff.mp (by exact_mod_cast h)
  have hscaled : (b - a) * spec.rate.toNat ≤ 0 := by
    rw [hframes]
    exact_mod_cast hnone
  have := nonpos_of_mul_nonpos_left hscaled spec.rate_cast_pos
  linarith

/-- The whole frames inside a time on the grid last exactly that long. -/
theorem OnGrid.wholeBytes_div (h : spec.OnGrid a) :
    (spec.wholeBytes a : ℚ) / spec.bytesPerSecond = max a 0 := by
  rcases le_total a 0 with hneg | hnonneg
  · rw [spec.wholeBytes_of_nonpos hneg, max_eq_right hneg, Nat.cast_zero, zero_div]
  · obtain ⟨frames, hframes⟩ := h
    have hsign : 0 ≤ frames := by
      have hscaled : 0 ≤ a * spec.rate.toNat := mul_nonneg hnonneg spec.rate_cast_pos.le
      rw [hframes] at hscaled
      exact_mod_cast hscaled
    obtain ⟨count, rfl⟩ := Int.eq_ofNat_of_zero_le hsign
    rw [wholeBytes, frames_div, hframes, max_eq_left hnonneg, Int.cast_natCast, Nat.floor_natCast,
      ← Int.cast_natCast, ← hframes, mul_div_cancel_right₀ _ spec.rate_cast_pos.ne']

/-- Less than a frame is inside a time that has no whole frame. -/
theorem lt_of_floor_eq_zero (h : ⌊a * spec.rate.toNat⌋₊ = 0) : a < 1 / spec.rate.toNat := by
  rw [lt_div_iff₀ spec.rate_cast_pos]
  exact Nat.floor_eq_zero.mp h

end TimelineMixer.AudioSpec
