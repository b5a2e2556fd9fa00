import Mathlib.Order.Bounds.Basic
import TimelineMixer.Proofs.Time.WholeFrames

/-!
# Bytes and durations

A stream format turns a byte count into the time it lasts, and a time into the greatest count of
whole frames that lasts no longer. On counts below 2^63 the first conversion is exact, so it adds up
(`duration_add`, `foldl_duration`) and keeps the order (`duration_lt_duration_iff`). The second is
its adjoint: a count of whole frames lasts no longer than a time exactly if it is at most the bytes
inside the time (`duration_le_iff`), also for a time so long that the bytes inside it are clamped to
a word. From one to the other and back only an incomplete frame is lost (`bytesIn_duration`).
-/

set_option autoImplicit false
set_option relaxedAutoImplicit false

namespace TimelineMixer

/-- Clamping a number leaves the counts of fewer than 64 bits below it. -/
theorem le_toNat_clampWord_iff {count : Nat} (hcount : count < 2 ^ 63) {n : Int} (hn : 0 ≤ n) :
    count ≤ (clampWord n).toNat ↔ (count : Int) ≤ n := by
  unfold clampWord
  omega

namespace AudioSpec

variable (spec : AudioSpec)

/-! ### From bytes to time -/

/-- Counts that are added last as long as one after the other. -/
theorem duration_add {first second : Nat} (h : first + second < 2 ^ 63) :
    spec.duration (first + second) = spec.duration first + spec.duration second := by
  have hsum : (spec.duration first).toRat + (second : ℚ) / spec.bytesPerSecond =
      ((first + second : Nat) : ℚ) / spec.bytesPerSecond := by
    rw [spec.toRat_duration (by omega), Nat.cast_add, add_div]
  have hfits : Seconds.Fits ((spec.duration first).toRat + second / spec.bytesPerSecond) := by
    rw [hsum]
    exact spec.fits_count h
  apply Seconds.toRat_injective
  rw [spec.toRat_add_duration (by omega) hfits, hsum, spec.toRat_duration h]

/-- A longer count lasts longer. -/
theorem duration_lt_duration_iff {first second : Nat} (hfirst : first < 2 ^ 63)
    (hsecond : second < 2 ^ 63) :
    spec.duration first < spec.duration second ↔ first < second := by
  rw [Seconds.lt_def, spec.toRat_duration hfirst, spec.toRat_duration hsecond,
    div_lt_div_iff_of_pos_right spec.bytesPerSecond_cast_pos, Nat.cast_lt]

theorem duration_nonneg (bytes : Nat) : 0 ≤ spec.duration bytes := by
  rw [Seconds.le_def, Seconds.toRat_zero, toRat_duration_eq]
  exact div_nonneg (Nat.cast_nonneg _) spec.bytesPerSecond_cast_pos.le

/-- By induction over the counts, which are added behind those before: the time of their sum. -/
theorem foldl_duration (before : Nat) {counts : List Nat} (h : before + counts.sum < 2 ^ 63) :
    counts.foldl (fun total bytes ↦ total + spec.duration bytes) (spec.duration before) =
      spec.duration (before + counts.sum) := by
  induction counts generalizing before with
  | nil => rfl
  | cons bytes rest ih =>
    rw [List.sum_cons, ← Nat.add_assoc] at h ⊢
    rw [List.foldl_cons, ← spec.duration_add (by omega)]
    exact ih (before + bytes) h

/-! ### From time to bytes -/

theorem alignDown_le (bytes : Nat) : spec.alignDown bytes ≤ bytes :=
  Nat.sub_le _ _

theorem frameBytes_dvd_alignDown (bytes : Nat) : spec.frameBytes ∣ spec.alignDown bytes :=
  Nat.dvd_sub_mod bytes

theorem le_alignDown_iff {bytes count : Nat} (h : spec.frameBytes ∣ bytes) :
    bytes ≤ spec.alignDown count ↔ bytes ≤ count :=
  ⟨fun hle ↦ hle.trans (spec.alignDown_le count), spec.le_alignDown h⟩

theorem bytesIn_of_nonneg {length : Seconds} (h : 0 ≤ length) :
    spec.bytesIn length =
      spec.alignDown (clampWord ⌊length.toRat * spec.bytesPerSecond⌋).toNat := by
  rw [Seconds.le_def, Seconds.toRat_zero] at h
  rw [bytesIn, if_neg (Rat.num_nonneg.mpr h).not_gt, floorMul_eq]

theorem frameBytes_dvd_bytesIn (length : Seconds) : spec.frameBytes ∣ spec.bytesIn length := by
  rw [bytesIn]
  split_ifs
  · exact Nat.dvd_zero _
  · exact spec.frameBytes_dvd_alignDown _

theorem bytesIn_lt (length : Seconds) : spec.bytesIn length < 2 ^ 63 := by
  have hclamped := clampWord_lt (length.num * spec.bytesPerSecond / length.den)
  have haligned := spec.alignDown_le (length.floorMul spec.bytesPerSecond).toNat
  rw [Seconds.floorMul] at haligned
  rw [bytesIn, Seconds.floorMul]
  split_ifs
  · omega
  · omega

/-- A count of whole frames lasts no longer than a time exactly if it is at most the bytes inside
the time. -/
theorem duration_le_iff {length : Seconds} (hlength : 0 ≤ length) {bytes : Nat}
    (hwhole : spec.frameBytes ∣ bytes) (hbytes : bytes < 2 ^ 63) :
    spec.duration bytes ≤ length ↔ bytes ≤ spec.bytesIn length := by
  have hproduct : 0 ≤ ⌊length.toRat * spec.bytesPerSecond⌋ := by
    rw [Seconds.le_def, Seconds.toRat_zero] at hlength
    exact Int.floor_nonneg.mpr (mul_nonneg hlength spec.bytesPerSecond_cast_pos.le)
  calc spec.duration bytes ≤ length
      ↔ (bytes : ℚ) / spec.bytesPerSecond ≤ length.toRat := by
        rw [Seconds.le_def, spec.toRat_duration hbytes]
    _ ↔ (bytes : ℚ) ≤ length.toRat * spec.bytesPerSecond :=
        div_le_iff₀ spec.bytesPerSecond_cast_pos
    _ ↔ (bytes : Int) ≤ ⌊length.toRat * spec.bytesPerSecond⌋ := by
        rw [Int.le_floor, Int.cast_natCast]
    _ ↔ bytes ≤ (clampWord ⌊length.toRat * spec.bytesPerSecond⌋).toNat := by
        rw [le_toNat_clampWord_iff hbytes hproduct]
    _ ↔ bytes ≤ spec.bytesIn length := by
        rw [spec.bytesIn_of_nonneg hlength, spec.le_alignDown_iff hwhole]

/-- The bytes inside the time that a count lasts are those of its whole frames. -/
theorem bytesIn_duration {bytes : Nat} (h : bytes < 2 ^ 63) :
    spec.bytesIn (spec.duration bytes) = spec.alignDown bytes := by
  have hexact : (spec.duration bytes).toRat * spec.bytesPerSecond = bytes := by
    rw [spec.toRat_duration h, div_mul_cancel₀ _ spec.bytesPerSecond_cast_pos.ne']
  rw [spec.bytesIn_of_nonneg (spec.duration_nonneg bytes), hexact, Int.floor_natCast,
    clampWord_of_fits (by omega) (by omega), Int.toNat_natCast]

/-! ### The two conversions together -/

/-- The bytes inside a time are the greatest count of whole frames that lasts no longer. -/
theorem isGreatest_bytesIn {length : Seconds} (h : 0 ≤ length) :
    IsGreatest {bytes | spec.frameBytes ∣ bytes ∧ bytes < 2 ^ 63 ∧ spec.duration bytes ≤ length}
      (spec.bytesIn length) := by
  have hwhole := spec.frameBytes_dvd_bytesIn length
  have hword := spec.bytesIn_lt length
  refine ⟨⟨hwhole, hword, (spec.duration_le_iff h hwhole hword).mpr le_rfl⟩, ?_⟩
  rintro bytes ⟨hframes, hbytes, hfits⟩
  exact (spec.duration_le_iff h hframes hbytes).mp hfits

/-- Counts below 2^63 last exactly their bytes divided by the byte rate, one after the other as long
as together, and longer the longer they are. A count of whole frames lasts no longer than a time
exactly if it is at most the bytes inside the time, which are the greatest such count. Converted to
a time and back, a count, and any number of counts added up as times, comes to its whole frames. -/
theorem duration_bytesIn_adjoint (spec : AudioSpec) :
    (∀ first second, first + second < 2 ^ 63 →
      spec.duration (first + second) = spec.duration first + spec.duration second ∧
      (spec.duration first + spec.duration second).toRat =
        first / spec.bytesPerSecond + second / spec.bytesPerSecond) ∧
    (∀ first second, first < 2 ^ 63 → second < 2 ^ 63 →
      (spec.duration first < spec.duration second ↔ first < second)) ∧
    (∀ length : Seconds, 0 ≤ length →
      (∀ bytes, spec.frameBytes ∣ bytes → bytes < 2 ^ 63 →
        (spec.duration bytes ≤ length ↔ bytes ≤ spec.bytesIn length)) ∧
      IsGreatest {bytes | spec.frameBytes ∣ bytes ∧ bytes < 2 ^ 63 ∧ spec.duration bytes ≤ length}
        (spec.bytesIn length)) ∧
    (∀ bytes, bytes < 2 ^ 63 → spec.bytesIn (spec.duration bytes) = spec.alignDown bytes) ∧
    ∀ counts : List Nat, counts.sum < 2 ^ 63 →
      spec.bytesIn (counts.foldl (fun total bytes ↦ total + spec.duration bytes) 0) =
        spec.alignDown counts.sum := by
  refine ⟨fun first second hsum ↦ ⟨spec.duration_add hsum, ?_⟩,
    fun _ _ ↦ spec.duration_lt_duration_iff,
    fun _ hlength ↦ ⟨fun _ ↦ spec.duration_le_iff hlength, spec.isGreatest_bytesIn hlength⟩,
    fun _ ↦ spec.bytesIn_duration, fun counts hsum ↦ ?_⟩
  · rw [← spec.duration_add hsum, spec.toRat_duration hsum, Nat.cast_add, add_div]
  · have htotal := spec.foldl_duration 0 (by rwa [Nat.zero_add])
    rw [duration_zero, Nat.zero_add] at htotal
    rw [htotal, spec.bytesIn_duration hsum]

/-- The widest format and the longest counts. The longest time of whole seconds has more bytes than
a word can count, and the bytes inside it are clamped. In half a frame less than three there are two
frames. -/
theorem duration_bytesIn_adjoint_widest :
    let spec : AudioSpec := ⟨.f32le, 0xffffffff, 0xffff, by decide, by decide⟩
    let longest : Seconds := .ofInt 0x7fffffffffffffff
    let most := spec.alignDown (2 ^ 63 - 1)
    let short : Seconds := .ofRat (mkRat 5 (2 * spec.rate.toNat))
    (2 ^ 62 + (2 ^ 62 - 1) < 2 ^ 63 ∧
      spec.duration (2 ^ 62 + (2 ^ 62 - 1)) =
        spec.duration (2 ^ 62) + spec.duration (2 ^ 62 - 1)) ∧
    (2 ^ 63 - 2 < 2 ^ 63 ∧ 2 ^ 63 - 1 < 2 ^ 63 ∧
      spec.duration (2 ^ 63 - 2) < spec.duration (2 ^ 63 - 1)) ∧
    (0 ≤ longest ∧ longest.num * spec.bytesPerSecond > 2 ^ 64 ∧ spec.frameBytes ∣ most ∧
      most < 2 ^ 63 ∧ most ≤ spec.bytesIn longest) ∧
    (0 ≤ short ∧ spec.bytesIn short = 2 * spec.frameBytes ∧
      IsGreatest {bytes | spec.frameBytes ∣ bytes ∧ bytes < 2 ^ 63 ∧ spec.duration bytes ≤ short}
        (2 * spec.frameBytes)) ∧
    (2 ^ 63 - 1 < 2 ^ 63 ∧ spec.bytesIn (spec.duration (2 ^ 63 - 1)) = most) ∧
    [7, 2 ^ 62, 5].sum < 2 ^ 63 ∧
      spec.bytesIn ([7, 2 ^ 62, 5].foldl (fun total bytes ↦ total + spec.duration bytes) 0) =
        spec.alignDown (2 ^ 62 + 12) := by
  intro spec longest most short
  obtain ⟨hadd, hlt, hadjoint, hback, htotal⟩ := duration_bytesIn_adjoint spec
  have hlongest : 0 ≤ longest := by decide +kernel
  have hframes : spec.frameBytes ∣ most := spec.frameBytes_dvd_alignDown _
  have hmost : most < 2 ^ 63 := by decide +kernel
  have hshort : 0 ≤ short := by decide +kernel
  have htwo : spec.bytesIn short = 2 * spec.frameBytes := by decide +kernel
  refine ⟨⟨by decide, (hadd _ _ (by decide)).1⟩,
    ⟨by decide, by decide, (hlt _ _ (by decide) (by decide)).mpr (by decide)⟩,
    ⟨hlongest, by decide +kernel, hframes, hmost,
      ((hadjoint longest hlongest).1 most hframes hmost).mp (by decide +kernel)⟩,
    ⟨hshort, htwo, htwo ▸ (hadjoint short hshort).2⟩,
    ⟨by decide, hback _ (by decide)⟩, by decide, ?_⟩
  exact htotal [7, 2 ^ 62, 5] (by decide)

end AudioSpec

end TimelineMixer
