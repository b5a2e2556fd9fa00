import TimelineMixer.Deck
import TimelineMixer.Proofs.Time.Fallback

/-!
# A clock that runs forwards

The time a clock shows is what is stored for the exact sum of its start and the length of its
bytes. A later sum may be stored as an earlier time: it may not fit where the earlier one did, and
then its count of nanoseconds is rounded down and clamped, and falls behind. Or the earlier sum did
not fit and was raised to the least count of nanoseconds, while the later one is below it and fits.
There is no other way back (`ofRat_le_ofRat_iff`): between two sums that are both rounded, or from a
rounded one to one that fits, a byte is too long to be lost, since it takes at least the
hundred-billionth part of a nanosecond at every byte rate.

So a clock runs forwards as long as a byte takes at least a nanosecond and the time is within 292
years of zero (`time_le_time_iff_keepsUp`).
-/

set_option autoImplicit false
set_option relaxedAutoImplicit false

namespace TimelineMixer

namespace Seconds

variable {q r : ℚ}

/-- What is stored for a fraction does not fall behind what is stored for an earlier one: if only
the earlier one fits, the clamped count of the later one reaches it, and if only the later one fits,
it is not below the least count. -/
def KeepsUp (q r : ℚ) : Prop :=
  (Fits q → Fits r ∨ q * nanos ≤ clampWord (counted r)) ∧
    (Fits r → Fits q ∨ -0x8000000000000000 ≤ r * nanos)

instance (q r : ℚ) : Decidable (KeepsUp q r) :=
  inferInstanceAs (Decidable (_ ∧ _))

theorem clampWord_le_clampWord {m n : ℤ} (h : m ≤ n) : clampWord m ≤ clampWord n := by
  unfold clampWord
  omega

/-- Clamping raises a count above a bound only if the bound lies below all words. -/
theorem clampWord_le_iff {n : ℤ} {bound : ℚ} (h : n ≤ bound) :
    clampWord n ≤ bound ↔ -0x8000000000000000 ≤ bound := by
  have hlow : (-0x8000000000000000 : ℚ) ≤ clampWord n := by exact_mod_cast neg_le_clampWord n
  constructor
  · exact hlow.trans
  · intro hbound
    rcases max_choice (-0x8000000000000000) (min n 0x7fffffffffffffff) with hmax | hmax
    · rw [clampWord, hmax]
      exact_mod_cast hbound
    · rw [clampWord, hmax]
      exact le_trans (by exact_mod_cast min_le_left _ _) h

variable (q) in
theorem floor_le_counted : ⌊q * nanos⌋ ≤ counted q := by
  rw [counted_eq]
  split_ifs <;> omega

/-- The stored times of two sums that are equal or no less than a byte apart. -/
theorem ofRat_le_ofRat_iff (h : q = r ∨ q * nanos + 1 / 10 ^ 11 ≤ r * nanos) :
    ofRat q ≤ ofRat r ↔ KeepsUp q r := by
  have hmono : q * nanos ≤ r * nanos := by
    rcases h with rfl | hgap
    · exact le_rfl
    · linarith
  rw [le_def, KeepsUp]
  by_cases hq : Fits q <;> by_cases hr : Fits r
  · rw [toRat_ofRat hq, toRat_ofRat hr]
    simpa [hq, hr] using le_of_mul_le_mul_right hmono nanos_cast_pos
  · rw [toRat_ofRat hq, toRat_ofRat_of_not_fits hr, le_div_iff₀ nanos_cast_pos]
    simp [hq, hr]
  · have hgap : q * nanos + 1 / 10 ^ 11 ≤ r * nanos := h.resolve_left (fun heq ↦ hq (heq ▸ hr))
    rw [toRat_ofRat_of_not_fits hq, toRat_ofRat hr, div_le_iff₀ nanos_cast_pos,
      clampWord_le_iff ((counted_le q).trans hgap)]
    simp [hq, hr]
  · have hcounts : counted q ≤ counted r := by
      rcases h with rfl | hgap
      · exact le_rfl
      · have hless : (counted q : ℚ) < counted r + 1 :=
          calc (counted q : ℚ) ≤ q * nanos + 1 / 10 ^ 11 := counted_le q
            _ ≤ r * nanos := hgap
            _ < ⌊r * nanos⌋ + 1 := Int.lt_floor_add_one _
            _ ≤ counted r + 1 := by exact_mod_cast add_le_add_left (floor_le_counted r) 1
        exact Int.lt_add_one_iff.mp (by exact_mod_cast hless)
    rw [toRat_ofRat_of_not_fits hq, toRat_ofRat_of_not_fits hr]
    have hclamped := clampWord_le_clampWord hcounts
    simpa [hq, hr] using div_le_div_of_nonneg_right (by exact_mod_cast hclamped) nanos_cast_pos.le

/-- Within 292 years of zero, a nanosecond later is late enough. -/
theorem keepsUp_of_nanosecond (h : q = r ∨ q * nanos + 1 ≤ r * nanos)
    (hlow : -0x8000000000000000 ≤ q * nanos) (hhigh : r * nanos < 0x8000000000000000) :
    KeepsUp q r := by
  have hmono : q * nanos ≤ r * nanos := by
    rcases h with rfl | hgap
    · exact le_rfl
    · linarith
  refine ⟨fun hq ↦ or_iff_not_imp_left.mpr fun hr ↦ ?_, fun _ ↦ Or.inr (hlow.trans hmono)⟩
  have hgap : q * nanos + 1 ≤ r * nanos := h.resolve_left (fun heq ↦ hr (heq ▸ hq))
  have hcount : q * nanos ≤ counted r :=
    calc q * nanos ≤ r * nanos - 1 := by linarith
      _ ≤ ⌊r * nanos⌋ := (Int.sub_one_lt_floor _).le
      _ ≤ counted r := by exact_mod_cast floor_le_counted r
  have hword : q * nanos ≤ 0x7fffffffffffffff := by linarith
  have hclamp : min (counted r) 0x7fffffffffffffff ≤ clampWord (counted r) := le_max_right _ _
  calc q * nanos ≤ min (counted r : ℚ) 0x7fffffffffffffff := le_min hcount hword
    _ ≤ clampWord (counted r) := by exact_mod_cast hclamp

end Seconds

namespace Clock

variable {spec : AudioSpec} {earlier later : Clock}

/-- The sum of the start and the length of the bytes, before it is stored. -/
def sum (clock : Clock) (spec : AudioSpec) : ℚ :=
  clock.start.toRat + (spec.duration clock.bytes).toRat

theorem time_eq_ofRat_sum (clock : Clock) (spec : AudioSpec) :
    clock.time spec = .ofRat (clock.sum spec) :=
  Seconds.add_eq _ _

/-- One clock counts from the same start as another and no fewer bytes. -/
def Continues (earlier later : Clock) : Prop :=
  later.start = earlier.start ∧ earlier.bytes ≤ later.bytes

/-- Counts beyond 63 bits are the same; others differ by the length of a byte. -/
theorem Continues.sum_eq_or (h : earlier.Continues later) :
    earlier.sum spec = later.sum spec ∨
      earlier.sum spec + 1 / spec.bytesPerSecond ≤ later.sum spec := by
  obtain ⟨hstart, hbytes⟩ := h
  have hrate := spec.bytesPerSecond_cast_pos
  rw [sum, sum, hstart, spec.toRat_duration_eq, spec.toRat_duration_eq, add_right_inj,
    add_assoc, add_le_add_iff_left, ← add_div, div_le_div_iff_of_pos_right hrate]
  rcases (min_le_min_right 0x7fffffffffffffff hbytes).eq_or_lt with heq | hlt
  · exact Or.inl (by rw [heq])
  · exact Or.inr (by exact_mod_cast hlt)

theorem Continues.time_le_iff (h : earlier.Continues later) :
    earlier.time spec ≤ later.time spec ↔
      Seconds.KeepsUp (earlier.sum spec) (later.sum spec) := by
  have hrate := spec.bytesPerSecond_cast_pos
  have hshort : (1 / 10 ^ 11 : ℚ) ≤ 1 / spec.bytesPerSecond * Seconds.nanos := by
    have hless : (spec.bytesPerSecond : ℚ) < 2 ^ 63 := by exact_mod_cast spec.bytesPerSecond_lt
    rw [div_mul_eq_mul_div, one_mul, div_le_div_iff₀ (by norm_num) hrate, Seconds.nanos]
    norm_num at hless ⊢
    linarith
  rw [time_eq_ofRat_sum, time_eq_ofRat_sum]
  refine Seconds.ofRat_le_ofRat_iff (h.sum_eq_or.imp_right fun hgap ↦ ?_)
  have hscaled := mul_le_mul_of_nonneg_right hgap Seconds.nanos_cast_pos.le
  rw [add_mul] at hscaled
  linarith

/-- Where a byte takes at least a nanosecond, the clock runs forwards within 292 years of zero. -/
theorem Continues.time_le_of_rate (h : earlier.Continues later)
    (hrate : spec.bytesPerSecond ≤ Seconds.nanos)
    (hlow : -0x8000000000000000 ≤ earlier.sum spec * Seconds.nanos)
    (hhigh : later.sum spec * Seconds.nanos < 0x8000000000000000) :
    earlier.time spec ≤ later.time spec := by
  have hlong : 1 ≤ 1 / spec.bytesPerSecond * (Seconds.nanos : ℚ) := by
    rw [div_mul_eq_mul_div, one_mul, one_le_div spec.bytesPerSecond_cast_pos]
    exact_mod_cast hrate
  refine h.time_le_iff.mpr (Seconds.keepsUp_of_nanosecond (h.sum_eq_or.imp_right fun hgap ↦ ?_)
    hlow hhigh)
  have hscaled := mul_le_mul_of_nonneg_right hgap Seconds.nanos_cast_pos.le
  rw [add_mul] at hscaled
  linarith

/-- Sums from zero on are never rounded. -/
theorem Continues.time_le_of_start_eq_zero (h : earlier.Continues later)
    (hzero : earlier.start = 0) : earlier.time spec ≤ later.time spec := by
  have hfits : ∀ clock : Clock, clock.start = 0 → Seconds.Fits (clock.sum spec) := by
    intro clock hstart
    rw [sum, hstart, Seconds.toRat_zero, Rat.zero_add]
    exact (spec.duration clock.bytes).fits
  have hlater := hfits later (h.1.trans hzero)
  exact h.time_le_iff.mpr ⟨fun _ ↦ Or.inl hlater, fun _ ↦ Or.inl (hfits earlier hzero)⟩

theorem continues_advance {clock : Clock} (hword : clock.bytes < 2 ^ 64) (bytes : Nat) :
    clock.Continues (clock.advance bytes) :=
  ⟨rfl, le_min (Nat.le_add_right _ _) (by omega)⟩

/-- A clock that counts on from the same start shows no earlier time exactly if what is stored keeps
up with the exact sum, and so does a deck that counts bytes as sent. It keeps up while a byte takes
at least a nanosecond and the sums lie within 292 years of zero, and always from a start at zero. -/
theorem time_le_time_iff_keepsUp (spec : AudioSpec) (earlier later : Clock) (deck : Deck)
    (bytes : Nat) :
    (earlier.Continues later →
      (earlier.time spec ≤ later.time spec ↔
        Seconds.KeepsUp (earlier.sum spec) (later.sum spec)) ∧
      (spec.bytesPerSecond ≤ Seconds.nanos →
        -0x8000000000000000 ≤ earlier.sum spec * Seconds.nanos →
        later.sum spec * Seconds.nanos < 0x8000000000000000 →
        earlier.time spec ≤ later.time spec) ∧
      (earlier.start = 0 → earlier.time spec ≤ later.time spec)) ∧
    (deck.clock.bytes < 2 ^ 64 →
      (deck.time ≤ (deck.advance bytes).time ↔
        Seconds.KeepsUp (deck.clock.sum deck.spec)
          ((deck.clock.advance bytes).sum deck.spec))) :=
  ⟨fun h ↦ ⟨h.time_le_iff, h.time_le_of_rate, h.time_le_of_start_eq_zero⟩,
    fun hword ↦ (continues_advance hword bytes).time_le_iff⟩

/-- A timeline of one atom without layers. -/
def silentTimeline (stop : Seconds) (hstop : 0 ≤ stop) : Timeline :=
  ⟨[⟨0, stop, []⟩], by simp [Atom.Ordered, hstop]⟩

/-- A deck that plays a timeline of one silent atom and was put at a time of it. -/
def soughtDeck (spec : AudioSpec) (stop : Seconds) (hstop : 0 ≤ stop) (position : Seconds) : Deck :=
  ((Deck.new spec 1).publish (silentTimeline stop hstop)).seek 0 position

/-- A frame after a time with a large denominator the sum is rounded, and the clock has still gone
forwards. -/
theorem time_le_time_iff_keepsUp_rounded :
    let deck := soughtDeck .standard (.ofInt 3600) (by decide +kernel)
      (.ofRat (mkRat 1 (10 ^ 15 + 37)))
    let later := deck.clock.advance 8
    (deck.clock.Continues later ∧ deck.spec.bytesPerSecond ≤ Seconds.nanos ∧
      -0x8000000000000000 ≤ deck.clock.sum deck.spec * Seconds.nanos ∧
      later.sum deck.spec * Seconds.nanos < 0x8000000000000000) ∧
    ¬ Seconds.Fits (later.sum deck.spec) ∧ deck.clock.time deck.spec ≤ later.time deck.spec ∧
    (deck.clock.bytes < 2 ^ 64 ∧ deck.time ≤ (deck.advance 8).time) ∧
    zero.Continues (zero.advance 8) ∧ zero.start = 0 ∧
      zero.time deck.spec ≤ (zero.advance 8).time deck.spec := by
  intro deck later
  have hword : deck.clock.bytes < 2 ^ 64 := by decide +kernel
  have hcontinues : deck.clock.Continues later := continues_advance hword 8
  have hrate : deck.spec.bytesPerSecond ≤ Seconds.nanos := by decide +kernel
  have hlow : -0x8000000000000000 ≤ deck.clock.sum deck.spec * Seconds.nanos := by decide +kernel
  have hhigh : later.sum deck.spec * Seconds.nanos < 0x8000000000000000 := by decide +kernel
  have hzero : zero.Continues (zero.advance 8) := continues_advance (by decide) 8
  obtain ⟨hclocks, hdeck⟩ := time_le_time_iff_keepsUp deck.spec deck.clock later deck 8
  obtain ⟨-, hnear, -⟩ := hclocks hcontinues
  obtain ⟨hfresh, -⟩ := time_le_time_iff_keepsUp deck.spec zero (zero.advance 8) deck 8
  obtain ⟨-, -, hstart⟩ := hfresh hzero
  exact ⟨⟨hcontinues, hrate, hlow, hhigh⟩, by decide +kernel, hnear hrate hlow hhigh,
    ⟨hword, (hdeck hword).mpr (by decide +kernel)⟩, hzero, rfl, hstart rfl⟩

/-- Thirty million years into a timeline, one frame takes the clock back to the largest count of
nanoseconds, 292 years. Near zero, a frame of a quarter of a nanosecond takes it back to zero. -/
theorem not_time_le_time_beyond_nanos :
    (let position : Seconds := .ofInt (10 ^ 15)
      let deck := soughtDeck .standard (.ofInt (2 * 10 ^ 15)) (by decide +kernel) position
      ¬ deck.time ≤ (deck.advance 8).time ∧
        (deck.advance 8).time = .ofRat (mkRat 0x7fffffffffffffff (10 ^ 9))) ∧
    let spec : AudioSpec := ⟨.f32le, 4000000000, 1, by decide, by decide⟩
    let position : Seconds := .ofRat (mkRat 3 (10 ^ 10 + 19))
    let deck := soughtDeck spec (.ofInt 1) (by decide +kernel) position
    ¬ deck.time ≤ (deck.advance 4).time ∧ (deck.advance 4).time = 0 := by
  decide +kernel

end Clock

end TimelineMixer
