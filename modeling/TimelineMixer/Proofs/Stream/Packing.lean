import Mathlib.Algebra.GroupWithZero.Nat
import Mathlib.Data.List.Basic
import Mathlib.Logic.Function.Basic
import TimelineMixer.AudioSpec

/-!
# The packed stream format

A packed format is a number in which the encoding counts by 2^48, the channels by 2^32 and the rate
by ones, none of them reaching the next place (`toNat_pack`). A word holds a format exactly if its
lowest 56 bits are that number (`unpack?_eq_some_iff`), so a cell into which formats are stored
never holds a word that it could not read (`SpecCell.load_stores`).
-/

set_option autoImplicit false
set_option relaxedAutoImplicit false

namespace TimelineMixer

theorem SampleFormat.ofCode?_eq_some_iff {code : UInt8} {format : SampleFormat} :
    ofCode? code = some format ↔ code = 1 := by
  cases format
  simp [ofCode?]

namespace AudioSpec

/-- The fields of a packed format stand in places of their own. -/
theorem toNat_pack (spec : AudioSpec) :
    spec.pack.toNat = 2 ^ 48 + spec.channels.toNat * 2 ^ 32 + spec.rate.toNat := by
  have hcode : spec.format.code = 1 := by cases spec.format; rfl
  have hchannels : spec.channels.toNat < 2 ^ 16 := spec.channels.toNat_lt
  have hrate : spec.rate.toNat < 2 ^ 32 := spec.rate.toNat_lt
  have hshifted : (spec.channels.toUInt64 <<< 32).toNat = 2 ^ 32 * spec.channels.toNat := by
    rw [UInt64.toNat_shiftLeft, UInt16.toNat_toUInt64]
    change spec.channels.toNat <<< 32 % 2 ^ 64 = _
    rw [Nat.shiftLeft_eq, Nat.mod_eq_of_lt (by omega), Nat.mul_comm]
  have hencoding : (spec.format.code.toUInt64 <<< 48).toNat = 2 ^ 48 * 1 := by
    rw [hcode]
    rfl
  calc spec.pack.toNat
      = 2 ^ 48 * 1 ||| 2 ^ 32 * spec.channels.toNat ||| spec.rate.toNat := by
        rw [pack, UInt64.toNat_or, UInt64.toNat_or, hencoding, hshifted, UInt32.toNat_toUInt64]
    _ = 2 ^ 48 * 1 + (2 ^ 32 * spec.channels.toNat + spec.rate.toNat) := by
        rw [Nat.or_assoc, ← Nat.two_pow_add_eq_or_of_lt hrate,
          ← Nat.two_pow_add_eq_or_of_lt (by omega)]
    _ = 2 ^ 48 + spec.channels.toNat * 2 ^ 32 + spec.rate.toNat := by omega

theorem make_eq_ok_iff {format : SampleFormat} {rate : UInt32} {channels : UInt16}
    {spec : AudioSpec} : make format rate channels = .ok spec ↔
      format = spec.format ∧ rate = spec.rate ∧ channels = spec.channels := by
  constructor
  · intro h
    rw [make] at h
    split_ifs at h
    obtain rfl := Except.ok.inj h
    exact ⟨rfl, rfl, rfl⟩
  · rintro ⟨rfl, rfl, rfl⟩
    exact make_self spec

/-- A word is read field by field. -/
theorem unpack?_eq_some_iff_fields {word : UInt64} {spec : AudioSpec} :
    unpack? word = some spec ↔ (word >>> 48).toUInt8 = 1 ∧ word.toUInt32 = spec.rate ∧
      (word >>> 32).toUInt16 = spec.channels := by
  have hmade : ∀ made : Except Fault AudioSpec, made.toOption = some spec ↔ made = .ok spec := by
    intro made
    cases made <;> simp [Except.toOption]
  change (SampleFormat.ofCode? _).bind _ = _ ↔ _
  rw [Option.bind_eq_some_iff]
  constructor
  · rintro ⟨format, hformat, hrest⟩
    exact ⟨SampleFormat.ofCode?_eq_some_iff.mp hformat,
      (make_eq_ok_iff.mp ((hmade _).mp hrest)).2⟩
  · rintro ⟨hcode, hrest⟩
    exact ⟨spec.format, SampleFormat.ofCode?_eq_some_iff.mpr hcode,
      (hmade _).mpr (make_eq_ok_iff.mpr ⟨rfl, hrest⟩)⟩

/-- A word holds a format exactly if its lowest 56 bits are the packed format. -/
theorem unpack?_eq_some_iff {word : UInt64} {spec : AudioSpec} :
    unpack? word = some spec ↔ word.toNat % 2 ^ 56 = spec.pack.toNat := by
  have hchannels : spec.channels.toNat < 2 ^ 16 := spec.channels.toNat_lt
  have hrate : spec.rate.toNat < 2 ^ 32 := spec.rate.toNat_lt
  have hcodeAt : (word >>> 48).toUInt8.toNat = word.toNat / 2 ^ 48 % 2 ^ 8 := by
    rw [UInt64.toNat_toUInt8, UInt64.toNat_shiftRight, Nat.shiftRight_eq_div_pow]
    rfl
  have hchannelsAt : (word >>> 32).toUInt16.toNat = word.toNat / 2 ^ 32 % 2 ^ 16 := by
    rw [UInt64.toNat_toUInt16, UInt64.toNat_shiftRight, Nat.shiftRight_eq_div_pow]
    rfl
  have hrateAt : word.toUInt32.toNat = word.toNat % 2 ^ 32 := UInt64.toNat_toUInt32 word
  rw [unpack?_eq_some_iff_fields, toNat_pack, ← UInt8.toNat_inj, ← UInt32.toNat_inj,
    ← UInt16.toNat_inj, hcodeAt, hchannelsAt, hrateAt]
  change _ = 1 ∧ _ ↔ _
  omega

theorem pack_injective : Function.Injective pack := by
  intro first second h
  have hread := unpack?_pack first
  rw [h, unpack?_pack] at hread
  exact (Option.some.inj hread).symm

end AudioSpec

namespace SpecCell

open AudioSpec

/-- The last stored format is in the cell, or the one that it was made with. -/
theorem word_stores (first : AudioSpec) (specs : List AudioSpec) :
    (specs.foldl store (new first)).word = (specs.getLastD first).pack := by
  rcases List.eq_nil_or_concat' specs with rfl | ⟨before, last, rfl⟩
  · rfl
  · rw [List.foldl_append, List.getLastD_concat]
    rfl

/-- Packing loses nothing: a packed format is read back, two formats are never packed alike, and a
word is read as a format exactly if its lowest 56 bits are that one packed. After any stores a cell
holds a word that is read as the format stored last, so it never falls back to the standard one. -/
theorem load_stores (first : AudioSpec) (specs : List AudioSpec) :
    (∀ spec, unpack? spec.pack = some spec) ∧ Function.Injective pack ∧
    (∀ word spec, unpack? word = some spec ↔ word.toNat % 2 ^ 56 = spec.pack.toNat) ∧
    let cell := specs.foldl store (new first)
    unpack? cell.word = some (specs.getLastD first) ∧ cell.load = specs.getLastD first := by
  have hheld : unpack? (specs.foldl store (new first)).word = some (specs.getLastD first) := by
    rw [word_stores, unpack?_pack]
  refine ⟨unpack?_pack, pack_injective, fun _ _ ↦ unpack?_eq_some_iff, hheld, ?_⟩
  rw [load, hheld, Option.getD_some]

end SpecCell

end TimelineMixer
