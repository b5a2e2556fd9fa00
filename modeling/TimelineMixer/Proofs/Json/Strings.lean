import Mathlib.Data.Nat.Basic
import Mathlib.Tactic.SplitIfs
import TimelineMixer.Json.Printer
import TimelineMixer.Json.Reader

/-!
# Reading a written string

A character stands in a string as itself, as an escape of one letter, or as an escaped unit
(`escape_cases`). Each of these is one piece for the reader, and the pieces of a text joined are the
text, since no escaped unit that is written is half of a surrogate pair (`readPieces_escape`). So a
string in quotes is read back, whatever its text and whatever stands behind it (`readString_quote`).
-/

set_option autoImplicit false
set_option relaxedAutoImplicit false

namespace TimelineMixer.Json

/-- How a character is written inside a string. -/
theorem escape_cases (c : Char) :
    (∃ letter, letter ≠ 'u' ∧ escaped? letter = some c ∧ escape c = ['\\', letter]) ∨
      (c.toNat < 32 ∧ escape c = '\\' :: 'u' :: Hex.digits 4 c.toNat) ∨
      (32 ≤ c.toNat ∧ c ≠ '"' ∧ c ≠ '\\' ∧ escape c = [c]) := by
  rw [escape]
  split_ifs with hquote hslash hback hfeed hnew hreturn htab hcontrol
  · exact Or.inl ⟨'"', by decide, by rw [hquote]; rfl, rfl⟩
  · exact Or.inl ⟨'\\', by decide, by rw [hslash]; rfl, rfl⟩
  · exact Or.inl ⟨'b', by decide, by rw [hback]; rfl, rfl⟩
  · exact Or.inl ⟨'f', by decide, by rw [hfeed]; rfl, rfl⟩
  · exact Or.inl ⟨'n', by decide, by rw [hnew]; rfl, rfl⟩
  · exact Or.inl ⟨'r', by decide, by rw [hreturn]; rfl, rfl⟩
  · exact Or.inl ⟨'t', by decide, by rw [htab]; rfl, rfl⟩
  · exact Or.inr (Or.inl ⟨hcontrol, rfl⟩)
  · exact Or.inr (Or.inr ⟨not_lt.mp hcontrol, hquote, hslash, rfl⟩)

/-- A unit below the surrogates is a character by itself. -/
theorem joinPieces_unit {value : Nat} (h : value < 0xD800) (pieces : List Piece) :
    joinPieces (.unit value :: pieces) = (joinPieces pieces).map (Char.ofNat value :: ·) := by
  have hhigh : isHighSurrogate value = false := by simp [isHighSurrogate]; omega
  have hlow : isLowSurrogate value = false := by simp [isLowSurrogate]; omega
  rcases pieces with _ | ⟨_ | _, rest⟩ <;> simp [joinPieces, hhigh, hlow]

/-- A written character is one piece, which stands for the character. -/
theorem readPieces_escape (c : Char) (text : List Char) :
    ∃ piece, readPieces (escape c ++ text) =
        (readPieces text).map (fun (pieces, rest) ↦ (piece :: pieces, rest)) ∧
      ∀ pieces, joinPieces (piece :: pieces) = (joinPieces pieces).map (c :: ·) := by
  rcases escape_cases c with ⟨letter, hletter, hescaped, hescape⟩ | ⟨hcontrol, hescape⟩ |
    ⟨hprinted, hquote, hslash, hescape⟩
  · refine ⟨.char c, ?_, fun pieces ↦ rfl⟩
    rw [hescape, List.cons_append, List.cons_append, List.nil_append, readPieces]
    · rw [hescaped]
      cases readPieces text <;> rfl
    · exact fun _ _ _ _ _ h ↦ absurd h hletter
  · refine ⟨.unit c.toNat, ?_, fun pieces ↦ ?_⟩
    · have hdigits := Hex.number?_digits 4 c.toNat
      rw [Nat.mod_eq_of_lt (lt_trans hcontrol (by decide))] at hdigits
      rw [hescape]
      simp only [Hex.digits, List.nil_append, List.cons_append] at hdigits ⊢
      rw [readPieces, hdigits]
      cases readPieces text <;> rfl
    · rw [joinPieces_unit (lt_trans hcontrol (by decide)), Char.ofNat_toNat]
  · refine ⟨.char c, ?_, fun pieces ↦ rfl⟩
    rw [hescape, List.cons_append, List.nil_append, readPieces]
    · rw [if_neg (not_lt.mpr hprinted)]
      cases readPieces text <;> rfl
    · exact hquote
    · exact fun _ _ _ _ _ h ↦ absurd h hslash
    · exact fun _ _ h ↦ absurd h hslash

theorem readPieces_quote (text rest : List Char) :
    ∃ pieces, readPieces (text.flatMap escape ++ '"' :: rest) = some (pieces, rest) ∧
      joinPieces pieces = some text := by
  induction text with
  | nil => exact ⟨[], rfl, rfl⟩
  | cons c more ih =>
    obtain ⟨pieces, hread, hjoin⟩ := ih
    obtain ⟨piece, hescape, hpiece⟩ := readPieces_escape c (more.flatMap escape ++ '"' :: rest)
    refine ⟨piece :: pieces, ?_, ?_⟩
    · rw [List.flatMap_cons, List.append_assoc, hescape, hread]
      rfl
    · rw [hpiece, hjoin]
      rfl

/-- What stands behind the opening quote of a string is read back as its text. -/
theorem readString_quote (text : String) (rest : List Char) :
    readString (text.toList.flatMap escape ++ '"' :: rest) = some (some text, rest) := by
  obtain ⟨pieces, hread, hjoin⟩ := readPieces_quote text.toList rest
  rw [readString, hread]
  change some ((joinPieces pieces).map String.ofList, rest) = _
  rw [hjoin, Option.map_some, String.ofList_toList]

end TimelineMixer.Json
