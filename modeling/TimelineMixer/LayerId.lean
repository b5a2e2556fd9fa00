import TimelineMixer.Hex

/-!
# Layer identity

A layer is named by a 128-bit value. Its written form has five groups of hexadecimal digits
joined by hyphens; it is also read without the hyphens, in braces, or after `urn:uuid:`.
-/

set_option autoImplicit false
set_option relaxedAutoImplicit false

namespace TimelineMixer

/-- The identity of a layer. -/
structure LayerId where
  value : BitVec 128
  deriving DecidableEq, Inhabited

namespace LayerId

/-- The identity with the given value, modulo its width. -/
def ofNat (n : Nat) : LayerId :=
  ⟨BitVec.ofNat 128 n⟩

/-- Digits in each group of the written form. -/
def groups : List Nat := [8, 4, 4, 4, 12]

/-- Cuts digits into groups, a hyphen between two. -/
def hyphenate : List Nat → List Char → List Char
  | [], digits => digits
  | [_], digits => digits
  | size :: sizes, digits => digits.take size ++ '-' :: hyphenate sizes (digits.drop size)

/-- Removes the hyphens, which have to stand exactly between the groups. -/
def unhyphenate? : List Nat → List Char → Option (List Char)
  | [], text => some text
  | [_], text => some text
  | size :: sizes, text =>
    match text.drop size with
    | '-' :: rest => (unhyphenate? sizes rest).map (text.take size ++ ·)
    | _ => none

theorem unhyphenate?_hyphenate (sizes : List Nat) (digits : List Char)
    (h : sizes.foldr (· + ·) 0 ≤ digits.length) :
    unhyphenate? sizes (hyphenate sizes digits) = some digits := by
  fun_induction hyphenate sizes digits with
  | case1 => rfl
  | case2 => rfl
  | case3 size sizes digits notSingle ih =>
    have room : size ≤ digits.length := by simp at h; omega
    have rest : sizes.foldr (· + ·) 0 ≤ (digits.drop size).length := by
      simp only [List.foldr_cons, List.length_drop] at h ⊢; omega
    have length : (digits.take size).length = size := by simp [room]
    have cut : (digits.take size ++ '-' :: hyphenate sizes (digits.drop size)).drop size =
        '-' :: hyphenate sizes (digits.drop size) := List.drop_left' length
    have keep : (digits.take size ++ '-' :: hyphenate sizes (digits.drop size)).take size =
        digits.take size := List.take_left' length
    cases sizes with
    | nil => exact absurd rfl notSingle
    | cons next sizes =>
      rw [unhyphenate?, cut]
      · simp only [ih rest, keep, Option.map_some, List.take_append_drop]
      · simp

/-- The identity written by thirty-two digits. -/
def ofDigits? (digits : List Char) : Option LayerId :=
  if digits.length = 32 then (Hex.number? digits).map ofNat else none

/-- Reads one of the written forms; the digits may have either case. -/
def ofChars? (text : List Char) : Option LayerId :=
  if text.length = 32 then ofDigits? text
  else if text.length = 36 then unhyphenate? groups text >>= ofDigits?
  else if text.length = 38 ∧ text.head? = some '{' ∧ text.getLast? = some '}' then
    unhyphenate? groups ((text.drop 1).take 36) >>= ofDigits?
  else if text.length = 45 ∧ text.take 9 = "urn:uuid:".toList then
    unhyphenate? groups (text.drop 9) >>= ofDigits?
  else none

/-- The identity a text names, if it names one. -/
def ofText? (text : String) : Option LayerId :=
  ofChars? text.toList

/-- The characters of the written form. -/
def chars (id : LayerId) : List Char :=
  hyphenate groups (Hex.digits 32 id.value.toNat)

/-- The written form. -/
def text (id : LayerId) : String :=
  String.ofList id.chars

theorem ofDigits?_digits (id : LayerId) : ofDigits? (Hex.digits 32 id.value.toNat) = some id := by
  have small : id.value.toNat % Nat.pow 16 32 = id.value.toNat :=
    Nat.mod_eq_of_lt (Nat.lt_of_lt_of_eq id.value.isLt rfl)
  rw [ofDigits?, if_pos (Hex.length_digits 32 id.value.toNat), Hex.number?_digits, small]
  simp only [Option.map_some, ofNat, BitVec.ofNat_toNat, BitVec.setWidth_eq]

/-- The written form names the identity it was written for. -/
theorem ofChars?_chars (id : LayerId) : ofChars? id.chars = some id := by
  have whole : groups.foldr (· + ·) 0 ≤ (Hex.digits 32 id.value.toNat).length := by
    simp [groups]
  have length : (hyphenate groups (Hex.digits 32 id.value.toNat)).length = 36 := by
    simp [groups, hyphenate]
  rw [ofChars?, chars, length]
  simp [unhyphenate?_hyphenate _ _ whole, ofDigits?_digits]

end LayerId

end TimelineMixer
