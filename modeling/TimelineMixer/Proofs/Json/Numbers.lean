import Mathlib.Data.List.Basic
import Mathlib.Data.Rat.Cast.Order
import TimelineMixer.Json.Printer
import TimelineMixer.Json.Reader

/-!
# Reading a written number

A number literal is spelled correctly if it has digits wherever it may have some, and no zero in
front of another digit (`WellFormed`). Its characters are read back as the literal, whatever stands
behind them, as long as it does not go on with the number (`readNumber_chars`). Whole numbers and
samples are written by such literals (`wellFormed_ofInt`, `wellFormed_ofSample`).
-/

set_option autoImplicit false
set_option relaxedAutoImplicit false

namespace TimelineMixer

/-- One decimal digit at least, and nothing else. -/
structure IsDigits (row : List Char) : Prop where
  ne_nil : row ≠ []
  isDigit : ∀ c ∈ row, c.isDigit = true

namespace NumberLiteral

/-- The rules for spelling a number. -/
structure WellFormed (literal : NumberLiteral) : Prop where
  whole : IsDigits literal.whole
  leading : literal.whole.head? = some '0' → literal.whole = ['0']
  fraction : ∀ digits, literal.fraction = some digits → IsDigits digits
  exponent : ∀ entry, literal.exponent = some entry → IsDigits entry.2

/-- The characters of a fraction, with its point. -/
def fractionChars : Option (List Char) → List Char
  | some digits => '.' :: digits
  | none => []

/-- The characters of an exponent, with its mark and sign. -/
def exponentChars : Option (Bool × List Char) → List Char
  | some (true, digits) => 'e' :: '-' :: digits
  | some (false, digits) => 'e' :: digits
  | none => []

theorem chars_eq (literal : NumberLiteral) :
    literal.chars = (if literal.negative then ['-'] else []) ++ (literal.whole ++
      (fractionChars literal.fraction ++ exponentChars literal.exponent)) := by
  obtain ⟨negative, whole, fraction, exponent⟩ := literal
  rcases fraction with _ | digits <;> rcases exponent with _ | ⟨_ | _, digits⟩ <;>
    simp [chars, fractionChars, exponentChars]

end NumberLiteral

/-- The first character of a text, if there is one, is none of a number. -/
def EndsNumber (text : List Char) : Prop :=
  ∀ c, text.head? = some c → c.isDigit = false ∧ c ≠ '.' ∧ c ≠ 'e' ∧ c ≠ 'E'

theorem endsNumber_nil : EndsNumber [] := by
  intro c hc
  cases hc

namespace Json

section Numbers

variable {row rest : List Char}

/-- Digits are taken up to the first character that is none. -/
theorem readDigits_append (hrow : ∀ c ∈ row, c.isDigit = true)
    (hrest : ∀ c, rest.head? = some c → c.isDigit = false) :
    readDigits (row ++ rest) = (row, rest) := by
  have hnone : rest.takeWhile Char.isDigit = [] ∧ rest.dropWhile Char.isDigit = rest := by
    cases rest with
    | nil => exact ⟨rfl, rfl⟩
    | cons c rest => simp [hrest c rfl]
  rw [readDigits, List.takeWhile_append_of_pos hrow, List.dropWhile_append_of_pos hrow, hnone.1,
    hnone.2, List.append_nil]

theorem readWhole_append (hrow : IsDigits row) (hleading : row.head? = some '0' → row = ['0'])
    (hrest : ∀ c, rest.head? = some c → c.isDigit = false) :
    readWhole (row ++ rest) = some (row, rest) := by
  rw [readWhole, readDigits_append hrow.isDigit hrest]
  cases row with
  | nil => exact absurd rfl hrow.ne_nil
  | cons c digits =>
    by_cases hzero : c = '0'
    · subst hzero
      rw [hleading rfl]
      rfl
    · cases digits <;> simp [hzero]

/-- A digit is no sign and opens no other value. -/
theorem ne_of_isDigit {c : Char} (h : c.isDigit = true) (other : Char)
    (hother : other.isDigit = false) : c ≠ other := by
  rintro rfl
  rw [h] at hother
  cases hother

theorem readExponentSign_digits (hrow : IsDigits row) (rest : List Char) :
    readExponentSign (row ++ rest) = (false, row ++ rest) := by
  cases row with
  | nil => exact absurd rfl hrow.ne_nil
  | cons c digits =>
    have hdigit := hrow.isDigit c List.mem_cons_self
    have hminus := ne_of_isDigit hdigit '-' rfl
    have hplus := ne_of_isDigit hdigit '+' rfl
    rw [List.cons_append, readExponentSign]
    · simpa using hminus
    · simpa using hplus

theorem readExponent_append {exponent : Option (Bool × List Char)}
    (hexponent : ∀ entry, exponent = some entry → IsDigits entry.2) (hrest : EndsNumber rest) :
    readExponent (NumberLiteral.exponentChars exponent ++ rest) = some (exponent, rest) := by
  have hend : ∀ c, rest.head? = some c → c.isDigit = false := fun c hc ↦ (hrest c hc).1
  rcases exponent with _ | ⟨negative, digits⟩
  · cases rest with
    | nil => rfl
    | cons c text =>
      obtain ⟨-, -, hlower, hupper⟩ := hrest c rfl
      simp [NumberLiteral.exponentChars, readExponent, hlower, hupper]
  · have hdigits := hexponent _ rfl
    have hread := readDigits_append hdigits.isDigit hend
    cases negative with
    | true =>
      cases digits with
      | nil => exact absurd rfl hdigits.ne_nil
      | cons c more =>
        simp only [List.cons_append] at hread
        simp [NumberLiteral.exponentChars, readExponent, readExponentSign, hread]
    | false =>
      have hsign := readExponentSign_digits hdigits rest
      cases digits with
      | nil => exact absurd rfl hdigits.ne_nil
      | cons c more =>
        simp only [List.cons_append] at hread hsign
        simp [NumberLiteral.exponentChars, readExponent, hsign, hread]

theorem readFraction_append {fraction : Option (List Char)}
    (hfraction : ∀ digits, fraction = some digits → IsDigits digits)
    (hrest : ∀ c, rest.head? = some c → c.isDigit = false ∧ c ≠ '.') :
    readFraction (NumberLiteral.fractionChars fraction ++ rest) = some (fraction, rest) := by
  cases fraction with
  | none =>
    cases rest with
    | nil => rfl
    | cons c text =>
      rw [NumberLiteral.fractionChars, List.nil_append, readFraction]
      simpa using (hrest c rfl).2
  | some digits =>
    have hdigits := hfraction digits rfl
    have hread := readDigits_append hdigits.isDigit fun c hc ↦ (hrest c hc).1
    cases digits with
    | nil => exact absurd rfl hdigits.ne_nil
    | cons c more =>
      simp only [List.cons_append] at hread
      simp [NumberLiteral.fractionChars, readFraction, hread]

variable {literal : NumberLiteral}

/-- Behind a fraction comes an exponent or what stands behind the number. -/
theorem head_exponentChars (exponent : Option (Bool × List Char)) (hrest : EndsNumber rest)
    {c : Char} (hc : (NumberLiteral.exponentChars exponent ++ rest).head? = some c) :
    c.isDigit = false ∧ c ≠ '.' := by
  rcases exponent with _ | ⟨_ | _, digits⟩
  · exact ⟨(hrest c hc).1, (hrest c hc).2.1⟩
  · cases hc
    exact ⟨rfl, by decide⟩
  · cases hc
    exact ⟨rfl, by decide⟩

theorem head_fractionChars (fraction : Option (List Char)) (exponent : Option (Bool × List Char))
    (hrest : EndsNumber rest) {c : Char} (hc : (NumberLiteral.fractionChars fraction ++
      (NumberLiteral.exponentChars exponent ++ rest)).head? = some c) : c.isDigit = false := by
  cases fraction with
  | none => exact (head_exponentChars exponent hrest hc).1
  | some digits =>
    cases hc
    rfl

theorem readMagnitude_append (h : literal.WellFormed) (hrest : EndsNumber rest) :
    readMagnitude literal.negative (literal.whole ++
      (NumberLiteral.fractionChars literal.fraction ++
        (NumberLiteral.exponentChars literal.exponent ++ rest))) = some (literal, rest) := by
  rw [readMagnitude, readWhole_append h.whole h.leading fun _ ↦ head_fractionChars _ _ hrest]
  change (readFraction _ >>= _) = _
  rw [readFraction_append h.fraction fun _ ↦ head_exponentChars _ hrest]
  change (readExponent _ >>= _) = _
  rw [readExponent_append h.exponent hrest]
  rfl

/-- The characters of a literal are read back. -/
theorem readNumber_chars (h : literal.WellFormed) (hrest : EndsNumber rest) :
    readNumber (literal.chars ++ rest) = some (literal, rest) := by
  have hread := readMagnitude_append h hrest
  rw [NumberLiteral.chars_eq, List.append_assoc, List.append_assoc, List.append_assoc]
  cases hnegative : literal.negative with
  | true =>
    rw [hnegative] at hread
    exact hread
  | false =>
    rw [hnegative] at hread
    cases hwhole : literal.whole with
    | nil => exact absurd hwhole h.whole.ne_nil
    | cons c digits =>
      have hminus := ne_of_isDigit (h.whole.isDigit c (by simp [hwhole])) '-' rfl
      rw [hwhole] at hread
      rw [if_neg (by decide), List.nil_append, List.cons_append, readNumber]
      · exact hread
      · simpa using hminus

end Numbers

end Json

/-! ### Literals that are written -/

theorem IsDigits.append {first second : List Char} (hfirst : IsDigits first)
    (hsecond : ∀ c ∈ second, c.isDigit = true) : IsDigits (first ++ second) where
  ne_nil := List.append_ne_nil_of_left_ne_nil hfirst.ne_nil second
  isDigit c hc := (List.mem_append.mp hc).elim (hfirst.isDigit c) (hsecond c)

theorem IsDigits.take {row : List Char} (h : IsDigits row) {count : Nat} (hcount : 0 < count) :
    IsDigits (row.take count) where
  ne_nil := by simp [h.ne_nil, hcount.ne']
  isDigit c hc := h.isDigit c (List.mem_of_mem_take hc)

theorem IsDigits.drop {row : List Char} (h : IsDigits row) {count : Nat}
    (hcount : count < row.length) : IsDigits (row.drop count) where
  ne_nil := by simp [hcount]
  isDigit c hc := h.isDigit c (List.mem_of_mem_drop hc)

theorem isDigits_decimalDigits (n : Nat) : IsDigits (decimalDigits n) where
  ne_nil := Nat.toDigits_ne_nil
  isDigit _ := Nat.isDigit_of_mem_toDigits (by decide) (by decide)

theorem isDigits_zero : IsDigits ['0'] :=
  ⟨List.cons_ne_nil _ _, List.forall_mem_singleton.mpr rfl⟩

/-- A positive number is not written with a zero in front. -/
theorem head?_decimalDigits {n : Nat} (h : n ≠ 0) : (decimalDigits n).head? ≠ some '0' := by
  induction n using Nat.strongRecOn with
  | ind n ih =>
    rcases Nat.lt_or_ge n 10 with hshort | hlong
    · have hdigit : ∀ k : Fin 10, k.val ≠ 0 → k.val.digitChar ≠ '0' := by decide
      rw [decimalDigits, Nat.toDigits_of_lt_base hshort, List.head?_cons, ne_eq,
        Option.some_inj]
      exact hdigit ⟨n, hshort⟩ h
    · have hfront := ih (n / 10) (by omega) (by omega)
      rw [decimalDigits] at hfront ⊢
      rwa [Nat.toDigits_of_base_le (by decide) hlong, List.head?_append_of_ne_nil]
      exact Nat.toDigits_ne_nil

theorem leading_decimalDigits {n : Nat} (h : (decimalDigits n).head? = some '0') :
    decimalDigits n = ['0'] := by
  by_cases hzero : n = 0
  · rw [hzero]
    rfl
  · exact absurd h (head?_decimalDigits hzero)

namespace NumberLiteral

theorem wellFormed_ofInt (value : Int) : (ofInt value).WellFormed where
  whole := isDigits_decimalDigits _
  leading := leading_decimalDigits
  fraction _ h := by cases h
  exponent _ h := by cases h

theorem isDigit_of_mem_zeros {count : Nat} :
    ∀ c ∈ List.replicate count '0', c.isDigit = true := by
  intro c hc
  rw [List.eq_of_mem_replicate hc]
  rfl

/-- The first of some digits alone. -/
theorem leading_take_one {row : List Char} (h : (row.take 1).head? = some '0') :
    row.take 1 = ['0'] := by
  cases row with
  | nil => cases h
  | cons c rest =>
    rw [Option.some_inj.mp h]
    rfl

/-- A decimal is spelled correctly, if zero is written without an exponent. -/
theorem wellFormed_ofDecimal (negative : Bool) {d : Decimal} (h : d.digits = 0 → d.exponent = 0) :
    (ofDecimal negative d).WellFormed := by
  have hdigits := isDigits_decimalDigits d.digits
  have hlength := List.length_pos_of_ne_nil hdigits.ne_nil
  -- A row that begins with a zero is zero alone, and only the first form writes zero.
  have hzero : (decimalDigits d.digits).head? = some '0' →
      d.exponent = 0 ∧ decimalDigits d.digits = ['0'] := by
    intro hhead
    refine ⟨h ?_, leading_decimalDigits hhead⟩
    by_contra hne
    exact head?_decimalDigits hne hhead
  have hone : IsDigits ((decimalDigits d.digits).take 1) := hdigits.take Nat.one_pos
  rw [ofDecimal]
  dsimp only
  split_ifs with hwritten hpoint hzeros hsingle
  · exact
      { whole := hdigits.append isDigit_of_mem_zeros
        leading := by
          intro hhead
          rw [List.head?_append_of_ne_nil _ hdigits.ne_nil] at hhead
          obtain ⟨hexponent, hrow⟩ := hzero hhead
          rw [hrow, hexponent]
          rfl
        fraction := by
          rintro _ ⟨⟩
          exact isDigits_zero
        exponent := by rintro _ ⟨⟩ }
  · exact
      { whole := hdigits.take (by omega)
        leading := by
          intro hhead
          rw [List.head?_take, if_neg (by omega)] at hhead
          obtain ⟨hexponent, hrow⟩ := hzero hhead
          rw [hrow, List.length_singleton] at hpoint hwritten
          omega
        fraction := by
          rintro _ ⟨⟩
          exact hdigits.drop (by omega)
        exponent := by rintro _ ⟨⟩ }
  · exact
      { whole := isDigits_zero
        leading := fun _ ↦ rfl
        fraction := by
          rintro _ ⟨⟩
          refine ⟨List.append_ne_nil_of_right_ne_nil _ hdigits.ne_nil, fun c hc ↦ ?_⟩
          exact (List.mem_append.mp hc).elim (isDigit_of_mem_zeros c) (hdigits.isDigit c)
        exponent := by rintro _ ⟨⟩ }
  · exact
      { whole := hone
        leading := leading_take_one
        fraction := by rintro _ ⟨⟩
        exponent := by
          rintro _ ⟨⟩
          exact isDigits_decimalDigits _ }
  · exact
      { whole := hone
        leading := leading_take_one
        fraction := by
          rintro _ ⟨⟩
          exact hdigits.drop (by omega)
        exponent := by
          rintro _ ⟨⟩
          exact isDigits_decimalDigits _ }

end NumberLiteral

/-! ### Samples -/

namespace Decimal.Target

variable {t : Target} {d : Decimal}

/-- A decimal that is found on a grid lies in the interval. -/
theorem admits_of_onGrid {exponent : Int} (h : t.onGrid exponent = some d) : t.admits d = true := by
  rw [onGrid] at h
  dsimp only at h
  split_ifs at h with hbelow hboth habove
  · cases h
    exact hboth.1
  · cases h
    exact hbelow
  · cases h
    exact habove

/-- Nothing in an interval of positive numbers is zero. -/
theorem digits_ne_zero_of_admits (hlow : 0 < t.low) (h : t.admits d = true) : d.digits ≠ 0 := by
  intro hzero
  have hvalue : d.value = 0 := by
    rw [value, hzero]
    exact zero_mul _
  rw [admits, hvalue] at h
  split_ifs at h
  · exact absurd (of_decide_eq_true h).1 (not_le.mpr hlow)
  · exact absurd (of_decide_eq_true h).1 (not_lt.mpr hlow.le)

theorem shortest_zero (hlow : 0 < t.low) (coarsest : Int) (grids : Nat)
    (h : (t.shortest coarsest grids).digits = 0) : (t.shortest coarsest grids).exponent = 0 := by
  rw [shortest] at h ⊢
  cases hfound : (List.range grids).findSome? fun (i : Nat) ↦ t.onGrid (coarsest - i) with
  | none => rfl
  | some d =>
    rw [hfound] at h
    obtain ⟨i, -, hgrid⟩ := List.exists_of_findSome?_eq_some hfound
    exact absurd h (digits_ne_zero_of_admits hlow (admits_of_onGrid hgrid))

end Decimal.Target

namespace Single

theorem power_pos (exponent : Int) : 0 < power exponent := by
  have htwo : (0 : ℚ) < (Nat.pow 2 exponent.natAbs : Nat) := by
    exact_mod_cast Nat.pow_pos (by decide : 0 < 2)
  rw [power]
  split_ifs
  · rw [Rat.mkRat_eq_div]
    exact div_pos (by norm_num) htwo
  · exact htwo

/-- The interval of a float that is not zero holds positive numbers only. -/
theorem low_target_pos {x : Float32} (h : (parts x).1 ≠ 0) : 0 < (target x).low := by
  rw [target]
  dsimp only
  refine mul_pos ?_ (power_pos _)
  split_ifs <;> exact_mod_cast (by omega)

/-- The shortest decimal of zero has no exponent, and no other is zero. -/
theorem shortest_zero {x : Float32} (h : (shortest x).digits = 0) : (shortest x).exponent = 0 := by
  rw [shortest] at h ⊢
  split_ifs at h ⊢ with hzero
  · rfl
  · exact Decimal.Target.shortest_zero (low_target_pos hzero) _ _ h

end Single

theorem NumberLiteral.wellFormed_ofSample (x : Float32) :
    (ofDecimal (Single.isNegative x) (Single.shortest x)).WellFormed :=
  wellFormed_ofDecimal _ Single.shortest_zero

end TimelineMixer
