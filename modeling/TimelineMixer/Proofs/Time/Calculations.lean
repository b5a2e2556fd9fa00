import TimelineMixer.Proofs.Document.Fractions
import TimelineMixer.Proofs.Time.Words

/-!
# Calculations with times

Times come from fractions, whole numbers and documents, and from negatives, sums, differences and
choices of other times. A calculation of any such form runs to its end, each step in words, with or
without a cap, and what it comes to are the words of a time (`Calculation.run_eq_words`). The words
of a time are in lowest terms over a positive denominator, so words are equal exactly if they stand
for the same number (`Seconds.words_inj`).
-/

set_option autoImplicit false
set_option relaxedAutoImplicit false

namespace TimelineMixer

/-- A calculation with times. A time to which another one is added, or from which it is taken, is
replaced by the sum or the difference. -/
inductive Calculation where
  | fraction (num den : Int64) (hden : den ≠ 0)
  | integer (n : Int64)
  | millis (n : Int64)
  | neg (a : Calculation)
  | add (a b : Calculation)
  | sub (a b : Calculation)
  | max (a b : Calculation)
  | min (a b : Calculation)

namespace Calculation

/-- The time a calculation stands for. -/
def time : Calculation → Seconds
  | fraction num den _ => .ofRat (Rat.divInt num.toInt den.toInt)
  | integer n => .ofInt n.toInt
  | millis n => .ofMillis n.toInt
  | neg a => -a.time
  | add a b => a.time + b.time
  | sub a b => a.time - b.time
  | max a b => Max.max a.time b.time
  | min a b => Min.min a.time b.time

/-- Runs a calculation in words. -/
def run (cap : Int → Int) : Calculation → Except Trap Fraction
  | fraction num den _ => Fraction.new cap num den
  | integer n => .ok (.ofInteger n)
  | millis n => Fraction.ofMillis cap n
  | neg a => do
    let x ← a.run cap
    x.neg cap
  | add a b => do
    let x ← a.run cap
    let y ← b.run cap
    x.add cap y
  | sub a b => do
    let x ← a.run cap
    let y ← b.run cap
    x.sub cap y
  | max a b => do
    let x ← a.run cap
    let y ← b.run cap
    x.max y
  | min a b => do
    let x ← a.run cap
    let y ← b.run cap
    x.min y

open Fraction Register in
/-- By induction over the calculation: each step comes to the words of the time that the operation
on times gives. -/
theorem run_eq_words {cap : Int → Int} (hcap : Caps cap) (c : Calculation) :
    c.run cap = .ok c.time.words := by
  induction c with
  | fraction num den hden => exact new_eq hcap num hden
  | integer n => exact congrArg Except.ok (ofInteger_eq n)
  | millis n => exact ofMillis_eq hcap n
  | neg a ih => rw [run, ih, ok_bind, neg_words a.time hcap, time]
  | add a b iha ihb => rw [run, iha, ok_bind, ihb, ok_bind, add_words a.time b.time hcap, time]
  | sub a b iha ihb => rw [run, iha, ok_bind, ihb, ok_bind, sub_words a.time b.time hcap, time]
  | max a b iha ihb => rw [run, iha, ok_bind, ihb, ok_bind, max_words, time]
  | min a b iha ihb => rw [run, iha, ok_bind, ihb, ok_bind, min_words, time]

end Calculation

/-! ### Lowest terms -/

namespace Fraction

/-- The words are the fraction in lowest terms. -/
def LowestTermsOf (x : Fraction) (q : ℚ) : Prop :=
  x.num.toInt = q.num ∧ x.den.toInt = q.den

theorem hashed_eq_iff {x y : Fraction} : x.hashed = y.hashed ↔ x = y := by
  cases x
  cases y
  simp [hashed]

theorem lowestTermsOf_words {q : ℚ} (h : Seconds.Fits q) :
    (Seconds.ofRat q).words.LowestTermsOf q := by
  rw [LowestTermsOf, Seconds.words_num, Seconds.words_den, Seconds.toRat_ofRat h]
  exact ⟨rfl, rfl⟩

/-- A fraction of two words is exact if its lowest terms are words. -/
theorem new_exact {num den : Int64} (hne : den ≠ 0)
    (h : Seconds.Fits (num.toInt / den.toInt : ℚ)) :
    ∃ z, new saturate num den = .ok z ∧ new? saturate num den = .ok (some z) ∧
      z.LowestTermsOf (num.toInt / den.toInt) := by
  have hnew := new_eq caps_saturate num hne
  rw [Rat.divInt_eq_div] at hnew
  refine ⟨_, hnew, ?_, lowestTermsOf_words h⟩
  rw [new?_eq caps_saturate, Seconds.ofFraction?, if_neg (mt toInt_eq_zero_iff.mp hne),
    Rat.divInt_eq_div]
  rfl

end Fraction

namespace Seconds

open Fraction

variable (a b : Seconds)

theorem words_inj : a.words = b.words ↔ a.words.value = b.words.value := by
  rw [words_value, words_value, toRat_inj, words_injective.eq_iff]

theorem cmp_words_eq_compare : a.words.cmp b.words = .ok (compare a.words.value b.words.value) := by
  rw [cmp_words, words_value, words_value, LinearOrder.compare_eq_compareOfLessAndEq,
    LinearOrder.compare_eq_compareOfLessAndEq]
  simp only [compareOfLessAndEq, lt_def, toRat_inj]

theorem add_words_exact (h : Fits (a.words.value + b.words.value)) :
    ∃ z, a.words.add saturate b.words = .ok z ∧
      z.LowestTermsOf (a.words.value + b.words.value) := by
  rw [words_value, words_value] at h ⊢
  refine ⟨_, add_words a b caps_saturate, ?_⟩
  rw [add_eq]
  exact lowestTermsOf_words h

theorem neg_words_exact (h : Fits (-a.words.value)) :
    ∃ z, a.words.neg saturate = .ok z ∧ z.LowestTermsOf (-a.words.value) := by
  rw [words_value] at h ⊢
  exact ⟨_, neg_words a caps_saturate, lowestTermsOf_words h⟩

/-- A time in a document is that of the two words by which the document names a fraction. -/
theorem words_of_ofJson {depth : Nat} {json : Json} {time : Seconds}
    (h : ofJson depth json = .ok time) :
    ∃ num den : Int64, NamesFraction num.toInt den.toInt json ∧
      new? saturate num den = .ok (some time.words) ∧ (den = 1 → ofInteger num = time.words) := by
  obtain ⟨-, num, den, hnames, hne, htime⟩ := ofJson_eq_ok_iff.mp h
  obtain ⟨hnumLow, hnumHigh⟩ := hnames.num_bounds
  obtain ⟨hdenLow, hdenHigh⟩ := hnames.bounds
  have hnum : (Int64.ofInt num).toInt = num := Int64.toInt_ofInt_of_le hnumLow hnumHigh
  have hden : (Int64.ofInt den).toInt = den := Int64.toInt_ofInt_of_le hdenLow hdenHigh
  have hfraction := (ofFraction?_eq_some_iff hdenLow hdenHigh).mpr ⟨hne, htime⟩
  refine ⟨.ofInt num, .ofInt den, by rwa [hnum, hden], ?_, fun hone ↦ ?_⟩
  · rw [new?_eq caps_saturate, hnum, hden, hfraction]
    rfl
  · have hden_one : den = 1 := by rw [← hden, hone, Int64.toInt_one]
    rw [hden_one, ofFraction?_one, Option.some_inj] at hfraction
    rw [ofInteger_eq, hnum, hfraction]

end Seconds

namespace Calculation

open Fraction

/-- The calculation comes to the words of its time, with counts and sums capped to a register and
without. -/
def Yields (c : Calculation) (x : Fraction) : Prop :=
  c.run saturate = .ok x ∧ c.run id = .ok x ∧ x = c.time.words

theorem yields_words (c : Calculation) : c.Yields c.time.words :=
  ⟨run_eq_words caps_saturate c, run_eq_words caps_id c, rfl⟩

/-- Every calculation comes to words in lowest terms over a positive denominator. Equal words, equal
hashes and a comparison of equals all mean equal numbers, and words compare as their numbers do. A
sum, a negative and a fraction of two words are exact where they can be stored; the one sum that is
capped but not clamped is never changed by the cap; and a multiple is the clamped floor of the exact
product. A fraction over zero is refused. Times in documents are fractions of two words. -/
theorem run_reduced_and_exact :
    (∀ c d : Calculation, ∃ x y : Fraction, c.Yields x ∧ d.Yields y ∧ x.Reduced ∧
      (x = y ↔ x.value = y.value) ∧ (x.hashed = y.hashed ↔ x.value = y.value) ∧
      (x.cmp y = .ok .eq ↔ x.value = y.value) ∧
      (x.cmp y = .ok (compare c.time d.time) ∧ x.cmp y = .ok (compare x.value y.value)) ∧
      (Seconds.Fits (x.value + y.value) →
        ∃ z, x.add saturate y = .ok z ∧ z.LowestTermsOf (x.value + y.value)) ∧
      (Seconds.Fits (-x.value) → ∃ z, x.neg saturate = .ok z ∧ z.LowestTermsOf (-x.value)) ∧
      (saturate (x.num.toInt * y.den.toInt + y.num.toInt * x.den.toInt) =
        x.num.toInt * y.den.toInt + y.num.toInt * x.den.toInt) ∧
      ∀ factor : Int64,
        x.floorMul factor = .ok (.ofInt (c.time.floorMul factor.toInt)) ∧
        c.time.floorMul factor.toInt = clampWord ⌊x.value * factor.toInt⌋) ∧
    (∀ num den : Int64, den ≠ 0 → Seconds.Fits (num.toInt / den.toInt : ℚ) →
      ∃ z, new saturate num den = .ok z ∧ new? saturate num den = .ok (some z) ∧
        z.LowestTermsOf (num.toInt / den.toInt)) ∧
    (∀ num : Int64, new saturate num 0 = .error .zeroDenominator ∧
      new? saturate num 0 = .ok none) ∧
    (∀ (depth : Nat) (json : Json) (time : Seconds), Seconds.ofJson depth json = .ok time →
      ∃ num den : Int64, Seconds.NamesFraction num.toInt den.toInt json ∧
        new? saturate num den = .ok (some time.words) ∧
        (den = 1 → ofInteger num = time.words)) := by
  refine ⟨fun c d ↦ ?_, fun _ _ ↦ new_exact, fun _ ↦ ⟨rfl, rfl⟩,
    fun _ _ _ ↦ Seconds.words_of_ofJson⟩
  have hcompare := c.time.cmp_words_eq_compare d.time
  have hvalues := c.time.words_inj d.time
  refine ⟨c.time.words, d.time.words, c.yields_words, d.yields_words, c.time.words_reduced,
    hvalues, hashed_eq_iff.trans hvalues, ?_, ⟨cmp_words _ _, hcompare⟩,
    c.time.add_words_exact d.time, c.time.neg_words_exact, ?_,
    fun factor ↦ ⟨floorMul_words _ factor, ?_⟩⟩
  · rw [hcompare, Except.ok.injEq, compare_eq_iff_eq]
  · simp only [Seconds.words_num, Seconds.words_den]
    exact Seconds.crossSum_eq c.time d.time
  · rw [Seconds.words_value, Seconds.floorMul_eq_floor]

/-- A half second less a third, and a quarter that is chosen over a negative time. -/
theorem run_reduced_and_exact_sixth :
    let c : Calculation := .add (.fraction 2 (-6) (by decide)) (.millis 500)
    let d : Calculation := .max (.neg (.integer 1)) (.fraction 1 4 (by decide))
    let document := Json.record [("den", .int (-6)), ("num", .int 2)]
    let third : Seconds := .ofRat (mkRat (-1) 3)
    (∃ x y, c.Yields x ∧ d.Yields y ∧
      Seconds.Fits (x.value + y.value) ∧
      (∃ z, x.add saturate y = .ok z ∧ z.LowestTermsOf (5 / 12)) ∧
      Seconds.Fits (-x.value) ∧ ∃ z, x.neg saturate = .ok z ∧ z.LowestTermsOf (-1 / 6)) ∧
    ((-6 : Int64) ≠ 0 ∧ Seconds.Fits ((2 : Int64).toInt / (-6 : Int64).toInt : ℚ) ∧
      ∃ z, new saturate 2 (-6) = .ok z ∧ z.LowestTermsOf (-1 / 3)) ∧
    Seconds.ofJson Json.maxDepth document = .ok third ∧
      ∃ num den : Int64, new? saturate num den = .ok (some third.words) := by
  intro c d document third
  obtain ⟨hcalculations, hfractions, -, hdocuments⟩ := run_reduced_and_exact
  obtain ⟨x, y, hx, hy, -, -, -, -, -, hsum, hneg, -⟩ := hcalculations c d
  have hxValue : x.value = 1 / 6 := by
    rw [hx.2.2, Seconds.words_value]
    decide +kernel
  have hyValue : y.value = 1 / 4 := by
    rw [hy.2.2, Seconds.words_value]
    decide +kernel
  have hsumValue : x.value + y.value = 5 / 12 := by
    rw [hxValue, hyValue]
    norm_num
  have hnegValue : -x.value = -1 / 6 := by
    rw [hxValue]
    norm_num
  have hsumFits : Seconds.Fits (x.value + y.value) := by
    rw [hsumValue]
    decide +kernel
  have hnegFits : Seconds.Fits (-x.value) := by
    rw [hnegValue]
    decide +kernel
  have hne : (-6 : Int64) ≠ 0 := by decide
  have hfits : Seconds.Fits ((2 : Int64).toInt / (-6 : Int64).toInt : ℚ) := by decide +kernel
  obtain ⟨z, hz, -, hlowest⟩ := hfractions 2 (-6) hne hfits
  have hthird : ((2 : Int64).toInt / (-6 : Int64).toInt : ℚ) = -1 / 3 := by decide +kernel
  have hdocument : Seconds.ofJson Json.maxDepth document = .ok third := by
    have hfound : (Seconds.ofJson Json.maxDepth document).toOption = some third := by
      decide +kernel
    cases hread : Seconds.ofJson Json.maxDepth document with
    | ok time =>
      rw [hread] at hfound
      exact congrArg Except.ok (Option.some.inj hfound)
    | error fault =>
      rw [hread] at hfound
      contradiction
  obtain ⟨num, den, -, hwords, -⟩ := hdocuments Json.maxDepth document third hdocument
  rw [hthird] at hlowest
  exact ⟨⟨x, y, hx, hy, hsumFits, hsumValue ▸ hsum hsumFits, hnegFits, hnegValue ▸ hneg hnegFits⟩,
    ⟨hne, hfits, z, hz, hlowest⟩, hdocument, num, den, hwords⟩

end Calculation

end TimelineMixer
