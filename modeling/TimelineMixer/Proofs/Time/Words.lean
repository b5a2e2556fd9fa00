import TimelineMixer.Proofs.Time.Fallback
import TimelineMixer.Proofs.Time.Registers

/-!
# Times in words

A time is stored as two 64-bit words, its numerator and its denominator (`Fraction`), and computed
step by step in registers. Counting nanoseconds and adding across two denominators are capped to
what a register holds (`Fraction.Caps`); every other step that does not fit ends the computation.

No step does. Storing a fraction of numbers closer to zero than the least number of a register comes
to an answer, capped or not, and the answer are the words of the time that `Seconds.ofRat` gives
(`Fraction.store_eq`). All operations store fractions of products and sums of words, which are such
numbers, so each comes to the words of the time that the operation on times gives
(`Fraction.add_words`, `Fraction.neg_words`, `Fraction.sub_words`).
-/

set_option autoImplicit false
set_option relaxedAutoImplicit false

namespace TimelineMixer

open Register

/-- A time as it is stored. -/
structure Fraction where
  num : Int64
  den : Int64
  deriving DecidableEq

namespace Fraction

/-- The number that the words stand for. -/
def value (x : Fraction) : ℚ :=
  x.num.toInt / x.den.toInt

/-- In lowest terms over a positive denominator. -/
def Reduced (x : Fraction) : Prop :=
  0 < x.den.toInt ∧ x.num.toInt.gcd x.den.toInt = 1

/-- The words that a hash is computed from. -/
def hashed (x : Fraction) : List Int64 :=
  [x.num, x.den]

/-! ### Storing -/

variable (cap : Int → Int)

/-- The sign of the denominator moved to the numerator. -/
def moveSign (num den : Int) : Except Trap (Int × Int) := do
  if den < 0 then
    let num ← Register.neg num
    let den ← Register.neg den
    return (num, den)
  else return (num, den)

/-- Lowest terms over a positive denominator. -/
def reduce (num den : Int) : Except Trap (Int × Int) := do
  let (num, den) ← moveSign num den
  let divisor ← greatestDivisor num den
  if 1 < divisor then return (← quot num divisor, ← quot den divisor)
  return (num, den)

/-- The nanoseconds of a remainder. A denominator too large for the remainder to be scaled is scaled
down. -/
def part (num den : Int) : Except Trap Int := do
  let limit ← quot greatest Seconds.nanos
  if den ≤ limit then
    let scaled ← mul num Seconds.nanos
    quot scaled den
  else
    let scale ← quot den Seconds.nanos
    quot num scale

/-- The whole seconds and the remainder in nanoseconds, as a word. -/
def count (num den : Int) : Except Trap Int := do
  let whole ← floorQuot num den
  let rest ← floorRem num den
  let rest ← part rest den
  return clampWord (cap (cap (whole * Seconds.nanos) + rest))

/-- A number of nanoseconds in lowest terms. -/
def ofNanos (n : Int) : Except Trap Fraction := do
  let divisor ← greatestDivisor n Seconds.nanos
  let num ← quot n divisor
  let den ← quot Seconds.nanos divisor
  return ⟨.ofInt num, .ofInt den⟩

/-- A number that a word holds. -/
def IsWord (n : Int) : Prop :=
  -0x8000000000000000 ≤ n ∧ n < 0x8000000000000000

instance (n : Int) : Decidable (IsWord n) :=
  inferInstanceAs (Decidable (_ ∧ _))

/-- Stores a fraction: in lowest terms if they are words, else in whole nanoseconds. -/
def store (num den : Int) : Except Trap Fraction := do
  let (num, den) ← reduce num den
  if IsWord num ∧ IsWord den then return ⟨.ofInt num, .ofInt den⟩
  ofNanos (← count cap num den)

/-! ### Operations -/

/-- The fraction of two words; the denominator must not be zero. -/
def new (num den : Int64) : Except Trap Fraction :=
  if den = 0 then .error .zeroDenominator else store cap num.toInt den.toInt

/-- The fraction of two words, if the denominator is not zero. -/
def new? (num den : Int64) : Except Trap (Option Fraction) :=
  if den = 0 then .ok none else (store cap num.toInt den.toInt).map some

/-- A whole number of seconds. -/
def ofInteger (n : Int64) : Fraction :=
  ⟨n, 1⟩

/-- A whole number of milliseconds. -/
def ofMillis (n : Int64) : Except Trap Fraction :=
  new cap n 1000

variable (x y : Fraction)

/-- The negated time. -/
def neg : Except Trap Fraction := do
  let num ← Register.neg x.num.toInt
  store cap num x.den.toInt

/-- The sum. Equal denominators are kept; otherwise the fractions are brought to the product of the
denominators. -/
def add : Except Trap Fraction :=
  if x.den = y.den then do
    let num ← Register.add x.num.toInt y.num.toInt
    store cap num x.den.toInt
  else do
    let first ← mul x.num.toInt y.den.toInt
    let second ← mul y.num.toInt x.den.toInt
    let den ← mul x.den.toInt y.den.toInt
    store cap (cap (first + second)) den

/-- The difference, by adding the negated time. -/
def sub : Except Trap Fraction := do
  let negated ← neg cap y
  add cap x negated

/-- The order of products across the fractions. -/
def cmp : Except Trap Ordering := do
  let first ← mul x.num.toInt y.den.toInt
  let second ← mul y.num.toInt x.den.toInt
  return compare first second

/-- The greater of two times, the second of equal ones. -/
def max : Except Trap Fraction := do
  return if (← cmp x y) = .gt then x else y

/-- The lesser of two times, the first of equal ones. -/
def min : Except Trap Fraction := do
  return if (← cmp x y) = .gt then y else x

/-- The floor of a multiple, as a word. -/
def floorMul (factor : Int64) : Except Trap Int64 := do
  let product ← mul x.num.toInt factor.toInt
  let floor ← floorQuot product x.den.toInt
  return .ofInt (clampWord floor)

end Fraction

/-! ### Times as words -/

namespace Seconds

/-- The words a time is stored as. -/
def words (a : Seconds) : Fraction :=
  ⟨.ofInt a.num, .ofInt a.den⟩

variable (a : Seconds)

@[simp] theorem words_num : a.words.num.toInt = a.num :=
  Int64.toInt_ofInt_of_le a.num_ge a.num_lt

@[simp] theorem words_den : a.words.den.toInt = a.den :=
  Int64.toInt_ofInt_of_le ((by decide : (_ : Int) ≤ 0).trans (Int.natCast_nonneg _))
    (by exact_mod_cast a.den_lt)

@[simp] theorem words_value : a.words.value = a.toRat := by
  rw [Fraction.value, words_num, words_den]
  exact Rat.num_div_den a.toRat

theorem words_reduced : a.words.Reduced := by
  rw [Fraction.Reduced, words_num, words_den]
  exact ⟨by exact_mod_cast a.den_pos, a.reduced⟩

theorem words_injective : Function.Injective words := by
  intro a b h
  rw [← toRat_inj, ← words_value, h, words_value]

end Seconds

namespace Fraction

/-- What a cap on products and sums leaves as it is: everything closer to zero than the least number
of a register, and the word that a count is clamped to. -/
structure Caps (cap : Int → Int) : Prop where
  eq_self : ∀ n : Int, n.natAbs < 2 ^ 127 → cap n = n
  clampWord_eq : ∀ n part : Int, 0 ≤ part → part ≤ Seconds.nanos →
    clampWord (cap (cap n + part)) = clampWord (n + part)

theorem caps_saturate : Caps saturate where
  eq_self _ h := saturate_of_fits (by omega) (by omega)
  clampWord_eq _ _ := Seconds.clampWord_saturate

theorem caps_id : Caps id where
  eq_self _ _ := rfl
  clampWord_eq _ _ _ _ := rfl

variable {cap : Int → Int} {num den : Int}

/-! ### Storing, step by step -/

theorem tdiv_gcd_eq_num (hpos : 0 < den) : num.tdiv (num.gcd den) = (Rat.divInt num den).num := by
  rw [Rat.num_divInt, Int.sign_eq_one_of_pos hpos, one_mul, Int.gcd_comm,
    Int.tdiv_eq_ediv_of_dvd (Int.gcd_dvd_right _ _)]

theorem tdiv_gcd_eq_den (hpos : 0 < den) : den.tdiv (num.gcd den) = (Rat.divInt num den).den := by
  rw [Rat.den_divInt, if_neg hpos.ne', Int.gcd_comm, Int.tdiv_eq_ediv_of_dvd (Int.gcd_dvd_left _ _),
    Int.natCast_ediv, Int.natAbs_of_nonneg hpos.le]

theorem reduce_eq_of_pos (hnum : num.natAbs < 2 ^ 127) (hden : den.natAbs < 2 ^ 127)
    (hpos : 0 < den) :
    reduce num den = .ok ((Rat.divInt num den).num, ((Rat.divInt num den).den : Int)) := by
  have hgcd : 0 < num.gcd den := Int.gcd_pos_of_ne_zero_right _ hpos.ne'
  rw [reduce, moveSign, if_neg hpos.not_gt]
  simp only [pure_bind, ok_bind, greatestDivisor_eq hnum hden, ← tdiv_gcd_eq_num hpos,
    ← tdiv_gcd_eq_den hpos]
  split_ifs with hone
  · rw [quot_eq hnum (by omega), quot_eq hden (by omega), ok_bind, ok_bind]
    rfl
  · have hcoprime : num.gcd den = 1 := by omega
    rw [hcoprime, Int.natCast_one, Int.tdiv_one, Int.tdiv_one]
    rfl

/-- Reducing comes to lowest terms. -/
theorem reduce_eq (hnum : num.natAbs < 2 ^ 127) (hden : den.natAbs < 2 ^ 127) (hne : den ≠ 0) :
    reduce num den = .ok ((Rat.divInt num den).num, ((Rat.divInt num den).den : Int)) := by
  rcases hne.lt_or_gt with hneg | hpos
  · have hpos : 0 < -den := neg_pos.mpr hneg
    have hflipNum : (-num).natAbs < 2 ^ 127 := by rwa [Int.natAbs_neg]
    have hflipDen : (-den).natAbs < 2 ^ 127 := by rwa [Int.natAbs_neg]
    have hmoved : moveSign num den = moveSign (-num) (-den) := by
      rw [moveSign, moveSign, if_pos hneg, if_neg hpos.not_gt, neg_eq hnum, neg_eq hden, ok_bind,
        ok_bind]
    rw [← Rat.neg_divInt_neg, ← reduce_eq_of_pos hflipNum hflipDen hpos, reduce, reduce, hmoved]
  · exact reduce_eq_of_pos hnum hden hpos

/-- The nanoseconds of a remainder are those that are counted for times. -/
theorem part_eq {rest : Int} {den : Nat} (hlow : 0 ≤ rest) (hhigh : rest < den)
    (hden : den < 2 ^ 127) : part rest den = .ok (Seconds.partNanos rest den) := by
  have hlimit : quot greatest Seconds.nanos = .ok (Seconds.widestDen : Int) := rfl
  have hne : (den : Int) ≠ 0 := by omega
  rw [part, hlimit, ok_bind]
  by_cases hwide : den ≤ Seconds.widestDen
  · have hscaled : rest * Seconds.nanos < 2 ^ 127 :=
      calc rest * Seconds.nanos
          ≤ Seconds.widestDen * Seconds.nanos :=
            Int.mul_le_mul_of_nonneg_right (by omega) (by decide)
        _ < 2 ^ 127 := by decide
    have hnonneg : 0 ≤ rest * Seconds.nanos := Int.mul_nonneg hlow (by decide)
    have hfits : (rest * Seconds.nanos).natAbs < 2 ^ 127 := by omega
    rw [if_pos (by exact_mod_cast hwide), Seconds.partNanos_eq hwide, mul, keep_eq hfits, ok_bind,
      quot_eq hfits hne, Int.tdiv_eq_ediv_of_nonneg hnonneg]
  · have hscale := Seconds.unit_le_ediv (by decide : (0 : Int) < Seconds.nanos)
      (Seconds.nanos_mul_nanos_le (not_le.mp hwide))
    have hnanos : (0 : Int) < Seconds.nanos := by decide
    rw [if_neg (by exact_mod_cast hwide), Seconds.partNanos_of_wide (not_le.mp hwide),
      quot_eq (by omega) (by decide), ok_bind, Int.tdiv_eq_ediv_of_nonneg (by omega),
      quot_eq (by omega) (by omega), Int.tdiv_eq_ediv_of_nonneg hlow]

/-- The count is the count of nanoseconds that is clamped for times. -/
theorem count_eq (hcap : Caps cap) {q : ℚ} (hnum : q.num.natAbs < 2 ^ 127)
    (hden : q.den < 2 ^ 127) :
    count cap q.num q.den = .ok (clampWord (Seconds.wholeNanos q)) := by
  have hne : (q.den : Int) ≠ 0 := by exact_mod_cast q.den_nz
  have hrest := Seconds.part_bounds q
  have hpart := Seconds.partNanos_le q
  rw [count, floorQuot_eq hnum hne, ok_bind, floorRem_eq hnum hne, ok_bind,
    part_eq hrest.1 hrest.2 hden, ok_bind, hcap.clampWord_eq _ _ hpart.1 hpart.2,
    Seconds.clampWord_wholeNanos_eq_counted]
  rfl

theorem ofNanos_eq (n : Int) : ofNanos (clampWord n) = .ok (Seconds.ofNanos n).words := by
  have hnanos : (0 : Int) < Seconds.nanos := by decide
  have hlow := neg_le_clampWord n
  have hhigh := clampWord_lt n
  have hword : (clampWord n).natAbs < 2 ^ 127 := by omega
  have hgcd : 0 < (clampWord n).gcd Seconds.nanos := Int.gcd_pos_of_ne_zero_right _ hnanos.ne'
  rw [ofNanos, greatestDivisor_eq hword (by decide), ok_bind, quot_eq hword (by omega), ok_bind,
    quot_eq (by decide) (by omega), ok_bind, tdiv_gcd_eq_num hnanos, tdiv_gcd_eq_den hnanos]
  rfl

theorem isWord_iff_fits {q : ℚ} : IsWord q.num ∧ IsWord q.den ↔ Seconds.Fits q := by
  unfold IsWord Seconds.Fits
  omega

/-- Lowest terms are no farther from zero than the fraction. -/
theorem natAbs_divInt_lt (hnum : num.natAbs < 2 ^ 127) (hden : den.natAbs < 2 ^ 127)
    (hne : den ≠ 0) :
    (Rat.divInt num den).num.natAbs < 2 ^ 127 ∧ (Rat.divInt num den).den < 2 ^ 127 := by
  have hdvd := Int.natAbs_dvd_natAbs.mpr (Rat.den_dvd num den)
  exact ⟨(Seconds.natAbs_num_divInt_le num den).trans_lt hnum,
    (Nat.le_of_dvd (Int.natAbs_pos.mpr hne) hdvd).trans_lt hden⟩

theorem words_ofRat {q : ℚ} (h : Seconds.Fits q) :
    (Seconds.ofRat q).words = ⟨.ofInt q.num, .ofInt q.den⟩ := by
  rw [Seconds.words, Seconds.toRat_ofRat h]

/-- Storing comes to the words of the time that is stored. -/
theorem store_eq (hcap : Caps cap) (hnum : num.natAbs < 2 ^ 127) (hden : den.natAbs < 2 ^ 127)
    (hne : den ≠ 0) : store cap num den = .ok (Seconds.ofRat (Rat.divInt num den)).words := by
  obtain ⟨hlowestNum, hlowestDen⟩ := natAbs_divInt_lt hnum hden hne
  rw [store, reduce_eq hnum hden hne]
  simp only [ok_bind, isWord_iff_fits]
  split_ifs with hfits
  · rw [words_ofRat hfits]
    rfl
  · rw [count_eq hcap hlowestNum hlowestDen, ok_bind, ofNanos_eq, Seconds.ofRat, dif_neg hfits]

/-! ### Operations -/

theorem natAbs_toInt_le (n : Int64) : n.toInt.natAbs ≤ 2 ^ 63 := by
  have hlow := n.le_toInt
  have hhigh := n.toInt_lt
  omega

theorem toInt_eq_zero_iff {n : Int64} : n.toInt = 0 ↔ n = 0 := by
  rw [← Int64.toInt_inj, Int64.toInt_zero]

theorem new_eq (hcap : Caps cap) (num : Int64) {den : Int64} (hne : den ≠ 0) :
    new cap num den = .ok (Seconds.ofRat (Rat.divInt num.toInt den.toInt)).words := by
  have hnum := natAbs_toInt_le num
  have hden := natAbs_toInt_le den
  rw [new, if_neg hne,
    store_eq hcap (by omega) (by omega) (mt toInt_eq_zero_iff.mp hne)]

theorem new?_eq (hcap : Caps cap) (num den : Int64) :
    new? cap num den = .ok ((Seconds.ofFraction? num.toInt den.toInt).map Seconds.words) := by
  by_cases hzero : den = 0
  · rw [new?, Seconds.ofFraction?, if_pos hzero, if_pos (toInt_eq_zero_iff.mpr hzero)]
    rfl
  · have hnew := new_eq hcap num hzero
    rw [new, if_neg hzero] at hnew
    rw [new?, Seconds.ofFraction?, if_neg hzero, if_neg (mt toInt_eq_zero_iff.mp hzero), hnew]
    rfl

theorem ofInteger_eq (n : Int64) : ofInteger n = (Seconds.ofInt n.toInt).words := by
  have hfits : Seconds.Fits (n.toInt : ℚ) :=
    ⟨n.le_toInt, n.toInt_lt, Rat.den_intCast n.toInt ▸ by decide⟩
  rw [Seconds.ofInt, words_ofRat hfits, Rat.num_intCast, Rat.den_intCast, Int64.ofInt_toInt]
  rfl

theorem ofMillis_eq (hcap : Caps cap) (n : Int64) :
    ofMillis cap n = .ok (Seconds.ofMillis n.toInt).words := by
  rw [ofMillis, new_eq hcap n (by decide)]
  rfl

variable (a b : Seconds)

theorem neg_words (hcap : Caps cap) : a.words.neg cap = .ok (-a).words := by
  have hnum := a.natAbs_num_le
  have hden := a.den_lt
  rw [neg, Seconds.words_num, Register.neg_eq (by omega), ok_bind, Seconds.words_den,
    store_eq hcap (by omega) (by omega) (by exact_mod_cast a.den_nz), Seconds.neg_def,
    ← Rat.neg_divInt, Rat.num_divInt_den]

theorem add_words (hcap : Caps cap) : a.words.add cap b.words = .ok (a + b).words := by
  have hfirst := Seconds.natAbs_num_mul_den_lt a b
  have hsecond := Seconds.natAbs_num_mul_den_lt b a
  have hden : a.words.den = b.words.den ↔ a.den = b.den := by
    rw [← Int64.toInt_inj, Seconds.words_den, Seconds.words_den, Int.natCast_inj]
  rw [add, Seconds.add_def, Seconds.sum]
  simp only [hden, Seconds.words_num, Seconds.words_den]
  split_ifs with hsame
  · have hleft := a.natAbs_num_le
    have hright := b.natAbs_num_le
    have hsum : (a.num + b.num).natAbs < 2 ^ 127 := by omega
    have hless := a.den_lt
    rw [Register.add, keep_eq hsum, ok_bind,
      store_eq hcap hsum (by omega) (by exact_mod_cast a.den_nz), Rat.mkRat_eq_divInt]
  · have hproduct : (a.den * b.den : Int).natAbs < 2 ^ 127 := by
      rw [Int.natAbs_mul, Int.natAbs_natCast, Int.natAbs_natCast]
      exact (Nat.mul_le_mul a.den_lt.le b.den_lt.le).trans_lt (by norm_num)
    have hne : (a.den * b.den : Int) ≠ 0 := by
      exact_mod_cast Nat.mul_ne_zero a.den_nz b.den_nz
    have hcross : (a.num * b.den + b.num * a.den).natAbs < 2 ^ 127 := by omega
    rw [mul, keep_eq (by omega), ok_bind, mul, keep_eq (by omega), ok_bind, mul,
      keep_eq hproduct, ok_bind, hcap.eq_self _ hcross, store_eq hcap hcross hproduct hne,
      Seconds.crossSum_eq, Rat.mkRat_eq_divInt, Int.natCast_mul]

theorem sub_words (hcap : Caps cap) : a.words.sub cap b.words = .ok (a - b).words := by
  rw [sub, neg_words b hcap, ok_bind, add_words a (-b) hcap]
  rfl

theorem cmp_words : a.words.cmp b.words = .ok (compare a b) := by
  have hfirst := Seconds.natAbs_num_mul_den_lt a b
  have hsecond := Seconds.natAbs_num_mul_den_lt b a
  rw [cmp]
  simp only [Seconds.words_num, Seconds.words_den]
  rw [mul, keep_eq (by omega), ok_bind, mul, keep_eq (by omega), ok_bind]
  rfl

theorem max_words : a.words.max b.words = .ok (Max.max a b).words := by
  rw [max, cmp_words, ok_bind]
  rcases lt_or_ge b a with h | h
  · rw [if_pos (compare_gt_iff_gt.mpr h), max_eq_left h.le]
    rfl
  · rw [if_neg (mt compare_gt_iff_gt.mp h.not_gt), max_eq_right h]
    rfl

theorem min_words : a.words.min b.words = .ok (Min.min a b).words := by
  rw [min, cmp_words, ok_bind]
  rcases lt_or_ge b a with h | h
  · rw [if_pos (compare_gt_iff_gt.mpr h), min_eq_right h.le]
    rfl
  · rw [if_neg (mt compare_gt_iff_gt.mp h.not_gt), min_eq_left h]
    rfl

theorem floorMul_words (factor : Int64) :
    a.words.floorMul factor = .ok (.ofInt (a.floorMul factor.toInt)) := by
  have hproduct : (a.num * factor.toInt).natAbs < 2 ^ 127 := by
    rw [Int.natAbs_mul]
    exact (Nat.mul_le_mul a.natAbs_num_le (natAbs_toInt_le factor)).trans_lt (by norm_num)
  rw [floorMul, Seconds.words_num, mul, keep_eq hproduct, ok_bind, Seconds.words_den,
    floorQuot_eq hproduct (by exact_mod_cast a.den_nz), ok_bind]
  rfl

end Fraction

end TimelineMixer
