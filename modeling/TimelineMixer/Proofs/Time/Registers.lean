import Mathlib.Algebra.Order.Ring.Int
import TimelineMixer.Seconds

/-!
# Arithmetic in registers

Intermediate results of times are kept in signed 128-bit registers. Here each step of such a
computation checks its result: one that does not fit its register ends the computation, and so does
a division by zero. A computation that comes to an answer has therefore had neither.

The divisor by which a fraction is reduced comes from the loop of Euclid's algorithm
(`greatestDivisor_eq`). The loop divides by numbers other than zero alone, and its numbers only get
smaller, so it always comes to an answer.
-/

set_option autoImplicit false
set_option relaxedAutoImplicit false

namespace TimelineMixer

/-- What ends a computation in registers. -/
inductive Trap where
  /-- A result does not fit its register. -/
  | overflow
  /-- A division by zero. -/
  | zeroDivisor
  /-- A fraction over zero. -/
  | zeroDenominator
  deriving DecidableEq

namespace Register

/-- The numbers a register holds. -/
def Holds (n : Int) : Prop :=
  -0x80000000000000000000000000000000 ≤ n ∧ n < 0x80000000000000000000000000000000

instance (n : Int) : Decidable (Holds n) :=
  inferInstanceAs (Decidable (_ ∧ _))

/-- The greatest number a register holds. -/
def greatest : Int :=
  0x7fffffffffffffffffffffffffffffff

/-- Keeps a result. -/
def keep (n : Int) : Except Trap Int :=
  if Holds n then .ok n else .error .overflow

/-- The negated number. -/
def neg (a : Int) : Except Trap Int :=
  keep (-a)

/-- The number without its sign. -/
def abs (a : Int) : Except Trap Int :=
  keep a.natAbs

/-- The sum. -/
def add (a b : Int) : Except Trap Int :=
  keep (a + b)

/-- The product. -/
def mul (a b : Int) : Except Trap Int :=
  keep (a * b)

/-- The quotient, rounded towards zero. -/
def quot (a b : Int) : Except Trap Int :=
  if b = 0 then .error .zeroDivisor else keep (a.tdiv b)

/-- The remainder that belongs to `quot`; the quotient has to fit as well. -/
def rem (a b : Int) : Except Trap Int :=
  (quot a b).map fun _ ↦ a.tmod b

/-- The quotient that leaves a remainder of at least zero. -/
def floorQuot (a b : Int) : Except Trap Int :=
  if b = 0 then .error .zeroDivisor else keep (a / b)

/-- The remainder that belongs to `floorQuot`; the quotient has to fit as well. -/
def floorRem (a b : Int) : Except Trap Int :=
  (floorQuot a b).map fun _ ↦ a % b

@[simp] theorem ok_bind {α β : Type} (a : α) (next : α → Except Trap β) :
    (.ok a >>= next) = next a :=
  rfl

variable {a b n : Int}

/-! ### Results that fit -/

/-- The least number of a register is the only one that has no negative there, so all numbers are
kept closer to zero than that. -/
theorem keep_eq (h : n.natAbs < 2 ^ 127) : keep n = .ok n :=
  if_pos (by unfold Holds; omega)

theorem neg_eq (h : a.natAbs < 2 ^ 127) : neg a = .ok (-a) :=
  keep_eq (by rwa [Int.natAbs_neg])

theorem abs_eq (h : a.natAbs < 2 ^ 127) : abs a = .ok a.natAbs :=
  keep_eq h

theorem quot_eq (ha : a.natAbs < 2 ^ 127) (hb : b ≠ 0) : quot a b = .ok (a.tdiv b) := by
  have hless : (a.tdiv b).natAbs ≤ a.natAbs := by
    rw [Int.natAbs_tdiv]
    exact Nat.div_le_self _ _
  rw [quot, if_neg hb, keep_eq (hless.trans_lt ha)]

theorem rem_eq (ha : a.natAbs < 2 ^ 127) (hb : b ≠ 0) : rem a b = .ok (a.tmod b) := by
  rw [rem, quot_eq ha hb]
  rfl

theorem floorQuot_eq (ha : a.natAbs < 2 ^ 127) (hb : b ≠ 0) : floorQuot a b = .ok (a / b) := by
  rw [floorQuot, if_neg hb, keep_eq ((Int.natAbs_ediv_le_natAbs a b).trans_lt ha)]

theorem floorRem_eq (ha : a.natAbs < 2 ^ 127) (hb : b ≠ 0) : floorRem a b = .ok (a % b) := by
  rw [floorRem, floorQuot_eq ha hb]
  rfl

/-- A remainder is never taken by zero. -/
theorem natAbs_lt_of_rem_eq_ok {r : Int} (h : rem a b = .ok r) : r.natAbs < b.natAbs := by
  by_cases hb : b = 0
  · simp [rem, quot, hb, Except.map] at h
  · by_cases hfits : Holds (a.tdiv b)
    · rw [rem, quot, if_neg hb, keep, if_pos hfits] at h
      obtain rfl : a.tmod b = r := Except.ok.inj h
      rw [Int.natAbs_tmod]
      exact Nat.mod_lt _ (Int.natAbs_pos.mpr hb)
    · simp [rem, quot, keep, hb, hfits, Except.map] at h

/-! ### The greatest common divisor -/

/-- Euclid's loop: the second number and the remainder take the place of both numbers until the
second one is zero. -/
def euclid (a b : Int) : Except Trap Int :=
  if b = 0 then .ok a
  else
    match _ : rem a b with
    | .ok r => euclid b r
    | .error trap => .error trap
termination_by b.natAbs
decreasing_by exact natAbs_lt_of_rem_eq_ok ‹_›

/-- The greatest common divisor. -/
def greatestDivisor (a b : Int) : Except Trap Int := do
  let first ← abs a
  let second ← abs b
  euclid first second

/-- The remainders of the loop get smaller, and the divisor stays the same. -/
theorem euclid_eq (a b : Nat) (ha : a < 2 ^ 127) (hb : b < 2 ^ 127) :
    euclid a b = .ok (a.gcd b : Nat) := by
  induction b using Nat.strong_induction_on generalizing a with
  | h b ih =>
    rw [euclid]
    by_cases hzero : b = 0
    · simp [hzero]
    · have hrem : rem (a : Int) b = .ok (a % b : Nat) := by
        rw [rem_eq (a := a) ha (by omega), Int.tmod_eq_emod_of_nonneg (by omega), Int.natCast_emod]
      have hless := Nat.mod_lt a (Nat.pos_of_ne_zero hzero)
      rw [if_neg (by omega)]
      split
      · next r h =>
        obtain rfl : ((a % b : Nat) : Int) = r := Except.ok.inj (hrem.symm.trans h)
        rw [ih (a % b) hless b hb (hless.trans hb), Nat.gcd_comm a, Nat.gcd_rec b a,
          Nat.gcd_comm]
      · next trap h =>
        rw [hrem] at h
        contradiction

theorem greatestDivisor_eq (ha : a.natAbs < 2 ^ 127) (hb : b.natAbs < 2 ^ 127) :
    greatestDivisor a b = .ok (a.gcd b : Nat) := by
  rw [greatestDivisor, abs_eq ha, abs_eq hb]
  exact euclid_eq _ _ ha hb

end Register

end TimelineMixer
