/-!
# Hexadecimal digits

The value of a digit of either case, and the lower-case digit of a value.
-/

set_option autoImplicit false
set_option relaxedAutoImplicit false

namespace TimelineMixer.Hex

/-- The value of a digit of either case. -/
def value? (c : Char) : Option Nat :=
  if '0' ≤ c ∧ c ≤ '9' then some (c.toNat - '0'.toNat)
  else if 'a' ≤ c ∧ c ≤ 'f' then some (c.toNat - 'a'.toNat + 10)
  else if 'A' ≤ c ∧ c ≤ 'F' then some (c.toNat - 'A'.toNat + 10)
  else none

/-- The lower-case digit of a value below sixteen. -/
def digit (n : Nat) : Char :=
  if n < 10 then Char.ofNat ('0'.toNat + n) else Char.ofNat ('a'.toNat + (n - 10))

theorem value?_digit {n : Nat} (h : n < 16) : value? (digit n) = some n := by
  have : ∀ k : Fin 16, value? (digit k) = some k.val := by decide
  exact this ⟨n, h⟩

/-- The number a row of digits writes, most significant digit first. -/
def number? (digits : List Char) : Option Nat :=
  digits.foldlM (fun total c ↦ (value? c).map (16 * total + ·)) 0

/-- The lowest `count` digits of a number, most significant first. -/
def digits : Nat → Nat → List Char
  | 0, _ => []
  | count + 1, n => digits count (n / 16) ++ [digit (n % 16)]

@[simp] theorem length_digits (count n : Nat) : (digits count n).length = count := by
  induction count generalizing n with
  | zero => rfl
  | succ count ih => simp [digits, ih]

/-- Reading back the written digits gives the number modulo the power they span. -/
theorem number?_digits (count n : Nat) :
    number? (digits count n) = some (n % Nat.pow 16 count) := by
  induction count generalizing n with
  | zero => exact congrArg some (Nat.mod_one n).symm
  | succ count ih =>
    have split : n % Nat.pow 16 (count + 1) = 16 * (n / 16 % Nat.pow 16 count) + n % 16 := by
      change n % (Nat.pow 16 count * 16) = _
      rw [Nat.mul_comm, Nat.mod_mul]
      omega
    have front : List.foldlM (fun total c ↦ (value? c).map (16 * total + ·)) 0
        (digits count (n / 16)) = some (n / 16 % Nat.pow 16 count) := ih (n / 16)
    rw [digits, number?, List.foldlM_append, front, split]
    simp [value?_digit (Nat.mod_lt n (by decide))]

end TimelineMixer.Hex
