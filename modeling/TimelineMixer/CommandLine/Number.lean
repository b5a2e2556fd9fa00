/-!
# Numbers on the command line

A whole number that fits an unsigned 64-bit word, and a 32-bit float. Both may have a leading plus,
the float also a minus.
-/

set_option autoImplicit false
set_option relaxedAutoImplicit false

namespace TimelineMixer.CommandLine

/-- A row of decimal digits, one at least. -/
def isNumber (digits : List Char) : Bool :=
  !digits.isEmpty && digits.all Char.isDigit

/-- The number that digits stand for. -/
def numberOf (digits : List Char) : Nat :=
  Nat.ofDigitChars 10 digits 0

/-- The text without a leading plus. -/
def dropPlus : List Char → List Char
  | '+' :: rest => rest
  | text => text

/-- A whole number of an unsigned word. -/
def word? (text : String) : Option Nat :=
  let digits := dropPlus text.toList
  if isNumber digits ∧ numberOf digits < UInt64.size then some (numberOf digits) else none

/-- The float nearest to `digits * 10 ^ exponent`. -/
def nearest (digits : Nat) (exponent : Int) : Float32 :=
  let top := (Nat.toDigits 10 digits).length + exponent
  if digits = 0 ∨ top < -60 then 0
  else if 60 < top then Float32.ofScientific 1 false 60
  else Float32.ofScientific digits (exponent < 0) exponent.natAbs

/-- The exponent of a float behind its mark. -/
def exponent? : List Char → Option Int
  | '-' :: digits => if isNumber digits then some (-numberOf digits) else none
  | text =>
    let digits := dropPlus text
    if isNumber digits then some (numberOf digits) else none

/-- The magnitude of a float in decimal notation. A point needs a digit on one side. -/
def decimal? (text : List Char) : Option Float32 := do
  let (whole, rest) := text.span Char.isDigit
  let (fraction, rest) :=
    match rest with
    | '.' :: rest => rest.span Char.isDigit
    | rest => ([], rest)
  let exponent ←
    match rest with
    | [] => some 0
    | mark :: rest => if mark = 'e' ∨ mark = 'E' then exponent? rest else none
  if isNumber (whole ++ fraction) then
    some (nearest (numberOf (whole ++ fraction)) (exponent - fraction.length))
  else none

/-- The magnitude of a float; names are read in any case. -/
def magnitude? (text : List Char) : Option Float32 :=
  match String.ofList (text.map Char.toLower) with
  | "inf" | "infinity" => some (1 / 0)
  | "nan" => some (0 / 0)
  | _ => decimal? text

/-- A float. -/
def sample? (text : String) : Option Float32 :=
  match text.toList with
  | '-' :: rest => (magnitude? rest).map fun x ↦ -x
  | text => magnitude? (dropPlus text)

end TimelineMixer.CommandLine
