import TimelineMixer.Hex
import TimelineMixer.Toml

/-!
# Numbers and moments in TOML

Integers, floats, dates and times. An integer fits a signed 64-bit word. A float is the nearest one
to its decimal; a positive decimal beyond the greatest float is refused. An underscore may stand
between two digits.
-/

set_option autoImplicit false
set_option relaxedAutoImplicit false

namespace TimelineMixer.TomlNumber

/-- A decimal digit. -/
def isDigit (c : Char) : Bool :=
  '0' ≤ c && c ≤ '9'

/-- Takes more digits, each of which may follow an underscore. -/
def takeMore? (digit : Char → Bool) : List Char → Option (List Char × List Char)
  | '_' :: c :: rest =>
    if digit c then (takeMore? digit rest).map fun (digits, rest) ↦ (c :: digits, rest)
    else none
  | ['_'] => none
  | c :: rest =>
    if digit c then (takeMore? digit rest).map fun (digits, rest) ↦ (c :: digits, rest)
    else some ([], c :: rest)
  | [] => some ([], [])

/-- Takes digits, one at least. -/
def takeDigits? (digit : Char → Bool) : List Char → Option (List Char × List Char)
  | c :: rest =>
    if digit c then (takeMore? digit rest).map fun (digits, rest) ↦ (c :: digits, rest)
    else none
  | [] => none

/-- Takes a sign, and whether it is a minus. -/
def takeSign : List Char → Bool × List Char
  | '-' :: rest => (true, rest)
  | '+' :: rest => (false, rest)
  | text => (false, text)

/-- The number written in digits of a base. -/
def value (base : Nat) (digits : List Char) : Nat :=
  digits.foldl (fun total c ↦ base * total + (Hex.value? c).getD 0) 0

/-- An integer that fits a signed word. -/
def integer? (n : Int) : Option Toml :=
  if -0x8000000000000000 ≤ n ∧ n < 0x8000000000000000 then some (.int n) else none

/-- Takes an integer of another base than ten from behind its mark. -/
def takeBased? (base : Nat) (digit : Char → Bool) (text : List Char) :
    Option (Toml × List Char) := do
  let (digits, rest) ← takeDigits? digit text
  let n ← integer? (value base digits)
  some (n, rest)

/-! ### Floats -/

/-- The float nearest to `digits * 10 ^ exponent`. -/
def nearest (digits : Nat) (exponent : Int) : Float :=
  let top := (Nat.toDigits 10 digits).length + exponent
  if digits = 0 ∨ top < -400 then 0
  else if 400 < top then Float.ofScientific 1 false 400
  else Float.ofScientific digits (exponent < 0) exponent.natAbs

/-- A float with a sign, unless it is too great. -/
def float? (negative : Bool) (magnitude : Float) : Option Toml :=
  if negative then some (.float (-magnitude))
  else if magnitude.isInf then none
  else some (.float magnitude)

/-- Takes a fraction and an exponent, or one of them; nothing if neither is there. -/
def takeTail? : List Char → Option (Option (List Char × Int) × List Char)
  | '.' :: text => do
    let (fraction, rest) ← takeDigits? isDigit text
    match rest with
    | c :: more =>
      if c = 'e' ∨ c = 'E' then do
        let (exponent, rest) ← takeExponent? more
        some (some (fraction, exponent), rest)
      else some (some (fraction, 0), rest)
    | [] => some (some (fraction, 0), [])
  | c :: text =>
    if c = 'e' ∨ c = 'E' then do
      let (exponent, rest) ← takeExponent? text
      some (some ([], exponent), rest)
    else some (none, c :: text)
  | [] => some (none, [])
where
  /-- Takes an exponent from behind its mark. -/
  takeExponent? (text : List Char) : Option (Int × List Char) := do
    let (negative, text) := takeSign text
    let (digits, rest) ← takeDigits? isDigit text
    let exponent : Int := value 10 digits
    some (if negative then -exponent else exponent, rest)

/-- Takes the digits before the point; a zero stands alone. -/
def takeWhole? : List Char → Option (List Char × List Char)
  | '0' :: rest => some (['0'], rest)
  | text => takeDigits? isDigit text

/-- Takes a decimal number, whose sign was taken. -/
def takeDecimal? (negative : Bool) (text : List Char) : Option (Toml × List Char) := do
  let (whole, rest) ← takeWhole? text
  let (tail, rest) ← takeTail? rest
  match tail with
  | none =>
    let n : Int := value 10 whole
    let n ← integer? (if negative then -n else n)
    some (n, rest)
  | some (fraction, exponent) =>
    let x ← float? negative (nearest (value 10 (whole ++ fraction)) (exponent - fraction.length))
    some (x, rest)

/-- Takes a number. -/
def take? (text : List Char) : Option (Toml × List Char) :=
  match text with
  | '0' :: 'x' :: rest => takeBased? 16 (fun c ↦ (Hex.value? c).isSome) rest
  | '0' :: 'o' :: rest => takeBased? 8 (fun c ↦ '0' ≤ c && c ≤ '7') rest
  | '0' :: 'b' :: rest => takeBased? 2 (fun c ↦ c = '0' || c = '1') rest
  | _ =>
    let (negative, rest) := takeSign text
    match rest with
    | 'i' :: 'n' :: 'f' :: rest =>
      let infinity := Float.ofScientific 1 false 400
      some (.float (if negative then -infinity else infinity), rest)
    | 'n' :: 'a' :: 'n' :: rest => some (.float (0 / 0), rest)
    | _ => takeDecimal? negative rest

/-! ### Moments -/

/-- Takes a number of exactly some digits, within bounds. -/
def takeField? (count low high : Nat) (text : List Char) : Option (Nat × List Char) :=
  let digits := text.take count
  let n := value 10 digits
  if digits.length = count ∧ digits.all isDigit ∧ low ≤ n ∧ n ≤ high then
    some (n, text.drop count)
  else none

/-- The text behind a character that has to stand at its front. -/
def expect? (c : Char) : List Char → Option (List Char)
  | d :: rest => if c = d then some rest else none
  | [] => none

/-- The number of days of a month. -/
def daysIn (year month : Nat) : Nat :=
  if month = 2 then
    if year % 4 = 0 ∧ (year % 100 ≠ 0 ∨ year % 400 = 0) then 29 else 28
  else if month = 4 ∨ month = 6 ∨ month = 9 ∨ month = 11 then 30
  else 31

/-- The text behind a date. -/
def skipDate? (text : List Char) : Option (List Char) := do
  let (year, text) ← takeField? 4 0 9999 text
  let text ← expect? '-' text
  let (month, text) ← takeField? 2 1 12 text
  let text ← expect? '-' text
  let (_, text) ← takeField? 2 1 (daysIn year month) text
  some text

/-- The text behind the fraction of a second, if there is one. -/
def skipFraction : List Char → List Char
  | '.' :: c :: rest => if isDigit c then rest.dropWhile isDigit else '.' :: c :: rest
  | text => text

/-- The text behind a time of day. A minute may have a leap second. -/
def skipTime? (text : List Char) : Option (List Char) := do
  let (_, text) ← takeField? 2 0 23 text
  let text ← expect? ':' text
  let (_, text) ← takeField? 2 0 59 text
  let text ← expect? ':' text
  let (_, text) ← takeField? 2 0 60 text
  some (skipFraction text)

/-- The text behind an offset from universal time, if there is one. -/
def skipOffset? : List Char → Option (List Char)
  | c :: text =>
    if c = 'Z' ∨ c = 'z' then some text
    else if c = '+' ∨ c = '-' then do
      let (_, text) ← takeField? 2 0 23 text
      let text ← expect? ':' text
      let (_, text) ← takeField? 2 0 59 text
      some text
    else some (c :: text)
  | [] => some []

/-- The text behind a date with or without a time, or a time. -/
def skipMoment? (text : List Char) : Option (List Char) :=
  match skipDate? text with
  | some (c :: rest) =>
    if c = 'T' ∨ c = 't' ∨ c = ' ' then
      match skipTime? rest with
      | some rest => skipOffset? rest
      | none => some (c :: rest)
    else some (c :: rest)
  | some [] => some []
  | none => skipTime? text

/-- Takes a moment or a number. -/
def takeMomentOrNumber? (text : List Char) : Option (Toml × List Char) :=
  match skipMoment? text with
  | some rest => some (.moment, rest)
  | none => take? text

end TimelineMixer.TomlNumber
