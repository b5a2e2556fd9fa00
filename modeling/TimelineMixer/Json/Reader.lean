import TimelineMixer.Hex
import TimelineMixer.Json

/-!
# Reading JSON

`readValue` takes one value off the front of a text. It does not stop at a fault inside an array or
object but returns the tree read so far, ended by `broken`; what is left of such a text is empty.
-/

set_option autoImplicit false
set_option relaxedAutoImplicit false

namespace TimelineMixer.Json

/-- White space between tokens. -/
def isBlank (c : Char) : Bool :=
  c = ' ' || c = '\n' || c = '\t' || c = '\r'

/-- The text from the next token on. -/
def skipBlanks (text : List Char) : List Char :=
  text.dropWhile isBlank

/-! ### Strings -/

/-- A piece of a string: a character, or an escaped unit of a text in 16-bit units. -/
inductive Piece where
  | char (c : Char)
  | unit (value : Nat)
  deriving DecidableEq

/-- The character of a one-letter escape. -/
def escaped? : Char → Option Char
  | '"' => some '"'
  | '\\' => some '\\'
  | '/' => some '/'
  | 'b' => some '\x08'
  | 'f' => some '\x0c'
  | 'n' => some '\n'
  | 'r' => some '\r'
  | 't' => some '\t'
  | _ => none

/-- Takes the pieces of a string up to its closing quote. -/
def readPieces : List Char → Option (List Piece × List Char)
  | '"' :: rest => some ([], rest)
  | '\\' :: 'u' :: a :: b :: c :: d :: rest => do
    let unit ← Hex.number? [a, b, c, d]
    let (pieces, rest) ← readPieces rest
    some (.unit unit :: pieces, rest)
  | '\\' :: c :: rest => do
    let c ← escaped? c
    let (pieces, rest) ← readPieces rest
    some (.char c :: pieces, rest)
  | c :: rest =>
    if c.toNat < 32 then none
    else do
      let (pieces, rest) ← readPieces rest
      some (.char c :: pieces, rest)
  | [] => none

/-- The first unit of a surrogate pair. -/
def isHighSurrogate (unit : Nat) : Bool :=
  0xD800 ≤ unit && unit < 0xDC00

/-- The second unit of a surrogate pair. -/
def isLowSurrogate (unit : Nat) : Bool :=
  0xDC00 ≤ unit && unit < 0xE000

/-- The characters of pieces; nothing if a surrogate stands alone. -/
def joinPieces : List Piece → Option (List Char)
  | [] => some []
  | .char c :: rest => (joinPieces rest).map (c :: ·)
  | .unit high :: .unit low :: rest =>
    if isHighSurrogate high then
      if isLowSurrogate low then
        (joinPieces rest).map
          (Char.ofNat (0x10000 + (high - 0xD800) * 0x400 + (low - 0xDC00)) :: ·)
      else none
    else if isLowSurrogate high then none
    else (joinPieces (.unit low :: rest)).map (Char.ofNat high :: ·)
  | .unit value :: rest =>
    if isHighSurrogate value || isLowSurrogate value then none
    else (joinPieces rest).map (Char.ofNat value :: ·)

/-- Takes a string whose opening quote was taken. -/
def readString (text : List Char) : Option (Option String × List Char) :=
  (readPieces text).map fun (pieces, rest) ↦ ((joinPieces pieces).map String.ofList, rest)

/-! ### Numbers -/

/-- Takes decimal digits. -/
def readDigits (text : List Char) : List Char × List Char :=
  (text.takeWhile Char.isDigit, text.dropWhile Char.isDigit)

/-- Takes the digits before the point; a zero stands alone. -/
def readWhole (text : List Char) : Option (List Char × List Char) :=
  match readDigits text with
  | ([], _) => none
  | ('0' :: _ :: _, _) => none
  | (digits, rest) => some (digits, rest)

/-- Takes a point and the digits after it, if there is a point. -/
def readFraction : List Char → Option (Option (List Char) × List Char)
  | '.' :: text =>
    match readDigits text with
    | ([], _) => none
    | (digits, rest) => some (some digits, rest)
  | text => some (none, text)

/-- Takes the sign of an exponent. -/
def readExponentSign : List Char → Bool × List Char
  | '-' :: text => (true, text)
  | '+' :: text => (false, text)
  | text => (false, text)

/-- Takes an exponent, if there is one. -/
def readExponent : List Char → Option (Option (Bool × List Char) × List Char)
  | c :: text =>
    if c = 'e' ∨ c = 'E' then
      let (negative, text) := readExponentSign text
      match readDigits text with
      | ([], _) => none
      | (digits, rest) => some (some (negative, digits), rest)
    else some (none, c :: text)
  | [] => some (none, [])

/-- Takes a number without its sign. -/
def readMagnitude (negative : Bool) (text : List Char) : Option (NumberLiteral × List Char) := do
  let (whole, text) ← readWhole text
  let (fraction, text) ← readFraction text
  let (exponent, text) ← readExponent text
  some (⟨negative, whole, fraction, exponent⟩, text)

/-- Takes a number. -/
def readNumber : List Char → Option (NumberLiteral × List Char)
  | '-' :: text => readMagnitude true text
  | text => readMagnitude false text

/-! ### Values -/

/-- Takes a value that is no container. -/
def readLeaf : List Char → Option (Json × List Char)
  | 'n' :: 'u' :: 'l' :: 'l' :: text => some (.null, text)
  | 't' :: 'r' :: 'u' :: 'e' :: text => some (.bool true, text)
  | 'f' :: 'a' :: 'l' :: 's' :: 'e' :: text => some (.bool false, text)
  | '"' :: text => (readString text).map fun (value, rest) ↦ (.string value, rest)
  | text => (readNumber text).map fun (literal, rest) ↦ (.number literal, rest)

/-- Takes a field name and the colon behind it. -/
def readName : List Char → Option (Option String × List Char)
  | '"' :: text =>
    match readString text with
    | some (name, rest) =>
      match skipBlanks rest with
      | ':' :: rest => some (name, skipBlanks rest)
      | _ => none
    | none => none
  | _ => none

mutual

/-- Takes a value. The bound limits the number of values. -/
def readValue : Nat → List Char → Option (Json × List Char)
  | 0, _ => none
  | bound + 1, '[' :: text =>
    match skipBlanks text with
    | ']' :: rest => some (.array .closed, rest)
    | text =>
      let (items, rest) := readItems bound text
      some (.array items, rest)
  | bound + 1, '\x7b' :: text =>
    match skipBlanks text with
    | '\x7d' :: rest => some (.object .closed, rest)
    | text =>
      let (fields, rest) := readFields bound text
      some (.object fields, rest)
  | _ + 1, text => readLeaf text

/-- Takes items, one at least, up to the end of the array. -/
def readItems : Nat → List Char → JsonItems × List Char
  | 0, _ => (.broken, [])
  | bound + 1, text =>
    match readValue bound text with
    | none => (.broken, [])
    | some (value, rest) =>
      match skipBlanks rest with
      | ',' :: rest =>
        let (items, rest) := readItems bound (skipBlanks rest)
        (.item value items, rest)
      | ']' :: rest => (.item value .closed, rest)
      | _ => (.item value .broken, [])

/-- Takes fields, one at least, up to the end of the object. -/
def readFields : Nat → List Char → JsonFields × List Char
  | 0, _ => (.broken, [])
  | bound + 1, text =>
    match readName text with
    | none => (.broken, [])
    | some (name, rest) =>
      match readValue bound rest with
      | none => (.broken, [])
      | some (value, rest) =>
        match skipBlanks rest with
        | ',' :: rest =>
          let (fields, rest) := readFields bound (skipBlanks rest)
          (.field name value fields, rest)
        | '\x7d' :: rest => (.field name value .closed, rest)
        | _ => (.field name value .broken, [])

end

/-- The value at the front of a document and the text behind it, without white space on either
side. -/
def readDocument (text : String) : Option (Json × List Char) :=
  let characters := text.toList
  (readValue (2 * characters.length + 2) (skipBlanks characters)).map fun (value, rest) ↦
    (value, skipBlanks rest)

end TimelineMixer.Json
