import TimelineMixer.Decimal
import TimelineMixer.Hex
import TimelineMixer.Json

/-!
# Writing JSON

The compact text of a value: no white space, strings with the shortest escapes, numbers as their
literals are spelled.
-/

set_option autoImplicit false
set_option relaxedAutoImplicit false

namespace TimelineMixer

namespace NumberLiteral

/-- The characters of a literal. -/
def chars (literal : NumberLiteral) : List Char :=
  let sign := if literal.negative then ['-'] else []
  let fraction := match literal.fraction with
    | some digits => '.' :: digits
    | none => []
  let exponent := match literal.exponent with
    | some (true, digits) => 'e' :: '-' :: digits
    | some (false, digits) => 'e' :: digits
    | none => []
  sign ++ literal.whole ++ fraction ++ exponent

/-- The literal of a decimal. Up to thirteen digits before the point and five zeros after it are
written out; a wider decimal has one digit before the point and an exponent. -/
def ofDecimal (negative : Bool) (d : Decimal) : NumberLiteral :=
  let digits := decimalDigits d.digits
  let point : Int := digits.length + d.exponent
  if 0 ≤ d.exponent ∧ point ≤ 13 then
    ⟨negative, digits ++ List.replicate d.exponent.toNat '0', some ['0'], none⟩
  else if 0 < point ∧ point ≤ 13 then
    ⟨negative, digits.take point.toNat, some (digits.drop point.toNat), none⟩
  else if -6 < point ∧ point ≤ 0 then
    ⟨negative, ['0'], some (List.replicate (-point).toNat '0' ++ digits), none⟩
  else
    let fraction := if digits.length = 1 then none else some (digits.drop 1)
    ⟨negative, digits.take 1, fraction, some (point < 1, decimalDigits (point - 1).natAbs)⟩

end NumberLiteral

namespace Json

/-- A sample as a number; one that is not finite is null. -/
def ofSample (x : Float32) : Json :=
  if x.isFinite then .number (.ofDecimal (Single.isNegative x) (Single.shortest x)) else .null

/-- The characters that stand for a character inside a string. -/
def escape (c : Char) : List Char :=
  if c = '"' then ['\\', '"']
  else if c = '\\' then ['\\', '\\']
  else if c = '\x08' then ['\\', 'b']
  else if c = '\x0c' then ['\\', 'f']
  else if c = '\n' then ['\\', 'n']
  else if c = '\r' then ['\\', 'r']
  else if c = '\t' then ['\\', 't']
  else if c.toNat < 32 then '\\' :: 'u' :: Hex.digits 4 c.toNat
  else [c]

/-- The characters of a string in quotes. -/
def quote (text : String) : List Char :=
  '"' :: text.toList.flatMap escape ++ ['"']

end Json

mutual

/-- The characters of a value. Text that is missing is written as empty, and the missing end of a
container is left out. -/
def Json.chars : Json → List Char
  | .null => ['n', 'u', 'l', 'l']
  | .bool true => ['t', 'r', 'u', 'e']
  | .bool false => ['f', 'a', 'l', 's', 'e']
  | .number literal => literal.chars
  | .string text => Json.quote (text.getD "")
  | .array items => '[' :: items.chars true
  | .object fields => '\x7b' :: fields.chars true

/-- The characters of the rest of an array, the first item without a comma. -/
def JsonItems.chars (first : Bool) : JsonItems → List Char
  | .closed => [']']
  | .broken => []
  | .item value rest => (if first then [] else [',']) ++ value.chars ++ rest.chars false

/-- The characters of the rest of an object, the first field without a comma. -/
def JsonFields.chars (first : Bool) : JsonFields → List Char
  | .closed => ['\x7d']
  | .broken => []
  | .field name value rest =>
    (if first then [] else [',']) ++ Json.quote (name.getD "") ++ ':' :: value.chars ++
      rest.chars false

end

/-- The text of a value. -/
def Json.render (json : Json) : String :=
  String.ofList json.chars

end TimelineMixer
