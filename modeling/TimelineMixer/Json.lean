import TimelineMixer.Json.NumberLiteral

/-!
# JSON documents

The tree of a JSON text. A text that breaks off or goes wrong still has a tree: the array or object
in which reading stopped ends in `broken`, and so do all around it. Whoever takes values out of the
tree in order of reading therefore meets every fault at its place in the text.
-/

set_option autoImplicit false
set_option relaxedAutoImplicit false

namespace TimelineMixer

mutual

/-- A JSON value. -/
inductive Json where
  | null
  | bool (value : Bool)
  | number (literal : NumberLiteral)
  /-- A string; no text if it escapes half of a surrogate pair. -/
  | string (text : Option String)
  | array (items : JsonItems)
  | object (fields : JsonFields)

/-- The rest of an array. -/
inductive JsonItems where
  | closed
  | broken
  | item (value : Json) (rest : JsonItems)

/-- The rest of an object. -/
inductive JsonFields where
  | closed
  | broken
  | field (name : Option String) (value : Json) (rest : JsonFields)

end

instance : Inhabited Json := ⟨.null⟩

/-- An array of values. -/
def JsonItems.ofList : List Json → JsonItems
  | [] => .closed
  | value :: rest => .item value (ofList rest)

/-- An object with named values. -/
def JsonFields.ofList : List (String × Json) → JsonFields
  | [] => .closed
  | (name, value) :: rest => .field (some name) value (ofList rest)

namespace Json

/-- A string of proper text. -/
def str (value : String) : Json :=
  .string (some value)

/-- A whole number. -/
def int (value : Int) : Json :=
  .number (.ofInt value)

/-- An array of values. -/
def list (values : List Json) : Json :=
  .array (.ofList values)

/-- An object with named values. -/
def record (fields : List (String × Json)) : Json :=
  .object (.ofList fields)

end Json

/-! ### Values that are read past or kept -/

mutual

/-- The value was read to its end. -/
def Json.isWhole : Json → Bool
  | .array items => items.isWhole
  | .object fields => fields.isWhole
  | _ => true

/-- All items were read to the end of the array. -/
def JsonItems.isWhole : JsonItems → Bool
  | .closed => true
  | .broken => false
  | .item value rest => value.isWhole && rest.isWhole

/-- All fields were read to the end of the object. -/
def JsonFields.isWhole : JsonFields → Bool
  | .closed => true
  | .broken => false
  | .field _ value rest => value.isWhole && rest.isWhole

end

mutual

/-- The value can be kept: read to its end, with proper text and numbers in range, and with
containers no deeper than some levels. -/
def Json.isProper (depth : Nat) : Json → Bool
  | .number literal => literal.value?.isSome
  | .string text => text.isSome
  | .array items => depth != 0 && items.isProper (depth - 1)
  | .object fields => depth != 0 && fields.isProper (depth - 1)
  | _ => true

/-- All items can be kept. -/
def JsonItems.isProper (depth : Nat) : JsonItems → Bool
  | .closed => true
  | .broken => false
  | .item value rest => value.isProper depth && rest.isProper depth

/-- All fields can be kept. -/
def JsonFields.isProper (depth : Nat) : JsonFields → Bool
  | .closed => true
  | .broken => false
  | .field name value rest => name.isSome && value.isProper depth && rest.isProper depth

end

end TimelineMixer
