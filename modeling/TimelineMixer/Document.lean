import TimelineMixer.Fault
import TimelineMixer.Json.Reader

/-!
# Reading documents

Values are taken out of a JSON tree in the order in which they stand in the text, so the first
fault is the one that is reported. A structure is read from an object, whose unknown fields are
passed over, or from an array of its fields in order.
-/

set_option autoImplicit false
set_option relaxedAutoImplicit false

namespace TimelineMixer

/-- Why a document is refused. -/
inductive DocumentFault where
  /-- The text is not JSON, or not the JSON of such a document. -/
  | malformed
  | zeroDenominator (num den : Int)
  /-- The value read from the document is refused. -/
  | refused (cause : Fault)

/-- The wording of a fault that has one of its own. -/
def DocumentFault.message? : DocumentFault → Option String
  | malformed => none
  | zeroDenominator num den => some s!"rational {num}/{den} has a zero denominator"
  | refused cause => some cause.message

/-- A value read from a document. -/
abbrev Reading (α : Type) :=
  Except DocumentFault α

namespace Reading

variable {α : Type}

/-- The document is malformed here. -/
def malformed : Reading α :=
  .error .malformed

/-- Takes over a value that was found. -/
def ofOption : Option α → Reading α
  | some value => .ok value
  | none => malformed

end Reading

namespace Json

/-- A whole number within bounds. -/
def readInt (low high : Int) : Json → Reading Int
  | .number literal => .ofOption (literal.int? low high)
  | _ => .malformed

/-- A whole number below a bound and not below zero. -/
def readNat (bound : Nat) (json : Json) : Reading Nat :=
  (json.readInt 0 (bound - 1)).map Int.toNat

/-- A text. -/
def readText : Json → Reading String
  | .string text => .ofOption text
  | _ => .malformed

/-- The name of a constant: a string, or an object whose only field has that name and the value
null. Where the document was kept before it was read, an empty object may stand for null. -/
def readConstant (kept : Bool) : Json → Reading String
  | .string text => .ofOption text
  | .object (.field (some name) .null .closed) => .ok name
  | .object (.field (some name) (.object .closed) .closed) =>
    if kept then .ok name else .malformed
  | _ => .malformed

end Json

namespace JsonItems

variable {α : Type}

/-- The next item, if the array has one. -/
def next? : JsonItems → Reading (Option (Json × JsonItems))
  | .closed => .ok none
  | .broken => .malformed
  | .item value rest => .ok (some (value, rest))

/-- Reads the next item, which has to be there. -/
def take (items : JsonItems) (read : Json → Reading α) : Reading (α × JsonItems) := do
  match ← items.next? with
  | some (value, rest) => return (← read value, rest)
  | none => .malformed

/-- Reads the next item, for which a value stands in at the end of the array. -/
def takeD (items : JsonItems) (read : Json → Reading α) (standIn : α) :
    Reading (α × JsonItems) := do
  match ← items.next? with
  | some (value, rest) => return (← read value, rest)
  | none => return (standIn, items)

/-- The array ends here. -/
def finish : JsonItems → Reading Unit
  | .closed => .ok ()
  | _ => .malformed

/-- Reads all items. -/
def readAll (read : Json → Reading α) : JsonItems → Reading (List α)
  | .closed => .ok []
  | .broken => .malformed
  | .item value rest => do
    let first ← read value
    let others ← rest.readAll read
    return first :: others

end JsonItems

namespace JsonFields

variable {α σ : Type}

/-- Reads the fields in order. `set` reads a field it knows into a state; one it does not know is
passed over. -/
def readInto (set : σ → String → Json → Reading (Option σ)) (state : σ) : JsonFields → Reading σ
  | .closed => .ok state
  | .broken => .malformed
  | .field none _ _ => .malformed
  | .field (some name) value rest => do
    match ← set state name value with
    | some state => rest.readInto set state
    | none => if value.isWhole then rest.readInto set state else .malformed

/-- Reads a field that must not have been read before. -/
def once (current : Option α) (read : Json → Reading α) (value : Json) : Reading (Option α) :=
  match current with
  | some _ => .malformed
  | none => (read value).map some

end JsonFields

/-- Reads all items of an array. -/
def Json.readList {α : Type} (read : Json → Reading α) : Json → Reading (List α)
  | .array items => items.readAll read
  | _ => .malformed

/-- Reads the value of a text, behind which nothing may follow. -/
def Json.readFrom {α : Type} (read : Json → Reading α) (text : String) : Reading α :=
  match readDocument text with
  | none => .malformed
  | some (json, rest) => do
    let value ← read json
    if rest.isEmpty then return value else .malformed

/-- The number of arrays and objects that may be open in a part that is kept before it is read. -/
def Json.maxDepth : Nat := 127

end TimelineMixer
