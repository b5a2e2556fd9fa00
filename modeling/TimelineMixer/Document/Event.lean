import TimelineMixer.Document.Time
import TimelineMixer.Document.Transport
import TimelineMixer.Event

/-!
# Events in documents

An event is an object whose field `type` names the kind of event. The object is kept as a whole,
wherever in it the kind stands, before the other fields are read. An array of the kind and the
fields in order is read as well.
-/

set_option autoImplicit false
set_option relaxedAutoImplicit false

namespace TimelineMixer

/-- The kinds of events. -/
inductive EventKind where
  | playbackStateChanged
  | atomChanged
  | loopWrapped
  | underrunPause
  | readyToPlay
  | seeked
  deriving DecidableEq

namespace EventKind

/-- The name of a kind. -/
def name : EventKind → String
  | playbackStateChanged => "PlaybackStateChanged"
  | atomChanged => "AtomChanged"
  | loopWrapped => "LoopWrapped"
  | underrunPause => "UnderrunPause"
  | readyToPlay => "ReadyToPlay"
  | seeked => "Seeked"

/-- The kind a name stands for. -/
def ofName? : String → Option EventKind
  | "PlaybackStateChanged" => some playbackStateChanged
  | "AtomChanged" => some atomChanged
  | "LoopWrapped" => some loopWrapped
  | "UnderrunPause" => some underrunPause
  | "ReadyToPlay" => some readyToPlay
  | "Seeked" => some seeked
  | _ => none

@[simp] theorem ofName?_name (kind : EventKind) : ofName? kind.name = some kind := by
  cases kind <;> rfl

/-- Reads the name of a kind. -/
def ofJson (json : Json) : Reading EventKind := do
  let name ← json.readText
  .ofOption (ofName? name)

end EventKind

namespace Event

/-- The kind of an event. -/
def kind : Event → EventKind
  | playbackStateChanged .. => .playbackStateChanged
  | atomChanged .. => .atomChanged
  | loopWrapped .. => .loopWrapped
  | underrunPause .. => .underrunPause
  | readyToPlay .. => .readyToPlay
  | seeked .. => .seeked

/-- The name of the field that holds the kind. -/
def kindField : String := "type"

/-- A counter or an index. -/
def readWord (json : Json) : Reading Nat :=
  json.readNat UInt64.size

/-! ### Fields by name -/

/-- Two fields read so far. -/
structure Pair (α β : Type) where
  first : Option α
  second : Option β

/-- Reads one of two fields. -/
def Pair.set {α β : Type} (firstName secondName : String) (readFirst : Json → Reading α)
    (readSecond : Json → Reading β) (pair : Pair α β) (name : String) (value : Json) :
    Reading (Option (Pair α β)) :=
  if name = firstName then do
    let first ← JsonFields.once pair.first readFirst value
    return some { pair with first }
  else if name = secondName then do
    let second ← JsonFields.once pair.second readSecond value
    return some { pair with second }
  else return none

/-- Reads two fields by name. -/
def readPair {α β : Type} (firstName secondName : String) (readFirst : Json → Reading α)
    (readSecond : Json → Reading β) (fields : JsonFields) : Reading (α × β) := do
  match ← fields.readInto (Pair.set firstName secondName readFirst readSecond) ⟨none, none⟩ with
  | ⟨some first, some second⟩ => return (first, second)
  | _ => .malformed

/-- Reads one field by name. -/
def readSingle {α : Type} (name : String) (read : Json → Reading α) (fields : JsonFields) :
    Reading α := do
  let value ← fields.readInto
    (fun current key value ↦
      if key = name then return some (← JsonFields.once current read value) else return none)
    none
  .ofOption value

/-- Reads the fields of a kind of event. -/
def ofFields (kind : EventKind) (fields : JsonFields) : Reading Event :=
  match kind with
  | .playbackStateChanged => do
    let (old, new) ← readPair "old_state" "new_state" (PlayState.ofJson true)
      (PlayState.ofJson true) fields
    return .playbackStateChanged old new
  | .atomChanged => do
    let (index, loop) ← readPair "atom_index" "loop_count" readWord readWord fields
    return .atomChanged index loop
  | .loopWrapped => do
    let loop ← readSingle "loop_count" readWord fields
    return .loopWrapped loop
  | .underrunPause => do
    let (queued, threshold) ← readPair "queued_bytes" "threshold_bytes" readWord readWord fields
    return .underrunPause queued threshold
  | .readyToPlay => do
    let queued ← readSingle "queued_bytes" readWord fields
    return .readyToPlay queued
  | .seeked => do
    let (position, index) ← readPair "pts" "atom_index" (Seconds.ofJson Json.maxDepth) readWord
      fields
    return .seeked position index

/-! ### Fields in order -/

/-- Reads two items, behind which nothing may follow. -/
def takePair {α β : Type} (readFirst : Json → Reading α) (readSecond : Json → Reading β)
    (items : JsonItems) : Reading (α × β) := do
  let (first, items) ← items.take readFirst
  let (second, items) ← items.take readSecond
  items.finish
  return (first, second)

/-- Reads the items of a kind of event. -/
def ofItems (kind : EventKind) (items : JsonItems) : Reading Event :=
  match kind with
  | .playbackStateChanged => do
    let (old, new) ← takePair (PlayState.ofJson true) (PlayState.ofJson true) items
    return .playbackStateChanged old new
  | .atomChanged => do
    let (index, loop) ← takePair readWord readWord items
    return .atomChanged index loop
  | .loopWrapped => do
    let (loop, items) ← items.take readWord
    items.finish
    return .loopWrapped loop
  | .underrunPause => do
    let (queued, threshold) ← takePair readWord readWord items
    return .underrunPause queued threshold
  | .readyToPlay => do
    let (queued, items) ← items.take readWord
    items.finish
    return .readyToPlay queued
  | .seeked => do
    let (position, index) ← takePair (Seconds.ofJson Json.maxDepth) readWord items
    return .seeked position index

/-! ### Events -/

/-- Reads the kind of an event, which is named once, and separates it from the other fields. -/
def splitKind : JsonFields → Reading (Option EventKind × JsonFields)
  | .closed => return (none, .closed)
  | .broken => .malformed
  | .field name value rest => do
    if name = some kindField then
      let kind ← EventKind.ofJson value
      match ← splitKind rest with
      | (none, others) => return (some kind, others)
      | (some _, _) => .malformed
    else
      let (kind, others) ← splitKind rest
      return (kind, .field name value others)

/-- Reads an event. -/
def ofJson (json : Json) : Reading Event :=
  if json.isProper Json.maxDepth then
    match json with
    | .object fields => do
      match ← splitKind fields with
      | (some kind, others) => ofFields kind others
      | (none, _) => .malformed
    | .array items => do
      let (kind, items) ← items.take EventKind.ofJson
      ofItems kind items
    | _ => .malformed
  else .malformed

/-- The fields of an event, without its kind. -/
def fields : Event → List (String × Json)
  | playbackStateChanged old new => [("old_state", old.toJson), ("new_state", new.toJson)]
  | atomChanged index loop => [("atom_index", .int index), ("loop_count", .int loop)]
  | loopWrapped loop => [("loop_count", .int loop)]
  | underrunPause queued threshold =>
    [("queued_bytes", .int queued), ("threshold_bytes", .int threshold)]
  | readyToPlay queued => [("queued_bytes", .int queued)]
  | seeked position index => [("pts", position.toJson), ("atom_index", .int index)]

/-- The object that stands for an event. -/
def toJson (event : Event) : Json :=
  .record ((kindField, .str event.kind.name) :: event.fields)

/-- Reads an event from a text. -/
def ofText (text : String) : Reading Event :=
  Json.readFrom ofJson text

end Event

end TimelineMixer
