import TimelineMixer.Document.Time
import TimelineMixer.Json.Printer
import TimelineMixer.Timeline

/-!
# Timelines in documents

A timeline is an object with its atoms, an atom an object with its bounds and layers, a layer an
object with identity, bounds and gain. An atom without layers may leave them out, and a layer of
gain one its gain. The atoms are checked once the whole timeline has been read.
-/

set_option autoImplicit false
set_option relaxedAutoImplicit false

namespace TimelineMixer

namespace LayerId

/-- Reads an identity. -/
def ofJson (json : Json) : Reading LayerId := do
  let text ← json.readText
  .ofOption (ofText? text)

/-- The written form as a JSON value. -/
def toJson (id : LayerId) : Json :=
  .str id.text

end LayerId

/-- Reads a gain. -/
def readGain : Json → Reading Float32
  | .number literal => .ofOption literal.sample?
  | _ => .malformed

namespace Layer

/-- The fields of a layer read so far. -/
structure Parts where
  id : Option LayerId
  start : Option Seconds
  stop : Option Seconds
  gain : Option Float32

/-- The gain of a layer that names none. -/
def unitGain : Float32 := 1

/-- A bound of a layer, which lies inside five arrays or objects. -/
def readBound : Json → Reading Seconds :=
  Seconds.ofJson (Json.maxDepth - 5)

/-- Reads a field. -/
def Parts.set (parts : Parts) (name : String) (value : Json) : Reading (Option Parts) :=
  match name with
  | "uuid" => do
    let id ← JsonFields.once parts.id LayerId.ofJson value
    return some { parts with id }
  | "from" => do
    let start ← JsonFields.once parts.start readBound value
    return some { parts with start }
  | "to" => do
    let stop ← JsonFields.once parts.stop readBound value
    return some { parts with stop }
  | "gain" => do
    let gain ← JsonFields.once parts.gain readGain value
    return some { parts with gain }
  | _ => return none

/-- Reads a layer from fields by name. -/
def ofFields (fields : JsonFields) : Reading Layer := do
  match ← fields.readInto Parts.set ⟨none, none, none, none⟩ with
  | ⟨some id, some start, some stop, gain⟩ => return ⟨id, start, stop, gain.getD unitGain⟩
  | _ => .malformed

/-- Reads a layer from fields in order. -/
def ofItems (items : JsonItems) : Reading Layer := do
  let (id, items) ← items.take LayerId.ofJson
  let (start, items) ← items.take readBound
  let (stop, items) ← items.take readBound
  let (gain, items) ← items.takeD readGain unitGain
  items.finish
  return ⟨id, start, stop, gain⟩

/-- Reads a layer. -/
def ofJson : Json → Reading Layer
  | .object fields => ofFields fields
  | .array items => ofItems items
  | _ => .malformed

/-- The object that stands for a layer. -/
def toJson (layer : Layer) : Json :=
  .record
    [("uuid", layer.id.toJson), ("from", layer.start.toJson), ("to", layer.stop.toJson),
      ("gain", .ofSample layer.gain)]

end Layer

namespace Atom

/-- The fields of an atom read so far. -/
structure Parts where
  start : Option Seconds
  stop : Option Seconds
  layers : Option (List Layer)

/-- A bound of an atom, which lies inside three arrays or objects. -/
def readBound : Json → Reading Seconds :=
  Seconds.ofJson (Json.maxDepth - 3)

/-- Reads a field. -/
def Parts.set (parts : Parts) (name : String) (value : Json) : Reading (Option Parts) :=
  match name with
  | "from" => do
    let start ← JsonFields.once parts.start readBound value
    return some { parts with start }
  | "to" => do
    let stop ← JsonFields.once parts.stop readBound value
    return some { parts with stop }
  | "layers" => do
    let layers ← JsonFields.once parts.layers (Json.readList Layer.ofJson) value
    return some { parts with layers }
  | _ => return none

/-- Reads an atom from fields by name. -/
def ofFields (fields : JsonFields) : Reading Atom := do
  match ← fields.readInto Parts.set ⟨none, none, none⟩ with
  | ⟨some start, some stop, layers⟩ => return ⟨start, stop, layers.getD []⟩
  | _ => .malformed

/-- Reads an atom from fields in order. -/
def ofItems (items : JsonItems) : Reading Atom := do
  let (start, items) ← items.take readBound
  let (stop, items) ← items.take readBound
  let (layers, items) ← items.takeD (Json.readList Layer.ofJson) []
  items.finish
  return ⟨start, stop, layers⟩

/-- Reads an atom. -/
def ofJson : Json → Reading Atom
  | .object fields => ofFields fields
  | .array items => ofItems items
  | _ => .malformed

/-- The object that stands for an atom. -/
def toJson (atom : Atom) : Json :=
  .record
    [("from", atom.start.toJson), ("to", atom.stop.toJson),
      ("layers", .list (atom.layers.map Layer.toJson))]

end Atom

namespace Timeline

/-- Reads atoms. -/
def readAtoms : Json → Reading (List Atom) :=
  Json.readList Atom.ofJson

/-- Reads the atoms of a timeline, unchecked. -/
def atomsOfJson : Json → Reading (List Atom)
  | .object fields => do
    let atoms ← fields.readInto
      (fun current name value ↦
        if name = "atoms" then return some (← JsonFields.once current readAtoms value)
        else return none)
      none
    .ofOption atoms
  | .array items => do
    let (atoms, items) ← items.take readAtoms
    items.finish
    return atoms
  | _ => .malformed

/-- Reads a timeline and checks it. -/
def ofJson (json : Json) : Reading Timeline := do
  let atoms ← atomsOfJson json
  (make atoms).mapError .refused

/-- The object that stands for a timeline. -/
def toJson (timeline : Timeline) : Json :=
  .record [("atoms", .list (timeline.atoms.map Atom.toJson))]

/-- Reads a timeline from a text. -/
def ofText (text : String) : Reading Timeline :=
  Json.readFrom ofJson text

/-- What is recorded while a timeline is read from a text. -/
def noticesOfText (text : String) : List Notice :=
  match Json.readFrom atomsOfJson text with
  | .ok atoms => notices atoms
  | .error _ => []

end Timeline

end TimelineMixer
