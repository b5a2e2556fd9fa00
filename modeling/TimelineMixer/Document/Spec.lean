import TimelineMixer.AudioSpec
import TimelineMixer.Document

/-!
# Stream formats in documents

A stream format is an object with the name of the encoding, the sample rate and the channel count.
It is checked once it has been read.
-/

set_option autoImplicit false
set_option relaxedAutoImplicit false

namespace TimelineMixer

/-- Reads the name of an encoding. -/
def SampleFormat.ofJson (json : Json) : Reading SampleFormat := do
  let name ← json.readConstant false
  .ofOption (SampleFormat.ofName? name)

namespace AudioSpec

/-- The fields of a format read so far. -/
structure Parts where
  format : Option SampleFormat
  rate : Option UInt32
  channels : Option UInt16

/-- A sample rate. -/
def readRate (json : Json) : Reading UInt32 :=
  (json.readNat UInt32.size).map UInt32.ofNat

/-- A channel count. -/
def readChannels (json : Json) : Reading UInt16 :=
  (json.readNat UInt16.size).map UInt16.ofNat

/-- Reads a field. -/
def Parts.set (parts : Parts) (name : String) (value : Json) : Reading (Option Parts) :=
  match name with
  | "format" => do
    let format ← JsonFields.once parts.format SampleFormat.ofJson value
    return some { parts with format }
  | "sample_rate" => do
    let rate ← JsonFields.once parts.rate readRate value
    return some { parts with rate }
  | "channels" => do
    let channels ← JsonFields.once parts.channels readChannels value
    return some { parts with channels }
  | _ => return none

/-- Checks a format that was read. -/
def ofParts (format : SampleFormat) (rate : UInt32) (channels : UInt16) : Reading AudioSpec :=
  (make format rate channels).mapError .refused

/-- Reads a format from fields by name. -/
def ofFields (fields : JsonFields) : Reading AudioSpec := do
  match ← fields.readInto Parts.set ⟨none, none, none⟩ with
  | ⟨some format, some rate, some channels⟩ => ofParts format rate channels
  | _ => .malformed

/-- Reads a format from fields in order. -/
def ofItems (items : JsonItems) : Reading AudioSpec := do
  let (format, items) ← items.take SampleFormat.ofJson
  let (rate, items) ← items.take readRate
  let (channels, items) ← items.take readChannels
  items.finish
  ofParts format rate channels

/-- Reads a format. -/
def ofJson : Json → Reading AudioSpec
  | .object fields => ofFields fields
  | .array items => ofItems items
  | _ => .malformed

/-- The object that stands for a format. -/
def toJson (spec : AudioSpec) : Json :=
  .record
    [("format", .str spec.format.name), ("sample_rate", .int spec.rate.toNat),
      ("channels", .int spec.channels.toNat)]

/-- Reads a format from a text. -/
def ofText (text : String) : Reading AudioSpec :=
  Json.readFrom ofJson text

end AudioSpec

end TimelineMixer
