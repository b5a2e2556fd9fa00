import TimelineMixer.Document

/-!
# Times in documents

A time is an object with a numerator and a denominator, or a whole number of seconds.
-/

set_option autoImplicit false
set_option relaxedAutoImplicit false

namespace TimelineMixer.Seconds

/-- The parts of a fraction read so far. -/
structure Parts where
  num : Option Int
  den : Option Int

/-- A signed 64-bit number. -/
def readWord (json : Json) : Reading Int :=
  json.readInt (-0x8000000000000000) 0x7fffffffffffffff

/-- Reads a part. -/
def Parts.set (parts : Parts) (name : String) (value : Json) : Reading (Option Parts) :=
  match name with
  | "num" => do
    let num ← JsonFields.once parts.num readWord value
    return some { parts with num }
  | "den" => do
    let den ← JsonFields.once parts.den readWord value
    return some { parts with den }
  | _ => return none

/-- The fraction of both parts. -/
def Parts.fraction : Parts → Reading Seconds
  | ⟨some num, some den⟩ =>
    match ofFraction? num den with
    | some time => .ok time
    | none => .error (.zeroDenominator num den)
  | _ => .malformed

/-- Reads a time that is no deeper than some levels. It is kept as a whole before it is read. -/
def ofJson (depth : Nat) (json : Json) : Reading Seconds :=
  if json.isProper depth then
    match json with
    | .object fields => do
      let parts ← fields.readInto Parts.set ⟨none, none⟩
      parts.fraction
    | _ => (readWord json).map ofInt
  else .malformed

/-- The object that stands for a time. -/
def toJson (time : Seconds) : Json :=
  .record [("num", .int time.num), ("den", .int time.den)]

/-- Reads a time from a text. -/
def ofText (text : String) : Reading Seconds :=
  Json.readFrom (ofJson Json.maxDepth) text

end TimelineMixer.Seconds
