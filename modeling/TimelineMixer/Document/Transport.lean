import TimelineMixer.Document
import TimelineMixer.PlayState

/-!
# Transport states in documents

A transport state is its name.
-/

set_option autoImplicit false
set_option relaxedAutoImplicit false

namespace TimelineMixer.PlayState

/-- Reads a transport state, from a document that was kept or not. -/
def ofJson (kept : Bool) (json : Json) : Reading PlayState := do
  let name ← json.readConstant kept
  .ofOption (ofText? name)

/-- The name as a JSON value. -/
def toJson (state : PlayState) : Json :=
  .str state.text

/-- Reads a transport state from a document. -/
def ofDocument (text : String) : Reading PlayState :=
  Json.readFrom (ofJson false) text

end TimelineMixer.PlayState
