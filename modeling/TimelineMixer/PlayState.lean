/-!
# Transport states

Whether the transport is stopped, paused or playing, with its one-byte code and its name.
-/

set_option autoImplicit false
set_option relaxedAutoImplicit false

namespace TimelineMixer

/-- State of the transport. -/
inductive PlayState where
  | stopped
  | paused
  | playing
  deriving DecidableEq, Inhabited, Repr

namespace PlayState

/-- The one-byte code. -/
def code : PlayState → UInt8
  | stopped => 0
  | paused => 1
  | playing => 2

/-- The state of a code; an unknown code stands for `stopped`. -/
def ofCode (code : UInt8) : PlayState :=
  if code = 1 then paused else if code = 2 then playing else stopped

@[simp] theorem ofCode_code (state : PlayState) : ofCode state.code = state := by
  cases state <;> rfl

/-- The name, in lower case. -/
def text : PlayState → String
  | stopped => "stopped"
  | paused => "paused"
  | playing => "playing"

/-- The state a name stands for. -/
def ofText? : String → Option PlayState
  | "stopped" => some stopped
  | "paused" => some paused
  | "playing" => some playing
  | _ => none

@[simp] theorem ofText?_text (state : PlayState) : ofText? state.text = some state := by
  cases state <;> rfl

end PlayState

end TimelineMixer
