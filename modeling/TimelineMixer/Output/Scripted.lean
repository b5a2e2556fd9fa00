import TimelineMixer.Output.Stream

/-!
# Scripted output

An output for rehearsals. It notes the calls made on it, and calls that are laid down to fail or to
run out of time do so. Periods can be pulled from it while it holds a renderer, corked or not.
-/

set_option autoImplicit false
set_option relaxedAutoImplicit false

namespace TimelineMixer

/-- The calls that control a stream. -/
inductive TransportCall where
  | start
  | cork
  | uncork
  | flush (timeout : Nat)
  | drain (timeout : Nat)
  | close
  deriving DecidableEq

namespace TransportCall

/-- The name of a call. -/
def name : TransportCall → String
  | start => "start"
  | cork => "cork"
  | uncork => "uncork"
  | flush _ => "flush"
  | drain _ => "drain"
  | close => "close"

/-- The written form of a call, with the milliseconds it may wait. -/
def text : TransportCall → String
  | flush timeout => s!"flush {timeout}"
  | drain timeout => s!"drain {timeout}"
  | call => call.name

end TransportCall

/-- An output whose answers are laid down. -/
structure ScriptedOutput where
  corked : Bool
  /-- Names of the calls that fail. -/
  failing : List String
  /-- Names of the calls that run out of time. -/
  timingOut : List String
  /-- Calls made and not yet read, oldest first. -/
  calls : List TransportCall
  /-- A renderer was handed over and not released. -/
  started : Bool

namespace ScriptedOutput

/-- An output that has not been started. -/
def new (corked : Bool) (failing timingOut : List String) : ScriptedOutput :=
  ⟨corked, failing, timingOut, [], false⟩

/-- Notes a call. -/
def note (output : ScriptedOutput) (call : TransportCall) : ScriptedOutput :=
  { output with calls := output.calls ++ [call] }

/-- Notes a call and answers it as laid down. Only a call that succeeds has an effect. -/
def answer (output : ScriptedOutput) (call : TransportCall)
    (effect : ScriptedOutput → ScriptedOutput) : Reply ScriptedOutput :=
  let noted := output.note call
  if call.name ∈ output.failing then .failOutput noted (.other ("scripted " ++ call.name))
  else if call.name ∈ output.timingOut then .fail noted (.timeout call.name)
  else .ok (effect noted)

/-- Notes the closing and releases the renderer. -/
def close (output : ScriptedOutput) : ScriptedOutput :=
  { output.note .close with started := false }

instance : OutputStream ScriptedOutput where
  name _ := "scripted"
  isCorked := corked
  start output := output.answer .start fun output ↦ { output with started := true }
  cork output := output.answer .cork fun output ↦ { output with corked := true }
  uncork output := output.answer .uncork fun output ↦ { output with corked := false }
  flush timeout output := output.answer (.flush timeout) id
  drain timeout output := output.answer (.drain timeout) id
  close output := (output.close, [])

/-- Takes the calls noted so far. -/
def takeCalls (output : ScriptedOutput) : List TransportCall × ScriptedOutput :=
  (output.calls, { output with calls := [] })

end ScriptedOutput

end TimelineMixer
