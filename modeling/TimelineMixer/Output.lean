import TimelineMixer.Output.Device
import TimelineMixer.Output.Loopback
import TimelineMixer.Output.Scripted

/-!
# Outputs

Any of the outputs as one stream type, with what can be observed at its other end.
-/

set_option autoImplicit false
set_option relaxedAutoImplicit false

namespace TimelineMixer

/-- An output of one of the kinds. -/
inductive Output where
  | loopback (output : LoopbackOutput)
  | device (output : DeviceOutput)
  | scripted (output : ScriptedOutput)

namespace Output

/-- Makes a call on the output inside. -/
def call (forLoopback : LoopbackOutput → Reply LoopbackOutput)
    (forDevice : DeviceOutput → Reply DeviceOutput)
    (forScripted : ScriptedOutput → Reply ScriptedOutput) : Output → Reply Output
  | loopback output => (forLoopback output).map loopback
  | device output => (forDevice output).map device
  | scripted output => (forScripted output).map scripted

/-- The name of the output inside. -/
def name : Output → String
  | loopback output => OutputStream.name output
  | device output => OutputStream.name output
  | scripted output => OutputStream.name output

/-- The output inside delivers no callbacks. -/
def isCorked : Output → Bool
  | loopback output => OutputStream.isCorked output
  | device output => OutputStream.isCorked output
  | scripted output => OutputStream.isCorked output

/-- Closes the output inside. -/
def close : Output → Output × List Notice
  | loopback output => (OutputStream.close output).map loopback id
  | device output => (OutputStream.close output).map device id
  | scripted output => (OutputStream.close output).map scripted id

instance : OutputStream Output where
  name := name
  isCorked := isCorked
  start := call OutputStream.start OutputStream.start OutputStream.start
  cork := call OutputStream.cork OutputStream.cork OutputStream.cork
  uncork := call OutputStream.uncork OutputStream.uncork OutputStream.uncork
  flush timeout :=
    call (OutputStream.flush timeout) (OutputStream.flush timeout) (OutputStream.flush timeout)
  drain timeout :=
    call (OutputStream.drain timeout) (OutputStream.drain timeout) (OutputStream.drain timeout)
  close := close

/-! ### The other end -/

/-- Pulls a period of some bytes from an output without a device. -/
def pull (output : Output) (player : Player) (locked : Bool) (bytes : Nat) :
    Option (List UInt8) × Output × Player :=
  match output with
  | loopback inner =>
    let (out, inner, player) := inner.pull player locked bytes
    (out, loopback inner, player)
  | scripted inner =>
    if inner.started then
      let (out, player) := player.render locked bytes
      (some out, output, player)
    else (none, output, player)
  | device _ => (none, output, player)

/-- Delivers one callback of a device. -/
def write (output : Output) (player : Player) (wanted : Nat) :
    Option (List Float32) × Output × Player :=
  match output with
  | device inner =>
    let (out, inner, player) := inner.write player wanted
    (out, device inner, player)
  | _ => (none, output, player)

/-- Plays everything that is pending on a loopback output. -/
def playOut : Output → Option (List UInt8) × Output
  | loopback inner =>
    let (bytes, inner) := inner.playOut inner.pending.length
    (some bytes, loopback inner)
  | output => (none, output)

/-- Bytes pulled from a loopback output and not yet played. -/
def pending? : Output → Option Nat
  | loopback inner => some inner.pending.length
  | _ => none

/-- Calls counted by a loopback output. -/
def counts? : Output → Option TransportCounts
  | loopback inner => some inner.counts
  | _ => none

/-- Takes the calls noted by a scripted output. -/
def takeCalls : Output → List TransportCall × Output
  | scripted inner =>
    let (calls, inner) := inner.takeCalls
    (calls, scripted inner)
  | output => ([], output)

end Output

end TimelineMixer
