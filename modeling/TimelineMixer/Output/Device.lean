import TimelineMixer.Output.Host
import TimelineMixer.Output.Playout
import TimelineMixer.Output.Stream
import TimelineMixer.Player

/-!
# Device output

An output that plays on a device of a sound host. Corking pauses the device, so no callbacks come;
a flush asks the next callback to discard the playout ring; a drain stops rendering until the ring
has been played. Between the calls the host decides when callbacks happen (`write`).

A call of the stream is one step, in which no callback happens: a flush of a device that plays runs
out of time, and so does a drain of what it has not played. With the callbacks that come while they
wait, the two are `flushDuring` and `drainDuring`.
-/

set_option autoImplicit false
set_option relaxedAutoImplicit false

namespace TimelineMixer

/-- A stream that is open on a device. -/
structure DeviceStream where
  ring : PlayoutRing
  /-- The device delivers callbacks. -/
  playing : Bool

/-- An output that plays on a device. -/
structure DeviceOutput where
  name : String
  requested : Option String
  spec : AudioSpec
  /-- Frames of a period. -/
  period : Nat
  /-- Frames that the ring should hold. -/
  playout : Nat
  host : SoundHost
  calls : HostCalls
  corked : Bool
  signals : PlayoutSignals
  /-- Errors the device has reported. -/
  errors : Nat
  stream? : Option DeviceStream

/-- The fault of a command that the host refuses. -/
def StreamCommand.refusal : StreamCommand → String → OutputFault
  | play => .resume
  | pause => .pause

namespace DeviceOutput

/-- An output for a device that is opened later. -/
def new (host : SoundHost) (requested : Option String) (spec : AudioSpec) (period playout : Nat) :
    DeviceOutput where
  name := requested.getD "default"
  requested
  spec
  period := max period 1
  playout := max playout 1
  host
  calls := ⟨0, 0, 0⟩
  corked := false
  signals := .idle
  errors := 0
  stream? := none

/-- Samples of a period. -/
def periodSamples (output : DeviceOutput) : Nat :=
  output.period * output.spec.channels.toNat

/-- The ring of a stream to be opened. It holds two periods at least. -/
def newRing (output : DeviceOutput) : PlayoutRing :=
  .new output.periodSamples
    (max (output.playout * output.spec.channels.toNat) (output.periodSamples * 2))

/-! ### Calls of the host -/

/-- Asks the host to build a stream. -/
def callBuild (output : DeviceOutput) : Option String × DeviceOutput :=
  (output.host.buildFault output.calls.build,
    { output with calls := { output.calls with build := output.calls.build + 1 } })

/-- The output with its open stream playing or not. -/
def setPlaying (output : DeviceOutput) (playing : Bool) : DeviceOutput :=
  { output with stream? := output.stream?.map fun stream ↦ { stream with playing } }

/-- The output after a command was given, obeyed or not. -/
def count (output : DeviceOutput) (command : StreamCommand) : DeviceOutput :=
  { output with calls := output.calls.count command }

/-- Gives the host a command. A stream whose host refuses plays or not as before. -/
def call (output : DeviceOutput) (command : StreamCommand) : Option String × DeviceOutput :=
  match output.host.fault command (output.calls.given command) with
  | some reason => (some reason, output.count command)
  | none => (none, (output.count command).setPlaying (command = .play))

/-! ### Transport -/

/-- Builds a stream on a device and pauses it. -/
def openOn (output : DeviceOutput) (name : String) : Reply DeviceOutput :=
  match output.callBuild with
  | (some reason, output) => .failOutput output (.build reason)
  | (none, output) =>
    match output.call .pause with
    | (some reason, output) => .failOutput output (.pauseNew reason)
    | (none, output) =>
      .ok { output with name, corked := true, stream? := some ⟨output.newRing, false⟩ }

/-- Opens a stream on the requested device. -/
def start (output : DeviceOutput) : Reply DeviceOutput :=
  if output.stream?.isSome then .failOutput output .alreadyStarted
  else
    match output.host.choose output.requested with
    | (.error cause, notices) => ⟨.error cause, output, notices⟩
    | (.ok name, notices) => { output.openOn name with notices }

/-- Gives the open stream a command. -/
def send (output : DeviceOutput) (command : StreamCommand) : Reply DeviceOutput :=
  if output.stream?.isNone then .failOutput output .notStarted
  else
    match output.call command with
    | (some reason, output) => .failOutput output (command.refusal reason)
    | (none, output) => .ok output

/-- The output with its flag set. -/
def setCorked (output : DeviceOutput) (corked : Bool) : DeviceOutput :=
  { output with corked }

/-- Pauses the device; nothing to do if already corked. The flag is written after the device has
paused. -/
def cork (output : DeviceOutput) : Reply DeviceOutput :=
  if output.corked then .ok output
  else
    let reply := output.send .pause
    if reply.succeeded then reply.map fun output ↦ output.setCorked true else reply

/-- Lets the device play. The flag is written before the device is asked, and written back if that
fails. -/
def uncork (output : DeviceOutput) : Reply DeviceOutput :=
  if ¬ output.corked then .ok output
  else
    let reply := (output.setCorked false).send .play
    if reply.succeeded then reply else reply.map fun output ↦ output.setCorked true

/-- No callbacks come, so there is nothing to wait for. -/
def isQuiet (output : DeviceOutput) : Bool :=
  output.corked || output.stream?.isNone

/-- Requests a flush. -/
def requestFlush (output : DeviceOutput) : DeviceOutput :=
  { output with signals :=
      { output.signals with flushRequested := output.signals.flushRequested + 1 } }

/-- Every flush request was honoured, or will be before anything else is played. -/
def isFlushed (output : DeviceOutput) : Bool :=
  output.isQuiet || output.signals.flushRequested ≤ output.signals.flushDone

/-- The end of waiting for a flush. -/
def settleFlush (output : DeviceOutput) : Reply DeviceOutput :=
  if output.isFlushed then .ok output else .fail output (.timeout "flush")

/-- Requests a flush and waits for it while no callback comes, in vain if the device plays. -/
def flush (output : DeviceOutput) : Reply DeviceOutput :=
  output.requestFlush.settleFlush

/-- Nothing is left to be played. -/
def isDrained (output : DeviceOutput) : Bool :=
  output.isQuiet || output.signals.buffered = 0

/-- Stops or resumes rendering. -/
def setDraining (output : DeviceOutput) (draining : Bool) : DeviceOutput :=
  { output with signals := { output.signals with draining } }

/-- The end of waiting for a drain. -/
def settleDrain (output : DeviceOutput) : Reply DeviceOutput :=
  if output.isDrained then .ok output else .fail output (.timeout "drain")

/-- Waits for the ring to be played while no callback comes. -/
def drain (output : DeviceOutput) : Reply DeviceOutput :=
  output.settleDrain

/-- Releases the stream. -/
def close (output : DeviceOutput) : DeviceOutput × List Notice :=
  if output.stream?.isNone then (output, [])
  else
    ({ output with stream? := none, corked := true },
      if output.errors = 0 then [] else [.closedAfterErrors output.name output.errors])

instance : OutputStream DeviceOutput where
  name := name
  isCorked := corked
  start := start
  cork := cork
  uncork := uncork
  flush _ := flush
  drain _ := drain
  close := close

/-! ### The device's side -/

/-- Delivers one callback for some samples; nothing unless the device is playing. -/
def write (output : DeviceOutput) (player : Player) (wanted : Nat) :
    Option (List Float32) × DeviceOutput × Player :=
  match output.stream? with
  | some stream =>
    if stream.playing then
      let written := stream.ring.write (fun player ↦ player.renderSamples false stream.ring.period)
        output.signals wanted player
      (some (written.buffer wanted),
        { output with
          signals := written.signals
          stream? := some { stream with ring := written.ring } },
        written.renderer)
    else (none, output, player)
  | none => (none, output, player)

/-- Delivers several callbacks of one length. -/
def writes (player : Player) (wanted : Nat) (output : DeviceOutput) :
    Nat → List (Option (List Float32)) × DeviceOutput × Player
  | 0 => ([], output, player)
  | count + 1 =>
    let (first, output, player) := output.write player wanted
    let (rest, output, player) := writes player wanted output count
    (first :: rest, output, player)

/-- Flushes while callbacks keep coming. -/
def flushDuring (output : DeviceOutput) (player : Player) (wanted count : Nat) :
    List (Option (List Float32)) × Reply DeviceOutput × Player :=
  let (buffers, output, player) := writes player wanted output.requestFlush count
  (buffers, output.settleFlush, player)

/-- Drains while callbacks keep coming. With nothing to wait for, rendering never stops. -/
def drainDuring (output : DeviceOutput) (player : Player) (wanted count : Nat) :
    List (Option (List Float32)) × Reply DeviceOutput × Player :=
  let (buffers, after, player) := writes player wanted (output.setDraining ¬ output.isDrained) count
  let reply := if output.isDrained then Reply.ok after else after.settleDrain
  (buffers, reply.map fun output ↦ output.setDraining false, player)

/-- The device reports an error; not if no stream is open. -/
def reportError (output : DeviceOutput) (reason : String) :
    Bool × DeviceOutput × List Notice :=
  if output.stream?.isSome then
    (true, { output with errors := output.errors + 1 }, [.streamError reason])
  else (false, output, [])

end DeviceOutput

end TimelineMixer
