import TimelineMixer.Output.Stream
import TimelineMixer.Player

/-!
# Loopback output

An output without a device. Periods are pulled from it by hand, or by a clock of its own. Pulled
bytes are pending until they are played out; a flush discards them, and a drain waits for them.
Every call is counted.
-/

set_option autoImplicit false
set_option relaxedAutoImplicit false

namespace TimelineMixer

/-- Calls made on a loopback output. -/
structure TransportCounts where
  cork : Nat
  uncork : Nat
  flush : Nat
  drain : Nat
  close : Nat
  deriving DecidableEq

/-- An output without a device. -/
structure LoopbackOutput where
  /-- A renderer was handed over and not released. -/
  started : Bool
  corked : Bool
  closed : Bool
  /-- Pulled bytes are kept as pending. -/
  captures : Bool
  /-- Bytes pulled and not yet played. -/
  pending : List UInt8
  counts : TransportCounts

namespace LoopbackOutput

/-- A corked output that has not been started. -/
def new (captures : Bool) : LoopbackOutput :=
  ⟨false, true, false, captures, [], ⟨0, 0, 0, 0, 0⟩⟩

/-- An output pulled by hand. -/
def manual : LoopbackOutput :=
  new true

/-- An output pulled by its own clock, which discards what it pulls. -/
def paced : LoopbackOutput :=
  new false

/-- Takes over a renderer, unless there is one. -/
def start (output : LoopbackOutput) : Reply LoopbackOutput :=
  if output.started then .failOutput output .alreadyStarted
  else .ok { output with started := true }

/-- Corks the output, in every state. -/
def cork (output : LoopbackOutput) : Reply LoopbackOutput :=
  .ok { output with
    corked := true
    counts := { output.counts with cork := output.counts.cork + 1 } }

/-- Uncorks the output until it is closed. -/
def uncork (output : LoopbackOutput) : Reply LoopbackOutput :=
  if output.closed then .failOutput output .loopbackClosed
  else .ok { output with
    corked := false
    counts := { output.counts with uncork := output.counts.uncork + 1 } }

/-- Discards the pending bytes. -/
def flush (output : LoopbackOutput) : Reply LoopbackOutput :=
  .ok { output with
    pending := []
    counts := { output.counts with flush := output.counts.flush + 1 } }

/-- Succeeds if nothing is pending. Nothing is played while it waits. -/
def drain (output : LoopbackOutput) : Reply LoopbackOutput :=
  let counted :=
    { output with counts := { output.counts with drain := output.counts.drain + 1 } }
  if output.pending.isEmpty then .ok counted
  else ⟨.error (.timeout "drain"), counted, [.loopbackDrainTimedOut]⟩

/-- Corks the output for good and releases its renderer. -/
def close (output : LoopbackOutput) : LoopbackOutput :=
  if output.closed then output
  else
    { output with
      started := false
      corked := true
      closed := true
      counts := { output.counts with close := output.counts.close + 1 } }

instance : OutputStream LoopbackOutput where
  name _ := "loopback"
  isCorked := corked
  start := start
  cork := cork
  uncork := uncork
  flush _ := flush
  drain _ := drain
  close output := (output.close, [])

/-! ### The other end -/

/-- The output asks its renderer for audio when it is pulled. -/
def delivers (output : LoopbackOutput) : Bool :=
  output.started && !output.corked && !output.closed

/-- Keeps pulled bytes as pending. -/
def keep (output : LoopbackOutput) (bytes : List UInt8) : LoopbackOutput :=
  if output.captures then { output with pending := output.pending ++ bytes } else output

/-- Pulls a period of some bytes; nothing while corked, closed or not started. -/
def pull (output : LoopbackOutput) (player : Player) (locked : Bool) (bytes : Nat) :
    Option (List UInt8) × LoopbackOutput × Player :=
  if output.delivers then
    let (out, player) := player.render locked bytes
    (some out, output.keep out, player)
  else (none, output, player)

/-- Plays pending bytes, as many as there are. -/
def playOut (output : LoopbackOutput) (bytes : Nat) : List UInt8 × LoopbackOutput :=
  (output.pending.take bytes, { output with pending := output.pending.drop bytes })

end LoopbackOutput

end TimelineMixer
