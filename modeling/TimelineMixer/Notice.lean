import TimelineMixer.Fault

/-!
# Notices

Warnings and errors that are recorded while the program goes on, one constructor per occasion.
-/

set_option autoImplicit false
set_option relaxedAutoImplicit false

namespace TimelineMixer

/-- How grave a notice is. -/
inductive Severity where
  | warning
  | error
  deriving DecidableEq

/-- Something worth recording. -/
inductive Notice where
  | layerOutsideAtom (id : LayerId) (start stop : Seconds) (index : Nat)
      (atomStart atomStop : Seconds)
  | gainClamped (id : LayerId) (gain : Float32)
  | notContiguous (index : Nat) (stop nextStart : Seconds)
  | indexOutOfRange (index count : Nat)
  | requestTooLong (request : Seconds)
  | underrun (queued threshold : Nat)
  | corruptedBuffer (level : Float32) (samples : Nat)
  | queueLockPoisoned
  | uncorkFailed (cause : Fault)
  | corkFailed (cause : Fault)
  | flushIncomplete (cause : Fault)
  | flushFailed (cause : Fault)
  | teardownDrainFailed (cause : Fault)
  | teardownCorkFailed (cause : Fault)
  | loopbackDrainTimedOut
  | deviceMissing (name : String)
  | closedAfterErrors (name : String) (errors : Nat)
  | streamError (reason : String)
  | pausingOnUnderrun (queued threshold : Nat)
  | transportFailed (cause : Fault)

namespace Notice

/-- The severity of each occasion. -/
def severity : Notice → Severity
  | corruptedBuffer .. | uncorkFailed .. | corkFailed .. | flushFailed .. | streamError ..
  | transportFailed .. => .error
  | _ => .warning

/-- The notice is recorded by the thread that owns the device and not by the caller. -/
def isBackground : Notice → Bool
  | deviceMissing .. => true
  | _ => false

/-- The wording. -/
def text : Notice → String
  | layerOutsideAtom id start stop index atomStart atomStop =>
    let name := id.text
    let layer := s!"[{start.text}, {stop.text}]"
    let atom := s!"[{atomStart.text}, {atomStop.text}]"
    s!"Layer {name} {layer} does not overlap atom {index} {atom}"
  | gainClamped id gain =>
    let name := id.text
    let value := Single.text gain
    s!"Layer {name} has gain {value}, clamping to 0"
  | notContiguous index stop nextStart =>
    let next := index + 1
    let bounds := s!"({stop.text} != {nextStart.text})"
    s!"Atoms {index} and {next} are not contiguous {bounds}, clock will jump"
  | indexOutOfRange index count =>
    s!"Atom index {index} out of range ({count} atoms), resetting to 0"
  | requestTooLong request =>
    let length := request.text
    s!"Request of {length} spans the whole timeline, deferring to next callback"
  | underrun queued threshold =>
    s!"Queue underrun: {queued} bytes queued, {threshold} required, requesting pause"
  | corruptedBuffer level samples =>
    let value := Single.text level
    s!"Corrupted audio buffer (rms={value}, {samples} samples) - output silenced"
  | queueLockPoisoned => "Layer queue lock poisoned, recovering"
  | uncorkFailed cause => "Failed to uncork output: " ++ cause.message
  | corkFailed cause => "Failed to cork output: " ++ cause.message
  | flushIncomplete cause => "Flush incomplete: " ++ cause.message
  | flushFailed cause => "Failed to flush output: " ++ cause.message
  | teardownDrainFailed cause => "Drain on teardown failed: " ++ cause.message
  | teardownCorkFailed cause => "Failed to cork output on teardown: " ++ cause.message
  | loopbackDrainTimedOut => "Loopback drain timed out"
  | deviceMissing name =>
    "Requested device '" ++ name ++ "' not found, falling back to default device"
  | closedAfterErrors name errors =>
    "Audio output '" ++ name ++ s!"' closed after {errors} stream errors"
  | streamError reason => "Audio stream error: " ++ reason
  | pausingOnUnderrun queued threshold =>
    s!"Underrun ({queued} of {threshold} bytes queued), pausing"
  | transportFailed cause => "Transport call failed: " ++ cause.message

/-- The line of the record: severity and wording. -/
def line (notice : Notice) : String :=
  match notice.severity with
  | .warning => "WARN " ++ notice.text
  | .error => "ERROR " ++ notice.text

end Notice

end TimelineMixer
