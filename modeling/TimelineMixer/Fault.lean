import TimelineMixer.Decimal
import TimelineMixer.LayerId
import TimelineMixer.Seconds

/-!
# Faults

What can be refused or go wrong on the control side, one constructor per cause. The wording is in
`Fault.message`. The render path reports no faults: it falls back to silence.
-/

set_option autoImplicit false
set_option relaxedAutoImplicit false

namespace TimelineMixer

/-- What an audio output refuses or fails to do. -/
inductive OutputFault where
  | alreadyStarted
  | notStarted
  | loopbackClosed
  | noDefaultDevice
  | enumerate (reason : String)
  | build (reason : String)
  | pauseNew (reason : String)
  | pause (reason : String)
  | resume (reason : String)
  | other (reason : String)
  deriving DecidableEq

/-- The wording of an output fault. -/
def OutputFault.text : OutputFault → String
  | alreadyStarted => "stream already started"
  | notStarted => "stream not started"
  | loopbackClosed => "loopback closed"
  | noDefaultDevice => "No default output device found"
  | enumerate reason => s!"Failed to enumerate devices: {reason}"
  | build reason => s!"Failed to build stream: {reason}"
  | pauseNew reason => s!"Failed to pause new stream: {reason}"
  | pause reason => s!"Failed to pause stream: {reason}"
  | resume reason => s!"Failed to resume stream: {reason}"
  | other reason => reason

/-- What makes settings unusable. -/
inductive SettingsFault where
  | zeroSampleRate
  | zeroChannels
  | zeroPeriod
  | zeroEventCapacity
  | badVolume (volume : Float32)

/-- The wording of a settings fault. -/
def SettingsFault.text : SettingsFault → String
  | zeroSampleRate => "sample_rate must be greater than zero"
  | zeroChannels => "channels must be greater than zero"
  | zeroPeriod => "audio.period_frames must be greater than zero"
  | zeroEventCapacity => "engine.event_channel_capacity must be greater than zero"
  | badVolume volume =>
    let got := Single.text volume
    s!"engine.initial_volume must be >= 0 (got {got})"

/-- What makes a timeline or a position in it unusable. -/
inductive TimelineFault where
  | atomReversed (index : Nat) (start stop : Seconds)
  | layerReversed (id : LayerId) (index : Nat) (start stop : Seconds)
  | emptySeek
  deriving DecidableEq

/-- The wording of a timeline fault. -/
def TimelineFault.text : TimelineFault → String
  | atomReversed index start stop =>
    let opens := start.text
    let closes := stop.text
    s!"atom {index} ends ({closes}) before it starts ({opens})"
  | layerReversed id index start stop =>
    let name := id.text
    let opens := start.text
    let closes := stop.text
    s!"layer {name} in atom {index} ends ({closes}) before it starts ({opens})"
  | emptySeek => "cannot seek in an empty timeline"

/-- A refusal or failure on the control side. -/
inductive Fault where
  | settings (cause : SettingsFault)
  | output (cause : OutputFault)
  | timeline (cause : TimelineFault)
  /-- Queue data that would split a frame. -/
  | misaligned (bytes frame : Nat)
  /-- A call on an engine that was torn down. -/
  | destroyed
  /-- A bounded wait ran out. -/
  | timeout (what : String)

/-- The wording of a fault. -/
def Fault.message : Fault → String
  | settings cause => "Configuration error: " ++ cause.text
  | output cause => "Audio output error: " ++ cause.text
  | timeline cause => "Timeline error: " ++ cause.text
  | misaligned bytes frame =>
    "Misaligned audio data: " ++
      s!"queue entry of {bytes} bytes is not a whole number of {frame}-byte frames"
  | destroyed => "Audio engine has been destroyed"
  | timeout what => "Timed out waiting for " ++ what

end TimelineMixer
