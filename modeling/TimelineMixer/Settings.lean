import TimelineMixer.AudioSpec

/-!
# Settings

What can be configured, with the values that hold when nothing is, and which settings are refused.
-/

set_option autoImplicit false
set_option relaxedAutoImplicit false

namespace TimelineMixer

/-- The output stream. -/
structure AudioSettings where
  rate : UInt32 := 44100
  channels : UInt16 := 2
  /-- Name of the output device; the default device if absent. -/
  device : Option String := none
  /-- Frames rendered at a time. -/
  period : Nat := 512
  /-- Frames the playout ring should hold. -/
  playout : Nat := 2048

/-- Playback. -/
structure EngineSettings where
  volume : Float32 := 1
  /-- Queued bytes below which playing cannot go on; a quarter of a second of standard audio. -/
  minPlayable : Nat := 88200
  /-- Checks in a row below that minimum that make an underrun. -/
  debounce : Nat := 1
  /-- Milliseconds a flush may take. -/
  flushTimeout : Nat := 500
  /-- Milliseconds a drain may take. -/
  drainTimeout : Nat := 2000
  /-- Events that fit into the event channel. -/
  eventCapacity : Nat := 256
  /-- Playback paused by an underrun resumes when the queues have recovered. -/
  autoResume : Bool := false

/-- Records. -/
structure LogSettings where
  /-- A level or a filter. -/
  level : String := "info"

/-- All settings. -/
structure Settings where
  audio : AudioSettings := {}
  engine : EngineSettings := {}
  log : LogSettings := {}

namespace AudioSettings

/-- The stream format. -/
def spec (audio : AudioSettings) : Except Fault AudioSpec :=
  AudioSpec.make .f32le audio.rate audio.channels

end AudioSettings

namespace Settings

/-- The first setting that cannot be used, in the order format, period, event capacity, volume. -/
def fault? (settings : Settings) : Option Fault :=
  match settings.audio.spec with
  | .error cause => some cause
  | .ok _ =>
    if settings.audio.period = 0 then some (.settings .zeroPeriod)
    else if settings.engine.eventCapacity = 0 then some (.settings .zeroEventCapacity)
    else if settings.engine.volume.isNaN || settings.engine.volume < 0 then
      some (.settings (.badVolume settings.engine.volume))
    else none

/-- The settings, if they can be used. -/
def check (settings : Settings) : Except Fault Settings :=
  match settings.fault? with
  | some cause => .error cause
  | none => .ok settings

end Settings

end TimelineMixer
