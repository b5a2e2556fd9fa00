import TimelineMixer.CommandLine
import TimelineMixer.DemoTimeline
import TimelineMixer.Document.Timeline
import TimelineMixer.FileContent
import TimelineMixer.LogFilter
import TimelineMixer.Performance
import TimelineMixer.Settings.Reader

/-!
# Starting the program

From the command line and the surroundings to a session that plays, or to the reason why there is
none: settings are loaded first, then the timeline, then the engine is made.
-/

set_option autoImplicit false
set_option relaxedAutoImplicit false

namespace TimelineMixer

open CommandLine

/-- What a program finds where it is started. -/
structure Surroundings where
  /-- The variables that are set. -/
  environment : String → Option String
  file : String → FileContent
  /-- The path of the settings file of the platform, if it has a place for one. -/
  platformConfig : Option String
  host : SoundHost
  /-- Identities that no layer has yet. -/
  freshLayer : Nat → LayerId

/-- Why a program cannot be started. -/
inductive LaunchFault where
  | devices (cause : Fault)
  | settings (cause : SettingsLoadFault)
  | timeline (path : String)
  | engine (cause : Fault)
  | other (cause : Fault)

/-- The wording of a fault. -/
def LaunchFault.message : LaunchFault → String
  | devices _ => "Failed to enumerate output devices"
  | settings _ => "Failed to load configuration"
  | timeline path => s!"Failed to load timeline {path}"
  | engine _ => "Failed to initialize audio engine"
  | other cause => cause.message

/-- How a start turns out. -/
inductive Launch where
  | refused (fault : ArgumentFault)
  | help
  | version
  | devices (names : List String)
  /-- Complaints about the filter of records come before the fault. -/
  | failed (complaints : List String) (fault : LaunchFault)
  /-- The event channel does not fit into memory. -/
  | crashed
  | playing (complaints : List String) (performance : Performance)

namespace Launch

/-- The exit code. -/
def code : Launch → UInt8
  | refused _ => 2
  | failed _ _ => 1
  | crashed => 101
  | _ => 0

/-- The lines about what went wrong. -/
def errorLines : Launch → List String
  | refused fault => ["error: " ++ fault.message]
  | failed complaints fault => complaints ++ ["Error: " ++ fault.message]
  | playing complaints _ => complaints
  | _ => []

end Launch

namespace Surroundings

/-- The variable that names the settings file. -/
def configVariable : String := "CMIX_CONFIG"

/-- The variable that names the output device. -/
def deviceVariable : String := "CMIX_DEVICE"

/-- The variable with a filter of records. -/
def filterVariable : String := "RUST_LOG"

/-- The path of the settings file. -/
def configPath (surroundings : Surroundings) (arguments : Arguments) : Option String :=
  let platform := surroundings.platformConfig.getD ""
  let platformExists :=
    surroundings.platformConfig.any fun path ↦ surroundings.file path ≠ .missing
  Settings.choosePath arguments.config (surroundings.environment configVariable) platform
    platformExists

/-- The settings, with the device of the command line or else of the environment. -/
def settings (surroundings : Surroundings) (arguments : Arguments) :
    Except SettingsLoadFault Settings := do
  let loaded ← Settings.load ((surroundings.configPath arguments).map surroundings.file)
  let requested := arguments.device.or (surroundings.environment deviceVariable)
  let device := requested.or loaded.audio.device
  return { loaded with audio := { loaded.audio with device } }

/-- The timeline of a file, or the demonstration. -/
def timeline (surroundings : Surroundings) (path? : Option String) :
    Except LaunchFault Timeline :=
  match path? with
  | some path =>
    match (surroundings.file path).text?.map Timeline.ofText with
    | some (.ok timeline) => .ok timeline
    | _ => .error (.timeline path)
  | none =>
    let fresh := surroundings.freshLayer
    (Timeline.demo (fresh 0) (fresh 1) (fresh 2)).mapError .other

/-- The output to play on. -/
def output (surroundings : Surroundings) (arguments : Arguments) (audio : AudioSettings)
    (spec : AudioSpec) : Output :=
  if arguments.nullOutput then .loopback .paced
  else .device (.new surroundings.host audio.device spec audio.period audio.playout)

/-- Makes the engine and plays. -/
def start (surroundings : Surroundings) (arguments : Arguments) (settings : Settings)
    (complaints : List String) : Launch :=
  match settings.audio.spec with
  | .error cause => .failed complaints (.other cause)
  | .ok spec =>
    match surroundings.timeline arguments.timeline with
    | .error fault => .failed complaints fault
    | .ok timeline =>
      match EventChannel.open? settings.engine.eventCapacity with
      | none => .crashed
      | some channel =>
        let output := surroundings.output arguments settings.audio spec
        match Engine.new settings.engine spec output channel with
        | .error (cause, _) => .failed complaints (.engine cause)
        | .ok engine =>
          let engine := (arguments.volume.map engine.setVolume).getD engine
          .playing complaints (.begin engine timeline settings arguments.duration)

/-- Does what a command line says. -/
def run (surroundings : Surroundings) (arguments : Arguments) : Launch :=
  if arguments.listDevices then
    match surroundings.host.deviceNames with
    | .ok names => .devices names
    | .error cause => .failed [] (.devices cause)
  else
    match surroundings.settings arguments with
    | .error fault => .failed [] (.settings fault)
    | .ok settings =>
      surroundings.start arguments settings
        (LogFilter.complaints (surroundings.environment filterVariable) settings.log.level)

/-- Starts the program with the words of a command line. -/
def launch (surroundings : Surroundings) (words : List String) : Launch :=
  match CommandLine.read words with
  | .error fault => .refused fault
  | .ok .help => .help
  | .ok .version => .version
  | .ok (.run arguments) => surroundings.run arguments

end Surroundings

end TimelineMixer
