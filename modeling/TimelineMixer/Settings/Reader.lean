import TimelineMixer.FileContent
import TimelineMixer.Settings
import TimelineMixer.Toml.Reader

/-!
# Reading settings

Settings are a TOML document with a table for each group. What is missing keeps its standard value,
what is unknown is passed over. Settings that were read are checked before they are used.
-/

set_option autoImplicit false
set_option relaxedAutoImplicit false

namespace TimelineMixer

/-- Reads the value of a key, for which a value stands in where it is missing. -/
def TomlEntries.read? {α : Type} (entries : TomlEntries) (key : String)
    (read : Toml → Option α) (standIn : α) : Option α :=
  match entries.lookup key with
  | some value => read value
  | none => some standIn

/-- Reads the settings of the output stream. -/
def AudioSettings.ofToml? (document : Toml) : Option AudioSettings := do
  let standard : AudioSettings := {}
  let entries ← document.fields?
    ["sample_rate", "channels", "device", "period_frames", "playout_frames"]
  let rate ← entries.read? "sample_rate" (Toml.nat? UInt32.size) standard.rate.toNat
  let channels ← entries.read? "channels" (Toml.nat? UInt16.size) standard.channels.toNat
  let device ← entries.read? "device" (fun value ↦ value.text?.map some) standard.device
  let period ← entries.read? "period_frames" (Toml.nat? UInt32.size) standard.period
  let playout ← entries.read? "playout_frames" (Toml.nat? UInt64.size) standard.playout
  some ⟨UInt32.ofNat rate, UInt16.ofNat channels, device, period, playout⟩

/-- Reads the settings of playback. -/
def EngineSettings.ofToml? (document : Toml) : Option EngineSettings := do
  let standard : EngineSettings := {}
  let entries ← document.fields?
    ["initial_volume", "min_playable_queue_bytes", "underrun_debounce_checks",
      "flush_timeout_ms", "drain_timeout_ms", "event_channel_capacity", "auto_resume"]
  let word := Toml.nat? UInt64.size
  let volume ← entries.read? "initial_volume" Toml.sample? standard.volume
  let minPlayable ← entries.read? "min_playable_queue_bytes" word standard.minPlayable
  let debounce ← entries.read? "underrun_debounce_checks" (Toml.nat? UInt32.size) standard.debounce
  let flushTimeout ← entries.read? "flush_timeout_ms" word standard.flushTimeout
  let drainTimeout ← entries.read? "drain_timeout_ms" word standard.drainTimeout
  let eventCapacity ← entries.read? "event_channel_capacity" word standard.eventCapacity
  let autoResume ← entries.read? "auto_resume" Toml.bool? standard.autoResume
  some ⟨volume, minPlayable, debounce, flushTimeout, drainTimeout, eventCapacity, autoResume⟩

/-- Reads the settings of records. -/
def LogSettings.ofToml? (document : Toml) : Option LogSettings := do
  let standard : LogSettings := {}
  let entries ← document.fields? ["level"]
  let level ← entries.read? "level" Toml.text? standard.level
  some ⟨level⟩

/-- Reads settings, unchecked. -/
def Settings.ofToml? (document : Toml) : Option Settings := do
  let standard : Settings := {}
  let entries ← document.fields? ["audio", "engine", "logging"]
  let audio ← entries.read? "audio" AudioSettings.ofToml? standard.audio
  let engine ← entries.read? "engine" EngineSettings.ofToml? standard.engine
  let log ← entries.read? "logging" LogSettings.ofToml? standard.log
  some ⟨audio, engine, log⟩

/-- Why settings cannot be loaded. -/
inductive SettingsLoadFault where
  | unreadable
  /-- The file is not a settings document. -/
  | malformed
  /-- The settings cannot be used. -/
  | refused (cause : Fault)

/-- Loads settings; without a path, or without a file there, the standard ones. -/
def Settings.load (file : Option FileContent) : Except SettingsLoadFault Settings :=
  let checked (settings : Settings) := settings.check.mapError SettingsLoadFault.refused
  match file with
  | none | some .missing => checked {}
  | some .unreadable => .error .unreadable
  | some (.text content) =>
    match TomlReader.document? content >>= Settings.ofToml? with
    | some settings => checked settings
    | none => .error .malformed

/-- The path of the settings file: the one on the command line, else the one in the environment,
unless it is empty, else that of the platform, if there is a file. -/
def Settings.choosePath (argument environment : Option String) (platform : String)
    (platformExists : Bool) : Option String :=
  argument.or ((environment.filter (· ≠ "")).or (if platformExists then some platform else none))

end TimelineMixer
