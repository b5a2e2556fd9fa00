import TimelineMixer.Launch

/-!
# The program

Reads the surroundings, starts, and lets real time pass.
-/

set_option autoImplicit false
set_option relaxedAutoImplicit false

namespace TimelineMixer.Program

open CommandLine

/-- The name and version shown on request. -/
def versionLine : String := "cmix-ap 0.1.0"

/-- The help shown on request. -/
def helpLines : List String :=
  ["Real-time timeline audio mixer",
    "",
    "Usage: cmix-ap [OPTIONS]",
    "",
    "Options:",
    "  -c, --config <CONFIG>                Configuration file",
    "  -t, --timeline <TIMELINE>            Timeline JSON file",
    "  -d, --device <DEVICE>                Output device name [env: CMIX_DEVICE=]",
    "      --list-devices                   Print the available output devices and exit",
    "      --null-output                    Render in real time without an audio device",
    "      --duration-secs <DURATION_SECS>  Stop after this many seconds",
    "      --volume <VOLUME>                Initial master volume (overrides config)",
    "  -h, --help                           Print help",
    "  -V, --version                        Print version"]

/-- Reads what is at a path. -/
def readPath (path : String) : IO FileContent :=
  try
    return .text (← IO.FS.readFile path)
  catch
    | .noFileOrDirectory .. => return .missing
    | _ => return .unreadable

/-- The path of the settings file of the platform. -/
def platformConfig : IO (Option String) := do
  let folder ← IO.getEnv "XDG_CONFIG_HOME"
  let home ← IO.getEnv "HOME"
  let folder := (folder.filter fun path ↦ path.startsWith "/").or
    (home.map fun path ↦ path ++ "/.config")
  return folder.map fun path ↦ path ++ "/cmix/config.toml"

/-- Values of the variables in use. -/
def readVariables : IO (List (String × String)) := do
  let names :=
    [Surroundings.configVariable, Surroundings.deviceVariable, Surroundings.filterVariable]
  let pairs ← names.mapM fun name ↦ do
    return (← IO.getEnv name).map fun value ↦ (name, value)
  return pairs.filterMap id

/-- Reads what a command line can refer to. There is no sound host behind the program. -/
def surroundings (words : List String) : IO Surroundings := do
  let known ← readVariables
  let platform ← platformConfig
  let named := match CommandLine.read words with
    | .ok (.run arguments) => arguments.config.toList ++ arguments.timeline.toList
    | _ => []
  let paths := named ++ platform.toList ++ (known.lookup Surroundings.configVariable).toList
  let files ← paths.mapM fun path ↦ return (path, ← readPath path)
  let seed ← IO.rand 0 0x4000000000000000
  return {
    environment := fun name ↦ known.lookup name
    file := fun path ↦ (files.lookup path).getD .missing
    platformConfig := platform
    host := .none
    freshLayer := fun n ↦ .ofNat (4 * seed + n + 1) }

/-- Prints the notices of a performance. -/
def report (performance : Performance) : IO Performance := do
  let (notices, performance) := performance.takeNotices
  for notice in notices do
    IO.println notice.line
  return performance

/-- Lets a performance run to its end. -/
partial def perform (performance : Performance) : IO Unit := do
  if performance.isOver then
    discard (report performance.finish)
  else
    let performance ← report performance.tick
    IO.sleep (UInt32.ofNat Performance.tickLength)
    perform performance

end TimelineMixer.Program

open TimelineMixer in
/-- Starts the program with its arguments. -/
def main (words : List String) : IO UInt32 := do
  let launch := (← Program.surroundings words).launch words
  for line in launch.errorLines do
    IO.eprintln line
  match launch with
  | .help => Program.helpLines.forM IO.println
  | .version => IO.println Program.versionLine
  | .devices names => names.forM IO.println
  | .playing _ performance => Program.perform performance
  | _ => return launch.code.toUInt32
  return launch.code.toUInt32
