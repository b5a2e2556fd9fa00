import TimelineMixer.CommandLine.Number

/-!
# The command line

Options have a value, flags have none. A value follows its option as the next word, or is attached:
`--config=a.toml`, `-ca.toml` and `-c=a.toml` say the same as `--config a.toml`. A word that starts
with a dash is no value unless it is attached; a single dash is. Words are read from left to right:
the first fault, or the first flag that asks for help or the version, settles what the command line
requests.
-/

set_option autoImplicit false
set_option relaxedAutoImplicit false

namespace TimelineMixer.CommandLine

/-- An argument with a value. -/
inductive ValueOption where
  /-- The settings file. -/
  | config
  /-- The timeline file. -/
  | timeline
  /-- The output device. -/
  | device
  /-- Seconds to play for. -/
  | duration
  /-- The master volume. -/
  | volume
  deriving DecidableEq

/-- An argument without a value. -/
inductive Flag where
  /-- Print the output devices. -/
  | listDevices
  /-- Play without a device. -/
  | nullOutput
  | help
  | version
  deriving DecidableEq

/-- The name of an option behind two dashes. -/
def ValueOption.name : ValueOption → String
  | config => "config"
  | timeline => "timeline"
  | device => "device"
  | duration => "duration-secs"
  | volume => "volume"

/-- The name of a flag behind two dashes. -/
def Flag.name : Flag → String
  | listDevices => "list-devices"
  | nullOutput => "null-output"
  | help => "help"
  | version => "version"

/-- A word of the command line. -/
inductive Word where
  | option (option : ValueOption) (attached : Option String)
  | flag (flag : Flag) (attached : Option String)
  /-- Two dashes, after which no word has a dash of its own. -/
  | separator
  /-- A word with a dash that names nothing. -/
  | unknown
  /-- A word without a dash, or a single dash. -/
  | plain
  deriving DecidableEq

namespace Word

/-- The word with a name behind two dashes. -/
def named (name : String) (attached : Option String) : Word :=
  match name with
  | "config" => option .config attached
  | "timeline" => option .timeline attached
  | "device" => option .device attached
  | "duration-secs" => option .duration attached
  | "volume" => option .volume attached
  | "list-devices" => flag .listDevices attached
  | "null-output" => flag .nullOutput attached
  | "help" => flag .help attached
  | "version" => flag .version attached
  | _ => unknown

/-- The value attached to a letter. -/
def attachedToLetter : List Char → Option String
  | [] => none
  | '=' :: value => some (String.ofList value)
  | value => some (String.ofList value)

/-- The word with a letter behind one dash. -/
def lettered (letter : Char) (rest : List Char) : Word :=
  match letter with
  | 'c' => option .config (attachedToLetter rest)
  | 't' => option .timeline (attachedToLetter rest)
  | 'd' => option .device (attachedToLetter rest)
  | 'h' => flag .help none
  | 'V' => flag .version none
  | _ => unknown

/-- Reads a word. -/
def read (text : String) : Word :=
  match text.toList with
  | ['-', '-'] => separator
  | '-' :: '-' :: rest =>
    let (name, rest) := rest.span (· ≠ '=')
    named (String.ofList name) (rest.tail?.map String.ofList)
  | '-' :: letter :: rest => lettered letter rest
  | _ => plain

theorem read_option_name (o : ValueOption) : read ("--" ++ o.name) = option o none := by
  cases o <;> decide

theorem read_flag_name (f : Flag) : read ("--" ++ f.name) = flag f none := by
  cases f <;> decide

end Word

/-- What was given on the command line. -/
structure Arguments where
  config : Option String := none
  timeline : Option String := none
  device : Option String := none
  listDevices : Bool := false
  nullOutput : Bool := false
  /-- Seconds to play for. -/
  duration : Option Nat := none
  volume : Option Float32 := none

/-- Why a command line is refused. -/
inductive ArgumentFault where
  | unexpected (word : String)
  | missingValue (option : ValueOption)
  | badValue (option : ValueOption) (value : String)
  | unexpectedValue (flag : Flag) (value : String)
  /-- An argument, by its name, was given twice. -/
  | repeated (name : String)
  deriving DecidableEq

/-- The wording of a refusal. -/
def ArgumentFault.message : ArgumentFault → String
  | unexpected word => s!"unexpected argument '{word}' found"
  | missingValue option =>
    let name := option.name
    s!"a value is required for '--{name}' but none was supplied"
  | badValue option value =>
    let name := option.name
    s!"invalid value '{value}' for '--{name}'"
  | unexpectedValue flag value =>
    let name := flag.name
    s!"unexpected value '{value}' for '--{name}' found; no more were expected"
  | repeated name => s!"the argument '--{name}' cannot be used multiple times"

/-- What a command line asks for. -/
inductive Request where
  | run (arguments : Arguments)
  | help
  | version

namespace Arguments

/-- A path, which is not empty. -/
def path? (value : String) : Option String :=
  if value = "" then none else some value

/-- Gives an option that has no value yet the value that was read for it. -/
def once {α : Type} (option : ValueOption) (text : String) (old : Option α) (value? : Option α)
    (give : α → Arguments) : Except ArgumentFault Arguments :=
  if old.isSome then .error (.repeated option.name)
  else
    match value? with
    | some value => .ok (give value)
    | none => .error (.badValue option text)

/-- Gives an option its value. -/
def assign (given : Arguments) (option : ValueOption) (text : String) :
    Except ArgumentFault Arguments :=
  match option with
  | .config =>
    once option text given.config (path? text) fun path ↦ { given with config := path }
  | .timeline =>
    once option text given.timeline (path? text) fun path ↦ { given with timeline := path }
  | .device =>
    once option text given.device (some text) fun name ↦ { given with device := name }
  | .duration =>
    once option text given.duration (word? text) fun time ↦ { given with duration := time }
  | .volume =>
    once option text given.volume (sample? text) fun volume ↦ { given with volume := volume }

end Arguments

/-- Reads words after some arguments were given. -/
def readAfter (given : Arguments) : List String → Except ArgumentFault Request
  | [] => .ok (.run given)
  | text :: rest =>
    match Word.read text with
    | .separator =>
      match rest with
      | [] => .ok (.run given)
      | word :: _ => .error (.unexpected word)
    | .unknown | .plain => .error (.unexpected text)
    | .flag flag (some value) => .error (.unexpectedValue flag value)
    | .flag .help none => .ok .help
    | .flag .version none => .ok .version
    | .flag .listDevices none =>
      if given.listDevices then .error (.repeated Flag.listDevices.name)
      else readAfter { given with listDevices := true } rest
    | .flag .nullOutput none =>
      if given.nullOutput then .error (.repeated Flag.nullOutput.name)
      else readAfter { given with nullOutput := true } rest
    | .option option (some value) => do readAfter (← given.assign option value) rest
    | .option option none =>
      match rest with
      | value :: rest =>
        if Word.read value = .plain then do readAfter (← given.assign option value) rest
        else .error (.missingValue option)
      | [] => .error (.missingValue option)

/-- Reads a command line. -/
def read (words : List String) : Except ArgumentFault Request :=
  readAfter {} words

end TimelineMixer.CommandLine
