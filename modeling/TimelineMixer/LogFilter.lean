/-!
# Filters of log records

A filter is a row of directives with commas between them, each of the form
`target[span\x7bfield=value\x7d]=level`, where every part can be missing. A directive that cannot be
read is left out with a complaint; the patterns of field values are not looked into.
-/

set_option autoImplicit false
set_option relaxedAutoImplicit false

namespace TimelineMixer.LogFilter

/-- Why a directive cannot be read. -/
inductive DirectiveFault where
  | shape
  | level
  deriving DecidableEq

/-- The wording of a fault. -/
def DirectiveFault.text : DirectiveFault → String
  | shape => "invalid filter directive"
  | level =>
    "error parsing level filter: expected one of \"off\", \"error\", \"warn\", \"info\", " ++
      "\"debug\", \"trace\", or a number 0-5"

/-- The part of a directive that is being read. -/
inductive Place where
  | start
  /-- A level or a target. -/
  | front
  | span
  /-- A field, empty so far or not. -/
  | field (empty : Bool)
  | fields
  | target
  /-- A level that starts at an index. -/
  | level (index : Nat)
  deriving DecidableEq

/-- A directive can start with the character. -/
def opensName (c : Char) : Bool :=
  c = '-' || c = ':' || c = '_' || c.isAlphanum || 127 < c.toNat

/-- The place behind a character with an index. -/
def Place.next (place : Place) (c : Char) (index : Nat) : Option Place :=
  match place with
  | start => if c = '[' then some span else if opensName c then some front else none
  | front => if c = '=' then some (level (index + 1)) else if c = '[' then some span else some front
  | span => if c = ']' then some target else if c = '\x7b' then some (field true) else some span
  | field empty => if c = '\x7d' then (if empty then none else some fields) else some (field false)
  | fields => if c = ']' then some target else none
  | target => if c = '=' then some (level (index + 1)) else none
  | level index => some (level index)

/-- The names of levels. -/
def levels : List String :=
  ["off", "error", "warn", "info", "debug", "trace", "0", "1", "2", "3", "4", "5"]

/-- A text names a level, in any case; a number may have zeros and a plus in front. -/
def isLevel (text : List Char) : Bool :=
  let number := match text with
    | '+' :: rest => rest
    | _ => text
  text.isEmpty || String.ofList (text.map Char.toLower) ∈ levels ||
    (!number.isEmpty && number.all Char.isDigit && decide (Nat.ofDigitChars 10 number 0 ≤ 5))

/-- Goes through the characters of a directive from an index on. -/
def walk (place : Place) (index : Nat) : List Char → Option Place
  | [] => some place
  | c :: rest =>
    match place.next c index with
    | some place => walk place (index + 1) rest
    | none => none

/-- The text without blanks around it. -/
def trim (text : List Char) : List Char :=
  ((text.dropWhile Char.isWhitespace).reverse.dropWhile Char.isWhitespace).reverse

/-- Why a directive cannot be read, if so. Blanks around it are passed over, but a level is taken
from the directive as it is written. -/
def fault? (directive : List Char) : Option DirectiveFault :=
  match walk .start 0 (trim directive) with
  | some .front | some .target => none
  | some (.level index) => if isLevel (directive.drop index) then none else some .level
  | _ => some .shape

/-- The directives of a filter; empty ones are passed over. -/
def directives (filter : String) : List (List Char) :=
  (filter.toList.splitOn ',').filter fun directive ↦ ¬ directive.isEmpty

/-- Every directive of a filter can be read. -/
def isSound (filter : String) : Bool :=
  (directives filter).all fun directive ↦ (fault? directive).isNone

/-- The complaint about a directive, if it cannot be read. -/
def complaint? (directive : List Char) : Option String :=
  (fault? directive).map fun fault ↦
    let text := String.ofList directive
    let reason := fault.text
    s!"ignoring `{text}`: {reason}"

/-- The filter of a level for the records of this program. What has a level of its own is a filter
already. -/
def ofLevel (level : String) : String :=
  if level.toList.contains '=' then level else s!"cmix_ap={level},cmix_common={level}"

/-- Complaints about the filter in use: the one in the environment if it is sound, else that of the
level in the settings. -/
def complaints (environment : Option String) (level : String) : List String :=
  match environment with
  | some filter => if isSound filter then [] else used
  | none => used
where
  used : List String := (directives (ofLevel level)).filterMap complaint?

end TimelineMixer.LogFilter
