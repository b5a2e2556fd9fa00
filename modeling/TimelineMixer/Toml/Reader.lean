import TimelineMixer.Toml.Number
import TimelineMixer.Toml.Text

/-!
# Reading TOML

A document is read line by line: comments, headers that open tables, and keys with values, which
are added to the table opened last.
-/

set_option autoImplicit false
set_option relaxedAutoImplicit false

namespace TimelineMixer.TomlReader

open TomlText

mutual

/-- Takes a value at a level of containers. The bound limits the number of values and keys. -/
def takeValue? : Nat → Nat → List Char → Option (Toml × List Char)
  | 0, _, _ => none
  | bound + 1, level, '[' :: rest =>
    if depthLimit ≤ level + 1 then none
    else (takeItems? bound (level + 1) rest).map fun (items, rest) ↦ (.array items, rest)
  | bound + 1, level, '\x7b' :: rest =>
    if depthLimit ≤ level + 1 then none
    else
      match skipBlanks rest with
      | '\x7d' :: rest => some (.table .inline [], rest)
      | rest => (takeEntries? bound (level + 1) [] rest).map fun (entries, rest) ↦
        (.table .inline entries, rest)
  | _ + 1, _, 't' :: 'r' :: 'u' :: 'e' :: rest => some (.bool true, rest)
  | _ + 1, _, 'f' :: 'a' :: 'l' :: 's' :: 'e' :: rest => some (.bool false, rest)
  | _ + 1, _, '"' :: rest => (takeString? ('"' :: rest)).map fun (content, rest) ↦
    (.text (String.ofList content), rest)
  | _ + 1, _, '\x27' :: rest => (takeString? ('\x27' :: rest)).map fun (content, rest) ↦
    (.text (String.ofList content), rest)
  | _ + 1, _, text => TomlNumber.takeMomentOrNumber? text

/-- Takes the items of an array, which may lie on several lines and end with a comma. -/
def takeItems? : Nat → Nat → List Char → Option (List Toml × List Char)
  | 0, _, _ => none
  | bound + 1, level, text =>
    match skipTrivia text.length text with
    | ']' :: rest => some ([], rest)
    | text => do
      let (value, rest) ← takeValue? bound level text
      match skipTrivia rest.length rest with
      | ',' :: rest =>
        let (items, rest) ← takeItems? bound level rest
        some (value :: items, rest)
      | ']' :: rest => some ([value], rest)
      | _ => none

/-- Takes the entries of a table in braces, one at least. -/
def takeEntries? : Nat → Nat → TomlEntries → List Char → Option (TomlEntries × List Char)
  | 0, _, _, _ => none
  | bound + 1, level, entries, text => do
    let (path, key, rest) ← takeKey? text
    match rest with
    | '=' :: rest =>
      let (value, rest) ← takeValue? bound level (skipBlanks rest)
      let entries ← entries.assign? path key value .inline
      match skipBlanks rest with
      | ',' :: rest => takeEntries? bound level entries rest
      | '\x7d' :: rest => some (entries, rest)
      | _ => none
    | _ => none

end

/-- Reads a header from behind its opening bracket, and the path it names. -/
def takeHeader? (text : List Char) : Option (List String × String × List Char) := do
  let (parent, key, rest) ← takeKey? text
  match rest with
  | ']' :: rest => some (parent, key, ← finishLine? rest)
  | _ => none

/-- Reads a header of an array from behind its opening brackets. -/
def takeRowHeader? (text : List Char) : Option (List String × String × List Char) := do
  let (parent, key, rest) ← takeKey? text
  match rest with
  | ']' :: ']' :: rest => some (parent, key, ← finishLine? rest)
  | _ => none

/-- Reads lines into a document, at the location opened last. The bound limits their number. -/
def readLines? : Nat → List String → TomlEntries → List Char → Option TomlEntries
  | 0, _, _, _ => none
  | bound + 1, location, entries, text =>
    match skipBlanks text with
    | [] => some entries
    | '#' :: rest => do
      let rest ← endLine? (rest.dropWhile isPlain)
      readLines? bound location entries rest
    | '[' :: '[' :: rest => do
      let (parent, key, rest) ← takeRowHeader? rest
      let entries ← entries.openRow? parent key
      readLines? bound (parent ++ [key]) entries rest
    | '[' :: rest => do
      let (parent, key, rest) ← takeHeader? rest
      let entries ← entries.openTable? parent key
      readLines? bound (parent ++ [key]) entries rest
    | text =>
      match takeNewline? text with
      | some rest => readLines? bound location entries rest
      | none => do
        let (path, key, rest) ← takeKey? text
        match rest with
        | '=' :: rest =>
          let rest := skipBlanks rest
          let (value, rest) ← takeValue? (2 * rest.length + 2) 0 rest
          let entries ← entries.assignAt? location path key value
          readLines? bound location entries (← finishLine? rest)
        | _ => none

/-- Reads a document; a byte order mark may stand in front of it. -/
def document? (text : String) : Option Toml :=
  let characters := text.toList
  let characters := if characters.head? = some '\ufeff' then characters.drop 1 else characters
  (readLines? (characters.length + 1) [] [] characters).map fun entries ↦
    Toml.table .header entries

end TimelineMixer.TomlReader
