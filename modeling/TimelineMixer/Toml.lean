import TimelineMixer.Sample

/-!
# TOML documents

The values of a TOML document and how its tables are put together. A table is opened by a header,
implied by a header of a table inside it, or made by a dotted key; these differ in how they may be
opened or extended later. An array of tables is extended by its headers and entered at its end.
-/

set_option autoImplicit false
set_option relaxedAutoImplicit false

namespace TimelineMixer

/-- How a table came to be. -/
inductive TableForm where
  /-- Written in braces; closed to everything else. -/
  | inline
  /-- Opened by its own header. -/
  | header
  /-- Implied by the header of a table inside it. -/
  | implied
  /-- Made by a dotted key. -/
  | dotted
  deriving DecidableEq

/-- A TOML value. -/
inductive Toml where
  | text (value : String)
  | int (value : Int)
  | float (value : Float)
  | bool (value : Bool)
  /-- A date, a time or both. -/
  | moment
  | array (items : List Toml)
  | table (form : TableForm) (entries : List (String × Toml))
  /-- Tables opened by headers of an array. -/
  | rows (tables : List (List (String × Toml)))

/-- The entries of a table, in order. -/
abbrev TomlEntries :=
  List (String × Toml)

namespace TomlEntries

/-- Replaces the value of a key that is there. -/
def replace (entries : TomlEntries) (key : String) (value : Toml) : TomlEntries :=
  entries.map fun entry ↦ if entry.1 = key then (key, value) else entry

/-- Adds a key that is not there. -/
def add? (entries : TomlEntries) (key : String) (value : Toml) : Option TomlEntries :=
  if (entries.lookup key).isSome then none else some (entries ++ [(key, value)])

/-- Changes the table at the end of a path, making the tables that are missing. A dotted path must
not pass through a table that has its own header. -/
def modifyAt? (dotted : Bool) (change : TableForm → TomlEntries → Option TomlEntries) :
    List String → TableForm → TomlEntries → Option TomlEntries
  | [], form, entries => change form entries
  | key :: path, _, entries =>
    match entries.lookup key with
    | none => do
      let form := if dotted then .dotted else .implied
      let inner ← modifyAt? dotted change path form []
      some (entries ++ [(key, .table form inner)])
    | some (.table form inner) =>
      if form = .inline ∨ (dotted ∧ form = .header) then none
      else do
        let inner ← modifyAt? dotted change path form inner
        some (replace entries key (.table form inner))
    | some (.rows tables) =>
      match tables.getLast? with
      | none => none
      | some last => do
        let last ← modifyAt? dotted change path .header last
        some (replace entries key (.rows (tables.dropLast ++ [last])))
    | some _ => none

/-- Adds the value of a key that may be dotted. A plain key belongs to a table that is not made by
dotted keys, the last part of a dotted key to one that is. -/
def assign? (path : List String) (key : String) (value : Toml) (form : TableForm)
    (entries : TomlEntries) : Option TomlEntries :=
  modifyAt? true
    (fun form entries ↦ if (form = .dotted) = path.isEmpty then none else entries.add? key value)
    path form entries

/-- Adds the value of a key to the table at a location. -/
def assignAt? (location path : List String) (key : String) (value : Toml)
    (entries : TomlEntries) : Option TomlEntries :=
  modifyAt? false (assign? path key value) location .header entries

/-- Opens a table by its header. A table that was only implied may still be opened. -/
def openTable? (parent : List String) (key : String) (entries : TomlEntries) :
    Option TomlEntries :=
  modifyAt? false
    (fun _ entries ↦
      match entries.lookup key with
      | none => some (entries ++ [(key, .table .header [])])
      | some (.table .implied inner) => some (replace entries key (.table .header inner))
      | some _ => none)
    parent .header entries

/-- Opens another table of an array. -/
def openRow? (parent : List String) (key : String) (entries : TomlEntries) :
    Option TomlEntries :=
  modifyAt? false
    (fun _ entries ↦
      match entries.lookup key with
      | none => some (entries ++ [(key, .rows [[]])])
      | some (.rows tables) => some (replace entries key (.rows (tables ++ [[]])))
      | some _ => none)
    parent .header entries

end TomlEntries

namespace Toml

/-- The named fields of a value: the entries of a table, or the items of an array under the given
names in order. A moment counts as a table without known fields. -/
def fields? (names : List String) : Toml → Option TomlEntries
  | table _ entries => some entries
  | moment => some []
  | array items => some (names.zip items)
  | rows tables => some (names.zip (tables.map fun entries ↦ .table .header entries))
  | _ => none

/-- A whole number below a bound and not below zero. -/
def nat? (bound : Nat) : Toml → Option Nat
  | int value => if 0 ≤ value ∧ value < bound then some value.toNat else none
  | _ => none

/-- A number as a sample; an integer is rounded once, a float a second time. -/
def sample? : Toml → Option Float32
  | int value => some (Int64.ofInt value).toFloat32
  | float value => some (Sample.ofFloat value)
  | _ => none

/-- A text. -/
def text? : Toml → Option String
  | text value => some value
  | _ => none

/-- A truth value. -/
def bool? : Toml → Option Bool
  | bool value => some value
  | _ => none

end Toml

end TimelineMixer
