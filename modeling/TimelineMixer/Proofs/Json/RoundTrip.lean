import TimelineMixer.Document
import TimelineMixer.Proofs.Json.Numbers
import TimelineMixer.Proofs.Json.Strings

/-!
# Reading a written document

A tree can be written if nothing is missing in it: its containers are closed, its texts are there
and its numbers are spelled correctly (`Writable`). The text of such a tree is read back as the
tree (`readDocument_render`), so whatever is read from the text is read from the tree
(`readFrom_render`).

The induction is over the tree. What it carries is that the bound of the reader is at least the
length of what is written: every value, item and field costs one step and is written by at least
one character.
-/

set_option autoImplicit false
set_option relaxedAutoImplicit false

namespace TimelineMixer

mutual

/-- Nothing is missing in the value. -/
def Json.Writable : Json → Prop
  | .number literal => literal.WellFormed
  | .string text => text.isSome = true
  | .array items => items.Writable
  | .object fields => fields.Writable
  | _ => True

/-- Nothing is missing in the items. -/
def JsonItems.Writable : JsonItems → Prop
  | .closed => True
  | .broken => False
  | .item value rest => value.Writable ∧ rest.Writable

/-- Nothing is missing in the fields. -/
def JsonFields.Writable : JsonFields → Prop
  | .closed => True
  | .broken => False
  | .field name value rest => name.isSome = true ∧ value.Writable ∧ rest.Writable

end

namespace Json

/-- The text goes on at once, and not with the end of an array. -/
def Opens (text : List Char) : Prop :=
  ∃ c more, text = c :: more ∧ isBlank c = false ∧ c ≠ ']'

theorem skipBlanks_cons {c : Char} (h : isBlank c = false) (text : List Char) :
    skipBlanks (c :: text) = c :: text :=
  List.dropWhile_cons_of_neg (by simp [h])

theorem Opens.skipBlanks {text : List Char} (h : Opens text) : skipBlanks text = text := by
  obtain ⟨c, more, rfl, hblank, -⟩ := h
  exact skipBlanks_cons hblank more

/-! ### Values that are no containers -/

theorem isBlank_of_isDigit {c : Char} (h : c.isDigit = true) : isBlank c = false := by
  simp [isBlank, ne_of_isDigit h ' ' rfl, ne_of_isDigit h '\n' rfl, ne_of_isDigit h '\t' rfl,
    ne_of_isDigit h '\r' rfl]

/-- A number begins with a sign or a digit. -/
theorem head_chars {literal : NumberLiteral} (h : literal.WellFormed) :
    ∃ c more, literal.chars = c :: more ∧ (c = '-' ∨ c.isDigit = true) := by
  rw [NumberLiteral.chars_eq]
  cases literal.negative with
  | true => exact ⟨'-', _, rfl, Or.inl rfl⟩
  | false =>
    cases hwhole : literal.whole with
    | nil => exact absurd hwhole h.whole.ne_nil
    | cons c digits => exact ⟨c, _, rfl, Or.inr (h.whole.isDigit c (by simp [hwhole]))⟩

theorem ne_of_head {c : Char} (h : c = '-' ∨ c.isDigit = true) (other : Char)
    (hsign : other ≠ '-') (hdigit : other.isDigit = false) : c ≠ other := by
  rcases h with rfl | h
  · exact hsign.symm
  · exact ne_of_isDigit h other hdigit

/-- A character that opens no other value opens a number. -/
theorem readLeaf_number {c : Char} (h : c = '-' ∨ c.isDigit = true) (text : List Char) :
    readLeaf (c :: text) =
      (readNumber (c :: text)).map fun (literal, rest) ↦ (.number literal, rest) := by
  rw [readLeaf]
  · exact fun _ htext ↦ ne_of_head h 'n' (by decide) rfl (List.cons.inj htext).1
  · exact fun _ htext ↦ ne_of_head h 't' (by decide) rfl (List.cons.inj htext).1
  · exact fun _ htext ↦ ne_of_head h 'f' (by decide) rfl (List.cons.inj htext).1
  · exact fun _ htext ↦ ne_of_head h '"' (by decide) rfl (List.cons.inj htext).1

/-- Only a bracket or a brace opens a container. -/
theorem readValue_leaf {c : Char} (hbracket : c ≠ '[') (hbrace : c ≠ '\x7b') (bound : Nat)
    (text : List Char) : readValue (bound + 1) (c :: text) = readLeaf (c :: text) := by
  rw [readValue]
  · exact fun _ h ↦ hbracket (List.cons.inj h).1
  · exact fun _ h ↦ hbrace (List.cons.inj h).1

theorem readValue_number {literal : NumberLiteral} (h : literal.WellFormed) (bound : Nat)
    {rest : List Char} (hrest : EndsNumber rest) :
    readValue (bound + 1) (literal.chars ++ rest) = some (.number literal, rest) := by
  have hread := readNumber_chars h hrest
  obtain ⟨c, more, hchars, hhead⟩ := head_chars h
  rw [hchars, List.cons_append] at hread ⊢
  rw [readValue_leaf (ne_of_head hhead '[' (by decide) rfl)
    (ne_of_head hhead '\x7b' (by decide) rfl), readLeaf_number hhead, hread]
  rfl

theorem readValue_string (text : String) (bound : Nat) (rest : List Char) :
    readValue (bound + 1) (quote text ++ rest) = some (.string (some text), rest) := by
  have hread := readString_quote text rest
  rw [quote, List.cons_append, List.cons_append, List.append_assoc,
    readValue_leaf (by decide) (by decide), readLeaf]
  change (readString _).map _ = _
  rw [List.singleton_append, hread]
  rfl

/-! ### Containers -/

section Containers

variable {bound : Nat} {text more rest : List Char} {value : Json} {name : Option String}
  {items : JsonItems} {fields : JsonFields}

theorem readValue_array (hopens : Opens text) (hread : readItems bound text = (items, rest)) :
    readValue (bound + 1) ('[' :: text) = some (.array items, rest) := by
  rw [readValue, hopens.skipBlanks]
  obtain ⟨c, more, rfl, -, hend⟩ := hopens
  split
  · next h => exact absurd (List.cons.inj h).1 hend
  · rw [hread]

theorem readItems_last (hvalue : readValue bound text = some (value, ']' :: rest)) :
    readItems (bound + 1) text = (.item value .closed, rest) := by
  rw [readItems, hvalue]
  rfl

theorem readItems_comma (hvalue : readValue bound text = some (value, ',' :: more))
    (hopens : Opens more) (hread : readItems bound more = (items, rest)) :
    readItems (bound + 1) text = (.item value items, rest) := by
  have hstep : readItems (bound + 1) text =
      (.item value (readItems bound (skipBlanks more)).1,
        (readItems bound (skipBlanks more)).2) := by
    rw [readItems, hvalue]
    rfl
  rw [hstep, hopens.skipBlanks, hread]

theorem readValue_object (hread : readFields bound ('"' :: text) = (fields, rest)) :
    readValue (bound + 1) ('\x7b' :: '"' :: text) = some (.object fields, rest) := by
  have hstep : readValue (bound + 1) ('\x7b' :: '"' :: text) =
      some (.object (readFields bound ('"' :: text)).1, (readFields bound ('"' :: text)).2) := by
    rw [readValue]
    rfl
  rw [hstep, hread]

/-- A written name is followed by its value at once. -/
theorem readName_quote (name : String) (hopens : Opens text) :
    readName (quote name ++ ':' :: text) = some (some name, text) := by
  have hread := readString_quote name (':' :: text)
  rw [quote, List.cons_append, List.cons_append, List.append_assoc, List.singleton_append,
    readName, hread]
  change some (some name, skipBlanks text) = _
  rw [hopens.skipBlanks]

theorem readFields_last (hname : readName text = some (name, more))
    (hvalue : readValue bound more = some (value, '\x7d' :: rest)) :
    readFields (bound + 1) text = (.field name value .closed, rest) := by
  rw [readFields, hname]
  dsimp only
  rw [hvalue]
  rfl

theorem readFields_comma {behind : List Char} (hname : readName text = some (name, more))
    (hvalue : readValue bound more = some (value, ',' :: behind)) (hopens : Opens behind)
    (hread : readFields bound behind = (fields, rest)) :
    readFields (bound + 1) text = (.field name value fields, rest) := by
  have hstep : readFields (bound + 1) text =
      (.field name value (readFields bound (skipBlanks behind)).1,
        (readFields bound (skipBlanks behind)).2) := by
    rw [readFields, hname]
    dsimp only
    rw [hvalue]
    rfl
  rw [hstep, hopens.skipBlanks, hread]

end Containers

/-- A written value goes on at once. -/
theorem opens_chars {json : Json} (h : json.Writable) (rest : List Char) :
    Opens (json.chars ++ rest) := by
  cases json with
  | null => exact ⟨'n', _, rfl, rfl, by decide⟩
  | bool value =>
    cases value with
    | false => exact ⟨'f', _, rfl, rfl, by decide⟩
    | true => exact ⟨'t', _, rfl, rfl, by decide⟩
  | number literal =>
    obtain ⟨c, more, hchars, hhead⟩ := head_chars h
    rw [Json.chars, hchars]
    rcases hhead with rfl | hdigit
    · exact ⟨'-', _, rfl, rfl, by decide⟩
    · exact ⟨c, _, rfl, isBlank_of_isDigit hdigit, ne_of_isDigit hdigit ']' rfl⟩
  | string text => exact ⟨'"', _, rfl, rfl, by decide⟩
  | array items => exact ⟨'[', _, rfl, rfl, by decide⟩
  | object fields => exact ⟨'\x7b', _, rfl, rfl, by decide⟩

theorem length_chars_pos {json : Json} (h : json.Writable) : 0 < json.chars.length := by
  obtain ⟨c, more, hchars, -⟩ := opens_chars h []
  rw [List.append_nil] at hchars
  rw [hchars]
  exact Nat.succ_pos _

/-- A separator, a bracket or a brace ends a number. -/
theorem endsNumber_cons {c : Char} (h : c = ',' ∨ c = ']' ∨ c = '\x7d') (text : List Char) :
    EndsNumber (c :: text) := by
  rintro _ ⟨⟩
  rcases h with rfl | rfl | rfl <;> decide

/-- Items are written one behind the other. -/
theorem chars_item (value : Json) (items : JsonItems) (rest : List Char) :
    (JsonItems.item value items).chars true ++ rest =
      value.chars ++ (items.chars false ++ rest) := by
  simp [JsonItems.chars]

/-- A field is written as its name, a colon and its value. -/
theorem chars_field (name : String) (value : Json) (fields : JsonFields) (rest : List Char) :
    (JsonFields.field (some name) value fields).chars true ++ rest =
      quote name ++ ':' :: (value.chars ++ (fields.chars false ++ rest)) := by
  simp [JsonFields.chars]

theorem opens_item {value : Json} (h : value.Writable) (items : JsonItems) (rest : List Char) :
    Opens ((JsonItems.item value items).chars true ++ rest) := by
  rw [chars_item]
  exact opens_chars h _

theorem opens_field (name : String) (value : Json) (fields : JsonFields) (rest : List Char) :
    Opens ((JsonFields.field (some name) value fields).chars true ++ rest) := by
  rw [chars_field]
  exact ⟨'"', _, rfl, rfl, by decide⟩

theorem length_chars_item (value : Json) (items : JsonItems) :
    ((JsonItems.item value items).chars true).length =
      value.chars.length + (items.chars false).length := by
  simp [JsonItems.chars]

/-- A field is longer than its value and the fields behind it. -/
theorem length_chars_field (name : Option String) (value : Json) (fields : JsonFields) :
    value.chars.length + (fields.chars false).length <
      ((JsonFields.field name value fields).chars true).length := by
  simp only [JsonFields.chars, List.length_append, List.length_cons]
  omega

mutual

/-- A written value is read back. -/
theorem readValue_chars : ∀ (json : Json) (bound : Nat) (rest : List Char), json.Writable →
    json.chars.length ≤ bound → EndsNumber rest →
      readValue bound (json.chars ++ rest) = some (json, rest)
  | json, 0, _, h, hbound, _ => absurd (length_chars_pos h) (by omega)
  | .null, _ + 1, _, _, _, _ => readValue_leaf (by decide) (by decide) _ _
  | .bool true, _ + 1, _, _, _, _ => readValue_leaf (by decide) (by decide) _ _
  | .bool false, _ + 1, _, _, _, _ => readValue_leaf (by decide) (by decide) _ _
  | .number _, bound + 1, _, h, _, hrest => readValue_number h bound hrest
  | .string (some text), bound + 1, rest, _, _, _ => readValue_string text bound rest
  | .array .closed, _ + 1, _, _, _, _ => rfl
  | .array (.item value items), bound + 1, rest, h, hbound, _ =>
    readValue_array (opens_item h.1 items rest)
      (readItems_chars (.item value items) bound rest h (Nat.le_of_succ_le_succ hbound) nofun)
  | .object .closed, _ + 1, _, _, _, _ => rfl
  | .object (.field (some name) value fields), bound + 1, rest, h, hbound, _ =>
    readValue_object (readFields_chars (.field (some name) value fields) bound rest h
      (Nat.le_of_succ_le_succ hbound) nofun)

/-- Written items are read back, one at least. -/
theorem readItems_chars : ∀ (items : JsonItems) (bound : Nat) (rest : List Char),
    items.Writable → (items.chars true).length ≤ bound → items ≠ .closed →
      readItems bound (items.chars true ++ rest) = (items, rest)
  | .item value items, bound, rest, h, hbound, _ => by
    rw [length_chars_item] at hbound
    -- The item takes one step off the bound, and one character at least off the text.
    have hpos := length_chars_pos h.1
    obtain ⟨less, rfl⟩ : ∃ less, bound = less + 1 := ⟨bound - 1, by omega⟩
    have hmore := readItems_chars items less rest h.2
    rw [chars_item]
    cases items with
    | closed =>
      have hlength : (JsonItems.closed.chars false).length = 1 := rfl
      exact readItems_last
        (readValue_chars value less _ h.1 (by omega) (endsNumber_cons (by decide) _))
    | broken => exact h.2.elim
    | item second items =>
      have hlength : ((JsonItems.item second items).chars false).length =
        ((JsonItems.item second items).chars true).length + 1 := rfl
      exact readItems_comma
        (readValue_chars value less _ h.1 (by omega) (endsNumber_cons (by decide) _))
        (opens_item h.2.1 items rest) (hmore (by omega) nofun)

/-- Written fields are read back, one at least. -/
theorem readFields_chars : ∀ (fields : JsonFields) (bound : Nat) (rest : List Char),
    fields.Writable → (fields.chars true).length ≤ bound → fields ≠ .closed →
      readFields bound (fields.chars true ++ rest) = (fields, rest)
  | .field (some name) value fields, bound, rest, h, hbound, _ => by
    have hlonger := length_chars_field (some name) value fields
    obtain ⟨less, rfl⟩ : ∃ less, bound = less + 1 := ⟨bound - 1, by omega⟩
    have hmore := readFields_chars fields less rest h.2.2
    have hname := readName_quote name (opens_chars h.2.1 (fields.chars false ++ rest))
    rw [chars_field]
    cases fields with
    | closed =>
      exact readFields_last hname
        (readValue_chars value less _ h.2.1 (by omega) (endsNumber_cons (by decide) _))
    | broken => exact h.2.2.elim
    | field second next fields =>
      have hlength : ((JsonFields.field second next fields).chars false).length =
        ((JsonFields.field second next fields).chars true).length + 1 := rfl
      cases second with
      | none => exact absurd h.2.2.1 (by decide)
      | some second =>
        exact readFields_comma hname
          (readValue_chars value less _ h.2.1 (by omega) (endsNumber_cons (by decide) _))
          (opens_field second next fields rest) (hmore (by omega) nofun)

end

/-- The text of a tree in which nothing is missing is read back as the tree. -/
theorem readDocument_render {json : Json} (h : json.Writable) :
    readDocument json.render = some (json, []) := by
  have hopens := opens_chars h []
  have hread := readValue_chars json (2 * json.chars.length + 2) [] h (by omega) endsNumber_nil
  rw [List.append_nil] at hopens hread
  rw [readDocument, render, String.toList_ofList]
  dsimp only
  rw [hopens.skipBlanks, hread]
  rfl

/-- What is read from the text of a tree is read from the tree. -/
theorem readFrom_render {α : Type} (read : Json → Reading α) {json : Json} (h : json.Writable) :
    readFrom read json.render = read json := by
  rw [readFrom, readDocument_render h]
  dsimp only
  cases read json <;> rfl

/-! ### Trees that are written -/

theorem writable_int (n : Int) : (int n).Writable :=
  NumberLiteral.wellFormed_ofInt n

theorem writable_ofSample (x : Float32) : (ofSample x).Writable := by
  rw [ofSample]
  split
  · exact NumberLiteral.wellFormed_ofSample x
  · exact trivial

theorem writable_str (text : String) : (str text).Writable :=
  rfl

theorem writable_list {values : List Json} (h : ∀ value ∈ values, value.Writable) :
    (list values).Writable := by
  change (JsonItems.ofList values).Writable
  induction values with
  | nil => exact trivial
  | cons value rest ih =>
    exact ⟨h value List.mem_cons_self,
      ih fun other hother ↦ h other (List.mem_cons_of_mem _ hother)⟩

theorem writable_record {fields : List (String × Json)} (h : ∀ field ∈ fields, field.2.Writable) :
    (record fields).Writable := by
  change (JsonFields.ofList fields).Writable
  induction fields with
  | nil => exact trivial
  | cons field rest ih =>
    exact ⟨rfl, h field List.mem_cons_self,
      ih fun other hother ↦ h other (List.mem_cons_of_mem _ hother)⟩

end Json

end TimelineMixer
