import TimelineMixer.Proofs.Document.Values
import TimelineMixer.Proofs.Time.Rounding

/-!
# Documents that are times

A document stands for a fraction if it is an object with one numerator and one denominator, in any
order and among any other fields, or a whole number over one (`Seconds.NamesFraction`). Times are
read from these documents and from no others, as long as the denominator is not zero, and the value
of the time is the fraction, or the fraction in whole nanoseconds (`Seconds.ofText_eq_ok_iff`).

The reader takes an object field by field and keeps what it has seen. The induction is over the
fields that are left: the parts seen so far and the values of the fields that are left make up one
numerator and one denominator (`Seconds.readInto_eq_ok_iff`).
-/

set_option autoImplicit false
set_option relaxedAutoImplicit false

namespace TimelineMixer

/-- A value is read in two steps if both succeed. -/
theorem Reading.bind_eq_ok_iff {α β : Type} {first : Reading α} {second : α → Reading β}
    {value : β} :
    (first >>= second) = .ok value ↔ ∃ found, first = .ok found ∧ second found = .ok value := by
  cases first <;> simp [bind, Except.bind]

mutual

/-- What can be kept was read to its end. -/
theorem Json.isWhole_of_isProper : ∀ (json : Json) (depth : Nat),
    json.isProper depth = true → json.isWhole = true
  | .null, _, _ => rfl
  | .bool _, _, _ => rfl
  | .number _, _, _ => rfl
  | .string _, _, _ => rfl
  | .array items, depth, h => items.isWhole_of_isProper (depth - 1) (Bool.and_eq_true_iff.mp h).2
  | .object fields, depth, h =>
    fields.isWhole_of_isProper (depth - 1) (Bool.and_eq_true_iff.mp h).2

theorem JsonItems.isWhole_of_isProper : ∀ (items : JsonItems) (depth : Nat),
    items.isProper depth = true → items.isWhole = true
  | .closed, _, _ => rfl
  | .item value rest, depth, h =>
    have hboth := Bool.and_eq_true_iff.mp h
    Bool.and_eq_true_iff.mpr
      ⟨value.isWhole_of_isProper depth hboth.1, rest.isWhole_of_isProper depth hboth.2⟩

theorem JsonFields.isWhole_of_isProper : ∀ (fields : JsonFields) (depth : Nat),
    fields.isProper depth = true → fields.isWhole = true
  | .closed, _, _ => rfl
  | .field _ value rest, depth, h =>
    have hboth := Bool.and_eq_true_iff.mp h
    have hfirst := Bool.and_eq_true_iff.mp hboth.1
    Bool.and_eq_true_iff.mpr
      ⟨value.isWhole_of_isProper depth hfirst.2, rest.isWhole_of_isProper depth hboth.2⟩

end

namespace JsonFields

/-- The values of all fields of a name, in order. -/
def valuesOf (name : String) : JsonFields → List Json
  | .closed => []
  | .broken => []
  | .field key value rest =>
    if key = some name then value :: rest.valuesOf name else rest.valuesOf name

/-- One field has the name, and its value is the word. -/
def HasWord (name : String) (n : Int) (fields : JsonFields) : Prop :=
  ∃ value, fields.valuesOf name = [value] ∧ value.IsWord n

theorem hasWord_iff {name : String} {n : Int} {fields : JsonFields} :
    fields.HasWord name n ↔ (fields.valuesOf name).map Seconds.readWord = [.ok n] := by
  simp only [HasWord, List.map_eq_singleton_iff, Seconds.readWord_eq_ok_iff]

end JsonFields

namespace Seconds

variable {num den : Int} {time : Seconds}

/-- The document stands for `num` over `den`: it is an object with this one numerator and this one
denominator, or a whole number, which stands over one. -/
def NamesFraction (num den : Int) : Json → Prop
  | .object fields => fields.HasWord "num" num ∧ fields.HasWord "den" den
  | json => json.IsWord num ∧ den = 1

/-- What was read of a part, and what the fields of its name are read as. -/
def found (part : Option Int) (values : List Json) : List (Reading Int) :=
  (part.map Except.ok).toList ++ values.map readWord

/-- A field of a part is read unless the part was read before. -/
theorem found_cons_eq_iff {part : Option Int} {value : Json} {values : List Json} {n : Int} :
    found part (value :: values) = [.ok n] ↔
      ∃ read, JsonFields.once part readWord value = .ok read ∧ found read values = [.ok n] := by
  cases part with
  | some seen => simp [found, JsonFields.once, Reading.malformed]
  | none => cases hread : readWord value <;> simp [found, JsonFields.once, Except.map, hread]

theorem set_of_ne {name : String} (hnum : name ≠ "num") (hden : name ≠ "den") (parts : Parts)
    (value : Json) : parts.set name value = .ok none := by
  rw [Parts.set]
  · rfl
  · exact hnum
  · exact hden

/-- The parts that were read and the fields that are left make up the fraction. -/
theorem readInto_eq_ok_iff : ∀ (fields : JsonFields) (depth : Nat) (parts : Parts),
    fields.isProper depth = true →
      (fields.readInto Parts.set parts = .ok ⟨some num, some den⟩ ↔
        found parts.num (fields.valuesOf "num") = [.ok num] ∧
          found parts.den (fields.valuesOf "den") = [.ok den])
  | .closed, _, ⟨a, b⟩, _ => by
    cases a <;> cases b <;> simp [JsonFields.readInto, JsonFields.valuesOf, found]
  | .field (some name) value rest, depth, parts, h => by
    have hboth := Bool.and_eq_true_iff.mp h
    have ih := fun parts ↦ readInto_eq_ok_iff rest depth parts hboth.2
    have hwhole := value.isWhole_of_isProper depth (Bool.and_eq_true_iff.mp hboth.1).2
    simp only [JsonFields.readInto, JsonFields.valuesOf, Option.some_inj]
    by_cases hnum : name = "num"
    · have hden : name ≠ "den" := by
        rw [hnum]
        decide
      rw [if_pos hnum, if_neg hden, found_cons_eq_iff, hnum, Parts.set]
      cases JsonFields.once parts.num readWord value <;>
        simp [bind, Except.bind, pure, Except.pure, ih]
    · by_cases hden : name = "den"
      · rw [if_neg hnum, if_pos hden, found_cons_eq_iff, hden, Parts.set]
        cases JsonFields.once parts.den readWord value <;>
          simp [bind, Except.bind, pure, Except.pure, ih]
      · rw [if_neg hnum, if_neg hden, set_of_ne hnum hden]
        simp [bind, Except.bind, hwhole, ih]

/-- The time over a denominator of either sign that is a word. -/
theorem ofFraction?_eq_some_iff (hlow : -0x8000000000000000 ≤ den)
    (hhigh : den < 0x8000000000000000) :
    ofFraction? num den = some time ↔ den ≠ 0 ∧ time.toRat = rounded (num / den) := by
  rw [ofFraction?]
  split_ifs with hzero
  · simp [hzero]
  · rw [Option.some_inj, ← toRat_inj, toRat_ofRat_eq_rounded (den_divInt_le hlow hhigh hzero num),
      Rat.divInt_eq_div, eq_comm]
    exact (and_iff_right hzero).symm

theorem fraction_eq_ok_iff {parts : Parts} :
    parts.fraction = .ok time ↔
      ∃ num den, parts = ⟨some num, some den⟩ ∧ ofFraction? num den = some time := by
  obtain ⟨_ | num, _ | den⟩ := parts
  · simp [Parts.fraction, Reading.malformed]
  · simp [Parts.fraction, Reading.malformed]
  · simp [Parts.fraction, Reading.malformed]
  · rw [Parts.fraction]
    cases h : ofFraction? num den <;> simp [h]

/-- The denominator of a fraction is a word. -/
theorem NamesFraction.bounds {json : Json} (h : NamesFraction num den json) :
    -0x8000000000000000 ≤ den ∧ den < 0x8000000000000000 := by
  cases json with
  | object fields =>
    obtain ⟨value, -, hlow, hhigh, -⟩ := h.2
    exact ⟨hlow, hhigh⟩
  | _ =>
    rw [h.2]
    decide

/-- So is its numerator. -/
theorem NamesFraction.num_bounds {json : Json} (h : NamesFraction num den json) :
    -0x8000000000000000 ≤ num ∧ num < 0x8000000000000000 := by
  cases json with
  | object fields =>
    obtain ⟨value, -, hlow, hhigh, -⟩ := h.1
    exact ⟨hlow, hhigh⟩
  | _ =>
    obtain ⟨hlow, hhigh, -⟩ := h.1
    exact ⟨hlow, hhigh⟩

/-- Both parts of an object are read if it stands for a fraction. -/
theorem readInto_fraction_eq_ok_iff {fields : JsonFields} {depth : Nat}
    (h : fields.isProper depth = true) :
    (fields.readInto Parts.set ⟨none, none⟩ >>= Parts.fraction) = .ok time ↔
      ∃ num den, NamesFraction num den (.object fields) ∧ ofFraction? num den = some time := by
  have hparts : ∀ {num den}, fields.readInto Parts.set ⟨none, none⟩ = .ok ⟨some num, some den⟩ ↔
      NamesFraction num den (.object fields) := fun {num den} ↦
    (readInto_eq_ok_iff fields depth ⟨none, none⟩ h).trans
      (and_congr JsonFields.hasWord_iff.symm JsonFields.hasWord_iff.symm)
  rw [Reading.bind_eq_ok_iff]
  constructor
  · rintro ⟨parts, hread, hfraction⟩
    obtain ⟨num, den, rfl, htime⟩ := fraction_eq_ok_iff.mp hfraction
    exact ⟨num, den, hparts.mp hread, htime⟩
  · rintro ⟨num, den, hnames, htime⟩
    exact ⟨⟨some num, some den⟩, hparts.mpr hnames,
      fraction_eq_ok_iff.mpr ⟨num, den, rfl, htime⟩⟩

theorem ofFraction?_one (n : Int) : ofFraction? n 1 = some (ofInt n) := by
  rw [ofFraction?, if_neg one_ne_zero, Rat.divInt_one]
  rfl

/-- A whole number is the fraction over one. -/
theorem map_ofInt_eq_ok_iff {json : Json} :
    (readWord json).map ofInt = .ok time ↔
      ∃ num den, (json.IsWord num ∧ den = 1) ∧ ofFraction? num den = some time := by
  simp only [← readWord_eq_ok_iff]
  cases readWord json <;> simp [Except.map, ofFraction?_one]

theorem ofJson_eq_ok_iff {json : Json} {depth : Nat} :
    ofJson depth json = .ok time ↔ json.isProper depth = true ∧
      ∃ num den, NamesFraction num den json ∧ den ≠ 0 ∧ time.toRat = rounded (num / den) := by
  have hfraction : ofJson depth json = .ok time ↔ json.isProper depth = true ∧
      ∃ num den, NamesFraction num den json ∧ ofFraction? num den = some time := by
    by_cases hproper : json.isProper depth = true
    · unfold ofJson
      rw [if_pos hproper]
      refine Iff.trans ?_ (and_iff_right hproper).symm
      cases json with
      | object fields => exact readInto_fraction_eq_ok_iff (Bool.and_eq_true_iff.mp hproper).2
      | _ => exact map_ofInt_eq_ok_iff
    · simp [ofJson, hproper, Reading.malformed]
  rw [hfraction]
  refine and_congr_right fun _ ↦ exists_congr fun num ↦ exists_congr fun den ↦
    and_congr_right fun hnames ↦ ?_
  exact ofFraction?_eq_some_iff hnames.bounds.1 hnames.bounds.2

/-- A time is read from the documents that stand for a fraction, and its value is the fraction, or
that in whole nanoseconds. -/
theorem ofText_eq_ok_iff {text : String} :
    ofText text = .ok time ↔ ∃ json num den, Json.readDocument text = some (json, []) ∧
      json.isProper Json.maxDepth = true ∧ NamesFraction num den json ∧ den ≠ 0 ∧
        time.toRat = rounded (num / den) := by
  simp only [ofText, Json.readFrom_eq_ok_iff, ofJson_eq_ok_iff, exists_and_left]

end Seconds

end TimelineMixer
