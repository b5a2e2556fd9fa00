import TimelineMixer.Document.Time
import TimelineMixer.Proofs.Json.RoundTrip

/-!
# Reading values back from their trees

A whole number, a list and a time are read from the tree that stands for them. Whole numbers within
bounds are read from number literals without point and exponent, and from nothing else
(`readInt_eq_ok_iff`). A list of values some of which cannot be read is refused with the fault of
the first one (`readList_list`).
-/

set_option autoImplicit false
set_option relaxedAutoImplicit false

namespace TimelineMixer

namespace NumberLiteral

/-- The literal is a whole number: it has neither point nor exponent, and a sign below zero only. -/
def Spells (literal : NumberLiteral) (n : Int) : Prop :=
  literal.isWhole = true ∧ literal.negative = decide (n < 0) ∧
    digitsValue literal.whole = n.natAbs

theorem spells_ofInt (n : Int) : (ofInt n).Spells n :=
  ⟨rfl, rfl, digitsValue_decimalDigits _⟩

/-- A whole number of a signed or an unsigned word is taken from the literals that spell it. -/
theorem int?_eq_some_iff {literal : NumberLiteral} {low high n : Int}
    (hlow : -0x8000000000000000 ≤ low) (hhigh : high < 0x10000000000000000) :
    literal.int? low high = some n ↔ low ≤ n ∧ n ≤ high ∧ literal.Spells n := by
  rw [int?, value?]
  split_ifs with hnatural hnegative
  · obtain ⟨hwhole, hsign, -⟩ := hnatural
    rw [Bool.not_eq_true] at hsign
    simp only [Spells, hwhole, hsign, Option.ite_none_right_eq_some, Option.some_inj, true_and,
      false_eq_decide_iff]
    omega
  · obtain ⟨hwhole, hsign, hpos, -⟩ := hnegative
    simp only [Spells, hwhole, hsign, Option.ite_none_right_eq_some, Option.some_inj, true_and,
      true_eq_decide_iff]
    omega
  · -- What is neither is a float, which is never a whole number.
    have hnone : ¬ (low ≤ n ∧ n ≤ high ∧ literal.Spells n) := by
      rintro ⟨hmin, hmax, hwhole, hsign, hdigits⟩
      simp only [hwhole, hsign, hdigits, decide_eq_true_eq, true_and] at hnatural hnegative
      omega
    refine iff_of_false ?_ hnone
    cases literal.float? <;> rintro ⟨⟩

end NumberLiteral

namespace Json

/-- A value is read from the tree of the whole text. -/
theorem readFrom_eq_ok_iff {α : Type} {read : Json → Reading α} {text : String} {value : α} :
    readFrom read text = .ok value ↔
      ∃ json, readDocument text = some (json, []) ∧ read json = .ok value := by
  rw [readFrom]
  cases readDocument text with
  | none => simp [Reading.malformed]
  | some document =>
    obtain ⟨json, rest⟩ := document
    cases hread : read json <;> cases rest <;>
      simp [bind, Except.bind, pure, Except.pure, Reading.malformed, hread]

/-- The value is a whole number. -/
def Spells (n : Int) : Json → Prop
  | .number literal => literal.Spells n
  | _ => False

/-- The value is a whole number of a signed word. -/
def IsWord (n : Int) (json : Json) : Prop :=
  -0x8000000000000000 ≤ n ∧ n < 0x8000000000000000 ∧ json.Spells n

/-- A whole number of a signed or an unsigned word is read from the values that spell it. -/
theorem readInt_eq_ok_iff {low high n : Int} {json : Json} (hlow : -0x8000000000000000 ≤ low)
    (hhigh : high < 0x10000000000000000) :
    json.readInt low high = .ok n ↔ low ≤ n ∧ n ≤ high ∧ json.Spells n := by
  cases json with
  | number literal =>
    refine Iff.trans ?_ (NumberLiteral.int?_eq_some_iff hlow hhigh)
    rw [readInt]
    cases literal.int? low high <;> simp [Reading.ofOption, Reading.malformed]
  | _ => simp [readInt, Spells, Reading.malformed]

/-- A whole number of a word is read back if it lies within the bounds. -/
theorem readInt_int {low high n : Int} (hmin : -0x8000000000000000 ≤ low)
    (hmax : high < 0x10000000000000000) (hlow : low ≤ n) (hhigh : n ≤ high) :
    (int n).readInt low high = .ok n :=
  (readInt_eq_ok_iff hmin hmax).mpr ⟨hlow, hhigh, NumberLiteral.spells_ofInt n⟩

/-- A whole number of a word can be kept. -/
theorem isProper_int {n : Int} (hmin : -0x8000000000000000 ≤ n) (hmax : n < 0x10000000000000000)
    (depth : Nat) : (int n).isProper depth = true := by
  rw [int, isProper, NumberLiteral.value?_ofInt hmin hmax]
  rfl

/-- An object can be kept if all its values can be kept one level below. -/
theorem isProper_record {fields : List (String × Json)} {depth : Nat}
    (h : ∀ field ∈ fields, field.2.isProper depth = true) :
    (record fields).isProper (depth + 1) = true := by
  change (JsonFields.ofList fields).isProper depth = true
  induction fields with
  | nil => rfl
  | cons field rest ih =>
    have hrest := ih fun other hother ↦ h other (List.mem_cons_of_mem _ hother)
    rw [JsonFields.ofList, JsonFields.isProper, h field List.mem_cons_self, hrest]
    rfl

/-- A list is read back item by item, if all items are. -/
theorem readList_list {α : Type} {read : Json → Reading α} {write : α → Json}
    {fault : DocumentFault} {p : α → Prop} [DecidablePred p] {values : List α}
    (h : ∀ value ∈ values, read (write value) = if p value then .ok value else .error fault) :
    readList read (list (values.map write)) =
      if ∀ value ∈ values, p value then .ok values else .error fault := by
  change (JsonItems.ofList (values.map write)).readAll read = _
  induction values with
  | nil => simp [JsonItems.ofList, JsonItems.readAll]
  | cons value rest ih =>
    have hrest := ih fun other hother ↦ h other (List.mem_cons_of_mem _ hother)
    rw [List.map_cons, JsonItems.ofList, JsonItems.readAll, h value List.mem_cons_self, hrest]
    by_cases hvalue : p value
    · rw [if_pos hvalue]
      by_cases hothers : ∀ other ∈ rest, p other
      · rw [if_pos hothers, if_pos (List.forall_mem_cons.mpr ⟨hvalue, hothers⟩)]
        rfl
      · rw [if_neg hothers, if_neg fun hall ↦ hothers (List.forall_mem_cons.mp hall).2]
        rfl
    · rw [if_neg hvalue, if_neg fun hall ↦ hvalue (List.forall_mem_cons.mp hall).1]
      rfl

end Json

namespace Seconds

/-- The reduced parts of a time are the fraction of the time. -/
theorem ofFraction?_parts (time : Seconds) : ofFraction? time.num time.den = some time := by
  rw [ofFraction?, if_neg (by exact_mod_cast time.den_nz), Rat.num_divInt_den, ofRat_toRat]

theorem readWord_eq_ok_iff {json : Json} {n : Int} : readWord json = .ok n ↔ json.IsWord n :=
  (Json.readInt_eq_ok_iff (by decide) (by decide)).trans
    (and_congr_right fun _ ↦ and_congr_left fun _ ↦ Int.le_iff_lt_add_one)

theorem readWord_int {n : Int} (hlow : -0x8000000000000000 ≤ n) (hhigh : n < 0x8000000000000000) :
    readWord (.int n) = .ok n :=
  readWord_eq_ok_iff.mpr ⟨hlow, hhigh, NumberLiteral.spells_ofInt n⟩

theorem isProper_toJson (time : Seconds) (depth : Nat) :
    time.toJson.isProper (depth + 1) = true := by
  have hsmall := time.den_lt
  refine Json.isProper_record ?_
  simp only [List.forall_mem_cons]
  exact ⟨Json.isProper_int time.num_ge (time.num_lt.trans (by decide)) depth,
    Json.isProper_int (by omega) (by omega) depth, by simp⟩

/-- A time is read back wherever an object may stand. -/
theorem ofJson_toJson (time : Seconds) (depth : Nat) :
    ofJson (depth + 1) time.toJson = .ok time := by
  have hsmall := time.den_lt
  have hnum := readWord_int time.num_ge time.num_lt
  have hden := @readWord_int time.den (by omega) (by omega)
  unfold ofJson
  rw [if_pos (isProper_toJson time depth)]
  change (JsonFields.readInto Parts.set ⟨none, none⟩ (.field (some "num") (.int time.num)
    (.field (some "den") (.int time.den) .closed)) >>= Parts.fraction) = _
  simp only [JsonFields.readInto, Parts.set, JsonFields.once, hnum, hden, Except.map, bind,
    Except.bind, pure, Except.pure, Parts.fraction, ofFraction?_parts]

theorem writable_toJson (time : Seconds) : time.toJson.Writable := by
  refine Json.writable_record ?_
  simp only [List.forall_mem_cons]
  exact ⟨Json.writable_int _, Json.writable_int _, by simp⟩

end Seconds

end TimelineMixer
