import TimelineMixer.Document.Event
import TimelineMixer.Document.Spec
import TimelineMixer.Proofs.Document.Fractions

/-!
# Documents that are exchanged

Events, times and stream formats leave the program as documents and come back as documents. Each is
read back as it was written, an event if its counters and indices are words (`Event.ofText_toJson`,
`Seconds.ofText_toJson`, `AudioSpec.ofText_toJson`). So two events, two times or two formats never
have the same document, and since the first fields of the three kinds of objects have different
names, neither have values of two kinds (`Exchanged.text_injective`).

An event is one of six forms, each with one or two fields behind its kind. What is shown of the
reader is that it takes any two fields of different names, or any one field, back from the object
that holds them (`Event.readPair_ofList`, `Event.readSingle_ofList`), and that the kind is found
and removed first (`Event.splitKind_ofList`).
-/

set_option autoImplicit false
set_option relaxedAutoImplicit false

namespace TimelineMixer

namespace Json

/-- A word is read back as a number below a bound. -/
theorem readNat_int {bound n : Nat} (hbound : bound ≤ UInt64.size) (h : n < bound) :
    (int n).readNat bound = .ok n := by
  have hsize : UInt64.size = 0x10000000000000000 := rfl
  rw [readNat, readInt_int (by omega) (by omega) (by omega) (by omega)]
  rfl

/-- Trees in which nothing is missing are told apart by their texts. -/
theorem eq_of_render_eq {first second : Json} (hfirst : first.Writable) (hsecond : second.Writable)
    (h : first.render = second.render) : first = second := by
  have hread := readDocument_render hfirst
  rw [h, readDocument_render hsecond] at hread
  exact (congrArg Prod.fst (Option.some_inj.mp hread)).symm

/-- Objects whose first fields have different names are different. -/
theorem record_cons_ne {first second : String} (h : first ≠ second) (value other : Json)
    (fields more : List (String × Json)) :
    record ((first, value) :: fields) ≠ record ((second, other) :: more) := by
  intro heq
  exact h (Option.some_inj.mp (JsonFields.field.inj (Json.object.inj heq)).1)

end Json

/-- One value at most is read from a tree. -/
theorem Reading.eq_of_eq_ok {α : Type} {read : Json → Reading α} {first second : Json} {a b : α}
    (h : first = second) (hfirst : read first = .ok a) (hsecond : read second = .ok b) : a = b := by
  rw [h, hsecond] at hfirst
  exact (Except.ok.inj hfirst).symm

theorem PlayState.ofJson_toJson (state : PlayState) (kept : Bool) :
    ofJson kept state.toJson = .ok state := by
  cases state <;> rfl

namespace Event

/-- The counters and indices of an event. -/
def words : Event → List Nat
  | playbackStateChanged _ _ => []
  | atomChanged index loop => [index, loop]
  | loopWrapped loop => [loop]
  | underrunPause queued threshold => [queued, threshold]
  | readyToPlay queued => [queued]
  | seeked _ index => [index]

/-- All counters and indices of an event are words. -/
def Storable (event : Event) : Prop :=
  ∀ n ∈ event.words, n < UInt64.size

instance (event : Event) : Decidable event.Storable :=
  inferInstanceAs (Decidable (∀ n ∈ event.words, n < UInt64.size))

theorem readWord_int {n : Nat} (h : n < UInt64.size) : readWord (.int n) = .ok n :=
  Json.readNat_int le_rfl h

section Fields

variable {α β : Type} {firstName secondName : String} {readFirst : Json → Reading α}
  {readSecond : Json → Reading β} {firstValue secondValue : Json} {first : α} {second : β}

/-- Two fields of different names are read back. -/
theorem readPair_ofList (hnames : secondName ≠ firstName)
    (hfirst : readFirst firstValue = .ok first) (hsecond : readSecond secondValue = .ok second) :
    readPair firstName secondName readFirst readSecond
      (.ofList [(firstName, firstValue), (secondName, secondValue)]) = .ok (first, second) := by
  simp [readPair, JsonFields.ofList, JsonFields.readInto, Pair.set, JsonFields.once, hnames, hfirst,
    hsecond, Except.map, bind, Except.bind, pure, Except.pure]

theorem readSingle_ofList (hfirst : readFirst firstValue = .ok first) :
    readSingle firstName readFirst (.ofList [(firstName, firstValue)]) = .ok first := by
  simp [readSingle, JsonFields.ofList, JsonFields.readInto, JsonFields.once, hfirst, Except.map,
    bind, Except.bind, pure, Except.pure, Reading.ofOption]

end Fields

/-- The fields of an event are read back by its kind. -/
theorem ofFields_fields {event : Event} (h : event.Storable) :
    ofFields event.kind (.ofList event.fields) = .ok event := by
  cases event with
  | playbackStateChanged old new =>
    rw [kind, ofFields, fields,
      readPair_ofList (by decide) (old.ofJson_toJson true) (new.ofJson_toJson true)]
    rfl
  | atomChanged index loop =>
    have hindex := readWord_int (h index List.mem_cons_self)
    have hloop := readWord_int (h loop (List.mem_cons_of_mem _ List.mem_cons_self))
    rw [kind, ofFields, fields, readPair_ofList (by decide) hindex hloop]
    rfl
  | loopWrapped loop =>
    have hloop := readWord_int (h loop List.mem_cons_self)
    rw [kind, ofFields, fields, readSingle_ofList hloop]
    rfl
  | underrunPause queued threshold =>
    have hqueued := readWord_int (h queued List.mem_cons_self)
    have hthreshold := readWord_int (h threshold (List.mem_cons_of_mem _ List.mem_cons_self))
    rw [kind, ofFields, fields, readPair_ofList (by decide) hqueued hthreshold]
    rfl
  | readyToPlay queued =>
    have hqueued := readWord_int (h queued List.mem_cons_self)
    rw [kind, ofFields, fields, readSingle_ofList hqueued]
    rfl
  | seeked position index =>
    have hposition : Seconds.ofJson Json.maxDepth position.toJson = .ok position :=
      position.ofJson_toJson 126
    have hindex := readWord_int (h index List.mem_cons_self)
    rw [kind, ofFields, fields, readPair_ofList (by decide) hposition hindex]
    rfl

/-- Fields none of which names a kind are left as they are. -/
theorem splitKind_ofList {fields : List (String × Json)}
    (h : ∀ field ∈ fields, field.1 ≠ kindField) :
    splitKind (.ofList fields) = .ok (none, .ofList fields) := by
  induction fields with
  | nil => rfl
  | cons field rest ih =>
    have hrest := ih fun other hother ↦ h other (List.mem_cons_of_mem _ hother)
    have hname : some field.1 ≠ some kindField :=
      fun heq ↦ h field List.mem_cons_self (Option.some_inj.mp heq)
    rw [JsonFields.ofList, splitKind, if_neg hname, hrest]
    rfl

theorem ne_kindField (event : Event) : ∀ field ∈ event.fields, field.1 ≠ kindField := by
  cases event <;> simp [fields, kindField]

theorem isProper_fields {event : Event} (h : event.Storable) (depth : Nat) :
    ∀ field ∈ event.fields, field.2.isProper (depth + 1) = true := by
  have hword : ∀ n ∈ event.words, (Json.int n).isProper (depth + 1) = true := fun n hn ↦
    Json.isProper_int (by omega) (by exact_mod_cast h n hn) (depth + 1)
  cases event with
  | playbackStateChanged old new => simp [fields, PlayState.toJson, Json.str, Json.isProper]
  | seeked position index =>
    have hposition := position.isProper_toJson depth
    simp_all [fields, words]
  | _ => simp_all [fields, words]

theorem writable_toJson (event : Event) : event.toJson.Writable := by
  refine Json.writable_record (List.forall_mem_cons.mpr ⟨Json.writable_str _, ?_⟩)
  cases event <;> simp only [fields, List.forall_mem_cons]
  case playbackStateChanged old new =>
    exact ⟨Json.writable_str _, Json.writable_str _, by simp⟩
  case seeked position index =>
    exact ⟨position.writable_toJson, Json.writable_int _, by simp⟩
  all_goals simp [Json.writable_int]

theorem ofJson_toJson {event : Event} (h : event.Storable) : ofJson event.toJson = .ok event := by
  -- The event takes one level, and a position inside it another.
  have hproper : event.toJson.isProper Json.maxDepth = true :=
    Json.isProper_record (List.forall_mem_cons.mpr ⟨rfl, isProper_fields h 125⟩)
  have hsplit : splitKind (.ofList ((kindField, .str event.kind.name) :: event.fields)) =
      .ok (some event.kind, .ofList event.fields) := by
    rw [JsonFields.ofList, splitKind, if_pos rfl, splitKind_ofList event.ne_kindField]
    simp [EventKind.ofJson, Json.readText, Json.str, Reading.ofOption, bind, Except.bind, pure,
      Except.pure]
  unfold ofJson
  rw [if_pos hproper]
  change (splitKind (.ofList ((kindField, .str event.kind.name) :: event.fields)) >>= _) = _
  rw [hsplit]
  exact ofFields_fields h

/-- An event whose counters and indices are words is read back from its text. -/
theorem ofText_toJson {event : Event} (h : event.Storable) :
    ofText event.toJson.render = .ok event := by
  rw [ofText, Json.readFrom_render _ event.writable_toJson, ofJson_toJson h]

end Event

theorem Seconds.ofText_toJson (time : Seconds) : ofText time.toJson.render = .ok time := by
  rw [ofText, Json.readFrom_render _ time.writable_toJson]
  exact time.ofJson_toJson 126

namespace AudioSpec

theorem writable_toJson (spec : AudioSpec) : spec.toJson.Writable := by
  refine Json.writable_record ?_
  simp only [List.forall_mem_cons]
  exact ⟨Json.writable_str _, Json.writable_int _, Json.writable_int _, by simp⟩

theorem ofJson_toJson (spec : AudioSpec) : ofJson spec.toJson = .ok spec := by
  have hformat : SampleFormat.ofJson (.str spec.format.name) = .ok spec.format := by
    cases spec.format
    rfl
  have hrate : readRate (.int spec.rate.toNat) = .ok spec.rate := by
    rw [readRate, Json.readNat_int (by decide) spec.rate.toNat_lt]
    simp [Except.map]
  have hchannels : readChannels (.int spec.channels.toNat) = .ok spec.channels := by
    rw [readChannels, Json.readNat_int (by decide) spec.channels.toNat_lt]
    simp [Except.map]
  change ofFields (.ofList _) = _
  simp only [ofFields, JsonFields.ofList, JsonFields.readInto, Parts.set, JsonFields.once, hformat,
    hrate, hchannels, Except.map, bind, Except.bind, pure, Except.pure, ofParts, make_self,
    Except.mapError]

theorem ofText_toJson (spec : AudioSpec) : ofText spec.toJson.render = .ok spec := by
  rw [ofText, Json.readFrom_render _ spec.writable_toJson, ofJson_toJson]

end AudioSpec

/-! ### All documents -/

/-- A value that is exchanged as a document. -/
inductive Exchanged where
  | event (value : Event) (storable : value.Storable)
  | time (value : Seconds)
  | spec (value : AudioSpec)

namespace Exchanged

/-- The object that stands for the value. -/
def toJson : Exchanged → Json
  | event value _ => value.toJson
  | time value => value.toJson
  | spec value => value.toJson

/-- The document of the value. -/
def text (value : Exchanged) : String :=
  value.toJson.render

theorem writable_toJson (value : Exchanged) : value.toJson.Writable := by
  cases value with
  | event value _ => exact value.writable_toJson
  | time value => exact value.writable_toJson
  | spec value => exact value.writable_toJson

/-- Two values of one kind are told apart by reading them, and two of different kinds by the names
of their first fields. -/
theorem toJson_injective : Function.Injective toJson := by
  intro a b h
  cases a with
  | event first hfirst =>
    cases b with
    | event second hsecond =>
      obtain rfl : first = second :=
        Reading.eq_of_eq_ok h (Event.ofJson_toJson hfirst) (Event.ofJson_toJson hsecond)
      rfl
    | time => exact absurd h (Json.record_cons_ne (by decide) _ _ _ _)
    | spec => exact absurd h (Json.record_cons_ne (by decide) _ _ _ _)
  | time first =>
    cases b with
    | event => exact absurd h (Json.record_cons_ne (by decide) _ _ _ _)
    | time second =>
      exact congrArg time
        (Reading.eq_of_eq_ok h (first.ofJson_toJson 0) (second.ofJson_toJson 0))
    | spec => exact absurd h (Json.record_cons_ne (by decide) _ _ _ _)
  | spec first =>
    cases b with
    | event => exact absurd h (Json.record_cons_ne (by decide) _ _ _ _)
    | time => exact absurd h (Json.record_cons_ne (by decide) _ _ _ _)
    | spec second =>
      exact congrArg spec (Reading.eq_of_eq_ok h first.ofJson_toJson second.ofJson_toJson)

/-- Different values have different documents. -/
theorem text_injective : Function.Injective text := fun a b h ↦
  toJson_injective (Json.eq_of_render_eq a.writable_toJson b.writable_toJson h)

end Exchanged

/-- Every event whose counters and indices are words, every time and every stream format is read
back from its document, and different values have different documents. A time is read from a
document that stands for a fraction, with a denominator that is not zero, and from no other; its
value is the fraction, or that in whole nanoseconds, and writing it anew changes nothing. -/
theorem documents_round_trip :
    (∀ event : Event, event.Storable → Event.ofText event.toJson.render = .ok event) ∧
    (∀ time : Seconds, Seconds.ofText time.toJson.render = .ok time) ∧
    (∀ spec : AudioSpec, AudioSpec.ofText spec.toJson.render = .ok spec) ∧
    Function.Injective Exchanged.text ∧
    (∀ (text : String) (time : Seconds), Seconds.ofText text = .ok time ↔
      ∃ json num den, Json.readDocument text = some (json, []) ∧
        json.isProper Json.maxDepth = true ∧ Seconds.NamesFraction num den json ∧ den ≠ 0 ∧
          time.toRat = Seconds.rounded (num / den)) ∧
    ∀ text : String, (Seconds.ofText text >>= fun time ↦ Seconds.ofText time.toJson.render) =
      Seconds.ofText text := by
  refine ⟨fun _ ↦ Event.ofText_toJson, Seconds.ofText_toJson, AudioSpec.ofText_toJson,
    Exchanged.text_injective, fun _ _ ↦ Seconds.ofText_eq_ok_iff, fun text ↦ ?_⟩
  cases Seconds.ofText text with
  | error fault => rfl
  | ok time => simp only [bind, Except.bind, time.ofText_toJson]

/-- A seek to the earliest time there is, into the atom of the largest index, and a time whose
denominator is too large once its sign is moved to the numerator. -/
theorem documents_round_trip_extremes :
    let event := Event.seeked (.ofInt (-0x8000000000000000)) 0xffffffffffffffff
    let time := Json.record [("den", .int (-0x8000000000000000)), ("unit", .str "s"),
      ("num", .int 0x7fffffffffffffff)]
    event.Storable ∧ Event.ofText event.toJson.render = .ok event ∧
      Seconds.ofText time.render = .ok (.ofInt (-1)) := by
  intro event time
  have hstorable : event.Storable := by decide
  have hwritable : time.Writable :=
    Json.writable_record (by simp [Json.writable_int, Json.writable_str])
  have hproper : time.isProper Json.maxDepth = true :=
    Json.isProper_record (by simp [Json.isProper_int, Json.str, Json.isProper])
  have hspells : ∀ n : Int, (Json.int n).Spells n := NumberLiteral.spells_ofInt
  have hnames : Seconds.NamesFraction 0x7fffffffffffffff (-0x8000000000000000) time :=
    ⟨⟨_, rfl, by decide, by decide, hspells _⟩, ⟨_, rfl, by decide, by decide, hspells _⟩⟩
  -- The fraction is within a billionth of minus one, which is the next nanosecond below it.
  have hvalue : Seconds.ofFraction? 0x7fffffffffffffff (-0x8000000000000000) =
      some (.ofInt (-1)) := by decide +kernel
  have hbounds := hnames.bounds
  obtain ⟨hevent, -, -, -, haccepted, -⟩ := documents_round_trip
  exact ⟨hstorable, hevent event hstorable, (haccepted _ _).mpr ⟨time, _, _,
    Json.readDocument_render hwritable, hproper, hnames,
    (Seconds.ofFraction?_eq_some_iff hbounds.1 hbounds.2).mp hvalue⟩⟩

end TimelineMixer
