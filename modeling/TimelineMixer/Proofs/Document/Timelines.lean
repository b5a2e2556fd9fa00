import TimelineMixer.Document.Timeline
import TimelineMixer.Proofs.Document.Values
import TimelineMixer.Proofs.Json.RoundTrip

/-!
# Reading a written timeline

A layer is read back from its tree as it is, apart from its gain: a finite gain is written as a
decimal, and what the decimal stands for decides; any other gain is written as null, which is no
gain (`Layer.ofJson_toJson`). So the tree of a timeline holds its atoms if all gains are finite,
and is malformed otherwise (`atomsOfJson_toJson`). The check lets the atoms of a timeline it has
made pass unchanged (`make_atoms`). It does not look for gains that are infinite, so the text of a
timeline it accepts may be one that is refused (`ofText_render`).
-/

set_option autoImplicit false
set_option relaxedAutoImplicit false

namespace TimelineMixer

theorem LayerId.ofJson_toJson (id : LayerId) : ofJson id.toJson = .ok id := by
  have htext : ofText? id.text = some id := by
    rw [ofText?, text, String.toList_ofList, ofChars?_chars]
  have hread : id.toJson.readText = .ok id.text := rfl
  simp only [ofJson, hread, bind, Except.bind, htext, Reading.ofOption]

/-! ### Gains -/

/-- The decimal that is written for a gain stands for the gain. -/
def ExactGain (gain : Float32) : Prop :=
  (NumberLiteral.ofDecimal (Single.isNegative gain) (Single.shortest gain)).sample? = some gain

instance (gain : Float32) : Decidable (ExactGain gain) :=
  inferInstanceAs (Decidable (_ = _))

/-- A gain that is not finite is written as null and not read again. -/
theorem readGain_ofSample {gain : Float32} (h : gain.isFinite → ExactGain gain) :
    readGain (.ofSample gain) = if gain.isFinite then .ok gain else .error .malformed := by
  rw [Json.ofSample]
  split
  · next hfinite =>
    rw [readGain, h hfinite]
    rfl
  · rfl

/-! ### Layers and atoms -/

namespace Layer

/-- All fields but the gain are read back. -/
theorem ofJson_toJson_eq_map (layer : Layer) :
    ofJson layer.toJson =
      (readGain (.ofSample layer.gain)).map fun gain ↦ { layer with gain } := by
  have hid := layer.id.ofJson_toJson
  have hbound : ∀ time : Seconds, readBound time.toJson = .ok time :=
    fun time ↦ time.ofJson_toJson 121
  change ofFields (.field (some "uuid") layer.id.toJson
    (.field (some "from") layer.start.toJson (.field (some "to") layer.stop.toJson
      (.field (some "gain") (.ofSample layer.gain) .closed)))) = _
  simp only [ofFields, JsonFields.readInto, Parts.set, JsonFields.once, hid, hbound, Except.map,
    bind, Except.bind, pure, Except.pure]
  cases readGain (.ofSample layer.gain) <;> rfl

theorem ofJson_toJson {layer : Layer} (h : layer.gain.isFinite → ExactGain layer.gain) :
    ofJson layer.toJson = if layer.gain.isFinite then .ok layer else .error .malformed := by
  rw [ofJson_toJson_eq_map, readGain_ofSample h]
  split <;> rfl

theorem writable_toJson (layer : Layer) : layer.toJson.Writable := by
  refine Json.writable_record ?_
  simp only [List.forall_mem_cons]
  exact ⟨Json.writable_str _, layer.start.writable_toJson, layer.stop.writable_toJson,
    Json.writable_ofSample _, by simp⟩

end Layer

namespace Atom

/-- The bounds are read back. -/
theorem ofJson_toJson_eq_map (atom : Atom) :
    ofJson atom.toJson = (Json.readList Layer.ofJson (.list (atom.layers.map Layer.toJson))).map
      fun layers ↦ { atom with layers } := by
  have hbound : ∀ time : Seconds, readBound time.toJson = .ok time :=
    fun time ↦ time.ofJson_toJson 123
  change ofFields (.field (some "from") atom.start.toJson (.field (some "to") atom.stop.toJson
    (.field (some "layers") (.list (atom.layers.map Layer.toJson)) .closed))) = _
  simp only [ofFields, JsonFields.readInto, Parts.set, JsonFields.once, hbound, Except.map, bind,
    Except.bind, pure, Except.pure]
  cases Json.readList Layer.ofJson (.list (atom.layers.map Layer.toJson)) <;> rfl

theorem ofJson_toJson {atom : Atom}
    (h : ∀ layer ∈ atom.layers, layer.gain.isFinite → ExactGain layer.gain) :
    ofJson atom.toJson =
      if ∀ layer ∈ atom.layers, layer.gain.isFinite then .ok atom else .error .malformed := by
  have hlayers := Json.readList_list fun layer hlayer ↦ Layer.ofJson_toJson (h layer hlayer)
  rw [ofJson_toJson_eq_map, hlayers]
  split <;> rfl

theorem writable_toJson (atom : Atom) : atom.toJson.Writable := by
  have hlayers : (Json.list (atom.layers.map Layer.toJson)).Writable := by
    refine Json.writable_list fun value hvalue ↦ ?_
    obtain ⟨layer, -, rfl⟩ := List.mem_map.mp hvalue
    exact layer.writable_toJson
  refine Json.writable_record ?_
  simp only [List.forall_mem_cons]
  exact ⟨atom.start.writable_toJson, atom.stop.writable_toJson, hlayers, by simp⟩

end Atom

/-! ### Timelines that were checked -/

theorem Layer.badGain_settle (layer : Layer) : layer.settle.badGain = false := by
  rw [settle]
  split
  · have hzero : ((0 : Float32).isNaN || (0 : Float32) < 0) = false := by decide +kernel
    exact hzero
  · next hgood => exact Bool.eq_false_iff.mpr hgood

theorem Atom.settle_settle (atom : Atom) : atom.settle.settle = atom.settle := by
  have hlayer : ∀ layer : Layer, layer.settle.settle = layer.settle := fun layer ↦
    if_neg (Bool.eq_false_iff.mp layer.badGain_settle)
  simp [settle, Function.comp_def, hlayer]

theorem Atom.fault?_eq_none {atom : Atom} (h : atom.Ordered) (index : Nat) :
    atom.fault? index = none := by
  have hlayers : (atom.layers.find? fun layer ↦ ¬ layer.Ordered) = none := by
    refine List.find?_eq_none.mpr fun layer hlayer ↦ ?_
    simpa using h.2 layer hlayer
  rw [fault?, if_pos h.1, hlayers]
  rfl

namespace Timeline

theorem fault?_eq_none {atoms : List Atom} (h : ∀ atom ∈ atoms, atom.Ordered) (index : Nat) :
    fault? index atoms = none := by
  induction atoms generalizing index with
  | nil => rfl
  | cons atom rest ih =>
    rw [fault?, Atom.fault?_eq_none (h atom List.mem_cons_self),
      ih (fun other hother ↦ h other (List.mem_cons_of_mem _ hother))]
    rfl

/-- Atoms are accepted if they and their layers end no earlier than they start. -/
theorem make_eq_ok {atoms : List Atom} {timeline : Timeline}
    (h : ∀ atom ∈ atoms, atom.Ordered) (hatoms : timeline.atoms = atoms.map Atom.settle) :
    make atoms = .ok timeline := by
  obtain ⟨_, _⟩ := timeline
  cases hatoms
  rw [make]
  split
  · next hfault =>
    rw [fault?_eq_none h] at hfault
    cases hfault
  · rfl

theorem atoms_of_make {atoms : List Atom} {timeline : Timeline} (h : make atoms = .ok timeline) :
    timeline.atoms = atoms.map Atom.settle := by
  rw [make] at h
  split at h
  · cases h
  · cases h
    rfl

/-- The check lets the atoms of a timeline it has made pass unchanged. -/
theorem make_atoms {atoms : List Atom} {timeline : Timeline} (h : make atoms = .ok timeline) :
    make timeline.atoms = .ok timeline := by
  refine make_eq_ok timeline.ordered ?_
  rw [atoms_of_make h, List.map_map]
  exact List.map_congr_left fun atom _ ↦ atom.settle_settle.symm

/-- A timeline that was read has passed the check. -/
theorem exists_make_of_ofText {text : String} {timeline : Timeline}
    (h : ofText text = .ok timeline) : ∃ atoms, make atoms = .ok timeline := by
  obtain ⟨json, -, hread⟩ := Json.readFrom_eq_ok_iff.mp h
  rw [ofJson] at hread
  cases hatoms : atomsOfJson json with
  | error fault =>
    rw [hatoms] at hread
    cases hread
  | ok atoms =>
    rw [hatoms] at hread
    change (make atoms).mapError _ = _ at hread
    refine ⟨atoms, ?_⟩
    cases hmake : make atoms with
    | error cause =>
      rw [hmake] at hread
      cases hread
    | ok made =>
      rw [hmake] at hread
      cases hread
      rfl

/-! ### Trees and texts of timelines -/

theorem atomsOfJson_toJson {timeline : Timeline}
    (h : ∀ layer ∈ timeline.layers, layer.gain.isFinite → ExactGain layer.gain) :
    atomsOfJson timeline.toJson =
      if ∀ layer ∈ timeline.layers, layer.gain.isFinite then .ok timeline.atoms
      else .error .malformed := by
  have hatoms : readAtoms (.list (timeline.atoms.map Atom.toJson)) =
      if ∀ atom ∈ timeline.atoms, ∀ layer ∈ atom.layers, layer.gain.isFinite then
        .ok timeline.atoms
      else .error .malformed :=
    Json.readList_list fun atom hatom ↦ Atom.ofJson_toJson fun layer hlayer ↦
      h layer (List.mem_flatMap.mpr ⟨atom, hatom, hlayer⟩)
  have hfield : atomsOfJson timeline.toJson =
      readAtoms (.list (timeline.atoms.map Atom.toJson)) := by
    unfold atomsOfJson
    change (JsonFields.readInto _ none (.field (some "atoms")
      (.list (timeline.atoms.map Atom.toJson)) .closed) >>= Reading.ofOption) = _
    simp only [JsonFields.readInto, if_true, JsonFields.once, Except.map, bind, Except.bind, pure,
      Except.pure]
    cases readAtoms (.list (timeline.atoms.map Atom.toJson)) <;> rfl
  rw [hfield, hatoms]
  exact if_congr List.forall_mem_flatMap.symm rfl rfl

theorem writable_toJson (timeline : Timeline) : timeline.toJson.Writable := by
  have hatoms : (Json.list (timeline.atoms.map Atom.toJson)).Writable := by
    refine Json.writable_list fun value hvalue ↦ ?_
    obtain ⟨atom, -, rfl⟩ := List.mem_map.mp hvalue
    exact atom.writable_toJson
  refine Json.writable_record ?_
  simp only [List.forall_mem_cons]
  exact ⟨hatoms, by simp⟩

/-- The text of a timeline is read as the timeline would be checked. -/
theorem ofText_render_eq {timeline : Timeline}
    (h : ∀ layer ∈ timeline.layers, layer.gain.isFinite → ExactGain layer.gain) :
    ofText timeline.toJson.render =
      if ∀ layer ∈ timeline.layers, layer.gain.isFinite then
        (make timeline.atoms).mapError .refused
      else .error .malformed := by
  rw [ofText, Json.readFrom_render _ timeline.writable_toJson, ofJson, atomsOfJson_toJson h]
  split <;> rfl

/-- If all gains of a timeline are finite, its text is read back as the timeline. A gain that is
infinite passes the check, but the text of such a timeline is malformed. Assumes that the decimal
text of a finite gain is exact (`hexact`). -/
theorem ofText_render {timeline : Timeline}
    (haccepted : (∃ atoms, make atoms = .ok timeline) ∨ ∃ text, ofText text = .ok timeline)
    (hexact : ∀ layer ∈ timeline.layers, layer.gain.isFinite → ExactGain layer.gain) :
    ofText timeline.toJson.render =
      if ∀ layer ∈ timeline.layers, layer.gain.isFinite then .ok timeline
      else .error .malformed := by
  obtain ⟨atoms, hmake⟩ : ∃ atoms, make atoms = .ok timeline :=
    haccepted.elim id fun ⟨_, htext⟩ ↦ exists_make_of_ofText htext
  rw [ofText_render_eq hexact, make_atoms hmake]
  rfl

/-- Two seconds, the first with a gain of a tenth and the second with one that is replaced. -/
theorem ofText_render_tenth : ∃ timeline,
    make [⟨0, .ofInt 1, [⟨default, 0, .ofInt 1, 0.1⟩]⟩,
        ⟨.ofInt 1, .ofInt 2, [⟨default, .ofInt 1, .ofInt 2, -1⟩]⟩] = .ok timeline ∧
      ofText timeline.toJson.render = .ok timeline := by
  let timeline : Timeline :=
    ⟨[⟨0, .ofInt 1, [⟨default, 0, .ofInt 1, 0.1⟩]⟩,
      ⟨.ofInt 1, .ofInt 2, [⟨default, .ofInt 1, .ofInt 2, -1⟩]⟩].map Atom.settle,
      by decide +kernel⟩
  have hmake : make _ = .ok timeline := make_eq_ok (by decide +kernel) rfl
  have hexact : ∀ layer ∈ timeline.layers, layer.gain.isFinite → ExactGain layer.gain := by
    decide +kernel
  refine ⟨timeline, hmake, ?_⟩
  rw [ofText_render (Or.inl ⟨_, hmake⟩) hexact, if_pos (by decide +kernel)]

/-- Atoms whose only gain is infinite are accepted, and the text of their timeline is not. -/
theorem not_forall_ofText_render : ¬ ∀ (atoms : List Atom) (timeline : Timeline),
    make atoms = .ok timeline →
    (∀ layer ∈ timeline.layers, layer.gain.isFinite → ExactGain layer.gain) →
      ofText timeline.toJson.render = .ok timeline := by
  intro h
  let loud : Timeline :=
    ⟨[⟨0, .ofInt 1, [⟨default, 0, .ofInt 1, .ofBits 0x7f800000⟩]⟩].map Atom.settle,
      by decide +kernel⟩
  have hmake : make _ = .ok loud := make_eq_ok (by decide +kernel) rfl
  have hexact : ∀ layer ∈ loud.layers, layer.gain.isFinite → ExactGain layer.gain := by
    decide +kernel
  have hread := h _ loud hmake hexact
  rw [ofText_render_eq hexact, if_neg (by decide +kernel)] at hread
  cases hread

end Timeline

end TimelineMixer
