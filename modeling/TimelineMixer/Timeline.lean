import TimelineMixer.Notice

/-!
# Timelines

A timeline is a list of atoms, each a segment of time with the layers audible in it. `make` refuses
the first atom or layer, in reading order, that ends before it starts, and replaces a gain that is
negative or not a number by zero. Layers outside their atom and gaps between atoms are accepted
with a notice.
-/

set_option autoImplicit false
set_option relaxedAutoImplicit false

namespace TimelineMixer

/-- One track, audible from `start` to `stop`. -/
structure Layer where
  id : LayerId
  start : Seconds
  stop : Seconds
  gain : Float32

/-- One segment of a timeline. -/
structure Atom where
  start : Seconds
  stop : Seconds
  layers : List Layer

namespace Layer

/-- A gain that has to be replaced: negative, or not a number. -/
def badGain (layer : Layer) : Bool :=
  layer.gain.isNaN || layer.gain < 0

/-- The layer with a usable gain. -/
def settle (layer : Layer) : Layer :=
  if layer.badGain then { layer with gain := 0 } else layer

/-- The layer ends no earlier than it starts. -/
def Ordered (layer : Layer) : Prop :=
  layer.start ≤ layer.stop

instance (layer : Layer) : Decidable layer.Ordered :=
  inferInstanceAs (Decidable (layer.start ≤ layer.stop))

/-- The layer is heard somewhere between two times, both included. -/
def overlaps (layer : Layer) (first last : Seconds) : Bool :=
  layer.start ≤ last && first ≤ layer.stop

/-- Values are compared field by field, gains as numbers. -/
def same (a b : Layer) : Bool :=
  a.id = b.id && a.start = b.start && a.stop = b.stop && a.gain == b.gain

@[simp] theorem settle_start (layer : Layer) : layer.settle.start = layer.start := by
  unfold settle; split <;> rfl

@[simp] theorem settle_stop (layer : Layer) : layer.settle.stop = layer.stop := by
  unfold settle; split <;> rfl

@[simp] theorem settle_id (layer : Layer) : layer.settle.id = layer.id := by
  unfold settle; split <;> rfl

/-- What is recorded about a layer of the atom at an index. -/
def notices (index : Nat) (atom : Atom) (layer : Layer) : List Notice :=
  (if layer.stop < atom.start ∨ atom.stop < layer.start then
    [.layerOutsideAtom layer.id layer.start layer.stop index atom.start atom.stop] else []) ++
  (if layer.badGain then [.gainClamped layer.id layer.gain] else [])

end Layer

namespace Atom

/-- The length of the segment. -/
def length (atom : Atom) : Seconds :=
  atom.stop - atom.start

/-- The segment contains a time; its end belongs to the next one. -/
def contains (atom : Atom) (time : Seconds) : Bool :=
  atom.start ≤ time && time < atom.stop

/-- The atom with usable gains. -/
def settle (atom : Atom) : Atom :=
  { atom with layers := atom.layers.map Layer.settle }

/-- The atom and its layers end no earlier than they start. -/
def Ordered (atom : Atom) : Prop :=
  atom.start ≤ atom.stop ∧ ∀ layer ∈ atom.layers, layer.Ordered

instance (atom : Atom) : Decidable atom.Ordered :=
  inferInstanceAs (Decidable (_ ∧ _))

/-- Values are compared layer by layer. -/
def same (a b : Atom) : Bool :=
  a.start = b.start && a.stop = b.stop && a.layers.length = b.layers.length &&
    (a.layers.zip b.layers).all fun (x, y) ↦ x.same y

/-- The first reversed bounds of the atom at an index. -/
def fault? (index : Nat) (atom : Atom) : Option TimelineFault :=
  if atom.start ≤ atom.stop then
    (atom.layers.find? fun layer ↦ ¬ layer.Ordered).map fun layer ↦
      .layerReversed layer.id index layer.start layer.stop
  else some (.atomReversed index atom.start atom.stop)

/-- What is recorded about an atom up to its first reversed bounds. -/
def notices (index : Nat) (atom : Atom) : List Notice :=
  if atom.start ≤ atom.stop then
    (atom.layers.takeWhile fun layer ↦ layer.Ordered).flatMap (Layer.notices index atom)
  else []

theorem ordered_of_fault?_eq_none {index : Nat} {atom : Atom}
    (h : atom.fault? index = none) : atom.Ordered := by
  unfold fault? at h
  split at h
  · next bounds =>
    refine ⟨bounds, fun layer member ↦ ?_⟩
    have := List.find?_eq_none.mp (Option.map_eq_none_iff.mp h) layer member
    simpa using this
  · cases h

theorem Ordered.settle {atom : Atom} (h : atom.Ordered) : atom.settle.Ordered := by
  refine ⟨h.1, fun layer member ↦ ?_⟩
  obtain ⟨given, present, rfl⟩ := List.mem_map.mp member
  have := h.2 given present
  simpa [Layer.Ordered] using this

end Atom

/-- A sequence of atoms none of which ends before it starts. -/
structure Timeline where
  atoms : List Atom
  ordered : ∀ atom ∈ atoms, atom.Ordered

namespace Timeline

/-- The timeline without atoms. -/
def empty : Timeline :=
  ⟨[], by simp⟩

instance : Inhabited Timeline := ⟨empty⟩

/-- The first reversed bounds, atoms counted from an index. -/
def fault? : Nat → List Atom → Option TimelineFault
  | _, [] => none
  | index, atom :: rest => (atom.fault? index).or (fault? (index + 1) rest)

/-- What is recorded about the atoms up to the first reversed bounds. -/
def atomNotices : Nat → List Atom → List Notice
  | _, [] => []
  | index, atom :: rest =>
    atom.notices index ++ if (atom.fault? index).isSome then [] else atomNotices (index + 1) rest

/-- What is recorded about neighbouring atoms that do not meet. -/
def gapNotices : Nat → List Atom → List Notice
  | index, a :: b :: rest =>
    (if a.stop = b.start then [] else [.notContiguous index a.stop b.start]) ++
      gapNotices (index + 1) (b :: rest)
  | _, _ => []

theorem ordered_of_fault?_eq_none {index : Nat} {atoms : List Atom}
    (h : fault? index atoms = none) : ∀ atom ∈ atoms, atom.Ordered := by
  induction atoms generalizing index with
  | nil => simp
  | cons atom rest ih =>
    rw [fault?, Option.or_eq_none_iff] at h
    intro a member
    rcases List.mem_cons.mp member with rfl | member
    · exact Atom.ordered_of_fault?_eq_none h.1
    · exact ih h.2 a member

/-- Checks atoms and makes them a timeline. -/
def make (atoms : List Atom) : Except Fault Timeline :=
  match h : fault? 0 atoms with
  | some cause => .error (.timeline cause)
  | none => .ok
      { atoms := atoms.map Atom.settle
        ordered := by
          intro atom member
          obtain ⟨given, present, rfl⟩ := List.mem_map.mp member
          exact (ordered_of_fault?_eq_none h given present).settle }

/-- What is recorded while atoms are checked. -/
def notices (atoms : List Atom) : List Notice :=
  atomNotices 0 atoms ++ if (fault? 0 atoms).isSome then [] else gapNotices 0 atoms

/-- Values are compared atom by atom. -/
def same (a b : Timeline) : Bool :=
  a.atoms.length = b.atoms.length && (a.atoms.zip b.atoms).all fun (x, y) ↦ x.same y

/-- Number of atoms. -/
def length (timeline : Timeline) : Nat :=
  timeline.atoms.length

/-- The start of the first atom. -/
def start? (timeline : Timeline) : Option Seconds :=
  timeline.atoms.head?.map Atom.start

/-- The end of the last atom. -/
def stop? (timeline : Timeline) : Option Seconds :=
  timeline.atoms.getLast?.map Atom.stop

/-- The first atom that contains a time; the end of the last atom belongs to it. -/
def indexAt? (timeline : Timeline) (time : Seconds) : Option Nat :=
  (timeline.atoms.findIdx? fun atom ↦ atom.contains time).or
    (if timeline.stop? = some time then some (timeline.length - 1) else none)

/-- All layer occurrences, atom by atom. -/
def layers (timeline : Timeline) : List Layer :=
  timeline.atoms.flatMap Atom.layers

theorem exists_bounds {timeline : Timeline} (h : timeline.length ≠ 0) :
    ∃ start stop, timeline.start? = some start ∧ timeline.stop? = some stop := by
  have hatoms : timeline.atoms ≠ [] := fun hnil ↦ h (by rw [length, hnil]; rfl)
  refine ⟨(timeline.atoms.head hatoms).start, (timeline.atoms.getLast hatoms).stop, ?_, ?_⟩
  · rw [start?, List.head?_eq_some_head hatoms, Option.map_some]
  · rw [stop?, List.getLast?_eq_some_getLast hatoms, Option.map_some]

theorem exists_stop? {timeline : Timeline} {start : Seconds} (h : timeline.start? = some start) :
    ∃ stop, timeline.stop? = some stop := by
  have hatoms : timeline.length ≠ 0 := fun hnone ↦ by
    rw [start?, List.length_eq_zero_iff.mp hnone] at h
    cases h
  obtain ⟨-, stop, -, hstop⟩ := exists_bounds hatoms
  exact ⟨stop, hstop⟩

theorem length_ne_zero_of_mem_layers {timeline : Timeline} {layer : Layer}
    (h : layer ∈ timeline.layers) : timeline.length ≠ 0 := by
  intro hnone
  rw [layers, List.length_eq_zero_iff.mp hnone] at h
  cases h

theorem ordered_of_mem_layers {timeline : Timeline} {layer : Layer}
    (h : layer ∈ timeline.layers) : layer.Ordered := by
  obtain ⟨atom, hatom, hlayer⟩ := List.mem_flatMap.mp h
  exact (timeline.ordered atom hatom).2 layer hlayer

end Timeline

end TimelineMixer
