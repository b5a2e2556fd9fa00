import Mathlib.Algebra.Group.Pi.Lemmas
import TimelineMixer.Proofs.Mix.Frames

/-!
# Mixing does not depend on how output is cut

A period of whole frames may be mixed in parts. The part of a layer heard in a period is the part
heard in its beginning followed by the part heard in the rest (`heard_add`), although both are
rounded from the start of their own period; so each queue is read by the same count
(`heardCounts_add`) and each sample is added to once (`foldl_mixInto_append`). By induction on the
parts, `mixPeriods` agrees with one call of `mixFrame`, for every store that pushes of whole
samples, pops and fills can produce (`mixPeriods_eq_mixFrame`).
-/

set_option autoImplicit false
set_option relaxedAutoImplicit false

namespace TimelineMixer

/-- The stores that pushes of whole samples, pops and fills produce. -/
inductive LayerStore.Reached : LayerStore → Prop
  | empty : Reached .empty
  | push {store : LayerStore} (reached : Reached store) (key : QueueKey) (chunk : Chunk)
      (whole : Sample.width ∣ chunk.size) : Reached (store.push key chunk)
  | pop {store : LayerStore} (reached : Reached store) (key : QueueKey) :
      Reached (store.pop key).2
  | fill {store : LayerStore} (reached : Reached store) (out : List Float32) (start stop : Nat)
      (key : QueueKey) (gain : Float32) : Reached (fillLayer store out start stop key gain).store

/-- Mixes the parts of an output one after the other, of which the first begins `done` bytes after
a time: the mixed parts and the store they leave. -/
def mixPeriods (atom : Atom) (current : Seconds) (loop : Nat) (spec : AudioSpec) :
    LayerStore → Nat → List (List Float32) → List (List Float32) × LayerStore
  | store, _, [] => ([], store)
  | store, done, part :: rest =>
    let next := done + Sample.width * part.length
    let mix := mixFrame store part atom (current + spec.duration done)
      (current + spec.duration next) loop spec
    let (outs, last) := mixPeriods atom current loop spec mix.store next rest
    (mix.out :: outs, last)

/-- Every time and every distance to the bounds of a layer that is computed for the parts of an
output can be stored. -/
def PeriodsFit (layers : List Layer) (current : Seconds) (spec : AudioSpec) :
    Nat → List (List Float32) → Prop
  | _, [] => True
  | done, part :: rest =>
    let next := done + Sample.width * part.length
    Seconds.Fits (current.toRat + next / spec.bytesPerSecond) ∧
      (∀ layer ∈ layers,
        layer.BoundsFit (current + spec.duration done) (current + spec.duration next)) ∧
      PeriodsFit layers current spec next rest

instance PeriodsFit.decidable (layers : List Layer) (current : Seconds) (spec : AudioSpec) :
    ∀ done parts, Decidable (PeriodsFit layers current spec done parts)
  | _, [] => isTrue trivial
  | done, part :: rest =>
    have := PeriodsFit.decidable layers current spec (done + Sample.width * part.length) rest
    inferInstanceAs (Decidable (_ ∧ _ ∧ _))

namespace LayerStore

theorem Whole.fillLayer {store : LayerStore} (h : store.Whole) (out : List Float32)
    (start stop : Nat) (key : QueueKey) (gain : Float32) :
    (TimelineMixer.fillLayer store out start stop key gain).store.Whole := by
  rw [TimelineMixer.fillLayer]
  cases hfind : store.find? key with
  | none => exact h
  | some queue =>
    dsimp only
    refine h.modify key fun _ _ ↦ ?_
    rw [LayerQueue.fill_eq (h.find? hfind) gain (Sample.width_dvd_alignDown _)]
    exact (h.find? hfind).read
      (Nat.dvd_sub (Sample.width_dvd_alignDown _) (Sample.width_dvd_alignDown _))

/-- Pushes of whole samples, pops and fills keep whole samples. -/
theorem Reached.whole {store : LayerStore} (h : store.Reached) : store.Whole := by
  induction h with
  | empty => exact whole_empty
  | push _ key chunk hwhole ih => exact ih.push key hwhole
  | pop _ key ih => exact ih.pop key
  | fill _ out start stop key gain ih => exact ih.fillLayer out start stop key gain

end LayerStore

section Cut

variable {spec : AudioSpec} (time : ℚ) {size : Nat} (hsize : spec.frameBytes ∣ size) (rest : Nat)

include hsize

namespace Layer

variable (layer : Layer)

/-- Where a layer begins in a period, seen from a part of whole frames and from the rest. -/
theorem firstByte_add : layer.firstByte spec time size =
      min (layer.firstByte spec time (size + rest)) size ∧
    layer.firstByte spec (time + size / spec.bytesPerSecond) rest =
      layer.firstByte spec time (size + rest) - size := by
  have hshift := spec.wholeBytes_sub hsize (layer.start.toRat - time)
  rw [sub_sub] at hshift
  simp only [firstByte, hshift]
  omega

omit hsize in
variable (spec size) in
/-- What is heard in a part is the beginning of what is heard in the whole. -/
theorem min_heard : min (size - layer.firstByte spec time (size + rest))
    (layer.heard spec time (size + rest)) = layer.heard spec time size := by
  simp only [heard, firstByte, lastByte]
  omega

/-- What is heard of a layer in a period is heard in a part of whole frames or in the rest. -/
theorem heard_add : layer.heard spec time (size + rest) =
    layer.heard spec time size +
      layer.heard spec (time + size / spec.bytesPerSecond) rest := by
  have hstart := spec.wholeBytes_sub hsize (layer.start.toRat - time)
  have hstop := spec.wholeBytes_sub hsize (layer.stop.toRat - time)
  rw [sub_sub] at hstart hstop
  have hcut : ∀ bound : Nat, min bound (size + rest) = min bound size + min (bound - size) rest :=
    fun bound ↦ by omega
  simp only [heard, firstByte, lastByte, hstart, hstop, hcut]
  rcases Nat.le_total (spec.wholeBytes (layer.start.toRat - time))
    (spec.wholeBytes (layer.stop.toRat - time)) with horder | horder
  · exact (tsub_add_tsub_comm (min_le_min_right size horder)
      (min_le_min_right rest (Nat.sub_le_sub_right horder size))).symm
  · have hpart := min_le_min_right size horder
    have hrest := min_le_min_right rest (Nat.sub_le_sub_right horder size)
    rw [Nat.sub_eq_zero_of_le hpart, Nat.sub_eq_zero_of_le hrest,
      Nat.sub_eq_zero_of_le (Nat.add_le_add hpart hrest)]

end Layer

/-- A period reads each queue by what its parts read. -/
theorem heardCounts_add (loop : Nat) (layers : List Layer) :
    heardCounts spec time loop (size + rest) layers =
      heardCounts spec time loop size layers +
        heardCounts spec (time + size / spec.bytesPerSecond) loop rest layers := by
  induction layers with
  | nil => rfl
  | cons layer others ih =>
    simp only [heardCounts, List.map_cons, List.sum_cons] at ih ⊢
    rw [layer.heard_add time hsize, Pi.single_add, ih]
    exact add_add_add_comm _ _ _ _

end Cut

/-- Bytes laid over two outputs are cut where the first output ends. -/
theorem overlay_decode_append (gain : Float32) (first second : List Float32) (bytes : List UInt8)
    {start all early : Nat} (hstart : Sample.width ∣ start)
    (hearly : min (Sample.width * first.length - start) all = early) :
    overlay gain (first ++ second) (start / Sample.width) (Sample.decode (bytes.take all)) =
      overlay gain first (min start (Sample.width * first.length) / Sample.width)
          (Sample.decode (bytes.take early)) ++
        overlay gain second ((start - Sample.width * first.length) / Sample.width)
          (Sample.decode ((bytes.drop early).take (all - early))) := by
  have hroom : first.length - start / Sample.width =
      (Sample.width * first.length - start) / Sample.width := by
    rw [Sample.width] at hstart ⊢
    omega
  have hbeyond : start / Sample.width - first.length =
      (start - Sample.width * first.length) / Sample.width := by
    rw [Sample.width] at hstart ⊢
    omega
  have hdvd : Sample.width ∣ Sample.width * first.length - start :=
    Nat.dvd_sub (Nat.dvd_mul_right _ _) hstart
  obtain ⟨htake, hdrop⟩ := Sample.decode_cut (bytes.take all) hdvd
  rw [List.take_take, hearly] at htake
  rw [overlay_append, hroom, hbeyond, ← htake, ← hdrop, List.drop_take]
  congr 1
  · rcases Nat.le_total start (Sample.width * first.length) with hle | hle
    · rw [Nat.min_eq_left hle]
    · -- The bytes begin past the first output, which keeps its samples.
      have hnone : early = 0 := by omega
      simp [hnone, Sample.decode]
  · rcases Nat.eq_zero_or_pos (all - early) with hnone | hsome
    · have hall : all - (Sample.width * first.length - start) = 0 := by omega
      rw [hnone, hall, List.take_zero, List.take_zero]
    · have hcut : Sample.width * first.length - start = early := by omega
      rw [hcut]

section Append

variable {spec : AudioSpec} (time : ℚ) (loop : Nat) (store left : LayerStore)
  (first second : List Float32) (hfirst : spec.frameBytes ∣ Sample.width * first.length)
  (hsecond : spec.frameBytes ∣ Sample.width * second.length)

include hfirst hsecond

/-- A layer adds to two parts of an output what it adds to both together, if the second finds the
queue without what the first has read. -/
theorem Layer.mixInto_append (layer : Layer)
    (hleft : left.unread ⟨layer.id, loop⟩ = (store.unread ⟨layer.id, loop⟩).drop
      (layer.heard spec time (Sample.width * first.length))) :
    layer.mixInto spec time loop store (first ++ second) =
      layer.mixInto spec time loop store first ++
        layer.mixInto spec (time + (Sample.width * first.length : Nat) / spec.bytesPerSecond) loop
          left second := by
  have hwhole : spec.frameBytes ∣ Sample.width * first.length + Sample.width * second.length :=
    Nat.dvd_add hfirst hsecond
  have hbegin := spec.width_dvd_frameBytes.trans (layer.frameBytes_dvd_firstByte time hwhole)
  have hmin := layer.min_heard spec time (Sample.width * first.length)
    (Sample.width * second.length)
  have hlate : layer.heard spec (time + (Sample.width * first.length : Nat) / spec.bytesPerSecond)
      (Sample.width * second.length) =
        layer.heard spec time (Sample.width * first.length + Sample.width * second.length) -
          layer.heard spec time (Sample.width * first.length) := by
    rw [layer.heard_add time hfirst, Nat.add_sub_cancel_left]
  obtain ⟨hstart, hrest⟩ := layer.firstByte_add time hfirst (Sample.width * second.length)
  rw [mixInto, mixInto, mixInto, List.length_append, Nat.mul_add, hleft, hstart, hrest, hlate]
  exact overlay_decode_append _ first second _ hbegin hmin

/-- All layers add to two parts of an output what they add to both together. -/
theorem foldl_mixInto_append (layers : List Layer)
    (hleft : ∀ layer ∈ layers, left.unread ⟨layer.id, loop⟩ =
      (store.unread ⟨layer.id, loop⟩).drop
        (layer.heard spec time (Sample.width * first.length))) :
    layers.foldl (Layer.mixInto spec time loop store) (first ++ second) =
      layers.foldl (Layer.mixInto spec time loop store) first ++
        layers.foldl (Layer.mixInto spec
          (time + (Sample.width * first.length : Nat) / spec.bytesPerSecond) loop left) second := by
  induction layers generalizing first second with
  | nil => rfl
  | cons layer others ih =>
    rw [List.foldl_cons, List.foldl_cons, List.foldl_cons,
      layer.mixInto_append time loop store left first second hfirst hsecond
        (hleft layer List.mem_cons_self)]
    have hothers := ih (layer.mixInto spec time loop store first)
      (layer.mixInto spec (time + (Sample.width * first.length : Nat) / spec.bytesPerSecond) loop
        left second)
    simp only [Layer.length_mixInto] at hothers
    exact hothers hfirst hsecond fun other hother ↦ hleft other (List.mem_cons_of_mem _ hother)

end Append

section Periods

variable {spec : AudioSpec} {current : Seconds}

variable (spec) in
theorem length_foldl_mixInto (time : ℚ) (loop : Nat) (store : LayerStore) (layers : List Layer)
    (out : List Float32) :
    (layers.foldl (Layer.mixInto spec time loop store) out).length = out.length := by
  induction layers generalizing out with
  | nil => rfl
  | cons layer rest ih => rw [List.foldl_cons, ih, Layer.length_mixInto]

theorem heardCounts_zero (time : ℚ) (loop : Nat) (layers : List Layer) :
    heardCounts spec time loop 0 layers = 0 := by
  induction layers with
  | nil => rfl
  | cons layer rest ih =>
    have hnone : layer.heard spec time 0 = 0 := by
      rw [Layer.heard, Layer.lastByte, Nat.min_zero, Nat.zero_sub]
    rw [heardCounts_cons, ih, hnone, Pi.single_zero]
    rfl

theorem frameBytes_dvd_flatten {parts : List (List Float32)}
    (h : ∀ part ∈ parts, spec.frameBytes ∣ Sample.width * part.length) :
    spec.frameBytes ∣ Sample.width * parts.flatten.length := by
  induction parts with
  | nil => exact Nat.dvd_zero _
  | cons part rest ih =>
    rw [List.flatten_cons, List.length_append, Nat.mul_add]
    exact Nat.dvd_add (h part List.mem_cons_self)
      (ih fun other hother ↦ h other (List.mem_cons_of_mem _ hother))

/-- A part of an output that begins so many bytes after a time is a period, and its computed
beginning is exact, if both of its ends can be stored. -/
theorem period_of_fits {done size : Nat} (hwhole : spec.frameBytes ∣ size)
    (hmemory : done + size < 2 ^ 63)
    (hstart : Seconds.Fits (current.toRat + done / spec.bytesPerSecond))
    (hnext : Seconds.Fits (current.toRat + (done + size : Nat) / spec.bytesPerSecond)) :
    (current + spec.duration done).toRat = current.toRat + done / spec.bytesPerSecond ∧
      spec.Period (current + spec.duration done) (current + spec.duration (done + size)) size := by
  have hdone := spec.toRat_add_duration (by omega) hstart
  refine ⟨hdone, { whole := hwhole, memory := by omega, next_eq := ?_ }⟩
  rw [hdone, spec.toRat_add_duration hmemory hnext]
  push_cast
  ring

/-- Parts mixed one after the other, in closed form: what mixing them at once would do. -/
theorem mixPeriods_eq {atom : Atom} (hdistinct : (atom.layers.map Layer.id).Nodup) (loop : Nat)
    {store : LayerStore} (hstore : store.Whole) {done : Nat}
    (hstart : Seconds.Fits (current.toRat + done / spec.bytesPerSecond))
    {parts : List (List Float32)}
    (hwhole : ∀ part ∈ parts, spec.frameBytes ∣ Sample.width * part.length)
    (hmemory : done + Sample.width * parts.flatten.length < 2 ^ 63)
    (hfit : PeriodsFit atom.layers current spec done parts) :
    let time := current.toRat + done / spec.bytesPerSecond
    (mixPeriods atom current loop spec store done parts).1.flatten =
        atom.layers.foldl (Layer.mixInto spec time loop store) parts.flatten ∧
      (mixPeriods atom current loop spec store done parts).2 =
        store.read (heardCounts spec time loop (Sample.width * parts.flatten.length)
          atom.layers) := by
  induction parts generalizing store done with
  | nil =>
    intro time
    have hsilent := length_foldl_mixInto spec time loop store atom.layers []
    rw [List.flatten_nil, List.eq_nil_of_length_eq_zero hsilent, List.length_nil, Nat.mul_zero,
      heardCounts_zero, LayerStore.read_zero]
    exact ⟨rfl, rfl⟩
  | cons part rest ih =>
    intro time
    obtain ⟨hnext, hbounds, hrest⟩ := hfit
    rw [List.flatten_cons, List.length_append, Nat.mul_add, ← Nat.add_assoc] at hmemory
    have hpart := hwhole part List.mem_cons_self
    have hothers := fun other hother ↦ hwhole other (List.mem_cons_of_mem _ hother)
    obtain ⟨hdone, hperiod⟩ := period_of_fits hpart (by omega) hstart hnext
    have hlater : current.toRat + (done + Sample.width * part.length : Nat) /
        spec.bytesPerSecond =
          time + (Sample.width * part.length : Nat) / spec.bytesPerSecond := by
      push_cast
      ring
    have hmix := mixFrame_eq hstore hperiod hdistinct hbounds loop
    have hleft := hstore.read (width_dvd_heardCounts spec time loop hpart atom.layers)
    obtain ⟨houts, hlast⟩ := ih hleft hnext hothers hmemory hrest
    rw [hdone] at hmix
    rw [hlater] at houts hlast
    rw [mixPeriods, hmix, List.flatten_cons, List.flatten_cons, houts, hlast,
      List.length_append, Nat.mul_add, heardCounts_add time hpart, LayerStore.read_add,
      foldl_mixInto_append time loop store _ part rest.flatten hpart
        (frameBytes_dvd_flatten hothers) atom.layers fun layer hlayer ↦ ?_]
    · exact ⟨rfl, rfl⟩
    · rw [LayerStore.unread_read, heardCounts_of_mem spec time loop _ hdistinct hlayer]

/-- However an output is cut into periods of whole frames, each sample, each queue and each cursor
ends up as if it had been mixed at once. Assumes: different layers have different names, the output
fits in memory, and the times and distances that are computed, cut or uncut, can be stored. -/
theorem mixPeriods_eq_mixFrame {atom : Atom} (hdistinct : (atom.layers.map Layer.id).Nodup)
    (loop : Nat) {store : LayerStore} (hstore : store.Reached) {parts : List (List Float32)}
    (hwhole : ∀ part ∈ parts, spec.frameBytes ∣ Sample.width * part.length)
    (hmemory : Sample.width * parts.flatten.length < 2 ^ 63)
    (hcut : PeriodsFit atom.layers current spec 0 parts)
    (huncut : PeriodsFit atom.layers current spec 0 [parts.flatten]) :
    let mix := mixFrame store parts.flatten atom current
      (current + spec.duration (Sample.width * parts.flatten.length)) loop spec
    (mixPeriods atom current loop spec store 0 parts).1.flatten = mix.out ∧
      (mixPeriods atom current loop spec store 0 parts).2 = mix.store := by
  intro mix
  have hstart : Seconds.Fits (current.toRat + (0 : Nat) / spec.bytesPerSecond) := by
    rw [Nat.cast_zero, zero_div, add_zero]
    exact current.fits
  have hall : ∀ part ∈ [parts.flatten], spec.frameBytes ∣ Sample.width * part.length := by
    intro part hpart
    rw [List.mem_singleton.mp hpart]
    exact frameBytes_dvd_flatten hwhole
  have hone : mixPeriods atom current loop spec store 0 [parts.flatten] =
      ([mix.out], mix.store) := by
    simp only [mixPeriods, AudioSpec.duration_zero, Seconds.add_zero, Nat.zero_add]
    rfl
  obtain ⟨houts, hlast⟩ := mixPeriods_eq hdistinct loop hstore.whole hstart hwhole
    (by omega) hcut
  obtain ⟨hout, hleft⟩ := mixPeriods_eq hdistinct loop hstore.whole hstart hall
    (by simpa using hmemory) huncut
  simp only [hone, List.flatten_singleton] at hout hleft
  exact ⟨houts.trans hout.symm, hlast.trans hleft.symm⟩

end Periods

/-- A layer that starts and stops inside a frame, at two frames a second. -/
def Atom.offbeat : Atom :=
  ⟨.ofInt 0, .ofInt 4, [⟨.ofNat 1, .ofMillis 750, .ofMillis 2600, 1⟩]⟩

/-- Two frames a second in one channel. -/
def AudioSpec.twoHertz : AudioSpec :=
  { oneHertz with rate := 2, rate_ne := by decide }

/-- Two chunks of three and two frames for the offbeat layer. -/
def LayerStore.offbeat : LayerStore :=
  (LayerStore.empty.push ⟨.ofNat 1, 0⟩ ⟨.ofMillis 750, List.replicate 12 1⟩).push
    ⟨.ofNat 1, 0⟩ ⟨.ofMillis 2250, List.replicate 8 2⟩

theorem LayerStore.reached_offbeat : LayerStore.offbeat.Reached :=
  (Reached.empty.push _ _ (by decide)).push _ _ (by decide)

/-- Silence of three frames and of four. -/
def offbeatParts : List (List Float32) :=
  [List.replicate 3 0, List.replicate 4 0]

/-- Three frames and then four are seven frames, though the layer begins in the first three and
ends, and a chunk with it, in the last four. -/
theorem mixPeriods_eq_mixFrame_offbeat :
    ((Atom.offbeat.layers.map Layer.id).Nodup ∧ LayerStore.offbeat.Reached ∧
      (∀ part ∈ offbeatParts, AudioSpec.twoHertz.frameBytes ∣ Sample.width * part.length) ∧
      Sample.width * offbeatParts.flatten.length < 2 ^ 63 ∧
      PeriodsFit Atom.offbeat.layers 0 .twoHertz 0 offbeatParts ∧
      PeriodsFit Atom.offbeat.layers 0 .twoHertz 0 [offbeatParts.flatten]) ∧
    let mix := mixFrame .offbeat offbeatParts.flatten .offbeat 0
      (0 + AudioSpec.twoHertz.duration (Sample.width * offbeatParts.flatten.length)) 0 .twoHertz
    (mixPeriods .offbeat 0 0 .twoHertz .offbeat 0 offbeatParts).1.flatten = mix.out ∧
      (mixPeriods .offbeat 0 0 .twoHertz .offbeat 0 offbeatParts).2 = mix.store := by
  have hdistinct : (Atom.offbeat.layers.map Layer.id).Nodup := by decide +kernel
  have hwhole : ∀ part ∈ offbeatParts,
      AudioSpec.twoHertz.frameBytes ∣ Sample.width * part.length := by
    simp [offbeatParts, Sample.width, AudioSpec.frameBytes, AudioSpec.twoHertz, AudioSpec.oneHertz,
      SampleFormat.bytes]
  have hmemory : Sample.width * offbeatParts.flatten.length < 2 ^ 63 := by decide
  have hcut : PeriodsFit Atom.offbeat.layers 0 .twoHertz 0 offbeatParts := by decide +kernel
  have huncut : PeriodsFit Atom.offbeat.layers 0 .twoHertz 0 [offbeatParts.flatten] := by
    decide +kernel
  exact ⟨⟨hdistinct, LayerStore.reached_offbeat, hwhole, hmemory, hcut, huncut⟩,
    mixPeriods_eq_mixFrame hdistinct 0 LayerStore.reached_offbeat hwhole hmemory hcut huncut⟩

end TimelineMixer
