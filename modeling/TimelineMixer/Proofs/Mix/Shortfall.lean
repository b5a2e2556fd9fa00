import Mathlib.Algebra.BigOperators.Ring.List
import Mathlib.Algebra.Order.Floor.Ring
import TimelineMixer.Proofs.Mix.Cuts
import TimelineMixer.Proofs.Producer.FrameCount
import TimelineMixer.Proofs.Queue.Chunks

/-!
# What a layer is asked for, and what is made of it

The mixer rounds both bounds of a layer down to frames, a producer rounds the distance between them.
In any cut of the output into periods a layer that ends inside is asked for the frames between its
rounded bounds (`askedIn_eq`), and this is one frame more than is made of it if the start lies
further into its frame than the end into its own (`wholeBytes_stop`). As long as nothing is missing
before the producer is done, the missing frame is noticed in one period, and in none if there is no
missing frame (`starvedIn_eq`).
-/

set_option autoImplicit false
set_option relaxedAutoImplicit false

namespace TimelineMixer

open ToneProducer

/-- Rounding down two numbers and rounding down their distance differ by one or not at all. -/
theorem floor_eq_floor_add {a b : ℚ} (hnonneg : 0 ≤ a) (hle : a ≤ b) :
    ⌊b⌋₊ = ⌊a⌋₊ + (⌊b - a⌋₊ + if Int.fract a ≤ Int.fract b then 0 else 1) := by
  have hfractA := Int.fract_nonneg a
  have hfractB := Int.fract_lt_one b
  have hsplitA := Int.floor_add_fract a
  have hsplitB := Int.floor_add_fract b
  have hdistance : ⌊b - a⌋ = ⌊b⌋ - ⌊a⌋ - if Int.fract a ≤ Int.fract b then 0 else 1 := by
    rw [Int.floor_eq_iff]
    split_ifs with hfract
    · push_cast
      constructor <;> linarith
    · have := Int.fract_lt_one a
      have := Int.fract_nonneg b
      push_cast
      constructor <;> linarith
  have hfloorA : ((⌊a⌋₊ : Nat) : ℤ) = ⌊a⌋ := Int.natCast_floor_eq_floor hnonneg
  have hfloorB : ((⌊b⌋₊ : Nat) : ℤ) = ⌊b⌋ := Int.natCast_floor_eq_floor (hnonneg.trans hle)
  have hfloor : ((⌊b - a⌋₊ : Nat) : ℤ) = ⌊b - a⌋ := Int.natCast_floor_eq_floor (sub_nonneg.mpr hle)
  split_ifs at hdistance ⊢ <;> omega

namespace Layer

/-- Frames that a layer is asked for beyond those between its bounds: one if it starts further into
a frame than it ends. -/
def overhang (spec : AudioSpec) (layer : Layer) : Nat :=
  if Int.fract (layer.start.toRat * spec.rate.toNat) ≤
    Int.fract (layer.stop.toRat * spec.rate.toNat) then 0 else 1

theorem overhang_le_one (spec : AudioSpec) (layer : Layer) : layer.overhang spec ≤ 1 := by
  rw [overhang]
  split_ifs <;> omega

/-- The bytes before the end of a layer are those before its start, those of the distance, and the
overhang. -/
theorem wholeBytes_stop (spec : AudioSpec) {layer : Layer} (hstart : 0 ≤ layer.start)
    (horder : layer.start ≤ layer.stop) :
    spec.wholeBytes layer.stop.toRat = spec.wholeBytes layer.start.toRat +
      (spec.wholeBytes (layer.stop.toRat - layer.start.toRat) +
        layer.overhang spec * spec.frameBytes) := by
  have hnonneg : 0 ≤ layer.start.toRat := by
    rw [← Seconds.toRat_zero]
    exact hstart
  have hrate := spec.rate_cast_pos.le
  have hfloor := floor_eq_floor_add (mul_nonneg hnonneg hrate)
    (mul_le_mul_of_nonneg_right (Seconds.le_def.mp horder) hrate)
  rw [← sub_mul] at hfloor
  rw [AudioSpec.wholeBytes, hfloor, AudioSpec.wholeBytes, AudioSpec.wholeBytes, overhang]
  ring

/-- Bytes that the region of a layer has in a period. It has none in a period that it does not
overlap. -/
def asked (spec : AudioSpec) (current next : Seconds) (size : Nat) (layer : Layer) : Nat :=
  if layer.overlaps current next then
    (layer.region spec current next size).2 - (layer.region spec current next size).1
  else 0

theorem asked_eq_heard {spec : AudioSpec} {current next : Seconds} {size : Nat} {layer : Layer}
    (h : spec.Period current next size) (hfit : layer.BoundsFit current next) :
    layer.asked spec current next size = layer.heard spec current.toRat size := by
  rw [asked]
  split_ifs with hoverlaps
  · rw [region_eq h hfit hoverlaps, heard]
  · exact (heard_of_not_overlaps h hoverlaps).symm

/-- What a layer is asked for in the parts of an output that begins so many bytes after a time. -/
def askedIn (current : Seconds) (spec : AudioSpec) (layer : Layer) :
    Nat → List (List Float32) → Nat
  | _, [] => 0
  | done, part :: rest =>
    let next := done + Sample.width * part.length
    layer.asked spec (current + spec.duration done) (current + spec.duration next)
      (Sample.width * part.length) + askedIn current spec layer next rest

section Cut

variable {spec : AudioSpec} {current : Seconds} {layers : List Layer} {layer : Layer}

/-- However an output is cut, a layer is asked for as much as is heard of it in the whole. -/
theorem askedIn_eq_heard (hlayer : layer ∈ layers) {done : Nat}
    (hstart : Seconds.Fits (current.toRat + done / spec.bytesPerSecond))
    {parts : List (List Float32)}
    (hwhole : ∀ part ∈ parts, spec.frameBytes ∣ Sample.width * part.length)
    (hmemory : done + Sample.width * parts.flatten.length < 2 ^ 63)
    (hfit : PeriodsFit layers current spec done parts) :
    layer.askedIn current spec done parts =
      layer.heard spec (current.toRat + done / spec.bytesPerSecond)
        (Sample.width * parts.flatten.length) := by
  induction parts generalizing done with
  | nil =>
    rw [askedIn, List.flatten_nil, List.length_nil, Nat.mul_zero, heard, lastByte, Nat.min_zero,
      Nat.zero_sub]
  | cons part rest ih =>
    obtain ⟨hnext, hbounds, hrest⟩ := hfit
    rw [List.flatten_cons, List.length_append, Nat.mul_add, ← Nat.add_assoc] at hmemory
    have hpart := hwhole part List.mem_cons_self
    obtain ⟨hdone, hperiod⟩ := period_of_fits hpart (by omega) hstart hnext
    have hlater : current.toRat + (done + Sample.width * part.length : Nat) /
        spec.bytesPerSecond = current.toRat + done / spec.bytesPerSecond +
          (Sample.width * part.length : Nat) / spec.bytesPerSecond := by
      push_cast
      ring
    rw [askedIn, asked_eq_heard hperiod (hbounds layer hlayer), hdone,
      ih hnext (fun other hother ↦ hwhole other (List.mem_cons_of_mem _ hother)) hmemory hrest,
      hlater, List.flatten_cons, List.length_append, Nat.mul_add, layer.heard_add _ hpart]

/-- In any cut of an output from time zero on that lasts until a layer ends, the layer is asked for
the frames between its bounds and the overhang. -/
theorem askedIn_eq (hlayer : layer ∈ layers) (hstart : 0 ≤ layer.start)
    (horder : layer.start ≤ layer.stop) {parts : List (List Float32)}
    (hwhole : ∀ part ∈ parts, spec.frameBytes ∣ Sample.width * part.length)
    (hmemory : Sample.width * parts.flatten.length < 2 ^ 63)
    (hfit : PeriodsFit layers 0 spec 0 parts)
    (hlasts : layer.stop.toRat ≤ (Sample.width * parts.flatten.length : Nat) /
      spec.bytesPerSecond) :
    layer.askedIn 0 spec 0 parts = spec.wholeBytes (layer.stop.toRat - layer.start.toRat) +
      layer.overhang spec * spec.frameBytes := by
  have hzero : (0 : Seconds).toRat + (0 : Nat) / spec.bytesPerSecond = 0 := by simp
  have hall := frameBytes_dvd_flatten hwhole
  have hend : spec.wholeBytes layer.stop.toRat ≤ Sample.width * parts.flatten.length := by
    rw [← spec.wholeBytes_div hall]
    exact Nat.mul_le_mul_right _ (Nat.floor_le_floor
      (mul_le_mul_of_nonneg_right hlasts spec.rate_cast_pos.le))
  have hbounds := layer.wholeBytes_stop spec hstart horder
  rw [askedIn_eq_heard hlayer (by rw [hzero]; decide) hwhole (by omega) hfit, hzero, heard,
    lastByte, firstByte, sub_zero, sub_zero]
  omega

end Cut

end Layer

/-! ### Starving -/

/-- A period, with what is queued right before it. -/
structure Feed where
  entries : List (QueueKey × Chunk)
  out : List Float32

namespace Feed

section Run

variable (atom : Atom) (current : Seconds) (loop : Nat) (spec : AudioSpec) (layer : Layer)

/-- Queues and mixes a period that begins so many bytes after a time. -/
def mix (store : LayerStore) (done : Nat) (feed : Feed) : FrameMix :=
  mixFrame (store.pushAll feed.entries) feed.out atom (current + spec.duration done)
    (current + spec.duration (done + Sample.width * feed.out.length)) loop spec

/-- In how many periods the queue of a layer is too short for it. -/
def starvedIn : LayerStore → Nat → List Feed → Nat
  | _, _, [] => 0
  | store, done, feed :: rest =>
    let next := done + Sample.width * feed.out.length
    let before : FrameMix := ⟨feed.out, store.pushAll feed.entries, 0, 0, 0⟩
    (mixLayer spec (current + spec.duration done) (current + spec.duration next) loop before
        layer).starved +
      starvedIn (feed.mix atom current loop spec store done).store next rest

/-- As long as more of a layer is to be queued, a period finds what the layer is asked for. -/
def KeepsUp : LayerStore → Nat → List Feed → Prop
  | _, _, [] => True
  | store, done, feed :: rest =>
    let next := done + Sample.width * feed.out.length
    ((∃ later ∈ rest, chunksFor ⟨layer.id, loop⟩ later.entries ≠ []) →
        layer.asked spec (current + spec.duration done) (current + spec.duration next)
          (Sample.width * feed.out.length) ≤
            ((store.pushAll feed.entries).unread ⟨layer.id, loop⟩).length) ∧
      KeepsUp (feed.mix atom current loop spec store done).store next rest

instance KeepsUp.decidable : ∀ store done feeds,
    Decidable (KeepsUp atom current loop spec layer store done feeds)
  | _, _, [] => isTrue trivial
  | store, done, feed :: rest =>
    have := KeepsUp.decidable (feed.mix atom current loop spec store done).store
      (done + Sample.width * feed.out.length) rest
    inferInstanceAs (Decidable ((_ → _) ∧ _))

end Run

/-- Bytes that are queued for a key. -/
def supply (key : QueueKey) (feeds : List Feed) : Nat :=
  ((chunksFor key (feeds.flatMap entries)).flatMap Chunk.data).length

theorem supply_cons (key : QueueKey) (feed : Feed) (rest : List Feed) :
    supply key (feed :: rest) =
      ((chunksFor key feed.entries).flatMap Chunk.data).length + supply key rest := by
  rw [supply, List.flatMap_cons, chunksFor_append, List.flatMap_append, List.length_append, supply]

theorem dvd_length_chunksFor {size : Nat} {entries : List (QueueKey × Chunk)}
    (h : ∀ entry ∈ entries, size ∣ entry.2.size) (key : QueueKey) :
    size ∣ ((chunksFor key entries).flatMap Chunk.data).length := by
  rw [List.length_flatMap]
  refine List.dvd_sum fun count hcount ↦ ?_
  obtain ⟨chunk, hchunk, rfl⟩ := List.mem_map.mp hcount
  obtain ⟨entry, hentry, rfl⟩ := List.mem_map.mp hchunk
  exact h entry (List.mem_filter.mp hentry).1

theorem exists_of_supply_ne_zero {key : QueueKey} {feeds : List Feed} (h : supply key feeds ≠ 0) :
    ∃ feed ∈ feeds, chunksFor key feed.entries ≠ [] := by
  by_contra hnone
  push Not at hnone
  induction feeds with
  | nil => exact h rfl
  | cons feed rest ih =>
    rw [supply_cons, hnone feed List.mem_cons_self] at h
    exact ih (by simpa using h) fun other hother ↦ hnone other (List.mem_cons_of_mem _ hother)

/-- A layer starves in a period if its queue has less than is heard of it. -/
theorem starved_mixLayer (loop : Nat) {spec : AudioSpec} {current next : Seconds}
    {out : List Float32} (h : spec.Period current next (Sample.width * out.length))
    {store : LayerStore} (hstore : store.Whole) {layer : Layer}
    (hfit : layer.BoundsFit current next) :
    (mixLayer spec current next loop ⟨out, store, 0, 0, 0⟩ layer).starved =
      if (store.unread ⟨layer.id, loop⟩).length <
        layer.heard spec current.toRat (Sample.width * out.length) then 1 else 0 := by
  rw [mixLayer_eq h rfl hstore hfit]
  simp [Layer.starves]

/-- One period of a layer that is asked for at most a frame more than there is: if the queue is too
short for it, the frame is missing here, and nothing is asked for afterwards. -/
theorem short_add_short {frame unread asked later supply : Nat} (hunread : frame ∣ unread)
    (hasked : frame ∣ asked) (hkeeps : supply ≠ 0 → asked ≤ unread)
    (hroom : asked + later ≤ unread + supply + frame) :
    later ≤ unread - asked + supply + frame ∧
      (if unread < asked then 1 else 0) + (if later ≤ unread - asked + supply then 0 else 1) =
        if asked + later ≤ unread + supply then 0 else 1 := by
  rcases Nat.lt_or_ge unread asked with hshort | henough
  · have hlast : supply = 0 := by
      by_contra hmore
      exact absurd hshort (not_lt.mpr (hkeeps hmore))
    have hframe : frame ≤ asked - unread :=
      Nat.le_of_dvd (by omega) (Nat.dvd_sub hasked hunread)
    split_ifs <;> omega
  · split_ifs <;> omega

section Starved

variable (loop : Nat) {atom : Atom} {current : Seconds} {spec : AudioSpec} {layer : Layer}
  {store : LayerStore} {done : Nat} {feed : Feed}
  (hdistinct : (atom.layers.map Layer.id).Nodup) (hlayer : layer ∈ atom.layers)
  (hstore : store.Whole) (hentries : ∀ entry ∈ feed.entries, spec.frameBytes ∣ entry.2.size)

include hstore hentries

/-- Chunks of whole frames are appended to what is unread of their key. -/
theorem whole_pushAll : (store.pushAll feed.entries).Whole ∧ ∀ key,
    (store.pushAll feed.entries).unread key =
      store.unread key ++ (chunksFor key feed.entries).flatMap Chunk.data :=
  hstore.pushAll fun entry hentry ↦ spec.width_dvd_frameBytes.trans (hentries entry hentry)

include hdistinct hlayer

/-- What a period leaves of the queue of a layer. -/
theorem unread_mix (hperiod : spec.Period (current + spec.duration done)
      (current + spec.duration (done + Sample.width * feed.out.length))
      (Sample.width * feed.out.length))
    (hbounds : ∀ layer ∈ atom.layers, layer.BoundsFit (current + spec.duration done)
      (current + spec.duration (done + Sample.width * feed.out.length))) :
    (feed.mix atom current loop spec store done).store.Whole ∧
      (feed.mix atom current loop spec store done).store.unread ⟨layer.id, loop⟩ =
        ((store.pushAll feed.entries).unread ⟨layer.id, loop⟩).drop
          (layer.heard spec (current + spec.duration done).toRat
            (Sample.width * feed.out.length)) := by
  have hfilled := (whole_pushAll hstore hentries).1
  have hmix := mixFrame_eq hfilled hperiod hdistinct hbounds loop
  rw [mix, hmix, LayerStore.unread_read, heardCounts_of_mem spec _ loop _ hdistinct hlayer]
  exact ⟨hfilled.read (width_dvd_heardCounts spec _ loop hperiod.whole atom.layers), rfl⟩

end Starved

variable {atom : Atom} {current : Seconds} {loop : Nat} {spec : AudioSpec} {layer : Layer}

/-- If a layer is asked for at most a frame more than there is of it, and only the last of it can be
missing, then it starves once or, if there is enough, never. -/
theorem starvedIn_eq (hdistinct : (atom.layers.map Layer.id).Nodup) (hlayer : layer ∈ atom.layers)
    {store : LayerStore} (hstore : store.Whole)
    (hunread : spec.frameBytes ∣ (store.unread ⟨layer.id, loop⟩).length) {done : Nat}
    (hstart : Seconds.Fits (current.toRat + done / spec.bytesPerSecond)) {feeds : List Feed}
    (hentries : ∀ feed ∈ feeds, ∀ entry ∈ feed.entries, spec.frameBytes ∣ entry.2.size)
    (hwhole : ∀ part ∈ feeds.map out, spec.frameBytes ∣ Sample.width * part.length)
    (hmemory : done + Sample.width * (feeds.map out).flatten.length < 2 ^ 63)
    (hfit : PeriodsFit atom.layers current spec done (feeds.map out))
    (hkeeps : KeepsUp atom current loop spec layer store done feeds)
    (hasked : layer.askedIn current spec done (feeds.map out) ≤
      (store.unread ⟨layer.id, loop⟩).length + supply ⟨layer.id, loop⟩ feeds + spec.frameBytes) :
    starvedIn atom current loop spec layer store done feeds =
      if layer.askedIn current spec done (feeds.map out) ≤
        (store.unread ⟨layer.id, loop⟩).length + supply ⟨layer.id, loop⟩ feeds then 0 else 1 := by
  induction feeds generalizing store done with
  | nil => simp [starvedIn, Layer.askedIn]
  | cons feed rest ih =>
    obtain ⟨hnext, hbounds, hrest⟩ := hfit
    obtain ⟨hhere, hlater⟩ := hkeeps
    rw [List.map_cons, List.flatten_cons, List.length_append, Nat.mul_add, ← Nat.add_assoc]
      at hmemory
    have hpart := hwhole feed.out List.mem_cons_self
    have hchunks := hentries feed List.mem_cons_self
    have hothers := fun other hother ↦ hentries other (List.mem_cons_of_mem _ hother)
    have hparts := fun other hother ↦ hwhole other (List.mem_cons_of_mem _ hother)
    obtain ⟨-, hperiod⟩ := period_of_fits hpart (by omega) hstart hnext
    obtain ⟨hfilled, hqueue⟩ := whole_pushAll hstore hchunks
    obtain ⟨hleft, hdrop⟩ :=
      unread_mix loop hdistinct hlayer hstore hchunks hperiod hbounds
    have hheard := Layer.asked_eq_heard hperiod (hbounds layer hlayer)
    have hstarved := starved_mixLayer loop hperiod hfilled (hbounds layer hlayer)
    have hqueued := congrArg List.length (hqueue ⟨layer.id, loop⟩)
    have hremains := congrArg List.length hdrop
    have hstored : spec.frameBytes ∣
        ((store.pushAll feed.entries).unread ⟨layer.id, loop⟩).length := by
      rw [hqueued, List.length_append]
      exact Nat.dvd_add hunread (dvd_length_chunksFor hchunks _)
    have hwhole := layer.frameBytes_dvd_heard (current + spec.duration done).toRat hpart
    rw [List.length_append] at hqueued
    rw [List.length_drop] at hremains
    rw [List.map_cons, Layer.askedIn, hheard, supply_cons, ← Nat.add_assoc, ← hqueued] at hasked ⊢
    rw [hheard] at hhere
    obtain ⟨hroom, hsum⟩ := short_add_short hstored hwhole
      (fun hmore ↦ hhere (exists_of_supply_ne_zero hmore)) hasked
    rw [← hremains] at hroom hsum
    rw [starvedIn, hstarved, ih hleft (hremains ▸ Nat.dvd_sub hstored hwhole) hnext hothers hparts
      hmemory hrest hlater hroom, ← hsum]

end Feed

/-! ### A producer and the mixer -/

namespace ToneProducer

/-- Fills for decks, and the output of the period that comes after them. -/
structure Cycle where
  decks : List Deck
  out : List Float32

/-- The periods of cycles, with what the producer queues before each. -/
def feeds : ToneProducer → List Cycle → List Feed
  | _, [] => []
  | producer, cycle :: rest =>
    ⟨producer.planned cycle.decks, cycle.out⟩ :: feeds (producer.planAll cycle.decks) rest

section Cycles

variable (producer : ToneProducer) (cycles : List Cycle)

theorem map_out_feeds : (producer.feeds cycles).map Feed.out = cycles.map Cycle.out := by
  induction cycles generalizing producer with
  | nil => rfl
  | cons cycle rest ih => rw [feeds, List.map_cons, List.map_cons, ih]

/-- What is queued before the periods is what is planned for all decks. -/
theorem flatMap_entries_feeds : (producer.feeds cycles).flatMap Feed.entries =
    producer.planned (cycles.flatMap Cycle.decks) := by
  induction cycles generalizing producer with
  | nil => rfl
  | cons cycle rest ih =>
    rw [feeds, List.flatMap_cons, List.flatMap_cons, ih]
    exact (gather_append _ _ producer cycle.decks _).symm

theorem size_of_mem_feeds {spec : AudioSpec}
    (hspec : ∀ deck ∈ cycles.flatMap Cycle.decks, deck.spec = spec) {feed : Feed}
    (hfeed : feed ∈ producer.feeds cycles) {entry : QueueKey × Chunk}
    (hentry : entry ∈ feed.entries) : spec.frameBytes ∣ entry.2.size := by
  have hplanned : entry ∈ producer.planned (cycles.flatMap Cycle.decks) := by
    rw [← flatMap_entries_feeds]
    exact List.mem_flatMap.mpr ⟨feed, hfeed, hentry⟩
  obtain ⟨before, deck, hinitial, hmade⟩ := (mem_gather _).mp hplanned
  rw [← hspec deck (hinitial.subset (by simp))]
  exact (size_of_mem_plan hmade).2

end Cycles

/-- A layer is played in one pass from its start to its end: however the fills and the periods are
spread, and however the chunks are cut, the producer makes the frames of the distance between the
bounds, and the mixer asks for these and the overhang. A producer that keeps up leaves the layer
short in as many periods as there are frames in the overhang: in none or one. Assumes: the layer has
one span, different layers of the atom have different names, the output lasts until the layer ends
and fits in memory, and the times and distances that are computed can be stored. -/
theorem asked_eq_planned_add_overhang {timeline : Timeline} {spec : AudioSpec} {loop : Nat}
    {atom : Atom} {layer : Layer} (hatom : atom ∈ timeline.atoms) (hlayer : layer ∈ atom.layers)
    (hspan : timeline.OneSpan) (hdistinct : (atom.layers.map Layer.id).Nodup)
    (hstart : 0 ≤ layer.start) {producer : ToneProducer} (hframes : 0 < producer.chunkFrames)
    (hfresh : producer.positions.lookup ⟨layer.id, loop⟩ = none) {cycles : List Cycle}
    (hshows : ∀ deck ∈ cycles.flatMap Cycle.decks, Shows deck timeline loop spec)
    (hplays : PlaysThrough layer loop producer (cycles.flatMap Cycle.decks))
    (hplans : PlansFit layer loop producer (cycles.flatMap Cycle.decks))
    (hwhole : ∀ cycle ∈ cycles, spec.frameBytes ∣ Sample.width * cycle.out.length)
    (hmemory : Sample.width * (cycles.map Cycle.out).flatten.length < 2 ^ 63)
    (hlasts : layer.stop.toRat ≤ (Sample.width * (cycles.map Cycle.out).flatten.length : Nat) /
      spec.bytesPerSecond)
    (hperiods : PeriodsFit atom.layers 0 spec 0 (cycles.map Cycle.out)) {store : LayerStore}
    (hstore : store.Whole) (hempty : store.unread ⟨layer.id, loop⟩ = [])
    (hkeeps : Feed.KeepsUp atom 0 loop spec layer store 0 (producer.feeds cycles)) :
    let made := producer.plannedBytes ⟨layer.id, loop⟩ (cycles.flatMap Cycle.decks)
    let asked := layer.askedIn 0 spec 0 (cycles.map Cycle.out)
    made = spec.wholeBytes (layer.stop.toRat - layer.start.toRat) ∧
      asked = made + layer.overhang spec * spec.frameBytes ∧
      Feed.starvedIn atom 0 loop spec layer store 0 (producer.feeds cycles) =
        layer.overhang spec := by
  intro made asked
  have horder : layer.start ≤ layer.stop := (timeline.ordered atom hatom).2 layer hlayer
  have hmade : made = spec.wholeBytes (layer.stop.toRat - layer.start.toRat) :=
    plannedBytes_eq hframes hspan (List.mem_flatMap.mpr ⟨atom, hatom, hlayer⟩) hstart horder hshows
      hfresh hplays hplans
  have hparts : ∀ part ∈ cycles.map Cycle.out, spec.frameBytes ∣ Sample.width * part.length := by
    intro part hpart
    obtain ⟨cycle, hcycle, rfl⟩ := List.mem_map.mp hpart
    exact hwhole cycle hcycle
  have hasked : asked = made + layer.overhang spec * spec.frameBytes := by
    rw [hmade]
    exact Layer.askedIn_eq hlayer hstart horder hparts hmemory hperiods hlasts
  have hsupply : Feed.supply ⟨layer.id, loop⟩ (producer.feeds cycles) = made := by
    rw [Feed.supply, flatMap_entries_feeds]
    rfl
  refine ⟨hmade, hasked, ?_⟩
  have hout := producer.map_out_feeds cycles
  rw [← hout] at hparts hmemory hperiods
  have hnone : (store.unread ⟨layer.id, loop⟩).length = 0 := by rw [hempty, List.length_nil]
  have hbegin : Seconds.Fits ((0 : Seconds).toRat + (0 : Nat) / spec.bytesPerSecond) := by
    rw [Nat.cast_zero, zero_div, add_zero]
    exact (0 : Seconds).fits
  have hframe := spec.frameBytes_pos
  have hroom : layer.overhang spec * spec.frameBytes ≤ spec.frameBytes :=
    mul_le_of_le_one_left (Nat.zero_le _) (layer.overhang_le_one spec)
  have hstarved := Feed.starvedIn_eq hdistinct hlayer hstore (hnone ▸ Nat.dvd_zero _) hbegin
    (fun feed hfeed _ ↦ size_of_mem_feeds producer cycles (fun deck hdeck ↦ (hshows deck hdeck).3)
      hfeed) hparts (by omega) hperiods hkeeps (by rw [hout, hnone, hsupply]; omega)
  rw [hstarved, hout, hnone, hsupply, Nat.zero_add]
  change (if asked ≤ made then 0 else 1) = _
  rcases Nat.le_one_iff_eq_zero_or_eq_one.mp (layer.overhang_le_one spec) with hover | hover
  · rw [hover, Nat.zero_mul] at hasked
    rw [if_pos (by omega), hover]
  · rw [hover, Nat.one_mul] at hasked
    rw [if_neg (by omega), hover]

/-- The offbeat layer alone. -/
def offbeatTimeline : Timeline :=
  ⟨[.offbeat], by decide +kernel⟩

/-- A fill before three frames, and one before the next four. -/
def offbeatCycles : List Cycle :=
  [⟨[deckAt .twoHertz offbeatTimeline 0], List.replicate 3 0⟩,
    ⟨[deckAt .twoHertz offbeatTimeline (.ofMillis 1500)], List.replicate 4 0⟩]

/-- Three frames are made of the offbeat layer and four are asked for, so it starves at its end. -/
theorem asked_eq_planned_add_overhang_offbeat :
    ∃ layer ∈ Atom.offbeat.layers,
      let producer : ToneProducer := .new (.ofInt 2) 2
      let decks := offbeatCycles.flatMap Cycle.decks
      (0 ≤ layer.start ∧ PlaysThrough layer 0 producer decks ∧ PlansFit layer 0 producer decks ∧
        PeriodsFit Atom.offbeat.layers 0 .twoHertz 0 (offbeatCycles.map Cycle.out) ∧
        Feed.KeepsUp .offbeat 0 0 .twoHertz layer .empty 0 (producer.feeds offbeatCycles)) ∧
      layer.overhang .twoHertz = 1 ∧
      let made := producer.plannedBytes ⟨layer.id, 0⟩ decks
      made = AudioSpec.twoHertz.wholeBytes (layer.stop.toRat - layer.start.toRat) ∧
        layer.askedIn 0 .twoHertz 0 (offbeatCycles.map Cycle.out) =
          made + layer.overhang .twoHertz * AudioSpec.twoHertz.frameBytes ∧
        Feed.starvedIn .offbeat 0 0 .twoHertz layer .empty 0 (producer.feeds offbeatCycles) =
          layer.overhang .twoHertz := by
  refine ⟨⟨.ofNat 1, .ofMillis 750, .ofMillis 2600, 1⟩, List.mem_cons_self, ?_⟩
  intro producer decks
  have hstart : 0 ≤ Seconds.ofMillis 750 := by decide +kernel
  have hplays : PlaysThrough ⟨.ofNat 1, .ofMillis 750, .ofMillis 2600, 1⟩ 0 producer decks := by
    decide +kernel
  have hplans : PlansFit ⟨.ofNat 1, .ofMillis 750, .ofMillis 2600, 1⟩ 0 producer decks := by
    decide +kernel
  have hperiods : PeriodsFit Atom.offbeat.layers 0 .twoHertz 0 (offbeatCycles.map Cycle.out) := by
    decide +kernel
  have hkeeps : Feed.KeepsUp .offbeat 0 0 .twoHertz ⟨.ofNat 1, .ofMillis 750, .ofMillis 2600, 1⟩
      .empty 0 (producer.feeds offbeatCycles) := by
    decide +kernel
  have hshows : ∀ deck ∈ decks, Shows deck offbeatTimeline 0 .twoHertz := by
    intro deck hdeck
    obtain rfl | rfl : deck = deckAt .twoHertz offbeatTimeline 0 ∨
        deck = deckAt .twoHertz offbeatTimeline (.ofMillis 1500) := by
      simpa [decks, offbeatCycles] using hdeck
    · exact shows_deckAt _ _ _
    · exact shows_deckAt _ _ _
  have hatom : Atom.offbeat ∈ offbeatTimeline.atoms := List.mem_cons_self
  have hspan : offbeatTimeline.OneSpan := by decide +kernel
  have hdistinct : (Atom.offbeat.layers.map Layer.id).Nodup := by decide +kernel
  refine ⟨⟨hstart, hplays, hplans, hperiods, hkeeps⟩, by decide +kernel, ?_⟩
  exact asked_eq_planned_add_overhang hatom List.mem_cons_self hspan hdistinct hstart (by decide)
    rfl hshows hplays hplans (by decide) (by decide) (by decide +kernel) hperiods
    LayerStore.whole_empty rfl hkeeps

/-- A layer of half a frame, that begins in the middle of a frame. -/
def halfFrame : Layer :=
  ⟨.ofNat 1, .ofMillis 500, .ofInt 1, 1⟩

/-- A layer whose start plus a frame cannot be stored, at three frames a second. -/
def fineStart : Layer :=
  ⟨.ofNat 1, .ofRat (mkRat 1 (2 ^ 62)), .ofRat (mkRat 6666666664 (10 ^ 10)), 1⟩

/-- Three frames a second in one channel. -/
def threeHertz : AudioSpec :=
  { AudioSpec.oneHertz with rate := 3, rate_ne := by decide }

/-- One layer alone, for a second. -/
def soloAtom (layer : Layer) : Atom :=
  ⟨0, .ofInt 1, [layer]⟩

theorem ordered_soloAtom {layer : Layer} (h : layer.Ordered) :
    ∀ atom ∈ [soloAtom layer], atom.Ordered := by
  have hbounds : (0 : Seconds) ≤ .ofInt 1 := by decide +kernel
  intro atom hatom
  rw [List.mem_singleton.mp hatom]
  refine ⟨hbounds, fun other hother ↦ ?_⟩
  rwa [List.mem_singleton.mp hother]

/-- The counts differ. Half a frame from the middle of a frame on is asked for as a frame, but
nothing is made of it. Where a position has to be rounded before it can be stored, a frame too many
can be made, though the start lies no further into its frame than the end. -/
theorem not_planned_eq_asked :
    (let producer : ToneProducer := .new (.ofInt 1) 1
      let timeline : Timeline := ⟨[soloAtom halfFrame], ordered_soloAtom (by decide +kernel)⟩
      let cycles : List Cycle := [⟨[deckAt .oneHertz timeline 0], [0]⟩]
      let decks := cycles.flatMap Cycle.decks
      (PlaysThrough halfFrame 0 producer decks ∧ PlansFit halfFrame 0 producer decks ∧
        Feed.KeepsUp (soloAtom halfFrame) 0 0 .oneHertz halfFrame .empty 0
          (producer.feeds cycles)) ∧
      producer.plannedBytes ⟨halfFrame.id, 0⟩ decks = 0 ∧
        halfFrame.askedIn 0 .oneHertz 0 (cycles.map Cycle.out) = 4 ∧
        Feed.starvedIn (soloAtom halfFrame) 0 0 .oneHertz halfFrame .empty 0
          (producer.feeds cycles) = 1) ∧
    let producer : ToneProducer := .new (.ofInt 1) 1
    let timeline : Timeline := ⟨[soloAtom fineStart], ordered_soloAtom (by decide +kernel)⟩
    let cycles : List Cycle := [⟨[deckAt threeHertz timeline 0], [0, 0, 0]⟩]
    let decks := cycles.flatMap Cycle.decks
    (PlaysThrough fineStart 0 producer decks ∧ fineStart.overhang threeHertz = 0) ∧
      producer.plannedBytes ⟨fineStart.id, 0⟩ decks = 8 ∧
      fineStart.askedIn 0 threeHertz 0 (cycles.map Cycle.out) = 4 := by
  decide +kernel

end ToneProducer

end TimelineMixer
