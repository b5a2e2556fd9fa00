import TimelineMixer.Proofs.Ledger
import TimelineMixer.Proofs.Producer.Listings
import TimelineMixer.Proofs.Producer.Supply

/-!
# How many frames a producer makes of a layer

The chunks of a layer are a row of exact times from its start (`Made`). The row never passes the end
of the layer, and the position of the key is the end of the row until less than a frame is left;
then it is the end of the layer. So once the position has reached the end, the row has the whole
frames of the distance between the bounds, however it was cut and whenever it was made
(`plannedBytes_eq`). This needs neither bound to be on the grid of frames, only that the first fill
in which the layer is heard does not come after its start (`PlaysThrough`).
-/

set_option autoImplicit false
set_option relaxedAutoImplicit false

namespace TimelineMixer

/-- Whole frames that fit in a time, with less than a frame left, are all of its whole frames. -/
theorem AudioSpec.wholeBytes_eq {spec : AudioSpec} {bytes : Nat} (h : spec.frameBytes ∣ bytes)
    {time : ℚ} (hle : bytes / spec.bytesPerSecond ≤ time)
    (hrest : time - bytes / spec.bytesPerSecond < 1 / spec.rate.toNat) :
    spec.wholeBytes time = bytes := by
  obtain ⟨frames, rfl⟩ := h
  rw [Nat.mul_comm, spec.frames_div] at hle hrest
  rw [div_le_iff₀ spec.rate_cast_pos] at hle
  rw [sub_lt_iff_lt_add, ← add_div, lt_div_iff₀ spec.rate_cast_pos, add_comm] at hrest
  have hfloor : ⌊time * spec.rate.toNat⌋₊ = frames :=
    (Nat.floor_eq_iff ((Nat.cast_nonneg _).trans hle)).mpr ⟨hle, hrest⟩
  rw [AudioSpec.wholeBytes, hfloor, Nat.mul_comm]

namespace ToneProducer

/-- Chunks of whole frames that cover the time of a layer from its start, or a part of it. -/
structure Covers (spec : AudioSpec) (stop : Seconds) (first : ℚ) (chunks : List Chunk)
    (reached : ℚ) : Prop where
  spans : Spans spec first chunks reached
  whole : spec.frameBytes ∣ (chunks.flatMap Chunk.data).length
  le : reached ≤ stop.toRat

/-- A row from a time on ends less than a frame before a limit, and beyond it only if it begins
there. -/
structure Nears (spec : AudioSpec) (first limit reached : ℚ) : Prop where
  le : reached ≤ max first limit
  within : limit - reached < 1 / spec.rate.toNat

/-- A position goes on from a time, or it is the end of the layer and less than a frame is left. -/
def GoesOn (spec : AudioSpec) (stop : Seconds) (reached : ℚ) (position : Seconds) : Prop :=
  position.toRat = reached ∨ position = stop ∧ stop.toRat - reached < 1 / spec.rate.toNat

section Row

variable {spec : AudioSpec} {stop : Seconds} {first reached : ℚ} {chunks : List Chunk}

theorem covers_nil (h : first ≤ stop.toRat) : Covers spec stop first [] first :=
  ⟨rfl, Nat.dvd_zero _, h⟩

theorem Covers.append (h : Covers spec stop first chunks reached) {more : List Chunk} {last : ℚ}
    (hmore : Covers spec stop reached more last) :
    Covers spec stop first (chunks ++ more) last where
  spans := h.spans.append hmore.spans
  whole := by
    rw [List.flatMap_append, List.length_append]
    exact Nat.dvd_add h.whole hmore.whole
  le := hmore.le

/-- A row that reaches the end of a layer but for less than a frame has all frames of the layer. -/
theorem Covers.length_eq (h : Covers spec stop first chunks reached)
    (hrest : stop.toRat - reached < 1 / spec.rate.toNat) :
    (chunks.flatMap Chunk.data).length = spec.wholeBytes (stop.toRat - first) := by
  have hreached := h.spans.add_length
  have hle := h.le
  exact (AudioSpec.wholeBytes_eq h.whole (by linarith) (by linarith)).symm

end Row

section Chunks

variable {spec : AudioSpec} {chunkFrames : Nat} {frequency : Float} {limit stop : Seconds}

/-- Frames that were counted between two times fit between them. -/
theorem le_of_le_framesBetween {first last : Seconds} (hdistance : DistanceFits spec first last)
    (horder : first ≤ last) {frames : Nat} (h : frames ≤ framesBetween spec first last) :
    (frames : ℚ) / spec.rate.toNat ≤ last.toRat - first.toRat := by
  have hnonneg : 0 ≤ (last.toRat - first.toRat) * spec.rate.toNat :=
    mul_nonneg (sub_nonneg.mpr horder) spec.rate_cast_pos.le
  rw [framesBetween_eq hdistance] at h
  rw [div_le_iff₀ spec.rate_cast_pos]
  exact (Nat.cast_le.mpr h).trans (Nat.floor_le hnonneg)

theorem covers_toneChunk (frequency : Float) {position : Seconds} {frames : Nat}
    (h : position.toRat + frames / spec.rate.toNat ≤ stop.toRat) :
    Covers spec stop position.toRat [toneChunk spec frequency position frames]
      (position.toRat + frames / spec.rate.toNat) where
  spans := by
    refine ⟨rfl, ?_⟩
    rw [size_toneChunk, spec.frames_div]
    rfl
  whole := by
    rw [List.flatMap_singleton, ← Chunk.size, size_toneChunk]
    exact Nat.dvd_mul_left _ _
  le := h

/-- A row without chunks at a time that is less than a frame before a limit, if not beyond it. -/
theorem nears_self {first limit : ℚ} (h : limit - first < 1 / spec.rate.toNat) :
    Nears spec first limit first :=
  ⟨le_max_left _ _, h⟩

/-- Generating up to a limit makes a row from the position on that ends near the limit, and goes on
where the row ends. -/
theorem covers_generateChunks (hframes : 0 < chunkFrames) (hlimit : limit ≤ stop) {bound : Nat}
    {position : Seconds} (hposition : position ≤ stop)
    (hbound : ⌊(limit.toRat - position.toRat) * spec.rate.toNat⌋₊ < bound)
    (hfits : ChunksFit spec chunkFrames limit bound position) :
    let made := generateChunks spec chunkFrames frequency limit stop bound position
    ∃ reached, Covers spec stop position.toRat made.chunks reached ∧
      GoesOn spec stop reached made.position ∧
        Nears spec position.toRat limit.toRat reached := by
  dsimp only
  induction bound generalizing position with
  | zero => omega
  | succ bound ih =>
    rcases lt_or_ge position limit with hbefore | hbeyond
    · obtain ⟨hdistance, hnext⟩ := hfits hbefore
      have hcount := framesBetween_eq hdistance
      rw [generateChunks_succ hbefore]
      by_cases hnone : min chunkFrames (framesBetween spec position limit) = 0
      · have hrest : limit.toRat - position.toRat < 1 / spec.rate.toNat :=
          AudioSpec.lt_of_floor_eq_zero (hcount ▸ by omega)
        rw [if_pos hnone]
        refine ⟨_, covers_nil hposition, ?_, nears_self hrest⟩
        by_cases hend : limit = stop
        · rw [if_pos hend]
          exact Or.inr ⟨rfl, hend ▸ hrest⟩
        · rw [if_neg hend]
          exact Or.inl rfl
      · rw [if_neg hnone]
        generalize hsome : min chunkFrames (framesBetween spec position limit) = frames
          at hnone hnext
        have hinside : frames ≤ framesBetween spec position limit := by omega
        obtain ⟨hsum, hrest⟩ := hnext (Nat.mul_pos (Nat.pos_of_ne_zero hnone) spec.frameBytes_pos)
        have hplace := toRat_stop_toneChunk frequency hdistance hbefore.le hinside hsum
        have hlength : (frames : ℚ) / spec.rate.toNat ≤ limit.toRat - position.toRat :=
          le_of_le_framesBetween hdistance hbefore.le hinside
        have hchunk : Covers spec stop position.toRat [toneChunk spec frequency position frames]
            ((toneChunk spec frequency position frames).stop spec).toRat := by
          have := Seconds.le_def.mp hlimit
          rw [hplace]
          exact covers_toneChunk frequency (by linarith)
        have hfewer : ⌊(limit.toRat - ((toneChunk spec frequency position frames).stop
            spec).toRat) * spec.rate.toNat⌋₊ < bound := by
          rw [hplace, framesLeft_eq]
          omega
        obtain ⟨reached, hrow, hgoes, hnears⟩ := ih hchunk.le hfewer
          (by rw [stop_toneChunk]; exact hrest)
        have hstays : ((toneChunk spec frequency position frames).stop spec).toRat ≤
            limit.toRat := by
          rw [hplace]
          linarith
        refine ⟨reached, hchunk.append hrow, hgoes, ?_, hnears.within⟩
        exact (hnears.le.trans (max_le hstays le_rfl)).trans (le_max_right _ _)
    · rw [generateChunks_of_le hbeyond]
      have hframe : 0 < 1 / (spec.rate.toNat : ℚ) := one_div_pos.mpr spec.rate_cast_pos
      have := Seconds.le_def.mp hbeyond
      exact ⟨_, covers_nil hposition, Or.inl rfl, nears_self (by linarith)⟩

/-- What a layer gets from a position on, or from its start if that is not over yet. -/
theorem covers_generated (hframes : 0 < chunkFrames) {first last : Seconds} {layer : Layer}
    {known : Option Seconds} (hknown : known.getD (max layer.start first) ≤ layer.stop)
    (hfits : GeneratedFits spec chunkFrames first last layer known) (index : Nat) :
    let made := generated spec chunkFrames first last layer index known
    let position := known.getD (max layer.start first)
    ∃ reached, Covers spec layer.stop position.toRat made.chunks reached ∧
      GoesOn spec layer.stop reached made.position ∧
        Nears spec position.toRat (min last layer.stop).toRat reached :=
  covers_generateChunks hframes (min_le_right _ _) hknown (frames_lt_chunkBound hfits) hfits

end Chunks

/-! ### A key over several fills -/

/-- What was made of a layer, by the position of its key: nothing without one, else a row from the
start of the layer from which the position goes on. -/
inductive Made (spec : AudioSpec) (layer : Layer) : Option Seconds → List Chunk → Prop
  | nothing : Made spec layer none []
  | row {position : Seconds} {chunks : List Chunk} {reached : ℚ}
      (covers : Covers spec layer.stop layer.start.toRat chunks reached)
      (goesOn : GoesOn spec layer.stop reached position) : Made spec layer (some position) chunks

section Made

variable {spec : AudioSpec} {layer : Layer} {known : Option Seconds} {chunks : List Chunk}

/-- A layer whose position has reached its end has all of its frames. -/
theorem Made.length_eq (h : Made spec layer known chunks) (hstart : 0 ≤ layer.start)
    (hdone : layer.stop ≤ known.getD 0) :
    (chunks.flatMap Chunk.data).length =
      spec.wholeBytes (layer.stop.toRat - layer.start.toRat) := by
  cases h with
  | nothing =>
    have hempty : layer.stop.toRat - layer.start.toRat ≤ 0 :=
      sub_nonpos.mpr (Seconds.le_def.mp (hdone.trans hstart))
    rw [spec.wholeBytes_of_nonpos hempty]
    rfl
  | row covers goesOn =>
    refine covers.length_eq ?_
    rcases goesOn with hposition | ⟨-, hrest⟩
    · have hframe : 0 < 1 / (spec.rate.toNat : ℚ) := one_div_pos.mpr spec.rate_cast_pos
      have hend := Seconds.le_def.mp hdone
      rw [Option.getD_some, hposition] at hend
      linarith
    · exact hrest

variable {chunkFrames : Nat} {first last : Seconds}

/-- A layer that is heard goes on from where it is, the first time from its start. -/
theorem Made.append (h : Made spec layer known chunks) (hframes : 0 < chunkFrames)
    (horder : layer.start ≤ layer.stop) (htimely : known = none → first ≤ layer.start)
    (hfits : GeneratedFits spec chunkFrames first last layer known) (index : Nat) :
    let made := generated spec chunkFrames first last layer index known
    Made spec layer (some made.position) (chunks ++ made.chunks) := by
  intro made
  cases h with
  | nothing =>
    have hstart : (none : Option Seconds).getD (max layer.start first) = layer.start :=
      max_eq_left (htimely rfl)
    obtain ⟨reached, hcovers, hgoes, -⟩ :=
      covers_generated hframes (hstart.trans_le horder) hfits index
    rw [hstart] at hcovers
    exact .row hcovers hgoes
  | @row position _ reached covers goesOn =>
    rcases goesOn with hposition | ⟨rfl, hrest⟩
    · have hinside : position ≤ layer.stop := Seconds.le_def.mpr (hposition ▸ covers.le)
      obtain ⟨last, hcovers, hgoes, -⟩ := covers_generated hframes hinside hfits index
      rw [Option.getD_some, hposition] at hcovers
      exact .row (covers.append hcovers) hgoes
    · -- The end was reached before, so there is nothing to add.
      have hmade : made = ⟨layer.stop, []⟩ := generated_of_stop_le _ _ index le_rfl
      rw [hmade, List.append_nil]
      exact .row covers (Or.inr ⟨rfl, hrest⟩)

end Made

section Fills

/-- The producer after it has filled for decks, one after the other. -/
def planAll (producer : ToneProducer) (decks : List Deck) : ToneProducer :=
  decks.foldl (fun producer deck ↦ (producer.plan deck).2) producer

/-- What it queues then. -/
def planned (producer : ToneProducer) (decks : List Deck) : List (QueueKey × Chunk) :=
  gather (fun producer deck ↦ (producer.plan deck).2) (fun producer deck ↦ (producer.plan deck).1)
    producer decks

/-- The bytes it queues for a key. -/
def plannedBytes (producer : ToneProducer) (key : QueueKey) (decks : List Deck) : Nat :=
  ((chunksFor key (producer.planned decks)).flatMap Chunk.data).length

/-- Fills for decks play a layer from its start to its end: the first in which it is heard does not
come after the start, and after the last one its position has reached the end. -/
def PlaysThrough (layer : Layer) (loop : Nat) : ToneProducer → List Deck → Prop
  | producer, [] => layer.stop ≤ (producer.positions.lookup ⟨layer.id, loop⟩).getD 0
  | producer, deck :: rest =>
    (producer.positions.lookup ⟨layer.id, loop⟩ = none →
        HeardIn layer deck.time (deck.time + producer.lead) → deck.time ≤ layer.start) ∧
      PlaysThrough layer loop (producer.plan deck).2 rest

/-- All times that are computed for a layer in fills for decks can be stored. -/
def PlansFit (layer : Layer) (loop : Nat) : ToneProducer → List Deck → Prop
  | _, [] => True
  | producer, deck :: rest =>
    let last := deck.time + producer.lead
    (HeardIn layer deck.time last → GeneratedFits deck.spec producer.chunkFrames deck.time last
        layer (producer.positions.lookup ⟨layer.id, loop⟩)) ∧
      PlansFit layer loop (producer.plan deck).2 rest

instance PlaysThrough.decidable (layer : Layer) (loop : Nat) :
    ∀ producer decks, Decidable (PlaysThrough layer loop producer decks)
  | _, [] => inferInstanceAs (Decidable (_ ≤ _))
  | producer, deck :: rest =>
    have := PlaysThrough.decidable layer loop (producer.plan deck).2 rest
    inferInstanceAs (Decidable ((_ → _ → _) ∧ _))

instance PlansFit.decidable (layer : Layer) (loop : Nat) :
    ∀ producer decks, Decidable (PlansFit layer loop producer decks)
  | _, [] => isTrue trivial
  | producer, deck :: rest =>
    have := PlansFit.decidable layer loop (producer.plan deck).2 rest
    inferInstanceAs (Decidable ((_ → _) ∧ _))

/-- A deck shows a timeline in a pass and a format. -/
structure Shows (deck : Deck) (timeline : Timeline) (loop : Nat) (spec : AudioSpec) : Prop where
  timeline_eq : deck.timeline = timeline
  loop_eq : deck.clock.loop = loop
  spec_eq : deck.spec = spec

/-- A stopped deck whose clock shows a time in the first pass. -/
def deckAt (spec : AudioSpec) (timeline : Timeline) (time : Seconds) : Deck :=
  { Deck.new spec 1 with clock := ⟨0, time, 0, 0⟩, timeline }

theorem shows_deckAt (spec : AudioSpec) (timeline : Timeline) (time : Seconds) :
    Shows (deckAt spec timeline time) timeline 0 spec :=
  ⟨rfl, rfl, SpecCell.load_new spec⟩

variable {timeline : Timeline} {spec : AudioSpec} {loop : Nat} {layer : Layer}
  {producer : ToneProducer} {decks : List Deck}

/-- However the fills are spread and the chunks are cut, a layer that is played from its start to
its end gets the whole frames of the distance between the two. -/
theorem plannedBytes_eq (hframes : 0 < producer.chunkFrames) (hspan : timeline.OneSpan)
    (hlayer : layer ∈ timeline.layers) (hstart : 0 ≤ layer.start)
    (horder : layer.start ≤ layer.stop)
    (hshows : ∀ deck ∈ decks, Shows deck timeline loop spec)
    (hfresh : producer.positions.lookup ⟨layer.id, loop⟩ = none)
    (hplays : PlaysThrough layer loop producer decks) (hfit : PlansFit layer loop producer decks) :
    producer.plannedBytes ⟨layer.id, loop⟩ decks =
      spec.wholeBytes (layer.stop.toRat - layer.start.toRat) := by
  -- The induction on the decks starts from any state of the key.
  suffices hgeneral : ∀ chunks,
      Made spec layer (producer.positions.lookup ⟨layer.id, loop⟩) chunks →
      ((chunks ++ chunksFor ⟨layer.id, loop⟩ (producer.planned decks)).flatMap Chunk.data).length =
        spec.wholeBytes (layer.stop.toRat - layer.start.toRat) from
    hgeneral [] (hfresh ▸ .nothing)
  clear hfresh
  induction decks generalizing producer with
  | nil =>
    intro chunks hmade
    rw [planned, gather, chunksFor, List.filter_nil, List.map_nil, List.append_nil]
    exact hmade.length_eq hstart hplays
  | cons deck rest ih =>
    intro chunks hmade
    obtain ⟨rfl, rfl, rfl⟩ := hshows deck List.mem_cons_self
    obtain ⟨htimely, hrest⟩ := hplays
    obtain ⟨hfits, hothers⟩ := hfit
    have hlater := fun other hother ↦ hshows other (List.mem_cons_of_mem _ hother)
    rw [planned, gather, chunksFor_append, ← List.append_assoc]
    refine ih ((plan_settings producer deck).2 ▸ hframes) hlater hrest hothers _ ?_
    rcases plan_speaker producer (hspan.speaksFor hlayer _ _) with ⟨-, hchunks, hposition⟩ |
      ⟨hheard, index, hchunks, hposition⟩
    · rw [hchunks, hposition, List.append_nil]
      exact hmade
    · rw [hchunks, hposition]
      exact hmade.append hframes horder (fun hnew ↦ htimely hnew hheard) (hfits hheard) index

end Fills

end ToneProducer

end TimelineMixer
