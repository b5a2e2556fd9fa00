import Mathlib.Data.List.Basic
import TimelineMixer.Proofs.Time.WholeFrames
import TimelineMixer.ToneProducer

/-!
# What a producer generates

Chunks of a layer follow one another without a gap (`Follows`): each begins where the audio of the
one before ends. A call of `generateChunks` makes such a row from its position to the next one
(`generateChunks_follows`). Generating a pass serves each key at most once, the first time its
layer is heard in the pass (`Outcome`, `generate_outcome`), and a plan serves the current pass up to
the horizon and the next one by as much as the horizon lies beyond the end (`plan_outcome`).
-/

set_option autoImplicit false
set_option relaxedAutoImplicit false

namespace TimelineMixer

/-- The time at which the audio of a chunk ends. -/
def Chunk.stop (spec : AudioSpec) (chunk : Chunk) : Seconds :=
  chunk.pts + spec.duration chunk.size

/-- Chunks that begin at a time, follow one another, and end at a time. -/
def Follows (spec : AudioSpec) : Seconds → List Chunk → Seconds → Prop
  | first, [], last => first = last
  | first, chunk :: rest, last => chunk.pts = first ∧ Follows spec (chunk.stop spec) rest last

/-- The audio of each chunk ends where the next chunk begins. -/
def Contiguous (spec : AudioSpec) (chunks : List Chunk) : Prop :=
  chunks.IsChain fun earlier later ↦ earlier.stop spec = later.pts

instance (spec : AudioSpec) (chunks : List Chunk) : Decidable (Contiguous spec chunks) :=
  inferInstanceAs (Decidable (List.IsChain _ chunks))

namespace Follows

variable {spec : AudioSpec} {first last : Seconds} {chunks : List Chunk}

theorem append {next : Seconds} {more : List Chunk} (h : Follows spec first chunks last)
    (hmore : Follows spec last more next) : Follows spec first (chunks ++ more) next := by
  induction chunks generalizing first with
  | nil =>
    cases h
    exact hmore
  | cons chunk rest ih => exact ⟨h.1, ih h.2⟩

theorem head_pts (h : Follows spec first chunks last) {chunk : Chunk}
    (hhead : chunks.head? = some chunk) : chunk.pts = first := by
  cases chunks with
  | nil => cases hhead
  | cons other rest =>
    cases hhead
    exact h.1

theorem contiguous (h : Follows spec first chunks last) : Contiguous spec chunks := by
  induction chunks generalizing first with
  | nil => exact .nil
  | cons chunk rest ih =>
    cases rest with
    | nil => exact .singleton _
    | cons next others => exact .cons_cons h.2.1.symm (ih h.2)

theorem stop_getLast (h : Follows spec first chunks last) {chunk : Chunk}
    (hlast : chunks.getLast? = some chunk) : chunk.stop spec = last := by
  induction chunks generalizing first with
  | nil => cases hlast
  | cons other rest ih =>
    cases rest with
    | nil =>
      cases hlast
      exact h.2
    | cons next others => exact ih h.2 (by simpa using hlast)

end Follows

/-- Occurrences of a layer anywhere in the timeline have the same bounds. -/
def Timeline.OneSpan (timeline : Timeline) : Prop :=
  ∀ first ∈ timeline.layers, ∀ second ∈ timeline.layers, first.id = second.id →
    first.start = second.start ∧ first.stop = second.stop

instance (timeline : Timeline) : Decidable timeline.OneSpan :=
  inferInstanceAs (Decidable (∀ first ∈ timeline.layers, ∀ second ∈ timeline.layers, _ → _ ∧ _))

namespace Tone

theorem length_samples (spec : AudioSpec) (pts : Seconds) (frames : Nat) (frequency : Float) :
    (samples spec pts frames frequency).length = frames * spec.channels.toNat := by
  simp [samples]

end Tone

namespace ToneProducer

/-- A chunk of so many frames. -/
def toneChunk (spec : AudioSpec) (frequency : Float) (position : Seconds) (frames : Nat) : Chunk :=
  .ofSamples position (Tone.samples spec position frames frequency)

@[simp] theorem size_toneChunk (spec : AudioSpec) (frequency : Float) (position : Seconds)
    (frames : Nat) : (toneChunk spec frequency position frames).size =
      frames * spec.frameBytes := by
  rw [toneChunk, Chunk.ofSamples, Chunk.size, Sample.length_encode, Tone.length_samples,
    spec.frameBytes_eq, Nat.mul_left_comm]

theorem stop_toneChunk (spec : AudioSpec) (frequency : Float) (position : Seconds) (frames : Nat) :
    (toneChunk spec frequency position frames).stop spec =
      position + spec.duration (frames * spec.frameBytes) := by
  rw [Chunk.stop, size_toneChunk]
  rfl

section Chunks

variable {spec : AudioSpec} {chunkFrames : Nat} {frequency : Float} {limit stop : Seconds}

/-- A position at the limit or beyond it generates nothing. -/
theorem generateChunks_of_le {position : Seconds} (h : limit ≤ position) (bound : Nat) :
    generateChunks spec chunkFrames frequency limit stop bound position = ⟨position, []⟩ := by
  cases bound with
  | zero => rfl
  | succ bound => rw [generateChunks, if_neg (not_lt.mpr h)]

/-- A position before the limit generates a chunk first, unless less than a frame is left. -/
theorem generateChunks_succ {position : Seconds} (h : position < limit) (bound : Nat) :
    generateChunks spec chunkFrames frequency limit stop (bound + 1) position =
      if min chunkFrames (framesBetween spec position limit) = 0 then
        ⟨if limit = stop then stop else position, []⟩
      else
        let chunk := toneChunk spec frequency position
          (min chunkFrames (framesBetween spec position limit))
        let rest := generateChunks spec chunkFrames frequency limit stop bound (chunk.stop spec)
        { rest with chunks := chunk :: rest.chunks } := by
  rw [generateChunks, if_pos h]
  simp only [Chunk.stop, size_toneChunk]
  rfl

/-- Chunks follow one another from the position to the next one; only at the end of a layer may
less than a frame be left out. -/
theorem generateChunks_follows (bound : Nat) (position : Seconds) :
    let made := generateChunks spec chunkFrames frequency limit stop bound position
    ∃ reached, Follows spec position made.chunks reached ∧
      (made.position = reached ∨ limit = stop ∧ made.position = stop) := by
  dsimp only
  induction bound generalizing position with
  | zero => exact ⟨position, rfl, Or.inl rfl⟩
  | succ bound ih =>
    rcases lt_or_ge position limit with hbefore | hbeyond
    · rw [generateChunks_succ hbefore]
      split_ifs with hnone hend
      · exact ⟨position, rfl, Or.inr ⟨hend, rfl⟩⟩
      · exact ⟨position, rfl, Or.inl rfl⟩
      · obtain ⟨reached, hrest, hposition⟩ := ih ((toneChunk spec frequency position
          (min chunkFrames (framesBetween spec position limit))).stop spec)
        exact ⟨reached, ⟨rfl, hrest⟩, hposition⟩
    · rw [generateChunks_of_le hbeyond]
      exact ⟨position, rfl, Or.inl rfl⟩

/-- Every chunk has whole frames, and one at least. -/
theorem size_of_mem_generateChunks {bound : Nat} {position : Seconds} {chunk : Chunk}
    (h : chunk ∈ (generateChunks spec chunkFrames frequency limit stop bound position).chunks) :
    0 < chunk.size ∧ spec.frameBytes ∣ chunk.size := by
  induction bound generalizing position with
  | zero => cases h
  | succ bound ih =>
    rcases lt_or_ge position limit with hbefore | hbeyond
    · rw [generateChunks_succ hbefore] at h
      split_ifs at h with hnone hend
      · cases h
      · cases h
      · rcases List.mem_cons.mp h with rfl | hrest
        · rw [size_toneChunk]
          exact ⟨Nat.mul_pos (Nat.pos_of_ne_zero hnone) spec.frameBytes_pos,
            Nat.dvd_mul_left _ _⟩
        · exact ih hrest
    · rw [generateChunks_of_le hbeyond] at h
      cases h

/-- No chunk has more frames than a chunk may have. -/
theorem size_le_of_mem_generateChunks {bound : Nat} {position : Seconds} {chunk : Chunk}
    (h : chunk ∈ (generateChunks spec chunkFrames frequency limit stop bound position).chunks) :
    chunk.size ≤ chunkFrames * spec.frameBytes := by
  induction bound generalizing position with
  | zero => cases h
  | succ bound ih =>
    rcases lt_or_ge position limit with hbefore | hbeyond
    · rw [generateChunks_succ hbefore] at h
      split_ifs at h with hnone hend
      · cases h
      · cases h
      · rcases List.mem_cons.mp h with rfl | hrest
        · rw [size_toneChunk]
          exact Nat.mul_le_mul_right _ (min_le_left _ _)
        · exact ih hrest
    · rw [generateChunks_of_le hbeyond] at h
      cases h

end Chunks

/-! ### One key in a pass -/

/-- The chunks that entries hold for a key, in order. -/
def chunksFor (key : QueueKey) (entries : List (QueueKey × Chunk)) : List Chunk :=
  (entries.filter fun entry ↦ entry.1 = key).map Prod.snd

theorem chunksFor_append (key : QueueKey) (first second : List (QueueKey × Chunk)) :
    chunksFor key (first ++ second) = chunksFor key first ++ chunksFor key second := by
  simp [chunksFor]

theorem chunksFor_self (key : QueueKey) (chunks : List Chunk) :
    chunksFor key (chunks.map fun chunk ↦ (key, chunk)) = chunks := by
  induction chunks with
  | nil => rfl
  | cons chunk rest ih => simpa [chunksFor] using ih

theorem chunksFor_of_ne {key other : QueueKey} (h : other ≠ key) (chunks : List Chunk) :
    chunksFor key (chunks.map fun chunk ↦ (other, chunk)) = [] := by
  simp [chunksFor, h]

/-- Dropping keys leaves what is known about the others. -/
theorem lookup_filter_keys {α : Type} (entries : List (QueueKey × α)) (keep : QueueKey → Bool)
    (key : QueueKey) :
    (entries.filter fun entry ↦ keep entry.1).lookup key =
      if keep key then entries.lookup key else none := by
  induction entries with
  | nil => simp
  | cons entry rest ih =>
    obtain ⟨other, value⟩ := entry
    by_cases hkey : key = other
    · subst hkey
      by_cases hkeep : keep key = true
      · simp [hkeep]
      · simpa [hkeep] using ih
    · have hother : (key == other) = false := by simpa using hkey
      rw [List.lookup_cons, hother, List.filter_cons]
      split_ifs at ih ⊢ <;> simp [List.lookup_cons, hother, ih]

theorem lookup_setPosition_self (positions : List (QueueKey × Seconds)) (key : QueueKey)
    (position : Seconds) : (setPosition positions key position).lookup key = some position := by
  simp [setPosition]

theorem lookup_setPosition_of_ne (positions : List (QueueKey × Seconds)) {key other : QueueKey}
    (h : other ≠ key) (position : Seconds) :
    (setPosition positions key position).lookup other = positions.lookup other := by
  have hother : (other == key) = false := by simpa using h
  have hkept := lookup_filter_keys positions (fun entry ↦ decide (entry ≠ key)) other
  rw [if_pos (by simpa using h)] at hkept
  rw [setPosition, List.lookup_cons, hother]
  exact hkept

theorem chunkBound_pos : 0 < chunkBound := by
  decide

/-- What a layer, at its place in the timeline, gets for the part of a pass between two times when
its key is at a position. -/
def generated (spec : AudioSpec) (chunkFrames : Nat) (first last : Seconds) (layer : Layer)
    (index : Nat) (position : Option Seconds) : Generated :=
  let position := position.getD (max layer.start first)
  let limit := min last layer.stop
  generateChunks spec chunkFrames (Tone.frequency index) limit layer.stop
    chunkBound position

/-- What a layer gets is a row of chunks from its position to the next one, or to the end of the
layer up to less than a frame. -/
theorem generated_follows (spec : AudioSpec) (chunkFrames : Nat) (first last : Seconds)
    (layer : Layer) (index : Nat) (position : Option Seconds) :
    ∃ reached, Follows spec (position.getD (max layer.start first))
        (generated spec chunkFrames first last layer index position).chunks reached ∧
      ((generated spec chunkFrames first last layer index position).position = reached ∨
        (generated spec chunkFrames first last layer index position).position = layer.stop) := by
  obtain ⟨reached, hfollows, hposition⟩ := generateChunks_follows _ _
  exact ⟨reached, hfollows, hposition.imp id And.right⟩

/-- A layer whose position has reached its end gets nothing. -/
theorem generated_of_stop_le (spec : AudioSpec) (chunkFrames : Nat) {first last : Seconds}
    {layer : Layer} (index : Nat) {position : Option Seconds}
    (h : layer.stop ≤ position.getD (max layer.start first)) :
    generated spec chunkFrames first last layer index position =
      ⟨position.getD (max layer.start first), []⟩ :=
  generateChunks_of_le ((min_le_right _ _).trans h) _

/-- A layer is heard somewhere strictly between two times. -/
def HeardIn (layer : Layer) (first last : Seconds) : Prop :=
  first < layer.stop ∧ layer.start < last

instance (layer : Layer) (first last : Seconds) : Decidable (HeardIn layer first last) :=
  inferInstanceAs (Decidable (_ ∧ _))

theorem not_heardIn {layer : Layer} {first last : Seconds} :
    ¬ HeardIn layer first last ↔ layer.stop ≤ first ∨ last ≤ layer.start := by
  rw [HeardIn, not_and_or, not_lt, not_lt]

section Layers

variable {spec : AudioSpec} {chunkFrames loop : Nat} {first last : Seconds}

theorem generateLayer_skip {generation : Generation} {layer : Layer} (index : Nat)
    (h : ¬ HeardIn layer first last ∨ ⟨layer.id, loop⟩ ∈ generation.seen) :
    generateLayer spec chunkFrames loop first last generation layer index = generation := by
  rw [not_heardIn, or_assoc] at h
  rw [generateLayer, if_pos h]

theorem generateLayer_serve {generation : Generation} {layer : Layer} (index : Nat)
    (hheard : HeardIn layer first last) (hnew : ⟨layer.id, loop⟩ ∉ generation.seen) :
    generateLayer spec chunkFrames loop first last generation layer index =
      let key : QueueKey := ⟨layer.id, loop⟩
      let made := generated spec chunkFrames first last layer index
        (generation.positions.lookup key)
      { positions := setPosition generation.positions key made.position
        seen := key :: generation.seen
        entries := generation.entries ++ made.chunks.map fun chunk ↦ (key, chunk) } := by
  have hserved : ¬ (layer.stop ≤ first ∨ last ≤ layer.start ∨
      ⟨layer.id, loop⟩ ∈ generation.seen) := by
    rw [← or_assoc, ← not_heardIn]
    exact not_or.mpr ⟨not_not.mpr hheard, hnew⟩
  rw [generateLayer, if_neg hserved]
  rfl

/-- Generating some layers of a pass: a key that was served before is left alone, and another one
is served for the first of the layers that has this key and is heard. -/
structure Served (spec : AudioSpec) (chunkFrames loop : Nat) (first last : Seconds)
    (layers : List (Layer × Nat)) (key : QueueKey) (before after : Generation) : Prop where
  old : key ∈ before.seen → chunksFor key after.entries = chunksFor key before.entries ∧
    after.positions.lookup key = before.positions.lookup key
  new : key ∉ before.seen →
    (∃ layer index, (layer, index) ∈ layers ∧ key = ⟨layer.id, loop⟩ ∧
      HeardIn layer first last ∧
      chunksFor key after.entries = chunksFor key before.entries ++
        (generated spec chunkFrames first last layer index
          (before.positions.lookup key)).chunks ∧
      after.positions.lookup key = some (generated spec chunkFrames first last layer index
        (before.positions.lookup key)).position) ∨
    ((∀ layer index, (layer, index) ∈ layers → key = ⟨layer.id, loop⟩ →
        ¬ HeardIn layer first last) ∧
      chunksFor key after.entries = chunksFor key before.entries ∧
      after.positions.lookup key = before.positions.lookup key)

namespace Served

variable {layer : Layer} {index : Nat} {rest : List (Layer × Nat)} {key : QueueKey}
  {generation after : Generation}

/-- A layer that is not heard, or whose key was served, changes nothing. -/
theorem skip (hskip : ¬ HeardIn layer first last ∨ ⟨layer.id, loop⟩ ∈ generation.seen)
    (h : Served spec chunkFrames loop first last rest key generation after) :
    Served spec chunkFrames loop first last ((layer, index) :: rest) key generation after := by
  refine ⟨h.old, fun hfresh ↦ ?_⟩
  rcases h.new hfresh with ⟨other, place, hmem, hmade⟩ | ⟨hnone, hsame⟩
  · exact Or.inl ⟨other, place, List.mem_cons_of_mem _ hmem, hmade⟩
  · refine Or.inr ⟨fun other place hmem hother ↦ ?_, hsame⟩
    rcases List.mem_cons.mp hmem with hhead | hmem
    · cases hhead
      exact hskip.resolve_right (hother ▸ hfresh)
    · exact hnone other place hmem hother

/-- A layer that is heard is served under its key, and no other key is touched. -/
theorem serve (hheard : HeardIn layer first last) (hnew : ⟨layer.id, loop⟩ ∉ generation.seen)
    (h : Served spec chunkFrames loop first last rest key
      (generateLayer spec chunkFrames loop first last generation layer index) after) :
    Served spec chunkFrames loop first last ((layer, index) :: rest) key generation after := by
  rw [generateLayer_serve index hheard hnew] at h
  by_cases hkey : key = ⟨layer.id, loop⟩
  · subst hkey
    obtain ⟨hentries, hposition⟩ := h.old List.mem_cons_self
    refine ⟨fun hold ↦ absurd hold hnew, fun _ ↦ Or.inl ⟨layer, index,
      List.mem_cons_self, rfl, hheard, ?_, ?_⟩⟩
    · rw [hentries, chunksFor_append, chunksFor_self]
    · rw [hposition, lookup_setPosition_self]
  · have hseen : key ∈ QueueKey.mk layer.id loop :: generation.seen ↔
        key ∈ generation.seen := by simp [hkey]
    have hentries : chunksFor key (generation.entries ++
        (generated spec chunkFrames first last layer index (generation.positions.lookup
          ⟨layer.id, loop⟩)).chunks.map fun chunk ↦ (⟨layer.id, loop⟩, chunk)) =
        chunksFor key generation.entries := by
      rw [chunksFor_append, chunksFor_of_ne (Ne.symm hkey), List.append_nil]
    obtain ⟨hold, hnext⟩ := h
    simp only [hseen, hentries, lookup_setPosition_of_ne _ hkey] at hold hnext
    refine ⟨hold, fun hfresh ↦ ?_⟩
    rcases hnext hfresh with ⟨other, place, hmem, hmade⟩ | ⟨hnone, hsame⟩
    · exact Or.inl ⟨other, place, List.mem_cons_of_mem _ hmem, hmade⟩
    · refine Or.inr ⟨fun other place hmem hother ↦ ?_, hsame⟩
      rcases List.mem_cons.mp hmem with hhead | hmem
      · cases hhead
        exact absurd hother hkey
      · exact hnone other place hmem hother

end Served

variable (spec chunkFrames loop first last) in
theorem served_foldl (layers : List (Layer × Nat)) (key : QueueKey) (generation : Generation) :
    Served spec chunkFrames loop first last layers key generation
      (layers.foldl (fun generation (layer, index) ↦
        generateLayer spec chunkFrames loop first last generation layer index) generation) := by
  induction layers generalizing generation with
  | nil => exact ⟨fun _ ↦ ⟨rfl, rfl⟩, fun _ ↦ Or.inr ⟨by simp, rfl, rfl⟩⟩
  | cons entry rest ih =>
    obtain ⟨layer, index⟩ := entry
    rw [List.foldl_cons]
    by_cases hserve : HeardIn layer first last ∧ ⟨layer.id, loop⟩ ∉ generation.seen
    · exact .serve hserve.1 hserve.2 (ih _)
    · have hskip : ¬ HeardIn layer first last ∨ ⟨layer.id, loop⟩ ∈ generation.seen := by
        rwa [not_and_or, not_not] at hserve
      dsimp only
      rw [generateLayer_skip index hskip]
      exact .skip hskip (ih generation)

end Layers

/-- What a key gets from generating a pass between two times, with its position before and
afterwards: the tone of a layer that has this key and is heard, or nothing if there is none. -/
inductive Outcome (timeline : Timeline) (spec : AudioSpec) (chunkFrames loop : Nat)
    (first last : Seconds) (key : QueueKey) (before : Option Seconds) :
    List Chunk → Option Seconds → Prop
  | served (layer : Layer) (index : Nat) (mem : layer ∈ timeline.layers)
      (key_eq : key = ⟨layer.id, loop⟩) (heard : HeardIn layer first last) :
      Outcome timeline spec chunkFrames loop first last key before
        (generated spec chunkFrames first last layer index before).chunks
        (some (generated spec chunkFrames first last layer index before).position)
  | passed (silent : ∀ layer ∈ timeline.layers, key = ⟨layer.id, loop⟩ →
      ¬ HeardIn layer first last) :
      Outcome timeline spec chunkFrames loop first last key before [] before

section Plan

variable {timeline : Timeline} {spec : AudioSpec} {chunkFrames loop : Nat} {first last : Seconds}
  {key : QueueKey} {before after : Option Seconds} {chunks : List Chunk}

/-- A pass touches no key of another pass. -/
theorem Outcome.of_loop_ne
    (h : Outcome timeline spec chunkFrames loop first last key before chunks after)
    (hloop : key.loop ≠ loop) : chunks = [] ∧ after = before := by
  cases h with
  | served layer index mem key_eq heard => exact absurd (key_eq ▸ rfl) hloop
  | passed silent => exact ⟨rfl, rfl⟩

/-- A key of another pass gets nothing. -/
theorem outcome_of_loop_ne (hloop : key.loop ≠ loop) :
    Outcome timeline spec chunkFrames loop first last key before [] before :=
  .passed fun _ _ hkey _ ↦ hloop (hkey ▸ rfl)

theorem generate_outcome (producer : ToneProducer) (timeline : Timeline) (spec : AudioSpec)
    (loop : Nat) (first last : Seconds) (key : QueueKey) :
    let made := producer.generate timeline spec loop first last
    Outcome timeline spec producer.chunkFrames loop first last key
      (producer.positions.lookup key) (chunksFor key made.1) (made.2.positions.lookup key) := by
  intro made
  have hserved := served_foldl spec producer.chunkFrames loop first last timeline.layers.zipIdx
    key ⟨producer.positions, [], []⟩
  change Outcome timeline spec producer.chunkFrames loop first last key
    (producer.positions.lookup key) (chunksFor key (Generation.entries _))
    ((Generation.positions _).lookup key)
  rcases hserved.new (by simp) with ⟨layer, index, hmem, hkey, hheard, hchunks, hposition⟩ |
    ⟨hnone, hchunks, hposition⟩
  · rw [hchunks, hposition]
    exact .served layer index (List.fst_mem_of_mem_zipIdx hmem) hkey hheard
  · rw [hchunks, hposition]
    refine .passed fun layer hlayer hkey ↦ ?_
    obtain ⟨index, hindex⟩ := List.mem_iff_getElem?.mp hlayer
    exact hnone layer index (List.mk_mem_zipIdx_iff_getElem?.mpr hindex) hkey

section Deck

variable (producer : ToneProducer) {deck : Deck} {start stop : Seconds}

/-- Without atoms nothing is planned. -/
theorem plan_of_start?_eq_none (h : deck.timeline.start? = none) :
    producer.plan deck = ([], producer) := by
  rw [plan, h]

variable (hstart : deck.timeline.start? = some start) (hstop : deck.timeline.stop? = some stop)

include hstart hstop

theorem plan_eq :
    producer.plan deck =
      let horizon := deck.time + producer.lead
      let made := producer.generate deck.timeline deck.spec deck.clock.loop deck.time horizon
      if stop < horizon then
        let next := made.2.generate deck.timeline deck.spec (deck.clock.loop + 1) start
          (start + (horizon - stop))
        (made.1 ++ next.1, next.2)
      else made := by
  rw [plan, hstart, hstop]

/-- A key of the current pass gets what is generated from the clock to the horizon. -/
theorem plan_current_eq (hloop : key.loop = deck.clock.loop) :
    let made := producer.generate deck.timeline deck.spec deck.clock.loop deck.time
      (deck.time + producer.lead)
    chunksFor key (producer.plan deck).1 = chunksFor key made.1 ∧
      (producer.plan deck).2.positions.lookup key = made.2.positions.lookup key := by
  intro made
  rw [plan_eq producer hstart hstop]
  dsimp only
  split_ifs with hover
  · have hnext := generate_outcome made.2 deck.timeline deck.spec (deck.clock.loop + 1) start
      (start + (deck.time + producer.lead - stop)) key
    obtain ⟨hchunks, hposition⟩ := hnext.of_loop_ne (by omega)
    dsimp only
    rw [chunksFor_append, hchunks, List.append_nil, hposition]
    exact ⟨rfl, rfl⟩
  · exact ⟨rfl, rfl⟩

/-- The current pass is generated from the clock to the horizon. -/
theorem plan_current (hloop : key.loop = deck.clock.loop) :
    Outcome deck.timeline deck.spec producer.chunkFrames deck.clock.loop deck.time
      (deck.time + producer.lead) key (producer.positions.lookup key)
      (chunksFor key (producer.plan deck).1) ((producer.plan deck).2.positions.lookup key) := by
  obtain ⟨hchunks, hposition⟩ := plan_current_eq producer hstart hstop hloop
  rw [hchunks, hposition]
  exact generate_outcome producer deck.timeline deck.spec deck.clock.loop deck.time
    (deck.time + producer.lead) key

/-- A key of the next pass is left alone by the current one, and gets what is generated from the
start, as far as the horizon lies beyond the end. -/
theorem plan_next_eq (hover : stop < deck.time + producer.lead)
    (hloop : key.loop = deck.clock.loop + 1) :
    let current := (producer.generate deck.timeline deck.spec deck.clock.loop deck.time
      (deck.time + producer.lead)).2
    let made := current.generate deck.timeline deck.spec (deck.clock.loop + 1) start
      (start + (deck.time + producer.lead - stop))
    current.positions.lookup key = producer.positions.lookup key ∧
      chunksFor key (producer.plan deck).1 = chunksFor key made.1 ∧
      (producer.plan deck).2.positions.lookup key = made.2.positions.lookup key := by
  intro current made
  have hcurrent := generate_outcome producer deck.timeline deck.spec deck.clock.loop deck.time
    (deck.time + producer.lead) key
  obtain ⟨hchunks, hposition⟩ := hcurrent.of_loop_ne (by omega)
  refine ⟨hposition, ?_⟩
  rw [plan_eq producer hstart hstop]
  dsimp only
  rw [if_pos hover, chunksFor_append, hchunks, List.nil_append]
  exact ⟨rfl, rfl⟩

/-- The next pass is generated from its start, as far as the horizon lies beyond the end. -/
theorem plan_next (hover : stop < deck.time + producer.lead)
    (hloop : key.loop = deck.clock.loop + 1) :
    Outcome deck.timeline deck.spec producer.chunkFrames (deck.clock.loop + 1) start
      (start + (deck.time + producer.lead - stop)) key (producer.positions.lookup key)
      (chunksFor key (producer.plan deck).1) ((producer.plan deck).2.positions.lookup key) := by
  obtain ⟨hbefore, hchunks, hposition⟩ := plan_next_eq producer hstart hstop hover hloop
  rw [hchunks, hposition, ← hbefore]
  exact generate_outcome (producer.generate deck.timeline deck.spec deck.clock.loop deck.time
    (deck.time + producer.lead)).2 deck.timeline deck.spec (deck.clock.loop + 1) start
    (start + (deck.time + producer.lead - stop)) key

/-- No other pass is generated. -/
theorem plan_untouched (hloop : key.loop ≠ deck.clock.loop)
    (hnext : stop < deck.time + producer.lead → key.loop ≠ deck.clock.loop + 1) :
    chunksFor key (producer.plan deck).1 = [] ∧
      (producer.plan deck).2.positions.lookup key = producer.positions.lookup key := by
  have hmade := generate_outcome producer deck.timeline deck.spec deck.clock.loop deck.time
    (deck.time + producer.lead) key
  obtain ⟨hchunks, hposition⟩ := hmade.of_loop_ne hloop
  rw [plan_eq producer hstart hstop]
  dsimp only
  split_ifs with hover
  · have hmore := generate_outcome (producer.generate deck.timeline deck.spec deck.clock.loop
      deck.time (deck.time + producer.lead)).2 deck.timeline deck.spec (deck.clock.loop + 1) start
      (start + (deck.time + producer.lead - stop)) key
    obtain ⟨hnone, hsame⟩ := hmore.of_loop_ne (hnext hover)
    dsimp only
    rw [chunksFor_append, hchunks, hnone, hsame, hposition]
    exact ⟨rfl, rfl⟩
  · exact ⟨hchunks, hposition⟩

end Deck

/-- Whatever the clock shows, a key gets what one pass has for it. -/
theorem plan_outcome (producer : ToneProducer) (deck : Deck) (key : QueueKey) :
    ∃ loop first last, Outcome deck.timeline deck.spec producer.chunkFrames loop first last key
      (producer.positions.lookup key) (chunksFor key (producer.plan deck).1)
      ((producer.plan deck).2.positions.lookup key) := by
  have hother : key.loop ≠ key.loop + 1 := by omega
  cases hstart : deck.timeline.start? with
  | none =>
    rw [plan_of_start?_eq_none producer hstart]
    exact ⟨key.loop + 1, 0, 0, outcome_of_loop_ne hother⟩
  | some start =>
    obtain ⟨stop, hstop⟩ := Timeline.exists_stop? hstart
    by_cases hcurrent : key.loop = deck.clock.loop
    · exact ⟨_, _, _, plan_current producer hstart hstop hcurrent⟩
    · by_cases hnext : stop < deck.time + producer.lead ∧ key.loop = deck.clock.loop + 1
      · exact ⟨_, _, _, plan_next producer hstart hstop hnext.1 hnext.2⟩
      · obtain ⟨hchunks, hposition⟩ := plan_untouched producer hstart hstop hcurrent
          fun hover hloop ↦ hnext ⟨hover, hloop⟩
        rw [hchunks, hposition]
        exact ⟨key.loop + 1, 0, 0, outcome_of_loop_ne hother⟩

/-- A plan changes only the positions of a producer. -/
theorem plan_settings (producer : ToneProducer) (deck : Deck) :
    (producer.plan deck).2.lead = producer.lead ∧
      (producer.plan deck).2.chunkFrames = producer.chunkFrames := by
  rw [plan]
  split
  · dsimp only
    split_ifs <;> exact ⟨rfl, rfl⟩
  · exact ⟨rfl, rfl⟩

/-- Every planned chunk has whole frames, and one at least. -/
theorem size_of_mem_plan {producer : ToneProducer} {deck : Deck} {entry : QueueKey × Chunk}
    (h : entry ∈ (producer.plan deck).1) :
    0 < entry.2.size ∧ deck.spec.frameBytes ∣ entry.2.size := by
  obtain ⟨loop, first, last, hmade⟩ := plan_outcome producer deck entry.1
  have hmem : entry.2 ∈ chunksFor entry.1 (producer.plan deck).1 :=
    List.mem_map.mpr ⟨entry, List.mem_filter.mpr ⟨h, by simp⟩, rfl⟩
  generalize chunksFor entry.1 (producer.plan deck).1 = chunks at hmade hmem
  generalize (producer.plan deck).2.positions.lookup entry.1 = after at hmade
  cases hmade with
  | served layer index mem key_eq heard => exact size_of_mem_generateChunks hmem
  | passed silent => cases hmem

end Plan

/-! ### Filling -/

/-- Changing the queues may record that their lock was poisoned. -/
theorem withStore_eq (player : Player) (change : LayerStore → LayerStore) :
    ∃ notices, player.withStore change =
      { player with store := change player.store, journal := player.journal ++ notices } := by
  rw [Player.withStore, Player.lockStore]
  split_ifs
  · exact ⟨_, rfl⟩
  · exact ⟨[], by rw [List.append_nil]⟩

section Fill

variable (producer : ToneProducer) (player : Player)

theorem fill_fst : (producer.fill player).2.1 = (producer.plan player.deck).2 := by
  rw [fill]
  dsimp only
  split_ifs <;> rfl

/-- Filling changes the queues, and may record that their lock was poisoned. -/
theorem fill_snd : ∃ notices, (producer.fill player).2.2 =
    { player with
      store := player.store.pushAll (producer.plan player.deck).1
      journal := player.journal ++ notices } := by
  rw [fill]
  dsimp only
  split_ifs with hempty
  · rw [List.isEmpty_iff.mp hempty]
    exact ⟨[], by rw [List.append_nil]; rfl⟩
  · exact withStore_eq player fun store ↦ store.pushAll (producer.plan player.deck).1

end Fill

end ToneProducer

end TimelineMixer
