import TimelineMixer.Proofs.Producer.Generation
import TimelineMixer.Proofs.Time.Grid

/-!
# Supplying a layer exactly

If the bounds of a layer are on the grid of frames and no computed time leaves the numbers that can
be stored, the tone of the layer is laid out without rounding: its chunks cover a stretch of exact
time (`Spans`), from the position of the key to the next one, and stop less than a frame before the
limit they are generated for (`supplies_generated`). In such a row every byte has one time, counted
from the beginning of the row or of its chunk alike (`Spans.exists_place`).
-/

set_option autoImplicit false
set_option relaxedAutoImplicit false

namespace TimelineMixer

/-- Chunks that cover a stretch of exact time, each beginning where the one before ends. -/
def Spans (spec : AudioSpec) : ℚ → List Chunk → ℚ → Prop
  | first, [], last => first = last
  | first, chunk :: rest, last =>
    chunk.pts.toRat = first ∧ Spans spec (first + chunk.size / spec.bytesPerSecond) rest last

namespace Spans

variable {spec : AudioSpec} {first last : ℚ} {chunks : List Chunk}

theorem append {next : ℚ} {more : List Chunk} (h : Spans spec first chunks last)
    (hmore : Spans spec last more next) : Spans spec first (chunks ++ more) next := by
  induction chunks generalizing first with
  | nil =>
    cases h
    exact hmore
  | cons chunk rest ih => exact ⟨h.1, ih h.2⟩

/-- A row lasts as long as its bytes. -/
theorem add_length (h : Spans spec first chunks last) :
    first + (chunks.flatMap Chunk.data).length / spec.bytesPerSecond = last := by
  induction chunks generalizing first with
  | nil =>
    cases h
    simp
  | cons chunk rest ih =>
    rw [← ih h.2, List.flatMap_cons, List.length_append, Chunk.size]
    push_cast
    ring

/-- A byte of a row is a byte of one of its chunks, at the same time. -/
theorem exists_place (h : Spans spec first chunks last) {n : Nat}
    (hn : n < (chunks.flatMap Chunk.data).length) :
    ∃ chunk ∈ chunks, ∃ place < chunk.size,
      chunk.data[place]? = (chunks.flatMap Chunk.data)[n]? ∧
      chunk.pts.toRat + place / spec.bytesPerSecond = first + n / spec.bytesPerSecond := by
  induction chunks generalizing first n with
  | nil => cases hn
  | cons chunk rest ih =>
    rw [List.flatMap_cons, List.length_append] at hn
    rw [List.flatMap_cons]
    rcases Nat.lt_or_ge n chunk.data.length with hhere | hlater
    · refine ⟨chunk, List.mem_cons_self, n, hhere, ?_, by rw [h.1]⟩
      rw [List.getElem?_append_left hhere]
    · obtain ⟨other, hother, place, hplace, hbyte, htime⟩ :=
        ih h.2 (n := n - chunk.data.length) (by omega)
      refine ⟨other, List.mem_cons_of_mem _ hother, place, hplace, ?_, ?_⟩
      · rw [List.getElem?_append_right hlater]
        exact hbyte
      · rw [htime, Nat.cast_sub hlater, Chunk.size]
        ring

end Spans

/-- Every layer starts and ends on the grid of frames. -/
def Timeline.OnGrid (timeline : Timeline) (spec : AudioSpec) : Prop :=
  ∀ layer ∈ timeline.layers, spec.OnGrid layer.start.toRat ∧ spec.OnGrid layer.stop.toRat

instance (timeline : Timeline) (spec : AudioSpec) : Decidable (timeline.OnGrid spec) :=
  inferInstanceAs (Decidable (∀ layer ∈ timeline.layers, _ ∧ _))

namespace ToneProducer

section Exact

variable {spec : AudioSpec} {chunkFrames : Nat} {frequency : Float} {limit stop : Seconds}

/-- The distance between two times, and its bytes, can be stored. -/
def DistanceFits (spec : AudioSpec) (first last : Seconds) : Prop :=
  Seconds.DifferenceFits last first ∧ (last.toRat - first.toRat) * spec.bytesPerSecond < 2 ^ 63

instance (first last : Seconds) : Decidable (DistanceFits spec first last) :=
  inferInstanceAs (Decidable (_ ∧ _))

theorem framesBetween_eq {first last : Seconds} (h : DistanceFits spec first last) :
    framesBetween spec first last = ⌊(last.toRat - first.toRat) * spec.rate.toNat⌋₊ := by
  have hvalue := Seconds.toRat_sub h.1
  rw [framesBetween, spec.bytesIn_eq (hvalue ▸ h.2), hvalue, AudioSpec.wholeBytes,
    Nat.mul_div_cancel _ spec.frameBytes_pos]

/-- A chunk of frames that have room before a limit ends exactly so many frames later. -/
theorem toRat_stop_toneChunk (frequency : Float) {position : Seconds} {frames : Nat}
    (hdistance : DistanceFits spec position limit) (hbefore : position ≤ limit)
    (hinside : frames ≤ framesBetween spec position limit)
    (hsum : Seconds.Fits (position.toRat +
      (frames * spec.frameBytes : Nat) / spec.bytesPerSecond)) :
    ((toneChunk spec frequency position frames).stop spec).toRat =
      position.toRat + frames / spec.rate.toNat := by
  have hnonneg : 0 ≤ (limit.toRat - position.toRat) * spec.rate.toNat :=
    mul_nonneg (sub_nonneg.mpr hbefore) spec.rate_cast_pos.le
  have hlength : (frames : ℚ) ≤ (limit.toRat - position.toRat) * spec.rate.toNat := by
    rw [framesBetween_eq hdistance] at hinside
    exact (Nat.cast_le.mpr hinside).trans (Nat.floor_le hnonneg)
  have hbytes : ((frames * spec.frameBytes : Nat) : ℚ) < 2 ^ 63 := by
    calc ((frames * spec.frameBytes : Nat) : ℚ) = frames * spec.frameBytes := Nat.cast_mul _ _
      _ ≤ (limit.toRat - position.toRat) * spec.rate.toNat * spec.frameBytes :=
        mul_le_mul_of_nonneg_right hlength spec.frameBytes_cast_pos.le
      _ = (limit.toRat - position.toRat) * spec.bytesPerSecond := by
        rw [spec.bytesPerSecond_cast, mul_assoc]
      _ < 2 ^ 63 := hdistance.2
  rw [stop_toneChunk, spec.toRat_add_duration (by exact_mod_cast hbytes) hsum, spec.frames_div]

/-- Frames that are made are no longer left. -/
theorem framesLeft_eq (spec : AudioSpec) (limit position : ℚ) (frames : Nat) :
    ⌊(limit - (position + frames / spec.rate.toNat)) * spec.rate.toNat⌋₊ =
      ⌊(limit - position) * spec.rate.toNat⌋₊ - frames := by
  rw [← sub_sub, sub_mul _ _ (spec.rate.toNat : ℚ), div_mul_cancel₀ _ spec.rate_cast_pos.ne',
    Nat.floor_sub_natCast]

/-- The times computed while chunks are generated from a position up to a limit can be stored. -/
def ChunksFit (spec : AudioSpec) (chunkFrames : Nat) (limit : Seconds) : Nat → Seconds → Prop
  | 0, _ => True
  | bound + 1, position => position < limit →
    DistanceFits spec position limit ∧
      let bytes := min chunkFrames (framesBetween spec position limit) * spec.frameBytes
      0 < bytes → Seconds.Fits (position.toRat + bytes / spec.bytesPerSecond) ∧
        ChunksFit spec chunkFrames limit bound (position + spec.duration bytes)

instance decidableChunksFit (spec : AudioSpec) (chunkFrames : Nat) (limit : Seconds) :
    (bound : Nat) → (position : Seconds) →
      Decidable (ChunksFit spec chunkFrames limit bound position)
  | 0, _ => .isTrue trivial
  | bound + 1, _ =>
    have := decidableChunksFit spec chunkFrames limit bound
    inferInstanceAs (Decidable (_ → _ ∧ (_ → _ ∧ _)))

/-- What generating up to a limit makes of a position: a row of chunks from there to the next one,
which is on the grid and less than a frame before the limit, if not beyond it. -/
structure Supplies (spec : AudioSpec) (limit : ℚ) (position : ℚ) (made : Generated) : Prop where
  spans : Spans spec position made.chunks made.position.toRat
  onGrid : spec.OnGrid made.position.toRat
  reaches : limit - made.position.toRat < 1 / spec.rate.toNat

/-- A position less than a frame before the limit, or beyond it, stays. -/
theorem supplies_stay {position : Seconds} (hgrid : spec.OnGrid position.toRat)
    (hreaches : limit.toRat - position.toRat < 1 / spec.rate.toNat) :
    Supplies spec limit.toRat position.toRat ⟨position, []⟩ :=
  ⟨rfl, hgrid, hreaches⟩

/-- Generating from a position on the grid, with enough steps for the frames that are missing. The
end of the layer is on the grid as well, so it is never less than a frame away. -/
theorem supplies_generateChunks (hframes : 0 < chunkFrames) (hstop : spec.OnGrid stop.toRat)
    {bound : Nat} {position : Seconds} (hgrid : spec.OnGrid position.toRat)
    (hbound : ⌊(limit.toRat - position.toRat) * spec.rate.toNat⌋₊ < bound)
    (hfits : ChunksFit spec chunkFrames limit bound position) :
    Supplies spec limit.toRat position.toRat
      (generateChunks spec chunkFrames frequency limit stop bound position) := by
  have hframe : 0 < 1 / (spec.rate.toNat : ℚ) := one_div_pos.mpr spec.rate_cast_pos
  induction bound generalizing position with
  | zero => omega
  | succ bound ih =>
    rcases lt_or_ge position limit with hbefore | hbeyond
    · obtain ⟨hdistance, hnext⟩ := hfits hbefore
      have hcount := framesBetween_eq hdistance
      have hlater : position.toRat < limit.toRat := hbefore
      rw [generateChunks_succ hbefore]
      by_cases hnone : min chunkFrames (framesBetween spec position limit) = 0
      · have hrest : limit.toRat - position.toRat < 1 / spec.rate.toNat :=
          AudioSpec.lt_of_floor_eq_zero (hcount ▸ by omega)
        have hopen : limit ≠ stop := by
          rintro rfl
          exact absurd (hgrid.le_of_sub_lt hstop hrest) (not_le.mpr hlater)
        rw [if_pos hnone, if_neg hopen]
        exact supplies_stay hgrid hrest
      · rw [if_neg hnone]
        generalize hsome : min chunkFrames (framesBetween spec position limit) = frames
          at hnone hnext
        have hinside : frames ≤ framesBetween spec position limit := by omega
        obtain ⟨hsum, hrest⟩ := hnext (Nat.mul_pos (Nat.pos_of_ne_zero hnone) spec.frameBytes_pos)
        have hplace := toRat_stop_toneChunk frequency hdistance hbefore.le hinside hsum
        have hnextGrid : spec.OnGrid ((toneChunk spec frequency position frames).stop spec).toRat :=
          hplace ▸ hgrid.add (AudioSpec.onGrid_frames frames)
        have hmade := ih hnextGrid
          (by rw [hplace, framesLeft_eq]; omega)
          (by rw [stop_toneChunk]; exact hrest)
        exact
          { spans := by
              refine ⟨rfl, ?_⟩
              rw [size_toneChunk, spec.frames_div, ← hplace]
              exact hmade.spans
            onGrid := hmade.onGrid
            reaches := hmade.reaches }
    · rw [generateChunks_of_le hbeyond]
      refine supplies_stay hgrid (lt_of_le_of_lt ?_ hframe)
      have := Seconds.le_def.mp hbeyond
      linarith

/-- Frames whose distance can be stored are fewer than the turns that are allowed for. -/
theorem frames_lt_chunkBound {position : Seconds}
    (hfits : ChunksFit spec chunkFrames limit chunkBound position) :
    ⌊(limit.toRat - position.toRat) * spec.rate.toNat⌋₊ < chunkBound := by
  rcases lt_or_ge position limit with hbefore | hbeyond
  · obtain ⟨bound, hbound⟩ := Nat.exists_eq_add_one.mpr chunkBound_pos
    rw [hbound] at hfits
    have hbytes := (hfits hbefore).1.2
    have hlength : 0 ≤ (limit.toRat - position.toRat) * spec.rate.toNat :=
      mul_nonneg (sub_nonneg.mpr hbefore.le) spec.rate_cast_pos.le
    have hframe : (1 : ℚ) ≤ spec.frameBytes := by exact_mod_cast spec.frameBytes_pos
    rw [Nat.floor_lt hlength]
    calc (limit.toRat - position.toRat) * spec.rate.toNat
        ≤ (limit.toRat - position.toRat) * spec.rate.toNat * spec.frameBytes :=
          le_mul_of_one_le_right hlength hframe
      _ = (limit.toRat - position.toRat) * spec.bytesPerSecond := by
          rw [spec.bytesPerSecond_cast, mul_assoc]
      _ < 2 ^ 63 := hbytes
      _ ≤ chunkBound := by norm_num [chunkBound]
  · have hnone : (limit.toRat - position.toRat) * spec.rate.toNat ≤ 0 :=
      mul_nonpos_of_nonpos_of_nonneg (sub_nonpos.mpr hbeyond) spec.rate_cast_pos.le
    rw [Nat.floor_of_nonpos hnone]
    exact chunkBound_pos

/-- The times computed to generate a layer for a part of a pass can be stored. -/
def GeneratedFits (spec : AudioSpec) (chunkFrames : Nat) (first last : Seconds) (layer : Layer)
    (position : Option Seconds) : Prop :=
  let position := position.getD (max layer.start first)
  let limit := min last layer.stop
  ChunksFit spec chunkFrames limit chunkBound position

instance (first last : Seconds) (layer : Layer) (position : Option Seconds) :
    Decidable (GeneratedFits spec chunkFrames first last layer position) :=
  decidableChunksFit _ _ _ _ _

/-- What a layer on the grid gets for a part of a pass that begins on the grid. -/
theorem supplies_generated (hframes : 0 < chunkFrames) {first last : Seconds} {layer : Layer}
    (hstart : spec.OnGrid layer.start.toRat) (hstop : spec.OnGrid layer.stop.toRat)
    (hfirst : spec.OnGrid first.toRat) (index : Nat) {position : Option Seconds}
    (hposition : ∀ known, position = some known → spec.OnGrid known.toRat)
    (hfits : GeneratedFits spec chunkFrames first last layer position) :
    Supplies spec (min last layer.stop).toRat (position.getD (max layer.start first)).toRat
      (generated spec chunkFrames first last layer index position) := by
  have hgrid : spec.OnGrid (position.getD (max layer.start first)).toRat := by
    cases position with
    | none =>
      rw [Option.getD_none, Seconds.toRat_max]
      exact AudioSpec.onGrid_max hstart hfirst
    | some known => exact hposition known rfl
  exact supplies_generateChunks hframes hstop hgrid (frames_lt_chunkBound hfits) hfits

end Exact

/-! ### The stock of a key -/

/-- How a key stands, by its position, the chunks made for it and the bytes not read yet: nothing
has happened, or the unread bytes are the last of a row that reaches up to the position. -/
inductive Stock (spec : AudioSpec) : Option Seconds → List Chunk → List UInt8 → Prop
  | untouched : Stock spec none [] []
  | made {first : ℚ} {chunks : List Chunk} {position : Seconds} {unread : List UInt8}
      (spans : Spans spec first chunks position.toRat) (onGrid : spec.OnGrid position.toRat)
      (suffix : unread <:+ chunks.flatMap Chunk.data) : Stock spec (some position) chunks unread

/-- The unread bytes of a key begin at a time, and end at its position. -/
def BeginsAt (spec : AudioSpec) (time : ℚ) (position : Option Seconds) (unread : List UInt8) :
    Prop :=
  ∀ known, position = some known → time + unread.length / spec.bytesPerSecond = known.toRat

/-- A layer that is heard between a time and a target is supplied up to the target, or to its end,
but for less than a frame. -/
def SuppliedTo (spec : AudioSpec) (layer : Layer) (time target : Seconds)
    (position : Option Seconds) : Prop :=
  HeardIn layer time target → ∃ known, position = some known ∧
    (min target layer.stop).toRat - known.toRat < 1 / spec.rate.toNat

section Stock

variable {spec : AudioSpec} {position : Option Seconds} {chunks : List Chunk}
  {unread : List UInt8}

theorem Stock.exists_spans (h : Stock spec position chunks unread) :
    ∃ first last, Spans spec first chunks last := by
  cases h with
  | untouched => exact ⟨0, 0, rfl⟩
  | made spans _ _ => exact ⟨_, _, spans⟩

theorem Stock.onGrid (h : Stock spec position chunks unread) {known : Seconds}
    (hknown : position = some known) : spec.OnGrid known.toRat := by
  cases h with
  | untouched => cases hknown
  | made _ onGrid _ =>
    cases hknown
    exact onGrid

/-- Reading leaves the last bytes. -/
theorem Stock.drop (h : Stock spec position chunks unread) (count : Nat) :
    Stock spec position chunks (unread.drop count) := by
  cases h with
  | untouched =>
    rw [List.drop_nil]
    exact .untouched
  | made spans onGrid suffix => exact .made spans onGrid ((List.drop_suffix _ _).trans suffix)

theorem BeginsAt.drop {time : ℚ} (h : BeginsAt spec time position unread) {count : Nat}
    (hcount : count ≤ unread.length) :
    BeginsAt spec (time + count / spec.bytesPerSecond) position (unread.drop count) := by
  intro known hknown
  rw [← h known hknown, List.length_drop, Nat.cast_sub hcount]
  ring

/-- Every unread byte was made for the time at which it stands in the queue. -/
theorem Stock.exists_place (h : Stock spec position chunks unread) {time : ℚ}
    (hbegins : BeginsAt spec time position unread) {n : Nat} (hn : n < unread.length) :
    ∃ chunk ∈ chunks, ∃ place < chunk.size, chunk.data[place]? = unread[n]? ∧
      chunk.pts.toRat + place / spec.bytesPerSecond = time + n / spec.bytesPerSecond := by
  cases h with
  | untouched => cases hn
  | made spans onGrid suffix =>
    obtain ⟨old, hold⟩ := suffix
    have hend := spans.add_length
    have hplace : old.length + n < (chunks.flatMap Chunk.data).length := by
      rw [← hold, List.length_append]
      omega
    obtain ⟨chunk, hchunk, place, hinside, hbyte, htime⟩ := spans.exists_place hplace
    refine ⟨chunk, hchunk, place, hinside, ?_, ?_⟩
    · rw [hbyte, ← hold, List.getElem?_append_right (Nat.le_add_right _ _), Nat.add_sub_cancel_left]
    · rw [← hbegins _ rfl, ← hold, List.length_append, Nat.cast_add, add_div] at hend
      rw [htime, Nat.cast_add, add_div]
      linarith

/-- A row of new chunks from the position on is put behind what a key has. -/
theorem Stock.supply (h : Stock spec position chunks unread) {limit : ℚ} {start : Seconds}
    {made : Generated} (hmade : Supplies spec limit (position.getD start).toRat made) :
    Stock spec (some made.position) (chunks ++ made.chunks)
      (unread ++ made.chunks.flatMap Chunk.data) := by
  cases h with
  | untouched => exact .made hmade.spans hmade.onGrid List.suffix_rfl
  | made spans onGrid suffix =>
    refine .made (spans.append hmade.spans) hmade.onGrid ?_
    obtain ⟨old, hold⟩ := suffix
    exact ⟨old, by rw [← List.append_assoc, hold, List.flatMap_append]⟩

theorem BeginsAt.supply {start : Seconds} (h : BeginsAt spec start.toRat position unread)
    (hstock : Stock spec position chunks unread) {limit : ℚ} {made : Generated}
    (hmade : Supplies spec limit (position.getD start).toRat made) :
    BeginsAt spec start.toRat (some made.position)
      (unread ++ made.chunks.flatMap Chunk.data) := by
  intro known hknown
  cases hknown
  have hrow := hmade.spans.add_length
  cases hstock with
  | untouched => exact hrow
  | made spans onGrid suffix =>
    rw [Option.getD_some, ← h _ rfl] at hrow
    rw [← hrow, List.length_append]
    push_cast
    ring

end Stock

/-! ### A key in a part of a pass -/

section Outcome

variable {timeline : Timeline} {spec : AudioSpec} {chunkFrames loop : Nat} {first last : Seconds}
  {key : QueueKey} {before after : Option Seconds} {chunks made : List Chunk}
  {unread : List UInt8}

/-- The times computed for the layers of a key that are heard in a part of a pass can be stored. -/
def KeyFits (timeline : Timeline) (spec : AudioSpec) (chunkFrames loop : Nat)
    (first last : Seconds) (key : QueueKey) (before : Option Seconds) : Prop :=
  ∀ layer ∈ timeline.layers, key = ⟨layer.id, loop⟩ → HeardIn layer first last →
    GeneratedFits spec chunkFrames first last layer before

variable (hframes : 0 < chunkFrames) (hgrid : timeline.OnGrid spec)
  (hfirst : spec.OnGrid first.toRat)
  (houtcome : Outcome timeline spec chunkFrames loop first last key before made after)
  (hfits : KeyFits timeline spec chunkFrames loop first last key before)
  (hstock : Stock spec before chunks unread)

include hframes hgrid hfirst houtcome hfits hstock

/-- A key gets nothing, or it is supplied for a layer that is heard. -/
theorem Outcome.cases :
    (made = [] ∧ after = before ∧
      ∀ layer ∈ timeline.layers, key = ⟨layer.id, loop⟩ → ¬ HeardIn layer first last) ∨
    ∃ layer ∈ timeline.layers, key = ⟨layer.id, loop⟩ ∧
      ∃ next : Generated, made = next.chunks ∧ after = some next.position ∧
        Supplies spec (min last layer.stop).toRat (before.getD (max layer.start first)).toRat
          next := by
  cases houtcome with
  | passed silent => exact Or.inl ⟨rfl, rfl, silent⟩
  | served layer index mem key_eq heard =>
    exact Or.inr ⟨layer, mem, key_eq, _, rfl, rfl,
      supplies_generated hframes (hgrid layer mem).1 (hgrid layer mem).2 hfirst index
        (fun _ ↦ hstock.onGrid) (hfits layer mem key_eq heard)⟩

/-- Generating a part of a pass adds to the stock of a key. -/
theorem Outcome.stock : Stock spec after (chunks ++ made) (unread ++ made.flatMap Chunk.data) := by
  rcases houtcome.cases hframes hgrid hfirst hfits hstock with ⟨rfl, rfl, -⟩ |
    ⟨layer, -, -, next, rfl, rfl, hnext⟩
  · simpa using hstock
  · exact hstock.supply hnext

variable (hspan : timeline.OneSpan) {layer : Layer} (hlayer : layer ∈ timeline.layers)
  (hkey : key = ⟨layer.id, loop⟩)

include hspan hlayer hkey

/-- A key that begins where its layer starts, or the part of the pass does, goes on to do so. -/
theorem Outcome.beginsAt
    (hbegins : BeginsAt spec (max layer.start first).toRat before unread) :
    BeginsAt spec (max layer.start first).toRat after (unread ++ made.flatMap Chunk.data) := by
  rcases houtcome.cases hframes hgrid hfirst hfits hstock with ⟨rfl, rfl, -⟩ |
    ⟨other, hother, hsame, next, rfl, rfl, hnext⟩
  · simpa using hbegins
  · obtain ⟨hstart, -⟩ := hspan layer hlayer other hother
      (QueueKey.mk.inj (hkey.symm.trans hsame)).1
    rw [hstart] at hbegins ⊢
    exact hbegins.supply hstock hnext

theorem Outcome.suppliedTo : SuppliedTo spec layer first last after := by
  intro hheard
  rcases houtcome.cases hframes hgrid hfirst hfits hstock with ⟨-, -, hsilent⟩ |
    ⟨other, hother, hsame, next, rfl, rfl, hnext⟩
  · exact absurd hheard (hsilent layer hlayer hkey)
  · obtain ⟨-, hstop⟩ := hspan layer hlayer other hother
      (QueueKey.mk.inj (hkey.symm.trans hsame)).1
    rw [hstop]
    exact ⟨_, rfl, hnext.reaches⟩

end Outcome

end ToneProducer

end TimelineMixer
