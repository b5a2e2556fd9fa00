import TimelineMixer.Proofs.Mix.Cuts
import TimelineMixer.Proofs.Mix.Rounds

/-!
# Every sample of a mix

What filling and mixing do is told here sample by sample. Filling a region from a queue, whatever
its bounds, adds the unread samples in their order, from the beginning of the region on, and touches
nothing else (`fillLayer_stream`). Mixing a period adds to a sample, layer by layer, what each layer
has for its frame (`Layer.sampleAt`): nothing outside the frames between the bounds of the layer,
and inside them the samples of its queue from the first of these frames on (`mixFrame_frames`).
-/

set_option autoImplicit false
set_option relaxedAutoImplicit false

namespace TimelineMixer

/-- A sample with a scaled one added, if there is one. -/
def addScaled (gain x : Float32) : Option Float32 → Float32
  | some sample => x + gain * sample
  | none => x

theorem getElem?_blend (gain : Float32) (out row : List Float32) (i : Nat) :
    (blend gain out row)[i]? = out[i]?.map fun x ↦ addScaled gain x row[i]? := by
  induction out generalizing row i with
  | nil => simp
  | cons x xs ih =>
    cases row with
    | nil =>
      have hkeep : (fun x : Float32 ↦ addScaled gain x ([] : List Float32)[i]?) = id := rfl
      rw [blend_nil, hkeep, Option.map_id, id]
    | cons sample rest =>
      cases i with
      | zero => rfl
      | succ i => exact ih rest i

/-- A row that is laid over an output meets the sample of each place behind its own. -/
theorem getElem?_overlay (gain : Float32) (out : List Float32) (first : Nat) (row : List Float32)
    (i : Nat) :
    (overlay gain out first row)[i]? =
      out[i]?.map fun x ↦ addScaled gain x (if first ≤ i then row[i - first]? else none) := by
  rw [overlay]
  rcases Nat.lt_or_ge i first with hbefore | hbehind
  · have hkeep : (fun x ↦ addScaled gain x (if first ≤ i then row[i - first]? else none)) = id := by
      rw [if_neg (Nat.not_le.mpr hbefore)]
      rfl
    rw [hkeep, Option.map_id, id]
    rcases Nat.lt_or_ge i out.length with hinside | hbeyond
    · rw [List.getElem?_append_left (by rw [List.length_take]; omega),
        List.getElem?_take_of_lt hbefore]
    · have hnone : (out.drop first) = [] := List.drop_eq_nil_iff.mpr (by omega)
      rw [hnone, nil_blend, List.append_nil, List.getElem?_take_of_lt hbefore]
  · rw [if_pos hbehind]
    rcases Nat.lt_or_ge i out.length with hinside | hbeyond
    · have hlength : (out.take first).length = first := List.length_take_of_le (by omega)
      rw [List.getElem?_append_right (by omega), hlength, getElem?_blend, List.getElem?_drop,
        Nat.add_sub_cancel' hbehind]
    · have hlength : (overlay gain out first row).length ≤ i := by
        rw [length_overlay]
        exact hbeyond
      rw [List.getElem?_eq_none hbeyond, ← overlay, List.getElem?_eq_none hlength]
      rfl

/-- Bytes that are laid over an output give their samples one after the other to its places. -/
theorem getElem?_overlay_decode (gain : Float32) (out : List Float32) (first : Nat)
    (bytes : List UInt8) {count : Nat} (h : Sample.width ∣ count) (i : Nat) :
    (overlay gain out first (Sample.decode (bytes.take count)))[i]? =
      out[i]?.map fun x ↦ addScaled gain x
        (if first ≤ i ∧ i < first + count / Sample.width then (Sample.decode bytes)[i - first]?
        else none) := by
  rw [getElem?_overlay, (Sample.decode_cut bytes h).1, List.getElem?_take]
  congr 2
  funext x
  congr 1
  by_cases hbehind : first ≤ i
  · have hinside : i - first < count / Sample.width ↔ i < first + count / Sample.width := by omega
    simp only [hbehind, hinside, if_true, true_and]
  · simp only [hbehind, if_false, false_and]

/-! ### Filling a region -/

section Fill

variable (store : LayerStore) (out : List Float32) (start stop : Nat) (key : QueueKey)
  (gain : Float32)

/-- The bounds of a region may as well be rounded before it is filled. -/
theorem fillLayer_alignDown :
    fillLayer store out (Sample.alignDown (min start (Sample.width * out.length)))
        (Sample.alignDown (min stop (Sample.width * out.length))) key gain =
      fillLayer store out start stop key gain := by
  have hround : ∀ bound, Sample.alignDown (min (Sample.alignDown
      (min bound (Sample.width * out.length))) (Sample.width * out.length)) =
        Sample.alignDown (min bound (Sample.width * out.length)) := by
    intro bound
    have hle : Sample.alignDown (min bound (Sample.width * out.length)) ≤
        Sample.width * out.length := (Nat.sub_le _ _).trans (Nat.min_le_right _ _)
    rw [Nat.min_eq_left hle, Sample.alignDown_of_dvd (Sample.width_dvd_alignDown _)]
  rw [fillLayer, fillLayer, hround, hround]

variable {store}

/-- Filling a region of an output, whatever its bounds, adds the first unread samples of the queue
to the samples of the region, one after the other and as far as both reach, and takes them off the
queue. Four bytes make a sample, the lowest first. All other samples and queues stay as they are.
The queue starves the region exactly if it is shorter. -/
theorem fillLayer_stream (hstore : store.Reached) :
    let first := Sample.alignDown (min start (Sample.width * out.length))
    let last := Sample.alignDown (min stop (Sample.width * out.length))
    let unread := store.unread key
    let count := min unread.length (last - first)
    let mix := fillLayer store out start stop key gain
    (∀ k, k < count / Sample.width → ∃ x a b c d, out[first / Sample.width + k]? = some x ∧
      (unread.drop (Sample.width * k)).take Sample.width = [a, b, c, d] ∧
      mix.out[first / Sample.width + k]? = some (x + gain * .ofBits
        (.ofNat (a.toNat + 256 * (b.toNat + 256 * (c.toNat + 256 * d.toNat)))))) ∧
    (∀ i, i < first / Sample.width ∨ (first + count) / Sample.width ≤ i →
      mix.out[i]? = out[i]?) ∧
    mix.store.unread key = unread.drop count ∧
    (∀ other, other ≠ key → mix.store.find? other = store.find? other) ∧
    mix.mixed = count ∧
    (mix.starved = true ↔ unread.length < last - first) := by
  intro first last unread count mix
  have haligned : ∀ bound, Sample.width ∣
      Sample.alignDown (min bound (Sample.width * out.length)) := fun _ ↦
    Sample.width_dvd_alignDown _
  have hinside : ∀ bound, Sample.alignDown (min bound (Sample.width * out.length)) ≤
      Sample.width * out.length := fun _ ↦ (Nat.sub_le _ _).trans (Nat.min_le_right _ _)
  have hmix := (fillLayer_alignDown store out start stop key gain).symm.trans
    (fillLayer_eq hstore.whole out (haligned start) (haligned stop) (hinside start) (hinside stop)
      key gain)
  have hsample : ∀ i, mix.out[i]? = out[i]?.map fun x ↦ addScaled gain x
      (if first / Sample.width ≤ i ∧
          i < first / Sample.width + (last - first) / Sample.width then
        (Sample.decode unread)[i - first / Sample.width]?
      else none) := fun i ↦ by
    rw [show mix.out = _ from congrArg LayerMix.out hmix]
    exact getElem?_overlay_decode _ _ _ _ (Nat.dvd_sub (haligned stop) (haligned start)) i
  have hdecoded : (Sample.decode unread).length = unread.length / Sample.width :=
    Sample.length_decode unread
  have hlast : last ≤ Sample.width * out.length := hinside stop
  refine ⟨fun k hk ↦ ?_, fun i hi ↦ ?_, ?_, fun other hother ↦ ?_, ?_, ?_⟩
  · have htaken : k < (last - first) / Sample.width :=
      hk.trans_le (Nat.div_le_div_right (Nat.min_le_right _ _))
    have hunread : k < unread.length / Sample.width :=
      hk.trans_le (Nat.div_le_div_right (Nat.min_le_left _ _))
    obtain ⟨a, b, c, d, hbytes, hnext⟩ := Sample.getElem?_decode hunread
    have hplace : first / Sample.width + k < out.length := by
      rw [Sample.width] at htaken hlast ⊢
      omega
    refine ⟨_, a, b, c, d, List.getElem?_eq_getElem hplace, hbytes, ?_⟩
    rw [hsample, List.getElem?_eq_getElem hplace,
      if_pos ⟨Nat.le_add_right _ _, Nat.add_lt_add_left htaken _⟩, Nat.add_sub_cancel_left, hnext,
      Sample.ofBytes_eq]
    rfl
  · have hnone : (if first / Sample.width ≤ i ∧
        i < first / Sample.width + (last - first) / Sample.width then
          (Sample.decode unread)[i - first / Sample.width]? else none) = none := by
      split_ifs with hregion
      · simp only [Sample.width] at hi hdecoded hregion ⊢
        exact List.getElem?_eq_none (by omega)
      · rfl
    rw [hsample, hnone]
    exact Option.map_id'
  · rw [show mix.store = _ from congrArg LayerMix.store hmix, LayerStore.unread_read,
      Pi.single_eq_same, List.drop_eq_drop_min, Nat.min_comm]
  · rw [show mix.store = _ from congrArg LayerMix.store hmix, LayerStore.find?_read,
      Pi.single_eq_of_ne hother]
    simp only [LayerQueue.read_zero, Option.map_id']
  · exact (congrArg LayerMix.mixed hmix).trans (Nat.min_comm _ _)
  · rw [show mix.starved = _ from congrArg LayerMix.starved hmix]
    exact decide_eq_true_iff

end Fill

/-- A region from the sixth byte to far beyond seven samples begins at the second sample. The five
samples of two chunks are added to it, and it starves. -/
theorem fillLayer_stream_offbeat : LayerStore.offbeat.Reached ∧
    let out : List Float32 := List.replicate 7 0.5
    let unread := LayerStore.offbeat.unread ⟨.ofNat 1, 0⟩
    let mix := fillLayer .offbeat out 6 999 ⟨.ofNat 1, 0⟩ 0.25
    (∀ k, k < 5 → ∃ x a b c d, out[1 + k]? = some x ∧
      (unread.drop (Sample.width * k)).take Sample.width = [a, b, c, d] ∧
      mix.out[1 + k]? = some (x + 0.25 * .ofBits
        (.ofNat (a.toNat + 256 * (b.toNat + 256 * (c.toNat + 256 * d.toNat)))))) ∧
    (∀ i, i < 1 ∨ 6 ≤ i → mix.out[i]? = out[i]?) ∧
    mix.store.unread ⟨.ofNat 1, 0⟩ = [] ∧ mix.mixed = 20 ∧ mix.starved = true := by
  obtain ⟨hregion, hothers, hunread, -, hmixed, hstarved⟩ :=
    fillLayer_stream (List.replicate 7 0.5) 6 999 ⟨.ofNat 1, 0⟩ 0.25 LayerStore.reached_offbeat
  have hlength : (LayerStore.offbeat.unread ⟨.ofNat 1, 0⟩).length = 20 := by decide +kernel
  rw [hlength] at hregion hothers hunread hmixed hstarved
  exact ⟨LayerStore.reached_offbeat, hregion, hothers, hunread.trans (by decide +kernel), hmixed,
    hstarved.mpr (by decide)⟩

/-! ### The frames of a layer -/

namespace Layer

variable (spec : AudioSpec) (time : ℚ) (frames : Nat) (layer : Layer)

/-- The first frame of a period from the start of the layer on. -/
def firstFrame : ℤ :=
  max 0 ⌊(layer.start.toRat - time) * spec.rate.toNat⌋

/-- The frame of a period of so many frames at which the layer stops, or the period does. -/
def endFrame : ℤ :=
  min frames ⌊(layer.stop.toRat - time) * spec.rate.toNat⌋

/-- The period has a frame between the bounds of the layer. -/
def Audible : Prop :=
  layer.firstFrame spec time < layer.endFrame spec time frames

instance : Decidable (layer.Audible spec time frames) :=
  inferInstanceAs (Decidable (_ < _))

/-- The bytes of the frames between the bounds of the layer. -/
def frameRegion : Nat :=
  (layer.endFrame spec time frames - layer.firstFrame spec time).toNat * spec.frameBytes

/-- The sample that the layer has for a place of the period: nothing outside its frames, and inside
them its queued samples, beginning with the first of these frames. -/
def sampleAt (loop : Nat) (store : LayerStore) (place : Nat) : Option Float32 :=
  let frame : ℤ := (place / spec.channels.toNat : Nat)
  if layer.firstFrame spec time ≤ frame ∧ frame < layer.endFrame spec time frames then
    (Sample.decode (store.unread ⟨layer.id, loop⟩))[place -
      (layer.firstFrame spec time).toNat * spec.channels.toNat]?
  else none

theorem audible_iff : layer.Audible spec time frames ↔ layer.frameRegion spec time frames ≠ 0 := by
  have hframe := spec.frameBytes_pos
  rw [Audible, frameRegion, Nat.mul_ne_zero_iff]
  omega

/-- The part of a period in which the layer is heard is the part of its frames. -/
theorem heard_eq_frameRegion :
    layer.heard spec time (frames * spec.frameBytes) = layer.frameRegion spec time frames := by
  rw [heard, lastByte, firstByte, AudioSpec.wholeBytes, AudioSpec.wholeBytes, Nat.mul_min_mul_right,
    Nat.mul_min_mul_right, ← Nat.sub_mul, frameRegion, endFrame, firstFrame, ← Int.floor_toNat,
    ← Int.floor_toNat]
  congr 1
  omega

variable {spec time frames layer}

theorem firstByte_eq_firstFrame (h : layer.Audible spec time frames) :
    layer.firstByte spec time (frames * spec.frameBytes) =
      (layer.firstFrame spec time).toNat * spec.frameBytes := by
  rw [Audible, endFrame, firstFrame] at h
  rw [firstByte, AudioSpec.wholeBytes, Nat.mul_min_mul_right, firstFrame, ← Int.floor_toNat]
  congr 1
  omega

/-- A place lies among so many samples behind the first ones exactly if its frame does. -/
theorem sampleAt_range {channels : Nat} (hchannels : 0 < channels) {first last : ℤ}
    (hfirst : 0 ≤ first) (hlast : first ≤ last) (place : Nat) :
    (first.toNat * channels ≤ place ∧
        place < first.toNat * channels + (last - first).toNat * channels) ↔
      first ≤ (place / channels : Nat) ∧ ((place / channels : Nat) : ℤ) < last := by
  rw [← Nat.add_mul, ← Nat.le_div_iff_mul_le hchannels, ← Nat.div_lt_iff_lt_mul hchannels]
  omega

/-- Mixing a layer into an output adds to every sample what the layer has for its place. -/
theorem getElem?_mixInto (loop : Nat) (store : LayerStore) {out : List Float32}
    (hout : out.length = frames * spec.channels.toNat) (place : Nat) :
    (layer.mixInto spec time loop store out)[place]? = out[place]?.map fun x ↦
      addScaled (Sample.positivePart layer.gain) x
        (layer.sampleAt spec time frames loop store place) := by
  have hwidth : 0 < Sample.width := by decide
  have hchannels : 0 < spec.channels.toNat := by
    have hframe := spec.frameBytes_pos
    rw [spec.frameBytes_eq] at hframe
    exact Nat.pos_of_mul_pos_left hframe
  have hsize : Sample.width * out.length = frames * spec.frameBytes := by
    rw [hout, spec.frameBytes_eq, Nat.mul_left_comm]
  have hsamples : ∀ count, count * spec.frameBytes / Sample.width =
      count * spec.channels.toNat := by
    intro count
    rw [spec.frameBytes_eq, Nat.mul_left_comm, Nat.mul_div_cancel_left _ hwidth]
  have hheard : Sample.width ∣ layer.heard spec time (frames * spec.frameBytes) :=
    spec.width_dvd_frameBytes.trans (layer.frameBytes_dvd_heard time (Nat.dvd_mul_left _ _))
  rw [mixInto, hsize, getElem?_overlay_decode _ _ _ _ hheard, sampleAt, heard_eq_frameRegion]
  congr 2
  funext x
  by_cases haudible : layer.Audible spec time frames
  · rw [firstByte_eq_firstFrame haudible, frameRegion, hsamples, hsamples]
    exact congrArg _
      (if_congr (sampleAt_range hchannels (le_max_left _ _) haudible.le place) rfl rfl)
  · have hnone : layer.frameRegion spec time frames = 0 :=
      not_not.mp (mt (audible_iff ..).mpr haudible)
    rw [Audible] at haudible
    rw [hnone, Nat.zero_div, if_neg (by omega), if_neg (by omega)]

end Layer

/-- Mixing layers into an output adds to every sample, one after the other, what each layer has for
its place. -/
theorem getElem?_foldl_mixInto {spec : AudioSpec} {frames : Nat} (time : ℚ) (loop : Nat)
    (store : LayerStore) (layers : List Layer) {out : List Float32}
    (hout : out.length = frames * spec.channels.toNat) (place : Nat) :
    (layers.foldl (Layer.mixInto spec time loop store) out)[place]? = out[place]?.map fun x ↦
      layers.foldl (fun x layer ↦ addScaled (Sample.positivePart layer.gain) x
        (layer.sampleAt spec time frames loop store place)) x := by
  induction layers generalizing out with
  | nil => exact Option.map_id'.symm
  | cons layer rest ih =>
    rw [List.foldl_cons, ih (by rw [Layer.length_mixInto, hout]),
      Layer.getElem?_mixInto loop store hout, Option.map_map]
    rfl

/-! ### Queues that were only pushed, popped and filled from -/

namespace LayerStore.Reached

theorem balanced {store : LayerStore} (h : store.Reached) : store.Each LayerQueue.Balanced := by
  induction h with
  | empty => exact each_empty
  | push _ key _ _ ih =>
    exact ih.push key LayerQueue.balanced_empty fun hpos _ hqueue ↦ hqueue.push hpos
  | pop _ key ih => exact ih.modify key fun _ hqueue ↦ hqueue.pop
  | fill _ out start stop key gain ih => exact ((takes_fillLayer _ _ _ _ _ _).balanced ih).1

/-- What is counted as queued under a key is what is unread. -/
theorem queued_eq {store : LayerStore} (h : store.Reached) (key : QueueKey) :
    store.queued key = (store.unread key).length := by
  rw [queued, unread]
  cases hfind : store.find? key with
  | none => rfl
  | some queue => exact (h.balanced.find? hfind).queued_eq

end LayerStore.Reached

/-! ### A whole period -/

section Period

variable {spec : AudioSpec} {current next : Seconds} {frames : Nat}

/-- A period of whole frames adds to every sample, layer by layer, what the queue of the layer has
for its frame, if the frame lies between the bounds of the layer. These queues lose the bytes of
those frames, and all other queues stay as they are. Counted are the layers with such frames, the
ones among them whose queue is too short, and the bytes they take. Assumes: different layers have
different names, the output fits in memory, the end of the period is exact, and the distances that
are computed can be stored. -/
theorem mixFrame_frames {store : LayerStore} (hstore : store.Reached) {out : List Float32}
    (hout : out.length = frames * spec.channels.toNat)
    (hmemory : Sample.width * out.length < 2 ^ 63)
    (hnext : next.toRat = current.toRat + frames / spec.rate.toNat) {atom : Atom}
    (hdistinct : (atom.layers.map Layer.id).Nodup)
    (hfit : ∀ layer ∈ atom.layers, layer.BoundsFit current next) (loop : Nat) :
    let key := fun layer : Layer ↦ QueueKey.mk layer.id loop
    let audible := fun layer : Layer ↦ layer.Audible spec current.toRat frames
    let region := fun layer : Layer ↦ layer.frameRegion spec current.toRat frames
    let mix := mixFrame store out atom current next loop spec
    (∀ place, mix.out[place]? = out[place]?.map fun x ↦
      atom.layers.foldl (fun x layer ↦ addScaled (Sample.positivePart layer.gain) x
        (layer.sampleAt spec current.toRat frames loop store place)) x) ∧
    (∀ layer ∈ atom.layers,
      mix.store.unread (key layer) = (store.unread (key layer)).drop (region layer)) ∧
    (∀ other, (∀ layer ∈ atom.layers, audible layer → other ≠ key layer) →
      mix.store.find? other = store.find? other) ∧
    mix.active = atom.layers.countP (fun layer ↦ audible layer) ∧
    mix.starved = atom.layers.countP (fun layer ↦
      audible layer ∧ store.queued (key layer) < region layer) ∧
    mix.mixed = ((atom.layers.filter fun layer ↦ audible layer).map fun layer ↦
      min (store.queued (key layer)) (region layer)).sum := by
  intro key audible region mix
  have hsize : Sample.width * out.length = frames * spec.frameBytes := by
    rw [hout, spec.frameBytes_eq, Nat.mul_left_comm]
  have hperiod : spec.Period current next (Sample.width * out.length) :=
    { whole := hsize ▸ Nat.dvd_mul_left _ _
      memory := hmemory
      next_eq := by rw [hnext, hsize, spec.frames_div] }
  have hheard : ∀ layer : Layer,
      layer.heard spec current.toRat (Sample.width * out.length) = region layer := fun layer ↦ by
    rw [hsize]
    exact layer.heard_eq_frameRegion spec current.toRat frames
  have haudible : ∀ layer : Layer, audible layer ↔ region layer ≠ 0 := fun layer ↦
    layer.audible_iff spec current.toRat frames
  have hmix := mixFrame_eq hstore.whole hperiod hdistinct hfit loop
  have hleft : mix.store = _ := congrArg FrameMix.store hmix
  refine ⟨fun place ↦ ?_, fun layer hlayer ↦ ?_, fun other hother ↦ ?_, ?_, ?_, ?_⟩
  · rw [show mix.out = _ from congrArg FrameMix.out hmix]
    exact getElem?_foldl_mixInto _ loop store atom.layers hout place
  · rw [hleft, LayerStore.unread_read, heardCounts_of_mem _ _ _ _ hdistinct hlayer, hheard]
  · have hnone : heardCounts spec current.toRat loop (Sample.width * out.length) atom.layers other =
        0 := by
      by_cases hmine : ∃ layer ∈ atom.layers, other = key layer
      · obtain ⟨layer, hlayer, rfl⟩ := hmine
        rw [heardCounts_of_mem _ _ _ _ hdistinct hlayer, hheard]
        exact not_not.mp fun hregion ↦ hother layer hlayer ((haudible layer).mpr hregion) rfl
      · exact heardCounts_of_forall_ne _ _ _ _ fun layer hlayer hsame ↦
          hmine ⟨layer, hlayer, hsame⟩
    rw [hleft, LayerStore.find?_read, hnone]
    simp only [LayerQueue.read_zero, Option.map_id']
  · refine (congrArg FrameMix.active hmix).trans (List.countP_congr fun layer _ ↦ ?_)
    simp only [hheard, decide_eq_true_eq]
    exact (haudible layer).symm
  · refine (congrArg FrameMix.starved hmix).trans (List.countP_congr fun layer _ ↦ ?_)
    simp only [Layer.starves, hheard, decide_eq_true_eq, hstore.queued_eq, haudible]
    exact ⟨fun hshort ↦ ⟨Nat.ne_zero_of_lt hshort, hshort⟩, And.right⟩
  · refine (congrArg FrameMix.mixed hmix).trans ?_
    simp only [hheard, hstore.queued_eq, Nat.min_comm (region _)]
    rw [← List.sum_map_filter_add_sum_map_filter_not audible, Nat.add_eq_left]
    refine List.sum_eq_zero fun count hcount ↦ ?_
    obtain ⟨layer, hlayer, rfl⟩ := List.mem_map.mp hcount
    have hsilent : region layer = 0 := by simpa [haudible] using List.of_mem_filter hlayer
    rw [hsilent, Nat.min_zero]

end Period

/-- The offbeat layer among one that begins when two seconds are over, one that ends in the frame it
begins in, and one that began before. -/
def Atom.beset : Atom :=
  ⟨.ofInt 0, .ofInt 4,
    [⟨.ofNat 1, .ofMillis 750, .ofMillis 2600, 1⟩, ⟨.ofNat 2, .ofInt 2, .ofInt 3, 1⟩,
      ⟨.ofNat 3, .ofMillis 600, .ofMillis 900, 1⟩, ⟨.ofNat 4, .ofInt (-1), .ofMillis 1200, 1⟩]⟩

/-- In the first two seconds the offbeat layer has its last three frames. The layer that began
before has two, and no queue. The others touch the period, and have none. -/
theorem mixFrame_frames_beset :
    let out := List.replicate 4 0
    (LayerStore.offbeat.Reached ∧ out.length = 4 * AudioSpec.twoHertz.channels.toNat ∧
      Sample.width * out.length < 2 ^ 63 ∧
      (Seconds.ofInt 2).toRat =
        (0 : Seconds).toRat + (4 : Nat) / (AudioSpec.twoHertz.rate.toNat : ℚ) ∧
      (Atom.beset.layers.map Layer.id).Nodup ∧
      ∀ layer ∈ Atom.beset.layers, layer.BoundsFit 0 (.ofInt 2)) ∧
    let mix := mixFrame .offbeat out .beset 0 (.ofInt 2) 0 .twoHertz
    mix.active = 2 ∧ mix.starved = 1 ∧ mix.mixed = 12 ∧
      mix.store.unread ⟨.ofNat 1, 0⟩ = (LayerStore.offbeat.unread ⟨.ofNat 1, 0⟩).drop 12 ∧
      mix.out[0]? = some 0 ∧
      mix.out[1]? =
        (Sample.decode (LayerStore.offbeat.unread ⟨.ofNat 1, 0⟩))[0]?.map fun sample ↦
          0 + Sample.positivePart 1 * sample := by
  intro out
  have hout : out.length = 4 * AudioSpec.twoHertz.channels.toNat := by decide
  have hmemory : Sample.width * out.length < 2 ^ 63 := by decide
  have hnext : (Seconds.ofInt 2).toRat =
      (0 : Seconds).toRat + (4 : Nat) / (AudioSpec.twoHertz.rate.toNat : ℚ) := by decide +kernel
  have hdistinct : (Atom.beset.layers.map Layer.id).Nodup := by decide +kernel
  have hfit : ∀ layer ∈ Atom.beset.layers, layer.BoundsFit 0 (.ofInt 2) := by decide +kernel
  obtain ⟨hsample, hread, -, hactive, hstarved, hmixed⟩ :=
    mixFrame_frames LayerStore.reached_offbeat hout hmemory hnext hdistinct hfit 0
  refine ⟨⟨LayerStore.reached_offbeat, hout, hmemory, hnext, hdistinct, hfit⟩,
    hactive.trans (by decide +kernel), hstarved.trans (by decide +kernel),
    hmixed.trans (by decide +kernel), ?_, (hsample 0).trans (by decide +kernel),
    (hsample 1).trans (by decide +kernel)⟩
  exact (hread _ List.mem_cons_self).trans (by decide +kernel)

end TimelineMixer
