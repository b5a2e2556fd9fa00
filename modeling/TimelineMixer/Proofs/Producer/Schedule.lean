import TimelineMixer.Proofs.Producer.FrameCount

/-!
# Filling ahead by any schedule

A producer may be asked often or seldom, and may cut what it makes into chunks of any size. While
the clock does not go back, what a key has got is a function of two fills only: the first in which
its layer is heard, and the last before the layer ends (`spans_planned`). The chunks are a row of
exact times from the later of the start of the layer and the first fill, and they have the whole
frames up to the end of the layer or to the lead of the last fill (`FilledTo`, `filledTo_planned`).

A fill after the end of the layer adds nothing, however much was left to do: the row stays where the
fills before the end have taken it (`not_spans_planned_late`).
-/

set_option autoImplicit false
set_option relaxedAutoImplicit false

namespace TimelineMixer.ToneProducer

/-- A key that was filled from a time up to a target: a row of chunks begins at the time and ends
near the target, and its position goes on from there. -/
inductive FilledTo (spec : AudioSpec) (stop : Seconds) (first target : ℚ) :
    Option Seconds → List Chunk → Prop
  | row {position : Seconds} {chunks : List Chunk} {reached : ℚ}
      (covers : Covers spec stop first chunks reached) (goesOn : GoesOn spec stop reached position)
      (nears : Nears spec first target reached) :
      FilledTo spec stop first target (some position) chunks

section FilledTo

variable {spec : AudioSpec} {stop : Seconds} {first target : ℚ} {known : Option Seconds}
  {chunks : List Chunk}

/-- The row has the whole frames up to the target. -/
theorem FilledTo.length_eq (h : FilledTo spec stop first target known chunks) :
    (chunks.flatMap Chunk.data).length = spec.wholeBytes (target - first) := by
  cases h with
  | row covers goesOn nears =>
    have hreached := covers.spans.add_length
    have hle := nears.le
    have hwithin := nears.within
    rcases le_total first target with hahead | hbehind
    · rw [max_eq_right hahead] at hle
      exact (AudioSpec.wholeBytes_eq covers.whole (by linarith) (by linarith)).symm
    · -- A row does not end before it begins, so nothing was made.
      rw [max_eq_left hbehind] at hle
      have hnone : ((chunks.flatMap Chunk.data).length : ℚ) / spec.bytesPerSecond ≤ 0 := by
        linarith
      rw [div_le_iff₀ spec.bytesPerSecond_cast_pos, zero_mul] at hnone
      rw [spec.wholeBytes_of_nonpos (sub_nonpos.mpr hbehind)]
      exact Nat.le_zero.mp (by exact_mod_cast hnone)

/-- The row lasts as long as its bytes. -/
theorem FilledTo.spans (h : FilledTo spec stop first target known chunks) :
    Spans spec first chunks
      (first + (chunks.flatMap Chunk.data).length / spec.bytesPerSecond) := by
  cases h with
  | row covers goesOn nears =>
    rw [covers.spans.add_length]
    exact covers.spans

/-- The row ends within the layer. -/
theorem FilledTo.le_stop (h : FilledTo spec stop first target known chunks) :
    first + (chunks.flatMap Chunk.data).length / spec.bytesPerSecond ≤ stop.toRat := by
  cases h with
  | row covers goesOn nears =>
    rw [covers.spans.add_length]
    exact covers.le

/-- Less than a frame is missing between the end of the row and the target. -/
theorem FilledTo.lt_add_frame (h : FilledTo spec stop first target known chunks) :
    target < first + (chunks.flatMap Chunk.data).length / spec.bytesPerSecond +
      1 / spec.rate.toNat := by
  cases h with
  | row covers goesOn nears =>
    have hwithin := nears.within
    rw [covers.spans.add_length]
    linarith

variable {chunkFrames : Nat} {now horizon : Seconds} {layer : Layer}

/-- The first fill begins with the layer, or at the clock if the layer began before. -/
theorem filledTo_generated (hframes : 0 < chunkFrames) (horder : layer.start ≤ layer.stop)
    (hheard : HeardIn layer now horizon)
    (hfits : GeneratedFits spec chunkFrames now horizon layer none) (index : Nat) :
    let made := generated spec chunkFrames now horizon layer index none
    FilledTo spec layer.stop (max layer.start now).toRat (min horizon layer.stop).toRat
      (some made.position) made.chunks := by
  obtain ⟨reached, hcovers, hgoes, hnears⟩ :=
    covers_generated hframes (max_le horder hheard.1.le) hfits index
  exact .row hcovers hgoes hnears

/-- A later fill goes on with the row, up to a target that is not before the last one. -/
theorem FilledTo.append (h : FilledTo spec layer.stop first target known chunks)
    (hframes : 0 < chunkFrames) (hlater : target ≤ (min horizon layer.stop).toRat)
    (hfits : GeneratedFits spec chunkFrames now horizon layer known) (index : Nat) :
    let made := generated spec chunkFrames now horizon layer index known
    FilledTo spec layer.stop first (min horizon layer.stop).toRat (some made.position)
      (chunks ++ made.chunks) := by
  intro made
  have hwider := max_le_max_left first hlater
  cases h with
  | @row position _ reached covers goesOn nears =>
    have hnear := nears.le.trans hwider
    rcases goesOn with hposition | ⟨rfl, hrest⟩
    · have hinside : position ≤ layer.stop := Seconds.le_def.mpr (hposition ▸ covers.le)
      obtain ⟨last, hcovers, hgoes, hnext⟩ := covers_generated hframes hinside hfits index
      rw [Option.getD_some, hposition] at hcovers hnext
      refine .row (covers.append hcovers) hgoes ⟨hnext.le.trans ?_, hnext.within⟩
      exact max_le hnear (le_max_right _ _)
    · -- Less than a frame was left before the end, and it is given up.
      have hmade : made = ⟨layer.stop, []⟩ := generated_of_stop_le _ _ index le_rfl
      have hend : (min horizon layer.stop).toRat ≤ layer.stop.toRat :=
        Seconds.le_def.mp (min_le_right _ _)
      rw [hmade, List.append_nil]
      exact .row covers (Or.inr ⟨rfl, hrest⟩) ⟨hnear, by linarith⟩

end FilledTo

/-! ### One fill -/

section Fill

variable {producer : ToneProducer} {deck : Deck} {layer : Layer}
  (hspeaks : deck.timeline.SpeaksFor deck.time (deck.time + producer.lead) layer)

include hspeaks

/-- A fill in which a layer is not heard leaves its key alone. -/
theorem plan_unheard (hunheard : ¬ HeardIn layer deck.time (deck.time + producer.lead)) :
    chunksFor ⟨layer.id, deck.clock.loop⟩ (producer.plan deck).1 = [] ∧
      (producer.plan deck).2.positions.lookup ⟨layer.id, deck.clock.loop⟩ =
        producer.positions.lookup ⟨layer.id, deck.clock.loop⟩ := by
  rcases plan_speaker producer hspeaks with ⟨-, hchunks, hposition⟩ | ⟨hheard, -⟩
  · exact ⟨hchunks, hposition⟩
  · exact absurd hheard hunheard

variable (hframes : 0 < producer.chunkFrames)
  (hheard : HeardIn layer deck.time (deck.time + producer.lead))
  (hfits : GeneratedFits deck.spec producer.chunkFrames deck.time (deck.time + producer.lead) layer
    (producer.positions.lookup ⟨layer.id, deck.clock.loop⟩))

include hframes hheard hfits

theorem filledTo_plan (horder : layer.start ≤ layer.stop)
    (hfresh : producer.positions.lookup ⟨layer.id, deck.clock.loop⟩ = none) :
    FilledTo deck.spec layer.stop (max layer.start deck.time).toRat
      (min (deck.time + producer.lead) layer.stop).toRat
      ((producer.plan deck).2.positions.lookup ⟨layer.id, deck.clock.loop⟩)
      (chunksFor ⟨layer.id, deck.clock.loop⟩ (producer.plan deck).1) := by
  rcases plan_speaker producer hspeaks with ⟨hunheard, -⟩ | ⟨-, index, hchunks, hposition⟩
  · exact absurd hheard hunheard
  · rw [hfresh] at hchunks hposition hfits
    rw [hchunks, hposition]
    exact filledTo_generated hframes horder hheard hfits index

theorem FilledTo.plan {first : ℚ} {horizon : Seconds} {chunks : List Chunk}
    (h : FilledTo deck.spec layer.stop first (min horizon layer.stop).toRat
      (producer.positions.lookup ⟨layer.id, deck.clock.loop⟩) chunks)
    (hlater : horizon ≤ deck.time + producer.lead) :
    FilledTo deck.spec layer.stop first (min (deck.time + producer.lead) layer.stop).toRat
      ((producer.plan deck).2.positions.lookup ⟨layer.id, deck.clock.loop⟩)
      (chunks ++ chunksFor ⟨layer.id, deck.clock.loop⟩ (producer.plan deck).1) := by
  rcases plan_speaker producer hspeaks with ⟨hunheard, -⟩ | ⟨-, index, hchunks, hposition⟩
  · exact absurd hheard hunheard
  · rw [hchunks, hposition]
    exact h.append hframes (Seconds.le_def.mp (min_le_min_right _ hlater)) hfits index

end Fill

/-! ### A run of fills -/

section Run

variable {timeline : Timeline} {spec : AudioSpec} {loop : Nat} {layer : Layer}
  {producer : ToneProducer} {decks : List Deck}

theorem planAll_concat (producer : ToneProducer) (decks : List Deck) (deck : Deck) :
    producer.planAll (decks ++ [deck]) = ((producer.planAll decks).plan deck).2 := by
  rw [planAll, List.foldl_concat]
  rfl

theorem chunksFor_planned_concat (producer : ToneProducer) (key : QueueKey) (decks : List Deck)
    (deck : Deck) : chunksFor key (producer.planned (decks ++ [deck])) =
      chunksFor key (producer.planned decks) ++
        chunksFor key ((producer.planAll decks).plan deck).1 := by
  rw [planned, gather_concat, chunksFor_append]
  rfl

theorem planAll_settings (producer : ToneProducer) (decks : List Deck) :
    (producer.planAll decks).lead = producer.lead ∧
      (producer.planAll decks).chunkFrames = producer.chunkFrames := by
  induction decks using List.reverseRecOn with
  | nil => exact ⟨rfl, rfl⟩
  | append_singleton decks deck ih =>
    obtain ⟨hlead, hframes⟩ := plan_settings (producer.planAll decks) deck
    rw [planAll_concat, hlead, hframes]
    exact ih

theorem plansFit_append {first second : List Deck} :
    PlansFit layer loop producer (first ++ second) ↔
      PlansFit layer loop producer first ∧ PlansFit layer loop (producer.planAll first) second := by
  induction first generalizing producer with
  | nil => exact (iff_of_eq (true_and _)).symm
  | cons deck rest ih =>
    rw [List.cons_append, PlansFit, PlansFit, ih, and_assoc]
    rfl

/-- No planned chunk has more frames than a chunk may have. -/
theorem size_of_mem_planned (producer : ToneProducer)
    (hspec : ∀ deck ∈ decks, deck.spec = spec) {key : QueueKey} {chunk : Chunk}
    (h : chunk ∈ chunksFor key (producer.planned decks)) : ∃ frames,
      chunk.size = frames * spec.frameBytes ∧ 1 ≤ frames ∧ frames ≤ producer.chunkFrames := by
  induction decks using List.reverseRecOn with
  | nil => cases h
  | append_singleton decks deck ih =>
    rw [chunksFor_planned_concat] at h
    rcases List.mem_append.mp h with hearlier | hlast
    · exact ih (fun other hother ↦ hspec other (List.mem_append_left _ hother)) hearlier
    · obtain rfl := hspec deck (List.mem_append_right _ List.mem_cons_self)
      rw [← (planAll_settings producer decks).2]
      obtain ⟨pass, first, last, hmade⟩ := plan_outcome (producer.planAll decks) deck key
      generalize chunksFor key ((producer.planAll decks).plan deck).1 = chunks at hmade hlast
      generalize ((producer.planAll decks).plan deck).2.positions.lookup key = after at hmade
      cases hmade with
      | served other index mem key_eq heard =>
        obtain ⟨hpos, frames, hframes⟩ := size_of_mem_generateChunks hlast
        have hle := size_le_of_mem_generateChunks hlast
        have hframe := deck.spec.frameBytes_pos
        rw [hframes] at hpos hle
        refine ⟨frames, by rw [hframes, Nat.mul_comm], Nat.pos_of_mul_pos_left hpos, ?_⟩
        rw [Nat.mul_comm] at hle
        exact Nat.le_of_mul_le_mul_right hle hframe
      | passed silent => cases hlast

variable
  (hspeaks : ∀ deck ∈ decks, timeline.SpeaksFor deck.time (deck.time + producer.lead) layer)
  (hshows : ∀ deck ∈ decks, Shows deck timeline loop spec)

include hspeaks hshows

/-- A key gets nothing before its layer is heard. -/
theorem planned_unheard
    (hsilent : ∀ deck ∈ decks, ¬ HeardIn layer deck.time (deck.time + producer.lead)) :
    chunksFor ⟨layer.id, loop⟩ (producer.planned decks) = [] ∧
      (producer.planAll decks).positions.lookup ⟨layer.id, loop⟩ =
        producer.positions.lookup ⟨layer.id, loop⟩ := by
  induction decks using List.reverseRecOn with
  | nil => exact ⟨rfl, rfl⟩
  | append_singleton decks deck ih =>
    have hlast := List.mem_append_right decks (List.mem_singleton_self deck)
    obtain ⟨rfl, rfl, rfl⟩ := hshows deck hlast
    obtain ⟨hchunks, hposition⟩ := ih
      (fun other hother ↦ hspeaks other (List.mem_append_left _ hother))
      (fun other hother ↦ hshows other (List.mem_append_left _ hother))
      fun other hother ↦ hsilent other (List.mem_append_left _ hother)
    have hspoken := hspeaks deck hlast
    have hunheard := hsilent deck hlast
    rw [← (planAll_settings producer decks).1] at hspoken hunheard
    obtain ⟨hnone, hsame⟩ := plan_unheard hspoken hunheard
    rw [chunksFor_planned_concat, planAll_concat, hchunks, hnone, hsame]
    exact ⟨rfl, hposition⟩

variable {lead : Seconds} {deck final : Deck}

omit hspeaks hshows

/-- The first of some fills in which a layer is heard. -/
def firstHearing? (layer : Layer) (lead : Seconds) (decks : List Deck) : Option Deck :=
  decks.find? fun deck ↦ HeardIn layer deck.time (deck.time + lead)

/-- The last of some fills that come before a layer ends. -/
def lastBeforeStop? (layer : Layer) (decks : List Deck) : Option Deck :=
  (decks.filter fun deck ↦ deck.time < layer.stop).getLast?

theorem heardIn_of_firstHearing? (h : firstHearing? layer lead decks = some deck) :
    deck ∈ decks ∧ HeardIn layer deck.time (deck.time + lead) := by
  rw [firstHearing?] at h
  exact ⟨List.mem_of_find?_eq_some h, by simpa using List.find?_some h⟩

theorem firstHearing?_concat (layer : Layer) (lead : Seconds) (decks : List Deck) (deck : Deck) :
    firstHearing? layer lead (decks ++ [deck]) =
      (firstHearing? layer lead decks).or (firstHearing? layer lead [deck]) :=
  List.find?_append

theorem lastBeforeStop?_concat_of_lt (decks : List Deck) (h : deck.time < layer.stop) :
    lastBeforeStop? layer (decks ++ [deck]) = some deck := by
  rw [lastBeforeStop?, List.filter_append, List.filter_cons_of_pos (by simpa using h),
    List.filter_nil, List.getLast?_concat]

theorem lastBeforeStop?_concat_of_le (decks : List Deck) (h : layer.stop ≤ deck.time) :
    lastBeforeStop? layer (decks ++ [deck]) = lastBeforeStop? layer decks := by
  rw [lastBeforeStop?, List.filter_append, List.filter_cons_of_neg (by simpa using h),
    List.filter_nil, List.append_nil]
  rfl

theorem mem_of_lastBeforeStop? (h : lastBeforeStop? layer decks = some final) : final ∈ decks :=
  List.mem_of_mem_filter (List.mem_of_getLast? h)

theorem exists_lastBeforeStop? (hmem : deck ∈ decks) (h : deck.time < layer.stop) :
    ∃ final, lastBeforeStop? layer decks = some final :=
  ⟨_, List.getLast?_eq_some_getLast
    (List.ne_nil_of_mem (List.mem_filter.mpr ⟨hmem, by simpa using h⟩))⟩

theorem lastBeforeStop?_of_getLast? (hlast : decks.getLast? = some deck)
    (h : deck.time < layer.stop) : lastBeforeStop? layer decks = some deck := by
  rw [← List.dropLast_append_getLast? deck hlast]
  exact lastBeforeStop?_concat_of_lt _ h

/-- No fill that hears a layer comes before the first one. -/
theorem exists_firstHearing? (hchronological : decks.Pairwise fun earlier later ↦
      earlier.time ≤ later.time) (hmem : deck ∈ decks)
    (hheard : HeardIn layer deck.time (deck.time + lead)) :
    ∃ first, firstHearing? layer lead decks = some first ∧ first.time ≤ deck.time := by
  have hsome : (firstHearing? layer lead decks).isSome := by
    rw [firstHearing?, List.find?_isSome]
    exact ⟨deck, hmem, by simpa using hheard⟩
  obtain ⟨first, hfirst⟩ := Option.isSome_iff_exists.mp hsome
  obtain ⟨-, before, after, rfl, hsilent⟩ := List.find?_eq_some_iff_append.mp hfirst
  refine ⟨first, hfirst, ?_⟩
  rcases List.mem_append.mp hmem with hearly | hlater
  · have := hsilent deck hearly
    simp [hheard] at this
  · rcases List.mem_cons.mp hlater with rfl | hafter
    · exact le_rfl
    · exact (List.pairwise_cons.mp (List.pairwise_append.mp hchronological).2.1).1 deck hafter

/-- The lead reaches no less far in a later fill. -/
theorem horizon_le {earlier later : Seconds} (hearlier : Seconds.Fits (earlier.toRat + lead.toRat))
    (hlater : Seconds.Fits (later.toRat + lead.toRat)) (h : earlier ≤ later) :
    earlier + lead ≤ later + lead := by
  rw [Seconds.le_def, Seconds.toRat_add hearlier, Seconds.toRat_add hlater]
  exact add_le_add_left (Seconds.le_def.mp h) _

include hspeaks hshows

/-- Fills of a new key take it from the first in which its layer is heard to the last before the
layer ends. -/
theorem filledTo_planned (hframes : 0 < producer.chunkFrames) (horder : layer.start ≤ layer.stop)
    (hchronological : decks.Pairwise fun earlier later ↦ earlier.time ≤ later.time)
    (hhorizons : ∀ deck ∈ decks, Seconds.Fits (deck.time.toRat + producer.lead.toRat))
    (hfresh : producer.positions.lookup ⟨layer.id, loop⟩ = none)
    (hfit : PlansFit layer loop producer decks)
    (hfirst : firstHearing? layer producer.lead decks = some deck)
    (hfinal : lastBeforeStop? layer decks = some final) :
    FilledTo spec layer.stop (max layer.start deck.time).toRat
      (min (final.time + producer.lead) layer.stop).toRat
      ((producer.planAll decks).positions.lookup ⟨layer.id, loop⟩)
      (chunksFor ⟨layer.id, loop⟩ (producer.planned decks)) := by
  induction decks using List.reverseRecOn generalizing final with
  | nil => cases hfirst
  | append_singleton decks last ih =>
    have hlast := List.mem_append_right decks (List.mem_singleton_self last)
    have hearlier : ∀ other ∈ decks, other ∈ decks ++ [last] := fun other hother ↦
      List.mem_append_left _ hother
    have hshown := fun other hother ↦ hshows other (hearlier other hother)
    have hspoken := fun other hother ↦ hspeaks other (hearlier other hother)
    have hspeaksLast := hspeaks last hlast
    obtain ⟨rfl, rfl, rfl⟩ := hshows last hlast
    obtain ⟨hpast, -, horderly⟩ := List.pairwise_append.mp hchronological
    have hreaches : ∀ other ∈ decks, other.time + producer.lead ≤ last.time + producer.lead :=
      fun other hother ↦ horizon_le (hhorizons other (hearlier other hother))
        (hhorizons last hlast) (horderly other hother last (List.mem_singleton_self last))
    obtain ⟨hbefore, hserves, -⟩ := plansFit_append.mp hfit
    obtain ⟨hlead, hchunkFrames⟩ := planAll_settings producer decks
    rw [← hchunkFrames] at hframes
    rw [← hlead] at hspeaksLast
    rw [chunksFor_planned_concat, planAll_concat]
    rw [firstHearing?_concat] at hfirst
    cases hknown : firstHearing? layer producer.lead decks with
    | none =>
      rw [hknown, Option.none_or] at hfirst
      obtain ⟨hmem, hheard⟩ := heardIn_of_firstHearing? hfirst
      obtain rfl := List.mem_singleton.mp hmem
      rw [lastBeforeStop?_concat_of_lt decks hheard.1] at hfinal
      obtain rfl := Option.some.inj hfinal
      obtain ⟨hnothing, hsame⟩ := planned_unheard hspoken hshown
        (by simpa using List.find?_eq_none.mp hknown)
      rw [← hlead] at hheard ⊢
      rw [hnothing, List.nil_append]
      exact filledTo_plan hspeaksLast hframes hheard (hserves hheard) horder (hsame.trans hfresh)
    | some first =>
      rw [hknown, Option.some_or] at hfirst
      obtain rfl := Option.some.inj hfirst
      obtain ⟨hmem, hheardFirst⟩ := heardIn_of_firstHearing? hknown
      obtain ⟨previous, hprevious⟩ := exists_lastBeforeStop? hmem hheardFirst.1
      have hfilled := ih hspoken hshown hpast
        (fun other hother ↦ hhorizons other (hearlier other hother)) hbefore hknown hprevious
      rcases lt_or_ge last.time layer.stop with hearly | hover
      · rw [lastBeforeStop?_concat_of_lt decks hearly] at hfinal
        obtain rfl := Option.some.inj hfinal
        have hheard : HeardIn layer last.time (last.time + producer.lead) :=
          ⟨hearly, hheardFirst.2.trans_le (hreaches first hmem)⟩
        have hlater := hreaches previous (mem_of_lastBeforeStop? hprevious)
        rw [← hlead] at hheard hlater hfilled ⊢
        exact hfilled.plan hspeaksLast hframes hheard (hserves hheard) hlater
      · rw [lastBeforeStop?_concat_of_le decks hover, hprevious] at hfinal
        obtain rfl := Option.some.inj hfinal
        have hunheard : ¬ HeardIn layer last.time (last.time + (producer.planAll decks).lead) :=
          fun hheard ↦ not_lt.mpr hover hheard.1
        obtain ⟨hchunks, hposition⟩ := plan_unheard hspeaksLast hunheard
        rw [hchunks, hposition, List.append_nil]
        exact hfilled

end Run

/-- What a new producer makes of a layer does not depend on the size of chunks, and on the fills
only through two of them: it is a row of the whole frames from the start of the layer, or the first
fill in which the layer is heard, to the lead of the last fill before the layer ends, or its
end. -/
theorem spans_planned {timeline : Timeline} {spec : AudioSpec} {loop chunkFrames : Nat}
    {layer : Layer} {lead : Seconds} {decks : List Deck} {deck : Deck} (hspan : timeline.OneSpan)
    (hlayer : layer ∈ timeline.layers) (hshows : ∀ deck ∈ decks, Shows deck timeline loop spec)
    (hchronological : decks.Pairwise fun earlier later ↦ earlier.time ≤ later.time)
    (hhorizons : ∀ deck ∈ decks, Seconds.Fits (deck.time.toRat + lead.toRat))
    (hfit : PlansFit layer loop (.new lead chunkFrames) decks)
    (hfirst : firstHearing? layer lead decks = some deck) :
    let first := (max layer.start deck.time).toRat
    let chunks := chunksFor ⟨layer.id, loop⟩ ((new lead chunkFrames).planned decks)
    let total := (chunks.flatMap Chunk.data).length
    Spans spec first chunks (first + total / spec.bytesPerSecond) ∧
      (∀ chunk ∈ chunks, ∃ frames, chunk.size = frames * spec.frameBytes ∧
        1 ≤ frames ∧ frames ≤ max chunkFrames 1) ∧
      ∃ final, lastBeforeStop? layer decks = some final ∧
        total =
          spec.wholeBytes (min (final.time.toRat + lead.toRat) layer.stop.toRat - first) := by
  intro first chunks total
  have hframes : 0 < (new lead chunkFrames).chunkFrames := lt_max_of_lt_right Nat.one_pos
  obtain ⟨hmem, hheard⟩ := heardIn_of_firstHearing? hfirst
  obtain ⟨final, hfinal⟩ := exists_lastBeforeStop? hmem hheard.1
  have hfilled := filledTo_planned (fun _ _ ↦ hspan.speaksFor hlayer _ _) hshows hframes
    (Timeline.ordered_of_mem_layers hlayer) hchronological hhorizons rfl hfit hfirst hfinal
  refine ⟨hfilled.spans, fun chunk hchunk ↦ ?_, final, hfinal, ?_⟩
  · exact size_of_mem_planned _ (fun deck hdeck ↦ (hshows deck hdeck).spec_eq) hchunk
  · have hhorizon := hhorizons final (mem_of_lastBeforeStop? hfinal)
    rw [← Seconds.toRat_add hhorizon, ← Seconds.toRat_min]
    exact hfilled.length_eq

/-- A layer that holds on over the end of its atom. -/
def legato : Layer :=
  ⟨.ofNat 1, .ofMillis 500, .ofMillis 7250, 1⟩

/-- Two atoms that list the same layer, with the bounds it has as a whole. -/
def legatoTimeline : Timeline :=
  ⟨[⟨.ofInt 0, .ofInt 4, [legato]⟩, ⟨.ofInt 4, .ofInt 10, [legato]⟩], by decide +kernel⟩

/-- Fills before, during and after the layer. -/
def legatoDecks : List Deck :=
  [0, 1, 1, 5, 8].map fun time ↦ deckAt .oneHertz legatoTimeline (.ofInt time)

/-- The last fill before the end makes the frames up to its lead of two seconds, six from the start;
the one afterwards makes none, and the rest of a frame is never made. -/
theorem spans_planned_legato :
    legatoTimeline.OneSpan ∧
      PlansFit legato 0 (.new (.ofInt 2) 3) legatoDecks ∧
      let chunks := chunksFor ⟨legato.id, 0⟩ ((new (.ofInt 2) 3).planned legatoDecks)
      Spans .oneHertz (1 / 2) chunks (13 / 2) ∧ (chunks.flatMap Chunk.data).length = 24 := by
  have hspan : legatoTimeline.OneSpan := by decide +kernel
  have hfit : PlansFit legato 0 (.new (.ofInt 2) 3) legatoDecks := by decide +kernel
  have hshows : ∀ deck ∈ legatoDecks, Shows deck legatoTimeline 0 .oneHertz :=
    List.forall_mem_map.mpr fun _ _ ↦ shows_deckAt _ _ _
  have hchronological : legatoDecks.Pairwise fun earlier later ↦ earlier.time ≤ later.time := by
    decide +kernel
  have hhorizons : ∀ deck ∈ legatoDecks,
      Seconds.Fits (deck.time.toRat + (Seconds.ofInt 2).toRat) := by
    decide +kernel
  have hfirst : firstHearing? legato (.ofInt 2) legatoDecks =
      some (deckAt .oneHertz legatoTimeline (.ofInt 0)) :=
    List.find?_cons_of_pos (by decide +kernel)
  have hbegin : (max legato.start (deckAt .oneHertz legatoTimeline (.ofInt 0)).time).toRat =
      1 / 2 := by
    decide +kernel
  refine ⟨hspan, hfit, ?_⟩
  obtain ⟨hspans, -, final, hfinal, htotal⟩ := spans_planned hspan (List.mem_cons_self) hshows
    hchronological hhorizons hfit hfirst
  have hfinal : final = deckAt .oneHertz legatoTimeline (.ofInt 5) := by
    have hlast : lastBeforeStop? legato legatoDecks =
        some (deckAt .oneHertz legatoTimeline (.ofInt 5)) := by
      change lastBeforeStop? legato (legatoDecks.dropLast.dropLast ++
        [deckAt .oneHertz legatoTimeline (.ofInt 5)] ++
        [deckAt .oneHertz legatoTimeline (.ofInt 8)]) = _
      rw [lastBeforeStop?_concat_of_le _ (by decide +kernel),
        lastBeforeStop?_concat_of_lt _ (by decide +kernel)]
    exact Option.some.inj (hfinal.symm.trans hlast)
  subst hfinal
  have hframes : AudioSpec.oneHertz.wholeBytes (min ((deckAt .oneHertz legatoTimeline
      (.ofInt 5)).time.toRat + (Seconds.ofInt 2).toRat) legato.stop.toRat - 1 / 2) = 24 := by
    decide +kernel
  rw [hbegin, hframes] at htotal
  rw [hbegin, htotal] at hspans
  intro chunks
  refine ⟨?_, htotal⟩
  have hend : (1 / 2 + (24 : Nat) / AudioSpec.oneHertz.bytesPerSecond : ℚ) = 13 / 2 := by
    decide +kernel
  exact hend ▸ hspans

/-- A layer of ten seconds in an atom of thirty. -/
def shortTimeline : Timeline :=
  ⟨[⟨0, .ofInt 30, [⟨.ofNat 1, 0, .ofInt 10, 1⟩]⟩], by decide +kernel⟩

/-- A fill after the end of a layer does not reach its lead, though the layer has not got all of its
frames: it has the two of the first fill, and eight are missing. -/
theorem not_spans_planned_late :
    let layer : Layer := ⟨.ofNat 1, 0, .ofInt 10, 1⟩
    let decks := [deckAt .oneHertz shortTimeline 0, deckAt .oneHertz shortTimeline (.ofInt 20)]
    let producer : ToneProducer := .new (.ofInt 2) 4
    (shortTimeline.OneSpan ∧ layer ∈ shortTimeline.layers ∧
      (firstHearing? layer producer.lead decks).map Deck.time = some 0 ∧
      PlansFit layer 0 producer decks) ∧
    producer.plannedBytes ⟨layer.id, 0⟩ decks = 8 ∧
      AudioSpec.oneHertz.wholeBytes (min ((Seconds.ofInt 20).toRat + producer.lead.toRat)
        layer.stop.toRat - (max layer.start 0).toRat) = 40 := by
  refine ⟨⟨by decide +kernel, List.mem_cons_self, by decide +kernel, by decide +kernel⟩, ?_, ?_⟩
  · decide +kernel
  · decide +kernel

end TimelineMixer.ToneProducer
