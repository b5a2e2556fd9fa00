import TimelineMixer.Proofs.Clock.Landing
import TimelineMixer.Proofs.Producer.Schedule

/-!
# Where the next pass begins

While a pass is played, the next one is made ahead from the start of the timeline, that is the start
of its first atom. A key keeps this beginning over all fills (`Opens`, `opens_planned`). The clock
of the next pass begins at zero, whatever the start of the timeline is
(`Timeline.time_select_of_loop_ne`), and a producer that filled for that clock would begin there.
The two agree exactly for the layers whose start is not before both, and for all layers if the
timeline starts at zero (`head_planned_ahead_iff`).
-/

set_option autoImplicit false
set_option relaxedAutoImplicit false

namespace TimelineMixer.ToneProducer

/-- A key of which nothing was made yet, or the first chunk begins at a time. Without a chunk, the
position is this time or the end of the layer. -/
inductive Opens (first stop : Seconds) : Option Seconds → List Chunk → Prop
  | untouched : Opens first stop none []
  | waiting {position : Seconds} (place : position = first ∨ position = stop) :
      Opens first stop (some position) []
  | begun {position : Option Seconds} {chunk : Chunk} {rest : List Chunk}
      (pts_eq : chunk.pts = first) : Opens first stop position (chunk :: rest)

section Opens

variable {spec : AudioSpec} {chunkFrames : Nat} {first last : Seconds} {layer : Layer}
  {known : Option Seconds} {chunks : List Chunk}

/-- What is made from a position on begins there. -/
theorem opens_generated (spec : AudioSpec) (chunkFrames : Nat) (first last : Seconds)
    (layer : Layer) (index : Nat) (known : Option Seconds) :
    let made := generated spec chunkFrames first last layer index known
    Opens (known.getD (max layer.start first)) layer.stop (some made.position) made.chunks := by
  intro made
  obtain ⟨reached, hfollows, hposition⟩ :=
    generated_follows spec chunkFrames first last layer index known
  change Follows _ _ made.chunks reached at hfollows
  change made.position = reached ∨ made.position = layer.stop at hposition
  cases hchunks : made.chunks with
  | nil =>
    rw [hchunks] at hfollows
    exact .waiting (hposition.imp_left fun hsame ↦ hsame.trans (Eq.symm hfollows))
  | cons chunk rest => exact .begun (hfollows.head_pts (by rw [hchunks]; rfl))

/-- Later fills do not change where a key begins. -/
theorem Opens.append (h : Opens (max layer.start first) layer.stop known chunks) (index : Nat) :
    let made := generated spec chunkFrames first last layer index known
    Opens (max layer.start first) layer.stop (some made.position) (chunks ++ made.chunks) := by
  intro made
  have hmade := opens_generated spec chunkFrames first last layer index known
  cases h with
  | untouched => exact hmade
  | waiting place =>
    rcases place with rfl | rfl
    · exact hmade
    · have hnothing : made = ⟨layer.stop, []⟩ := generated_of_stop_le _ _ index le_rfl
      rw [hnothing]
      exact .waiting (Or.inr rfl)
  | begun pts_eq => exact .begun pts_eq

theorem Opens.pts_eq (h : Opens first last known chunks) {chunk : Chunk}
    (hhead : chunks.head? = some chunk) : chunk.pts = first := by
  cases h with
  | untouched => cases hhead
  | waiting place => cases hhead
  | begun pts_eq =>
    cases hhead
    exact pts_eq

end Opens

section Ahead

variable {timeline : Timeline} {spec : AudioSpec} {loop : Nat} {layer : Layer}
  {producer : ToneProducer} {decks : List Deck} {deck : Deck} {start : Seconds}

/-- A fill makes the next pass from the start of the timeline. -/
theorem Opens.plan {chunks : List Chunk} (hspan : deck.timeline.OneSpan)
    (hlayer : layer ∈ deck.timeline.layers) (hstart : deck.timeline.start? = some start)
    (h : Opens (max layer.start start) layer.stop
      (producer.positions.lookup ⟨layer.id, deck.clock.loop + 1⟩) chunks) :
    Opens (max layer.start start) layer.stop
      ((producer.plan deck).2.positions.lookup ⟨layer.id, deck.clock.loop + 1⟩)
      (chunks ++ chunksFor ⟨layer.id, deck.clock.loop + 1⟩ (producer.plan deck).1) := by
  obtain ⟨-, stop, -, hstop⟩ :=
    Timeline.exists_bounds (Timeline.length_ne_zero_of_mem_layers hlayer)
  let key : QueueKey := ⟨layer.id, deck.clock.loop + 1⟩
  have hpass : key.loop = deck.clock.loop + 1 := rfl
  by_cases hover : stop < deck.time + producer.lead
  · have hmade := plan_next producer hstart hstop hover hpass
    change Opens _ _ (producer.positions.lookup key) chunks at h
    change Opens _ _ ((producer.plan deck).2.positions.lookup key)
      (chunks ++ chunksFor key (producer.plan deck).1)
    generalize chunksFor key (producer.plan deck).1 = more at hmade ⊢
    generalize (producer.plan deck).2.positions.lookup key = after at hmade ⊢
    cases hmade with
    | served other index mem key_eq heard =>
      obtain ⟨hfirst, hlast⟩ := hspan layer hlayer other mem (QueueKey.mk.inj key_eq).1
      rw [generated_congr hfirst hlast]
      exact h.append index
    | passed silent =>
      rw [List.append_nil]
      exact h
  · have hother : key.loop ≠ deck.clock.loop := Nat.succ_ne_self _
    obtain ⟨hchunks, hposition⟩ := plan_untouched producer hstart hstop hother
      fun hbeyond ↦ absurd hbeyond hover
    rw [hchunks, hposition, List.append_nil]
    exact h

/-- Whatever fills are made during a pass, the next one begins at the start of the timeline. -/
theorem opens_planned (hspan : timeline.OneSpan) (hlayer : layer ∈ timeline.layers)
    (hstart : timeline.start? = some start)
    (hshows : ∀ deck ∈ decks, Shows deck timeline loop spec)
    (hfresh : producer.positions.lookup ⟨layer.id, loop + 1⟩ = none) :
    Opens (max layer.start start) layer.stop
      ((producer.planAll decks).positions.lookup ⟨layer.id, loop + 1⟩)
      (chunksFor ⟨layer.id, loop + 1⟩ (producer.planned decks)) := by
  induction decks using List.reverseRecOn with
  | nil =>
    change Opens _ _ (producer.positions.lookup _) []
    rw [hfresh]
    exact .untouched
  | append_singleton decks deck ih =>
    have hfilled := ih fun other hother ↦ hshows other (List.mem_append_left _ hother)
    obtain ⟨rfl, rfl, rfl⟩ := hshows deck (List.mem_append_right _ (List.mem_singleton_self _))
    rw [planAll_concat, chunksFor_planned_concat]
    exact hfilled.plan hspan hlayer hstart

/-- A fill of a new producer begins a layer at the clock, or at its start if that is later. -/
theorem pts_head_plan (hspan : deck.timeline.OneSpan) (hlayer : layer ∈ deck.timeline.layers)
    (hfresh : producer.positions.lookup ⟨layer.id, deck.clock.loop⟩ = none) {chunk : Chunk}
    (hhead : (chunksFor ⟨layer.id, deck.clock.loop⟩ (producer.plan deck).1).head? = some chunk) :
    chunk.pts = max layer.start deck.time := by
  rcases plan_speaker producer (hspan.speaksFor hlayer _ _) with
    ⟨-, hchunks, -⟩ | ⟨-, index, hchunks, -⟩
  · rw [hchunks] at hhead
    cases hhead
  · rw [hchunks, hfresh] at hhead
    exact (opens_generated _ _ _ _ _ index none).pts_eq hhead

end Ahead

/-- Two times are raised to the same by a bound and by zero. -/
theorem max_eq_max_zero_iff {time bound : Seconds} :
    max time bound = max time 0 ↔ bound = 0 ∨ max bound 0 ≤ time := by
  grind

/-- What is made ahead for the next pass begins at the start of the timeline, or of the layer if
that is later. At the wrap the clock is at zero, and what a fill would make there begins at zero, or
at the start of the layer. So the two begin alike exactly if the timeline starts at zero or the
layer starts no earlier than both. -/
theorem head_planned_ahead_iff {timeline : Timeline} {spec : AudioSpec} {loop chunkFrames : Nat}
    {layer : Layer} {lead start : Seconds} {decks : List Deck} (hspan : timeline.OneSpan)
    (hlayer : layer ∈ timeline.layers) (hstart : timeline.start? = some start)
    (hshows : ∀ deck ∈ decks, Shows deck timeline loop spec) {ahead : Chunk}
    (hahead : (chunksFor ⟨layer.id, loop + 1⟩
      ((new lead chunkFrames).planned decks)).head? = some ahead) :
    ahead.pts = max layer.start start ∧
      (∀ deck bytes, Shows deck timeline loop spec →
        let wrapped := (Deck.select deck bytes).2
        wrapped.clock.loop = loop + 1 → wrapped.time = 0 ∧
          ∀ anew, (chunksFor ⟨layer.id, loop + 1⟩
              ((new lead chunkFrames).plan wrapped).1).head? = some anew →
            anew.pts = max layer.start 0) ∧
      (ahead.pts = max layer.start 0 ↔ start = 0 ∨ max start 0 ≤ layer.start) := by
  have hbegin : ahead.pts = max layer.start start :=
    (opens_planned hspan hlayer hstart hshows rfl).pts_eq hahead
  refine ⟨hbegin, ?_, by rw [hbegin, max_eq_max_zero_iff]⟩
  rintro deck bytes ⟨rfl, rfl, rfl⟩ wrapped hloop
  have hzero : wrapped.time = 0 :=
    Timeline.time_select_of_loop_ne (Timeline.length_ne_zero_of_mem_layers hlayer)
      (hloop.trans_ne (Nat.succ_ne_self _))
  refine ⟨hzero, fun anew hanew ↦ ?_⟩
  rw [← hzero]
  rw [← hloop] at hanew
  have hwrapped : wrapped.timeline.OneSpan := hspan
  exact pts_head_plan hwrapped hlayer rfl hanew

/-- A timeline that starts at two seconds, with a layer that starts at three. -/
def lateTimeline : Timeline :=
  ⟨[⟨.ofInt 2, .ofInt 5, [⟨.ofNat 1, .ofInt 3, .ofInt 5, 1⟩]⟩], by decide +kernel⟩

/-- The layer starts later than the timeline and the clock, so what two fills have made ahead begins
where a fill after the wrap would. -/
theorem head_planned_ahead_iff_late :
    let layer : Layer := ⟨.ofNat 1, .ofInt 3, .ofInt 5, 1⟩
    let producer : ToneProducer := .new (.ofInt 4) 3
    let decks := [2, 4].map fun time ↦ deckAt .oneHertz lateTimeline (.ofInt time)
    let wrapped := ((deckAt .oneHertz lateTimeline (.ofInt 5)).select 4).2
    (lateTimeline.OneSpan ∧ wrapped.clock.loop = 1) ∧
    ∃ ahead anew, (chunksFor ⟨layer.id, 1⟩ (producer.planned decks)).head? = some ahead ∧
      (chunksFor ⟨layer.id, 1⟩ (producer.plan wrapped).1).head? = some anew ∧
        ahead.pts = anew.pts := by
  intro layer producer decks wrapped
  have hspan : lateTimeline.OneSpan := by decide +kernel
  have hloop : wrapped.clock.loop = 1 := by decide +kernel
  have hstart : lateTimeline.start? = some (.ofInt 2) := rfl
  have hshows : ∀ deck ∈ decks, Shows deck lateTimeline 0 .oneHertz :=
    List.forall_mem_map.mpr fun _ _ ↦ shows_deckAt _ _ _
  obtain ⟨ahead, hahead⟩ : ∃ ahead,
      (chunksFor ⟨layer.id, 1⟩ (producer.planned decks)).head? = some ahead :=
    Option.isSome_iff_exists.mp (by decide +kernel)
  obtain ⟨anew, hanew⟩ : ∃ anew,
      (chunksFor ⟨layer.id, 1⟩ (producer.plan wrapped).1).head? = some anew :=
    Option.isSome_iff_exists.mp (by decide +kernel)
  obtain ⟨-, hwraps, hagrees⟩ :=
    head_planned_ahead_iff hspan (List.mem_singleton_self layer) hstart hshows hahead
  obtain ⟨-, hbegins⟩ := hwraps _ 4 (shows_deckAt _ _ _) hloop
  refine ⟨⟨hspan, hloop⟩, ahead, anew, hahead, hanew, ?_⟩
  rw [hbegins anew hanew]
  exact hagrees.mpr (Or.inr (by decide +kernel))

/-- A timeline that starts at two seconds, with a layer that starts at zero. -/
def earlyTimeline : Timeline :=
  ⟨[⟨.ofInt 2, .ofInt 4, [⟨.ofNat 1, 0, .ofInt 4, 1⟩]⟩], by decide +kernel⟩

/-- Of a layer that starts before the timeline, the next pass is made from the start of the timeline
on. But its clock begins at zero, two seconds before. -/
theorem not_head_planned_ahead_early :
    let layer : Layer := ⟨.ofNat 1, 0, .ofInt 4, 1⟩
    let producer : ToneProducer := .new (.ofInt 6) 4
    let wrapped := ((deckAt .oneHertz earlyTimeline (.ofInt 4)).select 4).2
    let begins (deck : Deck) :=
      (chunksFor ⟨layer.id, 1⟩ (producer.plan deck).1).head?.map Chunk.pts
    (earlyTimeline.OneSpan ∧ layer ∈ earlyTimeline.layers ∧ wrapped.clock.loop = 1) ∧
      begins (deckAt .oneHertz earlyTimeline 0) = some (.ofInt 2) ∧ begins wrapped = some 0 := by
  refine ⟨⟨by decide +kernel, List.mem_singleton_self _, by decide +kernel⟩, ?_, ?_⟩
  · decide +kernel
  · decide +kernel

end TimelineMixer.ToneProducer
