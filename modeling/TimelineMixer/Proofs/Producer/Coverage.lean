import TimelineMixer.Proofs.Producer.Schedule

/-!
# Covering every listing of a layer

A listing of a layer is covered if audio was made for every time from its start, or from the clock
when it was first heard, to less than a frame before the lead or its end (`CoveredFrom`). A key has
one row of chunks for all listings of its layer, so a listing is covered by the row that was made
for another one, or not at all. While the fills serve listings with the same bounds, the row decides
it (`coveredFrom_planned_iff`): it must not begin after the start of the listing, and it must end
near the end of the listing or the lead. If the first listing of a layer spans the others, all of
them are covered. Of runs in which the fills turn from a listing to one with other bounds, nothing
is said in general.

Else they may not be. A layer that is listed in each of two atoms with the bounds of the atom gets
nothing for the second of them as long as the first is heard, and when it is over, the key goes on
at the end of the first, whether or not the second has begun (`not_coveredFrom_clipped`).
-/

set_option autoImplicit false
set_option relaxedAutoImplicit false

namespace TimelineMixer

/-- Some of the chunks have audio for a time. -/
def HoldsAt (spec : AudioSpec) (chunks : List Chunk) (time : ℚ) : Prop :=
  ∃ chunk ∈ chunks, chunk.pts.toRat ≤ time ∧
    time < chunk.pts.toRat + chunk.size / spec.bytesPerSecond

instance (spec : AudioSpec) (chunks : List Chunk) (time : ℚ) :
    Decidable (HoldsAt spec chunks time) :=
  inferInstanceAs (Decidable (∃ chunk ∈ chunks, _ ∧ _))

/-- A listing has audio from its start, or from the clock if that is later, to less than a frame
before a target or its end. -/
def CoveredFrom (spec : AudioSpec) (chunks : List Chunk) (layer : Layer) (now target : Seconds) :
    Prop :=
  ∀ time : ℚ, (max layer.start now).toRat ≤ time →
    time + 1 / spec.rate.toNat ≤ (min target layer.stop).toRat → HoldsAt spec chunks time

namespace Spans

variable {spec : AudioSpec} {first last : ℚ} {chunks : List Chunk}

/-- A chunk of a row lies inside the row. -/
theorem bounds_of_mem (h : Spans spec first chunks last) {chunk : Chunk} (hchunk : chunk ∈ chunks) :
    first ≤ chunk.pts.toRat ∧ chunk.pts.toRat + chunk.size / spec.bytesPerSecond ≤ last := by
  induction chunks generalizing first with
  | nil => cases hchunk
  | cons head rest ih =>
    obtain ⟨hpts, hrest⟩ := h
    rcases List.mem_cons.mp hchunk with rfl | hmem
    · have hlength := hrest.add_length
      have hlater : (0 : ℚ) ≤ (rest.flatMap Chunk.data).length / spec.bytesPerSecond :=
        div_nonneg (Nat.cast_nonneg _) (Nat.cast_nonneg _)
      exact ⟨hpts.ge, by linarith⟩
    · have hsize : (0 : ℚ) ≤ head.size / spec.bytesPerSecond :=
        div_nonneg (Nat.cast_nonneg _) (Nat.cast_nonneg _)
      obtain ⟨hbegin, hend⟩ := ih hrest hmem
      exact ⟨by linarith, hend⟩

/-- A chunk with data begins before the end of its row. -/
theorem pts_lt_of_mem (h : Spans spec first chunks last) {chunk : Chunk} (hchunk : chunk ∈ chunks)
    (hsize : 0 < chunk.size) : chunk.pts.toRat < last := by
  have hlength : (0 : ℚ) < chunk.size / spec.bytesPerSecond :=
    div_pos (Nat.cast_pos.mpr hsize) spec.bytesPerSecond_cast_pos
  linarith [(h.bounds_of_mem hchunk).2]

/-- A row has audio for the times from its beginning to its end. -/
theorem holdsAt_iff (h : Spans spec first chunks last) (time : ℚ) :
    HoldsAt spec chunks time ↔ first ≤ time ∧ time < last := by
  constructor
  · rintro ⟨chunk, hchunk, hbegin, hend⟩
    obtain ⟨hfirst, hlast⟩ := h.bounds_of_mem hchunk
    exact ⟨hfirst.trans hbegin, hend.trans_le hlast⟩
  · rintro ⟨hbegin, hend⟩
    induction chunks generalizing first with
    | nil =>
      cases h
      exact absurd hbegin (not_le.mpr hend)
    | cons head rest ih =>
      obtain ⟨hpts, hrest⟩ := h
      rcases lt_or_ge time (first + head.size / spec.bytesPerSecond) with hhere | hlater
      · exact ⟨head, List.mem_cons_self, hpts.trans_le hbegin, hpts ▸ hhere⟩
      · obtain ⟨chunk, hchunk, hholds⟩ := ih hrest hlater
        exact ⟨chunk, List.mem_cons_of_mem _ hchunk, hholds⟩

/-- A row covers a listing exactly if no frame fits into what is to be covered, or the row begins no
later and ends less than a frame before at most. -/
theorem coveredFrom_iff (h : Spans spec first chunks last) (layer : Layer) (now target : Seconds) :
    CoveredFrom spec chunks layer now target ↔
      (min target layer.stop).toRat < (max layer.start now).toRat + 1 / spec.rate.toNat ∨
      first ≤ (max layer.start now).toRat ∧
        (min target layer.stop).toRat < last + 1 / spec.rate.toNat := by
  rw [CoveredFrom]
  simp only [h.holdsAt_iff]
  constructor
  · intro hcovered
    refine or_iff_not_imp_left.mpr fun hroom ↦ ?_
    rw [not_lt] at hroom
    have hbegin := hcovered _ le_rfl hroom
    have hend := hcovered ((min target layer.stop).toRat - 1 / spec.rate.toNat) (by linarith)
      (by linarith)
    exact ⟨hbegin.1, by linarith⟩
  · rintro (hshort | ⟨hbegin, hend⟩) time hfirst hlast
    · linarith
    · exact ⟨hbegin.trans hfirst, by linarith⟩

end Spans

namespace ToneProducer

variable {timeline : Timeline} {spec : AudioSpec} {loop chunkFrames : Nat} {main layer : Layer}
  {lead : Seconds} {decks : List Deck} {deck reached last : Deck}

/-- While the fills of a new producer serve listings with the bounds of one of them, what they make
lies inside these bounds, and another listing is covered exactly if no frame fits into what is heard
of it, or the served bounds begin no later and the whole frames up to the lead or their end come
near enough to its own. A listing that spans the others and comes first covers all of them.

By `hspeaks` whatever listing a fill serves has the bounds of `main`. Runs in which the fills turn
to a listing with other bounds, as those of `pausingTimeline` do, are outside of the scope. -/
theorem coveredFrom_planned_iff
    (hshows : ∀ deck ∈ decks, Shows deck timeline loop spec)
    (hchronological : decks.Pairwise fun earlier later ↦ earlier.time ≤ later.time)
    (hhorizons : ∀ deck ∈ decks, Seconds.Fits (deck.time.toRat + lead.toRat))
    (hspeaks : ∀ deck ∈ decks, timeline.SpeaksFor deck.time (deck.time + lead) main)
    (hfit : PlansFit main loop (.new lead chunkFrames) decks)
    (hlayer : layer ∈ timeline.layers) (hsame : layer.id = main.id)
    (hreached : firstHearing? layer lead decks = some reached)
    (hlast : decks.getLast? = some last) (hheard : HeardIn layer last.time (last.time + lead)) :
    let chunks := chunksFor ⟨layer.id, loop⟩ ((new lead chunkFrames).planned decks)
    let target := last.time + lead
    (∀ chunk ∈ chunks, main.start ≤ chunk.pts ∧ chunk.pts < main.stop) ∧
      (∃ opening, firstHearing? main lead decks = some opening ∧
        let first := (max main.start opening.time).toRat
        let frames := spec.wholeBytes ((min target main.stop).toRat - first)
        (CoveredFrom spec chunks layer reached.time target ↔
          (min target layer.stop).toRat <
              (max layer.start reached.time).toRat + 1 / spec.rate.toNat ∨
            main.start ≤ max layer.start reached.time ∧ (min target layer.stop).toRat <
              first + frames / spec.bytesPerSecond + 1 / spec.rate.toNat)) ∧
      (timeline.Leads main → CoveredFrom spec chunks layer reached.time target) := by
  intro chunks target
  obtain ⟨hmem, hheardReached⟩ := heardIn_of_firstHearing? hreached
  have hmemLast : last ∈ decks := List.mem_of_getLast? hlast
  obtain ⟨opening, hopening, hearly⟩ := exists_firstHearing? hchronological hmem
    ((hspeaks reached hmem).heardIn hlayer hsame hheardReached)
  have hmainLast := (hspeaks last hmemLast).heardIn hlayer hsame hheard
  have hfinal := lastBeforeStop?_of_getLast? hlast hmainLast.1
  have horder : main.start ≤ main.stop :=
    Timeline.ordered_of_mem_layers (hspeaks last hmemLast).mem
  have hframes : 0 < (new lead chunkFrames).chunkFrames := lt_max_of_lt_right Nat.one_pos
  have hfilled := filledTo_planned hspeaks hshows hframes horder hchronological hhorizons rfl hfit
    hopening hfinal
  rw [← hsame] at hfilled
  change FilledTo _ _ _ _ _ chunks at hfilled
  have hinside := hfilled.le_stop
  have hnear := hfilled.lt_add_frame
  have hspans := hfilled.spans
  rw [hfilled.length_eq] at hspans hinside hnear
  have hbegins : (max main.start opening.time).toRat ≤ (max layer.start reached.time).toRat ↔
      main.start ≤ max layer.start reached.time := by
    rw [← Seconds.le_def, max_le_iff]
    exact and_iff_left (hearly.trans (le_max_right _ _))
  have hrow := hspans.coveredFrom_iff layer reached.time target
  rw [hbegins] at hrow
  refine ⟨fun chunk hchunk ↦ ?_, ⟨opening, hopening, hrow⟩, fun hleads ↦ hrow.mpr (Or.inr ?_)⟩
  · obtain ⟨count, hcount, hpos, -⟩ := size_of_mem_planned _
      (fun deck hdeck ↦ (hshows deck hdeck).spec_eq) hchunk
    have hsize : 0 < chunk.size := hcount ▸ Nat.mul_pos hpos spec.frameBytes_pos
    have hstart := Seconds.le_def.mp (le_max_left main.start opening.time)
    exact ⟨Seconds.le_def.mpr (hstart.trans (hspans.bounds_of_mem hchunk).1),
      Seconds.lt_def.mpr ((hspans.pts_lt_of_mem hchunk hsize).trans_le hinside)⟩
  · obtain ⟨hstart, hstop⟩ := hleads.spans layer hlayer hsame
    refine ⟨hstart.trans (le_max_left _ _), lt_of_le_of_lt ?_ hnear⟩
    exact Seconds.le_def.mp (min_le_min_left _ hstop)

/-- The part of the legato layer in the second atom. -/
def legatoRest : Layer :=
  ⟨.ofNat 1, .ofInt 4, .ofMillis 7250, 1⟩

/-- The second atom lists only the part of the layer that it plays. -/
def ledTimeline : Timeline :=
  ⟨[⟨.ofInt 0, .ofInt 4, [legato]⟩, ⟨.ofInt 4, .ofInt 10, [legatoRest]⟩], by decide +kernel⟩

/-- Fills before and during the layer. -/
def ledDecks : List Deck :=
  [0, 1, 1, 5].map fun time ↦ deckAt .oneHertz ledTimeline (.ofInt time)

/-- The part is covered from the fill at five seconds on, the first in which it is heard. -/
theorem coveredFrom_planned_iff_led :
    (ledTimeline.Leads legato ∧ PlansFit legato 0 (.new (.ofInt 2) 3) ledDecks ∧
      HeardIn legatoRest (.ofInt 5) (.ofInt 7)) ∧
    CoveredFrom .oneHertz (chunksFor ⟨legatoRest.id, 0⟩ ((new (.ofInt 2) 3).planned ledDecks))
      legatoRest (.ofInt 5) (.ofInt 7) := by
  let last : Deck := deckAt .oneHertz ledTimeline (.ofInt 5)
  have hleads : ledTimeline.Leads legato := ⟨rfl, by decide +kernel⟩
  have hfit : PlansFit legato 0 (.new (.ofInt 2) 3) ledDecks := by decide +kernel
  have hshows : ∀ deck ∈ ledDecks, Shows deck ledTimeline 0 .oneHertz :=
    List.forall_mem_map.mpr fun _ _ ↦ shows_deckAt _ _ _
  have hchronological : ledDecks.Pairwise fun earlier later ↦ earlier.time ≤ later.time := by
    decide +kernel
  have hhorizons : ∀ deck ∈ ledDecks,
      Seconds.Fits (deck.time.toRat + (Seconds.ofInt 2).toRat) := by
    decide +kernel
  have htime : last.time = .ofInt 5 := by decide +kernel
  have htarget : last.time + .ofInt 2 = .ofInt 7 := by decide +kernel
  have hmem : legatoRest ∈ ledTimeline.layers := List.mem_of_mem_getLast? rfl
  have hlast : ledDecks.getLast? = some last := rfl
  have hheard : HeardIn legatoRest last.time (last.time + .ofInt 2) := by decide +kernel
  have hreached : firstHearing? legatoRest (.ofInt 2) ledDecks = some last := by
    have hearlier : ∀ deck ∈ ledDecks.dropLast,
        ¬ HeardIn legatoRest deck.time (deck.time + .ofInt 2) := by
      decide +kernel
    change firstHearing? legatoRest (.ofInt 2) (ledDecks.dropLast ++ [last]) = _
    rw [firstHearing?_concat, firstHearing?, List.find?_eq_none.mpr (by simpa using hearlier),
      Option.none_or, firstHearing?, List.find?_cons_of_pos (by simpa using hheard)]
  obtain ⟨-, -, hcovered⟩ := coveredFrom_planned_iff hshows hchronological hhorizons
    (fun _ _ ↦ hleads.speaksFor _ _) hfit hmem rfl hreached hlast hheard
  have hcovers := hcovered hleads
  rw [htarget, htime] at hcovers hheard
  exact ⟨⟨hleads, hfit, hheard⟩, hcovers⟩

/-- A layer over two atoms, listed in each with the bounds of the atom. -/
def clippedTimeline : Timeline :=
  ⟨[⟨0, .ofInt 2, [⟨.ofNat 1, 0, .ofInt 2, 1⟩]⟩,
    ⟨.ofInt 2, .ofInt 4, [⟨.ofNat 1, .ofInt 2, .ofInt 4, 1⟩]⟩], by decide +kernel⟩

/-- A layer that pauses for three seconds between its two atoms. -/
def pausingTimeline : Timeline :=
  ⟨[⟨0, .ofInt 2, [⟨.ofNat 1, 0, .ofInt 2, 1⟩]⟩,
    ⟨.ofInt 2, .ofInt 8, [⟨.ofNat 1, .ofInt 5, .ofInt 8, 1⟩]⟩], by decide +kernel⟩

/-- Listings may be missed, and audio may be made where none is listed. A fill with a lead of four
seconds makes nothing of the listing from two to four seconds, though it is heard up to the lead.
And after a pause in the listings, the chunks go on where the audio before the pause has ended. -/
theorem not_coveredFrom_clipped :
    (let layer : Layer := ⟨.ofNat 1, .ofInt 2, .ofInt 4, 1⟩
      let producer : ToneProducer := .new (.ofInt 4) 4
      let deck := deckAt .oneHertz clippedTimeline 0
      let chunks := chunksFor ⟨layer.id, 0⟩ (producer.planned [deck])
      (layer ∈ clippedTimeline.layers ∧ HeardIn layer deck.time (deck.time + producer.lead)) ∧
        ¬ CoveredFrom .oneHertz chunks layer deck.time (deck.time + producer.lead)) ∧
    let producer : ToneProducer := .new (.ofInt 2) 4
    let decks := [deckAt .oneHertz pausingTimeline 0, deckAt .oneHertz pausingTimeline (.ofInt 4)]
    (chunksFor ⟨.ofNat 1, 0⟩ (producer.planned decks)).map Chunk.pts = [0, .ofInt 2] ∧
      ∀ layer ∈ pausingTimeline.layers, ¬ (layer.start ≤ .ofInt 2 ∧ .ofInt 2 < layer.stop) := by
  refine ⟨⟨⟨List.mem_of_mem_getLast? rfl, by decide +kernel⟩, fun hcovered ↦ ?_⟩, ?_, ?_⟩
  · exact absurd (hcovered 2 (by decide +kernel) (by decide +kernel)) (by decide +kernel)
  · decide +kernel
  · decide +kernel

end ToneProducer

end TimelineMixer
