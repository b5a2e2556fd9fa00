import TimelineMixer.Proofs.Producer.Generation

/-!
# Layers that are listed several times

A layer can be listed in several atoms, and with different bounds. All its listings share one key,
and a fill serves the key for one of them: the first, in the order of the timeline, that is heard up
to the lead (`Timeline.FirstHeard`, `generate_firstHeard`). The others get nothing of their own. So
a listing decides what its key gets in a fill if whichever listing is served has the same bounds
(`Timeline.SpeaksFor`, `plan_speaker`). Any listing of a layer with one span does so in every fill,
and so does the first listing of a layer if it spans all others.
-/

set_option autoImplicit false
set_option relaxedAutoImplicit false

namespace TimelineMixer

open ToneProducer

namespace Timeline

/-- The first listing of its layer that is heard between two times. -/
def FirstHeard (timeline : Timeline) (first last : Seconds) (layer : Layer) : Prop :=
  HeardIn layer first last ∧ ∃ before after, timeline.layers = before ++ layer :: after ∧
    ∀ other ∈ before, other.id = layer.id → ¬ HeardIn other first last

/-- A listing that comes first among those of its layer, and spans all others. -/
structure Leads (timeline : Timeline) (layer : Layer) : Prop where
  first : timeline.layers.find? (·.id = layer.id) = some layer
  spans : ∀ other ∈ timeline.layers, other.id = layer.id →
    layer.start ≤ other.start ∧ other.stop ≤ layer.stop

/-- Whichever listing of a layer is served between two times, it has the bounds of this one. -/
structure SpeaksFor (timeline : Timeline) (first last : Seconds) (layer : Layer) : Prop where
  mem : layer ∈ timeline.layers
  bounds : ∀ served, timeline.FirstHeard first last served → served.id = layer.id →
    served.start = layer.start ∧ served.stop = layer.stop

variable {timeline : Timeline} {first last : Seconds} {layer : Layer}

theorem FirstHeard.mem (h : timeline.FirstHeard first last layer) : layer ∈ timeline.layers := by
  obtain ⟨-, before, after, hlayers, -⟩ := h
  rw [hlayers]
  exact List.mem_append_right _ List.mem_cons_self

/-- A layer that is listed alone is the first to be heard. -/
theorem firstHeard_singleton (hlayers : timeline.layers = [layer])
    (hheard : HeardIn layer first last) : timeline.FirstHeard first last layer :=
  ⟨hheard, [], [], hlayers, by simp⟩

/-- If a listing of a layer is heard, there is a first one. -/
theorem exists_firstHeard (hlayer : layer ∈ timeline.layers) (hheard : HeardIn layer first last) :
    ∃ served, timeline.FirstHeard first last served ∧ served.id = layer.id := by
  have hsome : (timeline.layers.find? fun other ↦
      other.id = layer.id ∧ HeardIn other first last).isSome := by
    rw [List.find?_isSome]
    exact ⟨layer, hlayer, by simpa using hheard⟩
  obtain ⟨served, hserved⟩ := Option.isSome_iff_exists.mp hsome
  obtain ⟨hfound, before, after, hlayers, hbefore⟩ := List.find?_eq_some_iff_append.mp hserved
  obtain ⟨hid, hheard⟩ := of_decide_eq_true hfound
  refine ⟨served, ⟨hheard, before, after, hlayers, fun other hother hsame hearly ↦ ?_⟩, hid⟩
  have := hbefore other hother
  simp [hsame, hid, hearly] at this

/-- A listing that speaks for a layer is heard whenever another one is. -/
theorem SpeaksFor.heardIn {main : Layer} (h : timeline.SpeaksFor first last main)
    (hlayer : layer ∈ timeline.layers) (hsame : layer.id = main.id)
    (hheard : HeardIn layer first last) : HeardIn main first last := by
  obtain ⟨served, hserved, hid⟩ := exists_firstHeard hlayer hheard
  obtain ⟨hstart, hstop⟩ := h.bounds served hserved (hid.trans hsame)
  exact ⟨hstop ▸ hserved.1.1, hstart ▸ hserved.1.2⟩

/-- In a timeline in which a layer has one span, every listing speaks for it. -/
theorem OneSpan.speaksFor (h : timeline.OneSpan) (hlayer : layer ∈ timeline.layers)
    (first last : Seconds) : timeline.SpeaksFor first last layer :=
  ⟨hlayer, fun served hserved hid ↦ h served hserved.mem layer hlayer hid⟩

/-- A listing that spans all others is heard whenever one of them is, so it is served if it comes
first. -/
theorem Leads.speaksFor (h : timeline.Leads layer) (first last : Seconds) :
    timeline.SpeaksFor first last layer := by
  obtain ⟨-, front, rest, hlayers, hfront⟩ := List.find?_eq_some_iff_append.mp h.first
  have hmem : layer ∈ timeline.layers := List.mem_of_find?_eq_some h.first
  refine ⟨hmem, fun served hserved hid ↦ ?_⟩
  obtain ⟨hheard, before, after, hsplit, hsilent⟩ := id hserved
  obtain ⟨hstart, hstop⟩ := h.spans served hserved.mem hid
  have hlead : HeardIn layer first last :=
    ⟨hheard.1.trans_le hstop, hstart.trans_lt hheard.2⟩
  -- The leading listing stands before the one that is served, or is that one.
  rcases List.append_eq_append_iff.mp (hlayers.symm.trans hsplit) with
    ⟨middle, hbefore, hrest⟩ | ⟨middle, hbefore, hrest⟩
  · cases middle with
    | nil =>
      obtain rfl := (List.cons.inj hrest).1
      exact ⟨rfl, rfl⟩
    | cons other middle =>
      obtain rfl := (List.cons.inj hrest).1
      refine absurd hlead (hsilent layer ?_ hid.symm)
      rw [hbefore]
      exact List.mem_append_right _ List.mem_cons_self
  · cases middle with
    | nil =>
      obtain rfl := (List.cons.inj hrest).1
      exact ⟨rfl, rfl⟩
    | cons other middle =>
      obtain rfl := (List.cons.inj hrest).1
      have := hfront served (by rw [hbefore]; exact List.mem_append_right _ List.mem_cons_self)
      simp [hid] at this

end Timeline

namespace ToneProducer

variable {spec : AudioSpec} {chunkFrames loop : Nat} {first last : Seconds}

variable (spec chunkFrames) in
/-- A key whose listings are not heard is not served. -/
theorem not_mem_seen_foldl {key : QueueKey} (layers : List (Layer × Nat))
    (hsilent : ∀ entry ∈ layers, key = ⟨entry.1.id, loop⟩ → ¬ HeardIn entry.1 first last)
    {generation : Generation} (hnew : key ∉ generation.seen) :
    key ∉ (layers.foldl (fun generation (layer, index) ↦
      generateLayer spec chunkFrames loop first last generation layer index) generation).seen := by
  induction layers generalizing generation with
  | nil => exact hnew
  | cons entry rest ih =>
    obtain ⟨layer, index⟩ := entry
    rw [List.foldl_cons]
    refine ih (fun entry hentry ↦ hsilent entry (List.mem_cons_of_mem _ hentry)) ?_
    dsimp only
    by_cases hserve : HeardIn layer first last ∧ ⟨layer.id, loop⟩ ∉ generation.seen
    · rw [generateLayer_serve index hserve.1 hserve.2]
      intro hseen
      rcases List.mem_cons.mp hseen with hkey | hold
      · exact hsilent _ List.mem_cons_self hkey hserve.1
      · exact hnew hold
    · rw [generateLayer_skip index (by rwa [not_and_or, not_not] at hserve)]
      exact hnew

section Generate

variable (producer : ToneProducer) {timeline : Timeline} {layer : Layer}

/-- A pass serves a key for the first of its listings that is heard. -/
theorem generate_firstHeard (spec : AudioSpec) (loop : Nat)
    (h : timeline.FirstHeard first last layer) :
    let key : QueueKey := ⟨layer.id, loop⟩
    let made := producer.generate timeline spec loop first last
    ∃ index,
      let new := generated spec producer.chunkFrames first last layer index
        (producer.positions.lookup key)
      chunksFor key made.1 = new.chunks ∧ made.2.positions.lookup key = some new.position := by
  intro key made
  obtain ⟨hheard, before, after, hlayers, hbefore⟩ := h
  let start : Generation := ⟨producer.positions, [], []⟩
  have hsilent : ∀ entry ∈ before.zipIdx, key = ⟨entry.1.id, loop⟩ →
      ¬ HeardIn entry.1 first last := fun entry hentry hkey ↦
    hbefore entry.1 (List.fst_mem_of_mem_zipIdx hentry) (QueueKey.mk.inj hkey).1.symm
  have hnew : key ∉ start.seen := List.not_mem_nil
  have hunseen := not_mem_seen_foldl spec producer.chunkFrames before.zipIdx hsilent hnew
  have hskipped := (served_foldl spec producer.chunkFrames loop first last before.zipIdx key
    start).new hnew
  refine ⟨before.length, ?_⟩
  change chunksFor key (Generation.entries _) = _ ∧ (Generation.positions _).lookup key = _
  rw [hlayers, List.zipIdx_append, List.zipIdx_cons, List.foldl_append, List.foldl_cons]
  dsimp only
  generalize before.zipIdx.foldl _ _ = middle at hunseen hskipped ⊢
  obtain ⟨hchunks, hposition⟩ : chunksFor key middle.entries = [] ∧
      middle.positions.lookup key = producer.positions.lookup key := by
    rcases hskipped with ⟨other, index, hmem, hkey, hother, -⟩ | ⟨-, hsame⟩
    · exact absurd hother (hsilent _ hmem hkey)
    · exact hsame
  rw [Nat.zero_add, generateLayer_serve _ hheard hunseen]
  have hrest := fun generation ↦ (served_foldl spec producer.chunkFrames loop first last
    (after.zipIdx (before.length + 1)) key generation).old
  obtain ⟨hsame, hkept⟩ := hrest ⟨_, key :: middle.seen, _⟩ List.mem_cons_self
  rw [hsame, hkept, chunksFor_append, chunksFor_self, lookup_setPosition_self, hchunks,
    List.nil_append, hposition]
  exact ⟨rfl, rfl⟩

/-- What a key gets is made for the first of its listings that is heard, if anything is. -/
theorem Outcome.exists_firstHeard_or_eq_nil {key : QueueKey} {before after : Option Seconds}
    {chunks : List Chunk}
    (h : Outcome timeline spec chunkFrames loop first last key before chunks after) :
    (∃ layer, timeline.FirstHeard first last layer ∧ key = ⟨layer.id, loop⟩) ∨ chunks = [] := by
  cases h with
  | passed silent => exact Or.inr rfl
  | served layer index mem key_eq heard =>
    obtain ⟨served, hserved, hid⟩ := Timeline.exists_firstHeard mem heard
    exact Or.inl ⟨served, hserved, hid ▸ key_eq⟩

/-- A key without a listing that is heard gets nothing. -/
theorem generate_silent (spec : AudioSpec) {key : QueueKey} (h : ∀ layer ∈ timeline.layers,
    layer.id = key.layer → ¬ HeardIn layer first last) :
    let made := producer.generate timeline spec loop first last
    chunksFor key made.1 = [] ∧
      made.2.positions.lookup key = producer.positions.lookup key := by
  intro made
  have hmade := generate_outcome producer timeline spec loop first last key
  change Outcome _ _ _ _ _ _ _ _ (chunksFor key made.1) (made.2.positions.lookup key) at hmade
  generalize chunksFor key made.1 = chunks at hmade ⊢
  generalize made.2.positions.lookup key = after at hmade ⊢
  cases hmade with
  | passed silent => exact ⟨rfl, rfl⟩
  | served layer index mem key_eq heard => exact absurd heard (h layer mem (key_eq ▸ rfl))

end Generate

/-- Listings with the same bounds get the same but for the tone. -/
theorem generated_congr {layer other : Layer} (hstart : layer.start = other.start)
    (hstop : layer.stop = other.stop) (index : Nat) (known : Option Seconds) :
    generated spec chunkFrames first last other index known =
      generated spec chunkFrames first last layer index known := by
  rw [generated, generated, hstart, hstop]

/-- A fill serves the first listing of a layer that is heard up to the lead. -/
theorem plan_firstHeard (producer : ToneProducer) {deck : Deck} {layer : Layer}
    (h : deck.timeline.FirstHeard deck.time (deck.time + producer.lead) layer) :
    let key : QueueKey := ⟨layer.id, deck.clock.loop⟩
    ∃ index,
      let made := generated deck.spec producer.chunkFrames deck.time (deck.time + producer.lead)
        layer index (producer.positions.lookup key)
      chunksFor key (producer.plan deck).1 = made.chunks ∧
        (producer.plan deck).2.positions.lookup key = some made.position := by
  intro key
  obtain ⟨start, stop, hstart, hstop⟩ :=
    Timeline.exists_bounds (Timeline.length_ne_zero_of_mem_layers h.mem)
  have hpass : key.loop = deck.clock.loop := rfl
  obtain ⟨hchunks, hposition⟩ := plan_current_eq producer hstart hstop hpass
  rw [hchunks, hposition]
  exact generate_firstHeard producer deck.spec deck.clock.loop h

/-- It serves the first listing that is heard in the next pass, as far as that is generated. -/
theorem plan_next_firstHeard (producer : ToneProducer) {deck : Deck} {layer : Layer}
    {start stop : Seconds} (hstart : deck.timeline.start? = some start)
    (hstop : deck.timeline.stop? = some stop) (hover : stop < deck.time + producer.lead)
    (h : deck.timeline.FirstHeard start (start + (deck.time + producer.lead - stop)) layer) :
    let key : QueueKey := ⟨layer.id, deck.clock.loop + 1⟩
    ∃ index,
      let made := generated deck.spec producer.chunkFrames start
        (start + (deck.time + producer.lead - stop)) layer index (producer.positions.lookup key)
      chunksFor key (producer.plan deck).1 = made.chunks := by
  intro key
  have hpass : key.loop = deck.clock.loop + 1 := rfl
  obtain ⟨hbefore, hchunks, -⟩ := plan_next_eq producer hstart hstop hover hpass
  obtain ⟨index, hmade, -⟩ := generate_firstHeard (producer.generate deck.timeline deck.spec
    deck.clock.loop deck.time (deck.time + producer.lead)).2 deck.spec (deck.clock.loop + 1) h
  rw [hbefore] at hmade
  exact ⟨index, hchunks.trans hmade⟩

/-- A fill goes on with a layer if a listing that speaks for it is heard up to the lead, and else
leaves it alone. -/
theorem plan_speaker (producer : ToneProducer) {deck : Deck} {layer : Layer}
    (h : deck.timeline.SpeaksFor deck.time (deck.time + producer.lead) layer) :
    let key : QueueKey := ⟨layer.id, deck.clock.loop⟩
    let known := producer.positions.lookup key
    let last := deck.time + producer.lead
    ¬ HeardIn layer deck.time last ∧ chunksFor key (producer.plan deck).1 = [] ∧
        (producer.plan deck).2.positions.lookup key = known ∨
      HeardIn layer deck.time last ∧ ∃ index,
        let made := generated deck.spec producer.chunkFrames deck.time last layer index known
        chunksFor key (producer.plan deck).1 = made.chunks ∧
          (producer.plan deck).2.positions.lookup key = some made.position := by
  intro key known last
  by_cases hheard : HeardIn layer deck.time last
  · obtain ⟨served, hserved, hid⟩ := Timeline.exists_firstHeard h.mem hheard
    obtain ⟨hfirst, hlast⟩ := h.bounds served hserved hid
    obtain ⟨index, hmade⟩ := plan_firstHeard producer hserved
    rw [hid, generated_congr hfirst.symm hlast.symm] at hmade
    exact Or.inr ⟨hheard, index, hmade⟩
  · obtain ⟨start, stop, hstart, hstop⟩ :=
      Timeline.exists_bounds (Timeline.length_ne_zero_of_mem_layers h.mem)
    have hpass : key.loop = deck.clock.loop := rfl
    obtain ⟨hchunks, hposition⟩ := plan_current_eq producer hstart hstop hpass
    rw [hchunks, hposition]
    exact Or.inl ⟨hheard, generate_silent producer deck.spec fun other hother hid hearly ↦
      hheard (h.heardIn hother hid hearly)⟩

end ToneProducer

end TimelineMixer
