import TimelineMixer.Proofs.Producer.SeekRace
import TimelineMixer.Proofs.Producer.Supply
import TimelineMixer.Proofs.Transport.Position

/-!
# A new timeline behind a producer

Publishing a timeline empties the queues and begins the count of passes again, but it sends no
event, and the producer keeps the positions it has. What a fill then puts in front of an empty queue
begins at the recorded position of the key, or at the start of the layer if there is none
(`head?_generated`). Handling the waiting events voids that position if one of them tells of a seek
or of a later pass (`handled_feed`). So a layer of the new timeline is primed from its start exactly
if its position is voided in this way, was never recorded, or happens to be the start
(`primed_replace_iff`). A recorded position belongs to a layer of a timeline that was shown
(`recorded_performAll`), so a layer that is new to the producer is always primed; one that was
played before need not be (`not_primed_replace_again`).
-/

set_option autoImplicit false
set_option relaxedAutoImplicit false

namespace TimelineMixer

open ToneProducer

/-- Handling the event voids the position of a key. -/
def Event.forgets (event : Event) (key : QueueKey) : Bool :=
  match event with
  | .seeked .. => true
  | .loopWrapped loop => key.loop < loop
  | _ => false

namespace ToneProducer

section Handling

variable (producer : ToneProducer) (player : Player) (event : Event)

theorem lookup_handle (key : QueueKey) :
    (producer.handle player event).1.positions.lookup key =
      if event.forgets key then none else producer.positions.lookup key := by
  cases event with
  | seeked position index => rfl
  | loopWrapped loop =>
    refine (lookup_filter_keys producer.positions (fun key ↦ decide (loop ≤ key.loop)) key).trans ?_
    by_cases hloop : loop ≤ key.loop
    · simp [Event.forgets, hloop]
    · simp [Event.forgets, hloop, Nat.lt_of_not_le hloop]
  | playbackStateChanged | atomChanged | underrunPause | readyToPlay => rfl

/-- Handling an event changes only the positions of a producer. -/
theorem handle_settings : (producer.handle player event).1.lead = producer.lead ∧
    (producer.handle player event).1.chunkFrames = producer.chunkFrames := by
  cases event <;> exact ⟨rfl, rfl⟩

end Handling

/-- What a layer gets begins at the position of its key, or at the start of what is heard of it, if
a frame is left from there up to the limit. -/
theorem head?_generated (spec : AudioSpec) {chunkFrames : Nat} (hframes : 0 < chunkFrames)
    (first last : Seconds) (layer : Layer) (index : Nat) (known : Option Seconds) :
    let position := known.getD (max layer.start first)
    let limit := min last layer.stop
    (generated spec chunkFrames first last layer index known).chunks.head?.map Chunk.pts =
      if position < limit ∧ 0 < framesBetween spec position limit then some position else none := by
  intro position limit
  obtain ⟨bound, hbound⟩ := Nat.exists_eq_add_one.mpr chunkBound_pos
  change (generateChunks spec chunkFrames _ limit layer.stop
    chunkBound position).chunks.head?.map Chunk.pts = _
  rw [hbound]
  rcases lt_or_ge position limit with hbefore | hbeyond
  · rw [generateChunks_succ hbefore]
    by_cases hnone : framesBetween spec position limit = 0
    · simp [hnone]
    · rw [if_neg (by omega), if_pos ⟨hbefore, Nat.pos_of_ne_zero hnone⟩]
      rfl
  · rw [generateChunks_of_le hbeyond, if_neg fun hleft ↦ absurd hleft.1 (not_lt.mpr hbeyond)]
    rfl

/-- A frame that is left in exact time is counted, if the distance can be stored. -/
theorem framesBetween_pos {spec : AudioSpec} {first last : Seconds}
    (hfits : Seconds.DifferenceFits last first)
    (hroom : first.toRat + 1 / spec.rate.toNat ≤ last.toRat) :
    0 < framesBetween spec first last := by
  have hlength : (spec.frameBytes : ℚ) / spec.bytesPerSecond = 1 / spec.rate.toNat := by
    simpa using spec.frames_div 1
  have hframe : 0 < 1 / (spec.rate.toNat : ℚ) := one_div_pos.mpr spec.rate_cast_pos
  have hnonneg : 0 ≤ (last - first).toRat := by
    rw [Seconds.toRat_sub hfits]
    linarith
  have hexact : spec.frameBytes ≤ spec.wholeBytes (last - first).toRat := by
    rw [spec.le_wholeBytes dvd_rfl hnonneg, hlength, Seconds.toRat_sub hfits]
    linarith
  have hmemory : spec.frameBytes < 2 ^ 63 :=
    (Nat.le_mul_of_pos_left _ (Nat.cast_pos.mp spec.rate_cast_pos)).trans_lt spec.bytesPerSecond_lt
  have hcounted := spec.min_bytesIn (last - first) dvd_rfl hmemory
  exact Nat.div_pos (by omega) spec.frameBytes_pos

end ToneProducer

namespace Playback

/-- A step of one of the tasks around an engine and its producer. -/
inductive Move where
  /-- A step that does not involve the producer. -/
  | engine (action : Engine.Action)
  /-- The format changes. -/
  | setSpec (spec : AudioSpec)
  /-- The producer fills the queues. -/
  | fill
  /-- The producer handles the oldest waiting event. -/
  | deliver
  /-- The producer is told to forget its positions. -/
  | reset

/-- The timeline that a step publishes. -/
def Move.timeline? : Move → Option Timeline
  | .engine (.call (.setTimeline timeline)) => some timeline
  | _ => none

variable {σ : Type} [OutputStream σ]

/-- One step. -/
def perform (playback : Playback σ) : Move → Playback σ
  | .engine action => { playback with engine := playback.engine.step action }
  | .setSpec spec => { playback with engine := playback.engine.setSpec spec }
  | .fill => playback.step .fill
  | .deliver => playback.deliver
  | .reset => { playback with producer := playback.producer.reset }

/-- Steps in their order. -/
def performAll (playback : Playback σ) (moves : List Move) : Playback σ :=
  moves.foldl perform playback

omit [OutputStream σ] in
/-- The events that wait to be handled. -/
def waiting (playback : Playback σ) : List Event :=
  playback.engine.player.channel.waiting

omit [OutputStream σ] in
/-- The recorded position of a key. -/
def position (playback : Playback σ) (key : QueueKey) : Option Seconds :=
  playback.producer.positions.lookup key

omit [OutputStream σ] in
/-- Every waiting event is handled. -/
def feed (playback : Playback σ) : Playback σ :=
  deliver^[playback.waiting.length] playback

omit [OutputStream σ] in
/-- Another timeline is shown. -/
def publish (playback : Playback σ) (timeline : Timeline) : Playback σ :=
  { playback with engine := (playback.engine.setTimeline timeline).2 }

/-- Another timeline is shown, every waiting event is handled, and the queues are filled. -/
def replace (playback : Playback σ) (timeline : Timeline) : Playback σ :=
  (playback.publish timeline).feed.step .fill

omit [OutputStream σ] in
/-- The queue of a layer in the first pass begins with the first of it that is heard. -/
def Primed (playback : Playback σ) (layer : Layer) : Prop :=
  (playback.store.chunks ⟨layer.id, 0⟩).head?.map Chunk.pts = some (max layer.start 0)

omit [OutputStream σ] in
instance (playback : Playback σ) (layer : Layer) : Decidable (playback.Primed layer) :=
  inferInstanceAs (Decidable (_ = _))

omit [OutputStream σ] in
/-- A waiting event voids the position of a key when it is handled. -/
def Forgets (playback : Playback σ) (key : QueueKey) : Prop :=
  playback.waiting.any (·.forgets key) = true

omit [OutputStream σ] in
instance (playback : Playback σ) (key : QueueKey) : Decidable (playback.Forgets key) :=
  inferInstanceAs (Decidable (_ = _))

/-! ### Handling what waits -/

omit [OutputStream σ] in
/-- Some events were handled: they are no longer waiting, they may have dropped chunks, and they
voided the positions of the keys that one of them forgets. -/
structure Handled (before : Playback σ) (events : List Event) (after : Playback σ) : Prop where
  waiting_eq : before.waiting = events ++ after.waiting
  deck_eq : after.deck = before.deck
  chunks : ∀ key, after.store.chunks key <:+ before.store.chunks key
  settings : after.producer.lead = before.producer.lead ∧
    after.producer.chunkFrames = before.producer.chunkFrames
  position_eq : ∀ key, after.position key =
    if events.any (·.forgets key) then none else before.position key

section Handled

variable {before middle after playback : Playback σ} {events more : List Event}

omit [OutputStream σ] in
theorem Handled.refl (playback : Playback σ) : Handled playback [] playback :=
  ⟨rfl, rfl, fun _ ↦ List.suffix_rfl, ⟨rfl, rfl⟩, fun _ ↦ rfl⟩

omit [OutputStream σ] in
theorem Handled.trans (h : Handled before events middle) (hmore : Handled middle more after) :
    Handled before (events ++ more) after where
  waiting_eq := by rw [h.waiting_eq, hmore.waiting_eq, List.append_assoc]
  deck_eq := hmore.deck_eq.trans h.deck_eq
  chunks key := (hmore.chunks key).trans (h.chunks key)
  settings := ⟨hmore.settings.1.trans h.settings.1, hmore.settings.2.trans h.settings.2⟩
  position_eq key := by
    rw [hmore.position_eq, h.position_eq, List.any_append]
    cases events.any (·.forgets key) <;> cases more.any (·.forgets key) <;> rfl

omit [OutputStream σ] in
theorem handled_deliver {event : Event} {rest : List Event} (h : playback.waiting = event :: rest) :
    Handled playback [event] playback.deliver := by
  have hwaiting : playback.engine.player.channel.waiting = event :: rest := h
  let player : Player := { playback.engine.player with
    channel := { playback.engine.player.channel with waiting := rest } }
  obtain ⟨hdeck, hchannel, hchunks, -⟩ := handle_effect playback.producer player event
  have hdeliver : playback.deliver =
      ⟨{ playback.engine with player := (playback.producer.handle player event).2 },
        (playback.producer.handle player event).1⟩ := by
    rw [deliver, EventChannel.receive, hwaiting]
  rw [hdeliver]
  refine ⟨?_, hdeck, hchunks, playback.producer.handle_settings player event, fun key ↦ ?_⟩
  · rw [h, waiting, hchannel]
    rfl
  · rw [List.any_cons, List.any_nil, Bool.or_false]
    exact playback.producer.lookup_handle player event key

omit [OutputStream σ] in
theorem deliver_of_waiting_eq_nil (h : playback.waiting = []) : playback.deliver = playback := by
  have hwaiting : playback.engine.player.channel.waiting = [] := h
  rw [deliver, EventChannel.receive, hwaiting]

omit [OutputStream σ] in
theorem handled_feed (playback : Playback σ) :
    Handled playback playback.waiting playback.feed := by
  rw [feed]
  generalize hevents : playback.waiting = events
  induction events generalizing playback with
  | nil => exact .refl playback
  | cons event rest ih =>
    have hfirst := handled_deliver hevents
    have hrest : playback.deliver.waiting = rest := by
      have := hfirst.waiting_eq
      rw [hevents] at this
      exact (List.cons.inj this).2.symm
    exact hfirst.trans (ih playback.deliver hrest)

end Handled

/-! ### Positions of a producer -/

omit [OutputStream σ] in
/-- One of some timelines is shown, and the positions are those of layers of these timelines. -/
structure Recorded (shown : List Timeline) (playback : Playback σ) : Prop where
  timeline_mem : playback.deck.timeline ∈ shown
  layer_of_position : ∀ key, playback.position key ≠ none →
    ∃ timeline ∈ shown, ∃ layer ∈ timeline.layers, layer.id = key.layer

section Recorded

variable {shown : List Timeline} {playback : Playback σ}

omit [OutputStream σ] in
theorem Recorded.mono (h : Recorded shown playback) {more : List Timeline} (hmore : shown ⊆ more) :
    Recorded more playback where
  timeline_mem := hmore h.timeline_mem
  layer_of_position key hknown :=
    let ⟨timeline, hshown, hlayer⟩ := h.layer_of_position key hknown
    ⟨timeline, hmore hshown, hlayer⟩

/-- A step of the engine shows the timeline it publishes, or the one it showed before. -/
theorem timeline_step_engine (engine : Engine σ) (action : Engine.Action) :
    (engine.step action).player.deck.timeline = engine.player.deck.timeline ∨
      (Move.engine action).timeline? = some (engine.step action).player.deck.timeline := by
  have hturned : ∀ {target after}, Engine.Turned engine target after →
      after.player.deck.timeline = engine.player.deck.timeline := by
    intro target after h
    rw [h.deck_eq]
    split_ifs <;> rfl
  cases action with
  | receive => exact Or.inl rfl
  | push key chunk =>
    exact Or.inl (congrArg (fun deck ↦ deck.timeline) (engine.step_push key chunk).1)
  | period locked bytes => exact Or.inl (engine.player.rendered_render locked bytes).timeline_eq
  | call command =>
    cases command with
    | play => exact Or.inl (hturned engine.turned_play)
    | pause => exact Or.inl (hturned (engine.turned_halt .paused))
    | stop => exact Or.inl (hturned (engine.turned_halt .stopped))
    | destroy => exact Or.inl (hturned engine.turned_destroy)
    | setVolume volume => exact Or.inl rfl
    | seek position =>
      rcases engine.seek_effect position with hnothing | ⟨-, htimeline, -⟩
      · exact Or.inl (congrArg (fun engine ↦ engine.player.deck.timeline) hnothing)
      · exact Or.inl htimeline
    | setTimeline timeline =>
      rcases engine.setTimeline_cases timeline with ⟨hrefused, -⟩ | ⟨-, -, hdeck, -⟩
      · exact Or.inl (congrArg (fun made ↦ made.2.player.deck.timeline) hrefused)
      · exact Or.inr (congrArg some (congrArg (fun deck ↦ deck.timeline) hdeck).symm)

/-- A step records positions for layers of the timelines shown so far only. -/
theorem Recorded.perform (h : Recorded shown playback) (move : Move) :
    Recorded (shown ++ move.timeline?.toList) (playback.perform move) := by
  have hmore : shown ⊆ shown ++ move.timeline?.toList := List.subset_append_left _ _
  cases move with
  | engine action =>
    refine ⟨?_, (h.mono hmore).layer_of_position⟩
    rcases timeline_step_engine playback.engine action with hsame | hnew
    · exact hmore (hsame ▸ h.timeline_mem)
    · rw [hnew]
      exact List.mem_append_right _ List.mem_cons_self
  | setSpec spec => exact ⟨hmore h.timeline_mem, (h.mono hmore).layer_of_position⟩
  | reset => exact ⟨hmore h.timeline_mem, fun key hknown ↦ absurd rfl hknown⟩
  | deliver =>
    refine Recorded.mono ?_ hmore
    cases hwaiting : playback.waiting with
    | nil =>
      have hsame : playback.perform .deliver = playback := deliver_of_waiting_eq_nil hwaiting
      rwa [hsame]
    | cons event rest =>
      have hhandled := handled_deliver hwaiting
      refine ⟨?_, fun key hknown ↦ h.layer_of_position key fun hnone ↦ hknown ?_⟩
      · change playback.deliver.deck.timeline ∈ shown
        rw [hhandled.deck_eq]
        exact h.timeline_mem
      · change playback.deliver.position key = none
        rw [hhandled.position_eq, hnone, ite_self]
  | fill =>
    refine Recorded.mono ⟨?_, fun key hknown ↦ ?_⟩ hmore
    · change (playback.step .fill).deck.timeline ∈ shown
      rw [deck_fill]
      exact h.timeline_mem
    · change (playback.step .fill).producer.positions.lookup key ≠ none at hknown
      rcases playback.planned key with ⟨-, hsame⟩ | ⟨layer, hlayer, hid, -⟩
      · rw [hsame] at hknown
        exact h.layer_of_position key hknown
      · exact ⟨_, h.timeline_mem, layer, hlayer, hid⟩

/-- Positions are recorded only for layers of timelines that were shown. -/
theorem Recorded.performAll (h : Recorded shown playback) (moves : List Move) :
    Recorded (shown ++ moves.filterMap Move.timeline?) (playback.performAll moves) := by
  induction moves generalizing shown playback with
  | nil => rwa [List.filterMap_nil, List.append_nil]
  | cons move rest ih =>
    have hrest := ih (h.perform move)
    have hsplit : (move :: rest).filterMap Move.timeline? =
        move.timeline?.toList ++ rest.filterMap Move.timeline? := by
      rw [List.filterMap_cons]
      cases move.timeline? <;> rfl
    rw [hsplit, ← List.append_assoc]
    exact hrest

end Recorded

/-! ### Priming -/

section Priming

variable {timeline : Timeline} {layer : Layer}

/-- A fill of empty queues at the beginning of a timeline puts in front of the queue of a layer what
belongs to the position of its key, or to the start of the layer. -/
theorem primed_fill_iff (playback : Playback σ) (layer : Layer)
    (hframes : 0 < playback.producer.chunkFrames)
    (hlayer : layer ∈ playback.deck.timeline.layers)
    (hspan : ∀ other ∈ playback.deck.timeline.layers, other.id = layer.id →
      other.start = layer.start ∧ other.stop = layer.stop)
    (hroom : max layer.start 0 < min playback.producer.lead layer.stop)
    (hclock : playback.deck.clock = .zero)
    (hempty : playback.store.chunks ⟨layer.id, 0⟩ = []) :
    (playback.step .fill).Primed layer ↔
      0 < framesBetween playback.deck.spec (max layer.start 0)
          (min playback.producer.lead layer.stop) ∧
        ∀ known, playback.position ⟨layer.id, 0⟩ = some known → known = max layer.start 0 := by
  have htime : playback.deck.time = 0 := by
    rw [Deck.time, hclock, Clock.time]
    exact (Seconds.zero_add _).trans (AudioSpec.duration_zero _)
  have hloop : playback.deck.clock.loop = 0 := by rw [hclock]; rfl
  obtain ⟨start, stop, hstart, hstop⟩ :=
    Timeline.exists_bounds (Timeline.length_ne_zero_of_mem_layers hlayer)
  have hpass : (QueueKey.mk layer.id 0).loop = playback.deck.clock.loop := hloop.symm
  have hmade := plan_current playback.producer hstart hstop hpass
  rw [htime, Seconds.zero_add, hloop] at hmade
  change Outcome _ _ _ _ _ _ _ (playback.position ⟨layer.id, 0⟩) _ _ at hmade
  rw [Primed, chunks_fill, hempty, List.nil_append]
  generalize playback.position ⟨layer.id, 0⟩ = before at hmade ⊢
  generalize chunksFor _ (playback.producer.plan playback.deck).1 = chunks at hmade ⊢
  generalize (playback.producer.plan playback.deck).2.positions.lookup _ = after at hmade
  have hbounds := hroom.trans_le (min_le_left _ _)
  cases hmade with
  | passed silent =>
    refine absurd ⟨?_, (le_max_left _ _).trans_lt hbounds⟩ (silent layer hlayer rfl)
    exact (le_max_right _ _).trans_lt (hroom.trans_le (min_le_right _ _))
  | served other index mem key_eq heard =>
    obtain ⟨hstart, hstop⟩ := hspan other mem (QueueKey.mk.inj key_eq).1.symm
    rw [head?_generated _ hframes, hstart, hstop]
    cases before with
    | none => simp [hroom]
    | some known =>
      rw [Option.getD_some]
      constructor
      · intro hprimed
        split_ifs at hprimed with hleft
        obtain rfl := Option.some.inj hprimed
        exact ⟨hleft.2, fun _ hknown ↦ (Option.some.inj hknown).symm⟩
      · rintro ⟨hleft, hsame⟩
        obtain rfl := hsame known rfl
        rw [if_pos ⟨hroom, hleft⟩]

omit [OutputStream σ] in
/-- Publishing a timeline empties the queues and puts the clock at the beginning; the positions of
the producer and the waiting events stay. -/
theorem publish_eq {playback : Playback σ} (hlive : playback.engine.destroyed = false)
    (timeline : Timeline) :
    (playback.publish timeline).deck = playback.deck.publish timeline ∧
      (playback.publish timeline).store = .empty ∧
      (playback.publish timeline).waiting = playback.waiting ∧
      (playback.publish timeline).producer = playback.producer := by
  rcases playback.engine.setTimeline_cases timeline with
    ⟨-, hdestroyed⟩ | ⟨-, -, hdeck, hchannel, -⟩
  · rw [hlive] at hdestroyed
    cases hdestroyed
  · refine ⟨hdeck, ?_, congrArg EventChannel.waiting hchannel, rfl⟩
    change (playback.engine.setTimeline timeline).2.player.store = .empty
    rw [Engine.setTimeline, hlive, if_neg Bool.false_ne_true]
    rfl

/-- When a timeline is replaced, a layer is primed exactly if its position was voided by one of the
waiting events, was never recorded, or is the start. -/
theorem primed_replace_iff_position {playback : Playback σ}
    (hlive : playback.engine.destroyed = false) (hframes : 0 < playback.producer.chunkFrames)
    (hlayer : layer ∈ timeline.layers)
    (hspan : ∀ other ∈ timeline.layers, other.id = layer.id →
      other.start = layer.start ∧ other.stop = layer.stop)
    (hroom : max layer.start 0 < min playback.producer.lead layer.stop) :
    (playback.replace timeline).Primed layer ↔
      0 < framesBetween playback.deck.spec (max layer.start 0)
          (min playback.producer.lead layer.stop) ∧
        (playback.Forgets ⟨layer.id, 0⟩ ∨ ∀ known,
          playback.position ⟨layer.id, 0⟩ = some known → known = max layer.start 0) := by
  obtain ⟨hdeck, hstore, hwaiting, hproducer⟩ := publish_eq hlive timeline
  have hfed := handled_feed (playback.publish timeline)
  obtain ⟨hlead, hchunkFrames⟩ := hfed.settings
  rw [hproducer] at hlead hchunkFrames
  have hshown := hfed.deck_eq.trans hdeck
  have hposition := hfed.position_eq ⟨layer.id, 0⟩
  rw [hwaiting, position, position, hproducer] at hposition
  have hfilled := primed_fill_iff (playback.publish timeline).feed layer
    (by rwa [hchunkFrames]) (by rw [hshown]; exact hlayer) (by rw [hshown]; exact hspan)
    (by rwa [hlead]) (by rw [hshown]; rfl)
    (List.suffix_nil.mp ((hfed.chunks _).trans (by rw [hstore, LayerStore.chunks_empty])))
  rw [hlead, hshown, position, hposition] at hfilled
  rw [replace, hfilled, Forgets]
  refine and_congr_right fun _ ↦ ?_
  by_cases hforgets : playback.waiting.any (·.forgets ⟨layer.id, 0⟩) = true
  · simp [hforgets]
  · simp [hforgets, position]

/-- No step changes how far ahead the producer fills, and how long its chunks are. -/
theorem settings_performAll (playback : Playback σ) (moves : List Move) :
    (playback.performAll moves).producer.lead = playback.producer.lead ∧
      (playback.performAll moves).producer.chunkFrames = playback.producer.chunkFrames := by
  have hstep : ∀ (playback : Playback σ) move,
      (playback.perform move).producer.lead = playback.producer.lead ∧
        (playback.perform move).producer.chunkFrames = playback.producer.chunkFrames := by
    intro playback move
    cases move with
    | engine action => exact ⟨rfl, rfl⟩
    | setSpec spec => exact ⟨rfl, rfl⟩
    | reset => exact ⟨rfl, rfl⟩
    | fill =>
      rw [perform, producer_fill]
      exact plan_settings _ _
    | deliver =>
      cases hwaiting : playback.waiting with
      | nil =>
        rw [perform, deliver_of_waiting_eq_nil hwaiting]
        exact ⟨rfl, rfl⟩
      | cons event rest => exact (handled_deliver hwaiting).settings
  induction moves generalizing playback with
  | nil => exact ⟨rfl, rfl⟩
  | cons move rest ih =>
    obtain ⟨hlead, hframes⟩ := ih (playback.perform move)
    obtain ⟨hlead', hframes'⟩ := hstep playback move
    exact ⟨hlead.trans hlead', hframes.trans hframes'⟩

/-- Whatever was played before, a layer with one span that begins before the lead is primed by the
replacement of the timeline exactly if the producer counts a frame of it and starts it afresh: one
of the waiting events voids its position in the first pass, or none but its start was recorded. A
frame that fits is counted if the distance can be stored, and no position is recorded for a layer
that no timeline before had. -/
theorem primed_replace_iff (engine : Engine σ) (lead : Seconds) (chunkFrames : Nat)
    (moves : List Move) :
    let before := (Playback.mk engine (.new lead chunkFrames)).performAll moves
    before.engine.destroyed = false → layer ∈ timeline.layers →
    (∀ other ∈ timeline.layers, other.id = layer.id →
      other.start = layer.start ∧ other.stop = layer.stop) →
    max layer.start 0 < min lead layer.stop →
    let frames := framesBetween before.deck.spec (max layer.start 0) (min lead layer.stop)
    ((before.replace timeline).Primed layer ↔
      0 < frames ∧ (before.Forgets ⟨layer.id, 0⟩ ∨ ∀ known,
        before.position ⟨layer.id, 0⟩ = some known → known = max layer.start 0)) ∧
    (Seconds.DifferenceFits (min lead layer.stop) (max layer.start 0) →
      (max layer.start 0).toRat + 1 / before.deck.spec.rate.toNat ≤
        (min lead layer.stop).toRat → 0 < frames) ∧
    ((∀ shown ∈ engine.player.deck.timeline :: moves.filterMap Move.timeline?,
        ∀ other ∈ shown.layers, other.id ≠ layer.id) →
      before.position ⟨layer.id, 0⟩ = none) := by
  intro before hlive hlayer hspan hroom frames
  obtain ⟨hlead, hframes⟩ := settings_performAll ⟨engine, .new lead chunkFrames⟩ moves
  have hleadBefore : before.producer.lead = lead := hlead
  have hframesBefore : before.producer.chunkFrames = max chunkFrames 1 := hframes
  refine ⟨?_, fun hfits hleft ↦ framesBetween_pos hfits hleft, fun hnew ↦ ?_⟩
  · have hprimed := primed_replace_iff_position hlive (by omega) hlayer hspan
      (by rwa [hleadBefore])
    rwa [hleadBefore] at hprimed
  · have hstart : Recorded [engine.player.deck.timeline]
        (Playback.mk engine (.new lead chunkFrames)) :=
      ⟨List.mem_singleton_self _, fun key hknown ↦ absurd rfl hknown⟩
    by_contra hknown
    obtain ⟨shown, hshown, other, hother, hid⟩ :=
      (hstart.performAll moves).layer_of_position _ hknown
    exact hnew shown hshown other hother hid

end Priming

/-- After a seek whose event still waits, the same timeline is primed from its start again. -/
theorem primed_replace_iff_rehearsal :
    let moves : List Move := [.fill, .engine (.call (.seek (.ofInt 5)))]
    let before := (Playback.mk rehearsal.engine (.new (.ofInt 2) 4)).performAll moves
    ∃ layer ∈ rehearsal.deck.timeline.layers,
      (before.engine.destroyed = false ∧ rehearsal.deck.timeline.OneSpan ∧
        max layer.start 0 < min (.ofInt 2) layer.stop ∧ before.Forgets ⟨layer.id, 0⟩) ∧
      (before.replace rehearsal.deck.timeline).Primed layer := by
  intro moves before
  have hlive : before.engine.destroyed = false := by decide +kernel
  have hspan : rehearsal.deck.timeline.OneSpan := by decide +kernel
  refine ⟨⟨.ofNat 1, .ofInt 0, .ofInt 10, 1⟩, List.mem_cons_self, ⟨hlive, hspan, ?_, ?_⟩, ?_⟩
  · decide +kernel
  · decide +kernel
  · have hroom : max (Seconds.ofInt 0) 0 < min (.ofInt 2) (.ofInt 10) := by decide +kernel
    refine (primed_replace_iff rehearsal.engine (.ofInt 2) 4 moves hlive List.mem_cons_self
      (fun other hother hid ↦ hspan other hother _ List.mem_cons_self hid) hroom).1.mpr ⟨?_, ?_⟩
    · decide +kernel
    · exact Or.inl (by decide +kernel)

/-- After a fill, showing the same timeline again leaves its layer without a queue: nothing waits
to be handled, and the producer goes on from two seconds, where its lead ends. -/
theorem not_primed_replace_again :
    let before := rehearsal.performAll [.fill]
    let layer : Layer := ⟨.ofNat 1, .ofInt 0, .ofInt 10, 1⟩
    (rehearsal.producer.positions = [] ∧ before.engine.destroyed = false ∧
      layer ∈ rehearsal.deck.timeline.layers ∧ rehearsal.deck.timeline.OneSpan ∧
      0 < layer.stop ∧ (max layer.start 0).toRat <
        (min layer.stop before.producer.lead).toRat - 1 / before.deck.spec.rate.toNat) ∧
    before.position ⟨layer.id, 0⟩ = some (.ofInt 2) ∧
      (before.replace rehearsal.deck.timeline).store.chunks ⟨layer.id, 0⟩ = [] ∧
      ¬ (before.replace rehearsal.deck.timeline).Primed layer := by
  intro before layer
  refine ⟨⟨rfl, by decide +kernel, List.mem_cons_self, by decide +kernel, by decide +kernel, ?_⟩,
    by decide +kernel, by decide +kernel, by decide +kernel⟩
  decide +kernel

end Playback

end TimelineMixer
