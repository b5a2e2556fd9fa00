import TimelineMixer.Output.Scripted
import TimelineMixer.Proofs.Player.Effects

/-!
# Seeking while a producer fills

Seeks, fills, periods and the handling of events take turns in any order (`Playback.run`). Waiting
chunks stay contiguous under every step but a fill, and a fill continues each queue whose position
is known where its last chunk ends (`InStep`). A position is lost only when a seek is handled while
chunks wait, that is when a fill came between the seek and its event (`inStep_step`). So the queues
are contiguous throughout a run exactly if every fill that finds a queue out of step happens to join
it, and they are if no fill comes between a seek and its event (`contiguous_run_iff`). The other
case occurs: `not_contiguous_overtaken` is a run in which audio from before a seek is heard in front
of the audio for the new position.
-/

set_option autoImplicit false
set_option relaxedAutoImplicit false

namespace TimelineMixer

open ToneProducer

/-- An engine and the producer that fills its queues. -/
structure Playback (σ : Type) where
  engine : Engine σ
  producer : ToneProducer

namespace Playback

/-- A step of one of the tasks around an engine. -/
inductive Action where
  /-- A control call moves the clock. -/
  | seek (position : Seconds)
  /-- The producer fills the queues. -/
  | fill
  /-- The device asks for a period. -/
  | render (locked : Bool) (bytes : Nat)
  /-- The oldest waiting event is handled. -/
  | deliver
  deriving DecidableEq

variable {σ : Type} [OutputStream σ]

/-- The queues under all keys. -/
def store (playback : Playback σ) : LayerStore :=
  playback.engine.player.store

/-- The deck of the engine. -/
def deck (playback : Playback σ) : Deck :=
  playback.engine.player.deck

/-- The oldest waiting event, if any, is taken and handled. -/
def deliver (playback : Playback σ) : Playback σ :=
  match playback.engine.player.channel.receive with
  | (none, _) => playback
  | (some event, channel) =>
    let (producer, player) :=
      playback.producer.handle { playback.engine.player with channel } event
    ⟨{ playback.engine with player }, producer⟩

/-- One step. -/
def step (playback : Playback σ) : Action → Playback σ
  | .seek position => { playback with engine := (playback.engine.seek position).2 }
  | .fill =>
    let (_, producer, player) := playback.producer.fill playback.engine.player
    ⟨{ playback.engine with player }, producer⟩
  | .render locked bytes =>
    { playback with engine :=
        { playback.engine with player := (playback.engine.player.render locked bytes).2 } }
  | .deliver => playback.deliver

/-- Steps in their order. -/
def run (playback : Playback σ) (actions : List Action) : Playback σ :=
  actions.foldl step playback

omit [OutputStream σ] in
/-- In every queue the audio of each chunk ends where the next chunk begins. -/
def AllContiguous (playback : Playback σ) : Prop :=
  ∀ key, Contiguous playback.deck.spec (playback.store.chunks key)

/-- A position at which nothing is generated under a key any more. -/
def Finished (playback : Playback σ) (key : QueueKey) (position : Seconds) : Prop :=
  ∀ layer ∈ playback.deck.timeline.layers, layer.id = key.layer → layer.stop ≤ position

/-- If chunks wait under a key, the producer goes on where the last of them ends, or is finished. -/
def InStep (playback : Playback σ) (key : QueueKey) : Prop :=
  ∀ last, (playback.store.chunks key).getLast? = some last →
    ∃ position, playback.producer.positions.lookup key = some position ∧
      (position = last.stop playback.deck.spec ∨ playback.Finished key position)

/-- If chunks wait under a key, the first one a fill would put behind them begins where the last
of them ends. -/
def Joins (playback : Playback σ) (key : QueueKey) : Prop :=
  ∀ last first, (playback.store.chunks key).getLast? = some last →
    (chunksFor key (playback.producer.plan playback.deck).1).head? = some first →
      last.stop playback.deck.spec = first.pts

/-- The event of a seek waits to be handled. -/
def SeekWaits (playback : Playback σ) : Prop :=
  ∃ event ∈ playback.engine.player.channel.waiting, event.isSeek = true

omit [OutputStream σ] in
instance (playback : Playback σ) : Decidable playback.SeekWaits :=
  inferInstanceAs (Decidable (∃ event ∈ playback.engine.player.channel.waiting, _))

/-! ### Filling -/

section Fill

variable (playback : Playback σ)

theorem store_fill : (playback.step .fill).store =
    playback.store.pushAll (playback.producer.plan playback.deck).1 := by
  obtain ⟨notices, hfill⟩ := playback.producer.fill_snd playback.engine.player
  exact congrArg (fun player ↦ player.store) hfill

theorem deck_fill : (playback.step .fill).deck = playback.deck := by
  obtain ⟨notices, hfill⟩ := playback.producer.fill_snd playback.engine.player
  exact congrArg (fun player ↦ player.deck) hfill

theorem channel_fill :
    (playback.step .fill).engine.player.channel = playback.engine.player.channel := by
  obtain ⟨notices, hfill⟩ := playback.producer.fill_snd playback.engine.player
  exact congrArg (fun player ↦ player.channel) hfill

theorem producer_fill : (playback.step .fill).producer =
    (playback.producer.plan playback.deck).2 :=
  playback.producer.fill_fst playback.engine.player

/-- A fill puts behind the chunks of a key those planned for it. -/
theorem chunks_fill (key : QueueKey) : (playback.step .fill).store.chunks key =
    playback.store.chunks key ++ chunksFor key (playback.producer.plan playback.deck).1 := by
  rw [store_fill]
  exact LayerStore.chunks_pushAll _ (fun _ hentry ↦ (size_of_mem_plan hentry).1) key

/-- What a fill puts behind the chunks of a key is a row from the position of the key, if it has
one, to its next position, or to the end of a layer up to less than a frame. -/
theorem planned (key : QueueKey) :
    let new := chunksFor key (playback.producer.plan playback.deck).1
    let before := playback.producer.positions.lookup key
    let after := (playback.step .fill).producer.positions.lookup key
    (new = [] ∧ after = before) ∨
      ∃ layer ∈ playback.deck.timeline.layers, layer.id = key.layer ∧
        ∃ position reached next, (∀ known, before = some known → position = known) ∧
          Follows playback.deck.spec position new reached ∧ after = some next ∧
          (next = reached ∨ next = layer.stop) ∧
          (layer.stop ≤ position → new = [] ∧ next = position) := by
  intro new before after
  obtain ⟨loop, first, last, hmade⟩ := plan_outcome playback.producer playback.deck key
  rw [← producer_fill] at hmade
  change Outcome _ _ _ _ _ _ _ before new after at hmade
  generalize new = chunks at hmade ⊢
  generalize after = known at hmade ⊢
  cases hmade with
  | passed silent => exact Or.inl ⟨rfl, rfl⟩
  | served layer index mem key_eq heard =>
    obtain ⟨reached, hfollows, hnext⟩ := generated_follows playback.deck.spec
      playback.producer.chunkFrames first last layer index before
    refine Or.inr ⟨layer, mem, by rw [key_eq], before.getD (max layer.start first), reached, _,
      fun known hknown ↦ by rw [hknown, Option.getD_some], hfollows, rfl, hnext, fun hend ↦ ?_⟩
    rw [generated_of_stop_le _ _ _ hend]
    exact ⟨rfl, rfl⟩

/-- The chunks a fill adds to a key are contiguous. -/
theorem contiguous_planned (key : QueueKey) :
    Contiguous playback.deck.spec (chunksFor key (playback.producer.plan playback.deck).1) := by
  rcases playback.planned key with ⟨hnone, -⟩ | ⟨_, _, _, _, _, _, _, hfollows, -⟩
  · rw [hnone]
    exact .nil
  · exact hfollows.contiguous

variable {playback}

/-- A fill keeps contiguous chunks contiguous exactly if it joins them. -/
theorem contiguous_fill {key : QueueKey}
    (h : Contiguous playback.deck.spec (playback.store.chunks key)) :
    Contiguous (playback.step .fill).deck.spec ((playback.step .fill).store.chunks key) ↔
      playback.Joins key := by
  rw [deck_fill, chunks_fill, Contiguous, List.isChain_append]
  constructor
  · rintro ⟨-, -, hjoined⟩ last first hlast hfirst
    exact hjoined last hlast first hfirst
  · intro hjoins
    exact ⟨h, playback.contiguous_planned key, fun last hlast first hfirst ↦
      hjoins last first hlast hfirst⟩

theorem finished_fill {key : QueueKey} {position : Seconds} :
    (playback.step .fill).Finished key position ↔ playback.Finished key position := by
  rw [Finished, deck_fill, Finished]

/-- A queue that is in step is joined. -/
theorem InStep.joins {key : QueueKey} (h : playback.InStep key) : playback.Joins key := by
  intro last first hlast hfirst
  obtain ⟨position, hknown, hplace⟩ := h last hlast
  rcases playback.planned key with ⟨hnone, -⟩ |
    ⟨layer, hlayer, hid, start, reached, next, hstart, hfollows, -, -, hfinished⟩
  · rw [hnone] at hfirst
    cases hfirst
  · rw [hstart position hknown] at hfollows hfinished
    rcases hplace with hend | hend
    · rw [hfollows.head_pts hfirst, hend]
    · rw [(hfinished (hend layer hlayer hid)).1] at hfirst
      cases hfirst

/-- A queue that is in step stays so when it is filled. -/
theorem InStep.fill (hspan : playback.deck.timeline.OneSpan) {key : QueueKey}
    (h : playback.InStep key) : (playback.step .fill).InStep key := by
  intro last hlast
  rw [chunks_fill] at hlast
  rw [deck_fill]
  rcases playback.planned key with ⟨hnone, hsame⟩ |
    ⟨layer, hlayer, hid, start, reached, next, hstart, hfollows, hnext, hplace, hfinished⟩
  · rw [hnone, List.append_nil] at hlast
    obtain ⟨position, hknown, hfrom⟩ := h last hlast
    exact ⟨position, hsame.trans hknown, hfrom.imp id finished_fill.mpr⟩
  · refine ⟨next, hnext, ?_⟩
    -- At the end of one occurrence of the layer all of them are finished.
    have hstop : ∀ other ∈ playback.deck.timeline.layers, other.id = key.layer →
        other.stop = layer.stop := fun other hother hsame ↦
      (hspan other hother layer hlayer (hsame.trans hid.symm)).2
    have hdone : layer.stop ≤ next → (playback.step .fill).Finished key next := by
      intro hle
      rw [finished_fill]
      intro other hother hsame
      rw [hstop other hother hsame]
      exact hle
    rcases hplace with hreached | hend
    · cases hchunks : chunksFor key (playback.producer.plan playback.deck).1 with
      | nil =>
        rw [hchunks, List.append_nil] at hlast
        rw [hchunks] at hfollows
        obtain ⟨position, hknown, hfrom⟩ := h last hlast
        have hsame : next = position := by
          rw [hreached, ← hstart position hknown]
          exact hfollows.symm
        rw [hsame]
        exact hfrom.imp id finished_fill.mpr
      | cons chunk rest =>
        rw [hchunks, List.getLast?_append_cons] at hlast
        rw [hchunks] at hfollows
        exact Or.inl (hreached.trans (hfollows.stop_getLast hlast).symm)
    · exact Or.inr (hdone hend.ge)

end Fill

/-! ### The other steps -/

section Step

variable {playback : Playback σ}

/-- The oldest waiting event is that of a seek. -/
def SeekNext (playback : Playback σ) : Prop :=
  ∃ event, playback.engine.player.channel.waiting.head? = some event ∧ event.isSeek = true

/-- What a step other than a fill may do: chunks are taken off queues, and a position is forgotten
only for a key without chunks, or when a seek is handled. -/
structure Quiet (before after : Playback σ) : Prop where
  timeline_eq : after.deck.timeline = before.deck.timeline
  format_eq : after.deck.format = before.deck.format
  chunks : ∀ key, after.store.chunks key <:+ before.store.chunks key
  position : ∀ key, after.producer.positions.lookup key = before.producer.positions.lookup key ∨
    after.store.chunks key = [] ∨ before.SeekNext
  waits : after.SeekWaits → before.SeekWaits ∨ ∀ key, after.store.chunks key = []

theorem quiet_seek (playback : Playback σ) (position : Seconds) :
    Quiet playback (playback.step (.seek position)) := by
  rcases playback.engine.seek_effect position with hnothing | ⟨hstore, htimeline, hformat⟩
  · have hsame : playback.step (.seek position) = playback :=
      congrArg (fun engine ↦ { playback with engine }) hnothing
    rw [hsame]
    exact ⟨rfl, rfl, fun _ ↦ List.suffix_rfl, fun _ ↦ Or.inl rfl, Or.inl⟩
  · have hempty : ∀ key, (playback.step (.seek position)).store.chunks key = [] := by
      intro key
      change (playback.engine.seek position).2.player.store.chunks key = []
      rw [hstore, LayerStore.chunks_empty]
    exact ⟨htimeline, hformat, fun key ↦ hempty key ▸ List.nil_suffix,
      fun key ↦ Or.inr (Or.inl (hempty key)), fun _ ↦ Or.inr hempty⟩

theorem quiet_render (playback : Playback σ) (locked : Bool) (bytes : Nat) :
    Quiet playback (playback.step (.render locked bytes)) := by
  have hrendered := playback.engine.player.rendered_render locked bytes
  refine ⟨hrendered.timeline_eq, hrendered.format_eq, hrendered.chunks, fun _ ↦ Or.inl rfl, ?_⟩
  rintro ⟨event, hevent, hseek⟩
  rcases hrendered.waiting event hevent with hold | hother
  · exact Or.inl ⟨event, hold, hseek⟩
  · rw [hother] at hseek
    cases hseek

omit [OutputStream σ] in
/-- Handling an event drops the queues of earlier passes with their positions, or forgets all
positions, or does nothing. -/
theorem handle_effect (producer : ToneProducer) (player : Player) (event : Event) :
    (producer.handle player event).2.deck = player.deck ∧
      (producer.handle player event).2.channel = player.channel ∧
      (∀ key, (producer.handle player event).2.store.chunks key <:+ player.store.chunks key) ∧
      ∀ key, (producer.handle player event).1.positions.lookup key =
          producer.positions.lookup key ∨
        (producer.handle player event).2.store.chunks key = [] ∨ event.isSeek = true := by
  cases event with
  | seeked position index =>
    exact ⟨rfl, rfl, fun _ ↦ List.suffix_rfl, fun _ ↦ Or.inr (Or.inr rfl)⟩
  | loopWrapped loop =>
    obtain ⟨notices, hplayer⟩ := withStore_eq player fun store ↦ store.removeLoopsBefore loop
    rw [handle, hplayer]
    refine ⟨rfl, rfl, fun key ↦ ?_, fun key ↦ ?_⟩
    · rw [LayerStore.chunks_removeLoopsBefore]
      split_ifs
      · exact List.suffix_rfl
      · exact List.nil_suffix
    · rw [LayerStore.chunks_removeLoopsBefore,
        lookup_filter_keys producer.positions (fun key ↦ decide (loop ≤ key.loop))]
      by_cases hloop : loop ≤ key.loop
      · exact Or.inl (if_pos (decide_eq_true hloop))
      · exact Or.inr (Or.inl (if_neg hloop))
  | playbackStateChanged | atomChanged | underrunPause | readyToPlay =>
    exact ⟨rfl, rfl, fun _ ↦ List.suffix_rfl, fun _ ↦ Or.inl rfl⟩

theorem quiet_deliver (playback : Playback σ) : Quiet playback (playback.step .deliver) := by
  change Quiet playback playback.deliver
  cases hwaiting : playback.engine.player.channel.waiting with
  | nil =>
    have hsame : playback.deliver = playback := by
      rw [deliver, EventChannel.receive, hwaiting]
    rw [hsame]
    exact ⟨rfl, rfl, fun _ ↦ List.suffix_rfl, fun _ ↦ Or.inl rfl, Or.inl⟩
  | cons event rest =>
    have hhandled := handle_effect playback.producer { playback.engine.player with
      channel := { playback.engine.player.channel with waiting := rest } } event
    rw [deliver, EventChannel.receive, hwaiting]
    dsimp only at hhandled ⊢
    obtain ⟨hdeck, hchannel, hchunks, hposition⟩ := hhandled
    refine ⟨congrArg (fun deck ↦ deck.timeline) hdeck, congrArg (fun deck ↦ deck.format) hdeck,
      hchunks, fun key ↦ ?_, ?_⟩
    · exact (hposition key).imp id fun h ↦ h.imp id fun hseek ↦
        ⟨event, by rw [hwaiting]; rfl, hseek⟩
    · rintro ⟨other, hother, hseek⟩
      change other ∈ EventChannel.waiting _ at hother
      rw [hchannel] at hother
      exact Or.inl ⟨other, by rw [hwaiting]; exact List.mem_cons_of_mem _ hother, hseek⟩

theorem quiet_step (playback : Playback σ) {action : Action} (h : action ≠ .fill) :
    Quiet playback (playback.step action) := by
  cases action with
  | seek position => exact quiet_seek playback position
  | fill => exact absurd rfl h
  | render locked bytes => exact quiet_render playback locked bytes
  | deliver => exact quiet_deliver playback

omit [OutputStream σ] in
/-- A step other than a fill keeps contiguous chunks contiguous. -/
theorem Quiet.contiguous {after : Playback σ} (h : Quiet playback after) {key : QueueKey}
    (hchunks : Contiguous playback.deck.spec (playback.store.chunks key)) :
    Contiguous after.deck.spec (after.store.chunks key) := by
  have hspec : after.deck.spec = playback.deck.spec := congrArg SpecCell.load h.format_eq
  rw [hspec]
  exact hchunks.suffix (h.chunks key)

omit [OutputStream σ] in
/-- A step other than a fill keeps a queue in step, unless it handles a seek while chunks wait. -/
theorem Quiet.inStep {after : Playback σ} (h : Quiet playback after) {key : QueueKey}
    (hstep : playback.InStep key)
    (hseek : playback.SeekNext → playback.store.chunks key = []) : after.InStep key := by
  intro last hlast
  have hsome : after.store.chunks key ≠ [] := by
    intro hnone
    rw [hnone] at hlast
    cases hlast
  have hspec : after.deck.spec = playback.deck.spec := congrArg SpecCell.load h.format_eq
  obtain ⟨taken, htaken⟩ := h.chunks key
  have hbefore : (playback.store.chunks key).getLast? = some last := by
    rw [← htaken, List.getLast?_append, hlast]
    rfl
  obtain ⟨position, hknown, hplace⟩ := hstep last hbefore
  have hkept : after.producer.positions.lookup key = some position := by
    rcases h.position key with hsame | hnone | hnext
    · exact hsame.trans hknown
    · exact absurd hnone hsome
    · rw [hseek hnext] at hbefore
      cases hbefore
  refine ⟨position, hkept, ?_⟩
  rw [hspec, Finished, h.timeline_eq]
  exact hplace

end Step

/-! ### Runs -/

section Run

variable (playback : Playback σ)

theorem run_concat (actions : List Action) (action : Action) :
    playback.run (actions ++ [action]) = (playback.run actions).step action :=
  List.foldl_concat ..

/-- No step changes the timeline. -/
theorem timeline_step (action : Action) :
    (playback.step action).deck.timeline = playback.deck.timeline := by
  by_cases hfill : action = .fill
  · rw [hfill, deck_fill]
  · exact (quiet_step playback hfill).timeline_eq

theorem timeline_run (actions : List Action) :
    (playback.run actions).deck.timeline = playback.deck.timeline := by
  induction actions using List.reverseRecOn with
  | nil => rfl
  | append_singleton actions action ih => rw [run_concat, timeline_step, ih]

variable {playback}

/-- While the event of a seek waits no chunks do, and every queue is in step. -/
def Sound (playback : Playback σ) : Prop :=
  (playback.SeekWaits → ∀ key, playback.store.chunks key = []) ∧ ∀ key, playback.InStep key

omit [OutputStream σ] in
theorem sound_of_empty (hempty : playback.store = .empty) : playback.Sound := by
  refine ⟨fun _ key ↦ by rw [hempty, LayerStore.chunks_empty], fun key last hlast ↦ ?_⟩
  rw [hempty, LayerStore.chunks_empty] at hlast
  cases hlast

/-- A step keeps queues in step, unless it is a fill between a seek and its event. -/
theorem Sound.step (hspan : playback.deck.timeline.OneSpan) (h : playback.Sound)
    {action : Action} (hfill : action = .fill → ¬ playback.SeekWaits) :
    (playback.step action).Sound := by
  by_cases haction : action = .fill
  · rw [haction]
    refine ⟨?_, fun key ↦ (h.2 key).fill hspan⟩
    rintro ⟨event, hevent, hseek⟩
    rw [channel_fill] at hevent
    exact absurd ⟨event, hevent, hseek⟩ (hfill haction)
  · have hquiet := quiet_step playback haction
    refine ⟨fun hwaits key ↦ ?_, fun key ↦ hquiet.inStep (h.2 key) ?_⟩
    · rcases hquiet.waits hwaits with hbefore | hnone
      · exact List.suffix_nil.mp (h.1 hbefore key ▸ hquiet.chunks key)
      · exact hnone key
    · rintro ⟨event, hevent, hseek⟩
      exact h.1 ⟨event, List.mem_of_mem_head? hevent, hseek⟩ key

theorem sound_run (hspan : playback.deck.timeline.OneSpan) (hempty : playback.store = .empty)
    (actions : List Action)
    (hfill : ∀ played, played ++ [.fill] <+: actions → ¬ (playback.run played).SeekWaits) :
    (playback.run actions).Sound := by
  induction actions using List.reverseRecOn with
  | nil => exact sound_of_empty hempty
  | append_singleton actions action ih =>
    rw [run_concat]
    refine (ih fun played hplayed ↦ hfill played (hplayed.trans (List.prefix_append _ _))).step
      (by rwa [timeline_run]) fun haction ↦ ?_
    exact hfill actions (haction ▸ List.prefix_rfl)

/-- If every fill joins the queues that are out of step, chunks stay contiguous. -/
theorem allContiguous_run (hempty : playback.store = .empty) (actions : List Action)
    (hjoins : ∀ played, played ++ [.fill] <+: actions →
      ∀ key, ¬ (playback.run played).InStep key → (playback.run played).Joins key) :
    (playback.run actions).AllContiguous := by
  induction actions using List.reverseRecOn with
  | nil =>
    intro key
    change Contiguous _ (playback.store.chunks key)
    rw [hempty, LayerStore.chunks_empty]
    exact .nil
  | append_singleton actions action ih =>
    have hbefore := ih fun played hplayed ↦
      hjoins played (hplayed.trans (List.prefix_append _ _))
    intro key
    rw [run_concat]
    by_cases haction : action = .fill
    · rw [haction, contiguous_fill (hbefore key)]
      by_cases hstep : (playback.run actions).InStep key
      · exact hstep.joins
      · exact hjoins actions (haction ▸ List.prefix_rfl) key hstep
    · exact (quiet_step _ haction).contiguous (hbefore key)

/-- Chunks are contiguous throughout a run exactly if every fill that finds chunks waiting under a
key out of step puts the next one where they end; and they are if no fill comes between a seek and
the handling of its event. Assumes: a layer has one span, and the run begins with empty queues. -/
theorem contiguous_run_iff (hspan : playback.deck.timeline.OneSpan)
    (hempty : playback.store = .empty) (actions : List Action) :
    ((∀ played, played <+: actions → (playback.run played).AllContiguous) ↔
      ∀ played, played ++ [.fill] <+: actions →
        ∀ key, ¬ (playback.run played).InStep key → (playback.run played).Joins key) ∧
    ((∀ played, played ++ [.fill] <+: actions → ¬ (playback.run played).SeekWaits) →
      ∀ played, played <+: actions →
        (playback.run played).AllContiguous ∧ ∀ key, (playback.run played).InStep key) := by
  have hif : (∀ played, played ++ [.fill] <+: actions →
      ∀ key, ¬ (playback.run played).InStep key → (playback.run played).Joins key) →
      ∀ played, played <+: actions → (playback.run played).AllContiguous :=
    fun hjoins played hplayed ↦ allContiguous_run hempty played fun before hbefore ↦
      hjoins before (hbefore.trans hplayed)
  refine ⟨⟨fun hall played hplayed key _ ↦ ?_, hif⟩, fun hquiet played hplayed ↦ ?_⟩
  · have hbefore := hall played ((List.prefix_append _ _).trans hplayed) key
    have hafter := hall _ hplayed key
    rw [run_concat] at hafter
    exact (contiguous_fill hbefore).mp hafter
  · have hsound : ∀ before, before <+: actions → (playback.run before).Sound :=
      fun before hbefore ↦ sound_run hspan hempty before fun earlier hearlier ↦
        hquiet earlier (hearlier.trans hbefore)
    refine ⟨hif (fun before hbefore key hout ↦ ?_) played hplayed, (hsound played hplayed).2⟩
    exact absurd ((hsound before ((List.prefix_append _ _).trans hbefore)).2 key) hout

end Run

end Playback

/-! ### The race -/

namespace Playback

/-- The layer of the rehearsal in its first pass. -/
def soloKey : QueueKey :=
  ⟨.ofNat 1, 0⟩

/-- Ten seconds of one layer, just published, with a producer two seconds ahead. -/
def rehearsal : Playback ScriptedOutput where
  engine :=
    { player :=
        { Player.new .oneHertz 1 ⟨64, [], 0, true⟩ (.new 0 1) with
          deck := (Deck.new .oneHertz 1).publish
            { atoms := [⟨.ofInt 0, .ofInt 10, [⟨.ofNat 1, .ofInt 0, .ofInt 10, 1⟩]⟩]
              ordered := by decide +kernel } }
      stream := .new true [] []
      destroyed := false
      name := "scripted"
      minPlayable := 0
      flushTimeout := 0
      drainTimeout := 0 }
  producer := .new (.ofInt 2) 4

/-- A seek whose event is handled before the next fill leaves nothing out of step. -/
theorem contiguous_run_iff_rehearsal :
    let actions : List Action := [.fill, .seek (.ofInt 5), .deliver, .fill]
    (rehearsal.deck.timeline.OneSpan ∧ rehearsal.store = .empty ∧
      ∀ played, played ++ [.fill] <+: actions → ¬ (rehearsal.run played).SeekWaits) ∧
    ∀ played, played <+: actions →
      (rehearsal.run played).AllContiguous ∧ ∀ key, (rehearsal.run played).InStep key := by
  intro actions
  have hspan : rehearsal.deck.timeline.OneSpan := by decide +kernel
  have hempty : rehearsal.store = .empty := rfl
  have hhandled : ∀ played ∈ actions.inits, played ++ [.fill] ∈ actions.inits →
      ¬ (rehearsal.run played).SeekWaits := by decide +kernel
  have hquiet : ∀ played, played ++ [.fill] <+: actions →
      ¬ (rehearsal.run played).SeekWaits := fun played hplayed ↦
    hhandled played ((List.mem_inits _ _).mpr ((List.prefix_append _ _).trans hplayed))
      ((List.mem_inits _ _).mpr hplayed)
  exact ⟨⟨hspan, hempty, hquiet⟩, (contiguous_run_iff hspan hempty actions).2 hquiet⟩

/-- A fill between a seek to five seconds and its event goes on from two seconds, and what it
generates up to seven stays in front of the audio that the next fill generates from five. -/
theorem not_contiguous_overtaken :
    rehearsal.deck.timeline.OneSpan ∧ rehearsal.store = .empty ∧
      rehearsal.producer.positions = [] ∧
      ((rehearsal.run [.fill, .seek (.ofInt 5), .fill, .deliver, .fill]).store.chunks soloKey).map
        Chunk.pts = [.ofInt 2, .ofInt 6, .ofInt 5] ∧
      ¬ (rehearsal.run [.fill, .seek (.ofInt 5), .fill, .deliver, .fill]).AllContiguous := by
  refine ⟨by decide +kernel, rfl, rfl, by decide +kernel, fun hall ↦ ?_⟩
  have hqueue : ¬ Contiguous .oneHertz ((rehearsal.run
      [.fill, .seek (.ofInt 5), .fill, .deliver, .fill]).store.chunks soloKey) := by
    decide +kernel
  exact hqueue (hall soloKey)

end Playback

end TimelineMixer
