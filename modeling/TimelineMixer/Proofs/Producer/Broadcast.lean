import TimelineMixer.Proofs.Clock.Playing
import TimelineMixer.Proofs.Mix.Frames
import TimelineMixer.Proofs.Player.Effects
import TimelineMixer.Proofs.Producer.Supply

/-!
# A player and its producer

A broadcast is a playing player with the producer that fills its queues. It is filled, asked for a
period, and receives an event it has sent before, in an order in which every period follows a fill
(`Broadcast.Run`). Between two steps the queues of the pass that is played begin with what is heard
next, and those of the next pass with its start (`Stocked`). A fill keeps this, and supplies both
passes as far as the lead reaches (`Stocked.fill`, `Stocked.filled_fill`); an event that was sent
drops only earlier passes (`Stocked.kept_deliver`).
-/

set_option autoImplicit false
set_option relaxedAutoImplicit false

namespace TimelineMixer

open ToneProducer

/-- A timeline that can be played round and round: its atoms meet from time zero on, a layer has one
span and stands once in every atom it sounds in, and spans are on the grid of frames. -/
structure Timeline.Seamless (timeline : Timeline) (spec : AudioSpec) (stop : Seconds) : Prop where
  start_eq : timeline.start? = some 0
  stop_eq : timeline.stop? = some stop
  contiguous : timeline.Contiguous
  oneSpan : timeline.OneSpan
  distinct : ∀ atom ∈ timeline.atoms, (atom.layers.map Layer.id).Nodup
  listed : ∀ atom ∈ timeline.atoms, ∀ layer ∈ timeline.layers,
    max layer.start atom.start < min layer.stop atom.stop → layer.id ∈ atom.layers.map Layer.id
  onGrid : timeline.OnGrid spec

/-- A player, the producer that fills its queues, and what they have made and sent. -/
structure Broadcast where
  player : Player
  producer : ToneProducer
  /-- The chunks made so far, under their keys. -/
  made : List (QueueKey × Chunk)
  /-- The events sent by choosing atoms. -/
  sent : List Event

namespace Broadcast

/-- The state right after a timeline is published to a playing player: time zero, empty queues, and
a producer that has made nothing. -/
def opening (player : Player) (timeline : Timeline) (lead : Seconds) (chunkFrames : Nat) :
    Broadcast where
  player := { player with
    deck := { player.deck.publish timeline with transport := .playing }
    store := .empty }
  producer := .new lead chunkFrames
  made := []
  sent := []

section State

variable (broadcast : Broadcast)

/-- The deck that plays. -/
def deck : Deck :=
  broadcast.player.deck

/-- The format that is played. -/
def spec : AudioSpec :=
  broadcast.deck.spec

/-- The position of a key. -/
def position (key : QueueKey) : Option Seconds :=
  broadcast.producer.positions.lookup key

/-- The bytes under a key that are not read yet. -/
def unread (key : QueueKey) : List UInt8 :=
  broadcast.player.store.unread key

/-- The producer fills the queues. -/
def fill : Broadcast :=
  let (_, producer, player) := broadcast.producer.fill broadcast.player
  let entries := (broadcast.producer.plan broadcast.deck).1
  { broadcast with player, producer, made := broadcast.made ++ entries }

/-- A period is played. -/
def render (bytes : Nat) : Broadcast :=
  { broadcast with
    player := (broadcast.player.render false bytes).2
    sent := broadcast.sent ++ (broadcast.deck.select bytes).1.events }

/-- The producer receives an event. -/
def deliver (event : Event) : Broadcast :=
  let (producer, player) := broadcast.producer.handle broadcast.player event
  { broadcast with player, producer }

/-- The times computed for a part of a pass can be stored. -/
def PassFits (loop : Nat) (first last : Seconds) : Prop :=
  ∀ layer ∈ broadcast.deck.timeline.layers, HeardIn layer first last →
    GeneratedFits broadcast.spec broadcast.producer.chunkFrames first last layer
      (broadcast.position ⟨layer.id, loop⟩)

/-- The times computed by a fill can be stored. -/
def FillFits : Prop :=
  let now := broadcast.deck.time
  let horizon := now + broadcast.producer.lead
  Seconds.Fits (now.toRat + broadcast.producer.lead.toRat) ∧
    broadcast.PassFits broadcast.deck.clock.loop now horizon ∧
    ∀ stop ∈ broadcast.deck.timeline.stop?, stop < horizon →
      Seconds.DifferenceFits horizon stop ∧
        broadcast.PassFits (broadcast.deck.clock.loop + 1) 0 (horizon - stop)

/-- The times computed for a period, and the count of its bytes, can be stored. -/
def RenderFits (bytes : Nat) : Prop :=
  let chosen := (broadcast.deck.select bytes).2
  (broadcast.deck.playPeriod bytes).clock.bytes < 2 ^ 63 ∧
    ∀ atom ∈ (broadcast.deck.select bytes).1.atom, ∀ layer ∈ atom.layers,
      layer.BoundsFit chosen.time (chosen.time + chosen.spec.duration bytes)

instance (loop : Nat) (first last : Seconds) : Decidable (broadcast.PassFits loop first last) :=
  inferInstanceAs (Decidable (∀ layer ∈ broadcast.deck.timeline.layers, _ → _))

instance : Decidable broadcast.FillFits :=
  inferInstanceAs (Decidable (_ ∧ _ ∧ ∀ stop ∈ broadcast.deck.timeline.stop?, _ → _ ∧ _))

instance (bytes : Nat) : Decidable (broadcast.RenderFits bytes) :=
  inferInstanceAs (Decidable (_ ∧ ∀ atom ∈ (broadcast.deck.select bytes).1.atom,
    ∀ layer ∈ atom.layers, _))

/-- A period of whole frames, of which two are no longer than the lead. -/
structure Asks (bytes : Nat) : Prop where
  whole : broadcast.spec.frameBytes ∣ bytes
  positive : 0 < bytes
  short : 2 * (bytes / broadcast.spec.bytesPerSecond : ℚ) ≤ broadcast.producer.lead.toRat
  fits : broadcast.RenderFits bytes

end State

/-- The states that are reached, and whether a fill came after the last period. An event is
delivered at any time after it was sent, or never. -/
inductive Run (first : Broadcast) : Bool → Broadcast → Prop
  | start : Run first false first
  | fill {filled : Bool} {broadcast : Broadcast} (run : Run first filled broadcast)
      (fits : broadcast.FillFits) : Run first true broadcast.fill
  | render {broadcast : Broadcast} {bytes : Nat} (run : Run first true broadcast)
      (asks : broadcast.Asks bytes) : Run first false (broadcast.render bytes)
  | deliver {filled : Bool} {broadcast : Broadcast} {event : Event}
      (run : Run first filled broadcast) (sent : event ∈ broadcast.sent) :
      Run first filled (broadcast.deliver event)

/-! ### What a run keeps -/

/-- The queues of a pass begin with what is heard from a time on. -/
def Begins (broadcast : Broadcast) (loop : Nat) (time : Seconds) : Prop :=
  ∀ layer ∈ broadcast.deck.timeline.layers, time < layer.stop →
    BeginsAt broadcast.spec (max layer.start time).toRat (broadcast.position ⟨layer.id, loop⟩)
      (broadcast.unread ⟨layer.id, loop⟩)

/-- The layers of a pass are supplied from a time up to a target. -/
def Supplied (broadcast : Broadcast) (loop : Nat) (time target : Seconds) : Prop :=
  ∀ layer ∈ broadcast.deck.timeline.layers,
    SuppliedTo broadcast.spec layer time target (broadcast.position ⟨layer.id, loop⟩)

/-- The state of a broadcast between two steps. The queues of the pass that is played, unless it has
ended, and of the next pass begin with what is heard next; passes after these have no position. -/
structure Stocked (broadcast : Broadcast) (stop : Seconds) : Prop where
  seamless : broadcast.deck.timeline.Seamless broadcast.spec stop
  playing : broadcast.deck.transport = .playing
  frames : 0 < broadcast.producer.chunkFrames
  running : broadcast.deck.Running stop
  onGrid : broadcast.spec.OnGrid broadcast.deck.time.toRat
  whole : broadcast.player.store.Whole
  seek : ∀ event ∈ broadcast.sent, event.isSeek = false
  wrap : ∀ loop, .loopWrapped loop ∈ broadcast.sent → loop ≤ broadcast.deck.clock.loop
  spans : ∀ key, ∃ first last, Spans broadcast.spec first (chunksFor key broadcast.made) last
  stock : ∀ key, broadcast.deck.clock.loop ≤ key.loop → Stock broadcast.spec
    (broadcast.position key) (chunksFor key broadcast.made) (broadcast.unread key)
  later : ∀ key, broadcast.deck.clock.loop + 1 < key.loop → broadcast.position key = none
  here : broadcast.deck.time < stop →
    broadcast.Begins broadcast.deck.clock.loop broadcast.deck.time
  next : broadcast.Begins (broadcast.deck.clock.loop + 1) 0

/-- After a fill, and up to the next period, this pass is supplied up to the lead, and the next one
by as much as the lead goes past the end. -/
structure Filled (broadcast : Broadcast) (stop : Seconds) : Prop where
  here : ∃ target : Seconds,
    target.toRat = broadcast.deck.time.toRat + broadcast.producer.lead.toRat ∧
      broadcast.Supplied broadcast.deck.clock.loop broadcast.deck.time target
  next : stop.toRat < broadcast.deck.time.toRat + broadcast.producer.lead.toRat →
    ∃ target : Seconds,
      target.toRat =
        broadcast.deck.time.toRat + broadcast.producer.lead.toRat - stop.toRat ∧
      broadcast.Supplied (broadcast.deck.clock.loop + 1) 0 target

theorem stocked_opening (player : Player) {timeline : Timeline} {stop : Seconds}
    (h : timeline.Seamless player.deck.spec stop) (lead : Seconds) (chunkFrames : Nat) :
    (opening player timeline lead chunkFrames).Stocked stop where
  seamless := h
  playing := rfl
  frames := Nat.lt_of_lt_of_le Nat.zero_lt_one (Nat.le_max_right _ _)
  running := by
    have hrewound : (opening player timeline lead chunkFrames).deck.rewind.Running stop :=
      Deck.running_rewind h.start_eq
    exact hrewound
  onGrid := by
    have htime : (opening player timeline lead chunkFrames).deck.time = 0 :=
      Timeline.time_wrap Clock.zero
    rw [htime, Seconds.toRat_zero]
    exact AudioSpec.onGrid_zero
  whole := LayerStore.whole_empty
  seek _ hevent := nomatch hevent
  wrap _ hevent := nomatch hevent
  spans _ := ⟨0, 0, rfl⟩
  stock _ _ := .untouched
  later _ _ := rfl
  here _ _ _ _ _ hknown := nomatch hknown
  next _ _ _ _ hknown := nomatch hknown

/-! ### Filling -/

section Fill

variable (broadcast : Broadcast)

theorem deck_fill : broadcast.fill.deck = broadcast.deck := by
  obtain ⟨notices, hplayer⟩ := broadcast.producer.fill_snd broadcast.player
  exact congrArg (fun player ↦ player.deck) hplayer

theorem spec_fill : broadcast.fill.spec = broadcast.spec :=
  congrArg Deck.spec broadcast.deck_fill

theorem store_fill : broadcast.fill.player.store =
    broadcast.player.store.pushAll (broadcast.producer.plan broadcast.deck).1 := by
  obtain ⟨notices, hplayer⟩ := broadcast.producer.fill_snd broadcast.player
  exact congrArg (fun player ↦ player.store) hplayer

theorem stats_fill : broadcast.fill.player.stats = broadcast.player.stats := by
  obtain ⟨notices, hplayer⟩ := broadcast.producer.fill_snd broadcast.player
  exact congrArg (fun player ↦ player.stats) hplayer

theorem producer_fill :
    broadcast.fill.producer = (broadcast.producer.plan broadcast.deck).2 :=
  broadcast.producer.fill_fst broadcast.player

theorem position_fill (key : QueueKey) : broadcast.fill.position key =
    (broadcast.producer.plan broadcast.deck).2.positions.lookup key := by
  rw [position, producer_fill]

theorem chunksFor_made_fill (key : QueueKey) : chunksFor key broadcast.fill.made =
    chunksFor key broadcast.made ++ chunksFor key (broadcast.producer.plan broadcast.deck).1 :=
  chunksFor_append key _ _

variable {broadcast} {stop : Seconds}

theorem Stocked.unread_fill (h : broadcast.Stocked stop) :
    broadcast.fill.player.store.Whole ∧ ∀ key, broadcast.fill.unread key =
      broadcast.unread key ++
        (chunksFor key (broadcast.producer.plan broadcast.deck).1).flatMap Chunk.data := by
  have hentries : ∀ entry ∈ (broadcast.producer.plan broadcast.deck).1,
      Sample.width ∣ entry.2.size := fun entry hentry ↦
    broadcast.spec.width_dvd_frameBytes.trans (size_of_mem_plan hentry).2
  have hpushed := h.whole.pushAll hentries
  rw [← store_fill] at hpushed
  exact hpushed

/-- A part of a pass that a fill generates: its keys keep their stock and their beginnings, and its
layers are supplied up to its end. -/
theorem Stocked.fill_pass (h : broadcast.Stocked stop) {loop : Nat} {first last : Seconds}
    (hloop : broadcast.deck.clock.loop ≤ loop) (hfirst : broadcast.spec.OnGrid first.toRat)
    (hfits : broadcast.PassFits loop first last)
    (houtcome : ∀ key : QueueKey, key.loop = loop →
      Outcome broadcast.deck.timeline broadcast.spec broadcast.producer.chunkFrames loop first last
        key (broadcast.position key) (chunksFor key (broadcast.producer.plan broadcast.deck).1)
        (broadcast.fill.position key)) :
    (∀ key : QueueKey, key.loop = loop → Stock broadcast.spec (broadcast.fill.position key)
      (chunksFor key broadcast.fill.made) (broadcast.fill.unread key)) ∧
    (broadcast.Begins loop first → broadcast.fill.Begins loop first) ∧
    broadcast.fill.Supplied loop first last := by
  have hkeyFits : ∀ key : QueueKey, KeyFits broadcast.deck.timeline broadcast.spec
      broadcast.producer.chunkFrames loop first last key (broadcast.position key) :=
    fun key layer hlayer hkey hheard ↦ hkey ▸ hfits layer hlayer hheard
  have hstock : ∀ key : QueueKey, key.loop = loop → Stock broadcast.spec (broadcast.position key)
      (chunksFor key broadcast.made) (broadcast.unread key) :=
    fun key hkey ↦ h.stock key (hkey ▸ hloop)
  refine ⟨fun key hkey ↦ ?_, fun hbegins layer hlayer hopen ↦ ?_, fun layer hlayer ↦ ?_⟩
  · rw [chunksFor_made_fill, h.unread_fill.2]
    exact (houtcome key hkey).stock h.frames h.seamless.onGrid hfirst (hkeyFits key)
      (hstock key hkey)
  · rw [deck_fill] at hlayer
    rw [spec_fill, h.unread_fill.2]
    exact (houtcome _ rfl).beginsAt h.frames h.seamless.onGrid hfirst (hkeyFits _) (hstock _ rfl)
      h.seamless.oneSpan hlayer rfl (hbegins layer hlayer hopen)
  · rw [deck_fill] at hlayer
    rw [spec_fill]
    exact (houtcome _ rfl).suppliedTo h.frames h.seamless.onGrid hfirst (hkeyFits _) (hstock _ rfl)
      h.seamless.oneSpan hlayer rfl

/-- A key of a pass that a fill does not generate is left alone. -/
theorem Stocked.fill_untouched (h : broadcast.Stocked stop) (key : QueueKey)
    (hkey : key.loop ≠ broadcast.deck.clock.loop)
    (hnext : stop < broadcast.deck.time + broadcast.producer.lead →
      key.loop ≠ broadcast.deck.clock.loop + 1) :
    broadcast.fill.position key = broadcast.position key ∧
      chunksFor key broadcast.fill.made = chunksFor key broadcast.made ∧
      broadcast.fill.unread key = broadcast.unread key := by
  obtain ⟨hchunks, hposition⟩ := plan_untouched broadcast.producer h.seamless.start_eq
    h.seamless.stop_eq hkey hnext
  refine ⟨(position_fill _ key).trans hposition, ?_, ?_⟩
  · rw [chunksFor_made_fill, hchunks, List.append_nil]
  · rw [h.unread_fill.2, hchunks, List.flatMap_nil, List.append_nil]

/-- The pass that is played, in a fill. -/
theorem Stocked.fill_here (h : broadcast.Stocked stop) (hfits : broadcast.FillFits) :
    (∀ key : QueueKey, key.loop = broadcast.deck.clock.loop →
      Stock broadcast.spec (broadcast.fill.position key) (chunksFor key broadcast.fill.made)
        (broadcast.fill.unread key)) ∧
    (broadcast.deck.time < stop →
      broadcast.fill.Begins broadcast.deck.clock.loop broadcast.deck.time) ∧
    broadcast.fill.Supplied broadcast.deck.clock.loop broadcast.deck.time
      (broadcast.deck.time + broadcast.producer.lead) := by
  obtain ⟨hstock, hbegins, hsupplied⟩ := h.fill_pass le_rfl h.onGrid hfits.2.1 fun key hkey ↦ by
    rw [position_fill]
    exact plan_current broadcast.producer h.seamless.start_eq h.seamless.stop_eq hkey
  exact ⟨hstock, fun hopen ↦ hbegins (h.here hopen), hsupplied⟩

/-- The next pass, in a fill. -/
theorem Stocked.fill_next (h : broadcast.Stocked stop) (hfits : broadcast.FillFits) :
    (∀ key : QueueKey, key.loop = broadcast.deck.clock.loop + 1 →
      Stock broadcast.spec (broadcast.fill.position key) (chunksFor key broadcast.fill.made)
        (broadcast.fill.unread key)) ∧
    broadcast.fill.Begins (broadcast.deck.clock.loop + 1) 0 ∧
    (stop < broadcast.deck.time + broadcast.producer.lead →
      broadcast.fill.Supplied (broadcast.deck.clock.loop + 1) 0
        (broadcast.deck.time + broadcast.producer.lead - stop)) := by
  by_cases hover : stop < broadcast.deck.time + broadcast.producer.lead
  · have hpass := (hfits.2.2 stop h.seamless.stop_eq hover).2
    have hzero : broadcast.spec.OnGrid (0 : Seconds).toRat :=
      Seconds.toRat_zero.symm ▸ AudioSpec.onGrid_zero
    obtain ⟨hstock, hbegins, hsupplied⟩ := h.fill_pass (Nat.le_succ _) hzero hpass fun key hkey ↦ by
      have hmade := plan_next broadcast.producer h.seamless.start_eq h.seamless.stop_eq hover hkey
      rw [Seconds.zero_add] at hmade
      rw [position_fill]
      exact hmade
    exact ⟨hstock, hbegins h.next, fun _ ↦ hsupplied⟩
  · refine ⟨fun key hkey ↦ ?_, fun layer hlayer hopen ↦ ?_, fun hbeyond ↦ absurd hbeyond hover⟩
    · obtain ⟨hposition, hmade, hunread⟩ :=
        h.fill_untouched key (by omega) fun hbeyond ↦ absurd hbeyond hover
      rw [hposition, hmade, hunread]
      exact h.stock key (by omega)
    · obtain ⟨hposition, -, hunread⟩ :=
        h.fill_untouched ⟨layer.id, broadcast.deck.clock.loop + 1⟩ (Nat.succ_ne_self _)
          fun hbeyond ↦ absurd hbeyond hover
      rw [deck_fill] at hlayer
      rw [spec_fill, hposition, hunread]
      exact h.next layer hlayer hopen

/-- A fill keeps a broadcast stocked. -/
theorem Stocked.fill (h : broadcast.Stocked stop) (hfits : broadcast.FillFits) :
    broadcast.fill.Stocked stop := by
  obtain ⟨hstockHere, hhere, -⟩ := h.fill_here hfits
  obtain ⟨hstockNext, hnext, -⟩ := h.fill_next hfits
  have hsettings := plan_settings broadcast.producer broadcast.deck
  have hstock : ∀ key : QueueKey, broadcast.deck.clock.loop ≤ key.loop →
      Stock broadcast.spec (broadcast.fill.position key) (chunksFor key broadcast.fill.made)
        (broadcast.fill.unread key) := by
    intro key hkey
    by_cases hcurrent : key.loop = broadcast.deck.clock.loop
    · exact hstockHere key hcurrent
    by_cases hfollowing : key.loop = broadcast.deck.clock.loop + 1
    · exact hstockNext key hfollowing
    · obtain ⟨hposition, hmade, hunread⟩ := h.fill_untouched key hcurrent fun _ ↦ hfollowing
      rw [hposition, hmade, hunread]
      exact h.stock key hkey
  rw [← producer_fill] at hsettings
  exact
    { seamless := by rw [spec_fill, deck_fill]; exact h.seamless
      playing := by rw [deck_fill]; exact h.playing
      frames := by rw [hsettings.2]; exact h.frames
      running := by rw [deck_fill]; exact h.running
      onGrid := by rw [spec_fill, deck_fill]; exact h.onGrid
      whole := h.unread_fill.1
      seek := h.seek
      wrap := by rw [deck_fill]; exact h.wrap
      spans := by
        intro key
        rw [spec_fill]
        by_cases hkey : broadcast.deck.clock.loop ≤ key.loop
        · exact (hstock key hkey).exists_spans
        · rw [(h.fill_untouched key (by omega) fun _ ↦ by omega).2.1]
          exact h.spans key
      stock := by rw [spec_fill, deck_fill]; exact hstock
      later := by
        intro key hkey
        rw [deck_fill] at hkey
        rw [(h.fill_untouched key (by omega) fun _ ↦ by omega).1]
        exact h.later key hkey
      here := by rw [deck_fill]; exact hhere
      next := by rw [deck_fill]; exact hnext }

theorem Stocked.filled_fill (h : broadcast.Stocked stop) (hfits : broadcast.FillFits) :
    broadcast.fill.Filled stop := by
  obtain ⟨-, -, hhere⟩ := h.fill_here hfits
  obtain ⟨-, -, hnext⟩ := h.fill_next hfits
  have hlead : broadcast.fill.producer.lead = broadcast.producer.lead := by
    rw [producer_fill]
    exact (plan_settings broadcast.producer broadcast.deck).1
  have hhorizon : (broadcast.deck.time + broadcast.producer.lead).toRat =
      broadcast.deck.time.toRat + broadcast.producer.lead.toRat := Seconds.toRat_add hfits.1
  refine ⟨⟨broadcast.deck.time + broadcast.producer.lead, ?_, ?_⟩, fun hover ↦
    ⟨broadcast.deck.time + broadcast.producer.lead - stop, ?_, ?_⟩⟩
  · rw [deck_fill, hlead, hhorizon]
  · rw [deck_fill]
    exact hhere
  · rw [deck_fill, hlead, ← hhorizon] at hover ⊢
    exact Seconds.toRat_sub (hfits.2.2 stop h.seamless.stop_eq hover).1
  · rw [deck_fill, hlead, ← hhorizon] at hover
    rw [deck_fill]
    exact hnext hover

end Fill

/-! ### Receiving events -/

section Deliver

variable {broadcast : Broadcast} {stop : Seconds} {event : Event}

/-- An event that was sent changes nothing of this pass and later ones. -/
structure Kept (before after : Broadcast) : Prop where
  deck_eq : after.deck = before.deck
  lead_eq : after.producer.lead = before.producer.lead
  chunkFrames_eq : after.producer.chunkFrames = before.producer.chunkFrames
  made_eq : after.made = before.made
  sent_eq : after.sent = before.sent
  stats_eq : after.player.stats = before.player.stats
  whole : after.player.store.Whole
  keys : ∀ key, before.deck.clock.loop ≤ key.loop →
    after.position key = before.position key ∧ after.unread key = before.unread key

theorem Stocked.kept_deliver (h : broadcast.Stocked stop) (hsent : event ∈ broadcast.sent) :
    Kept broadcast (broadcast.deliver event) := by
  cases event with
  | seeked position index => cases h.seek _ hsent
  | loopWrapped loop =>
    obtain ⟨notices, hplayer⟩ := withStore_eq broadcast.player fun store ↦
      store.removeLoopsBefore loop
    have hloop := h.wrap loop hsent
    rw [deliver, handle, hplayer]
    refine ⟨rfl, rfl, rfl, rfl, rfl, rfl, h.whole.removeLoopsBefore loop, fun key hkey ↦ ⟨?_, ?_⟩⟩
    · have hkept := lookup_filter_keys broadcast.producer.positions
        (fun key ↦ decide (loop ≤ key.loop)) key
      rw [if_pos (decide_eq_true (hloop.trans hkey))] at hkept
      exact hkept
    · exact LayerStore.unread_removeLoopsBefore _ (hloop.trans hkey)
  | playbackStateChanged | atomChanged | underrunPause | readyToPlay =>
    exact ⟨rfl, rfl, rfl, rfl, rfl, rfl, h.whole, fun _ _ ↦ ⟨rfl, rfl⟩⟩

theorem Kept.spec_eq {after : Broadcast} (h : Kept broadcast after) :
    after.spec = broadcast.spec :=
  congrArg Deck.spec h.deck_eq

theorem Kept.begins {after : Broadcast} (h : Kept broadcast after) {loop : Nat} {time : Seconds}
    (hloop : broadcast.deck.clock.loop ≤ loop) (hbegins : broadcast.Begins loop time) :
    after.Begins loop time := by
  intro layer hlayer hopen
  obtain ⟨hposition, hunread⟩ := h.keys ⟨layer.id, loop⟩ hloop
  rw [h.deck_eq] at hlayer
  rw [h.spec_eq, hposition, hunread]
  exact hbegins layer hlayer hopen

theorem Kept.supplied {after : Broadcast} (h : Kept broadcast after) {loop : Nat}
    {time target : Seconds} (hloop : broadcast.deck.clock.loop ≤ loop)
    (hsupplied : broadcast.Supplied loop time target) : after.Supplied loop time target := by
  intro layer hlayer
  rw [h.deck_eq] at hlayer
  rw [h.spec_eq, (h.keys ⟨layer.id, loop⟩ hloop).1]
  exact hsupplied layer hlayer

theorem Stocked.kept {after : Broadcast} (h : broadcast.Stocked stop)
    (hkept : Kept broadcast after) : after.Stocked stop where
  seamless := by rw [hkept.spec_eq, hkept.deck_eq]; exact h.seamless
  playing := by rw [hkept.deck_eq]; exact h.playing
  frames := by rw [hkept.chunkFrames_eq]; exact h.frames
  running := by rw [hkept.deck_eq]; exact h.running
  onGrid := by rw [hkept.spec_eq, hkept.deck_eq]; exact h.onGrid
  whole := hkept.whole
  seek := by rw [hkept.sent_eq]; exact h.seek
  wrap := by rw [hkept.sent_eq, hkept.deck_eq]; exact h.wrap
  spans := by rw [hkept.spec_eq, hkept.made_eq]; exact h.spans
  stock := by
    intro key hkey
    rw [hkept.deck_eq] at hkey
    obtain ⟨hposition, hunread⟩ := hkept.keys key hkey
    rw [hkept.spec_eq, hkept.made_eq, hposition, hunread]
    exact h.stock key hkey
  later := by
    intro key hkey
    rw [hkept.deck_eq] at hkey
    rw [(hkept.keys key (by omega)).1]
    exact h.later key hkey
  here := by
    rw [hkept.deck_eq]
    exact fun hopen ↦ hkept.begins le_rfl (h.here hopen)
  next := by
    rw [hkept.deck_eq]
    exact hkept.begins (Nat.le_succ _) h.next

theorem Filled.kept {after : Broadcast} (h : broadcast.Filled stop)
    (hkept : Kept broadcast after) : after.Filled stop := by
  obtain ⟨⟨target, htarget, hhere⟩, hnext⟩ := h
  constructor
  · rw [hkept.deck_eq, hkept.lead_eq]
    exact ⟨target, htarget, hkept.supplied le_rfl hhere⟩
  · rw [hkept.deck_eq, hkept.lead_eq]
    intro hover
    obtain ⟨target, htarget, hsupplied⟩ := hnext hover
    exact ⟨target, htarget, hkept.supplied (Nat.le_succ _) hsupplied⟩

end Deliver

end Broadcast

end TimelineMixer
