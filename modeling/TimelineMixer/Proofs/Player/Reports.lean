import TimelineMixer.Proofs.Clock.Seeking
import TimelineMixer.Proofs.Event.Delivery

/-!
# What a period reports

A period that moves the clock reports where it has gone, a wrap before the atom, and nothing else
about the position (`Timeline.select_moves`). A period that mixes layers also compares what is left
in the queues with the threshold of the monitor (`Player.levels`). Together these are all events of
a period, in this order (`Player.channel_render`).
-/

set_option autoImplicit false
set_option relaxedAutoImplicit false

namespace TimelineMixer

/-- What an event is about. -/
inductive Event.Topic where
  | transport
  | position
  | readiness
  deriving DecidableEq

/-- What the event is about. -/
def Event.topic : Event → Topic
  | .playbackStateChanged .. => .transport
  | .atomChanged .. | .loopWrapped .. | .seeked .. => .position
  | .underrunPause .. | .readyToPlay .. => .readiness

/-! ### Reports of a moved clock -/

/-- What is reported of a clock that has moved: a wrap, then the atom. -/
def Clock.moves (before after : Clock) : List Event :=
  (if after.loop = before.loop then [] else [.loopWrapped after.loop]) ++
    if after.index = before.index ∧ after.loop = before.loop then []
    else [.atomChanged after.index after.loop]

namespace Timeline

/-- The index of a clock is that of an atom, if there is any. -/
def Holds (timeline : Timeline) (clock : Clock) : Prop :=
  timeline.length ≠ 0 → clock.index < timeline.length

variable {timeline : Timeline} {clock : Clock} {spec : AudioSpec} {bytes : Nat}

theorem select_of_length_eq_zero (h : timeline.length = 0) :
    timeline.select clock spec bytes = ⟨none, clock, [], []⟩ :=
  if_pos h

/-- The crossing of a period reports the move and takes the clock into the next pass at most. -/
theorem crossFrom_moves (spec : AudioSpec) (request : Seconds)
    (hindex : clock.index < timeline.length) :
    let crossing := timeline.crossFrom clock spec request
    crossingEvents crossing = clock.moves crossing.clock ∧
      crossing.clock.index < timeline.length ∧
      (crossing.clock.loop = clock.loop ∨ crossing.clock.loop = clock.loop + 1) := by
  have hne : timeline.length ≠ 0 := Nat.ne_zero_of_lt hindex
  have hentry : timeline.entry clock = clock := if_pos hindex
  have hwraps : ∀ index steps deferred, steps ≠ 0 →
      crossingEvents ⟨{ clock.wrap with index }, steps, true, deferred⟩ =
        clock.moves { clock.wrap with index } := by
    intro index steps deferred hsteps
    simp [crossingEvents, Clock.moves, Clock.wrap, hsteps]
  rcases timeline.exists_firstReaching_or_unreached (clock.time spec + request) clock.index with
    ⟨index, hreach⟩ | hunreached
  · rw [crossFrom_of_reached (by rw [hentry]; exact hreach), hentry]
    refine ⟨?_, hreach.lt_length, Or.inl rfl⟩
    have hle := hreach.1
    by_cases hsame : index = clock.index
    · simp [crossingEvents, Clock.moves, hsame]
    · have hsteps : index - clock.index ≠ 0 := by omega
      simp [crossingEvents, Clock.moves, hsame, hsteps]
  · have hbeyond : timeline.Unreached (clock.time spec + request)
        (timeline.entry clock).index := by rw [hentry]; exact hunreached
    rcases timeline.exists_firstReaching_or_unreached request 0 with ⟨index, hreach⟩ | hagain
    · rw [crossFrom_of_reached_after_wrap hbeyond hreach, hentry]
      exact ⟨hwraps _ _ _ (by omega), hreach.lt_length, Or.inr rfl⟩
    · rw [crossFrom_of_unreached hne hbeyond hagain, hentry]
      exact ⟨hwraps _ _ _ (by omega), by dsimp only; omega, Or.inr rfl⟩

/-- Choosing the atom of a period reports where the clock has gone, and nothing if it stays. -/
theorem select_moves (h : timeline.Holds clock) (spec : AudioSpec) (bytes : Nat) :
    let selection := timeline.select clock spec bytes
    selection.events = clock.moves selection.clock ∧ timeline.Holds selection.clock ∧
      (selection.clock.loop = clock.loop ∨ selection.clock.loop = clock.loop + 1) := by
  intro selection
  by_cases hempty : timeline.length = 0
  · have hstays : selection = ⟨none, clock, [], []⟩ := select_of_length_eq_zero hempty
    rw [hstays]
    exact ⟨by simp [Clock.moves], h, Or.inl rfl⟩
  · have hselect : selection = timeline.selectCrossing clock spec (spec.duration bytes) :=
      select_eq_selectCrossing hempty clock bytes
    obtain ⟨hevents, hindex, hloop⟩ := crossFrom_moves spec (spec.duration bytes) (h hempty)
    rw [hselect]
    exact ⟨hevents, fun _ ↦ hindex, hloop⟩

end Timeline

/-! ### The count of the clock -/

/-- The clock stands where it stood in its pass, or at the beginning of the next one. -/
def Clock.Passes (before after : Clock) : Prop :=
  (after.loop = before.loop ∧ after.start = before.start ∧ after.bytes = before.bytes) ∨
    (after.loop = before.loop + 1 ∧ after.start = 0 ∧ after.bytes = 0)

/-- Choosing the atom of a period does not count its bytes. -/
theorem Timeline.passes_select (timeline : Timeline) (clock : Clock) (spec : AudioSpec)
    (bytes : Nat) : clock.Passes (timeline.select clock spec bytes).clock := by
  by_cases hempty : timeline.length = 0
  · rw [select_of_length_eq_zero hempty]
    exact Or.inl ⟨rfl, rfl, rfl⟩
  rw [clock_select hempty]
  rcases timeline.exists_firstReaching_or_unreached (clock.time spec + spec.duration bytes)
    (timeline.entry clock).index with ⟨index, hreached⟩ | hunreached
  · rw [crossFrom_of_reached hreached]
    exact Or.inl ⟨rfl, rfl, rfl⟩
  · rcases timeline.exists_firstReaching_or_unreached (spec.duration bytes) 0 with
      ⟨index, hagain⟩ | hnever
    · rw [crossFrom_of_reached_after_wrap hunreached hagain]
      exact Or.inr ⟨rfl, rfl, rfl⟩
    · rw [crossFrom_of_unreached hempty hunreached hnever]
      exact Or.inr ⟨rfl, rfl, rfl⟩

/-- A deck has counted some bytes: the clock counts so many more, up to what 64 bits hold, and all
else is as it was. -/
structure Deck.Counts (before after : Deck) (bytes : Nat) : Prop where
  bytes_eq : after.clock.bytes = min (before.clock.bytes + bytes) 0xffffffffffffffff
  others_eq : after = { before with clock := { before.clock with bytes := after.clock.bytes } }

theorem Deck.counts_advance (deck : Deck) (bytes : Nat) : deck.Counts (deck.advance bytes) bytes :=
  ⟨rfl, rfl⟩

/-! ### Readings of the monitor -/

namespace UnderrunMonitor

/-- The monitor after it has compared levels, one after the other, with the threshold. -/
def checkAll (monitor : UnderrunMonitor) (levels : List Nat) : UnderrunMonitor :=
  levels.foldl (fun monitor level ↦ (monitor.check level).monitor) monitor

/-- What the comparisons report. -/
def signals : UnderrunMonitor → List Nat → List Event :=
  gather (fun monitor level ↦ (monitor.check level).monitor) fun monitor level ↦
    (monitor.check level).events

theorem signals_append (monitor : UnderrunMonitor) (first second : List Nat) :
    monitor.signals (first ++ second) =
      monitor.signals first ++ (monitor.checkAll first).signals second :=
  gather_append _ _ _ _ _

theorem checkAll_append (monitor : UnderrunMonitor) (first second : List Nat) :
    monitor.checkAll (first ++ second) = (monitor.checkAll first).checkAll second :=
  List.foldl_append ..

/-- The monitor reports nothing but the readiness. -/
theorem topic_of_mem_signals (monitor : UnderrunMonitor) (levels : List Nat) :
    ∀ event ∈ monitor.signals levels, event.topic = .readiness := by
  have hcheck : ∀ (monitor : UnderrunMonitor) level,
      ∀ event ∈ (monitor.check level).events, event.topic = .readiness := by
    intro monitor level event hmem
    rw [check] at hmem
    dsimp only at hmem
    split_ifs at hmem <;> first
      | exact absurd hmem List.not_mem_nil
      | rw [List.mem_singleton.mp hmem]; rfl
  induction levels generalizing monitor with
  | nil => exact fun event hmem ↦ absurd hmem List.not_mem_nil
  | cons level rest ih =>
    intro event hmem
    exact (List.mem_append.mp hmem).elim (hcheck monitor level event) (ih _ event)

end UnderrunMonitor

namespace Player

/-- The bytes of the whole samples of a period, which the clock counts. -/
def counted (bytes : Nat) : Nat :=
  Sample.width * (bytes / Sample.width)

/-- In a period the queues are compared with the threshold: the transport plays, the queues are not
locked, and the atom has layers. -/
def checks (player : Player) (locked : Bool) (bytes : Nat) : Bool :=
  player.deck.transport = .playing && !locked &&
    (player.deck.select (counted bytes)).1.atom.any fun atom ↦ !atom.layers.isEmpty

/-- The bytes left in the queues by a period in which they are compared with the threshold. -/
def levels (player : Player) (locked : Bool) (bytes : Nat) : List Nat :=
  if player.checks locked bytes then [(player.render locked bytes).2.store.total] else []

/-- What a period reports about the position. -/
def moves (player : Player) (bytes : Nat) : List Event :=
  if player.deck.transport = .playing then (player.deck.select (counted bytes)).1.events else []

/-- What a period reports. -/
def report (player : Player) (locked : Bool) (bytes : Nat) : List Event :=
  player.moves bytes ++ player.monitor.signals (player.levels locked bytes)

/-- The deck after a period. -/
def moved (player : Player) (bytes : Nat) : Deck :=
  if player.deck.transport = .playing then (player.deck.select (counted bytes)).2
  else player.deck

theorem transport_moved (player : Player) (bytes : Nat) :
    (player.moved bytes).transport = player.deck.transport := by
  rw [moved]
  split_ifs <;> rfl

theorem passes_moved (player : Player) (bytes : Nat) :
    player.deck.clock.Passes (player.moved bytes).clock := by
  rw [moved]
  split_ifs
  · exact Timeline.passes_select _ _ _ _
  · exact Or.inl ⟨rfl, rfl, rfl⟩

theorem topic_of_mem_moves (player : Player) (bytes : Nat) :
    ∀ event ∈ player.moves bytes, event.topic = .position := by
  rw [moves]
  split_ifs
  · exact fun event hmem ↦ (Timeline.mem_events_select hmem).elim (fun h ↦ h ▸ rfl)
      fun h ↦ h ▸ rfl
  · exact fun event hmem ↦ absurd hmem List.not_mem_nil

/-- A period reports where the clock goes, and takes it into the next pass at most. -/
theorem moves_eq (player : Player) (h : player.deck.timeline.Holds player.deck.clock)
    (bytes : Nat) :
    player.moves bytes = player.deck.clock.moves (player.moved bytes).clock ∧
      (player.moved bytes).timeline = player.deck.timeline ∧
      player.deck.timeline.Holds (player.moved bytes).clock ∧
      ((player.moved bytes).clock.loop = player.deck.clock.loop ∨
        (player.moved bytes).clock.loop = player.deck.clock.loop + 1) := by
  rw [moves, moved]
  split_ifs with hplaying
  · obtain ⟨hevents, hmoved, hloop⟩ := Timeline.select_moves h player.deck.spec (counted bytes)
    exact ⟨hevents, rfl, hmoved, hloop⟩
  · exact ⟨by simp [Clock.moves], rfl, h, Or.inl rfl⟩

/-- A playing transport reports the choice of the atom, then the comparison, if there is one. -/
theorem channel_playPeriod (player : Player) (locked : Bool) (silence : List Float32) :
    let selection := (player.deck.select (Sample.width * silence.length)).1
    let after := (player.playPeriod locked silence).2
    let levels := if !locked && selection.atom.any fun atom ↦ !atom.layers.isEmpty then
      [after.store.total] else []
    after.monitor = player.monitor.checkAll levels ∧
      after.channel =
        player.channel.emitAll (selection.events ++ player.monitor.signals levels) := by
  intro selection after levels
  have hchosen : player.chooseAtom (Sample.width * silence.length) =
      (selection.atom, (player.chooseAtom (Sample.width * silence.length)).2) := rfl
  have hmonitor : (player.chooseAtom (Sample.width * silence.length)).2.monitor =
      player.monitor := rfl
  have hchannel : (player.chooseAtom (Sample.width * silence.length)).2.channel =
      player.channel.emitAll selection.events := rfl
  generalize (player.chooseAtom (Sample.width * silence.length)).2 = chosen at *
  generalize hevents : selection.events = events at *
  generalize hatom : selection.atom = choice at *
  -- A period that does not get to the comparison leaves the monitor alone.
  have hquiet : after.monitor = chosen.monitor → after.channel = chosen.channel → levels = [] →
      after.monitor = player.monitor.checkAll levels ∧
        after.channel = player.channel.emitAll (events ++ player.monitor.signals levels) := by
    intro hsame hwaiting hnone
    rw [hsame, hwaiting, hnone, hmonitor, hchannel]
    exact ⟨rfl, by rw [UnderrunMonitor.signals, gather, List.append_nil]⟩
  cases choice with
  | none =>
    have hafter : after = chosen.countSilent := by simp only [after, playPeriod, hchosen]
    exact hquiet (by rw [hafter]; rfl) (by rw [hafter]; rfl) (by simp [levels, hatom])
  | some atom =>
    by_cases hsilent : atom.layers.isEmpty = true
    · have hafter : after = chosen.countSilent := by
        simp only [after, playPeriod, hchosen, hsilent, if_true]
      exact hquiet (by rw [hafter]; rfl) (by rw [hafter]; rfl) (by simp [levels, hatom, hsilent])
    · cases locked with
      | true =>
        have hafter : after = (scale { chosen with stats := { chosen.stats with
            contended := chosen.stats.contended + 1 } } silence).2 := by
          simp only [after, playPeriod, hchosen, hsilent, if_true, Bool.false_eq_true, if_false]
        exact hquiet (by rw [hafter]; rfl) (by rw [hafter]; rfl) (by simp [levels])
      | false =>
        have hafter : after =
            ((chosen.mix atom silence).2.scale (chosen.mix atom silence).1).2 := by
          simp only [after, playPeriod, hchosen, hsilent, Bool.false_eq_true, if_false]
        have hlevels : levels = [after.store.total] := by simp [levels, hatom, hsilent]
        have hcheck : after.monitor = (chosen.monitor.check after.store.total).monitor ∧
            after.channel =
              chosen.channel.emitAll (chosen.monitor.check after.store.total).events := by
          rw [hafter]
          exact ⟨rfl, rfl⟩
        rw [hlevels, hcheck.1, hcheck.2, hmonitor, hchannel, ← EventChannel.emitAll_append]
        exact ⟨rfl, by rw [UnderrunMonitor.signals, gather, gather, List.append_nil]⟩

theorem render_snd (player : Player) (locked : Bool) (bytes : Nat) :
    (player.render locked bytes).2 =
      (player.renderSamples locked (bytes / Sample.width)).2 :=
  rfl

theorem deck_render (player : Player) (locked : Bool) (bytes : Nat) :
    (player.render locked bytes).2.deck = (player.moved bytes).advance (counted bytes) := by
  rw [render_snd, moved]
  split_ifs with hplaying
  · exact player.deck_renderSamples hplaying locked _
  · rw [renderSamples_eq, if_neg hplaying]
    rfl

theorem counts_render (player : Player) (locked : Bool) (bytes : Nat) :
    (player.moved bytes).Counts (player.render locked bytes).2.deck (counted bytes) := by
  rw [deck_render]
  exact Deck.counts_advance _ _

/-- All that a period reports, and the monitor after it. -/
theorem channel_render (player : Player) (locked : Bool) (bytes : Nat) :
    (player.render locked bytes).2.monitor =
        player.monitor.checkAll (player.levels locked bytes) ∧
      (player.render locked bytes).2.channel = player.channel.emitAll
        (player.moves bytes ++ player.monitor.signals (player.levels locked bytes)) := by
  by_cases hplaying : player.deck.transport = .playing
  · have hrender : (player.render locked bytes).2 = finishPeriod
        (player.countCallback.playPeriod locked (List.replicate (bytes / Sample.width) 0)).2
        (counted bytes) := by
      rw [render_snd, renderSamples_eq, if_pos hplaying]
      rfl
    have hlength : (List.replicate (bytes / Sample.width) (0 : Float32)).length =
        bytes / Sample.width := List.length_replicate ..
    have hperiod := player.countCallback.channel_playPeriod locked
      (List.replicate (bytes / Sample.width) 0)
    rw [hlength] at hperiod
    rw [levels, checks, moves, if_pos hplaying, hrender, hplaying]
    exact hperiod
  · have hrender : (player.render locked bytes).2 =
        player.countCallback.countSilent.finishPeriod (counted bytes) := by
      rw [render_snd, renderSamples_eq, if_neg hplaying]
      rfl
    have hlevels : player.levels locked bytes = [] := by simp [levels, checks, hplaying]
    rw [hlevels, moves, if_neg hplaying, hrender]
    exact ⟨rfl, rfl⟩

end Player

end TimelineMixer
