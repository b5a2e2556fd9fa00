import TimelineMixer.Output
import TimelineMixer.Proofs.Transport.Calls

/-!
# Listeners do not matter

Whatever is done with an engine, nothing looks at the channel of the events: with another channel
in its place, every operation gives the same answer and leaves the same engine apart from the
channel (`operate_on`), and it sends the same events (`reported_on`). So what an engine
does in a run depends on the operations only, and not on who receives events in between, how many
the channel holds, or whether anybody listens (`record_on`). What the listeners get does depend on
it: the events sent are those received, those waiting and those dropped, as long as the receiver is
alive (`EventChannel.Accounts`). Together: `record_eq_of_operations_eq`.
-/

set_option autoImplicit false
set_option relaxedAutoImplicit false

namespace TimelineMixer

/-! ### What becomes of events -/

namespace EventChannel

/-- What a receiver does. -/
inductive Listening where
  /-- It takes the oldest waiting event. -/
  | receive
  /-- It takes every waiting event. -/
  | receiveAll
  /-- It goes away. -/
  | close
  deriving DecidableEq

/-- The events that a receiver gets, and the channel afterwards. -/
def listen (channel : EventChannel) : Listening → List Event × EventChannel
  | .receive => (channel.receive.1.toList, channel.receive.2)
  | .receiveAll => channel.receiveAll
  | .close => ([], channel.close)

/-- The events received so far, followed by those that wait, are some of the events that were sent,
in their order; while the receiver is alive, they and the dropped ones are all of them. -/
structure Accounts (sent received : List Event) (channel : EventChannel) : Prop where
  order : (received ++ channel.waiting).Sublist sent
  total : channel.connected = true →
    sent.length = received.length + channel.waiting.length + channel.dropped

namespace Accounts

variable {sent received : List Event} {channel : EventChannel}

theorem of_open? {capacity : Nat} (h : open? capacity = some channel) : Accounts [] [] channel := by
  rw [open?] at h
  split_ifs at h
  obtain rfl := Option.some.inj h
  exact ⟨List.Sublist.refl _, fun _ ↦ rfl⟩

theorem emit (h : Accounts sent received channel) (event : Event) :
    Accounts (sent ++ [event]) received (channel.emit event).2 := by
  have hmore := h.order.trans (List.sublist_append_left sent [event])
  rw [EventChannel.emit]
  split_ifs with hopen hroom
  · refine ⟨?_, fun hconnected ↦ ?_⟩
    · dsimp only
      rw [← List.append_assoc]
      exact h.order.append (List.Sublist.refl _)
    · have := h.total hconnected
      simp only [List.length_append, List.length_singleton]
      omega
  · refine ⟨hmore, fun hconnected ↦ ?_⟩
    have := h.total hconnected
    simp only [List.length_append, List.length_singleton]
    omega
  · exact ⟨hmore, fun hconnected ↦ absurd hconnected hopen⟩

theorem emitAll (h : Accounts sent received channel) (events : List Event) :
    Accounts (sent ++ events) received (channel.emitAll events) := by
  induction events generalizing sent channel with
  | nil => rwa [List.append_nil]
  | cons event rest ih =>
    have hrest := ih (h.emit event)
    rwa [List.append_assoc, List.singleton_append] at hrest

theorem listen (h : Accounts sent received channel) (listening : Listening) :
    Accounts sent (received ++ (channel.listen listening).1) (channel.listen listening).2 := by
  cases listening with
  | receive =>
    rw [EventChannel.listen, receive]
    split
    · rwa [Option.toList_none, List.append_nil]
    · next event rest hwaiting =>
      refine ⟨?_, fun hconnected ↦ ?_⟩
      · rw [Option.toList_some, List.append_assoc, List.singleton_append, ← hwaiting]
        exact h.order
      · have := h.total hconnected
        rw [hwaiting, List.length_cons] at this
        simp only [Option.toList_some, List.length_append, List.length_singleton]
        omega
  | receiveAll =>
    refine ⟨(List.append_nil _).symm ▸ h.order, fun hconnected ↦ ?_⟩
    have := h.total hconnected
    simpa [EventChannel.listen, receiveAll] using this
  | close =>
    refine ⟨?_, fun hconnected ↦ Bool.noConfusion hconnected⟩
    rw [EventChannel.listen, List.append_nil]
    exact (List.append_nil received).symm ▸ (List.sublist_append_left _ _).trans h.order

end Accounts

end EventChannel

/-! ### Players -/

namespace Player

/-- The player with another channel. -/
def on (player : Player) (channel : EventChannel) : Player :=
  { player with channel }

theorem lockStore_on (player : Player) (channel : EventChannel) :
    (player.on channel).lockStore = player.lockStore.on channel := by
  change (if player.poisoned then (player.on channel).note [.queueLockPoisoned]
    else player.on channel) = _
  rw [lockStore]
  split_ifs <;> rfl

theorem withStore_on (player : Player) (channel : EventChannel)
    (change : LayerStore → LayerStore) :
    (player.on channel).withStore change = (player.withStore change).on channel := by
  rw [withStore, lockStore_on]
  rfl

theorem playPeriod_on (player : Player) (channel : EventChannel) (locked : Bool)
    (silence : List Float32) :
    ∃ later, (player.on channel).playPeriod locked silence =
      ((player.playPeriod locked silence).1, (player.playPeriod locked silence).2.on later) := by
  have hchosen : (player.on channel).chooseAtom (Sample.width * silence.length) =
      ((player.chooseAtom (Sample.width * silence.length)).1,
        (player.chooseAtom (Sample.width * silence.length)).2.on
          (channel.emitAll (player.deck.select (Sample.width * silence.length)).1.events)) := rfl
  rw [playPeriod, playPeriod, hchosen]
  generalize player.chooseAtom (Sample.width * silence.length) = chosen
  obtain ⟨choice, chosen⟩ := chosen
  cases choice with
  | none => exact ⟨_, rfl⟩
  | some atom =>
    dsimp only
    split_ifs <;> exact ⟨_, rfl⟩

theorem renderSamples_on (player : Player) (channel : EventChannel) (locked : Bool)
    (count : Nat) :
    ∃ later, (player.on channel).renderSamples locked count =
      ((player.renderSamples locked count).1,
        (player.renderSamples locked count).2.on later) := by
  have hsame : (player.on channel).deck.transport = player.deck.transport := rfl
  rw [renderSamples_eq, renderSamples_eq, hsame]
  split_ifs
  · obtain ⟨later, hplayed⟩ :=
      player.countCallback.playPeriod_on channel locked (List.replicate count 0)
    exact ⟨later,
      congrArg (fun played ↦ (played.1, played.2.finishPeriod (Sample.width * count))) hplayed⟩
  · exact ⟨channel, rfl⟩

theorem render_on (player : Player) (channel : EventChannel) (locked : Bool) (bytes : Nat) :
    ∃ later, (player.on channel).render locked bytes =
      ((player.render locked bytes).1, (player.render locked bytes).2.on later) := by
  obtain ⟨later, hrendered⟩ := player.renderSamples_on channel locked (bytes / Sample.width)
  refine ⟨later, ?_⟩
  rw [render, render, hrendered]

theorem report_on (player : Player) (channel : EventChannel) (locked : Bool) (bytes : Nat) :
    (player.on channel).report locked bytes = player.report locked bytes := by
  obtain ⟨later, hrendered⟩ := player.render_on channel locked bytes
  have hlevels : (player.on channel).levels locked bytes = player.levels locked bytes := by
    rw [levels, levels, hrendered]
    rfl
  rw [report, report, hlevels]
  rfl

/-- The player after some periods. -/
def renderAll (player : Player) (periods : List (Bool × Nat)) : Player :=
  periods.foldl (fun player period ↦ (player.render period.1 period.2).2) player

/-- What some periods report. -/
def reports (player : Player) (periods : List (Bool × Nat)) : List Event :=
  gather (fun player period ↦ (player.render period.1 period.2).2)
    (fun player period ↦ player.report period.1 period.2) player periods

theorem channel_renderAll (player : Player) (periods : List (Bool × Nat)) :
    (player.renderAll periods).channel = player.channel.emitAll (player.reports periods) := by
  induction periods generalizing player with
  | nil => rfl
  | cons period rest ih =>
    have hrest := ih (player.render period.1 period.2).2
    rw [(player.channel_render period.1 period.2).2, ← EventChannel.emitAll_append] at hrest
    exact hrest

theorem reports_on (player : Player) (channel : EventChannel) (periods : List (Bool × Nat)) :
    (player.on channel).reports periods = player.reports periods := by
  induction periods generalizing player channel with
  | nil => rfl
  | cons period rest ih =>
    obtain ⟨later, hrendered⟩ := player.render_on channel period.1 period.2
    have hrest := ih (player.render period.1 period.2).2 later
    rw [reports, gather, report_on, hrendered]
    exact congrArg (player.report period.1 period.2 ++ ·) hrest

/-- A ring renders its periods one after the other. -/
theorem renderAll_replicate (player : Player) (count samples : Nat) :
    player.renderAll (List.replicate count (false, Sample.width * samples)) =
      (PlayoutRing.renderPeriods (fun player ↦ player.renderSamples false samples) count
        player).2 := by
  induction count generalizing player with
  | zero => rfl
  | succ count ih =>
    have hperiod : (player.render false (Sample.width * samples)).2 =
        (player.renderSamples false samples).2 := by
      rw [render_snd, Nat.mul_div_cancel_left _ (by decide)]
    rw [List.replicate_succ, PlayoutRing.renderPeriods]
    exact (congrArg (renderAll · _) hperiod).trans (ih (player.renderSamples false samples).2)

end Player

/-! ### Outputs -/

namespace PlayoutRing

variable (render : Player → List Float32 × Player)
  (hrender : ∀ player channel, ∃ later,
    render (player.on channel) = ((render player).1, (render player).2.on later))

include hrender

theorem renderPeriods_on (count : Nat) (player : Player) (channel : EventChannel) :
    ∃ later, renderPeriods render count (player.on channel) =
      ((renderPeriods render count player).1, (renderPeriods render count player).2.on later) := by
  induction count generalizing player channel with
  | zero => exact ⟨channel, rfl⟩
  | succ count ih =>
    obtain ⟨middle, hfirst⟩ := hrender player channel
    obtain ⟨later, hrest⟩ := ih (render player).2 middle
    refine ⟨later, ?_⟩
    rw [renderPeriods, renderPeriods, hfirst]
    dsimp only
    rw [hrest]

theorem write_on (signals : PlayoutSignals) (wanted : Nat) (ring : PlayoutRing) (player : Player)
    (channel : EventChannel) :
    ∃ later, write render signals wanted ring (player.on channel) =
      { write render signals wanted ring player with
        renderer := (write render signals wanted ring player).renderer.on later } := by
  rw [write, write]
  cases signals.draining with
  | true => exact ⟨channel, rfl⟩
  | false =>
    obtain ⟨later, hrendered⟩ := renderPeriods_on render hrender
      ((ring.honourFlush signals).periodsDue wanted) player channel
    refine ⟨later, ?_⟩
    rw [if_neg Bool.false_ne_true, if_neg Bool.false_ne_true, refill, refill, hrendered]

end PlayoutRing

namespace Output

theorem pull_on (output : Output) (player : Player) (channel : EventChannel) (locked : Bool)
    (bytes : Nat) :
    ∃ later, output.pull (player.on channel) locked bytes =
      ((output.pull player locked bytes).1, (output.pull player locked bytes).2.1,
        (output.pull player locked bytes).2.2.on later) := by
  obtain ⟨later, hrendered⟩ := player.render_on channel locked bytes
  cases output with
  | loopback inner =>
    rw [pull, pull, LoopbackOutput.pull, LoopbackOutput.pull]
    split_ifs
    · exact ⟨later, by rw [hrendered]⟩
    · exact ⟨channel, rfl⟩
  | device inner => exact ⟨channel, rfl⟩
  | scripted inner =>
    rw [pull, pull]
    split_ifs
    · exact ⟨later, by rw [hrendered]⟩
    · exact ⟨channel, rfl⟩

theorem write_on (output : Output) (player : Player) (channel : EventChannel) (wanted : Nat) :
    ∃ later, output.write (player.on channel) wanted =
      ((output.write player wanted).1, (output.write player wanted).2.1,
        (output.write player wanted).2.2.on later) := by
  cases output with
  | loopback inner => exact ⟨channel, rfl⟩
  | scripted inner => exact ⟨channel, rfl⟩
  | device inner =>
    rw [write, write, DeviceOutput.write, DeviceOutput.write]
    cases inner.stream? with
    | none => exact ⟨channel, rfl⟩
    | some stream =>
      dsimp only
      split_ifs
      · obtain ⟨later, hwritten⟩ := PlayoutRing.write_on
          (fun player ↦ player.renderSamples false stream.ring.period)
          (fun player channel ↦ player.renderSamples_on channel false stream.ring.period)
          inner.signals wanted stream.ring player channel
        exact ⟨later, by rw [hwritten]; rfl⟩
      · exact ⟨channel, rfl⟩

/-- The periods that are rendered when an output without a device is pulled. -/
def pulled (output : Output) (locked : Bool) (bytes : Nat) : List (Bool × Nat) :=
  match output with
  | loopback inner => if inner.delivers then [(locked, bytes)] else []
  | scripted inner => if inner.started then [(locked, bytes)] else []
  | device _ => []

/-- The periods that are rendered when a device asks for samples. -/
def written (output : Output) (wanted : Nat) : List (Bool × Nat) :=
  match output with
  | device ⟨_, _, _, _, _, _, _, _, signals, _, some ⟨ring, true⟩⟩ =>
    if signals.draining then []
    else List.replicate ((ring.honourFlush signals).periodsDue wanted)
      (false, Sample.width * ring.period)
  | _ => []

theorem player_pull (output : Output) (player : Player) (locked : Bool) (bytes : Nat) :
    (output.pull player locked bytes).2.2 = player.renderAll (output.pulled locked bytes) := by
  cases output with
  | device inner => rfl
  | loopback inner =>
    rw [pull, LoopbackOutput.pull, pulled]
    dsimp only
    split_ifs <;> rfl
  | scripted inner =>
    rw [pull, pulled]
    dsimp only
    split_ifs <;> rfl

theorem player_write (output : Output) (player : Player) (wanted : Nat) :
    (output.write player wanted).2.2 = player.renderAll (output.written wanted) := by
  rcases output with inner | ⟨_, _, _, _, _, _, _, _, signals, _, _ | ⟨ring, _ | _⟩⟩ | inner
  · rfl
  · rfl
  · rfl
  · have hperiod : (ring.honourFlush signals).period = ring.period := by
      rw [PlayoutRing.honourFlush]
      split_ifs <;> rfl
    change (PlayoutRing.write _ signals wanted ring player).renderer = _
    rw [PlayoutRing.write, written]
    cases signals.draining with
    | true => rfl
    | false =>
      rw [if_neg Bool.false_ne_true, if_neg Bool.false_ne_true, Player.renderAll_replicate]
      rfl
  · rfl

end Output

/-! ### Engines -/

namespace Engine

section Calls

variable {σ : Type} [OutputStream σ]

omit [OutputStream σ] in
/-- The engine with another channel. -/
def on (engine : Engine σ) (channel : EventChannel) : Engine σ :=
  { engine with player := engine.player.on channel }

theorem new_on (settings : EngineSettings) (spec : AudioSpec) (stream : σ)
    (channel other : EventChannel) :
    Engine.new settings spec stream other =
      (Engine.new settings spec stream channel).map (·.on other) := by
  rw [Engine.new, Engine.new]
  dsimp only
  cases (openCorked stream).outcome <;> rfl

variable (engine : Engine σ) (channel : EventChannel)

omit [OutputStream σ] in
theorem clearQueues_on : (engine.on channel).clearQueues = engine.clearQueues.on channel := by
  rw [clearQueues, on, Player.withStore_on]
  rfl

omit [OutputStream σ] in
/-- A choice that does not depend on the channel, between answers that do not. -/
theorem exists_on_ite {α : Type} {test : Prop} [Decidable test] {first second : α × Engine σ}
    {first' second' : α × Engine σ} (hfirst : ∃ later, first' = (first.1, first.2.on later))
    (hsecond : ∃ later, second' = (second.1, second.2.on later)) :
    ∃ later, (if test then first' else second') =
      ((if test then first else second).1, (if test then first else second).2.on later) := by
  split_ifs
  · exact hfirst
  · exact hsecond

theorem play_on :
    ∃ later, (engine.on channel).play = (engine.play.1, engine.play.2.on later) := by
  rw [play, play]
  exact exists_on_ite ⟨channel, rfl⟩ (exists_on_ite ⟨channel, rfl⟩ ⟨_, rfl⟩)

theorem halt_on (target : PlayState) :
    ∃ later, (engine.on channel).halt target =
      ((engine.halt target).1, (engine.halt target).2.on later) := by
  rw [halt, halt]
  exact exists_on_ite ⟨channel, rfl⟩ (exists_on_ite ⟨channel, rfl⟩ ⟨_, rfl⟩)

theorem destroy_on : ∃ later, (engine.on channel).destroy = engine.destroy.on later := by
  have hlives : (engine.on channel).destroyed = engine.destroyed := rfl
  have htransport : (engine.on channel).player.deck.transport = engine.player.deck.transport := rfl
  rw [destroy, destroy, hlives]
  cases engine.destroyed with
  | true => exact ⟨channel, rfl⟩
  | false =>
    rw [if_neg Bool.false_ne_true, if_neg Bool.false_ne_true, swap, swap, Deck.swap, Deck.swap]
    dsimp only
    rw [htransport]
    cases engine.player.deck.transport <;> exact ⟨_, rfl⟩

theorem seek_on (position : Seconds) :
    ∃ later, (engine.on channel).seek position =
      ((engine.seek position).1, (engine.seek position).2.on later) := by
  rw [seek, seek, clearQueues_on]
  refine exists_on_ite ⟨channel, rfl⟩ ?_
  dsimp only [on, Player.on]
  cases engine.player.deck.timeline.start? with
  | none => exact ⟨channel, rfl⟩
  | some start =>
    cases engine.player.deck.timeline.stop? with
    | none => exact ⟨channel, rfl⟩
    | some stop => exact ⟨_, rfl⟩

omit [OutputStream σ] in
theorem setTimeline_on (timeline : Timeline) :
    ∃ later, (engine.on channel).setTimeline timeline =
      ((engine.setTimeline timeline).1, (engine.setTimeline timeline).2.on later) := by
  rw [setTimeline, setTimeline, clearQueues_on]
  exact exists_on_ite ⟨channel, rfl⟩ ⟨channel, rfl⟩

/-- No call looks at the channel. -/
theorem obey_on (command : Command) :
    ∃ later, (engine.on channel).obey command =
      ((engine.obey command).1, (engine.obey command).2.on later) := by
  cases command with
  | play => exact engine.play_on channel
  | pause => exact engine.halt_on channel .paused
  | stop => exact engine.halt_on channel .stopped
  | seek position =>
    obtain ⟨later, hsought⟩ := engine.seek_on channel position
    exact ⟨later, by rw [obey, obey, hsought]⟩
  | setTimeline timeline => exact engine.setTimeline_on channel timeline
  | setVolume volume => exact ⟨channel, rfl⟩
  | destroy =>
    obtain ⟨later, hdestroyed⟩ := engine.destroy_on channel
    exact ⟨later, by rw [obey, obey, hdestroyed]⟩

/-- What a call reports does not depend on the channel. -/
theorem callReport_on (command : Command) :
    (engine.on channel).callReport command = engine.callReport command := by
  cases command with
  | seek position =>
    obtain ⟨later, hsought⟩ := engine.seek_on channel position
    rw [callReport, callReport, hsought]
    rcases engine.seek position with ⟨_ | _, _⟩ <;> rfl
  | play | pause | stop | destroy | setTimeline | setVolume => rfl

end Calls

/-! ### Operations -/

/-- An operation on an engine with an output. -/
inductive Operation where
  | call (command : Command)
  /-- The format changes. -/
  | setSpec (spec : AudioSpec)
  /-- The queues are changed under their lock. -/
  | edit (change : LayerStore → LayerStore)
  /-- A period is pulled from an output without a device. -/
  | pull (locked : Bool) (bytes : Nat)
  /-- A device asks for samples. -/
  | write (wanted : Nat)
  /-- Pulled bytes are played. -/
  | playOut

/-- What an operation answers. -/
inductive Answer where
  | done
  | called (outcome : Except Fault Unit)
  | bytes (out : Option (List UInt8))
  | samples (out : Option (List Float32))

/-- The engine after an operation, with the answer. -/
def operate (engine : Engine Output) : Operation → Answer × Engine Output
  | .call command => (.called (engine.obey command).1, (engine.obey command).2)
  | .setSpec spec => (.done, engine.setSpec spec)
  | .edit change => (.done, { engine with player := engine.player.withStore change })
  | .pull locked bytes =>
    let (out, stream, player) := engine.stream.pull engine.player locked bytes
    (.bytes out, { engine with stream, player })
  | .write wanted =>
    let (out, stream, player) := engine.stream.write engine.player wanted
    (.samples out, { engine with stream, player })
  | .playOut =>
    let (out, stream) := engine.stream.playOut
    (.bytes out, { engine with stream })

/-- What an operation reports. -/
def reported (engine : Engine Output) : Operation → List Event
  | .call command => engine.callReport command
  | .pull locked bytes => engine.player.reports (engine.stream.pulled locked bytes)
  | .write wanted => engine.player.reports (engine.stream.written wanted)
  | .setSpec _ | .edit _ | .playOut => []

section Operations

variable (engine : Engine Output)

/-- An operation sends what it reports. -/
theorem channel_operate (operation : Operation) :
    (engine.operate operation).2.channel =
      engine.channel.emitAll (engine.reported operation) := by
  cases operation with
  | call command => exact engine.channel_obey command
  | setSpec spec => rfl
  | edit change => exact engine.player.channel_lockStore
  | pull locked bytes =>
    exact (congrArg Player.channel (engine.stream.player_pull engine.player locked bytes)).trans
      (engine.player.channel_renderAll _)
  | write wanted =>
    exact (congrArg Player.channel (engine.stream.player_write engine.player wanted)).trans
      (engine.player.channel_renderAll _)
  | playOut => rfl

/-- An operation does not look at the channel. -/
theorem operate_on (channel : EventChannel) (operation : Operation) :
    ∃ later, (engine.on channel).operate operation =
      ((engine.operate operation).1, (engine.operate operation).2.on later) := by
  cases operation with
  | call command =>
    obtain ⟨later, hobeyed⟩ := engine.obey_on channel command
    exact ⟨later, by rw [operate, operate, hobeyed]⟩
  | setSpec spec => exact ⟨channel, rfl⟩
  | edit change =>
    refine ⟨channel, ?_⟩
    rw [operate, operate, on, Player.withStore_on]
    rfl
  | pull locked bytes =>
    obtain ⟨later, hpulled⟩ := engine.stream.pull_on engine.player channel locked bytes
    exact ⟨later, by rw [operate, operate, on, hpulled]; rfl⟩
  | write wanted =>
    obtain ⟨later, hwritten⟩ := engine.stream.write_on engine.player channel wanted
    exact ⟨later, by rw [operate, operate, on, hwritten]; rfl⟩
  | playOut => exact ⟨channel, rfl⟩

/-- What an operation reports does not depend on the channel. -/
theorem reported_on (channel : EventChannel) (operation : Operation) :
    (engine.on channel).reported operation = engine.reported operation := by
  cases operation with
  | call command => exact engine.callReport_on channel command
  | pull locked bytes => exact engine.player.reports_on channel _
  | write wanted => exact engine.player.reports_on channel _
  | setSpec | edit | playOut => rfl

end Operations

/-! ### Runs with a listener -/

/-- An operation, or something that the receiver of the events does. -/
inductive Turn where
  | operate (operation : Operation)
  | listen (listening : EventChannel.Listening)

/-- The operation of a turn, if it is one. -/
def Turn.operation? : Turn → Option Operation
  | .operate operation => some operation
  | .listen _ => none

section Runs

variable (engine : Engine Output)

/-- The engine after a turn. -/
def take (engine : Engine Output) : Turn → Engine Output
  | .operate operation => (engine.operate operation).2
  | .listen listening => engine.on (engine.channel.listen listening).2

/-- The engine without its channel. -/
def silenced (engine : Engine Output) : Engine Output :=
  engine.on ⟨0, [], 0, false⟩

/-- The engine after some turns. -/
def takeAll (engine : Engine Output) (turns : List Turn) : Engine Output :=
  turns.foldl take engine

/-- After every operation of a run: its answer, and the engine without the channel. -/
def record : Engine Output → List Turn → List (Answer × Engine Output) :=
  gather take fun engine turn ↦ match turn with
    | .operate operation =>
      [((engine.operate operation).1, (engine.operate operation).2.silenced)]
    | .listen _ => []

/-- The events that are sent in a run. -/
def sent : Engine Output → List Turn → List Event :=
  gather take fun engine turn ↦ match turn with
    | .operate operation => engine.reported operation
    | .listen _ => []

/-- The events that are received in a run. -/
def received : Engine Output → List Turn → List Event :=
  gather take fun engine turn ↦ match turn with
    | .operate _ => []
    | .listen listening => (engine.channel.listen listening).1

/-- The operations of a run. -/
def operations (turns : List Turn) : List Operation :=
  turns.filterMap Turn.operation?

/-- Record and sent events of a run are those of its operations alone, whatever channel it begins
with. -/
theorem record_on (channel : EventChannel) (turns : List Turn) :
    (engine.on channel).record turns = engine.record ((operations turns).map .operate) ∧
      (engine.on channel).sent turns = engine.sent ((operations turns).map .operate) := by
  induction turns generalizing engine channel with
  | nil => exact ⟨rfl, rfl⟩
  | cons turn rest ih =>
    cases turn with
    | listen listening => exact ih engine _
    | operate operation =>
      obtain ⟨later, hoperated⟩ := engine.operate_on channel operation
      obtain ⟨hrecord, hsent⟩ := ih (engine.operate operation).2 later
      have hreported := engine.reported_on channel operation
      constructor
      · change [(((engine.on channel).operate operation).1,
          ((engine.on channel).operate operation).2.silenced)] ++
            record ((engine.on channel).operate operation).2 rest = _
        rw [hoperated, hrecord]
        rfl
      · change (engine.on channel).reported operation ++
          sent ((engine.on channel).operate operation).2 rest = _
        rw [hoperated, hreported, hsent]
        rfl

/-- A run keeps the account of its channel. -/
theorem accounts_takeAll {engine : Engine Output} {before got : List Event}
    (h : EventChannel.Accounts before got engine.channel) (turns : List Turn) :
    EventChannel.Accounts (before ++ engine.sent turns) (got ++ engine.received turns)
      (engine.takeAll turns).channel := by
  induction turns generalizing engine before got with
  | nil =>
    change EventChannel.Accounts (before ++ []) (got ++ []) engine.channel
    rwa [List.append_nil, List.append_nil]
  | cons turn rest ih =>
    cases turn with
    | operate operation =>
      have hafter := h.emitAll (engine.reported operation)
      rw [← channel_operate] at hafter
      have hrest := ih hafter
      rwa [List.append_assoc] at hrest
    | listen listening =>
      have hafter : EventChannel.Accounts before (got ++ (engine.channel.listen listening).1)
        (engine.take (.listen listening)).channel := h.listen listening
      have hrest := ih hafter
      rwa [List.append_assoc] at hrest

end Runs

/-- Two engines that differ in the capacity of their channels only, taken through the same
operations while their receivers do whatever they do, answer alike and are alike after every
operation, apart from the channel, and send the same events. Of what is sent in a run, the receiver
has got some, in order; together with those that wait and those that were dropped they are all,
while it is alive. -/
theorem record_eq_of_operations_eq (settings : EngineSettings) (spec : AudioSpec)
    (stream : Output) {capacity capacity' : Nat} {channel channel' : EventChannel}
    (hchannel : EventChannel.open? capacity = some channel)
    (hchannel' : EventChannel.open? capacity' = some channel') {engine : Engine Output}
    (hnew : Engine.new settings spec stream channel = .ok engine) {turns turns' : List Turn}
    (hsame : operations turns = operations turns') :
    ∃ engine', Engine.new settings spec stream channel' = .ok engine' ∧
      engine.silenced = engine'.silenced ∧ engine.record turns = engine'.record turns' ∧
      engine.sent turns = engine'.sent turns' ∧
      (∀ taken, EventChannel.Accounts (engine.sent taken) (engine.received taken)
        (engine.takeAll taken).channel) ∧
      ∀ taken, EventChannel.Accounts (engine'.sent taken) (engine'.received taken)
        (engine'.takeAll taken).channel := by
  have hopened : engine.channel = channel := by
    rw [eq_of_new_eq_ok hnew]
    rfl
  have hnew' := new_on settings spec stream channel channel'
  rw [hnew] at hnew'
  obtain ⟨hrecord, hsent⟩ := engine.record_on channel turns
  obtain ⟨hrecord', hsent'⟩ := engine.record_on channel' turns'
  have hself : engine.on channel = engine := by rw [← hopened]; rfl
  rw [hself, hsame] at hrecord hsent
  have haccounts : EventChannel.Accounts [] [] engine.channel :=
    hopened ▸ EventChannel.Accounts.of_open? hchannel
  have haccounts' : EventChannel.Accounts [] [] (engine.on channel').channel :=
    EventChannel.Accounts.of_open? hchannel'
  exact ⟨engine.on channel', hnew', rfl, hrecord.trans hrecord'.symm, hsent.trans hsent'.symm,
    accounts_takeAll haccounts, accounts_takeAll haccounts'⟩

/-- A channel for one event that nobody reads, and one for many whose reader goes away after the
first. -/
theorem record_eq_of_operations_eq_crowded :
    let loopback : Output := .loopback (.new true)
    let turns : List Turn := [.operate (.call (.setTimeline solo)), .operate (.call .play),
      .operate (.pull false 4), .operate (.call .pause)]
    let turns' : List Turn := [.operate (.call (.setTimeline solo)), .operate (.call .play),
      .listen .receive, .listen .close, .operate (.pull false 4), .operate (.call .pause)]
    ∃ channel channel' engine engine',
      (EventChannel.open? 1 = some channel ∧ EventChannel.open? 64 = some channel' ∧
        Engine.new { minPlayable := 8 } .oneHertz loopback channel = .ok engine ∧
        operations turns = operations turns') ∧
      Engine.new { minPlayable := 8 } .oneHertz loopback channel' = .ok engine' ∧
      engine.record turns = engine'.record turns' ∧
      (engine.takeAll turns).channel.dropped = 2 ∧
      (engine'.takeAll turns').channel.connected = false ∧
      (engine'.takeAll turns').channel.dropped = 0 := by
  intro loopback turns turns'
  have hchannel : EventChannel.open? 1 = some ⟨1, [], 0, true⟩ := if_neg (by decide)
  have hchannel' : EventChannel.open? 64 = some ⟨64, [], 0, true⟩ := if_neg (by decide)
  obtain ⟨engine, hnew⟩ : ∃ engine, Engine.new { minPlayable := 8 } .oneHertz loopback
      ⟨1, [], 0, true⟩ = .ok engine := ⟨_, rfl⟩
  have hsame : operations turns = operations turns' := rfl
  obtain ⟨engine', hnew', -, hrecord, -⟩ := record_eq_of_operations_eq { minPlayable := 8 }
    .oneHertz loopback hchannel hchannel' hnew hsame
  refine ⟨_, _, engine, engine', ⟨hchannel, hchannel', hnew, hsame⟩, hnew', hrecord, ?_, ?_, ?_⟩
  · rw [eq_of_new_eq_ok hnew]
    decide +kernel
  · rw [eq_of_new_eq_ok hnew']
    decide +kernel
  · rw [eq_of_new_eq_ok hnew']
    decide +kernel

end Engine

end TimelineMixer
