import TimelineMixer.Output.Loopback
import TimelineMixer.Proofs.Player.Reports

/-!
# Calls of the control side

Control calls, chunks that are queued, periods and a receiver of the events take turns in any order
(`Engine.run`). A call that changes the transport reports the change, and one without effect reports
nothing (`Turned`). A seek is refused by an engine that was torn down, and in a timeline without
atoms; else the clock goes to an atom of the timeline and the seek is reported (`seek_cases`). A
refused call leaves the engine as it was (`obey_of_refused`). What the steps report
(`Engine.report`) is what they send, as long as no event is lost (`serves_step`).
-/

set_option autoImplicit false
set_option relaxedAutoImplicit false

namespace TimelineMixer

/-- The event reports that the transport plays. -/
def Event.isStart : Event → Bool
  | .playbackStateChanged _ .playing => true
  | _ => false

theorem Event.isStart_of_topic {event : Event} (h : event.topic ≠ .transport) :
    event.isStart = false := by
  cases event with
  | playbackStateChanged => exact absurd rfl h
  | _ => rfl

namespace Player

@[simp] theorem channel_lockStore (player : Player) :
    player.lockStore.channel = player.channel := by
  rw [lockStore]
  split_ifs <;> rfl

@[simp] theorem monitor_lockStore (player : Player) :
    player.lockStore.monitor = player.monitor := by
  rw [lockStore]
  split_ifs <;> rfl

end Player

namespace Engine

/-- A call of the control side. -/
inductive Command where
  | play
  | pause
  | stop
  | seek (position : Seconds)
  | setTimeline (timeline : Timeline)
  | setVolume (volume : Float32)
  | destroy

/-- A step of one of the tasks around an engine. -/
inductive Action where
  | call (command : Command)
  /-- A producer queues a chunk. -/
  | push (key : QueueKey) (chunk : Chunk)
  /-- The output asks for a period. -/
  | period (locked : Bool) (bytes : Nat)
  /-- The receiver takes the oldest waiting event. -/
  | receive

/-- The receiver takes an event. -/
def Action.isReceive : Action → Bool
  | .receive => true
  | _ => false

variable {σ : Type} [OutputStream σ]

/-- Makes a call, with whether it was refused. -/
def obey (engine : Engine σ) : Command → Except Fault Unit × Engine σ
  | .play => engine.play
  | .pause => engine.pause
  | .stop => engine.stop
  | .seek position => ((engine.seek position).1.map fun _ ↦ (), (engine.seek position).2)
  | .setTimeline timeline => engine.setTimeline timeline
  | .setVolume volume => (.ok (), engine.setVolume volume)
  | .destroy => (.ok (), engine.destroy)

omit [OutputStream σ] in
/-- Renders a period. -/
def render (engine : Engine σ) (locked : Bool) (bytes : Nat) : Engine σ :=
  { engine with player := (engine.player.render locked bytes).2 }

omit [OutputStream σ] in
/-- The state of the transport. -/
def transport (engine : Engine σ) : PlayState :=
  engine.player.deck.transport

omit [OutputStream σ] in
/-- The channel of the events. -/
def channel (engine : Engine σ) : EventChannel :=
  engine.player.channel

/-- One step. -/
def step (engine : Engine σ) : Action → Engine σ
  | .call command => (engine.obey command).2
  | .push key chunk => { engine with player := engine.player.push key chunk }
  | .period locked bytes => engine.render locked bytes
  | .receive => { engine with player := { engine.player with channel := engine.channel.receive.2 } }

/-- Steps in their order. -/
def run (engine : Engine σ) (actions : List Action) : Engine σ :=
  actions.foldl step engine

/-- A new engine is stopped, and holds the channel and the limits it was given. -/
theorem eq_of_new_eq_ok {settings : EngineSettings} {spec : AudioSpec} {stream : σ}
    {channel : EventChannel} {engine : Engine σ}
    (h : Engine.new settings spec stream channel = .ok engine) :
    engine =
      { player := (Player.new spec settings.volume channel
          (.new settings.minPlayable settings.debounce)).note (openCorked stream).notices
        stream := (openCorked stream).stream
        destroyed := false
        name := OutputStream.name (openCorked stream).stream
        minPlayable := settings.minPlayable
        flushTimeout := settings.flushTimeout
        drainTimeout := settings.drainTimeout } := by
  rw [Engine.new] at h
  dsimp only at h
  split at h
  · cases h
  · exact (Except.ok.inj h).symm

/-- A new engine over a loopback output that keeps what is pulled. A sample is a second; fewer than
two samples are too few. -/
def fresh : Engine LoopbackOutput where
  player := .new .oneHertz 1 ⟨64, [], 0, true⟩ (.new 8 1)
  stream := { LoopbackOutput.new true with started := true }
  destroyed := false
  name := "loopback"
  minPlayable := 8
  flushTimeout := 500
  drainTimeout := 2000

theorem new_eq_ok_fresh :
    Engine.new { minPlayable := 8 } .oneHertz (LoopbackOutput.new true) ⟨64, [], 0, true⟩ =
      .ok fresh :=
  rfl

/-- A single atom of sixteen seconds with a layer. -/
def solo : Timeline where
  atoms := [⟨.ofInt 0, .ofInt 16, [⟨.ofNat 1, .ofInt 0, .ofInt 16, 1⟩]⟩]
  ordered := by decide +kernel

/-! ### Changes of the transport -/

omit [OutputStream σ] in
/-- What turning the transport to a state reports: nothing if it is in this state, or the engine was
torn down. -/
def turns (engine : Engine σ) (target : PlayState) : List Event :=
  if engine.destroyed = true ∨ engine.player.deck.transport = target then []
  else [.playbackStateChanged engine.player.deck.transport target]

omit [OutputStream σ] in
theorem topic_of_mem_turns (engine : Engine σ) (target : PlayState) :
    ∀ event ∈ engine.turns target, event.topic = .transport := by
  intro event hmem
  rw [turns] at hmem
  split_ifs at hmem
  · exact absurd hmem List.not_mem_nil
  · rw [List.mem_singleton.mp hmem]
    rfl

/-- The transport was turned to a state, unless the engine had been torn down. -/
structure Turned (before : Engine σ) (target : PlayState) (after : Engine σ) : Prop where
  deck_eq : after.player.deck = if before.destroyed then before.player.deck
    else { before.player.deck with transport := target }
  channel_eq : after.channel = before.channel.emitAll (before.turns target)
  monitor_eq : after.player.monitor = before.player.monitor

section Calls

variable (engine : Engine σ)

omit [OutputStream σ] in
theorem turned_of_destroyed {engine : Engine σ} (h : engine.destroyed = true)
    (target : PlayState) : Turned engine target engine where
  deck_eq := by rw [if_pos h]
  channel_eq := by rw [turns, if_pos (Or.inl h), EventChannel.emitAll_nil]
  monitor_eq := rfl

omit [OutputStream σ] in
theorem turned_of_same {engine after : Engine σ} (hlive : engine.destroyed = false)
    {target : PlayState} (hsame : engine.player.deck.transport = target)
    (hdeck : after.player.deck = { engine.player.deck with transport := target })
    (hchannel : after.channel = engine.channel)
    (hmonitor : after.player.monitor = engine.player.monitor) : Turned engine target after where
  deck_eq := by rw [if_neg (by simp [hlive]), hdeck]
  channel_eq := by rw [turns, if_pos (Or.inr hsame), hchannel, EventChannel.emitAll_nil]
  monitor_eq := hmonitor

omit [OutputStream σ] in
theorem turned_of_changed {engine after : Engine σ} (hlive : engine.destroyed = false)
    {target : PlayState} (hother : engine.player.deck.transport ≠ target)
    (hdeck : after.player.deck = { engine.player.deck with transport := target })
    (hchannel : after.channel = (engine.channel.emit
      (.playbackStateChanged engine.player.deck.transport target)).2)
    (hmonitor : after.player.monitor = engine.player.monitor) : Turned engine target after where
  deck_eq := by rw [if_neg (by simp [hlive]), hdeck]
  channel_eq := by
    rw [turns, if_neg (by simp [hlive, hother]), hchannel, EventChannel.emitAll_cons,
      EventChannel.emitAll_nil]
  monitor_eq := hmonitor

theorem turned_play : Turned engine .playing engine.play.2 := by
  rw [play]
  cases hlive : engine.destroyed with
  | true => exact turned_of_destroyed hlive _
  | false =>
    rw [if_neg Bool.false_ne_true, swap, Deck.swap]
    dsimp only
    split_ifs with hsame
    · exact turned_of_same hlive hsame rfl rfl rfl
    · exact turned_of_changed hlive hsame rfl rfl rfl

theorem turned_halt (target : PlayState) : Turned engine target (engine.halt target).2 := by
  rw [halt]
  cases hlive : engine.destroyed with
  | true => exact turned_of_destroyed hlive _
  | false =>
    rw [if_neg Bool.false_ne_true, swap, Deck.swap]
    dsimp only
    split_ifs with hsame
    · exact turned_of_same hlive hsame rfl rfl rfl
    · exact turned_of_changed hlive hsame rfl rfl rfl

theorem turned_destroy : Turned engine .stopped engine.destroy := by
  rw [destroy]
  cases hlive : engine.destroyed with
  | true => exact turned_of_destroyed hlive _
  | false =>
    rw [if_neg Bool.false_ne_true, swap, Deck.swap]
    dsimp only
    split_ifs with hsame hplaying
    · exact turned_of_same hlive hsame rfl rfl rfl
    · exact turned_of_same hlive hsame rfl rfl rfl
    · exact turned_of_changed hlive hsame rfl rfl rfl
    · exact turned_of_changed hlive hsame rfl rfl rfl

/-! ### Seeks and other calls -/

omit [OutputStream σ] in
/-- A seek goes to an atom of the timeline. -/
theorem seekIndex_lt {timeline : Timeline} (hne : timeline.length ≠ 0) (target : Seconds) :
    seekIndex timeline target < timeline.length := by
  have hfound : ∀ (test : Atom → Bool) index, timeline.atoms.findIdx? test = some index →
      index < timeline.length := by
    intro test index hindex
    obtain ⟨hlt, -⟩ := List.findIdx?_eq_some_iff_getElem.mp hindex
    exact hlt
  rw [seekIndex, Timeline.indexAt?]
  cases hinside : timeline.atoms.findIdx? fun atom ↦ atom.contains target with
  | some index => exact hfound _ _ hinside
  | none =>
    rw [Option.none_or]
    split_ifs
    · simp only [Option.some_or, Option.getD_some]
      omega
    · cases hafter : timeline.atoms.findIdx? fun atom ↦ decide (target ≤ atom.start) with
      | some index => exact hfound _ _ hafter
      | none => exact Nat.pos_of_ne_zero hne

/-- The clock was put at a time in an atom. -/
structure Sought (before : Engine σ) (target : Seconds) (index : Nat) (after : Engine σ) :
    Prop where
  deck_eq : after.player.deck = before.player.deck.seek index target
  channel_eq : after.channel = before.channel.emitAll [.seeked target index]
  monitor_eq : after.player.monitor = before.player.monitor
  stream_eq : after.stream = (OutputStream.flush before.flushTimeout before.stream).stream
  destroyed_eq : after.destroyed = before.destroyed

/-- Why a call is refused. -/
def Refused (cause : Fault) : Prop :=
  cause = .destroyed ∧ engine.destroyed = true ∨
    cause = .timeline .emptySeek ∧ engine.player.deck.timeline.length = 0

/-- A seek is refused, or goes to an atom of the timeline. -/
theorem seek_cases (position : Seconds) :
    (∃ cause, engine.seek position = (.error cause, engine) ∧ engine.Refused cause) ∨
      ∃ target index, engine.destroyed = false ∧ index < engine.player.deck.timeline.length ∧
        (engine.seek position).1 = .ok target ∧
        Sought engine target index (engine.seek position).2 := by
  rw [seek]
  cases hlive : engine.destroyed with
  | true => exact Or.inl ⟨.destroyed, rfl, Or.inl ⟨rfl, hlive⟩⟩
  | false =>
    rw [if_neg Bool.false_ne_true]
    dsimp only
    by_cases hempty : engine.player.deck.timeline.length = 0
    · have hnone : engine.player.deck.timeline.start? = none := by
        rw [Timeline.start?, List.length_eq_zero_iff.mp hempty]
        rfl
      rw [hnone]
      exact Or.inl ⟨.timeline .emptySeek, rfl, Or.inr ⟨rfl, hempty⟩⟩
    · obtain ⟨start, stop, hstart, hstop⟩ := Timeline.exists_bounds hempty
      rw [hstart, hstop]
      have hindex := seekIndex_lt hempty (min (max position start) stop)
      refine Or.inr ⟨_, _, rfl, hindex, rfl, ⟨?_, ?_, ?_, rfl, rfl⟩⟩
      · exact congrArg (Deck.seek · _ _) engine.player.deck_lockStore
      · exact congrArg (fun channel ↦ (EventChannel.emit channel _).2)
          engine.player.channel_lockStore
      · exact engine.player.monitor_lockStore

omit [OutputStream σ] in
/-- Another timeline is shown from its beginning, unless the engine was torn down. -/
theorem setTimeline_cases (timeline : Timeline) :
    (engine.setTimeline timeline = (.error .destroyed, engine) ∧ engine.destroyed = true) ∨
      engine.destroyed = false ∧ (engine.setTimeline timeline).1 = .ok () ∧
        (engine.setTimeline timeline).2.player.deck = engine.player.deck.publish timeline ∧
        (engine.setTimeline timeline).2.channel = engine.channel ∧
        (engine.setTimeline timeline).2.player.monitor = engine.player.monitor := by
  rw [setTimeline]
  cases hlive : engine.destroyed with
  | true => exact Or.inl ⟨rfl, rfl⟩
  | false =>
    rw [if_neg Bool.false_ne_true]
    refine Or.inr ⟨rfl, rfl, ?_, ?_, ?_⟩
    · exact congrArg (Deck.publish · timeline) engine.player.deck_lockStore
    · exact engine.player.channel_lockStore
    · exact engine.player.monitor_lockStore

/-- A refused call leaves the engine as it was, and has one of two causes. -/
theorem obey_of_refused {command : Command} {cause : Fault}
    (h : (engine.obey command).1 = .error cause) :
    (engine.obey command).2 = engine ∧ engine.Refused cause := by
  have hhalt : ∀ target, (engine.halt target).1 = .error cause →
      (engine.halt target).2 = engine ∧ engine.Refused cause := by
    intro target hrefused
    rw [halt] at hrefused ⊢
    cases hlive : engine.destroyed with
    | true =>
      rw [hlive] at hrefused
      cases hrefused
      exact ⟨rfl, Or.inl ⟨rfl, hlive⟩⟩
    | false =>
      rw [hlive, if_neg Bool.false_ne_true, swap] at hrefused
      dsimp only at hrefused
      split_ifs at hrefused
  cases command with
  | play =>
    rw [obey, play] at h ⊢
    cases hlive : engine.destroyed with
    | true =>
      rw [hlive] at h
      cases h
      exact ⟨rfl, Or.inl ⟨rfl, hlive⟩⟩
    | false =>
      rw [hlive, if_neg Bool.false_ne_true, swap] at h
      dsimp only at h
      split_ifs at h
  | pause => exact hhalt .paused h
  | stop => exact hhalt .stopped h
  | seek position =>
    rw [obey] at h ⊢
    rcases engine.seek_cases position with ⟨other, hseek, hrefused⟩ | ⟨target, index, -, -, hok, -⟩
    · rw [hseek] at h ⊢
      cases h
      exact ⟨rfl, hrefused⟩
    · rw [hok] at h
      cases h
  | setTimeline timeline =>
    rw [obey] at h ⊢
    rcases engine.setTimeline_cases timeline with ⟨hrefused, hdestroyed⟩ | ⟨-, hok, -⟩
    · rw [hrefused] at h ⊢
      cases h
      exact ⟨rfl, Or.inl ⟨rfl, hdestroyed⟩⟩
    · rw [hok] at h
      cases h
  | setVolume volume => cases h
  | destroy => cases h

/-- A chunk that is queued changes the queues only. -/
theorem step_push (key : QueueKey) (chunk : Chunk) :
    (engine.step (.push key chunk)).player.deck = engine.player.deck ∧
      (engine.step (.push key chunk)).channel = engine.channel ∧
      (engine.step (.push key chunk)).player.monitor = engine.player.monitor :=
  ⟨engine.player.deck_lockStore, engine.player.channel_lockStore,
    engine.player.monitor_lockStore⟩

end Calls

/-! ### What a step reports -/

/-- What a call reports. -/
def callReport (engine : Engine σ) : Command → List Event
  | .play => engine.turns .playing
  | .pause => engine.turns .paused
  | .stop | .destroy => engine.turns .stopped
  | .seek position =>
    match engine.seek position with
    | (.ok target, after) => [.seeked target after.player.deck.clock.index]
    | (.error _, _) => []
  | .setTimeline _ | .setVolume _ => []

/-- What a step reports. -/
def report (engine : Engine σ) : Action → List Event
  | .call command => engine.callReport command
  | .period locked bytes =>
    engine.player.moves bytes ++ engine.player.monitor.signals (engine.player.levels locked bytes)
  | .push _ _ | .receive => []

section Reports

variable (engine : Engine σ)

/-- A period reports nothing about the transport. -/
theorem topic_of_mem_period (locked : Bool) (bytes : Nat) :
    ∀ event ∈ engine.report (.period locked bytes), event.topic ≠ .transport := by
  intro event hmem
  rcases List.mem_append.mp hmem with hmoved | hsignal
  · rw [engine.player.topic_of_mem_moves bytes event hmoved]
    exact Event.Topic.noConfusion
  · rw [UnderrunMonitor.topic_of_mem_signals _ _ event hsignal]
    exact Event.Topic.noConfusion

theorem callReport_seek {position target : Seconds} {index : Nat}
    (hok : (engine.seek position).1 = .ok target)
    (hsought : Sought engine target index (engine.seek position).2) :
    engine.callReport (.seek position) = [.seeked target index] := by
  have hseek : engine.seek position = (.ok target, (engine.seek position).2) :=
    Prod.ext hok rfl
  rw [callReport, hseek]
  dsimp only
  rw [hsought.deck_eq]
  rfl

theorem callReport_of_refused {position : Seconds} {cause : Fault}
    (hrefused : engine.seek position = (.error cause, engine)) :
    engine.callReport (.seek position) = [] := by
  rw [callReport, hrefused]

/-- The channel after a call. -/
theorem channel_obey (command : Command) :
    (engine.obey command).2.channel = engine.channel.emitAll (engine.callReport command) := by
  cases command with
  | play => exact engine.turned_play.channel_eq
  | pause => exact (engine.turned_halt .paused).channel_eq
  | stop => exact (engine.turned_halt .stopped).channel_eq
  | destroy => exact engine.turned_destroy.channel_eq
  | setVolume volume => rfl
  | seek position =>
    rw [obey]
    rcases engine.seek_cases position with ⟨cause, hseek, -⟩ | ⟨target, index, -, -, hok, hsought⟩
    · rw [engine.callReport_of_refused hseek, hseek]
      rfl
    · rw [engine.callReport_seek hok hsought]
      exact hsought.channel_eq
  | setTimeline timeline =>
    rw [obey]
    rcases engine.setTimeline_cases timeline with ⟨hrefused, -⟩ | ⟨-, -, -, hchannel, -⟩
    · rw [hrefused]
      rfl
    · exact hchannel

/-- The channel after a step that does not receive. -/
theorem channel_step {action : Action} (h : action.isReceive = false) :
    (engine.step action).channel = engine.channel.emitAll (engine.report action) := by
  cases action with
  | receive => cases h
  | call command => exact engine.channel_obey command
  | push key chunk => exact (engine.step_push key chunk).2.1
  | period locked bytes => exact (engine.player.channel_render locked bytes).2

end Reports

/-- Every step takes the oldest waiting event, or sends what it reports. -/
theorem serves_step : EventChannel.Serves (channel (σ := σ)) step Action.isReceive report := by
  intro engine action
  split_ifs with htakes
  · cases action with
    | receive => exact ⟨rfl, rfl⟩
    | _ => cases htakes
  · rw [engine.channel_step (Bool.eq_false_iff.mpr htakes)]
    exact engine.channel.sends_emitAll _

/-- In a run the channel is never found full. -/
def Lossless (engine : Engine σ) (actions : List Action) : Prop :=
  EventChannel.Lossless channel step engine actions

instance (engine : Engine σ) (actions : List Action) : Decidable (engine.Lossless actions) :=
  inferInstanceAs (Decidable (_ = _))

/-- The events that the steps of a run send. -/
def reports (engine : Engine σ) (actions : List Action) : List Event :=
  EventChannel.reports channel step engine actions

/-- A run that loses no event sends what its steps report. -/
theorem reports_eq_gather {engine : Engine σ} (hconnected : engine.channel.connected = true)
    {actions : List Action} (hlossless : engine.Lossless actions) :
    engine.reports actions = gather step report engine actions :=
  serves_step.reports_eq hconnected hlossless

end Engine

end TimelineMixer
