import TimelineMixer.Output.Stream
import TimelineMixer.Player
import TimelineMixer.Settings

/-!
# The engine

Transport control over a player and its output stream. The transport state is changed first, and
only a call that changed it acts on the stream; a repeated call does nothing. Failures of the
stream are recorded and do not undo the change. After `destroy` the transport refuses every call,
while clock, volume and format stay usable.

A call is one step, and nothing is rendered until it returns. A stream that has to be asked for
audio before it is flushed or drained, as a device that plays has, is not asked while the engine
waits for it: a `seek` during playing then records that the flush was incomplete. What such a stream
does with the callbacks that come meanwhile is told of the stream alone.
-/

set_option autoImplicit false
set_option relaxedAutoImplicit false

namespace TimelineMixer

/-- A player with its output stream. -/
structure Engine (σ : Type) where
  player : Player
  stream : σ
  destroyed : Bool
  /-- The name of the output. -/
  name : String
  /-- Queued bytes that make playback sustainable. -/
  minPlayable : Nat
  flushTimeout : Nat
  drainTimeout : Nat

namespace Engine

variable {σ : Type} [OutputStream σ]

/-- Starts a stream, and corks it if it does not start corked. -/
def openCorked (stream : σ) : Reply σ :=
  let started := OutputStream.start stream
  if started.succeeded && !OutputStream.isCorked started.stream then
    let corked := OutputStream.cork started.stream
    { corked with notices := started.notices ++ corked.notices }
  else started

/-- A stopped engine on a stream, or the fault of the stream and the stream as it was left. -/
def new (settings : EngineSettings) (spec : AudioSpec) (stream : σ) (channel : EventChannel) :
    Except (Fault × σ) (Engine σ) :=
  let opened := openCorked stream
  match opened.outcome with
  | .error cause => .error (cause, opened.stream)
  | .ok () =>
    let player := Player.new spec settings.volume channel
      (.new settings.minPlayable settings.debounce)
    .ok
      { player := player.note opened.notices
        stream := opened.stream
        destroyed := false
        name := OutputStream.name opened.stream
        minPlayable := settings.minPlayable
        flushTimeout := settings.flushTimeout
        drainTimeout := settings.drainTimeout }

/-! ### Calls on the stream -/

/-- Makes a call on the stream and records how it fails. -/
def call (engine : Engine σ) (request : σ → Reply σ) (report : Fault → Notice) : Engine σ :=
  let reply := request engine.stream
  let failure := match reply.outcome with
    | .ok () => []
    | .error cause => [report cause]
  { engine with
    stream := reply.stream
    player := engine.player.note (reply.notices ++ failure) }

/-- A flush that ran out of time is less grave than one that failed. -/
def flushNotice : Fault → Notice
  | .timeout what => .flushIncomplete (.timeout what)
  | cause => .flushFailed cause

/-- Flushes the stream. -/
def flush (engine : Engine σ) : Engine σ :=
  engine.call (OutputStream.flush engine.flushTimeout) flushNotice

/-- Closes the stream. -/
def closeStream (engine : Engine σ) : Engine σ :=
  let (stream, notices) := OutputStream.close engine.stream
  { engine with stream, player := engine.player.note notices }

/-! ### Transport -/

/-- Changes the transport, with the state it was in. -/
def swap (engine : Engine σ) (state : PlayState) : PlayState × Engine σ :=
  let (old, deck) := engine.player.deck.swap state
  (old, { engine with player := { engine.player with deck } })

/-- Reports a change of the transport. -/
def emitChange (engine : Engine σ) (old new : PlayState) : Engine σ :=
  { engine with player := engine.player.emit (.playbackStateChanged old new) }

/-- Starts or resumes playing. -/
def play (engine : Engine σ) : Except Fault Unit × Engine σ :=
  if engine.destroyed then (.error .destroyed, engine)
  else
    let (old, engine) := engine.swap .playing
    if old = .playing then (.ok (), engine)
    else (.ok (), (engine.call OutputStream.uncork .uncorkFailed).emitChange old .playing)

/-- Corks the stream and discards what it has not played; the clock keeps its place. -/
def halt (engine : Engine σ) (target : PlayState) : Except Fault Unit × Engine σ :=
  if engine.destroyed then (.error .destroyed, engine)
  else
    let (old, engine) := engine.swap target
    if old = target then (.ok (), engine)
    else
      (.ok (), (engine.call OutputStream.cork .corkFailed).flush.emitChange old target)

/-- Halts in the state `paused`. -/
def pause (engine : Engine σ) : Except Fault Unit × Engine σ :=
  engine.halt .paused

/-- Halts in the state `stopped`. -/
def stop (engine : Engine σ) : Except Fault Unit × Engine σ :=
  engine.halt .stopped

/-- Waits for the stream to play what it holds. -/
def drain (engine : Engine σ) : Engine σ :=
  engine.call (OutputStream.drain engine.drainTimeout) .teardownDrainFailed

/-- Stops, waiting for the rest to be played if playing, and releases the stream for good. -/
def destroy (engine : Engine σ) : Engine σ :=
  if engine.destroyed then engine
  else
    let (old, engine) := { engine with destroyed := true }.swap .stopped
    let engine := if old = .playing then engine.drain else engine
    let engine := (engine.call OutputStream.cork .teardownCorkFailed).closeStream
    if old = .stopped then engine else engine.emitChange old .stopped

/-! ### Position and timeline -/

/-- The index of the atom to play from at a time: the atom that contains it, else the first that
starts no earlier, else the first of all. -/
def seekIndex (timeline : Timeline) (target : Seconds) : Nat :=
  ((timeline.indexAt? target).or
    (timeline.atoms.findIdx? fun atom ↦ target ≤ atom.start)).getD 0

/-- Drops everything that is queued. -/
def clearQueues (engine : Engine σ) : Engine σ :=
  { engine with player := engine.player.withStore fun _ ↦ .empty }

/-- Moves the clock to a time, clamped to the timeline. Queued audio is discarded, and the stream is
flushed with no callback meanwhile. -/
def seek (engine : Engine σ) (position : Seconds) : Except Fault Seconds × Engine σ :=
  if engine.destroyed then (.error .destroyed, engine)
  else
    let timeline := engine.player.deck.timeline
    match timeline.start?, timeline.stop? with
    | some start, some stop =>
      let target := min (max position start) stop
      let index := seekIndex timeline target
      let engine := engine.clearQueues
      let player := { engine.player with deck := engine.player.deck.seek index target }
      let engine := { engine with player }.flush
      (.ok target, { engine with player := engine.player.emit (.seeked target index) })
    | _, _ => (.error (.timeline .emptySeek), engine)

/-- Shows another timeline from its beginning and drops everything that is queued. -/
def setTimeline (engine : Engine σ) (timeline : Timeline) : Except Fault Unit × Engine σ :=
  if engine.destroyed then (.error .destroyed, engine)
  else
    let engine := engine.clearQueues
    let player := { engine.player with deck := engine.player.deck.publish timeline }
    (.ok (), { engine with player })

/-! ### Volume, format and readiness -/

/-- Sets the volume to a usable value. -/
def setVolume (engine : Engine σ) (volume : Float32) : Engine σ :=
  { engine with player :=
      { engine.player with deck := engine.player.deck.setVolume volume } }

/-- Changes the format that the clock counts in. The stream is not told. -/
def setSpec (engine : Engine σ) (spec : AudioSpec) : Engine σ :=
  { engine with player := { engine.player with deck := engine.player.deck.setSpec spec } }

/-- The queues are ready, as last seen while rendering. -/
def isReady (engine : Engine σ) : Bool :=
  engine.player.monitor.flag

/-- The queues hold enough to go on playing. -/
def hasPlayableQueue (engine : Engine σ) : Bool :=
  engine.minPlayable ≤ engine.player.store.total

end Engine

end TimelineMixer
