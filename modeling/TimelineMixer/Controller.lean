import TimelineMixer.Engine
import TimelineMixer.ToneProducer

/-!
# The controller

The controller consumes the engine's events. It pauses on an underrun, keeps the producer in step,
and, if that is wanted, resumes once the queues have recovered. A `Session` is an engine with its
producer and controller in time: events are handled as soon as they wait, and while the controller
has paused for an underrun the queues are polled at regular times.
-/

set_option autoImplicit false
set_option relaxedAutoImplicit false

namespace TimelineMixer

/-- What the controller remembers. -/
structure Controller where
  autoResume : Bool
  /-- The controller paused for an underrun and nobody has resumed. -/
  paused : Bool
  deriving DecidableEq

/-- An engine with its producer and controller. -/
structure Session (σ : Type) where
  engine : Engine σ
  producer : ToneProducer
  controller : Controller
  /-- Milliseconds since the session began. -/
  now : Nat
  /-- The time of the next poll. -/
  nextPoll : Nat

namespace Session

variable {σ : Type} [OutputStream σ]

/-- Milliseconds between two polls. -/
def pollPeriod : Nat := 100

/-- A session at its beginning. -/
def new (engine : Engine σ) (producer : ToneProducer) (autoResume : Bool) : Session σ :=
  ⟨engine, producer, ⟨autoResume, false⟩, 0, 0⟩

/-- Records a notice. -/
def note (session : Session σ) (notice : Notice) : Session σ :=
  { session with engine :=
      { session.engine with player := session.engine.player.note [notice] } }

/-- Remembers whether playback is paused for an underrun. -/
def setPaused (session : Session σ) (paused : Bool) : Session σ :=
  { session with controller := { session.controller with paused } }

/-- Makes a transport call, and whether it succeeded; a failure is recorded. -/
def transport (session : Session σ)
    (call : Engine σ → Except Fault Unit × Engine σ) : Bool × Session σ :=
  match call session.engine with
  | (.ok (), engine) => (true, { session with engine })
  | (.error cause, engine) => (false, { session with engine }.note (.transportFailed cause))

/-- Pauses a playing engine because of an underrun. -/
def pauseForUnderrun (session : Session σ) (queued threshold : Nat) : Session σ :=
  let session := session.note (.pausingOnUnderrun queued threshold)
  if session.engine.player.deck.transport = .playing then
    let (success, session) := session.transport Engine.pause
    if success then session.setPaused true else session
  else session

/-- Handles an event. -/
def handle (session : Session σ) (event : Event) : Session σ :=
  let (producer, player) := session.producer.handle session.engine.player event
  let session := { session with producer, engine := { session.engine with player } }
  match event with
  | .underrunPause queued threshold => session.pauseForUnderrun queued threshold
  | .playbackStateChanged _ .playing => session.setPaused false
  | _ => session

/-- The controller waits for the queues to recover. -/
def polls (session : Session σ) : Bool :=
  session.controller.paused && session.controller.autoResume

/-- Resumes if the queues have recovered. -/
def poll (session : Session σ) : Session σ :=
  let session :=
    { session with engine :=
        { session.engine with player := session.engine.player.lockStore } }
  if session.engine.hasPlayableQueue then
    let (success, session) := session.transport Engine.play
    if success then session.setPaused false else session
  else session

/-- Receives and handles waiting events, at most as many as the bound says. -/
def handleWaiting : Nat → Session σ → Session σ
  | 0, session => session
  | bound + 1, session =>
    match session.engine.player.channel.receive with
    | (none, _) => session
    | (some event, channel) =>
      let player := { session.engine.player with channel }
      handleWaiting bound
        ({ session with engine := { session.engine with player } }.handle event)

/-- Handles every waiting event. Pausing emits one event more, and happens once at most. -/
def settle (session : Session σ) : Session σ :=
  handleWaiting (session.engine.player.channel.waiting.length + 2) session

/-- The time of the next poll before a deadline; a poll that is overdue happens now. -/
def pollDue (session : Session σ) (deadline : Nat) : Option Nat :=
  if ¬ session.polls then none
  else if session.nextPoll ≤ session.now then some session.now
  else if session.nextPoll < deadline then some session.nextPoll
  else none

/-- Polls until a deadline, at most as often as the bound says. -/
def pollUntil (deadline : Nat) : Nat → Session σ → Session σ
  | 0, session => session
  | bound + 1, session =>
    match session.pollDue deadline with
    | none => session
    | some now =>
      let next := session.nextPoll + pollPeriod
      pollUntil deadline bound { session with now, nextPoll := next }.poll.settle

/-- Lets milliseconds pass. -/
def sleep (session : Session σ) (milliseconds : Nat) : Session σ :=
  let deadline := session.now + milliseconds
  let session := session.settle
  let bound := (deadline + pollPeriod - session.nextPoll) / pollPeriod + 1
  { pollUntil deadline bound session with now := deadline }

/-- Lets the producer fill the queues, with the number of bytes. -/
def fill (session : Session σ) : Nat × Session σ :=
  let (bytes, producer, player) := session.producer.fill session.engine.player
  (bytes, { session with producer, engine := { session.engine with player } })

end Session

end TimelineMixer
