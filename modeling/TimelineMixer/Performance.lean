import TimelineMixer.Controller
import TimelineMixer.Output

/-!
# Performances

A session in real time on an output that has no device. Time goes on in ticks: in each the queues
are filled, the periods due are pulled, and the controller handles what has happened.
-/

set_option autoImplicit false
set_option relaxedAutoImplicit false

namespace TimelineMixer

/-- A session in real time. -/
structure Performance where
  session : Session Output
  /-- Frames pulled at a time. -/
  period : Nat
  /-- Seconds to play for; without them the performance has no end of its own. -/
  duration : Option Nat

namespace Performance

/-- How far ahead of the clock the queues are filled, in milliseconds. -/
def lead : Int := 500

/-- Milliseconds between two ticks. -/
def tickLength : Nat := 20

/-- Shows a timeline on an engine, fills its queues and plays. -/
def begin (engine : Engine Output) (timeline : Timeline) (settings : Settings)
    (duration : Option Nat) : Performance :=
  let engine := (engine.setTimeline timeline).2
  let producer := ToneProducer.new (.ofMillis lead) settings.audio.period
  let session := (Session.new engine producer settings.engine.autoResume).fill.2
  ⟨{ session with engine := session.engine.play.2 }, settings.audio.period, duration⟩

/-- The number of periods that begin before a time in milliseconds. -/
def periodsBefore (performance : Performance) (time : Nat) : Nat :=
  let rate := performance.session.engine.player.deck.spec.rate.toNat
  let unit := 1000 * performance.period
  (time * rate + unit - 1) / unit

/-- Pulls periods from the output. -/
def pull (performance : Performance) : Nat → Performance
  | 0 => performance
  | count + 1 =>
    let session := performance.session
    let engine := session.engine
    let bytes := performance.period * engine.player.deck.spec.frameBytes
    let (_, stream, player) := engine.stream.pull engine.player false bytes
    pull { performance with
      session := { session with engine := { engine with stream, player } } } count

/-- Lets a tick pass. -/
def tick (performance : Performance) : Performance :=
  let filled := { performance with session := performance.session.fill.2 }
  let now := filled.session.now
  let due := filled.periodsBefore (now + tickLength) - filled.periodsBefore now
  let pulled := filled.pull due
  { pulled with session := pulled.session.sleep tickLength }

/-- The time to play for is over. -/
def isOver (performance : Performance) : Bool :=
  performance.duration.any fun seconds ↦ 1000 * seconds ≤ performance.session.now

/-- Tears the engine down. -/
def finish (performance : Performance) : Performance :=
  let session := performance.session
  { performance with session := { session with engine := session.engine.destroy } }

/-- The notices taken since they were last taken. -/
def takeNotices (performance : Performance) : List Notice × Performance :=
  let session := performance.session
  let player := session.engine.player
  (player.journal,
    { performance with session := { session with engine := { session.engine with
      player := { player with journal := [] } } } })

end Performance

end TimelineMixer
