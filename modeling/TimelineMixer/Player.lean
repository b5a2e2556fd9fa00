import TimelineMixer.Deck
import TimelineMixer.MasterVolume
import TimelineMixer.Mix
import TimelineMixer.UnderrunMonitor

/-!
# The player

A player is a deck together with the queues it mixes from, its event channel, its underrun monitor
and its counters. `renderSamples` produces one period: it chooses the atom, mixes its layers,
checks the queues, applies the volume and counts the bytes on the clock. It always produces exactly
what was asked for, and falls back to silence.
-/

set_option autoImplicit false
set_option relaxedAutoImplicit false

namespace TimelineMixer

/-- Counters of the render path. -/
structure RenderStats where
  callbacks : Nat
  /-- Periods without anything to mix. -/
  silent : Nat
  /-- Periods in which a queue ran dry. -/
  starved : Nat
  /-- Periods in which the queues were locked. -/
  contended : Nat
  /-- Periods silenced because of garbage. -/
  corrupted : Nat
  bytes : Nat
  deriving DecidableEq

/-- Counters at zero. -/
def RenderStats.zero : RenderStats :=
  ⟨0, 0, 0, 0, 0, 0⟩

/-- A playback session as the render path sees it. -/
structure Player where
  deck : Deck
  store : LayerStore
  /-- A thread failed while it held the lock of the queues. -/
  poisoned : Bool
  channel : EventChannel
  monitor : UnderrunMonitor
  stats : RenderStats
  /-- What was recorded, oldest first. -/
  journal : List Notice

namespace Player

/-- A stopped player with empty queues. -/
def new (spec : AudioSpec) (volume : Float32) (channel : EventChannel)
    (monitor : UnderrunMonitor) : Player :=
  ⟨.new spec volume, .empty, false, channel, monitor, .zero, []⟩

/-- Records notices. -/
def note (player : Player) (notices : List Notice) : Player :=
  { player with journal := player.journal ++ notices }

/-- Sends an event. -/
def emit (player : Player) (event : Event) : Player :=
  { player with channel := (player.channel.emit event).2 }

/-- Locks the queues. Whoever does so after a failure records it. -/
def lockStore (player : Player) : Player :=
  if player.poisoned then player.note [.queueLockPoisoned] else player

/-- Changes the queues under their lock. -/
def withStore (player : Player) (change : LayerStore → LayerStore) : Player :=
  let player := player.lockStore
  { player with store := change player.store }

/-- Queues a chunk. -/
def push (player : Player) (key : QueueKey) (chunk : Chunk) : Player :=
  player.withStore fun store ↦ store.push key chunk

/-! ### Rendering -/

/-- Counts a period without anything to mix. -/
def countSilent (player : Player) : Player :=
  { player with stats := { player.stats with silent := player.stats.silent + 1 } }

/-- Compares the queued bytes with the threshold. -/
def checkQueues (player : Player) : Player :=
  let check := player.monitor.check player.store.total
  { player with
    monitor := check.monitor
    channel := player.channel.emitAll check.events
    journal := player.journal ++ check.notices }

/-- Mixes the layers of an atom into silence and checks what is left in the queues. -/
def mix (player : Player) (atom : Atom) (silence : List Float32) : List Float32 × Player :=
  let current := player.deck.time
  let next := current + player.deck.spec.duration (Sample.width * silence.length)
  let frame := mixFrame player.store silence atom current next player.deck.clock.loop
    player.deck.spec
  let starved := player.stats.starved + if frame.starved = 0 then 0 else 1
  (frame.out, checkQueues
    { player with store := frame.store, stats := { player.stats with starved } })

/-- Applies the volume to a mixed period. -/
def scale (player : Player) (out : List Float32) : List Float32 × Player :=
  let scaled := applyVolume out player.deck.volume
  let corrupted := player.stats.corrupted + if scaled.level.isNone then 1 else 0
  (scaled.out,
    { player with
      stats := { player.stats with corrupted }
      journal := player.journal ++ scaled.notices })

/-- Moves the clock to the atom of a period, and reports the move. -/
def chooseAtom (player : Player) (bytes : Nat) : Option Atom × Player :=
  let (selection, deck) := player.deck.select bytes
  (selection.atom,
    { player with
      deck
      channel := player.channel.emitAll selection.events
      journal := player.journal ++ selection.notices })

/-- A period of a playing transport. With the queues locked by someone else it is silent. -/
def playPeriod (player : Player) (locked : Bool) (silence : List Float32) :
    List Float32 × Player :=
  match player.chooseAtom (Sample.width * silence.length) with
  | (some atom, player) =>
    if atom.layers.isEmpty then (silence, player.countSilent)
    else if locked then
      let contended := player.stats.contended + 1
      scale { player with stats := { player.stats with contended } } silence
    else
      let (out, player) := player.mix atom silence
      player.scale out
  | (none, player) => (silence, player.countSilent)

/-- Counts the bytes of a period on the clock. -/
def finishPeriod (player : Player) (bytes : Nat) : Player :=
  { player with
    deck := player.deck.advance bytes
    stats := { player.stats with bytes := player.stats.bytes + bytes } }

/-- Produces a period of some samples. -/
def renderSamples (player : Player) (locked : Bool) (count : Nat) : List Float32 × Player :=
  let silence := List.replicate count 0
  let callbacks := player.stats.callbacks + 1
  let player := { player with stats := { player.stats with callbacks } }
  let (out, player) :=
    if player.deck.transport = .playing then player.playPeriod locked silence
    else (silence, player.countSilent)
  (out, player.finishPeriod (Sample.width * count))

/-- Produces a period of some bytes. Bytes beyond the last whole sample are zero. -/
def render (player : Player) (locked : Bool) (bytes : Nat) : List UInt8 × Player :=
  let (out, player) := player.renderSamples locked (bytes / Sample.width)
  (Sample.encode out ++ List.replicate (bytes % Sample.width) 0, player)

end Player

end TimelineMixer
