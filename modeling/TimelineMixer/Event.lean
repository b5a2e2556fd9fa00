import TimelineMixer.PlayState
import TimelineMixer.Seconds

/-!
# Events

What playback reports to its consumers, and the bounded channel that carries it. Emitting never
waits: a full channel drops the event and counts it, a closed channel ignores it.
-/

set_option autoImplicit false
set_option relaxedAutoImplicit false

namespace TimelineMixer

/-- Something that happened during playback. -/
inductive Event where
  /-- The transport changed. -/
  | playbackStateChanged (old new : PlayState)
  /-- Another atom is being played. -/
  | atomChanged (index loop : Nat)
  /-- Playback wrapped from the last atom to the first. -/
  | loopWrapped (loop : Nat)
  /-- Too little audio is queued; a request to pause. -/
  | underrunPause (queued threshold : Nat)
  /-- Enough audio is queued again. -/
  | readyToPlay (queued : Nat)
  /-- The clock was moved. -/
  | seeked (position : Seconds) (index : Nat)
  deriving DecidableEq

/-- A bounded channel of events with one receiver. -/
structure EventChannel where
  capacity : Nat
  /-- Events sent and not yet received, oldest first. -/
  waiting : List Event
  /-- Events lost to a full channel. -/
  dropped : Nat
  /-- The receiver is alive. -/
  connected : Bool

namespace EventChannel

/-- The largest capacity of a channel. -/
def maxCapacity : Nat := 0x1fffffffffffffff

/-- A new channel; a capacity of zero, or beyond the largest, is refused. -/
def open? (capacity : Nat) : Option EventChannel :=
  if capacity = 0 ∨ maxCapacity < capacity then none else some ⟨capacity, [], 0, true⟩

/-- Sends an event, and whether it was taken. -/
def emit (channel : EventChannel) (event : Event) : Bool × EventChannel :=
  if ¬ channel.connected then (false, channel)
  else if channel.waiting.length < channel.capacity then
    (true, { channel with waiting := channel.waiting ++ [event] })
  else (false, { channel with dropped := channel.dropped + 1 })

/-- Sends events in order. -/
def emitAll (channel : EventChannel) (events : List Event) : EventChannel :=
  events.foldl (fun channel event ↦ (channel.emit event).2) channel

/-- Takes the oldest waiting event. -/
def receive (channel : EventChannel) : Option Event × EventChannel :=
  match channel.waiting with
  | [] => (none, channel)
  | event :: rest => (some event, { channel with waiting := rest })

/-- Takes every waiting event. -/
def receiveAll (channel : EventChannel) : List Event × EventChannel :=
  (channel.waiting, { channel with waiting := [] })

/-- Drops the receiver and what was waiting for it. -/
def close (channel : EventChannel) : EventChannel :=
  { channel with waiting := [], connected := false }

@[simp] theorem emitAll_nil (channel : EventChannel) : channel.emitAll [] = channel :=
  rfl

@[simp] theorem emitAll_cons (channel : EventChannel) (event : Event) (rest : List Event) :
    channel.emitAll (event :: rest) = (channel.emit event).2.emitAll rest :=
  rfl

theorem emitAll_append (channel : EventChannel) (first second : List Event) :
    channel.emitAll (first ++ second) = (channel.emitAll first).emitAll second :=
  List.foldl_append ..

end EventChannel

end TimelineMixer
