import TimelineMixer.PlayState
import TimelineMixer.Selection

/-!
# The deck

The state of one playback session that control calls and the render path share: clock, transport,
volume, stream format and timeline.
-/

set_option autoImplicit false
set_option relaxedAutoImplicit false

namespace TimelineMixer

/-- Shared state of a session. -/
structure Deck where
  clock : Clock
  transport : PlayState
  volume : Float32
  format : SpecCell
  timeline : Timeline

namespace Deck

/-- A stopped deck at time zero, without atoms. -/
def new (spec : AudioSpec) (volume : Float32) : Deck :=
  ⟨.zero, .stopped, Sample.positivePart volume, .new spec, .empty⟩

/-- The stream format. -/
def spec (deck : Deck) : AudioSpec :=
  deck.format.load

/-- The time the clock shows. -/
def time (deck : Deck) : Seconds :=
  deck.clock.time deck.spec

/-- Counts bytes as sent to the device. -/
def advance (deck : Deck) (bytes : Nat) : Deck :=
  { deck with clock := deck.clock.advance bytes }

/-- Puts the clock at a time in an atom. -/
def seek (deck : Deck) (index : Nat) (position : Seconds) : Deck :=
  { deck with clock := deck.clock.seek index position }

/-- Puts the clock at the beginning. -/
def rewind (deck : Deck) : Deck :=
  { deck with clock := .zero }

/-- Changes the transport, with the state it was in. -/
def swap (deck : Deck) (state : PlayState) : PlayState × Deck :=
  (deck.transport, { deck with transport := state })

/-- Sets the volume to a usable value. -/
def setVolume (deck : Deck) (volume : Float32) : Deck :=
  { deck with volume := Sample.positivePart volume }

/-- Changes the format; the bytes counted so far become part of the starting time. -/
def setSpec (deck : Deck) (spec : AudioSpec) : Deck :=
  { deck with clock := deck.clock.fold deck.spec, format := deck.format.store spec }

/-- Shows another timeline from its beginning. -/
def publish (deck : Deck) (timeline : Timeline) : Deck :=
  { deck with timeline, clock := .zero }

/-- The atom for a period, and the deck with its clock moved there. -/
def select (deck : Deck) (bytes : Nat) : Selection × Deck :=
  let selection := deck.timeline.select deck.clock deck.spec bytes
  (selection, { deck with clock := selection.clock })

@[simp] theorem spec_setSpec (deck : Deck) (spec : AudioSpec) :
    (deck.setSpec spec).spec = spec := by
  simp [setSpec, Deck.spec]

end Deck

end TimelineMixer
