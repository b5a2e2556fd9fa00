import TimelineMixer.AudioSpec

/-!
# The playback clock

The clock counts the bytes sent to the device since a starting time. The time it shows is that
start plus the exact length of the bytes.
-/

set_option autoImplicit false
set_option relaxedAutoImplicit false

namespace TimelineMixer

/-- Position of playback. -/
structure Clock where
  /-- Index of the atom being played. -/
  index : Nat
  /-- The time shown when counting began. -/
  start : Seconds
  /-- Bytes sent since then. -/
  bytes : Nat
  /-- Wraps from the last atom to the first. -/
  loop : Nat
  deriving DecidableEq

namespace Clock

/-- The first atom at time zero. -/
def zero : Clock :=
  ⟨0, 0, 0, 0⟩

/-- The time the clock shows. -/
def time (clock : Clock) (spec : AudioSpec) : Seconds :=
  clock.start + spec.duration clock.bytes

/-- Counts bytes as sent; the count stops at 64 bits. -/
def advance (clock : Clock) (bytes : Nat) : Clock :=
  { clock with bytes := min (clock.bytes + bytes) 0xffffffffffffffff }

/-- Puts the clock at a time in an atom of the same loop. -/
def seek (clock : Clock) (index : Nat) (position : Seconds) : Clock :=
  { clock with index, start := position, bytes := 0 }

/-- Takes the bytes counted in one format into the starting time. -/
def fold (clock : Clock) (spec : AudioSpec) : Clock :=
  { clock with start := clock.time spec, bytes := 0 }

/-- Back to time zero in the first atom, one loop further. -/
def wrap (clock : Clock) : Clock :=
  { index := 0, start := 0, bytes := 0, loop := clock.loop + 1 }

/-- Into the next atom, at the same time. -/
def nextAtom (clock : Clock) : Clock :=
  { clock with index := clock.index + 1 }

end Clock

end TimelineMixer
