import TimelineMixer.Clock
import TimelineMixer.Event
import TimelineMixer.Timeline

/-!
# Choosing the atom of a period

Before a period is mixed, the clock moves to the first atom that covers the end of the period. Past
the last atom it wraps to time zero of the first, at most once; a period longer than the whole
timeline stays at the last atom. A wrap and a change of atom are reported, in this order.
-/

set_option autoImplicit false
set_option relaxedAutoImplicit false

namespace TimelineMixer

/-- A clock on its way across the ends of atoms. -/
structure Crossing where
  clock : Clock
  /-- Ends crossed so far. -/
  steps : Nat
  wrapped : Bool
  /-- A second wrap would have been needed. -/
  deferred : Bool

/-- The atom chosen for a period and what choosing it changed. -/
structure Selection where
  atom : Option Atom
  clock : Clock
  events : List Event
  notices : List Notice

namespace Timeline

/-- Crosses ends of atoms, at most as many as the bound says, until the period fits. -/
def cross (timeline : Timeline) (spec : AudioSpec) (request : Seconds) :
    Nat → Crossing → Crossing
  | 0, crossing => crossing
  | bound + 1, crossing =>
    match timeline.atoms[crossing.clock.index]? with
    | none => crossing
    | some atom =>
      if crossing.clock.time spec + request ≤ atom.stop then crossing
      else if crossing.clock.index + 1 = timeline.length then
        if crossing.wrapped then { crossing with deferred := true }
        else
          timeline.cross spec request bound
            { crossing with
              clock := crossing.clock.wrap, steps := crossing.steps + 1, wrapped := true }
      else
        timeline.cross spec request bound
          { crossing with clock := crossing.clock.nextAtom, steps := crossing.steps + 1 }

/-- The clock of a period that begins at an atom of the timeline; an index beyond the last atom
stands for the first. -/
def entry (timeline : Timeline) (clock : Clock) : Clock :=
  if clock.index < timeline.length then clock else { clock with index := 0 }

/-- Crosses from a clock. No atom is visited more often than once before and once after the wrap. -/
def crossFrom (timeline : Timeline) (clock : Clock) (spec : AudioSpec) (request : Seconds) :
    Crossing :=
  timeline.cross spec request (2 * timeline.length) ⟨timeline.entry clock, 0, false, false⟩

/-- The reports of a crossing. -/
def crossingEvents (crossing : Crossing) : List Event :=
  (if crossing.wrapped then [.loopWrapped crossing.clock.loop] else []) ++
    if crossing.steps = 0 then [] else [.atomChanged crossing.clock.index crossing.clock.loop]

/-- What is recorded about a crossing. -/
def crossingNotices (timeline : Timeline) (clock : Clock) (request : Seconds)
    (crossing : Crossing) : List Notice :=
  (if clock.index < timeline.length then []
    else [.indexOutOfRange clock.index timeline.length]) ++
  if crossing.deferred then [.requestTooLong request] else []

/-- The selection that a crossing makes. -/
def selectCrossing (timeline : Timeline) (clock : Clock) (spec : AudioSpec)
    (request : Seconds) : Selection :=
  let crossing := timeline.crossFrom clock spec request
  { atom := timeline.atoms[crossing.clock.index]?
    clock := crossing.clock
    events := crossingEvents crossing
    notices := timeline.crossingNotices clock request crossing }

/-- The atom for a period of some bytes. A period inside the current atom changes nothing. -/
def select (timeline : Timeline) (clock : Clock) (spec : AudioSpec) (bytes : Nat) : Selection :=
  let request := spec.duration bytes
  if timeline.length = 0 then ⟨none, clock, [], []⟩
  else
    match timeline.atoms[clock.index]? with
    | some atom =>
      if clock.time spec + request ≤ atom.stop then ⟨some atom, clock, [], []⟩
      else timeline.selectCrossing clock spec request
    | none => timeline.selectCrossing clock spec request

end Timeline

end TimelineMixer
