import TimelineMixer.Event
import TimelineMixer.Notice

/-!
# Underrun monitor

The monitor compares the queued bytes with a threshold after each period. Several checks in a row
below the threshold make it not ready and raise one request to pause; one check at the threshold
or above makes it ready again and raises one report. It never pauses anything itself.
-/

set_option autoImplicit false
set_option relaxedAutoImplicit false

namespace TimelineMixer

/-- A change of readiness. -/
inductive ReadinessChange where
  | underrun
  | recovered
  deriving DecidableEq

/-- The readiness of the queues. -/
structure UnderrunMonitor where
  threshold : Nat
  /-- Checks in a row below the threshold that make an underrun. -/
  debounce : Nat
  /-- Checks in a row below the threshold so far. -/
  below : Nat
  ready : Bool
  /-- The readiness shown to control threads. -/
  flag : Bool
  deriving DecidableEq

/-- The monitor after a check and what the check reports. -/
structure UnderrunCheck where
  monitor : UnderrunMonitor
  change : Option ReadinessChange
  events : List Event
  notices : List Notice

namespace UnderrunMonitor

/-- A ready monitor; a debounce of zero checks counts as one. -/
def new (threshold debounce : Nat) : UnderrunMonitor :=
  ⟨threshold, max debounce 1, 0, true, true⟩

/-- Sets the readiness and what is shown of it. -/
def setReady (monitor : UnderrunMonitor) (ready : Bool) : UnderrunMonitor :=
  { monitor with ready, flag := ready }

/-- Counts a check below the threshold; the count stops at 32 bits. -/
def countBelow (monitor : UnderrunMonitor) : UnderrunMonitor :=
  { monitor with below := min (monitor.below + 1) 0xffffffff }

/-- Compares queued bytes with the threshold. -/
def check (monitor : UnderrunMonitor) (queued : Nat) : UnderrunCheck :=
  if queued < monitor.threshold then
    let counted := monitor.countBelow
    if counted.ready ∧ counted.debounce ≤ counted.below then
      { monitor := counted.setReady false
        change := some .underrun
        events := [.underrunPause queued monitor.threshold]
        notices := [.underrun queued monitor.threshold] }
    else ⟨counted, none, [], []⟩
  else
    let cleared := { monitor with below := 0 }
    if cleared.ready then ⟨cleared, none, [], []⟩
    else
      { monitor := cleared.setReady true
        change := some .recovered
        events := [.readyToPlay queued]
        notices := [] }

end UnderrunMonitor

end TimelineMixer
