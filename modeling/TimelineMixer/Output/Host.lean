import TimelineMixer.Fault
import TimelineMixer.Notice

/-!
# Sound hosts

What a device output depends on: the devices of a host and how its calls turn out. Each kind of
call is answered by its number, so a host can fail at any point of a session.
-/

set_option autoImplicit false
set_option relaxedAutoImplicit false

namespace TimelineMixer

/-- What a host is asked to do with a stream that it has built. -/
inductive StreamCommand where
  | play
  | pause
  deriving DecidableEq

/-- How many calls of each kind a host has answered. -/
structure HostCalls where
  build : Nat
  play : Nat
  pause : Nat
  deriving DecidableEq

namespace HostCalls

/-- How often a command was given. -/
def given (calls : HostCalls) : StreamCommand → Nat
  | .play => calls.play
  | .pause => calls.pause

/-- One more command. -/
def count (calls : HostCalls) : StreamCommand → HostCalls
  | .play => { calls with play := calls.play + 1 }
  | .pause => { calls with pause := calls.pause + 1 }

@[simp] theorem given_count_self (calls : HostCalls) (command : StreamCommand) :
    (calls.count command).given command = calls.given command + 1 := by
  cases command with
  | play => rfl
  | pause => rfl

theorem given_count_of_ne (calls : HostCalls) {command other : StreamCommand}
    (h : other ≠ command) : (calls.count command).given other = calls.given other := by
  cases command with
  | play => cases other with
    | play => exact absurd rfl h
    | pause => rfl
  | pause => cases other with
    | play => rfl
    | pause => exact absurd rfl h

end HostCalls

/-- A host with its devices. Call number `n` of a kind, counted from zero, fails for the reason
given for `n`. -/
structure SoundHost where
  /-- Device names in order, some of them unreadable. -/
  devices : List (Option String)
  /-- The name of the default device, if there is a default device. -/
  default? : Option (Option String)
  /-- Why devices cannot be listed. -/
  listFault : Option String
  buildFault : Nat → Option String
  playFault : Nat → Option String
  pauseFault : Nat → Option String

namespace SoundHost

/-- Why a command fails that was given some times before. -/
def fault (host : SoundHost) : StreamCommand → Nat → Option String
  | .play => host.playFault
  | .pause => host.pauseFault

/-- A host without devices. -/
def none : SoundHost :=
  ⟨[], .none, .none, fun _ ↦ .none, fun _ ↦ .none, fun _ ↦ .none⟩

/-- The names of the devices, without the unreadable ones. -/
def deviceNames (host : SoundHost) : Except Fault (List String) :=
  match host.listFault with
  | some reason => .error (.output (.enumerate reason))
  | .none => .ok (host.devices.filterMap id)

/-- The default device. -/
def chooseDefault (host : SoundHost) : Except Fault String :=
  match host.default? with
  | some name => .ok (name.getD "Unknown")
  | .none => .error (.output .noDefaultDevice)

/-- The requested device, or the default one if it is missing or none was requested. -/
def choose (host : SoundHost) (requested : Option String) : Except Fault String × List Notice :=
  match requested with
  | .none => (host.chooseDefault, [])
  | some name =>
    match host.deviceNames with
    | .error cause => (.error cause, [])
    | .ok names =>
      if name ∈ names then (.ok name, []) else (host.chooseDefault, [.deviceMissing name])

end SoundHost

end TimelineMixer
