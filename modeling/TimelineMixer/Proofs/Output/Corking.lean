import TimelineMixer.Proofs.Ledger
import TimelineMixer.Proofs.Output.Callbacks

/-!
# The cork flag of a device output

The cork flag is written on the control side, and the device is paused and resumed by a host that
may refuse. Between calls the host delivers callbacks, reports errors, and the player is changed
(`DeviceSession.Call`). What the device accepted is read off the numbers and the answers of the
host's calls (`DeviceOutput.accepted`), not off the flag.

A call does one of six things (`DeviceOutput.Change`, `DeviceSession.change_step`). By induction
over the calls the flag tells, while a stream is open, what the device accepted last, and it is set
from the release of a stream until the next one is opened (`DeviceSession.tracked_run`). A flush
that is requested meanwhile stays pending until a callback is delivered
(`DeviceSession.pending_run`), and that callback does not see what the ring held
(`DeviceSession.answer_discardRing`).
-/

set_option autoImplicit false
set_option relaxedAutoImplicit false

namespace TimelineMixer

/-- The beginning or the end of a stream. -/
inductive DeviceTurn where
  | opened
  | closed
  deriving DecidableEq

namespace DeviceOutput

/-- What the device accepted between two states: the commands that were given, of which the host
keeps count, unless the host refused them. No call gives both. -/
def accepted (before after : DeviceOutput) : List StreamCommand :=
  [.pause, .play].filter fun command ↦ before.calls.given command < after.calls.given command ∧
    before.host.fault command (before.calls.given command) = none

/-- Between two states a command was given once, and the other was not. -/
def GivenOnce (before after : DeviceOutput) (command : StreamCommand) : Prop :=
  ∀ other, after.calls.given other = (before.calls.count command).given other

/-! ### What a call does to the flag and the device -/

/-- A call leaves the flag and the stream as they are, opens a stream, has it paused or played,
releases it, or finds none to release. Only a call that leaves them may have failed. -/
inductive Change (before : DeviceOutput) (reply : Reply DeviceOutput) : List DeviceTurn → Prop
  | kept (corked : reply.stream.corked = before.corked)
      (playing : reply.stream.playing? = before.playing?)
      (accepted : before.accepted reply.stream = []) : Change before reply []
  | opened (ok : reply.outcome = .ok ()) (closed : before.playing? = none)
      (corked : reply.stream.corked = true) (playing : reply.stream.playing? = some false)
      (accepted : before.accepted reply.stream = [.pause]) : Change before reply [.opened]
  | paused (ok : reply.outcome = .ok ()) (opened : before.playing?.isSome)
      (corked : reply.stream.corked = true) (playing : reply.stream.playing? = some false)
      (accepted : before.accepted reply.stream = [.pause]) : Change before reply []
  | played (ok : reply.outcome = .ok ()) (opened : before.playing?.isSome)
      (corked : reply.stream.corked = false) (playing : reply.stream.playing? = some true)
      (accepted : before.accepted reply.stream = [.play]) : Change before reply []
  | released (ok : reply.outcome = .ok ()) (opened : before.playing?.isSome)
      (corked : reply.stream.corked = true) (playing : reply.stream.playing? = none)
      (accepted : before.accepted reply.stream = []) : Change before reply [.closed]
  | idle (ok : reply.outcome = .ok ()) (closed : before.playing? = none)
      (corked : reply.stream.corked = before.corked) (playing : reply.stream.playing? = none)
      (accepted : before.accepted reply.stream = []) : Change before reply [.closed]

namespace Change

variable {before : DeviceOutput} {reply : Reply DeviceOutput} {turns : List DeviceTurn}
  (h : before.Change reply turns)

include h

/-- A call that fails leaves the flag as it was. -/
theorem corked_eq_of_failed (hfailed : reply.outcome ≠ .ok ()) :
    reply.stream.corked = before.corked := by
  cases h with
  | kept corked => exact corked
  | opened ok => exact absurd ok hfailed
  | paused ok => exact absurd ok hfailed
  | played ok => exact absurd ok hfailed
  | released ok => exact absurd ok hfailed
  | idle ok => exact absurd ok hfailed

/-- Only a device that accepts to play begins to. -/
theorem not_playing_of_not_mem (hplaying : before.playing? ≠ some true)
    (hplay : .play ∉ before.accepted reply.stream) : reply.stream.playing? ≠ some true := by
  cases h with
  | kept _ playing => rwa [playing]
  | opened _ _ _ playing => simp [playing]
  | paused _ _ _ playing => simp [playing]
  | played _ _ _ _ accepted => simp [accepted] at hplay
  | released _ _ _ playing => simp [playing]
  | idle _ _ _ playing => simp [playing]

end Change

section Commands

variable {before after : DeviceOutput} {command : StreamCommand}

theorem accepted_of_none_given
    (h : ∀ other, after.calls.given other = before.calls.given other) :
    before.accepted after = [] := by
  simp [accepted, h]

theorem GivenOnce.accepted_of_refused (h : before.GivenOnce after command) {reason : String}
    (hfault : before.host.fault command (before.calls.given command) = some reason) :
    before.accepted after = [] := by
  refine List.filter_eq_nil_iff.mpr fun other _ ↦ ?_
  by_cases hself : other = command
  · simp [hself, hfault]
  · have hother := (h other).trans (before.calls.given_count_of_ne hself)
    simp [hother]

theorem GivenOnce.accepted_of_obeyed (h : before.GivenOnce after command)
    (hfault : before.host.fault command (before.calls.given command) = none) :
    before.accepted after = [command] := by
  have hplay := h .play
  have hpause := h .pause
  cases command with
  | play => simp [accepted, hplay, hpause, hfault, before.calls.given_count_of_ne]
  | pause => simp [accepted, hplay, hpause, hfault, before.calls.given_count_of_ne]

end Commands

theorem Keeps.change {before : DeviceOutput} {reply : Reply DeviceOutput}
    (h : before.Keeps reply.stream) : before.Change reply [] :=
  .kept h.corked_eq h.playing_eq
    (accepted_of_none_given fun command ↦ congrArg (HostCalls.given · command) h.calls_eq)

section Calls

variable {output : DeviceOutput} {command : StreamCommand}

theorem call_of_refused {reason : String}
    (h : output.host.fault command (output.calls.given command) = some reason) :
    output.call command = (some reason, output.count command) := by
  rw [call, h]

theorem call_of_obeyed (h : output.host.fault command (output.calls.given command) = none) :
    output.call command = (none, (output.count command).setPlaying (command = .play)) := by
  rw [call, h]

theorem change_of_stream_eq {reply : Reply DeviceOutput} (h : reply.stream = output) :
    output.Change reply [] ∧ reply.stream.signals = output.signals := by
  rw [h]
  exact ⟨.kept (congrArg _ h) (congrArg _ h) (accepted_of_none_given fun _ ↦ h ▸ rfl), rfl⟩

theorem given_callBuild (other : StreamCommand) :
    output.callBuild.2.calls.given other = output.calls.given other := by
  cases other with
  | play => rfl
  | pause => rfl

/-- A new stream is open only if the host could build and pause it. -/
theorem change_openOn (hclosed : output.stream? = none) (name : String) (notices : List Notice) :
    output.Change { output.openOn name with notices }
      (if (output.openOn name).succeeded then [.opened] else []) ∧
      (output.openOn name).stream.signals = output.signals := by
  have hgiven : output.GivenOnce (output.callBuild.2.count .pause) .pause := fun other ↦ by
    cases other with
    | play => exact given_callBuild .play
    | pause => exact congrArg (· + 1) (given_callBuild .pause)
  cases hbuild : output.host.buildFault output.calls.build with
  | some reason =>
    have hrefused : output.openOn name = .failOutput output.callBuild.2 (.build reason) := by
      simp [openOn, callBuild, hbuild]
    rw [hrefused]
    exact ⟨.kept rfl rfl (accepted_of_none_given given_callBuild), rfl⟩
  | none =>
    have hbuilt : output.callBuild = (none, output.callBuild.2) := by rw [callBuild, hbuild]
    cases hpause : output.host.fault .pause (output.calls.given .pause) with
    | some reason =>
      have hcall : output.callBuild.2.call .pause =
          (some reason, output.callBuild.2.count .pause) := call_of_refused hpause
      have hrefused : output.openOn name =
          .failOutput (output.callBuild.2.count .pause) (.pauseNew reason) := by
        rw [openOn, hbuilt]
        dsimp only
        rw [hcall]
      rw [hrefused]
      exact ⟨.kept rfl rfl (hgiven.accepted_of_refused hpause), rfl⟩
    | none =>
      have hcall : output.callBuild.2.call .pause =
          (none, (output.callBuild.2.count .pause).setPlaying false) := call_of_obeyed hpause
      have hopened : output.openOn name = .ok { output.callBuild.2.count .pause with
          name, corked := true, stream? := some ⟨output.newRing, false⟩ } := by
        rw [openOn, hbuilt]
        dsimp only
        rw [hcall]
        rfl
      rw [hopened]
      exact ⟨.opened rfl (playing?_of_closed hclosed) rfl rfl
        (hgiven.accepted_of_obeyed hpause), rfl⟩

theorem change_start :
    output.Change output.start (if output.start.succeeded then [.opened] else []) ∧
      output.start.stream.signals = output.signals := by
  cases hopen : output.stream? with
  | some stream =>
    have hstart : output.start = .failOutput output .alreadyStarted := by simp [start, hopen]
    rw [hstart]
    exact change_of_stream_eq rfl
  | none =>
    cases hchoice : output.host.choose output.requested with
    | mk choice notices =>
      cases choice with
      | error cause =>
        have hstart : output.start = ⟨.error cause, output, notices⟩ := by
          simp [start, hopen, hchoice]
        rw [hstart]
        exact change_of_stream_eq rfl
      | ok name =>
        have hstart : output.start = { output.openOn name with notices } := by
          simp [start, hopen, hchoice]
        rw [hstart]
        exact change_openOn hopen name notices

/-- A command that is sent finds no stream, is refused, or has the stream play or not. -/
inductive Sent (before : DeviceOutput) (command : StreamCommand) : Reply DeviceOutput → Prop
  | unopened (closed : before.stream? = none) : Sent before command (.failOutput before .notStarted)
  | refused (reason : String) (accepted : before.accepted (before.count command) = []) :
      Sent before command (.failOutput (before.count command) (command.refusal reason))
  | obeyed {after : DeviceOutput} (opened : before.playing?.isSome)
      (corked : after.corked = before.corked)
      (playing : after.playing? = some (decide (command = .play)))
      (signals : after.signals = before.signals) (accepted : before.accepted after = [command]) :
      Sent before command (.ok after)

theorem sent_send (output : DeviceOutput) (command : StreamCommand) :
    output.Sent command (output.send command) := by
  cases hopen : output.stream? with
  | none =>
    have hsend : output.send command = .failOutput output .notStarted := by simp [send, hopen]
    rw [hsend]
    exact .unopened hopen
  | some stream =>
    cases hfault : output.host.fault command (output.calls.given command) with
    | some reason =>
      have hsend : output.send command =
          .failOutput (output.count command) (command.refusal reason) := by
        simp [send, hopen, call_of_refused hfault]
      have hgiven : output.GivenOnce (output.count command) command := fun _ ↦ rfl
      rw [hsend]
      exact .refused reason (hgiven.accepted_of_refused hfault)
    | none =>
      have hsend : output.send command =
          .ok ((output.count command).setPlaying (command = .play)) := by
        simp [send, hopen, call_of_obeyed hfault]
      have hgiven : output.GivenOnce
        ((output.count command).setPlaying (command = .play)) command := fun _ ↦ rfl
      rw [hsend]
      refine .obeyed ?_ rfl ?_ rfl (hgiven.accepted_of_obeyed hfault)
      · rw [playing?_of_open hopen]
        rfl
      · simp [playing?, setPlaying, count, hopen]

/-- The flag is written once the device has paused. -/
theorem change_cork :
    output.Change output.cork [] ∧ output.cork.stream.signals = output.signals := by
  rw [cork]
  by_cases hcorked : output.corked = true
  · rw [if_pos hcorked]
    exact change_of_stream_eq rfl
  rw [if_neg hcorked]
  have hsent := output.sent_send .pause
  generalize output.send .pause = reply at hsent ⊢
  cases hsent with
  | unopened closed => exact change_of_stream_eq rfl
  | refused reason accepted => exact ⟨.kept rfl rfl accepted, rfl⟩
  | obeyed opened corked playing signals accepted =>
    exact ⟨.paused rfl opened rfl playing accepted, signals⟩

/-- The flag that is written before the device is asked is written back if that fails. -/
theorem change_uncork :
    output.Change output.uncork [] ∧ output.uncork.stream.signals = output.signals := by
  rw [uncork]
  by_cases hcorked : output.corked = true
  swap
  · rw [if_pos hcorked]
    exact change_of_stream_eq rfl
  rw [if_neg (not_not.mpr hcorked)]
  have hsent := (output.setCorked false).sent_send .play
  generalize (output.setCorked false).send .play = reply at hsent ⊢
  cases hsent with
  | unopened closed => exact ⟨.kept hcorked.symm rfl (accepted_of_none_given fun _ ↦ rfl), rfl⟩
  | refused reason accepted => exact ⟨.kept hcorked.symm rfl accepted, rfl⟩
  | obeyed opened corked playing signals accepted =>
    exact ⟨.played rfl opened corked playing accepted, signals⟩

theorem change_close :
    output.Change ⟨.ok (), output.close.1, output.close.2⟩ [.closed] ∧
      output.close.1.signals = output.signals := by
  cases hopen : output.stream? with
  | none =>
    have hclose : output.close = (output, []) := by simp [close, hopen]
    rw [hclose]
    exact ⟨.idle rfl (playing?_of_closed hopen) rfl (playing?_of_closed hopen)
      (accepted_of_none_given fun _ ↦ rfl), rfl⟩
  | some stream =>
    have hclose : output.close.1 = { output with stream? := none, corked := true } := by
      simp [close, hopen]
    rw [hclose]
    exact ⟨.released rfl (by rw [playing?_of_open hopen]; rfl) rfl rfl
      (accepted_of_none_given fun _ ↦ rfl), rfl⟩

end Calls

end DeviceOutput

/-! ### Sessions -/

/-- A device output and the player that it renders from. -/
structure DeviceSession where
  output : DeviceOutput
  player : Player

namespace DeviceSession

/-- What happens to an output. -/
inductive Call where
  | start
  | cork
  | uncork
  /-- A flush while callbacks of some length come. -/
  | flush (wanted count : Nat)
  /-- A drain while callbacks of some length come. -/
  | drain (wanted count : Nat)
  | close
  /-- Callbacks of some length come between the calls. -/
  | callbacks (wanted count : Nat)
  /-- The device reports an error. -/
  | reportError (reason : String)
  /-- The player is changed from outside. -/
  | control (change : Player → Player)

/-- What a call answers: the buffers of the callbacks, the reply and the player after it. -/
def answer (session : DeviceSession) :
    Call → List (Option (List Float32)) × Reply DeviceOutput × Player
  | .start => ([], session.output.start, session.player)
  | .cork => ([], session.output.cork, session.player)
  | .uncork => ([], session.output.uncork, session.player)
  | .flush wanted count => session.output.flushDuring session.player wanted count
  | .drain wanted count => session.output.drainDuring session.player wanted count
  | .close => ([], ⟨.ok (), session.output.close.1, session.output.close.2⟩, session.player)
  | .callbacks wanted count =>
    let (buffers, output, player) := DeviceOutput.writes session.player wanted session.output count
    (buffers, .ok output, player)
  | .reportError reason =>
    let (_, output, notices) := session.output.reportError reason
    ([], ⟨.ok (), output, notices⟩, session.player)
  | .control change => ([], .ok session.output, change session.player)

/-- One call. -/
def step (session : DeviceSession) (call : Call) : DeviceSession :=
  ⟨(session.answer call).2.1.stream, (session.answer call).2.2⟩

/-- Calls one after the other. -/
def run (session : DeviceSession) (calls : List Call) : DeviceSession :=
  calls.foldl step session

/-- The output is corked. -/
def isCorked (session : DeviceSession) : Bool :=
  OutputStream.isCorked session.output

/-- How a call turns out. -/
def outcome (session : DeviceSession) (call : Call) : Except Fault Unit :=
  (session.answer call).2.1.outcome

/-- The buffers that the device fetches during a call. -/
def stepDelivered (session : DeviceSession) (call : Call) : List (List Float32) :=
  (session.answer call).1.reduceOption

/-- The commands that the device accepts during a call. -/
def stepAccepted (session : DeviceSession) (call : Call) : List StreamCommand :=
  session.output.accepted (session.step call).output

/-- A start that succeeds opens a stream, and a call to close leaves none. -/
def stepTurns (session : DeviceSession) : Call → List DeviceTurn
  | .start => if session.output.start.succeeded then [.opened] else []
  | .close => [.closed]
  | _ => []

/-- All buffers that the device fetches in a run. -/
def delivered : DeviceSession → List Call → List (List Float32) :=
  gather step stepDelivered

/-- All commands that the device accepts in a run. -/
def accepted : DeviceSession → List Call → List StreamCommand :=
  gather step stepAccepted

/-- The starts that succeed in a run, and the calls to close. -/
def turns : DeviceSession → List Call → List DeviceTurn :=
  gather step stepTurns

/-- The session with nothing in the ring. -/
def discardRing (session : DeviceSession) : DeviceSession :=
  { session with output := session.output.discardRing }

/-! ### One call -/

section Step

variable {session : DeviceSession}

theorem output_step_flush (session : DeviceSession) (wanted count : Nat) :
    (session.step (.flush wanted count)).output =
      (DeviceOutput.writes session.player wanted session.output.requestFlush count).2.1 :=
  DeviceOutput.stream_flushDuring session.player wanted count

theorem output_step_drain (session : DeviceSession) (wanted count : Nat) :
    (session.step (.drain wanted count)).output =
      (DeviceOutput.writes session.player wanted
        (session.output.setDraining ¬ session.output.isDrained) count).2.1.setDraining false :=
  DeviceOutput.stream_drainDuring session.player wanted count

/-- The step lemma: what a call does to the flag and the device. -/
theorem change_step (session : DeviceSession) (call : Call) :
    session.output.Change (session.answer call).2.1 (session.stepTurns call) := by
  cases call with
  | start => exact DeviceOutput.change_start.1
  | cork => exact DeviceOutput.change_cork.1
  | uncork => exact DeviceOutput.change_uncork.1
  | flush wanted count => exact (DeviceOutput.keeps_flushDuring _ wanted count).change
  | drain wanted count => exact (DeviceOutput.keeps_drainDuring _ wanted count).change
  | close => exact DeviceOutput.change_close.1
  | callbacks wanted count => exact (DeviceOutput.keeps_writes _ wanted _ count).change
  | reportError reason => exact (DeviceOutput.keeps_reportError reason).1.change
  | control change =>
    have hkeeps : session.output.Keeps session.output := ⟨rfl, rfl, rfl⟩
    exact hkeeps.change

/-- A call that fails leaves the flag as it was. -/
theorem corked_step_of_failed {call : Call} (h : session.outcome call ≠ .ok ()) :
    (session.step call).output.corked = session.output.corked :=
  (session.change_step call).corked_eq_of_failed h

/-- A flush while no callbacks can come. -/
theorem flush_of_quiet (hquiet : session.output.isQuiet = true)
    (hplaying : session.output.playing? ≠ some true) (wanted count : Nat) :
    session.outcome (.flush wanted count) = .ok () ∧
      session.stepDelivered (.flush wanted count) = [] ∧
      (session.step (.flush wanted count)).output = session.output.requestFlush := by
  have hanswer : session.answer (.flush wanted count) =
      (List.replicate count none, .ok session.output.requestFlush, session.player) :=
    DeviceOutput.flushDuring_of_quiet session.player wanted count hquiet hplaying
  rw [outcome, stepDelivered, step, hanswer]
  exact ⟨rfl, List.reduceOption_replicate_none, rfl⟩

/-- What a call does to the requests to flush. -/
theorem honours_step (session : DeviceSession) (call : Call) :
    DeviceOutput.Honours session.output.signals (session.step call).output.signals
      (session.stepDelivered call) := by
  have hquiet : session.stepDelivered call = [] →
      (session.step call).output.signals = session.output.signals →
      DeviceOutput.Honours session.output.signals (session.step call).output.signals
        (session.stepDelivered call) := fun hnone hsame ↦
    .waits hnone (congrArg PlayoutSignals.flushDone hsame)
      (congrArg PlayoutSignals.flushRequested hsame).ge
  cases call with
  | start => exact hquiet rfl DeviceOutput.change_start.2
  | cork => exact hquiet rfl DeviceOutput.change_cork.2
  | uncork => exact hquiet rfl DeviceOutput.change_uncork.2
  | flush wanted count =>
    rw [output_step_flush]
    cases DeviceOutput.honours_writes session.player wanted session.output.requestFlush count with
    | waits hnone hdone hrequested => exact .waits hnone hdone (Nat.le_of_succ_le hrequested)
    | honours hsome hdone => exact .honours hsome hdone
  | drain wanted count =>
    rw [output_step_drain]
    cases DeviceOutput.honours_writes session.player wanted
      (session.output.setDraining ¬ session.output.isDrained) count with
    | waits hnone hdone hrequested => exact .waits hnone hdone hrequested
    | honours hsome hdone => exact .honours hsome hdone
  | close => exact hquiet rfl DeviceOutput.change_close.2
  | callbacks wanted count => exact DeviceOutput.honours_writes session.player wanted _ count
  | reportError reason => exact hquiet rfl (DeviceOutput.keeps_reportError reason).2
  | control change => exact hquiet rfl rfl

/-- Callbacks are delivered only while the stream plays. -/
theorem playing_of_stepDelivered {call : Call} (h : session.stepDelivered call ≠ []) :
    session.output.playing? = some true := by
  cases call with
  | flush wanted count =>
    have hplaying : session.output.requestFlush.playing? = some true :=
      (DeviceOutput.playing_of_delivered session.player wanted h).1
    exact hplaying
  | drain wanted count =>
    have hplaying : (session.output.setDraining ¬ session.output.isDrained).playing? = some true :=
      (DeviceOutput.playing_of_delivered session.player wanted h).1
    exact hplaying
  | callbacks wanted count => exact (DeviceOutput.playing_of_delivered session.player wanted h).1
  | start | cork | uncork | close | reportError _ | control _ => exact absurd rfl h

/-- A call during which a callback is delivered while a flush is pending does what it does with an
empty ring. -/
theorem answer_discardRing (hpending : session.output.Pending) {call : Call}
    (h : session.stepDelivered call ≠ []) :
    session.discardRing.answer call = session.answer call := by
  cases call with
  | flush wanted count =>
    have hrequested : session.output.requestFlush.Pending := Nat.lt_succ_of_lt hpending
    have hwrites : DeviceOutput.writes session.player wanted session.output.discardRing.requestFlush
        count = DeviceOutput.writes session.player wanted session.output.requestFlush count :=
      DeviceOutput.writes_discardRing session.player wanted hrequested h
    change session.output.discardRing.flushDuring session.player wanted count =
      session.output.flushDuring session.player wanted count
    rw [DeviceOutput.flushDuring, DeviceOutput.flushDuring, hwrites]
  | drain wanted count =>
    have hstill : (session.output.setDraining ¬ session.output.isDrained).Pending := hpending
    have hdrained : session.output.discardRing.isDrained = session.output.isDrained := by
      rw [DeviceOutput.isDrained, DeviceOutput.isDrained, DeviceOutput.isQuiet,
        DeviceOutput.isQuiet, DeviceOutput.discardRing, Option.isNone_map]
    have hwrites : DeviceOutput.writes session.player wanted
        (session.output.discardRing.setDraining ¬ session.output.isDrained) count =
          DeviceOutput.writes session.player wanted
            (session.output.setDraining ¬ session.output.isDrained) count :=
      DeviceOutput.writes_discardRing session.player wanted hstill h
    change session.output.discardRing.drainDuring session.player wanted count =
      session.output.drainDuring session.player wanted count
    rw [DeviceOutput.drainDuring, DeviceOutput.drainDuring, hdrained, hwrites]
  | callbacks wanted count =>
    have hwrites : DeviceOutput.writes session.player wanted session.output.discardRing count =
        DeviceOutput.writes session.player wanted session.output count :=
      DeviceOutput.writes_discardRing session.player wanted hpending h
    exact congrArg (fun served ↦ (served.1, Reply.ok served.2.1, served.2.2)) hwrites
  | start | cork | uncork | close | reportError _ | control _ => exact absurd rfl h

end Step

/-! ### Any calls -/

/-- What holds after some calls: the stream that is open plays unless the flag is set, the flag
tells what the device accepted last, and without a stream whether there has been one. -/
structure Tracked (turns : List DeviceTurn) (accepted : List StreamCommand)
    (output : DeviceOutput) : Prop where
  playing_eq : output.playing? =
    if turns.getLast? = some .opened then some (!output.corked) else none
  opened_iff : turns.getLast? = some .opened →
    (output.corked = true ↔ accepted.getLast? = some .pause)
  closed_iff : turns.getLast? ≠ some .opened → (output.corked = true ↔ .opened ∈ turns)

namespace Tracked

variable {turns : List DeviceTurn} {accepted : List StreamCommand} {output : DeviceOutput}
  (h : Tracked turns accepted output)

include h

theorem isSome_playing_iff : output.playing?.isSome ↔ turns.getLast? = some .opened := by
  rw [h.playing_eq]
  by_cases hopened : turns.getLast? = some .opened
  · simp [hopened]
  · simp [hopened]

theorem playing_iff :
    output.playing? = some true ↔ turns.getLast? = some .opened ∧ output.corked = false := by
  rw [h.playing_eq]
  by_cases hopened : turns.getLast? = some .opened
  · simp [hopened]
  · simp [hopened]

/-- The output waits for no callbacks if the flag is set or no stream is open. -/
theorem isQuiet_iff :
    output.isQuiet = true ↔ output.corked = true ∨ turns.getLast? ≠ some .opened := by
  rw [DeviceOutput.isQuiet, Bool.or_eq_true, ne_eq, ← h.isSome_playing_iff, DeviceOutput.playing?,
    Option.isSome_map, Option.isNone_iff_eq_none, Option.not_isSome_iff_eq_none]

/-- What a call makes of it. -/
theorem change {reply : Reply DeviceOutput} {more : List DeviceTurn}
    (hchange : output.Change reply more) :
    Tracked (turns ++ more) (accepted ++ output.accepted reply.stream) reply.stream := by
  have hlast := h.isSome_playing_iff
  cases hchange with
  | kept hcorked hplaying haccepted =>
    rw [haccepted, List.append_nil, List.append_nil]
    refine ⟨?_, ?_, ?_⟩
    · rw [hplaying, hcorked, h.playing_eq]
    · rw [hcorked]
      exact h.opened_iff
    · rw [hcorked]
      exact h.closed_iff
  | opened _ hclosed hcorked hplaying haccepted =>
    rw [haccepted]
    refine ⟨?_, ?_, ?_⟩
    · simp [hplaying, hcorked]
    · simp [hcorked]
    · simp
  | paused _ hopened hcorked hplaying haccepted =>
    have hlast := hlast.mp hopened
    rw [haccepted, List.append_nil]
    refine ⟨?_, ?_, ?_⟩
    · simp [hplaying, hcorked, hlast]
    · simp [hcorked]
    · exact fun h ↦ absurd hlast h
  | played _ hopened hcorked hplaying haccepted =>
    have hlast := hlast.mp hopened
    rw [haccepted, List.append_nil]
    refine ⟨?_, ?_, ?_⟩
    · simp [hplaying, hcorked, hlast]
    · simp [hcorked]
    · exact fun h ↦ absurd hlast h
  | released _ hopened hcorked hplaying haccepted =>
    have hmem : .opened ∈ turns := List.mem_of_getLast? (hlast.mp hopened)
    rw [haccepted, List.append_nil]
    refine ⟨?_, ?_, ?_⟩
    · simp [hplaying]
    · simp
    · simp [hcorked, hmem]
  | idle _ hclosed hcorked hplaying haccepted =>
    have hlast : turns.getLast? ≠ some .opened := fun hopened ↦ by
      simpa [hclosed] using hlast.mpr hopened
    rw [haccepted, List.append_nil]
    refine ⟨?_, ?_, ?_⟩
    · simp [hplaying]
    · simp
    · simp [hcorked, h.closed_iff hlast]

end Tracked

section Run

variable (session : DeviceSession)

theorem run_concat (calls : List Call) (call : Call) :
    session.run (calls ++ [call]) = (session.run calls).step call :=
  List.foldl_concat ..

/-- By induction over the calls: the last request that was honoured is one that was made. -/
theorem done_le_run (h : session.output.signals.flushDone ≤ session.output.signals.flushRequested)
    (calls : List Call) :
    let signals := (session.run calls).output.signals
    signals.flushDone ≤ signals.flushRequested := by
  induction calls using List.reverseRecOn with
  | nil => exact h
  | append_singleton calls call ih =>
    rw [run_concat]
    cases (session.run calls).honours_step call with
    | waits _ hdone hrequested => exact (hdone.le.trans ih).trans hrequested
    | honours _ hdone => exact hdone.le

/-- By induction over the calls: until a callback is delivered a request to flush stays pending. -/
theorem pending_run {session : DeviceSession} (h : session.output.Pending) {calls : List Call}
    (hnone : delivered session calls = []) : (session.run calls).output.Pending := by
  induction calls using List.reverseRecOn with
  | nil => exact h
  | append_singleton calls call ih =>
    rw [delivered, gather_concat, List.append_eq_nil_iff] at hnone
    have hpending := ih hnone.1
    rw [run_concat]
    cases (session.run calls).honours_step call with
    | waits _ hdone hrequested => exact (hdone.trans_lt hpending).trans_le hrequested
    | honours hsome => exact absurd hnone.2 hsome

/-- By induction over the calls: a stream that does not play begins to only if the device accepts
that. -/
theorem not_playing_run {session : DeviceSession} (h : session.output.playing? ≠ some true)
    {calls : List Call} (hplay : .play ∉ accepted session calls) :
    (session.run calls).output.playing? ≠ some true := by
  induction calls using List.reverseRecOn with
  | nil => exact h
  | append_singleton calls call ih =>
    rw [accepted, gather_concat, List.mem_append, not_or] at hplay
    rw [run_concat]
    exact ((session.run calls).change_step call).not_playing_of_not_mem (ih hplay.1) hplay.2

/-- The first callback that is delivered after a request to flush comes after the device has
accepted to play, and does not see what the ring held. -/
theorem answer_run_discardRing {session : DeviceSession} (hpending : session.output.Pending)
    (hplaying : session.output.playing? ≠ some true) {later : List Call}
    (hnone : delivered session later = []) {call : Call} :
    let waiting := session.run later
    waiting.stepDelivered call ≠ [] →
      .play ∈ accepted session later ∧ waiting.discardRing.answer call = waiting.answer call ∧
        ¬ (waiting.step call).output.Pending := by
  intro waiting hsome
  refine ⟨?_, answer_discardRing (pending_run hpending hnone) hsome, ?_⟩
  · by_contra hplay
    exact not_playing_run hplaying hplay (playing_of_stepDelivered hsome)
  · cases waiting.honours_step call with
    | waits hnone => exact absurd hnone hsome
    | honours _ hdone => exact hdone.not_lt

/-- By induction over the calls: the flag and the stream are those that the turns and the accepted
commands tell of. -/
theorem tracked_run (h : Tracked [] [] session.output) (calls : List Call) :
    Tracked (turns session calls) (accepted session calls) (session.run calls).output := by
  induction calls using List.reverseRecOn with
  | nil => exact h
  | append_singleton calls call ih =>
    rw [turns, gather_concat, accepted, gather_concat, run_concat]
    exact ih.change ((session.run calls).change_step call)

end Run

/-- Whatever the host refuses: while a stream is open the flag is set exactly if the device accepted
to pause last; from its release until another one is opened the flag stays set; before the first
one it is not. A call that fails leaves it as it was, and so does every flush and every drain. The
device fetches samples exactly while a stream is open and the flag is not set.

A flush of a corked output succeeds at once and is counted. Until a callback is delivered it stays
pending, whatever is called, and there is none before the device has accepted to play. The call
during which the first one is delivered answers as if the ring had been empty, and leaves no flush
pending. -/
theorem corked_iff_paused_last (host : SoundHost) (requested : Option String) (spec : AudioSpec)
    (period playout : Nat) (player : Player) (calls : List Call) :
    let fresh : DeviceSession := ⟨.new host requested spec period playout, player⟩
    let session := fresh.run calls
    let last := (turns fresh calls).getLast?
    ((last = some .opened →
        (session.isCorked = true ↔ (accepted fresh calls).getLast? = some .pause)) ∧
      (last = some .closed → .opened ∈ turns fresh calls → session.isCorked = true) ∧
      (.opened ∉ turns fresh calls → session.isCorked = false)) ∧
    ((∀ call, session.outcome call ≠ .ok () →
        (session.step call).isCorked = session.isCorked) ∧
      ∀ wanted count,
        (session.step (.flush wanted count)).isCorked = session.isCorked ∧
        (session.step (.drain wanted count)).isCorked = session.isCorked ∧
        (session.stepDelivered (.callbacks wanted count)).length =
          if last = some .opened ∧ session.isCorked = false then count else 0) ∧
    (session.isCorked = true ∨ last ≠ some .opened → ∀ wanted count,
      let deferred := session.step (.flush wanted count)
      (session.outcome (.flush wanted count) = .ok () ∧
        session.stepDelivered (.flush wanted count) = [] ∧
        deferred.output.signals.flushRequested = session.output.signals.flushRequested + 1) ∧
      ∀ later, delivered deferred later = [] →
        let waiting := deferred.run later
        waiting.output.Pending ∧
        ∀ call, waiting.stepDelivered call ≠ [] →
          .play ∈ accepted deferred later ∧
          waiting.discardRing.answer call = waiting.answer call ∧
          ¬ (waiting.step call).output.Pending) := by
  intro fresh session last
  have htracked : Tracked (turns fresh calls) (accepted fresh calls) session.output :=
    fresh.tracked_run ⟨rfl, by simp, by simp [fresh, DeviceOutput.new]⟩ calls
  refine ⟨⟨htracked.opened_iff, fun hclosed hmem ↦ ?_, fun hnone ↦ ?_⟩,
    ⟨fun call ↦ corked_step_of_failed, fun wanted count ↦ ⟨?_, ?_, ?_⟩⟩,
    fun hdeferred wanted count ↦ ?_⟩
  · have hlast : last ≠ some .opened := by simp [last, hclosed]
    exact (htracked.closed_iff hlast).mpr hmem
  · have hlast : last ≠ some .opened := fun hopened ↦ hnone (List.mem_of_getLast? hopened)
    exact Bool.eq_false_iff.mpr fun hcorked ↦ hnone ((htracked.closed_iff hlast).mp hcorked)
  · exact (DeviceOutput.keeps_flushDuring _ wanted count).corked_eq
  · exact (DeviceOutput.keeps_drainDuring _ wanted count).corked_eq
  · have hlength :=
      DeviceOutput.length_delivered_writes session.player wanted session.output count
    simp only [htracked.playing_iff] at hlength
    exact hlength
  · intro deferred
    have hplaying : session.output.playing? ≠ some true := fun hplaying ↦ by
      obtain ⟨hopened, hcorked⟩ := htracked.playing_iff.mp hplaying
      rcases hdeferred with hset | hclosed
      · exact absurd (hcorked.symm.trans hset) Bool.false_ne_true
      · exact hclosed hopened
    have hdone : session.output.signals.flushDone ≤ session.output.signals.flushRequested :=
      fresh.done_le_run le_rfl calls
    obtain ⟨hok, hundelivered, houtput⟩ :=
      flush_of_quiet (htracked.isQuiet_iff.mpr hdeferred) hplaying wanted count
    have hpending : deferred.output.Pending := by
      rw [houtput]
      exact Nat.lt_succ_of_le hdone
    have hstill : deferred.output.playing? ≠ some true := by
      rw [houtput]
      exact hplaying
    refine ⟨⟨hok, hundelivered, ?_⟩, fun later hnone ↦ ⟨pending_run hpending hnone, fun call ↦
      answer_run_discardRing hpending hstill hnone⟩⟩
    rw [houtput]
    rfl

/-- The host cannot build the first stream nor the third, and refuses the first request to play and
the second to pause. A sample that waits in the ring is flushed while the output is corked. After
the stream is released another start fails. -/
theorem corked_iff_paused_last_refused :
    let host : SoundHost :=
      { SoundHost.none with
        default? := some (some "speaker")
        buildFault := fun call ↦ if call = 1 then none else some "busy"
        playFault := fun call ↦ if call = 0 then some "asleep" else none
        pauseFault := fun call ↦ if call = 1 then some "stuck" else none }
    let player := Player.new .standard 1 ⟨64, [], 0, true⟩ (.new 0 1)
    let fresh : DeviceSession := ⟨.new host none .standard 2 4, player⟩
    let opened : List Call := [.start, .start, .uncork, .uncork, .callbacks 3 1]
    let corked : List Call := opened ++ [.cork, .cork]
    let released : List Call := corked ++ [.close, .uncork, .start]
    let deferred := (fresh.run corked).step (.flush 3 1)
    let later : List Call := [.drain 3 1, .uncork]
    let waiting := deferred.run later
    ((turns fresh corked).getLast? = some .opened ∧
      (accepted fresh corked).getLast? = some .pause ∧ (fresh.run corked).isCorked = true) ∧
    ((turns fresh released).getLast? = some .closed ∧ .opened ∈ turns fresh released ∧
      (fresh.run released).isCorked = true) ∧
    (.opened ∉ turns fresh [.start] ∧ (fresh.run [.start]).isCorked = false) ∧
    ((fresh.run opened).outcome .cork ≠ .ok () ∧
      ((fresh.run opened).step .cork).isCorked = (fresh.run opened).isCorked) ∧
    (delivered deferred later = [] ∧ waiting.output.stream?.any (·.ring.waiting.length = 1) ∧
      waiting.stepDelivered (.callbacks 3 1) ≠ []) ∧
    .play ∈ accepted deferred later ∧
      waiting.discardRing.answer (.callbacks 3 1) = waiting.answer (.callbacks 3 1) := by
  intro host player fresh opened corked released deferred later waiting
  have hopened : (turns fresh corked).getLast? = some .opened := by decide +kernel
  have hpaused : (accepted fresh corked).getLast? = some .pause := by decide +kernel
  have hclosed : (turns fresh released).getLast? = some .closed := by decide +kernel
  have hmem : .opened ∈ turns fresh released := by decide +kernel
  have hnone : .opened ∉ turns fresh [.start] := by decide +kernel
  have hrefused : (fresh.run opened).outcome .cork ≠ .ok () := fun hok ↦ by
    have hfailed : ((fresh.run opened).outcome .cork).isOk = false := by decide +kernel
    rw [hok] at hfailed
    cases hfailed
  have hquiet : delivered deferred later = [] := List.isEmpty_iff.mp (by decide +kernel)
  have hring : waiting.output.stream?.any (·.ring.waiting.length = 1) := by decide +kernel
  have hsome : waiting.stepDelivered (.callbacks 3 1) ≠ [] :=
    List.isEmpty_eq_false_iff.mp (by decide +kernel)
  have hheld := corked_iff_paused_last host none .standard 2 4 player
  have hset := ((hheld corked).1.1 hopened).mpr hpaused
  have hflush := ((hheld corked).2.2 (.inl hset) 3 1).2 later hquiet
  obtain ⟨hplay, hanswer, -⟩ := hflush.2 (.callbacks 3 1) hsome
  exact ⟨⟨hopened, hpaused, hset⟩, ⟨hclosed, hmem, (hheld released).1.2.1 hclosed hmem⟩,
    ⟨hnone, (hheld [.start]).1.2.2 hnone⟩, ⟨hrefused, (hheld opened).2.1.1 .cork hrefused⟩,
    ⟨hquiet, hring, hsome⟩, hplay, hanswer⟩

end DeviceSession

end TimelineMixer
