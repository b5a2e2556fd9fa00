import Mathlib.Data.List.DropRight
import TimelineMixer.Proofs.Player.Reports

/-!
# Readiness in closed form

The monitor counts checks below its threshold up to the largest word, remembers whether it is ready
and shows that to others. All three are functions of one number, the length of the run of low checks
at the end (`UnderrunMonitor.reading`): the count is that length up to the largest word, and the
monitor is ready exactly if the run is shorter than the debounce. The step lemma is
`UnderrunMonitor.check_reading`; by induction it gives the monitor after any checks
(`UnderrunMonitor.checkAll_new`).

A check reports a change exactly if the run reaches the debounce or ends after it has, so the
reports of a monitor alternate, whatever becomes of them on the channel
(`UnderrunMonitor.ready_iff_lowRun_lt`).
-/

set_option autoImplicit false
set_option relaxedAutoImplicit false

namespace TimelineMixer

namespace ReadinessChange

/-- The event that reports a change. -/
def event (queued threshold : Nat) : ReadinessChange → Event
  | underrun => .underrunPause queued threshold
  | recovered => .readyToPlay queued

/-- What is recorded of a change. -/
def notices (queued threshold : Nat) : ReadinessChange → List Notice
  | underrun => [.underrun queued threshold]
  | recovered => []

/-- The change from one readiness to another. -/
def between : Bool → Bool → Option ReadinessChange
  | true, false => some underrun
  | false, true => some recovered
  | _, _ => none

/-- Changes that lead from one readiness to another: there is an underrun only where there was
readiness, and a recovery only where there was none. -/
def Alternates : Bool → List ReadinessChange → Bool → Prop
  | first, [], last => first = last
  | first, change :: rest, last => change = (if first then underrun else recovered) ∧
      Alternates (!first) rest last

theorem between_eq_some_underrun_iff {before after : Bool} :
    between before after = some underrun ↔ before = true ∧ after = false := by
  cases before <;> cases after <;> simp [between]

theorem between_eq_some_recovered_iff {before after : Bool} :
    between before after = some recovered ↔ before = false ∧ after = true := by
  cases before <;> cases after <;> simp [between]

theorem Alternates.concat {first middle : Bool} {changes : List ReadinessChange}
    (h : Alternates first changes middle) (last : Bool) :
    Alternates first (changes ++ (between middle last).toList) last := by
  induction changes generalizing first with
  | nil =>
    obtain rfl : first = middle := h
    cases first <;> cases last <;> simp [between, Alternates]
  | cons change rest ih => exact ⟨h.1, ih h.2⟩

end ReadinessChange

/-- The change of readiness that an event reports. -/
def Event.readinessChange? : Event → Option ReadinessChange
  | .underrunPause .. => some .underrun
  | .readyToPlay .. => some .recovered
  | _ => none

namespace UnderrunMonitor

open ReadinessChange

/-- The length of the run of levels below a threshold at the end of some levels. -/
def lowRun (threshold : Nat) (levels : List Nat) : Nat :=
  (levels.rtakeWhile (· < threshold)).length

theorem lowRun_concat (threshold level : Nat) (levels : List Nat) :
    lowRun threshold (levels ++ [level]) =
      if level < threshold then lowRun threshold levels + 1 else 0 := by
  rw [lowRun, List.rtakeWhile_concat]
  by_cases hlow : level < threshold
  · simp [hlow, lowRun]
  · simp [hlow]

/-- The monitor whose last run of low checks has a length. -/
def reading (threshold debounce run : Nat) : UnderrunMonitor where
  threshold
  debounce := max debounce 1
  below := min run 0xffffffff
  ready := run < max debounce 1
  flag := run < max debounce 1

variable {debounce : Nat} (hdebounce : debounce ≤ 0xffffffff) (threshold : Nat)

include hdebounce in
/-- A check makes the run longer by one or ends it, and reports what that changes. -/
theorem check_reading (run level : Nat) :
    let next := if level < threshold then run + 1 else 0
    let change := between (run < max debounce 1) (next < max debounce 1)
    (reading threshold debounce run).check level =
      { monitor := reading threshold debounce next
        change
        events := change.toList.map (event level threshold)
        notices := change.toList.flatMap (notices level threshold) } := by
  intro next change
  have hcount : min (min run 0xffffffff + 1) 0xffffffff = min (run + 1) 0xffffffff := by omega
  by_cases hlow : level < threshold
  · have hnext : next = run + 1 := if_pos hlow
    have hreached : max debounce 1 ≤ min (run + 1) 0xffffffff ↔ ¬ run + 1 < max debounce 1 := by
      omega
    simp only [check, countBelow, setReady, reading, change, hnext, hlow, hcount, hreached, if_true,
      decide_eq_true_eq]
    by_cases hready : run < max debounce 1 <;> by_cases hstill : run + 1 < max debounce 1
    · simp [hready, hstill, between]
    · simp [hready, hstill, between, event, notices]
    · omega
    · simp [hready, hstill, between]
  · have hnext : next = 0 := if_neg hlow
    have hpositive : 0 < max debounce 1 := by omega
    simp only [check, setReady, reading, change, hnext, hlow, hpositive, if_false, decide_true,
      decide_eq_true_eq]
    by_cases hready : run < max debounce 1
    · simp [hready, between]
    · simp [hready, between, event, notices]

/-! ### Any number of checks -/

/-- The changes that checks report. -/
def changes : UnderrunMonitor → List Nat → List ReadinessChange :=
  gather (fun monitor level ↦ (monitor.check level).monitor) fun monitor level ↦
    (monitor.check level).change.toList

theorem changes_concat (monitor : UnderrunMonitor) (levels : List Nat) (level : Nat) :
    monitor.changes (levels ++ [level]) =
      monitor.changes levels ++ ((monitor.checkAll levels).check level).change.toList :=
  gather_concat _ _ _ _ _

theorem signals_concat (monitor : UnderrunMonitor) (levels : List Nat) (level : Nat) :
    monitor.signals (levels ++ [level]) =
      monitor.signals levels ++ ((monitor.checkAll levels).check level).events :=
  gather_concat _ _ _ _ _

theorem reading_zero (threshold debounce : Nat) :
    reading threshold debounce 0 = new threshold debounce := by
  simp [reading, new]

include hdebounce

/-- By induction over the checks: the monitor shows the run at their end. -/
theorem checkAll_new (levels : List Nat) :
    (new threshold debounce).checkAll levels =
      reading threshold debounce (lowRun threshold levels) := by
  induction levels using List.reverseRecOn with
  | nil => exact (reading_zero threshold debounce).symm
  | append_singleton levels level ih =>
    rw [checkAll_append, ih, lowRun_concat]
    exact congrArg UnderrunCheck.monitor (check_reading hdebounce threshold _ level)

/-- The check after some checks. -/
theorem check_checkAll_new (levels : List Nat) (level : Nat) :
    let change := between (lowRun threshold levels < max debounce 1)
      (lowRun threshold (levels ++ [level]) < max debounce 1)
    let check := ((new threshold debounce).checkAll levels).check level
    check.change = change ∧ check.events = change.toList.map (event level threshold) := by
  intro change check
  have hcheck : check = (reading threshold debounce (lowRun threshold levels)).check level := by
    rw [← checkAll_new hdebounce threshold]
  have hnext := lowRun_concat threshold level levels
  rw [check_reading hdebounce threshold, ← hnext] at hcheck
  rw [hcheck]
  exact ⟨rfl, rfl⟩

/-- By induction over the checks, the changes lead from readiness to the readiness that is shown. -/
theorem alternates_changes (levels : List Nat) :
    Alternates true ((new threshold debounce).changes levels)
      (lowRun threshold levels < max debounce 1) := by
  induction levels using List.reverseRecOn with
  | nil =>
    have hready : lowRun threshold [] < max debounce 1 := by
      rw [lowRun, List.rtakeWhile_nil, List.length_nil]
      omega
    simp [changes, gather, Alternates, hready]
  | append_singleton levels level ih =>
    have hlast := (check_checkAll_new hdebounce threshold levels level).1
    rw [changes_concat, hlast]
    exact ih.concat _

/-- Each event reports one of the changes, in their order. -/
theorem map_signals (levels : List Nat) :
    ((new threshold debounce).signals levels).map Event.readinessChange? =
      ((new threshold debounce).changes levels).map some := by
  have hevent : ∀ (level : Nat) (change : Option ReadinessChange),
      (change.toList.map (event level threshold)).map Event.readinessChange? =
        change.toList.map some := by
    intro level change
    match change with
    | none => rfl
    | some underrun => rfl
    | some recovered => rfl
  induction levels using List.reverseRecOn with
  | nil => rfl
  | append_singleton levels level ih =>
    obtain ⟨hchange, hevents⟩ := check_checkAll_new hdebounce threshold levels level
    rw [signals_concat, changes_concat, List.map_append, List.map_append, ih, hevents, hchange,
      hevent]

end UnderrunMonitor

/-! ### The channel -/

/-- A monitor and the channel on which it reports. -/
structure ReadinessWatch where
  monitor : UnderrunMonitor
  channel : EventChannel

namespace ReadinessWatch

/-- What happens to a monitor and its channel. -/
inductive Action where
  /-- The monitor compares a level with its threshold. -/
  | check (queued : Nat)
  /-- Someone else sends an event. -/
  | send (event : Event)
  /-- The receiver takes the oldest event. -/
  | receive
  /-- The receiver goes away. -/
  | close

/-- The level that is compared. -/
def Action.level? : Action → Option Nat
  | check queued => some queued
  | _ => none

/-- The levels that are compared, in their order. -/
def levels (actions : List Action) : List Nat :=
  actions.filterMap Action.level?

/-- One step. A full channel loses an event that is sent on it, a closed one ignores it. -/
def step (watch : ReadinessWatch) : Action → ReadinessWatch
  | .check queued =>
    let check := watch.monitor.check queued
    ⟨check.monitor, watch.channel.emitAll check.events⟩
  | .send event => { watch with channel := (watch.channel.emit event).2 }
  | .receive => { watch with channel := watch.channel.receive.2 }
  | .close => { watch with channel := watch.channel.close }

/-- A player that checks its queues takes one step. -/
theorem step_checkQueues (player : Player) :
    step ⟨player.monitor, player.channel⟩ (.check player.store.total) =
      ⟨player.checkQueues.monitor, player.checkQueues.channel⟩ :=
  rfl

/-- Steps one after the other. -/
def run (watch : ReadinessWatch) (actions : List Action) : ReadinessWatch :=
  actions.foldl step watch

/-- The events that the monitor sends along a run, whether or not the channel takes them. -/
def offered : ReadinessWatch → List Action → List Event :=
  gather step fun watch action ↦
    match action with
    | .check queued => (watch.monitor.check queued).events
    | _ => []

/-- The channel has no part in what the monitor becomes. -/
theorem monitor_run (watch : ReadinessWatch) (actions : List Action) :
    (watch.run actions).monitor = watch.monitor.checkAll (levels actions) := by
  induction actions generalizing watch with
  | nil => rfl
  | cons action rest ih =>
    have hrest := ih (watch.step action)
    cases action with
    | check queued => exact hrest
    | send event => exact hrest
    | receive => exact hrest
    | close => exact hrest

/-- Nor has it in what the monitor sends. -/
theorem offered_eq (watch : ReadinessWatch) (actions : List Action) :
    watch.offered actions = watch.monitor.signals (levels actions) := by
  induction actions generalizing watch with
  | nil => rfl
  | cons action rest ih =>
    have hrest := ih (watch.step action)
    cases action with
    | check queued => exact congrArg (_ ++ ·) hrest
    | send event => exact hrest
    | receive => exact hrest
    | close => exact hrest

open UnderrunMonitor ReadinessChange

/-- After any checks, and whatever happens to the channel, the monitor is ready, and shows it,
exactly if the run of low checks at the end is shorter than the debounce. A check reports an
underrun exactly if it ends that, a recovery exactly if it restores it, with one event each and
none otherwise. The events sent alternate and begin with a request to pause. -/
theorem ready_iff_lowRun_lt {debounce : Nat} (hdebounce : debounce ≤ 0xffffffff) (threshold : Nat)
    (channel : EventChannel) (actions : List Action) :
    let watch : ReadinessWatch := ⟨.new threshold debounce, channel⟩
    let after := watch.run actions
    let low := lowRun threshold (levels actions)
    let limit := max debounce 1
    (after.monitor.ready = true ↔ low < limit) ∧ (after.monitor.flag = true ↔ low < limit) ∧
    (∀ queued,
      let check := after.monitor.check queued
      let next := lowRun threshold (levels actions ++ [queued])
      (check.change = some .underrun ↔ low < limit ∧ ¬ next < limit) ∧
        (check.change = some .recovered ↔ ¬ low < limit ∧ next < limit) ∧
        check.events = check.change.toList.map (event queued threshold)) ∧
    (watch.offered actions).map Event.readinessChange? =
      (watch.monitor.changes (levels actions)).map some ∧
    Alternates true (watch.monitor.changes (levels actions)) after.monitor.ready := by
  intro watch after low limit
  have hafter : after.monitor = (new threshold debounce).checkAll (levels actions) :=
    watch.monitor_run actions
  have hreading := hafter.trans (checkAll_new hdebounce threshold _)
  have hready : after.monitor.ready = decide (low < limit) := congrArg ready hreading
  have hflag : after.monitor.flag = decide (low < limit) := congrArg flag hreading
  refine ⟨by rw [hready, decide_eq_true_iff], by rw [hflag, decide_eq_true_iff],
    fun queued ↦ ?_, ?_, ?_⟩
  · obtain ⟨hchange, hevents⟩ := check_checkAll_new hdebounce threshold (levels actions) queued
    dsimp only
    rw [hafter, hevents, hchange, between_eq_some_underrun_iff, between_eq_some_recovered_iff]
    simp only [decide_eq_true_iff, decide_eq_false_iff_not, and_true]
    exact ⟨Iff.rfl, Iff.rfl⟩
  · rw [offered_eq]
    exact map_signals hdebounce threshold _
  · rw [hready]
    exact alternates_changes hdebounce threshold _

/-- A channel of one event that someone else has filled refuses the request to pause. The monitor
does not repeat it, and after the recovery, which is received, the next low checks are a new
underrun. -/
theorem ready_iff_lowRun_lt_crowded :
    let channel : EventChannel := ⟨1, [.loopWrapped 1], 0, true⟩
    let watch : ReadinessWatch := ⟨.new 100 2, channel⟩
    let actions : List Action :=
      [.check 50, .check 40, .check 0, .receive, .check 150, .check 10, .receive, .check 99]
    let after := watch.run actions
    (2 ≤ 0xffffffff ∧ (watch.run (actions.take 2)).channel.dropped = 1 ∧
      (watch.run (actions.take 5)).channel.waiting = [.readyToPlay 150] ∧
      watch.offered actions =
        [.underrunPause 40 100, .readyToPlay 150, .underrunPause 99 100]) ∧
    (after.monitor.ready = true ↔ lowRun 100 [50, 40, 0, 150, 10, 99] < max 2 1) ∧
    Alternates true [.underrun, .recovered, .underrun] after.monitor.ready := by
  intro channel watch actions after
  have hdebounce : 2 ≤ 0xffffffff := by decide
  have hchanges : watch.monitor.changes (levels actions) = [.underrun, .recovered, .underrun] := by
    decide +kernel
  obtain ⟨hready, -, -, -, halternates⟩ := ready_iff_lowRun_lt hdebounce 100 channel actions
  have hlevels : levels actions = [50, 40, 0, 150, 10, 99] := rfl
  have hafter : after = ReadinessWatch.run ⟨.new 100 2, channel⟩ actions := rfl
  rw [hchanges, ← hafter] at halternates
  rw [hlevels, ← hafter] at hready
  exact ⟨⟨hdebounce, by decide +kernel, by decide +kernel, by decide +kernel⟩, hready,
    halternates⟩

end ReadinessWatch

end TimelineMixer
