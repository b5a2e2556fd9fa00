import TimelineMixer.Proofs.Transport.Calls

/-!
# Requests to pause

The monitor asks for a pause once and then waits until it has seen the queues recover. A call of
the transport does not reach it (`Engine.monitor_run`): whoever resumes too early is not asked
again. After a call of `play`, enough checks in a row below the threshold ask for a pause if and
only if the monitor was ready, or has seen the queues recover since
(`Engine.exists_underrunPause_iff`).
-/

set_option autoImplicit false
set_option relaxedAutoImplicit false

namespace TimelineMixer

namespace UnderrunMonitor

variable {monitor : UnderrunMonitor} {level : Nat} {levels : List Nat}

/-! ### One check -/

/-- A check below the threshold of a monitor that is ready asks for a pause, or is only counted. -/
theorem check_of_low (hready : monitor.ready = true) (hbounded : monitor.debounce ≤ 0xffffffff)
    (hlow : level < monitor.threshold) :
    (monitor.check level).events = [.underrunPause level monitor.threshold] ∨
      monitor.below + 1 < monitor.debounce ∧
        (monitor.check level).monitor = { monitor with below := monitor.below + 1 } := by
  rw [check]
  dsimp only
  rw [if_pos hlow]
  by_cases hcount : monitor.debounce ≤ monitor.countBelow.below
  · rw [if_pos ⟨hready, hcount⟩]
    exact Or.inl rfl
  · rw [if_neg (fun h ↦ hcount h.2)]
    rw [countBelow] at hcount ⊢
    dsimp only at hcount ⊢
    have hsmall : monitor.below + 1 < monitor.debounce := by omega
    exact Or.inr ⟨hsmall, by rw [Nat.min_eq_left (by omega)]⟩

/-- A monitor that is not ready does not repeat its request. -/
theorem check_of_low_of_not_ready (hready : monitor.ready = false)
    (hlow : level < monitor.threshold) :
    (monitor.check level).events = [] ∧ (monitor.check level).monitor = monitor.countBelow := by
  rw [check]
  dsimp only
  rw [if_pos hlow, if_neg (fun h ↦ Bool.false_ne_true (hready.symm.trans h.1))]
  exact ⟨rfl, rfl⟩

/-- A check at the threshold or above leaves the monitor ready. -/
theorem ready_check_of_high (hhigh : monitor.threshold ≤ level) :
    (monitor.check level).monitor.ready = true := by
  rw [check]
  dsimp only
  rw [if_neg (Nat.not_lt.mpr hhigh)]
  split_ifs with hready
  · exact hready
  · rfl

/-- A monitor that stops being ready asks for a pause. -/
theorem request_or_ready (hready : monitor.ready = true) (hbounded : monitor.debounce ≤ 0xffffffff)
    (level : Nat) :
    (monitor.check level).events = [.underrunPause level monitor.threshold] ∨
      (monitor.check level).monitor.ready = true := by
  by_cases hlow : level < monitor.threshold
  · refine (check_of_low hready hbounded hlow).imp_right fun h ↦ ?_
    rw [h.2]
    exact hready
  · exact Or.inr (ready_check_of_high (Nat.not_lt.mp hlow))

/-- What a check keeps of a monitor: its limits, and that it shows the readiness it has. -/
structure Configured (monitor : UnderrunMonitor) (threshold debounce : Nat) : Prop where
  threshold_eq : monitor.threshold = threshold
  debounce_eq : monitor.debounce = debounce
  flag_eq : monitor.flag = monitor.ready

variable {threshold debounce : Nat}

theorem Configured.check (h : monitor.Configured threshold debounce) (level : Nat) :
    (monitor.check level).monitor.Configured threshold debounce := by
  obtain ⟨hthreshold, hdebounce, hflag⟩ := h
  rw [UnderrunMonitor.check]
  dsimp only
  split_ifs
  · exact ⟨hthreshold, hdebounce, rfl⟩
  · exact ⟨hthreshold, hdebounce, hflag⟩
  · exact ⟨hthreshold, hdebounce, hflag⟩
  · exact ⟨hthreshold, hdebounce, rfl⟩

theorem Configured.checkAll (h : monitor.Configured threshold debounce) (levels : List Nat) :
    (monitor.checkAll levels).Configured threshold debounce := by
  induction levels generalizing monitor with
  | nil => exact h
  | cons level rest ih => exact ih (h.check level)

/-! ### Checks in a row -/

/-- Some level makes the monitor ask for a pause. -/
def Requests (monitor : UnderrunMonitor) (levels : List Nat) : Prop :=
  ∃ queued threshold, Event.underrunPause queued threshold ∈ monitor.signals levels

theorem requests_cons :
    monitor.Requests (level :: levels) ↔
      (∃ queued threshold, Event.underrunPause queued threshold ∈ (monitor.check level).events) ∨
        (monitor.check level).monitor.Requests levels := by
  simp only [Requests, signals, gather, List.mem_append, exists_or]

theorem requests_of_events (h : (monitor.check level).events = [.underrunPause level threshold]) :
    monitor.Requests (level :: levels) :=
  requests_cons.mpr (Or.inl ⟨level, threshold, by rw [h]; exact List.mem_singleton_self _⟩)

theorem requests_append {first second : List Nat} :
    monitor.Requests (first ++ second) ↔
      monitor.Requests first ∨ (monitor.checkAll first).Requests second := by
  simp only [Requests, signals_append, List.mem_append, exists_or]

/-- Not ready and below the threshold all the time, the monitor stays silent. -/
theorem not_requests_of_not_ready (hready : monitor.ready = false)
    (hlow : ∀ level ∈ levels, level < monitor.threshold) : ¬ monitor.Requests levels := by
  induction levels generalizing monitor with
  | nil => exact fun ⟨_, _, hmem⟩ ↦ absurd hmem List.not_mem_nil
  | cons level rest ih =>
    obtain ⟨hfirst, hrest⟩ := List.forall_mem_cons.mp hlow
    obtain ⟨hevents, hmonitor⟩ := check_of_low_of_not_ready hready hfirst
    rw [requests_cons, hevents, hmonitor]
    rintro (⟨queued, threshold, hmem⟩ | hlater)
    · exact absurd hmem List.not_mem_nil
    · exact @ih monitor.countBelow hready hrest hlater

/-- Ready, and below the threshold often enough, the monitor asks for a pause. -/
theorem requests_of_ready (hready : monitor.ready = true)
    (hbounded : monitor.debounce ≤ 0xffffffff)
    (hlow : ∀ level ∈ levels, level < monitor.threshold) (hsome : levels ≠ [])
    (henough : monitor.debounce ≤ monitor.below + levels.length) : monitor.Requests levels := by
  induction levels generalizing monitor with
  | nil => exact absurd rfl hsome
  | cons level rest ih =>
    obtain ⟨hfirst, hrest⟩ := List.forall_mem_cons.mp hlow
    rcases check_of_low hready hbounded hfirst with hevents | ⟨hcount, hmonitor⟩
    · exact requests_of_events hevents
    · rw [List.length_cons] at henough
      have hmore : rest ≠ [] := fun hnil ↦ by simp [hnil] at henough; omega
      refine requests_cons.mpr (Or.inr ?_)
      rw [hmonitor]
      exact ih (by exact hready) hbounded hrest hmore (by dsimp only; omega)

/-- A monitor that is ready stays so until it asks for a pause. -/
theorem requests_or_ready (h : monitor.Configured threshold debounce)
    (hbounded : debounce ≤ 0xffffffff) (hready : monitor.ready = true) (levels : List Nat) :
    monitor.Requests levels ∨ (monitor.checkAll levels).ready = true := by
  induction levels generalizing monitor with
  | nil => exact Or.inr hready
  | cons level rest ih =>
    rcases request_or_ready hready (h.debounce_eq ▸ hbounded) level with hevents | hstill
    · exact Or.inl (requests_of_events hevents)
    · exact (ih (h.check level) hstill).imp_left fun hlater ↦ requests_cons.mpr (Or.inr hlater)

/-- Behind other checks, enough of them in a row below the threshold ask for a pause if and only if
the monitor was ready, or one of the checks before them was not below the threshold. -/
theorem requests_append_low_iff (h : monitor.Configured threshold debounce)
    (hbounded : debounce ≤ 0xffffffff) {first low : List Nat}
    (hlow : ∀ level ∈ low, level < threshold) (hsome : low ≠ [])
    (henough : debounce ≤ low.length) :
    monitor.Requests (first ++ low) ↔
      monitor.ready = true ∨ ∃ level ∈ first, threshold ≤ level := by
  -- Once it is ready, the monitor asks for a pause on the way or in the checks at the end.
  have hfrom : ∀ {monitor : UnderrunMonitor} {first : List Nat},
      monitor.Configured threshold debounce → monitor.ready = true →
        monitor.Requests (first ++ low) := by
    intro monitor first hconfigured hready
    rw [requests_append]
    refine (requests_or_ready hconfigured hbounded hready first).imp_right fun hstill ↦ ?_
    obtain ⟨hthreshold, hdebounce, -⟩ := hconfigured.checkAll first
    exact requests_of_ready hstill (hdebounce ▸ hbounded) (hthreshold ▸ hlow) hsome
      (by rw [hdebounce]; omega)
  constructor
  · intro hrequests
    by_contra hnever
    obtain ⟨hready, hnone⟩ := not_or.mp hnever
    have hall : ∀ level ∈ first ++ low, level < monitor.threshold := by
      intro level hmem
      rw [h.threshold_eq]
      rcases List.mem_append.mp hmem with hfirst | hlast
      · exact Nat.not_le.mp fun hhigh ↦ hnone ⟨level, hfirst, hhigh⟩
      · exact hlow level hlast
    exact not_requests_of_not_ready (Bool.eq_false_iff.mpr hready) hall hrequests
  · rintro (hready | ⟨level, hmem, hhigh⟩)
    · exact hfrom h hready
    · obtain ⟨before, after, rfl⟩ := List.append_of_mem hmem
      have hthreshold := (h.checkAll before).threshold_eq
      rw [List.append_assoc, requests_append, List.cons_append, requests_cons]
      exact Or.inr (Or.inr (hfrom ((h.checkAll before).check level)
        (ready_check_of_high (hthreshold ▸ hhigh))))

end UnderrunMonitor

/-! ### The monitor of an engine -/

namespace Engine

variable {σ : Type} [OutputStream σ]

omit [OutputStream σ] in
/-- The bytes left in the queues by a step that compares them with the threshold. -/
def stepLevels (engine : Engine σ) : Action → List Nat
  | .period locked bytes => engine.player.levels locked bytes
  | _ => []

/-- The bytes left in the queues by the steps of a run that compare them with the threshold. -/
def levels : Engine σ → List Action → List Nat :=
  gather step stepLevels

variable (engine : Engine σ)

/-- Only a period reaches the monitor, by a comparison. -/
theorem monitor_step (action : Action) :
    (engine.step action).player.monitor =
      engine.player.monitor.checkAll (engine.stepLevels action) := by
  cases action with
  | receive => rfl
  | push key chunk => exact (engine.step_push key chunk).2.2
  | period locked bytes => exact (engine.player.channel_render locked bytes).1
  | call command =>
    cases command with
    | play => exact engine.turned_play.monitor_eq
    | pause => exact (engine.turned_halt .paused).monitor_eq
    | stop => exact (engine.turned_halt .stopped).monitor_eq
    | destroy => exact engine.turned_destroy.monitor_eq
    | setVolume volume => rfl
    | seek position =>
      rw [step, obey]
      rcases engine.seek_cases position with ⟨cause, hseek, -⟩ | ⟨target, index, -, -, -, hsought⟩
      · rw [hseek]
        rfl
      · exact hsought.monitor_eq
    | setTimeline timeline =>
      rw [step, obey]
      rcases engine.setTimeline_cases timeline with ⟨hrefused, -⟩ | ⟨-, -, -, -, hmonitor⟩
      · rw [hrefused]
        rfl
      · exact hmonitor

theorem monitor_run (actions : List Action) :
    (engine.run actions).player.monitor =
      engine.player.monitor.checkAll (engine.levels actions) := by
  induction actions generalizing engine with
  | nil => rfl
  | cons action rest ih =>
    rw [levels, gather, UnderrunMonitor.checkAll_append, ← monitor_step]
    exact ih (engine.step action)

/-- What a step reports of the readiness is what the monitor reports. -/
theorem filter_report (action : Action) :
    (engine.report action).filter (fun event ↦ event.topic = .readiness) =
      engine.player.monitor.signals (engine.stepLevels action) := by
  have hother : ∀ {events : List Event} {topic}, (∀ event ∈ events, event.topic = topic) →
      topic ≠ .readiness → events.filter (fun event ↦ event.topic = .readiness) = [] := by
    intro events topic htopic hne
    refine List.filter_eq_nil_iff.mpr fun event hmem ↦ ?_
    rw [htopic event hmem, decide_eq_true_iff]
    exact hne
  have hturns : ∀ target,
      (engine.turns target).filter (fun event ↦ event.topic = .readiness) = [] := fun target ↦
    hother (engine.topic_of_mem_turns target) Event.Topic.noConfusion
  cases action with
  | receive => rfl
  | push key chunk => rfl
  | period locked bytes =>
    rw [report, List.filter_append,
      hother (engine.player.topic_of_mem_moves bytes) Event.Topic.noConfusion, List.nil_append]
    refine List.filter_eq_self.mpr fun event hmem ↦ ?_
    rw [UnderrunMonitor.topic_of_mem_signals _ _ event hmem]
    rfl
  | call command =>
    cases command with
    | play => exact hturns .playing
    | pause => exact hturns .paused
    | stop => exact hturns .stopped
    | destroy => exact hturns .stopped
    | setVolume volume => rfl
    | setTimeline timeline => rfl
    | seek position =>
      rw [report, callReport]
      split <;> rfl

theorem filter_gather_report (actions : List Action) :
    (gather step report engine actions).filter (fun event ↦ event.topic = .readiness) =
      engine.player.monitor.signals (engine.levels actions) := by
  induction actions generalizing engine with
  | nil => rfl
  | cons action rest ih =>
    rw [gather, List.filter_append, filter_report, ih, monitor_step,
      ← UnderrunMonitor.signals_append]
    rfl

theorem levels_append (first second : List Action) :
    engine.levels (first ++ second) = engine.levels first ++ (engine.run first).levels second :=
  gather_append _ _ _ _ _

/-- In a run from a new engine, which is resumed and goes on for a while, enough comparisons in a
row find too little in the queues. Then a pause is asked for if and only if the monitor was ready
when the engine was resumed, or has found enough in the queues since. A period with locked queues or
without layers compares nothing, however much is queued. -/
theorem exists_underrunPause_iff {settings : EngineSettings} {spec : AudioSpec} {stream : σ}
    {events : EventChannel} {engine : Engine σ}
    (hnew : Engine.new settings spec stream events = .ok engine)
    (hconnected : events.connected = true) (hbounded : settings.debounce ≤ 0xffffffff)
    (before middle periods : List Action) :
    let resumed := engine.run (before ++ [.call .play])
    resumed.Lossless (middle ++ periods) →
    (∀ level ∈ (resumed.run middle).levels periods, level < settings.minPlayable) →
    max settings.debounce 1 ≤ ((resumed.run middle).levels periods).length →
    ((∃ queued threshold,
        .underrunPause queued threshold ∈ resumed.reports (middle ++ periods)) ↔
      resumed.isReady = true ∨
        ∃ level ∈ resumed.levels middle, settings.minPlayable ≤ level) := by
  intro resumed hlossless hlow henough
  have hfresh := eq_of_new_eq_ok hnew
  have hchannel : engine.channel = events := by rw [hfresh]; rfl
  have hmonitor : engine.player.monitor = .new settings.minPlayable settings.debounce := by
    rw [hfresh]
    rfl
  have hheard : resumed.channel.connected = true := by
    rw [← hconnected, ← hchannel]
    exact serves_step.connected_run engine _
  have hconfigured : resumed.player.monitor.Configured settings.minPlayable
      (max settings.debounce 1) := by
    rw [monitor_run, hmonitor]
    exact UnderrunMonitor.Configured.checkAll ⟨rfl, rfl, rfl⟩ _
  have hrequests : (∃ queued threshold,
      Event.underrunPause queued threshold ∈ resumed.reports (middle ++ periods)) ↔
        resumed.player.monitor.Requests
          (resumed.levels middle ++ (resumed.run middle).levels periods) := by
    rw [reports_eq_gather hheard hlossless, UnderrunMonitor.Requests, ← levels_append,
      ← filter_gather_report]
    simp only [List.mem_filter, Event.topic, decide_true, and_true]
  have hsome : (resumed.run middle).levels periods ≠ [] :=
    List.ne_nil_of_length_pos (by omega)
  rw [hrequests, UnderrunMonitor.requests_append_low_iff hconfigured (by omega) hlow hsome henough,
    isReady, hconfigured.flag_eq]

/-- A chunk of silent samples from a second on, for the layer of `solo`. -/
def supply (second : Int) (samples : Nat) : Action :=
  .push ⟨.ofNat 1, 0⟩ ⟨.ofInt second, List.replicate (Sample.width * samples) 0⟩

/-- The engine is resumed before it is ready. It gets ready in the next period, and the period after
that asks for a pause. -/
theorem exists_underrunPause_iff_resupplied :
    let before : List Action := [.call (.setTimeline solo), .call .play, .period false 4,
      .call .pause, supply 1 3]
    let resumed := fresh.run (before ++ [.call .play])
    let middle : List Action := [.period false 4]
    let periods : List Action := [.period false 4]
    ((resumed.Lossless (middle ++ periods) ∧
        (∀ level ∈ (resumed.run middle).levels periods, level < 8) ∧
        max 1 1 ≤ ((resumed.run middle).levels periods).length) ∧
      resumed.isReady = false ∧ resumed.levels middle = [8]) ∧
    ((∃ queued threshold,
        .underrunPause queued threshold ∈ resumed.reports (middle ++ periods)) ↔
      resumed.isReady = true ∨ ∃ level ∈ resumed.levels middle, 8 ≤ level) := by
  intro before resumed middle periods
  have hlossless : resumed.Lossless (middle ++ periods) := by decide +kernel
  have hlow : ∀ level ∈ (resumed.run middle).levels periods, level < 8 := by decide +kernel
  have henough : max 1 1 ≤ ((resumed.run middle).levels periods).length := by decide +kernel
  exact ⟨⟨⟨hlossless, hlow, henough⟩, by decide +kernel, by decide +kernel⟩,
    exists_underrunPause_iff new_eq_ok_fresh rfl (by decide) before middle periods hlossless hlow
      henough⟩

/-- An underrun, a pause, and too few samples for two periods. After the engine is resumed a period
finds too little in the queues, and no pause is asked for. -/
theorem not_underrunPause_resumed :
    let before : List Action := [.call (.setTimeline solo), .call .play, .period false 4,
      .call .pause, supply 1 2]
    let resumed := fresh.run (before ++ [.call .play])
    Engine.new { minPlayable := 8 } .oneHertz (LoopbackOutput.new true) ⟨64, [], 0, true⟩ =
        .ok fresh ∧
      fresh.Lossless (before ++ [.call .play] ++ [.period false 4]) ∧
      (fresh.run before).player.deck.transport = .paused ∧
      resumed.player.deck.transport = .playing ∧ resumed.levels [.period false 4] = [4] ∧
      ¬ ∃ queued threshold,
        .underrunPause queued threshold ∈ resumed.reports [.period false 4] := by
  intro before resumed
  have hsilent : resumed.reports [.period false 4] = [] := by decide +kernel
  refine ⟨rfl, by decide +kernel, by decide +kernel, by decide +kernel, by decide +kernel, ?_⟩
  rintro ⟨queued, threshold, hmem⟩
  rw [hsilent] at hmem
  exact absurd hmem List.not_mem_nil

end Engine

end TimelineMixer
