import TimelineMixer.Proofs.Transport.Calls

/-!
# The position in the events

Whoever only hears the events knows where playback is: the atom that was last reported or sought,
and the loop that was last reported (`Event.follow`). Steps keep the events of a run and the clock
together (`Clock.Tracks`), as long as one timeline is shown. A period reports its move of the clock
and no other position (`Engine.render_moves`), and any other step moves the clock at most by a seek.
-/

set_option autoImplicit false
set_option relaxedAutoImplicit false

namespace TimelineMixer

namespace Event

/-- The atom and the loop that a listener knows of after an event. -/
def follow (known : Nat × Nat) : Event → Nat × Nat
  | .atomChanged index loop => (index, loop)
  | .seeked _ index => (index, known.2)
  | _ => known

/-- The loop that a wrap has led to. -/
def wrap? : Event → Option Nat
  | .loopWrapped loop => some loop
  | _ => none

/-- Right behind each wrap stands the atom that it has led to. -/
def WrapsToAtom (events : List Event) : Prop :=
  ∀ before loop after, events = before ++ .loopWrapped loop :: after →
    ∃ index rest, after = .atomChanged index loop :: rest

variable {events : List Event}

/-- Events about anything else tell a listener nothing. -/
theorem foldl_follow_of_quiet (h : ∀ event ∈ events, event.topic ≠ .position)
    (known : Nat × Nat) : events.foldl follow known = known := by
  induction events generalizing known with
  | nil => rfl
  | cons event rest ih =>
    obtain ⟨hevent, hrest⟩ := List.forall_mem_cons.mp h
    have hsame : follow known event = known := by
      cases event <;> first | rfl | exact absurd rfl hevent
    rw [List.foldl_cons, hsame, ih hrest]

theorem filterMap_wrap?_of_quiet (h : ∀ event ∈ events, event.topic ≠ .position) :
    events.filterMap wrap? = [] := by
  refine List.filterMap_eq_nil_iff.mpr fun event hmem ↦ ?_
  have hevent := h event hmem
  cases event <;> first | rfl | exact absurd rfl hevent

theorem wrapsToAtom_of_quiet (h : ∀ event ∈ events, event.topic ≠ .position) :
    WrapsToAtom events := by
  intro before loop after hsplit
  exact absurd rfl (h (.loopWrapped loop) (by rw [hsplit]; simp))

theorem WrapsToAtom.append {first second : List Event} (hfirst : WrapsToAtom first)
    (hsecond : WrapsToAtom second) : WrapsToAtom (first ++ second) := by
  intro before loop after hsplit
  rcases List.append_eq_append_iff.mp hsplit with ⟨middle, hbefore, hlast⟩ | ⟨middle, hhead, hlast⟩
  · exact hsecond middle loop after hlast
  · cases middle with
    | nil => exact hsecond [] loop after hlast.symm
    | cons event rest =>
      obtain ⟨rfl, rfl⟩ := List.cons.inj hlast
      obtain ⟨index, others, rfl⟩ := hfirst before loop rest hhead
      exact ⟨index, others ++ second, rfl⟩

end Event

/-! ### Events that go with the clock -/

namespace Clock

/-- The atom and the loop that a clock is in. -/
def place (clock : Clock) : Nat × Nat :=
  (clock.index, clock.loop)

/-- Events tell where the clock has gone, and count its wraps. -/
structure Tracks (before : Clock) (events : List Event) (after : Clock) : Prop where
  place_eq : events.foldl Event.follow before.place = after.place
  loop_le : before.loop ≤ after.loop
  wraps_eq : events.filterMap Event.wrap? =
    List.range' (before.loop + 1) (after.loop - before.loop)
  wrapsToAtom : Event.WrapsToAtom events

variable {before middle after : Clock} {events : List Event}

theorem tracks_of_quiet (h : ∀ event ∈ events, event.topic ≠ .position)
    (hindex : after.index = before.index) (hloop : after.loop = before.loop) :
    before.Tracks events after where
  place_eq := by rw [Event.foldl_follow_of_quiet h, place, place, hindex, hloop]
  loop_le := Nat.le_of_eq hloop.symm
  wraps_eq := by rw [Event.filterMap_wrap?_of_quiet h, hloop, Nat.sub_self, List.range'_zero]
  wrapsToAtom := Event.wrapsToAtom_of_quiet h

theorem Tracks.trans {first second : List Event} (hfirst : before.Tracks first middle)
    (hsecond : middle.Tracks second after) : before.Tracks (first ++ second) after where
  place_eq := by rw [List.foldl_append, hfirst.place_eq, hsecond.place_eq]
  loop_le := Nat.le_trans hfirst.loop_le hsecond.loop_le
  wraps_eq := by
    have hbefore := hfirst.loop_le
    have hafter := hsecond.loop_le
    have hbegin : middle.loop + 1 = before.loop + 1 + (middle.loop - before.loop) := by omega
    have hcount : after.loop - before.loop =
        (middle.loop - before.loop) + (after.loop - middle.loop) := by omega
    rw [List.filterMap_append, hfirst.wraps_eq, hsecond.wraps_eq, hbegin, hcount,
      List.range'_append_1]
  wrapsToAtom := hfirst.wrapsToAtom.append hsecond.wrapsToAtom

theorem tracks_moves (hloop : after.loop = before.loop ∨ after.loop = before.loop + 1) :
    before.Tracks (before.moves after) after := by
  have hwrap : ∀ index loop, Event.WrapsToAtom [.loopWrapped loop, .atomChanged index loop] := by
    intro index loop pre other post hsplit
    rcases pre with - | ⟨event, pre⟩
    · obtain ⟨hevent, rfl⟩ := List.cons.inj hsplit
      cases hevent
      exact ⟨index, [], rfl⟩
    · rcases pre with - | ⟨event', pre⟩ <;> simp at hsplit
  rcases hloop with hsame | hnext
  · by_cases hindex : after.index = before.index
    · rw [moves, if_pos hsame, if_pos ⟨hindex, hsame⟩]
      exact tracks_of_quiet (by simp) hindex hsame
    · rw [moves, if_pos hsame, if_neg (fun h ↦ hindex h.1), List.nil_append]
      refine ⟨rfl, Nat.le_of_eq hsame.symm, ?_, ?_⟩
      · rw [hsame, Nat.sub_self]
        rfl
      · intro pre loop post hsplit
        rcases pre with - | ⟨event, pre⟩ <;> simp at hsplit
  · have hother : after.loop ≠ before.loop := by omega
    rw [moves, if_neg hother, if_neg (fun h ↦ hother h.2)]
    refine ⟨rfl, by omega, ?_, hwrap _ _⟩
    rw [hnext, Nat.add_sub_cancel_left]
    rfl

theorem tracks_seeked (clock : Clock) (index : Nat) (target : Seconds) :
    clock.Tracks [.seeked target index] (clock.seek index target) where
  place_eq := rfl
  loop_le := Nat.le_refl _
  wraps_eq := by
    rw [seek, Nat.sub_self]
    rfl
  wrapsToAtom pre loop post hsplit := by
    rcases pre with - | ⟨event, pre⟩ <;> simp at hsplit

end Clock

/-! ### Runs on one timeline -/

namespace Engine

/-- The step shows another timeline. -/
def Action.isPublication : Action → Bool
  | .call (.setTimeline _) => true
  | _ => false

variable {σ : Type} [OutputStream σ]

omit [OutputStream σ] in
/-- The clock. -/
def clock (engine : Engine σ) : Clock :=
  engine.player.deck.clock

omit [OutputStream σ] in
/-- A timeline is shown, and the clock is in one of its atoms. -/
structure Shows (engine : Engine σ) (timeline : Timeline) : Prop where
  timeline_eq : engine.player.deck.timeline = timeline
  holds : timeline.Holds engine.clock

variable {engine : Engine σ} {timeline : Timeline}

omit [OutputStream σ] in
/-- A period moves the clock by the reported moves, into the next pass at most. -/
theorem render_moves (h : engine.Shows timeline) (locked : Bool) (bytes : Nat) :
    let after := engine.render locked bytes
    after.Shows timeline ∧ engine.player.moves bytes = engine.clock.moves after.clock ∧
      (after.clock.loop = engine.clock.loop ∨ after.clock.loop = engine.clock.loop + 1) := by
  intro after
  have hdeck : after.player.deck =
      (engine.player.moved bytes).advance (Player.counted bytes) :=
    engine.player.deck_render locked bytes
  have hclock : after.clock =
      (engine.player.moved bytes).clock.advance (Player.counted bytes) := by
    rw [clock, hdeck]
    rfl
  obtain ⟨hmoves, htimeline, hholds, hloop⟩ := engine.player.moves_eq
    (h.timeline_eq ▸ h.holds) bytes
  rw [h.timeline_eq] at htimeline hholds
  rw [hclock]
  refine ⟨⟨?_, ?_⟩, hmoves, hloop⟩
  · rw [hdeck]
    exact htimeline
  · rw [hclock]
    exact hholds

/-- A step keeps the timeline, and reports what the clock does. -/
def Follows (timeline : Timeline) (before : Engine σ) (action : Action) : Prop :=
  (before.step action).Shows timeline ∧
    before.clock.Tracks (before.report action) (before.step action).clock

/-- A step that leaves the clock alone, and reports nothing about the position. -/
theorem follows_of_quiet (h : engine.Shows timeline) {action : Action}
    (htimeline : (engine.step action).player.deck.timeline = engine.player.deck.timeline)
    (hclock : (engine.step action).clock = engine.clock)
    (hquiet : ∀ event ∈ engine.report action, event.topic ≠ .position) :
    engine.Follows timeline action := by
  refine ⟨⟨?_, ?_⟩, ?_⟩
  · rw [htimeline]
    exact h.timeline_eq
  · rw [hclock]
    exact h.holds
  · rw [hclock]
    exact Clock.tracks_of_quiet hquiet rfl rfl

theorem follows_of_turned (h : engine.Shows timeline) {action : Action} {target : PlayState}
    (hturned : Turned engine target (engine.step action))
    (hreport : engine.report action = engine.turns target) : engine.Follows timeline action := by
  refine follows_of_quiet h ?_ ?_ fun event hmem ↦ ?_
  · rw [hturned.deck_eq]
    split_ifs <;> rfl
  · rw [clock, hturned.deck_eq]
    split_ifs <;> rfl
  · rw [hreport] at hmem
    rw [engine.topic_of_mem_turns target event hmem]
    exact Event.Topic.noConfusion

theorem follows_seek (h : engine.Shows timeline) (position : Seconds) :
    engine.Follows timeline (.call (.seek position)) := by
  rcases engine.seek_cases position with
    ⟨cause, hseek, -⟩ | ⟨target, index, -, hindex, hok, hsought⟩
  · have hsame : engine.step (.call (.seek position)) = engine := by rw [step, obey, hseek]
    refine follows_of_quiet h (by rw [hsame]) (by rw [hsame]) ?_
    rw [report, engine.callReport_of_refused hseek]
    simp
  · have hclock : (engine.step (.call (.seek position))).clock =
        engine.clock.seek index target := by
      rw [step, obey, clock, hsought.deck_eq]
      rfl
    refine ⟨⟨?_, fun _ ↦ ?_⟩, ?_⟩
    · rw [step, obey, hsought.deck_eq]
      exact h.timeline_eq
    · rw [hclock, ← h.timeline_eq]
      exact hindex
    · rw [report, engine.callReport_seek hok hsought, hclock]
      exact engine.clock.tracks_seeked index target

theorem follows_step (h : engine.Shows timeline) {action : Action}
    (hone : action.isPublication = false) : engine.Follows timeline action := by
  cases action with
  | receive => exact follows_of_quiet h rfl rfl (by simp [report])
  | push key chunk =>
    obtain ⟨hdeck, -⟩ := engine.step_push key chunk
    exact follows_of_quiet h (by rw [hdeck]) (by rw [clock, hdeck]; rfl) (by simp [report])
  | period locked bytes =>
    obtain ⟨hshows, hmoves, hloop⟩ := render_moves h locked bytes
    refine ⟨hshows, ?_⟩
    rw [report, hmoves]
    refine (Clock.tracks_moves hloop).trans (Clock.tracks_of_quiet (fun event hmem ↦ ?_) rfl rfl)
    rw [UnderrunMonitor.topic_of_mem_signals _ _ event hmem]
    exact Event.Topic.noConfusion
  | call command =>
    cases command with
    | play => exact follows_of_turned h engine.turned_play rfl
    | pause => exact follows_of_turned h (engine.turned_halt .paused) rfl
    | stop => exact follows_of_turned h (engine.turned_halt .stopped) rfl
    | destroy => exact follows_of_turned h engine.turned_destroy rfl
    | seek position => exact follows_seek h position
    | setTimeline other => cases hone
    | setVolume volume => exact follows_of_quiet h rfl rfl (by simp [report, callReport])

/-- As long as one timeline is shown, the reports of a run tell where the clock has gone. -/
theorem run_tracks (h : engine.Shows timeline) {actions : List Action}
    (hone : ∀ action ∈ actions, action.isPublication = false) :
    (engine.run actions).Shows timeline ∧
      engine.clock.Tracks (gather step report engine actions) (engine.run actions).clock := by
  induction actions generalizing engine with
  | nil => exact ⟨h, Clock.tracks_of_quiet (fun _ hmem ↦ absurd hmem List.not_mem_nil) rfl rfl⟩
  | cons action rest ih =>
    obtain ⟨hfirst, hrest⟩ := List.forall_mem_cons.mp hone
    obtain ⟨hshows, htracks⟩ := follows_step h hfirst
    obtain ⟨hafter, hlater⟩ := ih hshows hrest
    exact ⟨hafter, htracks.trans hlater⟩

/-- From the beginning of a timeline on, the events that are sent determine the position: a listener
who follows them knows atom and loop of the clock, they count the wraps, each of which is followed
by the atom it led to, and a period sends its move of the clock and no other position. -/
theorem foldl_follow_reports {engine : Engine σ} (hconnected : engine.channel.connected = true)
    (hpublished : (engine.setTimeline timeline).1 = .ok ()) {actions : List Action}
    (hone : ∀ action ∈ actions, action.isPublication = false)
    (hlossless : (engine.setTimeline timeline).2.Lossless actions) :
    let shown := (engine.setTimeline timeline).2
    let after := shown.run actions
    (shown.reports actions).foldl Event.follow (0, 0) = (after.clock.index, after.clock.loop) ∧
      (shown.reports actions).filterMap Event.wrap? = List.range' 1 after.clock.loop ∧
      Event.WrapsToAtom (shown.reports actions) ∧
      ∀ locked bytes, after.Lossless [.period locked bytes] →
        ∃ others, (∀ event ∈ others, event.topic = .readiness) ∧
          after.reports [.period locked bytes] =
            after.clock.moves (after.render locked bytes).clock ++ others := by
  intro shown after
  rcases engine.setTimeline_cases timeline with
    ⟨hrefused, -⟩ | ⟨-, -, hdeck, hchannel, -⟩
  · rw [hrefused] at hpublished
    cases hpublished
  have hshown : shown.Shows timeline := by
    refine ⟨by rw [hdeck]; rfl, fun hne ↦ ?_⟩
    rw [clock, hdeck]
    exact Nat.pos_of_ne_zero hne
  have hzero : shown.clock = .zero := by
    rw [clock, hdeck]
    rfl
  have hheard : shown.channel.connected = true := by rwa [hchannel]
  obtain ⟨hafter, htracks⟩ := run_tracks hshown hone
  rw [hzero, ← reports_eq_gather hheard hlossless] at htracks
  refine ⟨htracks.place_eq, htracks.wraps_eq, htracks.wrapsToAtom, fun locked bytes hperiod ↦ ?_⟩
  have hstill : after.channel.connected = true :=
    (serves_step.connected_run shown actions).trans hheard
  obtain ⟨-, hmoves, -⟩ := render_moves hafter locked bytes
  refine ⟨_, after.player.monitor.topic_of_mem_signals (after.player.levels locked bytes), ?_⟩
  rw [reports_eq_gather hstill hperiod, gather, gather, List.append_nil, report, hmoves]

/-- A seek into the last of three atoms, a wrap, a pause, and a period that crosses two atoms. -/
theorem foldl_follow_reports_hinged :
    let shown := (hinged.setTimeline Deck.hinged.timeline).2
    let actions : List Action := [.call (.seek (.ofInt 3)), .period true 8, .receive, .call .pause,
      .call .play, .period false 8]
    (hinged.channel.connected = true ∧
        (hinged.setTimeline Deck.hinged.timeline).1 = .ok () ∧
        (∀ action ∈ actions, action.isPublication = false) ∧ shown.Lossless actions ∧
        shown.reports actions = [.seeked (.ofInt 3) 2, .loopWrapped 1, .atomChanged 0 1,
          .playbackStateChanged .playing .paused, .playbackStateChanged .paused .playing,
          .atomChanged 2 1]) ∧
      (shown.reports actions).foldl Event.follow (0, 0) =
        ((shown.run actions).clock.index, (shown.run actions).clock.loop) ∧
      (shown.reports actions).filterMap Event.wrap? =
        List.range' 1 (shown.run actions).clock.loop ∧
      Event.WrapsToAtom (shown.reports actions) ∧
      ∀ locked bytes, (shown.run actions).Lossless [.period locked bytes] →
        ∃ others, (∀ event ∈ others, event.topic = .readiness) ∧
          (shown.run actions).reports [.period locked bytes] = (shown.run actions).clock.moves
            ((shown.run actions).render locked bytes).clock ++ others := by
  intro shown actions
  have hone : ∀ action ∈ actions, action.isPublication = false := by decide
  have hlossless : shown.Lossless actions := by decide +kernel
  exact ⟨⟨rfl, rfl, hone, hlossless, by decide +kernel⟩,
    foldl_follow_reports rfl rfl hone hlossless⟩

end Engine

end TimelineMixer
