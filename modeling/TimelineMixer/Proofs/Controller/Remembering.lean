import TimelineMixer.Proofs.Controller.Resuming
import TimelineMixer.Proofs.Producer.SeekRace
import TimelineMixer.Proofs.Transport.Calls

/-!
# How a pause is forgotten

The controller forgets a pause of its own when it handles the report that the transport has started.
Reports lag behind: one that was sent before the pause may still wait when the controller pauses,
and makes it forget. As long as the transport stays paused no such report is sent
(`added_step`), so the controller remembers its pause once all events are handled if and only if
none waited when it paused (`holds_run_iff`, `remembersPause_iff`). None does if the transport is
never started while a request to pause waits.
-/

set_option autoImplicit false
set_option relaxedAutoImplicit false

namespace TimelineMixer

namespace Event

/-- A request to pause. -/
def isRequest : Event → Bool
  | .underrunPause .. => true
  | _ => false

end Event

/-- Events that are sent wait behind those that did before. -/
theorem EventChannel.exists_waiting_emitAll (channel : EventChannel) (events : List Event) :
    ∃ added, (channel.emitAll events).waiting = channel.waiting ++ added ∧
      added.Sublist events := by
  induction events generalizing channel with
  | nil => exact ⟨[], (List.append_nil _).symm, .slnil⟩
  | cons event rest ih =>
    obtain ⟨added, hwaiting, hadded⟩ := ih (channel.emit event).2
    rw [emitAll_cons, hwaiting, emit]
    split_ifs
    · exact ⟨event :: added, List.append_assoc .., hadded.cons_cons event⟩
    · exact ⟨added, rfl, hadded.cons event⟩
    · exact ⟨added, rfl, hadded.cons event⟩

namespace Engine

variable {σ : Type} [OutputStream σ]

variable (engine : Engine σ)

omit [OutputStream σ] in
/-- A start is reported of a transport that was not playing. -/
theorem start_of_mem_turns {target : PlayState} {event : Event} (hmem : event ∈ engine.turns target)
    (hstart : event.isStart = true) :
    target = .playing ∧ engine.destroyed = false ∧ engine.transport ≠ .playing ∧
      engine.turns target = [event] := by
  rw [turns] at hmem ⊢
  split_ifs at hmem ⊢ with h
  · exact absurd hmem List.not_mem_nil
  · obtain rfl := List.mem_singleton.mp hmem
    obtain ⟨hlive, hother⟩ := not_or.mp h
    have htarget : target = .playing := by
      cases target with
      | playing => rfl
      | paused | stopped => cases hstart
    exact ⟨htarget, Bool.eq_false_iff.mpr hlive, htarget ▸ hother, rfl⟩

/-- What waits behind `held` after a step: a start among it is alone, and has just happened. -/
def Added (before after : Engine σ) (held : List Event) : Prop :=
  ∃ added, after.channel.waiting = held ++ added ∧
    ∀ event ∈ added, event.isStart = true →
      before.transport ≠ .playing ∧ after.transport = .playing ∧ added = [event]

omit [OutputStream σ] in
theorem added_of_emitAll {before after : Engine σ} {channel : EventChannel} {events : List Event}
    (hchannel : after.channel = channel.emitAll events)
    (hstarts : ∀ event ∈ events, event.isStart = true →
      before.transport ≠ .playing ∧ after.transport = .playing ∧ events = [event]) :
    before.Added after channel.waiting := by
  obtain ⟨added, hwaiting, hadded⟩ := channel.exists_waiting_emitAll events
  refine ⟨added, hchannel ▸ hwaiting, fun event hmem hstart ↦ ?_⟩
  obtain ⟨hbefore, hafter, hall⟩ := hstarts event (hadded.subset hmem) hstart
  refine ⟨hbefore, hafter, ?_⟩
  rw [hall] at hadded
  rcases List.sublist_singleton.mp hadded with hnone | hone
  · rw [hnone] at hmem
    exact absurd hmem List.not_mem_nil
  · exact hone

omit [OutputStream σ] in
theorem added_turned {target : PlayState} {after : Engine σ} (h : Turned engine target after) :
    engine.Added after engine.channel.waiting := by
  refine added_of_emitAll h.channel_eq fun event hmem hstart ↦ ?_
  obtain ⟨htarget, hlive, hother, hone⟩ := engine.start_of_mem_turns hmem hstart
  refine ⟨hother, ?_, hone⟩
  rw [transport, h.deck_eq, hlive]
  exact htarget

theorem added_step (action : Action) (htakes : action.isReceive = false) :
    engine.Added (engine.step action) engine.channel.waiting := by
  have hquiet : (∀ event ∈ engine.report action, event.isStart = false) →
      engine.Added (engine.step action) engine.channel.waiting := fun hnone ↦
    added_of_emitAll (engine.channel_step htakes) fun event hmem hstart ↦
      absurd (hstart.symm.trans (hnone event hmem)) Bool.noConfusion
  cases action with
  | receive => cases htakes
  | push key chunk => exact hquiet (by simp [report])
  | period locked bytes =>
    exact hquiet fun event hmem ↦
      Event.isStart_of_topic (engine.topic_of_mem_period locked bytes event hmem)
  | call command =>
    cases command with
    | play => exact engine.added_turned engine.turned_play
    | pause => exact engine.added_turned (engine.turned_halt .paused)
    | stop => exact engine.added_turned (engine.turned_halt .stopped)
    | destroy => exact engine.added_turned engine.turned_destroy
    | setTimeline timeline => exact hquiet (by simp [report, callReport])
    | setVolume volume => exact hquiet (by simp [report, callReport])
    | seek position =>
      refine hquiet fun event hmem ↦ ?_
      rw [report, callReport] at hmem
      split at hmem
      · rw [List.mem_singleton.mp hmem]
        rfl
      · exact absurd hmem List.not_mem_nil

end Engine

namespace Session

variable {σ : Type} [OutputStream σ]

omit [OutputStream σ] in
/-- Events that wait to be handled. -/
def waiting (session : Session σ) : List Event :=
  session.engine.channel.waiting

omit [OutputStream σ] in
/-- Events that wait after a step, apart from those of the step. -/
def held (session : Session σ) : Action → List Event
  | .deliver => session.waiting.tail
  | _ => session.waiting

section Step

variable (session : Session σ)

theorem added_fill : session.engine.Added (session.step .fill).engine session.waiting := by
  obtain ⟨notices, hfill⟩ := session.producer.fill_snd session.engine.player
  refine ⟨[], ?_, fun event hmem ↦ absurd hmem List.not_mem_nil⟩
  rw [List.append_nil]
  exact congrArg (fun player ↦ player.channel.waiting) hfill

omit [OutputStream σ] in
/-- A call that is made for the controller may be recorded. -/
theorem transport_snd (call : Engine σ → Except Fault Unit × Engine σ) :
    (session.transport call).2.engine.player.deck = (call session.engine).2.player.deck ∧
      (session.transport call).2.engine.channel = (call session.engine).2.channel ∧
      (session.transport call).2.engine.player.monitor =
        (call session.engine).2.player.monitor := by
  rw [transport]
  split
  · next hcall => rw [hcall]; exact ⟨rfl, rfl, rfl⟩
  · next hcall => rw [hcall]; exact ⟨rfl, rfl, rfl⟩

omit [OutputStream σ] in
theorem turned_transport (call : Engine σ → Except Fault Unit × Engine σ) {target : PlayState}
    (h : Engine.Turned session.engine target (call session.engine).2) :
    Engine.Turned session.engine target (session.transport call).2.engine := by
  obtain ⟨hdeck, hchannel, hmonitor⟩ := session.transport_snd call
  exact ⟨hdeck.trans h.deck_eq, hchannel.trans h.channel_eq, hmonitor.trans h.monitor_eq⟩

/-- A tick does nothing to the transport, or asks it to play. -/
theorem poll_cases :
    ((session.step .poll).engine.channel = session.engine.channel ∧
        (session.step .poll).engine.transport = session.engine.transport) ∧ ¬ session.CallsPlay ∨
      session.CallsPlay ∧ ∃ locked : Engine σ, locked.channel = session.engine.channel ∧
        locked.transport = session.engine.transport ∧
        locked.destroyed = session.engine.destroyed ∧
        Engine.Turned locked .playing (session.step .poll).engine := by
  let locked : Engine σ := { session.engine with player := session.engine.player.lockStore }
  have hchannel : locked.channel = session.engine.channel :=
    session.engine.player.channel_lockStore
  have htransport : locked.transport = session.engine.transport :=
    congrArg Deck.transport session.engine.player.deck_lockStore
  rw [CallsPlay, step]
  by_cases hpolls : session.polls = true
  · rw [if_pos hpolls, poll]
    dsimp only
    rw [hasPlayableQueue_lockStore]
    by_cases hplayable : session.engine.hasPlayableQueue = true
    · rw [if_pos hplayable]
      refine Or.inr ⟨⟨hpolls, hplayable⟩, locked, hchannel, htransport, rfl, ?_⟩
      have hturned :=
        turned_transport { session with engine := locked } Engine.play locked.turned_play
      split_ifs
      · exact hturned
      · exact hturned
    · rw [if_neg hplayable]
      exact Or.inl ⟨⟨hchannel, htransport⟩, fun h ↦ hplayable h.2⟩
  · rw [if_neg hpolls]
    exact Or.inl ⟨⟨rfl, rfl⟩, fun h ↦ hpolls h.1⟩

/-- Handling an event starts nothing. -/
theorem channel_handle (event : Event) :
    ∃ events, (session.handle event).engine.channel = session.engine.channel.emitAll events ∧
      ∀ event ∈ events, event.isStart = false := by
  obtain ⟨-, hchannel, -, -⟩ :=
    Playback.handle_effect session.producer session.engine.player event
  have hquiet : ∀ {after : EventChannel},
      after = (session.producer.handle session.engine.player event).2.channel →
      ∃ events, after = session.engine.channel.emitAll events ∧
        ∀ event ∈ events, event.isStart = false := fun hafter ↦
    ⟨[], hafter.trans hchannel, fun _ hmem ↦ absurd hmem List.not_mem_nil⟩
  match event with
  | .playbackStateChanged _ .playing | .playbackStateChanged _ .paused
  | .playbackStateChanged _ .stopped | .atomChanged _ _ | .loopWrapped _ | .readyToPlay _
  | .seeked _ _ => exact hquiet rfl
  | .underrunPause queued threshold =>
    let noted := session.note (.pausingOnUnderrun queued threshold)
    have hturned := noted.turned_transport Engine.pause (noted.engine.turned_halt .paused)
    have hpaused : ∃ events, (noted.transport Engine.pause).2.engine.channel =
        session.engine.channel.emitAll events ∧ ∀ event ∈ events, event.isStart = false := by
      refine ⟨noted.engine.turns .paused, hturned.channel_eq, fun event hmem ↦ ?_⟩
      by_contra hstart
      obtain ⟨htarget, -⟩ :=
        noted.engine.start_of_mem_turns hmem (Bool.eq_true_of_not_eq_false hstart)
      cases htarget
    rw [handle]
    dsimp only
    rw [pauseForUnderrun]
    dsimp only
    split_ifs
    · exact hpaused
    · exact hpaused
    · exact hquiet rfl

theorem waiting_deliver_nil (h : session.waiting = []) : session.deliver = session := by
  have hnone : session.engine.player.channel.waiting = [] := h
  rw [deliver, EventChannel.receive, hnone]

/-- The deliveries of a session with a waiting event. -/
theorem deliver_cons {event : Event} {rest : List Event} (h : session.waiting = event :: rest) :
    ∃ received : Session σ, session.deliver = received.handle event ∧ received.waiting = rest ∧
      received.engine.transport = session.engine.transport ∧
      received.controller = session.controller := by
  have hsome : session.engine.player.channel.waiting = event :: rest := h
  rw [deliver, EventChannel.receive, hsome]
  exact ⟨_, rfl, rfl, rfl, rfl⟩

/-- A step sends the report of a start only if it starts the transport. -/
theorem added_step (action : Action) :
    session.engine.Added (session.step action).engine (session.held action) := by
  cases action with
  | play => exact session.engine.added_turned session.engine.turned_play
  | pause => exact session.engine.added_turned (session.engine.turned_halt .paused)
  | stop => exact session.engine.added_turned (session.engine.turned_halt .stopped)
  | seek position => exact session.engine.added_step (.call (.seek position)) rfl
  | render locked bytes => exact session.engine.added_step (.period locked bytes) rfl
  | fill => exact session.added_fill
  | pass now nextPoll =>
    exact ⟨[], (List.append_nil _).symm, fun _ hmem ↦ absurd hmem List.not_mem_nil⟩
  | poll =>
    rcases session.poll_cases with
      ⟨⟨hchannel, -⟩, -⟩ | ⟨-, locked, hchannel, htransport, -, hturned⟩
    · exact ⟨[], by rw [hchannel, List.append_nil]; rfl,
        fun _ hmem ↦ absurd hmem List.not_mem_nil⟩
    · have hadded := locked.added_turned hturned
      rwa [Engine.Added, htransport, hchannel] at hadded
  | deliver =>
    rw [held, step]
    cases hwaiting : session.waiting with
    | nil =>
      refine ⟨[], ?_, fun _ hmem ↦ absurd hmem List.not_mem_nil⟩
      rw [session.waiting_deliver_nil hwaiting]
      exact hwaiting
    | cons event rest =>
      obtain ⟨received, hdeliver, hreceived, -, -⟩ := session.deliver_cons hwaiting
      obtain ⟨events, hchannel, hnone⟩ := received.channel_handle event
      rw [hdeliver, List.tail_cons, ← hreceived]
      exact Engine.added_of_emitAll hchannel fun event hmem hstart ↦
        absurd (hstart.symm.trans (hnone event hmem)) Bool.noConfusion

/-- The controller remembers its pause, and will not hear of an earlier start. -/
def Holds (session : Session σ) : Prop :=
  session.controller.paused = true ∧ ∀ event ∈ session.waiting, event.isStart = false

/-- At a paused transport, handling an event makes the controller forget its pause if it reports a
start. -/
theorem paused_handle_of_paused (h : session.engine.transport = .paused) (event : Event) :
    (session.handle event).controller.paused =
      (session.controller.paused && !event.isStart) := by
  have hidle : ¬ (session.engine.player.deck.transport = .playing ∧
      session.engine.destroyed = false) := fun hplaying ↦
    PlayState.noConfusion (h.symm.trans hplaying.1)
  rw [paused_handle]
  match event with
  | .underrunPause _ _ =>
    rw [eventDeeds, if_neg hidle]
    exact (Bool.and_true _).symm
  | .playbackStateChanged _ .playing => exact (Bool.and_false _).symm
  | .playbackStateChanged _ .paused | .playbackStateChanged _ .stopped
  | .atomChanged _ _ | .loopWrapped _ | .readyToPlay _ | .seeked _ _ =>
    exact (Bool.and_true _).symm

/-- A step that leaves the transport paused and handles no event leaves the memory alone. -/
theorem paused_step_of_paused {action : Action} (hdeliver : action ≠ .deliver)
    (hafter : (session.step action).engine.transport = .paused) :
    (session.step action).controller.paused = session.controller.paused := by
  cases action with
  | deliver => exact absurd rfl hdeliver
  | play | pause | stop | seek | render | fill | pass => rfl
  | poll =>
    rw [paused_poll, deeds]
    by_cases hresumes : session.CallsPlay ∧ session.engine.destroyed = false
    · rcases session.poll_cases with ⟨-, hno⟩ | ⟨-, locked, -, -, hlive, hturned⟩
      · exact absurd hresumes.1 hno
      · rw [Engine.transport, hturned.deck_eq, hlive, hresumes.2] at hafter
        cases hafter
    · rw [if_neg hresumes]
      rfl

/-- As long as the transport stays paused, the controller forgets its pause only by the report of a
start that waited before. -/
theorem holds_step_iff {action : Action} (hbefore : session.engine.transport = .paused)
    (hafter : (session.step action).engine.transport = .paused) :
    (session.step action).Holds ↔ session.Holds := by
  obtain ⟨added, hwaiting, hstarts⟩ := session.added_step action
  have hnone : ∀ event ∈ added, event.isStart = false := by
    intro event hmem
    by_contra hstart
    have hplaying := (hstarts event hmem (Bool.eq_true_of_not_eq_false hstart)).2.1
    exact PlayState.noConfusion (hafter.symm.trans hplaying)
  have hmem : (∀ event ∈ (session.step action).waiting, event.isStart = false) ↔
      ∀ event ∈ session.held action, event.isStart = false := by
    rw [waiting, hwaiting, List.forall_mem_append]
    exact and_iff_left hnone
  rw [Holds, Holds, hmem]
  by_cases hdeliver : action = .deliver
  · subst hdeliver
    rw [held, step]
    cases hqueue : session.waiting with
    | nil =>
      rw [session.waiting_deliver_nil hqueue]
      rfl
    | cons event rest =>
      obtain ⟨received, hhandled, -, htransport, hcontroller⟩ := session.deliver_cons hqueue
      rw [hhandled, received.paused_handle_of_paused (htransport.trans hbefore), hcontroller,
        List.tail_cons, List.forall_mem_cons, Bool.and_eq_true_iff, Bool.not_eq_true', and_assoc]
  · rw [session.paused_step_of_paused hdeliver hafter]
    have hheld : session.held action = session.waiting := by
      cases action with
      | deliver => exact absurd rfl hdeliver
      | _ => rfl
    rw [hheld]

end Step

/-! ### Runs -/

/-- After some steps the controller pauses, and through further steps the transport stays so. -/
def PausesThrough (session : Session σ) (earlier later : List Action) : Prop :=
  (session.run earlier).deeds .deliver = [.paused] ∧
    ∀ played, played <+: later →
      (session.run (earlier ++ .deliver :: played)).engine.transport = .paused

/-- Whenever no event waits and the last change of the transport was a pause of the controller, the
controller remembers it and, if it may resume, polls. -/
def RemembersPause (session : Session σ) (actions : List Action) : Prop :=
  ∀ earlier later, earlier ++ .deliver :: later <+: actions →
    PausesThrough session earlier later →
    (session.run (earlier ++ .deliver :: later)).waiting = [] →
    let quiet := session.run (earlier ++ .deliver :: later)
    quiet.controller.paused = true ∧ (quiet.controller.autoResume = true → quiet.polls = true)

section Run

variable {session : Session σ}

/-- A controller that has paused remembers it. -/
theorem paused_of_deeds {earlier : List Action}
    (h : (session.run earlier).deeds .deliver = [.paused]) :
    (session.run (earlier ++ [.deliver])).controller.paused = true := by
  rw [run_append]
  change ((session.run earlier).step .deliver).controller.paused = true
  rw [paused_step, h]
  rfl

/-- The controller goes on remembering its pause if and only if no start was reported before it that
it has not heard of. -/
theorem holds_run_iff {earlier later : List Action} (h : PausesThrough session earlier later) :
    (session.run (earlier ++ .deliver :: later)).Holds ↔
      ∀ event ∈ (session.run (earlier ++ [.deliver])).waiting, event.isStart = false := by
  induction later using List.reverseRecOn with
  | nil => exact and_iff_right (paused_of_deeds h.1)
  | append_singleton later action ih =>
    have hlast : session.run (earlier ++ .deliver :: (later ++ [action])) =
        (session.run (earlier ++ .deliver :: later)).step action := by
      rw [← List.cons_append, ← List.append_assoc, run_append]
      rfl
    have hbefore := h.2 later (List.prefix_append _ _)
    have hafter := h.2 (later ++ [action]) (List.prefix_refl _)
    rw [hlast] at hafter ⊢
    rw [holds_step_iff _ hbefore hafter]
    exact ih ⟨h.1, fun played hplayed ↦ h.2 played (hplayed.trans (List.prefix_append _ _))⟩

/-- No start was reported behind a request to pause. -/
def RequestsLast (session : Session σ) : Prop :=
  session.waiting.Pairwise fun first second ↦ first.isRequest = true → second.isStart = false

theorem requestsLast_step {action : Action} (h : session.RequestsLast)
    (hstart : session.engine.transport ≠ .playing →
      (session.step action).engine.transport = .playing →
        ∀ event ∈ session.waiting, event.isRequest = false) :
    (session.step action).RequestsLast := by
  obtain ⟨added, hwaiting, hstarts⟩ := session.added_step action
  have hheld : (session.held action).Sublist session.waiting := by
    cases action with
    | deliver => exact List.tail_sublist _
    | _ => exact List.Sublist.refl _
  rw [RequestsLast, waiting, hwaiting, List.pairwise_append]
  refine ⟨h.sublist hheld, ?_, ?_⟩
  · by_cases hany : ∃ event ∈ added, event.isStart = true
    · obtain ⟨event, hmem, hevent⟩ := hany
      rw [(hstarts event hmem hevent).2.2]
      exact List.pairwise_singleton _ _
    · refine List.pairwise_of_forall_mem_list fun first _ second hmem _ ↦ ?_
      exact Bool.eq_false_iff.mpr fun hevent ↦ hany ⟨second, hmem, hevent⟩
  · intro first hfirst second hsecond hrequest
    by_contra hevent
    obtain ⟨hbefore, hafter, -⟩ :=
      hstarts second hsecond (Bool.eq_true_of_not_eq_false hevent)
    have hnone := hstart hbefore hafter first (hheld.subset hfirst)
    exact Bool.false_ne_true (hnone.symm.trans hrequest)

theorem requestsLast_run {actions : List Action} (hempty : session.waiting = [])
    (hstart : ∀ before action, before ++ [action] <+: actions →
      (session.run before).engine.transport ≠ .playing →
      (session.run (before ++ [action])).engine.transport = .playing →
        ∀ event ∈ (session.run before).waiting, event.isRequest = false) :
    (session.run actions).RequestsLast := by
  induction actions using List.reverseRecOn with
  | nil =>
    rw [RequestsLast, run, List.foldl_nil, hempty]
    exact .nil
  | append_singleton actions action ih =>
    have hlast := hstart actions action (List.prefix_refl _)
    rw [run_append] at hlast ⊢
    exact requestsLast_step (ih fun before other hinitial ↦
      hstart before other (hinitial.trans (List.prefix_append _ _))) hlast

omit [OutputStream σ] in
/-- The controller pauses because of the oldest event. -/
theorem exists_request_of_deeds (h : session.deeds .deliver = [.paused]) :
    ∃ request rest, session.waiting = request :: rest ∧ request.isRequest = true := by
  have hreceived : ((session.engine.player.channel.receive.1.map session.eventDeeds).getD []) =
      [.paused] := h
  rw [EventChannel.receive] at hreceived
  cases hwaiting : session.engine.player.channel.waiting with
  | nil =>
    rw [hwaiting] at hreceived
    cases hreceived
  | cons event rest =>
    rw [hwaiting] at hreceived
    refine ⟨event, rest, hwaiting, ?_⟩
    cases event with
    | underrunPause => rfl
    | playbackStateChanged old new => cases new <;> cases hreceived
    | atomChanged | loopWrapped | readyToPlay | seeked => cases hreceived

/-- When the controller pauses, every event that waits then was reported behind its request. -/
theorem quiet_of_requestsLast {earlier later : List Action}
    (h : PausesThrough session earlier later) (hlast : (session.run earlier).RequestsLast) :
    ∀ event ∈ (session.run (earlier ++ [.deliver])).waiting, event.isStart = false := by
  have hpaused : (session.run (earlier ++ [.deliver])).engine.transport = .paused :=
    h.2 [] List.nil_prefix
  rw [run_append] at hpaused ⊢
  obtain ⟨request, rest, hqueue, hrequest⟩ := exists_request_of_deeds h.1
  obtain ⟨added, hwaiting, hstarts⟩ := (session.run earlier).added_step .deliver
  intro event hmem
  by_contra hevent
  have hstart := Bool.eq_true_of_not_eq_false hevent
  have hsplit : event ∈ (session.run earlier).waiting.tail ++ added := hwaiting ▸ hmem
  rcases List.mem_append.mp hsplit with hold | hnew
  · rw [RequestsLast, hqueue, List.pairwise_cons] at hlast
    rw [hqueue] at hold
    exact hevent (hlast.1 event hold hrequest)
  · exact PlayState.noConfusion (hpaused.symm.trans (hstarts event hnew hstart).2.1)

/-- Once no event waits, the controller remembers every pause of its own that is the last change of
the transport, if and only if no start was reported before such a pause that it had still to hear
of. It does so in particular if the transport is never started while a request to pause waits.

A call of `play` or `pause` is a whole step, and so is the handling of an event: the controller's
look at the transport and the pause that follows are one. No report is sent between the parts of a
step. -/
theorem remembersPause_iff (session : Session σ) (actions : List Action) :
    (RemembersPause session actions ↔
      ∀ earlier later, earlier ++ .deliver :: later <+: actions →
        PausesThrough session earlier later →
        (session.run (earlier ++ .deliver :: later)).waiting = [] →
          ∀ event ∈ (session.run (earlier ++ [.deliver])).waiting, event.isStart = false) ∧
    (session.waiting = [] →
      (∀ before action, before ++ [action] <+: actions →
        (session.run before).engine.transport ≠ .playing →
        (session.run (before ++ [action])).engine.transport = .playing →
          ∀ event ∈ (session.run before).waiting, event.isRequest = false) →
      RemembersPause session actions) := by
  have hexact : RemembersPause session actions ↔
      ∀ earlier later, earlier ++ .deliver :: later <+: actions →
        PausesThrough session earlier later →
        (session.run (earlier ++ .deliver :: later)).waiting = [] →
          ∀ event ∈ (session.run (earlier ++ [.deliver])).waiting, event.isStart = false := by
    constructor
    · intro hremembers earlier later hinitial hpauses hempty
      refine (holds_run_iff hpauses).mp ⟨(hremembers earlier later hinitial hpauses hempty).1, ?_⟩
      rw [hempty]
      exact fun _ hmem ↦ absurd hmem List.not_mem_nil
    · intro hquiet earlier later hinitial hpauses hempty
      have hholds := (holds_run_iff hpauses).mpr (hquiet earlier later hinitial hpauses hempty)
      refine ⟨hholds.1, fun hresumes ↦ ?_⟩
      rw [polls, hholds.1, hresumes]
      rfl
  refine ⟨hexact, fun hempty hstart ↦ hexact.mpr fun earlier later hinitial hpauses _ ↦ ?_⟩
  have hearlier : earlier <+: actions := (List.prefix_append _ _).trans hinitial
  exact quiet_of_requestsLast hpauses (requestsLast_run hempty fun before action hbefore ↦
    hstart before action (hbefore.trans hearlier))

end Run

/-- In `recovery` no request to pause waits while the transport does not play. -/
theorem remembersPause_iff_recovery :
    (rehearsal.waiting = [] ∧ (∀ before action, before ++ [action] <+: recovery →
        (rehearsal.run before).engine.transport ≠ .playing →
        (rehearsal.run (before ++ [action])).engine.transport = .playing →
          ∀ event ∈ (rehearsal.run before).waiting, event.isRequest = false) ∧
      PausesThrough rehearsal (recovery.take 3) [.deliver, .fill]) ∧
    RemembersPause rehearsal recovery := by
  have hnone : ∀ before ∈ recovery.inits, (rehearsal.run before).engine.transport ≠ .playing →
      ∀ event ∈ (rehearsal.run before).waiting, event.isRequest = false := by decide +kernel
  have hstart : ∀ before action, before ++ [action] <+: recovery →
      (rehearsal.run before).engine.transport ≠ .playing →
      (rehearsal.run (before ++ [action])).engine.transport = .playing →
        ∀ event ∈ (rehearsal.run before).waiting, event.isRequest = false := by
    intro before action hinitial hidle _
    exact hnone before ((List.mem_inits _ _).mpr ((List.prefix_append _ _).trans hinitial)) hidle
  have hstays : ∀ played ∈ [Action.deliver, .fill].inits, (rehearsal.run
      (recovery.take 3 ++ .deliver :: played)).engine.transport = .paused := by decide +kernel
  have hpauses : PausesThrough rehearsal (recovery.take 3) [.deliver, .fill] :=
    ⟨by decide +kernel, fun played hplayed ↦ hstays played ((List.mem_inits _ _).mpr hplayed)⟩
  exact ⟨⟨rfl, hstart, hpauses⟩, (remembersPause_iff rehearsal recovery).2 rfl hstart⟩

/-- The user pauses and plays while a request to pause waits. The controller handles the request and
pauses, and then hears of the user's start, which came before. -/
theorem not_remembersPause_overtaken :
    let earlier : List Action := [.play, .deliver, .render false 4, .pause, .play]
    let later : List Action := [.deliver, .deliver, .deliver]
    let quiet := rehearsal.run (earlier ++ .deliver :: later)
    rehearsal.controller = ⟨true, false⟩ ∧ PausesThrough rehearsal earlier later ∧
      quiet.waiting = [] ∧ quiet.polls = false ∧
      ¬ RemembersPause rehearsal (earlier ++ .deliver :: later) := by
  intro earlier later quiet
  have hstays : ∀ played ∈ later.inits,
      (rehearsal.run (earlier ++ .deliver :: played)).engine.transport = .paused := by
    decide +kernel
  have hpauses : PausesThrough rehearsal earlier later :=
    ⟨by decide +kernel, fun played hplayed ↦ hstays played ((List.mem_inits _ _).mpr hplayed)⟩
  have hempty : quiet.waiting = [] := by decide +kernel
  have hforgot : quiet.controller.paused = false := by decide +kernel
  refine ⟨rfl, hpauses, hempty, by decide +kernel, fun hremembers ↦ ?_⟩
  have hpaused := (hremembers earlier later (List.prefix_refl _) hpauses hempty).1
  exact Bool.false_ne_true (hforgot.symm.trans hpaused)

end Session

end TimelineMixer
