import TimelineMixer.Proofs.Output.Playout
import TimelineMixer.Proofs.Transport.Calls

/-!
# The transport and its output

An engine over a loopback output is called and pulled in any order (`Engine.pullRun`). The output is
corked exactly while the transport does not play (`Coupled`), so a pull gets audio exactly while it
plays. The reported changes of the transport are linked, and they say how often the output was
uncorked, corked and flushed (`Tallies`).
-/

set_option autoImplicit false
set_option relaxedAutoImplicit false

namespace TimelineMixer

/-- The change of the transport that an event reports. -/
def Event.change? : Event → Option (PlayState × PlayState)
  | .playbackStateChanged old new => some (old, new)
  | _ => none

theorem Event.change?_of_topic {event : Event} (h : event.topic ≠ .transport) :
    event.change? = none := by
  cases event with
  | playbackStateChanged => exact absurd rfl h
  | _ => rfl

/-- Changes lead from a state to another, each from where the one before it led. -/
def PlayState.Linked : PlayState → List (PlayState × PlayState) → PlayState → Prop
  | first, [], last => first = last
  | first, (old, new) :: rest, last => first = old ∧ old ≠ new ∧ Linked new rest last

theorem PlayState.Linked.append {first middle last : PlayState}
    {earlier later : List (PlayState × PlayState)} (hearlier : Linked first earlier middle)
    (hlater : Linked middle later last) : Linked first (earlier ++ later) last := by
  induction earlier generalizing first with
  | nil =>
    obtain rfl := hearlier
    exact hlater
  | cons change rest ih => exact ⟨hearlier.1, hearlier.2.1, ih hearlier.2.2⟩

namespace Engine

/-- Pulls a period from the output. -/
def pull (engine : Engine LoopbackOutput) (locked : Bool) (bytes : Nat) :
    Option (List UInt8) × Engine LoopbackOutput :=
  let (out, stream, player) := engine.stream.pull engine.player locked bytes
  (out, { engine with stream, player })

/-- One step, with the periods pulled from the output. -/
def pullStep (engine : Engine LoopbackOutput) : Action → Engine LoopbackOutput
  | .period locked bytes => (engine.pull locked bytes).2
  | .call command => engine.step (.call command)
  | .push key chunk => engine.step (.push key chunk)
  | .receive => engine.step .receive

/-- Steps in their order, with the periods pulled from the output. -/
def pullRun (engine : Engine LoopbackOutput) (actions : List Action) : Engine LoopbackOutput :=
  actions.foldl pullStep engine

/-- What a step reports. -/
def pullReport (engine : Engine LoopbackOutput) : Action → List Event
  | .period locked bytes =>
    if engine.stream.delivers then engine.report (.period locked bytes) else []
  | .call command => engine.report (.call command)
  | .push key chunk => engine.report (.push key chunk)
  | .receive => engine.report .receive

/-- The changes of the transport among the events of a call to pause or to stop. -/
def haltChanges (action : Action) (events : List Event) : List (PlayState × PlayState) :=
  match action with
  | .call .pause | .call .stop => events.filterMap Event.change?
  | _ => []

/-- The changes of the transport that calls to pause or to stop send along a run. -/
def halts : Engine LoopbackOutput → List Action → List (PlayState × PlayState) :=
  gather pullStep fun engine action ↦
    haltChanges action (EventChannel.sent channel pullStep engine action)

/-- Where a successful seek goes. -/
def soughtTargets (engine : Engine LoopbackOutput) : Action → List Seconds
  | .call (.seek position) => (engine.seek position).1.toOption.toList
  | _ => []

/-- A call that tears the engine down while the transport plays. -/
def drains (engine : Engine LoopbackOutput) : Action → List Command
  | .call .destroy => if engine.transport = .playing then [.destroy] else []
  | _ => []

variable (engine : Engine LoopbackOutput)

theorem pull_of_delivers (h : engine.stream.delivers = true) (locked : Bool) (bytes : Nat) :
    engine.pull locked bytes = (some (engine.player.render locked bytes).1,
      { engine.render locked bytes with
        stream := engine.stream.keep (engine.player.render locked bytes).1 }) := by
  rw [pull, LoopbackOutput.pull, if_pos h]
  rfl

theorem pull_of_not_delivers (h : engine.stream.delivers = false) (locked : Bool) (bytes : Nat) :
    engine.pull locked bytes = (none, engine) := by
  rw [pull, LoopbackOutput.pull, if_neg (by rw [h]; exact Bool.false_ne_true)]

theorem serves_pullStep :
    EventChannel.Serves (channel (σ := LoopbackOutput)) pullStep Action.isReceive pullReport := by
  intro engine action
  cases action with
  | receive => exact serves_step engine .receive
  | call command => exact serves_step engine (.call command)
  | push key chunk => exact serves_step engine (.push key chunk)
  | period locked bytes =>
    rw [if_neg (show ¬ Action.isReceive (.period locked bytes) = true from Bool.false_ne_true),
      pullStep, pullReport]
    cases hdelivers : engine.stream.delivers with
    | true =>
      rw [engine.pull_of_delivers hdelivers, if_pos rfl]
      exact serves_step engine (.period locked bytes)
    | false =>
      rw [engine.pull_of_not_delivers hdelivers, if_neg Bool.false_ne_true]
      exact .refl _

/-! ### Calls on the output -/

theorem stream_play : engine.play.2.stream =
    if engine.destroyed = true ∨ engine.transport = .playing then engine.stream
    else engine.stream.uncork.stream := by
  rw [play, swap, Deck.swap, transport]
  cases hlive : engine.destroyed with
  | true => rw [if_pos rfl, if_pos (Or.inl rfl)]
  | false =>
    rw [if_neg Bool.false_ne_true]
    dsimp only
    by_cases hsame : engine.player.deck.transport = .playing
    · rw [if_pos hsame, if_pos (Or.inr hsame)]
    · rw [if_neg hsame, if_neg (by simp [hsame])]
      rfl

theorem stream_halt (target : PlayState) : (engine.halt target).2.stream =
    if engine.destroyed = true ∨ engine.transport = target then engine.stream
    else engine.stream.cork.stream.flush.stream := by
  rw [halt, swap, Deck.swap, transport]
  cases hlive : engine.destroyed with
  | true => rw [if_pos rfl, if_pos (Or.inl rfl)]
  | false =>
    rw [if_neg Bool.false_ne_true]
    dsimp only
    by_cases hsame : engine.player.deck.transport = target
    · rw [if_pos hsame, if_pos (Or.inr hsame)]
    · rw [if_neg hsame, if_neg (by simp [hsame])]
      rfl

theorem stream_destroy : engine.destroy.stream =
    if engine.destroyed = true then engine.stream
    else ((if engine.transport = .playing then engine.stream.drain.stream
      else engine.stream).cork.stream).close := by
  rw [destroy, transport]
  cases hlive : engine.destroyed with
  | true => rw [if_pos rfl, if_pos rfl]
  | false =>
    rw [if_neg Bool.false_ne_true, if_neg Bool.false_ne_true, swap, Deck.swap]
    dsimp only
    split_ifs <;> rfl

theorem destroyed_play : engine.play.2.destroyed = engine.destroyed := by
  rw [play, swap, Deck.swap]
  dsimp only
  split_ifs <;> rfl

theorem destroyed_halt (target : PlayState) :
    (engine.halt target).2.destroyed = engine.destroyed := by
  rw [halt, swap, Deck.swap]
  dsimp only
  split_ifs <;> rfl

theorem destroyed_setTimeline (timeline : Timeline) :
    (engine.setTimeline timeline).2.destroyed = engine.destroyed := by
  rw [setTimeline]
  split_ifs <;> rfl

theorem destroyed_destroy : engine.destroy.destroyed = true := by
  rw [destroy, swap, Deck.swap]
  cases hlive : engine.destroyed with
  | true => rw [if_pos rfl, hlive]
  | false =>
    rw [if_neg Bool.false_ne_true]
    dsimp only
    split_ifs <;> rfl

/-- Only a call to tear the engine down does so. -/
theorem destroyed_pullStep (action : Action) :
    (engine.pullStep action).destroyed = true ↔
      engine.destroyed = true ∨ action = .call .destroy := by
  have hkept : ∀ {other : Action}, other ≠ .call .destroy →
      (engine.pullStep other).destroyed = engine.destroyed →
      ((engine.pullStep other).destroyed = true ↔
        engine.destroyed = true ∨ other = .call .destroy) := by
    intro other hother hsame
    rw [hsame]
    exact (or_iff_left hother).symm
  cases action with
  | receive | push => exact hkept (by simp) rfl
  | period locked bytes =>
    refine hkept (by simp) ?_
    rw [pullStep]
    cases hdelivers : engine.stream.delivers with
    | true => rw [engine.pull_of_delivers hdelivers]; rfl
    | false => rw [engine.pull_of_not_delivers hdelivers]
  | call command =>
    cases command with
    | play => exact hkept (by simp) engine.destroyed_play
    | pause => exact hkept (by simp) (engine.destroyed_halt .paused)
    | stop => exact hkept (by simp) (engine.destroyed_halt .stopped)
    | setVolume volume => exact hkept (by simp) rfl
    | setTimeline timeline => exact hkept (by simp) (engine.destroyed_setTimeline timeline)
    | destroy => exact iff_of_true engine.destroyed_destroy (Or.inr rfl)
    | seek position =>
      refine hkept (by simp) ?_
      rw [pullStep, step, obey]
      rcases engine.seek_cases position with ⟨cause, hseek, -⟩ | ⟨target, index, -, -, -, hsought⟩
      · rw [hseek]
      · exact hsought.destroyed_eq

theorem destroyed_pullRun (actions : List Action) :
    (engine.pullRun actions).destroyed = true ↔
      engine.destroyed = true ∨ .call .destroy ∈ actions := by
  induction actions generalizing engine with
  | nil => simp [pullRun]
  | cons action rest ih =>
    rw [List.mem_cons, ← or_assoc, eq_comm (a := Action.call .destroy), ← destroyed_pullStep]
    exact ih (engine.pullStep action)

/-! ### Output and transport -/

/-- The output is open until the engine is torn down, and corked unless the transport plays. -/
structure Coupled (engine : Engine LoopbackOutput) : Prop where
  started_eq : engine.stream.started = !engine.destroyed
  closed_eq : engine.stream.closed = engine.destroyed
  corked_eq : engine.stream.corked = !decide (engine.transport = .playing)
  stopped : engine.destroyed = true → engine.transport = .stopped

variable {engine}

theorem Coupled.delivers_eq (h : engine.Coupled) :
    engine.stream.delivers = decide (engine.transport = .playing) := by
  rw [LoopbackOutput.delivers, h.started_eq, h.corked_eq, h.closed_eq]
  cases hlive : engine.destroyed with
  | false => simp
  | true => simp [h.stopped hlive]

/-- What some steps do to the transport and to the counts of the output: calls to pause or to stop
report `halted` changes of the transport, `sought` seeks succeed, and `drained` times the engine is
torn down while the transport plays. -/
structure Tallies (before : Engine LoopbackOutput) (events : List Event)
    (halted sought drained : Nat) (after : Engine LoopbackOutput) : Prop where
  coupled : after.Coupled
  linked : before.transport.Linked (events.filterMap Event.change?) after.transport
  uncork_eq : after.stream.counts.uncork =
    before.stream.counts.uncork + events.countP Event.isStart
  cork_eq : after.stream.counts.cork + before.destroyed.toNat =
    before.stream.counts.cork + halted + after.destroyed.toNat
  flush_eq : after.stream.counts.flush = before.stream.counts.flush + halted + sought
  drain_eq : after.stream.counts.drain = before.stream.counts.drain + drained
  drained_le : drained + before.destroyed.toNat ≤ after.destroyed.toNat
  close_eq : after.stream.counts.close + before.destroyed.toNat =
    before.stream.counts.close + after.destroyed.toNat

theorem Tallies.trans {first middle last : Engine LoopbackOutput} {early late : List Event}
    {a b c a' b' c' : Nat} (hfirst : first.Tallies early a b c middle)
    (hlast : middle.Tallies late a' b' c' last) :
    first.Tallies (early ++ late) (a + a') (b + b') (c + c') last where
  coupled := hlast.coupled
  linked := by
    rw [List.filterMap_append]
    exact hfirst.linked.append hlast.linked
  uncork_eq := by rw [hlast.uncork_eq, hfirst.uncork_eq, List.countP_append, Nat.add_assoc]
  cork_eq := by
    have hearly := hfirst.cork_eq
    have hlate := hlast.cork_eq
    omega
  flush_eq := by
    have hearly := hfirst.flush_eq
    have hlate := hlast.flush_eq
    omega
  drain_eq := by rw [hlast.drain_eq, hfirst.drain_eq, Nat.add_assoc]
  drained_le := by
    have hearly := hfirst.drained_le
    have hlate := hlast.drained_le
    omega
  close_eq := by
    have hearly := hfirst.close_eq
    have hlate := hlast.close_eq
    omega

/-- Steps that leave the transport and the output alone, but for the pending bytes. -/
theorem tallies_idle (h : engine.Coupled) {after : Engine LoopbackOutput} {events : List Event}
    (htransport : after.transport = engine.transport)
    (hdestroyed : after.destroyed = engine.destroyed)
    (hstream : after.stream = { engine.stream with pending := after.stream.pending })
    (hquiet : ∀ event ∈ events, event.topic ≠ .transport) :
    engine.Tallies events 0 0 0 after where
  coupled := by
    refine ⟨?_, ?_, ?_, ?_⟩
    · rw [hstream, hdestroyed]
      exact h.started_eq
    · rw [hstream, hdestroyed]
      exact h.closed_eq
    · rw [hstream, htransport]
      exact h.corked_eq
    · rw [hdestroyed, htransport]
      exact h.stopped
  linked := by
    have hnone : events.filterMap Event.change? = [] :=
      List.filterMap_eq_nil_iff.mpr fun event hmem ↦ Event.change?_of_topic (hquiet event hmem)
    rw [hnone]
    exact htransport.symm
  uncork_eq := by
    have hnone : events.countP Event.isStart = 0 :=
      List.countP_eq_zero.mpr fun event hmem ↦
        Bool.eq_false_iff.mp (Event.isStart_of_topic (hquiet event hmem))
    rw [hstream, hnone, Nat.add_zero]
  cork_eq := by rw [hstream, hdestroyed, Nat.add_zero]
  flush_eq := congrArg (fun stream ↦ stream.counts.flush) hstream
  drain_eq := congrArg (fun stream ↦ stream.counts.drain) hstream
  drained_le := by rw [hdestroyed, Nat.zero_add]
  close_eq := by rw [hstream, hdestroyed]

/-- Turning the transport to a state it is not in reports the change. -/
theorem turns_of_ne {target : PlayState} (hlive : engine.destroyed = false)
    (hother : engine.transport ≠ target) :
    engine.turns target = [.playbackStateChanged engine.transport target] :=
  if_neg fun h ↦ h.elim (fun hgone ↦ Bool.false_ne_true (hlive ▸ hgone)) hother

theorem turns_of_eq {target : PlayState} (h : engine.destroyed = true ∨ engine.transport = target) :
    engine.turns target = [] :=
  if_pos h

/-- A reported change is a start if and only if it leads to playing. -/
theorem countP_isStart_turns {target : PlayState} (hlive : engine.destroyed = false)
    (hother : engine.transport ≠ target) :
    (engine.turns target).countP Event.isStart = (decide (target = .playing)).toNat := by
  rw [turns_of_ne hlive hother]
  cases target <;> rfl

/-- What a change of the transport reports is linked. -/
theorem linked_turns {target : PlayState} (hlive : engine.destroyed = false)
    (hother : engine.transport ≠ target) :
    engine.transport.Linked ((engine.turns target).filterMap Event.change?) target := by
  rw [turns_of_ne hlive hother]
  exact ⟨rfl, hother, rfl⟩

theorem transport_of_turned {target : PlayState} {after : Engine LoopbackOutput}
    (h : Turned engine target after) (hlive : engine.destroyed = false) :
    after.transport = target := by
  rw [transport, h.deck_eq, hlive]
  rfl

/-- A call that turns the transport to the state it is in, or that is refused, does nothing. -/
theorem tallies_of_same (h : engine.Coupled) {target : PlayState} {after : Engine LoopbackOutput}
    (hturned : Turned engine target after)
    (hsame : engine.destroyed = true ∨ engine.transport = target)
    (hdestroyed : after.destroyed = engine.destroyed) (hstream : after.stream = engine.stream) :
    engine.Tallies (engine.turns target) 0 0 0 after := by
  refine tallies_idle h ?_ hdestroyed (by rw [hstream]) ?_
  · rw [transport, hturned.deck_eq]
    split_ifs with hlive
    · rfl
    · exact (hsame.resolve_left hlive).symm
  · rw [turns_of_eq hsame]
    exact fun _ hmem ↦ absurd hmem List.not_mem_nil

/-- A call that changes the transport uncorks the output for playing, and else corks and flushes
it. -/
theorem tallies_of_changed (h : engine.Coupled) {target : PlayState}
    {after : Engine LoopbackOutput} {halted : Nat} (hturned : Turned engine target after)
    (hlive : engine.destroyed = false) (hother : engine.transport ≠ target)
    (hdestroyed : after.destroyed = engine.destroyed)
    (hstream : after.stream = { engine.stream with
      corked := !decide (target = .playing)
      pending := after.stream.pending
      counts := { engine.stream.counts with
        uncork := engine.stream.counts.uncork + (decide (target = .playing)).toNat
        cork := engine.stream.counts.cork + halted
        flush := engine.stream.counts.flush + halted } }) :
    engine.Tallies (engine.turns target) halted 0 0 after where
  coupled := by
    refine ⟨?_, ?_, ?_, ?_⟩
    · rw [hstream, hdestroyed]
      exact h.started_eq
    · rw [hstream, hdestroyed]
      exact h.closed_eq
    · rw [hstream, transport_of_turned hturned hlive]
    · rw [hdestroyed, hlive]
      exact fun hgone ↦ absurd hgone Bool.false_ne_true
  linked := by
    rw [transport_of_turned hturned hlive]
    exact linked_turns hlive hother
  uncork_eq := by rw [hstream, countP_isStart_turns hlive hother]
  cork_eq := by rw [hstream, hdestroyed]
  flush_eq := by rw [hstream, Nat.add_zero]
  drain_eq := congrArg (fun stream ↦ stream.counts.drain) hstream
  drained_le := by rw [hdestroyed, Nat.zero_add]
  close_eq := by rw [hstream, hdestroyed]

theorem tallies_play (h : engine.Coupled) :
    engine.Tallies (engine.turns .playing) 0 0 0 engine.play.2 := by
  have hstream := engine.stream_play
  by_cases hsame : engine.destroyed = true ∨ engine.transport = .playing
  · exact tallies_of_same h engine.turned_play hsame engine.destroyed_play
      (hstream.trans (if_pos hsame))
  · obtain ⟨hgone, hother⟩ := not_or.mp hsame
    have hopen : ¬ engine.stream.closed = true := by rwa [h.closed_eq]
    rw [if_neg hsame, LoopbackOutput.uncork, if_neg hopen] at hstream
    refine tallies_of_changed h engine.turned_play (Bool.eq_false_iff.mpr hgone) hother
      engine.destroyed_play ?_
    rw [hstream]
    rfl

theorem tallies_halt (h : engine.Coupled) {target : PlayState} (hhalt : target ≠ .playing) :
    engine.Tallies (engine.turns target) ((engine.turns target).filterMap Event.change?).length 0 0
      (engine.halt target).2 := by
  have hstream := engine.stream_halt target
  by_cases hsame : engine.destroyed = true ∨ engine.transport = target
  · have htallies := tallies_of_same h (engine.turned_halt target) hsame
      (engine.destroyed_halt target) (hstream.trans (if_pos hsame))
    rwa [turns_of_eq hsame] at htallies ⊢
  · obtain ⟨hgone, hother⟩ := not_or.mp hsame
    have hlive := Bool.eq_false_iff.mpr hgone
    rw [if_neg hsame] at hstream
    refine tallies_of_changed h (engine.turned_halt target) hlive hother
      (engine.destroyed_halt target) ?_
    rw [hstream, turns_of_ne hlive hother, decide_eq_false hhalt]
    rfl

theorem tallies_destroy (h : engine.Coupled) :
    engine.Tallies (engine.turns .stopped) 0 0 (engine.drains (.call .destroy)).length
      engine.destroy := by
  have hstream := engine.stream_destroy
  have hgone := engine.destroyed_destroy
  cases hlive : engine.destroyed with
  | true =>
    have hstopped := h.stopped hlive
    rw [if_pos hlive] at hstream
    have htallies := tallies_of_same h engine.turned_destroy (Or.inl hlive)
      (hgone.trans hlive.symm) hstream
    rw [drains, if_neg (by rw [hstopped]; exact PlayState.noConfusion)]
    exact htallies
  | false =>
    rw [if_neg (by rw [hlive]; exact Bool.false_ne_true)] at hstream
    have hafter := transport_of_turned engine.turned_destroy hlive
    have hdrained : (if engine.transport = .playing then engine.stream.drain.stream
        else engine.stream) = { engine.stream with
          counts := { engine.stream.counts with
            drain := engine.stream.counts.drain +
              (engine.drains (.call .destroy)).length } } := by
      rw [drains]
      by_cases hplaying : engine.transport = .playing
      · rw [if_pos hplaying, if_pos hplaying, LoopbackOutput.drain]
        dsimp only
        split_ifs <;> rfl
      · rw [if_neg hplaying, if_neg hplaying]
        rfl
    have hopen : ¬ engine.stream.closed = true := by
      rw [h.closed_eq, hlive]
      exact Bool.false_ne_true
    rw [hdrained, LoopbackOutput.cork, Reply.ok, LoopbackOutput.close] at hstream
    dsimp only at hstream
    rw [if_neg hopen] at hstream
    refine ⟨⟨?_, ?_, ?_, fun _ ↦ hafter⟩, ?_, ?_, ?_, ?_, ?_, ?_, ?_⟩
    · rw [hstream, hgone]
      rfl
    · rw [hstream, hgone]
    · rw [hstream, hafter]
      rfl
    · rw [hafter]
      by_cases hsame : engine.transport = .stopped
      · rw [turns_of_eq (Or.inr hsame), hsame]
        rfl
      · exact linked_turns hlive hsame
    · have hnone : (engine.turns .stopped).countP Event.isStart = 0 := by
        rw [turns]
        split_ifs <;> rfl
      rw [hstream, hnone]
      rfl
    · rw [hstream, hgone, hlive]
      rfl
    · rw [hstream]
      rfl
    · rw [hstream]
    · rw [hgone, hlive, drains]
      split_ifs <;> decide
    · rw [hstream, hgone, hlive]
      rfl

theorem tallies_seek (h : engine.Coupled) (position : Seconds) :
    engine.Tallies (engine.callReport (.seek position)) 0
      (engine.soughtTargets (.call (.seek position))).length 0 (engine.seek position).2 := by
  rw [soughtTargets]
  rcases engine.seek_cases position with ⟨cause, hseek, -⟩ | ⟨target, index, -, -, hok, hsought⟩
  · rw [engine.callReport_of_refused hseek, hseek]
    exact tallies_idle h rfl rfl rfl fun _ hmem ↦ absurd hmem List.not_mem_nil
  · have hstream := hsought.stream_eq
    have hdestroyed := hsought.destroyed_eq
    have htransport : (engine.seek position).2.transport = engine.transport := by
      rw [transport, hsought.deck_eq]
      rfl
    have hflush : OutputStream.flush engine.flushTimeout engine.stream = engine.stream.flush := rfl
    rw [hflush, LoopbackOutput.flush, Reply.ok] at hstream
    dsimp only at hstream
    rw [engine.callReport_seek hok hsought, hok]
    refine ⟨⟨?_, ?_, ?_, ?_⟩, htransport.symm, ?_, ?_, ?_, ?_, ?_, ?_⟩
    · rw [hstream, hdestroyed]
      exact h.started_eq
    · rw [hstream, hdestroyed]
      exact h.closed_eq
    · rw [hstream, htransport]
      exact h.corked_eq
    · rw [hdestroyed, htransport]
      exact h.stopped
    · rw [hstream]
      rfl
    · rw [hstream, hdestroyed]
      rfl
    · rw [hstream]
      rfl
    · rw [hstream]
      rfl
    · rw [hdestroyed, Nat.zero_add]
    · rw [hstream, hdestroyed]

theorem tallies_setTimeline (h : engine.Coupled) (timeline : Timeline) :
    engine.Tallies [] 0 0 0 (engine.setTimeline timeline).2 := by
  have htransport : (engine.setTimeline timeline).2.transport = engine.transport := by
    rcases engine.setTimeline_cases timeline with ⟨hrefused, -⟩ | ⟨-, -, hdeck, -, -⟩
    · rw [hrefused]
    · rw [transport, hdeck]
      rfl
  have hdestroyed := engine.destroyed_setTimeline timeline
  have hstream : (engine.setTimeline timeline).2.stream = engine.stream := by
    rw [setTimeline]
    split_ifs <;> rfl
  exact tallies_idle h htransport hdestroyed (by rw [hstream])
    fun _ hmem ↦ absurd hmem List.not_mem_nil

theorem tallies_step (h : engine.Coupled) (action : Action) :
    engine.Tallies (engine.pullReport action)
      (haltChanges action (engine.pullReport action)).length (engine.soughtTargets action).length
      (engine.drains action).length (engine.pullStep action) := by
  cases action with
  | receive => exact tallies_idle h rfl rfl rfl fun _ hmem ↦ absurd hmem List.not_mem_nil
  | push key chunk =>
    obtain ⟨hdeck, -⟩ := engine.step_push key chunk
    exact tallies_idle h (congrArg Deck.transport hdeck) rfl rfl
      fun _ hmem ↦ absurd hmem List.not_mem_nil
  | period locked bytes =>
    rw [pullReport, pullStep]
    cases hdelivers : engine.stream.delivers with
    | false =>
      rw [engine.pull_of_not_delivers hdelivers, if_neg Bool.false_ne_true]
      exact tallies_idle h rfl rfl rfl fun _ hmem ↦ absurd hmem List.not_mem_nil
    | true =>
      rw [engine.pull_of_delivers hdelivers, if_pos rfl]
      refine tallies_idle h ?_ rfl ?_ (engine.topic_of_mem_period locked bytes)
      · have hdeck := engine.player.deck_render locked bytes
        exact (congrArg Deck.transport hdeck).trans (engine.player.transport_moved bytes)
      · dsimp only
        rw [LoopbackOutput.keep]
        split_ifs <;> rfl
  | call command =>
    cases command with
    | play => exact tallies_play h
    | pause => exact tallies_halt h PlayState.noConfusion
    | stop => exact tallies_halt h PlayState.noConfusion
    | destroy => exact tallies_destroy h
    | seek position => exact tallies_seek h position
    | setVolume volume => exact tallies_idle h rfl rfl rfl fun _ hmem ↦ absurd hmem List.not_mem_nil
    | setTimeline timeline => exact tallies_setTimeline h timeline

theorem tallies_run (h : engine.Coupled) (actions : List Action) :
    engine.Tallies (gather pullStep pullReport engine actions)
      (gather pullStep (fun engine action ↦ haltChanges action (engine.pullReport action)) engine
        actions).length
      (gather pullStep soughtTargets engine actions).length
      (gather pullStep drains engine actions).length (engine.pullRun actions) := by
  induction actions generalizing engine with
  | nil => exact tallies_idle h rfl rfl rfl fun _ hmem ↦ absurd hmem List.not_mem_nil
  | cons action rest ih =>
    have hstep := tallies_step h action
    simp only [gather, List.length_append]
    exact hstep.trans (ih hstep.coupled)

theorem mem_drains {action : Action} {command : Command} :
    command ∈ engine.drains action ↔
      action = .call .destroy ∧ engine.transport = .playing ∧ command = .destroy := by
  unfold drains
  split
  · split_ifs with hplaying
    · simp [hplaying]
    · simp [hplaying]
  · next hother =>
    exact ⟨fun hmem ↦ absurd hmem List.not_mem_nil, fun h ↦ (hother h.1).elim⟩

/-- Some call tears the engine down while the transport plays. -/
theorem length_drains_pos_iff {actions : List Action} :
    0 < (gather pullStep drains engine actions).length ↔ ∃ before,
      before ++ [.call .destroy] <+: actions ∧ (engine.pullRun before).transport = .playing := by
  rw [List.length_pos_iff_exists_mem]
  constructor
  · rintro ⟨command, hmem⟩
    obtain ⟨before, action, hinitial, hdrains⟩ := (mem_gather pullStep).mp hmem
    obtain ⟨rfl, hplaying, -⟩ := mem_drains.mp hdrains
    exact ⟨before, hinitial, hplaying⟩
  · rintro ⟨before, hinitial, hplaying⟩
    exact ⟨.destroy, (mem_gather pullStep).mpr
      ⟨before, _, hinitial, mem_drains.mpr ⟨rfl, hplaying, rfl⟩⟩⟩

theorem Coupled.pull_idle (h : engine.Coupled) (hidle : engine.transport ≠ .playing)
    (locked : Bool) (bytes : Nat) : engine.pull locked bytes = (none, engine) :=
  engine.pull_of_not_delivers (h.delivers_eq.trans (decide_eq_false hidle)) locked bytes

theorem Coupled.pull_playing (h : engine.Coupled) (hplaying : engine.transport = .playing)
    (locked : Bool) (bytes : Nat) :
    let chosen := (engine.player.deck.select (Player.counted bytes)).2
    ∃ out, (engine.pull locked bytes).1 = some out ∧ out.length = bytes ∧
      engine.player.deck.clock.Passes chosen.clock ∧
      chosen.Counts (engine.pull locked bytes).2.player.deck (Player.counted bytes) := by
  intro chosen
  rw [engine.pull_of_delivers (h.delivers_eq.trans (decide_eq_true hplaying))]
  refine ⟨_, rfl, Player.length_render _ _ _, Timeline.passes_select _ _ _ _, ?_⟩
  have hcounts := engine.player.counts_render locked bytes
  rw [transport] at hplaying
  rwa [Player.moved, if_pos hplaying] at hcounts

/-- A new engine is stopped over an output that is corked and has not been called. -/
theorem coupled_of_new_eq_ok {settings : EngineSettings} {spec : AudioSpec} {captures : Bool}
    {events : EventChannel}
    (h : Engine.new settings spec (LoopbackOutput.new captures) events = .ok engine) :
    engine.Coupled ∧ engine.stream.counts = ⟨0, 0, 0, 0, 0⟩ ∧ engine.destroyed = false ∧
      engine.transport = .stopped ∧ engine.channel = events := by
  rw [eq_of_new_eq_ok h]
  exact ⟨⟨rfl, rfl, rfl, fun _ ↦ rfl⟩, rfl, rfl, rfl, rfl⟩

/-- What holds after every run of an engine over a loopback output. -/
structure FollowsTransport (engine : Engine LoopbackOutput) (actions : List Action) : Prop where
  destroyed_iff : (engine.pullRun actions).destroyed = true ↔ .call .destroy ∈ actions
  corked_iff : (engine.pullRun actions).stream.corked = true ↔
    (engine.pullRun actions).transport ≠ .playing
  /-- A transport that does not play is not asked for audio. -/
  pull_idle : ∀ locked bytes, (engine.pullRun actions).transport ≠ .playing →
    (engine.pullRun actions).pull locked bytes = (none, engine.pullRun actions)
  /-- A transport that plays gives what is asked for. Where the clock goes for it, the bytes of its
  whole samples are counted. -/
  pull_playing : ∀ locked bytes, (engine.pullRun actions).transport = .playing →
    let deck := (engine.pullRun actions).player.deck
    let chosen := (deck.select (Player.counted bytes)).2
    ∃ out, ((engine.pullRun actions).pull locked bytes).1 = some out ∧ out.length = bytes ∧
      deck.clock.Passes chosen.clock ∧
      chosen.Counts ((engine.pullRun actions).pull locked bytes).2.player.deck
        (Player.counted bytes)
  /-- The receiver gets what is sent. -/
  received : EventChannel.taken channel pullStep Action.isReceive engine actions ++
    (engine.pullRun actions).channel.waiting =
      EventChannel.reports channel pullStep engine actions
  /-- The changes of the transport lead from one to the next. -/
  linked : PlayState.stopped.Linked
    ((EventChannel.reports channel pullStep engine actions).filterMap Event.change?)
    (engine.pullRun actions).transport
  uncork_eq : (engine.pullRun actions).stream.counts.uncork =
    (EventChannel.reports channel pullStep engine actions).countP Event.isStart
  cork_eq : (engine.pullRun actions).stream.counts.cork =
    (engine.halts actions).length + (engine.pullRun actions).destroyed.toNat
  flush_eq : (engine.pullRun actions).stream.counts.flush =
    (engine.halts actions).length + (gather pullStep soughtTargets engine actions).length
  drain_le : (engine.pullRun actions).stream.counts.drain ≤ 1
  drain_eq_one_iff : (engine.pullRun actions).stream.counts.drain = 1 ↔
    ∃ before, before ++ [.call .destroy] <+: actions ∧ (engine.pullRun before).transport = .playing
  close_eq : (engine.pullRun actions).stream.counts.close =
    (engine.pullRun actions).destroyed.toNat
  /-- A refused call leaves the engine as it was. -/
  refused : ∀ command cause, ((engine.pullRun actions).obey command).1 = .error cause →
    ((engine.pullRun actions).obey command).2 = engine.pullRun actions ∧
      (engine.pullRun actions).Refused cause

/-- Along every run of a new engine over a loopback output the output follows the transport, and the
reported changes of the transport tell how often the output was called. -/
theorem followsTransport_run {settings : EngineSettings} {spec : AudioSpec} {captures : Bool}
    {capacity : Nat} {events : EventChannel} {engine : Engine LoopbackOutput}
    (hopen : EventChannel.open? capacity = some events)
    (hnew : Engine.new settings spec (LoopbackOutput.new captures) events = .ok engine)
    {actions : List Action} (hlossless : (engine.pullRun actions).channel.dropped = 0) :
    engine.FollowsTransport actions := by
  have hevents : events = ⟨capacity, [], 0, true⟩ := by
    rw [EventChannel.open?] at hopen
    split_ifs at hopen
    exact (Option.some.inj hopen).symm
  obtain ⟨hcoupled, hcounts, hlive, hstopped, hchannel⟩ := coupled_of_new_eq_ok hnew
  rw [hevents] at hchannel
  have hconnected : engine.channel.connected = true := by rw [hchannel]
  have hkept : EventChannel.Lossless channel pullStep engine actions := by
    rw [EventChannel.Lossless, hchannel]
    exact hlossless
  have htallies := tallies_run hcoupled actions
  rw [← serves_pullStep.reports_eq hconnected hkept,
    ← serves_pullStep.gather_sent haltChanges hconnected hkept] at htallies
  obtain ⟨hafter, hlinked, huncork, hcork, hflush, hdrain, hdrained, hclose⟩ := htallies
  rw [hcounts] at huncork hcork hflush hdrain hclose
  rw [hlive] at hcork hdrained hclose
  rw [hstopped] at hlinked
  simp only [Bool.toNat_false, Nat.add_zero, Nat.zero_add] at huncork hcork hflush
  simp only [Bool.toNat_false, Nat.add_zero, Nat.zero_add] at hdrain hdrained hclose
  have honce : (gather pullStep drains engine actions).length ≤ 1 :=
    Nat.le_trans hdrained (Bool.toNat_le _)
  refine ⟨?_, ?_, fun locked bytes hidle ↦ hafter.pull_idle hidle locked bytes,
    fun locked bytes hplaying ↦ hafter.pull_playing hplaying locked bytes, ?_, hlinked, huncork,
    hcork, hflush, hdrain ▸ honce, ?_, hclose, fun command cause ↦ obey_of_refused _⟩
  · rw [destroyed_pullRun, hlive]
    exact or_iff_right Bool.false_ne_true
  · rw [hafter.corked_eq]
    simp
  · have hreceived := serves_pullStep.taken_append_waiting hconnected hkept
    rwa [hchannel] at hreceived
  · rw [hdrain, ← length_drains_pos_iff]
    omega

/-- Every kind of call, with and without effect, and pulls before, during and after playing. -/
theorem followsTransport_run_fresh :
    let actions : List Action := [.call .pause, .call .stop, .period false 4,
      .call (.seek (.ofInt 1)), .call (.setTimeline solo), .call .play, .call .play,
      .period false 4, .call (.setVolume 1), .call .stop, .call .play, .period false 6, .receive,
      .period true 4, .call (.seek (.ofInt 3)), .call .destroy, .call .destroy, .call .play,
      .period false 4]
    (EventChannel.open? 64 = some ⟨64, [], 0, true⟩ ∧
        Engine.new { minPlayable := 8 } .oneHertz (LoopbackOutput.new true) ⟨64, [], 0, true⟩ =
          .ok fresh ∧
        (fresh.pullRun actions).channel.dropped = 0 ∧
        (fresh.pullRun actions).stream.counts = ⟨4, 2, 4, 1, 1⟩) ∧
      fresh.FollowsTransport actions := by
  intro actions
  have hlossless : (fresh.pullRun actions).channel.dropped = 0 := by decide +kernel
  have hopen : EventChannel.open? 64 = some ⟨64, [], 0, true⟩ := rfl
  exact ⟨⟨hopen, rfl, hlossless, by decide +kernel⟩,
    followsTransport_run hopen new_eq_ok_fresh hlossless⟩

end Engine

end TimelineMixer
