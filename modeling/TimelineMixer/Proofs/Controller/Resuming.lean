import TimelineMixer.Controller
import TimelineMixer.Output.Scripted
import TimelineMixer.Proofs.Ledger
import TimelineMixer.Proofs.Player.Effects
import TimelineMixer.Proofs.Time.WholeFrames

/-!
# Who resumes a paused transport

Control calls, periods, fills, the handling of events and the controller's polls take turns in any
order (`Session.run`), each of them as a whole; letting time pass is one such order
(`exists_run_sleep`). The controller
remembers that it has paused for an underrun until it resumes, or handles the report that somebody
else has (`paused_run`). A control call that halts the transport meanwhile is not noticed. So the
controller leaves the user's halts alone exactly if no halt that comes while it remembers a pause is
followed by a poll that finds the queues playable, with nothing in between that makes it forget the
pause or pause again (`respectsUser_iff`). The other case occurs: in `not_respectsUser_stopped` a
poll starts a transport that the user has stopped.
-/

set_option autoImplicit false
set_option relaxedAutoImplicit false

namespace TimelineMixer

namespace Session

/-- A step of one of the tasks around an engine. -/
inductive Action where
  | play
  | pause
  | stop
  | seek (position : Seconds)
  | render (locked : Bool) (bytes : Nat)
  | fill
  /-- Time passes. -/
  | pass (now nextPoll : Nat)
  /-- The controller handles the oldest waiting event. -/
  | deliver
  /-- A tick at which the controller looks at the queues, if it waits for them. -/
  | poll

/-- The user halts the transport. -/
def Action.isHalt : Action → Bool
  | .pause | .stop => true
  | _ => false

/-- The controller acts, or time passes. -/
def Action.isWaiting : Action → Bool
  | .pass _ _ | .deliver | .poll => true
  | _ => false

/-- What bears on whether the controller may resume. -/
inductive Deed where
  /-- The controller paused for an underrun. -/
  | paused
  /-- The controller resumed. -/
  | resumed
  /-- The controller learnt that the transport is playing. -/
  | heard
  /-- The user asked to pause or to stop, with or without effect. -/
  | halted
  deriving DecidableEq

/-- The controller remembers a pause until it resumes or hears of playing. -/
def Deed.remember : Bool → Deed → Bool
  | _, .paused => true
  | _, .resumed | _, .heard => false
  | memory, .halted => memory

/-- The controller has paused, and the user has not halted the transport since. -/
def Deed.Undisturbed (deeds : List Deed) : Prop :=
  ∃ earlier later, deeds = earlier ++ .paused :: later ∧ .halted ∉ later

variable {σ : Type} [OutputStream σ]

/-- Takes the oldest waiting event, if any, and handles it. -/
def deliver (session : Session σ) : Session σ :=
  match session.engine.player.channel.receive with
  | (none, _) => session
  | (some event, channel) =>
    let player := { session.engine.player with channel }
    { session with engine := { session.engine with player } }.handle event

/-- One step. -/
def step (session : Session σ) : Action → Session σ
  | .play => { session with engine := session.engine.play.2 }
  | .pause => { session with engine := session.engine.pause.2 }
  | .stop => { session with engine := session.engine.stop.2 }
  | .seek position => { session with engine := (session.engine.seek position).2 }
  | .render locked bytes =>
    { session with engine :=
        { session.engine with player := (session.engine.player.render locked bytes).2 } }
  | .fill => session.fill.2
  | .pass now nextPoll => { session with now, nextPoll }
  | .deliver => session.deliver
  | .poll => if session.polls then session.poll else session

/-- Steps in their order. -/
def run (session : Session σ) (actions : List Action) : Session σ :=
  actions.foldl step session

omit [OutputStream σ] in
/-- At a tick the controller calls for playing. -/
def CallsPlay (session : Session σ) : Prop :=
  session.polls = true ∧ session.engine.hasPlayableQueue = true

omit [OutputStream σ] in
instance (session : Session σ) : Decidable session.CallsPlay :=
  inferInstanceAs (Decidable (_ ∧ _))

omit [OutputStream σ] in
/-- What handling an event does. -/
def eventDeeds (session : Session σ) : Event → List Deed
  | .underrunPause _ _ =>
    if session.engine.player.deck.transport = .playing ∧ session.engine.destroyed = false then
      [.paused]
    else []
  | .playbackStateChanged _ .playing => [.heard]
  | _ => []

omit [OutputStream σ] in
/-- What a step does. -/
def deeds (session : Session σ) : Action → List Deed
  | .pause | .stop => [.halted]
  | .deliver => (session.engine.player.channel.receive.1.map session.eventDeeds).getD []
  | .poll => if session.CallsPlay ∧ session.engine.destroyed = false then [.resumed] else []
  | _ => []

/-- What the steps of a run do. -/
def history : Session σ → List Action → List Deed :=
  gather step deeds

/-- Whenever the controller calls for playing, it does so after a pause of its own that no halt by
the user has followed. -/
def RespectsUser (session : Session σ) (actions : List Action) : Prop :=
  ∀ before, before ++ [.poll] <+: actions → (session.run before).CallsPlay →
    Deed.Undisturbed (history session before)

/-! ### Time that passes -/

section Sleep

theorem run_append (session : Session σ) (first second : List Action) :
    session.run (first ++ second) = (session.run first).run second :=
  List.foldl_append ..

theorem handleWaiting_eq (bound : Nat) (session : Session σ) :
    handleWaiting bound session = session.run (List.replicate bound .deliver) := by
  induction bound generalizing session with
  | zero => rfl
  | succ bound ih =>
    have hfirst : handleWaiting (bound + 1) session = handleWaiting bound session.deliver := by
      rw [handleWaiting, deliver]
      rcases hreceived : session.engine.player.channel.receive with ⟨received, channel⟩
      match received with
      | some event => rfl
      | none =>
        -- Without a waiting event the deliveries that are left do nothing either.
        match bound with
        | 0 => rfl
        | bound + 1 =>
          dsimp only
          rw [handleWaiting, hreceived]
    rw [hfirst, ih]
    rfl

/-- Polls until a deadline are steps of a run. -/
theorem exists_run_pollUntil (deadline bound : Nat) (session : Session σ) :
    ∃ actions, pollUntil deadline bound session = session.run actions ∧
      ∀ action ∈ actions, action.isWaiting = true := by
  induction bound generalizing session with
  | zero => exact ⟨[], rfl, fun _ hnone ↦ absurd hnone List.not_mem_nil⟩
  | succ bound ih =>
    rw [pollUntil]
    split
    · exact ⟨[], rfl, fun _ hnone ↦ absurd hnone List.not_mem_nil⟩
    · next now hdue =>
      have hpolls : session.polls = true := by
        by_contra hidle
        rw [pollDue, if_pos hidle] at hdue
        cases hdue
      let polled := (session.run [.pass now (session.nextPoll + pollPeriod), .poll])
      have hpolled : { session with now, nextPoll := session.nextPoll + pollPeriod }.poll =
          polled := (if_pos hpolls).symm
      obtain ⟨rest, hrest, hwaiting⟩ := ih polled.settle
      refine ⟨[.pass now (session.nextPoll + pollPeriod), .poll] ++
        List.replicate (polled.engine.player.channel.waiting.length + 2) .deliver ++ rest, ?_, ?_⟩
      · dsimp only
        rw [hpolled, hrest, run_append, run_append, settle, handleWaiting_eq]
      · intro action haction
        simp only [List.mem_append, List.mem_cons, List.not_mem_nil, or_false] at haction
        rcases haction with ((rfl | rfl) | hdeliver) | hlater
        · rfl
        · rfl
        · rw [List.eq_of_mem_replicate hdeliver]
          rfl
        · exact hwaiting action hlater

/-- While time passes the controller takes the steps of a run, and nobody else takes one. -/
theorem exists_run_sleep (session : Session σ) (milliseconds : Nat) :
    ∃ actions, session.sleep milliseconds = session.run actions ∧
      ∀ action ∈ actions, action.isWaiting = true := by
  let deadline := session.now + milliseconds
  let bound := (deadline + pollPeriod - session.settle.nextPoll) / pollPeriod + 1
  obtain ⟨polls, hpolls, hwaiting⟩ := exists_run_pollUntil deadline bound session.settle
  let slept := session.settle.run polls
  refine ⟨List.replicate (session.engine.player.channel.waiting.length + 2) .deliver ++ polls ++
    [.pass deadline slept.nextPoll], ?_, ?_⟩
  · rw [sleep, hpolls, run_append, run_append, ← handleWaiting_eq]
    rfl
  · intro action haction
    simp only [List.mem_append, List.mem_singleton] at haction
    rcases haction with (hdeliver | hpoll) | rfl
    · rw [List.eq_of_mem_replicate hdeliver]
      rfl
    · exact hwaiting action hpoll
    · rfl

end Sleep

/-! ### What the controller remembers -/

section Step

variable (session : Session σ)

omit [OutputStream σ] in
theorem controller_transport (call : Engine σ → Except Fault Unit × Engine σ) :
    (session.transport call).2.controller = session.controller := by
  rw [transport]
  split
  · rfl
  · rfl

omit [OutputStream σ] in
theorem transport_fst (call : Engine σ → Except Fault Unit × Engine σ) :
    (session.transport call).1 = (call session.engine).1.isOk := by
  rw [transport]
  split
  · next hcall => rw [hcall]; rfl
  · next hcall => rw [hcall]; rfl

end Step

end Session

namespace Engine

variable {σ : Type} [OutputStream σ] (engine : Engine σ)

theorem isOk_halt (target : PlayState) : (engine.halt target).1.isOk = !engine.destroyed := by
  rw [halt]
  by_cases hdestroyed : engine.destroyed = true
  · rw [if_pos hdestroyed, hdestroyed]
    rfl
  · rw [if_neg hdestroyed, Bool.eq_false_iff.mpr hdestroyed, swap]
    dsimp only
    split_ifs
    · rfl
    · rfl

theorem isOk_play : engine.play.1.isOk = !engine.destroyed := by
  rw [play]
  by_cases hdestroyed : engine.destroyed = true
  · rw [if_pos hdestroyed, hdestroyed]
    rfl
  · rw [if_neg hdestroyed, Bool.eq_false_iff.mpr hdestroyed, swap]
    dsimp only
    split_ifs
    · rfl
    · rfl

end Engine

namespace Session

variable {σ : Type} [OutputStream σ]

section Step

variable (session : Session σ)

/-- Pausing for an underrun is remembered if it succeeds. -/
theorem paused_pauseForUnderrun (queued threshold : Nat) :
    (session.pauseForUnderrun queued threshold).controller.paused =
      (session.eventDeeds (.underrunPause queued threshold)).foldl Deed.remember
        session.controller.paused := by
  rw [pauseForUnderrun, eventDeeds]
  have hsuccess : ((session.note (.pausingOnUnderrun queued threshold)).transport Engine.pause).1 =
      !session.engine.destroyed :=
    (transport_fst _ _).trans (Engine.isOk_halt _ _)
  have hcontroller :
      ((session.note (.pausingOnUnderrun queued threshold)).transport Engine.pause).2.controller =
        session.controller := controller_transport _ _
  by_cases hplaying : session.engine.player.deck.transport = .playing
  · dsimp only
    rw [if_pos (show (session.note _).engine.player.deck.transport = .playing from hplaying),
      hsuccess]
    by_cases hdestroyed : session.engine.destroyed = true
    · rw [if_neg (by simp [hdestroyed]), if_neg (by simp [hdestroyed]), hcontroller]
      rfl
    · rw [if_pos (by simpa using hdestroyed),
        if_pos ⟨hplaying, Bool.eq_false_iff.mpr hdestroyed⟩]
      rfl
  · dsimp only
    rw [if_neg (show ¬ (session.note _).engine.player.deck.transport = .playing from hplaying),
      if_neg fun h ↦ hplaying h.1]
    rfl

theorem paused_handle (event : Event) : (session.handle event).controller.paused =
    (session.eventDeeds event).foldl Deed.remember session.controller.paused := by
  match event with
  | .underrunPause queued threshold => exact session.paused_pauseForUnderrun queued threshold
  | .playbackStateChanged _ .playing => rfl
  | .playbackStateChanged _ .paused | .playbackStateChanged _ .stopped => rfl
  | .atomChanged _ _ | .loopWrapped _ | .readyToPlay _ | .seeked _ _ => rfl

theorem paused_deliver : session.deliver.controller.paused =
    (session.deeds .deliver).foldl Deed.remember session.controller.paused := by
  rw [deliver, deeds]
  split
  · next hnone => rw [hnone]; rfl
  · next event channel hsome =>
    rw [hsome]
    exact paused_handle _ event

omit [OutputStream σ] in
theorem hasPlayableQueue_lockStore :
    ({ session.engine with player := session.engine.player.lockStore } :
      Engine σ).hasPlayableQueue = session.engine.hasPlayableQueue := by
  rw [Engine.hasPlayableQueue, Player.store_lockStore, Engine.hasPlayableQueue]

theorem paused_poll : (session.step .poll).controller.paused =
    (session.deeds .poll).foldl Deed.remember session.controller.paused := by
  change (if session.polls then session.poll else session).controller.paused = _
  rw [deeds]
  by_cases hpolls : session.polls = true
  · rw [if_pos hpolls, poll]
    dsimp only
    rw [hasPlayableQueue_lockStore]
    by_cases hplayable : session.engine.hasPlayableQueue = true
    · rw [if_pos hplayable, transport_fst, Engine.isOk_play]
      by_cases hdestroyed : session.engine.destroyed = true
      · rw [if_neg (by simp [hdestroyed]), if_neg (by simp [hdestroyed]), controller_transport]
        rfl
      · rw [if_pos (by simpa using hdestroyed),
          if_pos ⟨⟨hpolls, hplayable⟩, Bool.eq_false_iff.mpr hdestroyed⟩]
        rfl
    · rw [if_neg hplayable, if_neg fun h ↦ hplayable h.1.2]
      rfl
  · rw [if_neg hpolls, if_neg fun h ↦ hpolls h.1.1]
    rfl

/-- A step changes what the controller remembers by what the controller does in it, and by nothing
else. -/
theorem paused_step (action : Action) : (session.step action).controller.paused =
    (session.deeds action).foldl Deed.remember session.controller.paused := by
  match action with
  | .deliver => exact session.paused_deliver
  | .poll => exact session.paused_poll
  | .play | .pause | .stop | .seek _ | .render _ _ | .fill | .pass _ _ => rfl

theorem paused_run (actions : List Action) : (session.run actions).controller.paused =
    (history session actions).foldl Deed.remember session.controller.paused := by
  induction actions generalizing session with
  | nil => rfl
  | cons action rest ih =>
    change ((session.step action).run rest).controller.paused = _
    rw [ih, paused_step, history, gather, List.foldl_append]

end Step

/-! ### Histories -/

namespace Deed

/-- What is remembered is the last thing that happened, halts apart. -/
theorem exists_of_remember {deeds : List Deed} (h : deeds.foldl remember false = true) :
    ∃ earlier later, deeds = earlier ++ .paused :: later ∧ ∀ deed ∈ later, deed = .halted := by
  induction deeds using List.reverseRecOn with
  | nil => exact absurd h Bool.false_ne_true
  | append_singleton deeds deed ih =>
    rw [List.foldl_concat] at h
    match deed with
    | .paused => exact ⟨deeds, [], rfl, fun _ hnone ↦ absurd hnone List.not_mem_nil⟩
    | .resumed | .heard => exact absurd h Bool.false_ne_true
    | .halted =>
      obtain ⟨earlier, later, rfl, hlater⟩ := ih h
      refine ⟨earlier, later ++ [.halted], by simp, fun deed hdeed ↦ ?_⟩
      rcases List.mem_append.mp hdeed with hbefore | hlast
      · exact hlater deed hbefore
      · exact List.mem_singleton.mp hlast

/-- A remembered pause is undisturbed unless a halt came last. -/
theorem undisturbed_iff {deeds : List Deed} (h : deeds.foldl remember false = true) :
    Undisturbed deeds ↔ deeds.getLast? ≠ some .halted := by
  constructor
  · rintro ⟨earlier, later, rfl, hnone⟩ hlast
    rw [List.getLast?_append, List.getLast?_cons] at hlast
    cases hfinal : later.getLast? with
    | none =>
      rw [hfinal] at hlast
      cases hlast
    | some final =>
      rw [hfinal] at hlast
      obtain rfl : final = .halted := by simpa using hlast
      exact hnone (List.mem_of_getLast? hfinal)
  · intro hlast
    obtain ⟨earlier, later, rfl, hlater⟩ := exists_of_remember h
    refine ⟨earlier, later, rfl, fun hmem ↦ hlast ?_⟩
    rw [List.getLast?_append, List.getLast?_cons]
    cases hfinal : later.getLast? with
    | none => exact absurd hmem (by simp [List.getLast?_eq_none_iff.mp hfinal])
    | some final =>
      rw [hlater final (List.mem_of_getLast? hfinal)]
      rfl

end Deed

section Run

variable (session : Session σ)

theorem history_append (first second : List Action) :
    history session (first ++ second) =
      history session first ++ history (session.run first) second :=
  gather_append _ _ _ _ _

omit [OutputStream σ] in
theorem deeds_of_isHalt {action : Action} (h : action.isHalt = true) :
    session.deeds action = [.halted] := by
  unfold Action.isHalt at h
  split at h
  · rfl
  · rfl
  · exact absurd h Bool.false_ne_true

omit [OutputStream σ] in
theorem not_mem_eventDeeds (event : Event) : Deed.halted ∉ session.eventDeeds event := by
  unfold eventDeeds
  split
  · split_ifs
    · simp
    · simp
  · simp
  · simp

omit [OutputStream σ] in
/-- Only the user halts. -/
theorem isHalt_of_mem_deeds {action : Action} (h : .halted ∈ session.deeds action) :
    action.isHalt = true := by
  unfold deeds at h
  split at h
  · rfl
  · rfl
  · cases hevent : session.engine.player.channel.receive.1 with
    | none =>
      rw [hevent] at h
      exact absurd h List.not_mem_nil
    | some event =>
      rw [hevent] at h
      exact absurd h (session.not_mem_eventDeeds event)
  · split_ifs at h
    · simp at h
    · exact absurd h List.not_mem_nil
  · exact absurd h List.not_mem_nil

/-- If a halt came last, it was a call after which nothing of note happened. -/
theorem exists_halt {actions : List Action}
    (h : (history session actions).getLast? = some .halted) :
    ∃ before call later, actions = before ++ call :: later ∧ call.isHalt = true ∧
      history (session.run (before ++ [call])) later = [] := by
  induction actions using List.reverseRecOn with
  | nil => cases h
  | append_singleton actions action ih =>
    have hsplit : history session (actions ++ [action]) =
        history session actions ++ (session.run actions).deeds action := by
      rw [history_append]
      exact congrArg _ (List.append_nil _)
    rw [hsplit] at h
    by_cases hnothing : (session.run actions).deeds action = []
    · rw [hnothing, List.append_nil] at h
      obtain ⟨before, call, later, rfl, hcall, hquiet⟩ := ih h
      refine ⟨before, call, later ++ [action], by simp, hcall, ?_⟩
      have hsame : (session.run (before ++ [call])).run later =
          session.run (before ++ call :: later) := by
        rw [run, run, run, ← List.foldl_append, List.append_assoc, List.singleton_append]
      rw [history_append, hquiet, hsame]
      exact (List.append_nil _).trans hnothing
    · rw [List.getLast?_append_of_ne_nil _ hnothing] at h
      exact ⟨actions, action, [], rfl, isHalt_of_mem_deeds _ (List.mem_of_getLast? h), rfl⟩

/-- The controller leaves the user's halts alone exactly if no halt that comes while it remembers a
pause is followed by a poll that calls for playing, before anything makes the controller forget or
renew the pause. It does so in particular if the user halts only while none is remembered.

A call of `play`, `pause` or `stop` is a whole step, and so is what the controller does with an
event or in a poll: no call comes between its look at the transport or the queues and the pause or
start that follows. -/
theorem respectsUser_iff {session : Session σ} (hfresh : session.controller.paused = false)
    (actions : List Action) :
    (RespectsUser session actions ↔
      ∀ before call later, before ++ call :: later ++ [.poll] <+: actions → call.isHalt = true →
        (session.run before).controller.paused = true →
        history (session.run (before ++ [call])) later = [] →
          ¬ (session.run (before ++ call :: later)).CallsPlay) ∧
    ((∀ before call, before ++ [call] <+: actions → call.isHalt = true →
      (session.run before).controller.paused = false) → RespectsUser session actions) := by
  have hmemory : ∀ before, (session.run before).controller.paused =
      (history session before).foldl Deed.remember false := by
    intro before
    rw [paused_run, hfresh]
  have hexact : RespectsUser session actions ↔
      ∀ before call later, before ++ call :: later ++ [.poll] <+: actions → call.isHalt = true →
        (session.run before).controller.paused = true →
        history (session.run (before ++ [call])) later = [] →
          ¬ (session.run (before ++ call :: later)).CallsPlay := by
    have hlast : ∀ before call later, call.isHalt = true →
        history (session.run (before ++ [call])) later = [] →
        history session (before ++ call :: later) = history session before ++ [.halted] := by
      intro before call later hcall hquiet
      rw [show before ++ call :: later = (before ++ [call]) ++ later by simp, history_append,
        hquiet, List.append_nil, history_append]
      exact congrArg _ ((List.append_nil _).trans (deeds_of_isHalt _ hcall))
    constructor
    · intro hrespects before call later hinitial hcall _ hquiet hplays
      have hundisturbed := hrespects _ hinitial hplays
      have hremembered : (history session (before ++ call :: later)).foldl Deed.remember false =
          true := by
        rw [← hmemory]
        exact (Bool.and_eq_true_iff.mp hplays.1).1
      rw [Deed.undisturbed_iff hremembered, hlast before call later hcall hquiet] at hundisturbed
      exact hundisturbed (List.getLast?_concat)
    · intro hnone before hinitial hplays
      have hremembered : (history session before).foldl Deed.remember false = true := by
        rw [← hmemory]
        exact (Bool.and_eq_true_iff.mp hplays.1).1
      rw [Deed.undisturbed_iff hremembered]
      intro hhalted
      obtain ⟨earlier, call, later, rfl, hcall, hquiet⟩ := session.exists_halt hhalted
      refine hnone earlier call later hinitial hcall ?_ hquiet hplays
      rw [hlast earlier call later hcall hquiet, List.foldl_concat] at hremembered
      rw [hmemory]
      exact hremembered
  refine ⟨hexact, fun hnever ↦ hexact.mpr fun before call later hinitial hcall hpaused ↦ ?_⟩
  have hcalled : before ++ [call] <+: actions := by
    refine List.IsPrefix.trans ?_ hinitial
    exact ⟨later ++ [.poll], by simp⟩
  exact absurd hpaused (by rw [hnever before call hcalled hcall]; exact Bool.false_ne_true)

end Run

/-- Twelve seconds of one layer, just published, with a producer five seconds ahead and a controller
that resumes. Two queued samples are enough for playing. -/
def rehearsal : Session ScriptedOutput where
  engine :=
    { player :=
        { Player.new .oneHertz 1 ⟨64, [], 0, true⟩ (.new 8 1) with
          deck := (Deck.new .oneHertz 1).publish
            { atoms := [⟨.ofInt 0, .ofInt 12, [⟨.ofNat 1, .ofInt 0, .ofInt 12, 1⟩]⟩]
              ordered := by decide +kernel } }
      stream := .new true [] []
      destroyed := false
      name := "scripted"
      minPlayable := 8
      flushTimeout := 0
      drainTimeout := 0 }
  producer := .new (.ofInt 5) 4
  controller := ⟨true, false⟩
  now := 0
  nextPoll := 0

/-- The report of the start, the underrun of the first period and the pause for it; then the queues
are filled and a poll resumes. -/
def recovery : List Action :=
  [.play, .render false 4, .deliver, .deliver, .deliver, .fill, .poll]

/-- A pause and a resumption by the controller while the user does nothing. -/
theorem respectsUser_iff_recovery :
    (rehearsal.controller.paused = false ∧
      (∀ before call, before ++ [call] <+: recovery → call.isHalt = true →
        (rehearsal.run before).controller.paused = false) ∧
      history rehearsal recovery = [.heard, .paused, .resumed]) ∧
    RespectsUser rehearsal recovery := by
  have hfresh : rehearsal.controller.paused = false := rfl
  have hnohalt : ∀ call ∈ recovery, call.isHalt = false := by decide +kernel
  have hnever : ∀ before call, before ++ [call] <+: recovery → call.isHalt = true →
      (rehearsal.run before).controller.paused = false := by
    intro before call hinitial hcall
    have hnot := hnohalt call (hinitial.subset (by simp))
    exact absurd (hcall.symm.trans hnot) Bool.noConfusion
  refine ⟨⟨hfresh, hnever, ?_⟩, (respectsUser_iff hfresh recovery).2 hnever⟩
  decide +kernel

/-- The user stops a transport that the controller has paused. Once the queues are filled a poll
starts it. -/
theorem not_respectsUser_stopped :
    let before : List Action :=
      [.play, .render false 4, .deliver, .deliver, .deliver, .stop, .deliver, .fill]
    rehearsal.controller.autoResume = true ∧ rehearsal.controller.paused = false ∧
      (rehearsal.run before).engine.player.deck.transport = .stopped ∧
      (rehearsal.run (before ++ [.poll])).engine.player.deck.transport = .playing ∧
      ¬ RespectsUser rehearsal (before ++ [.poll]) := by
  intro before
  have hplays : (rehearsal.run before).CallsPlay := by decide +kernel
  have hhistory : history rehearsal before = [.heard, .paused, .halted] := by decide +kernel
  refine ⟨rfl, rfl, by decide +kernel, by decide +kernel, fun hrespects ↦ ?_⟩
  have hundisturbed := hrespects before (List.prefix_refl _) hplays
  rw [hhistory, Deed.undisturbed_iff rfl] at hundisturbed
  exact hundisturbed rfl

end Session

end TimelineMixer
