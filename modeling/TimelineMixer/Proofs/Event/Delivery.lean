import Mathlib.Data.List.Induction
import TimelineMixer.Event
import TimelineMixer.Proofs.Ledger

/-!
# Delivery of events

A channel loses an event only if it is full, which it counts, or if nobody receives (`Sends`). As
long as none is lost, the steps of a system send what they report (`Serves.reports_eq`), and the
events taken by the receiver, followed by those that still wait, are those that were sent, in their
order (`Serves.taken_append_waiting`). Facts about a run that loses none are proved step by step
(`Serves.lossless_induction`).
-/

set_option autoImplicit false
set_option relaxedAutoImplicit false

namespace TimelineMixer

namespace EventChannel

/-- Events are sent in their order, and those that the channel loses are counted. -/
structure Sends (before : EventChannel) (events : List Event) (after : EventChannel) : Prop where
  connected_eq : after.connected = before.connected
  dropped_le : before.dropped ≤ after.dropped
  waiting_eq : before.connected = true → after.dropped = before.dropped →
    after.waiting = before.waiting ++ events

theorem Sends.refl (channel : EventChannel) : channel.Sends [] channel :=
  ⟨rfl, Nat.le_refl _, fun _ _ ↦ (List.append_nil _).symm⟩

theorem Sends.trans {a b c : EventChannel} {first second : List Event} (hab : a.Sends first b)
    (hbc : b.Sends second c) : a.Sends (first ++ second) c where
  connected_eq := hbc.connected_eq.trans hab.connected_eq
  dropped_le := Nat.le_trans hab.dropped_le hbc.dropped_le
  waiting_eq hconnected hdropped := by
    have hab_dropped := hab.dropped_le
    have hbc_dropped := hbc.dropped_le
    rw [hbc.waiting_eq (hab.connected_eq.trans hconnected) (by omega),
      hab.waiting_eq hconnected (by omega), List.append_assoc]

theorem sends_emit (channel : EventChannel) (event : Event) :
    channel.Sends [event] (channel.emit event).2 := by
  rw [emit]
  split_ifs with hopen hroom
  · exact ⟨rfl, Nat.le_refl _, fun _ _ ↦ rfl⟩
  · exact ⟨rfl, Nat.le_succ _, fun _ hdropped ↦ absurd hdropped (Nat.succ_ne_self _)⟩
  · exact ⟨rfl, Nat.le_refl _, fun hconnected ↦ absurd hconnected hopen⟩

theorem sends_emitAll (channel : EventChannel) (events : List Event) :
    channel.Sends events (channel.emitAll events) := by
  induction events generalizing channel with
  | nil => exact Sends.refl channel
  | cons event rest ih => exact (channel.sends_emit event).trans (ih _)

/-! ### Steps of a system with a channel -/

section Steps

variable {σ ι : Type} (channel : σ → EventChannel) (step : σ → ι → σ)

/-- The events that a step sends: those that wait after it behind the ones that waited before. -/
def sent (state : σ) (action : ι) : List Event :=
  (channel (step state action)).waiting.drop (channel state).waiting.length

/-- The events that the steps of a run send. -/
def reports : σ → List ι → List Event :=
  gather step (sent channel step)

/-- In a run the channel is never found full. -/
def Lossless (state : σ) (actions : List ι) : Prop :=
  (channel (actions.foldl step state)).dropped = (channel state).dropped

instance (state : σ) (actions : List ι) : Decidable (Lossless channel step state actions) :=
  inferInstanceAs (Decidable (_ = _))

/-- The events that the receiver takes, where it takes the oldest one in some of the steps. -/
def taken (takes : ι → Bool) : σ → List ι → List Event :=
  gather step fun state action ↦
    if takes action then (channel state).waiting.take 1 else []

/-- A step takes the oldest waiting event, or sends what it reports. -/
def Serves (takes : ι → Bool) (report : σ → ι → List Event) : Prop :=
  ∀ state action, if takes action then
    channel (step state action) = (channel state).receive.2 ∧ report state action = []
  else (channel state).Sends (report state action) (channel (step state action))

variable {channel step}

theorem waiting_receive (channel : EventChannel) :
    channel.receive.2.waiting = channel.waiting.tail := by
  rw [receive]
  split
  · next hnone => simp [hnone]
  · next hsome => simp [hsome]

theorem connected_receive (channel : EventChannel) :
    channel.receive.2.connected = channel.connected := by
  rw [receive]
  split <;> rfl

theorem dropped_receive (channel : EventChannel) :
    channel.receive.2.dropped = channel.dropped := by
  rw [receive]
  split <;> rfl

theorem reports_concat (state : σ) (actions : List ι) (action : ι) :
    reports channel step state (actions ++ [action]) = reports channel step state actions ++
      sent channel step (actions.foldl step state) action :=
  gather_concat _ _ _ _ _

namespace Serves

variable {takes : ι → Bool} {report : σ → ι → List Event} (h : Serves channel step takes report)

include h

theorem connected_step (state : σ) (action : ι) :
    (channel (step state action)).connected = (channel state).connected := by
  have hstep := h state action
  split_ifs at hstep
  · rw [hstep.1, connected_receive]
  · exact hstep.connected_eq

theorem dropped_step_le (state : σ) (action : ι) :
    (channel state).dropped ≤ (channel (step state action)).dropped := by
  have hstep := h state action
  split_ifs at hstep
  · exact Nat.le_of_eq (by rw [hstep.1, dropped_receive])
  · exact hstep.dropped_le

/-- A step that loses no event sends what it reports. -/
theorem sent_eq {state : σ} {action : ι} (hconnected : (channel state).connected = true)
    (hkept : (channel (step state action)).dropped = (channel state).dropped) :
    sent channel step state action = report state action := by
  have hstep := h state action
  split_ifs at hstep
  · rw [sent, hstep.1, hstep.2, waiting_receive, List.drop_eq_nil_iff, List.length_tail]
    omega
  · rw [sent, hstep.waiting_eq hconnected hkept, List.drop_left]

theorem connected_run (state : σ) (actions : List ι) :
    (channel (actions.foldl step state)).connected = (channel state).connected := by
  induction actions generalizing state with
  | nil => rfl
  | cons action rest ih => exact (ih _).trans (h.connected_step state action)

theorem dropped_run_le (state : σ) (actions : List ι) :
    (channel state).dropped ≤ (channel (actions.foldl step state)).dropped := by
  induction actions generalizing state with
  | nil => exact Nat.le_refl _
  | cons action rest ih => exact Nat.le_trans (h.dropped_step_le state action) (ih _)

/-- A run that loses no event loses none on the way and none in its last step. -/
theorem lossless_concat {state : σ} {actions : List ι} {action : ι}
    (hlossless : Lossless channel step state (actions ++ [action])) :
    Lossless channel step state actions ∧
      (channel (step (actions.foldl step state) action)).dropped =
        (channel (actions.foldl step state)).dropped := by
  have hrun := h.dropped_run_le state actions
  have hlast := h.dropped_step_le (actions.foldl step state) action
  rw [Lossless, List.foldl_concat] at hlossless
  rw [Lossless]
  omega

/-- What holds at the beginning of a run, and is kept by a step that loses no event, holds of every
run that loses none. -/
theorem lossless_induction {motive : List ι → Prop} {state : σ}
    (hconnected : (channel state).connected = true) (hnil : motive [])
    (hconcat : ∀ actions action, (channel (actions.foldl step state)).connected = true →
      (channel (step (actions.foldl step state) action)).dropped =
        (channel (actions.foldl step state)).dropped →
      motive actions → motive (actions ++ [action]))
    {actions : List ι} (hlossless : Lossless channel step state actions) : motive actions := by
  induction actions using List.reverseRecOn with
  | nil => exact hnil
  | append_singleton actions action ih =>
    obtain ⟨hbefore, hlast⟩ := h.lossless_concat hlossless
    exact hconcat actions action ((h.connected_run state actions).trans hconnected) hlast
      (ih hbefore)

/-- What is drawn from the events that the steps of a run send, can be drawn from their reports. -/
theorem gather_sent {β : Type} (draw : ι → List Event → List β) {state : σ}
    (hconnected : (channel state).connected = true) {actions : List ι}
    (hlossless : Lossless channel step state actions) :
    gather step (fun state action ↦ draw action (sent channel step state action)) state actions =
      gather step (fun state action ↦ draw action (report state action)) state actions := by
  refine h.lossless_induction (motive := fun actions ↦
    gather step (fun state action ↦ draw action (sent channel step state action)) state actions =
      gather step (fun state action ↦ draw action (report state action)) state actions)
    hconnected rfl ?_ hlossless
  intro actions action hmiddle hkept ih
  rw [gather_concat, gather_concat, ih, h.sent_eq hmiddle hkept]

/-- A run that loses no event sends what its steps report. -/
theorem reports_eq {state : σ} (hconnected : (channel state).connected = true) {actions : List ι}
    (hlossless : Lossless channel step state actions) :
    reports channel step state actions = gather step report state actions :=
  h.gather_sent (fun _ events ↦ events) hconnected hlossless

/-- Nothing is lost between sender and receiver, and the order is kept. -/
theorem taken_append_waiting {state : σ} (hconnected : (channel state).connected = true)
    {actions : List ι} (hlossless : Lossless channel step state actions) :
    taken channel step takes state actions ++ (channel (actions.foldl step state)).waiting =
      (channel state).waiting ++ reports channel step state actions := by
  refine h.lossless_induction (motive := fun actions ↦ taken channel step takes state actions ++
    (channel (actions.foldl step state)).waiting =
      (channel state).waiting ++ reports channel step state actions)
    hconnected (List.append_nil _).symm ?_ hlossless
  intro actions action hmiddle hlast ih
  have hstep := h (actions.foldl step state) action
  rw [reports_concat, ← List.append_assoc, ← ih, List.foldl_concat, taken, gather_concat,
    h.sent_eq hmiddle hlast]
  simp only [List.append_assoc, List.append_cancel_left_eq]
  split_ifs at hstep ⊢
  · rw [hstep.2, hstep.1, waiting_receive, List.append_nil]
    cases (channel (actions.foldl step state)).waiting with
    | nil => rfl
    | cons event rest => rfl
  · rw [hstep.waiting_eq hmiddle hlast, List.nil_append]

end Serves

end Steps

end EventChannel

end TimelineMixer
