import TimelineMixer.Output.Playout
import TimelineMixer.Player
import TimelineMixer.Proofs.Ledger
import TimelineMixer.Proofs.Mix.Rounds
import TimelineMixer.Proofs.Time.WholeFrames

/-!
# The playout ring over many callbacks

Between callbacks a flush may be requested, draining may be switched on or off and the player may
be changed (`Playout.Action`). A callback lacks samples until enough periods were rendered or
another one would not fit, which is what `PlayoutRing.refill` computes at once (`refilled_refill`);
no period is ever cut. So the samples that were rendered are, in their order, those played or
discarded, and then those that wait in the ring (`run_append_waiting`). What waits when a flush is
requested is discarded by the next callback, before anything else is played
(`departed_requestFlush`). A callback is short of samples only if it drains, or wants more than
the ring can hold in whole periods (`Playout.Serves`).
-/

set_option autoImplicit false
set_option relaxedAutoImplicit false

namespace TimelineMixer

/-! ### Rendered periods have the length asked for -/

namespace Player

theorem length_mix (player : Player) (atom : Atom) (silence : List Float32) :
    (player.mix atom silence).1.length = silence.length := by
  rw [mix, mixFrame, (LayerStore.foldl_mixLayer_rounds _ _ _ _ _ _).1]
  exact Round.length_foldl_lay _ _

theorem length_playPeriod (player : Player) (locked : Bool) (silence : List Float32) :
    (player.playPeriod locked silence).1.length = silence.length := by
  have hscale : ∀ (player : Player) (out : List Float32),
      (player.scale out).1.length = out.length :=
    fun _ _ ↦ length_applyVolume _ _
  rw [playPeriod]
  split
  · split_ifs
    · rfl
    · exact hscale _ _
    · exact (hscale _ _).trans (length_mix _ _ _)
  · rfl

theorem length_renderSamples (player : Player) (locked : Bool) (count : Nat) :
    (player.renderSamples locked count).1.length = count := by
  rw [renderSamples]
  dsimp only
  split_ifs
  · rw [length_playPeriod, List.length_replicate]
  · exact List.length_replicate ..

theorem length_render (player : Player) (locked : Bool) (bytes : Nat) :
    (player.render locked bytes).1.length = bytes := by
  rw [render, List.length_append, Sample.length_encode, length_renderSamples,
    List.length_replicate]
  exact Nat.div_add_mod bytes Sample.width

end Player

/-! ### Refilling the ring -/

namespace PlayoutRing

variable {ρ : Type} {render : ρ → List Float32 × ρ} {ring : PlayoutRing} {wanted : Nat}

/-- Pushes samples into the ring as far as they fit. -/
def offer (ring : PlayoutRing) (samples : List Float32) : PlayoutRing :=
  { ring with
    waiting := ring.waiting ++ samples.take (ring.capacity - ring.waiting.length) }

/-- The ring holds too few samples, and has room for a period. -/
def Due (ring : PlayoutRing) (wanted : Nat) : Prop :=
  ring.waiting.length < wanted ∧ ring.period ≤ ring.capacity - ring.waiting.length

/-- Period after period is rendered and pushed as long as one is due. -/
inductive Refilled (render : ρ → List Float32 × ρ) (wanted : Nat) :
    PlayoutRing → ρ → PlayoutRing → ρ → Prop
  | done {ring : PlayoutRing} {renderer : ρ} (enough : ¬ ring.Due wanted) :
      Refilled render wanted ring renderer ring renderer
  | turn {ring last : PlayoutRing} {renderer final : ρ} (due : ring.Due wanted)
      (next : Refilled render wanted (ring.offer (render renderer).1) (render renderer).2 last
        final) :
      Refilled render wanted ring renderer last final

theorem length_renderPeriods {period : Nat}
    (hrender : ∀ renderer, (render renderer).1.length = period) (count : Nat) (renderer : ρ) :
    (renderPeriods render count renderer).1.length = count * period := by
  induction count generalizing renderer with
  | zero => simp [renderPeriods]
  | succ count ih => simp [renderPeriods, hrender, ih, Nat.succ_mul, Nat.add_comm]

theorem periodsDue_eq_zero (hperiod : 0 < ring.period) (h : ¬ ring.Due wanted) :
    ring.periodsDue wanted = 0 := by
  rw [periodsDue]
  by_cases hlacks : ring.waiting.length < wanted
  · have hfull : ring.capacity - ring.waiting.length < ring.period :=
      not_le.mp fun hroom ↦ h ⟨hlacks, hroom⟩
    rw [Nat.div_eq_of_lt hfull, Nat.min_zero]
  · have hnone : wanted - ring.waiting.length + ring.period - 1 < ring.period := by omega
    rw [Nat.div_eq_of_lt hnone, Nat.zero_min]

/-- After one of the periods that are due there is one fewer. -/
theorem periodsDue_of_due (hperiod : 0 < ring.period) (h : ring.Due wanted) {samples : List Float32}
    (hsamples : samples.length = ring.period) :
    ring.periodsDue wanted =
      periodsDue { ring with waiting := ring.waiting ++ samples } wanted + 1 := by
  obtain ⟨hlacks, hroom⟩ := h
  have hwant : (wanted - ring.waiting.length + ring.period - 1) / ring.period =
      (wanted - (ring.waiting.length + ring.period) + ring.period - 1) / ring.period + 1 := by
    rw [Nat.div_eq_sub_div hperiod (by omega)]
    by_cases hmore : ring.period ≤ wanted - ring.waiting.length
    · congr 2
      omega
    · rw [Nat.div_eq_of_lt (by omega), Nat.div_eq_of_lt (by omega)]
  have hfit : (ring.capacity - ring.waiting.length) / ring.period =
      (ring.capacity - (ring.waiting.length + ring.period)) / ring.period + 1 := by
    rw [Nat.div_eq_sub_div hperiod hroom, Nat.sub_sub]
  rw [periodsDue, periodsDue]
  dsimp only
  rw [List.length_append, hsamples, hwant, hfit, Nat.add_min_add_right]

/-- Refilling at once does what the pushes one after the other do, each of a whole period. -/
theorem refilled_refill (hperiod : 0 < ring.period)
    (hrender : ∀ renderer, (render renderer).1.length = ring.period) (renderer : ρ) :
    Refilled render wanted ring renderer (ring.refill render wanted renderer).1
      (ring.refill render wanted renderer).2 := by
  rw [refill]
  generalize hcount : ring.periodsDue wanted = count
  induction count generalizing ring renderer with
  | zero =>
    have henough : ¬ ring.Due wanted := by
      intro hdue
      have hmore := periodsDue_of_due hperiod hdue (hrender renderer)
      omega
    have hdone : Refilled render wanted ring renderer ring renderer := .done henough
    simpa [renderPeriods] using hdone
  | succ count ih =>
    have hdue : ring.Due wanted := by
      by_contra henough
      have hnone := periodsDue_eq_zero hperiod henough
      omega
    have hwhole : ring.offer (render renderer).1 =
        { ring with waiting := ring.waiting ++ (render renderer).1 } := by
      rw [offer, List.take_of_length_le ((hrender renderer).le.trans hdue.2)]
    have hless := periodsDue_of_due hperiod hdue (hrender renderer)
    refine Refilled.turn hdue ?_
    rw [hwhole]
    have hrest := @ih { ring with waiting := ring.waiting ++ (render renderer).1 } hperiod hrender
      (render renderer).2 (by omega)
    simpa [renderPeriods] using hrest

/-- The periods that are due fit. -/
theorem periodsDue_mul_le (ring : PlayoutRing) (wanted : Nat) :
    ring.periodsDue wanted * ring.period ≤ ring.capacity - ring.waiting.length :=
  (Nat.mul_le_mul_right _ (Nat.min_le_right _ _)).trans (Nat.div_mul_le_self _ _)

/-- They are enough, unless more is wanted than the ring can hold in whole periods. -/
theorem wanted_le_of_room (hperiod : 0 < ring.period)
    (hroom : wanted + ring.period ≤ ring.capacity + 1) :
    wanted ≤ ring.waiting.length + ring.periodsDue wanted * ring.period := by
  have hcover : ∀ count, count < count / ring.period * ring.period + ring.period :=
    fun _ ↦ Nat.lt_div_mul_add hperiod
  have hwant := hcover (wanted - ring.waiting.length + ring.period - 1)
  have hfit := hcover (ring.capacity - ring.waiting.length)
  rw [periodsDue]
  rcases Nat.le_total ((wanted - ring.waiting.length + ring.period - 1) / ring.period)
    ((ring.capacity - ring.waiting.length) / ring.period) with hle | hle
  · rw [Nat.min_eq_left hle]
    omega
  · rw [Nat.min_eq_right hle]
    omega

end PlayoutRing

/-! ### Callbacks and what happens between them -/

/-- The device's side of an output: the ring, what the control side has asked for, and the player
that renders. -/
structure Playout where
  ring : PlayoutRing
  signals : PlayoutSignals
  player : Player

namespace Playout

/-- What happens to an open output. -/
inductive Action where
  /-- A callback wants samples. The flags say which of its periods find the queues locked. -/
  | write (wanted : Nat) (locks : List Bool)
  | requestFlush
  | setDraining (draining : Bool)
  /-- Whatever else is done with the player. -/
  | control (change : Player → Player)

/-- Nothing was rendered yet. -/
def opened (period capacity : Nat) (player : Player) : Playout :=
  ⟨.new period capacity, .idle, player⟩

/-- Renders a period under the next of the flags, unlocked behind the last one. -/
def renderNext (period : Nat) (renderer : Player × List Bool) :
    List Float32 × Player × List Bool :=
  let (out, player) := renderer.1.renderSamples (renderer.2.headD false) period
  (out, player, renderer.2.tail)

/-- The ring after a requested flush. -/
def flushed (playout : Playout) : PlayoutRing :=
  playout.ring.honourFlush playout.signals

/-- What a callback discards. -/
def discarded (playout : Playout) : List Float32 :=
  if playout.signals.flushRequested = playout.signals.flushDone then [] else playout.ring.waiting

/-- Periods that are rendered for a callback. -/
def due (playout : Playout) (wanted : Nat) : Nat :=
  if playout.signals.draining then 0 else playout.flushed.periodsDue wanted

/-- The periods rendered for a callback, and the renderer after them. -/
def renders (playout : Playout) (wanted : Nat) (locks : List Bool) :
    List Float32 × Player × List Bool :=
  PlayoutRing.renderPeriods (renderNext playout.ring.period) (playout.due wanted)
    (playout.player, locks)

/-- What the ring holds in a callback before samples are taken from it. -/
def filled (playout : Playout) (wanted : Nat) (locks : List Bool) : List Float32 :=
  playout.flushed.waiting ++ (playout.renders wanted locks).1

/-- A callback. -/
def written (playout : Playout) (wanted : Nat) (locks : List Bool) :
    PlayoutWrite (Player × List Bool) :=
  playout.ring.write (renderNext playout.ring.period) playout.signals wanted
    (playout.player, locks)

/-- One step. -/
def step (playout : Playout) : Action → Playout
  | .write wanted locks =>
    let written := playout.written wanted locks
    ⟨written.ring, written.signals, written.renderer.1⟩
  | .requestFlush =>
    { playout with signals :=
        { playout.signals with flushRequested := playout.signals.flushRequested + 1 } }
  | .setDraining draining => { playout with signals := { playout.signals with draining } }
  | .control change => { playout with player := change playout.player }

/-- Steps one after the other. -/
def run (playout : Playout) (actions : List Action) : Playout :=
  actions.foldl step playout

/-- The samples rendered in a step. -/
def stepRendered (playout : Playout) : Action → List Float32
  | .write wanted locks => (playout.renders wanted locks).1
  | _ => []

/-- The samples that a step gives to the device, padding left out. -/
def stepPlayed (playout : Playout) : Action → List Float32
  | .write wanted locks => (playout.written wanted locks).played
  | _ => []

/-- The samples that a step discards. -/
def stepDropped (playout : Playout) : Action → List Float32
  | .write _ _ => playout.discarded
  | _ => []

/-- The samples that leave the ring in a step. -/
def departures (playout : Playout) : Action → List (Fate × Float32)
  | .write wanted locks =>
    Fate.discarded.mark playout.discarded ++
      Fate.delivered.mark (playout.written wanted locks).played
  | _ => []

/-- All samples that are rendered in a run. -/
def rendered : Playout → List Action → List Float32 :=
  gather step stepRendered

/-- All samples that a run gives to the device, padding left out. -/
def played : Playout → List Action → List Float32 :=
  gather step stepPlayed

/-- All samples that a run discards. -/
def dropped : Playout → List Action → List Float32 :=
  gather step stepDropped

/-- All samples that leave the ring in a run. -/
def departed : Playout → List Action → List (Fate × Float32) :=
  gather step departures

/-! ### One step -/

section Step

variable (playout : Playout) (wanted : Nat) (locks : List Bool)

theorem length_renderNext (period : Nat) (renderer : Player × List Bool) :
    (renderNext period renderer).1.length = period :=
  Player.length_renderSamples _ _ _

theorem flushed_eq :
    playout.flushed = { playout.ring with waiting := playout.flushed.waiting } := by
  rw [flushed, PlayoutRing.honourFlush]
  split_ifs
  · rfl
  · rfl

@[simp] theorem period_flushed : playout.flushed.period = playout.ring.period := by
  rw [flushed_eq]

@[simp] theorem capacity_flushed : playout.flushed.capacity = playout.ring.capacity := by
  rw [flushed_eq]

/-- Unless the output drains, the ring of a callback is refilled. -/
theorem refill_flushed (hrendering : playout.signals.draining = false) :
    playout.flushed.refill (renderNext playout.ring.period) wanted (playout.player, locks) =
      ({ playout.ring with waiting := playout.filled wanted locks },
        (playout.renders wanted locks).2) := by
  have hring := playout.flushed_eq
  unfold PlayoutRing.refill filled renders due
  rw [hrendering, if_neg Bool.false_ne_true, hring]

/-- A callback plays from what the ring was filled with, and leaves the rest. -/
theorem written_eq : playout.written wanted locks =
    { played := (playout.filled wanted locks).take wanted
      ring := { playout.ring with waiting := (playout.filled wanted locks).drop wanted }
      signals :=
        { playout.signals with
          flushDone := playout.signals.flushRequested
          buffered := ((playout.filled wanted locks).drop wanted).length }
      renderer := (playout.renders wanted locks).2 } := by
  have hfilled : (if playout.signals.draining then (playout.flushed, playout.player, locks)
      else playout.flushed.refill (renderNext playout.ring.period) wanted (playout.player, locks)) =
      ({ playout.ring with waiting := playout.filled wanted locks },
        (playout.renders wanted locks).2) := by
    by_cases hdraining : playout.signals.draining = true
    · rw [if_pos hdraining, filled, renders, due, if_pos hdraining, PlayoutRing.renderPeriods,
        List.append_nil, ← flushed_eq]
    · rw [if_neg hdraining]
      exact playout.refill_flushed wanted locks (by simpa using hdraining)
  unfold written PlayoutRing.write
  dsimp only
  rw [show playout.ring.honourFlush playout.signals = playout.flushed from rfl, hfilled]

/-- What waits in the ring is discarded by a callback, or is there to be played. -/
theorem discarded_append_flushed :
    playout.discarded ++ playout.flushed.waiting = playout.ring.waiting := by
  rw [discarded, flushed, PlayoutRing.honourFlush]
  split_ifs
  · rfl
  · exact List.append_nil _

/-- What leaves the ring in a step, followed by what waits after it, is what waited before,
followed by what is rendered. -/
theorem departures_append_waiting (action : Action) :
    (playout.departures action).map Prod.snd ++ (playout.step action).ring.waiting =
      playout.ring.waiting ++ playout.stepRendered action := by
  match action with
  | .write wanted locks =>
    change (Fate.discarded.mark playout.discarded ++
        Fate.delivered.mark (playout.written wanted locks).played).map Prod.snd ++
      (playout.written wanted locks).ring.waiting =
        playout.ring.waiting ++ (playout.renders wanted locks).1
    rw [List.map_append, Fate.map_snd_mark, Fate.map_snd_mark, written_eq, List.append_assoc,
      List.take_append_drop, filled, ← List.append_assoc, discarded_append_flushed]
  | .requestFlush | .setDraining _ | .control _ => exact (List.append_nil _).symm

end Step

/-- What holds of an open output at any time between callbacks. -/
structure Sound (playout : Playout) : Prop where
  period_pos : 0 < playout.ring.period
  held : playout.ring.waiting.length ≤ playout.ring.capacity
  buffered_eq : playout.signals.buffered = playout.ring.waiting.length
  done_le : playout.signals.flushDone ≤ playout.signals.flushRequested

/-- What a callback does: as long as a period is due one is rendered and pushed, never cut, and the
buffer is filled, with silence at its end only if the output drains or more is wanted than the ring
can hold in whole periods. -/
structure Serves (playout : Playout) (wanted : Nat) (locks : List Bool) : Prop where
  refilled : playout.signals.draining = false →
    PlayoutRing.Refilled (renderNext playout.ring.period) wanted playout.flushed
      (playout.player, locks) { playout.ring with waiting := playout.filled wanted locks }
      (playout.renders wanted locks).2
  quiet : playout.signals.draining = true → (playout.renders wanted locks).1 = []
  length_filled : (playout.filled wanted locks).length ≤ playout.ring.capacity
  buffer_eq : (playout.written wanted locks).buffer wanted =
    (playout.written wanted locks).played ++
      List.replicate (wanted - (playout.written wanted locks).played.length) 0
  length_buffer : ((playout.written wanted locks).buffer wanted).length = wanted
  full : playout.signals.draining = false →
    wanted + playout.ring.period ≤ playout.ring.capacity + 1 →
      (playout.written wanted locks).buffer wanted = (playout.written wanted locks).played

namespace Sound

variable {playout : Playout} (h : playout.Sound) (wanted : Nat) (locks : List Bool)

include h

theorem length_flushed : playout.flushed.waiting.length ≤ playout.ring.capacity := by
  have hsplit := congrArg List.length playout.discarded_append_flushed
  have hheld := h.held
  rw [List.length_append] at hsplit
  omega

theorem length_filled : (playout.filled wanted locks).length ≤ playout.ring.capacity := by
  have hheld := h.length_flushed
  have hfits := playout.flushed.periodsDue_mul_le wanted
  rw [period_flushed, capacity_flushed] at hfits
  rw [filled, List.length_append, renders,
    PlayoutRing.length_renderPeriods (length_renderNext playout.ring.period), due]
  split_ifs
  · omega
  · omega

/-- Unless the output drains, a callback that does not want too much finds enough in the ring. -/
theorem wanted_le_length_filled (hrendering : playout.signals.draining = false)
    (hroom : wanted + playout.ring.period ≤ playout.ring.capacity + 1) :
    wanted ≤ (playout.filled wanted locks).length := by
  have henough : wanted ≤ playout.flushed.waiting.length +
      playout.flushed.periodsDue wanted * playout.flushed.period :=
    PlayoutRing.wanted_le_of_room (by rw [period_flushed]; exact h.period_pos)
      (by rw [period_flushed, capacity_flushed]; exact hroom)
  rw [period_flushed] at henough
  rw [filled, List.length_append, renders,
    PlayoutRing.length_renderPeriods (length_renderNext playout.ring.period), due, hrendering]
  exact henough

theorem serves : playout.Serves wanted locks := by
  have hperiod : 0 < playout.flushed.period := by
    rw [period_flushed]
    exact h.period_pos
  have hplayed : (playout.written wanted locks).played =
      (playout.filled wanted locks).take wanted := by rw [written_eq]
  refine ⟨fun hrendering ↦ ?_, fun hdraining ↦ ?_, h.length_filled wanted locks, rfl, ?_,
    fun hrendering hroom ↦ ?_⟩
  · have hloop : PlayoutRing.Refilled _ wanted playout.flushed (playout.player, locks) _ _ :=
      PlayoutRing.refilled_refill hperiod
        (fun renderer ↦ (length_renderNext playout.ring.period renderer).trans
          playout.period_flushed.symm) (playout.player, locks)
    rw [playout.refill_flushed wanted locks hrendering] at hloop
    exact hloop
  · rw [renders, due, if_pos hdraining, PlayoutRing.renderPeriods]
  · refine PlayoutWrite.length_buffer _ ?_
    rw [hplayed]
    exact List.length_take_le _ _
  · have henough := h.wanted_le_length_filled wanted locks hrendering hroom
    rw [PlayoutWrite.buffer, hplayed, List.length_take_of_le henough, Nat.sub_self,
      List.replicate_zero, List.append_nil]

theorem step (action : Action) : (playout.step action).Sound := by
  match action with
  | .write wanted locks =>
    refine ⟨?_, ?_, ?_, ?_⟩
    · change 0 < (playout.written wanted locks).ring.period
      rw [written_eq]
      exact h.period_pos
    · change (playout.written wanted locks).ring.waiting.length ≤
        (playout.written wanted locks).ring.capacity
      rw [written_eq, List.length_drop]
      exact (Nat.sub_le _ _).trans (h.length_filled wanted locks)
    · change (playout.written wanted locks).signals.buffered =
        (playout.written wanted locks).ring.waiting.length
      rw [written_eq]
    · change (playout.written wanted locks).signals.flushDone ≤
        (playout.written wanted locks).signals.flushRequested
      rw [written_eq]
  | .requestFlush =>
    exact ⟨h.period_pos, h.held, h.buffered_eq, h.done_le.trans (Nat.le_succ _)⟩
  | .setDraining _ | .control _ => exact ⟨h.period_pos, h.held, h.buffered_eq, h.done_le⟩

end Sound

/-! ### A whole run -/

section Run

variable (playout : Playout)

theorem ring_step (action : Action) : (playout.step action).ring.period = playout.ring.period ∧
    (playout.step action).ring.capacity = playout.ring.capacity := by
  match action with
  | .write wanted locks =>
    change (playout.written wanted locks).ring.period = _ ∧
      (playout.written wanted locks).ring.capacity = _
    rw [written_eq]
    exact ⟨rfl, rfl⟩
  | .requestFlush | .setDraining _ | .control _ => exact ⟨rfl, rfl⟩

theorem ring_run (actions : List Action) : (playout.run actions).ring.period = playout.ring.period ∧
    (playout.run actions).ring.capacity = playout.ring.capacity := by
  induction actions generalizing playout with
  | nil => exact ⟨rfl, rfl⟩
  | cons action rest ih =>
    obtain ⟨hperiod, hcapacity⟩ := playout.ring_step action
    obtain ⟨hrest, hroom⟩ := ih (playout.step action)
    exact ⟨hrest.trans hperiod, hroom.trans hcapacity⟩

theorem Sound.run {playout : Playout} (h : playout.Sound) (actions : List Action) :
    (playout.run actions).Sound := by
  induction actions generalizing playout with
  | nil => exact h
  | cons action rest ih => exact ih (h.step action)

/-- The samples rendered in a run stand in their order behind those that waited, and have left the
ring, first in first out, or wait there. -/
theorem run_append_waiting (actions : List Action) :
    (departed playout actions).map Prod.snd ++ (playout.run actions).ring.waiting =
      playout.ring.waiting ++ rendered playout actions := by
  rw [departed, map_gather Playout.step List.map_nil fun _ _ ↦ List.map_append]
  exact gather_append_held Playout.step (fun _ ↦ True) (fun playout ↦ playout.ring.waiting)
    (fun _ _ _ ↦ trivial) (fun playout action _ ↦ playout.departures_append_waiting action)
    trivial actions

/-- The ledger of a run calls delivered what was played, and discarded what flushes dropped. -/
theorem met_departed (actions : List Action) :
    Fate.delivered.met (departed playout actions) = played playout actions ∧
      Fate.discarded.met (departed playout actions) = dropped playout actions := by
  have hdelivered : ∀ (playout : Playout) (action : Action),
      Fate.delivered.met (playout.departures action) = playout.stepPlayed action := by
    intro playout action
    match action with
    | .write wanted locks =>
      simp [departures, stepPlayed, Fate.met_mark_of_ne]
    | .requestFlush | .setDraining _ | .control _ => rfl
  have hdiscarded : ∀ (playout : Playout) (action : Action),
      Fate.discarded.met (playout.departures action) = playout.stepDropped action := by
    intro playout action
    match action with
    | .write wanted locks =>
      simp [departures, stepDropped, Fate.met_mark_of_ne]
    | .requestFlush | .setDraining _ | .control _ => rfl
  constructor
  · rw [departed, map_gather Playout.step rfl Fate.delivered.met_append]
    simp only [hdelivered, played]
  · rw [departed, map_gather Playout.step rfl Fate.discarded.met_append]
    simp only [hdiscarded, dropped]

/-- Until the next callback nothing leaves the ring or comes in, and a flush stays pending. -/
theorem step_of_pending {playout : Playout}
    (hpending : playout.signals.flushDone < playout.signals.flushRequested) {action : Action}
    (hother : ∀ wanted locks, action ≠ .write wanted locks) :
    playout.departures action = [] ∧ playout.stepRendered action = [] ∧
      (playout.step action).ring = playout.ring ∧
      (playout.step action).signals.flushDone <
        (playout.step action).signals.flushRequested := by
  cases action with
  | write wanted locks => exact absurd rfl (hother wanted locks)
  | requestFlush => exact ⟨rfl, rfl, rfl, Nat.lt_succ_of_lt hpending⟩
  | setDraining draining => exact ⟨rfl, rfl, rfl, hpending⟩
  | control change => exact ⟨rfl, rfl, rfl, hpending⟩

/-- Once a flush is pending, the next callback discards what waits in the ring before it renders.
Whatever leaves the ring behind that was rendered since. -/
theorem departed_of_pending {playout : Playout}
    (hpending : playout.signals.flushDone < playout.signals.flushRequested) {actions : List Action}
    (hwrite : ∃ wanted locks, .write wanted locks ∈ actions) :
    ∃ later, departed playout actions = Fate.discarded.mark playout.ring.waiting ++ later ∧
      later.map Prod.snd ++ (playout.run actions).ring.waiting = rendered playout actions := by
  induction actions generalizing playout with
  | nil =>
    obtain ⟨wanted, locks, hmem⟩ := hwrite
    exact absurd hmem List.not_mem_nil
  | cons action rest ih =>
    by_cases hnow : ∃ wanted locks, action = .write wanted locks
    · obtain ⟨wanted, locks, rfl⟩ := hnow
      have hdropped : playout.discarded = playout.ring.waiting := if_neg hpending.ne'
      have hleft : (playout.written wanted locks).played ++
          (playout.step (.write wanted locks)).ring.waiting =
            playout.stepRendered (.write wanted locks) := by
        have hwritten := playout.departures_append_waiting (.write wanted locks)
        rw [departures, hdropped, List.map_append, Fate.map_snd_mark, Fate.map_snd_mark,
          List.append_assoc] at hwritten
        exact List.append_cancel_left hwritten
      refine ⟨Fate.delivered.mark (playout.written wanted locks).played ++
        departed (playout.step (.write wanted locks)) rest, ?_, ?_⟩
      · rw [departed, gather, departures, hdropped, List.append_assoc]
      · calc (Fate.delivered.mark (playout.written wanted locks).played ++
                departed (playout.step (.write wanted locks)) rest).map Prod.snd ++
              (playout.run (.write wanted locks :: rest)).ring.waiting
            = (playout.written wanted locks).played ++
                ((departed (playout.step (.write wanted locks)) rest).map Prod.snd ++
                  ((playout.step (.write wanted locks)).run rest).ring.waiting) := by
              rw [List.map_append, Fate.map_snd_mark, List.append_assoc]
              rfl
          _ = playout.stepRendered (.write wanted locks) ++
                rendered (playout.step (.write wanted locks)) rest := by
              rw [run_append_waiting, ← List.append_assoc, hleft]
    · have hlater : ∃ wanted locks, Action.write wanted locks ∈ rest := by
        obtain ⟨wanted, locks, hmem⟩ := hwrite
        rcases List.mem_cons.mp hmem with hfirst | hrest
        · exact absurd ⟨wanted, locks, hfirst.symm⟩ hnow
        · exact ⟨wanted, locks, hrest⟩
      obtain ⟨hdepartures, hrendered, hring, hstill⟩ :=
        step_of_pending hpending fun wanted locks hwrites ↦ hnow ⟨wanted, locks, hwrites⟩
      obtain ⟨later, hdeparted, hrest⟩ := ih hstill hlater
      rw [hring] at hdeparted
      rw [departed, rendered, gather, gather, hdepartures, hrendered]
      exact ⟨later, hdeparted, hrest⟩

theorem sound_opened {period capacity : Nat} (hperiod : 0 < period) (player : Player) :
    (opened period capacity player).Sound :=
  ⟨hperiod, Nat.zero_le _, rfl, le_rfl⟩

end Run

/-- Over any run of an output that was opened with room for two periods: the rendered samples are
in their order those that left the ring, namely those played and those dropped by flushes, and then
those that wait in it. Their numbers add up with the one that is reported as buffered. Each callback
serves as it should, without silence if it wants no more than a period and the output does not
drain. After a request to flush nothing is played that was rendered before. -/
theorem run_opened {period capacity : Nat} (hperiod : 0 < period)
    (hcapacity : 2 * period ≤ capacity) (player : Player) (actions : List Action) :
    let start := opened period capacity player
    let after := start.run actions
    ((departed start actions).map Prod.snd ++ after.ring.waiting = rendered start actions ∧
      Fate.delivered.met (departed start actions) = played start actions ∧
      Fate.discarded.met (departed start actions) = dropped start actions) ∧
    (rendered start actions).length = (played start actions).length +
      (dropped start actions).length + after.signals.buffered ∧
    (after.ring.period = period ∧ after.ring.capacity = capacity ∧
      after.ring.waiting.length ≤ capacity) ∧
    (∀ wanted locks, after.Serves wanted locks ∧
      (after.signals.draining = false → wanted ≤ period →
        (after.written wanted locks).buffer wanted = (after.written wanted locks).played)) ∧
    ∀ more, (∃ wanted locks, .write wanted locks ∈ more) →
      let asked := after.step .requestFlush
      ∃ later, departed asked more = Fate.discarded.mark after.ring.waiting ++ later ∧
        later.map Prod.snd ++ (asked.run more).ring.waiting = rendered asked more := by
  intro start after
  have hsound : after.Sound := (sound_opened hperiod player).run actions
  obtain ⟨hsize, hroom⟩ : after.ring.period = period ∧ after.ring.capacity = capacity :=
    start.ring_run actions
  have hledger : (departed start actions).map Prod.snd ++ after.ring.waiting =
      rendered start actions := start.run_append_waiting actions
  obtain ⟨hplayed, hdropped⟩ := start.met_departed actions
  refine ⟨⟨hledger, hplayed, hdropped⟩, ?_, ⟨hsize, hroom, hroom ▸ hsound.held⟩,
    fun wanted locks ↦ ⟨hsound.serves wanted locks, fun hrendering hwanted ↦ ?_⟩,
    fun more hwrite ↦ ?_⟩
  · rw [← hledger, ← hplayed, ← hdropped, Fate.length_met_add_length_met, hsound.buffered_eq,
      List.length_append, List.length_map]
  · exact (hsound.serves wanted locks).full hrendering (by rw [hsize, hroom]; omega)
  · exact departed_of_pending (Nat.lt_succ_of_le hsound.done_le) hwrite

/-- Three callbacks of three samples. The sample left by the first is flushed, the one left by the
second is played while the output drains. -/
theorem run_opened_drained :
    let player := Player.new .oneHertz 1 ⟨64, [], 0, true⟩ (.new 0 1)
    let actions : List Action :=
      [.write 3 [], .requestFlush, .write 3 [true], .setDraining true, .write 3 []]
    let start := opened 2 5 player
    ((0 < 2 ∧ 2 * 2 ≤ 5) ∧ (rendered start actions).length = 8 ∧
      (played start actions).length = 7 ∧ (dropped start actions).length = 1 ∧
      (start.run actions).signals.buffered = 0) ∧
    (departed start actions).map Prod.snd ++ (start.run actions).ring.waiting =
      rendered start actions := by
  intro player actions start
  refine ⟨⟨by decide, ?_⟩, (run_opened (by decide) (by decide) player actions).1.1⟩
  decide +kernel

end Playout

end TimelineMixer
