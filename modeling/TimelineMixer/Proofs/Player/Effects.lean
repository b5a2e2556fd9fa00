import TimelineMixer.Engine
import TimelineMixer.Proofs.Queue.Chunks

/-!
# What rendering and seeking leave alone

A period rendered in any state takes chunks off the queues and reports no seek; timeline and format
stay (`rendered_render`). While the transport plays and the queues are not locked, it is the mix of
the chosen atom, followed by counting the bytes (`render_frame`). A seek that is carried out leaves
the queues empty (`seek_effect`).
-/

set_option autoImplicit false
set_option relaxedAutoImplicit false

namespace TimelineMixer

/-- The event reports a seek. -/
def Event.isSeek : Event → Bool
  | .seeked _ _ => true
  | _ => false

namespace EventChannel

theorem mem_waiting_emit {channel : EventChannel} {sent event : Event}
    (h : event ∈ (channel.emit sent).2.waiting) : event ∈ channel.waiting ∨ event = sent := by
  by_cases hconnected : channel.connected = true
  · by_cases hroom : channel.waiting.length < channel.capacity
    · rw [emit, if_neg (not_not.mpr hconnected), if_pos hroom] at h
      exact (List.mem_append.mp h).imp id List.mem_singleton.mp
    · rw [emit, if_neg (not_not.mpr hconnected), if_neg hroom] at h
      exact Or.inl h
  · rw [emit, if_pos hconnected] at h
    exact Or.inl h

/-- A channel that events were sent on holds only what it held and those events. -/
theorem mem_waiting_emitAll {channel : EventChannel} {events : List Event} {event : Event}
    (h : event ∈ (channel.emitAll events).waiting) : event ∈ channel.waiting ∨ event ∈ events := by
  induction events generalizing channel with
  | nil => exact Or.inl h
  | cons first rest ih =>
    rw [emitAll_cons] at h
    rcases ih h with hwaiting | hrest
    · rcases mem_waiting_emit hwaiting with hold | rfl
      · exact Or.inl hold
      · exact Or.inr List.mem_cons_self
    · exact Or.inr (List.mem_cons_of_mem _ hrest)

end EventChannel

/-- Choosing an atom reports a wrap or a change of atom at most, as the clock shows it. -/
theorem Timeline.mem_events_select {timeline : Timeline} {clock : Clock} {spec : AudioSpec}
    {bytes : Nat} {event : Event} (h : event ∈ (timeline.select clock spec bytes).events) :
    let chosen := (timeline.select clock spec bytes).clock
    event = .loopWrapped chosen.loop ∨ event = .atomChanged chosen.index chosen.loop := by
  have hcrossing : ∀ crossing, event ∈ crossingEvents crossing →
      event = .loopWrapped crossing.clock.loop ∨
        event = .atomChanged crossing.clock.index crossing.clock.loop := by
    intro crossing hevent
    rcases List.mem_append.mp hevent with hwrap | hchange
    · split_ifs at hwrap
      · exact Or.inl (List.mem_singleton.mp hwrap)
      · cases hwrap
    · split_ifs at hchange
      · cases hchange
      · exact Or.inr (List.mem_singleton.mp hchange)
  revert h
  rw [select]
  split_ifs
  · exact fun h ↦ nomatch h
  · split
    · split_ifs
      · exact fun h ↦ nomatch h
      · exact hcrossing _
    · exact hcrossing _

theorem Timeline.isSeek_select {timeline : Timeline} {clock : Clock} {spec : AudioSpec}
    {bytes : Nat} {event : Event} (h : event ∈ (timeline.select clock spec bytes).events) :
    event.isSeek = false := by
  rcases mem_events_select h with rfl | rfl <;> rfl

/-- Checking the queues reports an underrun or a recovery at most. -/
theorem UnderrunMonitor.isSeek_check {monitor : UnderrunMonitor} {queued : Nat} {event : Event}
    (h : event ∈ (monitor.check queued).events) : event.isSeek = false := by
  rw [check] at h
  dsimp only at h
  split_ifs at h <;> simp at h
  · rw [h]
    rfl
  · rw [h]
    rfl

namespace Player

@[simp] theorem deck_lockStore (player : Player) : player.lockStore.deck = player.deck := by
  rw [lockStore]
  split_ifs
  · rfl
  · rfl

@[simp] theorem store_lockStore (player : Player) : player.lockStore.store = player.store := by
  rw [lockStore]
  split_ifs
  · rfl
  · rfl

/-- Another callback is counted. -/
def countCallback (player : Player) : Player :=
  { player with stats := { player.stats with callbacks := player.stats.callbacks + 1 } }

theorem renderSamples_eq (player : Player) (locked : Bool) (count : Nat) :
    let silence := List.replicate count 0
    let called := player.countCallback
    let period := if player.deck.transport = .playing then called.playPeriod locked silence
      else (silence, called.countSilent)
    player.renderSamples locked count = (period.1, period.2.finishPeriod (Sample.width * count)) :=
  rfl

/-- What rendering may do to a player: chunks are taken off the front of queues, and no event that
is sent reports a seek. -/
structure Rendered (before after : Player) : Prop where
  timeline_eq : after.deck.timeline = before.deck.timeline
  format_eq : after.deck.format = before.deck.format
  chunks : ∀ key, after.store.chunks key <:+ before.store.chunks key
  waiting : ∀ event ∈ after.channel.waiting, event ∈ before.channel.waiting ∨
    event.isSeek = false

namespace Rendered

theorem trans {a b c : Player} (hab : Rendered a b) (hbc : Rendered b c) : Rendered a c where
  timeline_eq := hbc.timeline_eq.trans hab.timeline_eq
  format_eq := hbc.format_eq.trans hab.format_eq
  chunks key := (hbc.chunks key).trans (hab.chunks key)
  waiting event hevent := (hbc.waiting event hevent).elim (hab.waiting event) Or.inr

end Rendered

theorem rendered_chooseAtom (player : Player) (bytes : Nat) :
    Rendered player (player.chooseAtom bytes).2 where
  timeline_eq := rfl
  format_eq := rfl
  chunks _ := List.suffix_rfl
  waiting _ hevent :=
    (EventChannel.mem_waiting_emitAll hevent).imp id Timeline.isSeek_select

theorem rendered_checkQueues (player : Player) : Rendered player player.checkQueues where
  timeline_eq := rfl
  format_eq := rfl
  chunks _ := List.suffix_rfl
  waiting _ hevent :=
    (EventChannel.mem_waiting_emitAll hevent).imp id UnderrunMonitor.isSeek_check

theorem rendered_mix (player : Player) (atom : Atom) (silence : List Float32) :
    Rendered player (player.mix atom silence).2 := by
  refine Rendered.trans ?_ (rendered_checkQueues _)
  exact ⟨rfl, rfl, LayerStore.chunks_mixFrame _ _ _ _ _ _ _, fun _ hevent ↦ Or.inl hevent⟩

theorem rendered_scale (player : Player) (out : List Float32) :
    Rendered player (player.scale out).2 :=
  ⟨rfl, rfl, fun _ ↦ List.suffix_rfl, fun _ hevent ↦ Or.inl hevent⟩

theorem rendered_playPeriod (player : Player) (locked : Bool) (silence : List Float32) :
    Rendered player (player.playPeriod locked silence).2 := by
  have hchosen := player.rendered_chooseAtom (Sample.width * silence.length)
  rw [playPeriod]
  generalize player.chooseAtom (Sample.width * silence.length) = chosen at hchosen
  obtain ⟨choice, chosen⟩ := chosen
  cases choice with
  | none => exact hchosen.trans ⟨rfl, rfl, fun _ ↦ List.suffix_rfl, fun _ ↦ Or.inl⟩
  | some atom =>
    dsimp only
    split_ifs
    · exact hchosen.trans ⟨rfl, rfl, fun _ ↦ List.suffix_rfl, fun _ ↦ Or.inl⟩
    · exact hchosen.trans ⟨rfl, rfl, fun _ ↦ List.suffix_rfl, fun _ ↦ Or.inl⟩
    · exact (hchosen.trans (rendered_mix _ _ _)).trans (rendered_scale _ _)

/-- Rendering a period in any state. -/
theorem rendered_render (player : Player) (locked : Bool) (bytes : Nat) :
    Rendered player (player.render locked bytes).2 := by
  have hcounted : ∀ stats, Rendered player { player with stats } :=
    fun _ ↦ ⟨rfl, rfl, fun _ ↦ List.suffix_rfl, fun _ ↦ Or.inl⟩
  have hfinished : ∀ (other : Player) count, Rendered other (other.finishPeriod count) :=
    fun _ _ ↦ ⟨rfl, rfl, fun _ ↦ List.suffix_rfl, fun _ ↦ Or.inl⟩
  rw [render, renderSamples]
  dsimp only
  split_ifs
  · exact ((hcounted _).trans (rendered_playPeriod _ _ _)).trans (hfinished _ _)
  · exact ⟨rfl, rfl, fun _ ↦ List.suffix_rfl, fun _ ↦ Or.inl⟩

/-! ### A playing transport -/

/-- The mix of a period for which an atom was chosen. -/
def frame (player : Player) (silence : List Float32) (atom : Atom) : FrameMix :=
  let bytes := Sample.width * silence.length
  let chosen := (player.deck.select bytes).2
  mixFrame player.store silence atom chosen.time (chosen.time + chosen.spec.duration bytes)
    chosen.clock.loop chosen.spec

/-- A playing transport mixes the chosen atom from the queues at hand. -/
theorem playPeriod_frame (player : Player) (silence : List Float32) {atom : Atom}
    (hatom : (player.deck.select (Sample.width * silence.length)).1.atom = some atom) :
    let frame := player.frame silence atom
    let after := (player.playPeriod false silence).2
    after.deck = (player.deck.select (Sample.width * silence.length)).2 ∧
      after.store = frame.store ∧
      after.stats.starved = player.stats.starved + if frame.starved = 0 then 0 else 1 := by
  intro frame after
  have hchosen : player.chooseAtom (Sample.width * silence.length) =
      (some atom, (player.chooseAtom (Sample.width * silence.length)).2) := Prod.ext hatom rfl
  generalize hmoved : (player.chooseAtom (Sample.width * silence.length)).2 = moved at hchosen
  by_cases hsilent : atom.layers.isEmpty = true
  · have hframe : frame = ⟨silence, player.store, 0, 0, 0⟩ := by
      simp only [frame, Player.frame, mixFrame, List.isEmpty_iff.mp hsilent, List.foldl_nil]
    have hafter : after = moved.countSilent := by
      simp only [after, playPeriod, hchosen, hsilent, if_true]
    rw [hframe, hafter, ← hmoved]
    exact ⟨rfl, rfl, rfl⟩
  · have hafter : after = ((moved.mix atom silence).2.scale (moved.mix atom silence).1).2 := by
      simp only [after, playPeriod, hchosen, hsilent, Bool.false_eq_true, if_false]
    rw [hafter, ← hmoved]
    exact ⟨rfl, rfl, rfl⟩

/-- A whole period of a playing transport, with its bytes counted. -/
theorem render_frame (player : Player) (hplaying : player.deck.transport = .playing) {bytes : Nat}
    (hbytes : Sample.width ∣ bytes) {atom : Atom}
    (hatom : (player.deck.select bytes).1.atom = some atom) :
    let frame := player.frame (List.replicate (bytes / Sample.width) 0) atom
    let after := (player.render false bytes).2
    after.deck = (player.deck.select bytes).2.advance bytes ∧ after.store = frame.store ∧
      after.stats.starved = player.stats.starved + if frame.starved = 0 then 0 else 1 := by
  obtain ⟨count, rfl⟩ := hbytes
  have hcount : Sample.width * count / Sample.width = count :=
    Nat.mul_div_cancel_left _ (by decide)
  have hlength : (List.replicate count (0 : Float32)).length = count := List.length_replicate ..
  rw [hcount]
  intro frame after
  obtain ⟨hdeck, hstore, hstarved⟩ := player.countCallback.playPeriod_frame
    (List.replicate count 0) (hlength.symm ▸ hatom)
  have hafter : after = (player.countCallback.playPeriod false
      (List.replicate count 0)).2.finishPeriod (Sample.width * count) := by
    simp only [after, render, renderSamples_eq, hcount, hplaying, if_true]
  rw [hlength] at hdeck
  rw [hafter, finishPeriod, hdeck]
  exact ⟨rfl, hstore, hstarved⟩

end Player

namespace Engine

variable {σ : Type} [OutputStream σ]

/-- A seek does nothing, or it leaves the queues empty and the timeline and the format as they
were. -/
theorem seek_effect (engine : Engine σ) (position : Seconds) :
    (engine.seek position).2 = engine ∨
      (engine.seek position).2.player.store = .empty ∧
        (engine.seek position).2.player.deck.timeline = engine.player.deck.timeline ∧
        (engine.seek position).2.player.deck.format = engine.player.deck.format := by
  rw [seek]
  dsimp only
  split_ifs
  · exact Or.inl rfl
  · split
    · refine Or.inr ⟨rfl, ?_, ?_⟩
      · exact congrArg (fun deck ↦ deck.timeline) engine.player.deck_lockStore
      · exact congrArg (fun deck ↦ deck.format) engine.player.deck_lockStore
    · exact Or.inl rfl

end Engine

end TimelineMixer
