import TimelineMixer.Proofs.Mix.Turns
import TimelineMixer.Proofs.Player.Reports

/-!
# The account of a period

Whatever the state of a player, a period is silent, contended or mixed (`Player.kind`). The counters
tell which, and only a mixed period touches the queues or checks them (`Player.Accounted`). Silent
or not, a period moves the clock by its bytes, after a wrap if there is one.

A period takes nothing from the player but its deck, its queues and its monitor. What a player has
recorded and whether anyone listens makes no difference to it: it goes on from there as a player
that has recorded nothing, and that nobody listens to, goes on from nothing (`Player.alone`,
`Player.Mirrors.renderSamples`).
-/

set_option autoImplicit false
set_option relaxedAutoImplicit false

namespace TimelineMixer

/-! ### Layers whose queues run dry -/

namespace LayerQueue

/-- A region starves if less is unread than it has room for. -/
theorem starved_fillFrom (gain : Float32) (stop : Nat) (chunks : List Chunk) (cursor : Cursor)
    (bytes pos mixed : Nat) (out : List Float32) :
    (fillFrom gain stop chunks cursor bytes pos mixed out).starved =
      decide ((unreadFrom chunks cursor).length < stop - pos) := by
  induction chunks generalizing cursor bytes pos mixed out with
  | nil =>
    rw [fillFrom, unreadFrom, List.length_nil]
    split_ifs with hroom
    · simp [hroom]
    · simp [Nat.not_lt.mp hroom]
  | cons chunk rest ih =>
    rcases Nat.lt_or_ge pos stop with hroom | hfull
    · rw [length_unreadFrom_cons]
      rcases Nat.lt_or_ge (stop - pos) (cursor.remaining chunk) with hlt | hpop
      · rw [fillFrom_of_lt_remaining gain hroom bytes mixed out hlt]
        exact (decide_eq_false (by omega)).symm
      · rw [fillFrom_of_remaining_le gain hroom bytes mixed out hpop, ih]
        exact decide_eq_decide.mpr (by omega)
    · rw [fillFrom, if_neg (Nat.not_lt.mpr hfull)]
      exact (decide_eq_false (by omega)).symm

end LayerQueue

theorem starved_fillLayer (store : LayerStore) (out : List Float32) (start stop : Nat)
    (key : QueueKey) (gain : Float32) :
    (fillLayer store out start stop key gain).starved =
      decide ((store.unread key).length <
        Sample.alignDown (min stop (Sample.width * out.length)) -
          Sample.alignDown (min start (Sample.width * out.length))) := by
  rw [fillLayer, LayerStore.unread]
  cases store.find? key with
  | none => exact decide_eq_decide.mpr Nat.sub_pos_iff_lt.symm
  | some queue =>
    rw [Option.map_some, Option.getD_some, LayerQueue.unread_eq]
    exact LayerQueue.starved_fillFrom ..

section Lacking

variable (spec : AudioSpec) (current next : Seconds) (loop : Nat)

/-- The layer is heard in a period that is partly mixed, and its queue is too short for it. -/
def Layer.lacks (mix : FrameMix) (layer : Layer) : Bool :=
  let size := Sample.width * mix.out.length
  let (start, stop) := layer.region spec current next size
  layer.overlaps current next && start < stop &&
    (mix.store.unread ⟨layer.id, loop⟩).length <
      Sample.alignDown (min stop size) - Sample.alignDown (min start size)

/-- How many of some layers starve, mixed one after the other. -/
def FrameMix.lacking : FrameMix → List Layer → Nat
  | _, [] => 0
  | mix, layer :: rest =>
    (if layer.lacks spec current next loop mix then 1 else 0) +
      lacking (mixLayer spec current next loop mix layer) rest

theorem starved_mixLayer_lacks (mix : FrameMix) (layer : Layer) :
    (mixLayer spec current next loop mix layer).starved =
      mix.starved + if layer.lacks spec current next loop mix then 1 else 0 := by
  rw [mixLayer, Layer.lacks]
  obtain ⟨start, stop⟩ := layer.region spec current next (Sample.width * mix.out.length)
  have hstarved := starved_fillLayer mix.store mix.out start stop ⟨layer.id, loop⟩
    (Sample.positivePart layer.gain)
  dsimp only
  by_cases hheard : (layer.overlaps current next && decide (start < stop)) = true
  · simp only [hheard, if_true, hstarved, Bool.true_and]
  · simp only [hheard, if_false, Bool.false_and, Bool.false_eq_true, Nat.add_zero]

theorem starved_foldl_mixLayer (layers : List Layer) (mix : FrameMix) :
    (layers.foldl (mixLayer spec current next loop) mix).starved =
      mix.starved + mix.lacking spec current next loop layers := by
  induction layers generalizing mix with
  | nil => rfl
  | cons layer rest ih =>
    rw [List.foldl_cons, ih, starved_mixLayer_lacks, FrameMix.lacking, Nat.add_assoc]

end Lacking

/-! ### Kinds of periods -/

/-- What a period is. -/
inductive PeriodKind where
  /-- There is nothing to mix. -/
  | silent
  /-- The queues are locked. -/
  | contended
  /-- The layers of an atom are mixed, and so many of them starve. -/
  | mixed (starved : Nat)
  deriving DecidableEq

namespace PeriodKind

def isMixed : PeriodKind → Bool
  | mixed _ => true
  | _ => false

/-- Some layer starves. -/
def starves : PeriodKind → Bool
  | mixed starved => starved ≠ 0
  | _ => false

end PeriodKind

namespace Player

/-- The atom whose layers are to be mixed: the transport plays, an atom is chosen, and it has
layers. -/
def audible? (player : Player) (count : Nat) : Option Atom :=
  if player.deck.transport = .playing then
    (player.deck.select (Sample.width * count)).1.atom.filter fun atom ↦ !atom.layers.isEmpty
  else none

/-- How many layers of an atom starve in a period. -/
def lacking (player : Player) (count : Nat) (atom : Atom) : Nat :=
  let bytes := Sample.width * count
  let chosen := (player.deck.select bytes).2
  FrameMix.lacking chosen.spec chosen.time (chosen.time + chosen.spec.duration bytes)
    chosen.clock.loop ⟨List.replicate count 0, player.store, 0, 0, 0⟩ atom.layers

/-- What a period of some samples is, if the queues are locked or not. -/
def kind (player : Player) (locked : Bool) (count : Nat) : PeriodKind :=
  match player.audible? count with
  | none => .silent
  | some atom => if locked then .contended else .mixed (player.lacking count atom)

theorem counted_mul (count : Nat) : counted (Sample.width * count) = Sample.width * count := by
  rw [counted, Nat.mul_div_cancel_left _ (by decide)]

/-- The player in a period, when the atom is chosen. -/
def begun (player : Player) (count : Nat) : Player :=
  let called := player.countCallback
  if player.deck.transport = .playing then (called.chooseAtom (Sample.width * count)).2 else called

/-- The player that counts a period with locked queues. -/
def countContended (player : Player) : Player :=
  { player with stats := { player.stats with contended := player.stats.contended + 1 } }

/-- What a period does after the atom is chosen. -/
theorem renderSamples_snd (player : Player) (locked : Bool) (count : Nat) :
    (player.renderSamples locked count).2 =
      finishPeriod (match player.audible? count with
        | none => (player.begun count).countSilent
        | some atom =>
          let silence := List.replicate count 0
          if locked then ((player.begun count).countContended.scale silence).2
          else
            let mixed := (player.begun count).mix atom silence
            (mixed.2.scale mixed.1).2)
        (Sample.width * count) := by
  rw [renderSamples_eq, audible?, begun]
  by_cases hplaying : player.deck.transport = .playing
  · have hchosen : player.countCallback.chooseAtom
        (Sample.width * (List.replicate count (0 : Float32)).length) =
          ((player.deck.select (Sample.width * count)).1.atom,
            (player.countCallback.chooseAtom (Sample.width * count)).2) := by
      rw [List.length_replicate]
      rfl
    rw [if_pos hplaying, if_pos hplaying, if_pos hplaying, playPeriod, hchosen]
    cases (player.deck.select (Sample.width * count)).1.atom with
    | none => rfl
    | some atom =>
      rw [Option.filter_some]
      cases hsilent : atom.layers.isEmpty with
      | true => simp only [hsilent, Bool.not_true, Bool.false_eq_true, if_true, if_false]
      | false =>
        simp only [hsilent, Bool.not_false, Bool.false_eq_true, if_true, if_false]
        cases locked <;> rfl
  · rw [if_neg hplaying, if_neg hplaying, if_neg hplaying]

/-- What a period does to a player. -/
structure Accounted (before : Player) (locked : Bool) (count : Nat) (after : Player) : Prop where
  callbacks : after.stats.callbacks = before.stats.callbacks + 1
  silent : after.stats.silent =
    before.stats.silent + if before.kind locked count = .silent then 1 else 0
  contended : after.stats.contended =
    before.stats.contended + if before.kind locked count = .contended then 1 else 0
  starved : after.stats.starved =
    before.stats.starved + if (before.kind locked count).starves then 1 else 0
  bytes : after.stats.bytes = before.stats.bytes + Sample.width * count
  passes : before.deck.clock.Passes (before.moved (Sample.width * count)).clock
  /-- The bytes are counted where the clock has gone. -/
  counts : (before.moved (Sample.width * count)).Counts after.deck (Sample.width * count)
  untouched : (before.kind locked count).isMixed = false →
    after.store = before.store ∧ after.monitor = before.monitor ∧
      after.channel = before.channel.emitAll (before.moves (Sample.width * count))
  checked : (before.kind locked count).isMixed = true →
    let check := before.monitor.check after.store.total
    after.monitor = check.monitor ∧
      after.channel =
        before.channel.emitAll (before.moves (Sample.width * count) ++ check.events)

theorem deck_begun (player : Player) (count : Nat) :
    (player.begun count).deck = player.moved (Sample.width * count) := by
  rw [begun, moved, counted_mul]
  split_ifs <;> rfl

theorem channel_begun (player : Player) (count : Nat) :
    (player.begun count).channel =
      player.channel.emitAll (player.moves (Sample.width * count)) := by
  rw [begun, moves, counted_mul]
  split_ifs <;> rfl

/-- Nothing else of a player has changed when the atom is chosen. -/
theorem begun_untouched (player : Player) (count : Nat) :
    (player.begun count).store = player.store ∧ (player.begun count).monitor = player.monitor ∧
      (player.begun count).stats = player.countCallback.stats := by
  rw [begun]
  split_ifs <;> exact ⟨rfl, rfl, rfl⟩

/-- A mix counts a starved period if some layer lacks samples. -/
theorem starved_mix_begun {player : Player} {count : Nat} {atom : Atom}
    (haudible : player.audible? count = some atom) :
    ((player.begun count).mix atom (List.replicate count 0)).2.stats.starved =
      player.stats.starved + if player.lacking count atom = 0 then 0 else 1 := by
  have hplaying : player.deck.transport = .playing := by
    by_contra hstill
    rw [audible?, if_neg hstill] at haudible
    cases haudible
  obtain ⟨hstore, -, hstats⟩ := player.begun_untouched count
  have hdeck : (player.begun count).deck = (player.deck.select (Sample.width * count)).2 := by
    rw [deck_begun, moved, if_pos hplaying, counted_mul]
  generalize player.begun count = begun at hstore hstats hdeck ⊢
  change begun.stats.starved + (if (mixFrame begun.store _ atom begun.deck.time (begun.deck.time +
    begun.deck.spec.duration (Sample.width * (List.replicate count (0 : Float32)).length))
    begun.deck.clock.loop begun.deck.spec).starved = 0 then 0 else 1) = _
  rw [hstore, hstats, hdeck, List.length_replicate, mixFrame, starved_foldl_mixLayer, Nat.zero_add]
  rfl

/-- Every period is accounted for. -/
theorem accounted_renderSamples (player : Player) (locked : Bool) (count : Nat) :
    player.Accounted locked count (player.renderSamples locked count).2 := by
  have hcounts : (player.moved (Sample.width * count)).Counts
      ((player.begun count).deck.advance (Sample.width * count)) (Sample.width * count) := by
    rw [player.deck_begun]
    exact Deck.counts_advance _ _
  have hchannel := player.channel_begun count
  obtain ⟨hstore, hmonitor, hstats⟩ := player.begun_untouched count
  have hpasses := player.passes_moved (Sample.width * count)
  have hcalls := congrArg RenderStats.callbacks hstats
  have hsilent := congrArg RenderStats.silent hstats
  have hcontended := congrArg RenderStats.contended hstats
  have hstarved := congrArg RenderStats.starved hstats
  have hbytes := congrArg (fun stats ↦ stats.bytes + Sample.width * count) hstats
  rw [renderSamples_snd]
  cases haudible : player.audible? count with
  | none =>
    have hkind : player.kind locked count = .silent := by rw [kind, haudible]
    refine ⟨hcalls, ?_, ?_, ?_, hbytes, hpasses, hcounts, fun _ ↦ ⟨hstore, hmonitor, hchannel⟩, ?_⟩
    all_goals rw [hkind]
    · exact congrArg (· + 1) hsilent
    · exact hcontended
    · exact hstarved
    · exact fun h ↦ nomatch h
  | some atom =>
    cases locked with
    | true =>
      have hkind : player.kind true count = .contended := by rw [kind, haudible]; rfl
      refine ⟨hcalls, ?_, ?_, ?_, hbytes, hpasses, hcounts,
        fun _ ↦ ⟨hstore, hmonitor, hchannel⟩, ?_⟩
      all_goals rw [hkind]
      · exact hsilent
      · exact congrArg (· + 1) hcontended
      · exact hstarved
      · exact fun h ↦ nomatch h
    | false =>
      have hkind : player.kind false count = .mixed (player.lacking count atom) := by
        rw [kind, haudible]; rfl
      refine ⟨hcalls, ?_, ?_, ?_, hbytes, hpasses, hcounts, ?_, fun _ ↦ ?_⟩
      · rw [hkind]
        exact hsilent
      · rw [hkind]
        exact hcontended
      · rw [hkind]
        refine (starved_mix_begun haudible).trans ?_
        by_cases hnone : player.lacking count atom = 0
        · simp [PeriodKind.starves, hnone]
        · simp [PeriodKind.starves, hnone]
      · rw [hkind]
        exact fun h ↦ nomatch h
      · have hcheck : ∀ begun : Player,
            let mixed := begun.mix atom (List.replicate count 0)
            let after := (mixed.2.scale mixed.1).2.finishPeriod (Sample.width * count)
            after.monitor = (begun.monitor.check after.store.total).monitor ∧ after.channel =
              begun.channel.emitAll (begun.monitor.check after.store.total).events :=
          fun _ ↦ ⟨rfl, rfl⟩
        have hbegun := hcheck (player.begun count)
        rw [hmonitor, hchannel] at hbegun
        exact ⟨hbegun.1, hbegun.2.trans (EventChannel.emitAll_append ..).symm⟩

end Player

/-! ### What a period depends on -/

namespace RenderStats

/-- Counters that go on where others have stopped. -/
def plus (first second : RenderStats) : RenderStats where
  callbacks := first.callbacks + second.callbacks
  silent := first.silent + second.silent
  starved := first.starved + second.starved
  contended := first.contended + second.contended
  corrupted := first.corrupted + second.corrupted
  bytes := first.bytes + second.bytes

theorem plus_assoc (first second third : RenderStats) :
    (first.plus second).plus third = first.plus (second.plus third) := by
  simp only [plus, Nat.add_assoc]

end RenderStats

namespace Player

/-- The deck, the queues and the monitor of a player, with nothing recorded and nobody listening. -/
def alone (player : Player) : Player :=
  ⟨player.deck, player.store, false, ⟨0, [], 0, false⟩, player.monitor, .zero, []⟩

/-- A player that has gone on from a base just as another has gone on from nothing. -/
structure Mirrors (base player twin : Player) : Prop where
  deck : player.deck = twin.deck
  store : player.store = twin.store
  monitor : player.monitor = twin.monitor
  stats : player.stats = base.stats.plus twin.stats
  journal : player.journal = base.journal ++ twin.journal
  poisoned : player.poisoned = base.poisoned

theorem mirrors_alone (player : Player) : Mirrors player player player.alone :=
  ⟨rfl, rfl, rfl, rfl, (List.append_nil _).symm, rfl⟩

namespace Mirrors

variable {base player twin : Player} (h : Mirrors base player twin)

include h

/-- Both count the same. -/
theorem count (more : RenderStats) : Mirrors base { player with stats := player.stats.plus more }
    { twin with stats := twin.stats.plus more } :=
  { h with stats := by rw [h.stats, RenderStats.plus_assoc] }

/-- Both record the same. -/
theorem record (notices : List Notice) :
    Mirrors base (player.note notices) (twin.note notices) :=
  { h with journal := by rw [note, note, h.journal, List.append_assoc] }

theorem countSilent : Mirrors base player.countSilent twin.countSilent :=
  h.count ⟨0, 1, 0, 0, 0, 0⟩

theorem chooseAtom (bytes : Nat) :
    (player.chooseAtom bytes).1 = (twin.chooseAtom bytes).1 ∧
      Mirrors base (player.chooseAtom bytes).2 (twin.chooseAtom bytes).2 := by
  rw [Player.chooseAtom, Player.chooseAtom, h.deck]
  exact ⟨rfl, { h.record _ with deck := rfl }⟩

theorem checkQueues : Mirrors base player.checkQueues twin.checkQueues := by
  rw [Player.checkQueues, Player.checkQueues, h.monitor, h.store]
  exact { h.record _ with monitor := rfl, store := rfl }

theorem mix (atom : Atom) (silence : List Float32) :
    (player.mix atom silence).1 = (twin.mix atom silence).1 ∧
      Mirrors base (player.mix atom silence).2 (twin.mix atom silence).2 := by
  rw [Player.mix, Player.mix, h.deck, h.store]
  refine ⟨rfl, checkQueues ?_⟩
  exact { h.count ⟨0, 0, _, 0, 0, 0⟩ with store := rfl, deck := rfl }

theorem scale (out : List Float32) :
    (player.scale out).1 = (twin.scale out).1 ∧
      Mirrors base (player.scale out).2 (twin.scale out).2 := by
  rw [Player.scale, Player.scale, h.deck]
  exact ⟨rfl, { (h.count ⟨0, 0, 0, 0, _, 0⟩).record _ with deck := rfl }⟩

theorem playPeriod (locked : Bool) (silence : List Float32) :
    (player.playPeriod locked silence).1 = (twin.playPeriod locked silence).1 ∧
      Mirrors base (player.playPeriod locked silence).2 (twin.playPeriod locked silence).2 := by
  obtain ⟨hatom, hchosen⟩ := h.chooseAtom (Sample.width * silence.length)
  rw [Player.playPeriod, Player.playPeriod]
  generalize player.chooseAtom (Sample.width * silence.length) = chosen at hatom hchosen
  generalize twin.chooseAtom (Sample.width * silence.length) = twinChosen at hatom hchosen
  obtain ⟨choice, chosen⟩ := chosen
  obtain ⟨twinChoice, twinChosen⟩ := twinChosen
  obtain rfl : choice = twinChoice := hatom
  cases choice with
  | none => exact ⟨rfl, hchosen.countSilent⟩
  | some atom =>
    dsimp only
    split_ifs
    · exact ⟨rfl, hchosen.countSilent⟩
    · exact (hchosen.count ⟨0, 0, 0, 1, 0, 0⟩).scale silence
    · obtain ⟨hout, hmixed⟩ := hchosen.mix atom silence
      rw [hout]
      exact hmixed.scale _

theorem renderSamples (locked : Bool) (count : Nat) :
    (player.renderSamples locked count).1 = (twin.renderSamples locked count).1 ∧
      Mirrors base (player.renderSamples locked count).2 (twin.renderSamples locked count).2 := by
  have hcalled : Mirrors base player.countCallback twin.countCallback := h.count ⟨1, 0, 0, 0, 0, 0⟩
  have hfinish : ∀ {one other : Player}, Mirrors base one other →
      Mirrors base (one.finishPeriod (Sample.width * count))
        (other.finishPeriod (Sample.width * count)) := fun hone ↦
    { hone.count ⟨0, 0, 0, 0, 0, _⟩ with
      deck := congrArg (Deck.advance · (Sample.width * count)) hone.deck }
  rw [renderSamples_eq, renderSamples_eq, h.deck]
  split_ifs
  · obtain ⟨hout, hplayed⟩ := hcalled.playPeriod locked (List.replicate count 0)
    exact ⟨hout, hfinish hplayed⟩
  · exact ⟨rfl, hfinish hcalled.countSilent⟩

end Mirrors

end Player

end TimelineMixer
