import Mathlib.Data.List.ReduceOption
import TimelineMixer.Output.Device

/-!
# Callbacks of a device

A device that plays fetches buffers, one that is paused or closed does not
(`length_delivered_writes`). Callbacks leave the cork flag, the stream and the calls of the host as
they are (`Keeps`). The first one that is delivered honours all requests to flush (`Honours`) and
does what it would do with an empty ring (`writes_discardRing`). A flush and a drain are callbacks
after the request and while the output does not render (`stream_flushDuring`,
`stream_drainDuring`); with a flush there is nothing to wait for if no callbacks can come
(`flushDuring_of_quiet`), and a device that plays needs one callback
(`succeeded_flushDuring_iff`).
-/

set_option autoImplicit false
set_option relaxedAutoImplicit false

namespace TimelineMixer

namespace PlayoutRing

/-- While a flush is pending a callback does not see what the ring holds. -/
theorem write_emptied {ρ : Type} {signals : PlayoutSignals}
    (h : signals.flushRequested ≠ signals.flushDone) (render : ρ → List Float32 × ρ) (wanted : Nat)
    (ring : PlayoutRing) (renderer : ρ) :
    write render signals wanted { ring with waiting := [] } renderer =
      write render signals wanted ring renderer := by
  rw [write, write, honourFlush, honourFlush, if_neg h, if_neg h]

end PlayoutRing

namespace DeviceOutput

/-- Whether the stream plays, if one is open. -/
def playing? (output : DeviceOutput) : Option Bool :=
  output.stream?.map DeviceStream.playing

/-- A flush was requested, and no callback was delivered since. -/
def Pending (output : DeviceOutput) : Prop :=
  output.signals.flushDone < output.signals.flushRequested

/-- The output with an empty ring. -/
def discardRing (output : DeviceOutput) : DeviceOutput :=
  { output with stream? :=
      output.stream?.map fun stream ↦ { stream with ring := { stream.ring with waiting := [] } } }

/-- Without a delivered callback no request to flush is honoured, with one all of them are. -/
inductive Honours (before after : PlayoutSignals) (buffers : List (List Float32)) : Prop
  | waits (none : buffers = []) (done : after.flushDone = before.flushDone)
      (requested : before.flushRequested ≤ after.flushRequested)
  | honours (some : buffers ≠ []) (done : after.flushDone = after.flushRequested)

section Callbacks

variable {output : DeviceOutput} (player : Player) (wanted : Nat)

theorem playing?_of_closed (h : output.stream? = none) : output.playing? = none := by
  rw [playing?, h, Option.map_none]

theorem playing?_of_open {stream : DeviceStream} (h : output.stream? = some stream) :
    output.playing? = some stream.playing := by
  rw [playing?, h, Option.map_some]

theorem write_of_not_playing (h : output.playing? ≠ some true) :
    output.write player wanted = (none, output, player) := by
  rw [write]
  cases hopen : output.stream? with
  | none => rfl
  | some stream =>
    rw [playing?_of_open hopen] at h
    exact if_neg fun hplaying ↦ h (congrArg some hplaying)

theorem write_of_playing {stream : DeviceStream} (hopen : output.stream? = some stream)
    (hplaying : stream.playing = true) :
    output.write player wanted =
      let written := stream.ring.write (fun player ↦ player.renderSamples false stream.ring.period)
        output.signals wanted player
      (some (written.buffer wanted),
        { output with
          signals := written.signals
          stream? := some { stream with ring := written.ring } },
        written.renderer) := by
  rw [write, hopen]
  exact if_pos hplaying

theorem exists_open_of_playing (h : output.playing? = some true) :
    ∃ stream, output.stream? = some stream ∧ stream.playing = true :=
  Option.map_eq_some_iff.mp h

theorem exists_buffer_of_playing (h : output.playing? = some true) :
    ∃ buffer, (output.write player wanted).1 = some buffer := by
  obtain ⟨stream, hopen, hplaying⟩ := exists_open_of_playing h
  exact ⟨_, congrArg Prod.fst (write_of_playing player wanted hopen hplaying)⟩

/-- A state with the flag, the stream and the count of the host's calls as in another. -/
structure Keeps (before after : DeviceOutput) : Prop where
  corked_eq : after.corked = before.corked
  playing_eq : after.playing? = before.playing?
  calls_eq : after.calls = before.calls

theorem keeps_write (output : DeviceOutput) : output.Keeps (output.write player wanted).2.1 := by
  by_cases h : output.playing? = some true
  · obtain ⟨stream, hopen, hplaying⟩ := exists_open_of_playing h
    rw [write_of_playing player wanted hopen hplaying]
    exact ⟨rfl, (playing?_of_open hopen).symm, rfl⟩
  · rw [write_of_not_playing player wanted h]
    exact ⟨rfl, rfl, rfl⟩

/-- A callback honours every request to flush. -/
theorem signals_write (h : output.playing? = some true) :
    let signals := (output.write player wanted).2.1.signals
    signals.flushRequested = output.signals.flushRequested ∧
      signals.flushDone = output.signals.flushRequested := by
  obtain ⟨stream, hopen, hplaying⟩ := exists_open_of_playing h
  rw [write_of_playing player wanted hopen hplaying]
  exact ⟨rfl, rfl⟩

/-- The next callback after a request to flush does what it does with an empty ring. -/
theorem write_discardRing (hpending : output.Pending) (h : output.playing? = some true) :
    output.discardRing.write player wanted = output.write player wanted := by
  obtain ⟨stream, hopen, hplaying⟩ := exists_open_of_playing h
  have hempty : output.discardRing.stream? =
      some { stream with ring := { stream.ring with waiting := [] } } := by
    rw [discardRing, hopen, Option.map_some]
  rw [write_of_playing player wanted hopen hplaying, write_of_playing player wanted hempty hplaying]
  exact congrArg (fun written : PlayoutWrite Player ↦
    (some (written.buffer wanted),
      { output with
        signals := written.signals
        stream? := some { stream with ring := written.ring } },
      written.renderer))
    (PlayoutRing.write_emptied (Nat.ne_of_gt hpending) _ wanted stream.ring player)

/-! ### Callbacks one after the other -/

theorem writes_succ (output : DeviceOutput) (count : Nat) :
    writes player wanted output (count + 1) =
      let first := output.write player wanted
      let rest := writes first.2.2 wanted first.2.1 count
      (first.1 :: rest.1, rest.2) :=
  rfl

theorem keeps_writes (output : DeviceOutput) (count : Nat) :
    output.Keeps (writes player wanted output count).2.1 := by
  induction count generalizing output player with
  | zero => exact ⟨rfl, rfl, rfl⟩
  | succ count ih =>
    have hfirst := keeps_write player wanted output
    have hrest := ih (output.write player wanted).2.2 (output.write player wanted).2.1
    exact ⟨hrest.corked_eq.trans hfirst.corked_eq, hrest.playing_eq.trans hfirst.playing_eq,
      hrest.calls_eq.trans hfirst.calls_eq⟩

theorem writes_of_not_playing (h : output.playing? ≠ some true) (count : Nat) :
    writes player wanted output count = (List.replicate count none, output, player) := by
  induction count with
  | zero => rfl
  | succ count ih =>
    rw [writes_succ, write_of_not_playing player wanted h]
    dsimp only
    rw [ih, List.replicate_succ]

/-- The callbacks are delivered, all of them, exactly if the stream plays. -/
theorem length_delivered_writes (output : DeviceOutput) (count : Nat) :
    ((writes player wanted output count).1.reduceOption).length =
      if output.playing? = some true then count else 0 := by
  by_cases h : output.playing? = some true
  swap
  · rw [writes_of_not_playing player wanted h, if_neg h, List.reduceOption_replicate_none,
      List.length_nil]
  rw [if_pos h]
  induction count generalizing output player with
  | zero => rfl
  | succ count ih =>
    obtain ⟨buffer, hbuffer⟩ := exists_buffer_of_playing player wanted h
    have hstill : (output.write player wanted).2.1.playing? = some true := by
      rw [(keeps_write player wanted output).playing_eq, h]
    have hrest := ih (output.write player wanted).2.2 (output.write player wanted).2.1 hstill
    rw [writes_succ]
    dsimp only
    rw [hbuffer, List.reduceOption_cons_of_some, List.length_cons, hrest]

/-- Without a delivered callback nothing happens. -/
theorem writes_of_undelivered {count : Nat}
    (h : (writes player wanted output count).1.reduceOption = []) :
    (writes player wanted output count).2 = (output, player) := by
  have hlength := length_delivered_writes player wanted output count
  rw [h, List.length_nil] at hlength
  by_cases hplaying : output.playing? = some true
  · rw [if_pos hplaying] at hlength
    rw [← hlength]
    rfl
  · rw [writes_of_not_playing player wanted hplaying]

/-- With one, the stream plays, and there is a first callback. -/
theorem playing_of_delivered {count : Nat}
    (h : (writes player wanted output count).1.reduceOption ≠ []) :
    output.playing? = some true ∧ ∃ more, count = more + 1 := by
  have hlength := length_delivered_writes player wanted output count
  by_cases hplaying : output.playing? = some true
  · rw [if_pos hplaying] at hlength
    refine ⟨hplaying, Nat.exists_eq_add_one.mpr ?_⟩
    rw [← hlength]
    exact List.length_pos_iff.mpr h
  · rw [if_neg hplaying] at hlength
    exact absurd (List.eq_nil_of_length_eq_zero hlength) h

/-- Of callbacks one after the other it is the first that does not see what the ring held. -/
theorem writes_discardRing (hpending : output.Pending) {count : Nat}
    (h : (writes player wanted output count).1.reduceOption ≠ []) :
    writes player wanted output.discardRing count = writes player wanted output count := by
  obtain ⟨hplaying, more, rfl⟩ := playing_of_delivered player wanted h
  rw [writes_succ, writes_succ, write_discardRing player wanted hpending hplaying]

/-- The requests to flush over callbacks. -/
theorem honours_writes (output : DeviceOutput) (count : Nat) :
    Honours output.signals (writes player wanted output count).2.1.signals
      (writes player wanted output count).1.reduceOption := by
  by_cases hnone : (writes player wanted output count).1.reduceOption = []
  · have hkept := writes_of_undelivered player wanted hnone
    have hsignals : (writes player wanted output count).2.1.signals = output.signals := by
      rw [hkept]
    exact .waits hnone (congrArg _ hsignals) (Nat.le_of_eq (congrArg _ hsignals.symm))
  obtain ⟨hplaying, more, rfl⟩ := playing_of_delivered player wanted hnone
  refine .honours hnone ?_
  clear hnone
  induction more generalizing output player with
  | zero =>
    obtain ⟨hrequested, hdone⟩ := signals_write player wanted hplaying
    exact hdone.trans hrequested.symm
  | succ more ih =>
    have hstill : (output.write player wanted).2.1.playing? = some true := by
      rw [(keeps_write player wanted output).playing_eq, hplaying]
    exact ih (output.write player wanted).2.2 (output.write player wanted).2.1 hstill

end Callbacks

/-! ### Flushing and draining -/

theorem stream_settleFlush (output : DeviceOutput) : output.settleFlush.stream = output := by
  rw [settleFlush]
  split_ifs
  · rfl
  · rfl

theorem succeeded_settleFlush_iff {output : DeviceOutput} :
    output.settleFlush.succeeded = true ↔ output.isFlushed = true := by
  rw [settleFlush]
  split_ifs with h
  · exact iff_of_true rfl h
  · exact iff_of_false Bool.false_ne_true h

theorem isQuiet_of_playing {output : DeviceOutput} (hplaying : output.playing? = some true)
    (huncorked : output.corked = false) : output.isQuiet = false := by
  obtain ⟨stream, hopen, -⟩ := exists_open_of_playing hplaying
  rw [isQuiet, huncorked, hopen]
  rfl

theorem stream_settleDrain (output : DeviceOutput) : output.settleDrain.stream = output := by
  rw [settleDrain]
  split_ifs
  · rfl
  · rfl

section Waiting

variable {output : DeviceOutput} (player : Player) (wanted count : Nat)

/-- The output after a flush: callbacks were delivered after it was requested. -/
theorem stream_flushDuring :
    (output.flushDuring player wanted count).2.1.stream =
      (writes player wanted output.requestFlush count).2.1 :=
  stream_settleFlush _

/-- The output after a drain: callbacks were delivered while it did not render. -/
theorem stream_drainDuring :
    (output.drainDuring player wanted count).2.1.stream =
      (writes player wanted (output.setDraining ¬ output.isDrained)
        count).2.1.setDraining false := by
  rw [drainDuring]
  dsimp only
  split_ifs
  · rfl
  · exact congrArg (setDraining · false) (stream_settleDrain _)

theorem keeps_flushDuring : output.Keeps (output.flushDuring player wanted count).2.1.stream := by
  rw [stream_flushDuring]
  have hwrites := keeps_writes player wanted output.requestFlush count
  exact ⟨hwrites.corked_eq, hwrites.playing_eq, hwrites.calls_eq⟩

theorem keeps_drainDuring : output.Keeps (output.drainDuring player wanted count).2.1.stream := by
  rw [stream_drainDuring]
  have hwrites := keeps_writes player wanted (output.setDraining ¬ output.isDrained) count
  exact ⟨hwrites.corked_eq, hwrites.playing_eq, hwrites.calls_eq⟩

/-- A flush is deferred if no callbacks can come. -/
theorem flushDuring_of_quiet (hquiet : output.isQuiet = true)
    (hplaying : output.playing? ≠ some true) :
    output.flushDuring player wanted count =
      (List.replicate count none, .ok output.requestFlush, player) := by
  have hflushed : output.requestFlush.isFlushed = true := by
    have hstill : output.requestFlush.isQuiet = true := hquiet
    rw [isFlushed, hstill, Bool.true_or]
  have hstill : output.requestFlush.playing? ≠ some true := hplaying
  rw [flushDuring, writes_of_not_playing player wanted hstill]
  dsimp only
  rw [settleFlush, if_pos hflushed]

/-- A flush for which no callback comes is a flush without callbacks. -/
theorem flushDuring_zero :
    output.flushDuring player wanted 0 = ([], output.flush, player) :=
  rfl

/-- A device that plays honours a flush with the first callback, and not before. -/
theorem succeeded_flushDuring_iff (hplaying : output.playing? = some true)
    (huncorked : output.corked = false)
    (hdone : output.signals.flushDone ≤ output.signals.flushRequested) :
    (output.flushDuring player wanted count).2.1.succeeded = true ↔ 0 < count := by
  have hrequested : output.requestFlush.playing? = some true := hplaying
  have hkeeps := keeps_writes player wanted output.requestFlush count
  have hloud : (writes player wanted output.requestFlush count).2.1.isQuiet = false :=
    isQuiet_of_playing (hkeeps.playing_eq.trans hrequested) (hkeeps.corked_eq.trans huncorked)
  rw [flushDuring]
  dsimp only
  rw [succeeded_settleFlush_iff, isFlushed, hloud, Bool.false_or, decide_eq_true_iff]
  rcases Nat.eq_zero_or_pos count with rfl | hcount
  · exact iff_of_false (Nat.not_le.mpr (Nat.lt_succ_of_le hdone)) (Nat.lt_irrefl 0)
  · refine iff_of_true ?_ hcount
    have hdelivered := length_delivered_writes player wanted output.requestFlush count
    rw [if_pos hrequested] at hdelivered
    rcases honours_writes player wanted output.requestFlush count with ⟨hnone, -, -⟩ | ⟨-, hall⟩
    · rw [hnone] at hdelivered
      exact absurd hdelivered.symm (Nat.ne_of_gt hcount)
    · exact Nat.le_of_eq hall.symm

theorem keeps_reportError (reason : String) :
    output.Keeps (output.reportError reason).2.1 ∧
      (output.reportError reason).2.1.signals = output.signals := by
  rw [reportError]
  split_ifs
  · exact ⟨⟨rfl, rfl, rfl⟩, rfl⟩
  · exact ⟨⟨rfl, rfl, rfl⟩, rfl⟩

end Waiting

end DeviceOutput

end TimelineMixer
