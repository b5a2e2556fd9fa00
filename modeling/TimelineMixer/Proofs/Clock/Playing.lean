import TimelineMixer.Deck
import TimelineMixer.Proofs.Clock.Landing
import TimelineMixer.Proofs.Time.Rounding

/-!
# The clock of a playing deck

In a timeline whose atoms meet, from time zero on, a clock that starts at the beginning is always
inside its atom: the atom starts before the time shown and ends no earlier. The argument has three
parts. Ends of atoms only increase along the timeline, so a period that no atom reaches ends after
the last one. A crossing that leaves its atom has passed the start of the atom it arrives at. A
clock that counts from zero shows its byte count divided by the byte rate, so time is never rounded
(`time_playPeriods`).
-/

set_option autoImplicit false
set_option relaxedAutoImplicit false

namespace TimelineMixer

namespace Timeline

variable {timeline : Timeline} {spec : AudioSpec}

/-- Each atom ends where the next one starts. -/
def Contiguous (timeline : Timeline) : Prop :=
  timeline.atoms.IsChain fun a b ↦ a.stop = b.start

theorem Contiguous.stop_eq_start (h : timeline.Contiguous) {i : Nat} {a b : Atom}
    (ha : timeline.atoms[i]? = some a) (hb : timeline.atoms[i + 1]? = some b) :
    a.stop = b.start := by
  obtain ⟨hi, rfl⟩ := List.getElem?_eq_some_iff.mp hb
  obtain ⟨-, rfl⟩ := List.getElem?_eq_some_iff.mp ha
  exact List.isChain_iff_getElem.mp h i hi

theorem start_le_stop {i : Nat} {a : Atom} (ha : timeline.atoms[i]? = some a) :
    a.start ≤ a.stop :=
  (timeline.ordered a (List.mem_of_getElem? ha)).1

theorem Contiguous.stop_le_stop (h : timeline.Contiguous) {i j : Nat} {a b : Atom}
    (ha : timeline.atoms[i]? = some a) (hb : timeline.atoms[j]? = some b) (hij : i ≤ j) :
    a.stop ≤ b.stop := by
  induction j, hij using Nat.le_induction generalizing b with
  | base =>
    obtain rfl : a = b := Option.some.inj (ha.symm.trans hb)
    exact le_rfl
  | succ j hij ih =>
    obtain ⟨hj, -⟩ := List.getElem?_eq_some_iff.mp hb
    obtain ⟨c, hc⟩ : ∃ c, timeline.atoms[j]? = some c := exists_atom (Nat.lt_of_succ_lt hj)
    exact (ih hc).trans ((h.stop_eq_start hc hb).le.trans (start_le_stop hb))

/-- No atom ends after the timeline. -/
theorem Contiguous.atom_stop_le (h : timeline.Contiguous) {stop : Seconds}
    (hstop : timeline.stop? = some stop) {i : Nat} {a : Atom}
    (ha : timeline.atoms[i]? = some a) : a.stop ≤ stop := by
  obtain ⟨last, hlast, rfl⟩ := Option.map_eq_some_iff.mp hstop
  rw [List.getLast?_eq_getElem?] at hlast
  obtain ⟨hi, -⟩ := List.getElem?_eq_some_iff.mp ha
  exact h.stop_le_stop ha hlast (by omega)

/-- A crossing that leaves its atom has passed the start of the atom it arrives at. -/
theorem Contiguous.start_lt_of_firstReaching (h : timeline.Contiguous) {target : Seconds}
    {first index : Nat} (hreach : timeline.FirstReaching target first index) {entry atom : Atom}
    (hentry : timeline.atoms[first]? = some entry) (hatom : timeline.atoms[index]? = some atom)
    (hstart : entry.start < target) : atom.start < target := by
  rcases Nat.eq_or_lt_of_le hreach.1 with rfl | hlt
  · obtain rfl : entry = atom := Option.some.inj (hentry.symm.trans hatom)
    exact hstart
  · obtain ⟨i, rfl⟩ : ∃ i, index = i + 1 := ⟨index - 1, by omega⟩
    have hlength := hreach.lt_length
    obtain ⟨previous, hprevious⟩ : ∃ a, timeline.atoms[i]? = some a :=
      exists_atom (Nat.lt_of_succ_lt hlength)
    have hpassed := hreach.2.2 i previous (by omega) (by omega) hprevious
    rw [h.stop_eq_start hprevious hatom] at hpassed
    exact not_le.mp hpassed

/-- If the timeline reaches a time, one of its atoms does. -/
theorem exists_firstReaching {stop target : Seconds} (hstop : timeline.stop? = some stop)
    (htarget : target ≤ stop) {first : Nat} (hfirst : first < timeline.length) :
    ∃ index, timeline.FirstReaching target first index := by
  refine (timeline.exists_firstReaching_or_unreached target first).resolve_right fun h ↦ ?_
  obtain ⟨last, hlast, rfl⟩ := Option.map_eq_some_iff.mp hstop
  rw [List.getLast?_eq_getElem?] at hlast
  exact h _ last (by change first < timeline.atoms.length at hfirst; omega) hlast htarget

theorem Contiguous.unreached (h : timeline.Contiguous) {stop target : Seconds}
    (hstop : timeline.stop? = some stop) (htarget : stop < target) (first : Nat) :
    timeline.Unreached target first := by
  intro i atom _ hatom hreach
  exact not_le.mpr htarget (hreach.trans (h.atom_stop_le hstop hatom))

theorem length_ne_zero {stop : Seconds} (hstop : timeline.stop? = some stop) :
    timeline.length ≠ 0 := by
  obtain ⟨last, hlast, -⟩ := Option.map_eq_some_iff.mp hstop
  rw [List.getLast?_eq_getElem?] at hlast
  obtain ⟨hlength, -⟩ := List.getElem?_eq_some_iff.mp hlast
  exact fun h ↦ by change timeline.atoms.length = 0 at h; omega

/-! ### Selecting in a contiguous timeline -/

variable {clock : Clock} {stop : Seconds} {bytes : Nat}

/-- A period that ends inside the timeline only moves the index. -/
theorem Contiguous.select_inside (h : timeline.Contiguous) (hstop : timeline.stop? = some stop)
    {entry : Atom} (hentry : timeline.atoms[clock.index]? = some entry)
    (hinside : clock.time spec + spec.duration bytes ≤ stop) :
    ∃ index atom, (timeline.select clock spec bytes).clock = { clock with index } ∧
      timeline.atoms[index]? = some atom ∧
      (entry.start < clock.time spec + spec.duration bytes →
        atom.start < clock.time spec + spec.duration bytes) ∧
      clock.time spec + spec.duration bytes ≤ atom.stop := by
  have hindex : clock.index < timeline.length := (List.getElem?_eq_some_iff.mp hentry).1
  have hsame : timeline.entry clock = clock := if_pos hindex
  obtain ⟨index, hreach⟩ := exists_firstReaching hstop hinside hindex
  obtain ⟨atom, hatom, hend⟩ := hreach.2.1
  refine ⟨index, atom, ?_, hatom, h.start_lt_of_firstReaching hreach hentry hatom, hend⟩
  rw [clock_select (length_ne_zero hstop), crossFrom_of_reached (by rw [hsame]; exact hreach)]

/-- A period that ends past the timeline, and is no longer than it, wraps. -/
theorem Contiguous.select_wraps (h : timeline.Contiguous) (hzero : timeline.start? = some 0)
    (hstop : timeline.stop? = some stop) (hbeyond : stop < clock.time spec + spec.duration bytes)
    (hpositive : 0 < bytes) (hlength : spec.duration bytes ≤ stop) :
    ∃ index atom, (timeline.select clock spec bytes).clock = { clock.wrap with index } ∧
      timeline.atoms[index]? = some atom ∧ atom.start < spec.duration bytes ∧
      spec.duration bytes ≤ atom.stop := by
  have hne := length_ne_zero hstop
  obtain ⟨first, hfirst, hstart⟩ := Option.map_eq_some_iff.mp hzero
  rw [List.head?_eq_getElem?] at hfirst
  obtain ⟨index, hreach⟩ := exists_firstReaching hstop hlength (Nat.pos_of_ne_zero hne)
  obtain ⟨atom, hatom, hend⟩ := hreach.2.1
  refine ⟨index, atom, ?_, hatom, h.start_lt_of_firstReaching hreach hfirst hatom
    (hstart.symm ▸ spec.duration_pos hpositive), hend⟩
  rw [clock_select hne, crossFrom_of_reached_after_wrap (h.unreached hstop hbeyond _) hreach]

/-- A period longer than the timeline wraps and stays at the last atom. -/
theorem Contiguous.select_defers (h : timeline.Contiguous) (hstop : timeline.stop? = some stop)
    (hbeyond : stop < clock.time spec + spec.duration bytes) (hlong : stop < spec.duration bytes) :
    (timeline.select clock spec bytes).clock =
      { clock.wrap with index := timeline.length - 1 } := by
  have hne := length_ne_zero hstop
  rw [clock_select hne, crossFrom_of_unreached hne (h.unreached hstop hbeyond _)
    (h.unreached hstop hlong 0)]

end Timeline

/-! ### A playing deck -/

namespace Clock

variable {clock : Clock} (spec : AudioSpec)

theorem toRat_time (hzero : clock.start = 0) (hbytes : clock.bytes < 2 ^ 63) :
    (clock.time spec).toRat = (clock.bytes : ℚ) / spec.bytesPerSecond := by
  rw [time, hzero, Seconds.zero_add, spec.toRat_duration hbytes]

/-- Adding a period to a clock that counts from zero is exact, as long as the count can be kept. -/
theorem toRat_time_add_duration (hzero : clock.start = 0) {bytes : Nat}
    (hsum : clock.bytes + bytes < 2 ^ 63) :
    (clock.time spec + spec.duration bytes).toRat =
      ((clock.bytes + bytes : Nat) : ℚ) / spec.bytesPerSecond := by
  have hvalue : (clock.time spec).toRat + (spec.duration bytes).toRat =
      ((clock.bytes + bytes : Nat) : ℚ) / spec.bytesPerSecond := by
    rw [toRat_time spec hzero (by omega), spec.toRat_duration (by omega)]
    push_cast
    ring
  rw [Seconds.toRat_add (hvalue ▸ spec.fits_count hsum), hvalue]

/-- However large the counts, the stored end of a period is never later than the exact one. -/
theorem toRat_time_add_duration_le (hzero : clock.start = 0) {bytes : Nat}
    (hclock : clock.bytes < 2 ^ 63) (hbytes : bytes < 2 ^ 63) :
    (clock.time spec + spec.duration bytes).toRat ≤
      (clock.time spec).toRat + bytes / spec.bytesPerSecond := by
  have hrate := spec.bytesPerSecond_cast_pos
  have hvalue : (clock.time spec).toRat + (spec.duration bytes).toRat =
      ((clock.bytes + bytes : Nat) : ℚ) / spec.bytesPerSecond := by
    rw [toRat_time spec hzero hclock, spec.toRat_duration hbytes]
    push_cast
    ring
  rw [← spec.toRat_duration hbytes, Seconds.add_eq, hvalue]
  exact Seconds.toRat_ofRat_le (by positivity) (spec.den_count_lt _)

end Clock

namespace Deck

/-- A period of a playing deck: the atom is chosen, then the bytes are counted. -/
def playPeriod (deck : Deck) (bytes : Nat) : Deck :=
  (deck.select bytes).2.advance bytes

/-- Periods one after the other. -/
def playPeriods (deck : Deck) (sizes : List Nat) : Deck :=
  sizes.foldl playPeriod deck

@[simp] theorem timeline_playPeriods (deck : Deck) (sizes : List Nat) :
    (deck.playPeriods sizes).timeline = deck.timeline := by
  induction sizes generalizing deck with
  | nil => rfl
  | cons bytes rest ih => exact ih (deck.playPeriod bytes)

@[simp] theorem spec_playPeriods (deck : Deck) (sizes : List Nat) :
    (deck.playPeriods sizes).spec = deck.spec := by
  induction sizes generalizing deck with
  | nil => rfl
  | cons bytes rest ih => exact ih (deck.playPeriod bytes)

theorem playPeriods_concat (deck : Deck) (sizes : List Nat) (bytes : Nat) :
    deck.playPeriods (sizes ++ [bytes]) = (deck.playPeriods sizes).playPeriod bytes :=
  List.foldl_concat ..

/-- The clock counts from zero, and as far as the timeline reaches it shows a time after the start
of its atom. Only at the beginning is this the start itself. -/
structure Running (deck : Deck) (stop : Seconds) : Prop where
  start_eq : deck.clock.start = 0
  bytes_lt : deck.clock.bytes < 2 ^ 63
  inside : ∃ atom, deck.timeline.atoms[deck.clock.index]? = some atom ∧
    (deck.time ≤ stop → atom.start < deck.time ∨ atom.start = 0 ∧ deck.time = 0)

/-- Where a period begins: at the time shown, or at the beginning of the next pass if it would end
past the timeline. The atom chosen for it covers its end, if any atom does. -/
structure Lands (deck : Deck) (stop : Seconds) (bytes : Nat) (chosen : Deck) (atom : Atom) :
    Prop where
  start_eq : chosen.clock.start = 0
  count : chosen.clock.bytes + bytes < 2 ^ 63
  index : chosen.timeline.atoms[chosen.clock.index]? = some atom
  place : deck.time.toRat + bytes / deck.spec.bytesPerSecond ≤ stop.toRat ∧
      chosen.clock.loop = deck.clock.loop ∧ chosen.time = deck.time ∨
    stop.toRat < deck.time.toRat + bytes / deck.spec.bytesPerSecond ∧
      chosen.clock.loop = deck.clock.loop + 1 ∧ chosen.time = 0
  covers : chosen.time.toRat + bytes / deck.spec.bytesPerSecond ≤ stop.toRat →
    atom.start.toRat < chosen.time.toRat + bytes / deck.spec.bytesPerSecond ∧
      chosen.time.toRat + bytes / deck.spec.bytesPerSecond ≤ atom.stop.toRat

variable {deck : Deck} {stop : Seconds} {bytes : Nat}

/-- The end of a period is exact, as long as its bytes can be counted. -/
theorem toRat_time_add_duration (hstart : deck.clock.start = 0)
    (hcount : deck.clock.bytes + bytes < 2 ^ 63) :
    (deck.time + deck.spec.duration bytes).toRat =
      deck.time.toRat + bytes / deck.spec.bytesPerSecond := by
  rw [time, Clock.toRat_time_add_duration _ hstart hcount, Clock.toRat_time _ hstart (by omega)]
  push_cast
  ring

/-- Counting the bytes of a period moves the time to its end. -/
theorem time_advance (hstart : deck.clock.start = 0)
    (hcount : deck.clock.bytes + bytes < 2 ^ 63) :
    (deck.advance bytes).time = deck.time + deck.spec.duration bytes := by
  have hbytes : (deck.advance bytes).clock.bytes = deck.clock.bytes + bytes := by
    rw [advance, Clock.advance]
    dsimp only
    omega
  have hzero : (deck.advance bytes).clock.start = 0 := hstart
  apply Seconds.toRat_injective
  change ((deck.advance bytes).clock.time deck.spec).toRat = _
  rw [Clock.toRat_time _ hzero (hbytes ▸ hcount), hbytes, time,
    Clock.toRat_time_add_duration _ hstart hcount]

/-- After a period the clock shows its end. -/
theorem Lands.toRat_time_playPeriod {atom : Atom}
    (h : deck.Lands stop bytes (deck.select bytes).2 atom) :
    (deck.playPeriod bytes).time.toRat =
      (deck.select bytes).2.time.toRat + bytes / deck.spec.bytesPerSecond := by
  rw [playPeriod, time_advance h.start_eq h.count, toRat_time_add_duration h.start_eq h.count]
  rfl

theorem running_rewind (hzero : deck.timeline.start? = some 0) : deck.rewind.Running stop := by
  obtain ⟨first, hfirst, hstart⟩ := Option.map_eq_some_iff.mp hzero
  rw [List.head?_eq_getElem?] at hfirst
  have htime : deck.rewind.time = 0 := Timeline.time_wrap Clock.zero
  exact ⟨rfl, by norm_num [rewind, Clock.zero], first, hfirst, fun _ ↦ Or.inr ⟨hstart, htime⟩⟩

/-- A period that ends by the end of the timeline goes on in the same pass. -/
theorem Running.lands_inside (h : deck.Running stop) (hstop : deck.timeline.stop? = some stop)
    (hcontiguous : deck.timeline.Contiguous) (hpositive : 0 < bytes)
    (hsum : (deck.select bytes).2.clock.bytes + bytes < 2 ^ 63)
    (hinside : deck.time + deck.spec.duration bytes ≤ stop) :
    ∃ atom, deck.Lands stop bytes (deck.select bytes).2 atom := by
  obtain ⟨entry, hentry, hstart⟩ := h.inside
  obtain ⟨index, atom, hclock, hatom, hpassed, hend⟩ :=
    hcontiguous.select_inside hstop hentry hinside
  change (deck.select bytes).2.clock = _ at hclock
  rw [hclock] at hsum
  have hmore := deck.spec.duration_pos hpositive
  rw [Seconds.lt_def, Seconds.toRat_zero, deck.spec.toRat_duration (by omega)] at hmore
  have hexact : (deck.time + deck.spec.duration bytes).toRat =
      deck.time.toRat + bytes / deck.spec.bytesPerSecond :=
    toRat_time_add_duration h.start_eq hsum
  have hlater : deck.time < deck.time + deck.spec.duration bytes := by
    rw [Seconds.lt_def, hexact]
    linarith
  have hentered : entry.start < deck.time + deck.spec.duration bytes := by
    rcases hstart (hlater.le.trans hinside) with hstart | ⟨hstart, hbegin⟩
    · exact hstart.trans hlater
    · rw [hstart]
      exact hbegin ▸ hlater
  have htime : (deck.select bytes).2.time = deck.time := by
    change (deck.select bytes).2.clock.time deck.spec = _
    rw [hclock]
    rfl
  refine ⟨atom, hclock ▸ h.start_eq, hclock ▸ hsum, hclock ▸ hatom,
    Or.inl ⟨?_, hclock ▸ rfl, htime⟩, fun _ ↦ ?_⟩
  · rw [← hexact]
    exact hinside
  · rw [htime, ← hexact]
    exact ⟨hpassed hentered, hend⟩

/-- A period that would end past the end of the timeline begins the next pass. -/
theorem Running.lands_beyond (h : deck.Running stop) (hzero : deck.timeline.start? = some 0)
    (hstop : deck.timeline.stop? = some stop) (hcontiguous : deck.timeline.Contiguous)
    (hpositive : 0 < bytes) (hsum : (deck.select bytes).2.clock.bytes + bytes < 2 ^ 63)
    (hbeyond : stop < deck.time + deck.spec.duration bytes) :
    ∃ atom, deck.Lands stop bytes (deck.select bytes).2 atom := by
  have hbytes : bytes < 2 ^ 63 := by omega
  have hland : ∀ index atom, (deck.select bytes).2.clock = { deck.clock.wrap with index } →
      deck.timeline.atoms[index]? = some atom →
      (deck.spec.duration bytes ≤ stop →
        atom.start < deck.spec.duration bytes ∧ deck.spec.duration bytes ≤ atom.stop) →
      deck.Lands stop bytes (deck.select bytes).2 atom := by
    intro index atom hclock hatom hcovers
    have htime : (deck.select bytes).2.time = 0 := by
      change (deck.select bytes).2.clock.time deck.spec = _
      rw [hclock]
      exact Timeline.time_wrap deck.clock
    refine ⟨hclock ▸ rfl, hsum, hclock ▸ hatom, Or.inr ⟨?_, hclock ▸ rfl, htime⟩, ?_⟩
    · exact lt_of_lt_of_le hbeyond
        (Clock.toRat_time_add_duration_le _ h.start_eq h.bytes_lt hbytes)
    · rw [htime, Seconds.toRat_zero, zero_add, ← deck.spec.toRat_duration hbytes]
      exact hcovers
  rcases le_or_gt (deck.spec.duration bytes) stop with hlength | hlong
  · obtain ⟨index, atom, hclock, hatom, hcovers⟩ :=
      hcontiguous.select_wraps hzero hstop hbeyond hpositive hlength
    exact ⟨atom, hland index atom hclock hatom fun _ ↦ hcovers⟩
  · obtain ⟨last, hlast⟩ := Timeline.exists_atom (Nat.sub_one_lt (Timeline.length_ne_zero hstop))
    exact ⟨last, hland _ last (hcontiguous.select_defers hstop hbeyond hlong) hlast
      fun hlength ↦ absurd hlength (not_le.mpr hlong)⟩

/-- One period of any length from a running clock. The count is looked at after the period only: a
sum that cannot be stored is rounded down, so a wrap is never missed by it. -/
theorem Running.lands (h : deck.Running stop) (hzero : deck.timeline.start? = some 0)
    (hstop : deck.timeline.stop? = some stop) (hcontiguous : deck.timeline.Contiguous)
    (hpositive : 0 < bytes) (hcount : (deck.playPeriod bytes).clock.bytes < 2 ^ 63) :
    ∃ atom, (deck.select bytes).1.atom = some atom ∧
      deck.Lands stop bytes (deck.select bytes).2 atom := by
  have hsum : (deck.select bytes).2.clock.bytes + bytes < 2 ^ 63 := by
    change min ((deck.select bytes).2.clock.bytes + bytes) _ < 2 ^ 63 at hcount
    omega
  have hlands : ∃ atom, deck.Lands stop bytes (deck.select bytes).2 atom := by
    rcases le_or_gt (deck.time + deck.spec.duration bytes) stop with hinside | hbeyond
    · exact h.lands_inside hstop hcontiguous hpositive hsum hinside
    · exact h.lands_beyond hzero hstop hcontiguous hpositive hsum hbeyond
  obtain ⟨atom, hatom⟩ := hlands
  have hchosen : (deck.select bytes).1.atom =
      deck.timeline.atoms[(deck.select bytes).2.clock.index]? :=
    Timeline.atom_select (Timeline.length_ne_zero hstop) deck.clock bytes
  exact ⟨atom, hchosen.trans hatom.index, hatom⟩

/-- What a period no longer than the timeline does to the clock: it goes on by the length of the
period, or wraps if that is past the end of the timeline. -/
structure Played (deck : Deck) (stop : Seconds) (bytes : Nat) (next : Deck) : Prop where
  running : next.Running stop
  inside : ∃ atom, next.timeline.atoms[next.clock.index]? = some atom ∧
    atom.start < next.time ∧ next.time ≤ atom.stop
  loop_eq : next.clock.loop = deck.clock.loop +
    if stop.toRat < deck.time.toRat + bytes / deck.spec.bytesPerSecond then 1 else 0
  time_eq : next.time.toRat =
    if stop.toRat < deck.time.toRat + bytes / deck.spec.bytesPerSecond then
      (bytes : ℚ) / deck.spec.bytesPerSecond
    else deck.time.toRat + bytes / deck.spec.bytesPerSecond

section Run

variable (hzero : deck.timeline.start? = some 0) (hstop : deck.timeline.stop? = some stop)
  (hcontiguous : deck.timeline.Contiguous)

include hzero hstop hcontiguous

/-- One period of any length keeps the clock running. -/
theorem Running.playPeriod (h : deck.Running stop) (hpositive : 0 < bytes)
    (hcount : (deck.playPeriod bytes).clock.bytes < 2 ^ 63) :
    (deck.playPeriod bytes).Running stop := by
  obtain ⟨atom, -, hlands⟩ := h.lands hzero hstop hcontiguous hpositive hcount
  refine ⟨hlands.start_eq, hcount, atom, hlands.index, fun hend ↦ Or.inl ?_⟩
  rw [Seconds.le_def, hlands.toRat_time_playPeriod] at hend
  rw [Seconds.lt_def, hlands.toRat_time_playPeriod]
  exact (hlands.covers hend).1

/-- One period no longer than the timeline. -/
theorem Running.played (h : deck.Running stop) (hpositive : 0 < bytes)
    (hlength : deck.spec.duration bytes ≤ stop)
    (hcount : (deck.playPeriod bytes).clock.bytes < 2 ^ 63) :
    deck.Played stop bytes (deck.playPeriod bytes) := by
  obtain ⟨atom, -, hlands⟩ := h.lands hzero hstop hcontiguous hpositive hcount
  have htime := hlands.toRat_time_playPeriod
  have hcounted := hlands.count
  have hrunning := h.playPeriod hzero hstop hcontiguous hpositive hcount
  rw [Seconds.le_def, deck.spec.toRat_duration (by omega)] at hlength
  have hinside : (deck.select bytes).2.time.toRat + bytes / deck.spec.bytesPerSecond ≤
      stop.toRat → atom.start < (deck.playPeriod bytes).time ∧
        (deck.playPeriod bytes).time ≤ atom.stop := by
    rw [Seconds.lt_def, Seconds.le_def, htime]
    exact hlands.covers
  rcases hlands.place with ⟨hend, hloop, hbegin⟩ | ⟨hend, hloop, hbegin⟩
  · rw [hbegin] at htime hinside
    exact
      { running := hrunning
        inside := ⟨atom, hlands.index, hinside hend⟩
        loop_eq := by rw [if_neg (not_lt.mpr hend)]; exact hloop
        time_eq := by rw [if_neg (not_lt.mpr hend), htime] }
  · rw [hbegin, Seconds.toRat_zero, zero_add] at htime hinside
    exact
      { running := hrunning
        inside := ⟨atom, hlands.index, hinside hlength⟩
        loop_eq := by rw [if_pos hend]; exact hloop
        time_eq := by rw [if_pos hend, htime] }

/-- Periods from the beginning keep the clock running. -/
theorem running_playPeriods (sizes : List Nat) (hpositive : ∀ bytes ∈ sizes, 0 < bytes)
    (hcount : ∀ played, played <+: sizes → (deck.rewind.playPeriods played).clock.bytes < 2 ^ 63) :
    (deck.rewind.playPeriods sizes).Running stop := by
  induction sizes using List.reverseRecOn with
  | nil => exact running_rewind hzero
  | append_singleton sizes bytes ih =>
    have hbefore := ih (fun n hn ↦ hpositive n (List.mem_append_left _ hn))
      (fun played hplayed ↦ hcount played (hplayed.trans (List.prefix_append _ _)))
    have hafter := hcount _ (List.prefix_refl _)
    rw [playPeriods_concat] at hafter ⊢
    exact hbefore.playPeriod (by rw [timeline_playPeriods]; exact hzero)
      (by rw [timeline_playPeriods]; exact hstop)
      (by rw [timeline_playPeriods]; exact hcontiguous) (hpositive bytes (by simp)) hafter

/-- After each period the clock is inside its atom, having passed its start and not its end. It
wraps exactly if the period ends past the timeline, and shows exact times throughout. -/
theorem time_playPeriods (sizes : List Nat) (bytes : Nat)
    (hpositive : ∀ n ∈ sizes ++ [bytes], 0 < n)
    (hlength : ∀ n ∈ sizes ++ [bytes], deck.spec.duration n ≤ stop)
    (hcount : ∀ played, played <+: sizes ++ [bytes] →
      (deck.rewind.playPeriods played).clock.bytes < 2 ^ 63) :
    let before := deck.rewind.playPeriods sizes
    let after := deck.rewind.playPeriods (sizes ++ [bytes])
    let length : ℚ := bytes / deck.spec.bytesPerSecond
    (∃ atom, deck.timeline.atoms[after.clock.index]? = some atom ∧
      atom.start < after.time ∧ after.time ≤ atom.stop) ∧
    after.time ≤ stop ∧
    after.clock.loop =
      before.clock.loop + (if stop.toRat < before.time.toRat + length then 1 else 0) ∧
    after.time.toRat =
      if stop.toRat < before.time.toRat + length then length else before.time.toRat + length := by
  intro before after length
  have hbefore : before.Running stop := running_playPeriods hzero hstop hcontiguous sizes
    (fun n hn ↦ hpositive n (List.mem_append_left _ hn))
    (fun played hplayed ↦ hcount played (hplayed.trans (List.prefix_append _ _)))
  have htimeline : before.timeline = deck.timeline := timeline_playPeriods _ _
  have hspec : before.spec = deck.spec := spec_playPeriods _ _
  have hlast : bytes ∈ sizes ++ [bytes] := by simp
  have hafter : after = before.playPeriod bytes := playPeriods_concat _ _ _
  have hplayed : before.Played stop bytes after := by
    rw [hafter]
    exact hbefore.played (htimeline ▸ hzero) (htimeline ▸ hstop) (htimeline ▸ hcontiguous)
      (hpositive bytes hlast) (hspec ▸ hlength bytes hlast)
      (hafter ▸ hcount _ (List.prefix_refl _))
  have hsame : after.timeline = deck.timeline := timeline_playPeriods _ _
  obtain ⟨atom, hatom, hstart, hend⟩ := hplayed.inside
  have hloop := hplayed.loop_eq
  have htime := hplayed.time_eq
  rw [hsame] at hatom
  rw [hspec] at hloop htime
  obtain ⟨last, hfinal, rfl⟩ := Option.map_eq_some_iff.mp hstop
  rw [List.getLast?_eq_getElem?] at hfinal
  have hindex := (List.getElem?_eq_some_iff.mp hatom).1
  exact ⟨⟨atom, hatom, hstart, hend⟩,
    hend.trans (hcontiguous.stop_le_stop hatom hfinal (by omega)), hloop, htime⟩

end Run

/-- A stopped deck with two seconds, an atom without length, and two more seconds. -/
def hinged : Deck :=
  (new .standard 1).publish
    { atoms := [⟨.ofInt 0, .ofInt 2, []⟩, ⟨.ofInt 2, .ofInt 2, []⟩, ⟨.ofInt 2, .ofInt 4, []⟩]
      ordered := by decide +kernel }

/-- Three seconds end in the last atom, and three more are the beginning of the next pass. -/
theorem time_playPeriods_hinged :
    (hinged.timeline.start? = some 0 ∧ hinged.timeline.stop? = some (.ofInt 4) ∧
      hinged.timeline.Contiguous ∧ (∀ n ∈ [1058400] ++ [1058400], 0 < n) ∧
      (∀ n ∈ [1058400] ++ [1058400], hinged.spec.duration n ≤ .ofInt 4) ∧
      ∀ played, played <+: [1058400] ++ [1058400] →
        (hinged.rewind.playPeriods played).clock.bytes < 2 ^ 63) ∧
    let before := hinged.rewind.playPeriods [1058400]
    let after := hinged.rewind.playPeriods ([1058400] ++ [1058400])
    (∃ atom, hinged.timeline.atoms[after.clock.index]? = some atom ∧
      atom.start < after.time ∧ after.time ≤ atom.stop) ∧
    after.time ≤ .ofInt 4 ∧ after.clock.loop = before.clock.loop + 1 ∧
    after.time.toRat = (1058400 : Nat) / hinged.spec.bytesPerSecond := by
  have hzero : hinged.timeline.start? = some 0 := by decide +kernel
  have hstop : hinged.timeline.stop? = some (.ofInt 4) := by decide +kernel
  have hcontiguous : hinged.timeline.Contiguous := by
    unfold Timeline.Contiguous
    decide +kernel
  have hlength : ∀ n ∈ [1058400] ++ [1058400], hinged.spec.duration n ≤ .ofInt 4 := by
    decide +kernel
  have hcount : ∀ played, played <+: [1058400] ++ [1058400] →
      (hinged.rewind.playPeriods played).clock.bytes < 2 ^ 63 := by
    have hall : ∀ played ∈ ([1058400] ++ [1058400]).inits,
        (hinged.rewind.playPeriods played).clock.bytes < 2 ^ 63 := by decide +kernel
    exact fun played hplayed ↦ hall played ((List.mem_inits _ _).mpr hplayed)
  have hbeyond : (Seconds.ofInt 4).toRat < (hinged.rewind.playPeriods [1058400]).time.toRat +
      (1058400 : Nat) / hinged.spec.bytesPerSecond := by decide +kernel
  obtain ⟨hinside, hend, hloop, htime⟩ := time_playPeriods hzero hstop hcontiguous [1058400]
    1058400 (by decide) hlength hcount
  rw [if_pos hbeyond] at hloop htime
  exact ⟨⟨hzero, hstop, hcontiguous, by decide, hlength, hcount⟩, hinside, hend, hloop, htime⟩

end Deck

end TimelineMixer
