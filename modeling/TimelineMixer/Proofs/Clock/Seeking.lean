import TimelineMixer.Output.Scripted
import TimelineMixer.Proofs.Clock.Playing
import TimelineMixer.Proofs.Player.Effects
import TimelineMixer.Proofs.Time.WholeFrames

/-!
# Seeking to the time shown

A seek to a time chooses the atom that contains it, while playing has stopped at the first atom that
reaches it; behind the end of an atom, or at atoms without length, the two differ. The atoms between
them have all ended by that time (`Contiguous.seekIndex_spec`), so no later period ends in one of
them. `Deck.Alike` relates the two clocks: their starting times, byte counts and indices differ, the
time, the pass and the atoms of all periods to come do not. A period keeps the relation
(`Alike.playPeriod`), hence playing on after a seek to the time shown is playing on
(`seek_renderPeriods`).
-/

set_option autoImplicit false
set_option relaxedAutoImplicit false

namespace TimelineMixer

namespace Timeline

variable {timeline : Timeline} {target : Seconds}

/-- Atoms that have been passed may be left out of the search for the atom that reaches a time. -/
theorem FirstReaching.of_passed {first later index : Nat}
    (h : timeline.FirstReaching target first index) (hle : first ≤ later)
    (hpassed : ∀ i atom, first ≤ i → i < later → timeline.atoms[i]? = some atom →
      ¬ target ≤ atom.stop) : timeline.FirstReaching target later index := by
  obtain ⟨hfirst, ⟨atom, hatom, hreach⟩, hbefore⟩ := h
  have hlater : later ≤ index := by
    by_contra hearly
    exact hpassed index atom hfirst (not_le.mp hearly) hatom hreach
  exact ⟨hlater, ⟨atom, hatom, hreach⟩, fun i other hi ↦ hbefore i other (hle.trans hi)⟩

/-- Each atom ends before any later one starts. -/
theorem Contiguous.stop_le_start (h : timeline.Contiguous) {i j : Nat} {a b : Atom}
    (ha : timeline.atoms[i]? = some a) (hb : timeline.atoms[j]? = some b) (hij : i < j) :
    a.stop ≤ b.start := by
  obtain ⟨k, rfl⟩ : ∃ k, j = k + 1 := ⟨j - 1, by omega⟩
  obtain ⟨hk, -⟩ := List.getElem?_eq_some_iff.mp hb
  obtain ⟨c, hc⟩ : ∃ c, timeline.atoms[k]? = some c := exists_atom (Nat.lt_of_succ_lt hk)
  exact (h.stop_le_stop ha hc (Nat.lt_succ_iff.mp hij)).trans (h.stop_eq_start hc hb).le

/-- If no atom contains a time from the beginning on, they have all ended by then. -/
theorem Contiguous.stop_le_of_not_contains (h : timeline.Contiguous)
    (hzero : timeline.start? = some 0) (hbegin : 0 ≤ target)
    (hnone : ∀ atom ∈ timeline.atoms, atom.contains target = false) {i : Nat} {atom : Atom}
    (hatom : timeline.atoms[i]? = some atom) : atom.stop ≤ target := by
  have hended : ∀ atom ∈ timeline.atoms, atom.start ≤ target → atom.stop ≤ target := by
    intro atom hmem hstart
    simpa [Atom.contains, hstart] using hnone atom hmem
  induction i generalizing atom with
  | zero =>
    obtain ⟨first, hfirst, hstart⟩ := Option.map_eq_some_iff.mp hzero
    rw [List.head?_eq_getElem?] at hfirst
    obtain rfl : first = atom := Option.some.inj (hfirst.symm.trans hatom)
    exact hended _ (List.mem_of_getElem? hatom) (hstart.trans_le hbegin)
  | succ i ih =>
    obtain ⟨hi, -⟩ := List.getElem?_eq_some_iff.mp hatom
    obtain ⟨previous, hprevious⟩ : ∃ a, timeline.atoms[i]? = some a :=
      exists_atom (Nat.lt_of_succ_lt hi)
    exact hended _ (List.mem_of_getElem? hatom)
      ((h.stop_eq_start hprevious hatom).symm.trans_le (ih hprevious))

/-- The atom of a seek goes on past the time, or is the last one; the atoms before it have ended. -/
theorem Contiguous.seekIndex_spec (h : timeline.Contiguous) (hzero : timeline.start? = some 0)
    {stop : Seconds} (hstop : timeline.stop? = some stop) (hbegin : 0 ≤ target)
    (hend : target ≤ stop) :
    let index := Engine.seekIndex timeline target
    (∃ atom, timeline.atoms[index]? = some atom ∧
      (target < atom.stop ∨ index + 1 = timeline.length)) ∧
    ∀ i atom, i < index → timeline.atoms[i]? = some atom → atom.stop ≤ target := by
  intro index
  cases hfound : timeline.atoms.findIdx? fun atom ↦ atom.contains target with
  | some found =>
    have hindex : index = found := by
      simp only [index, Engine.seekIndex, indexAt?, hfound, Option.some_or, Option.getD_some]
    obtain ⟨hlt, hcontains, hbefore⟩ := List.findIdx?_eq_some_iff_getElem.mp hfound
    have hatom : timeline.atoms[found]? = some timeline.atoms[found] :=
      List.getElem?_eq_getElem hlt
    simp only [Atom.contains, Bool.and_eq_true, decide_eq_true_eq] at hcontains
    rw [hindex]
    refine ⟨⟨_, hatom, Or.inl hcontains.2⟩, fun i atom hi hother ↦ ?_⟩
    exact (h.stop_le_start hother hatom hi).trans hcontains.1
  | none =>
    have hnone := List.findIdx?_eq_none_iff.mp hfound
    have hended := fun i atom (hatom : timeline.atoms[i]? = some atom) ↦
      h.stop_le_of_not_contains hzero hbegin hnone hatom
    obtain ⟨last, hlast, hlaststop⟩ := Option.map_eq_some_iff.mp hstop
    rw [List.getLast?_eq_getElem?] at hlast
    have hfinal : timeline.stop? = some target := by
      rw [hstop, ← hlaststop]
      exact congrArg some (le_antisymm (hended _ last hlast) (hlaststop.symm ▸ hend))
    have hindex : index = timeline.length - 1 := by
      simp only [index, Engine.seekIndex, indexAt?, hfound, hfinal, Option.none_or, if_true,
        Option.some_or, Option.getD_some]
    rw [hindex]
    have hne := length_ne_zero hstop
    exact ⟨⟨last, hlast, Or.inr (by omega)⟩, fun i atom _ ↦ hended i atom⟩

/-! ### Selecting from two clocks -/

variable {spec : AudioSpec} {clock : Clock} {bytes : Nat}

/-- A period that an atom reaches moves the index to the first one. -/
theorem FirstReaching.clock_select {index : Nat}
    (h : timeline.FirstReaching (clock.time spec + spec.duration bytes) clock.index index)
    (hindex : clock.index < timeline.length) :
    (timeline.select clock spec bytes).clock = { clock with index } := by
  have hentry : timeline.entry clock = clock := if_pos hindex
  rw [Timeline.clock_select (Nat.ne_zero_of_lt hindex),
    crossFrom_of_reached (by rw [hentry]; exact h)]

/-- Past the end of the timeline only the pass is left of a clock: the atom depends on the length
of the period. -/
theorem Contiguous.exists_clock_select_beyond (h : timeline.Contiguous) {stop : Seconds}
    (hstop : timeline.stop? = some stop) (spec : AudioSpec) (bytes : Nat) :
    ∃ index < timeline.length, ∀ clock : Clock, stop < clock.time spec + spec.duration bytes →
      (timeline.select clock spec bytes).clock = { clock.wrap with index } := by
  have hne := length_ne_zero hstop
  rcases le_or_gt (spec.duration bytes) stop with hlength | hlong
  · obtain ⟨index, hreach⟩ := exists_firstReaching hstop hlength (Nat.pos_of_ne_zero hne)
    refine ⟨index, hreach.lt_length, fun clock hbeyond ↦ ?_⟩
    rw [clock_select hne, crossFrom_of_reached_after_wrap (h.unreached hstop hbeyond _) hreach]
  · exact ⟨_, Nat.sub_one_lt hne, fun clock hbeyond ↦ h.select_defers hstop hbeyond hlong⟩

end Timeline

namespace Deck

/-- A clock that counts from zero, and one that was sought to a time of the first since. Both show
the same, and the atoms from the index of the first up to that of the other have ended. -/
structure Alike (plain sought : Deck) : Prop where
  timeline_eq : sought.timeline = plain.timeline
  format_eq : sought.format = plain.format
  loop_eq : sought.clock.loop = plain.clock.loop
  start_eq : plain.clock.start = 0
  bytes_le : sought.clock.bytes ≤ plain.clock.bytes
  bytes_lt : plain.clock.bytes < 2 ^ 63
  place : sought.clock.start.toRat + sought.clock.bytes / plain.spec.bytesPerSecond =
    plain.clock.bytes / plain.spec.bytesPerSecond
  index_le : plain.clock.index ≤ sought.clock.index
  index_lt : sought.clock.index < plain.timeline.length
  passed : ∀ i atom, plain.clock.index ≤ i → i < sought.clock.index →
    plain.timeline.atoms[i]? = some atom → atom.stop ≤ plain.time

variable {plain sought : Deck} {stop : Seconds} {bytes : Nat}

namespace Alike

theorem spec_eq (h : Alike plain sought) : sought.spec = plain.spec :=
  congrArg SpecCell.load h.format_eq

/-- Both clocks show the same time. -/
theorem time_eq (h : Alike plain sought) : sought.time = plain.time := by
  have hfits := h.place ▸ plain.spec.fits_count h.bytes_lt
  have hbytes : sought.clock.bytes < 2 ^ 63 := h.bytes_le.trans_lt h.bytes_lt
  apply Seconds.toRat_injective
  rw [time, Clock.time, h.spec_eq, plain.spec.toRat_add_duration hbytes hfits, h.place, time,
    Clock.toRat_time _ h.start_eq h.bytes_lt]

/-- Counting the bytes of a period keeps two clocks alike that have come to the same atom. -/
theorem advance (h : Alike plain sought) (hindex : sought.clock.index = plain.clock.index)
    (hcount : plain.clock.bytes + bytes < 2 ^ 63) :
    Alike (plain.advance bytes) (sought.advance bytes) := by
  have hle := h.bytes_le
  have hplain : (plain.advance bytes).clock.bytes = plain.clock.bytes + bytes := by
    simp only [Deck.advance, Clock.advance]
    omega
  have hsought : (sought.advance bytes).clock.bytes = sought.clock.bytes + bytes := by
    simp only [Deck.advance, Clock.advance]
    omega
  refine
    { timeline_eq := h.timeline_eq
      format_eq := h.format_eq
      loop_eq := h.loop_eq
      start_eq := h.start_eq
      bytes_le := by omega
      bytes_lt := by omega
      place := ?_
      index_le := hindex.ge
      index_lt := h.index_lt
      passed := fun i atom hfirst hlater ↦ absurd (hfirst.trans_lt hlater) (hindex ▸ lt_irrefl _) }
  rw [hplain, hsought, Nat.cast_add, Nat.cast_add, add_div, add_div, ← add_assoc]
  exact congrArg (· + (bytes : ℚ) / plain.spec.bytesPerSecond) h.place

section Period

variable (h : Alike plain sought) (hstop : plain.timeline.stop? = some stop)

include h

theorem clock_select : (sought.select bytes).2.clock =
    (plain.timeline.select sought.clock plain.spec bytes).clock := by
  rw [← h.timeline_eq, ← h.spec_eq]
  rfl

include hstop

/-- A period that ends inside the timeline: the atoms that only one of the clocks has passed had
ended before it began. -/
theorem select_inside (hpositive : 0 < bytes)
    (hcount : (plain.select bytes).2.clock.bytes + bytes < 2 ^ 63)
    (hinside : plain.time + plain.spec.duration bytes ≤ stop) :
    (sought.select bytes).2.clock.index = (plain.select bytes).2.clock.index ∧
      Alike (plain.select bytes).2 (sought.select bytes).2 := by
  have hlt := h.index_le.trans_lt h.index_lt
  obtain ⟨index, hreach⟩ := Timeline.exists_firstReaching hstop hinside hlt
  have hplain : (plain.select bytes).2.clock = { plain.clock with index } :=
    hreach.clock_select hlt
  rw [hplain] at hcount
  have hlater : plain.time < plain.time + plain.spec.duration bytes := by
    have hmore := plain.spec.duration_pos hpositive
    rw [Seconds.lt_def, Seconds.toRat_zero, plain.spec.toRat_duration (by omega)] at hmore
    rw [Seconds.lt_def, toRat_time_add_duration h.start_eq hcount]
    linarith
  have hagain := hreach.of_passed h.index_le fun i atom hfirst hi hatom ↦
    not_le.mpr ((h.passed i atom hfirst hi hatom).trans_lt hlater)
  have hsought : (sought.select bytes).2.clock = { sought.clock with index } := by
    rw [h.clock_select]
    refine Timeline.FirstReaching.clock_select ?_ h.index_lt
    rw [← h.spec_eq]
    change plain.timeline.FirstReaching (sought.time + _) _ _
    rw [h.time_eq, h.spec_eq]
    exact hagain
  refine ⟨by rw [hsought, hplain], ?_⟩
  exact
    { timeline_eq := h.timeline_eq
      format_eq := h.format_eq
      loop_eq := by rw [hsought, hplain]; exact h.loop_eq
      start_eq := by rw [hplain]; exact h.start_eq
      bytes_le := by rw [hsought, hplain]; exact h.bytes_le
      bytes_lt := by rw [hplain]; exact h.bytes_lt
      place := by rw [hsought, hplain]; exact h.place
      index_le := by rw [hsought, hplain]
      index_lt := by rw [hsought]; exact hreach.lt_length
      passed := fun i atom hfirst hi ↦ by
        rw [hplain] at hfirst
        rw [hsought] at hi
        exact absurd (hfirst.trans_lt hi) (lt_irrefl index) }

/-- A period that would end past the timeline wraps both clocks, and nothing is left of what they
differed in. -/
theorem select_beyond (hcontiguous : plain.timeline.Contiguous)
    (hbeyond : stop < plain.time + plain.spec.duration bytes) :
    (sought.select bytes).2.clock.index = (plain.select bytes).2.clock.index ∧
      Alike (plain.select bytes).2 (sought.select bytes).2 := by
  obtain ⟨index, hlt, hselect⟩ :=
    hcontiguous.exists_clock_select_beyond hstop plain.spec bytes
  have hplain : (plain.select bytes).2.clock = { plain.clock.wrap with index } :=
    hselect plain.clock hbeyond
  have hsought : (sought.select bytes).2.clock = { sought.clock.wrap with index } := by
    rw [h.clock_select]
    refine hselect sought.clock ?_
    rw [← h.spec_eq]
    change stop < sought.time + _
    rw [h.time_eq, h.spec_eq]
    exact hbeyond
  have hsame : (sought.select bytes).2.clock = (plain.select bytes).2.clock := by
    rw [hsought, hplain, Clock.wrap, Clock.wrap, h.loop_eq]
  refine ⟨by rw [hsame], ?_⟩
  exact
    { timeline_eq := h.timeline_eq
      format_eq := h.format_eq
      loop_eq := by rw [hsame]
      start_eq := by rw [hplain]; rfl
      bytes_le := by rw [hsame]
      bytes_lt := by rw [hplain]; norm_num [Clock.wrap]
      place := by
        rw [hsame, hplain, Clock.wrap, Seconds.toRat_zero, zero_add]
      index_le := by rw [hsame]
      index_lt := by rw [hsought]; exact hlt
      passed := fun i atom hfirst hi ↦ by rw [hsame] at hi; omega }

/-- One period is played from the same atom by both clocks, and keeps them alike. -/
theorem playPeriod (hcontiguous : plain.timeline.Contiguous) (hpositive : 0 < bytes)
    (hcount : (plain.playPeriod bytes).clock.bytes < 2 ^ 63) :
    (sought.select bytes).1.atom = (plain.select bytes).1.atom ∧
      (sought.select bytes).2.clock.index = (plain.select bytes).2.clock.index ∧
      Alike (plain.playPeriod bytes) (sought.playPeriod bytes) := by
  have hsum : (plain.select bytes).2.clock.bytes + bytes < 2 ^ 63 := by
    change min ((plain.select bytes).2.clock.bytes + bytes) _ < 2 ^ 63 at hcount
    omega
  have hselected : (sought.select bytes).2.clock.index = (plain.select bytes).2.clock.index ∧
      Alike (plain.select bytes).2 (sought.select bytes).2 := by
    rcases le_or_gt (plain.time + plain.spec.duration bytes) stop with hinside | hbeyond
    · exact h.select_inside hstop hpositive hsum hinside
    · exact h.select_beyond hstop hcontiguous hbeyond
  obtain ⟨hindex, halike⟩ := hselected
  refine ⟨?_, hindex, halike.advance hindex hsum⟩
  have hne := Timeline.length_ne_zero hstop
  have hplain : (plain.select bytes).1.atom =
      plain.timeline.atoms[(plain.select bytes).2.clock.index]? :=
    Timeline.atom_select hne plain.clock bytes
  have hsought : (sought.select bytes).1.atom =
      sought.timeline.atoms[(sought.select bytes).2.clock.index]? :=
    Timeline.atom_select (h.timeline_eq ▸ hne) sought.clock bytes
  rw [hsought, hplain, hindex, h.timeline_eq]

/-- Periods that a clock counting from zero can count keep the two clocks alike. -/
theorem playPeriods (hcontiguous : plain.timeline.Contiguous) (sizes : List Nat)
    (hpositive : ∀ n ∈ sizes, 0 < n)
    (hcount : ∀ played, played <+: sizes → (plain.playPeriods played).clock.bytes < 2 ^ 63) :
    Alike (plain.playPeriods sizes) (sought.playPeriods sizes) := by
  induction sizes using List.reverseRecOn with
  | nil => exact h
  | append_singleton sizes bytes ih =>
    have hbefore := ih (fun n hn ↦ hpositive n (List.mem_append_left _ hn))
      (fun played hplayed ↦ hcount played (hplayed.trans (List.prefix_append _ _)))
    have hafter := hcount _ (List.prefix_refl _)
    rw [playPeriods_concat] at hafter
    rw [playPeriods_concat, playPeriods_concat]
    have hsame := timeline_playPeriods plain sizes
    exact (hbefore.playPeriod (by rw [hsame]; exact hstop) (by rw [hsame]; exact hcontiguous)
      (hpositive bytes (by simp)) hafter).2.2

end Period

end Alike

/-! ### The seek -/

@[simp] theorem transport_playPeriods (deck : Deck) (sizes : List Nat) :
    (deck.playPeriods sizes).transport = deck.transport := by
  induction sizes generalizing deck with
  | nil => rfl
  | cons bytes rest ih => exact ih (deck.playPeriod bytes)

/-- A clock that counts from zero never shows a time before zero. -/
theorem Running.zero_le_time {deck : Deck} (h : deck.Running stop) : 0 ≤ deck.time := by
  rw [Seconds.le_def, Seconds.toRat_zero, time, Clock.toRat_time _ h.start_eq h.bytes_lt]
  positivity

section Sought

variable {deck : Deck} (hzero : deck.timeline.start? = some 0)
  (hstop : deck.timeline.stop? = some stop) (hcontiguous : deck.timeline.Contiguous)

include hzero hstop hcontiguous

/-- A running clock has not come further than the atom of a seek to the time it shows: it is past
the start of its own atom, and no atom behind that of the seek has started by then. -/
theorem Running.alike_seek (h : deck.Running stop) (hend : deck.time ≤ stop) :
    Alike deck (deck.seek (Engine.seekIndex deck.timeline deck.time) deck.time) := by
  have htime : deck.time.toRat = deck.clock.bytes / deck.spec.bytesPerSecond :=
    Clock.toRat_time _ h.start_eq h.bytes_lt
  obtain ⟨⟨atom, hatom, hlater⟩, hpassed⟩ :=
    hcontiguous.seekIndex_spec hzero hstop h.zero_le_time hend
  refine
    { timeline_eq := rfl
      format_eq := rfl
      loop_eq := rfl
      start_eq := h.start_eq
      bytes_le := Nat.zero_le _
      bytes_lt := h.bytes_lt
      place := ?_
      index_le := ?_
      index_lt := (List.getElem?_eq_some_iff.mp hatom).1
      passed := fun i other _ hi hother ↦ hpassed i other hi hother }
  · change deck.time.toRat + ((0 : Nat) : ℚ) / deck.spec.bytesPerSecond = _
    rw [Nat.cast_zero, zero_div, add_zero, htime]
  · change deck.clock.index ≤ Engine.seekIndex deck.timeline deck.time
    obtain ⟨current, hcurrent, hstarted⟩ := h.inside
    have hindex := (List.getElem?_eq_some_iff.mp hcurrent).1
    by_contra hbehind
    rcases hlater with hlater | hlast
    · have hstart : deck.time < current.start :=
        hlater.trans_le (hcontiguous.stop_le_start hatom hcurrent (not_le.mp hbehind))
      rcases hstarted hend with hearlier | ⟨hfirst, hnow⟩
      · exact lt_asymm hstart hearlier
      · exact absurd (hnow.trans hfirst.symm) hstart.ne
    · change _ = deck.timeline.atoms.length at hlast
      omega

/-- Periods no longer than the timeline never take the clock past its end. -/
theorem time_le_stop_playPeriods (sizes : List Nat) (hpositive : ∀ n ∈ sizes, 0 < n)
    (hlength : ∀ n ∈ sizes, deck.spec.duration n ≤ stop)
    (hcount : ∀ played, played <+: sizes → (deck.rewind.playPeriods played).clock.bytes < 2 ^ 63) :
    (deck.rewind.playPeriods sizes).time ≤ stop := by
  rcases List.eq_nil_or_concat' sizes with rfl | ⟨before, bytes, rfl⟩
  · obtain ⟨first, hfirst, hstart⟩ := Option.map_eq_some_iff.mp hzero
    rw [List.head?_eq_getElem?] at hfirst
    calc deck.rewind.time = first.start := (Timeline.time_wrap Clock.zero).trans hstart.symm
      _ ≤ first.stop := Timeline.start_le_stop hfirst
      _ ≤ stop := hcontiguous.atom_stop_le hstop hfirst
  · have hrunning := running_playPeriods hzero hstop hcontiguous before
      (fun n hn ↦ hpositive n (List.mem_append_left _ hn))
      (fun played hplayed ↦ hcount played (hplayed.trans (List.prefix_append _ _)))
    have hsame : (deck.rewind.playPeriods before).timeline = deck.timeline :=
      timeline_playPeriods _ _
    have hspec : (deck.rewind.playPeriods before).spec = deck.spec := spec_playPeriods _ _
    have hafter := hcount _ (List.prefix_refl _)
    rw [playPeriods_concat] at hafter ⊢
    obtain ⟨atom, hatom, -, hinside⟩ := (hrunning.played (hsame ▸ hzero) (hsame ▸ hstop)
      (hsame ▸ hcontiguous) (hpositive bytes (by simp)) (hspec ▸ hlength bytes (by simp))
      hafter).inside
    exact hinside.trans (hcontiguous.atom_stop_le hstop (hsame ▸ hatom))

/-- After periods no longer than the timeline, further periods of any length keep the clock that
played them and the one sought there alike. -/
theorem alike_seek_playPeriods (sizes more : List Nat) (hpositive : ∀ n ∈ sizes ++ more, 0 < n)
    (hlength : ∀ n ∈ sizes, deck.spec.duration n ≤ stop)
    (hcount : ∀ played, played <+: sizes ++ more →
      (deck.rewind.playPeriods played).clock.bytes < 2 ^ 63) :
    let reached := deck.rewind.playPeriods sizes
    Alike (reached.playPeriods more)
      ((reached.seek (Engine.seekIndex reached.timeline reached.time) reached.time).playPeriods
        more) := by
  intro reached
  have hsame : reached.timeline = deck.timeline := timeline_playPeriods _ _
  have hbefore : ∀ n ∈ sizes, 0 < n := fun n hn ↦ hpositive n (List.mem_append_left _ hn)
  have hcounted : ∀ played, played <+: sizes →
      (deck.rewind.playPeriods played).clock.bytes < 2 ^ 63 :=
    fun played hplayed ↦ hcount played (hplayed.trans (List.prefix_append _ _))
  have hrunning : reached.Running stop :=
    running_playPeriods hzero hstop hcontiguous sizes hbefore hcounted
  have hend : reached.time ≤ stop :=
    time_le_stop_playPeriods hzero hstop hcontiguous sizes hbefore hlength hcounted
  have halike := hrunning.alike_seek (hsame ▸ hzero) (hsame ▸ hstop) (hsame ▸ hcontiguous) hend
  refine halike.playPeriods (hsame ▸ hstop) (hsame ▸ hcontiguous) more
    (fun n hn ↦ hpositive n (List.mem_append_right _ hn)) fun played hplayed ↦ ?_
  have happend : reached.playPeriods played = deck.rewind.playPeriods (sizes ++ played) :=
    List.foldl_append.symm
  rw [happend]
  exact hcount _ ((List.prefix_append_right_inj sizes).mpr hplayed)

end Sought

end Deck

/-! ### Rendered periods -/

namespace Player

/-- Periods one after the other, each with whether the queues are locked and its sample count. -/
def renderPeriods (player : Player) (periods : List (Bool × Nat)) : Player :=
  periods.foldl (fun player period ↦ (player.renderSamples period.1 period.2).2) player

theorem deck_playPeriod (player : Player) (locked : Bool) (silence : List Float32) :
    (player.playPeriod locked silence).2.deck =
      (player.deck.select (Sample.width * silence.length)).2 := by
  have hchosen : (player.chooseAtom (Sample.width * silence.length)).2.deck =
      (player.deck.select (Sample.width * silence.length)).2 := rfl
  rw [playPeriod]
  generalize player.chooseAtom (Sample.width * silence.length) = chosen at hchosen
  obtain ⟨choice, chosen⟩ := chosen
  cases choice with
  | none => exact hchosen
  | some atom =>
    dsimp only
    split_ifs
    · exact hchosen
    · exact hchosen
    · exact hchosen

/-- To the clock of a playing transport a period is its byte count, whatever is mixed. -/
theorem deck_renderSamples (player : Player) (hplaying : player.deck.transport = .playing)
    (locked : Bool) (count : Nat) :
    (player.renderSamples locked count).2.deck =
      player.deck.playPeriod (Sample.width * count) := by
  rw [renderSamples]
  dsimp only
  rw [if_pos hplaying, finishPeriod, deck_playPeriod, List.length_replicate]
  rfl

theorem deck_renderPeriods (player : Player) (hplaying : player.deck.transport = .playing)
    (periods : List (Bool × Nat)) :
    (player.renderPeriods periods).deck =
      player.deck.playPeriods (periods.map fun period ↦ Sample.width * period.2) := by
  induction periods generalizing player with
  | nil => rfl
  | cons period rest ih =>
    have hdeck := player.deck_renderSamples hplaying period.1 period.2
    have hstill : (player.renderSamples period.1 period.2).2.deck.transport = .playing := by
      rw [hdeck]
      exact hplaying
    change ((player.renderSamples period.1 period.2).2.renderPeriods rest).deck = _
    rw [ih _ hstill, hdeck]
    rfl

end Player

namespace Engine

variable {σ : Type} [OutputStream σ]

/-- Periods rendered one after the other for the output of an engine. -/
def renderPeriods (engine : Engine σ) (periods : List (Bool × Nat)) : Engine σ :=
  { engine with player := engine.player.renderPeriods periods }

/-- A seek to a time of the timeline goes to this time. -/
theorem seek_to (engine : Engine σ) (position : Seconds) {start stop : Seconds}
    (hlive : engine.destroyed = false) (hstart : engine.player.deck.timeline.start? = some start)
    (hstop : engine.player.deck.timeline.stop? = some stop) (hbegin : start ≤ position)
    (hend : position ≤ stop) :
    (engine.seek position).1 = .ok position ∧
      (engine.seek position).2.player.deck = engine.player.deck.seek
        (seekIndex engine.player.deck.timeline position) position := by
  have hclamped : min (max position start) stop = position := by
    rw [max_eq_left hbegin, min_eq_left hend]
  rw [seek]
  simp only [hlive, Bool.false_eq_true, if_false, hstart, hstop, hclamped]
  exact ⟨trivial, congrArg (Deck.seek · _ position) engine.player.deck_lockStore⟩

omit [OutputStream σ] in
theorem deck_renderPeriods {engine : Engine σ} (hplaying : engine.player.deck.transport = .playing)
    (periods : List (Bool × Nat)) :
    (engine.renderPeriods periods).player.deck =
      engine.player.deck.playPeriods (periods.map fun period ↦ Sample.width * period.2) :=
  engine.player.deck_renderPeriods hplaying periods

omit [OutputStream σ] in
theorem renderPeriods_append (engine : Engine σ) (first second : List (Bool × Nat)) :
    engine.renderPeriods (first ++ second) = (engine.renderPeriods first).renderPeriods second := by
  rw [renderPeriods, Player.renderPeriods, List.foldl_append]
  rfl

section Run

variable {engine : Engine σ} {stop : Seconds} (hlive : engine.destroyed = false)
  (hplaying : engine.player.deck.transport = .playing)
  (hclock : engine.player.deck.clock = .zero)
  (hzero : engine.player.deck.timeline.start? = some 0)
  (hstop : engine.player.deck.timeline.stop? = some stop)
  (hcontiguous : engine.player.deck.timeline.Contiguous)
  (played more : List (Bool × Nat)) (hpositive : ∀ period ∈ played ++ more, 0 < period.2)
  (hlength : ∀ period ∈ played,
    engine.player.deck.spec.duration (Sample.width * period.2) ≤ stop)
  (hcount : ∀ periods, periods <+: played ++ more →
    (engine.renderPeriods periods).player.deck.clock.bytes < 2 ^ 63)

include hlive hplaying hclock hzero hstop hcontiguous hpositive hlength hcount

/-- The time a run has come to is one that can be sought, and the decks with and without the seek
stay alike. -/
theorem alike_renderPeriods :
    let reached := engine.renderPeriods played
    let sought := reached.seek reached.player.deck.time
    sought.1 = .ok reached.player.deck.time ∧
      ∀ periods, periods <+: more →
        Deck.Alike (reached.renderPeriods periods).player.deck
          (sought.2.renderPeriods periods).player.deck := by
  intro reached sought
  let size := fun period : Bool × Nat ↦ Sample.width * period.2
  have hbegin : engine.player.deck.rewind = engine.player.deck := by
    rw [Deck.rewind, ← hclock]
  have hdeck : ∀ periods, (engine.renderPeriods periods).player.deck =
      engine.player.deck.rewind.playPeriods (periods.map size) := by
    rw [hbegin]
    exact deck_renderPeriods hplaying
  have hsame : reached.player.deck.timeline = engine.player.deck.timeline := by
    rw [hdeck]
    exact Deck.timeline_playPeriods _ _
  have hsizes : ∀ periods : List (Bool × Nat), (∀ period ∈ periods, 0 < period.2) →
      ∀ n ∈ periods.map size, 0 < n := by
    intro periods hperiods n hn
    obtain ⟨period, hperiod, rfl⟩ := List.mem_map.mp hn
    exact Nat.mul_pos (by decide) (hperiods period hperiod)
  have hlengths : ∀ n ∈ played.map size, engine.player.deck.spec.duration n ≤ stop :=
    List.forall_mem_map.mpr hlength
  have hcounts : ∀ sizes, sizes <+: played.map size ++ more.map size →
      (engine.player.deck.rewind.playPeriods sizes).clock.bytes < 2 ^ 63 := by
    intro sizes hinitial
    rw [← List.map_append, List.prefix_iff_eq_take, ← List.map_take] at hinitial
    rw [hinitial, ← hdeck]
    exact hcount _ (List.take_prefix _ _)
  have hbefore := hsizes played fun period hperiod ↦
    hpositive period (List.mem_append_left _ hperiod)
  have hcounted : ∀ sizes, sizes <+: played.map size →
      (engine.player.deck.rewind.playPeriods sizes).clock.bytes < 2 ^ 63 :=
    fun sizes hinitial ↦ hcounts sizes (hinitial.trans (List.prefix_append _ _))
  obtain ⟨hsought, hmoved⟩ := reached.seek_to reached.player.deck.time hlive
    (hsame ▸ hzero) (hsame ▸ hstop)
    (by
      rw [hdeck]
      exact (Deck.running_playPeriods hzero hstop hcontiguous _ hbefore hcounted).zero_le_time)
    (by
      rw [hdeck]
      exact Deck.time_le_stop_playPeriods hzero hstop hcontiguous _ hbefore hlengths hcounted)
  refine ⟨hsought, fun periods hperiods ↦ ?_⟩
  have htransport : reached.player.deck.transport = .playing := by
    rw [hdeck, Deck.transport_playPeriods]
    exact hplaying
  have hplain : (reached.renderPeriods periods).player.deck =
      reached.player.deck.playPeriods (periods.map size) := deck_renderPeriods htransport periods
  have hmovedPeriods : (sought.2.renderPeriods periods).player.deck =
      sought.2.player.deck.playPeriods (periods.map size) := by
    refine deck_renderPeriods ?_ periods
    rw [hmoved]
    exact htransport
  rw [hplain, hmovedPeriods, hmoved, hdeck]
  refine Deck.alike_seek_playPeriods hzero hstop hcontiguous _ _ ?_ hlengths ?_
  · rw [← List.map_append]
    exact hsizes _ fun period hperiod ↦
      hpositive period (((List.prefix_append_right_inj played).mpr hperiods).subset hperiod)
  · exact fun sizes hinitial ↦ hcounts sizes
      (hinitial.trans ((List.prefix_append_right_inj _).mpr (hperiods.map size)))

end Run

/-- Playing on after a seek to the time shown is playing on: every period is played from the same
atom, and ends at the same time of the same pass. -/
theorem seek_renderPeriods {engine : Engine σ} {stop : Seconds}
    (hlive : engine.destroyed = false) (hplaying : engine.player.deck.transport = .playing)
    (hclock : engine.player.deck.clock = .zero)
    (hzero : engine.player.deck.timeline.start? = some 0)
    (hstop : engine.player.deck.timeline.stop? = some stop)
    (hcontiguous : engine.player.deck.timeline.Contiguous) (played more : List (Bool × Nat))
    (hpositive : ∀ period ∈ played ++ more, 0 < period.2)
    (hlength : ∀ period ∈ played,
      engine.player.deck.spec.duration (Sample.width * period.2) ≤ stop)
    (hcount : ∀ periods, periods <+: played ++ more →
      (engine.renderPeriods periods).player.deck.clock.bytes < 2 ^ 63) :
    let reached := engine.renderPeriods played
    let sought := reached.seek reached.player.deck.time
    sought.1 = .ok reached.player.deck.time ∧
      (∀ periods, periods <+: more →
        let plain := (reached.renderPeriods periods).player.deck
        let moved := (sought.2.renderPeriods periods).player.deck
        moved.time = plain.time ∧ moved.clock.loop = plain.clock.loop) ∧
      ∀ periods period, periods ++ [period] <+: more →
        let plain := (reached.renderPeriods periods).player.deck.select (Sample.width * period.2)
        let moved := (sought.2.renderPeriods periods).player.deck.select (Sample.width * period.2)
        moved.1.atom = plain.1.atom ∧ moved.2.clock.index = plain.2.clock.index := by
  intro reached sought
  obtain ⟨hsought, halike⟩ := alike_renderPeriods hlive hplaying hclock hzero hstop hcontiguous
    played more hpositive hlength hcount
  refine ⟨hsought, fun periods hperiods ↦ ?_, fun periods period hperiods ↦ ?_⟩
  · exact ⟨(halike periods hperiods).time_eq, (halike periods hperiods).loop_eq⟩
  · have hbefore := halike periods ((List.prefix_append _ _).trans hperiods)
    have hwhole : played ++ (periods ++ [period]) <+: played ++ more :=
      (List.prefix_append_right_inj played).mpr hperiods
    have hdeck : (reached.renderPeriods periods).player.deck = engine.player.deck.playPeriods
        ((played ++ periods).map fun period ↦ Sample.width * period.2) := by
      rw [← renderPeriods_append, deck_renderPeriods hplaying]
    have hcounted := hcount _ hwhole
    rw [deck_renderPeriods hplaying, ← List.append_assoc, List.map_append, List.map_singleton,
      Deck.playPeriods_concat, ← hdeck] at hcounted
    have hsame : (reached.renderPeriods periods).player.deck.timeline =
        engine.player.deck.timeline := by rw [hdeck, Deck.timeline_playPeriods]
    obtain ⟨hatom, hindex, -⟩ := hbefore.playPeriod (hsame ▸ hstop) (hsame ▸ hcontiguous)
      (Nat.mul_pos (by decide) (hpositive period (hwhole.subset (by simp)))) hcounted
    exact ⟨hatom, hindex⟩

/-- A playing engine on the timeline of `Deck.hinged`. -/
def hinged : Engine ScriptedOutput where
  player :=
    { Player.new .oneHertz 1 ⟨64, [], 0, true⟩ (.new 0 1) with
      deck :=
        { Deck.new .oneHertz 1 with
          transport := .playing
          timeline := Deck.hinged.timeline } }
  stream := .new true [] []
  destroyed := false
  name := "scripted"
  minPlayable := 0
  flushTimeout := 0
  drainTimeout := 0

/-- After two seconds playing is still in the first atom, while the seek goes to the third. Three
periods later both have wrapped. -/
theorem seek_renderPeriods_hinged :
    let played := [(false, 2)]
    let more := [(false, 1), (true, 1), (false, 3)]
    let reached := hinged.renderPeriods played
    let sought := reached.seek reached.player.deck.time
    ((hinged.player.deck.timeline.Contiguous ∧
        (∀ period ∈ played ++ more, 0 < period.2) ∧
        (∀ period ∈ played,
          hinged.player.deck.spec.duration (Sample.width * period.2) ≤ .ofInt 4) ∧
        ∀ periods, periods <+: played ++ more →
          (hinged.renderPeriods periods).player.deck.clock.bytes < 2 ^ 63) ∧
      reached.player.deck.clock.index = 0 ∧ sought.2.player.deck.clock.index = 2 ∧
      (reached.renderPeriods more).player.deck.clock.loop = 1) ∧
    sought.1 = .ok reached.player.deck.time ∧
    (∀ periods, periods <+: more →
      let plain := (reached.renderPeriods periods).player.deck
      let moved := (sought.2.renderPeriods periods).player.deck
      moved.time = plain.time ∧ moved.clock.loop = plain.clock.loop) ∧
    ∀ periods period, periods ++ [period] <+: more →
      let plain := (reached.renderPeriods periods).player.deck.select (Sample.width * period.2)
      let moved := (sought.2.renderPeriods periods).player.deck.select (Sample.width * period.2)
      moved.1.atom = plain.1.atom ∧ moved.2.clock.index = plain.2.clock.index := by
  intro played more reached sought
  have hcontiguous : hinged.player.deck.timeline.Contiguous := by
    unfold Timeline.Contiguous
    decide +kernel
  have hcount : ∀ periods, periods <+: played ++ more →
      (hinged.renderPeriods periods).player.deck.clock.bytes < 2 ^ 63 := by
    have hall : ∀ periods ∈ (played ++ more).inits,
        (hinged.renderPeriods periods).player.deck.clock.bytes < 2 ^ 63 := by decide +kernel
    exact fun periods hinitial ↦ hall periods ((List.mem_inits _ _).mpr hinitial)
  have hpositive : ∀ period ∈ played ++ more, 0 < period.2 := by decide
  have hlength : ∀ period ∈ played,
      hinged.player.deck.spec.duration (Sample.width * period.2) ≤ .ofInt 4 := by decide +kernel
  refine ⟨⟨⟨hcontiguous, hpositive, hlength, hcount⟩, ?_⟩, ?_⟩
  · decide +kernel
  · exact seek_renderPeriods rfl rfl rfl (by decide +kernel) (by decide +kernel) hcontiguous
      played more hpositive hlength hcount

end Engine

end TimelineMixer
