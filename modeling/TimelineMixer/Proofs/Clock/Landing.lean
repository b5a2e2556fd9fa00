import TimelineMixer.Proofs.Time.Exactness
import TimelineMixer.Selection

/-!
# Where a period lands

The crossing of ends of atoms, which moves a clock step by step, arrives at the first atom from its
own on that reaches the end of the period (`crossFrom_of_reached`). If no atom does, it wraps once
and arrives at the first atom of all that reaches the length of the period
(`crossFrom_of_reached_after_wrap`), or at the last atom if there is none
(`crossFrom_of_unreached`). The bound on the number of steps never ends a crossing early, and the
fast path of `select` agrees with the crossing (`clock_select`).
-/

set_option autoImplicit false
set_option relaxedAutoImplicit false

namespace TimelineMixer.Timeline

variable {timeline : Timeline} {spec : AudioSpec} {request target : Seconds}

/-- The atom at an index is the first one, counted from another index, that reaches a time. -/
def FirstReaching (timeline : Timeline) (target : Seconds) (first index : Nat) : Prop :=
  first ≤ index ∧ (∃ atom, timeline.atoms[index]? = some atom ∧ target ≤ atom.stop) ∧
    ∀ i atom, first ≤ i → i < index → timeline.atoms[i]? = some atom → ¬ target ≤ atom.stop

/-- No atom from an index on reaches a time. -/
def Unreached (timeline : Timeline) (target : Seconds) (first : Nat) : Prop :=
  ∀ i atom, first ≤ i → timeline.atoms[i]? = some atom → ¬ target ≤ atom.stop

theorem exists_atom {index : Nat} (h : index < timeline.length) :
    ∃ atom, timeline.atoms[index]? = some atom :=
  ⟨_, List.getElem?_eq_getElem h⟩

theorem FirstReaching.lt_length {first index : Nat}
    (h : timeline.FirstReaching target first index) : index < timeline.length := by
  obtain ⟨atom, hatom, -⟩ := h.2.1
  exact (List.getElem?_eq_some_iff.mp hatom).1

theorem exists_firstReaching_or_unreached (timeline : Timeline) (target : Seconds) (first : Nat) :
    (∃ index, timeline.FirstReaching target first index) ∨ timeline.Unreached target first := by
  classical
  by_cases h : ∃ index, first ≤ index ∧
      ∃ atom, timeline.atoms[index]? = some atom ∧ target ≤ atom.stop
  · refine Or.inl ⟨Nat.find h, (Nat.find_spec h).1, (Nat.find_spec h).2, ?_⟩
    intro i atom hfirst hi hatom hreach
    exact Nat.find_min h hi ⟨hfirst, atom, hatom, hreach⟩
  · refine Or.inr fun i atom hfirst hatom hreach ↦ h ⟨i, hfirst, atom, hatom, hreach⟩

/-! ### Steps of a crossing -/

/-- A crossing from an atom that reaches the end of the period stays there. -/
theorem cross_stays {bound : Nat} {crossing : Crossing} {atom : Atom}
    (hatom : timeline.atoms[crossing.clock.index]? = some atom)
    (hreach : crossing.clock.time spec + request ≤ atom.stop) :
    timeline.cross spec request bound crossing = crossing := by
  cases bound with
  | zero => rfl
  | succ bound => simp only [cross, hatom, if_pos hreach]

theorem cross_nextAtom {bound : Nat} {crossing : Crossing} {atom : Atom}
    (hatom : timeline.atoms[crossing.clock.index]? = some atom)
    (hbeyond : ¬ crossing.clock.time spec + request ≤ atom.stop)
    (hlast : crossing.clock.index + 1 ≠ timeline.length) :
    timeline.cross spec request (bound + 1) crossing =
      timeline.cross spec request bound
        { crossing with clock := crossing.clock.nextAtom, steps := crossing.steps + 1 } := by
  simp only [cross, hatom, if_neg hbeyond, if_neg hlast]

theorem cross_last {bound : Nat} {crossing : Crossing} {atom : Atom}
    (hatom : timeline.atoms[crossing.clock.index]? = some atom)
    (hbeyond : ¬ crossing.clock.time spec + request ≤ atom.stop)
    (hlast : crossing.clock.index + 1 = timeline.length) :
    timeline.cross spec request (bound + 1) crossing =
      if crossing.wrapped then { crossing with deferred := true }
      else timeline.cross spec request bound
        { crossing with
          clock := crossing.clock.wrap, steps := crossing.steps + 1, wrapped := true } := by
  simp only [cross, hatom, if_neg hbeyond, if_pos hlast]

/-- With enough steps left, a crossing ends at the first atom that reaches the end of the period.
The clock shows the same time all along. -/
theorem cross_of_reached {bound index : Nat} {crossing : Crossing}
    (h : timeline.FirstReaching (crossing.clock.time spec + request) crossing.clock.index index)
    (hbound : index ≤ crossing.clock.index + bound) :
    timeline.cross spec request bound crossing =
      { crossing with
        clock := { crossing.clock with index }
        steps := crossing.steps + (index - crossing.clock.index) } := by
  induction bound generalizing crossing with
  | zero =>
    have hindex : index = crossing.clock.index := by have := h.1; omega
    subst hindex
    simp [cross]
  | succ bound ih =>
    obtain ⟨atom, hatom, hreach⟩ := h.2.1
    by_cases hhere : crossing.clock.index = index
    · rw [cross_stays (hhere ▸ hatom) hreach, ← hhere, Nat.sub_self, Nat.add_zero]
    · have hlt : crossing.clock.index < index := by have := h.1; omega
      have hlength := h.lt_length
      obtain ⟨current, hcurrent⟩ := exists_atom (hlt.trans hlength)
      rw [cross_nextAtom hcurrent (h.2.2 _ _ le_rfl hlt hcurrent) (by omega), ih]
      · simp only [Clock.nextAtom]
        congr 1
        omega
      · exact ⟨hlt, h.2.1, fun i other hi ↦ h.2.2 i other (by change _ + 1 ≤ i at hi; omega)⟩
      · simp only [Clock.nextAtom]
        omega

/-- If no atom reaches the end of the period, a crossing goes past the last atom. -/
theorem cross_of_unreached {bound : Nat} {crossing : Crossing}
    (h : timeline.Unreached (crossing.clock.time spec + request) crossing.clock.index)
    (hindex : crossing.clock.index < timeline.length)
    (hbound : timeline.length ≤ crossing.clock.index + bound) :
    timeline.cross spec request bound crossing =
      if crossing.wrapped then
        { crossing with
          clock := { crossing.clock with index := timeline.length - 1 }
          steps := crossing.steps + (timeline.length - 1 - crossing.clock.index)
          deferred := true }
      else
        timeline.cross spec request (crossing.clock.index + bound - timeline.length)
          { crossing with
            clock := crossing.clock.wrap
            steps := crossing.steps + (timeline.length - crossing.clock.index)
            wrapped := true } := by
  induction bound generalizing crossing with
  | zero => omega
  | succ bound ih =>
    obtain ⟨atom, hatom⟩ := exists_atom hindex
    have hbeyond := h _ _ le_rfl hatom
    by_cases hlast : crossing.clock.index + 1 = timeline.length
    · rw [cross_last hatom hbeyond hlast]
      have hend : timeline.length - 1 = crossing.clock.index := by omega
      have hone : timeline.length - crossing.clock.index = 1 := by omega
      have hleft : crossing.clock.index + (bound + 1) - timeline.length = bound := by omega
      rw [hend, hone, hleft, Nat.sub_self]
      rfl
    · rw [cross_nextAtom hatom hbeyond hlast, ih]
      · simp only [Clock.nextAtom, Clock.wrap]
        have hwrap : crossing.steps + 1 + (timeline.length - (crossing.clock.index + 1)) =
            crossing.steps + (timeline.length - crossing.clock.index) := by omega
        have hstay : crossing.steps + 1 + (timeline.length - 1 - (crossing.clock.index + 1)) =
            crossing.steps + (timeline.length - 1 - crossing.clock.index) := by omega
        have hleft : crossing.clock.index + 1 + bound - timeline.length =
            crossing.clock.index + (bound + 1) - timeline.length := by omega
        rw [hwrap, hstay, hleft]
      · exact fun i other hi ↦ h i other (by change _ + 1 ≤ i at hi; omega)
      · simp only [Clock.nextAtom]
        omega
      · simp only [Clock.nextAtom]
        omega

/-! ### The whole crossing -/

variable {clock : Clock}

theorem time_entry (timeline : Timeline) (clock : Clock) :
    (timeline.entry clock).time spec = clock.time spec := by
  unfold entry
  split_ifs <;> rfl

theorem entry_index_lt (hne : timeline.length ≠ 0) (clock : Clock) :
    (timeline.entry clock).index < timeline.length := by
  unfold entry
  split_ifs with h
  · exact h
  · exact Nat.pos_of_ne_zero hne

theorem time_wrap (clock : Clock) : clock.wrap.time spec = 0 := by
  rw [Clock.time, Clock.wrap, AudioSpec.duration_zero, Seconds.add_zero]

theorem crossFrom_of_reached {index : Nat}
    (h : timeline.FirstReaching (clock.time spec + request) (timeline.entry clock).index index) :
    timeline.crossFrom clock spec request =
      ⟨{ clock with index }, index - (timeline.entry clock).index, false, false⟩ := by
  have hlength := h.lt_length
  have hfields : (timeline.entry clock).start = clock.start ∧
      (timeline.entry clock).bytes = clock.bytes ∧ (timeline.entry clock).loop = clock.loop := by
    unfold entry
    split_ifs <;> exact ⟨rfl, rfl, rfl⟩
  have hcross : timeline.crossFrom clock spec request = _ :=
    cross_of_reached (by rw [time_entry]; exact h) (by dsimp only; omega)
  rw [hcross]
  simp only [hfields, Nat.zero_add]

/-- Past the last atom, a crossing goes on from the wrapped clock, whose period ends at its own
length. -/
theorem crossFrom_wraps (hne : timeline.length ≠ 0)
    (h : timeline.Unreached (clock.time spec + request) (timeline.entry clock).index) :
    timeline.crossFrom clock spec request =
      timeline.cross spec request ((timeline.entry clock).index + timeline.length)
        ⟨clock.wrap, timeline.length - (timeline.entry clock).index, true, false⟩ := by
  have hindex := timeline.entry_index_lt hne clock
  have hwrap : (timeline.entry clock).wrap = clock.wrap := by
    unfold entry
    split_ifs <;> rfl
  rw [crossFrom, cross_of_unreached]
  · have hleft : (timeline.entry clock).index + 2 * timeline.length - timeline.length =
        (timeline.entry clock).index + timeline.length := by omega
    simp only [hwrap, hleft, Nat.zero_add, Bool.false_eq_true, if_false]
  · rw [time_entry]
    exact h
  · exact hindex
  · dsimp only
    omega

theorem crossFrom_of_reached_after_wrap {index : Nat}
    (h : timeline.Unreached (clock.time spec + request) (timeline.entry clock).index)
    (hreached : timeline.FirstReaching request 0 index) :
    timeline.crossFrom clock spec request =
      ⟨{ clock.wrap with index }, timeline.length - (timeline.entry clock).index + index,
        true, false⟩ := by
  have hlength := hreached.lt_length
  have hcross : timeline.cross spec request ((timeline.entry clock).index + timeline.length)
      ⟨clock.wrap, timeline.length - (timeline.entry clock).index, true, false⟩ = _ :=
    cross_of_reached (by rw [time_wrap, Seconds.zero_add]; exact hreached)
      (by simp only [Clock.wrap]; omega)
  rw [crossFrom_wraps (by omega) h, hcross]
  simp only [Clock.wrap, Nat.sub_zero]

/-- A period longer than the timeline stays at the last atom of the next pass. -/
theorem crossFrom_of_unreached (hne : timeline.length ≠ 0)
    (h : timeline.Unreached (clock.time spec + request) (timeline.entry clock).index)
    (hagain : timeline.Unreached request 0) :
    timeline.crossFrom clock spec request =
      ⟨{ clock.wrap with index := timeline.length - 1 },
        timeline.length - (timeline.entry clock).index + (timeline.length - 1), true, true⟩ := by
  rw [crossFrom_wraps hne h, cross_of_unreached]
  · simp only [Clock.wrap, Nat.sub_zero, if_true]
  · rw [time_wrap, Seconds.zero_add]
    exact hagain
  · simp only [Clock.wrap]
    omega
  · simp only [Clock.wrap]
    omega

/-- The fast path of a selection is the crossing that goes nowhere. -/
theorem select_eq_selectCrossing (hne : timeline.length ≠ 0) (clock : Clock) (bytes : Nat) :
    timeline.select clock spec bytes =
      timeline.selectCrossing clock spec (spec.duration bytes) := by
  rw [select, if_neg hne]
  cases hatom : timeline.atoms[clock.index]? with
  | none => rfl
  | some atom =>
    dsimp only
    split_ifs with hreach
    · have hindex : clock.index < timeline.length := (List.getElem?_eq_some_iff.mp hatom).1
      have hentry : timeline.entry clock = clock := if_pos hindex
      have hstays : timeline.crossFrom clock spec (spec.duration bytes) =
          ⟨clock, 0, false, false⟩ := by
        rw [crossFrom, hentry]
        exact cross_stays hatom hreach
      simp [selectCrossing, hstays, hatom, crossingEvents, crossingNotices, hindex]
    · rfl

theorem clock_select (hne : timeline.length ≠ 0) (clock : Clock) (bytes : Nat) :
    (timeline.select clock spec bytes).clock =
      (timeline.crossFrom clock spec (spec.duration bytes)).clock := by
  rw [select_eq_selectCrossing hne, selectCrossing]

/-- A selection that leaves the pass has put the clock at zero. -/
theorem time_select_of_loop_ne (hne : timeline.length ≠ 0) {bytes : Nat}
    (h : (timeline.select clock spec bytes).clock.loop ≠ clock.loop) :
    (timeline.select clock spec bytes).clock.time spec = 0 := by
  rw [clock_select hne] at h ⊢
  rcases timeline.exists_firstReaching_or_unreached (clock.time spec + spec.duration bytes)
    (timeline.entry clock).index with ⟨index, hreached⟩ | hunreached
  · rw [crossFrom_of_reached hreached] at h
    exact absurd rfl h
  · rcases timeline.exists_firstReaching_or_unreached (spec.duration bytes) 0 with
      ⟨index, hagain⟩ | hagain
    · rw [crossFrom_of_reached_after_wrap hunreached hagain]
      exact time_wrap clock
    · rw [crossFrom_of_unreached hne hunreached hagain]
      exact time_wrap clock

/-- The selected atom is the one the clock has moved to. -/
theorem atom_select (hne : timeline.length ≠ 0) (clock : Clock) (bytes : Nat) :
    (timeline.select clock spec bytes).atom =
      timeline.atoms[(timeline.select clock spec bytes).clock.index]? := by
  rw [select_eq_selectCrossing hne, selectCrossing]

end TimelineMixer.Timeline
