import TimelineMixer.Proofs.Clock.Landing

/-!
# The atom chosen for a period

Which atom a period belongs to is said here without steps: the first one from the atom of the clock
on that reaches the end of the period, or else, one pass later, the first of all that reaches its
length, or the last if none does. Both conditions on atoms can be computed. A selection finds that
atom, reports how it got there, and would find no other with more steps (`cross_add_bound`) or
without its short cut (`select_chooses`).
-/

set_option autoImplicit false
set_option relaxedAutoImplicit false

namespace TimelineMixer.Timeline

variable {timeline : Timeline} {spec : AudioSpec} {request target : Seconds} {first index : Nat}

/-! ### Computing the conditions -/

theorem unreached_iff : timeline.Unreached target first ↔
    ∀ atom ∈ timeline.atoms.drop first, ¬ target ≤ atom.stop := by
  constructor
  · intro h atom hatom
    obtain ⟨i, hi⟩ := List.mem_iff_getElem?.mp hatom
    rw [List.getElem?_drop] at hi
    exact h (first + i) atom (Nat.le_add_right _ _) hi
  · intro h i atom hfirst hatom
    refine h atom (List.mem_iff_getElem?.mpr ⟨i - first, ?_⟩)
    rw [List.getElem?_drop, Nat.add_sub_cancel' hfirst]
    exact hatom

theorem firstReaching_iff : timeline.FirstReaching target first index ↔
    first ≤ index ∧ (∃ atom ∈ timeline.atoms[index]?, target ≤ atom.stop) ∧
      ∀ atom ∈ (timeline.atoms.drop first).take (index - first), ¬ target ≤ atom.stop := by
  refine and_congr_right fun hfirst ↦ and_congr_right fun _ ↦ ⟨?_, ?_⟩
  · intro h atom hatom
    obtain ⟨i, hi⟩ := List.mem_iff_getElem?.mp hatom
    rw [List.getElem?_take] at hi
    split_ifs at hi with hlt
    rw [List.getElem?_drop] at hi
    exact h (first + i) atom (Nat.le_add_right _ _) (by omega) hi
  · intro h i atom hle hlt hatom
    refine h atom (List.mem_iff_getElem?.mpr ⟨i - first, ?_⟩)
    rw [List.getElem?_take_of_lt (by omega), List.getElem?_drop, Nat.add_sub_cancel' hle]
    exact hatom

instance : Decidable (timeline.Unreached target first) :=
  decidable_of_iff' _ unreached_iff

instance : Decidable (timeline.FirstReaching target first index) :=
  decidable_of_iff' _ firstReaching_iff

/-- At most one atom is the first to reach a time. -/
theorem FirstReaching.unique {other : Nat} (h : timeline.FirstReaching target first index)
    (hother : timeline.FirstReaching target first other) : index = other := by
  obtain ⟨atom, hatom, hreach⟩ := h.2.1
  obtain ⟨later, hlater, hreaches⟩ := hother.2.1
  rcases Nat.lt_trichotomy index other with hlt | rfl | hlt
  · exact absurd hreach (hother.2.2 index atom h.1 hlt hatom)
  · rfl
  · exact absurd hreaches (h.2.2 other later hother.1 hlt hlater)

/-! ### More steps -/

/-- A crossing that has put off a second wrap stays there. -/
theorem cross_deferred {bound : Nat} {crossing : Crossing} {atom : Atom}
    (hatom : timeline.atoms[crossing.clock.index]? = some atom)
    (hbeyond : ¬ crossing.clock.time spec + request ≤ atom.stop)
    (hlast : crossing.clock.index + 1 = timeline.length) (hwrapped : crossing.wrapped = true)
    (hdeferred : crossing.deferred = true) :
    timeline.cross spec request bound crossing = crossing := by
  cases bound with
  | zero => rfl
  | succ bound =>
    obtain ⟨clock, steps, wrapped, deferred⟩ := crossing
    cases hdeferred
    rw [cross_last hatom hbeyond hlast, if_pos hwrapped]

/-- Steps after the last one a crossing takes change nothing, so steps may be counted in two
portions. -/
theorem cross_add (bound more : Nat) (crossing : Crossing) :
    timeline.cross spec request (bound + more) crossing =
      timeline.cross spec request more (timeline.cross spec request bound crossing) := by
  induction bound generalizing crossing with
  | zero => rw [Nat.zero_add, cross]
  | succ bound ih =>
    rw [Nat.add_right_comm]
    cases hatom : timeline.atoms[crossing.clock.index]? with
    | none =>
      have hnone : ∀ steps, timeline.cross spec request steps crossing = crossing := by
        intro steps
        cases steps with
        | zero => rfl
        | succ steps => simp only [cross, hatom]
      rw [hnone, hnone, hnone]
    | some atom =>
      by_cases hreach : crossing.clock.time spec + request ≤ atom.stop
      · rw [cross_stays hatom hreach, cross_stays hatom hreach, cross_stays hatom hreach]
      · by_cases hlast : crossing.clock.index + 1 = timeline.length
        · rw [cross_last hatom hreach hlast, cross_last hatom hreach hlast]
          split_ifs with hwrapped
          · have hstays : timeline.cross spec request more { crossing with deferred := true } = _ :=
              cross_deferred hatom hreach hlast hwrapped rfl
            rw [hstays]
          · exact ih _
        · rw [cross_nextAtom hatom hreach hlast, cross_nextAtom hatom hreach hlast, ih]

/-- The bound on the number of steps never ends a crossing early. -/
theorem cross_add_bound (hne : timeline.length ≠ 0) (clock : Clock) (more : Nat) :
    timeline.cross spec request (2 * timeline.length + more)
        ⟨timeline.entry clock, 0, false, false⟩ =
      timeline.crossFrom clock spec request := by
  rw [cross_add, ← crossFrom]
  rcases timeline.exists_firstReaching_or_unreached (clock.time spec + request)
    (timeline.entry clock).index with ⟨index, hreached⟩ | hunreached
  · rw [crossFrom_of_reached hreached]
    obtain ⟨atom, hatom, hreach⟩ := hreached.2.1
    exact cross_stays hatom hreach
  · have htime : ∀ index, ({ clock.wrap with index } : Clock).time spec + request = request := by
      intro index
      change clock.wrap.time spec + request = request
      rw [time_wrap, Seconds.zero_add]
    rcases timeline.exists_firstReaching_or_unreached request 0 with ⟨index, hreached⟩ | hagain
    · rw [crossFrom_of_reached_after_wrap hunreached hreached]
      obtain ⟨atom, hatom, hreach⟩ := hreached.2.1
      exact cross_stays hatom ((htime index).le.trans hreach)
    · rw [crossFrom_of_unreached hne hunreached hagain]
      obtain ⟨last, hlast⟩ := exists_atom (Nat.sub_one_lt hne)
      refine cross_deferred hlast ?_ (Nat.sub_one_add_one hne) rfl rfl
      rw [htime]
      exact hagain _ last (Nat.zero_le _) hlast

/-! ### The selection -/

/-- The index an atom is looked for from. -/
theorem index_entry (timeline : Timeline) (clock : Clock) :
    (timeline.entry clock).index = if clock.index < timeline.length then clock.index else 0 := by
  rw [entry]
  split_ifs <;> rfl

/-- A period goes to the first atom from that of the clock on which reaches its end, and the time
goes on. If there is none, it goes to the beginning of the next pass and there to the first atom
that reaches its length, or to the last one. An atom left is reported, and a wrap before it. The
atom is the one at the new index; more steps find no other, and nor does a selection without its
short cut. -/
theorem select_chooses (hne : timeline.length ≠ 0) (clock : Clock) (spec : AudioSpec)
    (bytes : Nat) :
    let request := spec.duration bytes
    let target := clock.time spec + request
    let first := if clock.index < timeline.length then clock.index else 0
    let selection := timeline.select clock spec bytes
    (∀ index, timeline.FirstReaching target first index →
      selection.clock = { clock with index } ∧
      selection.events = if index = first then [] else [.atomChanged index clock.loop]) ∧
    (timeline.Unreached target first → ∃ index,
      (timeline.FirstReaching request 0 index ∨
        timeline.Unreached request 0 ∧ index + 1 = timeline.length) ∧
      selection.clock = ⟨index, 0, 0, clock.loop + 1⟩ ∧
      selection.events =
        [.loopWrapped (clock.loop + 1), .atomChanged index (clock.loop + 1)]) ∧
    (∃ atom, selection.atom = some atom ∧
      timeline.atoms[selection.clock.index]? = some atom) ∧
    (∀ more, timeline.cross spec request (2 * timeline.length + more)
      ⟨timeline.entry clock, 0, false, false⟩ = timeline.crossFrom clock spec request) ∧
    selection = timeline.selectCrossing clock spec request := by
  intro request target first selection
  have hfirst : (timeline.entry clock).index = first := timeline.index_entry clock
  have hslow : selection = timeline.selectCrossing clock spec request :=
    select_eq_selectCrossing hne clock bytes
  have hinside : ∀ index, timeline.FirstReaching target first index →
      selection.clock = { clock with index } ∧
      selection.events = if index = first then [] else [.atomChanged index clock.loop] := by
    intro index hreached
    rw [hslow, selectCrossing, crossFrom_of_reached (hfirst ▸ hreached)]
    refine ⟨rfl, ?_⟩
    have hsteps : index - first = 0 ↔ index = first := by
      have := hreached.1
      omega
    simp only [crossingEvents, hfirst, hsteps]
    rfl
  have hwraps : timeline.Unreached target first → ∃ index,
      (timeline.FirstReaching request 0 index ∨
        timeline.Unreached request 0 ∧ index + 1 = timeline.length) ∧
      selection.clock = ⟨index, 0, 0, clock.loop + 1⟩ ∧
      selection.events =
        [.loopWrapped (clock.loop + 1), .atomChanged index (clock.loop + 1)] := by
    intro hunreached
    -- A wrap takes a step, so the atom it leads to is always reported.
    have hsteps : ∀ steps, timeline.length - (timeline.entry clock).index + steps ≠ 0 := by
      have := timeline.entry_index_lt hne clock
      omega
    rw [hslow, selectCrossing]
    rcases timeline.exists_firstReaching_or_unreached request 0 with ⟨index, hreached⟩ | hagain
    · refine ⟨index, Or.inl hreached, ?_⟩
      rw [crossFrom_of_reached_after_wrap (hfirst ▸ hunreached) hreached]
      simp only [crossingEvents, if_neg (hsteps _)]
      exact ⟨rfl, rfl⟩
    · refine ⟨timeline.length - 1, Or.inr ⟨hagain, Nat.sub_one_add_one hne⟩, ?_⟩
      rw [crossFrom_of_unreached hne (hfirst ▸ hunreached) hagain]
      simp only [crossingEvents, if_neg (hsteps _)]
      exact ⟨rfl, rfl⟩
  refine ⟨hinside, hwraps, ?_, fun more ↦ cross_add_bound hne clock more, hslow⟩
  have hatom : selection.atom = timeline.atoms[selection.clock.index]? :=
    atom_select hne clock bytes
  have hindex : selection.clock.index < timeline.length := by
    rcases timeline.exists_firstReaching_or_unreached target first with
      ⟨index, hreached⟩ | hunreached
    · rw [(hinside index hreached).1]
      exact hreached.lt_length
    · obtain ⟨index, hplace, hclock, -⟩ := hwraps hunreached
      rw [hclock]
      rcases hplace with hreached | ⟨-, hlast⟩
      · exact hreached.lt_length
      · exact Nat.lt_of_succ_le hlast.le
  obtain ⟨atom, hfound⟩ := exists_atom hindex
  exact ⟨atom, hatom.trans hfound, hfound⟩

/-- Three atoms that leave gaps and overlap. -/
def scattered : Timeline where
  atoms := [⟨.ofInt 0, .ofInt 3, []⟩, ⟨.ofInt 1, .ofInt 2, []⟩, ⟨.ofInt 5, .ofInt 6, []⟩]
  ordered := by decide +kernel

/-- Four seconds at the fifth second, with an index beyond the last atom: they wrap, pass the ends
at three and at two seconds, and belong to the last atom. -/
theorem select_chooses_scattered :
    scattered.length ≠ 0 ∧
    let selection := scattered.select ⟨7, .ofInt 5, 0, 2⟩ .standard 1411200
    selection.clock = ⟨2, 0, 0, 3⟩ ∧
      selection.events = [.loopWrapped 3, .atomChanged 2 3] ∧
      selection.atom = some ⟨.ofInt 5, .ofInt 6, []⟩ := by
  have hne : scattered.length ≠ 0 := by decide
  obtain ⟨-, hwraps, ⟨atom, hatom, hfound⟩, -⟩ :=
    select_chooses hne ⟨7, .ofInt 5, 0, 2⟩ .standard 1411200
  obtain ⟨index, hplace, hclock, hevents⟩ := hwraps (by decide +kernel)
  have hindex : index = 2 := by
    rcases hplace with hreached | ⟨hagain, -⟩
    · exact hreached.unique (by decide +kernel)
    · exact absurd hagain (by decide +kernel)
  rw [hindex] at hclock hevents
  rw [hclock] at hfound
  exact ⟨hne, hclock, hevents, hatom.trans hfound.symm⟩

end TimelineMixer.Timeline
