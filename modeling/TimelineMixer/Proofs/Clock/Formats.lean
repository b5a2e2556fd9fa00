import TimelineMixer.Deck
import TimelineMixer.Proofs.Document.Values
import TimelineMixer.Proofs.Time.WholeFrames
import TimelineMixer.Proofs.Time.Words

/-!
# A clock that is read in several formats

The bytes a clock has counted stand for a time only in the format they were sent in. When the format
changes, that time becomes part of the start and counting begins again, so the clock shows what it
showed before, whether or not the time had to be rounded (`Clock.time_fold`). Through any changes
between counts the clock shows where it was put and the exact length of each count at its own byte
rate, as long as no sum has to be rounded on the way (`Deck.toRat_time_meterAll`).

A deck keeps its clock in words, the start as a numerator and a denominator that are reduced again
by each reader, and its format in one packed word (`DeckCells`). Nothing is lost by that: what is
read back is the clock that was kept (`ClockCell.load_store`), so the cells follow the deck
(`Deck.cells_meterAll`).
-/

set_option autoImplicit false
set_option relaxedAutoImplicit false

namespace TimelineMixer

/-! ### The clock in words -/

/-- A clock as it is kept, with its start in words. -/
structure ClockCell where
  index : Nat
  start : Fraction
  bytes : Nat
  loop : Nat

namespace ClockCell

/-- The words in which a clock is kept. -/
def store (clock : Clock) : ClockCell :=
  ⟨clock.index, clock.start.words, clock.bytes, clock.loop⟩

/-- The clock that is read from the words; a start over zero counts as zero. -/
def load (cell : ClockCell) : Clock where
  index := cell.index
  start := (Seconds.ofFraction? cell.start.num.toInt cell.start.den.toInt).getD 0
  bytes := cell.bytes
  loop := cell.loop

/-- Changes the clock that is kept. -/
def update (cell : ClockCell) (change : Clock → Clock) : ClockCell :=
  store (change cell.load)

@[simp] theorem load_store (clock : Clock) : (store clock).load = clock := by
  simp [store, load, Seconds.ofFraction?_parts]

@[simp] theorem load_update (cell : ClockCell) (change : Clock → Clock) :
    (cell.update change).load = change cell.load :=
  load_store _

end ClockCell

/-- The clock and the format of a deck as they are kept. -/
structure DeckCells where
  clock : ClockCell
  format : SpecCell

/-- What moves the clock of a deck or changes what its bytes stand for. -/
inductive Metering where
  /-- Bytes are counted as sent. -/
  | count (bytes : Nat)
  /-- The format changes. -/
  | setSpec (spec : AudioSpec)

/-- The time that counts stand for, each at the byte rate of the format it was sent in. -/
def metered : AudioSpec → List Metering → ℚ
  | _, [] => 0
  | spec, .count bytes :: rest => bytes / spec.bytesPerSecond + metered spec rest
  | _, .setSpec spec :: rest => metered spec rest

namespace DeckCells

/-- The time shown. -/
def time (cells : DeckCells) : Seconds :=
  cells.clock.load.time cells.format.load

/-- Counts bytes or changes the format. -/
def meter (cells : DeckCells) : Metering → DeckCells
  | .count bytes => { cells with clock := cells.clock.update fun clock ↦ clock.advance bytes }
  | .setSpec spec =>
    { clock := cells.clock.update fun clock ↦ clock.fold cells.format.load
      format := cells.format.store spec }

/-- Counts and changes one after the other. -/
def meterAll (cells : DeckCells) (meterings : List Metering) : DeckCells :=
  meterings.foldl meter cells

end DeckCells

/-- In another format a clock whose bytes became part of the start shows the same time. -/
theorem Clock.time_fold (clock : Clock) (old new : AudioSpec) :
    (clock.fold old).time new = clock.time old := by
  rw [time, fold, new.duration_zero, Seconds.add_zero]

/-- A cell whose format changes shows the same time. -/
theorem DeckCells.time_setSpec (cells : DeckCells) (spec : AudioSpec) :
    (cells.meter (.setSpec spec)).time = cells.time := by
  rw [time, meter, ClockCell.load_update, SpecCell.load_store, Clock.time_fold, time]

namespace Deck

/-- Counts bytes or changes the format. -/
def meter (deck : Deck) : Metering → Deck
  | .count bytes => deck.advance bytes
  | .setSpec spec => deck.setSpec spec

/-- Counts and changes one after the other. -/
def meterAll (deck : Deck) (meterings : List Metering) : Deck :=
  meterings.foldl meter deck

/-- The words in which the clock and the format of a deck are kept. -/
def cells (deck : Deck) : DeckCells :=
  ⟨.store deck.clock, deck.format⟩

/-- The start and the length of the counted bytes, with nothing rounded or cut off. -/
def exactTime (deck : Deck) : ℚ :=
  deck.clock.start.toRat + deck.clock.bytes / deck.spec.bytesPerSecond

/-- The time can be stored, and the counted bytes are fewer than a word can count. -/
def Exact (deck : Deck) : Prop :=
  Seconds.Fits deck.exactTime ∧ deck.clock.bytes < 2 ^ 63

variable {deck : Deck}

/-! ### One step -/

theorem time_setSpec (deck : Deck) (spec : AudioSpec) : (deck.setSpec spec).time = deck.time := by
  rw [time, spec_setSpec, setSpec, Clock.time_fold, time]

theorem cells_meter (deck : Deck) (metering : Metering) :
    (deck.meter metering).cells = deck.cells.meter metering := by
  cases metering with
  | count bytes => simp [meter, advance, cells, DeckCells.meter, ClockCell.update]
  | setSpec spec => simp [meter, setSpec, cells, DeckCells.meter, ClockCell.update, Deck.spec]

theorem time_cells (deck : Deck) : deck.cells.time = deck.time := by
  rw [DeckCells.time, cells, ClockCell.load_store]
  rfl

theorem place_meter (deck : Deck) (metering : Metering) :
    (deck.meter metering).clock.index = deck.clock.index ∧
      (deck.meter metering).clock.loop = deck.clock.loop := by
  cases metering <;> exact ⟨rfl, rfl⟩

theorem Exact.toRat_time (h : deck.Exact) : deck.time.toRat = deck.exactTime :=
  deck.spec.toRat_add_duration h.2 h.1

/-- A step moves the exact time by what is counted in it. -/
theorem Exact.exactTime_meter (h : deck.Exact) {metering : Metering}
    (hbytes : (deck.meter metering).clock.bytes < 2 ^ 63) :
    (deck.meter metering).exactTime = deck.exactTime + metered deck.spec [metering] := by
  cases metering with
  | count bytes =>
    change min (deck.clock.bytes + bytes) 0xffffffffffffffff < 2 ^ 63 at hbytes
    change deck.clock.start.toRat + (min (deck.clock.bytes + bytes) 0xffffffffffffffff : Nat) /
      (deck.spec.bytesPerSecond : ℚ) = deck.exactTime + metered deck.spec [.count bytes]
    rw [Nat.min_eq_left (by omega), Nat.cast_add, add_div, ← add_assoc, metered, metered,
      add_zero, exactTime]
  | setSpec spec =>
    have hstart : (deck.setSpec spec).clock.start.toRat = deck.exactTime := h.toRat_time
    change (deck.setSpec spec).clock.start.toRat + ((0 : Nat) : ℚ) / _ = _
    rw [hstart, Nat.cast_zero, zero_div, metered, metered]

/-- What is counted after a step is counted in the format that the step leaves. -/
theorem metered_cons (deck : Deck) (metering : Metering) (rest : List Metering) :
    metered deck.spec (metering :: rest) =
      metered deck.spec [metering] + metered (deck.meter metering).spec rest := by
  cases metering with
  | count bytes =>
    rw [metered, metered, metered, add_zero]
    rfl
  | setSpec spec => rw [metered, metered, metered, zero_add, meter, spec_setSpec]

/-! ### Any number of steps -/

theorem cells_meterAll (deck : Deck) (meterings : List Metering) :
    (deck.meterAll meterings).cells = deck.cells.meterAll meterings := by
  induction meterings generalizing deck with
  | nil => rfl
  | cons metering rest ih =>
    rw [DeckCells.meterAll, List.foldl_cons, ← cells_meter]
    exact ih (deck.meter metering)

theorem place_meterAll (deck : Deck) (meterings : List Metering) :
    (deck.meterAll meterings).clock.index = deck.clock.index ∧
      (deck.meterAll meterings).clock.loop = deck.clock.loop := by
  induction meterings generalizing deck with
  | nil => exact ⟨rfl, rfl⟩
  | cons metering rest ih =>
    obtain ⟨hindex, hloop⟩ := ih (deck.meter metering)
    obtain ⟨hindexFirst, hloopFirst⟩ := deck.place_meter metering
    exact ⟨hindex.trans hindexFirst, hloop.trans hloopFirst⟩

/-- The sums up to any of the steps can be stored, and the counted bytes are never more than a word
can count. -/
def StaysExact (deck : Deck) (meterings : List Metering) : Prop :=
  ∀ before, before <+: meterings →
    Seconds.Fits (deck.exactTime + metered deck.spec before) ∧
      (deck.meterAll before).clock.bytes < 2 ^ 63

theorem StaysExact.exact {meterings : List Metering} (h : deck.StaysExact meterings) :
    deck.Exact := by
  obtain ⟨hfits, hbytes⟩ := h [] (List.nil_prefix)
  rw [metered, add_zero] at hfits
  exact ⟨hfits, hbytes⟩

theorem StaysExact.exactTime_meter {metering : Metering} {rest : List Metering}
    (h : deck.StaysExact (metering :: rest)) :
    (deck.meter metering).exactTime = deck.exactTime + metered deck.spec [metering] :=
  h.exact.exactTime_meter (h [metering] (List.prefix_append _ _)).2

theorem StaysExact.tail {metering : Metering} {rest : List Metering}
    (h : deck.StaysExact (metering :: rest)) : (deck.meter metering).StaysExact rest := by
  intro before hbefore
  have hlonger := h (metering :: before) (List.cons_prefix_cons.mpr ⟨rfl, hbefore⟩)
  rw [metered_cons, ← add_assoc, ← h.exactTime_meter] at hlonger
  exact hlonger

/-- By induction over the steps, from the exact time that each of them leaves. -/
theorem StaysExact.toRat_time_meterAll {meterings : List Metering}
    (h : deck.StaysExact meterings) :
    (deck.meterAll meterings).time.toRat = deck.exactTime + metered deck.spec meterings := by
  induction meterings generalizing deck with
  | nil => rw [metered, add_zero, meterAll, List.foldl_nil, h.exact.toRat_time]
  | cons metering rest ih =>
    rw [metered_cons, ← add_assoc, ← h.exactTime_meter]
    exact ih h.tail

theorem exactTime_seek (deck : Deck) (index : Nat) (position : Seconds) :
    (deck.seek index position).exactTime = position.toRat := by
  change position.toRat + ((0 : Nat) : ℚ) / _ = position.toRat
  rw [Nat.cast_zero, zero_div, add_zero]

/-- Whatever a deck shows, it shows the same after its format has changed, in the same atom and the
same loop, and counts from there on; the same is true of the words in which it is kept. After a
seek, and any counts and changes of the format, the time is exactly the position and the length of
each count at the byte rate it was sent at, if no sum on the way has to be rounded and the bytes
counted in one format are never more than a word can count. -/
theorem time_setSpec_and_meterAll (deck : Deck) (cells : DeckCells) :
    (∀ spec, (deck.setSpec spec).time = deck.time ∧
      (deck.setSpec spec).clock.index = deck.clock.index ∧
      (deck.setSpec spec).clock.loop = deck.clock.loop ∧
      (deck.setSpec spec).clock.bytes = 0 ∧ (deck.setSpec spec).spec = spec) ∧
    (∀ spec, (cells.meter (.setSpec spec)).time = cells.time ∧
      (cells.meter (.setSpec spec)).clock.index = cells.clock.index ∧
      (cells.meter (.setSpec spec)).clock.loop = cells.clock.loop ∧
      (cells.meter (.setSpec spec)).clock.bytes = 0 ∧
      (cells.meter (.setSpec spec)).format.load = spec) ∧
    ∀ index position meterings,
      (∀ before, before <+: meterings →
        Seconds.Fits (position.toRat + metered deck.spec before) ∧
          ((deck.seek index position).meterAll before).clock.bytes < 2 ^ 63) →
      let after := (deck.seek index position).meterAll meterings
      after.time.toRat = position.toRat + metered deck.spec meterings ∧
        after.clock.index = index ∧ after.clock.loop = deck.clock.loop ∧
        ((deck.seek index position).cells.meterAll meterings).time = after.time := by
  refine ⟨fun spec ↦ ⟨deck.time_setSpec spec, rfl, rfl, rfl, deck.spec_setSpec spec⟩,
    fun spec ↦ ⟨cells.time_setSpec spec, rfl, rfl, rfl, SpecCell.load_store cells.format spec⟩, ?_⟩
  intro index position meterings hexact after
  have hstays : (deck.seek index position).StaysExact meterings := by
    intro before hbefore
    rw [exactTime_seek]
    exact hexact before hbefore
  have htime := hstays.toRat_time_meterAll
  rw [exactTime_seek] at htime
  obtain ⟨hindex, hloop⟩ := (deck.seek index position).place_meterAll meterings
  refine ⟨htime, hindex, hloop, ?_⟩
  rw [← cells_meterAll, time_cells]

/-- A deck put at a third of a second counts a frame of the standard format, one of six channels at
48 kHz, and three bytes at four bytes a second. A deck whose time had to be rounded keeps it. -/
theorem time_setSpec_and_meterAll_resampled :
    let deck := Deck.new .standard 1
    let surround : AudioSpec := ⟨.f32le, 48000, 6, by decide, by decide⟩
    let third : Seconds := .ofRat (mkRat 1 3)
    let meterings : List Metering :=
      [.count 8, .setSpec surround, .count 24, .setSpec .oneHertz, .count 3]
    let rounded := (deck.seek 0 (.ofRat (mkRat 1 (10 ^ 15 + 37)))).advance 8
    ((∀ before, before <+: meterings →
        Seconds.Fits (third.toRat + metered deck.spec before) ∧
          ((deck.seek 0 third).meterAll before).clock.bytes < 2 ^ 63) ∧
      ((deck.seek 0 third).meterAll meterings).time.toRat =
        1 / 3 + (8 / 352800 + (24 / 1152000 + 3 / 4))) ∧
    ¬ Seconds.Fits rounded.exactTime ∧ (rounded.setSpec surround).time = rounded.time := by
  intro deck surround third meterings rounded
  have hexact : ∀ before, before <+: meterings →
      Seconds.Fits (third.toRat + metered deck.spec before) ∧
        ((deck.seek 0 third).meterAll before).clock.bytes < 2 ^ 63 := by
    have hall : ∀ before ∈ meterings.inits,
        Seconds.Fits (third.toRat + metered deck.spec before) ∧
          ((deck.seek 0 third).meterAll before).clock.bytes < 2 ^ 63 := by
      decide +kernel
    exact fun before hbefore ↦ hall before ((List.mem_inits _ _).mpr hbefore)
  obtain ⟨-, -, hrun⟩ := time_setSpec_and_meterAll deck deck.cells
  obtain ⟨hkept, -, -⟩ := time_setSpec_and_meterAll rounded rounded.cells
  refine ⟨⟨hexact, ?_⟩, by decide +kernel, (hkept surround).1⟩
  rw [(hrun 0 third meterings hexact).1]
  decide +kernel

end Deck

end TimelineMixer
