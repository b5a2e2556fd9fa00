import Mathlib.Data.Set.Card
import Mathlib.Logic.Relation
import TimelineMixer.Proofs.Producer.FrameCount
import TimelineMixer.Proofs.Time.Rounding

/-!
# Whether a fill comes to an end

The loop that generates a key turns as long as its position lies before the limit and a frame is
left (`turn?`). As times are stored in words, there are finitely many of them, so the loop ends
exactly if it never comes back to a position (`ends_iff_never_returns`), and then it turns less
often than the bound of `generateChunks` allows (`ends_iff_length_lt`): the bound takes part in no
loop that ends.

A turn goes forward as long as the next position can be stored, or is far enough from the largest
number of nanoseconds in a word (`lt_iff_of_turn`). So all fills of layers that end within 292 years
end (`fillEnds_iff`), but beyond them a loop may fall back to that largest number and stay there
(`not_fillEnds_beyond_word`).
-/

set_option autoImplicit false
set_option relaxedAutoImplicit false

namespace TimelineMixer

namespace Seconds

/-- The numerator and the denominator of a time, counted from the least ones. -/
def parts (time : Seconds) : Fin (2 ^ 64) × Fin (2 ^ 63) :=
  (⟨(time.num + 2 ^ 63).toNat, by have := time.num_ge; have := time.num_lt; omega⟩,
    ⟨time.den, time.den_lt⟩)

theorem parts_injective : Function.Injective parts := by
  intro first second h
  obtain ⟨hnum, hden⟩ := Prod.ext_iff.mp h
  have hnum := congrArg Fin.val hnum
  have hden := congrArg Fin.val hden
  have hlow := first.num_ge
  have hlow' := second.num_ge
  simp only [parts] at hnum hden
  exact toRat_injective (Rat.ext (by omega) hden)

instance : Finite Seconds :=
  Finite.of_injective parts parts_injective

/-- There are at most as many times as pairs of words. -/
theorem card_le : Nat.card Seconds ≤ 2 ^ 127 := by
  have hpairs := Nat.card_le_card_of_injective parts parts_injective
  rw [Nat.card_prod, Nat.card_fin, Nat.card_fin, ← Nat.pow_add] at hpairs
  exact hpairs

end Seconds

namespace ToneProducer

/-! ### Turns -/

section Turns

/-- The position after a turn of the loop that generates chunks, unless the loop ends before. -/
def turn? (spec : AudioSpec) (chunkFrames : Nat) (limit position : Seconds) : Option Seconds :=
  let frames := min chunkFrames (framesBetween spec position limit)
  if position < limit ∧ frames ≠ 0 then
    some (position + spec.duration (frames * spec.frameBytes))
  else none

variable {spec : AudioSpec} {chunkFrames : Nat} {limit stop position next : Seconds}
  {frequency : Float} {turns more bound : Nat}

/-- The loop ends after so many turns. -/
inductive EndsAfter (spec : AudioSpec) (chunkFrames : Nat) (limit : Seconds) :
    Nat → Seconds → Prop
  | last {position : Seconds} (h : turn? spec chunkFrames limit position = none) :
      EndsAfter spec chunkFrames limit 0 position
  | turn {turns : Nat} {position next : Seconds}
      (h : turn? spec chunkFrames limit position = some next)
      (rest : EndsAfter spec chunkFrames limit turns next) :
      EndsAfter spec chunkFrames limit (turns + 1) position

/-- The loop ends. -/
def Ends (spec : AudioSpec) (chunkFrames : Nat) (limit position : Seconds) : Prop :=
  ∃ turns, EndsAfter spec chunkFrames limit turns position

theorem turn?_eq_some : turn? spec chunkFrames limit position = some next ↔
    let frames := min chunkFrames (framesBetween spec position limit)
    position < limit ∧ frames ≠ 0 ∧
      position + spec.duration (frames * spec.frameBytes) = next := by
  simp only [turn?, Option.ite_none_right_eq_some, Option.some.injEq, and_assoc]

/-- A turn generates a chunk at the position; what follows is generated from the next position. -/
theorem generateChunks_of_turn (h : turn? spec chunkFrames limit position = some next)
    (frequency : Float) (stop : Seconds) (bound : Nat) : ∃ chunk, chunk.pts = position ∧
      generateChunks spec chunkFrames frequency limit stop (bound + 1) position =
        let rest := generateChunks spec chunkFrames frequency limit stop bound next
        { rest with chunks := chunk :: rest.chunks } := by
  obtain ⟨hbefore, hsome, hnext⟩ := turn?_eq_some.mp h
  have hstop := stop_toneChunk spec frequency position
    (min chunkFrames (framesBetween spec position limit))
  rw [hnext] at hstop
  rw [generateChunks_succ hbefore, if_neg hsome]
  dsimp only
  rw [hstop]
  exact ⟨_, rfl, rfl⟩

/-- Without a turn, no chunk is generated. -/
theorem chunks_of_turn?_eq_none (h : turn? spec chunkFrames limit position = none)
    (frequency : Float) (stop : Seconds) (bound : Nat) :
    (generateChunks spec chunkFrames frequency limit stop bound position).chunks = [] := by
  rcases lt_or_ge position limit with hbefore | hbeyond
  · cases bound with
    | zero => rfl
    | succ bound =>
      have hnone : min chunkFrames (framesBetween spec position limit) = 0 := by
        by_contra hsome
        rw [turn?_eq_some.mpr ⟨hbefore, hsome, rfl⟩] at h
        cases h
      rw [generateChunks_succ hbefore, if_pos hnone]
  · rw [generateChunks_of_le hbeyond]

theorem EndsAfter.unique (h : EndsAfter spec chunkFrames limit turns position)
    (hother : EndsAfter spec chunkFrames limit more position) : turns = more := by
  induction h generalizing more with
  | last hnone =>
    cases hother with
    | last => rfl
    | turn hsome => rw [hnone] at hsome; cases hsome
  | turn hsome _ ih =>
    cases hother with
    | last hnone => rw [hnone] at hsome; cases hsome
    | turn hsame hrest =>
      obtain rfl := Option.some.inj (hsome.symm.trans hsame)
      rw [ih hrest]

/-- A loop that ends passes positions from which every smaller number of turns is left. -/
theorem EndsAfter.exists_of_le (h : EndsAfter spec chunkFrames limit turns position)
    (hle : more ≤ turns) : ∃ passed, EndsAfter spec chunkFrames limit more passed := by
  induction h with
  | @last position hnone => exact ⟨position, by rw [Nat.le_zero.mp hle]; exact .last hnone⟩
  | turn hsome hrest ih =>
    rcases Nat.le_succ_iff.mp hle with hfewer | rfl
    · exact ih hfewer
    · exact ⟨_, .turn hsome hrest⟩

/-- The turns that are left distinguish the positions, so there are fewer turns than times. -/
theorem EndsAfter.lt_chunkBound (h : EndsAfter spec chunkFrames limit turns position) :
    turns < chunkBound := by
  choose passed hpassed using fun left : Fin (turns + 1) ↦ h.exists_of_le (Nat.le_of_lt_succ left.2)
  have hinjective : Function.Injective passed := fun first second hsame ↦
    Fin.ext ((hpassed first).unique (hsame ▸ hpassed second))
  have hcard := Nat.card_le_card_of_injective passed hinjective
  rw [Nat.card_fin] at hcard
  exact Nat.lt_of_succ_le (hcard.trans Seconds.card_le)

/-- A loop makes a chunk in each turn, up to the bound. -/
theorem endsAfter_or_length_eq (bound : Nat) (position : Seconds) :
    let made := generateChunks spec chunkFrames frequency limit stop bound position
    made.chunks.length < bound ∧ EndsAfter spec chunkFrames limit made.chunks.length position ∨
      made.chunks.length = bound := by
  dsimp only
  induction bound generalizing position with
  | zero => exact Or.inr rfl
  | succ bound ih =>
    cases hturn : turn? spec chunkFrames limit position with
    | none =>
      rw [chunks_of_turn?_eq_none hturn]
      exact Or.inl ⟨Nat.succ_pos bound, .last hturn⟩
    | some next =>
      obtain ⟨chunk, -, hmade⟩ := generateChunks_of_turn hturn frequency stop bound
      rw [hmade]
      dsimp only
      rw [List.length_cons]
      rcases ih next with ⟨hless, hends⟩ | hfull
      · exact Or.inl ⟨Nat.succ_lt_succ hless, .turn hturn hends⟩
      · exact Or.inr (congrArg Nat.succ hfull)

/-- A loop that ends has a chunk for each turn, if the bound leaves one turn more. -/
theorem EndsAfter.length_eq (h : EndsAfter spec chunkFrames limit turns position)
    (hbound : turns < bound) :
    (generateChunks spec chunkFrames frequency limit stop bound position).chunks.length =
      turns := by
  induction h generalizing bound with
  | last hnone => rw [chunks_of_turn?_eq_none hnone, List.length_nil]
  | turn hsome _ ih =>
    obtain ⟨bound, rfl⟩ := Nat.exists_eq_succ_of_ne_zero (Nat.ne_zero_of_lt hbound)
    obtain ⟨chunk, -, hmade⟩ := generateChunks_of_turn hsome frequency stop bound
    rw [hmade]
    dsimp only
    rw [List.length_cons, ih (Nat.lt_of_succ_lt_succ hbound)]

/-- A loop ends exactly if it is not cut by the bound. -/
theorem ends_iff_length_lt (position : Seconds) : Ends spec chunkFrames limit position ↔
    (generateChunks spec chunkFrames frequency limit stop chunkBound position).chunks.length <
      chunkBound := by
  constructor
  · rintro ⟨turns, h⟩
    rw [h.length_eq h.lt_chunkBound]
    exact h.lt_chunkBound
  · intro hless
    rcases endsAfter_or_length_eq chunkBound position with ⟨-, hends⟩ | hfull
    · exact ⟨_, hends⟩
    · exact absurd hfull hless.ne

/-- A turn takes the loop from one position to the next. -/
def TurnsTo (spec : AudioSpec) (chunkFrames : Nat) (limit position next : Seconds) : Prop :=
  turn? spec chunkFrames limit position = some next

/-- Turns that were made are no longer left. -/
theorem EndsAfter.of_transGen {reached : Seconds}
    (hturns : Relation.TransGen (TurnsTo spec chunkFrames limit) position reached)
    (h : EndsAfter spec chunkFrames limit turns position) :
    ∃ left < turns, EndsAfter spec chunkFrames limit left reached := by
  induction hturns using Relation.TransGen.head_induction_on generalizing turns with
  | single hturn =>
    cases h with
    | last hnone => rw [TurnsTo, hnone] at hturn; cases hturn
    | turn hsome hrest =>
      obtain rfl := Option.some.inj (hsome.symm.trans hturn)
      exact ⟨_, Nat.lt_succ_self _, hrest⟩
  | head hturn _ ih =>
    cases h with
    | last hnone => rw [TurnsTo, hnone] at hturn; cases hturn
    | turn hsome hrest =>
      obtain rfl := Option.some.inj (hsome.symm.trans hturn)
      obtain ⟨left, hless, hleft⟩ := ih hrest
      exact ⟨left, Nat.lt_succ_of_lt hless, hleft⟩

/-- Among finitely many points, steps that come back to none of the points they reach cannot be
taken for ever. -/
theorem acc_of_never_returns {α : Type} [Finite α] {step : α → α → Prop} {start : α}
    (h : ∀ reached, Relation.ReflTransGen step start reached →
      ¬ Relation.TransGen step reached reached) :
    Acc (flip step) start := by
  -- Each step leaves a point behind, so fewer are ahead of it.
  generalize hahead : {later | Relation.TransGen step start later}.ncard = ahead
  induction ahead using Nat.strong_induction_on generalizing start with
  | _ ahead ih =>
    refine Acc.intro start fun next hnext ↦ ih _ ?_
      (fun reached hreached ↦ h reached (.head hnext hreached)) rfl
    have hfewer : {later | Relation.TransGen step next later} ⊂
        {later | Relation.TransGen step start later} :=
      (Set.ssubset_iff_of_subset fun _ hlater ↦ .head hnext hlater).mpr
        ⟨next, .single hnext, h next (.single hnext)⟩
    rw [← hahead]
    exact Set.ncard_lt_ncard hfewer

theorem ends_of_acc (h : Acc (flip (TurnsTo spec chunkFrames limit)) position) :
    Ends spec chunkFrames limit position := by
  induction h with
  | intro position _ ih =>
    cases hturn : turn? spec chunkFrames limit position with
    | none => exact ⟨0, .last hturn⟩
    | some next =>
      obtain ⟨turns, hrest⟩ := ih next hturn
      exact ⟨turns + 1, .turn hturn hrest⟩

/-- A loop ends exactly if it comes back to none of its positions. -/
theorem ends_iff_never_returns : Ends spec chunkFrames limit position ↔
    ∀ reached, Relation.ReflTransGen (TurnsTo spec chunkFrames limit) position reached →
      ¬ Relation.TransGen (TurnsTo spec chunkFrames limit) reached reached := by
  constructor
  · rintro ⟨turns, h⟩ reached hreached hreturn
    obtain ⟨left, hleft⟩ : ∃ left, EndsAfter spec chunkFrames limit left reached := by
      rcases Relation.reflTransGen_iff_eq_or_transGen.mp hreached with rfl | hlater
      · exact ⟨turns, h⟩
      · obtain ⟨left, -, hleft⟩ := h.of_transGen hlater
        exact ⟨left, hleft⟩
    obtain ⟨fewer, hfewer, hagain⟩ := hleft.of_transGen hreturn
    exact hfewer.ne (hagain.unique hleft)
  · exact fun hnever ↦ ends_of_acc (acc_of_never_returns hnever)

/-! ### Going forward -/

/-- A time and a number of frames have small enough denominators for their sum to be counted in
nanoseconds. -/
theorem den_add_frames_le (spec : AudioSpec) (time : Seconds) (frames : Nat) :
    (time.toRat + (frames : ℚ) / spec.rate.toNat).den ≤ Seconds.widestDen := by
  have hlength : ((frames : ℚ) / spec.rate.toNat).den ≤ 2 ^ 32 := by
    have hvalue : (frames : ℚ) / spec.rate.toNat = mkRat frames spec.rate.toNat := by
      rw [Rat.mkRat_eq_div, Int.cast_natCast]
    have hrate : spec.rate.toNat ≠ 0 := Nat.cast_ne_zero.mp spec.rate_cast_pos.ne'
    rw [hvalue, Rat.den_mkRat, if_neg hrate]
    exact (Nat.div_le_self _ _).trans spec.rate.toNat_lt.le
  calc (time.toRat + (frames : ℚ) / spec.rate.toNat).den
      ≤ time.den * ((frames : ℚ) / spec.rate.toNat).den :=
        Nat.le_of_dvd (Nat.mul_pos time.den_pos (Rat.den_pos _)) (Rat.add_den_dvd _ _)
    _ ≤ 2 ^ 63 * 2 ^ 32 := Nat.mul_le_mul time.den_lt.le hlength
    _ ≤ Seconds.widestDen := by decide

theorem framesBetween_mul_lt (spec : AudioSpec) (first last : Seconds) :
    framesBetween spec first last * spec.frameBytes < 2 ^ 63 := by
  refine (Nat.div_mul_le_self _ _).trans_lt ?_
  have hword := clampWord_lt ((last - first).num * spec.bytesPerSecond / (last - first).den)
  rw [AudioSpec.bytesIn]
  split_ifs
  · norm_num
  · refine (Nat.sub_le _ _).trans_lt ?_
    rw [Seconds.floorMul]
    omega

/-- The next position is the exact one as it is stored. -/
theorem toRat_of_turn (h : turn? spec chunkFrames limit position = some next) :
    next.toRat = Seconds.rounded (position.toRat +
      (min chunkFrames (framesBetween spec position limit) : Nat) / spec.rate.toNat) := by
  obtain ⟨-, -, hnext⟩ := turn?_eq_some.mp h
  generalize hframes : min chunkFrames (framesBetween spec position limit) = frames at hnext ⊢
  have hbytes : frames * spec.frameBytes < 2 ^ 63 :=
    (Nat.mul_le_mul_right _ (hframes ▸ min_le_right _ _)).trans_lt (framesBetween_mul_lt spec _ _)
  have hden : (position.toRat + (frames : ℚ) / spec.rate.toNat).den ≤ Seconds.widestDen :=
    den_add_frames_le spec position frames
  rw [← hnext, Seconds.add_eq, spec.toRat_duration hbytes, spec.frames_div,
    Seconds.toRat_ofRat_eq_rounded hden]

/-- A turn goes forward exactly if the next position can be stored, or its nanoseconds, rounded down
and clamped, still lie beyond the position. -/
theorem lt_iff_of_turn (h : turn? spec chunkFrames limit position = some next) :
    let frames := min chunkFrames (framesBetween spec position limit)
    let sum := position.toRat + frames / spec.rate.toNat
    position < next ↔ Seconds.Fits sum ∨
      position.toRat * Seconds.nanos < clampWord ⌊sum * Seconds.nanos⌋ := by
  intro frames sum
  have hnanos : (0 : ℚ) < Seconds.nanos := by norm_num [Seconds.nanos]
  have hframes : 0 < (frames : ℚ) / spec.rate.toNat :=
    div_pos (by exact_mod_cast Nat.pos_of_ne_zero (turn?_eq_some.mp h).2.1) spec.rate_cast_pos
  rw [Seconds.lt_def, toRat_of_turn h, Seconds.rounded]
  split_ifs with hfits
  · exact iff_of_true (by linarith) (Or.inl hfits)
  · rw [lt_div_iff₀ hnanos]
    exact (or_iff_right hfits).symm

section Ordinary

variable (hrate : spec.rate.toNat ≤ Seconds.nanos)
  (hlimit : limit.toRat * Seconds.nanos ≤ 2 ^ 63 - 1)

include hrate hlimit

/-- Up to a gigahertz, and as far as nanoseconds are counted in a word, a turn goes forward by one
at least. -/
theorem floor_add_one_le_of_turn (h : turn? spec chunkFrames limit position = some next) :
    (⌊position.toRat * Seconds.nanos⌋ + 1 : ℤ) ≤ next.toRat * Seconds.nanos := by
  obtain ⟨hbefore, hsome, -⟩ := turn?_eq_some.mp h
  have hnanos : (0 : ℚ) < Seconds.nanos := by norm_num [Seconds.nanos]
  rw [toRat_of_turn h]
  generalize min chunkFrames (framesBetween spec position limit) = frames at hsome ⊢
  have hstep : (1 : ℚ) ≤ frames / spec.rate.toNat * Seconds.nanos := by
    rw [div_mul_eq_mul_div, one_le_div spec.rate_cast_pos]
    exact_mod_cast hrate.trans (Nat.le_mul_of_pos_left _ (Nat.pos_of_ne_zero hsome))
  have hsum : (⌊position.toRat * Seconds.nanos⌋ + 1 : ℤ) ≤
      (position.toRat + frames / spec.rate.toNat) * Seconds.nanos := by
    have hfloor := Int.floor_le (position.toRat * Seconds.nanos)
    rw [add_mul]
    push_cast
    linarith
  rw [Seconds.rounded]
  split_ifs
  · exact hsum
  · -- The clamp takes effect only beyond the nanosecond after the position.
    have hroom : ⌊position.toRat * Seconds.nanos⌋ < 2 ^ 63 - 1 := by
      have hscaled := mul_lt_mul_of_pos_right (Seconds.lt_def.mp hbefore) hnanos
      rw [Int.floor_lt]
      push_cast
      linarith
    have hcount := Int.le_floor.mpr hsum
    rw [div_mul_cancel₀ _ hnanos.ne', Int.cast_le]
    unfold clampWord
    omega

theorem lt_of_turn (h : turn? spec chunkFrames limit position = some next) : position < next := by
  have hnanos : (0 : ℚ) < Seconds.nanos := by norm_num [Seconds.nanos]
  have hstep := floor_add_one_le_of_turn hrate hlimit h
  have hfloor := Int.lt_floor_add_one (position.toRat * Seconds.nanos)
  push_cast at hstep
  exact Seconds.lt_def.mpr (lt_of_mul_lt_mul_right (hfloor.trans_le hstep) hnanos.le)

/-- Then the loop ends, with one turn for each nanosecond at most. -/
theorem exists_endsAfter_le (position : Seconds) :
    ∃ turns, EndsAfter spec chunkFrames limit turns position ∧
      turns ≤ (⌈limit.toRat * Seconds.nanos⌉ - ⌊position.toRat * Seconds.nanos⌋).toNat := by
  generalize hleft :
    (⌈limit.toRat * Seconds.nanos⌉ - ⌊position.toRat * Seconds.nanos⌋).toNat = left
  induction left using Nat.strong_induction_on generalizing position with
  | _ left ih =>
    cases hturn : turn? spec chunkFrames limit position with
    | none => exact ⟨0, .last hturn, Nat.zero_le _⟩
    | some next =>
      have hnanos : (0 : ℚ) < Seconds.nanos := by norm_num [Seconds.nanos]
      have hstep := Int.le_floor.mpr (floor_add_one_le_of_turn hrate hlimit hturn)
      have hbefore : ⌊position.toRat * Seconds.nanos⌋ < ⌈limit.toRat * Seconds.nanos⌉ := by
        rw [Int.floor_lt]
        exact (mul_lt_mul_of_pos_right (Seconds.lt_def.mp (turn?_eq_some.mp hturn).1)
          hnanos).trans_le (Int.le_ceil _)
      obtain ⟨turns, hrest, hfewer⟩ := ih _ (by omega) next rfl
      exact ⟨turns + 1, .turn hturn hrest, by omega⟩

end Ordinary

end Turns

/-! ### The loops of a fill -/

section Fill

/-- A fill runs a loop for a key, from a position to a limit: in its own pass for the first listing
of a layer that is heard up to the lead, and if the lead reaches past the end of the timeline, in
the next pass as well. -/
inductive Runs (producer : ToneProducer) (deck : Deck) : QueueKey → Seconds → Seconds → Prop
  | current {layer : Layer}
      (h : deck.timeline.FirstHeard deck.time (deck.time + producer.lead) layer) :
      Runs producer deck ⟨layer.id, deck.clock.loop⟩
        ((producer.positions.lookup ⟨layer.id, deck.clock.loop⟩).getD (max layer.start deck.time))
        (min (deck.time + producer.lead) layer.stop)
  | next {layer : Layer} {start stop : Seconds} (hstart : deck.timeline.start? = some start)
      (hstop : deck.timeline.stop? = some stop) (hover : stop < deck.time + producer.lead)
      (h : deck.timeline.FirstHeard start (start + (deck.time + producer.lead - stop)) layer) :
      Runs producer deck ⟨layer.id, deck.clock.loop + 1⟩
        ((producer.positions.lookup ⟨layer.id, deck.clock.loop + 1⟩).getD (max layer.start start))
        (min (start + (deck.time + producer.lead - stop)) layer.stop)

/-- All loops of a fill end. -/
def FillEnds (producer : ToneProducer) (deck : Deck) : Prop :=
  ∀ key position limit, Runs producer deck key position limit →
    Ends deck.spec producer.chunkFrames limit position

variable {producer : ToneProducer} {deck : Deck} {key : QueueKey} {position limit : Seconds}

/-- What a key gets is generated in its loop. -/
theorem Runs.chunksFor_eq (h : Runs producer deck key position limit) : ∃ frequency stop,
    chunksFor key (producer.plan deck).1 = (generateChunks deck.spec producer.chunkFrames frequency
      limit stop chunkBound position).chunks := by
  cases h with
  | current h =>
    obtain ⟨index, hmade, -⟩ := plan_firstHeard producer h
    exact ⟨_, _, hmade⟩
  | next hstart hstop hover h =>
    obtain ⟨index, hmade⟩ := plan_next_firstHeard producer hstart hstop hover h
    exact ⟨_, _, hmade⟩

/-- A key without a loop gets nothing. -/
theorem exists_runs_or_chunksFor_eq_nil (producer : ToneProducer) (deck : Deck) (key : QueueKey) :
    (∃ position limit, Runs producer deck key position limit) ∨
      chunksFor key (producer.plan deck).1 = [] := by
  cases hstart : deck.timeline.start? with
  | none =>
    rw [plan_of_start?_eq_none producer hstart]
    exact Or.inr rfl
  | some start =>
    obtain ⟨stop, hstop⟩ := Timeline.exists_stop? hstart
    by_cases hcurrent : key.loop = deck.clock.loop
    · rcases (plan_current producer hstart hstop hcurrent).exists_firstHeard_or_eq_nil with
        ⟨layer, hfirst, rfl⟩ | hnone
      · exact Or.inl ⟨_, _, .current hfirst⟩
      · exact Or.inr hnone
    · by_cases hnext : stop < deck.time + producer.lead ∧ key.loop = deck.clock.loop + 1
      · rcases (plan_next producer hstart hstop hnext.1 hnext.2).exists_firstHeard_or_eq_nil with
          ⟨layer, hfirst, rfl⟩ | hnone
        · exact Or.inl ⟨_, _, .next hstart hstop hnext.1 hfirst⟩
        · exact Or.inr hnone
      · exact Or.inr (plan_untouched producer hstart hstop hcurrent
          fun hover hloop ↦ hnext ⟨hover, hloop⟩).1

/-- The limit of a loop is not beyond the end of some layer. -/
theorem Runs.exists_limit_le (h : Runs producer deck key position limit) :
    ∃ layer ∈ deck.timeline.layers, limit ≤ layer.stop := by
  cases h with
  | current h => exact ⟨_, h.mem, min_le_right _ _⟩
  | next _ _ _ h => exact ⟨_, h.mem, min_le_right _ _⟩

/-- A fill ends exactly if no key gets as many chunks as the bound allows. -/
theorem fillEnds_iff_length_lt : FillEnds producer deck ↔
    ∀ key, (chunksFor key (producer.plan deck).1).length < chunkBound := by
  constructor
  · intro h key
    rcases exists_runs_or_chunksFor_eq_nil producer deck key with ⟨position, limit, hruns⟩ | hnone
    · obtain ⟨frequency, stop, hmade⟩ := hruns.chunksFor_eq
      rw [hmade]
      exact (ends_iff_length_lt position).mp (h key position limit hruns)
    · rw [hnone]
      exact chunkBound_pos
  · intro h key position limit hruns
    obtain ⟨frequency, stop, hmade⟩ := hruns.chunksFor_eq
    have hless := h key
    rw [hmade] at hless
    exact (ends_iff_length_lt position).mpr hless

/-- A turn goes forward exactly if the next position can be stored, or its nanoseconds, rounded down
and clamped, still lie beyond the position. A fill ends exactly if none of its loops comes back to a
position, and exactly if no key gets as many chunks as the bound allows. Up to a gigahertz, and for
layers that end while nanoseconds can be counted in a word, which is for 292 years, all turns go
forward, every fill ends, and a key gets a chunk for each nanosecond at most. -/
theorem fillEnds_iff (producer : ToneProducer) (deck : Deck) :
    (∀ limit position next, TurnsTo deck.spec producer.chunkFrames limit position next →
      let frames := min producer.chunkFrames (framesBetween deck.spec position limit)
      let sum := position.toRat + frames / deck.spec.rate.toNat
      (position < next ↔ Seconds.Fits sum ∨
        position.toRat * Seconds.nanos < clampWord ⌊sum * Seconds.nanos⌋)) ∧
    (FillEnds producer deck ↔ ∀ key position limit, Runs producer deck key position limit →
      ∀ reached, Relation.ReflTransGen (TurnsTo deck.spec producer.chunkFrames limit)
          position reached →
        ¬ Relation.TransGen (TurnsTo deck.spec producer.chunkFrames limit) reached reached) ∧
    (FillEnds producer deck ↔
      ∀ key, (chunksFor key (producer.plan deck).1).length < chunkBound) ∧
    (deck.spec.rate.toNat ≤ Seconds.nanos →
      (∀ layer ∈ deck.timeline.layers, layer.stop.toRat * Seconds.nanos ≤ 2 ^ 63 - 1) →
      FillEnds producer deck ∧ ∀ key position limit, Runs producer deck key position limit →
        (∀ reached next, TurnsTo deck.spec producer.chunkFrames limit reached next →
          reached < next) ∧
        (chunksFor key (producer.plan deck).1).length ≤
          (⌈limit.toRat * Seconds.nanos⌉ - ⌊position.toRat * Seconds.nanos⌋).toNat) := by
  refine ⟨fun limit position next hturn ↦ lt_iff_of_turn hturn, ?_, fillEnds_iff_length_lt,
    fun hrate hstops ↦ ?_⟩
  · exact forall₄_congr fun key position limit _ ↦ ends_iff_never_returns
  · have hlimits : ∀ {key position limit}, Runs producer deck key position limit →
        limit.toRat * Seconds.nanos ≤ 2 ^ 63 - 1 := by
      intro key position limit hruns
      obtain ⟨layer, hlayer, hle⟩ := hruns.exists_limit_le
      exact (mul_le_mul_of_nonneg_right (Seconds.le_def.mp hle) (Nat.cast_nonneg _)).trans
        (hstops layer hlayer)
    refine ⟨fun key position limit hruns ↦ ?_, fun key position limit hruns ↦ ⟨?_, ?_⟩⟩
    · obtain ⟨turns, hends, -⟩ := exists_endsAfter_le hrate (hlimits hruns) position
      exact ⟨turns, hends⟩
    · exact fun reached next hturn ↦ lt_of_turn hrate (hlimits hruns) hturn
    · obtain ⟨turns, hends, hle⟩ := exists_endsAfter_le hrate (hlimits hruns) position
      obtain ⟨frequency, stop, hmade⟩ := hruns.chunksFor_eq
      rw [hmade, hends.length_eq hends.lt_chunkBound]
      exact hle

/-- A timeline of one layer. -/
def soloTimeline (layer : Layer) (horder : layer.Ordered) (hstop : 0 ≤ layer.stop) : Timeline :=
  ⟨[⟨0, layer.stop, [layer]⟩], by simp [Atom.Ordered, horder, hstop]⟩

/-- At 44.1 kHz, filling two seconds of a layer ends. -/
theorem fillEnds_iff_standard :
    let layer : Layer := ⟨.ofNat 1, .ofMillis 500, .ofMillis 7250, 1⟩
    let deck := deckAt .standard (soloTimeline layer (by decide +kernel) (by decide +kernel)) 0
    let producer : ToneProducer := .new (.ofInt 2) 1024
    (deck.spec.rate.toNat ≤ Seconds.nanos ∧
      ∀ layer ∈ deck.timeline.layers, layer.stop.toRat * Seconds.nanos ≤ 2 ^ 63 - 1) ∧
    FillEnds producer deck ∧
      (chunksFor ⟨layer.id, 0⟩ (producer.plan deck).1).length ≤ 1500000000 := by
  intro layer deck producer
  have hrate : deck.spec.rate.toNat ≤ Seconds.nanos := by decide +kernel
  have hstops : ∀ layer ∈ deck.timeline.layers,
      layer.stop.toRat * Seconds.nanos ≤ 2 ^ 63 - 1 := by
    decide +kernel
  have hheard : HeardIn layer deck.time (deck.time + producer.lead) := by decide +kernel
  obtain ⟨-, -, -, hordinary⟩ := fillEnds_iff producer deck
  obtain ⟨hends, hloops⟩ := hordinary hrate hstops
  obtain ⟨-, hlength⟩ := hloops _ _ _ (.current (Timeline.firstHeard_singleton rfl hheard))
  exact ⟨⟨hrate, hstops⟩, hends, hlength.trans (by decide +kernel)⟩

/-- A gigahertz in one channel. -/
def gigahertz : AudioSpec :=
  { AudioSpec.oneHertz with rate := 1000000000, rate_ne := by decide }

/-- Loops may go back, and need not end. Ten billion seconds are too many to be counted in
nanoseconds, so a sum that has to be rounded there falls back to the largest count, and stays there.
Closer to the largest count, a position may fall back to it, and leave it again where the sum
happens to be stored. -/
theorem not_fillEnds_beyond_word :
    (let layer : Layer := ⟨.ofNat 1, .ofRat (mkRat (10 ^ 18 + 1) (10 ^ 8)), .ofInt (10 ^ 10 + 1), 1⟩
      let deck := deckAt .standard (soloTimeline layer (by decide +kernel) (by decide +kernel)) 0
      ¬ FillEnds (.new layer.stop 1024) deck) ∧
    let layer : Layer := ⟨.ofNat 1, .ofRat (mkRat 92233720368547759 (10 ^ 7)),
      .ofRat (mkRat 922337203685477599 (10 ^ 8)), 1⟩
    let deck := deckAt gigahertz (soloTimeline layer (by decide +kernel) (by decide +kernel)) 0
    (chunksFor ⟨layer.id, 0⟩ ((new layer.stop 89).plan deck).1).map Chunk.pts =
      [.ofRat (mkRat 92233720368547759 (10 ^ 7)), .ofRat (mkRat 9223372036854775807 (10 ^ 9)),
        .ofRat (mkRat 9223372036854775896 (10 ^ 9)),
        .ofRat (mkRat 9223372036854775985 (10 ^ 9))] := by
  refine ⟨?_, by decide +kernel⟩
  intro layer deck hends
  let fallen : Seconds := .ofNanos 0x7fffffffffffffff
  have hheard : HeardIn layer deck.time (deck.time + layer.stop) := by decide +kernel
  have hruns : Runs (.new layer.stop 1024) deck ⟨layer.id, 0⟩ (max layer.start deck.time)
      (min (deck.time + layer.stop) layer.stop) :=
    .current (Timeline.firstHeard_singleton rfl hheard)
  have hfalls : TurnsTo deck.spec 1024 (min (deck.time + layer.stop) layer.stop)
      (max layer.start deck.time) fallen := by
    rw [TurnsTo]
    decide +kernel
  have hstays : TurnsTo deck.spec 1024 (min (deck.time + layer.stop) layer.stop) fallen fallen := by
    rw [TurnsTo]
    decide +kernel
  exact ends_iff_never_returns.mp (hends _ _ _ hruns) fallen (.single hfalls) (.single hstays)

end Fill

end ToneProducer

end TimelineMixer
