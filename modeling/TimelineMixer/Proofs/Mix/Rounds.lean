import TimelineMixer.Mix
import TimelineMixer.Proofs.Queue.Balance

/-!
# The rounds of a mix

A region is filled in rounds: each takes bytes off the front chunk of a queue and adds them to the
output where the round before stopped. `Round` records one of them, with the queue it finds. Laid
one after the other, the rounds of the layers of a period are the mixed period, and what they take
from a queue is the beginning of what was unread there (`foldl_mixLayer_rounds`). Balanced queues
are balanced in every round (`Takes.balanced`).
-/

set_option autoImplicit false
set_option relaxedAutoImplicit false

namespace TimelineMixer

/-- Bytes taken off the front chunk of a queue and added to an output. -/
structure Round where
  key : QueueKey
  /-- The queue that the round finds. -/
  queue : LayerQueue
  gain : Float32
  /-- The byte of the output where the round begins. -/
  pos : Nat
  taken : List UInt8

namespace Round

/-- Adds what a round takes to the output. -/
def lay (out : List Float32) (round : Round) : List Float32 :=
  blendAt round.gain out (round.pos / Sample.width)
    ((round.pos + round.taken.length) / Sample.width) round.taken

@[simp] theorem length_foldl_lay (rounds : List Round) (out : List Float32) :
    (rounds.foldl lay out).length = out.length := by
  induction rounds generalizing out with
  | nil => rfl
  | cons round rest ih => simp [ih, lay]

/-- What rounds take from the queue of a key. -/
def takenFrom (key : QueueKey) (rounds : List Round) : List UInt8 :=
  (rounds.filter fun round ↦ round.key = key).flatMap taken

@[simp] theorem takenFrom_append (key : QueueKey) (first second : List Round) :
    takenFrom key (first ++ second) = takenFrom key first ++ takenFrom key second := by
  simp [takenFrom]

theorem takenFrom_of_forall_eq {key : QueueKey} {rounds : List Round}
    (h : ∀ round ∈ rounds, round.key = key) : takenFrom key rounds = rounds.flatMap taken := by
  rw [takenFrom, List.filter_eq_self.mpr (by simpa using h)]

theorem takenFrom_of_forall_ne {key : QueueKey} {rounds : List Round}
    (h : ∀ round ∈ rounds, round.key ≠ key) : takenFrom key rounds = [] := by
  rw [takenFrom, List.filter_eq_nil_iff.mpr (by simpa using h), List.flatMap_nil]

end Round

namespace LayerQueue

/-- The rounds in which an output is filled from byte `pos` up to byte `stop`. -/
def roundsFrom (key : QueueKey) (gain : Float32) (stop : Nat) :
    List Chunk → Cursor → Nat → Nat → List Round
  | [], _, _, _ => []
  | chunk :: rest, cursor, bytes, pos =>
    if pos < stop then
      let taken := (chunk.data.drop (cursor.position chunk)).take (stop - pos)
      ⟨key, ⟨chunk :: rest, cursor, bytes⟩, gain, pos, taken⟩ ::
        if cursor.remaining chunk ≤ stop - pos then
          roundsFrom key gain stop rest .fresh (bytes - chunk.size) (pos + cursor.remaining chunk)
        else []
    else []

section Rounds

variable (key : QueueKey) (gain : Float32) (stop : Nat) (chunks : List Chunk) (cursor : Cursor)
  (bytes pos : Nat)

/-- What a filled region has got is what the rounds lay over it. -/
theorem out_fillFrom (mixed : Nat) (out : List Float32) :
    (fillFrom gain stop chunks cursor bytes pos mixed out).out =
      (roundsFrom key gain stop chunks cursor bytes pos).foldl Round.lay out := by
  induction chunks generalizing cursor bytes pos mixed out with
  | nil =>
    rw [fillFrom]
    split_ifs <;> rfl
  | cons chunk rest ih =>
    rw [fillFrom, roundsFrom]
    by_cases hroom : pos < stop
    · have hfront := length_drop_position cursor chunk
      have htaken : ((chunk.data.drop (cursor.position chunk)).take (stop - pos)).length =
          min (cursor.remaining chunk) (stop - pos) := by
        rw [List.length_take, hfront, Nat.min_comm]
      have hcut : (chunk.data.drop (cursor.position chunk)).take
          (min (cursor.remaining chunk) (stop - pos)) =
            (chunk.data.drop (cursor.position chunk)).take (stop - pos) := by
        rw [← hfront, Nat.min_comm]
        exact List.take_eq_take_min.symm
      simp only [if_pos hroom, List.foldl_cons, Round.lay, htaken, hcut]
      by_cases hpop : cursor.remaining chunk ≤ stop - pos
      · rw [if_pos (Nat.min_eq_left hpop), if_pos hpop, Nat.min_eq_left hpop, ih]
      · rw [if_neg (by omega), if_neg hpop, List.foldl_nil]
    · rw [if_neg hroom, if_neg hroom, List.foldl_nil]

/-- Filling reads the queue up to the end of the region. -/
theorem queue_fillFrom (mixed : Nat) (out : List Float32) :
    (fillFrom gain stop chunks cursor bytes pos mixed out).queue =
      readFrom (stop - pos) chunks cursor bytes := by
  induction chunks generalizing cursor bytes pos mixed out with
  | nil =>
    rw [fillFrom]
    split_ifs <;> rfl
  | cons chunk rest ih =>
    rw [fillFrom, readFrom]
    by_cases hroom : pos < stop
    · simp only [if_pos hroom, if_neg (Nat.sub_ne_zero_of_lt hroom)]
      by_cases hpop : cursor.remaining chunk ≤ stop - pos
      · have hrest : stop - (pos + cursor.remaining chunk) =
            stop - pos - cursor.remaining chunk := by omega
        rw [if_pos (Nat.min_eq_left hpop), if_pos hpop, Nat.min_eq_left hpop, ih, hrest]
      · rw [if_neg (by omega), if_neg hpop, Nat.min_eq_right (by omega)]
    · rw [if_neg hroom, if_pos (by omega)]

/-- The rounds take the unread bytes in their order, up to the end of the region. -/
theorem flatMap_taken_roundsFrom :
    (roundsFrom key gain stop chunks cursor bytes pos).flatMap Round.taken =
      (unreadFrom chunks cursor).take (stop - pos) := by
  induction chunks generalizing cursor bytes pos with
  | nil => simp [roundsFrom, unreadFrom]
  | cons chunk rest ih =>
    rw [roundsFrom]
    by_cases hroom : pos < stop
    · rw [if_pos hroom, List.flatMap_cons]
      by_cases hpop : cursor.remaining chunk ≤ stop - pos
      · have hrest : stop - (pos + cursor.remaining chunk) =
            stop - pos - cursor.remaining chunk := by omega
        rw [if_pos hpop, ih, hrest, take_unreadFrom_of_le rest hpop,
          List.take_of_length_le (by rw [length_drop_position]; exact hpop)]
      · rw [if_neg hpop, take_unreadFrom_of_lt rest (not_le.mp hpop), List.flatMap_nil,
          List.append_nil]
    · have hnone : stop - pos = 0 := by omega
      rw [if_neg hroom, hnone, List.take_zero, List.flatMap_nil]

variable {chunks cursor bytes}

/-- Every round belongs to the key, and finds a balanced queue if the first one does. -/
theorem Balanced.roundsFrom (h : Balanced ⟨chunks, cursor, bytes⟩) :
    ∀ round ∈ roundsFrom key gain stop chunks cursor bytes pos, round.queue.Balanced := by
  induction chunks generalizing cursor bytes pos with
  | nil => exact fun round hround ↦ absurd hround (List.not_mem_nil)
  | cons chunk rest ih =>
    intro round hround
    rw [LayerQueue.roundsFrom] at hround
    split_ifs at hround with hroom hpop
    · rcases List.mem_cons.mp hround with rfl | hlater
      · exact h
      · exact ih _ h.tail round hlater
    · rw [List.mem_singleton.mp hround]
      exact h
    · exact absurd hround List.not_mem_nil

/-- Every round belongs to the key that is filled from. -/
theorem key_of_mem_roundsFrom {round : Round}
    (h : round ∈ LayerQueue.roundsFrom key gain stop chunks cursor bytes pos) :
    round.key = key := by
  induction chunks generalizing cursor bytes pos with
  | nil => exact absurd h List.not_mem_nil
  | cons chunk rest ih =>
    rw [LayerQueue.roundsFrom] at h
    split_ifs at h with hroom hpop
    · rcases List.mem_cons.mp h with rfl | hlater
      · rfl
      · exact ih _ hlater
    · rw [List.mem_singleton.mp h]
    · exact absurd h List.not_mem_nil

/-- Under its own key a queue gives the first unread bytes, under any other key nothing. -/
theorem takenFrom_roundsFrom (other : QueueKey) :
    Round.takenFrom other (LayerQueue.roundsFrom key gain stop chunks cursor bytes pos) =
      if other = key then (unreadFrom chunks cursor).take (stop - pos) else [] := by
  have hkeys : ∀ round ∈ LayerQueue.roundsFrom key gain stop chunks cursor bytes pos,
      round.key = key := fun _ ↦ key_of_mem_roundsFrom key gain stop pos
  split_ifs with hkey
  · rw [Round.takenFrom_of_forall_eq (hkey ▸ hkeys), flatMap_taken_roundsFrom]
  · exact Round.takenFrom_of_forall_ne fun round hround hsame ↦
      hkey (hsame.symm.trans (hkeys round hround))

end Rounds

end LayerQueue

/-! ### Rounds of a store -/

namespace LayerStore

/-- The rounds in which a byte region of an output is filled from the queue of a key. -/
def fillRounds (store : LayerStore) (out : List Float32) (start stop : Nat) (key : QueueKey)
    (gain : Float32) : List Round :=
  let size := Sample.width * out.length
  match store.find? key with
  | none => []
  | some queue =>
    LayerQueue.roundsFrom key gain (Sample.alignDown (min stop size)) queue.chunks queue.cursor
      queue.bytes (Sample.alignDown (min start size))

/-- The rounds in which a layer is mixed into a period that is partly mixed. -/
def layerRounds (spec : AudioSpec) (current next : Seconds) (loop : Nat) (mix : FrameMix)
    (layer : Layer) : List Round :=
  let (start, stop) := layer.region spec current next (Sample.width * mix.out.length)
  if layer.overlaps current next && start < stop then
    mix.store.fillRounds mix.out start stop ⟨layer.id, loop⟩ (Sample.positivePart layer.gain)
  else []

/-- The rounds in which layers are mixed, one after the other. -/
def mixRounds (spec : AudioSpec) (current next : Seconds) (loop : Nat) :
    FrameMix → List Layer → List Round
  | _, [] => []
  | mix, layer :: rest =>
    layerRounds spec current next loop mix layer ++
      mixRounds spec current next loop (mixLayer spec current next loop mix layer) rest

/-- Rounds lead from one store to another: what they take from each queue was its beginning and is
missing now, and they find no queue out of balance if none was before. -/
structure Takes (before : LayerStore) (rounds : List Round) (after : LayerStore) : Prop where
  unread : ∀ key, Round.takenFrom key rounds ++ after.unread key = before.unread key
  balanced : before.Each LayerQueue.Balanced → after.Each LayerQueue.Balanced ∧
    ∀ round ∈ rounds, round.queue.Balanced

namespace Takes

theorem refl (store : LayerStore) : Takes store [] store :=
  ⟨fun _ ↦ rfl, fun h ↦ ⟨h, fun _ hround ↦ absurd hround List.not_mem_nil⟩⟩

theorem trans {a b c : LayerStore} {first second : List Round} (hab : Takes a first b)
    (hbc : Takes b second c) : Takes a (first ++ second) c := by
  refine ⟨fun key ↦ ?_, fun h ↦ ?_⟩
  · rw [Round.takenFrom_append, List.append_assoc, hbc.unread, hab.unread]
  · obtain ⟨hb, hfirst⟩ := hab.balanced h
    obtain ⟨hc, hsecond⟩ := hbc.balanced hb
    exact ⟨hc, fun round hround ↦
      (List.mem_append.mp hround).elim (hfirst round) (hsecond round)⟩

end Takes

section Fill

variable (store : LayerStore) (out : List Float32) (start stop : Nat) (key : QueueKey)
  (gain : Float32)

theorem out_fillLayer : (fillLayer store out start stop key gain).out =
    (store.fillRounds out start stop key gain).foldl Round.lay out := by
  rw [fillLayer, fillRounds]
  cases store.find? key with
  | none => rfl
  | some queue => exact LayerQueue.out_fillFrom _ _ _ _ _ _ _ _ _

theorem takes_fillLayer : Takes store (store.fillRounds out start stop key gain)
    (fillLayer store out start stop key gain).store := by
  rw [fillLayer, fillRounds]
  cases hfind : store.find? key with
  | none => exact Takes.refl store
  | some queue =>
    have hqueue : ∀ first last, (queue.fill gain first last out).queue =
        queue.read (last - first) :=
      fun _ _ ↦ LayerQueue.queue_fillFrom _ _ _ _ _ _ _ _
    dsimp only
    rw [hqueue]
    refine ⟨fun other ↦ ?_, fun h ↦ ⟨?_, ?_⟩⟩
    · rw [LayerQueue.takenFrom_roundsFrom, ← LayerQueue.unread_eq]
      by_cases hkey : other = key
      · rw [if_pos hkey, hkey, unread, find?_modify_self, hfind, unread, hfind]
        simp only [Option.map_some, Option.getD_some, LayerQueue.unread_read,
          List.take_append_drop]
      · rw [if_neg hkey, unread, find?_modify_of_ne store hkey, unread, List.nil_append]
    · exact h.modify key fun _ _ ↦ (h.find? hfind).read _
    · exact LayerQueue.Balanced.roundsFrom _ _ _ _ (h.find? hfind)

end Fill

section Mix

variable (spec : AudioSpec) (current next : Seconds) (loop : Nat)

/-- A layer is mixed in its rounds. -/
theorem mixLayer_rounds (mix : FrameMix) (layer : Layer) :
    (mixLayer spec current next loop mix layer).out =
        (layerRounds spec current next loop mix layer).foldl Round.lay mix.out ∧
      Takes mix.store (layerRounds spec current next loop mix layer)
        (mixLayer spec current next loop mix layer).store := by
  rw [mixLayer, layerRounds]
  obtain ⟨start, stop⟩ := layer.region spec current next (Sample.width * mix.out.length)
  dsimp only
  by_cases hheard : (layer.overlaps current next && decide (start < stop)) = true
  · rw [if_pos hheard, if_pos hheard]
    exact ⟨out_fillLayer _ _ _ _ _ _, takes_fillLayer _ _ _ _ _ _⟩
  · rw [if_neg hheard, if_neg hheard]
    exact ⟨rfl, Takes.refl _⟩

/-- Layers are mixed in the rounds of each. -/
theorem foldl_mixLayer_rounds (mix : FrameMix) (layers : List Layer) :
    (layers.foldl (mixLayer spec current next loop) mix).out =
        (mixRounds spec current next loop mix layers).foldl Round.lay mix.out ∧
      Takes mix.store (mixRounds spec current next loop mix layers)
        (layers.foldl (mixLayer spec current next loop) mix).store := by
  induction layers generalizing mix with
  | nil => exact ⟨rfl, Takes.refl _⟩
  | cons layer rest ih =>
    obtain ⟨hout, htakes⟩ := mixLayer_rounds spec current next loop mix layer
    obtain ⟨hrest, hlater⟩ := ih (mixLayer spec current next loop mix layer)
    refine ⟨?_, htakes.trans hlater⟩
    rw [List.foldl_cons, hrest, hout, mixRounds, List.foldl_append]

end Mix

end LayerStore

end TimelineMixer
