import Mathlib.Data.List.Nodup
import Mathlib.Tactic.Common
import TimelineMixer.LayerStore

/-!
# Reading a queue

`LayerQueue.read` takes bytes off the front of a queue, and with them the chunks that are read to
their end. What is left to read is what was left before without its first bytes (`unread_read`),
and reading in two portions is reading once (`read_add`), cursor and byte count included. A store
is read under all keys at once by `LayerStore.read`, for which the same two laws hold.
-/

set_option autoImplicit false
set_option relaxedAutoImplicit false

namespace TimelineMixer

namespace LayerQueue

/-- Takes a number of bytes off chunks, of which the cursor belongs to the first. -/
def readFrom (count : Nat) : List Chunk → Cursor → Nat → LayerQueue
  | [], cursor, bytes => ⟨[], cursor, bytes⟩
  | chunk :: rest, cursor, bytes =>
    if count = 0 then ⟨chunk :: rest, cursor, bytes⟩
    else if cursor.remaining chunk ≤ count then
      readFrom (count - cursor.remaining chunk) rest .fresh (bytes - chunk.size)
    else ⟨chunk :: rest, ⟨cursor.position chunk + count, true⟩, bytes⟩

/-- Takes a number of bytes off the queue, or all there are. -/
def read (queue : LayerQueue) (count : Nat) : LayerQueue :=
  readFrom count queue.chunks queue.cursor queue.bytes

/-- The bytes of chunks that are not read yet; the cursor belongs to the first. -/
def unreadFrom : List Chunk → Cursor → List UInt8
  | [], _ => []
  | chunk :: rest, cursor => chunk.data.drop (cursor.position chunk) ++ rest.flatMap Chunk.data

theorem unread_eq (queue : LayerQueue) : queue.unread = unreadFrom queue.chunks queue.cursor := by
  obtain ⟨chunks, cursor, bytes⟩ := queue
  cases chunks <;> rfl

theorem unreadFrom_fresh (chunks : List Chunk) :
    unreadFrom chunks .fresh = chunks.flatMap Chunk.data := by
  cases chunks <;> rfl

theorem unreadFrom_cons (chunk : Chunk) (rest : List Chunk) (cursor : Cursor) :
    unreadFrom (chunk :: rest) cursor =
      chunk.data.drop (cursor.position chunk) ++ unreadFrom rest .fresh := by
  rw [unreadFrom, unreadFrom_fresh]

theorem remaining_eq (cursor : Cursor) (chunk : Chunk) :
    cursor.remaining chunk = chunk.size - cursor.position chunk := by
  rw [Cursor.remaining, Cursor.position]
  split_ifs <;> omega

theorem length_drop_position (cursor : Cursor) (chunk : Chunk) :
    (chunk.data.drop (cursor.position chunk)).length = cursor.remaining chunk := by
  rw [List.length_drop, remaining_eq, Chunk.size]

section Front

variable {chunk : Chunk} {cursor : Cursor} {count : Nat} (rest : List Chunk)

theorem position_inside (h : count < cursor.remaining chunk) :
    (⟨cursor.position chunk + count, true⟩ : Cursor).position chunk =
      cursor.position chunk + count := by
  rw [remaining_eq] at h
  have hinside : cursor.position chunk + count ≤ chunk.size := by omega
  rw [Cursor.position, if_pos rfl, Nat.min_eq_left hinside]

theorem length_unreadFrom_cons : (unreadFrom (chunk :: rest) cursor).length =
    cursor.remaining chunk + (unreadFrom rest .fresh).length := by
  rw [unreadFrom_cons, List.length_append, length_drop_position]

theorem take_unreadFrom_of_le (h : cursor.remaining chunk ≤ count) :
    (unreadFrom (chunk :: rest) cursor).take count =
      chunk.data.drop (cursor.position chunk) ++
        (unreadFrom rest .fresh).take (count - cursor.remaining chunk) := by
  rw [← length_drop_position] at h
  rw [unreadFrom_cons, List.take_append, List.take_of_length_le h, length_drop_position]

theorem take_unreadFrom_of_lt (h : count < cursor.remaining chunk) :
    (unreadFrom (chunk :: rest) cursor).take count =
      (chunk.data.drop (cursor.position chunk)).take count := by
  rw [← length_drop_position] at h
  rw [unreadFrom_cons, List.take_append_of_le_length (Nat.le_of_lt h)]

end Front

@[simp] theorem readFrom_zero (chunks : List Chunk) (cursor : Cursor) (bytes : Nat) :
    readFrom 0 chunks cursor bytes = ⟨chunks, cursor, bytes⟩ := by
  cases chunks <;> rfl

theorem readFrom_add (first second : Nat) (chunks : List Chunk) (cursor : Cursor) (bytes : Nat) :
    readFrom (first + second) chunks cursor bytes =
      (readFrom first chunks cursor bytes).read second := by
  induction chunks generalizing first cursor bytes with
  | nil => rfl
  | cons chunk rest ih =>
    rcases Nat.eq_zero_or_pos first with rfl | hfirst
    · rw [Nat.zero_add, readFrom_zero]
      rfl
    · have hsum : first + second ≠ 0 := by omega
      rw [readFrom, readFrom, if_neg hsum, if_neg (Nat.ne_of_gt hfirst)]
      by_cases hpop : cursor.remaining chunk ≤ first
      · rw [if_pos hpop, if_pos (by omega), Nat.sub_add_comm hpop, ih]
      · -- The chunk stays after the first portion; the second one finds the cursor inside it.
        have hposition := position_inside (Nat.lt_of_not_le hpop)
        have hplace : (⟨cursor.position chunk + first, true⟩ : Cursor).remaining chunk =
            cursor.remaining chunk - first := by
          rw [remaining_eq, hposition, remaining_eq, Nat.sub_sub]
        rw [if_neg hpop, read, readFrom, hplace, hposition]
        rcases Nat.eq_zero_or_pos second with rfl | hsecond
        · rw [if_pos rfl, if_neg (by omega), Nat.add_zero]
        · rw [if_neg (Nat.ne_of_gt hsecond)]
          by_cases hboth : cursor.remaining chunk ≤ first + second
          · have hleft : first + second - cursor.remaining chunk =
                second - (cursor.remaining chunk - first) := by omega
            rw [if_pos hboth, if_pos (by omega), hleft]
          · rw [if_neg hboth, if_neg (by omega), Nat.add_assoc]

theorem unread_readFrom (count : Nat) (chunks : List Chunk) (cursor : Cursor) (bytes : Nat) :
    (readFrom count chunks cursor bytes).unread = (unreadFrom chunks cursor).drop count := by
  induction chunks generalizing count cursor bytes with
  | nil => simp [readFrom, unread, unreadFrom]
  | cons chunk rest ih =>
    rw [readFrom, unreadFrom, List.drop_append, length_drop_position]
    rcases Nat.eq_zero_or_pos count with rfl | hcount
    · rw [if_pos rfl, Nat.zero_sub, List.drop_zero, List.drop_zero]
      rfl
    · rw [if_neg (Nat.ne_of_gt hcount)]
      by_cases hpop : cursor.remaining chunk ≤ count
      · have hread : (chunk.data.drop (cursor.position chunk)).drop count = [] := by
          rw [List.drop_eq_nil_iff, length_drop_position]
          exact hpop
        rw [if_pos hpop, ih, unreadFrom_fresh, hread, List.nil_append]
      · have hnone : count - cursor.remaining chunk = 0 := by omega
        rw [if_neg hpop, hnone, List.drop_zero, List.drop_drop, unread_eq, unreadFrom,
          position_inside (Nat.lt_of_not_le hpop)]

@[simp] theorem read_zero (queue : LayerQueue) : queue.read 0 = queue :=
  readFrom_zero _ _ _

/-- Reading in two portions is reading once. -/
theorem read_add (queue : LayerQueue) (first second : Nat) :
    queue.read (first + second) = (queue.read first).read second :=
  readFrom_add _ _ _ _ _

@[simp] theorem unread_read (queue : LayerQueue) (count : Nat) :
    (queue.read count).unread = queue.unread.drop count := by
  rw [unread_eq queue]
  exact unread_readFrom _ _ _ _

/-- What is pushed is read after what waits, as nothing is read of a chunk that is not there. -/
theorem unread_push_of_fresh {queue : LayerQueue} (h : queue.chunks = [] → queue.cursor = .fresh)
    (chunk : Chunk) : (queue.push chunk).unread = queue.unread ++ chunk.data := by
  obtain ⟨chunks, cursor, bytes⟩ := queue
  cases chunks with
  | nil =>
    have hfresh : cursor = .fresh := h rfl
    rw [hfresh]
    simp [push, unread, Cursor.position, Cursor.fresh]
  | cons front rest => simp [push, unread]

/-! ### Whole samples -/

/-- Every chunk, and what is read of the front one, is a whole number of samples; of no chunk
nothing is read. -/
structure Whole (queue : LayerQueue) : Prop where
  size : ∀ chunk ∈ queue.chunks, Sample.width ∣ chunk.size
  offset : queue.cursor.inProgress = true → Sample.width ∣ queue.cursor.offset
  fresh : queue.chunks = [] → queue.cursor = .fresh

theorem whole_empty : empty.Whole :=
  ⟨by simp [empty], by simp [empty, Cursor.fresh], fun _ ↦ rfl⟩

namespace Whole

section Front

variable {chunk : Chunk} {rest : List Chunk} {cursor : Cursor} {bytes : Nat}

theorem position_dvd (h : Whole ⟨chunk :: rest, cursor, bytes⟩) :
    Sample.width ∣ cursor.position chunk := by
  rw [Cursor.position]
  split_ifs with hprogress
  · rcases Nat.le_total cursor.offset chunk.size with hle | hle
    · rw [Nat.min_eq_left hle]
      exact h.offset hprogress
    · rw [Nat.min_eq_right hle]
      exact h.size chunk List.mem_cons_self
  · exact Nat.dvd_zero _

theorem remaining_dvd (h : Whole ⟨chunk :: rest, cursor, bytes⟩) :
    Sample.width ∣ cursor.remaining chunk := by
  rw [remaining_eq]
  exact Nat.dvd_sub (h.size chunk List.mem_cons_self) h.position_dvd

theorem tail (h : Whole ⟨chunk :: rest, cursor, bytes⟩) (left : Nat) :
    Whole ⟨rest, .fresh, left⟩ :=
  ⟨fun other hother ↦ h.size other (List.mem_cons_of_mem _ hother), by simp [Cursor.fresh],
    fun _ ↦ rfl⟩

end Front

variable {queue : LayerQueue}

theorem push (h : queue.Whole) {chunk : Chunk} (hchunk : Sample.width ∣ chunk.size) :
    (queue.push chunk).Whole := by
  refine ⟨fun other hother ↦ ?_, h.offset, fun hnone ↦ ?_⟩
  · rcases List.mem_append.mp hother with hold | hnew
    · exact h.size other hold
    · rw [List.mem_singleton.mp hnew]
      exact hchunk
  · exact absurd hnone (List.append_ne_nil_of_right_ne_nil _ (List.cons_ne_nil _ _))

theorem pop (h : queue.Whole) : queue.pop.Whole := by
  obtain ⟨chunks, cursor, bytes⟩ := queue
  cases chunks with
  | nil => exact ⟨h.size, by simp [LayerQueue.pop, Cursor.fresh], fun _ ↦ rfl⟩
  | cons chunk rest => exact h.tail _

theorem read (h : queue.Whole) {count : Nat} (hcount : Sample.width ∣ count) :
    (queue.read count).Whole := by
  obtain ⟨chunks, cursor, bytes⟩ := queue
  change (readFrom count chunks cursor bytes).Whole
  induction chunks generalizing count cursor bytes with
  | nil => exact h
  | cons chunk rest ih =>
    rw [readFrom]
    split_ifs with hzero hpop
    · exact h
    · exact ih (Nat.dvd_sub hcount h.remaining_dvd) _ _ (h.tail _)
    · exact ⟨h.size, fun _ ↦ Nat.dvd_add h.position_dvd hcount, fun hnone ↦ by cases hnone⟩

theorem unread_push (h : queue.Whole) (chunk : Chunk) :
    (queue.push chunk).unread = queue.unread ++ chunk.data :=
  unread_push_of_fresh h.fresh chunk

end Whole

end LayerQueue

end TimelineMixer
