import Mathlib.Algebra.BigOperators.Finprod
import TimelineMixer.Proofs.Queue.Store

/-!
# Balanced queues

What a queue holds is written down three times: as its chunks, as the cursor in the front one, and
as the sum of their sizes. In a balanced queue the three agree (`LayerQueue.Balanced`). Then neither
subtraction from the sum goes below zero (`Balanced.exact`), and what is counted as queued is what
is unread, for one queue (`Balanced.queued_eq`) and for a store (`Each.total_eq`). Pushing, popping
and reading keep the balance.
-/

set_option autoImplicit false
set_option relaxedAutoImplicit false

namespace TimelineMixer

namespace LayerQueue

/-- No chunk is empty, the byte count is the sum of the sizes, and a cursor in progress stands
inside the front chunk. -/
structure Balanced (queue : LayerQueue) : Prop where
  size_pos : ∀ chunk ∈ queue.chunks, 0 < chunk.size
  bytes_eq : queue.bytes = (queue.chunks.map Chunk.size).sum
  inside : queue.cursor.inProgress = true → ∃ chunk rest, queue.chunks = chunk :: rest ∧
    0 < queue.cursor.offset ∧ queue.cursor.offset < chunk.size
  fresh : queue.cursor.inProgress = false → queue.cursor = .fresh

/-- The byte count covers what is subtracted from it: the size of the front chunk when that is
removed, and what was read of it when the rest is counted. -/
structure Exact (queue : LayerQueue) : Prop where
  pop : ∀ chunk rest, queue.chunks = chunk :: rest → chunk.size ≤ queue.bytes
  queued : (if queue.cursor.inProgress then queue.cursor.offset else 0) ≤ queue.bytes

/-- The bytes of the front chunk that are not read yet. -/
def frontRest (queue : LayerQueue) : List UInt8 :=
  match queue.chunks with
  | [] => []
  | chunk :: _ => chunk.data.drop (queue.cursor.position chunk)

/-- Removing the front chunk takes what was left of it off the unread bytes. -/
theorem frontRest_append_unread_pop (queue : LayerQueue) :
    queue.frontRest ++ queue.pop.unread = queue.unread := by
  obtain ⟨chunks, cursor, bytes⟩ := queue
  match chunks with
  | [] => rfl
  | chunk :: rest => exact congrArg _ ((unread_eq _).trans (unreadFrom_fresh rest))

theorem balanced_empty : empty.Balanced :=
  ⟨by simp [empty], rfl, by simp [empty, Cursor.fresh], fun _ ↦ rfl⟩

namespace Balanced

variable {queue : LayerQueue}

/-- A balanced queue without chunks has not begun to be read. -/
theorem cursor_eq (h : queue.Balanced) (hnone : queue.chunks = []) : queue.cursor = .fresh := by
  apply h.fresh
  by_contra hprogress
  obtain ⟨chunk, rest, hchunks, -⟩ := h.inside (by simpa using hprogress)
  exact List.cons_ne_nil _ _ (hchunks.symm.trans hnone)

/-- The chunks behind the front one are balanced once that is removed. -/
theorem tail {chunk : Chunk} {rest : List Chunk} {cursor : Cursor} {bytes : Nat}
    (h : Balanced ⟨chunk :: rest, cursor, bytes⟩) :
    Balanced ⟨rest, .fresh, bytes - chunk.size⟩ := by
  refine ⟨fun other hother ↦ h.size_pos other (List.mem_cons_of_mem _ hother), ?_,
    by simp [Cursor.fresh], fun _ ↦ rfl⟩
  have hbytes : bytes = chunk.size + (rest.map Chunk.size).sum := h.bytes_eq
  exact Nat.sub_eq_of_eq_add' hbytes

theorem exact (h : queue.Balanced) : queue.Exact := by
  have hfront : ∀ chunk rest, queue.chunks = chunk :: rest → chunk.size ≤ queue.bytes := by
    intro chunk rest hchunks
    rw [h.bytes_eq, hchunks, List.map_cons, List.sum_cons]
    omega
  refine ⟨hfront, ?_⟩
  split_ifs with hprogress
  · obtain ⟨chunk, rest, hchunks, -, hlt⟩ := h.inside hprogress
    exact hlt.le.trans (hfront chunk rest hchunks)
  · exact Nat.zero_le _

/-- What is counted as queued is what is unread. -/
theorem queued_eq (h : queue.Balanced) : queue.queued = queue.unread.length := by
  have hsizes : ∀ chunks : List Chunk,
      (chunks.flatMap Chunk.data).length = (chunks.map Chunk.size).sum :=
    fun chunks ↦ List.length_flatMap
  rw [queued, h.bytes_eq, unread_eq]
  by_cases hprogress : queue.cursor.inProgress = true
  · obtain ⟨chunk, rest, hchunks, hpos, hlt⟩ := h.inside hprogress
    rw [hchunks, unreadFrom, List.length_append, hsizes, length_drop_position, Cursor.remaining,
      if_pos hprogress, if_pos hprogress, List.map_cons, List.sum_cons]
    omega
  · rw [if_neg hprogress, h.fresh (by simpa using hprogress), unreadFrom_fresh, hsizes,
      Nat.sub_zero]

theorem push (h : queue.Balanced) {chunk : Chunk} (hchunk : 0 < chunk.size) :
    (queue.push chunk).Balanced := by
  refine ⟨fun other hother ↦ ?_, ?_, fun hprogress ↦ ?_, h.fresh⟩
  · rcases List.mem_append.mp hother with hold | hnew
    · exact h.size_pos other hold
    · rw [List.mem_singleton.mp hnew]
      exact hchunk
  · change queue.bytes + chunk.size = ((queue.chunks ++ [chunk]).map Chunk.size).sum
    rw [h.bytes_eq]
    simp
  · obtain ⟨front, rest, hchunks, hinside⟩ := h.inside hprogress
    refine ⟨front, rest ++ [chunk], ?_, hinside⟩
    change queue.chunks ++ [chunk] = _
    rw [hchunks, List.cons_append]

theorem pop (h : queue.Balanced) : queue.pop.Balanced := by
  obtain ⟨chunks, cursor, bytes⟩ := queue
  match chunks with
  | [] => exact ⟨h.size_pos, h.bytes_eq, by simp [LayerQueue.pop, Cursor.fresh], fun _ ↦ rfl⟩
  | chunk :: rest => exact h.tail

/-- Reading ends between two chunks, or inside one of them. -/
theorem read (h : queue.Balanced) (count : Nat) : (queue.read count).Balanced := by
  obtain ⟨chunks, cursor, bytes⟩ := queue
  change (readFrom count chunks cursor bytes).Balanced
  induction chunks generalizing count cursor bytes with
  | nil => exact h
  | cons chunk rest ih =>
    rw [readFrom]
    split_ifs with hzero hpop
    · exact h
    · exact ih _ _ _ h.tail
    · rw [remaining_eq] at hpop
      refine ⟨h.size_pos, h.bytes_eq, fun _ ↦ ⟨chunk, rest, rfl, ?_, ?_⟩, fun hfresh ↦ ?_⟩
      · change 0 < cursor.position chunk + count
        omega
      · change cursor.position chunk + count < chunk.size
        omega
      · cases hfresh

theorem unread_push (h : queue.Balanced) (chunk : Chunk) :
    (queue.push chunk).unread = queue.unread ++ chunk.data :=
  unread_push_of_fresh h.cursor_eq chunk

end Balanced

end LayerQueue

namespace LayerStore

/-- The bytes that removing the front chunk of a key takes away unread. -/
def frontRest (store : LayerStore) (key : QueueKey) : List UInt8 :=
  ((store.find? key).map LayerQueue.frontRest).getD []

theorem frontRest_append_unread_pop (store : LayerStore) (key : QueueKey) :
    store.frontRest key ++ (store.pop key).2.unread key = store.unread key := by
  rw [frontRest, unread, pop, find?_modify_self, unread]
  cases store.find? key with
  | none => rfl
  | some queue => exact queue.frontRest_append_unread_pop

theorem unread_pop_of_ne (store : LayerStore) {key other : QueueKey} (h : other ≠ key) :
    (store.pop key).2.unread other = store.unread other := by
  rw [unread, pop, find?_modify_of_ne store h, unread]

/-- The one queue of a key is found under it. -/
theorem find?_of_mem {store : LayerStore} (nodup : (store.queues.map Prod.fst).Nodup)
    {entry : QueueKey × LayerQueue} (hentry : entry ∈ store.queues) :
    store.find? entry.1 = some entry.2 := by
  cases hfind : store.find? entry.1 with
  | none => exact absurd (List.mem_map_of_mem hentry) (not_mem_keys hfind)
  | some queue =>
    have hsame : entry = (entry.1, queue) :=
      List.inj_on_of_nodup_map nodup hentry (mem_of_find? hfind) rfl
    rw [hsame]

/-- What all queues together count as queued is what is unread under all keys. -/
theorem Each.total_eq {store : LayerStore} (h : store.Each LayerQueue.Balanced) :
    store.total = ∑ᶠ key, (store.unread key).length := by
  have hqueued : ∀ entry ∈ store.queues, entry.2.queued = (store.unread entry.1).length := by
    intro entry hentry
    rw [(h.queues entry hentry).queued_eq, unread, find?_of_mem h.nodup hentry]
    rfl
  have htotal : store.total = (store.queues.map fun entry ↦ entry.2.queued).sum := by
    rw [total, List.sum_eq_foldr, List.foldr_map]
  have hsupport : (Function.support fun key ↦ (store.unread key).length) ⊆
      ((store.queues.map Prod.fst).toFinset : Set QueueKey) := by
    intro key hkey
    rw [Finset.mem_coe, List.mem_toFinset]
    by_contra hnone
    have hfind : store.find? key = none := by
      refine List.lookup_eq_none_iff.mpr fun entry hentry ↦ ?_
      simpa using fun hsame : key = entry.1 ↦ hnone (hsame ▸ List.mem_map_of_mem hentry)
    exact hkey (by simp [unread, hfind])
  rw [htotal, List.map_congr_left hqueued, finsum_eq_sum_of_support_subset _ hsupport,
    List.sum_toFinset _ h.nodup, List.map_map]
  rfl

end LayerStore

end TimelineMixer
