import Mathlib.Algebra.Group.Pi.Basic
import Mathlib.Algebra.GroupWithZero.Nat
import Mathlib.Data.List.Nodup
import TimelineMixer.Proofs.Queue.Reading

/-!
# Reading a store

`LayerStore.read` reads every queue of a store by a count of its own. It obeys the laws of reading
one queue (`unread_read`, `read_add`), and changing one key by a read is reading the store by a
count that is zero at every other key (`modify_read`). `LayerStore.Each` says that a key has one
queue and that a property holds of every queue; the operations keep it if they do so for one queue.
`LayerStore.Whole` is the case of queues of whole samples.
-/

set_option autoImplicit false
set_option relaxedAutoImplicit false

namespace TimelineMixer

namespace LayerStore

/-- Reads every queue by the count of its key. -/
def read (store : LayerStore) (counts : QueueKey → Nat) : LayerStore :=
  ⟨store.queues.map fun entry ↦ (entry.1, entry.2.read (counts entry.1))⟩

theorem find?_read (store : LayerStore) (counts : QueueKey → Nat) (key : QueueKey) :
    (store.read counts).find? key = (store.find? key).map fun queue ↦ queue.read (counts key) := by
  obtain ⟨queues⟩ := store
  induction queues with
  | nil => rfl
  | cons entry rest ih =>
    obtain ⟨k, queue⟩ := entry
    simp only [read, find?, List.map_cons] at ih ⊢
    rw [List.lookup_cons, List.lookup_cons]
    by_cases hkey : key = k
    · simp [hkey]
    · have hother : (key == k) = false := by simpa using hkey
      rw [hother]
      exact ih

@[simp] theorem read_zero (store : LayerStore) : store.read 0 = store := by
  simp [read]

/-- Reading in two portions is reading once. -/
theorem read_add (store : LayerStore) (first second : QueueKey → Nat) :
    store.read (first + second) = (store.read first).read second := by
  simp only [read, List.map_map, Pi.add_apply, LayerQueue.read_add]
  rfl

@[simp] theorem unread_read (store : LayerStore) (counts : QueueKey → Nat) (key : QueueKey) :
    (store.read counts).unread key = (store.unread key).drop (counts key) := by
  rw [unread, unread, find?_read]
  cases store.find? key with
  | none => simp
  | some queue => simp

/-- Changing one queue by a read. -/
theorem modify_read (store : LayerStore) (key : QueueKey) (count : Nat) :
    (store.modify key fun queue ↦ queue.read count) = store.read (Pi.single key count) := by
  simp only [modify, read]
  congr 1
  refine List.map_congr_left fun entry _ ↦ ?_
  by_cases hkey : entry.1 = key
  · rw [if_pos hkey, ← hkey, Pi.single_eq_same]
  · rw [if_neg hkey, Pi.single_eq_of_ne hkey, LayerQueue.read_zero]

/-! ### One queue for a key, whole samples in it -/

/-- A key has one queue, and every queue holds whole samples. -/
structure Whole (store : LayerStore) : Prop where
  nodup : (store.queues.map Prod.fst).Nodup
  queues : ∀ entry ∈ store.queues, entry.2.Whole

theorem mem_of_find? {store : LayerStore} {key : QueueKey} {queue : LayerQueue}
    (h : store.find? key = some queue) : (key, queue) ∈ store.queues := by
  obtain ⟨queues⟩ := store
  obtain ⟨before, after, rfl, -⟩ := List.lookup_eq_some_iff.mp h
  simp

theorem not_mem_keys {store : LayerStore} {key : QueueKey} (h : store.find? key = none) :
    key ∉ store.queues.map Prod.fst := by
  intro hmem
  obtain ⟨entry, hentry, rfl⟩ := List.mem_map.mp hmem
  simpa using List.lookup_eq_none_iff.mp h entry hentry

theorem keys_modify (store : LayerStore) (key : QueueKey) (change : LayerQueue → LayerQueue) :
    (store.modify key change).queues.map Prod.fst = store.queues.map Prod.fst := by
  rw [modify, List.map_map]
  refine List.map_congr_left fun entry _ ↦ ?_
  by_cases hkey : entry.1 = key
  · simp [hkey]
  · simp [hkey]

/-- What is done to the one queue of a key may look only at that queue. -/
theorem modify_congr {store : LayerStore} (nodup : (store.queues.map Prod.fst).Nodup)
    {key : QueueKey} {queue : LayerQueue} (hfind : store.find? key = some queue)
    {first second : LayerQueue → LayerQueue} (h : first queue = second queue) :
    store.modify key first = store.modify key second := by
  simp only [modify]
  congr 1
  refine List.map_congr_left fun entry hentry ↦ ?_
  by_cases hkey : entry.1 = key
  · have hsame : entry = (key, queue) :=
      List.inj_on_of_nodup_map nodup hentry (mem_of_find? hfind) hkey
    rw [hsame, if_pos rfl, if_pos rfl, h]
  · rw [if_neg hkey, if_neg hkey]

theorem modify_of_find?_eq_none {store : LayerStore} {key : QueueKey}
    (h : store.find? key = none) (change : LayerQueue → LayerQueue) :
    store.modify key change = store := by
  have hkeep : ∀ entry ∈ store.queues,
      (if entry.1 = key then (entry.1, change entry.2) else entry) = entry := by
    intro entry hentry
    have hkey : entry.1 ≠ key := fun hkey ↦
      not_mem_keys h (hkey ▸ List.mem_map_of_mem hentry)
    rw [if_neg hkey]
  obtain ⟨queues⟩ := store
  rw [modify]
  congr 1
  exact (List.map_congr_left hkeep).trans (List.map_id _)

/-- A key has one queue, and every queue has a property. -/
structure Each (store : LayerStore) (property : LayerQueue → Prop) : Prop where
  nodup : (store.queues.map Prod.fst).Nodup
  queues : ∀ entry ∈ store.queues, property entry.2

section Each

variable {store : LayerStore} {property : LayerQueue → Prop}

theorem each_empty : empty.Each property :=
  ⟨by simp [empty], by simp [empty]⟩

theorem Each.find? (h : store.Each property) {key : QueueKey} {queue : LayerQueue}
    (hfind : store.find? key = some queue) : property queue :=
  h.queues _ (mem_of_find? hfind)

theorem Each.modify (h : store.Each property) (key : QueueKey) {change : LayerQueue → LayerQueue}
    (hchange : ∀ queue, property queue → property (change queue)) :
    (store.modify key change).Each property := by
  refine ⟨keys_modify store key change ▸ h.nodup, fun entry hentry ↦ ?_⟩
  obtain ⟨⟨k, queue⟩, hold, rfl⟩ := List.mem_map.mp hentry
  by_cases hkey : k = key
  · simp only [if_pos hkey]
    exact hchange queue (h.queues _ hold)
  · simp only [if_neg hkey]
    exact h.queues _ hold

/-- A push makes a queue or changes one; an empty chunk does neither. -/
theorem Each.push (h : store.Each property) (key : QueueKey) {chunk : Chunk}
    (hempty : property .empty)
    (hpush : 0 < chunk.size → ∀ queue, property queue → property (queue.push chunk)) :
    (store.push key chunk).Each property := by
  rw [LayerStore.push]
  split_ifs with hnothing hfound
  · exact h
  · exact h.modify key (hpush (Nat.pos_of_ne_zero hnothing))
  · have hnone : store.find? key = none := by simpa using hfound
    refine ⟨?_, fun entry hentry ↦ ?_⟩
    · rw [List.map_append, List.nodup_append]
      refine ⟨h.nodup, List.nodup_singleton _, fun old hold new hnew hsame ↦ ?_⟩
      rw [List.map_singleton, List.mem_singleton] at hnew
      rw [hsame, hnew] at hold
      exact not_mem_keys hnone hold
    · rcases List.mem_append.mp hentry with hold | hnew
      · exact h.queues entry hold
      · rw [List.mem_singleton.mp hnew]
        exact hpush (Nat.pos_of_ne_zero hnothing) _ hempty

theorem Each.filter (h : store.Each property) (keep : QueueKey × LayerQueue → Bool) :
    Each ⟨store.queues.filter keep⟩ property :=
  ⟨h.nodup.sublist (List.filter_sublist.map _),
    fun entry hentry ↦ h.queues entry (List.mem_of_mem_filter hentry)⟩

end Each

theorem whole_iff_each {store : LayerStore} : store.Whole ↔ store.Each LayerQueue.Whole :=
  ⟨fun h ↦ ⟨h.nodup, h.queues⟩, fun h ↦ ⟨h.nodup, h.queues⟩⟩

theorem whole_empty : empty.Whole :=
  whole_iff_each.mpr each_empty

theorem Whole.find? {store : LayerStore} (h : store.Whole) {key : QueueKey} {queue : LayerQueue}
    (hfind : store.find? key = some queue) : queue.Whole :=
  h.queues _ (mem_of_find? hfind)

theorem Whole.modify {store : LayerStore} (h : store.Whole) (key : QueueKey)
    {change : LayerQueue → LayerQueue} (hchange : ∀ queue, queue.Whole → (change queue).Whole) :
    (store.modify key change).Whole :=
  whole_iff_each.mpr ((whole_iff_each.mp h).modify key hchange)

theorem Whole.push {store : LayerStore} (h : store.Whole) (key : QueueKey) {chunk : Chunk}
    (hchunk : Sample.width ∣ chunk.size) : (store.push key chunk).Whole :=
  whole_iff_each.mpr ((whole_iff_each.mp h).push key LayerQueue.whole_empty
    fun _ _ hqueue ↦ hqueue.push hchunk)

theorem Whole.pop {store : LayerStore} (h : store.Whole) (key : QueueKey) :
    (store.pop key).2.Whole :=
  h.modify key fun _ hqueue ↦ hqueue.pop

theorem Whole.read {store : LayerStore} (h : store.Whole) {counts : QueueKey → Nat}
    (hcounts : ∀ key, Sample.width ∣ counts key) : (store.read counts).Whole := by
  refine ⟨?_, fun entry hentry ↦ ?_⟩
  · have hkeys : (store.read counts).queues.map Prod.fst = store.queues.map Prod.fst := by
      rw [LayerStore.read, List.map_map]
      rfl
    rw [hkeys]
    exact h.nodup
  · obtain ⟨old, hold, rfl⟩ := List.mem_map.mp hentry
    exact (h.queues old hold).read (hcounts _)

/-- Pushed bytes are read after those that wait under the key, if that is so in its queue. -/
theorem unread_push_self (store : LayerStore) (key : QueueKey) (chunk : Chunk)
    (hpush : ∀ queue, store.find? key = some queue →
      (queue.push chunk).unread = queue.unread ++ chunk.data) :
    (store.push key chunk).unread key = store.unread key ++ chunk.data := by
  rw [push]
  split_ifs with hempty hfound
  · rw [List.eq_nil_of_length_eq_zero hempty, List.append_nil]
  · obtain ⟨queue, hqueue⟩ := Option.isSome_iff_exists.mp hfound
    rw [unread, find?_modify_self, unread, hqueue]
    exact hpush queue hqueue
  · have hnone : store.find? key = none := by simpa using hfound
    have hpushed : (LayerQueue.empty.push chunk).unread = chunk.data :=
      LayerQueue.whole_empty.unread_push chunk
    rw [find?] at hnone
    simp [unread, find?, List.lookup_append, hnone, hpushed]

theorem Whole.unread_push_self {store : LayerStore} (h : store.Whole) (key : QueueKey)
    (chunk : Chunk) : (store.push key chunk).unread key = store.unread key ++ chunk.data :=
  LayerStore.unread_push_self store key chunk fun _ hqueue ↦ (h.find? hqueue).unread_push chunk

theorem unread_push_of_ne (store : LayerStore) {key other : QueueKey} (h : other ≠ key)
    (chunk : Chunk) : (store.push key chunk).unread other = store.unread other := by
  rw [push]
  split_ifs with hempty hfound
  · rfl
  · rw [unread, find?_modify_of_ne store h, unread]
  · have hother : (other == key) = false := by simpa using h
    simp [unread, LayerStore.find?, List.lookup_append, List.lookup_cons, hother]

end LayerStore

end TimelineMixer
