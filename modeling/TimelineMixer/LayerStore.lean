import TimelineMixer.AudioSpec

/-!
# Queued audio

Each layer has a queue of chunks for each pass over the timeline. A queue is read front to back; a
cursor says how much of its front chunk has been read. `LayerStore` holds the queues by key, with
the unread bytes of each (`LayerQueue.unread`) as what a reader still gets to see.
-/

set_option autoImplicit false
set_option relaxedAutoImplicit false

namespace TimelineMixer

/-- A queue belongs to a layer during one pass over the timeline. -/
structure QueueKey where
  layer : LayerId
  loop : Nat
  deriving DecidableEq

/-- The written form of a key. -/
def QueueKey.text (key : QueueKey) : String :=
  key.layer.text ++ "#" ++ toString key.loop

/-- Consecutive sample bytes, the first of them heard at a time. -/
structure Chunk where
  pts : Seconds
  data : List UInt8
  deriving DecidableEq

namespace Chunk

/-- Bytes of the chunk. -/
def size (chunk : Chunk) : Nat :=
  chunk.data.length

/-- Bytes that form whole frames. -/
def ofBytes (spec : AudioSpec) (pts : Seconds) (data : List UInt8) : Except Fault Chunk :=
  if data.length % spec.frameBytes = 0 then .ok ⟨pts, data⟩
  else .error (.misaligned data.length spec.frameBytes)

/-- Samples, which are expected to form whole frames. -/
def ofSamples (pts : Seconds) (samples : List Float32) : Chunk :=
  ⟨pts, Sample.encode samples⟩

end Chunk

/-- How much of the front chunk has been read. -/
structure Cursor where
  offset : Nat
  inProgress : Bool
  deriving DecidableEq

namespace Cursor

/-- Nothing has been read. -/
def fresh : Cursor :=
  ⟨0, false⟩

/-- Bytes of a chunk that are not read yet. -/
def remaining (cursor : Cursor) (chunk : Chunk) : Nat :=
  if cursor.inProgress then chunk.size - cursor.offset else chunk.size

/-- The place in a chunk where reading goes on. -/
def position (cursor : Cursor) (chunk : Chunk) : Nat :=
  if cursor.inProgress then min cursor.offset chunk.size else 0

end Cursor

/-- Chunks in the order of playing, with the sum of their sizes. -/
structure LayerQueue where
  chunks : List Chunk
  cursor : Cursor
  bytes : Nat
  deriving DecidableEq

namespace LayerQueue

/-- The queue without chunks. -/
def empty : LayerQueue :=
  ⟨[], .fresh, 0⟩

/-- Appends a chunk. -/
def push (queue : LayerQueue) (chunk : Chunk) : LayerQueue :=
  { queue with chunks := queue.chunks ++ [chunk], bytes := queue.bytes + chunk.size }

/-- Removes the front chunk and forgets how far it was read. -/
def pop (queue : LayerQueue) : LayerQueue :=
  match queue.chunks with
  | [] => { queue with cursor := .fresh }
  | chunk :: rest => ⟨rest, .fresh, queue.bytes - chunk.size⟩

/-- Bytes that count as queued. -/
def queued (queue : LayerQueue) : Nat :=
  queue.bytes - if queue.cursor.inProgress then queue.cursor.offset else 0

/-- The bytes that are not read yet, in order. -/
def unread (queue : LayerQueue) : List UInt8 :=
  match queue.chunks with
  | [] => []
  | chunk :: rest => chunk.data.drop (queue.cursor.position chunk) ++ rest.flatMap Chunk.data

end LayerQueue

/-- The queues of all layers, by key. -/
structure LayerStore where
  queues : List (QueueKey × LayerQueue)
  deriving DecidableEq

namespace LayerStore

/-- The store without queues. -/
def empty : LayerStore :=
  ⟨[]⟩

/-- The queue of a key, if there is one. -/
def find? (store : LayerStore) (key : QueueKey) : Option LayerQueue :=
  store.queues.lookup key

/-- Changes the queue of a key, if there is one. -/
def modify (store : LayerStore) (key : QueueKey) (change : LayerQueue → LayerQueue) :
    LayerStore :=
  ⟨store.queues.map fun (k, queue) ↦ if k = key then (k, change queue) else (k, queue)⟩

/-- Appends a chunk to the queue of a key, made if needed. An empty chunk is ignored. -/
def push (store : LayerStore) (key : QueueKey) (chunk : Chunk) : LayerStore :=
  if chunk.size = 0 then store
  else if (store.find? key).isSome then store.modify key fun queue ↦ queue.push chunk
  else ⟨store.queues ++ [(key, LayerQueue.empty.push chunk)]⟩

/-- Appends chunks in order. -/
def pushAll (store : LayerStore) (entries : List (QueueKey × Chunk)) : LayerStore :=
  entries.foldl (fun store (key, chunk) ↦ store.push key chunk) store

/-- There is nothing to read under a key. -/
def isEmpty (store : LayerStore) (key : QueueKey) : Bool :=
  match store.find? key with
  | some queue => queue.chunks.isEmpty
  | none => true

/-- The chunk being read under a key. -/
def front? (store : LayerStore) (key : QueueKey) : Option Chunk :=
  (store.find? key).bind fun queue ↦ queue.chunks.head?

/-- Removes the front chunk of a key, with the number of chunks left. -/
def pop (store : LayerStore) (key : QueueKey) : Nat × LayerStore :=
  let popped := store.modify key LayerQueue.pop
  (((popped.find? key).map fun queue ↦ queue.chunks.length).getD 0, popped)

/-- How far the front chunk of a key was read. -/
def cursor (store : LayerStore) (key : QueueKey) : Cursor :=
  ((store.find? key).map LayerQueue.cursor).getD .fresh

/-- Moves the cursor of a key that has a queue. -/
def setCursor (store : LayerStore) (key : QueueKey) (cursor : Cursor) : LayerStore :=
  store.modify key fun queue ↦ { queue with cursor }

/-- Bytes queued under a key. -/
def queued (store : LayerStore) (key : QueueKey) : Nat :=
  ((store.find? key).map LayerQueue.queued).getD 0

/-- Bytes queued under all keys. -/
def total (store : LayerStore) : Nat :=
  store.queues.foldr (fun entry total ↦ entry.2.queued + total) 0

/-- The unread bytes under a key. -/
def unread (store : LayerStore) (key : QueueKey) : List UInt8 :=
  ((store.find? key).map LayerQueue.unread).getD []

/-- Drops the queues of one pass. -/
def removeLoop (store : LayerStore) (loop : Nat) : LayerStore :=
  ⟨store.queues.filter fun entry ↦ entry.1.loop ≠ loop⟩

/-- Drops the queues of all passes before one. -/
def removeLoopsBefore (store : LayerStore) (loop : Nat) : LayerStore :=
  ⟨store.queues.filter fun entry ↦ loop ≤ entry.1.loop⟩

/-- Takes every chunk of a key, leaving its queue without any. -/
def takeAll (store : LayerStore) (key : QueueKey) : List Chunk × LayerStore :=
  (((store.find? key).map LayerQueue.chunks).getD [],
    store.modify key fun queue ↦ queue.chunks.foldl (fun queue _ ↦ queue.pop) queue)

/-! ### Reading a store back -/

theorem find?_modify_self (store : LayerStore) (key : QueueKey)
    (change : LayerQueue → LayerQueue) :
    (store.modify key change).find? key = (store.find? key).map change := by
  obtain ⟨queues⟩ := store
  induction queues with
  | nil => rfl
  | cons entry rest ih =>
    obtain ⟨k, queue⟩ := entry
    simp only [modify, find?, List.map_cons] at ih ⊢
    by_cases h : k = key
    · simp [h]
    · have other : (key == k) = false := by simpa using Ne.symm h
      simp [h, List.lookup_cons, other, ih]

theorem find?_modify_of_ne (store : LayerStore) {key other : QueueKey} (h : other ≠ key)
    (change : LayerQueue → LayerQueue) :
    (store.modify key change).find? other = store.find? other := by
  obtain ⟨queues⟩ := store
  induction queues with
  | nil => rfl
  | cons entry rest ih =>
    obtain ⟨k, queue⟩ := entry
    simp only [modify, find?, List.map_cons] at ih ⊢
    by_cases same : k = key
    · have differs : (other == k) = false := by simpa [same] using h
      simp [same, List.lookup_cons, ih, same ▸ differs]
    · simp [same, List.lookup_cons, ih]

end LayerStore

end TimelineMixer
