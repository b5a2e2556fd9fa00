import TimelineMixer.Mix
import TimelineMixer.Proofs.Producer.Generation
import TimelineMixer.Proofs.Queue.Store

/-!
# The chunks of a key

`LayerStore.chunks` lists the chunks that wait under a key, none for a key without a queue. Pushing
entries appends to it what the entries hold for the key (`chunks_pushAll`), dropping passes empties
it (`chunks_removeLoopsBefore`), and mixing only takes chunks off its front (`chunks_mixFrame`). In
a whole store the unread bytes of the key change in the same way (`Whole.pushAll`,
`unread_removeLoopsBefore`).
-/

set_option autoImplicit false
set_option relaxedAutoImplicit false

namespace TimelineMixer

open ToneProducer

namespace LayerQueue

/-- Filling takes chunks off the front. -/
theorem chunks_fillFrom (gain : Float32) (stop : Nat) (chunks : List Chunk) (cursor : Cursor)
    (bytes pos mixed : Nat) (out : List Float32) :
    (fillFrom gain stop chunks cursor bytes pos mixed out).queue.chunks <:+ chunks := by
  induction chunks generalizing cursor bytes pos mixed out with
  | nil =>
    rw [fillFrom]
    split_ifs <;> exact List.suffix_rfl
  | cons chunk rest ih =>
    rw [fillFrom]
    dsimp only
    split_ifs with hroom hpop
    · exact (ih _ _ _ _ _).trans (List.suffix_cons chunk rest)
    · exact List.suffix_rfl
    · exact List.suffix_rfl

end LayerQueue

namespace LayerStore

/-- The chunks under a key that are not read to their end, in order. -/
def chunks (store : LayerStore) (key : QueueKey) : List Chunk :=
  ((store.find? key).map LayerQueue.chunks).getD []

@[simp] theorem chunks_empty (key : QueueKey) : empty.chunks key = [] :=
  rfl

theorem chunks_modify_self (store : LayerStore) (key : QueueKey)
    (change : LayerQueue → LayerQueue) :
    (store.modify key change).chunks key =
      ((store.find? key).map fun queue ↦ (change queue).chunks).getD [] := by
  rw [chunks, find?_modify_self, Option.map_map]
  rfl

theorem chunks_modify_of_ne (store : LayerStore) {key other : QueueKey} (h : other ≠ key)
    (change : LayerQueue → LayerQueue) :
    (store.modify key change).chunks other = store.chunks other := by
  rw [chunks, find?_modify_of_ne store h, chunks]

theorem chunks_push_self (store : LayerStore) (key : QueueKey) {chunk : Chunk}
    (hchunk : 0 < chunk.size) :
    (store.push key chunk).chunks key = store.chunks key ++ [chunk] := by
  rw [push, if_neg hchunk.ne']
  cases hfind : store.find? key with
  | none =>
    have hnone : store.queues.lookup key = none := hfind
    simp [chunks, find?, List.lookup_append, hnone, LayerQueue.push, LayerQueue.empty]
  | some queue =>
    rw [if_pos Option.isSome_some, chunks_modify_self, chunks, hfind]
    rfl

theorem chunks_push_of_ne (store : LayerStore) {key other : QueueKey} (h : other ≠ key)
    (chunk : Chunk) : (store.push key chunk).chunks other = store.chunks other := by
  rw [push]
  split_ifs with hempty hfound
  · rfl
  · exact chunks_modify_of_ne store h _
  · have hother : (other == key) = false := by simpa using h
    simp [chunks, find?, List.lookup_append, List.lookup_cons, hother]

/-- Pushed entries stand behind what waited under their keys. -/
theorem chunks_pushAll (store : LayerStore) {entries : List (QueueKey × Chunk)}
    (hentries : ∀ entry ∈ entries, 0 < entry.2.size) (key : QueueKey) :
    (store.pushAll entries).chunks key = store.chunks key ++ chunksFor key entries := by
  induction entries generalizing store with
  | nil => simp [pushAll, chunksFor]
  | cons entry rest ih =>
    have hrest := ih (store.push entry.1 entry.2)
      fun other hother ↦ hentries other (List.mem_cons_of_mem _ hother)
    have hsplit : chunksFor key (entry :: rest) =
        chunksFor key [entry] ++ chunksFor key rest := chunksFor_append key [entry] rest
    change ((store.push entry.1 entry.2).pushAll rest).chunks key = _
    rw [hrest, hsplit, ← List.append_assoc]
    congr 1
    by_cases hkey : entry.1 = key
    · rw [← hkey, chunks_push_self _ _ (hentries entry List.mem_cons_self)]
      simp [chunksFor]
    · rw [chunks_push_of_ne _ (Ne.symm hkey)]
      simp [chunksFor, hkey]

/-- Dropping the passes before one empties their keys and leaves the others. -/
theorem chunks_removeLoopsBefore (store : LayerStore) (loop : Nat) (key : QueueKey) :
    (store.removeLoopsBefore loop).chunks key =
      if loop ≤ key.loop then store.chunks key else [] := by
  have hkept := lookup_filter_keys store.queues (fun key ↦ decide (loop ≤ key.loop)) key
  rw [chunks, find?, removeLoopsBefore, hkept]
  by_cases hloop : loop ≤ key.loop
  · simp [hloop, chunks, find?]
  · simp [hloop]

/-! ### Unread bytes -/

/-- Pushed entries of whole samples keep a store whole, and are read after what waits. -/
theorem Whole.pushAll {store : LayerStore} (h : store.Whole) {entries : List (QueueKey × Chunk)}
    (hentries : ∀ entry ∈ entries, Sample.width ∣ entry.2.size) :
    (store.pushAll entries).Whole ∧ ∀ key, (store.pushAll entries).unread key =
      store.unread key ++ (chunksFor key entries).flatMap Chunk.data := by
  induction entries generalizing store with
  | nil => exact ⟨h, fun key ↦ by simp [LayerStore.pushAll, chunksFor]⟩
  | cons entry rest ih =>
    obtain ⟨hwhole, hunread⟩ := ih (h.push entry.1 (hentries entry List.mem_cons_self))
      fun other hother ↦ hentries other (List.mem_cons_of_mem _ hother)
    refine ⟨hwhole, fun key ↦ ?_⟩
    have hsplit : chunksFor key (entry :: rest) =
        chunksFor key [entry] ++ chunksFor key rest := chunksFor_append key [entry] rest
    change ((store.push entry.1 entry.2).pushAll rest).unread key = _
    rw [hunread, hsplit, List.flatMap_append, ← List.append_assoc]
    congr 1
    by_cases hkey : entry.1 = key
    · rw [← hkey, h.unread_push_self]
      simp [chunksFor]
    · rw [unread_push_of_ne _ (Ne.symm hkey)]
      simp [chunksFor, hkey]

theorem Whole.removeLoopsBefore {store : LayerStore} (h : store.Whole) (loop : Nat) :
    (store.removeLoopsBefore loop).Whole :=
  whole_iff_each.mpr ((whole_iff_each.mp h).filter _)

/-- Dropping the passes before one leaves what is unread of the others. -/
theorem unread_removeLoopsBefore (store : LayerStore) {loop : Nat} {key : QueueKey}
    (h : loop ≤ key.loop) : (store.removeLoopsBefore loop).unread key = store.unread key := by
  have hkept := lookup_filter_keys store.queues (fun key ↦ decide (loop ≤ key.loop)) key
  rw [if_pos (by simpa using h)] at hkept
  rw [unread, find?, LayerStore.removeLoopsBefore, hkept, unread, find?]

/-! ### Mixing -/

/-- Filling a region takes chunks off the front of one key. -/
theorem chunks_fillLayer (store : LayerStore) (out : List Float32) (start stop : Nat)
    (key other : QueueKey) (gain : Float32) :
    (fillLayer store out start stop key gain).store.chunks other <:+ store.chunks other := by
  rw [fillLayer]
  cases hfind : store.find? key with
  | none => exact List.suffix_rfl
  | some queue =>
    dsimp only
    by_cases hkey : other = key
    · rw [hkey, chunks_modify_self, chunks, hfind]
      exact LayerQueue.chunks_fillFrom _ _ _ _ _ _ _ _
    · rw [chunks_modify_of_ne _ hkey]

/-- Mixing a period takes chunks off the front of every key. -/
theorem chunks_mixFrame (store : LayerStore) (out : List Float32) (atom : Atom)
    (current next : Seconds) (loop : Nat) (spec : AudioSpec) (key : QueueKey) :
    (mixFrame store out atom current next loop spec).store.chunks key <:+ store.chunks key := by
  have hlayers : ∀ (layers : List Layer) (mix : FrameMix),
      (layers.foldl (mixLayer spec current next loop) mix).store.chunks key <:+
        mix.store.chunks key := by
    intro layers
    induction layers with
    | nil => exact fun _ ↦ List.suffix_rfl
    | cons layer rest ih =>
      intro mix
      refine (ih _).trans ?_
      rw [mixLayer]
      obtain ⟨start, stop⟩ := layer.region spec current next (Sample.width * mix.out.length)
      dsimp only
      by_cases hheard : (layer.overlaps current next && decide (start < stop)) = true
      · rw [if_pos hheard]
        exact chunks_fillLayer _ _ _ _ _ _ _
      · rw [if_neg hheard]
  exact hlayers _ _

end LayerStore

end TimelineMixer
