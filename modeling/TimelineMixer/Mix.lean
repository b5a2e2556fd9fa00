import TimelineMixer.LayerStore
import TimelineMixer.Timeline

/-!
# Mixing

Every layer heard in a period adds its queued samples, scaled by its gain, to the output of the
period: `out + gain * sample`. A layer that starts or ends inside the period touches only the whole
frames between its bounds. `LayerQueue.fill` reads one queue, `mixFrame` all layers of an atom.
-/

set_option autoImplicit false
set_option relaxedAutoImplicit false

namespace TimelineMixer

/-- Adds scaled samples to an output, as far as both reach. -/
def blend (gain : Float32) : List Float32 → List Float32 → List Float32
  | out :: outs, sample :: samples => (out + gain * sample) :: blend gain outs samples
  | outs, _ => outs

@[simp] theorem length_blend (gain : Float32) (out samples : List Float32) :
    (blend gain out samples).length = out.length := by
  fun_induction blend gain out samples <;> simp_all

/-- Adds scaled samples to a part of an output. -/
def blendAt (gain : Float32) (out : List Float32) (first last : Nat) (data : List UInt8) :
    List Float32 :=
  out.take first ++ blend gain ((out.drop first).take (last - first)) (Sample.decode data) ++
    (out.drop first).drop (last - first)

@[simp] theorem length_blendAt (gain : Float32) (out : List Float32) (first last : Nat)
    (data : List UInt8) : (blendAt gain out first last data).length = out.length := by
  simp [blendAt]; omega

/-- An output region being filled from a queue. -/
structure Fill where
  out : List Float32
  queue : LayerQueue
  /-- Bytes read from the queue. -/
  mixed : Nat
  /-- The queue had too few bytes. -/
  starved : Bool

namespace LayerQueue

/-- Fills an output from byte `pos` up to byte `stop` with the unread bytes of chunks, of which the
cursor belongs to the first and whose sizes sum up to `bytes`. -/
def fillFrom (gain : Float32) (stop : Nat) (chunks : List Chunk) (cursor : Cursor)
    (bytes pos mixed : Nat) (out : List Float32) : Fill :=
  if pos < stop then
    match chunks with
    | [] => ⟨out, ⟨[], cursor, bytes⟩, mixed, true⟩
    | chunk :: rest =>
      let offset := cursor.position chunk
      let remaining := cursor.remaining chunk
      let take := min remaining (stop - pos)
      let blended := blendAt gain out (pos / Sample.width) ((pos + take) / Sample.width)
        ((chunk.data.drop offset).take take)
      if take = remaining then
        fillFrom gain stop rest .fresh (bytes - chunk.size) (pos + take) (mixed + take) blended
      else
        ⟨blended, ⟨chunk :: rest, ⟨offset + take, true⟩, bytes⟩, mixed + take, false⟩
  else ⟨out, ⟨chunks, cursor, bytes⟩, mixed, false⟩

/-- Fills an output from byte `start` up to byte `stop`. -/
def fill (queue : LayerQueue) (gain : Float32) (start stop : Nat) (out : List Float32) : Fill :=
  fillFrom gain stop queue.chunks queue.cursor queue.bytes start 0 out

end LayerQueue

/-- What mixing one layer did. -/
structure LayerMix where
  out : List Float32
  store : LayerStore
  mixed : Nat
  starved : Bool

/-- Mixes the queue of a key into a byte region of an output. The region is clamped to the output
and rounded down to whole samples. -/
def fillLayer (store : LayerStore) (out : List Float32) (start stop : Nat) (key : QueueKey)
    (gain : Float32) : LayerMix :=
  let size := Sample.width * out.length
  let start := Sample.alignDown (min start size)
  let stop := Sample.alignDown (min stop size)
  match store.find? key with
  | none => ⟨out, store, 0, start < stop⟩
  | some queue =>
    let fill := queue.fill gain start stop out
    ⟨fill.out, store.modify key fun _ ↦ fill.queue, fill.mixed, fill.starved⟩

/-- What mixing a period did. -/
structure FrameMix where
  out : List Float32
  store : LayerStore
  /-- Layers heard in the period. -/
  active : Nat
  /-- Layers whose queue had too few bytes. -/
  starved : Nat
  /-- Bytes read from queues. -/
  mixed : Nat

/-- The bytes of a period between the bounds of a layer. -/
def Layer.region (layer : Layer) (spec : AudioSpec) (current next : Seconds) (size : Nat) :
    Nat × Nat :=
  (min (spec.bytesIn (layer.start - current)) size,
    if next ≤ layer.stop then size else min (spec.bytesIn (layer.stop - current)) size)

/-- Mixes one layer into a period that is partly mixed. -/
def mixLayer (spec : AudioSpec) (current next : Seconds) (loop : Nat) (mix : FrameMix)
    (layer : Layer) : FrameMix :=
  let (start, stop) := layer.region spec current next (Sample.width * mix.out.length)
  if layer.overlaps current next && start < stop then
    let filled := fillLayer mix.store mix.out start stop ⟨layer.id, loop⟩
      (Sample.positivePart layer.gain)
    { out := filled.out
      store := filled.store
      active := mix.active + 1
      starved := mix.starved + if filled.starved then 1 else 0
      mixed := mix.mixed + filled.mixed }
  else mix

/-- Mixes the layers of an atom, in order, into a period between two times. -/
def mixFrame (store : LayerStore) (out : List Float32) (atom : Atom) (current next : Seconds)
    (loop : Nat) (spec : AudioSpec) : FrameMix :=
  atom.layers.foldl (mixLayer spec current next loop) ⟨out, store, 0, 0, 0⟩

end TimelineMixer
