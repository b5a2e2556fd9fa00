import TimelineMixer.Player

/-!
# Tone producer

A producer that keeps the queue of every audible layer filled with a sine tone, up to a lead ahead
of the clock. It remembers for each queue the time it generates next. When the lead reaches past
the end of the timeline, the beginning of the next pass is generated as well, so that the wrap
plays without a gap.
-/

set_option autoImplicit false
set_option relaxedAutoImplicit false

namespace TimelineMixer

namespace Tone

/-- The frequency of the first layer, in hertz. -/
def baseFrequency : Float := 220

/-- The peak of a tone. -/
def amplitude : Float32 := 0.25

/-- The ratio of a circle's circumference to its diameter. -/
def pi : Float := 3.141592653589793

/-- The frequency of a layer by its place in the timeline; four frequencies take turns. -/
def frequency (index : Nat) : Float :=
  baseFrequency * Float.ofNat (1 + index % 4)

/-- The value of a tone at a time given as a number of seconds. -/
def value (frequency time : Float) : Float32 :=
  amplitude * (2.0 * pi * frequency * time).sin.toFloat32

/-- Interleaved samples of a tone from a time on, the same in every channel. -/
def samples (spec : AudioSpec) (pts : Seconds) (frames : Nat) (frequency : Float) :
    List Float32 :=
  (List.range frames).flatMap fun i ↦
    List.replicate spec.channels.toNat
      (value frequency (pts.toFloat + Float.ofNat i / spec.rate.toFloat))

end Tone

/-- A producer of tones. -/
structure ToneProducer where
  /-- How far ahead of the clock the queues are filled. -/
  lead : Seconds
  /-- Frames of a chunk at most. -/
  chunkFrames : Nat
  /-- The time each queue is generated from next. -/
  positions : List (QueueKey × Seconds)

/-- Generated chunks with the time to go on from. -/
structure Generated where
  position : Seconds
  chunks : List Chunk

/-- The state of generating the layers of one pass. -/
structure Generation where
  positions : List (QueueKey × Seconds)
  /-- Keys of the layers already served. -/
  seen : List QueueKey
  /-- Chunks to be queued, in order. -/
  entries : List (QueueKey × Chunk)

namespace ToneProducer

/-- A producer without positions; a chunk has one frame at least. -/
def new (lead : Seconds) (chunkFrames : Nat) : ToneProducer :=
  ⟨lead, max chunkFrames 1, []⟩

/-- Forgets the positions, so that generating starts from the clock. -/
def reset (producer : ToneProducer) : ToneProducer :=
  { producer with positions := [] }

/-- The whole frames between two times. -/
def framesBetween (spec : AudioSpec) (first last : Seconds) : Nat :=
  spec.bytesIn (last - first) / spec.frameBytes

/-- Generates chunks of a tone from a position up to a limit. A rest of less than a frame is left
for the next time, unless the layer ends there. The bound limits the number of chunks. -/
def generateChunks (spec : AudioSpec) (chunkFrames : Nat) (frequency : Float)
    (limit stop : Seconds) : Nat → Seconds → Generated
  | 0, position => ⟨position, []⟩
  | bound + 1, position =>
    if position < limit then
      let frames := min chunkFrames (framesBetween spec position limit)
      if frames = 0 then ⟨if limit = stop then stop else position, []⟩
      else
        let chunk := Chunk.ofSamples position (Tone.samples spec position frames frequency)
        let rest := generateChunks spec chunkFrames frequency limit stop bound
          (position + spec.duration (frames * spec.frameBytes))
        { rest with chunks := chunk :: rest.chunks }
    else ⟨position, []⟩

/-- As many turns as there are times at most: a generator that takes so many has come back to a
position, and would go on for ever. -/
def chunkBound : Nat :=
  0x80000000000000000000000000000000

/-- Replaces the position of a key. -/
def setPosition (positions : List (QueueKey × Seconds)) (key : QueueKey) (position : Seconds) :
    List (QueueKey × Seconds) :=
  (key, position) :: positions.filter fun entry ↦ entry.1 ≠ key

/-- Generates one layer for a pass between two times, unless it is not heard between them or was
served already under the same key. -/
def generateLayer (spec : AudioSpec) (chunkFrames loop : Nat) (first last : Seconds)
    (generation : Generation) (layer : Layer) (index : Nat) : Generation :=
  let key : QueueKey := ⟨layer.id, loop⟩
  if layer.stop ≤ first ∨ last ≤ layer.start ∨ key ∈ generation.seen then generation
  else
    let limit := min last layer.stop
    let position := (generation.positions.lookup key).getD (max layer.start first)
    let generated := generateChunks spec chunkFrames (Tone.frequency index) limit layer.stop
      chunkBound position
    { positions := setPosition generation.positions key generated.position
      seen := key :: generation.seen
      entries := generation.entries ++ generated.chunks.map fun chunk ↦ (key, chunk) }

/-- Generates the layers of a timeline for a pass between two times. -/
def generate (producer : ToneProducer) (timeline : Timeline) (spec : AudioSpec) (loop : Nat)
    (first last : Seconds) : List (QueueKey × Chunk) × ToneProducer :=
  let generation := timeline.layers.zipIdx.foldl
    (fun generation (layer, index) ↦
      generateLayer spec producer.chunkFrames loop first last generation layer index)
    ⟨producer.positions, [], []⟩
  (generation.entries, { producer with positions := generation.positions })

/-- Generates what is missing up to the lead, in this pass and the next. -/
def plan (producer : ToneProducer) (deck : Deck) : List (QueueKey × Chunk) × ToneProducer :=
  match deck.timeline.start?, deck.timeline.stop? with
  | some start, some stop =>
    let now := deck.time
    let horizon := now + producer.lead
    let (entries, producer) :=
      producer.generate deck.timeline deck.spec deck.clock.loop now horizon
    if stop < horizon then
      let (more, producer) := producer.generate deck.timeline deck.spec (deck.clock.loop + 1)
        start (start + (horizon - stop))
      (entries ++ more, producer)
    else (entries, producer)
  | _, _ => ([], producer)

/-- Queues what is missing up to the lead, with the number of bytes. -/
def fill (producer : ToneProducer) (player : Player) : Nat × ToneProducer × Player :=
  let (entries, producer) := producer.plan player.deck
  if entries.isEmpty then (0, producer, player)
  else
    (entries.foldr (fun entry total ↦ entry.2.size + total) 0, producer,
      player.withStore fun store ↦ store.pushAll entries)

/-- Follows an event: a seek makes all positions void, a wrap those of earlier passes, whose queues
are dropped. -/
def handle (producer : ToneProducer) (player : Player) : Event → ToneProducer × Player
  | .seeked _ _ => (producer.reset, player)
  | .loopWrapped loop =>
    ({ producer with positions := producer.positions.filter fun entry ↦ loop ≤ entry.1.loop },
      player.withStore fun store ↦ store.removeLoopsBefore loop)
  | _ => (producer, player)

end ToneProducer

end TimelineMixer
