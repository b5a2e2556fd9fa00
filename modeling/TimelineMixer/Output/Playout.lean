/-!
# Playout ring

A device callback plays samples from a ring. While the ring holds fewer samples than the callback
wants and has room for a whole period, periods are rendered into it. A flush request discards what
the ring holds before anything is rendered; a draining ring is played out without rendering. What
the ring cannot supply is silence at the end of the buffer.
-/

set_option autoImplicit false
set_option relaxedAutoImplicit false

namespace TimelineMixer

/-- What the control side and the device callback tell each other. -/
structure PlayoutSignals where
  /-- Flush requests so far. -/
  flushRequested : Nat
  /-- The last flush request that was honoured. -/
  flushDone : Nat
  draining : Bool
  /-- Samples in the ring after the last callback. -/
  buffered : Nat
  deriving DecidableEq

/-- Nothing was requested. -/
def PlayoutSignals.idle : PlayoutSignals :=
  ⟨0, 0, false, 0⟩

/-- Rendered samples that wait to be played. -/
structure PlayoutRing where
  /-- Samples of a rendered period. -/
  period : Nat
  /-- Samples that fit into the ring. -/
  capacity : Nat
  waiting : List Float32

/-- A ring and its renderer after a callback. -/
structure PlayoutWrite (ρ : Type) where
  /-- The samples taken from the ring. -/
  played : List Float32
  ring : PlayoutRing
  signals : PlayoutSignals
  renderer : ρ

namespace PlayoutRing

variable {ρ : Type}

/-- An empty ring. -/
def new (period capacity : Nat) : PlayoutRing :=
  ⟨period, capacity, []⟩

/-- Periods that are rendered for a callback: as many as it lacks, but no more than there is room
for. -/
def periodsDue (ring : PlayoutRing) (wanted : Nat) : Nat :=
  let held := ring.waiting.length
  min ((wanted - held + ring.period - 1) / ring.period) ((ring.capacity - held) / ring.period)

/-- Renders periods one after the other. -/
def renderPeriods (render : ρ → List Float32 × ρ) : Nat → ρ → List Float32 × ρ
  | 0, renderer => ([], renderer)
  | count + 1, renderer =>
    let (period, renderer) := render renderer
    let (rest, renderer) := renderPeriods render count renderer
    (period ++ rest, renderer)

/-- Renders the periods that are due for a callback into the ring. -/
def refill (render : ρ → List Float32 × ρ) (wanted : Nat) (ring : PlayoutRing) (renderer : ρ) :
    PlayoutRing × ρ :=
  let (samples, renderer) := renderPeriods render (ring.periodsDue wanted) renderer
  ({ ring with waiting := ring.waiting ++ samples }, renderer)

/-- Discards what the ring holds if a flush was requested. -/
def honourFlush (signals : PlayoutSignals) (ring : PlayoutRing) : PlayoutRing :=
  if signals.flushRequested = signals.flushDone then ring else { ring with waiting := [] }

/-- Serves a callback that wants some samples. -/
def write (render : ρ → List Float32 × ρ) (signals : PlayoutSignals) (wanted : Nat)
    (ring : PlayoutRing) (renderer : ρ) : PlayoutWrite ρ :=
  let ring := ring.honourFlush signals
  let (ring, renderer) :=
    if signals.draining then (ring, renderer) else ring.refill render wanted renderer
  let left := ring.waiting.drop wanted
  { played := ring.waiting.take wanted
    ring := { ring with waiting := left }
    signals :=
      { signals with flushDone := signals.flushRequested, buffered := left.length }
    renderer }

end PlayoutRing

/-- The buffer of a callback: the played samples and silence up to its length. -/
def PlayoutWrite.buffer {ρ : Type} (written : PlayoutWrite ρ) (wanted : Nat) : List Float32 :=
  written.played ++ List.replicate (wanted - written.played.length) 0

theorem PlayoutWrite.length_buffer {ρ : Type} (written : PlayoutWrite ρ) {wanted : Nat}
    (h : written.played.length ≤ wanted) : (written.buffer wanted).length = wanted := by
  simp [buffer]; omega

end TimelineMixer
