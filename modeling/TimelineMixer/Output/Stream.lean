import TimelineMixer.Notice

/-!
# Output streams

An output stream plays what the render path produces. It is opened corked, delivers no callbacks
while corked, and is controlled by the calls below. A call answers with success or a fault, the
stream afterwards and what was recorded.
-/

set_option autoImplicit false
set_option relaxedAutoImplicit false

namespace TimelineMixer

/-- The answer to a call on a stream. -/
structure Reply (σ : Type) where
  outcome : Except Fault Unit
  stream : σ
  notices : List Notice

namespace Reply

variable {σ τ : Type}

/-- The call succeeded. -/
def ok (stream : σ) : Reply σ :=
  ⟨.ok (), stream, []⟩

/-- The call failed. -/
def fail (stream : σ) (cause : Fault) : Reply σ :=
  ⟨.error cause, stream, []⟩

/-- The call failed inside the output. -/
def failOutput (stream : σ) (cause : OutputFault) : Reply σ :=
  fail stream (.output cause)

/-- The same answer of a stream that contains the one called. -/
def map (f : σ → τ) (reply : Reply σ) : Reply τ :=
  ⟨reply.outcome, f reply.stream, reply.notices⟩

/-- The call succeeded. -/
def succeeded (reply : Reply σ) : Bool :=
  reply.outcome.isOk

end Reply

/-- The calls that control a stream. Waiting is bounded by milliseconds. -/
class OutputStream (σ : Type) where
  /-- The name of the output. -/
  name : σ → String
  /-- No callbacks are delivered. -/
  isCorked : σ → Bool
  /-- Opens the stream corked. -/
  start : σ → Reply σ
  /-- Suspends callbacks. -/
  cork : σ → Reply σ
  /-- Resumes callbacks. -/
  uncork : σ → Reply σ
  /-- Discards what was rendered and not yet played. -/
  flush : Nat → σ → Reply σ
  /-- Waits until what was rendered has been played. -/
  drain : Nat → σ → Reply σ
  /-- Releases the stream; a second time does nothing. -/
  close : σ → σ × List Notice

end TimelineMixer
