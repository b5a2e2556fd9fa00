import TimelineMixer.Notice

/-!
# Master volume

The last step of a period scales the mixed samples and measures their root mean square. A measure
that is not finite means that the samples are garbage, and the whole period is silenced.
-/

set_option autoImplicit false
set_option relaxedAutoImplicit false

namespace TimelineMixer

/-- A period after the volume was applied. -/
structure Scaled where
  out : List Float32
  /-- The root mean square, or nothing if the period was silenced. -/
  level : Option Float32
  notices : List Notice

/-- The sum of the squares, added up from the first sample. -/
def sumOfSquares (samples : List Float32) : Float :=
  samples.foldl (fun sum sample ↦ sum + sample.toFloat * sample.toFloat) 0

/-- The root mean square of at least one sample. -/
def rootMeanSquare (samples : List Float32) : Float32 :=
  (sumOfSquares samples / Float.ofNat samples.length).sqrt.toFloat32

/-- Scales samples by a volume, or silences them if the result is not finite. -/
def applyVolume (samples : List Float32) (volume : Float32) : Scaled :=
  if samples.isEmpty then ⟨[], some 0, []⟩
  else
    let scaled := samples.map (· * volume)
    let level := rootMeanSquare scaled
    if level.isFinite then ⟨scaled, some level, []⟩
    else
      ⟨List.replicate scaled.length 0, none, [.corruptedBuffer level scaled.length]⟩

@[simp] theorem length_applyVolume (samples : List Float32) (volume : Float32) :
    (applyVolume samples volume).out.length = samples.length := by
  unfold applyVolume
  split
  · next h => simp_all
  · dsimp only; split <;> simp

end TimelineMixer
