import TimelineMixer.Fault
import TimelineMixer.Sample

/-!
# Stream format

An `AudioSpec` is the sample format, rate and channel count of a stream, both numbers positive. It
converts between bytes and time: `duration` is the exact length of a byte count, `bytesIn` the
greatest whole-frame byte count inside a duration. `pack` writes a format into one 64-bit word.
-/

set_option autoImplicit false
set_option relaxedAutoImplicit false

namespace TimelineMixer

/-- Encoding of a sample. -/
inductive SampleFormat where
  /-- Little-endian 32-bit float. -/
  | f32le
  deriving DecidableEq, Inhabited

namespace SampleFormat

/-- Bytes of a sample. -/
def bytes : SampleFormat → Nat
  | f32le => Sample.width

/-- The code in a packed format. -/
def code : SampleFormat → UInt8
  | f32le => 1

/-- The format of a code. -/
def ofCode? (code : UInt8) : Option SampleFormat :=
  if code = 1 then some f32le else none

/-- The name in documents. -/
def name : SampleFormat → String
  | f32le => "f32le"

/-- The format a document names. -/
def ofName? : String → Option SampleFormat
  | "f32le" => some f32le
  | _ => none

/-- The name shown to people. -/
def text : SampleFormat → String
  | f32le => "F32Le"

end SampleFormat

/-- Format, sample rate and channel count of a stream. -/
structure AudioSpec where
  format : SampleFormat
  rate : UInt32
  channels : UInt16
  rate_ne : rate ≠ 0
  channels_ne : channels ≠ 0
  deriving DecidableEq

namespace AudioSpec

/-- Checks the rate first, then the channel count. -/
def make (format : SampleFormat) (rate : UInt32) (channels : UInt16) : Except Fault AudioSpec :=
  if hrate : rate = 0 then .error (.settings .zeroSampleRate)
  else if hchannels : channels = 0 then .error (.settings .zeroChannels)
  else .ok ⟨format, rate, channels, hrate, hchannels⟩

theorem make_self (spec : AudioSpec) :
    make spec.format spec.rate spec.channels = .ok spec := by
  simp [make, spec.rate_ne, spec.channels_ne]

/-- 44.1 kHz stereo. -/
def standard : AudioSpec :=
  ⟨.f32le, 44100, 2, by decide, by decide⟩

instance : Inhabited AudioSpec := ⟨standard⟩

/-- Bytes of a frame, one sample for each channel. -/
def frameBytes (spec : AudioSpec) : Nat :=
  spec.format.bytes * spec.channels.toNat

/-- Bytes of a second. -/
def bytesPerSecond (spec : AudioSpec) : Nat :=
  spec.rate.toNat * spec.frameBytes

theorem frameBytes_pos (spec : AudioSpec) : 0 < spec.frameBytes := by
  have : spec.channels.toNat ≠ 0 := fun h ↦ spec.channels_ne (UInt16.toNat_inj.mp h)
  have : spec.format.bytes = 4 := by cases spec.format; rfl
  rw [frameBytes, this]
  omega

theorem bytesPerSecond_pos (spec : AudioSpec) : 0 < spec.bytesPerSecond := by
  have : spec.rate.toNat ≠ 0 := fun h ↦ spec.rate_ne (UInt32.toNat_inj.mp h)
  exact Nat.mul_pos (by omega) spec.frameBytes_pos

/-! ### Bytes and time -/

/-- The exact length of a byte count; counts beyond 63 bits count as the largest of 63 bits. -/
def duration (spec : AudioSpec) (bytes : Nat) : Seconds :=
  .ofRat (mkRat (min bytes 0x7fffffffffffffff : Nat) spec.bytesPerSecond)

/-- Rounds a byte count down to whole frames. -/
def alignDown (spec : AudioSpec) (bytes : Nat) : Nat :=
  bytes - bytes % spec.frameBytes

/-- The whole frames inside a duration, in bytes; none inside a negative one. -/
def bytesIn (spec : AudioSpec) (length : Seconds) : Nat :=
  if length.num < 0 then 0 else spec.alignDown (length.floorMul spec.bytesPerSecond).toNat

/-! ### Written and packed forms -/

/-- The form shown to people. -/
def text (spec : AudioSpec) : String :=
  let format := spec.format.text
  s!"{format} {spec.rate.toNat}Hz {spec.channels.toNat}ch"

/-- The format in one word: sixteen bits each for encoding and channels, then the rate. -/
def pack (spec : AudioSpec) : UInt64 :=
  spec.format.code.toUInt64 <<< 48 ||| spec.channels.toUInt64 <<< 32 ||| spec.rate.toUInt64

/-- The format a word holds, if it holds one. -/
def unpack? (word : UInt64) : Option AudioSpec := do
  let format ← SampleFormat.ofCode? (word >>> 48).toUInt8
  (make format word.toUInt32 (word >>> 32).toUInt16).toOption

theorem rate_pack (spec : AudioSpec) : spec.pack.toUInt32 = spec.rate := by
  apply UInt32.toBitVec_inj.mp
  ext i hi
  simp [pack]

theorem channels_pack (spec : AudioSpec) : (spec.pack >>> 32).toUInt16 = spec.channels := by
  have clear : ∀ i : Fin 16, (281474976710656#64).getLsbD (32 + i) = false := by decide
  apply UInt16.toBitVec_inj.mp
  ext i hi
  have code : spec.format.code = 1 := by cases spec.format; rfl
  have := clear ⟨i, hi⟩
  simp_all [pack]
  grind

theorem code_pack (spec : AudioSpec) : (spec.pack >>> 48).toUInt8 = spec.format.code := by
  have set : ∀ i : Fin 8, (281474976710656#64).getLsbD (48 + i) = decide (i.val = 0) := by decide
  apply UInt8.toBitVec_inj.mp
  ext i hi
  have code : spec.format.code = 1 := by cases spec.format; rfl
  have := set ⟨i, hi⟩
  have high : spec.rate.toBitVec.getLsbD (48 + i) = false := BitVec.getLsbD_of_ge _ _ (by omega)
  have middle : spec.channels.toBitVec.getLsbD (48 + i - 32) = false :=
    BitVec.getLsbD_of_ge _ _ (by omega)
  simp_all [pack]

/-- A packed format unpacks to itself. -/
theorem unpack?_pack (spec : AudioSpec) : unpack? spec.pack = some spec := by
  have known : SampleFormat.ofCode? spec.format.code = some spec.format := by
    cases spec.format; rfl
  rw [unpack?, code_pack, known, rate_pack, channels_pack]
  simp [make_self, Except.toOption]

end AudioSpec

/-- A cell that holds a format in one word, so that a reader never sees half an update. -/
structure SpecCell where
  word : UInt64

namespace SpecCell

/-- A cell holding a format. -/
def new (spec : AudioSpec) : SpecCell :=
  ⟨spec.pack⟩

/-- The format read from the cell; the standard one if the word holds none. -/
def load (cell : SpecCell) : AudioSpec :=
  (AudioSpec.unpack? cell.word).getD .standard

/-- Replaces the format. -/
def store (_ : SpecCell) (spec : AudioSpec) : SpecCell :=
  ⟨spec.pack⟩

@[simp] theorem load_new (spec : AudioSpec) : (new spec).load = spec := by
  simp [new, load, AudioSpec.unpack?_pack]

@[simp] theorem load_store (cell : SpecCell) (spec : AudioSpec) :
    (cell.store spec).load = spec := by
  simp [store, load, AudioSpec.unpack?_pack]

end SpecCell

end TimelineMixer
