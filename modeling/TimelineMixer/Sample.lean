/-!
# Samples and their bytes

Audio is a sequence of 32-bit floats; queues and devices hold it as little-endian bytes. Four bytes
make the number that is the bits of a sample (`ofBytes_eq`), and samples that are written as bytes
are read back with the bits they had (`decode_encode`).
-/

set_option autoImplicit false
set_option relaxedAutoImplicit false

namespace TimelineMixer.Sample

/-- Bytes of a sample. -/
def width : Nat := 4

/-- The little-endian bytes of a sample. -/
def bytes (x : Float32) : List UInt8 :=
  let bits := x.toBits
  [bits.toUInt8, (bits >>> 8).toUInt8, (bits >>> 16).toUInt8, (bits >>> 24).toUInt8]

/-- The sample with the given bytes, lowest first. -/
def ofBytes (a b c d : UInt8) : Float32 :=
  Float32.ofBits
    (a.toUInt32 ||| b.toUInt32 <<< 8 ||| c.toUInt32 <<< 16 ||| d.toUInt32 <<< 24)

/-- The bytes of a row of samples. -/
def encode (samples : List Float32) : List UInt8 :=
  samples.flatMap bytes

/-- The whole samples at the start of a row of bytes. -/
def decode : List UInt8 → List Float32
  | a :: b :: c :: d :: rest => ofBytes a b c d :: decode rest
  | _ => []

@[simp] theorem length_bytes (x : Float32) : (bytes x).length = width :=
  rfl

@[simp] theorem length_encode (samples : List Float32) :
    (encode samples).length = width * samples.length := by
  induction samples with
  | nil => rfl
  | cons x rest ih =>
    have : encode (x :: rest) = bytes x ++ encode rest := rfl
    simp [this, ih, Nat.mul_succ, Nat.add_comm]

@[simp] theorem length_decode (row : List UInt8) : (decode row).length = row.length / width := by
  fun_induction decode row with
  | case1 a b c d rest ih => simp [ih, width]; omega
  | case2 row short =>
    match row, short with
    | [], _ => rfl
    | [_], _ => simp [width]
    | [_, _], _ => simp [width]
    | [_, _, _], _ => simp [width]
    | a :: b :: c :: d :: rest, short => exact absurd rfl (short a b c d rest)

/-- A sample with everything that is not positive, or not a number, replaced by zero. -/
def positivePart (x : Float32) : Float32 :=
  if 0 < x then x else 0

/-- The sample nearest to a float, of two the one with the even significand. -/
def ofFloat (x : Float) : Float32 :=
  .ofModel <| .pack <| match x.toModel.unpack with
    | .finite sign significand exponent _ =>
      Float.Model.UnpackedFloat.round .binary32 sign significand exponent
    | unrounded => unrounded

/-- Rounds a byte count down to whole samples. -/
def alignDown (count : Nat) : Nat :=
  count - count % width

/-! ### Reading back -/

/-- A byte that is put above the bits of a word is added to it. -/
theorem toNat_or_shiftLeft {low shift : UInt32} (hshift : shift.toNat ≤ 24)
    (hlow : low.toNat < 1 <<< shift.toNat) (byte : UInt8) :
    (low ||| byte.toUInt32 <<< shift).toNat = low.toNat + byte.toNat <<< shift.toNat := by
  have hbyte := byte.toNat_lt
  have hpower : 2 ^ shift.toNat ≤ 2 ^ 24 := Nat.pow_le_pow_right (by decide) hshift
  have hroom : byte.toNat <<< shift.toNat < 2 ^ 32 := calc
    byte.toNat <<< shift.toNat = byte.toNat * 2 ^ shift.toNat := Nat.shiftLeft_eq ..
    _ ≤ byte.toNat * 2 ^ 24 := Nat.mul_le_mul_left _ hpower
    _ < 2 ^ 32 := by omega
  have hamount : shift.toNat % 32 = shift.toNat := Nat.mod_eq_of_lt (by omega)
  rw [Nat.one_shiftLeft] at hlow
  rw [UInt32.toNat_or, UInt32.toNat_shiftLeft, UInt8.toNat_toUInt32, hamount,
    Nat.mod_eq_of_lt hroom, Nat.or_comm, ← Nat.shiftLeft_add_eq_or_of_lt hlow, Nat.add_comm]

/-- The bits of a sample are the number that its four bytes make, the lowest first. -/
theorem ofBytes_eq (a b c d : UInt8) :
    ofBytes a b c d = .ofBits
      (.ofNat (a.toNat + 256 * (b.toNat + 256 * (c.toNat + 256 * d.toNat)))) := by
  have ha := a.toNat_lt
  have hb := b.toNat_lt
  have hc := c.toNat_lt
  have hd := d.toNat_lt
  have htwo : (a.toUInt32 ||| b.toUInt32 <<< 8).toNat = a.toNat + b.toNat <<< 8 :=
    toNat_or_shiftLeft (by decide) (by exact ha) b
  have hthree : (a.toUInt32 ||| b.toUInt32 <<< 8 ||| c.toUInt32 <<< 16).toNat =
      a.toNat + b.toNat <<< 8 + c.toNat <<< 16 := by
    rw [← htwo]
    exact toNat_or_shiftLeft (by decide) (by rw [htwo]; simp only [UInt32.reduceToNat]; omega) c
  have hfour : (a.toUInt32 ||| b.toUInt32 <<< 8 ||| c.toUInt32 <<< 16 |||
      d.toUInt32 <<< 24).toNat = a.toNat + b.toNat <<< 8 + c.toNat <<< 16 + d.toNat <<< 24 := by
    rw [← hthree]
    exact toNat_or_shiftLeft (by decide) (by rw [hthree]; simp only [UInt32.reduceToNat]; omega) d
  rw [ofBytes]
  congr 1
  apply UInt32.toNat_inj.mp
  rw [hfour, UInt32.toNat_ofNat']
  omega

/-- The bytes of a sample give its bits back. -/
theorem decode_bytes_append (x : Float32) (rest : List UInt8) :
    decode (bytes x ++ rest) = .ofBits x.toBits :: decode rest := by
  have hbits := x.toBits.toNat_lt
  rw [bytes]
  change ofBytes _ _ _ _ :: decode rest = _
  rw [ofBytes_eq]
  congr 2
  apply UInt32.toNat_inj.mp
  simp only [UInt32.toNat_ofNat', UInt32.toNat_toUInt8, UInt32.toNat_shiftRight,
    UInt32.reduceToNat, Nat.shiftRight_eq_div_pow, Nat.reduceMod, Nat.reducePow]
  omega

/-- A row of samples is read back sample by sample. -/
theorem decode_encode (samples : List Float32) :
    decode (encode samples) = samples.map fun x ↦ .ofBits x.toBits := by
  induction samples with
  | nil => rfl
  | cons x rest ih =>
    have hencode : encode (x :: rest) = bytes x ++ encode rest := rfl
    rw [hencode, decode_bytes_append, ih, List.map_cons]

theorem decode_append {first second : List UInt8} (h : width ∣ first.length) :
    decode (first ++ second) = decode first ++ decode second := by
  fun_induction decode first with
  | case1 a b c d rest ih =>
    have hrest : width ∣ rest.length := by
      simp only [List.length_cons, width] at h ⊢
      omega
    simp only [List.cons_append, decode, ih hrest]
  | case2 row short =>
    obtain _ | ⟨a, _ | ⟨b, _ | ⟨c, _ | ⟨d, rest⟩⟩⟩⟩ := row
    · rfl
    · simp [width] at h
    · simp [width] at h
    · simp [width] at h
    · exact absurd rfl (short a b c d rest)

/-- Cutting bytes between samples cuts the samples there. -/
theorem decode_cut (row : List UInt8) {count : Nat} (h : width ∣ count) :
    decode (row.take count) = (decode row).take (count / width) ∧
      decode (row.drop count) = (decode row).drop (count / width) := by
  rcases Nat.le_total count row.length with hle | hle
  · have hlength : (row.take count).length = count := List.length_take_of_le hle
    have hrow : decode row = decode (row.take count) ++ decode (row.drop count) := by
      rw [← decode_append (hlength.symm ▸ h), List.take_append_drop]
    have hsamples : (decode (row.take count)).length = count / width := by
      rw [length_decode, hlength]
    rw [hrow, List.take_left' hsamples, List.drop_left' hsamples]
    exact ⟨rfl, rfl⟩
  · have hall : (decode row).length ≤ count / width := by
      rw [length_decode]
      exact Nat.div_le_div_right hle
    rw [List.take_of_length_le hle, List.take_of_length_le hall, List.drop_of_length_le hle,
      List.drop_of_length_le hall]
    exact ⟨rfl, rfl⟩

/-- The samples of a row of bytes are made of four bytes each, one after the other. -/
theorem getElem?_decode {row : List UInt8} {k : Nat} (h : k < row.length / width) :
    ∃ a b c d, (row.drop (width * k)).take width = [a, b, c, d] ∧
      (decode row)[k]? = some (ofBytes a b c d) := by
  have hcut : decode (row.drop (width * k)) = (decode row).drop k := by
    rw [(decode_cut row (Nat.dvd_mul_right width k)).2, Nat.mul_div_cancel_left _ (by decide)]
  have hroom : width ≤ (row.drop (width * k)).length := by
    rw [List.length_drop]
    simp only [width] at h ⊢
    omega
  generalize row.drop (width * k) = unread at hcut hroom ⊢
  obtain _ | ⟨a, _ | ⟨b, _ | ⟨c, _ | ⟨d, rest⟩⟩⟩⟩ := unread
  · simp [width] at hroom
  · simp [width] at hroom
  · simp [width] at hroom
  · simp [width] at hroom
  · refine ⟨a, b, c, d, rfl, ?_⟩
    rw [← Nat.add_zero k, ← List.getElem?_drop, ← hcut]
    rfl

end TimelineMixer.Sample
