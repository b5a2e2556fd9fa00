import Mathlib.Algebra.Order.Group.Nat
import Mathlib.Algebra.Order.Sub.Basic
import Mathlib.Data.Nat.ModEq
import TimelineMixer.Mix
import TimelineMixer.Proofs.Queue.Store

/-!
# Filling an output

However the chunks of a queue are cut, filling a region adds one row of samples to the output: the
first unread ones, as many as the region takes (`fillFrom_eq`). `overlay` adds a row from a place
on. Rows laid one after the other are one row (`overlay_overlay`), and a row over two outputs is
cut where they meet (`overlay_append`).
-/

set_option autoImplicit false
set_option relaxedAutoImplicit false

namespace TimelineMixer

namespace Sample

theorem alignDown_of_dvd {count : Nat} (h : width ∣ count) : alignDown count = count := by
  rw [alignDown, Nat.mod_eq_zero_of_dvd h, Nat.sub_zero]

theorem width_dvd_alignDown (count : Nat) : width ∣ alignDown count := by
  rw [alignDown, ← Nat.div_mul_self_eq_mod_sub_self]
  exact Nat.dvd_mul_left _ _

end Sample

section Blend

variable (gain : Float32) (out : List Float32)

@[simp] theorem blend_nil : blend gain out [] = out := by
  cases out <;> rfl

@[simp] theorem nil_blend (row : List Float32) : blend gain [] row = [] :=
  rfl

/-- A row cut in two is added to the output cut in two. -/
theorem blend_append (first second : List Float32) :
    blend gain out (first ++ second) =
      blend gain (out.take first.length) first ++ blend gain (out.drop first.length) second := by
  induction first generalizing out with
  | nil => simp
  | cons sample rest ih =>
    cases out with
    | nil => rfl
    | cons x xs => simp [blend, ih]

/-- An output cut in two takes the row cut in two. -/
theorem append_blend (other row : List Float32) :
    blend gain (out ++ other) row =
      blend gain out (row.take out.length) ++ blend gain other (row.drop out.length) := by
  induction out generalizing row with
  | nil => simp
  | cons x xs ih =>
    cases row with
    | nil => simp
    | cons sample rest => simp [blend, ih]

/-- Adds a scaled row to an output from a place on. -/
def overlay (first : Nat) (row : List Float32) : List Float32 :=
  out.take first ++ blend gain (out.drop first) row

@[simp] theorem length_overlay (first : Nat) (row : List Float32) :
    (overlay gain out first row).length = out.length := by
  simp [overlay]
  omega

@[simp] theorem overlay_nil (first : Nat) : overlay gain out first [] = out := by
  simp [overlay]

/-- Rows laid one after the other are one row. -/
theorem overlay_overlay (first : Nat) (row next : List Float32) :
    overlay gain (overlay gain out first row) (first + row.length) next =
      overlay gain out first (row ++ next) := by
  have hjoined : overlay gain out first row = out.take first ++
      blend gain ((out.drop first).take row.length) row ++
        (out.drop first).drop row.length := by
    have hrow := blend_append gain (out.drop first) row []
    rw [List.append_nil, blend_nil] at hrow
    rw [overlay, hrow, List.append_assoc]
  rcases Nat.le_total (first + row.length) out.length with hle | hle
  · have hlength : (out.take first ++
        blend gain ((out.drop first).take row.length) row).length = first + row.length := by
      simp
      omega
    rw [hjoined, overlay, List.take_left' hlength, List.drop_left' hlength, overlay,
      blend_append, List.append_assoc]
  · -- The first row reaches the end of the output, and nothing is left for the next one.
    have hnone : (out.drop first).drop row.length = [] := by
      rw [List.drop_drop, List.drop_eq_nil_iff]
      exact hle
    have hshort : (overlay gain out first row).length ≤ first + row.length := by
      rw [length_overlay]
      exact hle
    rw [overlay, List.take_of_length_le hshort, List.drop_of_length_le hshort, nil_blend,
      List.append_nil, hjoined, hnone, overlay, blend_append, hnone, nil_blend]
    simp

/-- A row over two outputs is cut where they meet. -/
theorem overlay_append (other : List Float32) (first : Nat) (row : List Float32) :
    overlay gain (out ++ other) first row =
      overlay gain out first (row.take (out.length - first)) ++
        overlay gain other (first - out.length) (row.drop (out.length - first)) := by
  rcases Nat.le_total first out.length with hle | hle
  · have hnone : first - out.length = 0 := Nat.sub_eq_zero_of_le hle
    rw [overlay, List.take_append_of_le_length hle, List.drop_append_of_le_length hle,
      append_blend, List.length_drop, overlay, hnone, overlay]
    simp
  · have hnone : out.length - first = 0 := Nat.sub_eq_zero_of_le hle
    rw [hnone, List.take_zero, List.drop_zero, overlay_nil, overlay, overlay,
      List.take_append, List.drop_append, List.take_of_length_le hle,
      List.drop_of_length_le hle]
    simp

/-- A part of an output that is long enough takes the whole row. -/
theorem blendAt_eq {first last : Nat} {data : List UInt8}
    (h : data.length / Sample.width ≤ last - first) :
    blendAt gain out first last data = overlay gain out first (Sample.decode data) := by
  have hrow := append_blend gain ((out.drop first).take (last - first))
    ((out.drop first).drop (last - first)) (Sample.decode data)
  rw [List.take_append_drop] at hrow
  rw [blendAt, overlay, hrow, List.append_assoc]
  rcases Nat.le_total (last - first) (out.drop first).length with hle | hle
  · have hall : (Sample.decode data).length ≤ ((out.drop first).take (last - first)).length := by
      rw [Sample.length_decode, List.length_take_of_le hle]
      exact h
    rw [List.take_of_length_le hall, List.drop_of_length_le hall, blend_nil]
  · rw [List.take_of_length_le hle, List.drop_of_length_le hle, List.append_nil, nil_blend,
      List.append_nil]
    have hcut := append_blend gain (out.drop first) [] (Sample.decode data)
    rw [List.append_nil, nil_blend, List.append_nil] at hcut
    rw [← hcut]

end Blend

namespace LayerQueue

/-- Filling a region lays the first unread samples over it, and reads them. -/
theorem fillFrom_eq (gain : Float32) (stop : Nat) {chunks : List Chunk} {cursor : Cursor}
    {bytes : Nat} (h : Whole ⟨chunks, cursor, bytes⟩) {pos : Nat} (hpos : Sample.width ∣ pos)
    (mixed : Nat) (out : List Float32) :
    fillFrom gain stop chunks cursor bytes pos mixed out =
      { out := overlay gain out (pos / Sample.width)
          (Sample.decode ((unreadFrom chunks cursor).take (stop - pos)))
        queue := readFrom (stop - pos) chunks cursor bytes
        mixed := mixed + min (stop - pos) (unreadFrom chunks cursor).length
        starved := (unreadFrom chunks cursor).length < stop - pos } := by
  induction chunks generalizing cursor bytes pos mixed out with
  | nil =>
    rw [fillFrom]
    split_ifs with hroom
    · have hleft : 0 < stop - pos := by omega
      simp [unreadFrom, Sample.decode, readFrom, hleft]
    · have hnone : stop - pos = 0 := by omega
      simp [unreadFrom, Sample.decode, readFrom, hnone]
  | cons chunk rest ih =>
    rw [fillFrom]
    by_cases hroom : pos < stop
    · have hleft : stop - pos ≠ 0 := by omega
      have hfront := length_drop_position cursor chunk
      simp only [if_pos hroom]
      by_cases hpop : cursor.remaining chunk ≤ stop - pos
      · -- The front chunk is read to its end, and the rest of the region goes to the others.
        have hnext : Sample.width ∣ pos + cursor.remaining chunk :=
          Nat.dvd_add hpos h.remaining_dvd
        have hplace : (pos + cursor.remaining chunk) / Sample.width =
            pos / Sample.width + cursor.remaining chunk / Sample.width :=
          Nat.add_div_of_dvd_right hpos
        have hrest : stop - (pos + cursor.remaining chunk) =
            stop - pos - cursor.remaining chunk := by omega
        have hsamples : (Sample.decode (chunk.data.drop (cursor.position chunk))).length =
            cursor.remaining chunk / Sample.width := by
          rw [Sample.length_decode, hfront]
        rw [Nat.min_eq_left hpop, if_pos rfl, ih (h.tail _) hnext,
          List.take_of_length_le hfront.le, blendAt_eq gain out (by rw [hfront, hplace]; omega),
          hplace, ← hsamples, overlay_overlay, hrest, take_unreadFrom_of_le rest hpop,
          Sample.decode_append (hfront.symm ▸ h.remaining_dvd), readFrom, if_neg hleft,
          if_pos hpop, length_unreadFrom_cons]
        congr 1
        · omega
        · simp only [decide_eq_decide]
          omega
      · -- The region ends inside the front chunk.
        have hlt : stop - pos < cursor.remaining chunk := not_le.mp hpop
        have hplace : (pos + (stop - pos)) / Sample.width =
            pos / Sample.width + (stop - pos) / Sample.width :=
          Nat.add_div_of_dvd_right hpos
        have hlength : ((chunk.data.drop (cursor.position chunk)).take (stop - pos)).length =
            stop - pos := List.length_take_of_le (hfront.symm ▸ hlt.le)
        have hcount : stop - pos ≤ (unreadFrom (chunk :: rest) cursor).length := by
          rw [length_unreadFrom_cons]
          omega
        rw [Nat.min_eq_right hlt.le, if_neg (by omega), take_unreadFrom_of_lt rest hlt,
          blendAt_eq gain out (by rw [hlength, hplace]; omega), readFrom, if_neg hleft,
          if_neg hpop, Nat.min_eq_left hcount]
        congr 1
        simpa using hcount
    · have hnone : stop - pos = 0 := by omega
      simp only [if_neg hroom, hnone, readFrom_zero, List.take_zero, Sample.decode, overlay_nil,
        Nat.zero_min, Nat.add_zero, Nat.not_lt_zero, decide_false]

theorem fill_eq {queue : LayerQueue} (h : queue.Whole) (gain : Float32) {start : Nat}
    (hstart : Sample.width ∣ start) (stop : Nat) (out : List Float32) :
    queue.fill gain start stop out =
      { out := overlay gain out (start / Sample.width)
          (Sample.decode (queue.unread.take (stop - start)))
        queue := queue.read (stop - start)
        mixed := min (stop - start) queue.unread.length
        starved := queue.unread.length < stop - start } := by
  rw [fill, fillFrom_eq gain stop h hstart, unread_eq, Nat.zero_add]
  rfl

end LayerQueue

/-- Filling from a key is laying its first unread samples over the region, and reading them. -/
theorem fillLayer_eq {store : LayerStore} (h : store.Whole) (out : List Float32) {start stop : Nat}
    (hstart : Sample.width ∣ start) (hstop : Sample.width ∣ stop)
    (hfirst : start ≤ Sample.width * out.length) (hlast : stop ≤ Sample.width * out.length)
    (key : QueueKey) (gain : Float32) :
    fillLayer store out start stop key gain =
      { out := overlay gain out (start / Sample.width)
          (Sample.decode ((store.unread key).take (stop - start)))
        store := store.read (Pi.single key (stop - start))
        mixed := min (stop - start) (store.unread key).length
        starved := (store.unread key).length < stop - start } := by
  rw [fillLayer, Nat.min_eq_left hfirst, Nat.min_eq_left hlast,
    Sample.alignDown_of_dvd hstart, Sample.alignDown_of_dvd hstop, LayerStore.unread,
    ← LayerStore.modify_read]
  cases hfind : store.find? key with
  | none =>
    rw [LayerStore.modify_of_find?_eq_none hfind]
    simp [Sample.decode]
  | some queue =>
    have hfill := LayerQueue.fill_eq (h.find? hfind) gain hstart stop out
    have hstore : (store.modify key fun _ ↦ queue.read (stop - start)) =
        store.modify key fun queue ↦ queue.read (stop - start) :=
      LayerStore.modify_congr h.nodup hfind rfl
    simp only [hfill, hstore]
    rfl

end TimelineMixer
