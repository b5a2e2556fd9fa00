import Mathlib.Algebra.BigOperators.Group.List.Basic
import TimelineMixer.Proofs.Mix.Overlay
import TimelineMixer.Proofs.Time.Grid

/-!
# Mixing a period, in closed form

In exact numbers a layer is heard in a period from `firstByte` to `lastByte`, whether or not the
two overlap: outside the layer the two places coincide. `mixLayer` adds the first unread bytes of
the queue of the layer there and reads them (`mixLayer_eq`). Layers with different names read
different queues, so each of them finds the queue as it was before the period, and a whole period
is one read of the store and one row of samples for each layer (`mixFrame_eq`).
-/

set_option autoImplicit false
set_option relaxedAutoImplicit false

namespace TimelineMixer

/-- Two times bound a period of whole frames that fits in memory. -/
structure AudioSpec.Period (spec : AudioSpec) (current next : Seconds) (size : Nat) : Prop where
  whole : spec.frameBytes ∣ size
  memory : size < 2 ^ 63
  next_eq : next.toRat = current.toRat + size / spec.bytesPerSecond

namespace Layer

variable (spec : AudioSpec) (time : ℚ) (size : Nat) (layer : Layer)

/-- The place in a period where the layer begins to be heard. -/
def firstByte : Nat :=
  min (spec.wholeBytes (layer.start.toRat - time)) size

/-- The place in a period up to which the layer is heard. -/
def lastByte : Nat :=
  min (spec.wholeBytes (layer.stop.toRat - time)) size

/-- Bytes of a period in which the layer is heard. -/
def heard : Nat :=
  layer.lastByte spec time size - layer.firstByte spec time size

/-- The distances from the beginning of a period that are computed for the layer can be stored. A
layer that is not heard needs none, and one that is heard to the end needs only the first. -/
def BoundsFit (current next : Seconds) (layer : Layer) : Prop :=
  layer.overlaps current next → Seconds.DifferenceFits layer.start current ∧
    (layer.stop < next → Seconds.DifferenceFits layer.stop current)

instance (current next : Seconds) (layer : Layer) : Decidable (layer.BoundsFit current next) :=
  inferInstanceAs (Decidable (_ → _ ∧ (_ → _)))

theorem firstByte_le : layer.firstByte spec time size ≤ size :=
  Nat.min_le_right _ _

theorem lastByte_le : layer.lastByte spec time size ≤ size :=
  Nat.min_le_right _ _

variable {spec size}

theorem frameBytes_dvd_firstByte (hsize : spec.frameBytes ∣ size) :
    spec.frameBytes ∣ layer.firstByte spec time size := by
  rcases Nat.le_total (spec.wholeBytes (layer.start.toRat - time)) size with hle | hle
  · rw [firstByte, Nat.min_eq_left hle]
    exact spec.frameBytes_dvd_wholeBytes _
  · rw [firstByte, Nat.min_eq_right hle]
    exact hsize

theorem frameBytes_dvd_lastByte (hsize : spec.frameBytes ∣ size) :
    spec.frameBytes ∣ layer.lastByte spec time size := by
  rcases Nat.le_total (spec.wholeBytes (layer.stop.toRat - time)) size with hle | hle
  · rw [lastByte, Nat.min_eq_left hle]
    exact spec.frameBytes_dvd_wholeBytes _
  · rw [lastByte, Nat.min_eq_right hle]
    exact hsize

theorem frameBytes_dvd_heard (hsize : spec.frameBytes ∣ size) :
    spec.frameBytes ∣ layer.heard spec time size :=
  Nat.dvd_sub (layer.frameBytes_dvd_lastByte time hsize) (layer.frameBytes_dvd_firstByte time hsize)

variable {layer} {current next : Seconds}

/-- A time from the end of a period on is at least its bytes away. -/
theorem size_le_wholeBytes (h : spec.Period current next size) {bound : Seconds}
    (hbound : next ≤ bound) : size ≤ spec.wholeBytes (bound.toRat - current.toRat) := by
  have hrate := spec.bytesPerSecond_cast_pos
  have hlength : (size : ℚ) / spec.bytesPerSecond ≤ bound.toRat - current.toRat := by
    have hle := Seconds.le_def.mp hbound
    rw [h.next_eq] at hle
    linarith
  have hnonneg : (0 : ℚ) ≤ size / spec.bytesPerSecond := by positivity
  exact (spec.le_wholeBytes h.whole (hnonneg.trans hlength)).mpr hlength

/-- The computed region of a layer that overlaps the period is the exact one. -/
theorem region_eq (h : spec.Period current next size) (hfit : layer.BoundsFit current next)
    (hoverlaps : layer.overlaps current next = true) :
    layer.region spec current next size =
      (layer.firstByte spec current.toRat size, layer.lastByte spec current.toRat size) := by
  obtain ⟨hstart, hstop⟩ := hfit hoverlaps
  rw [region, firstByte, lastByte, ← Seconds.toRat_sub hstart,
    spec.min_bytesIn _ h.whole h.memory]
  split_ifs with hinside
  · rw [Nat.min_eq_right (size_le_wholeBytes h hinside)]
  · rw [← Seconds.toRat_sub (hstop (not_le.mp hinside)), spec.min_bytesIn _ h.whole h.memory]

/-- A layer that does not overlap the period is not heard in it. -/
theorem heard_of_not_overlaps (h : spec.Period current next size)
    (hoverlaps : ¬ layer.overlaps current next = true) :
    layer.heard spec current.toRat size = 0 := by
  have hapart : next < layer.start ∨ layer.stop < current := by
    simpa only [overlaps, Bool.and_eq_true, decide_eq_true_eq, not_and_or, not_le] using hoverlaps
  rw [heard, Nat.sub_eq_zero_iff_le]
  rcases hapart with hlate | hearly
  · rw [firstByte, Nat.min_eq_right (size_le_wholeBytes h hlate.le)]
    exact layer.lastByte_le spec _ size
  · have hlength : layer.stop.toRat - current.toRat ≤ 0 := by
      have := Seconds.lt_def.mp hearly
      linarith
    rw [lastByte, spec.wholeBytes_of_nonpos hlength, Nat.zero_min]
    exact Nat.zero_le _

/-- An output with the unread samples of the layer added where it is heard. -/
def mixInto (spec : AudioSpec) (time : ℚ) (loop : Nat) (store : LayerStore)
    (out : List Float32) (layer : Layer) : List Float32 :=
  overlay (Sample.positivePart layer.gain) out
    (layer.firstByte spec time (Sample.width * out.length) / Sample.width)
    (Sample.decode ((store.unread ⟨layer.id, loop⟩).take
      (layer.heard spec time (Sample.width * out.length))))

@[simp] theorem length_mixInto (time : ℚ) (loop : Nat) (store : LayerStore) (out : List Float32) :
    (layer.mixInto spec time loop store out).length = out.length := by
  rw [mixInto, length_overlay]

/-! ### On the grid -/

section Grid

variable {time} (size)

/-- A bound on the grid is not rounded to find its place in a period on the grid. -/
theorem add_min_wholeBytes {bound : ℚ} (hbound : spec.OnGrid bound) (htime : spec.OnGrid time) :
    time + (min (spec.wholeBytes (bound - time)) size : Nat) / spec.bytesPerSecond =
      min (max bound time) (time + size / spec.bytesPerSecond) := by
  rw [Nat.cast_min, ← min_div_div_right spec.bytesPerSecond_cast_pos.le,
    (hbound.sub htime).wholeBytes_div, ← min_add_add_left, ← max_add_add_left, add_zero,
    add_sub_cancel]

variable (hstart : spec.OnGrid layer.start.toRat) (htime : spec.OnGrid time)

include hstart htime

/-- A layer of which something is heard begins to be heard where it starts, or the period does. -/
theorem add_firstByte (hheard : layer.heard spec time size ≠ 0) :
    time + layer.firstByte spec time size / spec.bytesPerSecond =
      max layer.start.toRat time := by
  have hfirst := add_min_wholeBytes size hstart htime
  have hlast := layer.lastByte_le spec time size
  have hbefore : (layer.firstByte spec time size : ℚ) / spec.bytesPerSecond <
      size / spec.bytesPerSecond := by
    refine div_lt_div_of_pos_right ?_ spec.bytesPerSecond_cast_pos
    rw [heard] at hheard
    exact_mod_cast (by omega : layer.firstByte spec time size < size)
  rw [firstByte] at hbefore ⊢
  rw [hfirst, min_eq_left_iff]
  by_contra hbeyond
  rw [min_eq_right (not_le.mp hbeyond).le] at hfirst
  linarith

/-- What is heard of a layer leads from where it starts, or the period does, to where the first of
them ends. -/
theorem max_add_heard (hstop : spec.OnGrid layer.stop.toRat) :
    max layer.start.toRat time + layer.heard spec time size / spec.bytesPerSecond =
      max (max layer.start.toRat time)
        (min layer.stop.toRat (time + size / spec.bytesPerSecond)) := by
  have hlast : time + (layer.lastByte spec time size : ℚ) / spec.bytesPerSecond = _ :=
    add_min_wholeBytes size hstop htime
  have hfirst : time + (layer.firstByte spec time size : ℚ) / spec.bytesPerSecond = _ :=
    add_min_wholeBytes size hstart htime
  have hrate := spec.bytesPerSecond_cast_pos
  by_cases hheard : layer.heard spec time size = 0
  · have hle : time + (layer.lastByte spec time size : ℚ) / spec.bytesPerSecond ≤
        time + layer.firstByte spec time size / spec.bytesPerSecond := by
      rw [heard, Nat.sub_eq_zero_iff_le] at hheard
      gcongr
    rw [hfirst, hlast] at hle
    rw [hheard, Nat.cast_zero, zero_div, add_zero]
    refine (max_eq_left (le_trans ?_ (hle.trans (min_le_left _ _)))).symm
    exact min_le_min_right _ (le_max_left _ _)
  · have hbegin := add_firstByte size hstart htime hheard
    have hle : layer.firstByte spec time size ≤ layer.lastByte spec time size := by
      rw [heard] at hheard
      omega
    have hsum : max layer.start.toRat time + layer.heard spec time size / spec.bytesPerSecond =
        time + layer.lastByte spec time size / spec.bytesPerSecond := by
      rw [← hbegin, heard, Nat.cast_sub hle]
      ring
    have hplaces : max layer.start.toRat time ≤
        time + layer.lastByte spec time size / spec.bytesPerSecond := by
      rw [← hbegin]
      gcongr
    rw [hsum]
    rw [hlast] at hplaces ⊢
    rcases le_total time layer.stop.toRat with hlate | hearly
    · rw [max_eq_left hlate] at hplaces ⊢
      exact (max_eq_right hplaces).symm
    · -- The layer ends before the period, so all these places are the beginning of the period.
      rw [max_eq_right hearly] at hplaces ⊢
      have hbegins : time ≤ max layer.start.toRat time := le_max_right _ _
      rw [max_eq_left ((min_le_left _ _).trans (hearly.trans hbegins))]
      exact le_antisymm ((min_le_left _ _).trans hbegins) hplaces

/-- A layer of which something is heard stops after the period begins and starts before it ends. -/
theorem bounds_of_heard_ne_zero (hstop : spec.OnGrid layer.stop.toRat)
    (hheard : layer.heard spec time size ≠ 0) :
    max layer.start.toRat time < min layer.stop.toRat (time + size / spec.bytesPerSecond) := by
  have hlength : (0 : ℚ) < layer.heard spec time size / spec.bytesPerSecond :=
    div_pos (by exact_mod_cast Nat.pos_of_ne_zero hheard) spec.bytesPerSecond_cast_pos
  have hsum := max_add_heard size hstart htime hstop
  by_contra hle
  rw [max_eq_left (not_lt.mp hle)] at hsum
  linarith

end Grid

end Layer

/-- How much of each queue a period reads. -/
def heardCounts (spec : AudioSpec) (time : ℚ) (loop : Nat) (size : Nat) (layers : List Layer) :
    QueueKey → Nat :=
  (layers.map fun layer ↦ Pi.single ⟨layer.id, loop⟩ (layer.heard spec time size)).sum

section Counts

variable (spec : AudioSpec) (time : ℚ) (loop : Nat) {size : Nat}

theorem heardCounts_cons (layer : Layer) (rest : List Layer) :
    heardCounts spec time loop size (layer :: rest) =
      Pi.single ⟨layer.id, loop⟩ (layer.heard spec time size) +
        heardCounts spec time loop size rest := by
  rw [heardCounts, List.map_cons, List.sum_cons, heardCounts]

/-- Every queue is read by whole samples. -/
theorem width_dvd_heardCounts (hsize : spec.frameBytes ∣ size) (layers : List Layer)
    (key : QueueKey) : Sample.width ∣ heardCounts spec time loop size layers key := by
  induction layers with
  | nil => exact Nat.dvd_zero _
  | cons layer rest ih =>
    rw [heardCounts_cons, Pi.add_apply]
    refine Nat.dvd_add ?_ ih
    by_cases hkey : key = ⟨layer.id, loop⟩
    · rw [hkey, Pi.single_eq_same]
      exact spec.width_dvd_frameBytes.trans (layer.frameBytes_dvd_heard time hsize)
    · rw [Pi.single_eq_of_ne hkey]
      exact Nat.dvd_zero _

/-- A queue that belongs to none of the layers is not read. -/
theorem heardCounts_of_forall_ne (size : Nat) {layers : List Layer} {key : QueueKey}
    (h : ∀ layer ∈ layers, key ≠ ⟨layer.id, loop⟩) :
    heardCounts spec time loop size layers key = 0 := by
  induction layers with
  | nil => rfl
  | cons layer others ih =>
    rw [heardCounts_cons, Pi.add_apply, Pi.single_eq_of_ne (h layer List.mem_cons_self),
      ih fun other hother ↦ h other (List.mem_cons_of_mem _ hother)]

/-- The queue of one of several layers with different names is read by what is heard of it. -/
theorem heardCounts_of_mem (size : Nat) {layers : List Layer}
    (hdistinct : (layers.map Layer.id).Nodup) {layer : Layer} (hlayer : layer ∈ layers) :
    heardCounts spec time loop size layers ⟨layer.id, loop⟩ = layer.heard spec time size := by
  induction layers with
  | nil => cases hlayer
  | cons other others ih =>
    rw [List.map_cons, List.nodup_cons] at hdistinct
    obtain ⟨hfresh, hothers⟩ := hdistinct
    rw [heardCounts_cons, Pi.add_apply]
    rcases List.mem_cons.mp hlayer with rfl | hmem
    · rw [Pi.single_eq_same, heardCounts_of_forall_ne, Nat.add_zero]
      exact fun other hother hsame ↦
        hfresh ((QueueKey.mk.inj hsame).1 ▸ List.mem_map_of_mem hother)
    · have hkey : (⟨layer.id, loop⟩ : QueueKey) ≠ ⟨other.id, loop⟩ := fun hsame ↦
        hfresh ((QueueKey.mk.inj hsame).1 ▸ List.mem_map_of_mem hmem)
      rw [Pi.single_eq_of_ne hkey, Nat.zero_add]
      exact ih hothers hmem

end Counts

/-- A queue is too short for the part of a period in which its layer is heard. -/
def Layer.starves (spec : AudioSpec) (time : ℚ) (loop : Nat) (size : Nat) (store : LayerStore)
    (layer : Layer) : Bool :=
  (store.unread ⟨layer.id, loop⟩).length < layer.heard spec time size

section Mix

variable {spec : AudioSpec} {current next : Seconds} {size : Nat} {loop : Nat}

/-- Mixing one layer reads the queue of the layer by as much as is heard of it. -/
theorem mixLayer_eq (h : spec.Period current next size) {mix : FrameMix}
    (hsize : Sample.width * mix.out.length = size) (hstore : mix.store.Whole) {layer : Layer}
    (hfit : layer.BoundsFit current next) :
    mixLayer spec current next loop mix layer =
      { out := layer.mixInto spec current.toRat loop mix.store mix.out
        store := mix.store.read
          (Pi.single ⟨layer.id, loop⟩ (layer.heard spec current.toRat size))
        active := mix.active + if layer.heard spec current.toRat size = 0 then 0 else 1
        starved := mix.starved +
          if layer.starves spec current.toRat loop size mix.store then 1 else 0
        mixed := mix.mixed + min (layer.heard spec current.toRat size)
          (mix.store.unread ⟨layer.id, loop⟩).length } := by
  rw [mixLayer, hsize]
  by_cases hoverlaps : layer.overlaps current next = true
  · rw [Layer.region_eq h hfit hoverlaps]
    by_cases hheard : layer.firstByte spec current.toRat size <
        layer.lastByte spec current.toRat size
    · have hsome : layer.heard spec current.toRat size ≠ 0 := Nat.sub_ne_zero_of_lt hheard
      have hfirst := spec.width_dvd_frameBytes.trans
        (layer.frameBytes_dvd_firstByte current.toRat h.whole)
      have hlast := spec.width_dvd_frameBytes.trans
        (layer.frameBytes_dvd_lastByte current.toRat h.whole)
      have hfill := fillLayer_eq hstore mix.out hfirst hlast
        (hsize ▸ layer.firstByte_le spec current.toRat size)
        (hsize ▸ layer.lastByte_le spec current.toRat size) ⟨layer.id, loop⟩
        (Sample.positivePart layer.gain)
      rw [if_neg hsome, Layer.mixInto, hsize]
      simp only [hoverlaps, hheard, decide_true, Bool.and_self, if_true, hfill]
      rfl
    · have hnone : layer.heard spec current.toRat size = 0 := by
        rw [Layer.heard]
        omega
      simp [hoverlaps, hheard, hnone, Layer.mixInto, hsize, Layer.starves, Sample.decode]
  · have hnone := Layer.heard_of_not_overlaps h hoverlaps
    simp [hoverlaps, hnone, Layer.mixInto, hsize, Layer.starves, Sample.decode]

/-- Reading the queue of one layer leaves the queues of layers with other names. -/
theorem unread_read_single (store : LayerStore) (loop count : Nat) {layer other : Layer}
    (h : layer.id ≠ other.id) :
    (store.read (Pi.single ⟨layer.id, loop⟩ count)).unread ⟨other.id, loop⟩ =
      store.unread ⟨other.id, loop⟩ := by
  have hkey : (⟨other.id, loop⟩ : QueueKey) ≠ ⟨layer.id, loop⟩ := by
    intro hsame
    exact h (QueueKey.mk.inj hsame).1.symm
  rw [LayerStore.unread_read, Pi.single_eq_of_ne hkey, List.drop_zero]

/-- Layers with different names are mixed from the store as it was before the first of them. -/
theorem foldl_mixLayer (h : spec.Period current next size) {layers : List Layer}
    (hdistinct : (layers.map Layer.id).Nodup)
    (hfit : ∀ layer ∈ layers, layer.BoundsFit current next) {mix : FrameMix}
    (hsize : Sample.width * mix.out.length = size) (hstore : mix.store.Whole) :
    layers.foldl (mixLayer spec current next loop) mix =
      { out := layers.foldl (Layer.mixInto spec current.toRat loop mix.store) mix.out
        store := mix.store.read (heardCounts spec current.toRat loop size layers)
        active := mix.active + layers.countP (fun layer ↦ layer.heard spec current.toRat size ≠ 0)
        starved := mix.starved +
          layers.countP (Layer.starves spec current.toRat loop size mix.store)
        mixed := mix.mixed + (layers.map fun layer ↦ min (layer.heard spec current.toRat size)
          (mix.store.unread ⟨layer.id, loop⟩).length).sum } := by
  induction layers generalizing mix with
  | nil => simp [heardCounts]
  | cons layer rest ih =>
    rw [List.map_cons, List.nodup_cons] at hdistinct
    obtain ⟨hfresh, hrest⟩ := hdistinct
    have hothers : ∀ other ∈ rest, layer.id ≠ other.id := fun other hother hsame ↦
      hfresh (hsame ▸ List.mem_map_of_mem hother)
    have hread := width_dvd_heardCounts spec current.toRat loop h.whole [layer]
    have hsingle : heardCounts spec current.toRat loop size [layer] =
        Pi.single ⟨layer.id, loop⟩ (layer.heard spec current.toRat size) := by
      rw [heardCounts, List.map_singleton, List.sum_singleton]
    have hunread := fun other hother ↦ unread_read_single mix.store loop
      (layer.heard spec current.toRat size) (hothers other hother)
    rw [List.foldl_cons, mixLayer_eq h hsize hstore (hfit layer List.mem_cons_self),
      ih hrest (fun other hother ↦ hfit other (List.mem_cons_of_mem _ hother))
        (by rw [Layer.length_mixInto, hsize]) (hsingle ▸ hstore.read hread)]
    have hout : ∀ out, rest.foldl (Layer.mixInto spec current.toRat loop (mix.store.read
        (Pi.single ⟨layer.id, loop⟩ (layer.heard spec current.toRat size)))) out =
        rest.foldl (Layer.mixInto spec current.toRat loop mix.store) out :=
      fun out ↦ List.foldl_ext _ _ out fun _ other hother ↦ by
        rw [Layer.mixInto, Layer.mixInto, hunread other hother]
    have hstarved : rest.countP (Layer.starves spec current.toRat loop size (mix.store.read
        (Pi.single ⟨layer.id, loop⟩ (layer.heard spec current.toRat size)))) =
        rest.countP (Layer.starves spec current.toRat loop size mix.store) :=
      List.countP_congr fun other hother ↦ by
        rw [Layer.starves, Layer.starves, hunread other hother]
    have hmixed : (rest.map fun other ↦ min (other.heard spec current.toRat size)
        ((mix.store.read (Pi.single ⟨layer.id, loop⟩
          (layer.heard spec current.toRat size))).unread ⟨other.id, loop⟩).length) =
        rest.map fun other ↦ min (other.heard spec current.toRat size)
          (mix.store.unread ⟨other.id, loop⟩).length :=
      List.map_congr_left fun other hother ↦ by rw [hunread other hother]
    simp only [hout, hstarved, hmixed, heardCounts_cons, LayerStore.read_add, List.foldl_cons,
      List.countP_cons, List.map_cons, List.sum_cons]
    congr 1
    · by_cases hheard : layer.heard spec current.toRat size = 0
      · simp [hheard]
      · simp [hheard]
        omega
    · omega
    · omega

/-- A period in closed form: every layer adds the first unread samples of its queue to the part in
which it is heard, and all queues are read at once. -/
theorem mixFrame_eq {store : LayerStore} (hstore : store.Whole) {out : List Float32}
    (h : spec.Period current next (Sample.width * out.length)) {atom : Atom}
    (hdistinct : (atom.layers.map Layer.id).Nodup)
    (hfit : ∀ layer ∈ atom.layers, layer.BoundsFit current next) (loop : Nat) :
    let size := Sample.width * out.length
    mixFrame store out atom current next loop spec =
      { out := atom.layers.foldl (Layer.mixInto spec current.toRat loop store) out
        store := store.read (heardCounts spec current.toRat loop size atom.layers)
        active := atom.layers.countP fun layer ↦ layer.heard spec current.toRat size ≠ 0
        starved := atom.layers.countP (Layer.starves spec current.toRat loop size store)
        mixed := (atom.layers.map fun layer ↦ min (layer.heard spec current.toRat size)
          (store.unread ⟨layer.id, loop⟩).length).sum } := by
  intro size
  rw [mixFrame, foldl_mixLayer h hdistinct hfit rfl hstore]
  simp only [Nat.zero_add, size]

end Mix

end TimelineMixer
