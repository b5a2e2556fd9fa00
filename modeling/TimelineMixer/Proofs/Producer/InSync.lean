import TimelineMixer.Proofs.Producer.Broadcast

/-!
# Producer and player stay in sync

A period that follows a fill finds everything it reads. It begins at the time shown, or at time zero
of the next pass if it would end past the timeline, and as two periods are no longer than the lead,
the fill has supplied either pass beyond the end of the period (`Stocked.ready`). So no queue is too
short, and what is read was made for the time at which it is heard (`Stocked.period_inSync`). As
much is read as is heard, and a layer that the chosen atom does not list has ended or has not begun,
so the queues begin with what is heard next (`Stocked.render`). By induction on the run, every
period from the publishing of a timeline on is in sync (`Run.inSync`).
-/

set_option autoImplicit false
set_option relaxedAutoImplicit false

namespace TimelineMixer

open ToneProducer

/-! ### A layer in a period -/

section Period

variable {spec : AudioSpec} {layer : Layer} {time target : Seconds} {size : Nat}
  {position : Option Seconds} {chunks : List Chunk} {unread : List UInt8}
  (hstart : spec.OnGrid layer.start.toRat) (hstop : spec.OnGrid layer.stop.toRat)
  (htime : spec.OnGrid time.toRat) (hsize : spec.frameBytes ∣ size)
  (hstock : Stock spec position chunks unread)
  (hbegins : time < layer.stop → BeginsAt spec (max layer.start time).toRat position unread)
  (hsupplied : SuppliedTo spec layer time target position)
  (htarget : time.toRat + size / spec.bytesPerSecond ≤ target.toRat)

include hstart hstop htime hsize hstock hbegins hsupplied htarget

/-- What is heard of a layer in a period is unread, if the key begins with it and is supplied beyond
the end of the period. -/
theorem heard_le_length : layer.heard spec time.toRat size ≤ unread.length := by
  by_cases hheard : layer.heard spec time.toRat size = 0
  · omega
  have hrate := spec.bytesPerSecond_cast_pos
  have hbounds := Layer.bounds_of_heard_ne_zero size hstart htime hstop hheard
  have hopen : time < layer.stop := Seconds.lt_def.mpr
    ((le_max_right _ _).trans_lt (hbounds.trans_le (min_le_left _ _)))
  have hsoon : layer.start < target := Seconds.lt_def.mpr
    ((le_max_left _ _).trans_lt (hbounds.trans_le ((min_le_right _ _).trans htarget)))
  obtain ⟨known, hknown, hreaches⟩ := hsupplied ⟨hopen, hsoon⟩
  have hend := hbegins hopen known hknown
  have hsum := Layer.max_add_heard size hstart htime hstop
  have hreached : min layer.stop.toRat (time.toRat + size / spec.bytesPerSecond) ≤
      known.toRat := by
    refine (hstock.onGrid hknown).le_of_sub_lt ?_ (lt_of_le_of_lt ?_ hreaches)
    · exact AudioSpec.onGrid_min hstop (htime.add (AudioSpec.onGrid_count hsize))
    · rw [Seconds.toRat_min, min_comm]
      gcongr
  rw [max_eq_right hbounds.le] at hsum
  rw [Seconds.toRat_max] at hend
  have hlengths : (layer.heard spec time.toRat size : ℚ) / spec.bytesPerSecond ≤
      unread.length / spec.bytesPerSecond := by linarith
  exact_mod_cast (div_le_div_iff_of_pos_right hrate).mp hlengths

/-- Every byte that is heard was made for the time at which it is heard. -/
theorem exists_made {n : Nat} (hn : n < layer.heard spec time.toRat size) :
    ∃ chunk ∈ chunks, ∃ place < chunk.size, chunk.data[place]? = unread[n]? ∧
      chunk.pts.toRat + place / spec.bytesPerSecond =
        time.toRat + (layer.firstByte spec time.toRat size + n : Nat) / spec.bytesPerSecond := by
  have hlength := heard_le_length hstart hstop htime hsize hstock hbegins hsupplied htarget
  have hheard : layer.heard spec time.toRat size ≠ 0 := by omega
  have hbounds := Layer.bounds_of_heard_ne_zero size hstart htime hstop hheard
  have hopen : time < layer.stop := Seconds.lt_def.mpr
    ((le_max_right _ _).trans_lt (hbounds.trans_le (min_le_left _ _)))
  obtain ⟨chunk, hchunk, place, hinside, hbyte, hplace⟩ :=
    hstock.exists_place (hbegins hopen) (by omega : n < unread.length)
  refine ⟨chunk, hchunk, place, hinside, hbyte, ?_⟩
  rw [hplace, Seconds.toRat_max, ← Layer.add_firstByte size hstart htime hheard, Nat.cast_add,
    add_div, add_assoc]

/-- After the period the key begins with what is heard next. -/
theorem beginsAt_drop_heard {later : Seconds}
    (hlater : later.toRat = time.toRat + size / spec.bytesPerSecond) (hopen : later < layer.stop) :
    BeginsAt spec (max layer.start later).toRat position
      (unread.drop (layer.heard spec time.toRat size)) := by
  have hlength := heard_le_length hstart hstop htime hsize hstock hbegins hsupplied htarget
  have hlong : (0 : ℚ) ≤ size / spec.bytesPerSecond := by positivity
  have hend : later.toRat < layer.stop.toRat := hopen
  have hafter : time.toRat ≤ later.toRat := by linarith
  have hbefore : time < layer.stop := Seconds.lt_def.mpr (hafter.trans_lt hend)
  have hsum := Layer.max_add_heard size hstart htime hstop
  rw [← hlater, min_eq_right hend.le, max_assoc, max_eq_right hafter] at hsum
  rw [Seconds.toRat_max, ← hsum, ← Seconds.toRat_max]
  exact (hbegins hbefore).drop hlength

end Period

namespace Broadcast

/-- A period of some bytes may begin at a time of a pass: the queues begin with it and are supplied
beyond its end, and those of the following pass begin with its start. -/
structure Ready (broadcast : Broadcast) (loop : Nat) (time : Seconds) (bytes : Nat) : Prop where
  loop_le : broadcast.deck.clock.loop ≤ loop
  onGrid : broadcast.spec.OnGrid time.toRat
  begins : broadcast.Begins loop time
  supplied : ∃ target : Seconds,
    time.toRat + bytes / broadcast.spec.bytesPerSecond ≤ target.toRat ∧
      broadcast.Supplied loop time target
  next : broadcast.Begins (loop + 1) 0

variable {broadcast : Broadcast} {stop : Seconds} {bytes : Nat}

/-- After a fill a period may begin wherever the clock lands. -/
theorem Stocked.ready (h : broadcast.Stocked stop) (hfilled : broadcast.Filled stop)
    (hasks : broadcast.Asks bytes) {atom : Atom}
    (hlands : broadcast.deck.Lands stop bytes (broadcast.deck.select bytes).2 atom) :
    broadcast.Ready (broadcast.deck.select bytes).2.clock.loop
      (broadcast.deck.select bytes).2.time bytes := by
  have hrate := broadcast.spec.bytesPerSecond_cast_pos
  have hlength : (0 : ℚ) < bytes / broadcast.spec.bytesPerSecond :=
    div_pos (by exact_mod_cast hasks.positive) hrate
  have hshort := hasks.short
  rcases hlands.place with ⟨hend, hloop, htime⟩ | ⟨hend, hloop, htime⟩
  · have hopen : broadcast.deck.time < stop := by
      rw [Seconds.lt_def]
      exact lt_of_lt_of_le (lt_add_of_pos_right _ hlength) hend
    obtain ⟨target, htarget, hsupplied⟩ := hfilled.here
    rw [hloop, htime]
    exact
      { loop_le := le_rfl
        onGrid := h.onGrid
        begins := h.here hopen
        supplied := ⟨target, by rw [htarget]; linarith, hsupplied⟩
        next := h.next }
  · have hend' : stop.toRat < broadcast.deck.time.toRat +
      bytes / broadcast.spec.bytesPerSecond := hend
    obtain ⟨target, htarget, hsupplied⟩ := hfilled.next (by linarith)
    rw [hloop, htime]
    exact
      { loop_le := Nat.le_succ _
        onGrid := Seconds.toRat_zero.symm ▸ AudioSpec.onGrid_zero
        begins := h.next
        supplied := ⟨target, by rw [htarget, Seconds.toRat_zero]; linarith, hsupplied⟩
        next := fun layer _ _ known hknown ↦ by
          rw [h.later _ (Nat.lt_succ_self _)] at hknown
          cases hknown }

/-- The mix of a period for which an atom was chosen. -/
def frame (broadcast : Broadcast) (bytes : Nat) (atom : Atom) : FrameMix :=
  broadcast.player.frame (List.replicate (bytes / Sample.width) 0) atom

/-- A period of some bytes, mixed for an atom, is in sync: no queue is too short, the output is the
sum of the unread samples of all layers, and each of these was made for the time at which it is
heard, in the pass the clock shows. -/
structure InSync (broadcast : Broadcast) (bytes : Nat) (atom : Atom) : Prop where
  starved : (broadcast.frame bytes atom).starved = 0
  out :
    let chosen := (broadcast.deck.select bytes).2
    (broadcast.frame bytes atom).out = atom.layers.foldl
      (Layer.mixInto broadcast.spec chosen.time.toRat chosen.clock.loop broadcast.player.store)
      (List.replicate (bytes / Sample.width) 0)
  made :
    let chosen := (broadcast.deck.select bytes).2
    ∀ layer ∈ atom.layers, ∀ n < layer.heard broadcast.spec chosen.time.toRat bytes,
      ∃ chunk place, (⟨layer.id, chosen.clock.loop⟩, chunk) ∈ broadcast.made ∧
        place < chunk.size ∧
        chunk.data[place]? = (broadcast.unread ⟨layer.id, chosen.clock.loop⟩)[n]? ∧
        chunk.pts.toRat + place / broadcast.spec.bytesPerSecond =
          chosen.time.toRat + (layer.firstByte broadcast.spec chosen.time.toRat bytes + n : Nat) /
            broadcast.spec.bytesPerSecond

section Render

variable (h : broadcast.Stocked stop) {loop : Nat} {time : Seconds}
  (hready : broadcast.Ready loop time bytes) (hwhole : broadcast.spec.frameBytes ∣ bytes)
  {layer : Layer} (hlayer : layer ∈ broadcast.deck.timeline.layers)

include h hready hwhole hlayer

theorem Ready.heard_le : layer.heard broadcast.spec time.toRat bytes ≤
    (broadcast.unread ⟨layer.id, loop⟩).length := by
  obtain ⟨hstart, hstop⟩ := h.seamless.onGrid layer hlayer
  obtain ⟨target, htarget, hsupplied⟩ := hready.supplied
  exact heard_le_length hstart hstop hready.onGrid hwhole (h.stock _ hready.loop_le)
    (hready.begins layer hlayer) (hsupplied layer hlayer) htarget

theorem Ready.exists_made {n : Nat} (hn : n < layer.heard broadcast.spec time.toRat bytes) :
    ∃ chunk place, (⟨layer.id, loop⟩, chunk) ∈ broadcast.made ∧ place < chunk.size ∧
      chunk.data[place]? = (broadcast.unread ⟨layer.id, loop⟩)[n]? ∧
      chunk.pts.toRat + place / broadcast.spec.bytesPerSecond =
        time.toRat + (layer.firstByte broadcast.spec time.toRat bytes + n : Nat) /
          broadcast.spec.bytesPerSecond := by
  obtain ⟨hstart, hstop⟩ := h.seamless.onGrid layer hlayer
  obtain ⟨target, htarget, hsupplied⟩ := hready.supplied
  obtain ⟨chunk, hchunk, place, hinside, hbyte, hplace⟩ :=
    TimelineMixer.exists_made hstart hstop hready.onGrid hwhole (h.stock _ hready.loop_le)
      (hready.begins layer hlayer) (hsupplied layer hlayer) htarget hn
  obtain ⟨entry, hentry, rfl⟩ := List.mem_map.mp hchunk
  have hkey : entry.1 = ⟨layer.id, loop⟩ := by simpa using List.of_mem_filter hentry
  exact ⟨entry.2, place, hkey ▸ List.mem_of_mem_filter hentry, hinside, hbyte, hplace⟩

theorem Ready.beginsAt_drop {later : Seconds}
    (hlater : later.toRat = time.toRat + bytes / broadcast.spec.bytesPerSecond)
    (hopen : later < layer.stop) :
    BeginsAt broadcast.spec (max layer.start later).toRat (broadcast.position ⟨layer.id, loop⟩)
      ((broadcast.unread ⟨layer.id, loop⟩).drop
        (layer.heard broadcast.spec time.toRat bytes)) := by
  obtain ⟨hstart, hstop⟩ := h.seamless.onGrid layer hlayer
  obtain ⟨target, htarget, hsupplied⟩ := hready.supplied
  exact beginsAt_drop_heard hstart hstop hready.onGrid hwhole (h.stock _ hready.loop_le)
    (hready.begins layer hlayer) (hsupplied layer hlayer) htarget hlater hopen

end Render

/-! ### Layers in the atom of a period -/

/-- The queue of a listed layer is read by what is heard of the layer. -/
theorem Stocked.heardCounts_of_listed (h : broadcast.Stocked stop) {atom : Atom}
    (hatom : atom ∈ broadcast.deck.timeline.atoms) {layer : Layer}
    (hlayer : layer ∈ broadcast.deck.timeline.layers)
    (hlisted : layer.id ∈ atom.layers.map Layer.id) (time : ℚ) (loop : Nat) :
    heardCounts broadcast.spec time loop bytes atom.layers ⟨layer.id, loop⟩ =
      layer.heard broadcast.spec time bytes := by
  obtain ⟨other, hother, hid⟩ := List.mem_map.mp hlisted
  obtain ⟨hstart, hstop⟩ := h.seamless.oneSpan other
    (List.mem_flatMap.mpr ⟨atom, hatom, hother⟩) layer hlayer hid
  have hcount := heardCounts_of_mem broadcast.spec time loop bytes
    (h.seamless.distinct atom hatom) hother
  rw [hid] at hcount
  rw [hcount, Layer.heard, Layer.heard, Layer.firstByte, Layer.firstByte, Layer.lastByte,
    Layer.lastByte, hstart, hstop]

/-- A layer that is not listed in the atom of a period, and has not ended after it, has not started
either. -/
theorem Stocked.le_start_of_not_listed (h : broadcast.Stocked stop) {atom : Atom}
    (hlands : broadcast.deck.Lands stop bytes (broadcast.deck.select bytes).2 atom) {layer : Layer}
    (hlayer : layer ∈ broadcast.deck.timeline.layers)
    (hlisted : layer.id ∉ atom.layers.map Layer.id)
    (hinside : (broadcast.deck.playPeriod bytes).time < stop)
    (hopen : (broadcast.deck.playPeriod bytes).time < layer.stop) :
    (broadcast.deck.playPeriod bytes).time ≤ layer.start := by
  have hcovers := hlands.covers
  rw [← hlands.toRat_time_playPeriod] at hcovers
  obtain ⟨hpassed, hreached⟩ := hcovers hinside.le
  by_contra hlate
  exact hlisted (h.seamless.listed atom (List.mem_of_getElem? hlands.index) layer hlayer
    ((max_lt (not_le.mp hlate) hpassed).trans_le (le_min hopen.le hreached)))

section Period

variable (h : broadcast.Stocked stop) (hasks : broadcast.Asks bytes) {atom : Atom}
  (hatom : (broadcast.deck.select bytes).1.atom = some atom)
  (hlands : broadcast.deck.Lands stop bytes (broadcast.deck.select bytes).2 atom)

include h hasks hatom hlands

/-- The mix of a period in closed form. -/
theorem frame_eq :
    let chosen := (broadcast.deck.select bytes).2
    (broadcast.frame bytes atom).out = atom.layers.foldl
      (Layer.mixInto broadcast.spec chosen.time.toRat chosen.clock.loop broadcast.player.store)
      (List.replicate (bytes / Sample.width) 0) ∧
    (broadcast.frame bytes atom).store = broadcast.player.store.read
      (heardCounts broadcast.spec chosen.time.toRat chosen.clock.loop bytes atom.layers) ∧
    (broadcast.frame bytes atom).starved = atom.layers.countP
      (Layer.starves broadcast.spec chosen.time.toRat chosen.clock.loop bytes
        broadcast.player.store) := by
  intro chosen
  have hcount : Sample.width * (bytes / Sample.width) = bytes :=
    Nat.mul_div_cancel' (broadcast.spec.width_dvd_frameBytes.trans hasks.whole)
  have hsize : Sample.width * (List.replicate (bytes / Sample.width) (0 : Float32)).length =
      bytes := by rw [List.length_replicate, hcount]
  have hperiod : broadcast.spec.Period chosen.time (chosen.time + chosen.spec.duration bytes)
      (Sample.width * (List.replicate (bytes / Sample.width) (0 : Float32)).length) := by
    rw [hsize]
    exact
      { whole := hasks.whole
        memory := by have := hlands.count; omega
        next_eq := Deck.toRat_time_add_duration hlands.start_eq hlands.count }
  have hmember : atom ∈ broadcast.deck.timeline.atoms := List.mem_of_getElem? hlands.index
  have hmix := mixFrame_eq h.whole hperiod (h.seamless.distinct atom hmember)
    (hasks.fits.2 atom hatom) chosen.clock.loop
  rw [hsize] at hmix
  have hframe : broadcast.frame bytes atom = mixFrame broadcast.player.store
      (List.replicate (bytes / Sample.width) 0) atom chosen.time
      (chosen.time + chosen.spec.duration bytes) chosen.clock.loop broadcast.spec := by
    rw [frame, Player.frame, hsize]
    rfl
  rw [hframe, hmix]
  exact ⟨rfl, rfl, rfl⟩

/-- A period after a fill is in sync. -/
theorem Stocked.period_inSync (hfilled : broadcast.Filled stop) : broadcast.InSync bytes atom := by
  obtain ⟨hout, -, hstarved⟩ := frame_eq h hasks hatom hlands
  have hready := h.ready hfilled hasks hlands
  have hmember : ∀ layer ∈ atom.layers, layer ∈ broadcast.deck.timeline.layers :=
    fun layer hlayer ↦ List.mem_flatMap.mpr ⟨atom, List.mem_of_getElem? hlands.index, hlayer⟩
  refine ⟨?_, hout, fun layer hlayer n hn ↦ ?_⟩
  · rw [hstarved, List.countP_eq_zero]
    intro layer hlayer
    have henough := hready.heard_le h hasks.whole (hmember layer hlayer)
    rw [Layer.starves, decide_eq_true_eq, not_lt]
    exact henough
  · exact hready.exists_made h hasks.whole (hmember layer hlayer) hn

/-- What a period does to the player. -/
theorem render_eq :
    let chosen := (broadcast.deck.select bytes).2
    (broadcast.render bytes).deck = broadcast.deck.playPeriod bytes ∧
      (broadcast.render bytes).player.store = broadcast.player.store.read
        (heardCounts broadcast.spec chosen.time.toRat chosen.clock.loop bytes atom.layers) ∧
      (broadcast.render bytes).player.stats.starved = broadcast.player.stats.starved +
        if (broadcast.frame bytes atom).starved = 0 then 0 else 1 := by
  intro chosen
  obtain ⟨-, hstore, -⟩ := frame_eq h hasks hatom hlands
  obtain ⟨hdeck, hqueues, hstats⟩ := broadcast.player.render_frame h.playing
    (broadcast.spec.width_dvd_frameBytes.trans hasks.whole) hatom
  exact ⟨hdeck, hqueues.trans hstore, hstats⟩

/-- After the period the queues of its pass begin with what is heard next. -/
theorem Ready.begins_render (hready : broadcast.Ready
      (broadcast.deck.select bytes).2.clock.loop (broadcast.deck.select bytes).2.time bytes)
    (hinside : (broadcast.deck.playPeriod bytes).time < stop) :
    (broadcast.render bytes).Begins (broadcast.deck.select bytes).2.clock.loop
      (broadcast.deck.playPeriod bytes).time := by
  obtain ⟨hdeck, hstore, -⟩ := render_eq h hasks hatom hlands
  intro layer hlayer hopen
  rw [hdeck] at hlayer
  change layer ∈ broadcast.deck.timeline.layers at hlayer
  have hspec : (broadcast.render bytes).spec = broadcast.spec := by
    rw [spec, hdeck]
    rfl
  rw [hspec, unread, hstore, LayerStore.unread_read]
  by_cases hlisted : layer.id ∈ atom.layers.map Layer.id
  · rw [h.heardCounts_of_listed (List.mem_of_getElem? hlands.index) hlayer hlisted]
    exact hready.beginsAt_drop h hasks.whole hlayer hlands.toRat_time_playPeriod hopen
  · have hnone : heardCounts broadcast.spec (broadcast.deck.select bytes).2.time.toRat
        (broadcast.deck.select bytes).2.clock.loop bytes atom.layers
        ⟨layer.id, (broadcast.deck.select bytes).2.clock.loop⟩ = 0 :=
      heardCounts_of_forall_ne _ _ _ _ fun other hother hsame ↦
        hlisted ((QueueKey.mk.inj hsame).1 ▸ List.mem_map_of_mem hother)
    have hlater := h.le_start_of_not_listed hlands hlayer hlisted hinside hopen
    have hearlier : (broadcast.deck.select bytes).2.time ≤
        (broadcast.deck.playPeriod bytes).time := by
      rw [Seconds.le_def, hlands.toRat_time_playPeriod]
      exact le_add_of_nonneg_right (by positivity)
    have hbegins := hready.begins layer hlayer (hearlier.trans_lt hopen)
    rw [hnone, List.drop_zero, max_eq_left hlater]
    rwa [max_eq_left (hearlier.trans hlater)] at hbegins

/-- The queues of another pass are not read. -/
theorem unread_render_of_ne {key : QueueKey}
    (hkey : key.loop ≠ (broadcast.deck.select bytes).2.clock.loop) :
    (broadcast.render bytes).unread key = broadcast.unread key := by
  obtain ⟨-, hstore, -⟩ := render_eq h hasks hatom hlands
  have hnone : heardCounts broadcast.spec (broadcast.deck.select bytes).2.time.toRat
      (broadcast.deck.select bytes).2.clock.loop bytes atom.layers key = 0 :=
    heardCounts_of_forall_ne _ _ _ _ fun _ _ hsame ↦ hkey (hsame ▸ rfl)
  rw [unread, hstore, LayerStore.unread_read, hnone, List.drop_zero, unread]

/-- A period after a fill keeps a broadcast stocked. -/
theorem Stocked.render (hfilled : broadcast.Filled stop) :
    (broadcast.render bytes).Stocked stop := by
  have hready := h.ready hfilled hasks hlands
  obtain ⟨hdeck, hstore, -⟩ := render_eq h hasks hatom hlands
  have hspec : (broadcast.render bytes).spec = broadcast.spec := by
    rw [spec, hdeck]
    rfl
  have hunread : ∀ key, (broadcast.render bytes).unread key = (broadcast.unread key).drop
      (heardCounts broadcast.spec (broadcast.deck.select bytes).2.time.toRat
        (broadcast.deck.select bytes).2.clock.loop bytes atom.layers key) := by
    intro key
    rw [unread, hstore, LayerStore.unread_read, unread]
  have hloop : (broadcast.render bytes).deck.clock.loop =
      (broadcast.deck.select bytes).2.clock.loop := by
    rw [hdeck]
    rfl
  exact
    { seamless := by rw [hspec, hdeck]; exact h.seamless
      playing := by rw [hdeck]; exact h.playing
      frames := h.frames
      running := by
        rw [hdeck]
        exact h.running.playPeriod h.seamless.start_eq h.seamless.stop_eq h.seamless.contiguous
          hasks.positive hasks.fits.1
      onGrid := by
        rw [hspec, hdeck, hlands.toRat_time_playPeriod]
        exact hready.onGrid.add (AudioSpec.onGrid_count hasks.whole)
      whole := by
        rw [hstore]
        exact h.whole.read (width_dvd_heardCounts _ _ _ hasks.whole _)
      seek := by
        intro event hevent
        rcases List.mem_append.mp hevent with hold | hnew
        · exact h.seek event hold
        · exact Timeline.isSeek_select hnew
      wrap := by
        intro loop hevent
        rw [hloop]
        rcases List.mem_append.mp hevent with hold | hnew
        · exact (h.wrap loop hold).trans hready.loop_le
        · rcases Timeline.mem_events_select hnew with hsame | hother
          · cases hsame
            exact le_rfl
          · cases hother
      spans := by rw [hspec]; exact h.spans
      stock := by
        intro key hkey
        rw [hloop] at hkey
        rw [hspec, hunread]
        exact (h.stock key (hready.loop_le.trans hkey)).drop _
      later := by
        intro key hkey
        rw [hloop] at hkey
        have hbeyond := hready.loop_le
        exact h.later key (by omega)
      here := by
        rw [hloop, hdeck]
        exact hready.begins_render h hasks hatom hlands
      next := by
        rw [hloop]
        intro layer hlayer hopen
        rw [hdeck] at hlayer
        rw [hspec, unread_render_of_ne h hasks hatom hlands (Nat.succ_ne_self _)]
        exact hready.next layer hlayer hopen }

end Period

/-! ### Runs -/

section Run

variable {player : Player} {timeline : Timeline} {lead : Seconds} {chunkFrames : Nat}
  (h : timeline.Seamless player.deck.spec stop)

include h

/-- Every step keeps a broadcast stocked, and no period counts as starved. -/
theorem Run.stocked {filled : Bool}
    (hrun : Run (opening player timeline lead chunkFrames) filled broadcast) :
    broadcast.Stocked stop ∧ (filled = true → broadcast.Filled stop) ∧
      broadcast.player.stats.starved = player.stats.starved := by
  induction hrun with
  | start => exact ⟨stocked_opening player h lead chunkFrames, nofun, rfl⟩
  | fill run fits ih =>
    obtain ⟨hstocked, -, hstarved⟩ := ih
    exact ⟨hstocked.fill fits, fun _ ↦ hstocked.filled_fill fits, by rw [stats_fill, hstarved]⟩
  | render run asks ih =>
    obtain ⟨hstocked, hfilled, hstarved⟩ := ih
    obtain ⟨atom, hatom, hlands⟩ := hstocked.running.lands hstocked.seamless.start_eq
      hstocked.seamless.stop_eq hstocked.seamless.contiguous asks.positive asks.fits.1
    obtain ⟨-, -, hcount⟩ := render_eq hstocked asks hatom hlands
    have hsync := hstocked.period_inSync asks hatom hlands (hfilled rfl)
    refine ⟨hstocked.render asks hatom hlands (hfilled rfl), nofun, ?_⟩
    rw [hcount, hsync.starved, hstarved]
    rfl
  | deliver run sent ih =>
    obtain ⟨hstocked, hfilled, hstarved⟩ := ih
    have hkept := hstocked.kept_deliver sent
    exact ⟨hstocked.kept hkept, fun hfull ↦ (hfilled hfull).kept hkept,
      by rw [hkept.stats_eq, hstarved]⟩

/-- From the publishing of a timeline on, through any number of wraps, every period that follows a
fill is in sync: an atom is chosen for it, no queue is too short, and every sample that is mixed was
made for the time at which it is heard, in the pass the clock shows. Under each key the chunks made
so far cover a stretch of time once, so there is one sample for each time. Assumes: the timeline is
seamless, two periods are no longer than the lead, and the times that are computed can be stored. -/
theorem Run.inSync (hrun : Run (opening player timeline lead chunkFrames) true broadcast)
    (hasks : broadcast.Asks bytes) :
    (∃ atom, (broadcast.deck.select bytes).1.atom = some atom ∧ broadcast.InSync bytes atom) ∧
      (broadcast.render bytes).player.stats.starved = player.stats.starved ∧
      ∀ key, ∃ first last,
        Spans broadcast.spec first (chunksFor key broadcast.made) last := by
  obtain ⟨hstocked, hfilled, -⟩ := hrun.stocked h
  obtain ⟨-, -, hstarved⟩ := (hrun.render hasks).stocked h
  obtain ⟨atom, hatom, hlands⟩ := hstocked.running.lands hstocked.seamless.start_eq
    hstocked.seamless.stop_eq hstocked.seamless.contiguous hasks.positive hasks.fits.1
  exact ⟨⟨atom, hatom, hstocked.period_inSync hasks hatom hlands (hfilled rfl)⟩, hstarved,
    hstocked.spans⟩

end Run

/-- Three seconds with a layer throughout and one in the first second. -/
def round : Timeline where
  atoms :=
    [⟨.ofInt 0, .ofInt 2, [⟨.ofNat 1, .ofInt 0, .ofInt 3, 1⟩, ⟨.ofNat 2, .ofInt 0, .ofInt 1, 1⟩]⟩,
      ⟨.ofInt 2, .ofInt 3, [⟨.ofNat 1, .ofInt 0, .ofInt 3, 1⟩]⟩]
  ordered := by decide +kernel

/-- A player without a timeline, at one frame a second. -/
def soloist : Player :=
  .new .oneHertz 1 ⟨64, [], 0, true⟩ (.new 0 1)

/-- The round, published with a producer four seconds ahead, after a period of two seconds. -/
def encore : Broadcast :=
  ((opening soloist round (.ofInt 4) 3).fill.render 8).fill

theorem seamless_round : round.Seamless soloist.deck.spec (.ofInt 3) where
  start_eq := by decide +kernel
  stop_eq := by decide +kernel
  contiguous := by
    unfold Timeline.Contiguous
    decide +kernel
  oneSpan := by decide +kernel
  distinct := by decide +kernel
  listed := by decide +kernel
  onGrid := by decide +kernel

theorem run_encore : Run (opening soloist round (.ofInt 4) 3) true encore := by
  have hfill : Run (opening soloist round (.ofInt 4) 3) true
      (opening soloist round (.ofInt 4) 3).fill := .fill .start (by decide +kernel)
  have hasks : (opening soloist round (.ofInt 4) 3).fill.Asks 8 :=
    ⟨by decide +kernel, by decide, by decide +kernel, by decide +kernel⟩
  exact .fill (.render hfill hasks) (by decide +kernel)

/-- Two more seconds go past the end, and are in sync at the beginning of the next pass. -/
theorem Run.inSync_encore :
    (round.Seamless soloist.deck.spec (.ofInt 3) ∧
      Run (opening soloist round (.ofInt 4) 3) true encore ∧ encore.Asks 8) ∧
    (encore.deck.select 8).2.clock.loop = 1 ∧
    (∃ atom, (encore.deck.select 8).1.atom = some atom ∧ encore.InSync 8 atom) ∧
    (encore.render 8).player.stats.starved = soloist.stats.starved ∧
    ∀ key, ∃ first last, Spans encore.spec first (chunksFor key encore.made) last := by
  have hasks : encore.Asks 8 :=
    ⟨by decide +kernel, by decide, by decide +kernel, by decide +kernel⟩
  have hwraps : (encore.deck.select 8).2.clock.loop = 1 := by decide +kernel
  exact ⟨⟨seamless_round, run_encore, hasks⟩, hwraps, run_encore.inSync seamless_round hasks⟩

end Broadcast

end TimelineMixer
