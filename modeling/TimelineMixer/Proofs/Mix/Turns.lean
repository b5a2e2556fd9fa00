import TimelineMixer.Proofs.Mix.Accounts

/-!
# Filling turn by turn

A region is filled by a loop on the store. Each turn looks up the front chunk and the cursor of the
key, cuts a part out of the output and a part out of the chunk, adds one to the other, and removes
the chunk if it took all that remained of it. A cut whose bounds are out of order or out of range is
refused (`slice?`), and so is taking more off the byte count than it holds (`LayerStore.pop?`).

The loop says nothing about samples or cursors, and a cursor may be moved anywhere
(`StoreEdit.setCursor`): behind the end of the chunk, or inside a sample. Even so no turn is
refused, each of them goes on in the output or removes a chunk of which nothing is left, and the
loop ends, at the latest with one turn more than there are chunks (`fillLayer_runs`).
-/

set_option autoImplicit false
set_option relaxedAutoImplicit false

namespace TimelineMixer

/-- The part of a row between two places, which have to be in order and inside the row. -/
def slice? {α : Type} (first last : Nat) (row : List α) : Option (List α) :=
  if first ≤ last ∧ last ≤ row.length then some ((row.drop first).take (last - first)) else none

theorem slice?_of_le {α : Type} {first last : Nat} (row : List α) (hordered : first ≤ last)
    (hinside : last ≤ row.length) :
    slice? first last row = some ((row.drop first).take (last - first)) :=
  if_pos ⟨hordered, hinside⟩

/-! ### The loop -/

/-- A region that is being filled, between two turns. -/
structure Filling where
  store : LayerStore
  out : List Float32
  /-- The byte of the output where the next turn begins. -/
  pos : Nat
  mixed : Nat

/-- What a turn leads to. -/
inductive Turn where
  | ended (mix : LayerMix)
  | goesOn (next : Filling)

namespace LayerStore

/-- Removes the front chunk of a key, whose size has to be covered by the byte count. -/
def pop? (store : LayerStore) (key : QueueKey) : Option LayerStore :=
  match store.find? key with
  | some ⟨chunk :: _, _, bytes⟩ => if chunk.size ≤ bytes then some (store.pop key).2 else none
  | _ => some (store.pop key).2

/-- Takes bytes off the front chunk of a key, which is removed if these are all that remained. -/
def take? (store : LayerStore) (key : QueueKey) (chunk : Chunk) (count : Nat) :
    Option LayerStore :=
  let cursor := store.cursor key
  if count = cursor.remaining chunk then store.pop? key
  else some (store.setCursor key ⟨cursor.position chunk + count, true⟩)

end LayerStore

namespace Filling

section Loop

variable (key : QueueKey) (gain : Float32) (stop : Nat)

/-- A turn, unless it is refused. -/
def turn? (filling : Filling) : Option Turn :=
  if filling.pos < stop then
    match filling.store.front? key with
    | none => some (.ended ⟨filling.out, filling.store, filling.mixed, true⟩)
    | some chunk => do
      let cursor := filling.store.cursor key
      let offset := cursor.position chunk
      let take := min (cursor.remaining chunk) (stop - filling.pos)
      let first := filling.pos / Sample.width
      let last := (filling.pos + take) / Sample.width
      let part ← slice? first last filling.out
      let data ← slice? offset (offset + take) chunk.data
      let store ← filling.store.take? key chunk take
      let out := filling.out.take first ++ blend gain part (Sample.decode data) ++
        filling.out.drop last
      some (.goesOn ⟨store, out, filling.pos + take, filling.mixed + take⟩)
  else some (.ended ⟨filling.out, filling.store, filling.mixed, false⟩)

/-- Turns one after the other, with what each of them finds; nothing if one is refused, or if the
loop has not ended after as many turns as the bound says. -/
def run? : Nat → Filling → Option (List Filling × LayerMix)
  | 0, _ => none
  | bound + 1, filling => do
    match ← filling.turn? key gain stop with
    | .ended mix => some ([filling], mix)
    | .goesOn next => do
      let (later, mix) ← run? bound next
      some (filling :: later, mix)

end Loop

/-- The loop has gone on in the output, or has removed a chunk of which nothing was left. -/
def Advances (key : QueueKey) (before after : Filling) : Prop :=
  before.pos < after.pos ∨ after.pos = before.pos ∧
    ∃ chunk, before.store.chunks key = chunk :: after.store.chunks key ∧
      (before.store.cursor key).remaining chunk = 0

/-- The loop is inside a region, and outside of it the output is as it was. -/
structure Within (first stop : Nat) (out : List Float32) (filling : Filling) : Prop where
  first_le : first ≤ filling.pos
  le_stop : filling.pos ≤ max first stop
  length_eq : filling.out.length = out.length
  outside : ∀ i, i < first / Sample.width ∨ stop / Sample.width ≤ i → filling.out[i]? = out[i]?

theorem Within.refl {stop : Nat} (filling : Filling) :
    filling.Within filling.pos stop filling.out :=
  ⟨Nat.le_refl _, Nat.le_max_left _ _, rfl, fun _ _ ↦ rfl⟩

end Filling

/-! ### One turn -/

theorem getElem?_blendAt_of_outside (gain : Float32) (out : List Float32) {first last i : Nat}
    (data : List UInt8) (h : i < first ∨ last ≤ i) :
    (blendAt gain out first last data)[i]? = out[i]? := by
  have hlength := length_blend gain ((out.drop first).take (last - first)) (Sample.decode data)
  rw [List.length_take, List.length_drop] at hlength
  rw [blendAt, List.getElem?_append, List.getElem?_append, List.length_append, hlength,
    List.length_take]
  rcases Nat.lt_or_ge i (min first out.length) with hbefore | hbehind
  · rw [if_pos (by omega), if_pos hbefore, List.getElem?_take_of_lt (by omega)]
  · rw [if_neg (by omega), List.getElem?_drop, List.getElem?_drop]
    rcases Nat.lt_or_ge i out.length with hinside | hbeyond
    · congr 1
      omega
    · rw [List.getElem?_eq_none (by omega), List.getElem?_eq_none hbeyond]

namespace Filling

variable {key : QueueKey} (gain : Float32) {stop : Nat}

theorem turn?_of_le {filling : Filling} (h : stop ≤ filling.pos) :
    filling.turn? key gain stop =
      some (.ended ⟨filling.out, filling.store, filling.mixed, false⟩) :=
  if_neg (Nat.not_lt.mpr h)

theorem turn?_of_front?_eq_none {filling : Filling} (h : filling.store.front? key = none) :
    filling.turn? key gain stop =
      some (.ended ⟨filling.out, filling.store, filling.mixed, filling.pos < stop⟩) := by
  rw [turn?, h]
  split_ifs with hroom
  · simp [hroom]
  · simp [hroom]

/-- Wherever the cursor stands, what a turn takes lies inside the output and inside the chunk. -/
theorem turn?_of_front? (filling : Filling) (hroom : filling.pos < stop)
    (hstop : stop ≤ Sample.width * filling.out.length) {chunk : Chunk}
    (hfront : filling.store.front? key = some chunk) :
    let cursor := filling.store.cursor key
    let offset := cursor.position chunk
    let take := min (cursor.remaining chunk) (stop - filling.pos)
    filling.turn? key gain stop =
      (filling.store.take? key chunk take).map fun store ↦
        .goesOn ⟨store, blendAt gain filling.out (filling.pos / Sample.width)
          ((filling.pos + take) / Sample.width) ((chunk.data.drop offset).take take),
          filling.pos + take, filling.mixed + take⟩ := by
  intro cursor offset take
  have hremaining : cursor.remaining chunk = chunk.size - offset := LayerQueue.remaining_eq ..
  have hplace : offset ≤ chunk.size := by
    simp only [offset, Cursor.position]
    split_ifs <;> omega
  have htaken : take ≤ cursor.remaining chunk := Nat.min_le_left _ _
  have hroomLeft : take ≤ stop - filling.pos := Nat.min_le_right _ _
  have hordered : filling.pos / Sample.width ≤ (filling.pos + take) / Sample.width :=
    Nat.div_le_div_right (Nat.le_add_right _ _)
  have hinside : (filling.pos + take) / Sample.width ≤ filling.out.length :=
    Nat.div_le_of_le_mul (by omega)
  have hpart := slice?_of_le filling.out hordered hinside
  have hdata := slice?_of_le chunk.data (Nat.le_add_right offset take)
    (show offset + take ≤ chunk.size by omega)
  have hrest : filling.out.drop ((filling.pos + take) / Sample.width) =
      (filling.out.drop (filling.pos / Sample.width)).drop
        ((filling.pos + take) / Sample.width - filling.pos / Sample.width) := by
    rw [List.drop_drop, Nat.add_sub_cancel' hordered]
  rw [Nat.add_sub_cancel_left] at hdata
  rw [turn?, if_pos hroom, hfront]
  dsimp only
  rw [hpart, hdata, hrest]
  exact (Option.map_eq_bind ..).symm

end Filling

/-! ### The turns of one queue -/

namespace LayerQueue

variable (gain : Float32) {stop pos : Nat} (hroom : pos < stop) {chunk : Chunk} {rest : List Chunk}
  {cursor : Cursor} (bytes mixed : Nat) (out : List Float32)

include hroom

/-- A region that has room for what remains of the front chunk goes on with the others. -/
theorem fillFrom_of_remaining_le (hpop : cursor.remaining chunk ≤ stop - pos) :
    fillFrom gain stop (chunk :: rest) cursor bytes pos mixed out =
      fillFrom gain stop rest .fresh (bytes - chunk.size) (pos + cursor.remaining chunk)
        (mixed + cursor.remaining chunk)
        (blendAt gain out (pos / Sample.width) ((pos + cursor.remaining chunk) / Sample.width)
          ((chunk.data.drop (cursor.position chunk)).take (cursor.remaining chunk))) := by
  rw [fillFrom]
  simp only [if_pos hroom, Nat.min_eq_left hpop, if_true]

/-- A region that ends inside the front chunk leaves the cursor there. -/
theorem fillFrom_of_lt_remaining (hlt : stop - pos < cursor.remaining chunk) :
    fillFrom gain stop (chunk :: rest) cursor bytes pos mixed out =
      ⟨blendAt gain out (pos / Sample.width) ((pos + (stop - pos)) / Sample.width)
          ((chunk.data.drop (cursor.position chunk)).take (stop - pos)),
        ⟨chunk :: rest, ⟨cursor.position chunk + (stop - pos), true⟩, bytes⟩,
        mixed + (stop - pos), false⟩ := by
  rw [fillFrom]
  simp only [if_pos hroom, Nat.min_eq_right hlt.le, if_neg hlt.ne]

end LayerQueue

namespace LayerStore

/-- The store with a queue in the place of the one that a key has. -/
def hold (store : LayerStore) (key : QueueKey) (queue : LayerQueue) : LayerStore :=
  store.modify key fun _ ↦ queue

theorem modify_hold (store : LayerStore) (key : QueueKey) (queue : LayerQueue)
    (change : LayerQueue → LayerQueue) :
    (store.hold key queue).modify key change = store.hold key (change queue) := by
  simp only [hold, modify, List.map_map]
  congr 1
  refine List.map_congr_left fun entry _ ↦ ?_
  by_cases hkey : entry.1 = key
  · simp [hkey]
  · simp [hkey]

theorem hold_self {store : LayerStore} (nodup : (store.queues.map Prod.fst).Nodup)
    {key : QueueKey} {queue : LayerQueue} (hfind : store.find? key = some queue) :
    store.hold key queue = store := by
  have hsame : store.hold key queue = store.modify key id := modify_congr nodup hfind rfl
  rw [hsame, modify]
  congr 1
  exact (List.map_congr_left fun entry _ ↦ ite_self _).trans (List.map_id _)

section Hold

variable {store : LayerStore} {key : QueueKey} (hfound : (store.find? key).isSome)

include hfound

theorem find?_hold (queue : LayerQueue) : (store.hold key queue).find? key = some queue := by
  obtain ⟨old, hold⟩ := Option.isSome_iff_exists.mp hfound
  rw [LayerStore.hold, find?_modify_self, hold, Option.map_some]

theorem front?_hold (queue : LayerQueue) :
    (store.hold key queue).front? key = queue.chunks.head? := by
  rw [front?, find?_hold hfound, Option.bind_some]

theorem cursor_hold (queue : LayerQueue) : (store.hold key queue).cursor key = queue.cursor := by
  rw [cursor, find?_hold hfound]
  rfl

theorem chunks_hold (queue : LayerQueue) : (store.hold key queue).chunks key = queue.chunks := by
  rw [chunks, find?_hold hfound]
  rfl

variable {chunk : Chunk} {rest : List Chunk} {cursor : Cursor} {bytes : Nat}

/-- Taking all that remains of the front chunk removes it. -/
theorem take?_hold_remaining (hbytes : chunk.size ≤ bytes) :
    (store.hold key ⟨chunk :: rest, cursor, bytes⟩).take? key chunk (cursor.remaining chunk) =
      some (store.hold key ⟨rest, .fresh, bytes - chunk.size⟩) := by
  rw [take?, cursor_hold hfound, if_pos rfl, pop?, find?_hold hfound]
  dsimp only
  rw [if_pos hbytes, pop, modify_hold]
  rfl

/-- Taking less moves the cursor. -/
theorem take?_hold_of_lt {count : Nat} (hcount : count < cursor.remaining chunk) :
    (store.hold key ⟨chunk :: rest, cursor, bytes⟩).take? key chunk count =
      some (store.hold key ⟨chunk :: rest, ⟨cursor.position chunk + count, true⟩, bytes⟩) := by
  rw [take?, cursor_hold hfound, if_neg hcount.ne, setCursor, modify_hold]

end Hold

end LayerStore

namespace Filling

variable {key : QueueKey} (gain : Float32) {stop : Nat}

theorem run?_of_ended {filling : Filling} {mix : LayerMix}
    (h : filling.turn? key gain stop = some (.ended mix)) (bound : Nat) :
    run? key gain stop (bound + 1) filling = some ([filling], mix) := by
  rw [run?, h]
  rfl

theorem run?_of_goesOn {filling next : Filling}
    (h : filling.turn? key gain stop = some (.goesOn next)) {bound : Nat} {later : List Filling}
    {mix : LayerMix} (hlater : run? key gain stop bound next = some (later, mix)) :
    run? key gain stop (bound + 1) filling = some (filling :: later, mix) := by
  rw [run?, h]
  dsimp only [Option.bind_eq_bind, Option.bind_some]
  rw [hlater]
  rfl

theorem out_eq_of_turn? {filling : Filling} {mix : LayerMix}
    (h : filling.turn? key gain stop = some (.ended mix)) : mix.out = filling.out := by
  rw [turn?] at h
  split_ifs at h
  · split at h
    · cases h
      rfl
    · simp [Option.bind_eq_some_iff] at h
  · cases h
    rfl

/-- The loop returns the output that it has found last. -/
theorem exists_out_eq_of_run? {bound : Nat} {filling : Filling} {visited : List Filling}
    {mix : LayerMix} (h : run? key gain stop bound filling = some (visited, mix)) :
    ∃ last ∈ visited, mix.out = last.out := by
  induction bound generalizing filling visited with
  | zero => exact absurd h (by simp [run?])
  | succ bound ih =>
    cases hturn : filling.turn? key gain stop with
    | none => simp [run?, hturn] at h
    | some turn =>
      cases turn with
      | ended ending =>
        rw [run?_of_ended gain hturn] at h
        cases h
        exact ⟨filling, List.mem_singleton_self _, out_eq_of_turn? gain hturn⟩
      | goesOn next =>
        rw [run?, hturn] at h
        dsimp only [Option.bind_eq_bind, Option.bind_some] at h
        obtain ⟨⟨later, ending⟩, hlater, hrest⟩ := Option.bind_eq_some_iff.mp h
        cases hrest
        obtain ⟨last, hlast, hout⟩ := ih hlater
        exact ⟨last, List.mem_cons_of_mem _ hlast, hout⟩

/-- What is in the rest of a region, and leaves alone what is outside of it, is in the region. -/
theorem Within.of_rest {filling : Filling} {pos count : Nat} {out : List Float32}
    {data : List UInt8} (hcount : pos + count ≤ stop)
    (h : filling.Within (pos + count) stop
      (blendAt gain out (pos / Sample.width) ((pos + count) / Sample.width) data)) :
    filling.Within pos stop out := by
  have hbounds : pos / Sample.width ≤ (pos + count) / Sample.width ∧
      (pos + count) / Sample.width ≤ stop / Sample.width :=
    ⟨Nat.div_le_div_right (Nat.le_add_right _ _), Nat.div_le_div_right hcount⟩
  obtain ⟨hfirst, hstop, hlength, houtside⟩ := h
  refine ⟨by omega, by omega, hlength.trans (length_blendAt ..), fun i hi ↦ ?_⟩
  rw [houtside i (by omega)]
  exact getElem?_blendAt_of_outside gain out data (by omega)

section Hold

variable {store : LayerStore} (hfound : (store.find? key).isSome) {chunk : Chunk}
  (rest : List Chunk) (cursor : Cursor) (bytes pos mixed : Nat) {out : List Float32}

include hfound

/-- A turn that has room for all that remains of the front chunk. -/
theorem turn?_hold_remaining (hbytes : chunk.size ≤ bytes) (hroom : pos < stop)
    (hstop : stop ≤ Sample.width * out.length) (hpop : cursor.remaining chunk ≤ stop - pos) :
    turn? key gain stop ⟨store.hold key ⟨chunk :: rest, cursor, bytes⟩, out, pos, mixed⟩ =
      some (.goesOn ⟨store.hold key ⟨rest, .fresh, bytes - chunk.size⟩,
        blendAt gain out (pos / Sample.width) ((pos + cursor.remaining chunk) / Sample.width)
          ((chunk.data.drop (cursor.position chunk)).take (cursor.remaining chunk)),
        pos + cursor.remaining chunk, mixed + cursor.remaining chunk⟩) := by
  have hturn := turn?_of_front? gain
    ⟨store.hold key ⟨chunk :: rest, cursor, bytes⟩, out, pos, mixed⟩ hroom hstop
    (LayerStore.front?_hold hfound _)
  simp only [LayerStore.cursor_hold hfound, Nat.min_eq_left hpop,
    LayerStore.take?_hold_remaining hfound hbytes] at hturn
  exact hturn

/-- A turn that fills the region. -/
theorem turn?_hold_of_lt (hroom : pos < stop) (hstop : stop ≤ Sample.width * out.length)
    (hlt : stop - pos < cursor.remaining chunk) :
    turn? key gain stop ⟨store.hold key ⟨chunk :: rest, cursor, bytes⟩, out, pos, mixed⟩ =
      some (.goesOn
        ⟨store.hold key ⟨chunk :: rest, ⟨cursor.position chunk + (stop - pos), true⟩, bytes⟩,
        blendAt gain out (pos / Sample.width) ((pos + (stop - pos)) / Sample.width)
          ((chunk.data.drop (cursor.position chunk)).take (stop - pos)),
        pos + (stop - pos), mixed + (stop - pos)⟩) := by
  have hturn := turn?_of_front? gain
    ⟨store.hold key ⟨chunk :: rest, cursor, bytes⟩, out, pos, mixed⟩ hroom hstop
    (LayerStore.front?_hold hfound _)
  simp only [LayerStore.cursor_hold hfound, Nat.min_eq_right hlt.le,
    LayerStore.take?_hold_of_lt hfound hlt] at hturn
  exact hturn

/-- By induction over the chunks: a turn removes the first of them and leaves the loop to the
others, or it fills the region, after which the loop ends. -/
theorem run?_hold {chunks : List Chunk} (hbytes : bytes = (chunks.map Chunk.size).sum)
    (hstop : stop ≤ Sample.width * out.length) :
    let begun : Filling := ⟨store.hold key ⟨chunks, cursor, bytes⟩, out, pos, mixed⟩
    let filled := LayerQueue.fillFrom gain stop chunks cursor bytes pos mixed out
    ∃ later, begun.run? key gain stop (chunks.length + 1) =
        some (begun :: later, ⟨filled.out, store.hold key filled.queue, filled.mixed,
          filled.starved⟩) ∧
      (begun :: later).IsChain (Advances key) ∧
      ∀ filling ∈ begun :: later, filling.Within pos stop out := by
  have hself : ∀ begun : Filling, ∀ filling ∈ [begun], filling.Within begun.pos stop begun.out :=
    fun begun filling hfilling ↦ List.mem_singleton.mp hfilling ▸ Within.refl begun
  induction chunks generalizing cursor bytes pos mixed out with
  | nil =>
    intro begun filled
    have hnone : begun.store.front? key = none := LayerStore.front?_hold hfound _
    refine ⟨[], ?_, List.IsChain.singleton _, hself begun⟩
    rw [run?_of_ended gain (turn?_of_front?_eq_none gain hnone)]
    simp only [filled, LayerQueue.fillFrom]
    split_ifs with hroom
    · simp [begun, hroom]
    · simp [begun, hroom]
  | cons chunk rest ih =>
    intro begun filled
    rw [List.map_cons, List.sum_cons] at hbytes
    rcases Nat.lt_or_ge pos stop with hroom | hfull
    · by_cases hpop : cursor.remaining chunk ≤ stop - pos
      · -- Nothing remains of the chunk, and the next turn finds the others.
        have hturn := turn?_hold_remaining gain hfound rest cursor bytes pos mixed
          (show chunk.size ≤ bytes by omega) hroom hstop hpop
        obtain ⟨later, hlater, hchain, hwithin⟩ := ih .fresh _ (pos + cursor.remaining chunk)
          (mixed + cursor.remaining chunk) (show bytes - chunk.size = _ by omega)
          ((length_blendAt ..).symm ▸ hstop)
        rw [show filled = _ from
          LayerQueue.fillFrom_of_remaining_le gain hroom bytes mixed out hpop]
        refine ⟨_, run?_of_goesOn gain hturn hlater, List.IsChain.cons_cons ?_ hchain,
          fun filling hfilling ↦ ?_⟩
        · rcases Nat.eq_zero_or_pos (cursor.remaining chunk) with hnone | hsome
          · refine Or.inr ⟨congrArg (pos + ·) hnone, chunk, ?_, ?_⟩
            · rw [LayerStore.chunks_hold hfound, LayerStore.chunks_hold hfound]
            · rw [LayerStore.cursor_hold hfound, hnone]
          · exact Or.inl (Nat.lt_add_of_pos_right hsome)
        · rcases List.mem_cons.mp hfilling with rfl | hrest
          · exact Within.refl begun
          · exact (hwithin filling hrest).of_rest gain (by omega)
      · -- The region ends inside the chunk, and so does the loop.
        have hlt : stop - pos < cursor.remaining chunk := Nat.lt_of_not_le hpop
        have hend : stop ≤ pos + (stop - pos) := by omega
        have hturn := turn?_hold_of_lt gain hfound rest cursor bytes pos mixed hroom hstop hlt
        have hrun := run?_of_goesOn gain hturn
          (run?_of_ended gain (turn?_of_le gain hend) rest.length)
        rw [show filled = _ from
          LayerQueue.fillFrom_of_lt_remaining gain hroom bytes mixed out hlt]
        refine ⟨_, hrun, List.isChain_pair.mpr (Or.inl ?_), fun filling hfilling ↦ ?_⟩
        · exact hroom.trans_le hend
        · rcases List.mem_cons.mp hfilling with rfl | hlast
          · exact Within.refl begun
          · exact (hself _ filling hlast).of_rest gain (by omega)
    · refine ⟨[], ?_, List.IsChain.singleton _, hself begun⟩
      rw [run?_of_ended gain (turn?_of_le gain hfull)]
      simp only [filled, LayerQueue.fillFrom, if_neg (Nat.not_lt.mpr hfull)]
      rfl

end Hold

end Filling

/-! ### Any store -/

/-- What becomes of a store: a call, or a cursor that is moved at will. -/
inductive StoreEdit where
  | call (action : StoreAction)
  | setCursor (key : QueueKey) (cursor : Cursor)

namespace LayerQueue

/-- The byte count is the sum of the sizes. -/
def Summed (queue : LayerQueue) : Prop :=
  queue.bytes = (queue.chunks.map Chunk.size).sum

theorem summed_empty : empty.Summed :=
  rfl

namespace Summed

variable {queue : LayerQueue}

theorem push (h : queue.Summed) (chunk : Chunk) : (queue.push chunk).Summed := by
  change queue.bytes + chunk.size = ((queue.chunks ++ [chunk]).map Chunk.size).sum
  rw [h]
  simp

theorem tail {chunk : Chunk} {rest : List Chunk} {cursor : Cursor} {bytes : Nat}
    (h : Summed ⟨chunk :: rest, cursor, bytes⟩) : Summed ⟨rest, .fresh, bytes - chunk.size⟩ := by
  have hbytes : bytes = chunk.size + (rest.map Chunk.size).sum := h
  exact Nat.sub_eq_of_eq_add' hbytes

theorem pop (h : queue.Summed) : queue.pop.Summed := by
  obtain ⟨chunks, cursor, bytes⟩ := queue
  match chunks with
  | [] => exact h
  | chunk :: rest => exact h.tail

theorem read (h : queue.Summed) (count : Nat) : (queue.read count).Summed := by
  obtain ⟨chunks, cursor, bytes⟩ := queue
  change (readFrom count chunks cursor bytes).Summed
  induction chunks generalizing count cursor bytes with
  | nil => exact h
  | cons chunk rest ih =>
    rw [readFrom]
    split_ifs
    · exact h
    · exact ih _ _ _ h.tail
    · exact h

end Summed

end LayerQueue

namespace LayerStore

/-- The store after an edit. -/
def edit (store : LayerStore) : StoreEdit → LayerStore
  | .call action => store.step action
  | .setCursor key cursor => store.setCursor key cursor

/-- The store after edits one after the other. -/
def editAll (store : LayerStore) (edits : List StoreEdit) : LayerStore :=
  edits.foldl edit store

section Each

variable {property : LayerQueue → Prop}
  (hread : ∀ queue, property queue → ∀ count, property (queue.read count))

include hread

theorem Each.fillLayer {store : LayerStore} (h : store.Each property) (out : List Float32)
    (start stop : Nat) (key : QueueKey) (gain : Float32) :
    (fillLayer store out start stop key gain).store.Each property := by
  cases hfind : store.find? key with
  | none =>
    rw [TimelineMixer.fillLayer, hfind]
    exact h
  | some queue =>
    have hfilled : ∀ fill : Fill, property fill.queue →
        (store.modify key fun _ ↦ fill.queue).Each property :=
      fun fill hfill ↦ h.modify key fun _ _ ↦ hfill
    rw [TimelineMixer.fillLayer, hfind]
    refine hfilled _ ?_
    rw [LayerQueue.fill, LayerQueue.queue_fillFrom]
    exact hread queue (h.find? hfind) _

theorem Each.mixLayers (spec : AudioSpec) (current next : Seconds) (loop : Nat)
    (layers : List Layer) (mix : FrameMix) (h : mix.store.Each property) :
    (layers.foldl (mixLayer spec current next loop) mix).store.Each property := by
  induction layers generalizing mix with
  | nil => exact h
  | cons layer rest ih =>
    refine ih _ ?_
    rw [mixLayer]
    obtain ⟨start, stop⟩ := layer.region spec current next (Sample.width * mix.out.length)
    dsimp only
    by_cases hheard : (layer.overlaps current next && decide (start < stop)) = true
    · rw [if_pos hheard]
      exact h.fillLayer hread mix.out start stop _ _
    · rw [if_neg hheard]
      exact h

end Each

/-- Edits do not touch a byte count without the chunks that it counts. -/
theorem Each.edit {store : LayerStore} (h : store.Each LayerQueue.Summed) (edit : StoreEdit) :
    (store.edit edit).Each LayerQueue.Summed := by
  have hread := fun (queue : LayerQueue) (hqueue : queue.Summed) ↦ hqueue.read
  match edit with
  | .setCursor key cursor =>
    change (store.modify key fun queue ↦ { queue with cursor }).Each _
    exact h.modify key fun _ hqueue ↦ hqueue
  | .call (.push key chunk) =>
    exact h.push key LayerQueue.summed_empty fun _ _ hqueue ↦ hqueue.push chunk
  | .call (.pop key) => exact h.modify key fun _ hqueue ↦ hqueue.pop
  | .call (.fill out start stop key gain) => exact h.fillLayer hread out start stop key gain
  | .call (.mix out atom current next loop spec) =>
    exact Each.mixLayers hread spec current next loop atom.layers ⟨out, store, 0, 0, 0⟩ h
  | .call .clear => exact each_empty
  | .call (.removeLoop _) | .call (.removeLoopsBefore _) => exact h.filter _

theorem Each.editAll {store : LayerStore} (h : store.Each LayerQueue.Summed)
    (edits : List StoreEdit) : (store.editAll edits).Each LayerQueue.Summed := by
  induction edits generalizing store with
  | nil => exact h
  | cons edit rest ih => exact ih (h.edit edit)

end LayerStore

/-- The loop from the beginning of a region on is what filling the region does. -/
theorem Filling.run?_fillLayer {store : LayerStore} (h : store.Each LayerQueue.Summed)
    (out : List Float32) (start stop : Nat) (key : QueueKey) (gain : Float32) :
    let first := Sample.alignDown (min start (Sample.width * out.length))
    let last := Sample.alignDown (min stop (Sample.width * out.length))
    let begun : Filling := ⟨store, out, first, 0⟩
    ∃ later, begun.run? key gain last ((store.chunks key).length + 1) =
        some (begun :: later, fillLayer store out start stop key gain) ∧
      (begun :: later).IsChain (Advances key) ∧
      ∀ filling ∈ begun :: later, filling.Within first last out := by
  intro first last begun
  cases hfind : store.find? key with
  | none =>
    have hnone : store.front? key = none := by rw [LayerStore.front?, hfind, Option.bind_none]
    refine ⟨[], ?_, List.IsChain.singleton _, fun filling hfilling ↦ ?_⟩
    · rw [run?_of_ended gain (turn?_of_front?_eq_none gain hnone), fillLayer, hfind]
    · exact List.mem_singleton.mp hfilling ▸ Within.refl begun
  | some queue =>
    have hlast : last ≤ Sample.width * out.length :=
      (Nat.sub_le _ _).trans (Nat.min_le_right _ _)
    have hrun := run?_hold gain (show (store.find? key).isSome by rw [hfind]; rfl) queue.cursor
      queue.bytes first 0 (h.find? hfind) hlast
    rw [LayerStore.hold_self h.nodup hfind] at hrun
    rw [LayerStore.chunks, hfind, fillLayer, hfind]
    exact hrun

/-- Whatever was pushed, read and dropped, and wherever the cursors were moved, filling a region is
a loop in which no turn is refused: every part that is cut out of the output or of a chunk is in
order and in range, and no byte count goes below zero. Each turn goes on in the output or removes a
chunk of which nothing remains, so there is at most one turn more than chunks. None of them writes
outside the region. -/
theorem fillLayer_runs (edits : List StoreEdit) (out : List Float32) (start stop : Nat)
    (key : QueueKey) (gain : Float32) :
    let store := LayerStore.empty.editAll edits
    let first := Sample.alignDown (min start (Sample.width * out.length))
    let last := Sample.alignDown (min stop (Sample.width * out.length))
    let begun : Filling := ⟨store, out, first, 0⟩
    let mix := fillLayer store out start stop key gain
    (∃ later, begun.run? key gain last ((store.chunks key).length + 1) =
        some (begun :: later, mix) ∧
      (begun :: later).IsChain (Filling.Advances key) ∧
      ∀ filling ∈ begun :: later, filling.Within first last out) ∧
    mix.out.length = out.length ∧
    ∀ i, i < first / Sample.width ∨ last / Sample.width ≤ i → mix.out[i]? = out[i]? := by
  intro store first last begun mix
  have hruns := Filling.run?_fillLayer (LayerStore.each_empty.editAll edits) out start stop key gain
  obtain ⟨later, hrun, -, hwithin⟩ := id hruns
  obtain ⟨final, hfinal, hout⟩ := Filling.exists_out_eq_of_run? gain hrun
  rw [hout]
  exact ⟨hruns, (hwithin final hfinal).length_eq, (hwithin final hfinal).outside⟩

end TimelineMixer
