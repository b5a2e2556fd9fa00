import TimelineMixer.Proofs.Ledger
import TimelineMixer.Proofs.Mix.Rounds
import TimelineMixer.Proofs.Queue.Chunks

/-!
# The accounts of a store

Producers push, the mixer fills and mixes, and whoever controls playback drops chunks, passes or
everything. After any such calls on an empty store (`LayerStore.run`) every queue is balanced, and
it was in every round in between, so its byte count was always enough for what was subtracted from
it. For each key a ledger says what became of the bytes that left (`departed`): in their order the
bytes pushed are those of the ledger, then those unread (`accounts_run`).
-/

set_option autoImplicit false
set_option relaxedAutoImplicit false

namespace TimelineMixer

/-- A call on the queues. -/
inductive StoreAction where
  | push (key : QueueKey) (chunk : Chunk)
  | pop (key : QueueKey)
  | fill (out : List Float32) (start stop : Nat) (key : QueueKey) (gain : Float32)
  | mix (out : List Float32) (atom : Atom) (current next : Seconds) (loop : Nat) (spec : AudioSpec)
  | clear
  | removeLoop (loop : Nat)
  | removeLoopsBefore (loop : Nat)

/-- The bytes that a call pushes under a key. -/
def StoreAction.pushed (key : QueueKey) : StoreAction → List UInt8
  | .push other chunk => if other = key then chunk.data else []
  | _ => []

/-- The output that a call mixes into. -/
def StoreAction.target : StoreAction → List Float32
  | .fill out _ _ _ _ => out
  | .mix out _ _ _ _ _ => out
  | _ => []

namespace LayerStore

/-- The store after a call. -/
def step (store : LayerStore) : StoreAction → LayerStore
  | .push key chunk => store.push key chunk
  | .pop key => (store.pop key).2
  | .fill out start stop key gain => (fillLayer store out start stop key gain).store
  | .mix out atom current next loop spec => (mixFrame store out atom current next loop spec).store
  | .clear => .empty
  | .removeLoop loop => store.removeLoop loop
  | .removeLoopsBefore loop => store.removeLoopsBefore loop

/-- The store after calls one after the other. -/
def run (store : LayerStore) (actions : List StoreAction) : LayerStore :=
  actions.foldl step store

/-- The output after a call. -/
def output (store : LayerStore) : StoreAction → List Float32
  | .fill out start stop key gain => (fillLayer store out start stop key gain).out
  | .mix out atom current next loop spec => (mixFrame store out atom current next loop spec).out
  | _ => []

/-- The rounds in which a call mixes. -/
def rounds (store : LayerStore) : StoreAction → List Round
  | .fill out start stop key gain => store.fillRounds out start stop key gain
  | .mix out atom current next loop spec =>
    mixRounds spec current next loop ⟨out, store, 0, 0, 0⟩ atom.layers
  | _ => []

/-- What leaves the queue of a key in a call. -/
def departures (key : QueueKey) (store : LayerStore) : StoreAction → List (Fate × UInt8)
  | .pop other => Fate.discarded.mark (if other = key then store.frontRest key else [])
  | .clear => Fate.discarded.mark (store.unread key)
  | .removeLoop loop => Fate.discarded.mark (if key.loop = loop then store.unread key else [])
  | .removeLoopsBefore loop =>
    Fate.discarded.mark (if key.loop < loop then store.unread key else [])
  | action => Fate.delivered.mark (Round.takenFrom key (store.rounds action))

/-- What left the queue of a key in calls one after the other. -/
def departed (key : QueueKey) : LayerStore → List StoreAction → List (Fate × UInt8) :=
  gather step (departures key)

/-- What the rounds of all calls took from the queue of a key. -/
def consumed (key : QueueKey) : LayerStore → List StoreAction → List UInt8 :=
  gather step fun store action ↦ Round.takenFrom key (store.rounds action)

/-- Dropping keys drops what is unread under them, and nothing else. -/
theorem unread_filter (store : LayerStore) (keep : QueueKey → Bool) (key : QueueKey) :
    unread ⟨store.queues.filter fun entry ↦ keep entry.1⟩ key =
      if keep key then store.unread key else [] := by
  have hkept := ToneProducer.lookup_filter_keys store.queues keep key
  rw [unread, find?, hkept]
  split_ifs
  · rfl
  · rfl

/-- What is dropped with its key, followed by what is unread then, is what was unread. -/
theorem dropped_append_unread_filter (store : LayerStore) (keep : QueueKey → Bool) (key : QueueKey)
    {gone : Prop} [Decidable gone] (h : keep key = true ↔ ¬ gone) :
    (if gone then store.unread key else []) ++
      unread ⟨store.queues.filter fun entry ↦ keep entry.1⟩ key = store.unread key := by
  rw [unread_filter]
  by_cases hgone : gone
  · rw [if_pos hgone, if_neg fun hkeep ↦ h.mp hkeep hgone, List.append_nil]
  · rw [if_neg hgone, if_pos (h.mpr hgone), List.nil_append]

section Step

variable (store : LayerStore)

/-- A call that mixes adds its rounds to the output. -/
theorem output_eq (action : StoreAction) :
    store.output action = (store.rounds action).foldl Round.lay action.target := by
  match action with
  | .fill out start stop key gain => exact out_fillLayer store out start stop key gain
  | .mix out atom current next loop spec =>
    exact (foldl_mixLayer_rounds spec current next loop ⟨out, store, 0, 0, 0⟩ atom.layers).1
  | .push _ _ | .pop _ | .clear | .removeLoop _ | .removeLoopsBefore _ => rfl

/-- No call upsets the balance of a queue, and rounds find the queues balanced. -/
theorem Each.step {store : LayerStore} (h : store.Each LayerQueue.Balanced) (action : StoreAction) :
    (store.step action).Each LayerQueue.Balanced ∧
      ∀ round ∈ store.rounds action, round.queue.Balanced := by
  have hquiet : ∀ round ∈ ([] : List Round), round.queue.Balanced :=
    fun _ hround ↦ absurd hround List.not_mem_nil
  match action with
  | .push key chunk =>
    exact ⟨h.push key LayerQueue.balanced_empty fun hchunk _ hqueue ↦ hqueue.push hchunk, hquiet⟩
  | .pop key => exact ⟨h.modify key fun _ hqueue ↦ hqueue.pop, hquiet⟩
  | .fill out start stop key gain =>
    exact (takes_fillLayer store out start stop key gain).balanced h
  | .mix out atom current next loop spec =>
    exact (foldl_mixLayer_rounds spec current next loop ⟨out, store, 0, 0, 0⟩
      atom.layers).2.balanced h
  | .clear => exact ⟨each_empty, hquiet⟩
  | .removeLoop _ | .removeLoopsBefore _ => exact ⟨h.filter _, hquiet⟩

/-- What leaves a queue in a call, followed by what is unread after it, is what was unread before,
followed by what the call pushes. -/
theorem Each.departures_append_unread {store : LayerStore} (h : store.Each LayerQueue.Balanced)
    (key : QueueKey) (action : StoreAction) :
    (store.departures key action).map Prod.snd ++ (store.step action).unread key =
      store.unread key ++ action.pushed key := by
  match action with
  | .push other chunk =>
    change (store.push other chunk).unread key = _ ++ if other = key then chunk.data else []
    by_cases hkey : other = key
    · rw [if_pos hkey, hkey]
      exact unread_push_self store key chunk fun _ hfind ↦ (h.find? hfind).unread_push chunk
    · rw [if_neg hkey, List.append_nil]
      exact unread_push_of_ne store (Ne.symm hkey) chunk
  | .pop other =>
    change (Fate.discarded.mark _).map Prod.snd ++ (store.pop other).2.unread key = _ ++ []
    rw [Fate.map_snd_mark, List.append_nil]
    by_cases hkey : other = key
    · rw [if_pos hkey, hkey]
      exact store.frontRest_append_unread_pop key
    · rw [if_neg hkey]
      exact store.unread_pop_of_ne (Ne.symm hkey)
  | .fill out start stop other gain =>
    change (Fate.delivered.mark _).map Prod.snd ++ _ = _ ++ []
    rw [Fate.map_snd_mark, List.append_nil]
    exact (takes_fillLayer store out start stop other gain).unread key
  | .mix out atom current next loop spec =>
    change (Fate.delivered.mark _).map Prod.snd ++ _ = _ ++ []
    rw [Fate.map_snd_mark, List.append_nil]
    exact (foldl_mixLayer_rounds spec current next loop ⟨out, store, 0, 0, 0⟩
      atom.layers).2.unread key
  | .clear =>
    change (Fate.discarded.mark _).map Prod.snd ++ [] = _ ++ []
    rw [Fate.map_snd_mark]
  | .removeLoop loop =>
    change (Fate.discarded.mark _).map Prod.snd ++ (store.removeLoop loop).unread key = _ ++ []
    rw [Fate.map_snd_mark, List.append_nil]
    exact store.dropped_append_unread_filter (fun key ↦ decide (key.loop ≠ loop)) key (by simp)
  | .removeLoopsBefore loop =>
    change (Fate.discarded.mark _).map Prod.snd ++ (store.removeLoopsBefore loop).unread key =
      _ ++ []
    rw [Fate.map_snd_mark, List.append_nil]
    exact store.dropped_append_unread_filter (fun key ↦ decide (loop ≤ key.loop)) key (by simp)

end Step

/-- Calls one after the other keep the balance. -/
theorem Each.run {store : LayerStore} (h : store.Each LayerQueue.Balanced)
    (actions : List StoreAction) : (store.run actions).Each LayerQueue.Balanced := by
  induction actions generalizing store with
  | nil => exact h
  | cons action rest ih => exact ih (h.step action).1

/-- Over calls one after the other, the ledger of a key followed by what is unread is what was
unread at first followed by what was pushed. -/
theorem Each.departed_append_unread {store : LayerStore} (h : store.Each LayerQueue.Balanced)
    (key : QueueKey) (actions : List StoreAction) :
    (departed key store actions).map Prod.snd ++ (store.run actions).unread key =
      store.unread key ++ actions.flatMap (StoreAction.pushed key) := by
  rw [departed, map_gather LayerStore.step List.map_nil fun _ _ ↦ List.map_append,
    ← gather_const LayerStore.step (StoreAction.pushed key) store]
  exact gather_append_held LayerStore.step (fun store ↦ store.Each LayerQueue.Balanced)
    (fun store ↦ store.unread key) (fun _ action hstore ↦ (Each.step hstore action).1)
    (fun _ action hstore ↦ Each.departures_append_unread hstore key action) h actions

/-- What the ledger of a key calls delivered is what the rounds took. -/
theorem met_departed (key : QueueKey) (store : LayerStore) (actions : List StoreAction) :
    Fate.delivered.met (departed key store actions) = consumed key store actions := by
  have hstep : ∀ (store : LayerStore) (action : StoreAction),
      Fate.delivered.met (store.departures key action) =
        Round.takenFrom key (store.rounds action) := by
    intro store action
    have hdropped : ∀ bytes : List UInt8, Fate.delivered.met (Fate.discarded.mark bytes) = [] :=
      Fate.met_mark_of_ne (by decide)
    match action with
    | .push _ _ | .fill _ _ _ _ _ | .mix _ _ _ _ _ _ => exact Fate.met_mark_self _ _
    | .pop _ | .clear | .removeLoop _ | .removeLoopsBefore _ => exact hdropped _
  rw [departed, map_gather step rfl Fate.delivered.met_append]
  simp only [hstep, consumed]

/-- After any calls on an empty store the three accounts of every queue agree, and they did in every
round of every call, so no subtraction went below zero; what counts as queued is what is unread.
The bytes pushed under a key are in order those of its ledger and then those unread; the delivered
ones of the ledger are those that rounds added to the output. -/
theorem accounts_run (actions : List StoreAction) :
    let store := empty.run actions
    (store.queues.map Prod.fst).Nodup ∧
    (∀ entry ∈ store.queues, entry.2.Balanced ∧ entry.2.Exact) ∧
    store.total = ∑ᶠ key, (store.unread key).length ∧
    (∀ key, (departed key empty actions).map Prod.snd ++ store.unread key =
      actions.flatMap (StoreAction.pushed key)) ∧
    (∀ key, Fate.delivered.met (departed key empty actions) = consumed key empty actions) ∧
    ∀ action,
      (∀ round ∈ store.rounds action, round.queue.Balanced ∧ round.queue.Exact) ∧
      store.output action = (store.rounds action).foldl Round.lay action.target := by
  intro store
  have hbalanced : store.Each LayerQueue.Balanced := each_empty.run actions
  refine ⟨hbalanced.nodup, fun entry hentry ↦ ?_, hbalanced.total_eq,
    fun key ↦ each_empty.departed_append_unread key actions,
    fun key ↦ met_departed key empty actions, fun action ↦ ⟨fun round hround ↦ ?_, ?_⟩⟩
  · exact ⟨hbalanced.queues entry hentry, (hbalanced.queues entry hentry).exact⟩
  · have hfound := (hbalanced.step action).2 round hround
    exact ⟨hfound, hfound.exact⟩
  · exact store.output_eq action

end LayerStore

end TimelineMixer
