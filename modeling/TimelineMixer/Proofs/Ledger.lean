import Mathlib.Data.List.Basic
import Mathlib.Data.List.Induction
import Mathlib.Data.List.Infix
import Mathlib.Tactic.Common

/-!
# Ledgers

A ledger lists the items that have left a queue, in the order of leaving, each with what became of
it. It holds the items of either fate in their order, and no others (`length_met_add_length_met`).
The ledger of a run is gathered from its steps (`gather`). If in each step what leaves, followed by
what is held then, is what was held before, followed by what comes in, the same is true of the run
(`gather_append_held`).
-/

set_option autoImplicit false
set_option relaxedAutoImplicit false

namespace TimelineMixer

/-- What became of an item that left a queue. -/
inductive Fate where
  | delivered
  | discarded
  deriving DecidableEq

namespace Fate

variable {α : Type}

/-- Items that all meet a fate. -/
def mark (fate : Fate) (items : List α) : List (Fate × α) :=
  items.map fun item ↦ (fate, item)

/-- The items of a ledger that met a fate. -/
def met (fate : Fate) (ledger : List (Fate × α)) : List α :=
  (ledger.filter fun entry ↦ entry.1 = fate).map Prod.snd

@[simp] theorem map_snd_mark (fate : Fate) (items : List α) :
    (fate.mark items).map Prod.snd = items := by
  rw [mark, List.map_map]
  exact List.map_id _

@[simp] theorem met_append (fate : Fate) (first second : List (Fate × α)) :
    fate.met (first ++ second) = fate.met first ++ fate.met second := by
  simp [met]

@[simp] theorem met_mark_self (fate : Fate) (items : List α) :
    fate.met (fate.mark items) = items := by
  have hall : (fate.mark items).filter (fun entry ↦ entry.1 = fate) = fate.mark items := by
    simp [mark]
  rw [met, hall, map_snd_mark]

theorem met_mark_of_ne {fate other : Fate} (h : other ≠ fate) (items : List α) :
    fate.met (other.mark items) = [] := by
  simp [met, mark, h]

/-- Every item of a ledger was either delivered or discarded. -/
theorem length_met_add_length_met (ledger : List (Fate × α)) :
    (delivered.met ledger).length + (discarded.met ledger).length = ledger.length := by
  induction ledger with
  | nil => rfl
  | cons entry rest ih =>
    obtain ⟨fate, item⟩ := entry
    cases fate <;> simp [met] at ih ⊢ <;> omega

end Fate

/-! ### Runs -/

section Gather

variable {σ ι α β : Type} (step : σ → ι → σ)

/-- What the steps of a run contribute, one after the other. -/
def gather (part : σ → ι → List α) : σ → List ι → List α
  | _, [] => []
  | state, action :: rest => part state action ++ gather part (step state action) rest

theorem gather_append (part : σ → ι → List α) (state : σ) (first second : List ι) :
    gather step part state (first ++ second) =
      gather step part state first ++ gather step part (first.foldl step state) second := by
  induction first generalizing state with
  | nil => rfl
  | cons action rest ih => simp [gather, ih]

theorem gather_concat (part : σ → ι → List α) (state : σ) (actions : List ι) (action : ι) :
    gather step part state (actions ++ [action]) =
      gather step part state actions ++ part (actions.foldl step state) action := by
  rw [gather_append, gather, gather, List.append_nil]

/-- What is gathered is contributed by some step. -/
theorem mem_gather {part : σ → ι → List α} {state : σ} {actions : List ι} {item : α} :
    item ∈ gather step part state actions ↔
      ∃ before action, before ++ [action] <+: actions ∧
        item ∈ part (before.foldl step state) action := by
  induction actions using List.reverseRecOn with
  | nil => simp [gather]
  | append_singleton actions action ih =>
    rw [gather_concat, List.mem_append, ih]
    constructor
    · rintro (⟨before, other, hinitial, hmem⟩ | hmem)
      · exact ⟨before, other, hinitial.trans (List.prefix_append _ _), hmem⟩
      · exact ⟨actions, action, List.prefix_refl _, hmem⟩
    · rintro ⟨before, other, hinitial, hmem⟩
      rcases List.prefix_concat_iff.mp hinitial with hlast | hearlier
      · obtain ⟨rfl, hother⟩ := List.append_inj' hlast rfl
        obtain rfl := List.singleton_inj.mp hother
        exact Or.inr hmem
      · exact Or.inl ⟨before, other, hearlier, hmem⟩

/-- A contribution that does not depend on the state. -/
theorem gather_const (part : ι → List α) (state : σ) (actions : List ι) :
    gather step (fun _ action ↦ part action) state actions = actions.flatMap part := by
  induction actions generalizing state with
  | nil => rfl
  | cons action rest ih => rw [gather, ih, List.flatMap_cons]

/-- What is drawn from the contributions of single steps is drawn from all of them. -/
theorem map_gather {draw : List α → List β} (hnil : draw [] = [])
    (happend : ∀ first second, draw (first ++ second) = draw first ++ draw second)
    (part : σ → ι → List α) (state : σ) (actions : List ι) :
    draw (gather step part state actions) =
      gather step (fun state action ↦ draw (part state action)) state actions := by
  induction actions generalizing state with
  | nil => exact hnil
  | cons action rest ih => rw [gather, gather, happend, ih]

/-- Conservation over a run, from conservation in each step of a state that the steps keep valid. -/
theorem gather_append_held (valid : σ → Prop) (held : σ → List α)
    {leaves enters : σ → ι → List α}
    (hvalid : ∀ state action, valid state → valid (step state action))
    (hstep : ∀ state action, valid state →
      leaves state action ++ held (step state action) = held state ++ enters state action)
    {state : σ} (h : valid state) (actions : List ι) :
    gather step leaves state actions ++ held (actions.foldl step state) =
      held state ++ gather step enters state actions := by
  induction actions generalizing state with
  | nil => simp [gather]
  | cons action rest ih =>
    calc gather step leaves state (action :: rest) ++ held ((action :: rest).foldl step state)
        = leaves state action ++ (gather step leaves (step state action) rest ++
            held (rest.foldl step (step state action))) := List.append_assoc ..
      _ = (leaves state action ++ held (step state action)) ++
            gather step enters (step state action) rest := by
          rw [ih (hvalid state action h), List.append_assoc]
      _ = held state ++ gather step enters state (action :: rest) := by
          rw [hstep state action h, List.append_assoc, gather]

end Gather

end TimelineMixer
