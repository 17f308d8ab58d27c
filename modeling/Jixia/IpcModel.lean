/-
The endpoint model of `ipc_model_check.py`.

The verification lane of the repository explores this list-based model for two
slots, two pending messages and two generations.  Here the bounds and the types of
task identities, blocked tasks and payloads are parameters.

* `step` — the transitions of `successors`, as a partial function of the label;
* `Grows` — what every transition does to the epochs of a slot;
* `CheckState` — the assertions of `check_state`;
* **`check_of_reachable`** — every reachable state passes its check, for all
  bounds.
-/
import Mathlib.Data.Finset.Basic
import Mathlib.Data.Fintype.Card
import Mathlib.Data.List.FinRange
import Mathlib.Logic.Relation
import Mathlib.Tactic.Common

namespace IpcModel

open Function

/-- `SLOT_COUNT`, `QUEUE_DEPTH` and `MAX_GENERATION`. -/
structure Bounds where
  slotCount : ℕ
  queueDepth : ℕ
  maxGeneration : ℕ

variable {τ ω π : Type}

/-- An endpoint: identities `τ` own it and send payloads `π`, tasks `ω` wait. -/
@[ext]
structure Endpoint (τ ω π : Type) where
  allocated : Bool := false
  active : Bool := false
  retired : Bool := false
  generation : ℕ := 0
  owner : τ
  queue : List (τ × π) := []
  waiters : List ω := []
  issuedGenerations : Finset ℕ := ∅

abbrev State (b : Bounds) (τ ω π : Type) := Fin b.slotCount → Endpoint τ ω π

/-- The labels of the transitions. -/
inductive Transition (b : Bounds) (τ ω π : Type)
  | create (slot : Fin b.slotCount) (owner : τ)
  | destroy (slot : Fin b.slotCount)
  | sendWake (slot : Fin b.slotCount) (sender : τ) (payload : π) (receiver : ω)
  | send (slot : Fin b.slotCount) (sender : τ) (payload : π)
  | recv (slot : Fin b.slotCount) (sender : τ) (payload : π)
  | recvBlock (slot : Fin b.slotCount) (receiver : ω)

variable {b : Bounds}

/-- The lowest slot that is neither allocated nor retired. -/
def freeSlot (s : State b τ ω π) : Option (Fin b.slotCount) :=
  (List.finRange b.slotCount).find? fun i => !(s i).allocated && !(s i).retired

/-- The generation a slot gets when it is allocated. -/
def nextGeneration (endpoint : Endpoint τ ω π) : ℕ :=
  if endpoint.generation = 0 then 1 else endpoint.generation

/-- An endpoint after its creation. -/
def Endpoint.create (endpoint : Endpoint τ ω π) (owner : τ) : Endpoint τ ω π :=
  { endpoint with
    allocated := true, active := true, owner := owner
    generation := nextGeneration endpoint, queue := [], waiters := []
    issuedGenerations := insert (nextGeneration endpoint) endpoint.issuedGenerations }

/-- An endpoint after its destruction: the epoch advances and the slot is free, or
at the ceiling the slot is retired for good. -/
def Endpoint.destroy (maxGeneration : ℕ) (noOwner : τ) (endpoint : Endpoint τ ω π) :
    Endpoint τ ω π :=
  if endpoint.generation = maxGeneration then
    { endpoint with active := false, retired := true, owner := noOwner, queue := [],
                    waiters := [] }
  else
    { endpoint with allocated := false, active := false, owner := noOwner,
                    generation := endpoint.generation + 1, queue := [], waiters := [] }

/-- The successor of a state under a transition, if `successors` offers it. -/
def step [DecidableEq τ] [DecidableEq ω] [DecidableEq π] (noOwner : τ) (s : State b τ ω π) :
    Transition b τ ω π → Option (State b τ ω π)
  | .create slot owner =>
    if freeSlot s = some slot ∧ nextGeneration (s slot) ∉ (s slot).issuedGenerations then
      some (update s slot ((s slot).create owner))
    else none
  | .destroy slot =>
    if (s slot).active then
      some (update s slot ((s slot).destroy b.maxGeneration noOwner))
    else none
  | .sendWake slot _ _ receiver =>
    match (s slot).waiters with
    | [] => none
    | first :: rest =>
      if (s slot).active ∧ receiver = first then
        some (update s slot { s slot with waiters := rest })
      else none
  | .send slot sender payload =>
    if (s slot).active ∧ (s slot).waiters = [] ∧ (s slot).queue.length < b.queueDepth then
      some (update s slot
        { s slot with queue := (s slot).queue ++ [(sender, payload)] })
    else none
  | .recv slot sender payload =>
    match (s slot).queue with
    | [] => none
    | oldest :: rest =>
      if (s slot).active ∧ (sender, payload) = oldest then
        some (update s slot { s slot with queue := rest })
      else none
  | .recvBlock slot receiver =>
    if (s slot).active ∧ (s slot).queue = [] ∧ ∀ i, receiver ∉ (s i).waiters then
      some (update s slot { s slot with waiters := (s slot).waiters ++ [receiver] })
    else none

/-! ### Epochs -/

/-- A slot moves on: its generation and its issued generations only grow, and it
does not come back from retirement. -/
structure Grows (old new : Endpoint τ ω π) : Prop where
  generation_le : old.generation ≤ new.generation
  issued_subset : old.issuedGenerations ⊆ new.issuedGenerations
  retired : old.retired = true → new.retired = true

theorem Grows.refl (endpoint : Endpoint τ ω π) : Grows endpoint endpoint :=
  ⟨le_rfl, Finset.Subset.refl _, id⟩

theorem Grows.trans {a b c : Endpoint τ ω π} (h : Grows a b) (h' : Grows b c) : Grows a c :=
  ⟨h.generation_le.trans h'.generation_le, h.issued_subset.trans h'.issued_subset,
    fun hr => h'.retired (h.retired hr)⟩

theorem grows_update {s : State b τ ω π} {slot : Fin b.slotCount} {endpoint : Endpoint τ ω π}
    (h : Grows (s slot) endpoint) (i : Fin b.slotCount) :
    Grows (s i) (update s slot endpoint i) := by
  by_cases hi : i = slot
  · subst hi
    rwa [update_self]
  · rw [update_of_ne hi]
    exact .refl _

theorem grows_create (endpoint : Endpoint τ ω π) (owner : τ) :
    Grows endpoint (endpoint.create owner) := by
  refine ⟨?_, Finset.subset_insert _ _, id⟩
  show endpoint.generation ≤ nextGeneration endpoint
  rw [nextGeneration]
  split <;> omega

theorem grows_destroy (maxGeneration : ℕ) (noOwner : τ) (endpoint : Endpoint τ ω π) :
    Grows endpoint (endpoint.destroy maxGeneration noOwner) := by
  rw [Endpoint.destroy]
  split
  · exact ⟨le_rfl, Finset.Subset.refl _, fun _ => rfl⟩
  · exact ⟨Nat.le_succ _, Finset.Subset.refl _, id⟩

/-- Every transition moves every slot on. -/
theorem step_grows [DecidableEq τ] [DecidableEq ω] [DecidableEq π] {noOwner : τ}
    {s s' : State b τ ω π} {tr : Transition b τ ω π} (h : step noOwner s tr = some s')
    (i : Fin b.slotCount) : Grows (s i) (s' i) := by
  -- All but the first two only touch the queue and the waiters.
  have hkeep : ∀ {slot : Fin b.slotCount} {queue : List (τ × π)} {waiters : List ω},
      Grows (s i)
        (update s slot { s slot with queue := queue, waiters := waiters } i) := by
    intro slot queue waiters
    refine grows_update ?_ i
    exact ⟨le_rfl, Finset.Subset.refl _, id⟩
  cases tr with
  | create slot owner =>
    rw [step] at h
    split at h <;> cases h
    exact grows_update (grows_create _ owner) i
  | destroy slot =>
    rw [step] at h
    split at h <;> cases h
    exact grows_update (grows_destroy _ noOwner _) i
  | sendWake slot sender payload receiver =>
    rw [step] at h
    split at h
    · cases h
    · split at h <;> cases h
      exact hkeep
  | send slot sender payload =>
    rw [step] at h
    split at h <;> cases h
    exact hkeep
  | recv slot sender payload =>
    rw [step] at h
    split at h
    · cases h
    · split at h <;> cases h
      exact hkeep
  | recvBlock slot receiver =>
    rw [step] at h
    split at h <;> cases h
    exact hkeep

/-! ### The check -/

/-- The assertions of `check_state` on one endpoint. -/
structure CheckEndpoint (b : Bounds) [Fintype ω] (noOwner : τ) (endpoint : Endpoint τ ω π) :
    Prop where
  generation_le : endpoint.generation ≤ b.maxGeneration
  queue_le : endpoint.queue.length ≤ b.queueDepth
  waiters_le : endpoint.waiters.length ≤ Fintype.card ω
  exclusive : endpoint.queue = [] ∨ endpoint.waiters = []
  active : endpoint.active = true → endpoint.allocated = true ∧ endpoint.retired = false ∧
    endpoint.generation ≠ 0 ∧ endpoint.generation ∈ endpoint.issuedGenerations
  inactive : endpoint.active = false →
    endpoint.owner = noOwner ∧ endpoint.queue = [] ∧ endpoint.waiters = []
  retired : endpoint.retired = true → endpoint.allocated = true ∧ endpoint.active = false ∧
    endpoint.generation = b.maxGeneration
  free : endpoint.allocated = false → endpoint.active = false ∧ endpoint.retired = false
  issued : ∀ g ∈ endpoint.issuedGenerations, 1 ≤ g ∧ g ≤ b.maxGeneration
  stale : endpoint.active = true → ∀ g ∈ endpoint.issuedGenerations, g ≠ endpoint.generation →
    g < endpoint.generation
  waiters_nodup : endpoint.waiters.Nodup

/-- The assertions of `check_state`: no task waits twice, on one endpoint or on
two. -/
structure CheckState [Fintype ω] (noOwner : τ) (s : State b τ ω π) : Prop where
  endpoint : ∀ i, CheckEndpoint b noOwner (s i)
  disjoint : ∀ i j, ∀ t ∈ (s i).waiters, t ∈ (s j).waiters → i = j

/-! ### Every reachable state passes -/

section Reachable

variable [Fintype ω] {noOwner : τ} {s s' : State b τ ω π} {slot : Fin b.slotCount}

/-- What the check needs to stay true: an issued generation lies below the current
one, which itself is issued only while the slot is allocated. -/
structure Inv (noOwner : τ) (s : State b τ ω π) : Prop where
  check : CheckState noOwner s
  issued_lt : ∀ i, ∀ g ∈ (s i).issuedGenerations,
    g < (s i).generation ∨ ((s i).allocated = true ∧ g = (s i).generation)

/-- A transition changes one slot. -/
theorem Inv.update (h : Inv noOwner s) {endpoint : Endpoint τ ω π}
    (hc : CheckEndpoint b noOwner endpoint)
    (hi : ∀ g ∈ endpoint.issuedGenerations,
      g < endpoint.generation ∨ (endpoint.allocated = true ∧ g = endpoint.generation))
    (hw : ∀ t ∈ endpoint.waiters, t ∈ (s slot).waiters ∨ ∀ j, t ∉ (s j).waiters) :
    Inv noOwner (update s slot endpoint) := by
  have hd : ∀ j, j ≠ slot → ∀ t ∈ endpoint.waiters, t ∉ (s j).waiters := by
    intro j hj t ht hmem
    rcases hw t ht with hslot | hnone
    · exact hj (h.check.disjoint j slot t hmem hslot)
    · exact hnone j hmem
  refine ⟨⟨fun i => ?_, fun i j t hti htj => ?_⟩, fun i => ?_⟩
  · by_cases hi : i = slot
    · subst hi
      rwa [update_self]
    · rw [update_of_ne hi]
      exact h.check.endpoint i
  · by_cases hi : i = slot <;> by_cases hj : j = slot
    · rw [hi, hj]
    · subst hi
      rw [update_self] at hti
      rw [update_of_ne hj] at htj
      exact absurd htj (hd j hj t hti)
    · subst hj
      rw [update_self] at htj
      rw [update_of_ne hi] at hti
      exact absurd hti (hd i hi t htj)
    · rw [update_of_ne hi] at hti
      rw [update_of_ne hj] at htj
      exact h.check.disjoint i j t hti htj
  · by_cases hi' : i = slot
    · subst hi'
      rwa [update_self]
    · rw [update_of_ne hi']
      exact h.issued_lt i

theorem Inv.initial : Inv noOwner (fun _ => { owner := noOwner } : State b τ ω π) where
  check := by
    refine ⟨fun i => ?_, fun i j t ht => by cases ht⟩
    constructor <;> simp
  issued_lt i g hg := by simp at hg

theorem Inv.create (h : Inv noOwner s) (hb : 1 ≤ b.maxGeneration)
    (hfree : freeSlot s = some slot) (owner : τ) :
    Inv noOwner (Function.update s slot ((s slot).create owner)) := by
  have hf := List.find?_some hfree
  simp only [Bool.and_eq_true, Bool.not_eq_true'] at hf
  have hc := h.check.endpoint slot
  have hgen : nextGeneration (s slot) ≤ b.maxGeneration ∧ nextGeneration (s slot) ≠ 0 ∧
      (s slot).generation ≤ nextGeneration (s slot) := by
    rw [nextGeneration]
    have := hc.generation_le
    split <;> omega
  have hlt : ∀ g ∈ (s slot).issuedGenerations, g < nextGeneration (s slot) := by
    intro g hg
    rcases h.issued_lt slot g hg with hg | hg
    · omega
    · rw [hf.1] at hg
      cases hg.1
  have hissued : ∀ g ∈ ((s slot).create owner).issuedGenerations,
      g = nextGeneration (s slot) ∨ g ∈ (s slot).issuedGenerations := fun g hg =>
    Finset.mem_insert.mp hg
  refine h.update ?_ (fun g hg => ?_) (fun t ht => nomatch ht)
  · exact
      { generation_le := hgen.1
        queue_le := Nat.zero_le _
        waiters_le := Nat.zero_le _
        exclusive := .inl rfl
        active := fun _ => ⟨rfl, hf.2, hgen.2.1, Finset.mem_insert_self ..⟩
        inactive := fun ha => nomatch ha
        retired := fun hr => absurd hr (by simp [Endpoint.create, hf.2])
        free := fun ha => nomatch ha
        issued := fun g hg => by
          rcases hissued g hg with rfl | hg
          · exact ⟨Nat.pos_of_ne_zero hgen.2.1, hgen.1⟩
          · exact hc.issued g hg
        stale := fun _ g hg hne => hlt g ((hissued g hg).resolve_left hne)
        waiters_nodup := List.nodup_nil }
  · rcases hissued g hg with rfl | hg
    · exact .inr ⟨rfl, rfl⟩
    · exact .inl (hlt g hg)

theorem Inv.destroy (h : Inv noOwner s) (ha : (s slot).active = true) :
    Inv noOwner (Function.update s slot ((s slot).destroy b.maxGeneration noOwner)) := by
  have hc := h.check.endpoint slot
  obtain ⟨hal, hret, -, -⟩ := hc.active ha
  have hle := hc.generation_le
  rw [Endpoint.destroy]
  split
  · rename_i hmax
    refine h.update ?_ (h.issued_lt slot) (fun t ht => nomatch ht)
    exact
      { generation_le := hle
        queue_le := Nat.zero_le _
        waiters_le := Nat.zero_le _
        exclusive := .inl rfl
        active := fun ha => nomatch ha
        inactive := fun _ => ⟨rfl, rfl, rfl⟩
        retired := fun _ => ⟨hal, rfl, hmax⟩
        free := fun hf => absurd hf (by simp [hal])
        issued := hc.issued
        stale := fun ha => nomatch ha
        waiters_nodup := List.nodup_nil }
  · rename_i hmax
    refine h.update ?_ (fun g hg => .inl ?_) (fun t ht => nomatch ht)
    · exact
        { generation_le := show (s slot).generation + 1 ≤ b.maxGeneration by omega
          queue_le := Nat.zero_le _
          waiters_le := Nat.zero_le _
          exclusive := .inl rfl
          active := fun ha => nomatch ha
          inactive := fun _ => ⟨rfl, rfl, rfl⟩
          retired := fun hr => absurd hr (by simp [hret])
          free := fun _ => ⟨rfl, hret⟩
          issued := hc.issued
          stale := fun ha => nomatch ha
          waiters_nodup := List.nodup_nil }
    · show g < (s slot).generation + 1
      rcases h.issued_lt slot g hg with hg | hg <;> omega

/-- Only the messages and the receivers of a live endpoint change. -/
theorem Inv.requeue (h : Inv noOwner s) {queue : List (τ × π)} {waiters : List ω}
    (ha : (s slot).active = true) (hq : queue.length ≤ b.queueDepth)
    (hex : queue = [] ∨ waiters = []) (hn : waiters.Nodup)
    (hw : ∀ t ∈ waiters, t ∈ (s slot).waiters ∨ ∀ j, t ∉ (s j).waiters) :
    Inv noOwner
      (Function.update s slot { s slot with queue := queue, waiters := waiters }) := by
  have hc := h.check.endpoint slot
  refine h.update ?_ (h.issued_lt slot) hw
  refine ⟨hc.generation_le, hq, hn.length_le_card, hex, hc.active, fun hi => ?_, hc.retired,
    hc.free, hc.issued, hc.stale, hn⟩
  rw [show (s slot).active = false from hi] at ha
  cases ha

variable [DecidableEq τ] [DecidableEq ω] [DecidableEq π]

/-- **One transition keeps the check.** -/
theorem Inv.step (h : Inv noOwner s) (hb : 1 ≤ b.maxGeneration) {tr : Transition b τ ω π}
    (hs : step noOwner s tr = some s') : Inv noOwner s' := by
  cases tr with
  | create slot owner =>
    rw [IpcModel.step] at hs
    split at hs <;> cases hs
    rename_i hg
    exact h.create hb hg.1 owner
  | destroy slot =>
    rw [IpcModel.step] at hs
    split at hs <;> cases hs
    rename_i ha
    exact h.destroy ha
  | sendWake slot sender payload receiver =>
    have hc := h.check.endpoint slot
    rw [IpcModel.step] at hs
    split at hs
    · cases hs
    · rename_i first rest hw
      split at hs <;> cases hs
      rename_i hg
      have hq : (s slot).queue = [] := hc.exclusive.resolve_right (by simp [hw])
      have hn := hc.waiters_nodup
      rw [hw, List.nodup_cons] at hn
      exact h.requeue hg.1 hc.queue_le (.inl hq) hn.2 fun t ht => .inl (by rw [hw]; simp [ht])
  | send slot sender payload =>
    have hc := h.check.endpoint slot
    rw [IpcModel.step] at hs
    split at hs <;> cases hs
    rename_i hg
    refine h.requeue hg.1 ?_ (.inr hg.2.1) hc.waiters_nodup fun t ht => .inl ht
    rw [List.length_append, List.length_singleton]
    exact hg.2.2
  | recv slot sender payload =>
    have hc := h.check.endpoint slot
    rw [IpcModel.step] at hs
    split at hs
    · cases hs
    · rename_i oldest rest hq
      split at hs <;> cases hs
      rename_i hg
      have hle := hc.queue_le
      rw [hq, List.length_cons] at hle
      have hw : (s slot).waiters = [] := hc.exclusive.resolve_left (by simp [hq])
      exact h.requeue hg.1 (by omega) (.inr hw) hc.waiters_nodup fun t ht => .inl ht
  | recvBlock slot receiver =>
    have hc := h.check.endpoint slot
    rw [IpcModel.step] at hs
    split at hs <;> cases hs
    rename_i hg
    refine h.requeue hg.1 hc.queue_le (.inl hg.2.1) ?_ fun t ht => ?_
    · refine List.nodup_append.mpr ⟨hc.waiters_nodup, List.nodup_singleton _, ?_⟩
      rintro t ht u hu rfl
      rw [List.mem_singleton] at hu
      exact hg.2.2 slot (hu ▸ ht)
    · rw [List.mem_append, List.mem_singleton] at ht
      rcases ht with ht | rfl
      · exact .inl ht
      · exact .inr hg.2.2

/-- **Every reachable state passes its check, whatever the bounds.** -/
theorem check_of_reachable (hb : 1 ≤ b.maxGeneration)
    (h : Relation.ReflTransGen (fun s s' => ∃ tr, IpcModel.step noOwner s tr = some s')
      (fun _ => { owner := noOwner }) s) : CheckState noOwner s := by
  suffices Inv noOwner s from this.check
  induction h with
  | refl => exact .initial
  | tail _ hstep ih =>
    obtain ⟨tr, hstep⟩ := hstep
    exact ih.step hb hstep

end Reachable

end IpcModel
