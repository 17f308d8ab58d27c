/-
Ring buffers.

A queue of at most `n` elements kept in an array `buf : Fin n → α`: the oldest
element sits at index `head`, the others follow it with wrap-around, and the
slots outside the occupied arc hold anything.  `contents buf head count` is the
queue the three fields stand for; `contents_push` and `contents_pop` say that
writing behind the arc appends and that advancing the head takes the oldest
element off, wherever the arc wraps.
-/
import Mathlib.Data.Fin.Basic
import Mathlib.Data.List.Basic
import Mathlib.Data.Nat.ModEq
import Mathlib.Tactic.Common

namespace RingBuffer

open Function

variable {α : Type*} {n : ℕ} [NeZero n]

/-- The array index of the position `i`, counted without wrap-around. -/
def slot (n : ℕ) [NeZero n] (i : ℕ) : Fin n := Fin.ofNat n i

@[simp] theorem slot_val (i : ℕ) : (slot n i).val = i % n := rfl

theorem slot_mod (i j : ℕ) : slot n (i % n + j) = slot n (i + j) := by
  apply Fin.ext
  simp [Nat.add_mod]

/-- Positions less than one turn apart are different array slots. -/
theorem slot_ne {i j k : ℕ} (hij : j < k) (hk : k < n + j) : slot n (i + j) ≠ slot n (i + k) := by
  intro h
  have hmod : (i + j) % n = (i + k) % n := congrArg Fin.val h
  have hdvd : n ∣ k - j := by
    have := (Nat.modEq_iff_dvd' (show i + j ≤ i + k by omega)).mp hmod
    rwa [show i + k - (i + j) = k - j by omega] at this
  have := Nat.le_of_dvd (by omega) hdvd
  omega

/-- The queue held by a ring: `count` elements from `head` on. -/
def contents (buf : Fin n → α) (head count : ℕ) : List α :=
  (List.range count).map fun i => buf (slot n (head + i))

@[simp] theorem contents_zero (buf : Fin n → α) (head : ℕ) : contents buf head 0 = [] := rfl

@[simp] theorem contents_length (buf : Fin n → α) (head count : ℕ) :
    (contents buf head count).length = count := by
  simp [contents]

/-- Writing behind the occupied arc of a ring that is not full appends. -/
theorem contents_push (buf : Fin n → α) (head : ℕ) {count : ℕ} (h : count < n) (a : α) :
    contents (update buf (slot n (head + count)) a) head (count + 1)
      = contents buf head count ++ [a] := by
  rw [contents, contents, List.range_succ, List.map_append, List.map_singleton]
  congr 1
  · refine List.map_congr_left fun i hi => ?_
    rw [List.mem_range] at hi
    exact update_of_ne (slot_ne hi (by omega)) _ _
  · rw [update_self]

/-- Advancing the head of a non-empty ring takes the oldest element off; the
freed slot may be overwritten. -/
theorem contents_pop (buf : Fin n → α) (head : ℕ) {count : ℕ} (h : count < n) (z : α) :
    contents buf head (count + 1)
      = buf (slot n head) ::
        contents (update buf (slot n head) z) ((head + 1) % n) count := by
  rw [contents, contents, List.range_succ_eq_map, List.map_cons, List.map_map, Nat.add_zero]
  congr 1
  refine List.map_congr_left fun i hi => ?_
  rw [List.mem_range] at hi
  have hne : slot n (head + 1 + i) ≠ slot n head := by
    have := slot_ne (n := n) (i := head) (j := 0) (k := 1 + i) (by omega) (by omega)
    rw [Nat.add_zero] at this
    rw [show head + 1 + i = head + (1 + i) by omega]
    exact this.symm
  rw [slot_mod, update_of_ne hne, comp_apply,
    show head + i.succ = head + 1 + i by omega]

end RingBuffer
