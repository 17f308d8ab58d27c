/-
A byte-addressed memory with 64-bit words.

Words are stored with the low byte first.  Addresses wrap, so a word may lie across
the end of the address space; a reader who uses aligned words never sees that.

* `load64_store64` — a word reads back;
* `load64_store64_ne` — aligned words at different addresses do not meet;
* `zeroWords_apply` — what a loop of stores of zero leaves;
* `copied_succ` — one more byte of a copy.
-/
import Mathlib.Algebra.BigOperators.Fin
import Mathlib.Tactic.Common

/-- The bytes of a 64-bit address space. -/
abbrev ByteMemory := BitVec 64 → BitVec 8

namespace ByteMemory

open Function

variable {m m' : ByteMemory} {a b v : BitVec 64}

/-- The word at `a`. -/
def load64 (m : ByteMemory) (a : BitVec 64) : BitVec 64 :=
  BitVec.ofNat 64 (∑ i : Fin 8, (m (a + BitVec.ofNat 64 i)).toNat * 256 ^ i.val)

/-- The word `v` put at `a`. -/
def store64 (m : ByteMemory) (a v : BitVec 64) : ByteMemory := fun b =>
  if (b - a).toNat < 8 then BitVec.ofNat 8 (v.toNat / 256 ^ (b - a).toNat) else m b

theorem store64_apply_of_le (h : 8 ≤ (b - a).toNat) : store64 m a v b = m b :=
  if_neg (Nat.not_lt.mpr h)

theorem load64_congr (h : ∀ i : Fin 8, m (a + BitVec.ofNat 64 i) = m' (a + BitVec.ofNat 64 i)) :
    load64 m a = load64 m' a := by
  simp only [load64, h]

theorem load64_eq_zero (h : ∀ i : Fin 8, m (a + BitVec.ofNat 64 i) = 0) : load64 m a = 0 := by
  simp [load64, h]

/-- A stored word reads back. -/
theorem load64_store64 (m : ByteMemory) (a v : BitVec 64) : load64 (store64 m a v) a = v := by
  have hbyte : ∀ i : Fin 8, (store64 m a v (a + BitVec.ofNat 64 i)).toNat =
      v.toNat / 256 ^ i.val % 256 := by
    intro i
    have hi : (a + BitVec.ofNat 64 i - a).toNat = i := by
      have := i.isLt
      rw [BitVec.add_comm, BitVec.add_sub_cancel, BitVec.toNat_ofNat]
      omega
    rw [store64, if_pos (by rw [hi]; exact i.isLt), hi, BitVec.toNat_ofNat]
  apply BitVec.eq_of_toNat_eq
  simp only [load64, hbyte, BitVec.toNat_ofNat, Fin.sum_univ_eight]
  have := v.isLt
  simp only [Fin.coe_ofNat_eq_mod, Nat.reduceMod, Nat.reducePow, Nat.pow_zero]
  omega

/-- Words at different aligned addresses do not meet. -/
theorem load64_store64_ne (ha : a.toNat % 8 = 0) (hb : b.toNat % 8 = 0) (hne : b ≠ a) :
    load64 (store64 m a v) b = load64 m b := by
  refine load64_congr fun i => store64_apply_of_le ?_
  have hi := i.isLt
  have hne' : b.toNat ≠ a.toNat := fun h => hne (BitVec.eq_of_toNat_eq h)
  have hofNat : (BitVec.ofNat 64 i.val).toNat = i := by
    rw [BitVec.toNat_ofNat]
    omega
  have := a.isLt
  have := b.isLt
  rw [BitVec.toNat_sub, BitVec.toNat_add, hofNat]
  omega

/-- A loop that stores zero in `n` words from `a` on. -/
def zeroWords (m : ByteMemory) (a : BitVec 64) : ℕ → ByteMemory
  | 0 => m
  | n + 1 => store64 (zeroWords m a n) (a + BitVec.ofNat 64 (8 * n)) 0

theorem zeroWords_apply (m : ByteMemory) (a b : BitVec 64) {n : ℕ} (hn : 8 * n ≤ 2 ^ 64) :
    zeroWords m a n b = if (b - a).toNat < 8 * n then 0 else m b := by
  induction n with
  | zero => rfl
  | succ n ih =>
    have hofNat : (BitVec.ofNat 64 (8 * n)).toNat = 8 * n := by
      rw [BitVec.toNat_ofNat]
      omega
    have hsub : (b - (a + BitVec.ofNat 64 (8 * n))).toNat =
        (2 ^ 64 - 8 * n + (b - a).toNat) % 2 ^ 64 := by
      rw [show b - (a + BitVec.ofNat 64 (8 * n)) = b - a - BitVec.ofNat 64 (8 * n) by
        rw [BitVec.sub_sub], BitVec.toNat_sub, hofNat]
    rw [zeroWords, store64, ih (by omega), hsub]
    -- The last word of the loop is the one at distance `8 * n`.
    by_cases hin : (b - a).toNat < 8 * n
    · rw [if_neg (by omega), if_pos hin, if_pos (by omega)]
    · by_cases hlast : (b - a).toNat < 8 * (n + 1)
      · rw [if_pos (by omega), if_pos hlast]
        simp
      · rw [if_neg (by omega), if_neg hin, if_neg hlast]

/-! ### Copies -/

/-- The memory once `n` bytes have been copied from `s` to `d`. -/
def copied (m : ByteMemory) (s d : BitVec 64) (n : ℕ) : ByteMemory := fun a =>
  if (a - d).toNat < n then m (s + (a - d)) else m a

section Copies

variable {s d : BitVec 64} {k : ℕ}

theorem copied_zero : copied m s d 0 = m := by
  funext a
  exact if_neg (Nat.not_lt_zero _)

theorem copied_succ (hk : k < 2 ^ 64) :
    update (copied m s d k) (d + BitVec.ofNat 64 k) (m (s + BitVec.ofNat 64 k)) =
      copied m s d (k + 1) := by
  funext a
  have hback : (d + BitVec.ofNat 64 k - d).toNat = k := by
    rw [BitVec.add_comm, BitVec.add_sub_cancel, BitVec.toNat_ofNat]
    omega
  by_cases ha : a = d + BitVec.ofNat 64 k
  · subst ha
    rw [update_self, copied, hback, if_pos (Nat.lt_succ_self k), BitVec.add_comm d,
      BitVec.add_sub_cancel]
  · have hne : (a - d).toNat ≠ k := by
      intro h
      apply ha
      rw [← h, BitVec.ofNat_toNat, BitVec.setWidth_eq, BitVec.add_comm, BitVec.sub_add_cancel]
    rw [update_of_ne ha, copied, copied]
    exact if_congr (by omega) rfl rfl

/-- The bytes of the destination, and the bytes around it. -/
theorem copied_bytes (m : ByteMemory) (s d : BitVec 64) {n : ℕ} (hn : n ≤ 2 ^ 64) :
    (∀ j < n, copied m s d n (d + BitVec.ofNat 64 j) = m (s + BitVec.ofNat 64 j)) ∧
    ∀ a, (∀ j < n, a ≠ d + BitVec.ofNat 64 j) → copied m s d n a = m a := by
  constructor
  · intro j hj
    have hback : d + BitVec.ofNat 64 j - d = BitVec.ofNat 64 j := by
      rw [BitVec.add_comm, BitVec.add_sub_cancel]
    rw [copied, hback, BitVec.toNat_ofNat, if_pos (by omega)]
  · intro a ha
    refine if_neg fun hlt => ha _ hlt ?_
    rw [BitVec.ofNat_toNat, BitVec.setWidth_eq, BitVec.add_comm, BitVec.sub_add_cancel]

end Copies

end ByteMemory
