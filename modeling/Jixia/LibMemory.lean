/-
The byte routines of the C library.

`memcpy` and `memmove` of `memory.cpp` copy bytes one at a time.  The two loops of `memmove`
run over overlapping regions, so each of them overwrites part of what it still has to read;
what saves them is the direction, chosen by one comparison of the addresses.

* `copyForward_eq`, `copyBackward_eq` — the two loops in closed form, and when they apply;
* `memmove_moves` — `memmove` under every overlap.
-/
import Jixia.Kernel
import Jixia.ByteMemory

namespace Jixia

open Function

/-- The number of addresses. -/
abbrev kAddressSpace : ℕ := 18446744073709551616

/-! ### The routines -/

/-- The `index`-th byte behind a pointer. -/
def offset (pointer : Word) (index : ℕ) : Word := pointer + BitVec.ofNat 64 index

/-- The loop that copies upwards: the memory once `output[0]` to `output[count - 1]` are
written. -/
def copyForward (m : ByteMemory) (destination source : Word) : ℕ → ByteMemory
  | 0 => m
  | index + 1 =>
    let m := copyForward m destination source index
    update m (offset destination index) (m (offset source index))

/-- The loop that copies downwards, from `output[count - 1]` to `output[0]`. -/
def copyBackward (m : ByteMemory) (destination source : Word) : ℕ → ByteMemory
  | 0 => m
  | index + 1 => copyBackward
      (update m (offset destination index) (m (offset source index)))
      destination source index

/-- `memcpy`. -/
def memcpy (m : ByteMemory) (destination source count : Word) : Word × ByteMemory :=
  (destination, copyForward m destination source count.toNat)

/-- `memmove`. -/
def memmove (m : ByteMemory) (destination source count : Word) : Word × ByteMemory :=
  if destination ≤ source || destination - source ≥ count then
    (destination, copyForward m destination source count.toNat)
  else
    (destination, copyBackward m destination source count.toNat)

/-! ### Regions -/

/-- The address lies in the region of `count` bytes behind the pointer. -/
def InRegion (address pointer : Word) (count : ℕ) : Prop :=
  pointer.toNat ≤ address.toNat ∧ address.toNat < pointer.toNat + count

variable {m : ByteMemory} {a d s : Word} {i n lo hi : ℕ}

theorem offset_toNat (h : d.toNat + i < kAddressSpace) : (offset d i).toNat = d.toNat + i := by
  rw [kAddressSpace] at h
  rw [offset, BitVec.toNat_add, BitVec.toNat_ofNat]
  omega

/-- An address of a region by its distance from the pointer. -/
theorem eq_offset_iff (h : d.toNat + i < kAddressSpace) :
    a = offset d i ↔ a.toNat = d.toNat + i := by
  rw [← offset_toNat h]
  exact BitVec.toNat_inj.symm

/-! ### The loops -/

/-- The bytes `lo` to `hi - 1` of the destination are those that the source had in `m`, all
others are as in `m`. -/
def moved (m : ByteMemory) (d s : Word) (lo hi : ℕ) : ByteMemory := fun a =>
  if d.toNat + lo ≤ a.toNat ∧ a.toNat < d.toNat + hi then
    m (offset s (a.toNat - d.toNat))
  else m a

theorem moved_empty : moved m d s n n = m := by
  funext a
  rw [moved, if_neg (by omega)]

theorem moved_outside (h : ¬ (d.toNat + lo ≤ a.toNat ∧ a.toNat < d.toNat + hi)) :
    moved m d s lo hi a = m a := if_neg h

/-- One more byte. -/
theorem moved_update {lo' hi' : ℕ} (hin : lo' ≤ n ∧ n < hi') (hn : d.toNat + n < kAddressSpace)
    (hiff : ∀ i, i ≠ n → (lo ≤ i ∧ i < hi ↔ lo' ≤ i ∧ i < hi')) :
    update (moved m d s lo hi) (offset d n) (m (offset s n)) = moved m d s lo' hi' := by
  funext a
  by_cases ha : a = offset d n
  · have htoNat := (eq_offset_iff hn).mp ha
    rw [ha, update_self, ← ha, moved, if_pos (by omega), htoNat, Nat.add_sub_cancel_left]
  · have htoNat := (eq_offset_iff hn).not.mp ha
    have := hiff (a.toNat - d.toNat)
    rw [update_of_ne ha, moved, moved]
    exact if_congr (by omega) rfl rfl

/-- **The upward loop**: right if the destination is not behind the source, or behind all of
it. -/
theorem copyForward_eq (hd : d.toNat + n ≤ kAddressSpace) (hs : s.toNat + n ≤ kAddressSpace)
    (hdir : d.toNat ≤ s.toNat ∨ s.toNat + n ≤ d.toNat) :
    copyForward m d s n = moved m d s 0 n := by
  induction n with
  | zero => exact moved_empty.symm
  | succ n ih =>
    -- The byte that is read now has not been written yet.
    have hread : moved m d s 0 n (offset s n) = m (offset s n) := by
      refine moved_outside ?_
      rw [offset_toNat (by omega)]
      omega
    rw [copyForward, ih (by omega) (by omega) (by omega)]
    simp only [hread]
    exact moved_update (by omega) (by omega) fun i hi => by omega

/-- **The downward loop**: right if the destination is not in front of the source. -/
theorem copyBackward_eq (hd : d.toNat + hi ≤ kAddressSpace) (hs : s.toNat + hi ≤ kAddressSpace)
    (hdir : s.toNat ≤ d.toNat) (hn : n ≤ hi) :
    copyBackward (moved m d s n hi) d s n = moved m d s 0 hi := by
  induction n with
  | zero => rfl
  | succ n ih =>
    have hread : moved m d s (n + 1) hi (offset s n) = m (offset s n) := by
      refine moved_outside ?_
      rw [offset_toNat (by omega)]
      omega
    rw [copyBackward, hread, moved_update ⟨le_rfl, hn⟩ (by omega) fun i hi => by omega]
    exact ih (by omega)

/-! ### The results -/

/-- `memmove` in closed form. -/
theorem memmove_eq {count : Word} (hd : d.toNat + count.toNat ≤ kAddressSpace)
    (hs : s.toNat + count.toNat ≤ kAddressSpace) :
    memmove m d s count = (d, moved m d s 0 count.toNat) := by
  rw [memmove]
  by_cases hforward : (decide (d ≤ s) || decide (d - s ≥ count)) = true
  · rw [if_pos hforward, copyForward_eq hd hs]
    rw [Bool.or_eq_true, decide_eq_true_iff, decide_eq_true_iff] at hforward
    rcases hforward with hle | hfar
    · exact .inl hle
    · by_cases hle : d ≤ s
      · exact .inl hle
      · have hlt : s.toNat ≤ d.toNat := Nat.le_of_not_le hle
        have hsub : count.toNat ≤ (d - s).toNat := hfar
        rw [BitVec.toNat_sub_of_le hlt] at hsub
        omega
  · rw [if_neg hforward]
    rw [Bool.or_eq_true, decide_eq_true_iff, decide_eq_true_iff, not_or] at hforward
    have hlt : s.toNat ≤ d.toNat := Nat.le_of_not_le hforward.1
    have hmoved := copyBackward_eq (m := m) hd hs hlt le_rfl
    rw [moved_empty] at hmoved
    rw [hmoved]

/-- `memcpy` of disjoint regions does the same. -/
theorem memcpy_eq {count : Word} (hd : d.toNat + count.toNat ≤ kAddressSpace)
    (hs : s.toNat + count.toNat ≤ kAddressSpace)
    (hdisjoint : ∀ a, InRegion a d count.toNat → ¬ InRegion a s count.toNat) :
    memcpy m d s count = (d, moved m d s 0 count.toNat) := by
  rw [memcpy]
  by_cases hzero : count.toNat = 0
  · rw [hzero]
    exact congrArg (Prod.mk d) moved_empty.symm
  · rw [copyForward_eq hd hs]
    -- Otherwise the destination starts in the source.
    by_contra hdir
    refine hdisjoint d ⟨le_rfl, by omega⟩ ⟨?_, ?_⟩
    all_goals omega

/-- **`memmove` is right under every overlap.**  For regions that do not wrap, the
destination has the bytes that the source had, every other byte is the same, and the
destination is returned; for disjoint regions `memcpy` does the same. -/
theorem memmove_moves (m : ByteMemory) (destination source count : Word)
    (hdestination : destination.toNat + count.toNat ≤ kAddressSpace)
    (hsource : source.toNat + count.toNat ≤ kAddressSpace) :
    (memmove m destination source count).1 = destination ∧
    (∀ index < count.toNat, (memmove m destination source count).2 (offset destination index) =
      m (offset source index)) ∧
    (∀ address, ¬ InRegion address destination count.toNat →
      (memmove m destination source count).2 address = m address) ∧
    ((∀ address, InRegion address destination count.toNat →
        ¬ InRegion address source count.toNat) →
      memmove m destination source count = memcpy m destination source count) := by
  rw [memmove_eq hdestination hsource]
  refine ⟨rfl, fun index hindex => ?_, fun address hout => ?_, fun hdisjoint => ?_⟩
  · have hoffset := offset_toNat (d := destination) (i := index) (by omega)
    simp only [moved, hoffset]
    rw [if_pos (by omega), Nat.add_sub_cancel_left]
  · exact moved_outside hout
  · exact (memcpy_eq hdestination hsource hdisjoint).symm

/-- Five bytes are moved up by two. -/
theorem memmove_moves_sample :
    (memmove (fun a => a.setWidth 8) 0x102 0x100 5).2 0x104 = 2 ∧
    (memmove (fun a => a.setWidth 8) 0x102 0x100 5).2 0x107 = 7 := by
  have hmoves := memmove_moves (fun a => a.setWidth 8) 0x102 0x100 5 (by decide) (by decide)
  refine ⟨hmoves.2.1 2 (by decide), hmoves.2.2.1 0x107 ?_⟩
  rintro ⟨-, h⟩
  exact absurd h (by decide)

end Jixia
