/-
The page manager.

`page_manager.cpp`: physical ranges with a carving pointer, handed out page by
page.  The registered ranges are a list of at most `kMaxRanges` entries, in the
order of the table.  `PhysicalMemory` gathers the state of the memory lifecycle,
the range table and the bytes of physical memory.

* `carve_cases` — the range that gives a page, and what is left of the table;
* `addRange_cases`, `promoteBacking_cases`, `allocatePage_cases` — what a call of
  the interface can do.
-/
import Jixia.ByteMemory
import Jixia.MemoryLifecycle

namespace Jixia

def kPageSize : Word := 4096

def kMaxRanges : ℕ := 4

structure ManagedRange where
  base : Word
  next : Word
  limit : Word
  backing : BackingKind
  deriving DecidableEq

structure Allocation where
  physicalAddress : Word := 0
  backing : BackingKind := .unavailable
  deriving DecidableEq

def Allocation.valid (allocation : Allocation) : Bool :=
  allocation.physicalAddress != 0 && allocation.backing != .unavailable

theorem Allocation.valid_iff {allocation : Allocation} : allocation.valid = true ↔
    allocation.physicalAddress ≠ 0 ∧ allocation.backing ≠ .unavailable := by
  rw [valid, Bool.and_eq_true, bne_iff_ne, bne_iff_ne]

structure PhysicalMemory where
  lifecycle : LifecycleState := {}
  ranges : List ManagedRange := []
  bytes : ByteMemory := fun _ => 0

def isPageAligned (value : Word) : Bool := value &&& (kPageSize - 1) == 0

def overlaps (base limit : Word) (range : ManagedRange) : Bool :=
  base < range.limit && range.base < limit

def zeroPage (bytes : ByteMemory) (physicalAddress : Word) : ByteMemory :=
  bytes.zeroWords physicalAddress (kPageSize.toNat / 8)

/-- The loop of `allocate_from`: the first range of the backing with a page left
gives it away. -/
def carve (backing : BackingKind) : List ManagedRange → Option (Word × List ManagedRange)
  | [] => none
  | range :: rest =>
    if range.backing ≠ backing ∨ range.limit ≤ range.next then
      (carve backing rest).map fun (address, rest) => (address, range :: rest)
    else some (range.next, { range with next := range.next + kPageSize } :: rest)

namespace PhysicalMemory

variable (m : PhysicalMemory)

def allocateFrom (backing : BackingKind) : Allocation × PhysicalMemory :=
  match carve backing m.ranges with
  | some (address, ranges) =>
    (⟨address, backing⟩, { m with ranges := ranges, bytes := zeroPage m.bytes address })
  | none => ({}, m)

def reset : PhysicalMemory := { m with ranges := [] }

/-- `add_range` checks its range at the two ends only. -/
def addRange (base size : Word) (backing : BackingKind) : Bool × PhysicalMemory :=
  if kMaxRanges ≤ m.ranges.length ∨ backing = .unavailable ∨ size = 0 ∨
      isPageAligned base = false ∨ size % kPageSize ≠ 0 then (false, m)
  else
    let limit := base + size
    if limit ≤ base then (false, m)
    else if m.ranges.any (overlaps base limit) then (false, m)
    else if backing = .contained ∧ (m.lifecycle.backingFor base ≠ .contained ∨
        m.lifecycle.backingFor (limit - 1) ≠ .contained) then (false, m)
    else if backing = .ddr ∧ (m.lifecycle.backingFor base ≠ .ddr ∨
        m.lifecycle.backingFor (limit - 1) ≠ .ddr) then (false, m)
    else (true, { m with ranges := m.ranges ++ [⟨base, base, limit, backing⟩] })

/-- `add_contained_bootstrap_pool`; the two linker symbols bound the pool. -/
def addContainedBootstrapPool (poolStart poolEnd : Word) : Bool × PhysicalMemory :=
  if poolEnd ≤ poolStart then (false, m)
  else m.addRange poolStart (poolEnd - poolStart) .contained

/-- The validation loop of `promote_backing`: `none` where a range must not be
relabelled, else the number of ranges to relabel. -/
def promotable (before after : BackingKind) : List ManagedRange → Option ℕ
  | [] => some 0
  | range :: rest =>
    if range.backing ≠ before then promotable before after rest
    else if m.lifecycle.backingFor range.base ≠ after ∨
        m.lifecycle.backingFor (range.limit - 1) ≠ after then none
    else (promotable before after rest).map (· + 1)

def promoteBacking (before after : BackingKind) : ℕ × PhysicalMemory :=
  if before = after ∨ before = .unavailable ∨ after = .unavailable then (0, m)
  else
    match m.promotable before after m.ranges with
    | none => (0, m)
    | some 0 => (0, m)
    | some (count + 1) => (count + 1, { m with ranges := m.ranges.map fun range =>
        if range.backing = before then { range with backing := after } else range })

def allocatePage : Allocation × PhysicalMemory :=
  if m.lifecycle.ddrAllocationEnabled then m.allocateFrom .ddr
  else if m.lifecycle.domain = .contained then m.allocateFrom .contained
  else ({}, m)

def remainingPages (backing : BackingKind) : ℕ :=
  (m.ranges.map fun range =>
    if range.backing = backing ∧ range.next < range.limit then
      ((range.limit - range.next) / kPageSize).toNat
    else 0).sum

end PhysicalMemory

/-! ### Pages -/

theorem toNat_kPageSize : kPageSize.toNat = 4096 := rfl

theorem isPageAligned_iff {value : Word} : isPageAligned value = true ↔ value.toNat % 4096 = 0 := by
  have hmask : (value &&& (kPageSize - 1)).toNat = value.toNat % 4096 := by
    rw [BitVec.toNat_and, show (kPageSize - 1 : Word).toNat = 2 ^ 12 - 1 from rfl,
      Nat.and_two_pow_sub_one_eq_mod]
  rw [isPageAligned, beq_iff_eq, ← hmask]
  exact ⟨fun h => by rw [h]; rfl, fun h => BitVec.eq_of_toNat_eq h⟩

/-- The page `i` of a range that starts at `base`. -/
def pageAt (base : Word) (i : ℕ) : Word := base + BitVec.ofNat 64 (4096 * i)

theorem pageAt_zero (base : Word) : pageAt base 0 = base := by
  rw [pageAt, Nat.mul_zero]
  exact BitVec.add_zero base

theorem pageAt_next (base : Word) (i : ℕ) : pageAt (base + kPageSize) i = pageAt base (i + 1) := by
  have hsize : kPageSize = BitVec.ofNat 64 4096 := rfl
  rw [pageAt, pageAt, hsize, BitVec.add_assoc, ← BitVec.ofNat_add, Nat.mul_add_one, Nat.add_comm]

/-- The addresses of a page. -/
def InPage (page address : Word) : Prop :=
  page.toNat ≤ address.toNat ∧ address.toNat < page.toNat + 4096

/-- An aligned page has room below the end of the address space. -/
theorem page_lt {page : Word} (h : page.toNat % 4096 = 0) : page.toNat + 4096 ≤ 2 ^ 64 := by
  have := page.isLt
  omega

theorem inPage_iff {page address : Word} (h : page.toNat % 4096 = 0) :
    InPage page address ↔ (address - page).toNat < 4096 := by
  have := page_lt h
  have := address.isLt
  rw [InPage, BitVec.toNat_sub]
  omega

theorem zeroPage_apply {bytes : ByteMemory} {page : Word} (h : page.toNat % 4096 = 0)
    (address : Word) :
    (InPage page address → zeroPage bytes page address = 0) ∧
      (¬ InPage page address → zeroPage bytes page address = bytes address) := by
  have hz := ByteMemory.zeroWords_apply bytes page address (n := kPageSize.toNat / 8) (by decide)
  rw [show 8 * (kPageSize.toNat / 8) = 4096 from rfl] at hz
  rw [zeroPage, hz]
  exact ⟨fun hin => if_pos ((inPage_iff h).mp hin), fun hout => if_neg (mt (inPage_iff h).mpr hout)⟩

/-! ### What a call can do -/

variable {m : PhysicalMemory} {backing : BackingKind}

/-- The range after a page was carved from it. -/
def ManagedRange.advanced (range : ManagedRange) : ManagedRange :=
  { range with next := range.next + kPageSize }

namespace ManagedRange

variable (range : ManagedRange)

@[simp] theorem advanced_base : range.advanced.base = range.base := by simp only [advanced]

@[simp] theorem advanced_next : range.advanced.next = range.next + kPageSize := by
  simp only [advanced]

@[simp] theorem advanced_limit : range.advanced.limit = range.limit := by simp only [advanced]

@[simp] theorem advanced_backing : range.advanced.backing = range.backing := by
  simp only [advanced]

end ManagedRange

/-- The page is taken from one range, and the rest of the table stays. -/
structure Carved (ranges : List ManagedRange) (range : ManagedRange)
    (ranges' : List ManagedRange) : Prop where
  split : ∃ before after, ranges = before ++ range :: after ∧
    ranges' = before ++ range.advanced :: after
  room : range.next < range.limit

theorem Carved.mem {ranges ranges' : List ManagedRange} {range : ManagedRange}
    (h : Carved ranges range ranges') : range ∈ ranges := by
  obtain ⟨before, after, rfl, _⟩ := h.split
  simp

/-- The entries of the new table are the advanced range and old ones. -/
theorem Carved.mem_cases {ranges ranges' : List ManagedRange} {range : ManagedRange}
    (h : Carved ranges range ranges') : ∀ r ∈ ranges', r = range.advanced ∨ r ∈ ranges := by
  obtain ⟨before, after, rfl, rfl⟩ := h.split
  intro r hr
  simp only [List.mem_append, List.mem_cons] at hr ⊢
  tauto

/-- A range of the backing with a page left. -/
def ManagedRange.serves (backing : BackingKind) (range : ManagedRange) : Bool :=
  range.backing = backing ∧ range.next < range.limit

theorem ManagedRange.serves_eq_false_iff {range : ManagedRange} :
    range.serves backing = false ↔ range.backing ≠ backing ∨ range.limit ≤ range.next := by
  rw [serves, decide_eq_false_iff_not, not_and_or, BitVec.not_lt]

theorem find?_of_carve_none {ranges : List ManagedRange} (h : carve backing ranges = none) :
    ranges.find? (·.serves backing) = none := by
  induction ranges with
  | nil => rfl
  | cons range rest ih =>
    rw [carve] at h
    split at h
    · rename_i hskip
      rw [List.find?_cons_of_neg, ih (Option.map_eq_none_iff.mp h)]
      exact Bool.not_eq_true _ ▸ ManagedRange.serves_eq_false_iff.mpr hskip
    · cases h

/-- The first range that can give a page gives it. -/
theorem carve_cases {ranges : List ManagedRange} {address : Word} {ranges' : List ManagedRange}
    (h : carve backing ranges = some (address, ranges')) :
    ∃ range, ranges.find? (·.serves backing) = some range ∧ range.backing = backing ∧
      address = range.next ∧ Carved ranges range ranges' := by
  induction ranges generalizing ranges' with
  | nil => cases h
  | cons range rest ih =>
    rw [carve] at h
    split at h
    · rename_i hskip
      obtain ⟨⟨address', rest'⟩, hrest, heq⟩ := Option.map_eq_some_iff.mp h
      cases heq
      obtain ⟨r, hfind, hb, ha, ⟨before, after, hl, hl'⟩, hroom⟩ := ih hrest
      refine ⟨r, ?_, hb, ha, ⟨range :: before, after, by rw [hl]; rfl, by rw [hl']; rfl⟩, hroom⟩
      rw [List.find?_cons_of_neg, hfind]
      exact Bool.not_eq_true _ ▸ ManagedRange.serves_eq_false_iff.mpr hskip
    · rename_i hgive
      cases h
      obtain ⟨hb, hroom⟩ := not_or.mp hgive
      have hb := not_not.mp hb
      have hroom := BitVec.not_le.mp hroom
      refine ⟨range, List.find?_cons_of_pos ?_, hb, rfl, ⟨[], rest, rfl, rfl⟩, hroom⟩
      exact decide_eq_true ⟨hb, hroom⟩

namespace PhysicalMemory

/-- Where the lifecycle lets a page of this backing go. -/
def Allocatable (s : LifecycleState) : BackingKind → Prop
  | .unavailable => False
  | .contained => s.ddrAllocationEnabled = false ∧ s.domain = .contained
  | .ddr => s.ddrAllocationEnabled = true

/-- The state after a page was taken from `range`. -/
def carved (m : PhysicalMemory) (range : ManagedRange) (ranges : List ManagedRange) :
    PhysicalMemory :=
  { m with ranges := ranges, bytes := zeroPage m.bytes range.next }

/-- A call of `allocate_page` fails and changes nothing, or carves a page. -/
theorem allocatePage_cases (m : PhysicalMemory) :
    m.allocatePage = ({}, m) ∨ ∃ range ranges', Carved m.ranges range ranges' ∧
      Allocatable m.lifecycle range.backing ∧
      m.allocatePage = (⟨range.next, range.backing⟩, m.carved range ranges') := by
  have hfrom : ∀ backing, Allocatable m.lifecycle backing →
      m.allocatePage = m.allocateFrom backing →
      m.allocatePage = ({}, m) ∨ ∃ range ranges', Carved m.ranges range ranges' ∧
        Allocatable m.lifecycle range.backing ∧
        m.allocatePage = (⟨range.next, range.backing⟩, m.carved range ranges') := by
    intro backing hb heq
    rw [heq, allocateFrom]
    split
    · rename_i address ranges' hc
      obtain ⟨range, -, rfl, rfl, hcarved⟩ := carve_cases hc
      exact .inr ⟨range, ranges', hcarved, hb, rfl⟩
    · exact .inl rfl
  by_cases hen : m.lifecycle.ddrAllocationEnabled = true
  · exact hfrom .ddr hen (by rw [allocatePage, if_pos hen])
  · by_cases hdom : m.lifecycle.domain = .contained
    · exact hfrom .contained ⟨Bool.not_eq_true _ ▸ hen, hdom⟩
        (by rw [allocatePage, if_neg hen, if_pos hdom])
    · exact .inl (by rw [allocatePage, if_neg hen, if_neg hdom])

/-- A range that `add_range` accepts. -/
structure Addable (m : PhysicalMemory) (base limit : Word) (backing : BackingKind) : Prop where
  backing_ne : backing ≠ .unavailable
  base_aligned : base.toNat % 4096 = 0
  limit_aligned : limit.toNat % 4096 = 0
  base_lt : base < limit
  apart : ∀ range ∈ m.ranges, limit ≤ range.base ∨ range.limit ≤ base
  first : m.lifecycle.backingFor base = backing
  last : m.lifecycle.backingFor (limit - 1) = backing

/-- A call of `add_range` fails and changes nothing, or appends a fresh range. -/
theorem addRange_cases (m : PhysicalMemory) (base size : Word) (backing : BackingKind) :
    m.addRange base size backing = (false, m) ∨
      ∃ limit, m.Addable base limit backing ∧ m.ranges.length < kMaxRanges ∧
        m.addRange base size backing =
          (true, { m with ranges := m.ranges ++ [⟨base, base, limit, backing⟩] }) := by
  rw [addRange]
  split
  · exact .inl rfl
  rename_i hargs
  simp only
  split
  · exact .inl rfl
  rename_i hwrap
  split
  · exact .inl rfl
  rename_i hover
  split
  · exact .inl rfl
  rename_i hcontained
  split
  · exact .inl rfl
  rename_i hddr
  simp only [not_or, not_le, Bool.not_eq_false] at hargs
  obtain ⟨hcount, hne, -, hbase, hsize⟩ := hargs
  have hbase := isPageAligned_iff.mp hbase
  have hends : m.lifecycle.backingFor base = backing ∧
      m.lifecycle.backingFor (base + size - 1) = backing := by
    cases backing with
    | unavailable => exact absurd rfl hne
    | contained => simpa using hcontained
    | ddr => simpa using hddr
  refine .inr ⟨base + size, ⟨hne, hbase, ?_, BitVec.not_le.mp hwrap, fun range hr => ?_, hends.1,
    hends.2⟩, hcount, rfl⟩
  · have hmod : size.toNat % 4096 = 0 := by
      have := congrArg BitVec.toNat (not_not.mp hsize)
      rwa [BitVec.toNat_umod] at this
    rw [BitVec.toNat_add]
    omega
  · have hno : overlaps base (base + size) range = false := by
      simpa using fun h => hover (List.any_eq_true.mpr ⟨range, hr, h⟩)
    by_contra hcon
    simp only [not_or, BitVec.not_le] at hcon
    rw [overlaps, Bool.and_eq_false_iff] at hno
    rcases hno with h | h
    · exact absurd hcon.2 (by simpa using h)
    · exact absurd hcon.1 (by simpa using h)

/-- The relabelling of `promote_backing`. -/
def relabel (before after : BackingKind) (range : ManagedRange) : ManagedRange :=
  if range.backing = before then { range with backing := after } else range

theorem promotable_ends {before after : BackingKind} {ranges : List ManagedRange} {count : ℕ}
    (h : m.promotable before after ranges = some count) :
    ∀ range ∈ ranges, range.backing = before → m.lifecycle.backingFor range.base = after ∧
      m.lifecycle.backingFor (range.limit - 1) = after := by
  induction ranges generalizing count with
  | nil => simp
  | cons range rest ih =>
    rw [promotable] at h
    intro r hr hb
    split at h
    · rename_i hother
      rcases List.mem_cons.mp hr with rfl | hr
      · exact absurd hb hother
      · exact ih h r hr hb
    · split at h
      · cases h
      · rename_i hends
        obtain ⟨count', hrest, _⟩ := Option.map_eq_some_iff.mp h
        rcases List.mem_cons.mp hr with rfl | hr
        · simpa using hends
        · exact ih hrest r hr hb

/-- A call of `promote_backing` returns 0 and changes nothing, or relabels every
range of the old backing, each of which has the new one at both ends. -/
theorem promoteBacking_cases (m : PhysicalMemory) (before after : BackingKind) :
    m.promoteBacking before after = (0, m) ∨
      (after ≠ .unavailable ∧ (∀ range ∈ m.ranges, range.backing = before →
        m.lifecycle.backingFor range.base = after ∧
        m.lifecycle.backingFor (range.limit - 1) = after) ∧
      ∃ count, m.promoteBacking before after =
        (count + 1, { m with ranges := m.ranges.map (relabel before after) })) := by
  rw [promoteBacking]
  split
  · exact .inl rfl
  rename_i hargs
  split
  · exact .inl rfl
  · exact .inl rfl
  · rename_i count hp
    exact .inr ⟨fun h => hargs (.inr (.inr h)), promotable_ends hp, count, rfl⟩

end PhysicalMemory

end Jixia
