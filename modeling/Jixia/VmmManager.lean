/-
The boot address space.

`vmm_manager.cpp`: one address space shared by all tasks, with the user text and the
task stacks mapped at their own addresses.  The linker symbols `__user_text_start` and
`__user_text_end` are arguments of `initializeVmm`.

* `SpaceInv.mapPages` — a run of identity mappings, page by page;
* `VmmInv.step` — every call keeps what the space exposes;
* `boot_space_exposes_text_and_stacks` — user mode reaches user text, read-only and
  executable, and requested stacks, writable and not executable, and nothing else.
-/
import Jixia.Sv39Mapping

namespace Jixia

open RadixTree RadixTree.Tables PhysicalMemory

/-- The private members of `VmmManager`, with the memory it works on. -/
structure VmmState where
  memory : PhysicalMemory
  bootAddressSpace : AddressSpace := {}
  mappedStackBases : List Word := []
  userTextStart : Word := 0
  userTextEnd : Word := 0
  initialized : Bool := false

def kUserTextFlags : Word :=
  PteFlag.read ||| PteFlag.execute ||| PteFlag.user ||| PteFlag.accessed

def kUserStackFlags : Word :=
  PteFlag.read ||| PteFlag.write ||| PteFlag.user ||| PteFlag.accessed ||| PteFlag.dirty

namespace VmmState

variable (v : VmmState)

/-- `VmmManager::initialize` once the address space is there. -/
def mapUserText : Bool × VmmState :=
  let text := v.memory.mapRange4k v.bootAddressSpace v.userTextStart v.userTextStart
    (v.userTextEnd - v.userTextStart) kUserTextFlags
  if text.1 then (true, { v with memory := text.2, initialized := true })
  else (false, { v with memory := text.2 })

/-- `VmmManager::initialize`. -/
def initializeVmm (userTextStart userTextEnd : Word) : Bool × VmmState :=
  if v.initialized then (true, v)
  else
    let v := { v with userTextStart := userTextStart, userTextEnd := userTextEnd }
    if userTextEnd ≤ userTextStart ∨ userTextStart % kPageSize ≠ 0 ∨
        userTextEnd % kPageSize ≠ 0 then (false, v)
    else
      let space := v.memory.createAddressSpace
      let v := { v with bootAddressSpace := space.1, memory := space.2 }
      if space.1.valid then v.mapUserText else (false, v)

def mapBootTaskStack (physicalBase size : Word) : Bool × VmmState :=
  if v.initialized = false ∨ size = 0 ∨ physicalBase % kPageSize ≠ 0 ∨ size % kPageSize ≠ 0 then
    (false, v)
  else if physicalBase ∈ v.mappedStackBases then (true, v)
  else if kMaxStackMappings ≤ v.mappedStackBases.length then (false, v)
  else
    let stack := v.memory.mapRange4k v.bootAddressSpace physicalBase physicalBase size
      kUserStackFlags
    if stack.1 then
      (true, { v with
        memory := stack.2, mappedStackBases := v.mappedStackBases ++ [physicalBase] })
    else (false, { v with memory := stack.2 })

end VmmState

/-! ### Identity mappings -/

variable {m : PhysicalMemory} {pages : List Word} {g : PageTables}

/-- The address is in the range. -/
def InRange (base size address : Word) : Prop :=
  base ≤ address ∧ address < base + size

/-- What a range of identity mappings does to the walks of an address space. -/
structure IdentityMapped (before after : Word → Option Translation) (flags : Word)
    (range : Word → Prop) (mapped : Bool) : Prop where
  cases : ∀ address, Canonical address → after address = before address ∨
    range address ∧ before address = none ∧ after address = some ⟨address, flags⟩
  all : mapped = true → ∀ address, Canonical address → range address →
    after address = some ⟨address, flags⟩

namespace IdentityMapped

variable {before middle after : Word → Option Translation} {flags : Word}
  {range range' : Word → Prop} {mapped : Bool}

theorem none (before : Word → Option Translation) (flags : Word) (range : Word → Prop) :
    IdentityMapped before before flags range false :=
  ⟨fun _ _ => .inl rfl, nofun⟩

/-- A call that failed part of the way. -/
theorem failed (h : IdentityMapped before after flags range mapped)
    (hsub : ∀ address, range address → range' address) :
    IdentityMapped before after flags range' false := by
  refine ⟨fun address hc => ?_, nofun⟩
  rcases h.cases address hc with hsame | ⟨hin, hnone, hsome⟩
  · exact .inl hsame
  · exact .inr ⟨hsub address hin, hnone, hsome⟩

/-- Two ranges, one after the other. -/
theorem trans (h : IdentityMapped before middle flags range true)
    (h' : IdentityMapped middle after flags range' mapped) :
    IdentityMapped before after flags (fun address => range address ∨ range' address) mapped := by
  -- What the first call mapped, the second one leaves.
  have hkept : ∀ address, Canonical address → range address →
      after address = some ⟨address, flags⟩ := by
    intro address hc hin
    have hmid := h.all rfl address hc hin
    rcases h'.cases address hc with hsame | ⟨_, hnone, _⟩
    · rw [hsame, hmid]
    · rw [hmid] at hnone
      cases hnone
  refine ⟨fun address hc => ?_, fun hm address hc hin => ?_⟩
  · rcases h.cases address hc with hsame | ⟨hin, hnone, _⟩
    · rcases h'.cases address hc with hsame' | ⟨hin, hnone, hsome⟩
      · exact .inl (hsame'.trans hsame)
      · exact .inr ⟨.inr hin, hsame ▸ hnone, hsome⟩
    · exact .inr ⟨.inl hin, hnone, hkept address hc hin⟩
  · rcases hin with hin | hin
    · exact hkept address hc hin
    · exact h'.all hm address hc hin

theorem congr_range (h : IdentityMapped before after flags range mapped)
    (hiff : ∀ address, range address ↔ range' address) :
    IdentityMapped before after flags range' mapped := by
  refine ⟨fun address hc => ?_, fun hm address hc hin => h.all hm address hc ((hiff _).mpr hin)⟩
  rcases h.cases address hc with hsame | ⟨hin, hnone, hsome⟩
  · exact .inl hsame
  · exact .inr ⟨(hiff _).mp hin, hnone, hsome⟩

end IdentityMapped

/-- Flags with which a page is mapped. -/
structure PageFlags (flags : Word) : Prop where
  low : flags.toNat < 2 ^ 8
  leaf : (hasFlag flags PteFlag.read || hasFlag flags PteFlag.execute) = true
  writable : hasFlag flags PteFlag.write = true → hasFlag flags PteFlag.read = true

theorem page_or_offset {page address : Word} (hp : page.toNat % 4096 = 0)
    (h : address.toNat / 4096 = page.toNat / 4096) :
    page ||| (address &&& offsetMask 0) = address := by
  apply BitVec.eq_of_toNat_eq
  rw [BitVec.toNat_or, BitVec.toNat_and, show (offsetMask 0).toNat = 2 ^ 12 - 1 from rfl,
    Nat.and_two_pow_sub_one_eq_mod]
  have hpage : page.toNat = (address.toNat / 4096) <<< 12 := by
    rw [Nat.shiftLeft_eq]
    omega
  rw [hpage, ← Nat.shiftLeft_add_eq_or_of_lt (Nat.mod_lt _ (by decide)), Nat.shiftLeft_eq]
  omega

theorem vpnIndices_congr {page address : Word} (h : address.toNat / 4096 = page.toNat / 4096) :
    vpnIndices address = vpnIndices page := by
  have hindex : ∀ level, vpnIndex address level = vpnIndex page level := by
    intro level
    apply Fin.ext
    rw [vpnIndex_val, vpnIndex_val, Nat.pow_add, ← Nat.div_div_eq_div_mul,
      ← Nat.div_div_eq_div_mul, h]
  simp only [vpnIndices, hindex]

/-- One page at its own address. -/
theorem SpaceInv.mapIdentity (h : SpaceInv m pages g) {space : AddressSpace}
    (hroot : g.depth space.rootPhysicalAddress = some 2) {page flags : Word}
    (hp : page.toNat % 4096 = 0) (hlt : page.toNat < 2 ^ 38) (hf : PageFlags flags) :
    ∃ mapped m' pages' g', m.mapPage4k space page page flags = (mapped, m') ∧
      SpaceInv m' pages' g' ∧ g'.depth space.rootPhysicalAddress = some 2 ∧
      IdentityMapped (walk m.bytes space.rootPhysicalAddress)
        (walk m'.bytes space.rootPhysicalAddress) (flags ||| PteFlag.valid)
        (fun address => address.toNat / 4096 = page.toNat / 4096) mapped := by
  have hcanon : Canonical page := canonical_iff.mpr (.inl hlt)
  obtain ⟨mapped, m', pages', g', heq, hinv', hmapped, -⟩ := h.mapPage4k hroot page page flags
  have hroot' := hmapped.depth hroot
  have hfound : mapped = true → ∀ address, Canonical address →
      address.toNat / 4096 = page.toNat / 4096 →
      walk m.bytes space.rootPhysicalAddress address = none ∧
      walk m'.bytes space.rootPhysicalAddress address =
        some ⟨address, flags ||| PteFlag.valid⟩ := by
    intro hm address hc hpage
    rw [h.walk_eq hroot hc, hinv'.walk_eq hroot' hc, vpnIndices_congr hpage, hmapped.absent hm,
      hmapped.found hm, Option.bind_some,
      leafTranslation_low ⟨hp, by omega⟩ hf.low hf.leaf hf.writable, page_or_offset hp hpage]
    exact ⟨rfl, rfl⟩
  refine ⟨mapped, m', pages', g', heq, hinv', hroot', fun address hc => ?_,
    fun hm address hc hpage => (hfound hm address hc hpage).2⟩
  by_cases hpage : mapped = true ∧ address.toNat / 4096 = page.toNat / 4096
  · exact .inr ⟨hpage.2, hfound hpage.1 address hc hpage.2⟩
  · refine .inl (h.walk_congr hinv' hroot hroot' fun _ => ?_)
    cases hm : mapped with
    | false => exact hmapped.refused hm hroot _
    | true =>
      exact hmapped.others hroot rfl fun hsame =>
        hpage ⟨hm, vpnIndices_inj hc hcanon hsame.2⟩

/-- **Pages at their own addresses**, up to the first that cannot be mapped. -/
theorem SpaceInv.mapPages {space : AddressSpace} {flags : Word} (hf : PageFlags flags)
    (count : ℕ) {page : Word} (h : SpaceInv m pages g)
    (hroot : g.depth space.rootPhysicalAddress = some 2) (hp : page.toNat % 4096 = 0)
    (hlt : page.toNat + 4096 * count < 2 ^ 38) :
    ∃ mapped m' pages' g', mapPages space flags count page page m = (mapped, m') ∧
      SpaceInv m' pages' g' ∧ g'.depth space.rootPhysicalAddress = some 2 ∧
      IdentityMapped (walk m.bytes space.rootPhysicalAddress)
        (walk m'.bytes space.rootPhysicalAddress) (flags ||| PteFlag.valid)
        (fun address => page.toNat ≤ address.toNat ∧
          address.toNat < page.toNat + 4096 * count) mapped := by
  induction count generalizing m pages g page with
  | zero =>
    refine ⟨true, m, pages, g, rfl, h, hroot, fun _ _ => .inl rfl, fun _ address _ hin => ?_⟩
    omega
  | succ count ih =>
    obtain ⟨mapped, m1, pages1, g1, heq, hinv1, hroot1, hfirst⟩ :=
      h.mapIdentity hroot hp (by omega) hf
    have hfit : page.toNat + 4096 < 2 ^ 38 :=
      lt_of_le_of_lt (Nat.add_le_add_left (Nat.le_mul_of_pos_right 4096 count.succ_pos) _) hlt
    have hnext : (page + kPageSize).toNat = page.toNat + 4096 := by
      have hadd := BitVec.toNat_add page kPageSize
      simp only [toNat_kPageSize] at hadd
      rw [hadd]
      exact Nat.mod_eq_of_lt (hfit.trans (by decide))
    rw [PhysicalMemory.mapPages, heq]
    cases mapped with
    | false =>
      refine ⟨false, m1, pages1, g1, rfl, hinv1, hroot1, hfirst.failed fun address hin => ?_⟩
      omega
    | true =>
      have hp' : (page + kPageSize).toNat % 4096 = 0 := by omega
      obtain ⟨mapped', m', pages', g', heq', hinv', hroot', hrest⟩ :=
        ih hinv1 hroot1 hp' (by omega)
      refine ⟨mapped', m', pages', g', heq', hinv', hroot', ?_⟩
      refine (hfirst.trans hrest).congr_range fun address => ?_
      omega

/-- A range whose end does not wrap is a number of pages. -/
theorem range_pages {base size : Word} (hs : size % kPageSize = 0)
    (hwrap : ¬ base + size ≤ base) :
    base.toNat + 4096 * (size / kPageSize).toNat = (base + size).toNat := by
  have hmod : size.toNat % 4096 = 0 := by
    have := congrArg BitVec.toNat hs
    rwa [BitVec.toNat_umod, toNat_kPageSize] at this
  have hadd := BitVec.toNat_add base size
  have hlt : base.toNat < (base + size).toNat := BitVec.not_le.mp hwrap
  rw [BitVec.toNat_udiv, toNat_kPageSize, Nat.mul_div_cancel' (Nat.dvd_of_mod_eq_zero hmod)]
  omega

/-- **A range at its own addresses.** -/
theorem SpaceInv.mapRange4k (h : SpaceInv m pages g) {space : AddressSpace}
    (hroot : g.depth space.rootPhysicalAddress = some 2) {flags : Word} (hf : PageFlags flags)
    {base size : Word} (hend : (base + size).toNat < 2 ^ 38) :
    ∃ mapped m' pages' g', m.mapRange4k space base base size flags = (mapped, m') ∧
      SpaceInv m' pages' g' ∧ g'.depth space.rootPhysicalAddress = some 2 ∧
      IdentityMapped (walk m.bytes space.rootPhysicalAddress)
        (walk m'.bytes space.rootPhysicalAddress) (flags ||| PteFlag.valid)
        (InRange base size) mapped := by
  rw [PhysicalMemory.mapRange4k]
  split
  · exact ⟨false, m, pages, g, rfl, h, hroot, .none ..⟩
  rename_i hguard
  split
  · exact ⟨false, m, pages, g, rfl, h, hroot, .none ..⟩
  rename_i hwrap
  simp only [not_or, Bool.not_eq_false, not_not] at hguard hwrap
  have hpages := range_pages hguard.2.2.2 hwrap.1
  obtain ⟨mapped, m', pages', g', heq, hinv', hroot', hmapped⟩ :=
    h.mapPages hf (size / kPageSize).toNat hroot (isPageAligned_iff.mp hguard.2.1)
      (hpages ▸ hend)
  refine ⟨mapped, m', pages', g', heq, hinv', hroot', hmapped.congr_range fun address => ?_⟩
  rw [hpages, InRange, BitVec.le_def, BitVec.lt_def]

/-! ### What the boot address space exposes -/

/-- Calls of the manager. -/
inductive VmmCall
  | init
  | mapBootTaskStack (physicalBase size : Word)
  deriving DecidableEq

/-- A call, where the linker put the user text at these addresses. -/
def VmmCall.apply (userTextStart userTextEnd : Word) : VmmCall → VmmState → Bool × VmmState
  | .init, v => v.initializeVmm userTextStart userTextEnd
  | .mapBootTaskStack physicalBase size, v => v.mapBootTaskStack physicalBase size

theorem VmmCall.apply_initialized {v : VmmState} (c : VmmCall) (h : v.initialized = true) :
    (c.apply userTextStart userTextEnd v).2.initialized = true := by
  cases c with
  | init => rwa [VmmCall.apply, VmmState.initializeVmm, if_pos h]
  | mapBootTaskStack base size =>
    rw [VmmCall.apply, VmmState.mapBootTaskStack]
    simp only [apply_ite Prod.snd, apply_ite VmmState.initialized, h, ite_self]

theorem VmmCall.apply_init_true {v : VmmState}
    (h : (VmmCall.init.apply userTextStart userTextEnd v).1 = true) :
    (VmmCall.init.apply userTextStart userTextEnd v).2.initialized = true := by
  revert h
  rw [VmmCall.apply, VmmState.initializeVmm]
  split
  · exact fun _ => ‹_›
  simp only
  split
  · exact nofun
  split
  · rw [VmmState.mapUserText]
    simp only
    split
    · exact fun _ => rfl
    · exact nofun
  · exact nofun

/-- The stack ranges that a run asked for. -/
def requestedStacks (trace : List (VmmCall × Bool)) (base size : Word) : Prop :=
  ∃ answer, (VmmCall.mapBootTaskStack base size, answer) ∈ trace

/-- The address is user text. -/
def InText (userTextStart userTextEnd address : Word) : Prop :=
  userTextStart ≤ address ∧ address < userTextEnd

variable {userTextStart userTextEnd : Word} {requested requested' : Word → Word → Prop}
  {v : VmmState}

/-- What a walk finds at the address: user text, a requested stack or nothing. -/
structure Reaches (userTextStart userTextEnd : Word) (requested : Word → Word → Prop)
    (address : Word) (found : Option Translation) : Prop where
  text : InText userTextStart userTextEnd address →
    found = some ⟨address, kUserTextFlags ||| PteFlag.valid⟩
  stack : ¬ InText userTextStart userTextEnd address → found = none ∨
    (∃ base size, requested base size ∧ InRange base size address) ∧
      found = some ⟨address, kUserStackFlags ||| PteFlag.valid⟩

/-- The invariant of the manager. -/
structure VmmInv (userTextStart userTextEnd : Word) (requested : Word → Word → Prop)
    (v : VmmState) : Prop where
  space : ∃ pages g, SpaceInv v.memory pages g ∧
    (v.initialized = true → g.depth v.bootAddressSpace.rootPhysicalAddress = some 2)
  reaches : v.initialized = true → ∀ address, Canonical address →
    Reaches userTextStart userTextEnd requested address
      (walk v.memory.bytes v.bootAddressSpace.rootPhysicalAddress address)

theorem kUserTextFlags_ok : PageFlags kUserTextFlags := ⟨by decide, by decide, by decide⟩

theorem kUserStackFlags_ok : PageFlags kUserStackFlags := ⟨by decide, by decide, by decide⟩

theorem kUserTextFlags_readExecute :
    hasFlag (kUserTextFlags ||| PteFlag.valid) PteFlag.user = true ∧
    hasFlag (kUserTextFlags ||| PteFlag.valid) PteFlag.read = true ∧
    hasFlag (kUserTextFlags ||| PteFlag.valid) PteFlag.execute = true ∧
    hasFlag (kUserTextFlags ||| PteFlag.valid) PteFlag.write = false := by
  decide

theorem kUserStackFlags_readWrite :
    hasFlag (kUserStackFlags ||| PteFlag.valid) PteFlag.user = true ∧
    hasFlag (kUserStackFlags ||| PteFlag.valid) PteFlag.read = true ∧
    hasFlag (kUserStackFlags ||| PteFlag.valid) PteFlag.execute = false ∧
    hasFlag (kUserStackFlags ||| PteFlag.valid) PteFlag.write = true := by
  decide

theorem Reaches.mono {address : Word} {found : Option Translation}
    (h : Reaches userTextStart userTextEnd requested address found)
    (hsub : ∀ base size, requested base size → requested' base size) :
    Reaches userTextStart userTextEnd requested' address found := by
  refine ⟨h.text, fun hout => (h.stack hout).imp_right ?_⟩
  rintro ⟨⟨base, size, hreq, hin⟩, hfound⟩
  exact ⟨⟨base, size, hsub base size hreq, hin⟩, hfound⟩

theorem VmmInv.mono (h : VmmInv userTextStart userTextEnd requested v)
    (hsub : ∀ base size, requested base size → requested' base size) :
    VmmInv userTextStart userTextEnd requested' v :=
  ⟨h.space, fun hinit address hc => (h.reaches hinit address hc).mono hsub⟩

/-- A state that is not initialized only has a page pool. -/
theorem VmmInv.of_space (hinit : v.initialized = false) (h : SpaceInv v.memory pages g) :
    VmmInv userTextStart userTextEnd requested v := by
  have hno : ¬ v.initialized = true := by simp [hinit]
  exact ⟨⟨pages, g, h, fun hi => absurd hi hno⟩, fun hi => absurd hi hno⟩

theorem inRange_text {address : Word} :
    InRange userTextStart (userTextEnd - userTextStart) address ↔
      InText userTextStart userTextEnd address := by
  rw [InRange, InText, BitVec.add_comm, BitVec.sub_add_cancel]

/-- The user text, mapped into an empty space. -/
theorem VmmInv.mapUserText (h : SpaceInv v.memory pages g) (hinit : v.initialized = false)
    (hroot : g.depth v.bootAddressSpace.rootPhysicalAddress = some 2)
    (hempty : ∀ address,
      walk v.memory.bytes v.bootAddressSpace.rootPhysicalAddress address = none)
    (hstart : v.userTextStart = userTextStart) (hend : v.userTextEnd = userTextEnd)
    (hlt : userTextEnd.toNat < 2 ^ 38) :
    VmmInv userTextStart userTextEnd requested v.mapUserText.2 := by
  subst hstart hend
  have hsum : (v.userTextStart + (v.userTextEnd - v.userTextStart)).toNat < 2 ^ 38 := by
    rwa [BitVec.add_comm, BitVec.sub_add_cancel]
  obtain ⟨mapped, m', pages', g', heq, hinv', hroot', hmapped⟩ :=
    h.mapRange4k hroot kUserTextFlags_ok hsum
  rw [VmmState.mapUserText, heq]
  cases mapped with
  | false => exact .of_space hinit hinv'
  | true =>
    refine ⟨⟨pages', g', hinv', fun _ => hroot'⟩,
      fun _ address hc => ⟨fun hin => ?_, fun hout => ?_⟩⟩
    · exact hmapped.all rfl address hc (inRange_text.mpr hin)
    · rcases hmapped.cases address hc with hsame | ⟨hin, _⟩
      · exact .inl (hsame.trans (hempty address))
      · exact absurd (inRange_text.mp hin) hout

theorem VmmInv.initializeVmm (h : VmmInv userTextStart userTextEnd requested v)
    (hlt : userTextEnd.toNat < 2 ^ 38) :
    VmmInv userTextStart userTextEnd requested
      (v.initializeVmm userTextStart userTextEnd).2 := by
  obtain ⟨pages, g, hspace, _⟩ := h.space
  rw [VmmState.initializeVmm]
  cases v.initialized with
  | true => exact h
  | false =>
    simp only [Bool.false_eq_true, if_false]
    split
    · exact .of_space rfl hspace
    obtain ⟨root, m', pages', g', heq, hinv', hroots, _, hempty⟩ := hspace.createAddressSpace
    rw [heq]
    simp only
    split
    · rename_i hvalid
      have hne : root ≠ 0 := bne_iff_ne.mp hvalid
      have hroot := (hroots root).mpr (.inr ⟨rfl, hne⟩)
      exact .mapUserText hinv' rfl hroot (hinv'.walk_none hroot (hempty hne)) rfl rfl hlt
    · exact .of_space rfl hinv'

/-- A stack range, mapped or refused. -/
theorem VmmInv.mapBootTaskStack (h : VmmInv userTextStart userTextEnd requested v)
    {physicalBase size : Word} (hreq : requested physicalBase size)
    (hend : (physicalBase + size).toNat < 2 ^ 38) :
    VmmInv userTextStart userTextEnd requested (v.mapBootTaskStack physicalBase size).2 := by
  rw [VmmState.mapBootTaskStack]
  split
  · exact h
  rename_i hguard
  have hinit : v.initialized = true := by
    cases hi : v.initialized with
    | true => rfl
    | false => exact absurd (.inl hi) hguard
  split
  · exact h
  split
  · exact h
  obtain ⟨pages, g, hspace, hroot⟩ := h.space
  obtain ⟨mapped, m', pages', g', heq, hinv', hroot', hmapped⟩ :=
    hspace.mapRange4k (hroot hinit) kUserStackFlags_ok hend
  -- User text is mapped already, so the range only fills pages outside it.
  have hreach : ∀ address, Canonical address →
      Reaches userTextStart userTextEnd requested address
        (walk m'.bytes v.bootAddressSpace.rootPhysicalAddress address) := by
    intro address hc
    have hold := h.reaches hinit address hc
    rcases hmapped.cases address hc with hsame | ⟨hin, hnone, hsome⟩
    · rwa [hsame]
    · refine ⟨fun htext => ?_, fun _ => .inr ⟨⟨physicalBase, size, hreq, hin⟩, hsome⟩⟩
      have hfound := hold.text htext
      rw [hnone] at hfound
      cases hfound
  rw [heq]
  cases mapped with
  | false => exact ⟨⟨pages', g', hinv', fun _ => hroot'⟩, fun _ => hreach⟩
  | true => exact ⟨⟨pages', g', hinv', fun _ => hroot'⟩, fun _ => hreach⟩

/-- **Every call keeps what the space exposes.** -/
theorem VmmInv.step (h : VmmInv userTextStart userTextEnd requested v)
    (hlt : userTextEnd.toNat < 2 ^ 38) (c : VmmCall)
    (hc : ∀ base size, c = .mapBootTaskStack base size →
      requested base size ∧ (base + size).toNat < 2 ^ 38) :
    VmmInv userTextStart userTextEnd requested (c.apply userTextStart userTextEnd v).2 := by
  cases c with
  | init => exact h.initializeVmm hlt
  | mapBootTaskStack base size => exact h.mapBootTaskStack (hc base size rfl).1 (hc base size rfl).2

variable {start : PhysicalMemory} {trace : List (VmmCall × Bool)}

/-- Runs of the manager on a page pool. -/
abbrev VmmRun (userTextStart userTextEnd : Word) (start : PhysicalMemory) :=
  Trace (VmmCall.apply userTextStart userTextEnd) { memory := start }

theorem requestedStacks_append {base size : Word} (h : requestedStacks trace base size)
    (rest : List (VmmCall × Bool)) : requestedStacks (trace ++ rest) base size :=
  h.imp fun _ hmem => List.mem_append_left rest hmem

theorem requestedStacks_last (trace : List (VmmCall × Bool)) (base size : Word) (answer : Bool) :
    requestedStacks (trace ++ [(.mapBootTaskStack base size, answer)]) base size :=
  ⟨answer, List.mem_append_right _ (List.mem_singleton_self _)⟩

theorem VmmRun.inv (hpool : PagePool start) (hlt : userTextEnd.toNat < 2 ^ 38)
    (hrun : VmmRun userTextStart userTextEnd start trace v)
    (hstacks : ∀ base size, requestedStacks trace base size → (base + size).toNat < 2 ^ 38) :
    VmmInv userTextStart userTextEnd (requestedStacks trace) v := by
  induction hrun with
  | nil => exact .of_space rfl hpool.inv
  | @snoc trace v c _ ih =>
    have hsub := fun base size (hr : requestedStacks trace base size) =>
      requestedStacks_append hr [(c, (c.apply userTextStart userTextEnd v).1)]
    have hinv := (ih fun base size hr => hstacks base size (hsub base size hr)).mono hsub
    refine hinv.step hlt c fun base size heq => ?_
    subst heq
    have hreq := requestedStacks_last trace base size
      ((VmmCall.mapBootTaskStack base size).apply userTextStart userTextEnd v).1
    exact ⟨hreq, hstacks base size hreq⟩

theorem VmmRun.initialized (hrun : VmmRun userTextStart userTextEnd start trace v)
    (h : (VmmCall.init, true) ∈ trace) : v.initialized = true := by
  induction hrun with
  | nil => cases h
  | @snoc trace v c _ ih =>
    rcases List.mem_append.mp h with h | h
    · exact c.apply_initialized (ih h)
    · have heq := List.mem_singleton.mp h
      have hcall : c = .init := (Prod.ext_iff.mp heq).1.symm
      subst hcall
      exact VmmCall.apply_init_true (Prod.ext_iff.mp heq).2.symm

/-- **The boot address space exposes user text and task stacks only, and no page both
writable and executable.**  After `initialize` has returned true, and any calls before
and after it, successful or not: an address faults, or it is mapped to itself for user
mode, and is user text to read and execute, or lies in a requested stack outside user
text, to read and write.  No request changes a page of user text. -/
theorem boot_space_exposes_text_and_stacks (hpool : PagePool start)
    (hlt : userTextEnd.toNat < 2 ^ 38) (hrun : VmmRun userTextStart userTextEnd start trace v)
    (hstacks : ∀ base size, requestedStacks trace base size → (base + size).toNat < 2 ^ 38)
    (hinit : (VmmCall.init, true) ∈ trace) (address : Word) (hc : Canonical address) :
    (∀ found, walk v.memory.bytes v.bootAddressSpace.rootPhysicalAddress address = some found →
      found.physicalAddress = address ∧ hasFlag found.flags PteFlag.user = true ∧
      hasFlag found.flags PteFlag.read = true ∧
      (InText userTextStart userTextEnd address ∧
          hasFlag found.flags PteFlag.execute = true ∧ hasFlag found.flags PteFlag.write = false ∨
        ¬ InText userTextStart userTextEnd address ∧
          (∃ base size, requestedStacks trace base size ∧ InRange base size address) ∧
          hasFlag found.flags PteFlag.execute = false ∧
          hasFlag found.flags PteFlag.write = true)) ∧
    (InText userTextStart userTextEnd address →
      walk v.memory.bytes v.bootAddressSpace.rootPhysicalAddress address =
        some ⟨address, kUserTextFlags ||| PteFlag.valid⟩) := by
  have hreach := (VmmRun.inv hpool hlt hrun hstacks).reaches (hrun.initialized hinit) address hc
  refine ⟨fun found hfound => ?_, hreach.text⟩
  by_cases htext : InText userTextStart userTextEnd address
  · cases Option.some.inj (hfound.symm.trans (hreach.text htext))
    obtain ⟨hu, hr, hx, hw⟩ := kUserTextFlags_readExecute
    exact ⟨rfl, hu, hr, .inl ⟨htext, hx, hw⟩⟩
  · rcases hreach.stack htext with hnone | ⟨hreq, hsome⟩
    · rw [hfound] at hnone
      cases hnone
    · cases Option.some.inj (hfound.symm.trans hsome)
      obtain ⟨hu, hr, hx, hw⟩ := kUserStackFlags_readWrite
      exact ⟨rfl, hu, hr, .inr ⟨htext, hreq, hx, hw⟩⟩

/-- One page of user text and a stack next to it, then a stack over the text. -/
def sampleVmm : List (VmmCall × Bool) × VmmState :=
  Trace.exec (VmmCall.apply 0x80000000 0x80001000)
    [.init, .mapBootTaskStack 0x80001000 0x1000, .mapBootTaskStack 0x80000000 0x2000]
    ([], { memory := samplePool })

theorem sampleVmm_trace : sampleVmm.1 = [(.init, true),
    (.mapBootTaskStack 0x80001000 0x1000, true),
    (.mapBootTaskStack 0x80000000 0x2000, false)] := by
  decide +kernel

theorem sampleVmm_run : VmmRun 0x80000000 0x80001000 samplePool sampleVmm.1 sampleVmm.2 :=
  Trace.exec_trace ..

theorem boot_space_exposes_text_and_stacks_sample :
    walk sampleVmm.2.memory.bytes sampleVmm.2.bootAddressSpace.rootPhysicalAddress 0x80000ffc =
      some ⟨0x80000ffc, kUserTextFlags ||| PteFlag.valid⟩ := by
  refine (boot_space_exposes_text_and_stacks samplePool_pool (by decide) sampleVmm_run ?_ ?_
    0x80000ffc (by decide)).2 ⟨by decide, by decide⟩
  · rintro base size ⟨answer, hmem⟩
    rw [sampleVmm_trace] at hmem
    simp only [List.mem_cons, Prod.mk.injEq, VmmCall.mapBootTaskStack.injEq, List.not_mem_nil,
      reduceCtorEq, false_and, or_false, false_or] at hmem
    rcases hmem with ⟨⟨rfl, rfl⟩, _⟩ | ⟨⟨rfl, rfl⟩, _⟩ <;> decide
  · rw [sampleVmm_trace]
    exact List.mem_cons_self

end Jixia
