/-
The forest of trackers.

Every used tracker is a node of a forest: `first_child` and the sibling links hold
the children of a tracker, `root_tasks_` the kernel-parented ones.  `Forest` says
that the links represent lists of children `kids`, that parents are used and of a lower
`rank` than their children, and that a free tracker is zeroed.  The rank is no part of the
kernel's state: task ids wrap around, so they do not order the forest.  While a tracker is being
removed it is still used but hangs in no list; `H` collects such trackers.

* `linkTrackerLocked_eq`, `unlinkTrackerLocked_eq` — the two list operations in
  closed form;
* `Forest.link`, `Forest.unlink`, `Forest.released` — what they and the release of a
  tracker do to the forest.
-/
import Jixia.LinkedList
import Jixia.TaskManager

namespace Jixia

open LinkedList Function Kernel

namespace Kernel

def parentOf (k : Kernel) (r : TrackerRef) : Option TrackerRef := (k.trackers r).parent

def firstOf (k : Kernel) (r : TrackerRef) : Option TrackerRef := (k.trackers r).firstChild

def sibNext (k : Kernel) (r : TrackerRef) : Option TrackerRef := (k.trackers r).nextSibling

def sibPrev (k : Kernel) (r : TrackerRef) : Option TrackerRef := (k.trackers r).previousSibling

/-- The same kernel with other links between the trackers. -/
def withLinks (k : Kernel) (parent first next prev : TrackerRef → Option TrackerRef)
    (root : Option TrackerRef) : Kernel :=
  { k with
    rootTasks := root
    trackers := fun r => { k.trackers r with
      parent := parent r, firstChild := first r, nextSibling := next r
      previousSibling := prev r } }

/-- The kernel after `r` was put in front of the children of `p`. -/
def adopted (k : Kernel) (r : TrackerRef) (p : Option TrackerRef) : Kernel :=
  k.withLinks (update k.parentOf r p)
    (fun u => if p = some u then some r else k.firstOf u)
    (insNext k.sibNext none (k.siblingHead p) r) (insPrev k.sibPrev none (k.siblingHead p) r)
    (if p = none then some r else k.rootTasks)

/-- The kernel after `r` was taken off the list of its parent. -/
def orphaned (k : Kernel) (r : TrackerRef) : Kernel :=
  k.withLinks k.parentOf
    (fun u => if k.sibPrev r = none ∧ k.parentOf r = some u then k.sibNext r else k.firstOf u)
    (delNext k.sibNext k.sibPrev r) (delPrev k.sibNext k.sibPrev r)
    (if k.sibPrev r = none ∧ k.parentOf r = none then k.sibNext r else k.rootTasks)

end Kernel

variable {k k' : Kernel} {r c : TrackerRef} {p : Option TrackerRef}

@[simp] theorem Kernel.setSiblingHead_none (k : Kernel) (head : Option TrackerRef) :
    k.setSiblingHead none head = { k with rootTasks := head } := rfl

@[simp] theorem Kernel.setSiblingHead_some (k : Kernel) (q : TrackerRef)
    (head : Option TrackerRef) : k.setSiblingHead (some q) head =
      k.modifyTracker q fun tracker => { tracker with firstChild := head } := rfl

/-- A kernel that differs in the links of the trackers only. -/
theorem Kernel.eq_withLinks {parent first next prev : TrackerRef → Option TrackerRef}
    {root : Option TrackerRef}
    (hk : k' = { k with trackers := k'.trackers, rootTasks := k'.rootTasks })
    (ht : ∀ u, k'.trackers u = { k.trackers u with
      parent := parent u, firstChild := first u, nextSibling := next u
      previousSibling := prev u }) (hr : k'.rootTasks = root) :
    k' = k.withLinks parent first next prev root := by
  rw [hk, hr, funext ht, withLinks]

theorem linkTrackerLocked_eq (hp : p ≠ some r) (hh : k.siblingHead p ≠ some r) :
    k.linkTrackerLocked r p = k.adopted r p := by
  have hhead : ∀ f, (k.modifyTracker r f).siblingHead p = k.siblingHead p := by
    intro f
    cases p with
    | none => rfl
    | some u =>
      have hu : u ≠ r := fun hur => hp (hur ▸ rfl)
      simp [siblingHead, hu]
  rw [linkTrackerLocked]
  simp only [hhead]
  clear hhead
  generalize hhd : k.siblingHead p = head at hh
  rw [adopted, hhd]
  clear hhd
  -- Whether or not there is an old head and a parent, a tracker is `r`, one of these two or
  -- neither.
  cases head <;> cases p
  all_goals
    refine eq_withLinks rfl (fun u => ?_) rfl
    by_cases hu : u = r
    · subst hu
      simp_all [firstOf, insNext, insPrev, update_apply, @eq_comm _ u]
    · simp only [setSiblingHead_none, setSiblingHead_some, modifyTracker_trackers, update_apply,
        insNext, insPrev, hu, if_false]
      split_ifs <;> simp_all [firstOf, parentOf, sibNext, sibPrev]

theorem unlinkTrackerLocked_eq (hn : k.sibNext r ≠ some r) (hpr : k.sibPrev r ≠ some r)
    (hne : ∀ u, k.sibPrev r = some u → k.sibNext r ≠ some u) (hp : k.parentOf r ≠ some r) :
    k.unlinkTrackerLocked r = k.orphaned r := by
  rw [unlinkTrackerLocked, orphaned]
  have hnext : (k.trackers r).nextSibling = k.sibNext r := rfl
  have hprev : (k.trackers r).previousSibling = k.sibPrev r := rfl
  have hpar : (k.trackers r).parent = k.parentOf r := rfl
  simp only [hnext, hprev, hpar]
  clear hnext hprev hpar
  cases hb : k.sibPrev r <;> cases ha : k.sibNext r <;> cases hq : k.parentOf r
  all_goals
    refine eq_withLinks rfl (fun u => ?_) (by simp)
    by_cases hu : u = r
    · subst hu
      simp_all [firstOf, parentOf, delNext, delPrev, update_apply, @eq_comm _ u]
    · simp only [setSiblingHead_none, setSiblingHead_some, modifyTracker_trackers, update_apply,
        delNext, delPrev, ha, hb, hu, if_false]
      split_ifs <;> simp_all [firstOf, parentOf, sibNext, sibPrev]

/-! ### The forest -/

/-- The used trackers outside of `H` form a forest with the lists of children
`kids`, ordered by `rank`. -/
structure Forest (k : Kernel) (rank : TrackerRef → ℕ) (H : TrackerRef → Prop)
    (kids : Option TrackerRef → List TrackerRef) : Prop where
  family : Family k.sibNext k.sibPrev (fun r => k.trackerSlotsUsed r = true ∧ ¬ H r)
    k.siblingHead (fun p => (kids p).getLast?) kids
  parent : ∀ {p r}, r ∈ kids p → k.parentOf r = p
  parent_used : ∀ {r p}, k.trackerSlotsUsed r = true → ¬ H r → k.parentOf r = some p →
    k.trackerSlotsUsed p = true
  order : ∀ {r p}, k.trackerSlotsUsed r = true → ¬ H r → k.parentOf r = some p →
    rank p < rank r
  free : ∀ r, k.trackerSlotsUsed r = false → k.trackers r = {}

namespace Forest

variable {rank : TrackerRef → ℕ} {H : TrackerRef → Prop}
  {kids : Option TrackerRef → List TrackerRef}

theorem mem_kids (hf : Forest k rank H kids) :
    r ∈ kids p ↔ k.trackerSlotsUsed r = true ∧ ¬ H r ∧ k.parentOf r = p := by
  constructor
  · intro hr
    have := (hf.family.queued_iff r).mpr ⟨p, hr⟩
    exact ⟨this.1, this.2, hf.parent hr⟩
  · rintro ⟨hu, hH, rfl⟩
    obtain ⟨q, hq⟩ := (hf.family.queued_iff r).mp ⟨hu, hH⟩
    rwa [hf.parent hq]

/-- A tracker is not its own parent. -/
theorem parent_ne (hf : Forest k rank H kids) (hr : k.trackerSlotsUsed r = true) (hH : ¬ H r) :
    k.parentOf r ≠ some r := fun h => lt_irrefl _ (hf.order hr hH h)

theorem head_eq (hf : Forest k rank H kids) (p : Option TrackerRef) :
    k.siblingHead p = (kids p).head? := (hf.family.holds p).head_eq

/-- Only the links and the marks matter. -/
theorem congr (hf : Forest k rank H kids) {H' : TrackerRef → Prop}
    (hu : k'.trackerSlotsUsed = k.trackerSlotsUsed) (hroot : k'.rootTasks = k.rootTasks)
    (hlink : ∀ r, k'.parentOf r = k.parentOf r ∧ k'.firstOf r = k.firstOf r ∧
      k'.sibNext r = k.sibNext r ∧ k'.sibPrev r = k.sibPrev r)
    (hfree : ∀ r, k.trackerSlotsUsed r = false → k'.trackers r = k.trackers r)
    (hH : ∀ r, H' r ↔ H r) : Forest k' rank H' kids where
  family := by
    refine hf.family.congr (fun _ r _ => (hlink r).2.2.1) (fun _ r _ => (hlink r).2.2.2)
      (fun r => ?_) (fun p => ?_) fun _ => rfl
    · rw [hu, hH]
    · cases p with
      | none => exact hroot
      | some q => exact (hlink q).2.1
  parent hr := by rw [(hlink _).1, hf.parent hr]
  parent_used hr hrH hp := by
    rw [hu] at hr ⊢
    rw [hH] at hrH
    rw [(hlink _).1] at hp
    exact hf.parent_used hr hrH hp
  order hr hrH hp := by
    rw [hu] at hr
    rw [hH] at hrH
    rw [(hlink _).1] at hp
    exact hf.order hr hrH hp
  free r hr := by
    rw [hu] at hr
    rw [hfree r hr, hf.free r hr]

/-- Put a tracker that hangs in no list in front of the children of one of a lower
rank. -/
theorem link (hf : Forest k rank H kids) (hr : k.trackerSlotsUsed r = true) (hH : H r)
    (hp : ∀ q, p = some q → k.trackerSlotsUsed q = true ∧ rank q < rank r) :
    k.linkTrackerLocked r p = k.adopted r p ∧
      Forest (k.adopted r p) rank (fun u => H u ∧ u ≠ r) (update kids p (r :: kids p)) := by
  have hpr : p ≠ some r := fun h => lt_irrefl _ (hp r h).2
  have hout : ∀ q, r ∉ kids q := fun q hq => (hf.mem_kids.mp hq).2.1 hH
  have hhead : k.siblingHead p ≠ some r := by
    rw [hf.head_eq]
    exact fun h => hout p (List.mem_of_head? h)
  refine ⟨linkTrackerLocked_eq hpr hhead, ?_⟩
  have hpar : ∀ u, (k.adopted r p).parentOf u = if u = r then p else k.parentOf u := by
    intro u
    exact update_apply ..
  refine ⟨?_, fun {q u} hu => ?_, fun {u q} hu huH hq => ?_, fun {u q} hu huH hq => ?_,
    fun u hu => ?_⟩
  · have hi := hf.family.insert (show kids p = [] ++ kids p from rfl)
      (show ¬ (k.trackerSlotsUsed r = true ∧ ¬ H r) from fun h => h.2 hH)
    rw [← hf.head_eq] at hi
    refine hi.congr (fun _ _ _ => rfl) (fun _ _ _ => rfl) (fun u => ?_) (fun q => ?_) fun q => ?_
    · by_cases hur : u = r
      · subst hur
        simp [adopted, withLinks, hr]
      · simp [adopted, withLinks, hur]
    · by_cases hq : q = p
      · subst hq
        cases q <;> simp [siblingHead, adopted, withLinks]
      · rw [update_of_ne hq]
        cases q <;> simp [siblingHead, adopted, withLinks, Ne.symm hq,
          firstOf]
    · by_cases hq : q = p
      · subst hq
        simp
      · simp [hq]
  · rw [hpar]
    by_cases hq : q = p
    · subst hq
      rw [update_self, List.mem_cons] at hu
      rcases hu with rfl | hu
      · rw [if_pos rfl]
      · rw [if_neg (ne_of_mem_of_not_mem hu (hout q)), hf.parent hu]
    · rw [update_of_ne hq] at hu
      rw [if_neg (ne_of_mem_of_not_mem hu (hout q)), hf.parent hu]
  · rw [hpar] at hq
    by_cases hur : u = r
    · rw [if_pos hur] at hq
      exact (hp q hq).1
    · rw [if_neg hur] at hq
      exact hf.parent_used hu (fun h => huH ⟨h, hur⟩) hq
  · rw [hpar] at hq
    by_cases hur : u = r
    · rw [if_pos hur] at hq
      rw [hur]
      exact (hp q hq).2
    · rw [if_neg hur] at hq
      exact hf.order hu (fun h => huH ⟨h, hur⟩) hq
  · -- A free tracker is no neighbour of a used one, so its links stay empty.
    have hnot : ¬ k.trackerSlotsUsed u = true := by
      rw [show k.trackerSlotsUsed u = false from hu]
      exact Bool.false_ne_true
    have hur : u ≠ r := fun h => hnot (h ▸ hr)
    have hpu : p ≠ some u := fun h => hnot (hp u h).1
    have hhu : k.siblingHead p ≠ some u := by
      rw [hf.head_eq]
      exact fun h => hnot (hf.mem_kids.mp (List.mem_of_head? h)).1
    simp only [adopted, withLinks, update_of_ne hur, if_neg hpu,
      insNext_of_ne hur (Option.some_ne_none u).symm, insPrev_of_ne hur hhu]
    exact hf.free u hu

/-- Take a tracker off the list of its parent. -/
theorem unlink (hf : Forest k rank H kids) (hr : k.trackerSlotsUsed r = true) (hH : ¬ H r) :
    k.unlinkTrackerLocked r = k.orphaned r ∧ ∃ l1 l2, kids (k.parentOf r) = l1 ++ r :: l2 ∧
      Forest (k.orphaned r) rank (fun u => H u ∨ u = r)
        (update kids (k.parentOf r) (l1 ++ l2)) := by
  obtain ⟨l1, l2, hl⟩ := List.append_of_mem (hf.mem_kids.mpr ⟨hr, hH, rfl⟩)
  have hold := hf.family.holds (k.parentOf r)
  rw [hl] at hold
  obtain ⟨hnext, hprev⟩ := hold.neighbours l1
  have hnd := List.nodup_middle.mp hold.nodup
  have hnot : r ∉ l1 ++ l2 := (List.nodup_cons.mp hnd).1
  have hdisj := (List.nodup_append.mp (List.nodup_cons.mp hnd).2).2.2
  rw [List.mem_append, not_or] at hnot
  refine ⟨unlinkTrackerLocked_eq ?_ ?_ (fun u hu => ?_) (hf.parent_ne hr hH), l1, l2, hl, ?_⟩
  · rw [hnext]
    exact fun h => hnot.2 (List.mem_of_head? h)
  · rw [hprev]
    exact fun h => hnot.1 (List.mem_of_getLast? h)
  · rw [hprev] at hu
    rw [hnext]
    exact fun h => hdisj u (List.mem_of_getLast? hu) u (List.mem_of_head? h) rfl
  refine ⟨?_, fun {q u} hu => ?_, fun hu huH hq => hf.parent_used hu (mt .inl huH) hq,
    fun hu huH hq => hf.order hu (mt .inl huH) hq, fun u hu => ?_⟩
  · refine (hf.family.delete hl).congr (fun _ _ _ => rfl) (fun _ _ _ => rfl) (fun u => ?_)
      (fun q => ?_) fun q => ?_
    · simp only [orphaned, withLinks]
      tauto
    · have hhead := hf.head_eq (k.parentOf r)
      rw [hl] at hhead
      by_cases hq : q = k.parentOf r
      · rw [hq, update_self]
        cases l1 with
        | nil =>
          cases hp : k.parentOf r <;> simp [siblingHead, orphaned, withLinks, hprev, hp, hnext]
        | cons c l =>
          cases hp : k.parentOf r <;> rw [hp] at hhead <;>
            simpa [siblingHead, orphaned, withLinks, hprev, hp, firstOf] using hhead
      · rw [update_of_ne hq]
        cases q <;> simp [siblingHead, orphaned, withLinks, Ne.symm hq, firstOf]
    · by_cases hq : q = k.parentOf r
      · subst hq
        simp
      · simp [hq]
  · by_cases hq : q = k.parentOf r
    · subst hq
      rw [update_self] at hu
      refine hf.parent (p := k.parentOf r) (r := u) ?_
      rw [hl, List.mem_append, List.mem_cons]
      rw [List.mem_append] at hu
      tauto
    · rw [update_of_ne hq] at hu
      exact hf.parent hu
  · have hnotu : ¬ k.trackerSlotsUsed u = true := by
      rw [show k.trackerSlotsUsed u = false from hu]
      exact Bool.false_ne_true
    have hkid : ∀ q, u ∉ kids q := fun q h => hnotu (hf.mem_kids.mp h).1
    have hpu : k.parentOf r ≠ some u := fun h => hnotu (hf.parent_used hr hH h)
    obtain ⟨hnextu, hprevu⟩ := hold.delete_outside l1 (hl ▸ hkid _)
    simp only [orphaned, withLinks, hpu, and_false, if_false, hnextu, hprevu]
    exact hf.free u hu

end Forest

/-! ### Release -/

/-- The kernel after the tracker `r` was freed. -/
@[simps -fullyApplied]
def Kernel.released (k : Kernel) (r : TrackerRef) : Kernel :=
  { k with
    trackers := update k.trackers r {}
    trackerSlotsUsed := update k.trackerSlotsUsed r false }

theorem releaseTrackerLocked_eq (k : Kernel) (r : TrackerRef) :
    k.releaseTrackerLocked r = .ok () (k.released r) := by
  rw [releaseTrackerLocked, if_neg (not_le.mpr r.isLt)]
  rfl

theorem released_used {c : TrackerRef} :
    (k.released r).trackerSlotsUsed c = true ↔ k.trackerSlotsUsed c = true ∧ c ≠ r := by
  rw [released_trackerSlotsUsed, update_apply]
  split <;> simp_all

/-- Freeing a tracker that hangs in no list and has no children. -/
theorem Forest.released {rank : TrackerRef → ℕ} {H : TrackerRef → Prop}
    {kids : Option TrackerRef → List TrackerRef} (hf : Forest k rank (fun c => H c ∨ c = r) kids)
    (hr : k.trackerSlotsUsed r = true)
    (hleaf : ∀ c, k.trackerSlotsUsed c = true → ¬ (H c ∨ c = r) → k.parentOf c ≠ some r) :
    Forest (k.released r) rank H kids := by
  have hsame : ∀ c, c ≠ r → (k.released r).trackers c = k.trackers c :=
    fun c hc => update_of_ne hc ..
  have hout : ∀ q c, c ∈ kids q → c ≠ r := fun q c hc hcr => (hf.mem_kids.mp hc).2.1 (.inr hcr)
  have hnone : kids (some r) = [] := by
    rw [List.eq_nil_iff_forall_not_mem]
    intro c hc
    obtain ⟨hu, hH, hp⟩ := hf.mem_kids.mp hc
    exact hleaf c hu hH hp
  have hH : ∀ c, c ≠ r → ¬ H c → ¬ (H c ∨ c = r) := fun c hcr hc h => h.elim hc hcr
  refine ⟨?_, fun {q c} hc => ?_, fun {c q} hc hcH hq => ?_, fun {c q} hc hcH hq => ?_,
    fun c hc => ?_⟩
  · refine hf.family.congr (fun q c hc => ?_) (fun q c hc => ?_) (fun c => ?_) (fun q => ?_)
      fun _ => rfl
    · rw [sibNext, hsame c (hout q c hc), sibNext]
    · rw [sibPrev, hsame c (hout q c hc), sibPrev]
    · by_cases hcr : c = r
      · subst hcr
        simp [Kernel.released]
      · simp [Kernel.released, hcr]
    · cases q with
      | none => rfl
      | some u =>
        by_cases hur : u = r
        · rw [hf.head_eq, hur, hnone]
          simp [siblingHead, Kernel.released]
        · simp only [siblingHead, hsame u hur]
  · rw [parentOf, hsame c (hout q c hc)]
    exact hf.parent hc
  · obtain ⟨hu, hcr⟩ := released_used.mp hc
    rw [parentOf, hsame c hcr] at hq
    have hqr : q ≠ r := fun h => hleaf c hu (hH c hcr hcH) (h ▸ hq)
    exact released_used.mpr ⟨hf.parent_used hu (hH c hcr hcH) hq, hqr⟩
  · obtain ⟨hu, hcr⟩ := released_used.mp hc
    rw [parentOf, hsame c hcr] at hq
    exact hf.order hu (hH c hcr hcH) hq
  · by_cases hcr : c = r
    · rw [hcr]
      simp [Kernel.released]
    · rw [released_trackerSlotsUsed, update_of_ne hcr] at hc
      rw [hsame c hcr, hf.free c hc]

end Jixia
