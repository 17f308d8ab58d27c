/-
The removal of a tracker.

`removeTrackerLocked` takes a tracker out of the forest and hands its children to
its parent.  When that makes a completed child kernel-parented, the child is
removed in turn, so one call may free a whole part of the forest.

* `Pruned k k' p r` — what such a removal leaves: every tracker that survives keeps
  its data, and its parent is the old one or `p`;
* `Rooted` — no completed tracker is kernel-parented;
* **`removeTracker_spec`** — the recursion ends within its bound and prunes the
  forest, or it parks on a crashed child that lost its last parent.
-/
import Jixia.TrackerForest
import Mathlib.Data.Fintype.Card

namespace Jixia

open LinkedList Function Kernel

variable {k k' : Kernel} {r c : TrackerRef} {p : Option TrackerRef} {rank : TrackerRef → ℕ}

/-! ### Pruning -/

/-- The used trackers of a higher rank than `r`. -/
def younger (rank : TrackerRef → ℕ) (k : Kernel) (r : TrackerRef) : Finset TrackerRef :=
  Finset.univ.filter fun c => k.trackerSlotsUsed c = true ∧ rank r < rank c

/-- No completed tracker outside of `H` is kernel-parented. -/
def Rooted (k : Kernel) (H : TrackerRef → Prop) : Prop :=
  ∀ c, k.trackerSlotsUsed c = true → ¬ H c → (k.trackers c).task = none → k.parentOf c ≠ none

/-- The trackers that a removal of `r` takes out of the forest `k`, when the children
of `r` go to `p`: `r` itself, and completed trackers that become kernel-parented. -/
def Gone (k k' : Kernel) (p : Option TrackerRef) (r c : TrackerRef) : Prop :=
  c = r ∨ (p = none ∧ k.trackerSlotsUsed c = true ∧ (k.trackers c).task = none ∧
    (k.trackers c).status ≠ .crashed ∧ k'.trackerSlotsUsed c = false)

/-- What handing over the children of `r` to `p` and removing trackers leaves of
the forest. -/
structure Pruned (k k' : Kernel) (p : Option TrackerRef) (r : TrackerRef) : Prop where
  rest : k' = { k with
    trackers := k'.trackers, trackerSlotsUsed := k'.trackerSlotsUsed, rootTasks := k'.rootTasks }
  kept : ∀ c, k'.trackerSlotsUsed c = true → k.trackerSlotsUsed c = true ∧
    k'.trackers c = { k.trackers c with
      parent := k'.parentOf c, firstChild := k'.firstOf c, nextSibling := k'.sibNext c
      previousSibling := k'.sibPrev c }
  parent : ∀ c, k'.trackerSlotsUsed c = true → k'.parentOf c = k.parentOf c ∨
    ∃ x, k.parentOf c = some x ∧ Gone k k' p r x ∧ k'.parentOf c = p
  lost : ∀ c, k.trackerSlotsUsed c = true → k'.trackerSlotsUsed c = false → Gone k k' p r c
  chain : ∀ c, k.trackerSlotsUsed c = true → k'.trackerSlotsUsed c = false →
    c = r ∨ ∀ x, k.parentOf c = some x → x = r ∨ k'.trackerSlotsUsed x = false

namespace Pruned

variable {k'' : Kernel}

theorem refl (k : Kernel) (p : Option TrackerRef) (r : TrackerRef) : Pruned k k p r where
  rest := rfl
  kept c hc := ⟨hc, rfl⟩
  parent c _ := .inl rfl
  lost c hc hc' := by
    rw [hc] at hc'
    cases hc'
  chain c hc hc' := by
    rw [hc] at hc'
    cases hc'

theorem unused (h : Pruned k k' p r) {c : TrackerRef} (hc : k.trackerSlotsUsed c = false) :
    k'.trackerSlotsUsed c = false := by
  by_contra hne
  rw [Bool.not_eq_false] at hne
  rw [(h.kept c hne).1] at hc
  cases hc

theorem gone_left (h : Pruned k' k'' p r) {x : TrackerRef} (hx : Gone k k' p r x) :
    Gone k k'' p r x := by
  rcases hx with rfl | ⟨hp, hu, ht, hs, hu'⟩
  · exact .inl rfl
  · exact .inr ⟨hp, hu, ht, hs, h.unused hu'⟩

theorem gone_right (h : Pruned k k' p r) {x : TrackerRef} (hx : Gone k' k'' p r x) :
    Gone k k'' p r x := by
  rcases hx with rfl | ⟨hp, hu, ht, hs, hu'⟩
  · exact .inl rfl
  · obtain ⟨hux, hrec⟩ := h.kept x hu
    rw [hrec] at ht hs
    exact .inr ⟨hp, hux, ht, hs, hu'⟩

theorem trans (h : Pruned k k' p r) (h' : Pruned k' k'' p r) : Pruned k k'' p r where
  rest := by rw [h'.rest, h.rest]
  kept c hc := by
    obtain ⟨hc', ht'⟩ := h'.kept c hc
    obtain ⟨hc'', ht⟩ := h.kept c hc'
    refine ⟨hc'', ?_⟩
    rw [ht', ht]
  parent c hc := by
    obtain ⟨hc', -⟩ := h'.kept c hc
    rcases h'.parent c hc with heq | ⟨x, hx, hg, hp⟩
    · rw [heq]
      rcases h.parent c hc' with heq' | ⟨y, hy, hg', hp'⟩
      · exact .inl heq'
      · exact .inr ⟨y, hy, h'.gone_left hg', hp'⟩
    · rcases h.parent c hc' with heq' | ⟨y, hy, hg', -⟩
      · exact .inr ⟨x, heq' ▸ hx, h.gone_right hg, hp⟩
      · exact .inr ⟨y, hy, h'.gone_left hg', hp⟩
  lost c hc hc'' := by
    cases hc' : k'.trackerSlotsUsed c with
    | false => exact h'.gone_left (h.lost c hc hc')
    | true => exact h.gone_right (h'.lost c hc' hc'')
  chain c hc hc'' := by
    cases hc' : k'.trackerSlotsUsed c with
    | false =>
      refine (h.chain c hc hc').imp_right fun hall x hx => ?_
      exact (hall x hx).imp_right h'.unused
    | true =>
      refine (h'.chain c hc' hc'').imp_right fun hall x hx => ?_
      rcases h.parent c hc' with heq | ⟨y, hy, hg, -⟩
      · exact hall x (heq.trans hx)
      · rw [hx] at hy
        cases hy
        exact hg.imp_right fun hg => h'.unused hg.2.2.2.2

/-- A removal further down is part of the removal of `r`: it takes out a completed
tracker that became kernel-parented. -/
theorem nested {c : TrackerRef} (h : Pruned k k' none c) (hc : k.trackerSlotsUsed c = true)
    (htask : (k.trackers c).task = none) (hstatus : (k.trackers c).status ≠ .crashed)
    (hpar : k.parentOf c = none) (hgone : k'.trackerSlotsUsed c = false) :
    Pruned k k' none r := by
  have hg : ∀ x, Gone k k' none c x → Gone k k' none r x := by
    rintro x (rfl | hx)
    · exact .inr ⟨rfl, hc, htask, hstatus, hgone⟩
    · exact .inr hx
  refine ⟨h.rest, h.kept, fun u hu => ?_, fun u hu hu' => hg u (h.lost u hu hu'),
    fun u hu hu' => .inr fun x hx => .inr ?_⟩
  · rcases h.parent u hu with heq | ⟨x, hx, hgx, hp⟩
    · exact .inl heq
    · exact .inr ⟨x, hx, hg x hgx, hp⟩
  · rcases h.chain u hu hu' with rfl | hall
    · rw [hpar] at hx
      cases hx
    · rcases hall x hx with rfl | hx'
      · exact hgone
      · exact hx'

/-- Nothing gets younger. -/
theorem younger_subset (h : Pruned k k' p r) (c : TrackerRef) :
    younger rank k' c ⊆ younger rank k c := by
  intro u hu
  simp only [younger, Finset.mem_filter, Finset.mem_univ, true_and] at hu ⊢
  exact ⟨(h.kept u hu.1).1, hu.2⟩

end Pruned

/-! ### How a removal ends -/

/-- A crashed completed tracker of `k` has become kernel-parented: the one reason to
park. -/
def CrashedOrphan (e : Halt) (k k' : Kernel) : Prop :=
  e = .park .removeTrackerCrashed ∧ ∃ c,
    (k.trackerSlotsUsed c = true ∧ (k.trackers c).status = .crashed) ∧
    (k'.trackerSlotsUsed c = true ∧ (k'.trackers c).status = .crashed) ∧
    k'.parentOf c = none ∧ (k'.trackers c).task = none

theorem CrashedOrphan.after {e : Halt} {k'' : Kernel} (h : Pruned k k' p r)
    (ho : CrashedOrphan e k' k'') : CrashedOrphan e k k'' := by
  obtain ⟨he, c, ⟨hu, hs⟩, hc⟩ := ho
  obtain ⟨hu', hrec⟩ := h.kept c hu
  rw [hrec] at hs
  exact ⟨he, c, ⟨hu', hs⟩, hc⟩

/-- How a removal ends: with a pruned forest in which the trackers of `H` are still
used, or with a crashed orphan. -/
def RemovalResult (k : Kernel) (rank : TrackerRef → ℕ) (H : TrackerRef → Prop)
    (p : Option TrackerRef) (r : TrackerRef) (Q : Kernel → Prop) : Outcome Unit → Prop
  | .ok _ k' => (∃ kids', Forest k' rank H kids') ∧ Pruned k k' p r ∧ Rooted k' H ∧
      (∀ c, H c → k.trackerSlotsUsed c = true → k'.trackerSlotsUsed c = true) ∧ Q k'
  | .error e k' => p = none ∧ CrashedOrphan e k k'

/-- Pruning first does not change how a removal may end. -/
theorem RemovalResult.after {H : TrackerRef → Prop} {Q : Kernel → Prop} {out : Outcome Unit}
    (h : Pruned k k' p r)
    (hH : ∀ c, H c → k.trackerSlotsUsed c = true → k'.trackerSlotsUsed c = true)
    (hres : RemovalResult k' rank H p r Q out) : RemovalResult k rank H p r Q out := by
  cases out with
  | ok _ k'' =>
    obtain ⟨hf, hpr, hroot, hH', hq⟩ := hres
    exact ⟨hf, h.trans hpr, hroot, fun c hc hu => hH' c hc (hH c hc hu), hq⟩
  | error e k'' => exact ⟨hres.1, hres.2.after h⟩

/-- Handing one child of `r` over to `p`. -/
theorem Forest.handOver {H : TrackerRef → Prop} {kids : Option TrackerRef → List TrackerRef}
    (hf : Forest k rank H kids)
    (hp : ∀ q, p = some q → k.trackerSlotsUsed q = true ∧ rank q < rank r)
    {rest : List TrackerRef} (hl : kids (some r) = c :: rest) :
    ∃ k1 kids1, (k.unlinkTrackerLocked c).linkTrackerLocked c p = k1 ∧ Forest k1 rank H kids1 ∧
      kids1 (some r) = rest ∧ Pruned k k1 p r ∧ k1.trackerSlotsUsed = k.trackerSlotsUsed ∧
      (∀ u, k1.parentOf u = if u = c then p else k.parentOf u) := by
  obtain ⟨hc, hcH, hcp⟩ := hf.mem_kids.mp (show c ∈ kids (some r) by rw [hl]; simp)
  obtain ⟨heq, l1, l2, hsplit, hf1⟩ := hf.unlink hc hcH
  rw [hcp] at hsplit hf1
  -- The child is the first one.
  obtain ⟨rfl, rfl⟩ : l1 = [] ∧ l2 = rest := by
    have hnd := (hf.family.holds (some r)).nodup
    rw [hl] at hsplit hnd
    cases l1 with
    | nil => exact ⟨rfl, (List.cons.inj hsplit).2.symm⟩
    | cons x l =>
      obtain ⟨rfl, hrest⟩ := List.cons.inj hsplit
      exact absurd (List.nodup_cons.mp hnd).1 (by simp [hrest])
  have horder := hf.order hc hcH hcp
  obtain ⟨heq2, hf2⟩ := hf1.link (r := c) (p := p) hc (.inr rfl)
    fun q hq => ⟨(hp q hq).1, lt_trans (hp q hq).2 horder⟩
  have hpr : p ≠ some r := fun h => lt_irrefl _ (hp r h).2
  have hpar : ∀ u, ((k.orphaned c).adopted c p).parentOf u = if u = c then p else k.parentOf u :=
    fun u => update_apply ..
  refine ⟨_, _, by rw [heq, heq2], hf2.congr rfl rfl (fun _ => ⟨rfl, rfl, rfl, rfl⟩)
    (fun _ _ => rfl) (fun u => ?_), ?_, ?_, rfl, hpar⟩
  · constructor
    · exact fun hu => ⟨.inl hu, fun huc => hcH (huc ▸ hu)⟩
    · rintro ⟨hu | hu, hne⟩
      · exact hu
      · exact absurd hu hne
  · rw [update_of_ne hpr.symm, update_self]
    rfl
  · have hlost : ∀ {u}, k.trackerSlotsUsed u = true →
        ((k.orphaned c).adopted c p).trackerSlotsUsed u ≠ false := by
      intro u hu hu'
      rw [show ((k.orphaned c).adopted c p).trackerSlotsUsed u = k.trackerSlotsUsed u from rfl,
        hu] at hu'
      cases hu'
    refine ⟨rfl, fun u hu => ⟨hu, rfl⟩, fun u hu => ?_, fun u hu hu' => absurd hu' (hlost hu),
      fun u hu hu' => absurd hu' (hlost hu)⟩
    rw [hpar]
    by_cases huc : u = c
    · rw [if_pos huc, huc]
      exact .inr ⟨r, hcp, .inl rfl, rfl⟩
    · rw [if_neg huc]
      exact .inl rfl

/-- The removal of every tracker with fewer than `n` younger ones does what it
should. -/
def RemovalSpec (rank : TrackerRef → ℕ) (n : ℕ) : Prop :=
  ∀ (k : Kernel) (H : TrackerRef → Prop) (kids : Option TrackerRef → List TrackerRef)
    (r : TrackerRef) (fuel : ℕ), Forest k rank H kids → k.trackerSlotsUsed r = true → ¬ H r →
    Rooted k (fun c => H c ∨ c = r) → (younger rank k r).card < n →
    (kMaxTasks + 2) * ((younger rank k r).card + 1) ≤ fuel →
    RemovalResult k rank H (k.parentOf r) r (fun k' => k'.trackerSlotsUsed r = false)
      (k.removeTrackerLocked fuel r)

/-- A child has fewer younger trackers than its parent. -/
theorem younger_lt (hc : k.trackerSlotsUsed c = true) (hrank : rank r < rank c) :
    (younger rank k c).card < (younger rank k r).card := by
  refine Finset.card_lt_card ⟨fun u hu => ?_, fun hsub => ?_⟩
  · simp only [younger, Finset.mem_filter, Finset.mem_univ, true_and] at hu ⊢
    exact ⟨hu.1, lt_trans hrank hu.2⟩
  · have hmem : c ∈ younger rank k r := by
      simp only [younger, Finset.mem_filter, Finset.mem_univ, true_and]
      exact ⟨hc, hrank⟩
    have := hsub hmem
    simp only [younger, Finset.mem_filter, lt_irrefl, and_false] at this

/-- The loop over the children of `r`, which hangs in no list any more. -/
theorem reparentChildren_spec {n : ℕ} (hspec : RemovalSpec rank n) {H : TrackerRef → Prop}
    {kids : Option TrackerRef → List TrackerRef} (hf : Forest k rank H kids)
    (hr : k.trackerSlotsUsed r = true) (hH : H r) (hroot : Rooted k H)
    (hp : ∀ q, p = some q → k.trackerSlotsUsed q = true ∧ rank q < rank r)
    (hn : (younger rank k r).card ≤ n) {fuel : ℕ}
    (hfuel : (kMaxTasks + 2) * (younger rank k r).card + (kids (some r)).length + 1 ≤ fuel) :
    RemovalResult k rank H p r
      (fun k' => ∀ c, k'.trackerSlotsUsed c = true → ¬ H c → k'.parentOf c ≠ some r)
      (k.reparentChildren fuel r p) := by
  induction fuel generalizing k kids with
  | zero => omega
  | succ fuel ih =>
    rw [reparentChildren]
    have hhead : (k.trackers r).firstChild = (kids (some r)).head? := hf.head_eq (some r)
    rw [hhead]
    cases hl : kids (some r) with
    | nil =>
      refine ⟨⟨kids, hf⟩, .refl k p r, hroot, fun _ _ h => h, fun c hc hcH hcp => ?_⟩
      have := hf.mem_kids.mpr ⟨hc, hcH, hcp⟩
      rw [hl] at this
      cases this
    | cons c rest =>
      rw [hl, List.length_cons] at hfuel
      obtain ⟨hc, hcH, hcp⟩ := hf.mem_kids.mp (show c ∈ kids (some r) by rw [hl]; simp)
      have horder := hf.order hc hcH hcp
      obtain ⟨k1, kids1, heq, hf1, hrest, hpr1, hused, hpar⟩ := hf.handOver hp hl
      have hrec : ∀ u, k.trackerSlotsUsed u = true →
          (k1.trackers u).task = (k.trackers u).task ∧
          (k1.trackers u).status = (k.trackers u).status := by
        intro u hu
        rw [(hpr1.kept u (hused ▸ hu)).2]
        exact ⟨rfl, rfl⟩
      have hyounger : younger rank k1 r = younger rank k r := by
        simp only [younger, hused]
      simp only [List.head?_cons, heq]
      have hroot1 : Rooted k1 fun u => H u ∨ u = c := by
        intro u hu huH htask
        rw [not_or] at huH
        rw [hused] at hu
        rw [(hrec u hu).1] at htask
        rw [hpar, if_neg huH.2]
        exact hroot u hu huH.1 htask
      have hH1 : ∀ u, H u → k.trackerSlotsUsed u = true → k1.trackerSlotsUsed u = true :=
        fun u _ hu => hused ▸ hu
      -- Either the child is removed in turn, or it stays with its new parent.
      by_cases hgo : p = none ∧ (k1.trackers c).task = none
      · obtain ⟨rfl, htask⟩ := hgo
        rw [if_pos (by simp [htask])]
        have hcpar : k1.parentOf c = none := by rw [hpar, if_pos rfl]
        by_cases hcrash : (k1.trackers c).status = .crashed
        · rw [if_pos (by simp [hcrash])]
          refine ⟨rfl, rfl, c, ⟨hc, ?_⟩, ⟨hused ▸ hc, hcrash⟩, hcpar, htask⟩
          rw [← (hrec c hc).2]
          exact hcrash
        · rw [if_neg (by simpa using hcrash)]
          have hlt : (younger rank k1 c).card < (younger rank k r).card := by
            rw [← hyounger]
            exact younger_lt (hused ▸ hc) horder
          have hbound : 18 * (younger rank k r).card + (rest.length + 1) + 1 ≤ fuel + 1 := hfuel
          have hres := hspec k1 H kids1 c fuel hf1 (hused ▸ hc) hcH hroot1 (by omega)
            (show 18 * ((younger rank k1 c).card + 1) ≤ fuel by omega)
          rw [hcpar] at hres
          cases hout : k1.removeTrackerLocked fuel c with
          | error e k2 =>
            rw [hout] at hres
            exact ⟨rfl, hres.2.after hpr1⟩
          | ok _ k2 =>
            rw [hout] at hres
            obtain ⟨⟨kids2, hf2⟩, hpr2, hroot2, hH2, hgone⟩ := hres
            have hpr2' := hpr2.nested (r := r) (hused ▸ hc) htask hcrash hcpar hgone
            have hr2 := hH2 r hH (hused ▸ hr)
            have hpr := hpr1.trans hpr2'
            have hyounger2 : (younger rank k2 r).card ≤ (younger rank k r).card :=
              Finset.card_le_card (hpr.younger_subset r)
            have hlen : (kids2 (some r)).length ≤ rest.length := by
              refine ((hf2.family.holds (some r)).nodup.subperm fun u hu => ?_).length_le
              obtain ⟨hu2, huH, hup⟩ := hf2.mem_kids.mp hu
              rw [← hrest, hf1.mem_kids]
              refine ⟨(hpr2.kept u hu2).1, huH, ?_⟩
              rcases hpr2.parent u hu2 with heq | ⟨x, _, _, hx⟩
              · rw [← heq, hup]
              · rw [hup] at hx
                cases hx
            refine RemovalResult.after hpr (fun u hu huu => hH2 u hu (hused ▸ huu))
              (ih hf2 hr2 hroot2 (fun q hq => nomatch hq) (by omega) ?_)
            show 18 * (younger rank k2 r).card + (kids2 (some r)).length + 1 ≤ fuel
            omega
      · rw [if_neg (by simpa using hgo)]
        refine RemovalResult.after hpr1 hH1 (ih hf1 (hused ▸ hr) ?_ (hused ▸ hp)
          (hyounger ▸ hn) ?_)
        · intro u hu huH htask
          by_cases huc : u = c
          · subst huc
            rw [hpar, if_pos rfl]
            exact fun hpn => hgo ⟨hpn, htask⟩
          · exact hroot1 u hu (by tauto) htask
        · rw [hyounger, hrest]
          omega

theorem Pruned.orphaned (k : Kernel) (p : Option TrackerRef) (r : TrackerRef) :
    Pruned k (k.orphaned r) p r where
  rest := rfl
  kept c hc := ⟨hc, rfl⟩
  parent c _ := .inl rfl
  lost c hc hc' := by
    rw [show (k.orphaned r).trackerSlotsUsed c = k.trackerSlotsUsed c from rfl, hc] at hc'
    cases hc'
  chain c hc hc' := by
    rw [show (k.orphaned r).trackerSlotsUsed c = k.trackerSlotsUsed c from rfl, hc] at hc'
    cases hc'

theorem Pruned.released (k : Kernel) (p : Option TrackerRef) (r : TrackerRef) :
    Pruned k (k.released r) p r := by
  have hsame : ∀ c, c ≠ r → (k.released r).trackers c = k.trackers c :=
    fun c hc => update_of_ne hc ..
  have hlost : ∀ c, k.trackerSlotsUsed c = true → (k.released r).trackerSlotsUsed c = false →
      c = r := by
    intro c hc hc'
    by_contra hcr
    rw [released_used.mpr ⟨hc, hcr⟩] at hc'
    cases hc'
  refine ⟨rfl, fun c hc => ⟨(released_used.mp hc).1, ?_⟩, fun c hc => .inl ?_,
    fun c hc hc' => .inl (hlost c hc hc'), fun c hc hc' => .inl (hlost c hc hc')⟩
  · simp only [parentOf, firstOf, sibNext, sibPrev,
      hsame c (released_used.mp hc).2]
  · rw [parentOf, hsame c (released_used.mp hc).2, parentOf]

/-- Taking the tracker out, handing its children over and freeing it, in one. -/
theorem removalSpec_all (n : ℕ) : RemovalSpec rank n := by
  induction n with
  | zero => exact fun _ _ _ _ _ _ _ _ _ hlt => absurd hlt (Nat.not_lt_zero _)
  | succ n ihn =>
    intro k H kids r fuel hf hr hH hroot hn hfuel
    have hbound : 18 * ((younger rank k r).card + 1) ≤ fuel := hfuel
    obtain ⟨fuel, rfl⟩ : ∃ f, fuel = f + 1 := ⟨fuel - 1, by omega⟩
    rw [removeTrackerLocked]
    obtain ⟨heq, l1, l2, -, hf1⟩ := hf.unlink hr hH
    have hp : ∀ q, k.parentOf r = some q → k.trackerSlotsUsed q = true ∧ rank q < rank r :=
      fun q hq =>
      ⟨hf.parent_used hr hH hq, hf.order hr hH hq⟩
    have hparent : (k.trackers r).parent = k.parentOf r := rfl
    simp only [heq, hparent]
    have hlen : (update kids (k.parentOf r) (l1 ++ l2) (some r)).length ≤ 16 := by
      simpa using (hf1.family.holds (some r)).nodup.length_le_card
    have hres := reparentChildren_spec ihn hf1 (r := r) (p := k.parentOf r) hr (.inr rfl) hroot hp
      (Nat.lt_succ_iff.mp hn)
      (show 18 * (younger rank k r).card + _ + 1 ≤ fuel by omega)
    cases hout : (k.orphaned r).reparentChildren fuel r (k.parentOf r) with
    | error e k1 =>
      rw [hout] at hres
      exact ⟨hres.1, hres.2.after (Pruned.orphaned k none r)⟩
    | ok _ k1 =>
      rw [hout] at hres
      obtain ⟨⟨kids1, hk1⟩, hpr, hroot1, hH1, hleaf⟩ := hres
      rw [Outcome.andThen_ok, releaseTrackerLocked_eq]
      refine ⟨⟨kids1, hk1.released (hH1 r (.inr rfl) hr) hleaf⟩,
        (Pruned.orphaned ..).trans (hpr.trans (.released ..)), fun c hc hcH => ?_,
        fun c hc hu => ?_, ?_⟩
      · obtain ⟨hu, hcr⟩ := released_used.mp hc
        rw [parentOf, released_trackers, update_of_ne hcr]
        exact hroot1 c hu fun h => h.elim hcH hcr
      · exact released_used.mpr ⟨hH1 c (.inl hc) hu, fun hcr => hH (hcr ▸ hc)⟩
      · exact update_self ..

/-- **The removal of a tracker** ends, and prunes the forest or meets a crashed
orphan. -/
theorem removeTracker_spec {kids : Option TrackerRef → List TrackerRef}
    (hf : Forest k rank (fun _ => False) kids) (hr : k.trackerSlotsUsed r = true)
    (hroot : Rooted k (· = r)) :
    RemovalResult k rank (fun _ => False) (k.parentOf r) r
      (fun k' => k'.trackerSlotsUsed r = false)
      (k.removeTrackerLocked removalFuel r) := by
  have hcard : (younger rank k r).card + 1 ≤ 16 := by
    have hsub : younger rank k r ⊂ Finset.univ :=
      ⟨Finset.subset_univ _, fun h => by simpa [younger] using h (Finset.mem_univ r)⟩
    have hlt := Finset.card_lt_card hsub
    rwa [Finset.card_univ, Fintype.card_fin] at hlt
  refine removalSpec_all 16 k _ kids r _ hf hr id (fun c hc hH => hroot c hc fun h => hH (.inr h))
    (by omega) ?_
  show 18 * ((younger rank k r).card + 1) ≤ 288
  omega

end Jixia
