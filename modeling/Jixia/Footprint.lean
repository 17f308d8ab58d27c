/-
Steps with disjoint footprints.

A state is observed at locations.  A step is local to a set of locations if it changes
nothing outside of the set and if what it does inside depends on the set only.  Local
steps with disjoint sets commute, as far as the observations go.

* `Twin` — the same step taken from two states that agree on a set;
* `Square` — two steps in either order;
* `Local.commute` — local steps with disjoint sets form a square.
-/
import Mathlib.Data.Set.Basic

namespace Footprint

variable {σ ι : Type*} {α : ι → Type*} {obs : ∀ i, σ → α i} {S T : Set ι}
  {x y z x' y' x'' y'' : σ}

/-- Two states look the same at the locations `S`. -/
def Agree (obs : ∀ i, σ → α i) (S : Set ι) (x y : σ) : Prop := ∀ i ∈ S, obs i x = obs i y

namespace Agree

theorem refl (S : Set ι) (x : σ) : Agree obs S x x := fun _ _ => rfl

theorem trans (h : Agree obs S x y) (h' : Agree obs S y z) : Agree obs S x z :=
  fun i hi => (h i hi).trans (h' i hi)

theorem mono (h : Agree obs T x y) (hST : S ⊆ T) : Agree obs S x y := fun i hi => h i (hST hi)

end Agree

/-- A step taken from `x` and from `y`, which agree on `S`: the results agree there again,
and nothing else has changed. -/
structure Twin (obs : ∀ i, σ → α i) (S : Set ι) (x y x' y' : σ) : Prop where
  same : Agree obs S x' y'
  left : Agree obs Sᶜ x x'
  right : Agree obs Sᶜ y y'

namespace Twin

theorem start (h : Agree obs S x y) : Twin obs S x y x y := ⟨h, .refl _ _, .refl _ _⟩

theorem trans (h : Twin obs S x y x' y') (h' : Twin obs S x' y' x'' y'') :
    Twin obs S x y x'' y'' :=
  ⟨h'.same, h.left.trans h'.left, h.right.trans h'.right⟩

/-- Changes that cannot be observed may follow. -/
theorem congr (h : Twin obs S x y x' y') (hx : ∀ i, obs i x'' = obs i x')
    (hy : ∀ i, obs i y'' = obs i y') : Twin obs S x y x'' y'' where
  same i hi := by rw [hx, hy, h.same i hi]
  left i hi := by rw [hx, h.left i hi]
  right i hi := by rw [hy, h.right i hi]

/-- Changes that cannot be observed may come first. -/
theorem congr_start (h : Twin obs S x' y' x'' y'') (hx : ∀ i, obs i x' = obs i x)
    (hy : ∀ i, obs i y' = obs i y) : Twin obs S x y x'' y'' where
  same := h.same
  left i hi := by rw [← hx, h.left i hi]
  right i hi := by rw [← hy, h.right i hi]

end Twin

/-- Two steps from `x`, in either order.  The first one changes locations in `S` only, the
other one only locations outside of `S`, and both do the same in either order. -/
structure Square (obs : ∀ i, σ → α i) (S : Set ι) (x x1 x2 x12 x21 : σ) : Prop where
  inside : ∀ i ∈ S, obs i x = obs i x2 ∧ obs i x1 = obs i x12 ∧ obs i x1 = obs i x21
  outside : ∀ i ∉ S, obs i x = obs i x1 ∧ obs i x2 = obs i x12 ∧ obs i x2 = obs i x21

theorem Square.ends {x1 x2 x12 x21 : σ} (h : Square obs S x x1 x2 x12 x21) (i : ι) :
    obs i x12 = obs i x21 := by
  by_cases hS : i ∈ S
  · obtain ⟨-, h1, h2⟩ := h.inside i hS
    exact h1.symm.trans h2
  · obtain ⟨-, h1, h2⟩ := h.outside i hS
    exact h1.symm.trans h2

/-- The same square, with the steps exchanged. -/
theorem Square.swap {x1 x2 x12 x21 : σ} (h : Square obs S x x1 x2 x12 x21) :
    Square obs Sᶜ x x2 x1 x21 x12 where
  inside i hi := by
    obtain ⟨h0, h1, h2⟩ := h.outside i hi
    exact ⟨h0, h2, h1⟩
  outside i hi := by
    obtain ⟨h0, h1, h2⟩ := h.inside i (not_not.mp hi)
    exact ⟨h0, h2, h1⟩

/-- A step `R` that reads and writes the locations `S` only, where `I` holds. -/
def Local (obs : ∀ i, σ → α i) (I : σ → Prop) (S : Set ι) (R : σ → σ → Prop) : Prop :=
  ∀ ⦃x y x' y'⦄, I x → I y → Agree obs S x y → R x x' → R y y' → Twin obs S x y x' y'

namespace Local

variable {I J : σ → Prop} {R Q : σ → σ → Prop} {x1 x2 x12 x21 : σ}

/-- A local step leaves the other locations alone. -/
theorem writes (h : Local obs I S R) (hI : I x) (hR : R x x') : Agree obs Sᶜ x x' :=
  (h hI hI (.refl S x) hR hR).left

/-- Hence it does not disturb a step with a disjoint footprint. -/
theorem keeps (h : Local obs I S R) (hST : ∀ i ∈ S, i ∉ T) (hI : I x) (hR : R x x') :
    Agree obs T x x' :=
  (h.writes hI hR).mono fun i hi hS => hST i hS hi

/-- **Steps with disjoint footprints commute.** -/
theorem commute (hR : Local obs I S R) (hQ : Local obs J T Q) (hST : ∀ i ∈ S, i ∉ T)
    (hI : I x) (hI2 : I x2) (hJ : J x) (hJ1 : J x1) (h1 : R x x1) (h12 : Q x1 x12)
    (h2 : Q x x2) (h21 : R x2 x21) : Square obs S x x1 x2 x12 x21 := by
  have hTS : ∀ i ∈ T, i ∉ S := fun i hT hS => hST i hS hT
  have htwin1 := hR hI hI2 (hQ.keeps hTS hJ h2) h1 h21
  have htwin2 := hQ hJ hJ1 (hR.keeps hST hI h1) h2 h12
  refine ⟨fun i hS => ?_, fun i hS => ⟨htwin1.left i hS, ?_, htwin1.right i hS⟩⟩
  · have hT := hST i hS
    exact ⟨htwin2.left i hT, htwin2.right i hT, htwin1.same i hS⟩
  · by_cases hT : i ∈ T
    · exact htwin2.same i hT
    · -- Neither step touches the location.
      rw [← htwin2.left i hT, htwin1.left i hS, htwin2.right i hT]

end Local

end Footprint
