/-
Code that checks as it goes.

A check that fails raises an error and ends the computation; one that succeeds lets it go
on.  A computation that has returned has passed all its checks.

* `bind_ok`, `require_bind_ok` — peel the checks off a computation that has returned;
* `foldlM_invariant` — what every turn of a loop keeps holds after the loop.
-/
import Mathlib.Data.List.Forall2

namespace Guarded

variable {ε α β : Type}

/-- `if not condition: raise error`. -/
def require (condition : Prop) [Decidable condition] (error : ε) : Except ε Unit :=
  if condition then .ok () else .error error

theorem bind_ok {x : Except ε α} {f : α → Except ε β} {b : β} :
    (x >>= f) = .ok b ↔ ∃ a, x = .ok a ∧ f a = .ok b := by
  cases x with
  | error e =>
    constructor
    · intro h
      cases h
    · rintro ⟨a, h, -⟩
      cases h
  | ok a =>
    constructor
    · intro h
      exact ⟨a, rfl, h⟩
    · rintro ⟨a', h, hf⟩
      rw [Except.ok.inj h]
      exact hf

theorem require_ok {c : Prop} [Decidable c] {e : ε} {u : Unit} : require c e = .ok u ↔ c := by
  rw [require]
  split <;> simp_all

/-- A check, and what follows it. -/
theorem require_bind_ok {c : Prop} [Decidable c] {e : ε} {f : Unit → Except ε β} {b : β} :
    (require c e >>= f) = .ok b ↔ c ∧ f () = .ok b := by
  rw [bind_ok]
  constructor
  · rintro ⟨u, hc, hf⟩
    exact ⟨require_ok.mp hc, hf⟩
  · rintro ⟨hc, hf⟩
    exact ⟨(), require_ok.mpr hc, hf⟩

theorem pure_ok {a b : α} : (pure a : Except ε α) = .ok b ↔ a = b :=
  ⟨fun h => Except.ok.inj h, fun h => congrArg Except.ok h⟩

theorem mapM_of_forall₂ {f : α → Except ε β} {l : List α} {bs : List β}
    (h : List.Forall₂ (fun a b => f a = .ok b) l bs) : l.mapM f = .ok bs := by
  induction h with
  | nil => rfl
  | cons hb _ ih =>
    rw [List.mapM_cons]
    exact bind_ok.mpr ⟨_, hb, bind_ok.mpr ⟨_, ih, rfl⟩⟩

theorem foldlM_cons_ok {step : β → α → Except ε β} {a : α} {items : List α} {s s' : β} :
    (a :: items).foldlM step s = .ok s' ↔
      ∃ next, step s a = .ok next ∧ items.foldlM step next = .ok s' := by
  rw [List.foldlM_cons]
  exact bind_ok

/-- **The invariant rule for loops**; the invariant speaks of the items done so far. -/
theorem foldlM_invariant {step : β → α → Except ε β} {P : List α → β → Prop}
    (hstep : ∀ past s a s', P past s → step s a = .ok s' → P (past ++ [a]) s')
    {past items : List α} {s s' : β} (hs : P past s) (h : items.foldlM step s = .ok s') :
    P (past ++ items) s' := by
  induction items generalizing past s with
  | nil =>
    obtain rfl := pure_ok.mp h
    rwa [List.append_nil]
  | cons a items ih =>
    obtain ⟨next, hnext, h⟩ := foldlM_cons_ok.mp h
    have := ih (hstep past s a next hs hnext) h
    rwa [List.append_assoc] at this

/-- A loop over two lists is the two loops in turn. -/
theorem foldlM_append_ok {step : β → α → Except ε β} {items rest : List α} {s s' : β} :
    (items ++ rest).foldlM step s = .ok s' ↔
      ∃ mid, items.foldlM step s = .ok mid ∧ rest.foldlM step mid = .ok s' := by
  rw [List.foldlM_append]
  exact bind_ok

end Guarded
