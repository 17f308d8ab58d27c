/-
Histories of programs.

A machine whose auxiliary state is replaced by a history: every action appends the events it
stands for.  The threads do the same things as before, so an outline of the machine also
speaks about its histories.

* `Outlines.recorded` — an assertion about the state and the history that every action keeps
  holds along every interleaving;
* `Valid.standing` — a thread that would stop may be left standing in front of its action.
-/
import Jixia.Resumption

namespace Machine

variable {ι σ γ ε η : Type} {Act : Type → Type}

/-- The same threads, with the list of the events of all actions so far. -/
def recording (M : Machine ι σ γ ε Act) (record : ι → ∀ {β : Type}, Act β → σ → β → List η) :
    Machine ι σ (List η) ε Act where
  exec := M.exec
  track i _ a s b log := log ++ record i a s b
  waits := M.waits
  starts := M.starts

/-- The same threads, where more errors leave the action to be tried again. -/
def standing (M : Machine ι σ γ ε Act) (waits : ε → Prop) : Machine ι σ γ ε Act :=
  { M with waits := fun e => M.waits e ∨ waits e }

section Recording

variable [DecidableEq ι] {M : Machine ι σ γ ε Act} {O : Outlines M}
  {record : ι → ∀ {β : Type}, Act β → σ → β → List η} {R : σ → γ → List η → Prop}
  {c c' : Config ι σ (List η) Act} {g : γ}

/-- **A history invariant.**  What every action keeps, given the outlines, holds along every
interleaving. -/
theorem Outlines.recorded
    (hstep : ∀ {β : Type} (i : ι) (a : Act β) (s : σ) (g : γ) (b : β) (s' : σ) (log : List η),
      O.inv s g → (O.contract i).pre a s g → M.exec i a s = .ok b s' →
      O.inv s' (M.track i a s b g) → R s g log →
      R s' (M.track i a s b g) (log ++ record i a s b))
    (hs : (M.recording record).Steps c c') (hok : O.Ok ⟨c.state, g, c.thread⟩)
    (hR : R c.state g c.aux) :
    ∃ g', O.Ok ⟨c'.state, g', c'.thread⟩ ∧ R c'.state g' c'.aux := by
  induction hs with
  | refl => exact ⟨g, hok, hR⟩
  | @tail c1 c2 _ hlast ih =>
    obtain ⟨g1, hok1, hR1⟩ := ih
    -- Each step is a step of the machine itself.
    cases hlast with
    | @start i p hi hst => exact ⟨g1, hok1.step (.start hi hst), hR1⟩
    | @act i β a next b s' hi hx =>
      have hok2 := hok1.step (.act hi hx)
      exact ⟨_, hok2, hstep i a c1.state g1 b s' c1.aux hok1.inv (hok1.pre hi) hx hok2.inv hR1⟩
    | @halt i β a next e s' hi hx hw =>
      have hok2 := hok1.step (.halt hi hx hw)
      obtain rfl : s' = c1.state := hok1.halt_state hi hx hw
      exact ⟨g1, hok2, hR1⟩
    | @finish i hi => exact ⟨g1, hok1.step (.finish hi), hR1⟩

end Recording

/-- An outline of a machine whose threads stand still where they would have stopped. -/
theorem Valid.standing {M : Machine ι σ γ ε Act} {C C' : Contract σ γ ε Act} {i : ι} {α : Type}
    {waits : ε → Prop} {p : Proc Act α} {P : σ → γ → Prop} {Q : α → σ → γ → Prop}
    (hinv : C'.inv = C.inv) (hrely : C'.rely = C.rely) (hguar : C'.guar = C.guar)
    (hpre : ∀ {β : Type} (a : Act β) s g, C.pre a s g → C'.pre a s g)
    (herror : ∀ e s s' g, C.skips e ∨ C.admits e s s' g → C'.skips e ∨ C'.admits e s s' g)
    (h : Valid M C i p P Q) : Valid (M.standing waits) C' i p P Q := by
  induction p generalizing P with
  | ret a =>
    intro s g hi hp
    exact h s g (hinv ▸ hi) hp
  | act a next ih =>
    obtain ⟨R, ha, hn⟩ := h
    refine ⟨R, fun s g hi hp => ?_, fun b => ⟨?_, ih b (hn b).2⟩⟩
    · rw [hinv] at hi
      obtain ⟨hbefore, hspec⟩ := ha s g hi hp
      refine ⟨hpre a s g hbefore, ?_⟩
      rw [hinv, hguar]
      rw [show (M.standing waits).exec i a s = M.exec i a s from rfl]
      cases hx : M.exec i a s with
      | ok b s' =>
        rw [hx] at hspec
        exact hspec
      | error e s' =>
        rw [hx] at hspec
        exact herror e s s' g hspec
    · intro s g s' g' hi hi' hr
      rw [hinv] at hi hi'
      rw [hrely] at hr
      exact (hn b).1 s g s' g' hi hi' hr

end Machine
