/-
Programs as resumptions over atomic actions.

`Proc Act α` is a program that performs actions of the signature `Act` one after
the other and chooses each continuation from the result of the action before it.
One program text has two readings:

* `Proc.run` — the whole program as one step;
* `Machine.Step` — any number of threads, each somewhere inside its program,
  taking one action at a time in any order.

`run_steps` connects them: a program that runs to its end alone is a path of the
interleaved machine.  `Proc.All` talks about the actions a program may still perform;
`run_all` is the frame rule it gives.

The second half is a rely-guarantee logic.  A machine may carry an auxiliary
state `γ` that the actions drive but never read.  `Valid` is a proof outline: a
precondition that survives the interference of the other threads before every
action.  `Valid.run_spec` reads an outline as an ordinary total-correctness
statement about `run`, `Outlines.reachable` as an invariant of every interleaving.
-/
import Mathlib.Logic.Relation
import Mathlib.Logic.Function.Basic
import Mathlib.Tactic.Common

/-- Programs over the atomic actions `Act`. -/
inductive Proc (Act : Type → Type) (α : Type) : Type 1 where
  | ret (a : α) : Proc Act α
  | act {β : Type} (a : Act β) (next : β → Proc Act α) : Proc Act α

namespace Proc

variable {Act : Type → Type} {α β ε σ : Type}

/-- Sequential composition. -/
def bind : Proc Act α → (α → Proc Act β) → Proc Act β
  | ret a, f => f a
  | act a next, f => act a fun b => (next b).bind f

instance : Monad (Proc Act) where
  pure := ret
  bind := bind

/-- The program that performs one action and returns its result. -/
def perform (a : Act β) : Proc Act β := act a ret

@[simp] theorem pure_eq (a : α) : (pure a : Proc Act α) = ret a := rfl

@[simp] theorem ret_bind (a : α) (f : α → Proc Act β) : (ret a >>= f) = f a := rfl

@[simp] theorem act_bind {δ : Type} (a : Act δ) (next : δ → Proc Act α) (f : α → Proc Act β) :
    (act a next >>= f) = act a fun b => next b >>= f := rfl

theorem bind_assoc {γ : Type} (p : Proc Act α) (f : α → Proc Act β) (g : β → Proc Act γ) :
    (p >>= f >>= g) = p >>= fun a => f a >>= g := by
  induction p with
  | ret a => rfl
  | act a next ih => exact congrArg (act a) (funext ih)

@[simp] theorem perform_bind (a : Act α) (f : α → Proc Act β) : (perform a >>= f) = act a f := rfl

/-! ### Running a program alone -/

/-- Perform every action of a program in turn. -/
def run (exec : ∀ {β : Type}, Act β → σ → EStateM.Result ε σ β) :
    Proc Act α → σ → EStateM.Result ε σ α
  | ret a, s => .ok a s
  | act a next, s =>
    match exec a s with
    | .ok b s' => (next b).run exec s'
    | .error e s' => .error e s'

variable {exec : ∀ {β : Type}, Act β → σ → EStateM.Result ε σ β}

@[simp] theorem run_ret (a : α) (s : σ) : (ret a : Proc Act α).run exec s = .ok a s := rfl

theorem run_act_ok {a : Act β} {next : β → Proc Act α} {s s' : σ} {b : β}
    (h : exec a s = .ok b s') : (act a next).run exec s = (next b).run exec s' := by
  rw [run, h]

theorem run_perform_ok {a : Act β} {f : β → Proc Act α} {s s' : σ} {b : β}
    (h : exec a s = .ok b s') : (perform a >>= f).run exec s = (f b).run exec s' :=
  run_act_ok h

theorem run_act_error {a : Act β} {next : β → Proc Act α} {s s' : σ} {e : ε}
    (h : exec a s = .error e s') : (act a next).run exec s = .error e s' := by
  rw [run, h]

theorem run_bind (p : Proc Act α) (f : α → Proc Act β) (s : σ) :
    (p >>= f).run exec s =
      match p.run exec s with
      | .ok a s' => (f a).run exec s'
      | .error e s' => .error e s' := by
  induction p generalizing s with
  | ret a => rfl
  | act a next ih =>
    rw [act_bind, run, run]
    cases exec a s with
    | ok b s' => exact ih b s'
    | error e s' => rfl

theorem run_bind_ok {p : Proc Act α} {f : α → Proc Act β} {s s' : σ} {a : α}
    (h : p.run exec s = .ok a s') : (p >>= f).run exec s = (f a).run exec s' := by
  rw [run_bind, h]

/-- The run of a program from `s` comes to the point where `q` is left to do, in `s'`. -/
inductive Reaches (exec : ∀ {β : Type}, Act β → σ → EStateM.Result ε σ β) :
    Proc Act α → σ → Proc Act α → σ → Prop
  | refl {p : Proc Act α} {s : σ} : Reaches exec p s p s
  | act {δ : Type} {a : Act δ} {next : δ → Proc Act α} {b : δ} {q : Proc Act α} {s s1 s' : σ} :
      exec a s = .ok b s1 → Reaches exec (next b) s1 q s' → Reaches exec (act a next) s q s'

/-- What is left to do decides how the run ends. -/
theorem Reaches.run_eq {p q : Proc Act α} {s s' : σ} (h : Reaches exec p s q s') :
    p.run exec s = q.run exec s' := by
  induction h with
  | refl => rfl
  | act hx _ ih => rw [run_act_ok hx, ih]

theorem Reaches.trans {p q r : Proc Act α} {s s1 s' : σ} (h : Reaches exec p s q s1)
    (h' : Reaches exec q s1 r s') : Reaches exec p s r s' := by
  induction h with
  | refl => exact h'
  | act hx _ ih => exact .act hx (ih h')

theorem Reaches.perform {a : Act β} {f : β → Proc Act α} {q : Proc Act α} {b : β} {s s1 s' : σ}
    (hx : exec a s = .ok b s1) (h : Reaches exec (f b) s1 q s') :
    Reaches exec (perform a >>= f) s q s' :=
  .act hx h

/-! ### The actions of a program -/

/-- Every action the program may perform satisfies `P`. -/
def All (P : ∀ {β : Type}, Act β → Prop) : Proc Act α → Prop
  | ret _ => True
  | act a next => P a ∧ ∀ b, (next b).All P

variable {P : ∀ {β : Type}, Act β → Prop}

@[simp] theorem all_ret (a : α) : (ret a : Proc Act α).All P := trivial

@[simp] theorem all_act {a : Act β} {next : β → Proc Act α} :
    (act a next).All P ↔ P a ∧ ∀ b, (next b).All P := Iff.rfl

theorem All.bind {p : Proc Act α} {f : α → Proc Act β} (hp : p.All P) (hf : ∀ a, (f a).All P) :
    (p >>= f).All P := by
  induction p with
  | ret a => exact hf a
  | act a next ih => exact ⟨hp.1, fun b => ih b (hp.2 b)⟩

theorem All.imp {Q : ∀ {β : Type}, Act β → Prop} (hPQ : ∀ {β : Type} {a : Act β}, P a → Q a)
    {p : Proc Act α} (hp : p.All P) : p.All Q := by
  induction p with
  | ret a => trivial
  | act a next ih => exact ⟨hPQ hp.1, fun b => ih b (hp.2 b)⟩

/-- **Frame rule.**  What every admissible action keeps, a program of such
actions keeps. -/
theorem run_all {R : σ → Prop}
    (hok : ∀ {β : Type} (a : Act β) s b s', P a → R s → exec a s = .ok b s' → R s')
    {p : Proc Act α} (hp : p.All P) {s s' : σ} {a : α} (hs : R s)
    (h : p.run exec s = .ok a s') : R s' := by
  induction p generalizing s with
  | ret a =>
    cases h
    exact hs
  | act a next ih =>
    rw [run] at h
    cases hx : exec a s with
    | ok b s1 =>
      rw [hx] at h
      exact ih b (hp.2 b) (hok a s b s1 hp.1 hs hx) h
    | error e s1 =>
      rw [hx] at h
      cases h

/-- A program stops with the error of one of its actions. -/
theorem run_error_all {p : Proc Act α} (hp : p.All P) {s s' : σ} {e : ε}
    (h : p.run exec s = .error e s') :
    ∃ (β : Type) (a : Act β) (s0 : σ), P a ∧ exec a s0 = .error e s' := by
  induction p generalizing s with
  | ret a => cases h
  | @act β a next ih =>
    rw [run] at h
    cases hx : exec a s with
    | ok b s1 =>
      rw [hx] at h
      exact ih b (hp.2 b) h
    | error e1 s1 =>
      rw [hx] at h
      cases h
      exact ⟨β, a, s, hp.1, hx⟩

/-- A run that ends went through the first action. -/
theorem run_act_inv {a : Act β} {next : β → Proc Act α} {s s' : σ} {c : α}
    (h : (act a next).run exec s = .ok c s') :
    ∃ b s1, exec a s = .ok b s1 ∧ (next b).run exec s1 = .ok c s' := by
  rw [run] at h
  cases hx : exec a s with
  | ok b s1 =>
    rw [hx] at h
    exact ⟨b, s1, rfl, h⟩
  | error e s1 =>
    rw [hx] at h
    cases h

theorem run_perform_inv {a : Act β} {f : β → Proc Act α} {s s' : σ} {c : α}
    (h : (perform a >>= f).run exec s = .ok c s') :
    ∃ b s1, exec a s = .ok b s1 ∧ (f b).run exec s1 = .ok c s' :=
  run_act_inv h

/-- A run of a composition that ends is a run of the first part and one of the
second. -/
theorem run_bind_inv {p : Proc Act α} {f : α → Proc Act β} {s s' : σ} {b : β}
    (h : (p >>= f).run exec s = .ok b s') :
    ∃ a s1, p.run exec s = .ok a s1 ∧ (f a).run exec s1 = .ok b s' := by
  rw [run_bind] at h
  cases hx : p.run exec s with
  | ok a s1 =>
    rw [hx] at h
    exact ⟨a, s1, rfl, h⟩
  | error e s1 =>
    rw [hx] at h
    cases h

end Proc

/-! ### Threads -/

/-- Where a thread is: waiting for work, inside a program, or stopped for
good. -/
inductive Thread (Act : Type → Type) : Type 1 where
  | idle
  | busy (p : Proc Act Unit)
  | halted

/-- Threads `ι` that share a state `σ`.  `track` drives the auxiliary state `γ`;
an error `e` with `waits e` means that the action is not enabled yet, any other
error stops the thread. -/
structure Machine (ι σ γ ε : Type) (Act : Type → Type) where
  exec : ι → ∀ {β : Type}, Act β → σ → EStateM.Result ε σ β
  track : ι → ∀ {β : Type}, Act β → σ → β → γ → γ
  waits : ε → Prop
  starts : ι → σ → Proc Act Unit → Prop

namespace Machine

open Function

variable {ι σ γ ε : Type} {Act : Type → Type}

/-- A configuration: the shared state, the auxiliary state, the threads. -/
structure Config (ι σ γ : Type) (Act : Type → Type) : Type 1 where
  state : σ
  aux : γ
  thread : ι → Thread Act

variable (M : Machine ι σ γ ε Act)

section Interleaving

variable [DecidableEq ι]

/-- One action of one thread. -/
inductive Step : Config ι σ γ Act → Config ι σ γ Act → Prop
  | start {c : Config ι σ γ Act} {i : ι} {p : Proc Act Unit} :
      c.thread i = .idle → M.starts i c.state p →
      Step c { c with thread := update c.thread i (.busy p) }
  | act {c : Config ι σ γ Act} {i : ι} {β : Type} {a : Act β} {next : β → Proc Act Unit}
      {b : β} {s' : σ} :
      c.thread i = .busy (.act a next) → M.exec i a c.state = .ok b s' →
      Step c ⟨s', M.track i a c.state b c.aux, update c.thread i (.busy (next b))⟩
  | halt {c : Config ι σ γ Act} {i : ι} {β : Type} {a : Act β} {next : β → Proc Act Unit}
      {e : ε} {s' : σ} :
      c.thread i = .busy (.act a next) → M.exec i a c.state = .error e s' → ¬ M.waits e →
      Step c ⟨s', c.aux, update c.thread i .halted⟩
  | finish {c : Config ι σ γ Act} {i : ι} :
      c.thread i = .busy (.ret ()) →
      Step c { c with thread := update c.thread i .idle }

/-- Any number of steps, by any threads in any order. -/
def Steps : Config ι σ γ Act → Config ι σ γ Act → Prop := Relation.ReflTransGen M.Step

/-- The auxiliary state after a program that runs alone. -/
def runAux (i : ι) : Proc Act Unit → σ → γ → γ
  | .ret _, _, g => g
  | .act a next, s, g =>
    match M.exec i a s with
    | .ok b s' => runAux i (next b) s' (M.track i a s b g)
    | .error _ _ => g

/-- **A program that runs alone is one of the interleavings.** -/
theorem run_steps {i : ι} {p : Proc Act Unit} {c : Config ι σ γ Act} {s' : σ}
    (hi : c.thread i = .busy p) (h : p.run (M.exec i) c.state = .ok () s') :
    M.Steps c ⟨s', M.runAux i p c.state c.aux, update c.thread i .idle⟩ := by
  induction p generalizing c with
  | ret a =>
    rw [Proc.run_ret] at h
    cases h
    exact .single (.finish hi)
  | act a next ih =>
    rw [Proc.run] at h
    cases hx : M.exec i a c.state with
    | error e s1 => rw [hx] at h; cases h
    | ok b s1 =>
      rw [hx] at h
      have hstep := Step.act (M := M) hi hx
      have hrest := ih b
        (c := ⟨s1, M.track i a c.state b c.aux, update c.thread i (.busy (next b))⟩)
        (update_self ..) h
      rw [update_idem] at hrest
      rw [runAux, hx]
      exact .head hstep hrest

/-- An idle thread starts a program and runs it to its end. -/
theorem start_steps {i : ι} {p : Proc Act Unit} {c : Config ι σ γ Act} {s' : σ}
    (hi : c.thread i = .idle) (hs : M.starts i c.state p)
    (h : p.run (M.exec i) c.state = .ok () s') :
    M.Steps c ⟨s', M.runAux i p c.state c.aux, c.thread⟩ := by
  have hrest := run_steps M (i := i)
    (c := ⟨c.state, c.aux, update c.thread i (.busy p)⟩) (update_self ..) h
  rw [update_idem, ← hi, update_eq_self] at hrest
  exact .head (.start hi hs) hrest

/-- An idle thread starts a program and comes to the point where `q` is left to do. -/
theorem start_reaches {i : ι} {p q : Proc Act Unit} {c : Config ι σ γ Act} {s' : σ}
    (hi : c.thread i = .idle) (hs : M.starts i c.state p)
    (h : Proc.Reaches (M.exec i) p c.state q s') :
    ∃ g', M.Steps c ⟨s', g', update c.thread i (.busy q)⟩ := by
  suffices hrest : ∀ (s : σ) (g : γ), Proc.Reaches (M.exec i) p s q s' → ∃ g',
      M.Steps ⟨s, g, update c.thread i (.busy p)⟩
        ⟨s', g', update c.thread i (.busy q)⟩ by
    obtain ⟨g', hsteps⟩ := hrest c.state c.aux h
    exact ⟨g', .head (.start hi hs) hsteps⟩
  clear hs h
  intro s g h
  induction h generalizing g with
  | refl => exact ⟨g, .refl⟩
  | @act δ a next b q s s1 s' hx _ ih =>
    obtain ⟨g', hsteps⟩ := ih (M.track i a s b g)
    have hstep := Step.act (M := M) (c := ⟨s, g, update c.thread i (.busy (.act a next))⟩)
      (update_self ..) hx
    rw [update_idem] at hstep
    exact ⟨g', .head hstep hsteps⟩

end Interleaving

/-! ### Rely-guarantee outlines -/

/-- What a thread relies on and promises: `inv` holds between actions, `rely` is
what the other threads may do, `guar` what this one does, `pre` what holds whenever
it performs an action; `skips` are the errors that leave the action to be tried
again, `admits` the errors that may stop the thread, with the states before and
after. -/
structure Contract (σ γ ε : Type) (Act : Type → Type) where
  inv : σ → γ → Prop
  rely : σ → γ → σ → γ → Prop
  guar : σ → γ → σ → γ → Prop
  pre : ∀ {β : Type}, Act β → σ → γ → Prop
  skips : ε → Prop
  admits : ε → σ → σ → γ → Prop

/-- An assertion that the other threads cannot invalidate. -/
def Contract.Stable (C : Contract σ γ ε Act) (P : σ → γ → Prop) : Prop :=
  ∀ s g s' g', C.inv s g → C.inv s' g' → C.rely s g s' g' → P s g → P s' g'

namespace Contract.Stable

variable {C : Contract σ γ ε Act} {P P' : σ → γ → Prop}

theorem and (h : C.Stable P) (h' : C.Stable P') : C.Stable fun s g => P s g ∧ P' s g :=
  fun s g s' g' hi hi' hr hp =>
    ⟨h s g s' g' hi hi' hr hp.1, h' s g s' g' hi hi' hr hp.2⟩

theorem or (h : C.Stable P) (h' : C.Stable P') : C.Stable fun s g => P s g ∨ P' s g :=
  fun s g s' g' hi hi' hr hp =>
    hp.imp (h s g s' g' hi hi' hr) (h' s g s' g' hi hi' hr)

theorem const (φ : Prop) : C.Stable fun _ _ => φ := fun _ _ _ _ _ _ _ h => h

end Contract.Stable

theorem Contract.Stable.exists {C : Contract σ γ ε Act} {ξ : Sort*} {P : ξ → σ → γ → Prop}
    (h : ∀ x, C.Stable (P x)) : C.Stable fun s g => ∃ x, P x s g :=
  fun s g s' g' hi hi' hr ⟨x, hx⟩ => ⟨x, h x s g s' g' hi hi' hr hx⟩

variable (C : Contract σ γ ε Act) (i : ι)

/-- What one action does from `P`. -/
def ActSpec {β : Type} (a : Act β) (P : σ → γ → Prop) (Q : β → σ → γ → Prop) : Prop :=
  ∀ s g, C.inv s g → P s g → C.pre a s g ∧
    match M.exec i a s with
    | .ok b s' => C.inv s' (M.track i a s b g) ∧ C.guar s g s' (M.track i a s b g) ∧
        Q b s' (M.track i a s b g)
    | .error e s' => C.skips e ∨ C.admits e s s' g

/-- A proof outline of a program. -/
def Valid {α : Type} : Proc Act α → (σ → γ → Prop) → (α → σ → γ → Prop) → Prop
  | .ret a, P, Q => ∀ s g, C.inv s g → P s g → Q a s g
  | .act (β := β) a next, P, Q => ∃ R : β → σ → γ → Prop,
      ActSpec M C i a P R ∧ ∀ b, C.Stable (R b) ∧ Valid (next b) (R b) Q

variable {M C i} {α β : Type} {P P' : σ → γ → Prop} {Q Q' : α → σ → γ → Prop}

theorem Valid.act {a : Act β} {next : β → Proc Act α} {R : β → σ → γ → Prop}
    (ha : ActSpec M C i a P R) (hs : ∀ b, C.Stable (R b))
    (hn : ∀ b, Valid M C i (next b) (R b) Q) : Valid M C i (.act a next) P Q :=
  ⟨R, ha, fun b => ⟨hs b, hn b⟩⟩

theorem Valid.perform {a : Act α} (ha : ActSpec M C i a P Q) (hs : ∀ b, C.Stable (Q b)) :
    Valid M C i (.perform a) P Q :=
  Valid.act ha hs fun _ _ _ _ hq => hq

theorem Valid.consequence {p : Proc Act α} (h : Valid M C i p P Q)
    (hP : ∀ s g, C.inv s g → P' s g → P s g)
    (hQ : ∀ a s g, C.inv s g → Q a s g → Q' a s g) : Valid M C i p P' Q' := by
  induction p generalizing P P' with
  | ret a => exact fun s g hi hp => hQ a s g hi (h s g hi (hP s g hi hp))
  | act a next ih =>
    obtain ⟨R, ha, hn⟩ := h
    refine ⟨R, fun s g hi hp => ha s g hi (hP s g hi hp), fun b => ⟨(hn b).1, ?_⟩⟩
    exact ih b (hn b).2 (fun s g _ hr => hr)

theorem Valid.pre {p : Proc Act α} (h : Valid M C i p P Q)
    (hP : ∀ s g, C.inv s g → P' s g → P s g) : Valid M C i p P' Q :=
  h.consequence hP fun _ _ _ _ hq => hq

theorem Valid.post {p : Proc Act α} (h : Valid M C i p P Q)
    (hQ : ∀ a s g, C.inv s g → Q a s g → Q' a s g) : Valid M C i p P Q' :=
  h.consequence (fun _ _ _ hp => hp) hQ

theorem Valid.ret {a : α} (h : ∀ s g, C.inv s g → P s g → Q a s g) :
    Valid M C i (.ret a : Proc Act α) P Q := h

theorem Valid.bind {p : Proc Act α} {f : α → Proc Act β} {R : α → σ → γ → Prop}
    {Q : β → σ → γ → Prop} (hp : Valid M C i p P R) (hf : ∀ a, Valid M C i (f a) (R a) Q) :
    Valid M C i (p >>= f) P Q := by
  induction p generalizing P with
  | ret a => exact (hf a).pre hp
  | act a next ih =>
    obtain ⟨S, ha, hn⟩ := hp
    exact ⟨S, ha, fun b => ⟨(hn b).1, ih b (hn b).2⟩⟩

/-- A logical variable of the precondition may be fixed first. -/
theorem Valid.exists {p : Proc Act α} {ξ : Sort*} {P : ξ → σ → γ → Prop}
    (h : ∀ x, Valid M C i p (P x) Q) : Valid M C i p (fun s g => ∃ x, P x s g) Q := by
  induction p generalizing ξ with
  | ret a => exact fun s g hi ⟨x, hx⟩ => h x s g hi hx
  | act a next ih =>
    choose R hR using h
    refine ⟨fun b s g => ∃ x, R x b s g, ?_, fun b => ⟨?_, ?_⟩⟩
    · rintro s g hi ⟨x, hx⟩
      obtain ⟨hpre, hspec⟩ := (hR x).1 s g hi hx
      refine ⟨hpre, ?_⟩
      cases hx' : M.exec i a s with
      | ok b s' =>
        rw [hx'] at hspec
        exact ⟨hspec.1, hspec.2.1, x, hspec.2.2⟩
      | error e s' =>
        rw [hx'] at hspec
        exact hspec
    · rintro s g s' g' hi hi' hr ⟨x, hx⟩
      exact ⟨x, ((hR x).2 b).1 s g s' g' hi hi' hr hx⟩
    · exact ih b fun x => ((hR x).2 b).2

theorem Valid.or {p : Proc Act α} (h : Valid M C i p P Q) (h' : Valid M C i p P' Q) :
    Valid M C i p (fun s g => P s g ∨ P' s g) Q := by
  refine (Valid.exists (P := fun b : Bool => if b then P else P') fun b => ?_).pre ?_
  · cases b
    · exact h'
    · exact h
  · rintro s g - (hp | hp)
    · exact ⟨true, hp⟩
    · exact ⟨false, hp⟩

/-- A fact that does not depend on the state may be assumed. -/
theorem Valid.pure {p : Proc Act α} {φ : Prop} (h : φ → Valid M C i p P Q) :
    Valid M C i p (fun s g => φ ∧ P s g) Q :=
  (Valid.exists (P := fun (_ : φ) => P) h).pre fun _ _ _ hp => ⟨hp.1, hp.2⟩

/-- **An outline as a statement about the program run alone.**  An assertion `T`
that every action keeps may be carried along. -/
theorem Valid.run_spec {p : Proc Act α} (h : Valid M C i p P Q) (hskip : ∀ e, ¬ C.skips e)
    {T : σ → γ → Prop}
    (hT : ∀ {β : Type} (a : Act β) s g b s', C.inv s g → C.pre a s g → M.exec i a s = .ok b s' →
      C.inv s' (M.track i a s b g) → C.guar s g s' (M.track i a s b g) → T s g →
      T s' (M.track i a s b g))
    {s : σ} {g : γ} (hi : C.inv s g) (hp : P s g) (ht : T s g) :
    match p.run (M.exec i) s with
    | .ok a s' => ∃ g', C.inv s' g' ∧ Q a s' g' ∧ T s' g'
    | .error e s' => ∃ s0 g0, C.inv s0 g0 ∧ T s0 g0 ∧ C.admits e s0 s' g0 := by
  induction p generalizing P s g with
  | ret a => exact ⟨g, hi, h s g hi hp, ht⟩
  | act a next ih =>
    obtain ⟨R, ha, hn⟩ := h
    obtain ⟨hpre, hx⟩ := ha s g hi hp
    rw [Proc.run]
    cases he : M.exec i a s with
    | ok b s' =>
      rw [he] at hx
      exact ih b (hn b).2 hx.1 hx.2.2 (hT a s g b s' hi hpre he hx.1 hx.2.1 ht)
    | error e s' =>
      rw [he] at hx
      rcases hx with hx | hx
      · exact absurd hx (hskip e)
      · exact ⟨s, g, hi, ht, hx⟩

/-! ### From outlines to interleavings -/

/-- Every thread follows an outline: `C i` is its contract, `idle i` what holds
of it between programs, and the promises of one thread are what the others rely
on. -/
structure Outlines (M : Machine ι σ γ ε Act) where
  contract : ι → Contract σ γ ε Act
  inv : σ → γ → Prop
  idle : ι → σ → γ → Prop
  inv_eq : ∀ i, (contract i).inv = inv
  admits_eq : ∀ i e s s' g, (contract i).admits e s s' g → s' = s
  waits_of_skips : ∀ i e, (contract i).skips e → M.waits e
  guar_rely : ∀ i j, i ≠ j → ∀ s g s' g',
    (contract j).guar s g s' g' → (contract i).rely s g s' g'
  idle_stable : ∀ i, (contract i).Stable (idle i)
  outline : ∀ i s p, M.starts i s p → ∀ g, inv s g → idle i s g →
    ∃ P, (contract i).Stable P ∧ P s g ∧ Valid M (contract i) i p P fun _ => idle i

/-- What an outline says of a thread at one moment. -/
def Outlines.ThreadOk (O : Outlines M) (s : σ) (g : γ) (i : ι) : Thread Act → Prop
  | .idle => O.idle i s g
  | .busy p => ∃ P, (O.contract i).Stable P ∧ P s g ∧
      Valid M (O.contract i) i p P fun _ => O.idle i
  | .halted => True

/-- What an outline says of a configuration. -/
structure Outlines.Ok (O : Outlines M) (c : Config ι σ γ Act) : Prop where
  inv : O.inv c.state c.aux
  thread : ∀ i, O.ThreadOk c.state c.aux i (c.thread i)

/-- An action of one thread leaves the assertions of another one standing. -/
theorem Outlines.ThreadOk.frame {O : Outlines M} {s s' : σ} {g g' : γ} {j : ι} {t : Thread Act}
    (h : O.ThreadOk s g j t) (hi : O.inv s g) (hi' : O.inv s' g')
    (hr : (O.contract j).rely s g s' g') : O.ThreadOk s' g' j t := by
  rw [← O.inv_eq j] at hi hi'
  cases t with
  | idle => exact O.idle_stable j s g s' g' hi hi' hr h
  | busy p =>
    obtain ⟨P, hs, hp, hv⟩ := h
    exact ⟨P, hs, hs s g s' g' hi hi' hr hp, hv⟩
  | halted => trivial

/-- The action a busy thread is about to perform meets its precondition. -/
theorem Outlines.Ok.pre {O : Outlines M} {c : Config ι σ γ Act} (h : O.Ok c) {i : ι} {β : Type}
    {a : Act β} {next : β → Proc Act Unit} (hi : c.thread i = .busy (.act a next)) :
    (O.contract i).pre a c.state c.aux := by
  have hbusy := h.thread i
  rw [hi] at hbusy
  obtain ⟨P, _, hp, R, ha, _⟩ := hbusy
  exact (ha c.state c.aux (by rw [O.inv_eq]; exact h.inv) hp).1

/-- A thread that stops leaves the state as it is. -/
theorem Outlines.Ok.halt_state {O : Outlines M} {c : Config ι σ γ Act} (h : O.Ok c) {i : ι}
    {β : Type} {a : Act β} {next : β → Proc Act Unit} (hi : c.thread i = .busy (.act a next))
    {e : ε} {s' : σ} (hx : M.exec i a c.state = .error e s') (hw : ¬ M.waits e) :
    s' = c.state := by
  have hbusy := h.thread i
  rw [hi] at hbusy
  obtain ⟨P, _, hp, R, ha, _⟩ := hbusy
  have hspec := (ha c.state c.aux (by rw [O.inv_eq]; exact h.inv) hp).2
  rw [hx] at hspec
  rcases hspec with hskip | hadm
  · exact absurd (O.waits_of_skips i e hskip) hw
  · exact O.admits_eq i _ _ _ _ hadm

variable [DecidableEq ι]

theorem Outlines.Ok.step {O : Outlines M} {c c' : Config ι σ γ Act} (h : O.Ok c)
    (hs : M.Step c c') : O.Ok c' := by
  have upd : ∀ {i : ι} {t : Thread Act} {s' : σ} {g' : γ}, O.inv s' g' →
      (∀ j, j ≠ i → (O.contract j).rely c.state c.aux s' g') → O.ThreadOk s' g' i t →
      O.Ok ⟨s', g', update c.thread i t⟩ := by
    intro i t s' g' hi hr ht
    refine ⟨hi, fun j => ?_⟩
    by_cases hj : j = i
    · subst hj
      simpa using ht
    · simp only [ne_eq, hj, not_false_eq_true, update_of_ne]
      exact (h.thread j).frame h.inv hi (hr j hj)
  have keep : ∀ {i : ι} {t : Thread Act}, O.ThreadOk c.state c.aux i t →
      O.Ok { c with thread := update c.thread i t } := by
    intro i t ht
    refine ⟨h.inv, fun j => ?_⟩
    by_cases hj : j = i
    · subst hj
      simpa using ht
    · simpa [hj] using h.thread j
  cases hs with
  | @start i p hi hst =>
    refine keep ?_
    have hidle := h.thread i
    rw [hi] at hidle
    exact O.outline i _ p hst _ h.inv hidle
  | @act i β a next b s' hi hx =>
    have hbusy := h.thread i
    rw [hi] at hbusy
    obtain ⟨P, _, hp, R, ha, hn⟩ := hbusy
    obtain ⟨_, hsp⟩ := ha c.state c.aux (by rw [O.inv_eq]; exact h.inv) hp
    rw [hx] at hsp
    rw [O.inv_eq] at hsp
    exact upd hsp.1 (fun j hj => O.guar_rely j i hj _ _ _ _ hsp.2.1)
      ⟨R b, (hn b).1, hsp.2.2, (hn b).2⟩
  | @halt i β a next e s' hi hx hw =>
    have hbusy := h.thread i
    rw [hi] at hbusy
    obtain ⟨P, _, hp, R, ha, _⟩ := hbusy
    obtain ⟨_, hsp⟩ := ha c.state c.aux (by rw [O.inv_eq]; exact h.inv) hp
    rw [hx] at hsp
    rcases hsp with hsp | hsp
    · exact absurd (O.waits_of_skips i e hsp) hw
    · cases O.admits_eq i _ _ _ _ hsp
      exact keep trivial
  | @finish i hi =>
    refine keep ?_
    have hbusy := h.thread i
    rw [hi] at hbusy
    obtain ⟨P, _, hp, hv⟩ := hbusy
    exact hv _ _ (by rw [O.inv_eq]; exact h.inv) hp

/-- **Outlines hold along every interleaving.** -/
theorem Outlines.reachable (O : Outlines M) {c c' : Config ι σ γ Act} (h : O.Ok c)
    (hs : M.Steps c c') : O.Ok c' := by
  induction hs with
  | refl => exact h
  | tail _ hstep ih => exact ih.step hstep

end Machine
