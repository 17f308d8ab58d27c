/-
Runs of the executive.

Two kinds of run start from the same place.  In an interleaved run
(`Machine.Steps (machine legal)`) the harts perform one action at a time in any
order.  In an atomic run (`Run`) every trap is handled as a whole before the next
one starts, on any hart.

* `hartOutlines` — every hart follows its outline, so the invariant holds along every
  interleaving;
* `Quiescent.run` — between two traps no lock is held and every hart holds its current
  task, and a trap leads from one such state to another.
-/
import Jixia.TrapOutlines

namespace Jixia

open Machine Proc Holding

variable {solo legal : Prop} {h : HartIndex} {k k' : Kernel} {loc : Loc} {p : KProc Unit}

/-! ### Harts between two traps -/

/-- The hart is not there. -/
def Absent (h : HartIndex) (k : Kernel) (loc : Loc) : Prop :=
  ((k.harts h).currentTask = none ∧ (k.harts h).idleTask = none) ∧
    ∀ t, loc t ≠ some (.own h)

/-- The hart is not there, or not started: it has no current task. -/
def Waiting (solo : Prop) (h : HartIndex) (k : Kernel) (loc : Loc) : Prop :=
  Absent h k loc ∨ ∃ i, Holds solo h (empty i none) k loc

/-- What holds of a hart when it runs no kernel code. -/
def AtRest (solo : Prop) (h : HartIndex) (k : Kernel) (loc : Loc) : Prop :=
  User solo h k loc ∨ Waiting solo h k loc

theorem user_stable : (contract solo legal h).Stable (User solo h) :=
  .exists fun i => .exists fun c => .exists fun x =>
    (Contract.Stable.const _).and (At.stable (caller i c x) _)

theorem absent_stable : (contract solo legal h).Stable (Absent h) := by
  rintro k loc k' loc' - - ⟨hr, -⟩ ⟨hhart, hown⟩
  rw [Absent, hr.hart]
  exact ⟨hhart, fun t ht => hown t ((hr.own t).mp ht)⟩

theorem atRest_stable : (contract solo legal h).Stable (AtRest solo h) :=
  user_stable.or (absent_stable.or (.exists fun i => At.stable (empty i none) _))

/-- A hart at rest with a current task runs it. -/
theorem AtRest.caller (hrest : AtRest solo h k loc) {c : TaskRef}
    (hcur : (k.harts h).currentTask = some c) :
    ∃ i, ((k.tasks c).state = .running ∧ (k.tasks c).cpu = some h) ∧
      Holds solo h (Holding.caller i c (k.tasks c)) k loc := by
  rcases hrest with ⟨i, c', x, hx, hat⟩ | ⟨⟨hnone, -⟩, -⟩ | ⟨i, hat⟩
  · have hc : c' = c := Option.some.inj (hat.current.symm.trans hcur)
    subst hc
    have hrec : k.tasks c' = x := (hat.owned c' x (caller_self i c' x)).2
    rw [hrec]
    exact ⟨i, hx, hat⟩
  · rw [hcur] at hnone
    cases hnone
  · have hnone := hat.current
    rw [hcur] at hnone
    cases hnone

/-- **A hart at rest that starts kernel code has an outline for it.** -/
theorem outline_start (hs : Starts legal h k p) (hrest : AtRest solo h k loc) :
    ∃ P, (contract solo legal h).Stable P ∧ P k loc ∧
      Outline solo legal h p P fun _ => User solo h := by
  cases hs with
  | @trap c frame clock hcur htrap hlegal hidle =>
    obtain ⟨i, hx, hat⟩ := hrest.caller hcur
    refine ⟨_, At.stable (Holding.caller i c (k.tasks c)) _, hat, ?_⟩
    exact outline_dispatch hx.1 hx.2 htrap
      (fun hsys => ⟨fun hl => hlegal hl hsys, fun hid => hidle hid hsys⟩) clock
  | secondary hcur hidle =>
    rcases hrest with ⟨i, c, x, -, hat⟩ | ⟨⟨-, hnone⟩, -⟩ | ⟨i, hat⟩
    · have hsome := hat.current
      rw [hcur] at hsome
      cases hsome
    · exact absurd hnone hidle
    · exact ⟨_, At.stable (empty i none) _, hat, outline_secondaryBootstrap _⟩

/-! ### Interleaved runs -/

/-- The outlines of all harts, when no task crashes. -/
def hartOutlines : Outlines (machine True) where
  contract := contract False True
  inv := Inv True
  idle := AtRest False
  inv_eq _ := rfl
  admits_eq _ _ _ _ _ hadm := by
    rcases hadm with ⟨-, -, heq⟩ | ⟨hl, -⟩
    · exact heq
    · exact absurd trivial hl
  waits_of_skips _ _ hskip := hskip.1
  guar_rely _ _ hij _ _ _ _ hg := ⟨hg _ hij, False.elim⟩
  idle_stable _ := atRest_stable
  outline _ _ _ hs _ _ hrest := by
    obtain ⟨P, hstable, hp, hvalid⟩ := outline_start hs hrest
    exact ⟨P, hstable, hp, hvalid.post fun _ _ _ _ hu => .inl hu⟩

/-! ### Atomic runs -/

/-- The state between two traps. -/
structure Quiescent (legal : Prop) (k : Kernel) (loc : Loc) : Prop where
  inv : Inv legal k loc
  rest : ∀ h, AtRest False h k loc
  unlocked : ∀ l, k.locks l = none

theorem At.solo_of_unlocked {S : Holding} {F : Kernel → Loc → Prop} (hat : At False h S F k loc)
    (hl : ∀ l, k.locks l = none) : At True h S F k loc :=
  { hat with
    alone := fun _ l j hj => by
      rw [hl l] at hj
      cases hj }

theorem At.shared {S : Holding} {F : Kernel → Loc → Prop} (hat : At solo h S F k loc) :
    At False h S F k loc :=
  { hat with alone := False.elim }

theorem AtRest.alone (hrest : AtRest False h k loc) (hl : ∀ l, k.locks l = none) :
    AtRest True h k loc := by
  rcases hrest with ⟨i, c, x, hx, hat⟩ | hoff | ⟨i, hat⟩
  · exact .inl ⟨i, c, x, hx, hat.solo_of_unlocked hl⟩
  · exact .inr (.inl hoff)
  · exact .inr (.inr ⟨i, hat.solo_of_unlocked hl⟩)

theorem AtRest.shared (hrest : AtRest solo h k loc) : AtRest False h k loc := by
  rcases hrest with ⟨i, c, x, hx, hat⟩ | hoff | ⟨i, hat⟩
  · exact .inl ⟨i, c, x, hx, hat.shared⟩
  · exact .inr (.inl hoff)
  · exact .inr (.inr ⟨i, hat.shared⟩)

/-- After kernel code has run alone, no lock is held. -/
theorem User.unlocked (hu : User True h k loc) (l : Lock) : k.locks l = none := by
  obtain ⟨i, c, x, -, hat⟩ := hu
  cases hl : k.locks l with
  | none => rfl
  | some j =>
    cases hat.alone trivial l j hl
    exact absurd ((hat.locks l).mp hl) List.not_mem_nil

/-- Kernel code that runs alone to the border of user mode. -/
theorem Quiescent.of_outline {P : Kernel → Loc → Prop}
    (hvalid : Outline True legal h p P fun _ => User True h) (hi : Inv legal k loc)
    (hp : P k loc) (hrest : ∀ j, j ≠ h → AtRest False j k loc) :
    match p.run (exec h) k with
    | .ok _ k' => ∃ loc', Quiescent legal k' loc'
    | .error e k' => ¬ legal ∧ CrashPark e k' := by
  -- The other harts stay at rest: no action of `h` touches what is theirs.
  have hrun := hvalid.run_spec (fun e hskip => hskip.2 trivial)
    (T := fun k loc => ∀ j, j ≠ h → AtRest False j k loc)
    (fun a s g b s' hi _ _ hi' hg ht j hj =>
      atRest_stable s g s' _ hi hi' ⟨hg j hj, False.elim⟩ (ht j hj)) hi hp hrest
  cases hout : p.run (exec h) k with
  | ok b k' =>
    rw [show p.run ((machine legal).exec h) k = .ok b k' from hout] at hrun
    obtain ⟨loc', hi', hu, hothers⟩ := hrun
    refine ⟨loc', hi', fun j => ?_, hu.unlocked⟩
    by_cases hj : j = h
    · rw [hj]
      exact AtRest.shared (.inl hu)
    · exact hothers j hj
  | error e k' =>
    rw [show p.run ((machine legal).exec h) k = .error e k' from hout] at hrun
    obtain ⟨k0, loc0, -, -, ⟨hsolo, -⟩ | hcrash⟩ := hrun
    · exact absurd trivial hsolo
    · exact hcrash

/-- **A trap leads from one quiescent state to another.**  Only a crash parks the hart. -/
theorem Quiescent.run (hq : Quiescent legal k loc) (hs : Starts legal h k p) :
    match p.run (exec h) k with
    | .ok _ k' => ∃ loc', Quiescent legal k' loc'
    | .error e k' => ¬ legal ∧ CrashPark e k' := by
  obtain ⟨P, -, hp, hvalid⟩ := outline_start hs ((hq.rest h).alone hq.unlocked)
  exact Quiescent.of_outline hvalid hq.inv hp fun j _ => hq.rest j

end Jixia
