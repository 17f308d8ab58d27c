/-
Deadlock freedom from a lock order.

Any number of threads run programs whose actions take locks, drop locks or do
something else; what an action returns is left open, and a thread may stop at any
action that does not take a lock.  A thread takes a lock only when it is free.

* `Ordered` — a program takes locks in the order of their ranks and drops them in the
  reverse order; `Ordered.bind` composes programs;
* `Config.Ok.step` — every step keeps what the threads hold in order;
* `Config.Ok.no_waiting_set`, `Config.Ok.no_self_wait`, `Config.Ok.eq_of_rank` — no set of
  threads waits for itself, no thread waits for a lock it holds, and no thread holds two
  locks of one rank.
-/
import Jixia.Resumption
import Mathlib.Data.List.Pairwise
import Mathlib.Order.RelClasses

/-- What an action does to the locks. -/
inductive LockUse (L : Type) where
  | take (l : L)
  | drop (l : L)
  | other
  deriving DecidableEq

namespace LockOrder

open Function

/-- What the actions of a signature do to the locks. -/
abbrev Uses (Act : Type → Type) (L : Type) : Type 1 := (β : Type) → Act β → LockUse L

variable {Act : Type → Type} {ι L R α γ : Type}

/-! ### Ordered programs -/

/-- The program, entered with the locks `held` (the last one taken first), takes only
locks above all it holds, drops the last one taken, and ends with `held'`. -/
def Ordered [LT R] (use : Uses Act L) (rank : L → R) :
    Proc Act α → List L → List L → Prop
  | .ret _, held, held' => held = held'
  | .act a next, held, held' =>
    match use _ a with
    | .take l => (∀ l' ∈ held, rank l' < rank l) ∧ ∀ b, Ordered use rank (next b) (l :: held) held'
    | .drop l => ∃ rest, held = l :: rest ∧ ∀ b, Ordered use rank (next b) rest held'
    | .other => ∀ b, Ordered use rank (next b) held held'

section Ordered

variable [LT R] {use : Uses Act L} {rank : L → R} {β : Type} {a : Act β}
  {next : β → Proc Act α} {held held' held'' : List L} {l : L}

theorem ordered_ret (x : α) : Ordered use rank (.ret x : Proc Act α) held held := rfl

theorem ordered_take (ha : use _ a = .take l) : Ordered use rank (.act a next) held held' ↔
    (∀ l' ∈ held, rank l' < rank l) ∧ ∀ b, Ordered use rank (next b) (l :: held) held' := by
  rw [Ordered, ha]

theorem ordered_drop (ha : use _ a = .drop l) : Ordered use rank (.act a next) held held' ↔
    ∃ rest, held = l :: rest ∧ ∀ b, Ordered use rank (next b) rest held' := by
  rw [Ordered, ha]

theorem ordered_other (ha : use _ a = .other) : Ordered use rank (.act a next) held held' ↔
    ∀ b, Ordered use rank (next b) held held' := by
  rw [Ordered, ha]

theorem ordered_perform (ha : use _ a = .other) : Ordered use rank (.perform a) held held :=
  (ordered_other ha).mpr ordered_ret

/-- Programs that agree on the locks between them compose. -/
theorem Ordered.bind {p : Proc Act α} {f : α → Proc Act γ} (hp : Ordered use rank p held held')
    (hf : ∀ x, Ordered use rank (f x) held' held'') : Ordered use rank (p >>= f) held held'' := by
  induction p generalizing held with
  | ret x =>
    cases hp
    exact hf x
  | act a next ih =>
    rw [Proc.act_bind]
    cases ha : use _ a with
    | take l =>
      obtain ⟨habove, hnext⟩ := (ordered_take ha).mp hp
      exact (ordered_take ha).mpr ⟨habove, fun b => ih b (hnext b)⟩
    | drop l =>
      obtain ⟨rest, hrest, hnext⟩ := (ordered_drop ha).mp hp
      exact (ordered_drop ha).mpr ⟨rest, hrest, fun b => ih b (hnext b)⟩
    | other =>
      exact (ordered_other ha).mpr fun b => ih b ((ordered_other ha).mp hp b)

/-- A section under a lock: the lock is above all that are held, and the body leaves
the locks as they are. -/
theorem Ordered.section {take drop : Act Unit} {body : Proc Act α} (htake : use _ take = .take l)
    (hdrop : use _ drop = .drop l) (habove : ∀ l' ∈ held, rank l' < rank l)
    (hbody : Ordered use rank body (l :: held) (l :: held)) :
    Ordered use rank (do
      Proc.perform take
      let result ← body
      Proc.perform drop
      return result) held held := by
  refine (ordered_take htake).mpr ⟨habove, fun _ => hbody.bind fun x => ?_⟩
  exact (ordered_drop hdrop).mpr ⟨held, rfl, fun _ => ordered_ret x⟩

end Ordered

/-! ### Threads and locks -/

/-- Who holds each lock, and where each thread is. -/
structure Config (ι L : Type) (Act : Type → Type) : Type 1 where
  owner : L → Option ι
  thread : ι → Thread Act

section Threads

variable [DecidableEq ι] [DecidableEq L]

/-- One action of one thread. -/
inductive Step (use : Uses Act L) (starts : Proc Act Unit → Prop) :
    Config ι L Act → Config ι L Act → Prop
  | start {c : Config ι L Act} {i : ι} {p : Proc Act Unit} : c.thread i = .idle → starts p →
      Step use starts c { c with thread := update c.thread i (.busy p) }
  | take {c : Config ι L Act} {i : ι} {β : Type} {a : Act β} {next : β → Proc Act Unit} {l : L} :
      c.thread i = .busy (.act a next) → use _ a = .take l → c.owner l = none → ∀ b,
      Step use starts c
        ⟨update c.owner l (some i), update c.thread i (.busy (next b))⟩
  | drop {c : Config ι L Act} {i : ι} {β : Type} {a : Act β} {next : β → Proc Act Unit} {l : L} :
      c.thread i = .busy (.act a next) → use _ a = .drop l → ∀ b,
      Step use starts c
        ⟨update c.owner l none, update c.thread i (.busy (next b))⟩
  | other {c : Config ι L Act} {i : ι} {β : Type} {a : Act β} {next : β → Proc Act Unit} :
      c.thread i = .busy (.act a next) → use _ a = .other → ∀ b,
      Step use starts c { c with thread := update c.thread i (.busy (next b)) }
  | halt {c : Config ι L Act} {i : ι} {β : Type} {a : Act β} {next : β → Proc Act Unit} :
      c.thread i = .busy (.act a next) → use _ a = .other →
      Step use starts c { c with thread := update c.thread i .halted }
  | finish {c : Config ι L Act} {i : ι} : c.thread i = .busy (.ret ()) →
      Step use starts c { c with thread := update c.thread i .idle }

/-- Any number of steps, by any threads in any order. -/
def Steps (use : Uses Act L) (starts : Proc Act Unit → Prop) :
    Config ι L Act → Config ι L Act → Prop :=
  Relation.ReflTransGen (Step use starts)

end Threads

variable {use : Uses Act L} {rank : L → R} {starts : Proc Act Unit → Prop}
  {c c' : Config ι L Act} {i : ι} {l l' : L}

/-- All locks are free and no thread has started. -/
def Config.Initial (c : Config ι L Act) : Prop :=
  (∀ l, c.owner l = none) ∧ ∀ i, c.thread i = .idle

/-- The thread is about to take the lock. -/
def Config.Wants (use : Uses Act L) (c : Config ι L Act) (i : ι) (l : L) :
    Prop :=
  ∃ (β : Type) (a : Act β) (next : β → Proc Act Unit),
    c.thread i = .busy (.act a next) ∧ use _ a = .take l

/-- What a thread is, given the locks it holds. -/
def ThreadOk [LT R] (use : Uses Act L) (rank : L → R) (held : List L) :
    Thread Act → Prop
  | .idle => held = []
  | .busy p => Ordered use rank p held []
  | .halted => True

/-- Every thread holds its locks in order and will drop them in order. -/
structure Config.OkWith [LT R] (use : Uses Act L) (rank : L → R)
    (c : Config ι L Act) (held : ι → List L) : Prop where
  owner : ∀ l i, c.owner l = some i ↔ l ∈ held i
  sorted : ∀ i, (held i).Pairwise fun l l' => rank l' < rank l
  thread : ∀ i, ThreadOk use rank (held i) (c.thread i)

/-- The invariant of the machine. -/
def Config.Ok [LT R] (use : Uses Act L) (rank : L → R)
    (c : Config ι L Act) : Prop :=
  ∃ held, c.OkWith use rank held

theorem Config.Initial.ok [LT R] (h : c.Initial) : c.Ok use rank :=
  ⟨fun _ => [], fun l i => by simp [h.1 l], fun _ => .nil, fun i => by
    rw [h.2 i]
    rfl⟩

section Invariant

variable [Preorder R] {held : ι → List L}

theorem Config.OkWith.ordered (h : c.OkWith use rank held) {p : Proc Act Unit}
    (hi : c.thread i = .busy p) : Ordered use rank p (held i) [] := by
  have hthread := h.thread i
  rwa [hi] at hthread

variable [DecidableEq ι]

/-- A thread that moves on with other locks: nobody else's locks change. -/
theorem Config.OkWith.relock (h : c.OkWith use rank held) {owner : L → Option ι} {t : Thread Act}
    (locks : List L) (hown : ∀ l, owner l = some i ↔ l ∈ locks)
    (hother : ∀ j, j ≠ i → ∀ l, owner l = some j ↔ c.owner l = some j)
    (hsorted : locks.Pairwise fun l l' => rank l' < rank l) (ht : ThreadOk use rank locks t) :
    (⟨owner, update c.thread i t⟩ : Config ι L Act).OkWith use rank
      (update held i locks) := by
  refine ⟨fun l j => ?_, fun j => ?_, fun j => ?_⟩ <;> by_cases hj : j = i
  · subst hj
    rw [update_self]
    exact hown l
  · rw [update_of_ne hj]
    exact (hother j hj l).trans (h.owner l j)
  · subst hj
    rw [update_self]
    exact hsorted
  · rw [update_of_ne hj]
    exact h.sorted j
  · subst hj
    simp only [update_self]
    exact ht
  · simp only [update_of_ne hj]
    exact h.thread j

/-- A thread that moves on with the same locks. -/
theorem Config.OkWith.move (h : c.OkWith use rank held) {t : Thread Act}
    (ht : ThreadOk use rank (held i) t) :
    ({ c with thread := update c.thread i t } : Config ι L Act).OkWith use rank held := by
  have hsame := h.relock (held i) (fun l => h.owner l i) (fun _ _ _ => Iff.rfl) (h.sorted i) ht
  rwa [update_eq_self] at hsame

variable [DecidableEq L]

/-- **Every step keeps the locks in order.** -/
theorem Config.Ok.step (hstarts : ∀ p, starts p → Ordered use rank p [] [])
    (h : c.Ok use rank) (hs : Step use starts c c') : c'.Ok use rank := by
  obtain ⟨held, h⟩ := h
  cases hs with
  | @start i p hi hp =>
    have hnone := h.thread i
    rw [hi] at hnone
    exact ⟨held, h.move (show Ordered use rank p (held i) [] from hnone ▸ hstarts p hp)⟩
  | @take i β a next l hi ha hfree b =>
    obtain ⟨habove, hnext⟩ := (ordered_take ha).mp (h.ordered hi)
    refine ⟨_, h.relock (l :: held i) (fun l' => ?_) (fun j hj l' => ?_)
      (List.pairwise_cons.mpr ⟨habove, h.sorted i⟩) (hnext b)⟩
    · by_cases hl : l' = l
      · simp [hl]
      · rw [update_of_ne hl, h.owner]
        simp [hl]
    · by_cases hl : l' = l
      · subst hl
        rw [update_self, hfree]
        simp [Ne.symm hj]
      · rw [update_of_ne hl]
  | @drop i β a next l hi ha b =>
    obtain ⟨rest, hrest, hnext⟩ := (ordered_drop ha).mp (h.ordered hi)
    have hmine : c.owner l = some i := (h.owner l i).mpr (hrest ▸ List.mem_cons_self)
    have hsorted := h.sorted i
    rw [hrest, List.pairwise_cons] at hsorted
    refine ⟨_, h.relock rest (fun l' => ?_) (fun j hj l' => ?_) hsorted.2 (hnext b)⟩
    · by_cases hl : l' = l
      · subst hl
        rw [update_self]
        refine ⟨fun hno => (Option.some_ne_none _ hno.symm).elim, fun hmem => ?_⟩
        exact absurd (hsorted.1 _ hmem) (lt_irrefl _)
      · rw [update_of_ne hl, h.owner, hrest]
        simp [hl]
    · by_cases hl : l' = l
      · subst hl
        rw [update_self, hmine]
        simp [Ne.symm hj]
      · rw [update_of_ne hl]
  | @other i β a next hi ha b =>
    exact ⟨held, h.move ((ordered_other ha).mp (h.ordered hi) b)⟩
  | @halt i β a next hi ha => exact ⟨held, h.move trivial⟩
  | @finish i hi => exact ⟨held, h.move (h.ordered hi)⟩

theorem Config.Ok.steps (hstarts : ∀ p, starts p → Ordered use rank p [] [])
    (h : c.Ok use rank) (hs : Steps use starts c c') : c'.Ok use rank := by
  induction hs with
  | refl => exact h
  | tail _ hstep ih => exact ih.step hstarts hstep

end Invariant

/-! ### What the order excludes -/

section Order

variable [Preorder R]

/-- A wanted lock is above all that the thread holds. -/
theorem Config.OkWith.rank_lt {held : ι → List L} (h : c.OkWith use rank held)
    (hw : c.Wants use i l) (hl : c.owner l' = some i) : rank l' < rank l := by
  obtain ⟨β, a, next, hi, ha⟩ := hw
  exact ((ordered_take ha).mp (h.ordered hi)).1 l' ((h.owner l' i).mp hl)

theorem Config.Ok.no_self_wait (h : c.Ok use rank) (hw : c.Wants use i l) :
    c.owner l ≠ some i := by
  obtain ⟨held, h⟩ := h
  exact fun hl => lt_irrefl _ (h.rank_lt hw hl)

/-- **No set of threads waits for itself.** -/
theorem Config.Ok.no_waiting_set [WellFoundedGT R] (h : c.Ok use rank) {S : Set ι}
    (hS : S.Nonempty)
    (hwait : ∀ i ∈ S, ∃ l, c.Wants use i l ∧ ∃ j ∈ S, c.owner l = some j) : False := by
  obtain ⟨held, h⟩ := h
  -- Follow the owners of the wanted locks: the ranks go up forever.
  have hup : ∀ r : R, ∀ i ∈ S, ∀ l, c.Wants use i l → rank l = r → False := by
    intro r
    induction r using WellFoundedGT.induction with
    | ind r ih =>
      rintro i hi l hw rfl
      obtain ⟨l1, hw1, j, hj, howner⟩ := hwait i hi
      obtain ⟨l2, hw2, _⟩ := hwait j hj
      have hsame : l1 = l := by
        obtain ⟨β, a, next, hi, ha⟩ := hw
        obtain ⟨β', a', next', hi', ha'⟩ := hw1
        cases hi.symm.trans hi'
        exact LockUse.take.inj (ha'.symm.trans ha)
      subst hsame
      exact ih (rank l2) (h.rank_lt hw2 howner) j hj l2 hw2 rfl
  obtain ⟨i, hi⟩ := hS
  obtain ⟨l, hw, _⟩ := hwait i hi
  exact hup (rank l) i hi l hw rfl

/-- A thread holds at most one lock of a rank. -/
theorem Config.Ok.eq_of_rank (h : c.Ok use rank) (hl : c.owner l = some i)
    (hl' : c.owner l' = some i) (hr : rank l = rank l') : l = l' := by
  obtain ⟨held, h⟩ := h
  by_contra hne
  have hlt := (h.sorted i).imp (S := fun l l' => rank l ≠ rank l') fun h => (ne_of_lt h).symm
  have : Std.Symm fun l l' : L => rank l ≠ rank l' := ⟨fun _ _ => Ne.symm⟩
  exact hlt.forall ((h.owner l i).mp hl) ((h.owner l' i).mp hl') hne hr

end Order

end LockOrder
