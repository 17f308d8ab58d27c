/-
The order in which tasks are dispatched.

Every task that becomes ready enters a run queue, and every dispatch takes a task off one.
The harts do so in any order; the history of all these sections, of all harts together, is
first in, first out.

* `runningOutlines` — the harts follow their outlines as long as none is parked, whatever the
  tasks do;
* `queues_in_order` — what entered a run queue leaves it in the same order, in every
  interleaving of the harts;
* `run_queues_fifo` — the queues themselves, over any tasks and queues.
-/
import Jixia.Recording
import Jixia.ListFrames
import Jixia.EndpointWakes
import Jixia.Ownership

namespace Jixia

open Machine Function

variable {legal : Prop} {h : HartIndex} {k k' : Kernel} {loc : Loc}
  {r : RunQueueRef → List TaskRef}

/-! ### Harts that are not parked -/

/-- The errors with which a crash parks a hart. -/
def Halt.isCrash : Halt → Bool
  | .park .endTaskDetachedCrashed | .park .endTaskRootCrashed | .park .removeTrackerCrashed => true
  | _ => false

theorem CrashPark.isCrash {e : Halt} (h : CrashPark e k) : e.isCrash = true := by
  rcases h with ⟨rfl, -⟩ | ⟨rfl, -⟩ | ⟨rfl, -⟩
  · rfl
  · rfl
  · rfl

/-- The harts as threads.  Tasks may call with any number; a hart that the crash of its task
would park stands still instead. -/
def runningMachine : Machine HartIndex Kernel Loc Halt Action :=
  (machine False).standing fun e => e.isCrash = true

/-- The outlines of all harts. -/
def runningOutlines : Outlines runningMachine where
  contract h := { contract False False h with
    skips := fun e => e = .spin ∨ e.isCrash = true
    admits := fun e k k' _ => e = .nullPointer ∧ k' = k }
  inv := Inv False
  idle := AtRest False
  inv_eq _ := rfl
  admits_eq _ _ _ _ _ hadm := hadm.2
  waits_of_skips _ _ hskip := hskip
  guar_rely _ _ hij _ _ _ _ hg := ⟨hg _ hij, False.elim⟩
  idle_stable _ := atRest_stable
  outline h _ _ hs _ _ hrest := by
    obtain ⟨P, hstable, hp, hvalid⟩ := outline_start hs hrest
    refine ⟨P, hstable, hp, ?_⟩
    refine Valid.standing (C := contract False False h) rfl rfl rfl (fun _ _ _ hpre => hpre) ?_
      (hvalid.post fun _ _ _ _ hu => .inl hu)
    rintro e s s' g (⟨hspin, -⟩ | ⟨-, hnull⟩ | ⟨-, hcrash⟩)
    · exact .inl (.inl hspin)
    · exact .inr hnull
    · exact .inl (.inr hcrash.isCrash)

/-! ### Histories of the run queues -/

/-- The event of a run-queue section. -/
def queueEvents (_ : HartIndex) :
    {β : Type} → Action β → Kernel → β → List (QueueEvent RunQueueRef TaskRef)
  | _, .runQueueInsert q t, _, accepted => [.inserted q t accepted]
  | _, .runQueueRemove q, _, selected => [.removed q selected]
  | _, _, _, _ => []

/-- The harts, with the history of the run queues. -/
def queueMachine : Machine HartIndex Kernel (List (QueueEvent RunQueueRef TaskRef)) Halt Action :=
  runningMachine.recording queueEvents

/-- The sections of the run queues. -/
def isQueueing : {β : Type} → Action β → Bool
  | _, .runQueueInsert _ _ | _, .runQueueRemove _ => true
  | _, _ => false

theorem queueEvents_eq_nil {β : Type} {a : Action β} (ha : isQueueing a = false) (b : β) :
    queueEvents h a k b = [] := by
  cases a <;> first | rfl | cases ha

/-- Every other action leaves the run queues alone. -/
theorem exec_runLists {β : Type} {a : Action β} {b : β} (ha : isQueueing a = false)
    (hi : Inv legal k loc) (hpre : Pre h a k loc) (hx : exec h a k = .ok b k')
    (hr : RunLists k r) : RunLists k' r := by
  by_cases hl : isListed a = false
  · exact (exec_listFrame hl hi hpre hx).runLists hr
  · -- What is left are the sections of the endpoints.
    have hs : a.isSection = true := by
      cases a <;> first | rfl | cases ha; done | exact absurd rfl hl
    exact (SameRun.of_section (exec_sectionFrame hs hx)).runLists hr

/-- The run queues are lists, and the history is theirs. -/
def Ordered (first : RunQueueRef → List TaskRef) (k : Kernel)
    (es : List (QueueEvent RunQueueRef TaskRef)) : Prop :=
  ∃ r, RunLists k r ∧ InOrder first es r

variable {first : RunQueueRef → List TaskRef} {es : List (QueueEvent RunQueueRef TaskRef)}

theorem Ordered.insert {q : RunQueueRef} {t : TaskRef} (ho : Ordered first k es) :
    Ordered first (k.runQueueInsert q t).2 (es ++ [.inserted q t (k.runQueueInsert q t).1]) := by
  obtain ⟨r, hr, horder⟩ := ho
  cases ht : ((k.tasks t).queued || (k.tasks t).delay.queued || (k.tasks t).messageWait.queued ||
      (k.tasks t).state == .ended) with
  | true =>
    rw [RunLists.runQueueInsert_refused ht]
    exact ⟨r, hr, horder.refused q t⟩
  | false =>
    rw [hr.runQueueInsert_eq ht]
    have hq : (k.tasks t).queued = false := by
      simp only [Bool.or_eq_false_iff] at ht
      exact ht.1.1.1
    exact ⟨_, hr.enqueued hq, horder.accepted q t⟩

theorem Ordered.remove {q : RunQueueRef} {selected : Option TaskRef} (ho : Ordered first k es)
    (hx : k.runQueueRemove q = .ok selected k') :
    Ordered first k' (es ++ [.removed q selected]) := by
  obtain ⟨r, hr, horder⟩ := ho
  have hremoved := horder.removed q
  cases hq : r q with
  | nil =>
    rw [hr.runQueueRemove_nil hq] at hx
    cases hx
    rw [hq, List.head?_nil, List.tail_nil, ← hq, update_eq_self] at hremoved
    exact ⟨r, hr, hremoved⟩
  | cons t rest =>
    rw [hr.runQueueRemove_cons hq] at hx
    split at hx
    · cases hx
    · cases hx
      rw [hq, List.head?_cons, List.tail_cons] at hremoved
      exact ⟨_, hr.dequeued hq, hremoved⟩

/-- **One action** keeps the order. -/
theorem Ordered.step {β : Type} {a : Action β} {b : β} (hi : Inv legal k loc)
    (hpre : Pre h a k loc) (hx : exec h a k = .ok b k') (ho : Ordered first k es) :
    Ordered first k' (es ++ queueEvents h a k b) := by
  cases ha : isQueueing a with
  | false =>
    obtain ⟨r, hr, horder⟩ := ho
    rw [queueEvents_eq_nil ha, List.append_nil]
    exact ⟨r, exec_runLists ha hi hpre hx hr, horder⟩
  | true =>
    cases a <;> first | cases ha; done | skip
    case runQueueInsert q t =>
      cases hx
      exact ho.insert
    case runQueueRemove q => exact ho.remove hx

/-! ### Interleavings of the harts -/

/-- A task in a run queue is ready and waits nowhere else. -/
theorem Inv.queueOk (hi : Inv legal k loc) (hr : RunLists k r) : QueueOk k.queueHeap r where
  family := hr.family
  size := hr.size
  ready q t ht := by
    have hq : (k.tasks t).queued = true := (hr.queued t).mpr ⟨q, ht⟩
    obtain ⟨p, hp⟩ := (hi.queued_iff t).mp hq
    refine ⟨(hi.placed t _ hp).state, ?_, ?_⟩
    · refine Bool.eq_false_iff.mpr fun hd => ?_
      obtain ⟨d, hd⟩ := (hi.delay_iff t).mp hd
      cases hp.symm.trans hd
    · refine Bool.eq_false_iff.mpr fun hw => ?_
      obtain ⟨e, he⟩ := (hi.wait_iff t).mp hw
      cases hp.symm.trans he

/-- **What enters a run queue leaves it in the same order**, in every interleaving of the
harts. -/
theorem queues_in_order (hi : Inv False k loc) (hrest : ∀ h, AtRest False h k loc)
    {c : Config HartIndex Kernel (List (QueueEvent RunQueueRef TaskRef)) Action}
    (hs : queueMachine.Steps ⟨k, [], fun _ => .idle⟩ c) :
    QueueOk c.state.queueHeap c.state.runList ∧ InOrder k.runList c.aux c.state.runList := by
  obtain ⟨r0, hr0, -⟩ := hi.queues.run
  have hfirst : k.runList = r0 := funext hr0.runList_eq
  have hstart : Ordered k.runList k [] := ⟨r0, hr0, by rw [hfirst]; exact .nil r0⟩
  obtain ⟨loc', hok, r, hr, horder⟩ := Outlines.recorded (O := runningOutlines)
    (R := fun k _ es => Ordered _ k es)
    (fun h a s g b s' log hi hpre hx _ ho => Ordered.step hi hpre hx ho) hs
    (g := loc) ⟨hi, hrest⟩ hstart
  have hlast : c.state.runList = r := funext hr.runList_eq
  rw [hlast]
  exact ⟨Inv.queueOk hok.inv hr, horder⟩

/-- **Run queues are first in, first out.**  Over any sequence of calls on any queues that share
any tasks, the queues are disjoint lists of ready tasks, `insert` appends and `remove` takes the
first task; and in every interleaving of the harts, the tasks leave a run queue in the order in
which they entered it. -/
theorem run_queues_fifo :
    (∀ (ι τ : Type) [DecidableEq ι] [DecidableEq τ] (es : List (QueueEvent ι τ))
      (s : QueueHeap ι τ), QueueRun es s → ∃ r : ι → List τ, QueueOk s r ∧
        (∀ t, (s.tasks t).queued = true ↔ ∃! q, t ∈ r q) ∧
        (∀ q t, (s.refuses t = true → s.insert q t = (false, s)) ∧
          (s.refuses t = false → (s.insert q t).1 = true ∧
            QueueOk (s.insert q t).2 (update r q (r q ++ [t])))) ∧
        (∀ q, ∃ s', s.remove q = .ok (r q).head? s' ∧
          QueueOk s' (update r q (r q).tail) ∧ (r q = [] → s' = s)) ∧
        ∀ q, entries es q = exits es q ++ r q) ∧
    ∀ (platform : Platform) (count : ℕ) (clock : Clock) (k : Kernel),
      Kernel.bootstrap platform count clock = .ok () k →
      ∀ c, queueMachine.Steps ⟨k, [], fun _ => .idle⟩ c →
        QueueOk c.state.queueHeap c.state.runList ∧
        ∀ q, k.runList q ++ entries c.aux q = exits c.aux q ++ c.state.runList q := by
  constructor
  · intro ι τ _ _ es s hrun
    obtain ⟨r, hok, horder⟩ := hrun.fifo
    refine ⟨r, hok, hok.queued_iff, fun q t => ⟨QueueHeap.insert_refused, hok.insert⟩, hok.remove,
      fun q => ?_⟩
    exact horder q
  · intro platform count clock k hb c hs
    obtain ⟨loc, hq⟩ := (bootstrap_quiescent hb : ∃ loc, Quiescent False k loc)
    exact queues_in_order hq.inv hq.rest hs

/-- One empty queue and two tasks. -/
def sampleQueue : QueueHeap Unit Bool where
  tasks _ := {}
  head _ := none
  tail _ := none
  size _ := 0

/-- Two tasks enter a queue and the first one leaves it; the initial task yields and is
dispatched again. -/
theorem run_queues_fifo_sample :
    (∃ (s : QueueHeap Unit Bool) (r : Unit → List Bool), QueueRun [.inserted () true true,
      .inserted () false true, .removed () (some true)] s ∧ QueueOk s r ∧ r () = [false]) ∧
    ∃ c, queueMachine.Steps ⟨sampleBoot, [], fun _ => .idle⟩ c ∧
      (c.state.tasks 1).context.mepc = 4 ∧ QueueOk c.state.queueHeap c.state.runList := by
  constructor
  · have hstart : QueueRun [] sampleQueue := .start (fun _ => rfl) (fun _ => rfl) (fun _ => rfl)
      fun _ => rfl
    have hins := (hstart.insert () true).insert () false
    have hrun := hins.remove (rfl : QueueHeap.remove _ () = .ok (some true) _)
    obtain ⟨r, hok, -, -, -, horder⟩ := run_queues_fifo.1 Unit Bool _ _ hrun
    have hlist : [true, false] = [true] ++ r () := horder ()
    exact ⟨_, r, hrun, hok, (List.cons.inj hlist).2.symm⟩
  · have hrun : (sampleCall 0).run (exec 0) sampleBoot =
        .ok () (Outcome.state ((sampleCall 0).run (exec 0) sampleBoot)) :=
      Outcome.eq_ok (by decide +kernel)
    have hall := start_steps queueMachine (i := 0) (c := ⟨sampleBoot, [], fun _ => .idle⟩)
      rfl (sampleBoot_call False.elim : Starts False 0 sampleBoot (sampleCall 0)) hrun
    have hpast : ((Outcome.state ((sampleCall 0).run (exec 0) sampleBoot)).tasks 1).context.mepc =
        4 := by decide +kernel
    refine ⟨_, hall, hpast, ?_⟩
    exact (run_queues_fifo.2 .sample 1 .zero sampleBoot sampleBoot_eq _ hall).1

end Jixia
