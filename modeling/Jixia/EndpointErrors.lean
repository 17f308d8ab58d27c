/-
The error codes of the endpoint manager.

From every reachable state, each call of the endpoint manager returns, and what it
returns is determined by the handle, the endpoint it denotes and the caller.

* `returns_of_outline` — a call with an outline that cannot crash returns;
* `ipc_errors_exact` — the exact condition of every return code, and a call that
  fails changes nothing.
-/
import Jixia.HandleHistory
import Jixia.Ownership

namespace Jixia

open Machine Proc KProc Holding Kernel EndpointHandle

variable {legal : Prop} {h : HartIndex} {k k' : Kernel} {loc : Loc} {α β : Type}
  {w : EndpointRef → List TaskRef}

/-! ### Calls return -/

/-- The parks of a crash. -/
def ParkSite.ofCrash : ParkSite → Bool
  | .endTaskDetachedCrashed | .endTaskRootCrashed | .removeTrackerCrashed => true
  | _ => false

/-- The actions of the calls on endpoints; none of them ends a task. -/
def Action.isEndpointWork : {β : Type} → Action β → Bool
  | _, .park site => !site.ofCrash
  | _, .setReg .. | _, .writeRecvRegisters .. | _, .restoreCurrentContext
  | _, .createEndpointLocked .. | _, .destroyEndpointLocked .. | _, .destroyPop _
  | _, .sendLocked .. | _, .tryRecvLocked _ | _, .recvLocked .. => true
  | _, a => a.isScheduling

/-- The actions of the calls that dispatch nothing: they leave the hart records alone and
take no task off a run queue. -/
def Action.isNeutral : {β : Type} → Action β → Bool
  | _, .setTimeslice _ | _, .countPreemption | _, .setCompare _ | _, .setCurrentTask _
  | _, .restoreCurrentContext | _, .runQueueRemove _ => false
  | _, a => a.isEndpointWork

/-- The actions of the calls that wake nothing. -/
def Action.isQuiet : {β : Type} → Action β → Bool
  | _, .runQueueInsert .. => false
  | _, a => a.isEndpointWork

theorem work_of_neutral {a : Action β} (ha : a.isNeutral = true) : a.isEndpointWork = true := by
  cases a <;> first | exact ha | cases ha

theorem work_of_quiet {a : Action β} (ha : a.isQuiet = true) : a.isEndpointWork = true := by
  cases a <;> first | exact ha | cases ha

theorem neutral_of_adding {a : Action β} (ha : a.isAdding = true) : a.isNeutral = true := by
  cases a <;> first | rfl | cases ha

theorem quiet_of_dispatch {a : Action β} (ha : a.isDispatch = true) : a.isQuiet = true := by
  cases a <;> first | rfl | cases ha | skip
  case park site => cases site <;> first | rfl | cases ha

/-- Why such an action stops. -/
theorem exec_error_site {a : Action β} (ha : a.isEndpointWork = true) {e : Halt}
    (hx : exec h a k = .error e k') {site : ParkSite} (he : e = .park site) :
    site.ofCrash = false := by
  subst he
  cases a <;> first | cases ha; done | skip
  all_goals simp only [exec, Outcome.total, reduceCtorEq] at hx
  case acquire l =>
    rw [acquire] at hx
    split at hx <;> cases hx
  case park s =>
    cases hx
    simpa [Action.isEndpointWork] using ha
  case diverge => cases hx
  case restoreCurrentContext =>
    rw [restoreCurrentContext] at hx
    split at hx <;> cases hx
    rfl
  case scheduler t | yieldScheduler t _ =>
    rcases schedulerOf_cases k t with heq | heq <;> cases heq.symm.trans hx
  case setCurrentTask t =>
    rw [setCurrentTask] at hx
    simp only at hx
    split at hx <;> cases hx
    rfl
  case runQueueRemove q =>
    rw [Kernel.runQueueRemove] at hx
    split at hx
    · cases hx
    · simp only at hx
      split at hx <;> split at hx <;> cases hx <;> rfl
  case sendLocked s p ws =>
    simp only [sendLocked] at hx
    split at hx
    · cases hx
    · split at hx
      · cases hx
        rfl
      · split at hx
        · split at hx <;> cases hx
        · split at hx <;> cases hx
  case recvLocked t v =>
    simp only [recvLocked] at hx
    split at hx
    · cases hx
    · split at hx
      · cases hx
        rfl
      · split at hx <;> cases hx

/-- **A call that follows its outline and cannot crash returns.** -/
theorem returns_of_outline {p : KProc α} {P : Kernel → Loc → Prop} {Q : α → Kernel → Loc → Prop}
    (hvalid : Outline True legal h p P Q) (hall : p.All fun a => a.isEndpointWork = true)
    (hi : Inv legal k loc) (hp : P k loc) : ∃ a k', p.run (exec h) k = .ok a k' := by
  have hrun := hvalid.run_spec (fun e hskip => hskip.2 trivial) (T := fun _ _ => True)
    (fun _ _ _ _ _ _ _ _ _ _ _ => trivial) hi hp trivial
  cases hout : p.run (exec h) k with
  | ok a k' => exact ⟨a, k', rfl⟩
  | error e k' =>
    rw [show p.run ((machine legal).exec h) k = .error e k' from hout] at hrun
    obtain ⟨k0, loc0, -, -, ⟨hsolo, -⟩ | ⟨-, hcrash⟩⟩ := hrun
    · exact absurd trivial hsolo
    · obtain ⟨γ, a, k1, ha, hx⟩ := run_error_all hall hout
      rcases hcrash with ⟨he, -⟩ | ⟨he, -⟩ | ⟨he, -⟩ <;> cases exec_error_site ha hx he

theorem createEndpoint_neutral (owner : TaskId) :
    (createEndpoint owner).All fun a => a.isNeutral = true := by
  refine locked_all rfl rfl ⟨rfl, fun free => ?_⟩
  cases free with
  | none => trivial
  | some e => exact locked_all rfl rfl ⟨rfl, fun _ => trivial⟩

theorem wakeAll_neutral (e : EndpointRef) (fuel : ℕ) :
    (wakeAll e fuel).All fun a => a.isNeutral = true := by
  induction fuel with
  | zero => exact all_perform rfl
  | succ fuel ih =>
    refine ⟨rfl, fun receiver => ?_⟩
    cases receiver with
    | none => trivial
    | some t =>
      exact ⟨rfl, fun _ => ((addTask_all t).imp neutral_of_adding).bind fun _ =>
        (parkUnless_all rfl).bind fun _ => ih⟩

theorem destroyEndpoint_neutral (caller : TaskId) (handle : Word) :
    (destroyEndpoint caller handle).All fun a => a.isNeutral = true := by
  rw [destroyEndpoint]
  split
  · refine locked_all rfl rfl (locked_all rfl rfl ⟨rfl, fun step => ?_⟩)
    cases step with
    | done code => trivial
    | wakeAll => exact (wakeAll_neutral _ _).bind fun _ => trivial
  · trivial

theorem send_neutral (sender : TaskId) (handle : Word) (words : Fin 4 → Word) :
    (send sender handle words).All fun a => a.isNeutral = true := by
  rw [send]
  split
  · refine locked_all rfl rfl ⟨rfl, fun step => ?_⟩
    cases step with
    | done code => trivial
    | wake t =>
      exact ⟨rfl, fun _ => ((addTask_all t).imp neutral_of_adding).bind fun _ =>
        (parkUnless_all rfl).bind fun _ => trivial⟩
  · trivial

theorem tryRecv_neutral (handle : Word) :
    (tryRecv handle).All fun a => a.isNeutral = true := by
  rw [tryRecv]
  split
  · exact locked_all rfl rfl (all_perform rfl)
  · trivial

theorem recv_quiet (caller : TaskRef) (handle : Word) (clock : Clock) :
    (recv h caller handle clock).All fun a => a.isQuiet = true := by
  refine ⟨rfl, fun task => (parkUnless_all rfl).bind fun _ => ?_⟩
  simp only
  split
  · refine locked_all rfl rfl ⟨rfl, fun status => ?_⟩
    cases status with
    | delivered | rejected => trivial
    | blocked =>
      exact ⟨rfl, fun _ => ((setNextRunnable_all h clock).imp quiet_of_dispatch).bind
        fun _ => trivial⟩
  · exact ⟨rfl, fun _ => trivial⟩

/-! ### Handles and the endpoints they denote -/

section Denotes

variable {handle : Word} {e : EndpointRef} {dying : EndpointRef → Prop}

/-- The handle is the index and the generation of the active endpoint `e`. -/
def Kernel.Denotes (k : Kernel) (handle : Word) (e : EndpointRef) : Prop :=
  (k.endpoints e).active = true ∧
    fromRaw handle = ⟨BitVec.ofNat 32 e.val, (k.endpoints e).generation⟩

/-- The checks of the code, before and after the lock, find out whether a handle
denotes an endpoint. -/
theorem denotes_iff (hi : IpcInv k w dying) :
    k.Denotes handle e ↔ (fromRaw handle).wellFormed = true ∧
      k.IsLive (.fromRaw handle) ∧ e = (fromRaw handle).slot := by
  constructor
  · rintro ⟨hactive, hraw⟩
    have hs := hi.slots e
    have he : e.val < kMaxEndpoints := e.isLt
    rw [hraw, Kernel.IsLive, EndpointHandle.slot_mk]
    refine ⟨?_, ⟨hactive, rfl⟩, rfl⟩
    simp only [EndpointHandle.wellFormed, Bool.and_eq_true, decide_eq_true_eq, bne_iff_ne]
    refine ⟨⟨?_, hs.active_generation hactive⟩, hs.generation_le⟩
    rw [BitVec.toNat_ofNat]
    exact lt_of_le_of_lt (Nat.mod_le _ _) he
  · rintro ⟨hwf, ⟨hactive, hgen⟩, rfl⟩
    exact ⟨hactive, hgen ▸ EndpointHandle.eq_mk_of_wellFormed hwf⟩

theorem exists_denotes_and (hi : IpcInv k w dying) (handle : Word) (P : EndpointRef → Prop) :
    (∃ e, k.Denotes handle e ∧ P e) ↔ (fromRaw handle).wellFormed = true ∧
      k.IsLive (.fromRaw handle) ∧ P (fromRaw handle).slot := by
  simp only [denotes_iff hi]
  constructor
  · rintro ⟨e, ⟨hwf, hlive, rfl⟩, hp⟩
    exact ⟨hwf, hlive, hp⟩
  · rintro ⟨hwf, hlive, hp⟩
    exact ⟨_, ⟨hwf, hlive, rfl⟩, hp⟩

theorem exists_denotes (hi : IpcInv k w dying) (handle : Word) :
    (∃ e, k.Denotes handle e) ↔
      (fromRaw handle).wellFormed = true ∧ k.IsLive (.fromRaw handle) := by
  simpa using exists_denotes_and hi handle fun _ => True

theorem not_denotes (hi : IpcInv k w dying)
    (hden : ¬ ((fromRaw handle).wellFormed = true ∧ k.IsLive (.fromRaw handle)))
    (e : EndpointRef) : ¬ k.Denotes handle e :=
  fun hd => hden ((exists_denotes hi handle).mp ⟨e, hd⟩)

end Denotes

/-! ### Exact answers -/

/-- The answer of `destroy_endpoint`. -/
structure DestroyExact (k : Kernel) (caller : TaskId) (handle : Word) (code : ℤ) (k' : Kernel) :
    Prop where
  invalid : code = kErrorInvalidArgument ↔ ¬ ∃ e, k.Denotes handle e
  access : code = kErrorAccess ↔ ∃ e, k.Denotes handle e ∧ (k.endpoints e).owner ≠ caller
  success : code = 0 ↔ ∃ e, k.Denotes handle e ∧ (k.endpoints e).owner = caller
  unchanged : code ≠ 0 → k' = k

/-- The answer of `send`. -/
structure SendExact (k : Kernel) (handle : Word) (code : ℤ) (k' : Kernel) : Prop where
  invalid : code = kErrorInvalidArgument ↔ ¬ ∃ e, k.Denotes handle e
  again : code = kErrorAgain ↔ ∃ e, k.Denotes handle e ∧ (k.endpoints e).waitingCount = 0 ∧
    (k.endpoints e).count = kEndpointQueueDepth
  success : code = 0 ↔ ∃ e, k.Denotes handle e ∧ ¬ ((k.endpoints e).waitingCount = 0 ∧
    (k.endpoints e).count = kEndpointQueueDepth)
  unchanged : code ≠ 0 → k' = k

/-- The answer of `try_recv`. -/
structure TryRecvExact (k : Kernel) (handle : Word) (result : ℤ ⊕ Message) (k' : Kernel) :
    Prop where
  invalid : result = .inl kErrorInvalidArgument ↔ ¬ ∃ e, k.Denotes handle e
  again : result = .inl kErrorAgain ↔ ∃ e, k.Denotes handle e ∧ (k.endpoints e).count = 0
  message : (∃ message, result = .inr message) ↔
    ∃ e, k.Denotes handle e ∧ (k.endpoints e).count ≠ 0
  unchanged : (∃ code, result = .inl code) → k' = k

/-- The answer of `recv`, which puts its error code into `a0` of the caller itself. -/
structure RecvExact (k : Kernel) (caller : TaskRef) (handle : Word) (status : RecvStatus)
    (k' : Kernel) : Prop where
  rejected : status = .rejected ↔ ¬ ∃ e, k.Denotes handle e
  delivered : status = .delivered ↔ ∃ e, k.Denotes handle e ∧ (k.endpoints e).count ≠ 0
  blocked : status = .blocked ↔ ∃ e, k.Denotes handle e ∧ (k.endpoints e).count = 0
  unchanged : status = .rejected →
    k' = k.setReg caller 10 (BitVec.ofInt 64 kErrorInvalidArgument)

/-- The answer of `create_endpoint`. -/
structure CreateExact (k : Kernel) (result : ℤ ⊕ Word) (k' : Kernel) : Prop where
  noSpace : result = .inl kErrorNoSpace ↔
    ∀ e, (k.endpoints e).active = true ∨ (k.endpoints e).retired = true
  handle : (∃ handle, result = .inr handle) ↔
    ∃ e, (k.endpoints e).active = false ∧ (k.endpoints e).retired = false
  unchanged : (∃ code, result = .inl code) → k' = k

section Exact

variable {handle : Word} {dying : EndpointRef → Prop}

theorem destroyExact {caller : TaskId} {code : ℤ} (hi : IpcInv k w dying)
    (hfree : ∀ lock, k.locks lock = none)
    (hr : (destroyEndpoint caller handle).run (exec h) k = .ok code k') :
    DestroyExact k caller handle code k' := by
  by_cases hden : (fromRaw handle).wellFormed = true ∧ k.IsLive (.fromRaw handle)
  · obtain ⟨hwf, hlive⟩ := hden
    have hal := (hi.slots (fromRaw handle).slot).allocated_eq
    rw [hlive.1, Bool.true_or] at hal
    by_cases howner : (k.endpoints (fromRaw handle).slot).owner = caller
    · have hcode : code = 0 := by
        rcases destroyEndpoint_run hi hr with ⟨hwf', -⟩ | ⟨-, k0, step, k1, hf, hcase, hend⟩
        · rw [hwf] at hwf'
          cases hwf'
        · cases hcase with
          | stale hs => exact absurd ((IsLive.same hf.sameIpc).mpr hlive) hs
          | denied _ ho =>
            rw [hf.sameIpc.endpoints] at ho
            exact absurd howner ho
          | dead _ _ =>
            cases hend
            rfl
      subst hcode
      constructor <;> simp [exists_denotes hi, exists_denotes_and hi, hwf, hlive, howner,
        kErrorInvalidArgument, kErrorAccess]
    · have hsec : ∀ k1, SameIpc k k1 →
          k1.destroyEndpointLocked caller (.fromRaw handle) = (.done kErrorAccess, k1) := by
        intro k1 hs
        simp only [destroyEndpointLocked, hs.endpoints, hs.slotAllocated]
        rw [if_neg (by simp [hal, hlive.1, hlive.2]), if_pos (by simpa using howner)]
      rw [destroyEndpoint_refused hfree hwf hsec] at hr
      cases hr
      constructor <;> simp [exists_denotes hi, exists_denotes_and hi, hwf, hlive, howner,
        kErrorInvalidArgument, kErrorAccess]
  · rw [destroyEndpoint_stale hfree fun hwf hlive => hden ⟨hwf, hlive⟩] at hr
    cases hr
    constructor <;> simp [not_denotes hi hden, kErrorInvalidArgument, kErrorAccess]

theorem sendExact {sender : TaskId} {words : Fin 4 → Word} {code : ℤ} (hi : IpcInv k w dying)
    (hfree : ∀ lock, k.locks lock = none)
    (hr : (send sender handle words).run (exec h) k = .ok code k') :
    SendExact k handle code k' := by
  by_cases hden : (fromRaw handle).wellFormed = true ∧ k.IsLive (.fromRaw handle)
  · obtain ⟨hwf, hlive⟩ := hden
    by_cases hfull : (k.endpoints (fromRaw handle).slot).waitingCount = 0 ∧
        (k.endpoints (fromRaw handle).slot).count = kEndpointQueueDepth
    · have hsec : ∀ k1, SameIpc k k1 →
          k1.sendLocked sender (.fromRaw handle) words = .ok (.done kErrorAgain) k1 := by
        intro k1 hs
        simp only [sendLocked, hs.endpoints]
        rw [if_neg (by simp [hlive.1, hlive.2]), if_neg (by simp [hfull.1]),
          if_neg (by simp [hfull.1]), if_pos hfull.2.ge]
      rw [send_refused hfree hwf hsec] at hr
      cases hr
      constructor <;> simp [exists_denotes hi, exists_denotes_and hi, hwf, hlive, hfull,
        kErrorInvalidArgument, kErrorAgain]
    · have hcode : code = 0 := by
        rcases send_run hi hr with ⟨hwf', -⟩ | ⟨-, k0, step, k1, hf, hcase, -, rfl⟩
        · rw [hwf] at hwf'
          cases hwf'
        · cases hcase with
          | stale hs => exact absurd ((IsLive.same hf.sameIpc).mpr hlive) hs
          | wake _ _ => rfl
          | full _ hw hcount =>
            rw [hf.sameIpc.endpoints] at hcount
            exact absurd ⟨by rw [hi.lists.count, hw, List.length_nil], hcount⟩ hfull
          | queued _ _ _ => rfl
      subst hcode
      refine ⟨?_, ?_, ?_, fun hne => absurd rfl hne⟩
      · simp [exists_denotes hi, hwf, hlive, kErrorInvalidArgument]
      · simp [exists_denotes_and hi, hfull, kErrorAgain]
      · simpa [exists_denotes_and hi, hwf, hlive] using hfull
  · rw [send_stale hfree fun hwf hlive => hden ⟨hwf, hlive⟩] at hr
    cases hr
    constructor <;> simp [not_denotes hi hden, kErrorInvalidArgument, kErrorAgain]

theorem tryRecvExact {result : ℤ ⊕ Message} (hi : IpcInv k w dying)
    (hfree : ∀ lock, k.locks lock = none)
    (hr : (tryRecv handle).run (exec h) k = .ok result k') :
    TryRecvExact k handle result k' := by
  by_cases hden : (fromRaw handle).wellFormed = true ∧ k.IsLive (.fromRaw handle)
  · obtain ⟨hwf, hlive⟩ := hden
    by_cases hempty : (k.endpoints (fromRaw handle).slot).count = 0
    · have hsec : ∀ k1, SameIpc k k1 →
          k1.tryRecvLocked (.fromRaw handle) = (.inl kErrorAgain, k1) := by
        intro k1 hs
        simp only [tryRecvLocked, hs.endpoints]
        rw [if_neg (by simp [hlive.1, hlive.2]), if_pos (by simp [hempty])]
      rw [tryRecv_refused hfree hwf hsec] at hr
      cases hr
      constructor <;> simp [exists_denotes hi, exists_denotes_and hi, hwf, hlive, hempty,
        kErrorInvalidArgument, kErrorAgain]
    · have hmessage : ∃ message, result = .inr message := by
        rcases tryRecv_run hr with ⟨hwf', -⟩ | ⟨-, k0, k1, hf, hcase, -⟩
        · rw [hwf] at hwf'
          cases hwf'
        · cases hcase with
          | stale hs => exact absurd ((IsLive.same hf.sameIpc).mpr hlive) hs
          | empty _ hcount =>
            rw [hf.sameIpc.endpoints] at hcount
            exact absurd hcount hempty
          | message _ _ => exact ⟨_, rfl⟩
      obtain ⟨message, rfl⟩ := hmessage
      constructor <;> simp [exists_denotes hi, exists_denotes_and hi, hwf, hlive, hempty]
  · rw [tryRecv_stale hfree fun hwf hlive => hden ⟨hwf, hlive⟩] at hr
    cases hr
    constructor <;> simp [not_denotes hi hden, kErrorInvalidArgument, kErrorAgain]

theorem recvExact {caller : TaskRef} {clock : Clock} {status : RecvStatus}
    (hi : IpcInv k w dying) (hfree : ∀ lock, k.locks lock = none)
    (hr : (recv h caller handle clock).run (exec h) k = .ok status k') :
    RecvExact k caller handle status k' := by
  obtain ⟨hq, hcases⟩ := recv_run hi hr
  by_cases hden : (fromRaw handle).wellFormed = true ∧ k.IsLive (.fromRaw handle)
  · obtain ⟨hwf, hlive⟩ := hden
    have hstatus : status = if (k.endpoints (fromRaw handle).slot).count = 0
        then .blocked else .delivered := by
      rcases hcases with ⟨hwf', -⟩ | ⟨-, k0, k1, hf, hcase, -⟩
      · rw [hwf] at hwf'
        cases hwf'
      · rw [← hf.sameIpc.endpoints]
        cases hcase with
        | stale hs => exact absurd ((IsLive.same hf.sameIpc).mpr hlive) hs
        | message _ hcount => rw [if_neg hcount.ne']
        | block _ hcount => rw [if_pos hcount]
    subst hstatus
    by_cases hempty : (k.endpoints (fromRaw handle).slot).count = 0 <;>
      constructor <;> simp [exists_denotes hi, exists_denotes_and hi, hwf, hlive, hempty]
  · rw [recv_stale hfree (fun hwf hlive => hden ⟨hwf, hlive⟩) hq] at hr
    cases hr
    constructor <;> simp [not_denotes hi hden]

theorem createExact {owner : TaskId} {result : ℤ ⊕ Word} (hi : IpcInv k w dying)
    (hfree : ∀ lock, k.locks lock = none)
    (hr : (createEndpoint owner).run (exec h) k = .ok result k') : CreateExact k result k' := by
  have htaken : ∀ e, (k.slotAllocated e || (k.endpoints e).retired) = true ↔
      (k.endpoints e).active = true ∨ (k.endpoints e).retired = true := by
    intro e
    rw [(hi.slots e).allocated_eq]
    cases (k.endpoints e).active <;> cases (k.endpoints e).retired <;> simp
  cases hfind : k.findFreeEndpoint with
  | none =>
    have hall := fun e => (htaken e).mp (findFreeEndpoint_none hfind e)
    have hx : exec h .findFreeEndpoint (k.setLock .table (some h)) =
        .ok none (k.setLock .table (some h)) := by
      rw [← hfind]
      rfl
    rw [createEndpoint, locked_same (hfree _) (run_perform_ok hx)] at hr
    cases hr
    refine ⟨by simpa using hall, ?_, fun _ => rfl⟩
    simpa using fun e he => (hall e).resolve_left (by simp [he])
  | some e =>
    obtain ⟨hal, hret, -⟩ := findFreeEndpoint_some hfind
    have hactive : (k.endpoints e).active = false := by
      have halloc := (hi.slots e).allocated_eq
      rw [hal, hret, Bool.or_false] at halloc
      exact halloc.symm
    rcases createEndpoint_run hr with ⟨hnone, -⟩ | ⟨e', k0, -, -, rfl, -⟩
    · rw [hfind] at hnone
      cases hnone
    · refine ⟨?_, by simpa using ⟨e, hactive, hret⟩, by simp⟩
      simpa using ⟨e, by simp [hactive, hret]⟩

end Exact

/-- **The error codes of the endpoint manager are exact, and a call that fails has no
effect.**  This holds in every reachable state, for every handle and every caller. -/
theorem ipc_errors_exact {platform : Platform} {count : ℕ} {c : TaskRef}
    (hr : Run legal platform count k) (hcur : (k.harts h).currentTask = some c) (tid : TaskId)
    (handle : Word) (words : Fin 4 → Word) (clock : Clock) :
    (∃ code k', (destroyEndpoint tid handle).run (exec h) k = .ok code k' ∧
      DestroyExact k tid handle code k') ∧
    (∃ code k', (send tid handle words).run (exec h) k = .ok code k' ∧
      SendExact k handle code k') ∧
    (∃ result k', (tryRecv handle).run (exec h) k = .ok result k' ∧
      TryRecvExact k handle result k') ∧
    ((k.tasks c).idle = false →
      ∃ status k', (recv h c handle clock).run (exec h) k = .ok status k' ∧
        RecvExact k c handle status k') ∧
    ∃ result k', (createEndpoint tid).run (exec h) k = .ok result k' ∧ CreateExact k result k' := by
  obtain ⟨loc, hq⟩ := hr.quiescent
  obtain ⟨w, hw, -⟩ := hq.inv.queues.wait
  obtain ⟨i, ⟨hrun, hcpu⟩, hat⟩ := ((hq.rest h).alone hq.unlocked).caller hcur
  refine ⟨?_, ?_, ?_, fun hidle => ?_, ?_⟩
  · obtain ⟨code, k', hx⟩ := returns_of_outline (outline_destroyEndpoint rfl tid handle)
      ((destroyEndpoint_neutral tid handle).imp work_of_neutral) hq.inv hat
    exact ⟨code, k', hx, destroyExact hw hq.unlocked hx⟩
  · obtain ⟨code, k', hx⟩ := returns_of_outline (outline_send rfl tid handle words)
      ((send_neutral tid handle words).imp work_of_neutral) hq.inv hat
    exact ⟨code, k', hx, sendExact hw hq.unlocked hx⟩
  · obtain ⟨result, k', hx⟩ := returns_of_outline (outline_tryRecv rfl handle)
      ((tryRecv_neutral handle).imp work_of_neutral) hq.inv hat
    exact ⟨result, k', hx, tryRecvExact hw hq.unlocked hx⟩
  · have hcall : Calling h i c (k.tasks c) :=
      ⟨hrun, hcpu, hidle, hat.ne_idle hq.inv (caller_self i c _) hidle⟩
    obtain ⟨status, k', hx⟩ := returns_of_outline (outline_recv hcall handle clock)
      ((recv_quiet c handle clock).imp work_of_quiet) hq.inv hat
    exact ⟨status, k', hx, recvExact hw hq.unlocked hx⟩
  · obtain ⟨result, k', hx⟩ := returns_of_outline (outline_createEndpoint rfl tid)
      ((createEndpoint_neutral tid).imp work_of_neutral) hq.inv hat
    exact ⟨result, k', hx, createExact hw hq.unlocked hx⟩

/-- The initial task receives on a handle that it made up. -/
theorem ipc_errors_exact_sample :
    ∃ status k', (recv 0 1 7 .zero).run (exec 0) sampleBoot = .ok status k' ∧
      RecvExact sampleBoot 1 7 status k' :=
  (ipc_errors_exact (h := 0) (c := 1) (.boot sampleBoot_eq : Run True .sample 1 sampleBoot)
    (by decide +kernel) 2 7 (fun _ => 0) .zero).2.2.2.1 (by decide +kernel)

end Jixia
