/-
What the queue operations do, in terms of what the hart holds.

Giving a task to a queue and taking one out, for the run queues and the delay
queues.
-/
import Jixia.ActionSpecs

namespace Jixia

open Machine Proc Function

variable {solo legal : Prop} {h : HartIndex} {S : Holding} {F G : Kernel → Loc → Prop}
  {t : TaskRef} {x : Task} {k k' : Kernel} {loc : Loc} {p : Place}

/-! ### What the hart holds after a move -/

/-- Of the tasks and the records of the hart `h`, only the task `t` is touched. -/
structure Touches (h : HartIndex) (k k' : Kernel) (loc : Loc) (t : TaskRef) : Prop where
  harts : k'.harts = k.harts
  locks : k'.locks = k.locks
  others : ∀ u, u ≠ t → loc u = some (.own h) → k'.tasks u = k.tasks u

theorem Moved.touches (hm : Moved k k' loc t) : Touches h k k' loc t :=
  ⟨by rw [hm.rest], by rw [hm.rest], fun u hu hown => hm.exact u hu (by simp [Unqueued, hown])⟩

/-- The task `t` comes to a new place. -/
theorem At.relocate {p : Option Place} {T : Option Task} {R : Option TaskRef}
    (hat : At solo h S F k loc) (ht : Touches h k k' loc t)
    (howned : ∀ y, T = some y → p = some (.own h) ∧ k'.tasks t = y)
    (honly : p = some (.own h) → T = none → t = S.idle)
    (hreaped : ∀ u, R = some u ↔ if u = t then p = some (.reaped h) else S.reaped = some u)
    (hg : G k' (update loc t p)) :
    At solo h { S with tasks := update S.tasks t T, reaped := R } G k'
      (update loc t p) := by
  refine ⟨by rw [ht.harts]; exact hat.bound, by rw [ht.harts]; exact hat.idle,
    by rw [ht.harts]; exact hat.current, fun u y hy => ?_, fun u hu hn => ?_, fun u => ?_,
    fun l => by rw [ht.locks]; exact hat.locks l, fun hs => by rw [ht.locks]; exact hat.alone hs,
    hg⟩
  · change update S.tasks t T u = some y at hy
    by_cases hut : u = t
    · rw [hut, update_self] at hy
      rw [hut, update_self]
      exact howned y hy
    · rw [update_of_ne hut] at hy
      obtain ⟨hou, hru⟩ := hat.owned u y hy
      rw [update_of_ne hut, ht.others u hut hou]
      exact ⟨hou, hru⟩
  · change update S.tasks t T u = none at hn
    by_cases hut : u = t
    · rw [hut, update_self] at hu hn
      exact hut.trans (honly hu hn)
    · rw [update_of_ne hut] at hu hn
      exact hat.only u hu hn
  · rw [hreaped]
    by_cases hut : u = t
    · rw [if_pos hut, hut, update_self]
    · rw [if_neg hut, update_of_ne hut]
      exact hat.reaped u

/-- Nothing changes for the tasks that are being freed. -/
theorem At.reaped_ite (hat : At solo h S F k loc) {p : Option Place}
    (hold : loc t ≠ some (.reaped h)) (hp : p ≠ some (.reaped h)) (u : TaskRef) :
    S.reaped = some u ↔ if u = t then p = some (.reaped h) else S.reaped = some u := by
  by_cases hut : u = t
  · rw [if_pos hut, hut, ← hat.reaped]
    exact iff_of_false hold hp
  · rw [if_neg hut]

/-- A held task is given away. -/
theorem At.give (hat : At solo h S F k loc) (ht : Touches h k k' loc t) (hx : S.tasks t = some x)
    (hp : p ≠ .own h ∧ p ≠ .reaped h)
    (hg : G k' (update loc t (some p))) :
    At solo h (S.drop t) G k' (update loc t (some p)) := by
  have hown := (hat.owned t x hx).1
  refine hat.relocate ht (fun y hy => nomatch hy) (fun hh => absurd (Option.some.inj hh) hp.1)
    (hat.reaped_ite (by simp [hown]) fun hh => hp.2 (Option.some.inj hh)) hg

/-- A task that is in the hands of nobody is not held. -/
theorem At.not_held (hat : At solo h S F k loc) (ht : loc t ≠ some (.own h)) :
    S.tasks t = none := by
  rw [Option.eq_none_iff_forall_ne_some]
  exact fun y hy => ht (hat.owned t y hy).1

/-- The hart takes a task. -/
theorem At.take (hat : At solo h S F k loc) (ht : Touches h k k' loc t)
    (hold : loc t ≠ some (.reaped h)) (hg : G k' (update loc t (some (.own h)))) :
    At solo h (S.hold t (k'.tasks t)) G k' (update loc t (some (.own h))) :=
  hat.relocate ht (fun _ hy => ⟨rfl, Option.some.inj hy⟩) (fun _ hn => nomatch hn)
    (hat.reaped_ite hold (by simp)) hg

/-- A place that frames say nothing about. -/
def Unviewed : Option Place → Prop
  | some (.wait _) | some (.delay _) | some .join => False
  | _ => True

theorem SameView.update {p : Option Place} (hold : Unviewed (loc t)) (hnew : Unviewed p)
    (he : k'.endpoints = k.endpoints) (ha : k'.slotAllocated = k.slotAllocated) :
    SameView k loc k' (update loc t p) := by
  have hsame : ∀ y, ¬ Unviewed (some y) → ∀ u,
      Function.update loc t p u = some y ↔ loc u = some y := by
    intro y hy u
    by_cases hu : u = t
    · subst hu
      rw [update_self]
      exact iff_of_false (fun hh => hy (hh ▸ hnew)) fun hh => hy (hh ▸ hold)
    · rw [update_of_ne hu]
  exact ⟨he, ha, fun u e => hsame _ id u, fun u q => hsame _ id u, hsame _ id⟩

/-- One task less is in the place `p`. -/
theorem card_take {p p' : Place} (ht : loc t = some p) (hp : p' ≠ p) :
    (Finset.univ.filter fun u => update loc t (some p') u = some p).card <
      (Finset.univ.filter fun u => loc u = some p).card := by
  refine Finset.card_lt_card ((Finset.ssubset_iff_of_subset fun u hu => ?_).mpr ⟨t, ?_, ?_⟩)
  · rw [Finset.mem_filter_univ] at hu ⊢
    by_cases hut : u = t
    · rw [hut]
      exact ht
    · rwa [update_of_ne hut] at hu
  · rw [Finset.mem_filter_univ]
    exact ht
  · rw [Finset.mem_filter_univ, update_self]
    exact fun hh => hp (Option.some.inj hh)

/-- The promise of a list operation. -/
theorem Moved.guar (hm : Moved k k' loc t) (hold : Entitled h k (loc t))
    (hnew : Entitled h k (some p)) (hact : ∀ e, p = .wait e → (k.endpoints e).active = true)
    (hep : ∀ e, k.locks (.endpoint e) ≠ some h → k'.endpoints e = k.endpoints e)
    (hret : ∀ e, (k'.endpoints e).retired = (k.endpoints e).retired) :
    Guar h k loc k' (update loc t (some p)) := by
  refine guar_of_move (.moved hm (fun j hj => ?_) hep hret) hold hnew
    fun e he => hact e (Option.some.inj he)
  constructor
  all_goals
    intro hh
    rw [hh] at hold
    exact hj hold

/-! ### Run queues -/

/-- Publish a task in a run queue. -/
theorem outline_runQueueInsert [hF : Frame h S.locks F] (q : RunQueueRef) (hx : S.tasks t = some x)
    (hidle : x.idle = false) (hstate : x.state ≠ .ended) :
    Outline solo legal h (perform (.runQueueInsert q t)) (At solo h S F) fun b k loc =>
      b = true ∧ At solo h (S.drop t) F k loc ∧ (solo → loc t ≠ none) := by
  refine outline_perform (fun b => (Contract.Stable.const _).and ((At.stable (S.drop t) F).and ?_))
    fun k loc hi hat => ?_
  · rintro k loc k' loc' - - ⟨-, hsolo⟩ hp hs
    rw [(hsolo hs).2]
    exact hp hs
  obtain ⟨hown, hrec⟩ := hat.owned t x hx
  obtain ⟨hq, hd, hw⟩ := hi.unqueued_of_own hown
  obtain ⟨r, hr, hmem⟩ := hi.queues.run
  have hst : (k.tasks t).state ≠ .ended := hrec ▸ hstate
  have hexec : exec h (.runQueueInsert q t) k = .ok true (k.enqueued q t (r q)) := by
    show Outcome.total (k.runQueueInsert q t) = _
    rw [hr.runQueueInsert_eq (by simp [hq, hd, hw, hst])]
    rfl
  have hm : Moved k (k.enqueued q t (r q)) loc t := .enqueued hmem
  have hself := enqueued_self k q t (r q)
  have hplaced : Placed (k.enqueued q t (r q)) ((k.enqueued q t (r q)).tasks t) (.run q) := by
    have hp := hi.placed t _ hown
    have hcpu : ((k.enqueued q t (r q)).tasks t).cpu = (k.tasks t).cpu :=
      show ((k.enqueued q t (r q)).tasks t).core.cpu = _ by rw [hself]; rfl
    have hpin : ((k.enqueued q t (r q)).tasks t).affinityPinned = (k.tasks t).affinityPinned :=
      show ((k.enqueued q t (r q)).tasks t).core.affinityPinned = _ by rw [hself]; rfl
    refine ⟨?_, hpin.trans hp.pinned, fun _ => ?_, ?_⟩
    · rw [hcpu]
      exact hp.cpu
    · rw [hm.self.2.2, hrec]
      exact hidle
    · exact show ((k.enqueued q t (r q)).tasks t).core.state = _ by rw [hself]
  refine ⟨hown, true, _, hexec, ?_, ?_, rfl, ?_, fun _ => ?_⟩
  · exact hi.move hm hown rfl rfl (hi.queues.enqueued hr hmem hown) hplaced (hrec ▸ hidle)
      fun _ he => nomatch he
  · exact hm.guar (by rw [hown]; rfl) trivial (fun _ he => nomatch he) (fun _ _ => rfl)
      fun _ => rfl
  · exact hat.give hm.touches hx ⟨Place.noConfusion, Place.noConfusion⟩
      (hF.view (SameView.update (k := k) (by rw [hown]; trivial) trivial rfl rfl) hat.frame)
  · rw [show track h (.runQueueInsert q t) true loc t = some (.run q) from update_self ..]
    exact Option.some_ne_none _

/-- Take the first task of a run queue. -/
theorem outline_runQueueRemove [hF : Frame h S.locks F] (q : RunQueueRef) :
    Outline solo legal h (perform (.runQueueRemove q)) (At solo h S F) fun b k loc =>
      (b = none ∧ At solo h S F k loc) ∨
      ∃ t x, (b = some t ∧ x.state = .ready ∧ x.idle = false ∧ S.tasks t = none) ∧
        At solo h (S.hold t x) F k loc := by
  refine outline_perform (fun b => .or ((Contract.Stable.const _).and (At.stable S F))
    (.exists fun t => .exists fun x => (Contract.Stable.const _).and
      (At.stable (S.hold t x) F))) fun k loc hi hat => ?_
  obtain ⟨r, hr, hmem⟩ := hi.queues.run
  cases hl : r q with
  | nil =>
    have hexec : exec h (.runQueueRemove q) k = .ok none k := hr.runQueueRemove_nil hl
    exact ⟨trivial, none, k, hexec, hi, guar_of_private (.refl h k loc), .inl ⟨rfl, hat⟩⟩
  | cons t rest =>
    have ht : loc t = some (.run q) := (hmem q t).mp (by rw [hl]; exact List.mem_cons_self)
    have hp := hi.placed t _ ht
    have hst : (k.tasks t).state = .ready := hp.state
    have hidle : (k.tasks t).idle = false := hp.idle rfl
    have hd : (k.tasks t).delay.queued = false := by
      rw [← Bool.not_eq_true, hi.delay_iff, ht]
      simp
    have hw : (k.tasks t).messageWait.queued = false := by
      rw [← Bool.not_eq_true, hi.wait_iff, ht]
      simp
    have hexec : exec h (.runQueueRemove q) k = .ok (some t) (k.dequeued q t rest) := by
      show k.runQueueRemove q = _
      rw [hr.runQueueRemove_cons hl]
      exact if_neg (by simp [hst, hd, hw])
    have hm : Moved k (k.dequeued q t rest) loc t := .dequeued hr hmem hl
    have hplaced : Placed (k.dequeued q t rest) ((k.dequeued q t rest).tasks t) (.own h) := by
      refine ⟨?_, ?_, (fun ho => nomatch ho), trivial⟩
      · exact hp.cpu
      · exact hp.pinned
    have hnone := hat.not_held (t := t) (by simp [ht])
    have hkeep := hat.take (G := F) hm.touches (by simp [ht])
      (hF.view (SameView.update (k := k) (by rw [ht]; trivial) trivial rfl rfl) hat.frame)
    refine ⟨trivial, some t, _, hexec, ?_, ?_, .inr ⟨t, _, ⟨rfl, ?_, ?_, hnone⟩, hkeep⟩⟩
    · exact hi.move hm ht rfl rfl (hi.queues.dequeued hr hmem hl) hplaced hidle
        fun _ he => nomatch he
    · exact hm.guar (by rw [ht]; trivial) rfl (fun _ he => nomatch he) (fun _ _ => rfl)
        fun _ => rfl
    · exact hst
    · exact hidle

/-! ### Delay queues -/

/-- The task sleeps in the delay queue of the hart. -/
def Sleeping (h : HartIndex) (t : TaskRef) (_ : Kernel) (loc : Loc) : Prop :=
  loc t = some (.delay h)

instance {L : List Lock} : Frame h L (Sleeping h t) :=
  ⟨fun hv => (hv.delay t h).mpr, fun _ hr => (hr.delay t).mpr⟩

/-- Fewer than `n` tasks sleep in the delay queue of the hart. -/
def SleepersBelow (h : HartIndex) (n : ℕ) (_ : Kernel) (loc : Loc) : Prop :=
  (Finset.univ.filter fun t => loc t = some (.delay h)).card < n

instance {n : ℕ} {L : List Lock} : Frame h L (SleepersBelow h n) where
  view hv hs := by
    rw [SleepersBelow, Finset.filter_congr fun t _ => hv.delay t h]
    exact hs
  stable _ hr hs := by
    rw [SleepersBelow, Finset.filter_congr fun t _ => hr.delay t]
    exact hs

/-- Put a task to sleep. -/
theorem outline_delayQueueInsert (deadline : Word) (hx : S.tasks t = some x)
    (hidle : x.idle = false) (hstate : x.state = .blockedSleep) :
    Outline solo legal h (perform (.delayQueueInsert h t deadline)) (At solo h S F) fun b k loc =>
      b = true ∧ At solo h (S.drop t) (Sleeping h t) k loc := by
  refine outline_perform (fun b => (Contract.Stable.const _).and
    (At.stable (S.drop t) (Sleeping h t))) fun k loc hi hat => ?_
  obtain ⟨hown, hrec⟩ := hat.owned t x hx
  obtain ⟨hq, hd, -⟩ := hi.unqueued_of_own hown
  obtain ⟨d, hl, hmem⟩ := hi.queues.delay
  have hst : (k.tasks t).state = .blockedSleep := hrec ▸ hstate
  have hnot : (k.tasks t).idle = false := hrec ▸ hidle
  have hexec : exec h (.delayQueueInsert h t deadline) k = _ :=
    hl.delayQueueInsert_eq (q := h) (by simp [hq, hd, hst])
  have hsplit : d h = (d h).takeWhile (fun u => decide (k.deadline u ≤ deadline)) ++
      (d h).dropWhile fun u => decide (k.deadline u ≤ deadline) :=
    List.takeWhile_append_dropWhile.symm
  have hm : Moved k (k.delayed h t deadline _ _) loc t := .delayed hsplit hmem
  have hp := hi.placed t _ hown
  refine ⟨hown, true, _, hexec, ?_, ?_, rfl, ?_⟩
  · exact hi.move hm hown rfl rfl (hi.queues.delayed hl hmem hown)
      ⟨hp.cpu, hp.pinned, fun _ => hnot, hst⟩ hnot fun _ he => nomatch he
  · exact hm.guar (by rw [hown]; rfl) rfl (fun _ he => nomatch he) (fun _ _ => rfl) fun _ => rfl
  · exact hat.give hm.touches hx ⟨Place.noConfusion, Place.noConfusion⟩ (update_self ..)

/-- Take the first sleeper that is due. -/
theorem outline_delayQueueRemoveExpired {n : ℕ} (now : Word) :
    Outline solo legal h (perform (.delayQueueRemoveExpired h now))
      (At solo h S (SleepersBelow h (n + 1))) fun b k loc =>
        (b = none ∧ At solo h S (SleepersBelow h (n + 1)) k loc) ∨
        ∃ t x, (b = some t ∧ x.state = .blockedSleep ∧ x.idle = false ∧ S.tasks t = none) ∧
          At solo h (S.hold t x) (SleepersBelow h n) k loc := by
  refine outline_perform (fun b => .or ((Contract.Stable.const _).and (At.stable S _))
    (.exists fun t => .exists fun x => (Contract.Stable.const _).and
      (At.stable (S.hold t x) _))) fun k loc hi hat => ?_
  obtain ⟨d, hd, hmem⟩ := hi.queues.delay
  have hcases : exec h (.delayQueueRemoveExpired h now) k = .ok none k ∨
      ∃ t rest, d h = t :: rest ∧
        exec h (.delayQueueRemoveExpired h now) k = .ok (some t) (k.undelayed h t rest) := by
    cases hl : d h with
    | nil => exact .inl (congrArg Outcome.total (hd.delayQueueRemoveExpired_nil hl))
    | cons t rest =>
      have hx : k.delayQueueRemoveExpired h now = _ := hd.delayQueueRemoveExpired_cons hl
      by_cases hdue : k.deadline t > now
      · rw [if_pos hdue] at hx
        exact .inl (congrArg Outcome.total hx)
      · rw [if_neg hdue] at hx
        exact .inr ⟨t, rest, rfl, congrArg Outcome.total hx⟩
  rcases hcases with hexec | ⟨t, rest, hl, hexec⟩
  · exact ⟨trivial, none, k, hexec, hi, guar_of_private (.refl h k loc), .inl ⟨rfl, hat⟩⟩
  · have ht : loc t = some (.delay h) := (hmem h t).mp (by rw [hl]; exact List.mem_cons_self)
    have hp := hi.placed t _ ht
    have hm : Moved k (k.undelayed h t rest) loc t := .undelayed hd hmem hl
    have hless : SleepersBelow h n (k.undelayed h t rest)
        (update loc t (some (.own h))) :=
      (card_take ht Place.noConfusion).trans_le (Nat.le_of_lt_succ hat.frame)
    have hnone := hat.not_held (t := t) (by simp [ht])
    have hkeep := hat.take hm.touches (by simp [ht]) hless
    refine ⟨trivial, some t, _, hexec, ?_, ?_,
      .inr ⟨t, (k.undelayed h t rest).tasks t, ⟨rfl, hp.state, hp.idle rfl, hnone⟩, hkeep⟩⟩
    · exact hi.move hm ht rfl rfl (hi.queues.undelayed hd hmem hl)
        ⟨hp.cpu, hp.pinned, (fun ho => nomatch ho), trivial⟩ (hp.idle rfl) fun _ he => nomatch he
    · exact hm.guar (by rw [ht]; rfl) rfl (fun _ he => nomatch he) (fun _ _ => rfl) fun _ => rfl

end Jixia
