import Cilk.Invocation.Refinement
import Cilk.Mutex

/-!
# Sending the workers home

`Cilk_terminate_children` sets `terminating` and broadcasts both conditions
the workers wait on. From then on every step brings the program nearer to
its end (`remaining_lt`), no worker goes to sleep again (`Awake`), and the
mutex is free unless its owner can go on (`exclusive`). So every run from
there is finite, and where it cannot go on every worker is out.
-/

namespace Cilk.Invocation

open Invocation.State

variable {n : ℕ}

/-! ## Mutual exclusion -/

/-- The places of a worker inside a critical section. -/
def WorkerPc.critical : WorkerPc → Bool
  | .waitTest | .doneBody => true
  | _ => false

/-- The places of the master inside a critical section. -/
def MasterPc.critical : MasterPc → Bool
  | .wakeupBody | .doneTest | .terminateBody => true
  | _ => false

namespace State

/-- Whether a thread is inside a critical section. -/
def critical (s : State n) : Agent n → Bool
  | .master => s.master.critical
  | .worker w => (s.worker w).pc.critical

/-- `workers_mutex` is held by the thread inside a critical section. -/
def Exclusive (s : State n) : Prop := Mutex.Exclusive s.mutex s.critical

end State

namespace State

theorem critical_gotoWith_self (s : State n) (w : Fin n) (pc : WorkerPc) (t : Bool) :
    (s.gotoWith w pc t).critical (.worker w) = pc.critical := by
  simp only [critical, gotoWith, Function.update_self]

theorem critical_gotoWith_of_ne (s : State n) {w : Fin n} (pc : WorkerPc) (t : Bool) {a : Agent n}
    (ha : a ≠ .worker w) : (s.gotoWith w pc t).critical a = s.critical a := by
  cases a with
  | master => rfl
  | worker u =>
    have hu : u ≠ w := fun he => ha (he ▸ rfl)
    simp only [critical, gotoWith, Function.update_of_ne hu]

/-- A step of a worker outside the critical sections. -/
theorem critical_gotoWith_same (s : State n) {w : Fin n} {pc : WorkerPc} {t : Bool}
    (h : pc.critical = (s.worker w).pc.critical) (a : Agent n) :
    (s.gotoWith w pc t).critical a = s.critical a := by
  by_cases ha : a = .worker w
  · rw [ha, critical_gotoWith_self, h]
    rfl
  · exact critical_gotoWith_of_ne s pc t ha

theorem critical_wake (s : State n) (cond : Fin n → Bool) (a : Agent n) :
    (s.wake cond).critical a = s.critical a := by
  cases a with
  | master => rfl
  | worker w =>
    simp only [critical, wake]
    split_ifs with hw
    · simp only [Bool.and_eq_true, beq_iff_eq] at hw
      rw [hw.2]
      rfl
    · rfl

end State

/-- **The mutex excludes**, through every step of the master. -/
theorem masterStep_exclusive {start : Bool} {s s' : State n} (hc : Created s) (h : s.Exclusive)
    (hst : masterStep start s = some s') : s'.Exclusive := by
  have hself : s.critical .master = s.master.critical := rfl
  cases hm : s.master with
  | createChildren i =>
    simp only [masterStep, hm] at hst
    split_ifs at hst with hi
    · cases hst
      have hborn : (s.worker ⟨i, hi⟩).pc = .unborn := (hc _).mpr ⟨i, hm, le_rfl⟩
      refine Mutex.Exclusive.same h (fun a => ?_)
      cases a with
      | master => simp only [critical, hm]; rfl
      | worker u =>
        exact critical_gotoWith_same s (by simp only [hborn]; rfl) (.worker u)
    · cases hst
      exact Mutex.Exclusive.same h (fun a => by cases a <;> simp only [critical, hm]; rfl)
  | wakeupBroadcast | terminateBroadcastFirst =>
    simp only [masterStep, hm, Option.some.injEq] at hst
    subst hst
    refine Mutex.Exclusive.same h (fun a => ?_)
    cases a with
    | master => simp only [critical, hm]; rfl
    | worker u => exact critical_wake s (fun w => w.val == 0) (.worker u)
  | terminateBroadcastOthers =>
    simp only [masterStep, hm, Option.some.injEq] at hst
    subst hst
    refine Mutex.Exclusive.same h (fun a => ?_)
    cases a with
    | master => simp only [critical, hm]; rfl
    | worker u => exact critical_wake s (fun w => w.val != 0) (.worker u)
  | wakeupLock | doneLock | doneWoken | terminateLock =>
    simp only [masterStep, hm] at hst
    split_ifs at hst with hfree
    cases hst
    refine Mutex.Exclusive.lock h .master hfree (fun b hb => ?_) rfl
    cases b <;> first | rfl | exact absurd rfl hb
  | wakeupBody | terminateBody =>
    simp only [masterStep, hm, Option.some.injEq] at hst
    subst hst
    refine Mutex.Exclusive.unlock h .master (by rw [hself, hm]; rfl) (fun b hb => ?_) rfl
    cases b <;> first | rfl | exact absurd rfl hb
  | doneTest =>
    simp only [masterStep, hm] at hst
    split_ifs at hst
    all_goals
      cases hst
      refine Mutex.Exclusive.unlock h .master (by rw [hself, hm]; rfl) (fun b hb => ?_) rfl
      cases b <;> first | rfl | exact absurd rfl hb
  | _ =>
    simp only [masterStep, hm] at hst
    try split_ifs at hst
    all_goals
      cases hst <;> refine Mutex.Exclusive.same h (fun a => ?_) <;> cases a <;> simp only [critical, hm] <;> rfl

/-- **The mutex excludes**, through every step of a worker. -/
theorem workerStep_exclusive {w : Fin n} {s s' : State n} (h : s.Exclusive)
    (hst : workerStep w s = some s') : s'.Exclusive := by
  have hself : s.critical (.worker w) = (s.worker w).pc.critical := rfl
  -- a step that moves `w` alone, between places outside the critical sections
  have hmove : ∀ (t : State n) (pc : WorkerPc) (b : Bool), t.mutex = s.mutex →
      (∀ a, t.critical a = s.critical a) → pc.critical = (s.worker w).pc.critical →
      (t.gotoWith w pc b).Exclusive := by
    intro t pc b hm hc hpc
    rw [State.Exclusive, show (t.gotoWith w pc b).mutex = s.mutex from hm]
    refine Mutex.Exclusive.same h (fun a => ?_)
    exact (critical_gotoWith_same t (hpc.trans (hc (.worker w)).symm) a).trans (hc a)
  cases hpc : (s.worker w).pc with
  | unborn | waitAsleep | exited =>
    simp only [workerStep, hpc, reduceCtorEq] at hst
  | createWorkerState | loopTest | cleanup =>
    simp only [workerStep, hpc, Option.some.injEq] at hst
    subst hst
    exact hmove s _ _ rfl (fun _ => rfl) (by rw [hpc]; first | rfl | split_ifs <;> rfl)
  | waitLock | waitWoken | doneLock =>
    simp only [workerStep, hpc] at hst
    split_ifs at hst with hfree
    cases hst
    refine Mutex.Exclusive.lock h (.worker w) hfree (fun b hb => ?_) ?_
    · exact critical_gotoWith_of_ne { s with mutex := some (.worker w) } _ _ hb
    · exact critical_gotoWith_self { s with mutex := some (.worker w) } w _ _
  | waitTest =>
    have hleave : ∀ (t : State n) (pc : WorkerPc) (b : Bool), t.mutex = none →
        (∀ a, t.critical a = s.critical a) → pc.critical = false → (t.gotoWith w pc b).Exclusive := by
      intro t pc b hm hc hout
      rw [State.Exclusive, show (t.gotoWith w pc b).mutex = none from hm]
      refine Mutex.Exclusive.unlock h (.worker w) (by rw [hself, hpc]; rfl) (fun a ha => ?_) ?_
      · rw [critical_gotoWith_of_ne t pc b ha, hc]
      · rw [critical_gotoWith_self, hout]
    simp only [workerStep, hpc] at hst
    split_ifs at hst
    all_goals
      cases hst
      exact hleave _ _ _ rfl (fun a => by cases a <;> rfl) rfl
  | broadcastOthers =>
    simp only [workerStep, hpc, Option.some.injEq] at hst
    subst hst
    exact hmove _ _ _ rfl (critical_wake s _) (by rw [hpc]; rfl)
  | enterTest =>
    simp only [workerStep, hpc, Option.some.injEq] at hst
    split_ifs at hst
    · subst hst
      exact hmove s _ _ rfl (fun _ => rfl) (by rw [hpc]; rfl)
    · subst hst
      exact hmove _ _ _ rfl (fun a => by cases a <;> rfl) (by rw [hpc]; rfl)
  | scheduler k =>
    simp only [workerStep, hpc] at hst
    split_ifs at hst
    cases hst
    exact hmove s _ _ rfl (fun _ => rfl) (by rw [hpc]; rfl)
  | doneBody =>
    simp only [workerStep, hpc, Option.some.injEq, workerIsDone_eq] at hst
    subst hst
    refine Mutex.Exclusive.unlock h (.worker w) (by rw [hself, hpc]; rfl) (fun b hb => ?_) ?_
    · rw [critical_gotoWith_of_ne _ _ _ hb]
      cases b with
      | worker u => rfl
      | master =>
        show MasterPc.critical (if _ then _ else _) = _
        split_ifs with hm
        · simp only [critical, hm.2]
          rfl
        · rfl
    · exact critical_gotoWith_self _ w _ _

theorem exclusive_reachable {done : Bool} {s : State n} (hs : (protocol n done).Reachable s) :
    s.Exclusive := by
  refine hs.invariant (P := State.Exclusive) ?_ (fun s s' a hr h hst => ?_)
  · exact fun a => iff_of_false nofun (by cases a <;> nofun)
  · cases a with
    | master start => exact masterStep_exclusive (.reachable hr) h hst
    | worker w => exact workerStep_exclusive h hst
    | spuriousMaster =>
      simp only [protocol, step] at hst
      split_ifs at hst with hm
      cases hst
      refine Mutex.Exclusive.same h (fun a => ?_)
      cases a <;> simp only [critical, hm]
      rfl
    | spuriousWorker w =>
      simp only [protocol, step] at hst
      split_ifs at hst with hw
      cases hst
      exact Mutex.Exclusive.same h (critical_gotoWith_same s (by rw [hw]; rfl))
    | setDone =>
      simp only [protocol, step] at hst
      split_ifs at hst
      cases hst
      exact Mutex.Exclusive.same h (fun a => by cases a <;> rfl)

/-! ## Once `terminating` is set -/

/-- The steps a worker has left to take once `terminating` is set, at most. -/
def Worker.remaining (w : Worker) : ℕ :=
  match w.pc with
  | .unborn | .scheduler _ | .doneLock | .doneBody | .exited => 0
  | .cleanup => 1
  | .loopTest => if w.localTerminating then 2 else 7
  | .enterTest => 3
  | .broadcastOthers => 4
  | .waitTest => 5
  | .waitLock | .waitWoken => 6
  | .waitAsleep => 7
  | .createWorkerState => 8

/-- The steps the master has left to take once `terminating` is set. -/
def MasterPc.remaining (n : ℕ) : MasterPc → ℕ
  | .terminateBroadcastFirst => n + 3
  | .terminateBroadcastOthers => n + 2
  | .join i => n - i + 1
  | _ => 0

namespace State

/-- The steps the workers have left to take. -/
def workersRemaining (s : State n) : ℕ := ∑ w, (s.worker w).remaining

/-- The steps the program has left to take once `terminating` is set. -/
def remaining (s : State n) : ℕ :=
  s.workersRemaining + s.master.remaining n + (!s.done).toNat

theorem workersRemaining_gotoWith (s : State n) {w : Fin n} {pc : WorkerPc} {t : Bool}
    (h : Worker.remaining ⟨pc, t⟩ < (s.worker w).remaining) :
    (s.gotoWith w pc t).workersRemaining < s.workersRemaining := by
  refine Finset.sum_lt_sum (fun u _ => ?_) ⟨w, Finset.mem_univ w, ?_⟩
  · rcases eq_or_ne u w with rfl | hu
    · simpa only [gotoWith, Function.update_self] using h.le
    · simp only [gotoWith, Function.update_of_ne hu, le_refl]
  · simpa only [gotoWith, Function.update_self] using h

theorem workersRemaining_wake (s : State n) (cond : Fin n → Bool) :
    (s.wake cond).workersRemaining ≤ s.workersRemaining := by
  refine Finset.sum_le_sum (fun w _ => ?_)
  simp only [wake]
  split_ifs with h
  · simp only [Bool.and_eq_true, beq_iff_eq] at h
    simp [Worker.remaining, h.2]
  · exact le_rfl

end State

/-- **A program that terminates**: `terminating` is set, and nobody takes part
in an invocation. -/
structure Terminating (s : State n) : Prop where
  flag : s.terminating = true
  phase : s.master.phase = .terminating
  outside : ∀ w, (s.worker w).stage = .outside
  born : ∀ w, (s.worker w).pc ≠ .unborn

namespace Terminating

variable {s s' : State n}

theorem of_reachable {done : Bool} (hs : (protocol n done).Reachable s)
    (ht : s.terminating = true) : Terminating s := by
  have hsound := sound_round hs
  have hphase : s.master.phase = .terminating := hsound.terminating.mp ht
  refine ⟨ht, hphase, (hsound.quiet ?_).2, (Created.reachable hs).ne_unborn (fun i hi => ?_)⟩
  · simp only [toRound, hphase, ne_eq, reduceCtorEq, not_false_eq_true]
  · simp only [hi, MasterPc.phase, reduceCtorEq] at hphase

/-- Where a worker can be. -/
theorem worker_cases (h : Terminating s) (w : Fin n) :
    (∀ k, (s.worker w).pc ≠ .scheduler k) ∧ (s.worker w).pc ≠ .doneLock ∧
      (s.worker w).pc ≠ .doneBody ∧
      ((s.worker w).pc = .enterTest → (s.worker w).localTerminating = true) := by
  have hout := h.outside w
  simp only [Worker.stage] at hout
  refine ⟨fun k hk => ?_, fun hk => ?_, fun hk => ?_, fun hk => ?_⟩
  all_goals simp [hk] at hout
  exact hout

/-- The master is one of four places from the end. -/
theorem master_cases (h : Terminating s) :
    s.master = .terminateBroadcastFirst ∨ s.master = .terminateBroadcastOthers ∨
      (∃ i, s.master = .join i) ∨ s.master = .terminated := by
  have hp := h.phase
  cases hm : s.master with
  | terminateBroadcastFirst => exact .inl rfl
  | terminateBroadcastOthers => exact .inr (.inl rfl)
  | join i => exact .inr (.inr (.inl ⟨i, rfl⟩))
  | terminated => exact .inr (.inr (.inr rfl))
  | _ => simp only [hm, MasterPc.phase, reduceCtorEq] at hp

theorem master_lt {m : MasterPc} {cond : Fin n → Bool}
    (hm : m.remaining n < s.master.remaining n) :
    ({ s.wake cond with master := m } : State n).remaining < s.remaining :=
  Nat.add_lt_add_right (Nat.add_lt_add_of_le_of_lt (workersRemaining_wake s cond) hm) _

theorem masterStep_lt (h : Terminating s) {start : Bool} (hst : masterStep start s = some s') :
    s'.remaining < s.remaining := by
  obtain hm | hm | ⟨i, hm⟩ | hm := h.master_cases
  · simp only [masterStep, hm, Option.some.injEq] at hst
    subst hst
    exact master_lt (by simp [hm, MasterPc.remaining])
  · simp only [masterStep, hm, Option.some.injEq] at hst
    subst hst
    exact master_lt (by simp [hm, MasterPc.remaining])
  · simp only [masterStep, hm] at hst
    split_ifs at hst with hi hex
    all_goals
      cases hst
      simp only [remaining, hm, MasterPc.remaining, workersRemaining]
      omega
  · simp only [masterStep, hm, reduceCtorEq] at hst

theorem gotoWith_lt {w : Fin n} {pc : WorkerPc} {t : Bool} {m : Option (Agent n)} {c : ℤ}
    (hw : Worker.remaining ⟨pc, t⟩ < (s.worker w).remaining) :
    ({ s with mutex := m, workersDoneCounter := c }.gotoWith w pc t).remaining < s.remaining := by
  have hlt := workersRemaining_gotoWith { s with mutex := m, workersDoneCounter := c } hw
  exact Nat.add_lt_add_right (Nat.add_lt_add_right hlt _) _

theorem workerStep_lt (h : Terminating s) {w : Fin n} (hst : workerStep w s = some s') :
    s'.remaining < s.remaining := by
  obtain ⟨hin, hdl, hdb, het⟩ := h.worker_cases w
  cases hpc : (s.worker w).pc with
  | unborn | waitAsleep | exited => simp only [workerStep, hpc, reduceCtorEq] at hst
  | scheduler k => exact absurd hpc (hin k)
  | doneLock => exact absurd hpc hdl
  | doneBody => exact absurd hpc hdb
  | createWorkerState | cleanup =>
    simp only [workerStep, hpc, Option.some.injEq] at hst
    subst hst
    exact gotoWith_lt (m := s.mutex) (c := s.workersDoneCounter) (by simp [Worker.remaining, hpc])
  | loopTest =>
    simp only [workerStep, hpc, Option.some.injEq] at hst
    subst hst
    refine gotoWith_lt (m := s.mutex) (c := s.workersDoneCounter) ?_
    cases hl : (s.worker w).localTerminating <;> simp [Worker.remaining, hpc, hl]
  | waitLock | waitWoken =>
    simp only [workerStep, hpc] at hst
    split_ifs at hst
    cases hst
    exact gotoWith_lt (c := s.workersDoneCounter) (by simp [Worker.remaining, hpc])
  | waitTest =>
    simp only [workerStep, hpc, h.flag, Bool.not_true, Bool.false_and, Bool.false_eq_true,
      if_false, Option.some.injEq] at hst
    subst hst
    refine gotoWith_lt (m := none) (c := s.workersDoneCounter + 1) ?_
    split_ifs <;> simp [Worker.remaining, hpc]
  | broadcastOthers =>
    simp only [workerStep, hpc, Option.some.injEq] at hst
    subst hst
    have hsame : (s.broadcastOthers.worker w) = s.worker w := by
      simp [broadcastOthers, wake, hpc]
    have hlt : Worker.remaining ⟨.enterTest, (s.broadcastOthers.worker w).localTerminating⟩ <
        (s.broadcastOthers.worker w).remaining := by simp [Worker.remaining, hsame, hpc]
    exact (gotoWith_lt (m := s.mutex) (c := s.workersDoneCounter) hlt).trans_le
      (Nat.add_le_add_right (Nat.add_le_add_right (workersRemaining_wake s _) _) _)
  | enterTest =>
    simp only [workerStep, hpc, het hpc, if_true, Option.some.injEq] at hst
    subst hst
    exact gotoWith_lt (m := s.mutex) (c := s.workersDoneCounter)
      (by simp [Worker.remaining, hpc, het hpc])

/-- **Every step brings the program nearer to its end.** -/
theorem remaining_lt (h : Terminating s) {a : Action n} (hst : step a s = some s') :
    s'.remaining < s.remaining := by
  cases a with
  | master start => exact h.masterStep_lt hst
  | worker w => exact h.workerStep_lt hst
  | spuriousMaster =>
    simp only [step] at hst
    split_ifs at hst with hm
    have hp := h.phase
    simp only [hm, MasterPc.phase, reduceCtorEq] at hp
  | spuriousWorker w =>
    simp only [step] at hst
    split_ifs at hst with hw
    cases hst
    exact gotoWith_lt (m := s.mutex) (c := s.workersDoneCounter) (by simp [Worker.remaining, hw])
  | setDone =>
    simp only [step] at hst
    split_ifs at hst with hd
    cases hst
    simp [remaining, workersRemaining, hd.2]

end Terminating

/-! ## Nobody sleeps through the termination -/

theorem workerStep_frame {w : Fin n} {s s' : State n} (hst : workerStep w s = some s') :
    s'.terminating = s.terminating ∧
      (s.master ≠ .doneAsleep → s'.master = s.master) := by
  cases hpc : (s.worker w).pc with
  | doneBody =>
    simp only [workerStep, hpc, Option.some.injEq, workerIsDone_eq] at hst
    subst hst
    exact ⟨rfl, fun hm => if_neg fun h => hm h.2⟩
  | _ =>
    simp only [workerStep, hpc] at hst
    try split_ifs at hst
    all_goals
      cases hst <;> exact ⟨rfl, fun _ => rfl⟩

/-- `terminating` is written by `Cilk_terminate_children` alone, which sets it. -/
theorem step_terminating {a : Action n} {s s' : State n} (hst : step a s = some s') :
    s'.terminating = s.terminating ∨
      s'.terminating = true ∧ s'.master = .terminateBroadcastFirst := by
  cases a with
  | master start =>
    cases hm : s.master with
    | terminateBody =>
      simp only [step, masterStep, hm, Option.some.injEq] at hst
      exact hst ▸ .inr ⟨rfl, rfl⟩
    | _ =>
      simp only [step, masterStep, hm] at hst
      try split_ifs at hst
      all_goals
        cases hst <;> exact .inl rfl
  | worker w => exact .inl (workerStep_frame hst).1
  | spuriousMaster | spuriousWorker _ | setDone =>
    simp only [step] at hst
    split_ifs at hst
    cases hst
    exact .inl rfl

/-- Once `terminating` is set, who sleeps will be woken up. -/
def Awake (s : State n) : Prop :=
  ∀ w, (s.worker w).pc = .waitAsleep → s.master = .terminateBroadcastFirst ∨
    s.master = .terminateBroadcastOthers ∧ w.val ≠ 0

theorem wake_asleep {s : State n} (cond : Fin n → Bool) {w : Fin n}
    (h : ((s.wake cond).worker w).pc = .waitAsleep) :
    (s.worker w).pc = .waitAsleep ∧ cond w = false := by
  simp only [wake] at h
  split_ifs at h with hw
  simp only [Bool.and_eq_true, beq_iff_eq, not_and] at hw
  refine ⟨h, ?_⟩
  by_contra hc
  exact hw (by simpa using hc) h

namespace Awake

variable {s s' : State n}

theorem masterStep (h : Awake s) (ht : Terminating s) {start : Bool}
    (hst : masterStep start s = some s') : Awake s' := by
  obtain hm | hm | ⟨i, hm⟩ | hm := ht.master_cases
  · simp only [Invocation.masterStep, hm, Option.some.injEq] at hst
    subst hst
    intro w hw
    have hc := (wake_asleep (s := s) (fun w => w.val == 0) hw).2
    exact .inr ⟨rfl, by simpa using hc⟩
  · simp only [Invocation.masterStep, hm, Option.some.injEq] at hst
    subst hst
    intro w hw
    obtain ⟨hw, hc⟩ := wake_asleep (s := s) (fun w => w.val != 0) hw
    have := h w hw
    simp only [hm, reduceCtorEq, false_or, true_and] at this
    exact absurd this (by simpa using hc)
  · have hnone : ∀ w, (s.worker w).pc ≠ .waitAsleep := fun w hw => by simpa [hm] using h w hw
    simp only [Invocation.masterStep, hm] at hst
    split_ifs at hst
    all_goals
      cases hst
      exact fun w hw => absurd hw (hnone w)
  · simp only [Invocation.masterStep, hm, reduceCtorEq] at hst

theorem gotoWith (h : Awake s) {t : State n} {w : Fin n} {pc : WorkerPc} {b : Bool}
    (hpc : pc ≠ .waitAsleep) (hm : t.master = s.master)
    (hw : ∀ u, (t.worker u).pc = .waitAsleep → (s.worker u).pc = .waitAsleep) :
    Awake (t.gotoWith w pc b) := by
  intro u hu
  rcases eq_or_ne u w with rfl | hne
  · simp only [State.gotoWith, Function.update_self] at hu
    exact absurd hu hpc
  · simp only [State.gotoWith, Function.update_of_ne hne] at hu
    simpa only [State.gotoWith, hm] using h u (hw u hu)

theorem workerStep (h : Awake s) (ht : Terminating s) {w : Fin n}
    (hst : workerStep w s = some s') : Awake s' := by
  obtain ⟨hin, hdl, hdb, het⟩ := ht.worker_cases w
  cases hpc : (s.worker w).pc with
  | unborn | waitAsleep | exited => simp only [Invocation.workerStep, hpc, reduceCtorEq] at hst
  | scheduler k => exact absurd hpc (hin k)
  | doneLock => exact absurd hpc hdl
  | doneBody => exact absurd hpc hdb
  | createWorkerState | cleanup | loopTest =>
    simp only [Invocation.workerStep, hpc, Option.some.injEq] at hst
    subst hst
    refine h.gotoWith ?_ rfl (fun _ => id)
    try split_ifs
    all_goals simp
  | waitLock | waitWoken =>
    simp only [Invocation.workerStep, hpc] at hst
    split_ifs at hst
    cases hst
    exact h.gotoWith (by simp) rfl (fun _ => id)
  | waitTest =>
    simp only [Invocation.workerStep, hpc, ht.flag, Bool.not_true, Bool.false_and,
      Bool.false_eq_true, if_false, Option.some.injEq] at hst
    subst hst
    exact h.gotoWith (by split_ifs <;> simp) rfl (fun _ => id)
  | broadcastOthers =>
    simp only [Invocation.workerStep, hpc, Option.some.injEq] at hst
    subst hst
    exact h.gotoWith (by simp) rfl (fun u hu => (wake_asleep _ hu).1)
  | enterTest =>
    simp only [Invocation.workerStep, hpc, het hpc, if_true, Option.some.injEq] at hst
    subst hst
    exact h.gotoWith (by simp) rfl (fun _ => id)

theorem reachable {done : Bool} (hs : (protocol n done).Reachable s) (ht : s.terminating = true) :
    Awake s := by
  revert ht
  refine hs.invariant (P := fun s => s.terminating = true → Awake s)
    (fun ht => absurd ht (by simp [protocol, State.initial])) (fun s s' a hr h hst ht' => ?_)
  cases ht : s.terminating with
  | false =>
    rcases step_terminating hst with heq | ⟨-, hm⟩
    · exact absurd (ht'.symm.trans (heq.trans ht)) (by simp)
    · exact fun w _ => .inl hm
  | true =>
    have hterm := Terminating.of_reachable hr ht
    cases a with
    | master start => exact (h ht).masterStep hterm hst
    | worker w => exact (h ht).workerStep hterm hst
    | spuriousMaster | setDone =>
      simp only [protocol, step] at hst
      split_ifs at hst with hm
      cases hst
      first
        | exact h ht
        | exact absurd hterm.phase (by simp [hm, MasterPc.phase])
    | spuriousWorker w =>
      simp only [protocol, step] at hst
      split_ifs at hst with hw
      cases hst
      exact (h ht).gotoWith (by simp) rfl (fun _ => id)

end Awake

/-! ## The end -/

/-- No thread can go on unless a spurious wakeup comes to help. -/
def Stuck (s : State n) : Prop := (∀ start, masterStep start s = none) ∧ ∀ w, workerStep w s = none

/-- **Where a terminating program cannot go on, every worker is out**, and it
takes no spurious wakeup to get there. -/
theorem exited_of_stuck {done : Bool} {s : State n} (hs : (protocol n done).Reachable s)
    (ht : s.terminating = true) (hstuck : Stuck s) (w : Fin n) : (s.worker w).pc = .exited := by
  have hterm := Terminating.of_reachable hs ht
  have hworker := hstuck.2
  have hmaster := hstuck.1 true
  have hfree : s.mutex = none := by
    rcases hm : s.mutex with _ | a
    · rfl
    have hcrit : s.critical a = true := (exclusive_reachable hs a).mp hm
    cases a with
    | master =>
      obtain hp | hp | ⟨i, hp⟩ | hp := hterm.master_cases <;>
        simp [critical, hp, MasterPc.critical] at hcrit
    | worker u =>
      obtain ⟨hin, hdl, hdb, het⟩ := hterm.worker_cases u
      have hu := hworker u
      cases hpc : (s.worker u).pc with
      | waitTest => simp [workerStep, hpc, ht] at hu
      | doneBody => exact absurd hpc hdb
      | _ => simp [critical, hpc, WorkerPc.critical] at hcrit
  have hawake : (s.worker w).pc ≠ .waitAsleep := by
    intro hw
    rcases Awake.reachable hs ht w hw with hm | ⟨hm, -⟩ <;> simp [masterStep, hm] at hmaster
  obtain ⟨hin, hdl, hdb, het⟩ := hterm.worker_cases w
  have hw := hworker w
  cases hpc : (s.worker w).pc with
  | exited => rfl
  | unborn => exact absurd hpc (hterm.born w)
  | waitAsleep => exact absurd hpc hawake
  | scheduler k => exact absurd hpc (hin k)
  | doneLock => exact absurd hpc hdl
  | doneBody => exact absurd hpc hdb
  | waitTest => simp [workerStep, hpc, ht] at hw
  | _ => simp [workerStep, hpc, hfree] at hw

theorem terminating_step {a : Action n} {s s' : State n} (hst : step a s = some s')
    (ht : s.terminating = true) : s'.terminating = true := by
  rcases step_terminating hst with heq | ⟨ht', -⟩
  · exact heq.trans ht
  · exact ht'

/-- **A terminating program ends**: its runs have no more steps than remain. -/
theorem length_le_remaining {done : Bool} {s s' : State n} {as : List (Action n)}
    (hs : (protocol n done).Reachable s) (ht : s.terminating = true)
    (hrun : (protocol n done).run as s = some s') :
    s'.terminating = true ∧ as.length + s'.remaining ≤ s.remaining := by
  induction as generalizing s with
  | nil =>
    obtain rfl := Option.some.inj hrun
    exact ⟨ht, by simp⟩
  | cons a as ih =>
    obtain ⟨t, hst, hrest⟩ := Option.bind_eq_some_iff.mp hrun
    have hlt := (Terminating.of_reachable hs ht).remaining_lt hst
    obtain ⟨ht', hle⟩ := ih (.step a hs hst) (terminating_step hst ht) hrest
    refine ⟨ht', ?_⟩
    rw [List.length_cons]
    omega

/-! ## No entry after the request -/

/-- `Cilk_terminate_children` has been called. -/
def MasterPc.requested : MasterPc → Bool
  | .terminateLock | .terminateBody => true
  | pc => pc.phase == .terminating

theorem requested_step {a : Action n} {s s' : State n} (hst : step a s = some s')
    (hm : s.master.requested = true) : s'.master.requested = true := by
  cases a with
  | master start =>
    cases hpc : s.master with
    | terminateLock | join i =>
      simp only [step, masterStep, hpc] at hst
      split_ifs at hst <;> cases hst <;> rfl
    | terminateBody | terminateBroadcastFirst | terminateBroadcastOthers =>
      simp only [step, masterStep, hpc, Option.some.injEq] at hst
      exact hst ▸ rfl
    | terminated => simp only [step, masterStep, hpc, reduceCtorEq] at hst
    | _ => exact absurd hm (by rw [hpc]; simp [MasterPc.requested, MasterPc.phase])
  | worker w =>
    rw [(workerStep_frame hst).2 fun h => by rw [h] at hm; exact absurd hm (by decide)]
    exact hm
  | spuriousMaster =>
    simp only [step] at hst
    split_ifs at hst with h
    rw [h] at hm
    exact absurd hm (by decide)
  | spuriousWorker _ | setDone =>
    simp only [step] at hst
    split_ifs at hst
    cases hst
    exact hm

/-- An event outside the running phase is not an entry. -/
theorem Round.Event.entries_eq {r r' : Round n} (h : r.Sound) (he : Round.Event r r')
    (hp : r.phase ≠ .running) : r'.entries = r.entries := by
  cases he with
  | enter w hw => exact absurd ((h.quiet hp).2 w) (by simp [hw])
  | _ => rfl

/-- **After the request nobody enters**, in any run. -/
theorem entries_of_requested {done : Bool} {s s' : State n} {as : List (Action n)}
    (hs : (protocol n done).Reachable s) (hm : s.master.requested = true)
    (hrun : (protocol n done).run as s = some s') : s'.entries = s.entries := by
  have hstep : ∀ t t' a, ((protocol n done).Reachable t ∧ t.master.requested = true ∧
      t.entries = s.entries) → step a t = some t' → ((protocol n done).Reachable t' ∧
      t'.master.requested = true ∧ t'.entries = s.entries) := by
    rintro t t' a ⟨hr, hm, he⟩ hst
    refine ⟨hr.step a hst, requested_step hst hm, ?_⟩
    rcases step_round (.reachable hr) hst with heq | hev
    · exact (congrArg Round.entries heq).trans he
    · refine (Round.Event.entries_eq (sound_round hr) hev ?_).trans he
      show t.master.phase ≠ .running
      intro hp
      cases hpc : t.master <;> simp [hpc, MasterPc.requested, MasterPc.phase] at hm hp
  exact ((protocol n done).run_induction hstep ⟨hs, hm, rfl⟩ hrun).2.2

end Cilk.Invocation
