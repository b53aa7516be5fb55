import Cilk.Invocation.Rounds

/-!
# The protocol runs in rounds

Every step of the protocol is one event of its round or changes nothing of
it (`step_round`). Waiting, waking up, taking the mutex and broadcasting
are steps of the second kind: whatever they do, spurious wakeups included,
they do not touch the round.
-/

namespace Cilk.Invocation

open Invocation.State

variable {n : ℕ}

/-- How far a round is, where the master is at `pc`. -/
def MasterPc.phase : MasterPc → Phase
  | .createChildren _ | .idle | .terminateLock | .terminateBody => .idle
  | .globalInit2 | .schedulerInit2 => .preparing
  | .createInitialThread => .cleared
  | .wakeupLock | .wakeupBody => .prepared
  | .wakeupBroadcast | .doneLock | .doneTest | .doneAsleep | .doneWoken => .running
  | .globalCleanup | .schedulerTerminate2 => .over
  | .terminateBroadcastFirst | .terminateBroadcastOthers | .join _ | .terminated => .terminating

/-- How far a worker has taken part. One that counted itself in and saw
`terminating` will not enter. -/
def Worker.stage (w : Worker) : Stage :=
  match w.pc with
  | .broadcastOthers | .enterTest => if w.localTerminating then .outside else .joined
  | .scheduler k => .inside k
  | .doneLock | .doneBody => .leaving
  | _ => .outside

namespace State

/-- The round a state of the protocol is in. -/
def toRound (s : State n) : Round n where
  phase := s.master.phase
  stage w := (s.worker w).stage
  terminating := s.terminating
  nothingToDo := s.nothingToDo
  workersDoneCounter := s.workersDoneCounter
  workersAreDone := s.workersAreDone
  done := s.done
  invokeMain := s.invokeMain
  invocation := s.invocation
  returned := s.returned
  entries := s.entries

theorem toRound_gotoWith (s : State n) (w : Fin n) (pc : WorkerPc) (t : Bool) :
    (s.gotoWith w pc t).toRound = s.toRound.setStage w (Worker.stage ⟨pc, t⟩) := by
  simp only [toRound, gotoWith, Round.setStage, Round.mk.injEq, true_and, and_true]
  funext u
  rcases eq_or_ne u w with rfl | hu
  · rw [Function.update_self, Function.update_self]
  · rw [Function.update_of_ne hu, Function.update_of_ne hu]

theorem toRound_goto (s : State n) (w : Fin n) (pc : WorkerPc) :
    (s.goto w pc).toRound = s.toRound.setStage w (Worker.stage ⟨pc, (s.worker w).localTerminating⟩) :=
  toRound_gotoWith s w pc _

/-- A step of a worker that does not change how far it takes part. -/
theorem toRound_gotoWith_same (s : State n) {w : Fin n} {pc : WorkerPc} {t : Bool}
    (h : Worker.stage ⟨pc, t⟩ = (s.worker w).stage) : (s.gotoWith w pc t).toRound = s.toRound := by
  rw [toRound_gotoWith, h]
  exact congrArg (fun stage => { s.toRound with stage := stage }) (Function.update_eq_self w _)

theorem toRound_goto_same (s : State n) {w : Fin n} {pc : WorkerPc}
    (h : Worker.stage ⟨pc, (s.worker w).localTerminating⟩ = (s.worker w).stage) :
    (s.goto w pc).toRound = s.toRound :=
  toRound_gotoWith_same s h

/-- Waking up is not an event. -/
theorem toRound_wake (s : State n) (cond : Fin n → Bool) : (s.wake cond).toRound = s.toRound := by
  simp only [toRound, wake, Round.mk.injEq, true_and, and_true]
  funext w
  split_ifs with h
  · simp only [Bool.and_eq_true, beq_iff_eq] at h
    simp only [Worker.stage, h.2]
  · rfl

end State

namespace State

/-- What `Cilk_worker_is_done` changes, all at once. -/
theorem workerIsDone_eq (s : State n) (w : Fin n) :
    s.workerIsDone w = { s with
      mutex := none, nothingToDo := true, workersDoneCounter := s.workersDoneCounter - 1
      workersAreDone := s.workersAreDone || s.workersDoneCounter - 1 ≤ 0
      master := if s.workersDoneCounter - 1 ≤ 0 ∧ s.master = MasterPc.doneAsleep then .doneWoken
        else s.master }.gotoWith w .loopTest s.terminating := by
  by_cases hle : s.workersDoneCounter - 1 ≤ 0
  · by_cases hm : s.master = .doneAsleep <;> simp [workerIsDone, signalDone, gotoWith, hle, hm]
  · simp [workerIsDone, gotoWith, hle]

end State

/-! ## Creation -/

/-- The workers that exist are those `Cilk_create_children` has come past. -/
def Created (s : State n) : Prop :=
  ∀ w, (s.worker w).pc = .unborn ↔ ∃ i, s.master = .createChildren i ∧ i ≤ w.val

namespace Created

variable {s : State n}

/-- Where the master is past the creation, every worker exists. -/
theorem ne_unborn (h : Created s) (hm : ∀ i, s.master ≠ .createChildren i) (w : Fin n) :
    (s.worker w).pc ≠ .unborn := by
  rw [ne_eq, h w]
  rintro ⟨i, hi, -⟩
  exact hm i hi

theorem of_same {s' : State n} (h : Created s) (hw : s'.worker = s.worker)
    (hm : ∀ i, s'.master = .createChildren i ↔ s.master = .createChildren i) : Created s' := by
  intro w
  simp only [hw, hm, h w]

theorem gotoWith (h : Created s) {w : Fin n} {pc : WorkerPc} {t : Bool} (hw : (s.worker w).pc ≠ .unborn)
    (hpc : pc ≠ .unborn) : Created (s.gotoWith w pc t) := by
  intro u
  refine Iff.trans ?_ (h u)
  rcases eq_or_ne u w with rfl | hu
  · simp only [State.gotoWith, Function.update_self, hw, hpc]
  · simp only [State.gotoWith, Function.update_of_ne hu]

theorem wake (h : Created s) (cond : Fin n → Bool) : Created (s.wake cond) := by
  intro u
  refine Iff.trans ?_ (h u)
  simp only [State.wake]
  split_ifs with hu
  · simp only [Bool.and_eq_true, beq_iff_eq] at hu
    simp only [hu.2, reduceCtorEq]
  · rfl

end Created

/-- **Creation is kept by every step of the master.** -/
theorem Created.masterStep {start : Bool} {s s' : State n} (h : Created s)
    (hst : masterStep start s = some s') : Created s' := by
  cases hm : s.master with
  | createChildren i =>
    simp only [Invocation.masterStep, hm] at hst
    split_ifs at hst with hi
    · cases hst
      intro w
      have hw := h w
      simp only [hm, MasterPc.createChildren.injEq, exists_eq_left'] at hw ⊢
      rcases eq_or_ne w ⟨i, hi⟩ with rfl | hne
      · simp [goto]
      · have : w.val ≠ i := fun he => hne (Fin.ext he)
        simp only [goto, Function.update_of_ne hne, hw]
        omega
    · cases hst
      intro w
      have hw := h w
      simp only [hm, MasterPc.createChildren.injEq, exists_eq_left'] at hw
      simp only [hw, reduceCtorEq, false_and, exists_false, iff_false, not_le]
      omega
  | wakeupBroadcast =>
    simp only [Invocation.masterStep, hm, Option.some.injEq] at hst
    subst hst
    exact (h.wake _).of_same rfl (by simp [State.wake, hm])
  | terminateBroadcastFirst =>
    simp only [Invocation.masterStep, hm, Option.some.injEq] at hst
    subst hst
    exact (h.wake _).of_same rfl (by simp [State.wake, hm])
  | terminateBroadcastOthers =>
    simp only [Invocation.masterStep, hm, Option.some.injEq] at hst
    subst hst
    exact (h.wake _).of_same rfl (by simp [State.wake, hm])
  | _ =>
    simp only [Invocation.masterStep, hm] at hst
    try split_ifs at hst
    all_goals
      cases hst <;> exact h.of_same rfl (by simp [hm])

/-- **Creation is kept by every step of a worker.** -/
theorem Created.workerStep {w : Fin n} {s s' : State n} (h : Created s)
    (hst : workerStep w s = some s') : Created s' := by
  have hlock : ∀ m c, Created { s with mutex := m, workersDoneCounter := c } :=
    fun m c => h.of_same rfl (fun _ => Iff.rfl)
  cases hpc : (s.worker w).pc with
  | unborn | waitAsleep | exited =>
    simp only [Invocation.workerStep, hpc, reduceCtorEq] at hst
  | createWorkerState =>
    simp only [Invocation.workerStep, hpc, Option.some.injEq] at hst
    exact hst ▸ h.gotoWith (by simp [hpc]) (by simp)
  | loopTest =>
    simp only [Invocation.workerStep, hpc, Option.some.injEq] at hst
    exact hst ▸ h.gotoWith (by simp [hpc]) (by split_ifs <;> simp)
  | waitTest =>
    simp only [Invocation.workerStep, hpc] at hst
    split_ifs at hst <;> cases hst <;>
      exact (hlock _ _).gotoWith (by simp [hpc]) (by simp)
  | broadcastOthers =>
    simp only [Invocation.workerStep, hpc, Option.some.injEq] at hst
    exact hst ▸ (h.wake _).gotoWith (by simp [State.wake, hpc]) (by simp)
  | enterTest =>
    simp only [Invocation.workerStep, hpc, Option.some.injEq] at hst
    split_ifs at hst
    · exact hst ▸ h.gotoWith (by simp [hpc]) (by simp)
    · subst hst
      exact Created.gotoWith (h.of_same rfl (fun _ => Iff.rfl)) (by simp [hpc]) (by simp)
  | scheduler k =>
    simp only [Invocation.workerStep, hpc] at hst
    split_ifs at hst
    cases hst
    exact h.gotoWith (by simp [hpc]) (by simp)
  | doneBody =>
    simp only [Invocation.workerStep, hpc, Option.some.injEq, workerIsDone_eq] at hst
    subst hst
    apply Created.gotoWith
    · refine h.of_same rfl (fun i => ?_)
      show (if _ then _ else _) = _ ↔ _
      split_ifs with hm
      · simp [hm.2]
      · rfl
    · simp [hpc]
    · simp
  | cleanup =>
    simp only [Invocation.workerStep, hpc, Option.some.injEq] at hst
    exact hst ▸ h.gotoWith (by simp [hpc]) (by simp)
  | waitLock | waitWoken | doneLock =>
    simp only [Invocation.workerStep, hpc] at hst
    split_ifs at hst
    cases hst
    exact (hlock _ s.workersDoneCounter).gotoWith (by simp [hpc]) (by simp)

/-- **Creation is kept by every step.** -/
theorem Created.step {a : Action n} {s s' : State n} (h : Created s)
    (hst : step a s = some s') : Created s' := by
  cases a with
  | master start => exact h.masterStep hst
  | worker w => exact h.workerStep hst
  | spuriousMaster =>
    simp only [Invocation.step] at hst
    split_ifs at hst with hm
    cases hst
    exact h.of_same rfl (by simp [hm])
  | spuriousWorker w =>
    simp only [Invocation.step] at hst
    split_ifs at hst with hw
    cases hst
    exact h.gotoWith (by simp [hw]) (by simp)
  | setDone =>
    simp only [Invocation.step] at hst
    split_ifs at hst
    cases hst
    exact h.of_same rfl (fun _ => Iff.rfl)

/-! ## Refinement -/

/-- **The master's steps, as events of the round.** -/
theorem masterStep_round {start : Bool} {s s' : State n} (hc : Created s)
    (h : masterStep start s = some s') :
    s'.toRound = s.toRound ∨ Round.Event s.toRound s'.toRound := by
  cases hm : s.master with
  | createChildren i =>
    left
    simp only [masterStep, hm] at h
    split_ifs at h with hi
    · cases h
      have hborn : (s.worker ⟨i, hi⟩).pc = .unborn := (hc _).mpr ⟨i, hm, le_rfl⟩
      calc ({ s.goto ⟨i, hi⟩ .createWorkerState with master := .createChildren (i + 1) } :
              State n).toRound
          = (s.goto ⟨i, hi⟩ .createWorkerState).toRound := by
            simp only [toRound, goto, hm, MasterPc.phase]
        _ = s.toRound := toRound_goto_same s (by simp only [Worker.stage, hborn])
    · cases h
      simp only [toRound, hm, MasterPc.phase]
  | idle =>
    simp only [masterStep, hm] at h
    split_ifs at h
    · cases h
      exact .inr (.start (congrArg MasterPc.phase hm))
    · cases h
      exact .inl (by simp only [toRound, hm, MasterPc.phase])
  | schedulerInit2 =>
    simp only [masterStep, hm, Option.some.injEq] at h
    exact h ▸ .inr (.clearDone (congrArg MasterPc.phase hm))
  | createInitialThread =>
    simp only [masterStep, hm, Option.some.injEq] at h
    exact h ▸ .inr (.setRoot (congrArg MasterPc.phase hm))
  | wakeupBody =>
    simp only [masterStep, hm, Option.some.injEq] at h
    exact h ▸ .inr (.letIn (congrArg MasterPc.phase hm))
  | doneTest =>
    simp only [masterStep, hm] at h
    split_ifs at h with hd
    · cases h
      exact .inr (.close (congrArg MasterPc.phase hm) hd)
    · cases h
      exact .inl (by simp only [toRound, hm, MasterPc.phase])
  | schedulerTerminate2 =>
    simp only [masterStep, hm, Option.some.injEq] at h
    exact h ▸ .inr (.cleanup (congrArg MasterPc.phase hm))
  | terminateBody =>
    simp only [masterStep, hm, Option.some.injEq] at h
    exact h ▸ .inr (.terminate (congrArg MasterPc.phase hm))
  | wakeupBroadcast | terminateBroadcastFirst =>
    -- a broadcast only moves workers from one waiting place to another
    left
    simp only [masterStep, hm, Option.some.injEq] at h
    subst h
    refine Eq.trans ?_ (toRound_wake s (fun w => w.val == 0))
    simp only [toRound, broadcastFirst, wake, hm, MasterPc.phase]
  | terminateBroadcastOthers =>
    left
    simp only [masterStep, hm, Option.some.injEq] at h
    subst h
    refine Eq.trans ?_ (toRound_wake s (fun w => w.val != 0))
    simp only [toRound, broadcastOthers, wake, hm, MasterPc.phase]
  | _ =>
    left
    simp only [masterStep, hm] at h
    try split_ifs at h
    all_goals
      cases h <;> simp only [toRound, hm, MasterPc.phase]

/-- A worker that does not wait counts itself in: to enter, or, where
`terminating` is set, to leave. -/
theorem countIn_round {w : Fin n} {s : State n} {pc : WorkerPc} (hw : (s.worker w).pc = .waitTest)
    (hpc : pc = .broadcastOthers ∨ pc = .enterTest)
    (hwait : ¬ (!s.terminating && s.nothingToDo) = true) :
    Round.Event s.toRound
      ({ s with workersDoneCounter := s.workersDoneCounter + 1, mutex := none }.gotoWith w pc
        s.terminating).toRound := by
  have hstage : s.toRound.stage w = .outside := by simp only [toRound, Worker.stage, hw]
  rw [toRound_gotoWith]
  cases ht : s.terminating with
  | true =>
    have hout : Worker.stage ⟨pc, true⟩ = s.toRound.stage w := by
      rcases hpc with rfl | rfl <;> rw [hstage] <;> rfl
    rw [hout]
    convert Round.Event.joinTerminating (r := s.toRound) ht using 1
    simp only [Round.setStage, toRound, Round.mk.injEq, ht, true_and, and_true]
    exact Function.update_eq_self w _
  | false =>
    have hin : Worker.stage ⟨pc, false⟩ = .joined := by rcases hpc with rfl | rfl <;> rfl
    rw [hin]
    convert Round.Event.join (r := s.toRound) w ht (by simpa [toRound, ht] using hwait)
      hstage using 2
    simp only [toRound, ht]

/-- **The workers' steps, as events of the round.** -/
theorem workerStep_round {w : Fin n} {s s' : State n} (h : workerStep w s = some s') :
    s'.toRound = s.toRound ∨ Round.Event s.toRound s'.toRound := by
  have hstage : s.toRound.stage w = (s.worker w).stage := rfl
  cases hpc : (s.worker w).pc with
  | unborn | waitAsleep | exited =>
    simp only [workerStep, hpc, reduceCtorEq] at h
  | createWorkerState =>
    simp only [workerStep, hpc, Option.some.injEq] at h
    subst h
    exact .inl (toRound_gotoWith_same s (by simp only [Worker.stage, hpc]))
  | cleanup =>
    simp only [workerStep, hpc, Option.some.injEq] at h
    subst h
    exact .inl (toRound_goto_same s (by simp only [Worker.stage, hpc]))
  | loopTest =>
    simp only [workerStep, hpc, Option.some.injEq] at h
    subst h
    exact .inl (toRound_goto_same s (by split_ifs <;> simp only [Worker.stage, hpc]))
  | waitTest =>
    simp only [workerStep, hpc] at h
    split_ifs at h with hwait
    · cases h
      exact .inl (toRound_goto_same { s with mutex := none } (by simp only [Worker.stage, hpc]))
    all_goals
      cases h
      exact .inr (countIn_round hpc (by simp) hwait)
  | broadcastOthers =>
    simp only [workerStep, hpc, Option.some.injEq] at h
    subst h
    left
    rw [toRound_goto_same, broadcastOthers, toRound_wake]
    simp [Worker.stage, broadcastOthers, wake, hpc]
  | enterTest =>
    simp only [workerStep, hpc, Option.some.injEq] at h
    split_ifs at h with hl
    · subst h
      exact .inl (toRound_goto_same s (by simp only [Worker.stage, hpc, hl, if_true]))
    · subst h
      right
      rw [enter, toRound_goto]
      exact .enter w (by simp [hstage, Worker.stage, hpc, hl])
  | scheduler k =>
    simp only [workerStep, hpc] at h
    split_ifs at h with hd
    cases h
    rw [toRound_goto]
    exact .inr (.leave w k (by simp only [hstage, Worker.stage, hpc]) hd)
  | doneBody =>
    simp only [workerStep, hpc, Option.some.injEq, workerIsDone_eq] at h
    subst h
    rw [toRound_gotoWith]
    right
    convert Round.Event.finish (r := s.toRound) w (by simp only [hstage, Worker.stage, hpc]) using 2
    simp only [toRound, Round.mk.injEq, true_and, and_true]
    · refine ⟨?_, rfl⟩
      split_ifs with hm
      · simp only [hm.2, MasterPc.phase]
      · rfl
    · rfl
  | waitLock | waitWoken | doneLock =>
    simp only [workerStep, hpc] at h
    split_ifs at h
    cases h
    exact .inl (toRound_goto_same { s with mutex := _ } (by simp only [Worker.stage, hpc]))

/-- **The protocol refines the round**: every step is an event of the round,
or changes nothing of it. -/
theorem step_round {a : Action n} {s s' : State n} (hc : Created s) (h : step a s = some s') :
    s'.toRound = s.toRound ∨ Round.Event s.toRound s'.toRound := by
  cases a with
  | master start => exact masterStep_round hc h
  | worker w => exact workerStep_round h
  | spuriousMaster =>
    left
    simp only [step] at h
    split_ifs at h with hm
    cases h
    simp only [toRound, hm, MasterPc.phase]
  | spuriousWorker w =>
    left
    simp only [step] at h
    split_ifs at h with hw
    cases h
    exact toRound_goto_same s (by simp only [Worker.stage, hw])
  | setDone =>
    right
    simp only [step] at h
    split_ifs at h with hd
    cases h
    exact .setDone hd.1

theorem Created.reachable {done : Bool} {s : State n} (hs : (protocol n done).Reachable s) :
    Created s := by
  refine hs.invariant (fun w => ?_) (fun _ _ _ _ h hst => h.step hst)
  simp [protocol, State.initial]

/-- **Every reachable state is in a sound round.** -/
theorem sound_round {done : Bool} {s : State n} (hs : (protocol n done).Reachable s) :
    s.toRound.Sound := by
  refine hs.invariant (P := fun s => s.toRound.Sound) (Round.Sound.initial done) (fun s s' a hr hsound hst => ?_)
  rcases step_round (.reachable hr) hst with heq | he
  · exact heq ▸ hsound
  · exact hsound.event he

end Cilk.Invocation
