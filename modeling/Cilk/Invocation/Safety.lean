import Cilk.Invocation.Termination

/-!
# The invocation protocol is safe

What the rounds and the termination say of the protocol itself, for any
number of workers, any number of invocations and any interleaving.
-/

namespace Cilk.Invocation

open Invocation.State

variable {n : ℕ}

/-- `Cilk_start` is initialising `done`, the deques or the root closure. -/
def MasterPc.initialising : MasterPc → Bool
  | .globalInit2 | .schedulerInit2 | .createInitialThread => true
  | _ => false

/-- How often worker `w` entered the scheduler in invocation `k`. -/
def State.timesEntered (s : State n) (w : Fin n) (k : ℕ) : ℕ :=
  (s.entries.map fun e => (e.worker, e.invocation)).count (w, k)

/-- **A worker inside the scheduler is there for the invocation that is going
on**, and that invocation has not returned. -/
theorem inside_current {done : Bool} {s : State n} (hs : (protocol n done).Reachable s) {w : Fin n}
    {k : ℕ} (hw : (s.worker w).pc = .scheduler k) :
    s.master.phase = .running ∧ k = s.invocation ∧ s.returned < k := by
  have hsound := sound_round hs
  have hstage : s.toRound.stage w = .inside k := by simp only [toRound, Worker.stage, hw]
  have hp : s.master.phase = .running := (hsound.running (w := w) (by simp [hstage])).1
  have hk : k = s.invocation := hsound.inside w k hstage
  have hret : s.returned + (if s.master.phase.inStart then 1 else 0) = s.invocation :=
    hsound.returned
  rw [hp] at hret
  exact ⟨hp, hk, by simp only [Phase.inStart, if_true] at hret; omega⟩

/-- **The invocation protocol is safe.** Once `Cilk_wakeup_workers` returned
for an invocation, nobody is inside it; nobody is inside the scheduler while
`Cilk_start` initialises; nobody enters an invocation twice, worker 0 has
entered every invocation that returned once and with its root closure, and
the others enter with none; after `Cilk_terminate_children` is called nobody
enters; and once it has set `terminating` the program takes a bounded number
of steps, after which every worker has left its loop. -/
theorem invocations_are_safe {done : Bool} {s : State n} (hs : (protocol n done).Reachable s) :
    (∀ w k, k ≤ s.returned → (s.worker w).pc ≠ .scheduler k) ∧
    (s.master.initialising = true → ∀ w k, (s.worker w).pc ≠ .scheduler k) ∧
    ((∀ w k, s.timesEntered w k ≤ 1) ∧
      (∀ w k, w.val = 0 → 1 ≤ k → k ≤ s.returned →
        s.timesEntered w k = 1 ∧ ⟨w, k, some k⟩ ∈ s.entries) ∧
      (∀ e ∈ s.entries, e.argument = if e.worker.val = 0 then some e.invocation else none)) ∧
    ((s.master.requested = true → s.returned = s.invocation ∧
        ∀ as s', (protocol n done).run as s = some s' → s'.entries = s.entries) ∧
      (s.terminating = true → ∀ as s', (protocol n done).run as s = some s' →
        as.length ≤ s.remaining ∧ (Stuck s' → ∀ w, (s'.worker w).pc = .exited))) := by
  have hsound := sound_round hs
  refine ⟨fun w k hk hw => ?_, fun hm w k hw => ?_, ⟨fun w k => ?_, fun w k hw hk hk' => ?_,
    hsound.argument⟩, fun hm => ⟨?_, fun as s' => entries_of_requested hs hm⟩,
    fun ht as s' hrun => ?_⟩
  · have := (inside_current hs hw).2.2
    omega
  · have hp := (inside_current hs hw).1
    cases hpc : s.master <;> simp [hpc, MasterPc.initialising, MasterPc.phase] at hm hp
  · exact List.nodup_iff_count_le_one.mp hsound.nodup (w, k)
  · obtain ⟨e, he, he0, rfl⟩ := hsound.first k hk hk'
    obtain rfl : e.worker = w := Fin.ext (he0.trans hw.symm)
    refine ⟨List.count_eq_one_of_mem hsound.nodup (List.mem_map.mpr ⟨e, he, rfl⟩), ?_⟩
    have harg := hsound.argument e he
    rw [if_pos hw] at harg
    rw [← harg]
    exact he
  · have hret := hsound.returned
    have hout : s.toRound.phase.inStart = false := by
      show s.master.phase.inStart = false
      cases hpc : s.master <;> simp [hpc, MasterPc.requested, MasterPc.phase, Phase.inStart] at hm ⊢
    rw [hout] at hret
    exact hret
  · obtain ⟨ht', hle⟩ := length_le_remaining hs ht hrun
    exact ⟨(Nat.le_add_right _ _).trans hle, exited_of_stuck (hs.run hrun) ht'⟩

/-- One worker, one invocation, and the end. -/
def oneInvocation : List (Action 1) :=
  [.master true, .master true, .worker 0, .worker 0, .worker 0, .worker 0, .spuriousWorker 0,
    .worker 0, .worker 0, .master true, .master true, .master true, .master true, .master true,
    .master true, .master true, .worker 0, .worker 0, .worker 0, .worker 0, .setDone, .master true,
    .master true, .worker 0, .worker 0, .worker 0, .master true, .master true, .master true,
    .master true, .master false, .master true, .master true]

theorem invocations_are_safe_once : ∃ s : State 1, (protocol 1 true).Reachable s ∧
    s.terminating = true ∧ s.returned = 1 ∧ s.timesEntered 0 1 = 1 := by
  obtain ⟨s, hr, hp⟩ := TransitionSystem.Reachable.of_eval (M := protocol 1 true) oneInvocation
    (fun s => s.terminating && s.returned == 1) (by decide)
  simp only [Bool.and_eq_true, beq_iff_eq] at hp
  exact ⟨s, hr, hp.1, hp.2, ((invocations_are_safe hr).2.2.1.2.1 0 1 rfl le_rfl hp.2.ge).1⟩

end Cilk.Invocation
