import Cilk.Invocation.Protocol
import Mathlib.Data.Fintype.Card

/-!
# What an invocation is

The protocol of `Cilk.Invocation.Protocol` with its mutex, its condition
variables and its sleeping threads taken away. What remains is a **round**:
the master prepares an invocation, opens it, workers join it, enter the
scheduler, leave it and finish, the last one to finish ends the round, and
the master returns.

A worker is at one of four stages. It is `joined` from its increment of
`workers_done_counter` until it enters the scheduler, `inside` it, and
`leaving` from there until its decrement; everywhere else it is `outside`.
The counter counts the workers that are not outside, and `Round.Sound` is
what holds between the events of any number of rounds.
-/

namespace Cilk.Invocation

variable {n : ℕ}

/-- How far a worker has taken part in the current round. -/
inductive Stage
  /-- It has not joined, or it has finished. -/
  | outside
  /-- It counted itself in, and has not entered the scheduler. -/
  | joined
  /-- Inside `Cilk_scheduler`, since invocation `k`. -/
  | inside (k : ℕ)
  /-- It left the scheduler, and has not counted itself out. -/
  | leaving
  deriving DecidableEq

/-- How far the master is with the current round. -/
inductive Phase
  /-- No invocation is going on. -/
  | idle
  /-- In `Cilk_start`, before `done` is cleared. -/
  | preparing
  /-- `done` is cleared. -/
  | cleared
  /-- `invoke_main` is the new root closure. -/
  | prepared
  /-- The workers have been let in. -/
  | running
  /-- `Cilk_wakeup_workers` has returned. -/
  | over
  /-- `terminating` is set. -/
  | terminating
  deriving DecidableEq

/-- The master is in `Cilk_start`, up to the return of `Cilk_wakeup_workers`. -/
def Phase.inStart : Phase → Bool
  | .preparing | .cleared | .prepared | .running => true
  | .idle | .over | .terminating => false

/-- The protocol without its mutex and condition variables. -/
structure Round (n : ℕ) where
  /-- How far the master is. -/
  phase : Phase
  /-- How far each worker is. -/
  stage : Fin n → Stage
  /-- `terminating` -/
  terminating : Bool
  /-- `nothing_to_do` -/
  nothingToDo : Bool
  /-- `workers_done_counter` -/
  workersDoneCounter : ℤ
  /-- `workers_are_done` -/
  workersAreDone : Bool
  /-- `done` -/
  done : Bool
  /-- `invoke_main` -/
  invokeMain : Option ℕ
  /-- How many invocations were started. -/
  invocation : ℕ
  /-- How many invocations returned. -/
  returned : ℕ
  /-- The entries to `Cilk_scheduler`. -/
  entries : List (Entry n)

@[simp] theorem entered_cons (e : Entry n) (entries : List (Entry n)) (w : Fin n) (k : ℕ) :
    Entered (e :: entries) w k ↔ e.worker = w ∧ e.invocation = k ∨ Entered entries w k := by
  simp only [Entered, List.mem_cons, exists_eq_or_imp]

theorem FirstEntered.cons {e : Entry n} {entries : List (Entry n)} {k : ℕ}
    (h : FirstEntered entries k) : FirstEntered (e :: entries) k := by
  obtain ⟨d, hd, h⟩ := h
  exact ⟨d, List.mem_cons_of_mem _ hd, h⟩

namespace Round

/-- Worker `w` comes to stage `st`. -/
def setStage (r : Round n) (w : Fin n) (st : Stage) : Round n :=
  { r with stage := Function.update r.stage w st }

/-- What the argument of `Cilk_scheduler` is for worker `w`. -/
def argument (r : Round n) (w : Fin n) : Option ℕ := if w.val = 0 then r.invokeMain else none

/-- **The events of a round.** -/
inductive Event : Round n → Round n → Prop
  /-- `Cilk_start` is called. -/
  | start {r : Round n} : r.phase = .idle →
      Event r { r with phase := .preparing, invocation := r.invocation + 1 }
  | clearDone {r : Round n} : r.phase = .preparing →
      Event r { r with phase := .cleared, done := false }
  | setRoot {r : Round n} : r.phase = .cleared →
      Event r { r with phase := .prepared, invokeMain := some r.invocation }
  /-- The first critical section of `Cilk_wakeup_workers`. -/
  | letIn {r : Round n} : r.phase = .prepared →
      Event r { r with
        phase := .running, workersDoneCounter := 0, workersAreDone := false, nothingToDo := false }
  /-- `Cilk_wakeup_workers` returns. -/
  | close {r : Round n} : r.phase = .running → r.workersAreDone = true →
      Event r { r with phase := .over, returned := r.returned + 1 }
  | cleanup {r : Round n} : r.phase = .over → Event r { r with phase := .idle }
  | terminate {r : Round n} : r.phase = .idle →
      Event r { r with phase := .terminating, terminating := true }
  /-- A worker that has seen work counts itself in. -/
  | join {r : Round n} (w : Fin n) : r.terminating = false → r.nothingToDo = false →
      r.stage w = .outside →
      Event r ({ r with workersDoneCounter := r.workersDoneCounter + 1 }.setStage w .joined)
  | joinTerminating {r : Round n} : r.terminating = true →
      Event r { r with workersDoneCounter := r.workersDoneCounter + 1 }
  | enter {r : Round n} (w : Fin n) : r.stage w = .joined →
      Event r ({ r with
        entries := ⟨w, r.invocation, r.argument w⟩ :: r.entries }.setStage w (.inside r.invocation))
  | leave {r : Round n} (w : Fin n) (k : ℕ) : r.stage w = .inside k → r.done = true →
      Event r (r.setStage w .leaving)
  /-- `Cilk_worker_is_done`. -/
  | finish {r : Round n} (w : Fin n) : r.stage w = .leaving →
      Event r ({ r with
        nothingToDo := true, workersDoneCounter := r.workersDoneCounter - 1
        workersAreDone := r.workersAreDone || r.workersDoneCounter - 1 ≤ 0 }.setStage w .outside)
  | setDone {r : Round n} : FirstEntered r.entries r.invocation → Event r { r with done := true }

/-! ## The invariant -/

/-- The workers that joined the round and have not finished it. -/
def takingPart (r : Round n) : Finset (Fin n) := Finset.univ.filter (fun w => r.stage w ≠ .outside)

/-- **What holds in every round.** -/
structure Sound (r : Round n) : Prop where
  /-- Outside the running phase there is nothing to do, and nobody takes part. -/
  quiet : r.phase ≠ .running → r.nothingToDo = true ∧ ∀ w, r.stage w = .outside
  /-- Once `workers_are_done` is set, the round is finished. -/
  finished : r.phase = .running → r.workersAreDone = true →
    r.nothingToDo = true ∧ (∀ w, r.stage w = .outside) ∧ FirstEntered r.entries r.invocation
  /-- The counter counts the workers that take part. -/
  counter : r.terminating = false → r.workersDoneCounter = r.takingPart.card
  terminating : r.terminating = true ↔ r.phase = .terminating
  /-- From the moment it is cleared, `done` says that worker 0 has entered. -/
  done : r.phase.inStart = true → r.phase ≠ .preparing → r.done = true →
    FirstEntered r.entries r.invocation
  leaving : ∀ w, r.stage w = .leaving → FirstEntered r.entries r.invocation
  /-- A worker that joined has not entered in this round. -/
  joined : ∀ w, r.stage w = .joined → ¬ Entered r.entries w r.invocation
  /-- While there is something to do, who entered in this round is not back. -/
  notBack : r.nothingToDo = false → ∀ w, r.stage w = .outside → ¬ Entered r.entries w r.invocation
  inside : ∀ w k, r.stage w = .inside k → k = r.invocation
  root : r.phase = .prepared ∨ r.phase = .running → r.invokeMain = some r.invocation
  invocation : ∀ e ∈ r.entries, 1 ≤ e.invocation ∧ e.invocation ≤ r.invocation ∧
    (r.phase ≠ .running → e.invocation ≤ r.returned)
  nodup : (r.entries.map fun e => (e.worker, e.invocation)).Nodup
  argument : ∀ e ∈ r.entries, e.argument = if e.worker.val = 0 then some e.invocation else none
  returned : r.returned + (if r.phase.inStart then 1 else 0) = r.invocation
  first : ∀ k, 1 ≤ k → k ≤ r.returned → FirstEntered r.entries k

@[simp] theorem stage_setStage (r : Round n) (w u : Fin n) (st : Stage) :
    (r.setStage w st).stage u = if u = w then st else r.stage u := by
  simp only [setStage, Function.update_apply]

theorem takingPart_join {r : Round n} {w : Fin n} {st : Stage} (hw : r.stage w = .outside)
    (hst : st ≠ .outside) : (r.setStage w st).takingPart.card = r.takingPart.card + 1 := by
  have hnot : w ∉ r.takingPart := by simp [takingPart, hw]
  have hset : (r.setStage w st).takingPart = insert w r.takingPart := by
    ext u
    by_cases hu : u = w <;> simp [takingPart, hu, hst]
  rw [hset, Finset.card_insert_of_notMem hnot]

theorem takingPart_finish {r : Round n} {w : Fin n} (hw : r.stage w ≠ .outside) :
    (r.setStage w .outside).takingPart.card + 1 = r.takingPart.card := by
  have hmem : w ∈ r.takingPart := by simp [takingPart, hw]
  have hset : (r.setStage w .outside).takingPart = r.takingPart.erase w := by
    ext u
    by_cases hu : u = w <;> simp [takingPart, hu]
  rw [hset, Finset.card_erase_add_one hmem]

theorem takingPart_move {r : Round n} {w : Fin n} {st : Stage} (hw : r.stage w ≠ .outside)
    (hst : st ≠ .outside) : (r.setStage w st).takingPart = r.takingPart := by
  ext u
  by_cases hu : u = w
  · subst hu
    simp [takingPart, hw, hst]
  · simp [takingPart, hu]

theorem takingPart_eq_zero {r : Round n} : r.takingPart.card = 0 ↔ ∀ w, r.stage w = .outside := by
  simp [takingPart, Finset.card_eq_zero, Finset.filter_eq_empty_iff]

namespace Sound

variable {r r' : Round n}

/-- Somebody takes part only in the running phase, and before
`workers_are_done` is set. -/
theorem running (h : r.Sound) {w : Fin n} (hw : r.stage w ≠ .outside) :
    r.phase = .running ∧ r.workersAreDone = false ∧ r.terminating = false := by
  have hphase : r.phase = .running := by
    by_contra hne
    exact hw ((h.quiet hne).2 w)
  refine ⟨hphase, ?_, ?_⟩
  · by_contra hdone
    exact hw ((h.finished hphase (by simpa using hdone)).2.1 w)
  · by_contra hterm
    have := h.terminating.mp (by simpa using hterm)
    rw [hphase] at this
    cases this

/-- The initial round. -/
theorem initial (done : Bool) : Sound (n := n)
    ⟨.idle, fun _ => .outside, false, true, 0, false, done, none, 0, 0, []⟩ := by
  constructor <;> simp [takingPart, Phase.inStart, Entered]
  omega

/-- Worker `w` enters the scheduler, for the first time in this round. -/
theorem enter (h : r.Sound) {w : Fin n} (hw : r.stage w = .joined) :
    Sound ({ r with
      entries := ⟨w, r.invocation, r.argument w⟩ :: r.entries }.setStage w
        (.inside r.invocation)) := by
  obtain ⟨hp, hnot, hrun⟩ := h.running (w := w) (by simp [hw])
  have hfresh := h.joined w hw
  have hroot := h.root (.inr hp)
  have hreturned := h.returned
  refine ⟨fun hne => absurd hp hne, fun _ hd => ?_, fun _ => ?_, h.terminating, ?_, ?_, ?_, ?_, ?_,
    fun _ => hroot, ?_, ?_, ?_, hreturned, fun k hk hk' => (h.first k hk hk').cons⟩
  · exact absurd hd (by simp [setStage, hnot])
  · have := h.counter hrun
    rw [← takingPart_move (show r.stage w ≠ .outside by simp [hw])
      (show Stage.inside r.invocation ≠ .outside by simp)] at this
    exact this
  · exact fun hs hne hd => (h.done hs hne hd).cons
  · intro u hu
    simp only [stage_setStage] at hu
    split_ifs at hu
    exact (h.leaving u hu).cons
  · intro u hu
    simp only [stage_setStage] at hu
    split_ifs at hu with huw
    rintro ⟨e, he, heu, hek⟩
    rcases List.mem_cons.mp he with rfl | he
    · exact huw heu.symm
    · exact h.joined u hu ⟨e, he, heu, hek⟩
  · intro hn u hu
    simp only [stage_setStage] at hu
    split_ifs at hu with huw
    rintro ⟨e, he, heu, hek⟩
    rcases List.mem_cons.mp he with rfl | he
    · exact huw heu.symm
    · exact h.notBack hn u hu ⟨e, he, heu, hek⟩
  · intro u k hu
    simp only [stage_setStage] at hu
    split_ifs at hu with huw
    · exact (Stage.inside.inj hu).symm
    · exact h.inside u k hu
  · intro e he
    rcases List.mem_cons.mp he with rfl | he
    · simp only [hp, Phase.inStart] at hreturned
      grind [setStage]
    · exact h.invocation e he
  · refine List.nodup_cons.mpr ⟨?_, h.nodup⟩
    rintro hmem
    obtain ⟨e, he, heq⟩ := List.mem_map.mp hmem
    exact hfresh ⟨e, he, congrArg Prod.fst heq, congrArg Prod.snd heq⟩
  · intro e he
    rcases List.mem_cons.mp he with rfl | he
    · show r.argument w = _
      rw [Round.argument, hroot]
    · exact h.argument e he

/-- Worker `w` finishes the round; the last one to finish ends it. -/
theorem finish (h : r.Sound) {w : Fin n} (hw : r.stage w = .leaving) :
    Sound ({ r with
      nothingToDo := true, workersDoneCounter := r.workersDoneCounter - 1
      workersAreDone := r.workersAreDone || r.workersDoneCounter - 1 ≤ 0 }.setStage w .outside) := by
  obtain ⟨hp, hnot, hrun⟩ := h.running (w := w) (by simp [hw])
  have hone := h.leaving w hw
  have hcounter : r.workersDoneCounter - 1 = ((r.setStage w .outside).takingPart.card : ℤ) := by
    have := h.counter hrun
    have := takingPart_finish (r := r) (w := w) (by simp [hw])
    omega
  refine ⟨fun hne => absurd hp hne, fun _ hd => ⟨rfl, ?_, hone⟩, fun _ => hcounter, h.terminating,
    h.done, ?_, ?_, ?_, ?_, h.root, h.invocation, h.nodup, h.argument, h.returned, h.first⟩
  · have hzero : (r.setStage w .outside).takingPart.card = 0 := by
      simp only [setStage, hnot, Bool.false_or, decide_eq_true_eq] at hd
      omega
    exact takingPart_eq_zero.mp hzero
  · exact fun _ _ => hone
  · intro u hu
    simp only [stage_setStage] at hu
    split_ifs at hu
    exact h.joined u hu
  · exact fun hn => absurd hn (by simp [setStage])
  · intro u k hu
    simp only [stage_setStage] at hu
    split_ifs at hu
    exact h.inside u k hu

/-- Worker `w` counts itself in. -/
theorem join (h : r.Sound) {w : Fin n} (hn : r.nothingToDo = false) (hw : r.stage w = .outside) :
    Sound ({ r with workersDoneCounter := r.workersDoneCounter + 1 }.setStage w .joined) := by
  have hp : r.phase = .running := by
    by_contra hne
    exact absurd (h.quiet hne).1 (by simp [hn])
  refine ⟨fun hne => absurd hp hne, fun _ hd => ?_, fun ht => ?_, h.terminating, h.done, ?_, ?_, ?_,
    ?_, h.root, h.invocation, h.nodup, h.argument, h.returned, h.first⟩
  · exact absurd (h.finished hp hd).1 (by simp [hn])
  · have hcard := takingPart_join hw (show Stage.joined ≠ .outside by simp)
    have := h.counter ht
    show r.workersDoneCounter + 1 = ((r.setStage w .joined).takingPart.card : ℤ)
    omega
  · intro u hu
    simp only [stage_setStage] at hu
    split_ifs at hu
    exact h.leaving u hu
  · intro u hu
    simp only [stage_setStage] at hu
    split_ifs at hu with huw
    · exact huw ▸ h.notBack hn w hw
    · exact h.joined u hu
  · intro _ u hu
    simp only [stage_setStage] at hu
    split_ifs at hu
    exact h.notBack hn u hu
  · intro u k hu
    simp only [stage_setStage] at hu
    split_ifs at hu
    exact h.inside u k hu

/-- Worker `w` leaves the scheduler. -/
theorem leave (h : r.Sound) {w : Fin n} {k : ℕ} (hw : r.stage w = .inside k)
    (hdone : r.done = true) : Sound (r.setStage w .leaving) := by
  obtain ⟨hp, hnot, hrun⟩ := h.running (w := w) (by simp [hw])
  have hone := h.done (by simp [hp, Phase.inStart]) (by simp [hp]) hdone
  refine ⟨fun hne => absurd hp hne, fun _ hd => ?_, fun _ => ?_, h.terminating, h.done,
    fun _ _ => hone, ?_, ?_, ?_, h.root, h.invocation, h.nodup, h.argument, h.returned, h.first⟩
  · exact absurd hd (by simp [setStage, hnot])
  · rw [takingPart_move (by simp [hw]) (by simp)]
    exact h.counter hrun
  · intro u hu
    simp only [stage_setStage] at hu
    split_ifs at hu
    exact h.joined u hu
  · intro hn u hu
    simp only [stage_setStage] at hu
    split_ifs at hu
    exact h.notBack hn u hu
  · intro u k hu
    simp only [stage_setStage] at hu
    split_ifs at hu
    exact h.inside u k hu

/-- What is left to check where nobody takes part. -/
theorem of_quiet (hphase : r.phase ≠ .running) (hn : r.nothingToDo = true)
    (hout : ∀ w, r.stage w = .outside)
    (hcounter : r.terminating = false → r.workersDoneCounter = 0)
    (hterm : r.terminating = true ↔ r.phase = .terminating)
    (hdone : r.phase.inStart = true → r.phase ≠ .preparing → r.done = true →
      FirstEntered r.entries r.invocation)
    (hroot : r.phase = .prepared → r.invokeMain = some r.invocation)
    (hreturned : r.returned + (if r.phase.inStart then 1 else 0) = r.invocation)
    (hinv : ∀ e ∈ r.entries, 1 ≤ e.invocation ∧ e.invocation ≤ r.returned)
    (hnodup : (r.entries.map fun e => (e.worker, e.invocation)).Nodup)
    (harg : ∀ e ∈ r.entries, e.argument = if e.worker.val = 0 then some e.invocation else none)
    (hfirst : ∀ k, 1 ≤ k → k ≤ r.returned → FirstEntered r.entries k) : r.Sound where
  quiet _ := ⟨hn, hout⟩
  finished hp := absurd hp hphase
  counter ht := by rw [hcounter ht, takingPart_eq_zero.mpr hout, Nat.cast_zero]
  terminating := hterm
  done := hdone
  leaving w hw := absurd (hout w) (by simp [hw])
  joined w hw := absurd (hout w) (by simp [hw])
  notBack hn' := absurd hn (by simp [hn'])
  inside w k hw := absurd (hout w) (by simp [hw])
  root hp := hroot (hp.resolve_right hphase)
  invocation e he := ⟨(hinv e he).1, (hinv e he).2.trans (by omega), fun _ => (hinv e he).2⟩
  nodup := hnodup
  argument := harg
  returned := hreturned
  first := hfirst

/-- Where nobody takes part, every entry is of an invocation that returned. -/
theorem entries_returned (h : r.Sound) (hp : r.phase ≠ .running) :
    ∀ e ∈ r.entries, 1 ≤ e.invocation ∧ e.invocation ≤ r.returned :=
  fun e he => ⟨(h.invocation e he).1, (h.invocation e he).2.2 hp⟩

/-- Where nobody takes part, the counter is back at 0. -/
theorem counter_quiet (h : r.Sound) (hp : r.phase ≠ .running) (ht : r.terminating = false) :
    r.workersDoneCounter = 0 := by
  rw [h.counter ht, takingPart_eq_zero.mpr (h.quiet hp).2, Nat.cast_zero]

/-- The workers are let in. -/
theorem letIn (h : r.Sound) (hp : r.phase = .prepared) :
    Sound { r with
      phase := .running, workersDoneCounter := 0, workersAreDone := false, nothingToDo := false } := by
  have hne : r.phase ≠ .running := by simp [hp]
  have hout := (h.quiet hne).2
  have hret : r.returned + 1 = r.invocation := by simpa [hp, Phase.inStart] using h.returned
  refine ⟨nofun, nofun, fun _ => ?_, ?_, fun _ _ => ?_, h.leaving, h.joined, fun _ w _ => ?_,
    h.inside, fun _ => h.root (.inl hp), fun e he => ?_, h.nodup, h.argument, hret, h.first⟩
  · show (0 : ℤ) = r.takingPart.card
    rw [takingPart_eq_zero.mpr hout, Nat.cast_zero]
  · simpa [hp] using h.terminating
  · exact h.done (by simp [hp, Phase.inStart]) (by simp [hp])
  · -- the entries are all of earlier invocations
    rintro ⟨e, he, -, hk⟩
    have hle := (h.entries_returned hne e he).2
    have hk : e.invocation = r.invocation := hk
    omega
  · exact ⟨(h.invocation e he).1, (h.invocation e he).2.1, fun hr => absurd rfl hr⟩

/-- **Every event keeps the invariant.** -/
theorem event (h : r.Sound) (he : Event r r') : r'.Sound := by
  have hreturned := h.returned
  have hterm := h.terminating
  cases he with
  | start hp =>
    have hne : r.phase ≠ .running := by simp [hp]
    simp only [hp, Phase.inStart] at hreturned hterm
    exact of_quiet (by simp) (h.quiet hne).1 (h.quiet hne).2 (h.counter_quiet hne)
      (by simpa using hterm) (by simp) (by simp) (by simp [Phase.inStart, ← hreturned])
      (h.entries_returned hne) h.nodup h.argument h.first
  | clearDone hp =>
    have hne : r.phase ≠ .running := by simp [hp]
    simp only [hp, Phase.inStart] at hreturned hterm
    exact of_quiet (by simp) (h.quiet hne).1 (h.quiet hne).2 (h.counter_quiet hne)
      (by simpa using hterm) (by simp) (by simp) (by simpa [Phase.inStart] using hreturned)
      (h.entries_returned hne) h.nodup h.argument h.first
  | setRoot hp =>
    have hne : r.phase ≠ .running := by simp [hp]
    have hdone := h.done (by simp [hp, Phase.inStart]) (by simp [hp])
    simp only [hp, Phase.inStart] at hreturned hterm
    exact of_quiet (by simp) (h.quiet hne).1 (h.quiet hne).2 (h.counter_quiet hne)
      (by simpa using hterm) (fun _ _ => hdone) (fun _ => rfl)
      (by simpa [Phase.inStart] using hreturned) (h.entries_returned hne) h.nodup h.argument h.first
  | letIn hp => exact h.letIn hp
  | close hp hd =>
    obtain ⟨hn, hout, hone⟩ := h.finished hp hd
    simp only [hp, Phase.inStart] at hreturned hterm
    refine of_quiet (by simp) hn hout (fun ht => ?_) (by simpa using hterm)
      (by simp [Phase.inStart]) (by simp) (by simpa [Phase.inStart] using hreturned)
      (fun e he => ?_) h.nodup h.argument (fun k hk hk' => ?_)
    · show r.workersDoneCounter = 0
      rw [h.counter ht, takingPart_eq_zero.mpr hout, Nat.cast_zero]
    · have hle := h.invocation e he
      exact ⟨hle.1, hle.2.1.trans hreturned.ge⟩
    · rcases Nat.le_or_eq_of_le_succ hk' with hk' | rfl
      · exact h.first k hk hk'
      · exact hreturned ▸ hone
  | cleanup hp =>
    have hne : r.phase ≠ .running := by simp [hp]
    simp only [hp, Phase.inStart] at hreturned hterm
    exact of_quiet (by simp) (h.quiet hne).1 (h.quiet hne).2 (h.counter_quiet hne)
      (by simpa using hterm) (by simp [Phase.inStart]) (by simp)
      (by simpa [Phase.inStart] using hreturned)
      (h.entries_returned hne) h.nodup h.argument h.first
  | terminate hp =>
    have hne : r.phase ≠ .running := by simp [hp]
    simp only [hp, Phase.inStart] at hreturned hterm
    exact of_quiet (by simp) (h.quiet hne).1 (h.quiet hne).2 (by simp)
      (by simp) (by simp [Phase.inStart]) (by simp)
      (by simpa [Phase.inStart] using hreturned)
      (h.entries_returned hne) h.nodup h.argument h.first
  | join w ht hn hw => exact h.join hn hw
  | joinTerminating ht =>
    have hp := h.terminating.mp ht
    have hne : r.phase ≠ .running := by simp [hp]
    simp only [hp, Phase.inStart] at hreturned
    exact of_quiet hne (h.quiet hne).1 (h.quiet hne).2 (fun hf => absurd (ht.symm.trans hf) (by simp))
      h.terminating (by simp [hp, Phase.inStart]) (by simp [hp])
      (by simpa [hp, Phase.inStart] using hreturned)
      (h.entries_returned hne) h.nodup h.argument h.first
  | enter w hw => exact h.enter hw
  | leave w k hw hd => exact h.leave hw hd
  | finish w hw => exact h.finish hw
  | setDone hd => exact { h with done := fun _ _ _ => hd }

end Sound

end Round

end Cilk.Invocation
