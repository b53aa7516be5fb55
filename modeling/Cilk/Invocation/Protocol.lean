import Cilk.TransitionSystem

/-!
# Invocations: the master and its workers

`Cilk_init` creates the workers once; each `Cilk_start` then hands them one
root closure, and `Cilk_terminate_children` sends them home. Between
invocations the workers sleep in `Cilk_worker_wait_for_invocation`. The
master and the workers agree through four variables under `workers_mutex`
and three condition variables, and this module is that protocol as a
transition system.

## Granularity

`terminating`, `nothing_to_do`, `workers_done_counter` and
`workers_are_done` are only ever accessed with `workers_mutex` held, so a
critical section up to its `unlock` or its `pthread_cond_wait` is one step
of the thread that holds the mutex. Everything outside a critical section (a
broadcast, the reset of `done`, the read of `invoke_main`, the entry to the
scheduler) is a step of its own.

`Cilk_scheduler` itself is a place where a worker can be. What is assumed of
it is written into two guards: a worker leaves it only when `done` is set
(`workerStep`, at `scheduler`), and `done` is set only after worker 0 entered
it (`step`, at `setDone`).
-/

namespace Cilk.Invocation

/-- Where the master is. The names follow the functions it runs. -/
inductive MasterPc
  /-- `Cilk_create_children`, about to create thread `i`. -/
  | createChildren (i : ℕ)
  /-- In the user's program, outside the runtime. -/
  | idle
  /-- `Cilk_start`, before `Cilk_global_init_2`. -/
  | globalInit2
  /-- `Cilk_scheduler_init_2`, which clears `done` and initialises the deques. -/
  | schedulerInit2
  /-- `Cilk_create_initial_thread`, whose result becomes `invoke_main`. -/
  | createInitialThread
  /-- `Cilk_wakeup_workers`, before the first lock. -/
  | wakeupLock
  | wakeupBody
  | wakeupBroadcast
  /-- `Cilk_wakeup_workers`, before the second lock. -/
  | doneLock
  /-- The test of the loop on `workers_are_done`, with the mutex. -/
  | doneTest
  /-- In `pthread_cond_wait (workers_done_cond)`. -/
  | doneAsleep
  /-- Woken, and waiting to get the mutex back. -/
  | doneWoken
  /-- `Cilk_wakeup_workers` has returned. -/
  | globalCleanup
  | schedulerTerminate2
  /-- `Cilk_terminate_children`, before the lock. -/
  | terminateLock
  | terminateBody
  | terminateBroadcastFirst
  | terminateBroadcastOthers
  /-- `pthread_join` of worker `i`. -/
  | join (i : ℕ)
  | terminated
  deriving DecidableEq

/-- Where a worker is. -/
inductive WorkerPc
  /-- `pthread_create` has not been called. -/
  | unborn
  /-- `create_worker_state`. -/
  | createWorkerState
  /-- The test of the loop of `Cilk_child_main`. -/
  | loopTest
  /-- `Cilk_worker_wait_for_invocation`, before the lock. -/
  | waitLock
  /-- The test of its loop, with the mutex. -/
  | waitTest
  /-- In `pthread_cond_wait (my_cond)`. -/
  | waitAsleep
  /-- Woken, and waiting to get the mutex back. -/
  | waitWoken
  /-- Worker 0, about to wake the others. -/
  | broadcastOthers
  /-- Back in `Cilk_child_main`, about to test `local_terminating`. -/
  | enterTest
  /-- Inside `Cilk_scheduler`. The number of the invocation is a ghost. -/
  | scheduler (k : ℕ)
  /-- `Cilk_worker_is_done`, before the lock. -/
  | doneLock
  | doneBody
  /-- Out of the loop of `Cilk_child_main`. -/
  | cleanup
  | exited
  deriving DecidableEq

/-- A thread of the pool: its place and its local variable. -/
structure Worker where
  /-- Where the worker is. -/
  pc : WorkerPc := .unborn
  /-- `local_terminating`. -/
  localTerminating : Bool := false
  deriving DecidableEq

/-- The threads that take `workers_mutex`. -/
inductive Agent (n : ℕ)
  | master
  | worker (w : Fin n)
  deriving DecidableEq

variable {n : ℕ}

/-- One entry to `Cilk_scheduler`: who, in which invocation, and with which
closure as its argument. -/
structure Entry (n : ℕ) where
  /-- The worker that enters. -/
  worker : Fin n
  /-- The invocation it enters. -/
  invocation : ℕ
  /-- The argument, `NULL` for every worker but 0. Root closures are named by
  the invocation `Cilk_create_initial_thread` made them for. -/
  argument : Option ℕ
  deriving DecidableEq

/-- Worker `w` has entered the scheduler in invocation `k`. -/
def Entered (entries : List (Entry n)) (w : Fin n) (k : ℕ) : Prop :=
  ∃ e ∈ entries, e.worker = w ∧ e.invocation = k

/-- Worker 0 has entered the scheduler in invocation `k`. -/
def FirstEntered (entries : List (Entry n)) (k : ℕ) : Prop :=
  ∃ e ∈ entries, e.worker.val = 0 ∧ e.invocation = k

instance (entries : List (Entry n)) (w : Fin n) (k : ℕ) : Decidable (Entered entries w k) :=
  inferInstanceAs (Decidable (∃ e ∈ entries, _))

instance (entries : List (Entry n)) (k : ℕ) : Decidable (FirstEntered entries k) :=
  inferInstanceAs (Decidable (∃ e ∈ entries, _))

/-- The shared variables of the protocol, the place of every thread, and the
history of the invocations. -/
structure State (n : ℕ) where
  /-- The owner of `workers_mutex`. -/
  mutex : Option (Agent n)
  /-- `terminating` -/
  terminating : Bool
  /-- `nothing_to_do` -/
  nothingToDo : Bool
  /-- `workers_done_counter` -/
  workersDoneCounter : ℤ
  /-- `workers_are_done` -/
  workersAreDone : Bool
  /-- `done`, which ends the loop of `Cilk_scheduler` -/
  done : Bool
  /-- `invoke_main`, the root closure -/
  invokeMain : Option ℕ
  /-- Where the master is. -/
  master : MasterPc
  /-- The workers, by `self`. -/
  worker : Fin n → Worker
  /-- How many times `Cilk_start` was called. -/
  invocation : ℕ
  /-- How many times `Cilk_wakeup_workers` returned. -/
  returned : ℕ
  /-- The entries to `Cilk_scheduler` so far, latest first. -/
  entries : List (Entry n)

namespace State

/-- `init_sync_variables`. Neither `done` nor `invoke_main` is written there:
`done` starts with what the memory held. -/
def initial (n : ℕ) (done : Bool) : State n where
  mutex := none
  terminating := false
  nothingToDo := true
  workersDoneCounter := 0
  workersAreDone := false
  done := done
  invokeMain := none
  master := .createChildren 0
  worker := fun _ => {}
  invocation := 0
  returned := 0
  entries := []

/-- Worker `w` goes on at `pc`. -/
def goto (s : State n) (w : Fin n) (pc : WorkerPc) : State n :=
  { s with worker := Function.update s.worker w { s.worker w with pc := pc } }

/-- Worker `w` goes on at `pc`, with a new value of `local_terminating`. -/
def gotoWith (s : State n) (w : Fin n) (pc : WorkerPc) (t : Bool) : State n :=
  { s with worker := Function.update s.worker w ⟨pc, t⟩ }

/-- Wake up the workers that sleep on `cond`. -/
def wake (s : State n) (cond : Fin n → Bool) : State n :=
  { s with worker := fun w =>
      if cond w && (s.worker w).pc == .waitAsleep then { s.worker w with pc := .waitWoken }
      else s.worker w }

/-- `pthread_cond_broadcast (wakeup_first_worker_cond)`: only worker 0 waits
on this condition. -/
def broadcastFirst (s : State n) : State n := s.wake (fun w => w.val == 0)

/-- `pthread_cond_broadcast (wakeup_other_workers_cond)` -/
def broadcastOthers (s : State n) : State n := s.wake (fun w => w.val != 0)

/-- `pthread_cond_signal (workers_done_cond)`: the master is the only thread
that waits on it. -/
def signalDone (s : State n) : State n :=
  if s.master = .doneAsleep then { s with master := .doneWoken } else s

/-- The call `Cilk_scheduler (ws, …)` of `Cilk_child_main`. -/
def enter (s : State n) (w : Fin n) : State n :=
  let argument := if w.val = 0 then s.invokeMain else none
  { s with entries := ⟨w, s.invocation, argument⟩ :: s.entries }.goto w (.scheduler s.invocation)

/-- The body of `Cilk_worker_is_done`, between `lock` and `unlock`. -/
def workerIsDone (s : State n) (w : Fin n) : State n :=
  let s := { s with nothingToDo := true, workersDoneCounter := s.workersDoneCounter - 1 }
  let s := if s.workersDoneCounter ≤ 0 then { s with workersAreDone := true }.signalDone else s
  { s with mutex := none }.gotoWith w .loopTest s.terminating

end State

open Invocation.State

/-- A step of the master. At `idle` the program chooses: `true` calls
`Cilk_start`, `false` calls `Cilk_terminate`. -/
def masterStep (start : Bool) (s : State n) : Option (State n) :=
  match s.master with
  | .createChildren i =>
    if h : i < n then
      some { s.goto ⟨i, h⟩ .createWorkerState with master := .createChildren (i + 1) }
    else some { s with master := .idle }
  | .idle =>
    if start then some { s with invocation := s.invocation + 1, master := .globalInit2 }
    else some { s with master := .terminateLock }
  | .globalInit2 => some { s with master := .schedulerInit2 }
  | .schedulerInit2 => some { s with done := false, master := .createInitialThread }
  | .createInitialThread =>
    some { s with invokeMain := some s.invocation, master := .wakeupLock }
  | .wakeupLock =>
    if s.mutex = none then some { s with mutex := some .master, master := .wakeupBody } else none
  | .wakeupBody =>
    some { s with
      workersDoneCounter := 0, workersAreDone := false, nothingToDo := false
      mutex := none, master := .wakeupBroadcast }
  | .wakeupBroadcast => some { s.broadcastFirst with master := .doneLock }
  | .doneLock =>
    if s.mutex = none then some { s with mutex := some .master, master := .doneTest } else none
  | .doneTest =>
    if s.workersAreDone then
      some { s with mutex := none, returned := s.returned + 1, master := .globalCleanup }
    else some { s with mutex := none, master := .doneAsleep }
  | .doneAsleep => none
  | .doneWoken =>
    if s.mutex = none then some { s with mutex := some .master, master := .doneTest } else none
  | .globalCleanup => some { s with master := .schedulerTerminate2 }
  | .schedulerTerminate2 => some { s with master := .idle }
  | .terminateLock =>
    if s.mutex = none then some { s with mutex := some .master, master := .terminateBody }
    else none
  | .terminateBody =>
    some { s with terminating := true, mutex := none, master := .terminateBroadcastFirst }
  | .terminateBroadcastFirst =>
    some { s.broadcastFirst with master := .terminateBroadcastOthers }
  | .terminateBroadcastOthers => some { s.broadcastOthers with master := .join 0 }
  | .join i =>
    if h : i < n then
      if (s.worker ⟨i, h⟩).pc = .exited then some { s with master := .join (i + 1) } else none
    else some { s with master := .terminated }
  | .terminated => none

/-- A step of worker `w`: `Cilk_child_main` and the two functions it calls. -/
def workerStep (w : Fin n) (s : State n) : Option (State n) :=
  match (s.worker w).pc with
  | .unborn => none
  | .createWorkerState => some (s.gotoWith w .loopTest false)
  | .loopTest => some (s.goto w (if (s.worker w).localTerminating then .cleanup else .waitLock))
  | .waitLock =>
    if s.mutex = none then some ({ s with mutex := some (.worker w) }.goto w .waitTest) else none
  | .waitTest =>
    if !s.terminating && s.nothingToDo then some ({ s with mutex := none }.goto w .waitAsleep)
    else
      some ({ s with workersDoneCounter := s.workersDoneCounter + 1, mutex := none }.gotoWith w
        (if w.val = 0 then .broadcastOthers else .enterTest) s.terminating)
  | .waitAsleep => none
  | .waitWoken =>
    if s.mutex = none then some ({ s with mutex := some (.worker w) }.goto w .waitTest) else none
  | .broadcastOthers => some (s.broadcastOthers.goto w .enterTest)
  | .enterTest => some (if (s.worker w).localTerminating then s.goto w .loopTest else s.enter w)
  | .scheduler _ => if s.done then some (s.goto w .doneLock) else none
  | .doneLock =>
    if s.mutex = none then some ({ s with mutex := some (.worker w) }.goto w .doneBody) else none
  | .doneBody => some (s.workerIsDone w)
  | .cleanup => some (s.goto w .exited)
  | .exited => none

/-- What can happen next, and who does it. -/
inductive Action (n : ℕ)
  /-- The master goes on; the flag is its choice at `idle`. -/
  | master (start : Bool)
  /-- Worker `w` goes on. -/
  | worker (w : Fin n)
  /-- A spurious wakeup of the master. -/
  | spuriousMaster
  /-- A spurious wakeup of worker `w`. -/
  | spuriousWorker (w : Fin n)
  /-- The scheduler sets `done`. -/
  | setDone
  deriving DecidableEq

/-- One step of the whole program. -/
def step : Action n → State n → Option (State n)
  | .master start, s => masterStep start s
  | .worker w, s => workerStep w s
  | .spuriousMaster, s =>
    if s.master = .doneAsleep then some { s with master := .doneWoken } else none
  | .spuriousWorker w, s =>
    if (s.worker w).pc = .waitAsleep then some (s.goto w .waitWoken) else none
  | .setDone, s =>
    if FirstEntered s.entries s.invocation ∧ s.done = false then some { s with done := true } else none

/-- **The invocation protocol** of `n` workers and a program that starts any
number of invocations and then terminates, or never does. -/
def protocol (n : ℕ) (done : Bool) : TransitionSystem (State n) (Action n) where
  init := .initial n done
  step := step

end Cilk.Invocation
