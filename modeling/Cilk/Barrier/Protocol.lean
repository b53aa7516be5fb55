import Cilk.Mutex
import Cilk.TransitionSystem
import Mathlib.Data.Finset.Card
import Mathlib.Data.Fintype.Card

/-!
# The barrier

`Cilk_barrier`, a sense-reversing barrier. A worker flips its own direction,
counts itself under a lock, and either is the last one, resets the counter and
publishes the direction, or spins until the published direction is its own.

Every access to a shared variable is a step of its own, the increment of the
counter being a load and a store. The number of workers is `active_size`. How
often a worker has entered, counted itself and left, and how often a direction
has been published, are ghosts; `barrier_init` is the initial state.
-/

namespace Cilk.Barrier

/-- Where a worker is in `Cilk_barrier`. -/
inductive Pc
  /-- Not inside. -/
  | outside
  /-- Before `Cilk_mutex_wait`. -/
  | wait
  /-- Before the load of `++barrier_counter`, with the lock. -/
  | load
  /-- Before its store. -/
  | store
  /-- Before `Cilk_mutex_signal`. -/
  | signal
  /-- Before the comparison with `active_size`. -/
  | compare
  /-- The last one, before the reset of the counter. -/
  | reset
  /-- The last one, before it publishes its direction. -/
  | publish
  /-- Before the test of the loop on `barrier_release`. -/
  | spin
  deriving DecidableEq

/-- A worker: `barrier_direction`, `local_counter`, and how often it has
entered, counted itself and left. -/
structure Worker where
  pc : Pc := .outside
  direction : Bool := false
  localCounter : ℕ := 0
  entered : ℕ := 0
  arrived : ℕ := 0
  left : ℕ := 0
  deriving DecidableEq

/-- `barrier_lock`, `barrier_counter`, `barrier_release`, the workers, and how
often a direction was published. -/
structure State (n : ℕ) where
  lock : Option (Fin n)
  counter : ℕ
  release : Bool
  worker : Fin n → Worker
  published : ℕ

variable {n : ℕ}

namespace State

/-- `Cilk_barrier_init` and `Cilk_barrier_per_worker_init`. -/
def init (n : ℕ) : State n where
  lock := none
  counter := 0
  release := false
  worker := fun _ => {}
  published := 0

/-- Worker `w` becomes `x`. -/
def become (s : State n) (w : Fin n) (x : Worker) : State n :=
  { s with worker := Function.update s.worker w x }

/-- **The next step of worker `w`**; there is none only where it waits for the
lock. -/
def step (w : Fin n) (s : State n) : Option (State n) :=
  let x := s.worker w
  match x.pc with
  | .outside =>
    some (s.become w { x with pc := .wait, direction := !x.direction, entered := x.entered + 1 })
  | .wait =>
    if s.lock = none then some { s.become w { x with pc := .load } with lock := some w } else none
  | .load => some (s.become w { x with pc := .store, localCounter := s.counter })
  | .store =>
    some { s.become w { x with pc := .signal, localCounter := x.localCounter + 1,
                               arrived := x.arrived + 1 } with counter := x.localCounter + 1 }
  | .signal => some { s.become w { x with pc := .compare } with lock := none }
  | .compare =>
    if x.localCounter = n then some (s.become w { x with pc := .reset })
    else some (s.become w { x with pc := .spin })
  | .reset => some { s.become w { x with pc := .publish } with counter := 0 }
  | .publish =>
    some { s.become w { x with pc := .outside, left := x.left + 1 } with
      release := x.direction, published := s.published + 1 }
  | .spin =>
    if s.release ≠ x.direction then some s
    else some (s.become w { x with pc := .outside, left := x.left + 1 })

end State

/-- The barrier, for `n` workers. -/
def protocol (n : ℕ) : TransitionSystem (State n) (Fin n) where
  init := .init n
  step := State.step

/-! ## The invariant -/

/-- Inside the critical section. -/
def Pc.critical : Pc → Bool
  | .load | .store | .signal => true
  | _ => false

/-- A worker inside the round after `p`, that has counted itself. -/
def Worker.Counted (x : Worker) (p : ℕ) : Prop :=
  x.entered = p + 1 ∧ x.arrived = p + 1 ∧ x.left = p

/-- A worker that has not left round `p`, which is over. -/
def Worker.Leaving (x : Worker) (p : ℕ) : Prop :=
  x.entered = p ∧ x.arrived = p ∧ x.left + 1 = p

/-- **Where a worker is** when `p` rounds are over: it is in round `p`, on its
way out, or has left it, or is in the round after it. -/
def Worker.Placed (x : Worker) (n p : ℕ) : Prop :=
  match x.pc with
  | .outside => x.entered = p ∧ x.arrived = p ∧ x.left = p
  | .wait | .load | .store => x.entered = p + 1 ∧ x.arrived = p ∧ x.left = p
  | .signal | .reset | .publish => x.Counted p
  | .compare => x.Counted p ∨ x.Leaving p ∧ x.localCounter ≠ n
  | .spin => x.Counted p ∨ x.Leaving p

/-- The last worker of a round. -/
def Worker.Last (x : Worker) (n : ℕ) : Prop :=
  match x.pc with
  | .signal | .compare => x.localCounter = n
  | .reset | .publish => True
  | _ => False

/-- How many workers have counted themselves in the round that is going on. -/
def State.arrivals (s : State n) : ℕ :=
  (Finset.univ.filter fun w => (s.worker w).arrived = s.published + 1).card

/-- **The invariant of the barrier.** -/
structure Sound (s : State n) : Prop where
  exclusive : Mutex.Exclusive s.lock fun w => (s.worker w).pc.critical
  release : s.release = s.published.bodd
  direction : ∀ w, (s.worker w).direction = (s.worker w).entered.bodd
  placed : ∀ w, (s.worker w).Placed n s.published
  counter : (∀ w, (s.worker w).pc ≠ .publish) → s.counter = s.arrivals
  reset : ∀ w, (s.worker w).pc = .publish → s.counter = 0
  copied : ∀ w, (s.worker w).pc = .store → (s.worker w).localCounter = s.counter
  all : ∀ w, (s.worker w).Last n → ∀ u, (s.worker u).arrived = s.published + 1
  unique : ∀ w u, (s.worker w).Last n → (s.worker u).Last n → w = u
  alone : ∀ w u, (s.worker w).Last n → (s.worker u).pc.critical = true → u = w
  exists_last : Fin n → (∀ u, (s.worker u).arrived = s.published + 1) →
    ∃ w, (s.worker w).Last n

end Cilk.Barrier
