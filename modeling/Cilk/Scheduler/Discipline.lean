import Cilk.Scheduler.Frames

/-!
# What the locks guard

The lock of a closure guards its fields, but for the back link to the deque
the closure is in, which goes with the list of the deque. The lock of a deque
guards that list, and the head pointer of the cache of the worker whose deque
it is. A worker that touches one of these without having the lock before the
step has found the lock free.

Two places do without a lock. `setup_for_execution` resets the head of its own
cache, while nothing runs there, and `invoke_main` frees its own closure at the
end.
-/

namespace Cilk

variable {W : Type}

/-- The fields of a closure that its lock guards. -/
def Closure.guarded (k : Closure W) : Closure W :=
  { k with mutexOwner := none, ownerReadyDeque := none }

namespace State

variable [DecidableEq W] {cfg : Config} {w w₀ : W} {σ σ' : State W}

/-- The lock is the worker's, or nobody's. -/
def MayTake (σ : State W) (w : W) (l : Lock W) : Prop :=
  σ.owner l = none ∨ σ.owner l = some w

omit [DecidableEq W] in
theorem LocksHeld.mayTake (hl : σ.LocksHeld) {l : Lock W} (h : l ∈ σ.held w) : σ.MayTake w l :=
  .inr ((hl.held.mem_held w l).mp h)

/-- A step changes what the lock of a closure guards only under that lock, or
where `invoke_main` removes its closure. -/
theorem guarded_step (hl : σ.LocksHeld) (c : ClosureId) (ht : Transition cfg w σ σ') :
    (σ'.closure c).guarded = (σ.closure c).guarded ∨ σ.MayTake w (.closure c) ∨
      σ.control w = .remove ∧ (σ.deque w).closures.getLast? = some c := by
  -- the step changes the closures of a list, whose locks it may take
  have hmany : ∀ l : List ClosureId, (∀ t ∈ l, σ.MayTake w (.closure t)) →
      (c ∉ l → (σ'.closure c).guarded = (σ.closure c).guarded) →
      (σ'.closure c).guarded = (σ.closure c).guarded ∨ σ.MayTake w (.closure c) ∨
        σ.control w = .remove ∧ (σ.deque w).closures.getLast? = some c := by
    intro l hown hother
    by_cases hc : c ∈ l
    · exact .inr (.inl (hown c hc))
    · exact .inl (hother hc)
  have hnew : σ.MayTake w (.closure σ.nextClosure) := .inl (hl.fresh _ le_rfl)
  have hheld : ∀ {q : Control W} {l : Lock W}, σ.control w = q → l ∈ q.held w →
      σ.MayTake w l := by
    rintro q l rfl hl'
    exact hl.mayTake hl'
  cases ht
  case walkDone i hc =>
    cases i <;> exact .inl rfl
  -- only the back link changes
  case fetchSome t _ _ _ | insert t _ _ =>
    refine .inl ?_
    by_cases hc : c = t
    · subst hc
      simp [Closure.guarded]
    · simp [hc]
  case remove t hc _ hb =>
    by_cases hct : c = t
    · exact .inr (.inr ⟨hc, hct ▸ hb⟩)
    · exact .inl (by simp [hct])
  -- the lock of a closure is free
  case stealReady t _ hfree _ _ | stealRunning t _ hfree _ _ | abortSuspend t _ hfree _ _ _ |
      abortReturn t _ hfree _ _ _ | setup t _ hfree _ _ | handlerLock t _ _ _ hfree |
      slowSync t _ hfree | slowSetResult t _ _ hfree | slowAbort t _ hfree |
      walkFirst t _ _ hfree | walkDown t _ _ _ hfree | lockParent t _ _ _ _ hfree _ =>
    refine hmany [t] (by simpa using .inl hfree) fun hct => ?_
    simp [List.mem_singleton.not.mp hct, PollCaller.closure]
  case exitRunning hfree _ _ | exitPoll hfree _ _ =>
    refine hmany [rootClosure] (by simpa using .inl hfree) fun hct => ?_
    simp [List.mem_singleton.not.mp hct]
  case handlerRelock t _ _ hc hfree hσ' =>
    refine hmany [t] (by simpa using .inl hfree) fun hct => ?_
    cases hσ' <;> simp [List.mem_singleton.not.mp hct]
  -- the worker has the lock
  case retract t hc | finishPromote t _ _ hc _ =>
    have ht := hheld (l := .closure t) hc (by simp [Control.held])
    refine hmany [t] (by simpa using ht) fun hct => ?_
    simp [List.mem_singleton.not.mp hct]
  case pollSetup t hc _ | pollRelock t _ _ _ hc _ _ _ | pollSuspend t hc _ _ |
      pollSynced t hc _ _ | pollAbortSlow t hc _ | pollExit t hc _ =>
    have ht := hheld (l := .closure t) hc (by simp [Control.held, PollCaller.held])
    refine hmany [t] (by simpa using ht) fun hct => ?_
    simp [List.mem_singleton.not.mp hct]
  case pollHandler t _ _ hc _ _ hσ' =>
    have ht := hheld (l := .closure t) hc (by simp [Control.held, PollCaller.held])
    refine hmany [t] (by simpa using ht) fun hct => ?_
    cases hσ' <;> simp [List.mem_singleton.not.mp hct]
  case pollWait d p hc _ _ _ | pollReturn d p hc _ _ | pollWake d p hc _ =>
    have hp := hheld (l := .closure p) hc (by simp [Control.held, PollCaller.held])
    have hd := hheld (l := .closure d) hc (by simp [Control.held, PollCaller.held])
    refine hmany [p, d] (by simpa using ⟨hp, hd⟩) fun hct => ?_
    simp at hct
    simp [hct]
  case returnRunning d p _ _ hc hfree hσ' _ | returnPoll d p _ _ hc hfree hσ' _ =>
    have hp := hheld (l := .closure p) hc (by simp [Control.held])
    refine hmany [p, d] (by simpa using ⟨hp, .inl hfree⟩) fun hct => ?_
    simp at hct
    cases hσ' <;> simp [hct]
  case inletDrop k _ _ hc _ _ | inletApply k _ _ hc _ _ _ =>
    have hk := hheld (l := .closure k.closure) hc (k.mem_held w)
    refine hmany [k.closure] (by simpa using hk) fun hct => ?_
    simp [List.mem_singleton.not.mp hct]
  case walkUp d path hc =>
    have hd := hheld (l := .closure d) hc (by simp [Control.held])
    refine hmany [d] (by simpa using hd) fun hct => ?_
    simp [List.mem_singleton.not.mp hct]
  -- a closure is created
  case promote v t hc =>
    have ht := hheld (l := .closure t) hc (by simp [Control.held])
    refine hmany [t, σ.nextClosure] (by simpa using ⟨ht, hnew⟩) fun hct => ?_
    simp at hct
    simp [hct]
  case inletAbort k i rest args hc _ _ _ _ =>
    have hk := hheld (l := .closure k.closure) hc (k.mem_held w)
    refine hmany [k.closure, σ.nextClosure] (by simpa using ⟨hk, hnew⟩) fun hct => ?_
    simp at hct
    unfold detachFromInlet
    split <;> simp [hct]
  all_goals exact .inl rfl

/-- A step changes the list of a deque, and the head of the cache that goes with
it, only under the lock of the deque, or where the worker sets up its cache. -/
theorem deque_step (hsound : σ.Sound) (v : W) (ht : Transition cfg w σ σ') :
    (σ'.deque v).closures = (σ.deque v).closures ∧ (σ'.cache v).head = (σ.cache v).head ∨
      σ.MayTake w (.deque v) ∨
      v = w ∧ (σ'.deque v).closures = (σ.deque v).closures ∧ ∃ t, σ.control w = .execute t := by
  obtain ⟨-, hl, -, -⟩ := id hsound
  have hheld : ∀ {q : Control W} {l : Lock W}, σ.control w = q → l ∈ q.held w →
      σ.MayTake w l := by
    rintro q l rfl hl'
    exact hl.mayTake hl'
  -- the step changes one deque, which it may lock
  have hone : ∀ u, σ.MayTake w (.deque u) →
      (v ≠ u → (σ'.deque v).closures = (σ.deque v).closures ∧
        (σ'.cache v).head = (σ.cache v).head) →
      (σ'.deque v).closures = (σ.deque v).closures ∧ (σ'.cache v).head = (σ.cache v).head ∨
        σ.MayTake w (.deque v) ∨ v = w ∧ (σ'.deque v).closures = (σ.deque v).closures ∧
          ∃ t, σ.control w = .execute t := by
    intro u hown hother
    by_cases hv : v = u
    · exact .inr (.inl (hv ▸ hown))
    · exact .inl (hother hv)
  cases ht
  case fetchSome hfree _ | insert hfree | remove hfree _ =>
    exact hone w (.inl hfree) fun hv => by simp [hv]
  case setup t hc _ _ _ =>
    by_cases hv : v = w
    · exact .inr (.inr ⟨hv, by simp, t, hc⟩)
    · exact .inl (by simp [hv])
  case stealReady u _ hc _ _ _ | promote u _ hc =>
    exact hone u (hheld hc (by simp [Control.held])) fun hv => by simp [hv]
  case pollSuspend hc _ _ =>
    exact hone w (hheld hc (by simp [Control.held, PollCaller.held])) fun hv => by simp [hv]
  case pollHandler hc _ _ hσ' =>
    refine hone w (hheld hc (by simp [Control.held, PollCaller.held])) fun hv => ?_
    cases hσ' <;> simp [hv, -modifyCacheOf_cache]
  case handlerRelock hc _ hσ' =>
    refine hone w (hheld hc (by simp [Control.held])) fun hv => ?_
    cases hσ' <;> simp [hv, -modifyCacheOf_cache]
  case returnRunning hσ' _ | returnPoll hσ' _ =>
    cases hσ' <;> exact .inl (by simp [-modifyCacheOf_cache])
  case walkDone i _ => cases i <;> exact .inl ⟨rfl, rfl⟩
  case inletAbort k i rest args hc hnext _ _ _ =>
    by_cases hdetach : fieldOf σ.closure Closure.status k.closure = .running ∧
        σ.atTopOfStack k.closure = false
    · -- only the exception handler detaches, and has locked its deque
      have hk := (Placed.handler_of_running hsound hc hdetach.1 hdetach.2).1
      have hlock : ((σ.control w).role : Role W).locks w = some w := by
        rw [hc, show (Control.poll k).role = k.role from rfl, hk]
        rfl
      refine hone w (hl.mayTake (Control.deque_mem_held hlock)) fun hv => ?_
      simp
      unfold detachFromInlet
      split <;> simp [hv]
    · refine .inl ?_
      simp
      unfold detachFromInlet
      rw [if_neg (by simpa [isRunning, atTopOfStack] using hdetach)]
      simp
  all_goals exact .inl (by simp [-modifyCacheOf_cache])

/-- The tail of a cache and the stack are the worker's own. -/
theorem stack_step {v : W} (hv : v ≠ w) (ht : Transition cfg w σ σ') :
    (σ'.cache v).tail = (σ.cache v).tail ∧ (σ'.cache v).stack = (σ.cache v).stack := by
  cases ht
  case pollHandler hσ' | handlerRelock hσ' => cases hσ' <;> simp [-modifyCacheOf_cache]
  case returnRunning hσ' _ | returnPoll hσ' _ => cases hσ' <;> simp [-modifyCacheOf_cache]
  case walkDone i _ => cases i <;> exact ⟨rfl, rfl⟩
  all_goals simp [hv, -modifyCacheOf_cache]

end State

section Results

variable [DecidableEq W] {cfg : Config} {w₀ w : W} {σ σ' : State W} {a : Action W}

/-- **The lock of a closure guards the closure.** A step of a worker changes a
field of a closure only where the worker has the lock of the closure, or finds
it free, but for the root closure, which `invoke_main` frees at its end. -/
theorem closure_changes_under_lock (hr : (scheduler cfg w₀).Reachable σ)
    (hst : State.step cfg (w, a) σ = some σ') (c : ClosureId)
    (hc : (σ'.closure c).guarded ≠ (σ.closure c).guarded) :
    σ.MayTake w (.closure c) ∨ c = rootClosure ∧ σ.control w = .remove := by
  have ht := State.transition_of_step hst
  refine ((State.guarded_step (State.LocksHeld.reachable hr) c ht).resolve_left hc).imp_right ?_
  rintro ⟨hremove, hb⟩
  exact ⟨(State.Framed.reachable hr).eq_root_of_remove (State.Stacked.reachable hr)
    (State.Sound.reachable hr).placed hremove hb, hremove⟩

/-- A thief registers the child that it has promoted. -/
theorem closure_changes_under_lock_stolen : ∃ σ σ' : State (Fin 2),
    State.step .small (1, .capture [0]) σ = some σ' ∧
    (σ'.closure 0).joinCounter ≠ (σ.closure 0).joinCounter ∧
    (σ.MayTake 1 (.closure 0) ∨ 0 = rootClosure ∧ σ.control 1 = .remove) := by
  obtain ⟨σ, hr, hp⟩ := TransitionSystem.Reachable.of_eval (M := scheduler .small (0 : Fin 2))
    stealRoot
    (fun σ => ((State.step .small (1, .capture [0]) σ).map fun σ' =>
      (σ'.closure 0).joinCounter != (σ.closure 0).joinCounter) == some true) (by decide +kernel)
  obtain ⟨σ', hst, hne⟩ := Option.map_eq_some_iff.mp (beq_iff_eq.mp hp)
  have hne := bne_iff_ne.mp hne
  exact ⟨σ, σ', hst, hne, closure_changes_under_lock hr hst 0 fun he =>
    hne (by simpa [Closure.guarded] using congrArg Closure.joinCounter he)⟩

/-- **The lock of a deque guards the deque.** A step of a worker changes the list
of a deque only where the worker has the lock of the deque, or finds it free; and
a head pointer likewise, unless the worker resets its own. The tail of a cache
and the frames on its stack change with the steps of one worker only. -/
theorem deque_changes_under_lock (hr : (scheduler cfg w₀).Reachable σ)
    (hst : State.step cfg (w, a) σ = some σ') (v : W) :
    ((σ'.deque v).closures ≠ (σ.deque v).closures → σ.MayTake w (.deque v)) ∧
      ((σ'.cache v).head ≠ (σ.cache v).head →
        σ.MayTake w (.deque v) ∨ v = w ∧ ∃ t, σ.control w = .execute t) ∧
      (v ≠ w → (σ'.cache v).tail = (σ.cache v).tail ∧ (σ'.cache v).stack = (σ.cache v).stack) := by
  have ht := State.transition_of_step hst
  have hstep := State.deque_step (State.Sound.reachable hr) v ht
  refine ⟨fun hne => ?_, fun hne => ?_, fun hv => State.stack_step hv ht⟩
  · rcases hstep with ⟨hd, -⟩ | hown | ⟨-, hd, -⟩
    · exact absurd hd hne
    · exact hown
    · exact absurd hd hne
  · rcases hstep with ⟨-, hh⟩ | hown | ⟨hv, -, ht⟩
    · exact absurd hh hne
    · exact .inl hown
    · exact .inr ⟨hv, ht⟩

/-- A thief takes `invoke_main` off the deque of its victim. -/
theorem deque_changes_under_lock_stolen : ∃ σ σ' : State (Fin 2),
    State.step .small (1, .go) σ = some σ' ∧
    (σ'.deque 0).closures ≠ (σ.deque 0).closures ∧ σ.MayTake 1 (.deque 0) := by
  obtain ⟨σ, hr, hp⟩ := TransitionSystem.Reachable.of_eval (M := scheduler .small (0 : Fin 2))
    (stealRoot.take 10)
    (fun σ => ((State.step .small (1, .go) σ).map fun σ' =>
      (σ'.deque 0).closures != (σ.deque 0).closures) == some true) (by decide +kernel)
  obtain ⟨σ', hst, hne⟩ := Option.map_eq_some_iff.mp (beq_iff_eq.mp hp)
  have hne := bne_iff_ne.mp hne
  exact ⟨σ, σ', hst, hne, (deque_changes_under_lock hr hst 0).1 hne⟩

end Results

end Cilk
