import Cilk.Mutex
import Cilk.Scheduler.Names

/-!
# The locks of the scheduler

Which locks a worker holds is a function of its program counter, and every
lock is owned by exactly the worker whose program counter says so.
-/

namespace Cilk

variable {W : Type}

/-- The locks of the scheduler. -/
inductive Lock (W : Type)
  | deque (v : W)
  | closure (c : ClosureId)
  deriving DecidableEq

/-- The locks `poll_inlets` runs under, the last taken first. -/
def PollCaller.held (w : W) : PollCaller → List (Lock W)
  | setup t | exit t => [.closure t]
  | handler t _ _ | sync t | abortSlow t => [.closure t, .deque w]
  | closureReturn c p | provablyGood c p => [.closure c, .closure p]

/-- The locks of worker `w` at this program counter, the last taken first. -/
def Control.held (w : W) : Control W → List (Lock W)
  | stealLock v _ => [.deque v]
  | dekkerHead v cl | dekkerTail v cl _ | retract v cl | promote v cl => [.closure cl, .deque v]
  | finishPromote p _ | returnChild _ p _ => [.closure p]
  | poll k => k.held w
  | abortWalk k _ _ path => path.map (fun c => Lock.closure c.1) ++ k.held w
  | handlerLock _ _ _ | handlerRelock _ _ _ | slowLock _ _ => [.deque w]
  | _ => []

namespace State

/-- The owner of a lock. -/
def owner (σ : State W) : Lock W → Option W
  | .deque v => fieldOf σ.deque ReadyDeque.mutexOwner v
  | .closure c => fieldOf σ.closure Closure.mutexOwner c

/-- The locks of a worker. -/
abbrev held (σ : State W) (w : W) : List (Lock W) := (σ.control w).held w

/-- **Mutual exclusion**: the owner fields and the program counters agree,
and no closure to come is locked. -/
structure LocksHeld (σ : State W) : Prop where
  held : Mutex.Held σ.owner σ.held
  fresh : ∀ c, σ.nextClosure ≤ c → σ.owner (.closure c) = none

variable [DecidableEq W] {cfg : Config} {w : W} {σ σ' : State W}

namespace LocksHeld

/-- A worker that does not move holds what it held. -/
theorem held_other {p : Control W} (hcontrol : σ'.control = Function.update σ.control w p) {u : W}
    (hu : u ≠ w) : σ'.held u = σ.held u := by
  rw [State.held, hcontrol, Function.update_of_ne hu]

/-- The worker that moves holds what its place in the code says. -/
theorem held_self {p : Control W} (hcontrol : σ'.control = Function.update σ.control w p) :
    σ'.held w = p.held w := by
  rw [State.held, hcontrol, Function.update_self]

/-- A step that takes no lock and drops none. -/
theorem keep {p : Control W} (h : σ.LocksHeld)
    (hcontrol : σ'.control = Function.update σ.control w p) (hp : p.held w = σ.held w)
    (howner : ∀ l, σ'.owner l = σ.owner l) (hnext : σ.nextClosure ≤ σ'.nextClosure) :
    σ'.LocksHeld where
  held := by
    refine h.held.same (fun u => ?_) howner
    by_cases hu : u = w
    · rw [hu, held_self hcontrol, hp]
    · exact held_other hcontrol hu
  fresh c hc := by
    rw [howner]
    exact h.fresh c (hnext.trans hc)

/-- **A lock that is free is taken.** -/
theorem acquire {p : Control W} (h : σ.LocksHeld) (l : Lock W) (hfree : σ.owner l = none)
    (hcontrol : σ'.control = Function.update σ.control w p) (hp : p.held w = l :: σ.held w)
    (howner : ∀ m, σ'.owner m = if m = l then some w else σ.owner m)
    (hnext : σ.nextClosure ≤ σ'.nextClosure)
    (hl : ∀ c, l = .closure c → c < σ.nextClosure) : σ'.LocksHeld where
  held := by
    refine h.held.acquire w l (fun u hu => held_other hcontrol hu) ?_ hfree howner
    rw [held_self hcontrol, hp]
  fresh c hc := by
    rw [howner, if_neg, h.fresh c (hnext.trans hc)]
    intro he
    exact absurd (hl c he.symm) (Nat.not_lt.mpr (hnext.trans hc))

/-- **A lock that is held is given back.** -/
theorem release {p : Control W} (h : σ.LocksHeld) (l : Lock W)
    (hcontrol : σ'.control = Function.update σ.control w p)
    (hp : (σ.held w).Perm (l :: p.held w))
    (howner : ∀ m, σ'.owner m = if m = l then none else σ.owner m)
    (hnext : σ.nextClosure ≤ σ'.nextClosure) : σ'.LocksHeld where
  held := by
    refine h.held.release w l (fun u hu => held_other hcontrol hu) ?_ howner
    rw [held_self hcontrol]
    exact hp
  fresh c hc := by
    rw [howner, h.fresh c (hnext.trans hc), ite_self]

/-- Both locks that are held are given back. -/
theorem releaseAll {p : Control W} (h : σ.LocksHeld) (l l' : Lock W)
    (hcontrol : σ'.control = Function.update σ.control w p) (hheld : σ.held w = [l, l'])
    (hp : p.held w = []) (howner : ∀ m, σ'.owner m = if m = l ∨ m = l' then none else σ.owner m)
    (hnext : σ.nextClosure ≤ σ'.nextClosure) : σ'.LocksHeld where
  held := by
    refine h.held.releaseAll w l l' (fun u hu => held_other hcontrol hu) hheld ?_ howner
    rw [held_self hcontrol, hp]
  fresh c hc := by
    rw [howner, h.fresh c (hnext.trans hc), ite_self]

/-- The exception handler gives its locks back. -/
theorem handled {t : ClosureId} {g : FrameId} {r : Bytes} {σ₀ : State W} (h : σ.LocksHeld)
    (hcontrol : σ₀.control = σ.control) (hnext : σ₀.nextClosure = σ.nextClosure)
    (hheld : σ.held w = [.closure t, .deque w])
    (hdeque : fieldOf σ₀.deque ReadyDeque.mutexOwner = fieldOf σ.deque ReadyDeque.mutexOwner)
    (hclosure : fieldOf σ₀.closure Closure.mutexOwner = fieldOf σ.closure Closure.mutexOwner)
    (hσ' : Handled w t g r σ₀ σ') : σ'.LocksHeld := by
  cases hσ'
  all_goals
    refine h.releaseAll (w := w) (.closure t) (.deque w) (by simp [hcontrol]; rfl) hheld rfl ?_
      (by simp [hnext])
    rintro (v | c) <;> simp [owner, hdeque, hclosure]
    all_goals simp only [Function.update_apply]

/-- Detaching a parent for an inlet leaves the locks. -/
theorem owner_detach {c : ClosureId} {args : Bytes} (h : σ.LocksHeld) (l : Lock W) :
    (σ.detachFromInlet cfg w c args).owner l = σ.owner l := by
  have hfresh := h.fresh σ.nextClosure le_rfl
  simp [owner] at hfresh
  unfold detachFromInlet
  split
  case isFalse => rfl
  case isTrue =>
    rcases l with v | d <;> simp [owner]
    simp only [Function.update_apply]
    grind

/-- **Every step keeps it.** -/
theorem transition (h : σ.LocksHeld) (hn : σ.Named) (ht : Transition cfg w σ σ') :
    σ'.LocksHeld := by
  have hw := hn.control w
  cases ht
  case stealNone => exact h
  case leave hc _ =>
    refine h.keep (w := w) (p := .exited none) (by simp) ?_ (by simp [owner]) (by simp)
    rcases hc with hc | hc <;> simp [hc, Control.held]
  -- a lock is taken
  case stealPeek v cl hc hne hfree ht =>
    refine h.acquire (.deque v) hfree (by simp; rfl) (by simp [State.held, hc, Control.held]) ?_
      (by simp) (by simp)
    rintro (v | c) <;> simp [owner]
    all_goals simp only [Function.update_apply]
  case slowDeque call t hc hfree _ | handlerDeque t _ _ hc hfree _ =>
    refine h.acquire (.deque w) hfree (by simp; rfl) (by simp [State.held, hc, Control.held]) ?_
      (by simp) (by simp)
    rintro (v | c) <;> simp [owner]
    all_goals simp only [Function.update_apply]
  case stealRunning _ t hc hfree _ _ | setup t hc hfree _ _ | handlerLock t _ _ hc hfree |
      slowSync t hc hfree | slowAbort t hc hfree =>
    rw [hc] at hw
    refine h.acquire (.closure t) hfree (by simp; rfl)
      (by simp [State.held, hc, Control.held, PollCaller.held]) ?_ (by simp)
      (by simpa [Control.closures] using hw)
    rintro (v | c) <;> simp [owner]
    all_goals simp only [Function.update_apply]
  case returnPoll t p i _ hc hfree hσ' _ =>
    rw [hc] at hw
    have ht : t < σ.nextClosure := hw t (by simp [Control.closures])
    cases hσ'
    all_goals
      refine h.acquire (w := w) (p := .poll (.closureReturn t p)) (.closure t) hfree (by simp)
        (by simp [State.held, hc, Control.held, PollCaller.held]) ?_ (by simp) (by simpa using ht)
      rintro (v | c) <;> simp [owner]
      all_goals simp only [Function.update_apply]
  case exitPoll hc hfree _ _ =>
    refine h.acquire (.closure rootClosure) hfree (by simp; rfl)
      (by simp [State.held, hc, Control.held, PollCaller.held]) ?_ (by simp)
      (by simpa using hn.pos)
    rintro (v | c) <;> simp [owner]
    all_goals simp only [Function.update_apply]
  case lockParent t p i is hc hp hfree _ =>
    refine h.acquire (.closure p) hfree (by simp; rfl)
      (by simp [State.held, hc, Control.held]) ?_ (by simp)
      (by simpa using hn.parent t p hp)
    rintro (v | c) <;> simp [owner]
    all_goals simp only [Function.update_apply]
  case walkFirst k i d ds hc hfree | walkDown k i _ _ d ds _ hc hfree =>
    rw [hc] at hw
    refine h.acquire (.closure d) hfree (by simp; rfl)
      (by simp [State.held, hc, Control.held]) ?_ (by simp) ?_
    · rintro (v | c) <;> simp [owner]
      all_goals simp only [Function.update_apply]
    · have hd : d < σ.nextClosure := hw d (by simp [Control.closures])
      simpa using hd
  -- a lock is dropped
  case stealAborted v _ hc _ _ | stealReturning v _ hc _ _ _ | stealReady v _ hc _ _ _ =>
    refine h.release (.deque v) (by simp; rfl) (by simp [State.held, hc, Control.held]) ?_
      (by simp)
    rintro (v | c) <;> simp [owner]
    all_goals simp only [Function.update_apply]
  case promote v cl hc =>
    refine h.release (.deque v) (by simp; rfl) ?_ ?_ (by simp)
    · simp [State.held, hc, Control.held, List.Perm.swap]
    · have hfresh := h.fresh σ.nextClosure le_rfl
      simp [owner] at hfresh
      rintro (v | c) <;> simp [owner]
      all_goals simp only [Function.update_apply]
      grind
  case finishPromote t _ _ hc _ =>
    refine h.release (.closure t) (by simp; rfl) (by simp [State.held, hc, Control.held]) ?_
      (by simp)
    rintro (v | c) <;> simp [owner]
    all_goals simp only [Function.update_apply]
  case pollSetup t hc _ | pollExit t hc _ | pollRelock t _ _ _ hc _ _ _ =>
    refine h.release (.closure t) (by simp; rfl)
      (by simp [State.held, hc, Control.held, PollCaller.held]) ?_ (by simp)
    rintro (v | c) <;> simp [owner]
    all_goals simp only [Function.update_apply]
  case walkUp t _ hc =>
    refine h.release (.closure t) (by simp; rfl)
      (by simp [State.held, hc, Control.held, PollCaller.held]) ?_ (by simp)
    rintro (v | c) <;> simp [owner]
    all_goals simp only [Function.update_apply]
  case slowSetResult t _ hc _ =>
    refine h.release (.deque w) (by simp; rfl)
      (by simp [State.held, hc, Control.held]) ?_ (by simp)
    rintro (v | c) <;> simp [owner]
    all_goals simp only [Function.update_apply]
  case returnRunning t p i _ hc hfree hσ' _ =>
    simp at hfree
    cases hσ'
    all_goals
      refine h.release (w := w) (p := .fetch) (.closure p) (by simp)
        (by simp [State.held, hc, Control.held]) ?_ (by simp)
      rintro (v | c) <;> simp [owner]
      all_goals simp only [Function.update_apply]
      all_goals grind
  case handlerRelock t g r hc hfree hσ' =>
    simp at hfree
    cases hσ'
    all_goals
      refine h.release (w := w) (.deque w) (by simp; rfl)
        (by simp [State.held, hc, Control.held]) ?_ (by simp)
      rintro (v | c) <;> simp [owner]
      all_goals simp only [Function.update_apply]
      all_goals grind
  -- two locks are dropped
  case pollHandler t g r hc _ _ hσ' =>
    exact h.handled (by simp) (by simp) (by simp [State.held, hc, Control.held, PollCaller.held])
      (by simp) (by simp) hσ'
  case retract v t hc =>
    refine h.releaseAll (.closure t) (.deque v) (by simp; rfl)
      (by simp [State.held, hc, Control.held]) (by simp [Control.held]) ?_ (by simp)
    rintro (v | c) <;> simp [owner]
    all_goals simp only [Function.update_apply]
  case pollSuspend t hc _ _ | pollSynced t hc _ _ | pollAbortSlow t hc _ =>
    refine h.releaseAll (.closure t) (.deque w) (by simp; rfl)
      (by simp [State.held, hc, Control.held, PollCaller.held]) (by simp [Control.held]) ?_
      (by simp)
    rintro (v | c) <;> simp [owner]
    all_goals simp only [Function.update_apply]
  case pollReturn c p hc _ _ | pollWake c p hc _ =>
    refine h.releaseAll (.closure c) (.closure p) (by simp; rfl)
      (by simp [State.held, hc, Control.held, PollCaller.held]) (by simp [Control.held]) ?_
      (by simp)
    rintro (v | c) <;> simp [owner]
    all_goals simp only [Function.update_apply]
    all_goals grind
  -- the locks stay as they are
  case walkDone k i hc =>
    cases i
    all_goals
      refine h.keep (w := w) (p := .poll k) (by simp [freeAborted])
        (by simp [State.held, hc, Control.held]) (fun l => ?_) (by simp [freeAborted])
      rcases l with v | c <;> simp [owner, freeAborted]
  case inletAbort k i rest args hc _ _ _ _ =>
    have hset : ((σ.setComplete k.closure rest).runInlet cfg w k.closure i).LocksHeld :=
      h.keep (w := w) (p := .poll k) (by simp [← hc]) (by simp [State.held, hc])
        (by rintro (v | c) <;> simp [owner]) (by simp)
    have howner : ∀ l, (((σ.setComplete k.closure rest).runInlet cfg w k.closure i).detachFromInlet
        cfg w k.closure args).owner l =
        ((σ.setComplete k.closure rest).runInlet cfg w k.closure i).owner l :=
      hset.owner_detach
    refine hset.keep (w := w) (by simp; rfl) (by simp [State.held, hc, Control.held]) ?_ ?_
    · rintro (v | c) <;> rw [← howner] <;> simp [owner]
    · have hnext : ((σ.setComplete k.closure rest).runInlet cfg w k.closure i).nextClosure ≤
          (((σ.setComplete k.closure rest).runInlet cfg w k.closure i).detachFromInlet cfg w
            k.closure args).nextClosure :=
        Named.nextClosure_detachFromInlet
      simpa using hnext
  all_goals
    refine h.keep (w := w) (by simp; rfl) ?_ ?_ (by simp)
    · simp [State.held, Control.held, PollCaller.held, *]
    · rintro (v | c) <;> simp [owner]

/-- In the beginning no lock is held. -/
theorem init (w₀ : W) : (State.init cfg w₀).LocksHeld where
  held := by
    constructor
    · intro w l
      cases l <;> simp [State.held, State.init, owner, fieldOf] <;> split <;> simp [Control.held]
    · intro w
      simp only [State.held, State.init]
      split <;> simp [Control.held]
  fresh c _ := by simp [State.init, owner, fieldOf]

/-- **The locks are exclusive in every reachable state.** -/
theorem reachable {w₀ : W} (h : (scheduler cfg w₀).Reachable σ) : σ.LocksHeld :=
  h.invariant (init w₀) fun _ _ _ hr hl hs =>
    hl.transition (Named.reachable hr) (transition_of_step hs)

end LocksHeld

/-! ## The closure that is polled

A worker that polls the inlets of a closure it does not execute has found
that the closure is not running, and holds its lock. -/

end State

/-- Who polls, and where. -/
def Control.polling : Control W → Option PollCaller
  | poll k | abortWalk k _ _ _ => some k
  | _ => none

/-- The closure is polled by a worker that does not execute it. -/
def PollCaller.foreign : PollCaller → Bool
  | closureReturn _ _ | provablyGood _ _ | exit _ => true
  | _ => false

/-- Who polls holds the closure that is polled. -/
theorem PollCaller.mem_held (w : W) (k : PollCaller) : .closure k.closure ∈ k.held w := by
  cases k <;> simp [closure, held]

/-- A worker in a poll holds the closure that is polled. -/
theorem Control.mem_held_of_polling {w : W} {p : Control W} {k : PollCaller}
    (hk : p.polling = some k) : .closure k.closure ∈ p.held w := by
  cases p <;> simp only [polling, reduceCtorEq, Option.some.injEq] at hk
  all_goals
    subst hk
    simp [held, PollCaller.mem_held]

namespace State

/-- No closure that is polled from outside runs. -/
def Stopped (σ : State W) : Prop :=
  ∀ w k, (σ.control w).polling = some k → k.foreign = true →
    fieldOf σ.closure Closure.status k.closure ≠ .running

namespace Stopped

variable [DecidableEq W] {cfg : Config} {w : W} {σ σ' : State W}

/-- A closure only starts to run when its lock is free. -/
theorem keep {p : Control W} (h : σ.Stopped) (hl : σ.LocksHeld)
    (hcontrol : σ'.control = Function.update σ.control w p)
    (hp : ∀ k, p.polling = some k → k.foreign = true →
      fieldOf σ'.closure Closure.status k.closure ≠ .running)
    (hstatus : ∀ c, fieldOf σ'.closure Closure.status c = .running →
      fieldOf σ.closure Closure.status c = .running ∨ σ.owner (.closure c) = none) :
    σ'.Stopped := by
  intro u k hk hf
  rw [hcontrol, Function.update_apply] at hk
  split at hk
  · exact hp k hk hf
  · intro hrun
    rcases hstatus _ hrun with hrun | hfree
    · exact h u k hk hf hrun
    · exact hl.held.not_mem_of_free hfree (w := u) (Control.mem_held_of_polling hk)

/-- Detaching a parent makes no closure running that is not locked. -/
theorem detach {c : ClosureId} {args : Bytes} (hl : σ.LocksHeld) (d : ClosureId)
    (hd : fieldOf (σ.detachFromInlet cfg w c args).closure Closure.status d = .running) :
    fieldOf σ.closure Closure.status d = .running ∨ σ.owner (.closure d) = none := by
  have hfresh := hl.fresh σ.nextClosure le_rfl
  unfold detachFromInlet at hd
  split at hd
  · simp at hd
    simp only [Function.update_apply] at hd
    grind
  · exact .inl hd

/-- **Every step keeps it**: who polls for another holds the lock. -/
theorem transition (h : σ.Stopped) (hl : σ.LocksHeld) (ht : Transition cfg w σ σ') :
    σ'.Stopped := by
  have hw := h w
  have hfresh := hl.fresh σ.nextClosure le_rfl
  cases ht
  case stealNone => exact h
  case leave =>
    exact h.keep hl (p := .exited none) (by simp; rfl) (by simp [Control.polling])
      (by simp +contextual)
  case pollHandler hσ' | handlerRelock hσ' =>
    cases hσ'
    all_goals
      refine h.keep hl (w := w) (by simp; rfl) (by simp [Control.polling]) fun c hc => ?_
      simp at hc
      try simp only [Function.update_apply] at hc
      grind
  case returnRunning hσ' _ =>
    cases hσ'
    all_goals
      refine h.keep hl (w := w) (p := .fetch) (by simp) (by simp [Control.polling]) fun c hc => ?_
      exact .inl (by simpa using hc)
  case returnPoll c p i _ hc _ hσ' hstatus =>
    refine h.keep hl (w := w) (p := .poll (.closureReturn c p)) ?_ ?_ ?_
    · cases hσ' <;> simp
    · intro k hk _
      obtain rfl : PollCaller.closureReturn c p = k := by simpa [Control.polling] using hk
      exact hstatus
    · cases hσ' <;> exact fun c hc => .inl (by simpa using hc)
  case exitPoll hstatus =>
    refine h.keep hl (by simp; rfl) (fun k hk _ => ?_) fun c hc => .inl (by simpa using hc)
    obtain rfl : PollCaller.exit rootClosure = k := by simpa [Control.polling] using hk
    simpa [PollCaller.closure] using hstatus
  case pollWait c p _ _ _ hstatus =>
    refine h.keep hl (by simp; rfl) (fun k hk _ => ?_) fun c hc => .inl (by simpa using hc)
    obtain rfl : PollCaller.provablyGood c p = k := by simpa [Control.polling] using hk
    simp at hstatus
    simp [PollCaller.closure, hstatus]
  case inletAbort k i rest args hc _ _ _ _ =>
    rw [hc] at hw
    have hset : ((σ.setComplete k.closure rest).runInlet cfg w k.closure i).LocksHeld :=
      hl.keep (w := w) (p := .poll k) (by simp [← hc]) (by simp [State.held, hc])
        (by rintro (v | c) <;> simp [owner]) (by simp)
    have hdetach : ∀ d, fieldOf (((σ.setComplete k.closure rest).runInlet cfg w k.closure
        i).detachFromInlet cfg w k.closure args).closure Closure.status d = .running → _ :=
      detach hset
    simp [owner] at hdetach
    refine h.keep hl (w := w) (by simp; rfl) (fun k' hk hf => ?_) fun c hc => ?_
    · obtain rfl : k = k' := by simpa [Control.polling] using hk
      have hstop := hw k rfl hf
      simp [detachFromInlet, isRunning, hstop]
    · simp at hc
      simpa [owner] using hdetach c hc
  case inletDrop k i rest hc _ _ | inletApply k i rest hc _ _ _ =>
    refine h.keep hl (w := w) (p := .poll k) (by simp [← hc]) (fun k' hk hf => ?_) fun c hc => ?_
    · rw [hc] at hw
      simpa using hw k' hk hf
    · exact .inl (by simpa using hc)
  case walkFirst k _ _ _ hc _ | walkDown k _ _ _ _ _ _ hc _ | walkUp k _ _ _ _ hc =>
    refine h.keep hl (w := w) (by simp; rfl) (fun k' hk hf => ?_) fun c hc => ?_
    · rw [hc] at hw
      simpa using hw k' hk hf
    · exact .inl (by simpa using hc)
  case walkDone k i hc =>
    refine h.keep hl (w := w) (p := .poll k) (by cases i <;> simp [freeAborted])
      (fun k' hk hf => ?_) fun c hc => ?_
    · rw [hc] at hw
      have hstop := hw k' hk hf
      cases i <;> simpa [freeAborted] using hstop
    · cases i <;> exact .inl (by simpa [freeAborted] using hc)
  all_goals
    refine h.keep hl (w := w) (by simp; rfl) ?_ fun c hc => ?_
    · simp [Control.polling, PollCaller.foreign]
    · simp at hc
      try simp only [Function.update_apply] at hc
      grind [owner, mutexOwner_closure]

theorem reachable {w₀ : W} (h : (scheduler cfg w₀).Reachable σ) : σ.Stopped := by
  refine h.invariant (P := Stopped) ?_ fun _ _ _ hr hs hst =>
    hs.transition (LocksHeld.reachable hr) (transition_of_step hst)
  intro w k hk
  simp only [scheduler, State.init] at hk
  split at hk <;> simp [Control.polling] at hk

end Stopped

end State

end Cilk
