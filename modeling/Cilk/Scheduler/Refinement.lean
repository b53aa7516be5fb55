import Cilk.Scheduler.Locks
import Cilk.Scheduler.Moves

/-!
# The scheduler moves placements

`State.place` reads a placement off a state of the scheduler, and every
transition of the scheduler is a move of its placement, or a few of them, or
none. So the placement of every reachable state is valid.
-/

namespace Cilk

variable {W : Type}

/-- What a worker is doing with closures while it polls. -/
def PollCaller.role : PollCaller → Role W
  | setup t => .starting t
  | handler t _ _ => .handling t
  | sync t | abortSlow t => .slow t
  | closureReturn c p => .returning c (some p)
  | provablyGood c p => .waking c p
  | exit _ => .running

/-- What a worker at this program counter is doing with closures. -/
def Control.role : Control W → Role W
  | fetch | exited none => .fetching
  | steal => .away
  | stealLock v cl => .peeking v cl
  | dekkerHead v cl => .dekking v cl none
  | dekkerTail v cl h => .dekking v cl (some h)
  | retract v cl => .retracting v cl
  | promote v cl => .promoting v cl
  | finishPromote p c => .detached p c
  | execute t | exited (some t) => .executing t
  | poll k | abortWalk k _ _ _ => k.role
  | insert t => .starting t
  | returnLock c => .returning c none
  | returnChild c p _ => .returning c (some p)
  | user | pushFrame | exitLock _ => .running
  | popCheck _ _ | handlerDeque _ _ => .popping
  | handlerLock t _ _ | handlerRelock t _ _ => .trapped t
  | unwind => .unwinding
  | slowDeque _ => .calling
  | slowLock _ t => .slow t
  | slowReturn _ => .leaving
  | remove => .removing

/-- Only the end of `Closure_return` wakes a parent up. -/
theorem Control.polling_of_waking {p : Control W} {t q : ClosureId} (h : p.role = .waking t q) :
    p.polling = some (.provablyGood t q) := by
  cases p
  case poll k | abortWalk k _ _ _ => cases k <;> simp_all [role, PollCaller.role, polling]
  case exited t => cases t <;> simp_all [role]
  all_goals simp_all [role]

/-- Only a thief between its two critical sections has a detached parent. -/
theorem Control.of_role_detached {p : Control W} {t c : ClosureId}
    (h : p.role = .detached t c) : p = .finishPromote t c := by
  cases p
  case poll k | abortWalk k _ _ _ => cases k <;> simp_all [role, PollCaller.role]
  case exited t => cases t <;> simp_all [role]
  all_goals simp_all [role]

/-- A closure that was set up is polled, or goes to the deque. -/
theorem Control.of_role_starting {p : Control W} {t : ClosureId} (h : p.role = .starting t) :
    (∃ k, p.polling = some k ∧ k.closure = t) ∨ p = .insert t := by
  cases p
  case poll k | abortWalk k _ _ _ =>
    cases k <;> simp_all [role, PollCaller.role, polling, PollCaller.closure]
  case exited t => cases t <;> simp_all [role]
  all_goals simp_all [role]

/-- The closure has no child, and no inlet pending. -/
def Closure.idle (k : Closure W) : Bool :=
  k.joinCounter == 0 && k.incompleteInlets == [] && k.completeInlets == []

/-- An update of other fields does not change whether the closure is idle. -/
@[simp] theorem idle_mk (f : ClosureId → Closure W) (c : ClosureId) (m : Option W)
    (s : ClosureStatus) (v : Option Bytes) (p : Option ClosureId) (g : Option FrameId)
    (a : AbortStatus) (h d : Option W) (l : Bool) :
    Closure.idle
      { mutexOwner := m, joinCounter := fieldOf f Closure.joinCounter c, status := s,
        returnValue := v, completeInlets := fieldOf f Closure.completeInlets c,
        incompleteInlets := fieldOf f Closure.incompleteInlets c, parent := p, frame := g,
        abortStatus := a, cache := h, ownerReadyDeque := d, magic := l } =
      fieldOf f Closure.idle c := rfl

/-- A new closure is idle. -/
@[simp] theorem idle_new (m : Option W) (s : ClosureStatus) (v : Option Bytes)
    (p : Option ClosureId) (g : Option FrameId) (a : AbortStatus) (h d : Option W) (l : Bool) :
    Closure.idle
      { mutexOwner := m, joinCounter := 0, status := s, returnValue := v, completeInlets := [],
        incompleteInlets := [], parent := p, frame := g, abortStatus := a, cache := h,
        ownerReadyDeque := d, magic := l } = true := rfl

/-- A closure with a complete inlet is not. -/
@[simp] theorem idle_cons (i : InletClosure) (is : List InletClosure) (m : Option W)
    (s : ClosureStatus) (v : Option Bytes) (n : ℕ) (js : List InletClosure) (p : Option ClosureId)
    (g : Option FrameId) (a : AbortStatus) (h d : Option W) (l : Bool) :
    Closure.idle
      { mutexOwner := m, joinCounter := n, status := s, returnValue := v, completeInlets := i :: is,
        incompleteInlets := js, parent := p, frame := g, abortStatus := a, cache := h,
        ownerReadyDeque := d, magic := l } = false := by
  simp [Closure.idle]

/-- Nor is one that counts a child. -/
@[simp] theorem idle_succ (is js : List InletClosure) (m : Option W) (s : ClosureStatus)
    (v : Option Bytes) (n : ℕ) (p : Option ClosureId) (g : Option FrameId) (a : AbortStatus)
    (h d : Option W) (l : Bool) :
    Closure.idle
      { mutexOwner := m, joinCounter := n + 1, status := s, returnValue := v, completeInlets := is,
        incompleteInlets := js, parent := p, frame := g, abortStatus := a, cache := h,
        ownerReadyDeque := d, magic := l } = false := by
  simp [Closure.idle]

/-- What idle means, field by field. -/
theorem Closure.idle_iff {k : Closure W} : k.idle = true ↔
    k.joinCounter = 0 ∧ k.incompleteInlets = [] ∧ k.completeInlets = [] := by
  simp only [idle, Bool.and_eq_true, beq_iff_eq, and_assoc]

/-- The locks of the deques are those the program counters hold. -/
theorem Control.deque_mem_held {w v : W} {p : Control W} (h : p.role.locks w = some v) :
    .deque v ∈ p.held w := by
  cases p
  case poll k | abortWalk k _ _ _ =>
    cases k <;> simp_all [role, PollCaller.role, Role.locks, held, PollCaller.held]
  case exited t => cases t <;> simp_all [role, Role.locks]
  all_goals simp_all [role, Role.locks, held]

namespace State

/-- **The placement of a state.** -/
def place (σ : State W) : Placement W where
  status := fieldOf σ.closure Closure.status
  home := fieldOf σ.closure Closure.ownerReadyDeque
  cache := fieldOf σ.closure Closure.cache
  magic := fieldOf σ.closure Closure.magic
  idle := fieldOf σ.closure Closure.idle
  next := σ.nextClosure
  deque := fieldOf σ.deque ReadyDeque.closures
  head := fieldOf σ.cache ClosureCache.head
  tail := fieldOf σ.cache ClosureCache.tail
  exc := fieldOf σ.cache ClosureCache.exception
  role := fieldOf σ.control Control.role

variable [DecidableEq W] {cfg : Config} {w : W} {σ σ' : State W}

omit [DecidableEq W] in
/-- Where the lock of a deque is free, no role locks it. -/
theorem LocksHeld.not_locks (h : σ.LocksHeld) {v : W} (hfree : (σ.deque v).mutexOwner = none)
    (u : W) : (σ.place.role u).locks u ≠ some v := fun hu =>
  h.held.not_mem_of_free (l := .deque v) hfree (w := u) (Control.deque_mem_held hu)

omit [DecidableEq W] in
/-- Two workers do not poll the same closure. -/
theorem LocksHeld.poll_unique (h : σ.LocksHeld) {u v : W} {k l : PollCaller}
    (hk : (σ.control u).polling = some k) (hl : (σ.control v).polling = some l)
    (he : k.closure = l.closure) : u = v :=
  h.held.unique (l := .closure k.closure) (Control.mem_held_of_polling hk)
    (he ▸ Control.mem_held_of_polling hl)

/-- What the layers below know of a state. -/
structure Sound (σ : State W) : Prop where
  named : σ.Named
  locks : σ.LocksHeld
  stopped : σ.Stopped
  placed : σ.place.Valid

namespace Placed

/-- A step that placements do not see. -/
theorem same (h : σ.place.Valid) {p : Control W} (hp : p.role = (σ.control w).role)
    (hσ' : σ'.place = σ.place.setRole w p.role) : σ'.place.Valid := by
  have hplace : σ.place.setRole w p.role = σ.place := by
    rw [hp]
    exact Placement.ext rfl rfl rfl rfl rfl rfl rfl rfl rfl rfl (Function.update_eq_self w _)
  rw [hσ', hplace]
  exact h

/-- A step that only changes the role of the worker. -/
theorem step {p q : Control W} (h : σ.place.Valid) (hp : σ.control w = p)
    (hr : σ.place.RoleStep w p.role q.role) (hσ' : σ'.place = σ.place.setRole w q.role) :
    σ'.place.Valid := by
  subst hp
  exact hσ' ▸ h.setRole (h.roleMove rfl hr)

/-! The pieces of steps that leave the role of the worker alone. -/

/-- The worker goes on in the same role. -/
theorem goto {p : Control W} (h : σ.place.Valid) (hp : p.role = (σ.control w).role) :
    (σ.goto w p).place.Valid := by
  refine same h hp ?_
  apply Placement.ext <;> simp [place, Placement.setRole]

omit [DecidableEq W] in
/-- Placements do not see the locks of closures. -/
theorem lockClosure {c : ClosureId} (h : σ.place.Valid) : (σ.lockClosure w c).place.Valid := by
  have hσ : (σ.lockClosure w c).place = σ.place := by apply Placement.ext <;> simp [place]
  exact hσ ▸ h

omit [DecidableEq W] in
/-- Nor do they see the end of a poll. -/
theorem pollDone {c : ClosureId} (h : σ.place.Valid) : (σ.pollDone c).place.Valid := by
  have hσ : (σ.pollDone c).place = σ.place := by apply Placement.ext <;> simp [place]
  exact hσ ▸ h

/-- `signal_immediate_exception` raises the pointer of the cache that the
closure has, if it has one. -/
theorem signalImmediateException {c : ClosureId} (h : σ.place.Valid) :
    (σ.signalImmediateException c).place.Valid := by
  rcases hc : (σ.closure c).cache with _ | v
  · have hσ : (σ.signalImmediateException c).place = σ.place := by
      simp only [cache_closure] at hc
      apply Placement.ext <;> simp [place, hc]
    exact hσ ▸ h
  · have hσ : (σ.signalImmediateException c).place = σ.place.signal v := by
      simp only [cache_closure] at hc
      apply Placement.ext <;> simp [place, Placement.signal, hc]
    exact hσ ▸ h.signal

omit [DecidableEq W] in
/-- Placements do not see abort statuses. -/
theorem signalAbort {c : ClosureId} {s : AbortStatus} (h : σ.place.Valid) :
    (σ.signalAbort c s).place.Valid := by
  have hσ : (σ.signalAbort c s).place = σ.place := by apply Placement.ext <;> simp [place]
  exact hσ ▸ h

/-- One call of `recursively_signal_abort` signals a cache at most. -/
theorem signalAbortHere {c : ClosureId} {s : AbortStatus} (h : σ.place.Valid) :
    (σ.signalAbortHere c s).place.Valid := by
  unfold State.signalAbortHere
  split
  · exact signalImmediateException (signalAbort h)
  · exact signalAbort h

/-- An abort is requested by a worker that keeps its role. -/
theorem startAbort {k : PollCaller} {i : Option InletClosure} (h : σ.place.Valid)
    (hk : k.role = (σ.control w).role) : (σ.startAbort w k i).place.Valid := by
  unfold State.startAbort
  refine goto (signalAbortHere h) (show k.role = _ from ?_)
  simpa using hk

omit [DecidableEq W] in
/-- The complete inlets of a closure change, but it does not lose the last of
them while it looks idle. -/
theorem setComplete {c : ClosureId} {is : List InletClosure} (h : σ.place.Valid)
    (hc : (σ.closure c).completeInlets = [] → is = []) : (σ.setComplete c is).place.Valid := by
  have hσ : (σ.setComplete c is).place =
      σ.place.setIdle c (Closure.idle { σ.closure c with completeInlets := is }) := by
    apply Placement.ext <;> simp [place, Placement.setIdle]
  rw [hσ]
  refine h.setIdle_of_imp fun hidle => ?_
  obtain ⟨hjoin, hchildren, hcomplete⟩ := Closure.idle_iff.mp hidle
  exact Closure.idle_iff.mpr ⟨hjoin, hchildren, hc hcomplete⟩

omit [DecidableEq W] in
/-- A closure that was idle counts no child, and counts none afterwards. -/
theorem decrementJoin {p : ClosureId} (h : σ.place.Valid) : (σ.decrementJoin p).place.Valid := by
  have hσ : (σ.decrementJoin p).place = σ.place.setIdle p
      (Closure.idle { σ.closure p with joinCounter := (σ.closure p).joinCounter - 1 }) := by
    apply Placement.ext <;> simp [place, Placement.setIdle]
  rw [hσ]
  refine h.setIdle_of_imp fun hidle => ?_
  obtain ⟨hjoin, hchildren, hcomplete⟩ := Closure.idle_iff.mp hidle
  refine Closure.idle_iff.mpr ⟨?_, hchildren, hcomplete⟩
  show (σ.closure p).joinCounter - 1 = 0
  rw [hjoin]

/-- `complete_and_enque_inlet` may make the parent busy. It must exist, and may
not be a fast closure that runs. -/
theorem enqueued {c p : ClosureId} {i : InletClosure} (h : σ.place.Valid)
    (hp : p < σ.place.next)
    (hhead : ∀ v, σ.place.bottom v = some p → σ.place.status p = .running →
      σ.place.head v = 0)
    (hσ' : Enqueued cfg w p c i (σ.lockClosure w c) σ') : σ'.place.Valid := by
  cases hσ'
  case dropped =>
    refine same (w := w) (p := σ.control w) h rfl ?_
    apply Placement.ext <;> simp [place, Placement.setRole]
    rfl
  case enqueued habort hsize =>
    have hσ : (((((σ.lockClosure w c).moveValue w c).modifyClosure p fun k => { k with
        completeInlets := i.withValue ((σ.lockClosure w c).closure c).returnValue ::
          k.completeInlets }).emit (.enqueue p (i.withValue
        ((σ.lockClosure w c).closure c).returnValue)))).place = σ.place.setIdle p false := by
      apply Placement.ext <;> simp [place, Placement.setIdle]
    rw [hσ]
    exact h.setIdle (.inr hp) (.inr hhead)

/-- The exception handler stops, suspends or goes on with the closure `t` at the
bottom, which runs or was returned by the worker. -/
theorem handled {t : ClosureId} {g : FrameId} {r : Bytes} {q : Role W} (h : σ.place.Valid)
    (hq : (σ.control w).role = q) (hlock : q.locks w = some w) (htoken : q.token = none)
    (hb : σ.place.bottom w = some t) (htail : 1 ≤ σ.place.tail w)
    (hown : σ.place.Runs w t ∧ σ.place.head w ≤ σ.place.tail w ∨
      σ.place.Returned w t ∧ σ.place.tail w ≤ σ.place.head w)
    (hσ' : Handled w t g r (σ.resetExceptionPointer t) σ') : σ'.place.Valid := by
  subst hq
  have hcache : fieldOf σ.closure Closure.cache t = some w := hown.elim (·.1.2.2) (·.1.2.2)
  have hruns : fieldOf σ.cache ClosureCache.head w < fieldOf σ.cache ClosureCache.tail w →
      σ.place.Runs w t := fun hlt => hown.elim (·.1) fun hr => absurd hr.2 (by simpa [place] using hlt)
  cases hσ'
  case returning hstolen hstatus =>
    simp [hcache] at hstolen
    have hσ : ((σ.resetExceptionPointer t).handlerReturn w t g r).place =
        σ.place.stop w t (.slot (σ.place.head w)) .unwinding := by
      apply Placement.ext <;> simp [place, Placement.stop, Control.role, hcache]
    rw [hσ]
    exact h.stop hlock htoken hb (.inr ⟨rfl, hcache, htail, Nat.le_succ_of_le hstolen, .inr rfl⟩)
  case unwinding hstolen hstatus =>
    simp [hcache] at hstolen hstatus
    have hret : σ.place.Returned w t := hown.elim (fun hr => absurd hr.1.2.1 hstatus) (·.1)
    have hσ : ((σ.resetExceptionPointer t).handlerUnwind w t g).place =
        σ.place.handled w (.slot (σ.place.head w)) .unwinding := by
      apply Placement.ext <;> simp [place, Placement.handled, Control.role, hcache]
    rw [hσ]
    refine h.handled hlock htoken (.inr rfl) ⟨htail, fun _ b hb' => .inr ?_, fun _ => ?_⟩ (.inr rfl)
    · obtain rfl : t = b := Option.some.inj (hb.symm.trans hb')
      exact hret.2.1
    · exact ⟨t, .inr ⟨hret, Nat.le_succ_of_le hstolen⟩⟩
  case suspended hstolen _ htop hchildren =>
    simp [hcache] at hstolen hchildren
    simp [atTopOfStack, hcache] at htop
    have hidle : σ.place.idle t = false := by
      by_contra hidle
      exact hchildren (Closure.idle_iff.mp (by simpa [place, fieldOf] using hidle)).1
    have hhead : σ.place.head w = 0 := by
      by_contra hne
      have hfast := (h.fast w t hb (hruns hstolen).2.1 (Nat.pos_of_ne_zero hne)).1
      rw [hidle] at hfast
      cases hfast
    have hσ : (((σ.resetExceptionPointer t).signalImmediateException t).handlerSuspend w t).place =
        σ.place.suspend w t .infinity .unwinding := by
      apply Placement.ext <;> simp [place, Placement.suspend, Control.role, hcache]
    rw [hσ]
    refine h.suspend hlock htoken hb (.inr ⟨rfl, ?_, .inl rfl⟩)
    exact htop.symm.trans (by rw [show fieldOf σ.cache ClosureCache.head w = 0 from hhead])
  case discardLast hstolen _ htop hchildren =>
    simp [atTopOfStack, hcache] at htop
    have hσ : (((σ.resetExceptionPointer t).signalImmediateException t).handlerDiscardLast w
        t).place = σ.place.stop w t .infinity .unwinding := by
      apply Placement.ext <;> simp [place, Placement.stop, Control.role, hcache]
    rw [hσ]
    exact h.stop hlock htoken hb (.inr ⟨rfl, hcache, htail, htop.ge, .inl rfl⟩)
  case discard hstolen _ htop =>
    simp [hcache] at hstolen
    simp [atTopOfStack, hcache] at htop
    have hσ : (((σ.resetExceptionPointer t).signalImmediateException t).handlerDiscard w
        t).place = σ.place.handled w .infinity .unwinding := by
      apply Placement.ext <;> simp [place, Placement.handled, Control.role, hcache]
    rw [hσ]
    refine h.handled hlock htoken (.inr rfl) ⟨htail, fun ht => ?_, fun _ => ?_⟩ (.inl rfl)
    · simp only [place] at ht
      omega
    · exact ⟨t, .inl ⟨hruns hstolen, hstolen⟩⟩
  case resumed hstolen _ =>
    simp [hcache] at hstolen
    have hσ : ((σ.resetExceptionPointer t).handlerResume w t g).place =
        σ.place.handled w (.slot (σ.place.head w)) .running := by
      apply Placement.ext <;> simp [place, Placement.handled, Control.role, hcache]
    rw [hσ]
    exact h.handled hlock htoken (.inl rfl) ⟨t, hruns hstolen, hstolen⟩ (.inr rfl)

omit [DecidableEq W] in
/-- Only the exception handler polls a running closure that has frames below
the top of its stack. -/
theorem handler_of_running (h : σ.Sound) {k : PollCaller} (hc : σ.control w = .poll k)
    (hrun : fieldOf σ.closure Closure.status k.closure = .running)
    (htop : σ.atTopOfStack k.closure = false) :
    (k.role : Role W) = .handling k.closure ∧ σ.place.Runs w k.closure := by
  obtain ⟨hn, hl, hs, hv⟩ := h
  have hown : σ.place.Own w k.role := by simpa [hc, Control.role, place, fieldOf] using hv.own w
  cases k
  case closureReturn | provablyGood | exit => exact absurd hrun (hs w _ (by rw [hc]; rfl) rfl)
  case handler t g r => exact ⟨rfl, hv.runs_of_mem hown.1 hrun⟩
  case setup t =>
    obtain ⟨-, -, hcache, hhead, htail⟩ := hown
    simp only [place] at hcache hhead htail
    simp [atTopOfStack, PollCaller.closure, hcache, hhead, htail] at htop
  case sync t | abortSlow t =>
    obtain ⟨⟨-, -, hcache⟩, hhead, htail⟩ := hown
    simp only [place] at hcache hhead htail
    simp [atTopOfStack, PollCaller.closure, hcache, hhead, htail] at htop

/-- `signal_abort_from_inlet`, before the walk. Where it detaches, the caller is
the exception handler, and the closure has an inlet, so it is no fast one. -/
theorem detach (h : σ.Sound) {k : PollCaller} {i : InletClosure} {rest : List InletClosure}
    {args : Bytes} (hc : σ.control w = .poll k)
    (hnext : (σ.closure k.closure).completeInlets = i :: rest) :
    (((σ.setComplete k.closure rest).runInlet cfg w k.closure i).detachFromInlet cfg w k.closure
      args).place.Valid := by
  have hv' : ((σ.setComplete k.closure rest).runInlet cfg w k.closure i).place.Valid := by
    have hv : (σ.setComplete k.closure rest).place.Valid := setComplete h.placed fun hnil => by
      rw [hnext] at hnil
      cases hnil
    have hσ : ((σ.setComplete k.closure rest).runInlet cfg w k.closure i).place =
        (σ.setComplete k.closure rest).place := by
      apply Placement.ext <;> simp [place]
    exact hσ ▸ hv
  unfold detachFromInlet
  split
  case isFalse => exact hv'
  case isTrue hif =>
    rw [Bool.and_eq_true, Bool.not_eq_true'] at hif
    have hrun : fieldOf σ.closure Closure.status k.closure = .running := by
      simpa [isRunning] using hif.1
    have htop : σ.atTopOfStack k.closure = false := by simpa [atTopOfStack] using hif.2
    obtain ⟨hrole, hruns⟩ := handler_of_running h hc hrun htop
    have hcache : fieldOf σ.closure Closure.cache k.closure = some w := hruns.2.2
    have hidle : σ.place.idle k.closure = false := by
      by_contra hidle
      obtain ⟨-, -, hnil⟩ := Closure.idle_iff.mp (by simpa [place, fieldOf] using hidle)
      rw [hnext] at hnil
      cases hnil
    have hne : k.closure ≠ σ.nextClosure :=
      (h.named.control w _ (by rw [hc]; exact k.closure_mem)).ne
    have hv := h.placed.detach (w := w) (t := k.closure)
      ((congrArg Control.role hc).trans hrole) hrun hidle
      (by simpa [atTopOfStack, hcache, place] using htop)
    refine (congrArg Placement.Valid ?_).mpr hv
    apply Placement.ext <;> simp [place, Placement.detach, hne]
    funext c
    simp only [Function.update_apply]
    grind

omit [DecidableEq W] in
/-- The inlet of `Cilk_exit` makes the root closure busy, which is never a fast
closure. -/
theorem enqueExit {res args : Bytes} (h : σ.place.Valid) :
    (σ.enqueExit cfg w res args).place.Valid := by
  have hσ : (σ.enqueExit cfg w res args).place = σ.place.setIdle rootClosure false := by
    apply Placement.ext <;> simp [place, Placement.setIdle, Closure.idle]
  rw [hσ]
  refine h.setIdle (.inr h.next_pos) (.inr fun v hb hrun => ?_)
  by_contra hne
  exact (h.fast v _ hb hrun (Nat.pos_of_ne_zero hne)).2 rfl

/-- A closure that has returned is destroyed. -/
theorem returnEnd {c p : ClosureId} (h : σ.place.Valid)
    (hw : (σ.control w).role = .returning c (some p)) :
    (σ.returnEnd cfg w c p .fetch).place.Valid := by
  have hσ : (σ.returnEnd cfg w c p .fetch).place = σ.place.destroy w c := by
    apply Placement.ext <;> simp [place, Placement.destroy, Control.role]
  rw [hσ]
  exact h.destroy hw

/-! ### `Closure_steal` -/

/-- The scheduler takes the bottom of its own deque. -/
theorem fetchSome {t : ClosureId} (h : σ.Sound) (hc : σ.control w = .fetch)
    (hfree : (σ.deque w).mutexOwner = none) (hb : (σ.deque w).closures.getLast? = some t) :
    ((σ.dequeXtractBottom w t).goto w (.execute t)).place.Valid := by
  have hσ : ((σ.dequeXtractBottom w t).goto w (.execute t)).place = σ.place.fetch w t := by
    apply Placement.ext <;> simp [place, Placement.fetch, Control.role]
  rw [hσ]
  exact h.placed.fetch (congrArg Control.role hc) hb fun u _ => h.locks.not_locks hfree u

/-- A thief takes a ready closure off the top of the victim's deque. -/
theorem stealReady {v : W} {cl : ClosureId} (h : σ.Sound) (hc : σ.control w = .stealLock v cl)
    (hstatus : (σ.closure cl).status = .ready) :
    ((((σ.dequeXtractTop v cl).unlockDeque v).emit (.handed w cl)).goto w
      (.execute cl)).place.Valid := by
  have hσ : ((((σ.dequeXtractTop v cl).unlockDeque v).emit (.handed w cl)).goto w
      (.execute cl)).place = σ.place.stealReady w v cl := by
    apply Placement.ext <;> simp [place, Placement.stealReady, Control.role]
  rw [hσ]
  exact h.placed.stealReady (congrArg Control.role hc) hstatus

/-- A thief raises the exception pointer of the closure that runs on top. The
closure is in the victim's deque, so it runs on the victim's cache. -/
theorem stealRunning {v : W} {cl : ClosureId} (h : σ.Sound)
    (hc : σ.control w = .stealLock v cl) (hstatus : (σ.closure cl).status = .running) :
    (((σ.lockClosure w cl).incrementExceptionPointer cl).goto w
      (.dekkerHead v cl)).place.Valid := by
  have hrole : σ.place.role w = .peeking v cl := congrArg Control.role hc
  have hmem := List.mem_of_head? (h.placed.peeking w v cl hrole).2
  have hcache : fieldOf σ.closure Closure.cache cl = some v :=
    (h.placed.runs_of_mem hmem hstatus).2.2
  have hσ : (((σ.lockClosure w cl).incrementExceptionPointer cl).goto w
      (.dekkerHead v cl)).place = σ.place.raise w v cl := by
    apply Placement.ext <;> simp [place, Placement.raise, Control.role, hcache]
  rw [hσ]
  exact h.placed.raise hrole hstatus

/-- A thief that came too late lowers the exception pointer it had raised. -/
theorem retract {v : W} {cl : ClosureId} (h : σ.Sound) (hc : σ.control w = .retract v cl) :
    (σ.retract w v cl).place.Valid := by
  have hrole : σ.place.role w = .retracting v cl := congrArg Control.role hc
  obtain ⟨-, hdeque, hstatus, -⟩ := h.placed.raised w v cl (by rw [hrole]; rfl)
  have hmem : cl ∈ σ.place.deque v := by simp [hdeque]
  have hcache : fieldOf σ.closure Closure.cache cl = some v :=
    (h.placed.runs_of_mem hmem hstatus).2.2
  have hσ : (σ.retract w v cl).place = σ.place.retract w v := by
    apply Placement.ext <;> simp [place, Placement.retract, Control.role, hcache]
  rw [hσ]
  exact h.placed.retract hrole

/-- The steal: the parent comes off the deque, and the child is created in
its place. The new closure is none of those the worker knows. -/
theorem stealPromote {v : W} {cl : ClosureId} (h : σ.Sound) (hc : σ.control w = .promote v cl) :
    (σ.stealPromote cfg w v cl).place.Valid := by
  have hne : cl ≠ σ.nextClosure := (h.named.control w cl (by simp [hc, Control.closures])).ne
  have hσ : (σ.stealPromote cfg w v cl).place = σ.place.promote w v cl := by
    apply Placement.ext <;> simp [place, Placement.promote, Control.role, hne]
  rw [hσ]
  exact h.placed.promote (congrArg Control.role hc)

/-- The stolen parent gets ready, and counts its child. -/
theorem stealFinish {p c : ClosureId} {args : Bytes} (h : σ.Sound)
    (hc : σ.control w = .finishPromote p c) : (σ.stealFinish cfg w p c args).place.Valid := by
  have hσ : (σ.stealFinish cfg w p c args).place = σ.place.finishPromote w p := by
    apply Placement.ext <;> simp [place, Placement.finishPromote, Control.role, Closure.idle]
  rw [hσ]
  exact h.placed.finishPromote (congrArg Control.role hc)

/-! ### `do_what_it_says` -/

/-- An aborted closure that waits for children is suspended. -/
theorem abortSuspend {t : ClosureId} (h : σ.Sound) (hc : σ.control w = .execute t) :
    ((σ.setStatus t .suspended).goto w .fetch).place.Valid := by
  have hσ : ((σ.setStatus t .suspended).goto w .fetch).place = σ.place.abortSuspend w t := by
    apply Placement.ext <;> simp [place, Placement.abortSuspend, Control.role]
  rw [hσ]
  exact h.placed.abortSuspend (congrArg Control.role hc)

/-- An aborted closure without children loses its frame and returns. -/
theorem abortReturn {t : ClosureId} (h : σ.Sound) (hc : σ.control w = .execute t) :
    (((σ.destroyFrame w (σ.frameOf t)).setStatus t .returning).goto w
      (.execute t)).place.Valid := by
  have hσ : (((σ.destroyFrame w (σ.frameOf t)).setStatus t .returning).goto w
      (.execute t)).place = σ.place.abortReturn t := by
    apply Placement.ext <;> simp [place, Placement.abortReturn, Control.role]
    rw [fieldOf, hc]
    rfl
  rw [hσ]
  exact h.placed.abortReturn (congrArg Control.role hc)

/-- A ready closure is set up to run on the worker's cache. -/
theorem setup {t : ClosureId} (h : σ.Sound) (hc : σ.control w = .execute t) :
    (((σ.lockClosure w t).setupForExecution w t).goto w (.poll (.setup t))).place.Valid := by
  have hσ : (((σ.lockClosure w t).setupForExecution w t).goto w (.poll (.setup t))).place =
      σ.place.setup w t := by
    apply Placement.ext <;> simp [place, Placement.setup, Control.role, PollCaller.role]
  rw [hσ]
  exact h.placed.setup (congrArg Control.role hc)

/-- The closure that was set up goes to the bottom of the worker's deque. -/
theorem insert {t : ClosureId} (h : σ.Sound) (hc : σ.control w = .insert t)
    (hfree : (σ.deque w).mutexOwner = none) :
    ((σ.dequeAddBottom w t).goto w .user).place.Valid := by
  have hσ : ((σ.dequeAddBottom w t).goto w .user).place = σ.place.insert w t := by
    apply Placement.ext <;> simp [place, Placement.insert, Control.role]
  rw [hσ]
  exact h.placed.insert (congrArg Control.role hc) fun u _ => h.locks.not_locks hfree u

/-! ### `poll_inlets` and `apply_inlet` -/

/-- The end of the poll in the exception handler, with the closure still at
the bottom of the deque. -/
theorem pollHandler {t : ClosureId} {g : FrameId} {r : Bytes} (h : σ.Sound)
    (hc : σ.control w = .poll (.handler t g r)) (hb : (σ.deque w).closures.getLast? = some t)
    (hσ' : Handled w t g r ((σ.pollDone t).resetExceptionPointer t) σ') : σ'.place.Valid := by
  have hrole : σ.place.role w = .handling t := congrArg Control.role hc
  have hown := h.placed.own w
  rw [hrole] at hown
  obtain ⟨-, htail, b, hb'⟩ := hown
  have hbt : b = t := by
    rcases hb' with hb' | hb'
    · exact Option.some.inj (hb'.1.1.symm.trans hb)
    · exact Option.some.inj (hb'.1.1.symm.trans hb)
  subst hbt
  have hplace : (σ.pollDone b).place = σ.place := by apply Placement.ext <;> simp [place]
  exact handled (σ := σ.pollDone b) (q := .handling b) (hplace ▸ h.placed) hrole rfl rfl
    (hplace ▸ hb) (hplace ▸ htail) (hplace ▸ hb') hσ'

/-- Another closure has come to the bottom of the deque while the handler
polled, and the handler has locked it. -/
theorem handlerRelock {t : ClosureId} {g : FrameId} {r : Bytes} (h : σ.Sound)
    (hc : σ.control w = .handlerRelock t g r)
    (hσ' : Handled w t g r ((σ.lockClosure w t).resetExceptionPointer t) σ') :
    σ'.place.Valid := by
  have hrole : σ.place.role w = .trapped t := congrArg Control.role hc
  have hown := h.placed.own w
  rw [hrole] at hown
  have hb : σ.place.bottom w = some t := hown.2.elim (·.1.1) (·.1.1)
  have hplace : (σ.lockClosure w t).place = σ.place := by apply Placement.ext <;> simp [place]
  exact handled (σ := σ.lockClosure w t) (q := .trapped t) (hplace ▸ h.placed) hrole rfl rfl
    (hplace ▸ hb) (hplace ▸ hown.1) (hplace ▸ hown.2) hσ'

/-- A slow sync that has to wait takes its closure off the deque. -/
theorem pollSuspend {t : ClosureId} (h : σ.Sound) (hc : σ.control w = .poll (.sync t)) :
    ((((((σ.pollDone t).maybeResetAbort t).closureSuspend w t).unlockClosure t).unlockDeque
      w).goto w .fetch).place.Valid := by
  have hrole : σ.place.role w = .slow t := congrArg Control.role hc
  have hown := h.placed.own w
  rw [hrole] at hown
  have hσ : ((((((σ.pollDone t).maybeResetAbort t).closureSuspend w t).unlockClosure
      t).unlockDeque w).goto w .fetch).place = σ.place.suspend w t (σ.place.exc w) .fetching := by
    apply Placement.ext <;> simp [place, Placement.suspend, Control.role]
  rw [hσ]
  exact h.placed.suspend (by rw [hrole]; rfl) (by rw [hrole]; rfl) hown.1.1 (.inl rfl)

omit [DecidableEq W] in
/-- An inlet is taken off the list of the polled closure, applied or thrown
away. Placements see an empty list only, and this one was not. -/
theorem inletDone {k : PollCaller} {i : InletClosure} {rest : List InletClosure} (h : σ.Sound)
    (hnext : (σ.closure k.closure).completeInlets = i :: rest)
    (hσ' : σ'.place = (σ.setComplete k.closure rest).place) : σ'.place.Valid := by
  rw [hσ']
  refine setComplete h.placed fun hnil => ?_
  rw [hnext] at hnil
  cases hnil

/-! ### `Closure_return` -/

/-- The returning child is taken off the list of its parent, which is not idle
for all the child is worth. -/
theorem lockParent {c p : ClosureId} {i : InletClosure} {is : List InletClosure} (h : σ.Sound)
    (hc : σ.control w = .returnLock c)
    (hi : State.removeChild c (σ.closure p).incompleteInlets = some (i, is)) :
    (((σ.lockClosure w p).modifyClosure p fun k => { k with incompleteInlets := is }).goto w
      (.returnChild c p i)).place.Valid := by
  have hrole : σ.place.role w = .returning c none := congrArg Control.role hc
  obtain ⟨hmem, -, -⟩ := mem_removeChild hi
  have hidle : σ.place.idle p = false := by
    by_contra hidle
    obtain ⟨-, hnil, -⟩ := Closure.idle_iff.mp (by simpa [place, fieldOf] using hidle)
    rw [hnil] at hmem
    cases hmem
  have hv' : (σ.place.setRole w (.returning c (some p))).Valid := by
    refine h.placed.setRole ?_
    rw [hrole]
    exact h.placed.roleMove hrole (.lockParent c p hidle)
  have hσ : (((σ.lockClosure w p).modifyClosure p fun k =>
      { k with incompleteInlets := is }).goto w (.returnChild c p i)).place =
      (σ.place.setRole w (.returning c (some p))).setIdle p
        (Closure.idle { σ.closure p with incompleteInlets := is }) := by
    apply Placement.ext <;> simp [place, Placement.setRole, Placement.setIdle, Control.role]
    rfl
  rw [hσ]
  refine hv'.setIdle_of_imp fun hp => ?_
  rw [show (σ.place.setRole w _).idle p = σ.place.idle p from rfl, hidle] at hp
  cases hp

/-- The parent runs: it is told of the inlet, and the child is destroyed. -/
theorem returnRunning {c p : ClosureId} {i : InletClosure} (h : σ.Sound)
    (hc : σ.control w = .returnChild c p i)
    (hσ' : Enqueued cfg w p c i (σ.lockClosure w c) σ') :
    (((σ'.signalImmediateException p).decrementJoin p).returnEnd cfg w c p
      .fetch).place.Valid := by
  have hrole : σ.place.role w = .returning c (some p) := congrArg Control.role hc
  obtain ⟨hp, hhead⟩ := h.placed.window w c p hrole
  refine returnEnd (decrementJoin (signalImmediateException
    (enqueued h.placed hp hhead hσ'))) ?_
  cases hσ' <;> simp [hc] <;> rfl

/-- The parent does not run: its inlets are polled on its behalf. -/
theorem returnPoll {c p : ClosureId} {i : InletClosure} (h : σ.Sound)
    (hc : σ.control w = .returnChild c p i)
    (hσ' : Enqueued cfg w p c i (σ.lockClosure w c) σ') :
    (σ'.goto w (.poll (.closureReturn c p))).place.Valid := by
  have hrole : σ.place.role w = .returning c (some p) := congrArg Control.role hc
  obtain ⟨hp, hhead⟩ := h.placed.window w c p hrole
  refine goto (enqueued h.placed hp hhead hσ') ?_
  cases hσ' <;> simp [hc] <;> rfl

/-- A provably good steal begins: the suspended parent counts no child any
more. Its lock is held, so no other worker is waking it. -/
theorem pollWait {c p : ClosureId} (h : σ.Sound)
    (hc : σ.control w = .poll (.closureReturn c p))
    (hstatus : (σ.closure p).status = .suspended) :
    (((σ.pollDone p).decrementJoin p).goto w (.poll (.provablyGood c p))).place.Valid := by
  have hv' : ((σ.pollDone p).decrementJoin p).place.Valid := decrementJoin (pollDone h.placed)
  refine step hv' (w := w) (p := .poll (.closureReturn c p)) (q := .poll (.provablyGood c p))
    (by simpa using hc) (.wake c p (by simpa [place] using hstatus) fun u d hu => ?_) ?_
  · have hu : (σ.control u).polling = some (.provablyGood d p) :=
      Control.polling_of_waking hu
    have huw := h.locks.poll_unique hu (l := .closureReturn c p) (v := w) (by rw [hc]; rfl) rfl
    rw [huw, hc] at hu
    cases hu
  · apply Placement.ext <;> simp [place, Placement.setRole]

/-- The end of the provably good steal. -/
theorem pollWake {c p : ClosureId} (h : σ.Sound)
    (hc : σ.control w = .poll (.provablyGood c p)) :
    ((((σ.pollDone p).makeReady p).emit (.provablyGood p)).returnEnd cfg w c p
      (.execute p)).place.Valid := by
  have hσ : ((((σ.pollDone p).makeReady p).emit (.provablyGood p)).returnEnd cfg w c p
      (.execute p)).place = σ.place.wakeUp w c p := by
    apply Placement.ext <;> simp [place, Placement.wakeUp, Control.role]
  rw [hσ]
  exact h.placed.wakeUp (congrArg Control.role hc)

/-! ### User code -/

/-- The store to the tail, of a spawn. -/
theorem push (h : σ.Sound) (hc : σ.control w = .pushFrame) : (σ.pushFrame w).place.Valid := by
  have hσ : (σ.pushFrame w).place = σ.place.push w := by
    apply Placement.ext <;> simp [place, Placement.push, Control.role]
    rw [fieldOf, hc]
    rfl
  rw [hσ]
  exact h.placed.push (congrArg Control.role hc)

/-- A fast clone pops its frame. -/
theorem popFast {r : Bytes} (h : σ.Sound) (hc : σ.control w = .user) (hdepth : 2 ≤ σ.depth w) :
    (σ.popFast w r).place.Valid := by
  have hσ : (σ.popFast w r).place = σ.place.pop w .popping := by
    apply Placement.ext <;> simp [place, Placement.pop, Control.role]
  rw [hσ]
  exact h.placed.popRunning (congrArg Control.role hc) hdepth

/-- The last activation of an unwound stack returns to the scheduler. -/
theorem popLast (h : σ.Sound) (hc : σ.control w = .unwind) (hdepth : σ.depth w ≤ 1) :
    (σ.popLast w).place.Valid := by
  have hrole : σ.place.role w = .unwinding := congrArg Control.role hc
  have hσ : (σ.popLast w).place = σ.place.pop w .fetching := by
    apply Placement.ext <;> simp [place, Placement.pop, Control.role]
  rw [hσ]
  have hown := h.placed.own w
  rw [hrole] at hown
  exact h.placed.popLast (.inl hrole) (hown.2.1 (le_antisymm hdepth hown.1))

/-- An activation of an unwound stack returns to the one below. -/
theorem popUnwound {r : Bytes} (h : σ.Sound) (hc : σ.control w = .unwind)
    (hdepth : 1 < σ.depth w) : (σ.popUnwound w r).place.Valid := by
  have hσ : (σ.popUnwound w r).place = σ.place.pop w .popping := by
    apply Placement.ext <;> simp [place, Placement.pop, Control.role]
  rw [hσ]
  exact h.placed.popUnwinding (congrArg Control.role hc) hdepth

/-- A slow clone sets its result, and its closure begins to return. -/
theorem setResult {t : ClosureId} {r : Bytes} (h : σ.Sound)
    (hc : σ.control w = .slowLock (.setResult r) t) : (σ.setResult w t r).place.Valid := by
  have hrole : σ.place.role w = .slow t := congrArg Control.role hc
  have hown := h.placed.own w
  rw [hrole] at hown
  have hσ : (σ.setResult w t r).place = σ.place.stop w t (σ.place.exc w) .leaving := by
    apply Placement.ext <;> simp [place, Placement.stop, Control.role]
  rw [hσ]
  exact h.placed.stop (by rw [hrole]; rfl) (by rw [hrole]; rfl) hown.1.1 (.inl rfl)

/-- The slow clone is popped. -/
theorem slowReturn {f : FrameId} (h : σ.Sound) (hc : σ.control w = .slowReturn f) :
    (σ.slowReturn w f).place.Valid := by
  have hrole : σ.place.role w = .leaving := congrArg Control.role hc
  have hσ : (σ.slowReturn w f).place = σ.place.pop w .fetching := by
    apply Placement.ext <;> simp [place, Placement.pop, Control.role]
  rw [hσ]
  have hown := h.placed.own w
  rw [hrole] at hown
  exact h.placed.popLast (.inr hrole) fun b hb => .inr (hown b hb)

/-- The closure of `invoke_main` is taken out of the deque and freed. -/
theorem removeRoot {t : ClosureId} (h : σ.Sound) (hc : σ.control w = .remove)
    (hfree : (σ.deque w).mutexOwner = none) (hb : (σ.deque w).closures.getLast? = some t) :
    (((((σ.dequeXtractBottom w t).modifyClosure t fun k => { k with magic := false }).emit
      (.freeRoot w)).emit (.destroy t)).goto w .fetch).place.Valid := by
  have hσ : (((((σ.dequeXtractBottom w t).modifyClosure t fun k =>
      { k with magic := false }).emit (.freeRoot w)).emit (.destroy t)).goto w .fetch).place =
      σ.place.remove w t := by
    apply Placement.ext <;> simp [place, Placement.remove, Control.role]
  rw [hσ]
  exact h.placed.remove (congrArg Control.role hc) hb fun u _ => h.locks.not_locks hfree u

/-- **Every transition is a move of its placement**, or does not show in it.
Where the worker goes on with another role and nothing else changes, the move
is a `RoleStep`. -/
theorem transition (h : σ.Sound) (ht : Transition cfg w σ σ') : σ'.place.Valid := by
  have hv := h.placed
  have hl := h.locks
  cases ht
  case stealNone => exact hv
  -- the scheduler loop, and `Closure_steal`
  case leave hc _ =>
    rcases hc with hc | hc
    · exact goto hv (by rw [hc]; rfl)
    · refine step hv hc (q := .exited none) .leave ?_
      apply Placement.ext <;> simp [place, Placement.setRole]
  case leaveExecute t hc _ => exact goto hv (by rw [hc]; rfl)
  case fetchNone hc hfree hb =>
    refine step hv hc (q := .steal) (.empty hb) ?_
    apply Placement.ext <;> simp [place, Placement.setRole]
  case fetchSome t hc hfree hb => exact fetchSome h hc hfree hb
  case stealPeek v cl hc hne hfree ht =>
    refine step hv hc (q := .stealLock v cl) (.peek v cl hne ht (hl.not_locks hfree)) ?_
    apply Placement.ext <;> simp [place, Placement.setRole]
  case stealAborted v cl hc _ _ | stealReturning v cl hc _ _ _ =>
    refine step hv hc (q := .steal) (.giveUp v cl) ?_
    apply Placement.ext <;> simp [place, Placement.setRole]
  case stealReady v cl hc _ _ hstatus => exact stealReady h hc hstatus
  case stealRunning v cl hc _ _ hstatus => exact stealRunning h hc hstatus
  case dekkerHead v cl hc =>
    refine step hv hc (q := .dekkerTail v cl _) (.readHead v cl) ?_
    apply Placement.ext <;> simp [place, Placement.setRole, Control.role]
  case tooLate v cl n hc _ =>
    refine step hv hc (q := .retract v cl) (.tooLate v cl n) ?_
    apply Placement.ext <;> simp [place, Placement.setRole]
  case inTime v cl n hc hlt =>
    refine step hv hc (q := .promote v cl) (.inTime v cl n hlt) ?_
    apply Placement.ext <;> simp [place, Placement.setRole]
  case retract v cl hc => exact retract h hc
  case promote v cl hc => exact stealPromote h hc
  case finishPromote t c args hc _ => exact stealFinish h hc
  -- `do_what_it_says`
  case abortSuspend t hc _ _ _ _ => exact abortSuspend h hc
  case abortReturn t hc _ _ _ _ => exact abortReturn h hc
  case setup t hc _ _ _ => exact setup h hc
  case collect t hc _ hstatus =>
    refine step hv hc (q := .returnLock t) (.collect t hstatus) ?_
    apply Placement.ext <;> simp [place, Placement.setRole]
  case insert t hc hfree => exact insert h hc hfree
  -- `poll_inlets`
  case pollSetup t hc _ =>
    refine same hv (w := w) (p := .insert t) (by rw [hc]; rfl) ?_
    apply Placement.ext <;> simp [place, Placement.setRole]
  case pollHandler t g r hc _ hb hσ' => exact pollHandler h hc hb hσ'
  case pollRelock t t' g r hc _ hb _ =>
    refine step hv hc (q := .handlerRelock t' g r) (.relock t t' hb) ?_
    apply Placement.ext <;> simp [place, Placement.setRole]
  case pollSuspend t hc _ _ => exact pollSuspend h hc
  case pollSynced t hc _ _ | pollAbortSlow t hc _ =>
    refine step hv hc (q := .user) (.back t) ?_
    apply Placement.ext <;> simp [place, Placement.setRole]
  case pollWait c p hc _ _ hstatus => exact pollWait h hc hstatus
  case pollReturn c p hc _ _ => exact returnEnd (decrementJoin (pollDone hv)) (by simp [hc]; rfl)
  case pollWake c p hc _ => exact pollWake h hc
  case pollExit r hc _ =>
    refine same hv (w := w) (p := .user) (by rw [hc]; rfl) ?_
    apply Placement.ext <;> simp [place, Placement.setRole]
  case inletDrop k i rest hc hnext _ | inletApply k i rest hc hnext _ _ =>
    refine inletDone h hnext ?_
    apply Placement.ext <;> simp [place]
  case inletAbort k i rest args hc hnext _ _ _ =>
    exact startAbort (detach h hc hnext) (by simp [hc]; rfl)
  -- `recursively_signal_abort`
  case walkFirst k i d ds hc _ =>
    exact goto (signalAbortHere (lockClosure hv)) (by simp [hc]; rfl)
  case walkDown k i todo c d ds path hc _ =>
    exact goto (signalAbortHere (lockClosure hv)) (by simp [hc]; rfl)
  case walkUp k i todo c path hc =>
    refine same hv (w := w) (p := .abortWalk k i todo path) (by rw [hc]; rfl) ?_
    apply Placement.ext <;> simp [place, Placement.setRole]
  case walkDone k i hc =>
    refine same hv (w := w) (p := .poll k) (by rw [hc]; rfl) ?_
    cases i <;> apply Placement.ext <;> simp [place, Placement.setRole, freeAborted]
  -- `Closure_return`
  case lockParent c p i is hc hp _ hi => exact lockParent h hc hi
  case returnRunning c p i _ hc _ hσ' _ => exact returnRunning h hc hσ'
  case returnPoll c p i σ₁ hc _ hσ' _ => exact returnPoll h hc hσ'
  -- user code, and the pop check
  case spawn sig receiver info hc _ =>
    refine same hv (w := w) (p := .pushFrame) (by rw [hc]; rfl) ?_
    apply Placement.ext <;> simp [place, Placement.setRole]
  case push hc => exact push h hc
  case returnFast r hc hdepth => exact popFast h hc hdepth
  case popResume g r hc hexc =>
    refine step hv hc (q := .user) (.resume hexc) ?_
    apply Placement.ext <;> simp [place, Placement.setRole]
  case popTrap g r hc _ =>
    refine same hv (w := w) (p := .handlerDeque g r) (by rw [hc]; rfl) ?_
    apply Placement.ext <;> simp [place, Placement.setRole]
  case handlerDeque t g r hc hfree hb =>
    refine step hv hc (q := .handlerLock t g r) (.trap t hb (hl.not_locks hfree)) ?_
    apply Placement.ext <;> simp [place, Placement.setRole]
  case handlerLock t g r hc _ =>
    refine step hv hc (q := .poll (.handler t g r)) (.lock t) ?_
    apply Placement.ext <;> simp [place, Placement.setRole]
  case handlerRelock t g r hc _ hσ' => exact handlerRelock h hc hσ'
  case unwindLast hc hdepth => exact popLast h hc hdepth
  case unwind r hc hdepth => exact popUnwound h hc hdepth
  -- slow code
  case callSync hc hdepth _ =>
    refine step hv hc (q := .slowDeque .sync) (.call hdepth) ?_
    apply Placement.ext <;> simp [place, Placement.setRole]
  case callSetResult r hc hdepth _ _ =>
    refine step hv hc (q := .slowDeque (.setResult r)) (.call hdepth) ?_
    apply Placement.ext <;> simp [place, Placement.setRole]
  case callAbortSlow hc hdepth _ =>
    refine step hv hc (q := .slowDeque .abortSlow) (.call hdepth) ?_
    apply Placement.ext <;> simp [place, Placement.setRole]
  case slowDeque call t hc hfree hb =>
    refine step hv hc (q := .slowLock call t) (.enter t hb (hl.not_locks hfree)) ?_
    apply Placement.ext <;> simp [place, Placement.setRole]
  case slowSync t hc _ =>
    refine same hv (w := w) (p := .poll (.sync t)) (by rw [hc]; rfl) ?_
    apply Placement.ext <;> simp [place, Placement.setRole]
  case slowSetResult t r hc _ => exact setResult h hc
  case slowAbort t hc _ =>
    exact startAbort (lockClosure hv) (by simp [hc]; rfl)
  case slowReturn f hc => exact slowReturn h hc
  case exit res hc _ => exact goto hv (by rw [hc]; rfl)
  case exitRunning res args hc _ _ _ =>
    exact goto (signalImmediateException (enqueExit hv)) (by simp [hc]; rfl)
  case exitPoll res args hc _ _ _ =>
    exact goto (lockClosure (enqueExit hv)) (by simp [hc]; rfl)
  case finish hc hdepth _ _ =>
    refine step hv hc (q := .remove) (.finish hdepth) ?_
    apply Placement.ext <;> simp [place, Placement.setRole]
  case remove t hc hfree hb => exact removeRoot h hc hfree hb

/-- At the start every deque is empty, and `w₀` executes the root closure. -/
theorem init (w₀ : W) : (State.init cfg w₀).place.Valid := by
  have hrole : ∀ u, (State.init cfg w₀).place.role u =
      if u = w₀ then .executing rootClosure else .fetching := by
    intro u
    simp only [State.init, place, fieldOf]
    split <;> rfl
  have hdeque : ∀ u, (State.init cfg w₀).place.deque u = [] := fun _ => rfl
  have hhome : ∀ c, (State.init cfg w₀).place.home c = none := fun _ => rfl
  have hmagic : ∀ c, (State.init cfg w₀).place.magic c = decide (c = rootClosure) := fun _ => rfl
  have hstatus : ∀ c, (State.init cfg w₀).place.status c =
      if c = rootClosure then .ready else .returning := fun _ => rfl
  have hidle : ∀ c, (State.init cfg w₀).place.idle c = true := fun _ => rfl
  have hnext : (State.init cfg w₀).place.next = 1 := rfl
  generalize (State.init cfg w₀).place = P at *
  have hbottom : ∀ u, P.bottom u = none := fun u => by rw [Placement.bottom, hdeque]; rfl
  constructor
  case custody =>
    constructor <;> simp only [Placement.custody, hrole, hdeque, hhome, hmagic, hstatus]
    case held => exact fun c hc _ _ => ⟨w₀, by simpa [Role.token] using (of_decide_eq_true hc).symm⟩
    all_goals grind [Role.token]
  case own =>
    intro u
    rw [hrole]
    split <;> simp [Placement.Own, Placement.Quiet, hbottom, hstatus]
  all_goals grind [Role.locks, Role.raised, Role.guarded]

end Placed

/-- **Every reachable state is sound.** -/
theorem Sound.reachable {w₀ : W} (h : (scheduler cfg w₀).Reachable σ) : σ.Sound where
  named := .reachable h
  locks := .reachable h
  stopped := .reachable h
  placed := by
    refine h.invariant (P := fun σ => σ.place.Valid) (Placed.init w₀) fun _ _ _ hr hv hs => ?_
    exact Placed.transition ⟨.reachable hr, .reachable hr, .reachable hr, hv⟩
      (transition_of_step hs)

end State

end Cilk
