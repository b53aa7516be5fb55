import Cilk.Scheduler.Holders

/-!
# Abort

The abort status of a closure has three values. `ABORT_ALL` marks what an
abort kills, and `recursively_signal_abort` hands it down the tree of
children, one lock at a time. `ALMOST_NO_ABORT` marks the closure the abort
was requested on, which must survive it, until the call of `poll_inlets` that
follows the walk puts `NO_ABORT` back.

Only the owner of a closure's lock changes its abort status, so everything
said here of a closure holds however the other workers interleave.
-/

namespace Cilk

variable {W : Type}

/-- The two marks that there are. -/
theorem AbortStatus.of_ne_noAbort {s : AbortStatus} (h : s ≠ .noAbort) :
    s = .abortAll ∨ s = .almostNoAbort := by
  cases s
  · exact .inl rfl
  · exact .inr rfl
  · exact absurd rfl h

/-- The closure a thief is taking from its victim, whose lock it holds. -/
def Control.taking : Control W → Option ClosureId
  | dekkerHead _ c | dekkerTail _ c _ | retract _ c | promote _ c | finishPromote c _ => some c
  | _ => none

/-- Who takes over a closure holds its lock. -/
theorem Control.mem_held_of_taking {w : W} {p : Control W} {c : ClosureId}
    (hp : p.taking = some c) : .closure c ∈ p.held w := by
  cases p <;> simp_all [taking, held]

/-- A closure that is polled is named by the worker. -/
theorem Control.closure_mem_closures {p : Control W} {k : PollCaller}
    (hk : p.polling = some k) : k.closure ∈ p.closures := by
  cases p <;> simp only [polling, reduceCtorEq, Option.some.injEq] at hk
  all_goals
    subst hk
    simp [closures, PollCaller.closure_mem]

namespace State

/-! ## What a step does to an abort status -/

/-- What a step of worker `w` does to the abort status of closure `c`. -/
inductive AbortStep (w : W) (c : ClosureId) (σ σ' : State W) : Prop
  | kept (h : (σ'.closure c).abortStatus = (σ.closure c).abortStatus)
  | created (hnew : σ.nextClosure ≤ c) (h : (σ'.closure c).abortStatus = .noAbort)
  | reset (howner : σ.owner (.closure c) = none ∨ σ.owner (.closure c) = some w)
      (hnot : (σ.closure c).abortStatus ≠ .abortAll)
      (h : (σ'.closure c).abortStatus = .noAbort)
  | requested (k : PollCaller) (hk : (σ'.control w).polling = some k) (hc : k.closure = c)
      (howner : σ.owner (.closure c) = none ∨ σ.owner (.closure c) = some w)
      (hnot : (σ.closure c).abortStatus ≠ .abortAll)
      (h : (σ'.closure c).abortStatus = .almostNoAbort)
  | marked (k : PollCaller) (i : Option InletClosure) (todo : List ClosureId)
      (path : List (ClosureId × List ClosureId))
      (hcontrol : σ'.control w = .abortWalk k i todo ((c, (σ.closure c).children) :: path))
      (hfree : σ.owner (.closure c) = none)
      (h : (σ'.closure c).abortStatus = .abortAll)

variable [DecidableEq W] {cfg : Config} {w : W} {σ σ' : State W}

omit [DecidableEq W] in
/-- At most one closure changes its abort status, which was not
`ABORT_ALL`. -/
theorem AbortStep.of_reset {c t : ClosureId}
    (howner : σ.owner (.closure t) = none ∨ σ.owner (.closure t) = some w)
    (hself : (σ'.closure t).abortStatus = (σ.closure t).abortStatus ∨
      (σ.closure t).abortStatus ≠ .abortAll ∧ (σ'.closure t).abortStatus = .noAbort)
    (hother : ∀ d, d ≠ t → (σ'.closure d).abortStatus = (σ.closure d).abortStatus) :
    AbortStep w c σ σ' := by
  by_cases hc : c = t
  · subst hc
    rcases hself with hk | ⟨hnot, hr⟩
    · exact .kept hk
    · exact .reset howner hnot hr
  · exact .kept (hother c hc)

/-- Abort is requested on a closure that the step has left alone, but for a
child it may have created. -/
theorem AbortStep.of_startAbort {c : ClosureId} {k : PollCaller} {i : Option InletClosure}
    {τ : State W}
    (howner : σ.owner (.closure k.closure) = none ∨ σ.owner (.closure k.closure) = some w)
    (hself : (τ.closure k.closure).abortStatus = (σ.closure k.closure).abortStatus)
    (hother : (τ.closure c).abortStatus = (σ.closure c).abortStatus ∨
      c = σ.nextClosure ∧ (τ.closure c).abortStatus = .noAbort) :
    AbortStep w c σ (τ.startAbort w k i) := by
  simp only [abortStatus_closure] at hself hother
  by_cases hck : c = k.closure
  · subst hck
    rcases h : fieldOf σ.closure Closure.abortStatus k.closure
    · exact .kept (by simp [hself, h])
    all_goals
      exact .requested k (by simp [Control.polling]) rfl howner (by simp [h]) (by simp [hself, h])
  · rcases hother with h | ⟨hc, h⟩
    · exact .kept (by simpa [hck] using h)
    · exact .created hc.ge (by simpa [hck] using h)

/-- Detaching a closure creates its child, and leaves the other closures
alone. -/
theorem abortStatus_detachFromInlet (cfg : Config) (w : W) (σ : State W) (p : ClosureId)
    (args : Bytes) (c : ClosureId) :
    ((σ.detachFromInlet cfg w p args).closure c).abortStatus = (σ.closure c).abortStatus ∨
      c = σ.nextClosure ∧
        ((σ.detachFromInlet cfg w p args).closure c).abortStatus = .noAbort := by
  unfold detachFromInlet
  split
  · by_cases hc : c = σ.nextClosure
    · exact .inr ⟨hc, by simp [hc]⟩
    · exact .inl (by simp [hc])
  · exact .inl rfl

omit [DecidableEq W] in
/-- The closure that is polled was created. -/
theorem LocksHeld.polled_lt (hl : σ.LocksHeld) {k : PollCaller}
    (hk : (σ.control w).polling = some k) : k.closure < σ.nextClosure := by
  by_contra hlt
  have hfree := hl.fresh k.closure (Nat.not_lt.mp hlt)
  exact hl.held.not_mem_of_free hfree (w := w) (Control.mem_held_of_polling hk)

/-- **A step changes the abort status of a closure only under its lock.** -/
theorem abortStep (hl : σ.LocksHeld) (c : ClosureId) (ht : Transition cfg w σ σ') :
    AbortStep w c σ σ' := by
  have hown : ∀ {k : PollCaller}, (σ.control w).polling = some k →
      σ.owner (.closure k.closure) = none ∨ σ.owner (.closure k.closure) = some w := fun hk =>
    .inr ((hl.held.mem_held w _).mp (Control.mem_held_of_polling hk))
  cases ht
  case promote v cl hc =>
    by_cases hnew : c = σ.nextClosure
    · exact .created hnew.ge (by simp [hnew])
    · exact .kept (by simp [hnew])
  case setup t hc hfree hstatus habort =>
    refine .of_reset (t := t) (.inl hfree) (.inl ?_) fun d hd => ?_
    · simpa using habort.symm
    · simp [hd]
  -- the end of `poll_inlets`
  case pollSetup t hc _ | pollRelock t _ _ _ hc _ _ _ | pollSuspend t hc _ _ |
      pollSynced t hc _ _ | pollAbortSlow t hc _ | pollWait _ t hc _ _ _ | pollReturn _ t hc _ _ |
      pollWake _ t hc _ | pollExit t hc _ =>
    refine .of_reset (t := t) (hown (congrArg Control.polling hc)) ?_ fun d hd => ?_
    · simp
      grind
    · simp [hd]
  case pollHandler t _ _ hc _ _ hσ' =>
    cases hσ'
    all_goals
      refine .of_reset (t := t) (hown (congrArg Control.polling hc)) ?_ fun d hd => ?_
      · simp
        grind
      · simp [hd]
  case handlerRelock t _ _ hc hfree hσ' =>
    cases hσ'
    all_goals
      refine .of_reset (t := t) (.inl hfree) ?_ fun d hd => ?_
      · simp
        try grind
      · simp [hd]
  -- the walk
  case walkFirst k i d ds hc hfree =>
    by_cases hd : c = d
    · subst hd
      exact .marked k i ds [] (by simp) hfree (by simp)
    · exact .kept (by simp [hd])
  case walkDown k i todo p d ds path hc hfree =>
    by_cases hd : c = d
    · subst hd
      exact .marked k i todo ((p, ds) :: path) (by simp) hfree (by simp)
    · exact .kept (by simp [hd])
  case walkDone i _ => cases i <;> exact .kept rfl
  case slowAbort t hc hfree =>
    exact .of_startAbort (.inl hfree) (by simp [PollCaller.closure]) (.inl (by simp))
  case inletAbort k i rest args hc _ _ _ _ =>
    have hk : (σ.control w).polling = some k := congrArg Control.polling hc
    have hdetach := abortStatus_detachFromInlet cfg w
      ((σ.setComplete k.closure rest).runInlet cfg w k.closure i) k.closure args
    refine .of_startAbort (hown hk) ?_ ((hdetach c).imp (by simp) (by simp))
    refine ((hdetach k.closure).resolve_right fun h => ?_).trans (by simp)
    exact (hl.polled_lt hk).ne (h.1.trans (by simp))
  case returnRunning hσ' _ | returnPoll hσ' _ =>
    cases hσ'
    all_goals
      refine .kept ?_
      simp
  all_goals first
    | exact .kept rfl
    | exact .kept (by simp)

/-! ## The call of `poll_inlets` an abort is part of -/

/-- The call goes on, and leaves the closure as it is. -/
structure PollGoesOn (w : W) (k : PollCaller) (σ σ' : State W) : Prop where
  polling : (σ'.control w).polling = some k
  abortStatus : (σ'.closure k.closure).abortStatus = (σ.closure k.closure).abortStatus
  status : (σ'.closure k.closure).status = (σ.closure k.closure).status

/-- The call ends, and what follows it only makes a closure return that had
popped its last frame, or that an ancestor aborts. -/
structure PollEnds (w : W) (k : PollCaller) (σ σ' : State W) : Prop where
  polling : (σ'.control w).polling ≠ some k
  abortStatus : (σ'.closure k.closure).abortStatus = .noAbort ∨
    (σ.closure k.closure).abortStatus = .abortAll ∧
      (σ'.closure k.closure).abortStatus = .abortAll
  status : (σ'.closure k.closure).status = .returning →
    (σ.closure k.closure).status = .returning ∨ (σ.closure k.closure).abortStatus = .abortAll ∨
      (σ.cache w).tail ≤ (σ.cache w).head

/-- Resetting the exception pointer leaves the head. -/
theorem head_resetExceptionPointer (c : ClosureId) (v : W) :
    ((σ.resetExceptionPointer c).cache v).head = (σ.cache v).head := by
  unfold resetExceptionPointer modifyCacheOf
  split
  case h_1 u _ =>
    show (Function.update σ.cache u _ v).head = _
    by_cases hv : v = u
    · rw [hv, Function.update_self]
    · rw [Function.update_of_ne hv]
  case h_2 => rfl

/-- It leaves the tail, too. -/
theorem tail_resetExceptionPointer (c : ClosureId) (v : W) :
    ((σ.resetExceptionPointer c).cache v).tail = (σ.cache v).tail := by
  unfold resetExceptionPointer modifyCacheOf
  split
  case h_1 u _ =>
    show (Function.update σ.cache u _ v).tail = _
    by_cases hv : v = u
    · rw [hv, Function.update_self]
    · rw [Function.update_of_ne hv]
  case h_2 => rfl

/-- A step of the worker that polls an aborting closure. -/
theorem poll_step {k : PollCaller} (hl : σ.LocksHeld) (hk : (σ.control w).polling = some k)
    (habort : (σ.closure k.closure).abortStatus ≠ .noAbort) (ht : Transition cfg w σ σ') :
    PollGoesOn w k σ σ' ∨ PollEnds w k σ σ' := by
  have hown := (hl.held.mem_held w _).mp (Control.mem_held_of_polling hk)
  have hsome := AbortStatus.of_ne_noAbort habort
  cases ht
  case pollSetup t hc _ | pollRelock t _ _ _ hc _ _ _ | pollSuspend t hc _ _ |
      pollSynced t hc _ _ | pollAbortSlow t hc _ | pollWait _ t hc _ _ _ | pollReturn _ t hc _ _ |
      pollWake _ t hc _ | pollExit t hc _ =>
    rw [hc] at hk
    cases Option.some.inj hk
    refine .inr ⟨?_, ?_, ?_⟩
    · simp [Control.polling]
    · simp [PollCaller.closure] at hsome ⊢
      grind
    · simp +contextual [PollCaller.closure]
  case pollHandler t _ _ hc _ _ hσ' =>
    rw [hc] at hk
    cases Option.some.inj hk
    cases hσ'
    case returning hstolen _ | unwinding hstolen _ =>
      rw [head_resetExceptionPointer, tail_resetExceptionPointer] at hstolen
      refine .inr ⟨?_, ?_, fun _ => .inr (.inr hstolen)⟩
      · simp [Control.polling]
      · simp [PollCaller.closure] at hsome ⊢
        grind
    case discardLast _ habort' _ _ =>
      simp at habort'
      refine .inr ⟨?_, ?_, fun _ => .inr (.inl ?_)⟩
      · simp [Control.polling]
      · simp [PollCaller.closure] at hsome ⊢
        grind
      · simp [PollCaller.closure] at hsome ⊢
        grind
    all_goals
      refine .inr ⟨?_, ?_, ?_⟩
      · simp [Control.polling]
      · simp [PollCaller.closure] at hsome ⊢
        grind
      · simp +contextual [PollCaller.closure]
  case inletDrop hc _ _ =>
    rw [hc] at hk
    cases Option.some.inj hk
    exact .inl ⟨by simp [hc, Control.polling], by simp, by simp⟩
  case inletApply hc _ h _ | inletAbort hc _ h _ _ =>
    rw [hc] at hk
    cases Option.some.inj hk
    exact absurd h habort
  case walkFirst d _ hc hfree | walkDown d _ _ hc hfree =>
    -- the lock of the closure is held, and that of the child free
    have hd : k.closure ≠ d := by
      rintro rfl
      exact absurd (hown.symm.trans hfree) (Option.some_ne_none w)
    rw [hc] at hk
    cases Option.some.inj hk
    exact .inl ⟨by simp [Control.polling], by simp [hd], by simp⟩
  case walkUp hc =>
    rw [hc] at hk
    cases Option.some.inj hk
    exact .inl ⟨by simp [Control.polling], by simp, by simp⟩
  case walkDone i hc =>
    rw [hc] at hk
    cases Option.some.inj hk
    refine .inl ⟨?_, ?_, ?_⟩
    · simp [Control.polling]
    all_goals cases i <;> rfl
  case leave hc _ => rcases hc with hc | hc <;> simp [hc, Control.polling] at hk
  all_goals
    rw [‹σ.control w = _›] at hk
    cases hk

/-- A step changes the status of a closure only under its lock, too. -/
theorem status_step (hl : σ.LocksHeld) (c : ClosureId) (ht : Transition cfg w σ σ') :
    (σ'.closure c).status = (σ.closure c).status ∨ σ.owner (.closure c) = none ∨
      σ.owner (.closure c) = some w := by
  -- one closure changes its status
  have hone : ∀ t, σ.owner (.closure t) = none ∨ σ.owner (.closure t) = some w →
      (c ≠ t → (σ'.closure c).status = (σ.closure c).status) →
      (σ'.closure c).status = (σ.closure c).status ∨ σ.owner (.closure c) = none ∨
        σ.owner (.closure c) = some w := by
    intro t hown hother
    by_cases hc : c = t
    · exact .inr (hc ▸ hown)
    · exact .inl (hother hc)
  have hheld : ∀ {t : ClosureId}, .closure t ∈ σ.held w →
      σ.owner (.closure t) = none ∨ σ.owner (.closure t) = some w := fun ht =>
    .inr ((hl.held.mem_held w _).mp ht)
  cases ht
  case promote =>
    exact hone σ.nextClosure (.inl (hl.fresh _ le_rfl)) fun hc => by simp [hc]
  case finishPromote p _ _ hc _ =>
    exact hone p (hheld (by simp [State.held, hc, Control.held])) fun hc => by simp [hc]
  case abortSuspend t _ hfree _ _ _ | abortReturn t _ hfree _ _ _ | setup t _ hfree _ _ |
      slowSetResult t _ _ hfree =>
    exact hone t (.inl hfree) fun hc => by simp [hc]
  case pollSuspend t hc _ _ =>
    exact hone t (hheld (by simp [State.held, hc, Control.held, PollCaller.held])) fun hc => by
      simp [hc]
  case pollWake _ t hc _ =>
    exact hone t (hheld (by simp [State.held, hc, Control.held, PollCaller.held])) fun hc => by
      simp [hc]
  case pollHandler t _ _ hc _ _ hσ' =>
    refine hone t (hheld (by simp [State.held, hc, Control.held, PollCaller.held])) fun hc => ?_
    cases hσ' <;> simp [hc]
  case handlerRelock t _ _ hc hfree hσ' =>
    refine hone t (.inl hfree) fun hc => ?_
    cases hσ' <;> simp [hc]
  case inletAbort k i rest args hc _ _ _ _ =>
    have hk : (σ.control w).polling = some k := congrArg Control.polling hc
    by_cases hnew : c = σ.nextClosure
    · exact .inr (.inl (hnew ▸ hl.fresh _ le_rfl))
    · refine hone k.closure (hheld (Control.mem_held_of_polling hk)) fun hck => ?_
      unfold detachFromInlet
      split <;> simp [hck, hnew]
  case walkDone i _ => cases i <;> exact .inl rfl
  case returnRunning hσ' _ | returnPoll hσ' _ => cases hσ' <;> exact .inl (by simp)
  all_goals first
    | exact .inl rfl
    | exact .inl (by simp)

/-- **A lock protects the status of its closure**: a step of another worker
leaves it alone. -/
theorem locked_step {u : W} {c : ClosureId} (hl : σ.LocksHeld)
    (howner : σ.owner (.closure c) = some u) (hu : u ≠ w) (ht : Transition cfg w σ σ') :
    (σ'.closure c).status = (σ.closure c).status ∧
      (σ'.closure c).abortStatus = (σ.closure c).abortStatus := by
  have hnot : ¬ (σ.owner (.closure c) = none ∨ σ.owner (.closure c) = some w) := by
    rw [howner]
    rintro (h | h)
    · exact Option.some_ne_none u h
    · exact hu (Option.some.inj h)
  refine ⟨(status_step hl c ht).resolve_right hnot, ?_⟩
  cases abortStep hl c ht with
  | kept h => exact h
  | created hnew _ => exact absurd (.inl (hl.fresh c hnew)) hnot
  | reset h _ _ => exact absurd h hnot
  | requested _ _ _ h _ _ => exact absurd h hnot
  | marked _ _ _ _ _ h _ => exact absurd (.inl h) hnot

/-- A step moves the program counter of its own worker. -/
theorem control_step {u : W} (hu : u ≠ w) (ht : Transition cfg w σ σ') :
    σ'.control u = σ.control u := by
  cases ht
  case pollHandler hσ' | handlerRelock hσ' => cases hσ' <;> simp [hu]
  case returnRunning hσ' _ | returnPoll hσ' _ => cases hσ' <;> simp [hu]
  case walkDone i _ => cases i <;> simp [freeAborted, hu]
  all_goals simp [hu]

/-- No name is handed out twice. -/
theorem nextClosure_step (ht : Transition cfg w σ σ') : σ.nextClosure ≤ σ'.nextClosure := by
  cases ht
  case inletAbort k i rest args _ _ _ _ _ =>
    have hle : ((σ.setComplete k.closure rest).runInlet cfg w k.closure i).nextClosure ≤
        (((σ.setComplete k.closure rest).runInlet cfg w k.closure i).detachFromInlet cfg w
          k.closure args).nextClosure :=
      Named.nextClosure_detachFromInlet
    simpa using hle
  case pollHandler hσ' | handlerRelock hσ' => cases hσ' <;> simp
  case returnRunning hσ' _ | returnPoll hσ' _ => cases hσ' <;> simp
  case walkDone i _ => cases i <;> simp [freeAborted]
  all_goals simp

/-! ## The invariant -/

/-- Worker `w` is in `recursively_signal_abort` of `c`, and has yet to visit
the child `d`. -/
def Visits (σ : State W) (w : W) (c d : ClosureId) : Prop :=
  ∃ k i todo path ds, σ.control w = .abortWalk k i todo path ∧ (c, ds) ∈ path ∧ d ∈ ds

/-- What abort keeps true of a state. -/
structure Aborting (σ : State W) : Prop where
  fresh : ∀ c, σ.nextClosure ≤ c → (σ.closure c).abortStatus = .noAbort
  /-- `ALMOST_NO_ABORT` lasts for one call of `poll_inlets`. -/
  almost : ∀ c, (σ.closure c).abortStatus = .almostNoAbort →
    ∃ w k, (σ.control w).polling = some k ∧ k.closure = c
  /-- The children of a closure to abort are marked, or about to be. -/
  hereditary : ∀ c d, (σ.closure c).abortStatus = .abortAll → d ∈ (σ.closure c).children →
    (σ.closure d).abortStatus = .abortAll ∨ ∃ w, σ.Visits w c d
  taking : ∀ w c, (σ.control w).taking = some c → (σ.closure c).abortStatus = .noAbort
  returning : ∀ w c p i, σ.control w = .returnChild c p i → i.this = some c

/-- A step visits a child, or does not. -/
theorem visits_step {c d : ClosureId} (hv : σ.Visits w c d) (ht : Transition cfg w σ σ') :
    (σ'.closure d).abortStatus = .abortAll ∨ σ'.Visits w c d := by
  obtain ⟨k, i, todo, path, ds, hcontrol, hmem, hd⟩ := hv
  cases ht
  case walkFirst hc _ =>
    cases hcontrol.symm.trans hc
    cases hmem
  case walkDown k i todo p e es path hc _ =>
    cases hcontrol.symm.trans hc
    cases hmem with
    | head =>
      cases hd with
      | head => exact .inl (by simp)
      | tail _ hd =>
        exact .inr ⟨k, i, todo, _, es, by simp; rfl, by simp, hd⟩
    | tail _ hmem =>
      refine .inr ⟨k, i, todo, _, ds, by simp; rfl, ?_, hd⟩
      exact List.mem_cons_of_mem _ (List.mem_cons_of_mem _ hmem)
  case walkUp k i todo p path hc =>
    cases hcontrol.symm.trans hc
    cases hmem with
    | head => cases hd
    | tail _ hmem => exact .inr ⟨k, i, todo, path, ds, by simp, hmem, hd⟩
  case walkDone hc =>
    cases hcontrol.symm.trans hc
    cases hmem
  case leave hc _ => rcases hc with hc | hc <;> cases hcontrol.symm.trans hc
  all_goals cases hcontrol.symm.trans ‹σ.control w = _›

namespace Aborting

/-- A worker takes over closures without a mark only. -/
theorem taking_step (h : σ.Aborting) {c : ClosureId} (ht : Transition cfg w σ σ')
    (hc : (σ'.control w).taking = some c) : (σ.closure c).abortStatus = .noAbort := by
  have htake := h.taking w c
  cases ht
  case stealRunning v cl _ _ habort _ =>
    simp only [goto_control, Function.update_self, Control.taking, Option.some.injEq] at hc
    exact hc ▸ habort
  case inletDrop hcontrol _ _ | inletApply hcontrol _ _ _ | stealNone hcontrol _ _ _ =>
    simp [hcontrol, Control.taking] at hc
  case pollHandler hσ' | handlerRelock hσ' => cases hσ' <;> simp [Control.taking] at hc
  case leave => simp [Control.taking] at hc
  all_goals
    simp [Control.taking] at hc
    try exact htake (by rw [‹σ.control w = _›, ← hc]; rfl)

/-- The inlet of a child that returns names the child. -/
theorem returning_step {c p : ClosureId} {i : InletClosure}
    (ht : Transition cfg w σ σ') (hc : σ'.control w = .returnChild c p i) : i.this = some c := by
  cases ht
  case lockParent hi =>
    simp only [goto_control, Function.update_self, Control.returnChild.injEq] at hc
    obtain ⟨rfl, rfl, rfl⟩ := hc
    exact (mem_removeChild hi).2.1
  case inletDrop hcontrol _ _ | inletApply hcontrol _ _ _ | stealNone hcontrol _ _ _ =>
    cases hcontrol.symm.trans hc
  case pollHandler hσ' | handlerRelock hσ' => cases hσ' <;> simp at hc
  all_goals simp at hc

/-- Only a closure that is not to abort gets a new child. -/
theorem children_step (h : σ.Aborting) {c d : ClosureId} (ht : Transition cfg w σ σ')
    (habort : (σ'.closure c).abortStatus = .abortAll) (hd : d ∈ (σ'.closure c).children) :
    d ∈ (σ.closure c).children := by
  simp only [Closure.children, incompleteInlets_closure] at hd ⊢
  simp only [abortStatus_closure] at habort
  have htake := h.taking w
  cases ht
  case promote =>
    by_cases hc : c = σ.nextClosure
    · simp [hc] at hd
    · simpa [hc] using hd
  case finishPromote p e _ hc _ =>
    have hp := htake p (by rw [hc]; rfl)
    by_cases hcp : c = p
    · subst hcp
      simp at habort hp
      rw [hp] at habort
      cases habort
    · simpa [hcp] using hd
  case lockParent e p i is hc _ _ hi =>
    obtain ⟨-, -, his⟩ := mem_removeChild hi
    by_cases hcp : c = p
    · subst hcp
      simp at hd
      simp only [incompleteInlets_closure] at his
      grind
    · simpa [hcp] using hd
  case inletAbort k i rest args hc _ hno _ _ =>
    by_cases hck : c = k.closure
    · -- abort is requested on the closure
      subst hck
      have hτ := abortStatus_detachFromInlet cfg w
        ((σ.setComplete k.closure rest).runInlet cfg w k.closure i) k.closure args k.closure
      simp at habort hτ hno
      rw [hno, and_comm] at hτ
      rw [hτ.elim id And.left] at habort
      cases habort
    · unfold detachFromInlet at hd
      split at hd
      · by_cases hnew : c = σ.nextClosure
        · subst hnew
          simp [hck] at hd
        · simpa [hck, hnew] using hd
      · simpa using hd
  case pollHandler hσ' | handlerRelock hσ' => cases hσ' <;> simpa using hd
  case returnRunning hσ' _ | returnPoll hσ' _ => cases hσ' <;> simpa using hd
  case walkDone i _ => cases i <;> simpa [freeAborted] using hd
  all_goals simpa using hd

/-- `ABORT_ALL` is never taken back. -/
theorem abortAll_step (h : σ.Aborting) (hl : σ.LocksHeld) (ht : Transition cfg w σ σ')
    {c : ClosureId} (hc : (σ.closure c).abortStatus = .abortAll) :
    (σ'.closure c).abortStatus = .abortAll := by
  cases abortStep hl c ht with
  | kept hk => exact hk.trans hc
  | created hnew _ =>
    rw [h.fresh c hnew] at hc
    cases hc
  | reset _ hnot _ | requested _ _ _ _ hnot _ => exact absurd hc hnot
  | marked _ _ _ _ _ _ hm => exact hm

/-- **Every step keeps it.** -/
theorem transition (h : σ.Aborting) (hl : σ.LocksHeld) (hn : σ.Named)
    (ht : Transition cfg w σ σ') : σ'.Aborting := by
  have hown : ∀ {u : W} {c : ClosureId}, .closure c ∈ σ.held u → σ.owner (.closure c) = some u :=
    fun hc => (hl.held.mem_held _ _).mp hc
  constructor
  case fresh =>
    intro c hc
    have hn' := hn.transition ht
    have hnot : ∀ u, c ∉ (σ'.control u).closures := fun u hu =>
      absurd (hn'.control u c hu) (Nat.not_lt.mpr hc)
    cases abortStep hl c ht with
    | kept hk => exact hk.trans (h.fresh c (le_trans (nextClosure_step ht) hc))
    | created _ hr | reset _ _ hr => exact hr
    | requested k hk he _ _ _ => exact absurd (he ▸ Control.closure_mem_closures hk) (hnot w)
    | marked k i todo path hm _ _ => exact absurd (by rw [hm]; simp [Control.closures]) (hnot w)
  case almost =>
    intro c hc
    cases abortStep hl c ht with
    | kept hk =>
      obtain ⟨u, k, hu, rfl⟩ := h.almost c (hk.symm.trans hc)
      by_cases huw : u = w
      · subst huw
        have hno : (σ.closure k.closure).abortStatus ≠ .noAbort := by
          rw [← hk, hc]
          exact AbortStatus.noConfusion
        rcases poll_step hl hu hno ht with hgo | hend
        · exact ⟨u, k, hgo.polling, rfl⟩
        · rcases hend.abortStatus with he | ⟨-, he⟩ <;> cases he.symm.trans hc
      · exact ⟨u, k, (control_step huw ht).symm ▸ hu, rfl⟩
    | created _ hr | reset _ _ hr | marked _ _ _ _ _ _ hr => cases hr.symm.trans hc
    | requested k hk he _ _ _ => exact ⟨w, k, hk, he⟩
  case hereditary =>
    intro c d hc hd
    have hd' := h.children_step ht hc hd
    cases abortStep hl c ht with
    | kept hk =>
      rcases h.hereditary c d (hk.symm.trans hc) hd' with hdone | ⟨u, hu⟩
      · exact .inl (h.abortAll_step hl ht hdone)
      · by_cases huw : u = w
        · subst huw
          exact (visits_step hu ht).imp_right fun hv => ⟨u, hv⟩
        · refine .inr ⟨u, ?_⟩
          rw [Visits, control_step huw ht]
          exact hu
    | created _ hr | reset _ _ hr | requested _ _ _ _ _ hr => cases hr.symm.trans hc
    | marked k i todo path hm _ _ =>
      exact .inr ⟨w, k, i, todo, _, _, hm, List.mem_cons_self, hd'⟩
  case taking =>
    intro u c hu
    by_cases huw : u = w
    · subst huw
      have hno := h.taking_step ht hu
      cases abortStep hl c ht with
      | kept hk => exact hk.trans hno
      | created _ hr | reset _ _ hr => exact hr
      | requested k hk _ _ _ _ =>
        cases hp : σ'.control u <;> simp_all [Control.taking, Control.polling]
      | marked k i todo path hm _ _ =>
        rw [hm] at hu
        cases hu
    · rw [control_step huw ht] at hu
      have hc := hown (Control.mem_held_of_taking hu)
      exact (locked_step hl hc huw ht).2.trans (h.taking u c hu)
  case returning =>
    intro u c p i hu
    by_cases huw : u = w
    · subst huw
      exact returning_step ht hu
    · rw [control_step huw ht] at hu
      exact h.returning u c p i hu

/-- In the beginning nothing is aborted. -/
theorem init (w₀ : W) : (State.init cfg w₀).Aborting where
  fresh c _ := rfl
  almost c hc := by cases hc
  hereditary c d hc _ := by cases hc
  taking w c hc := by
    simp only [State.init] at hc
    split at hc <;> cases hc
  returning w c p i hc := by
    simp only [State.init] at hc
    split at hc <;> cases hc

/-- It holds in every reachable state. -/
theorem reachable {w₀ : W} (h : (scheduler cfg w₀).Reachable σ) : σ.Aborting :=
  h.invariant (init w₀) fun _ _ _ hr ha hs =>
    ha.transition (LocksHeld.reachable hr) (Named.reachable hr) (transition_of_step hs)

end Aborting

/-! ## Events -/

end State

/-- The event hands closure `c` to a thief, executes it, applies an inlet to
its frame, or delivers the inlet of `c` to its parent. -/
def Event.Serves (c : ClosureId) : Event W → Prop
  | handed _ d | setup _ d | apply d _ => d = c
  | enqueue _ i => i.this = some c
  | _ => False

namespace State

variable [DecidableEq W] {cfg : Config} {w : W} {σ σ' : State W}

/-- Worker `w` has requested abort on `c`, which may have been detached. -/
structure Requested (w : W) (c : ClosureId) (σ σ' : State W) : Prop where
  polling : ∃ k, (σ'.control w).polling = some k ∧ k.closure = c
  status : (σ'.closure c).status = (σ.closure c).status ∨
    (σ.closure c).status = .running ∧ (σ'.closure c).status = .ready
  abortStatus : (σ'.closure c).abortStatus = .almostNoAbort ∨
    (σ.closure c).abortStatus = .abortAll ∧ (σ'.closure c).abortStatus = .abortAll

/-- What an event says of the step of `w` that emits it. -/
def Justified (w : W) (σ σ' : State W) : Event W → Prop
  | .handed _ c | .setup _ c | .apply c _ => (σ.closure c).abortStatus = .noAbort
  | .enqueue _ i => ∀ c, i.this = some c → (σ.closure c).abortStatus = .noAbort
  | .abort c => Requested w c σ σ'
  | _ => True

omit [DecidableEq W] in
/-- What is served is not aborted. -/
theorem Justified.noAbort {e : Event W} {c : ClosureId} (h : Justified w σ σ' e)
    (he : e.Serves c) : (σ.closure c).abortStatus = .noAbort := by
  cases e with
  | handed _ d | setup _ d | apply d _ =>
    subst he
    exact h
  | enqueue _ i => exact h c he
  | _ => cases he

/-- An inlet that gets its value is that of the same child. -/
@[simp] theorem this_withValue (i : InletClosure) (v : Option Bytes) :
    (i.withValue v).this = i.this := by
  cases v <;> rfl

/-- A signal is no event. -/
@[simp] theorem trace_signalAbortHere (c : ClosureId) (s : AbortStatus) :
    (σ.signalAbortHere c s).trace = σ.trace := by
  unfold signalAbortHere
  split <;> rfl

/-- An abort that starts is requested. -/
theorem Requested.of_startAbort {k : PollCaller} {i : Option InletClosure} {τ : State W}
    (hstatus : (τ.closure k.closure).status = (σ.closure k.closure).status ∨
      (σ.closure k.closure).status = .running ∧ (τ.closure k.closure).status = .ready)
    (habort : (τ.closure k.closure).abortStatus = (σ.closure k.closure).abortStatus) :
    Requested w k.closure σ (τ.startAbort w k i) where
  polling := ⟨k, by simp [Control.polling], rfl⟩
  status := by simpa using hstatus
  abortStatus := by
    simp only [abortStatus_closure] at habort ⊢
    rcases h : fieldOf σ.closure Closure.abortStatus k.closure <;> simp [habort, h]

/-- The abort itself is an event. -/
theorem trace_startAbort (k : PollCaller) (i : Option InletClosure) :
    (σ.startAbort w k i).trace = .abort k.closure :: σ.trace :=
  congrArg _ (trace_signalAbortHere _ _)

/-- A closure that is detached was running, and becomes ready. -/
theorem status_detachFromInlet (cfg : Config) (w : W) (σ : State W) (p : ClosureId)
    (args : Bytes) :
    ((σ.detachFromInlet cfg w p args).closure p).status = (σ.closure p).status ∨
      (σ.closure p).status = .running ∧
        ((σ.detachFromInlet cfg w p args).closure p).status = .ready := by
  unfold detachFromInlet
  split
  case isTrue h =>
    have hrun := (Bool.and_eq_true _ _ ▸ h).1
    exact .inr ⟨by simpa [isRunning] using hrun, by simp⟩
  case isFalse => exact .inl rfl

/-- Every event is justified by the step that emits it. -/
theorem emitted (h : σ.Aborting) (hl : σ.LocksHeld) (ht : Transition cfg w σ σ') :
    TransitionSystem.Extends (Justified w σ σ') σ.trace σ'.trace := by
  have htake := h.taking w
  have hthis := h.returning w
  cases ht
  case slowAbort t _ _ =>
    rw [trace_startAbort]
    exact .cons (.of_startAbort (.inl (by simp)) (by simp [PollCaller.closure])) (.refl _)
  case inletAbort k i rest args hc _ hno _ _ =>
    have hk : (σ.control w).polling = some k := congrArg Control.polling hc
    have hstatus := status_detachFromInlet cfg w
      ((σ.setComplete k.closure rest).runInlet cfg w k.closure i) k.closure args
    have habort := (abortStatus_detachFromInlet cfg w
      ((σ.setComplete k.closure rest).runInlet cfg w k.closure i) k.closure args
      k.closure).resolve_right fun h => (hl.polled_lt hk).ne h.1
    rw [trace_startAbort]
    refine .cons (.of_startAbort ?_ ?_) ?_
    · simpa using hstatus
    · simpa using habort
    unfold detachFromInlet
    split
    · simp
      exact .cons trivial (.cons trivial (.cons trivial (.cons trivial (.cons trivial (.cons trivial
        (.cons hno (.cons trivial (.refl _))))))))
    · exact .cons hno (.cons trivial (.refl _))
  case exitRunning | exitPoll =>
    -- the inlet of `Cilk_exit` is no child's
    exact .cons (fun _ hc => absurd hc (Option.some_ne_none _).symm)
      (.cons trivial (.cons trivial (.cons trivial (.refl _))))
  case finishPromote p _ _ hc _ =>
    exact .cons (htake p (by rw [hc]; rfl)) (.cons trivial (.cons trivial (.cons trivial
      (.cons trivial (.refl _)))))
  case pollHandler hσ' | handlerRelock hσ' =>
    cases hσ'
    all_goals
      simp
      try split
      all_goals
        repeat' first
          | exact TransitionSystem.Extends.refl _
          | refine TransitionSystem.Extends.cons trivial ?_
  case returnRunning hc _ hσ' _ | returnPoll hc _ hσ' _ =>
    have hi := hthis _ _ _ hc
    cases hσ'
    all_goals
      simp
      try split
      all_goals
        repeat' first
          | exact TransitionSystem.Extends.refl _
          | refine TransitionSystem.Extends.cons ?_ ?_
        all_goals simp_all [Justified]
  case walkDone i _ =>
    cases i
    · exact .refl _
    · exact .cons trivial (.cons trivial (.refl _))
  all_goals
    try simp
    try split
    all_goals
      repeat' first
        | exact TransitionSystem.Extends.refl _
        | refine TransitionSystem.Extends.cons trivial ?_
        | refine TransitionSystem.Extends.cons ?_ ?_
        | assumption
/-! ## Runs -/

section Runs

variable {w₀ : W}

/-- A run of the scheduler from a closure to abort. -/
theorem abortAll_run {as : List (W × Action W)} {c : ClosureId}
    (hr : (scheduler cfg w₀).Reachable σ) (hc : (σ.closure c).abortStatus = .abortAll)
    (hrun : (scheduler cfg w₀).run as σ = some σ') :
    (σ'.closure c).abortStatus = .abortAll ∧
      TransitionSystem.Extends (fun e => ¬ e.Serves c) σ.trace σ'.trace := by
  have hstep := TransitionSystem.run_extends (M := scheduler cfg w₀)
    (P := fun τ => (scheduler cfg w₀).Reachable τ ∧ (τ.closure c).abortStatus = .abortAll)
    (Q := fun e => ¬ e.Serves c) State.trace ?_ ⟨hr, hc⟩ hrun
  · exact ⟨hstep.1.2, hstep.2⟩
  rintro τ τ' a ⟨hτ, habort⟩ hst
  have ht := transition_of_step hst
  have ha := Aborting.reachable hτ
  have hl := LocksHeld.reachable hτ
  refine ⟨⟨.step a hτ hst, ha.abortAll_step hl ht habort⟩, ?_⟩
  refine (emitted ha hl ht).mono fun e he hserves => ?_
  cases habort.symm.trans (he.noAbort hserves)

/-- While its worker polls it, an aborting closure stays as it is. -/
theorem polling_within {k : PollCaller} (hr : (scheduler cfg w₀).Reachable σ)
    (habort : (σ.closure k.closure).abortStatus ≠ .noAbort)
    (h : (scheduler cfg w₀).Within (fun τ => (τ.control w).polling = some k) σ σ') :
    (σ'.closure k.closure).status = (σ.closure k.closure).status ∧
      (σ'.closure k.closure).abortStatus = (σ.closure k.closure).abortStatus := by
  refine TransitionSystem.Within.invariant (M := scheduler cfg w₀)
    (Q := fun τ => (τ.closure k.closure).status = (σ.closure k.closure).status ∧
      (τ.closure k.closure).abortStatus = (σ.closure k.closure).abortStatus) hr ⟨rfl, rfl⟩ ?_ h
  rintro τ τ' ⟨u, a⟩ hτ hk hk' ⟨hstatus, hsame⟩ hst
  have ht := transition_of_step hst
  have hl := LocksHeld.reachable hτ
  by_cases hu : u = w
  · subst hu
    rcases poll_step hl hk (hsame ▸ habort) ht with hgo | hend
    · exact ⟨hgo.status.trans hstatus, hgo.abortStatus.trans hsame⟩
    · exact absurd hk' hend.polling
  · have howner := (hl.held.mem_held w _).mp (Control.mem_held_of_polling hk)
    have hlocked := locked_step hl howner (Ne.symm hu) ht
    exact ⟨hlocked.1.trans hstatus, hlocked.2.trans hsame⟩

end Runs

/-- **The closure an abort was requested on survives it.** Worker `w` requested
the abort by its step from `σ` to `σ₁`, in a call of `poll_inlets` or right
before one. Up to the end of that call, in `σ₂`, the closure keeps its status,
or was detached and is ready. The call leaves `NO_ABORT`, unless an ancestor
had aborted the closure before, and what the worker does in the same step
after the call makes the closure return only if it has popped its last
frame. -/
def SurvivesAbort (cfg : Config) (w₀ w : W) (c : ClosureId) (σ σ₁ : State W) : Prop :=
  ∃ k, (σ₁.control w).polling = some k ∧ k.closure = c ∧
    ∀ σ₂, (scheduler cfg w₀).Within (fun τ => (τ.control w).polling = some k) σ₁ σ₂ →
      ((σ₂.closure c).status = (σ.closure c).status ∨
        (σ.closure c).status = .running ∧ (σ₂.closure c).status = .ready) ∧
      ∀ a σ₃, (scheduler cfg w₀).step (w, a) σ₂ = some σ₃ → (σ₃.control w).polling ≠ some k →
        ((σ₃.closure c).abortStatus = .noAbort ∨
          (σ.closure c).abortStatus = .abortAll ∧ (σ₃.closure c).abortStatus = .abortAll) ∧
        ((σ₃.closure c).status = .returning → (σ.closure c).status = .returning ∨
          (σ.closure c).abortStatus = .abortAll ∨ (σ₂.cache w).tail ≤ (σ₂.cache w).head)

/-- What `abort` asked for stays asked for. -/
theorem survivesAbort {w₀ : W} {c : ClosureId} (hr' : (scheduler cfg w₀).Reachable σ')
    (hreq : Requested w c σ σ') :
    SurvivesAbort cfg w₀ w c σ σ' := by
  obtain ⟨k, hk, rfl⟩ := hreq.polling
  have hno : (σ'.closure k.closure).abortStatus ≠ .noAbort := by
    rcases hreq.abortStatus with h | ⟨-, h⟩ <;> rw [h] <;> exact AbortStatus.noConfusion
  refine ⟨k, hk, rfl, fun σ₂ hσ₂ => ?_⟩
  obtain ⟨hstatus, habort⟩ := polling_within hr' hno hσ₂
  refine ⟨by rw [hstatus]; exact hreq.status, fun a σ₃ hst hend => ?_⟩
  -- an abort status seen at the end of the call was there before the request
  have hall : (σ₂.closure k.closure).abortStatus = .abortAll →
      (σ.closure k.closure).abortStatus = .abortAll := by
    intro h
    rcases hreq.abortStatus with h' | h'
    · cases h'.symm.trans (habort.symm.trans h)
    · exact h'.1
  have hends := (poll_step (LocksHeld.reachable (hσ₂.reachable hr')) hσ₂.holds (habort ▸ hno)
    (transition_of_step hst)).resolve_left fun hgo => hend hgo.polling
  refine ⟨hends.abortStatus.imp_right fun h => ⟨hall h.1, h.2⟩, fun hret => ?_⟩
  rcases hends.status hret with h | h | h
  · rw [hstatus] at h
    rcases hreq.status with h' | h'
    · exact .inl (h' ▸ h)
    · cases h'.2.symm.trans h
  · exact .inr (.inl (hall h))
  · exact .inr (.inr h)

end State

/-- The worker is inside `recursively_signal_abort`. -/
def Control.walking : Control W → Bool
  | abortWalk _ _ _ _ => true
  | _ => false

/-- **Abort is sticky, hereditary and effective.** In every reachable state:
`ABORT_ALL` stays; `ALMOST_NO_ABORT` is only seen under the closure's lock; the
children of a closure to abort are to abort, unless an abort walk holds its
lock; from then on nothing hands it to a thief, sets it up, applies an inlet
to it or delivers its own inlet; and the closure an abort was requested on
survives. -/
theorem abort_sticky_hereditary_effective [DecidableEq W] {cfg : Config} {w₀ : W} {σ : State W}
    (hr : (scheduler cfg w₀).Reachable σ) :
    (∀ as σ' c, (σ.closure c).abortStatus = .abortAll →
      (scheduler cfg w₀).run as σ = some σ' → (σ'.closure c).abortStatus = .abortAll) ∧
    (∀ c, (σ.closure c).mutexOwner = none → (σ.closure c).abortStatus ≠ .almostNoAbort) ∧
    (∀ c, (σ.closure c).abortStatus = .abortAll →
      (∀ w, (σ.control w).walking = true → (σ.closure c).mutexOwner ≠ some w) →
      ∀ d ∈ (σ.closure c).children, (σ.closure d).abortStatus = .abortAll) ∧
    (∀ as σ' c, (σ.closure c).abortStatus = .abortAll →
      (scheduler cfg w₀).run as σ = some σ' →
      TransitionSystem.Extends (fun e => ¬ e.Serves c) σ.trace σ'.trace) ∧
    ∀ w a σ₁ c es, (scheduler cfg w₀).step (w, a) σ = some σ₁ →
      σ₁.trace = .abort c :: (es ++ σ.trace) → State.SurvivesAbort cfg w₀ w c σ σ₁ := by
  have ha := State.Aborting.reachable hr
  have hl := State.LocksHeld.reachable hr
  refine ⟨?_, ?_, ?_, ?_, ?_⟩
  · intro as σ' c hc hrun
    exact (State.abortAll_run hr hc hrun).1
  · intro c hfree hc
    obtain ⟨w, k, hk, rfl⟩ := ha.almost c hc
    exact hl.held.not_mem_of_free (l := .closure k.closure) hfree
      (Control.mem_held_of_polling hk)
  · intro c hc hwalk d hd
    refine (ha.hereditary c d hc hd).resolve_right ?_
    rintro ⟨w, k, i, todo, path, ds, hw, hmem, -⟩
    refine hwalk w (by rw [hw]; rfl) ((hl.held.mem_held w (.closure c)).mp ?_)
    rw [State.held, hw]
    exact List.mem_append_left _ (List.mem_map.mpr ⟨_, hmem, rfl⟩)
  · intro as σ' c hc hrun
    exact (State.abortAll_run hr hc hrun).2
  · intro w a σ₁ c es hst hes
    have hemit := State.emitted ha hl (State.transition_of_step hst)
    rw [hes] at hemit
    exact State.survivesAbort (.step _ hr hst) hemit.head

/-- A program that exits while a child is stolen. -/
theorem abort_sticky_hereditary_effective_exit : ∃ σ : State (Fin 2),
    (σ.closure 1).abortStatus = .abortAll ∧ (σ.closure 0).abortStatus = .almostNoAbort ∧
    ∀ as σ', (scheduler .small (0 : Fin 2)).run as σ = some σ' →
      (σ'.closure 1).abortStatus = .abortAll := by
  obtain ⟨σ, hr, hp⟩ := TransitionSystem.Reachable.of_eval (M := scheduler .small (0 : Fin 2))
    exitAfterSteal
    (fun σ => (σ.closure 1).abortStatus == .abortAll &&
      (σ.closure 0).abortStatus == .almostNoAbort) (by decide +kernel)
  simp only [Bool.and_eq_true, beq_iff_eq] at hp
  exact ⟨σ, hp.1, hp.2, fun as σ' =>
    (abort_sticky_hereditary_effective hr).1 as σ' 1 hp.1⟩

end Cilk
