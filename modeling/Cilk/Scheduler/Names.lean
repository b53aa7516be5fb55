import Cilk.Scheduler.Transition

/-!
# The names of closures

Closures are numbered in the order they are created, and every number that is
stored anywhere has been handed out. So a closure that is created is new: no
deque, no list of children and no local variable of any worker knows it.
-/

namespace Cilk

variable {W : Type}

/-- The closures that a caller of `poll_inlets` refers to: the one polled and,
in `Closure_return`, its child. -/
def PollCaller.closures : PollCaller → List ClosureId
  | closureReturn c p | provablyGood c p => [p, c]
  | setup t | handler t _ _ | sync t | abortSlow t | exit t => [t]

/-- The closure polled is one of them. -/
theorem PollCaller.closure_mem (k : PollCaller) : k.closure ∈ k.closures := by
  cases k <;> simp [closure, closures]

/-- The closures the local variables of a worker point to. -/
def Control.closures : Control W → List ClosureId
  | stealLock _ c | dekkerHead _ c | dekkerTail _ c _ | retract _ c | promote _ c => [c]
  | finishPromote p c | returnChild c p _ => [p, c]
  | execute t | insert t | returnLock t | handlerLock t _ _ | handlerRelock t _ _
  | slowLock _ t => [t]
  | poll k => k.closures
  | abortWalk k _ todo path => k.closures ++ todo ++ path.flatMap fun d => d.1 :: d.2
  | exited t => t.toList
  | _ => []

namespace State

/-- Every closure that is known was created. -/
structure Named (σ : State W) : Prop where
  pos : 0 < σ.nextClosure
  deque : ∀ v c, c ∈ fieldOf σ.deque ReadyDeque.closures v → c < σ.nextClosure
  parent : ∀ c p, fieldOf σ.closure Closure.parent c = some p → p < σ.nextClosure
  child : ∀ c i d, i ∈ fieldOf σ.closure Closure.incompleteInlets c → i.this = some d →
    d < σ.nextClosure
  control : ∀ w c, c ∈ (σ.control w).closures → c < σ.nextClosure

variable [DecidableEq W] {cfg : Config} {w : W} {σ σ' : State W}

/-- `Closure_remove_child` finds an inlet of the child on the list, and adds
none. -/
theorem mem_removeChild {c : ClosureId} {l : List InletClosure} {i : InletClosure}
    {is : List InletClosure} (h : removeChild c l = some (i, is)) :
    i ∈ l ∧ i.this = some c ∧ ∀ j ∈ is, j ∈ l := by
  induction l generalizing i is with
  | nil => cases h
  | cons j js ih =>
    rw [removeChild] at h
    split at h
    case isTrue hj =>
      cases h
      exact ⟨List.mem_cons_self, hj, fun j hj => List.mem_cons_of_mem _ hj⟩
    case isFalse =>
      obtain ⟨⟨i', is'⟩, hr, he⟩ := Option.map_eq_some_iff.mp h
      cases he
      obtain ⟨hi, ht, his⟩ := ih hr
      exact ⟨List.mem_cons_of_mem _ hi, ht, List.forall_mem_cons.mpr
        ⟨List.mem_cons_self, fun j hj => List.mem_cons_of_mem _ (his j hj)⟩⟩

namespace Named

omit [DecidableEq W] in
/-- The children of a closure exist. -/
theorem children (h : σ.Named) {c d : ClosureId} (hd : d ∈ (σ.closure c).children) :
    d < σ.nextClosure := by
  obtain ⟨i, hi, ht⟩ := List.mem_filterMap.mp hd
  exact h.child c i d hi ht

/-- A step that stores a closure only in the local variables of its worker
and in a deque. -/
theorem goto {p : Control W} (h : σ.Named) (hnext : σ'.nextClosure = σ.nextClosure)
    (hdeque : ∀ v c, c ∈ fieldOf σ'.deque ReadyDeque.closures v →
      c ∈ fieldOf σ.deque ReadyDeque.closures v ∨ c < σ.nextClosure)
    (hparent : fieldOf σ'.closure Closure.parent = fieldOf σ.closure Closure.parent)
    (hchild : ∀ c i, i ∈ fieldOf σ'.closure Closure.incompleteInlets c →
      i ∈ fieldOf σ.closure Closure.incompleteInlets c)
    (hcontrol : σ'.control = Function.update σ.control w p)
    (hnew : ∀ c ∈ p.closures, c < σ.nextClosure) : σ'.Named := by
  constructor
  · rw [hnext]
    exact h.pos
  · intro v c hc
    rw [hnext]
    exact (hdeque v c hc).elim (h.deque v c) id
  · rw [hnext, hparent]
    exact h.parent
  · intro c i d hi hd
    rw [hnext]
    exact h.child c i d (hchild c i hi) hd
  · intro u c hc
    rw [hcontrol, Function.update_apply] at hc
    rw [hnext]
    split at hc
    · exact hnew c hc
    · exact h.control u c hc

/-- A step that stores a closure only in the local variables of its worker. -/
theorem keep {p : Control W} (h : σ.Named) (hnext : σ'.nextClosure = σ.nextClosure)
    (hdeque : fieldOf σ'.deque ReadyDeque.closures = fieldOf σ.deque ReadyDeque.closures)
    (hparent : fieldOf σ'.closure Closure.parent = fieldOf σ.closure Closure.parent)
    (hchild : fieldOf σ'.closure Closure.incompleteInlets =
      fieldOf σ.closure Closure.incompleteInlets)
    (hcontrol : σ'.control = Function.update σ.control w p)
    (hnew : ∀ c ∈ p.closures, c < σ.nextClosure) : σ'.Named :=
  h.goto hnext (fun _ _ hc => .inl (hdeque ▸ hc)) hparent (fun _ _ hi => hchild ▸ hi) hcontrol
    hnew

/-- A closure is taken out of a deque, or put into one. -/
theorem move {p : Control W} {v : W} {l : List ClosureId} (h : σ.Named)
    (hnext : σ'.nextClosure = σ.nextClosure)
    (hdeque : fieldOf σ'.deque ReadyDeque.closures =
      Function.update (fieldOf σ.deque ReadyDeque.closures) v l)
    (hl : ∀ c ∈ l, c < σ.nextClosure)
    (hparent : fieldOf σ'.closure Closure.parent = fieldOf σ.closure Closure.parent)
    (hchild : fieldOf σ'.closure Closure.incompleteInlets =
      fieldOf σ.closure Closure.incompleteInlets)
    (hcontrol : σ'.control = Function.update σ.control w p)
    (hnew : ∀ c ∈ p.closures, c < σ.nextClosure) : σ'.Named := by
  refine h.goto hnext (fun u c hc => ?_) hparent (fun c i hi => hchild ▸ hi) hcontrol hnew
  rw [hdeque, Function.update_apply] at hc
  split at hc
  · exact .inr (hl c hc)
  · exact .inl hc

omit [DecidableEq W] in
/-- The bottom of a deque exists. -/
theorem bottom (h : σ.Named) {v : W} {c : ClosureId}
    (hc : (σ.deque v).closures.getLast? = some c) : c < σ.nextClosure :=
  h.deque v c (List.mem_of_getLast? hc)

omit [DecidableEq W] in
/-- The top of a deque exists. -/
theorem top (h : σ.Named) {v : W} {c : ClosureId}
    (hc : (σ.deque v).closures.head? = some c) : c < σ.nextClosure :=
  h.deque v c (List.mem_of_head? hc)

/-- The exception handler takes closures out of the deque only. -/
theorem handled {t : ClosureId} {g : FrameId} {r : Bytes} {σ₀ : State W} (h : σ.Named)
    (hnext : σ₀.nextClosure = σ.nextClosure)
    (hdeque : fieldOf σ₀.deque ReadyDeque.closures = fieldOf σ.deque ReadyDeque.closures)
    (hparent : fieldOf σ₀.closure Closure.parent = fieldOf σ.closure Closure.parent)
    (hchild : fieldOf σ₀.closure Closure.incompleteInlets =
      fieldOf σ.closure Closure.incompleteInlets)
    (hcontrol : σ₀.control = σ.control)
    (hσ' : Handled w t g r σ₀ σ') : σ'.Named := by
  cases hσ'
  case suspended =>
    refine h.move (v := w) (w := w) (p := .unwind) (l := (σ.deque w).closures.dropLast)
      (by simpa using hnext) (by simp [hdeque]) (fun c hc => ?_) (by simpa using hparent)
      (by simpa using hchild) (by simp [hcontrol]) (by simp [Control.closures])
    exact h.deque w c (List.dropLast_subset _ hc)
  case resumed =>
    exact h.keep (w := w) (p := .user) (by simpa using hnext) (by simpa using hdeque)
      (by simpa using hparent) (by simpa using hchild) (by simp [hcontrol])
      (by simp [Control.closures])
  all_goals
    exact h.keep (w := w) (p := .unwind) (by simpa using hnext) (by simpa using hdeque)
      (by simpa using hparent) (by simpa using hchild) (by simp [hcontrol])
      (by simp [Control.closures])

omit [DecidableEq W] in
/-- What `complete_and_enque_inlet` leaves alone. -/
theorem enqueued {p c : ClosureId} {i : InletClosure} {σ₀ σ₁ : State W}
    (hσ' : Enqueued cfg w p c i σ₀ σ₁) :
    σ₁.nextClosure = σ₀.nextClosure ∧ σ₁.deque = σ₀.deque ∧ σ₁.control = σ₀.control ∧
      fieldOf σ₁.closure Closure.parent = fieldOf σ₀.closure Closure.parent ∧
      fieldOf σ₁.closure Closure.incompleteInlets =
        fieldOf σ₀.closure Closure.incompleteInlets := by
  cases hσ' <;> simp

/-- An abort goes on to the children of the closure. -/
theorem startAbort {k : PollCaller} {i : Option InletClosure} (h : σ.Named)
    (hk : ∀ c ∈ k.closures, c < σ.nextClosure) : (σ.startAbort w k i).Named := by
  refine h.keep (by simp) (by simp) (by simp) (by simp) (by simp; rfl) ?_
  intro c hc
  simp only [Control.closures, List.flatMap_nil, List.append_nil, List.mem_append] at hc
  rcases hc with hc | hc
  · exact hk c hc
  · refine h.children (c := k.closure) ?_
    simpa [Closure.children] using hc

/-- Detaching creates a closure, or none. -/
theorem nextClosure_detachFromInlet {c : ClosureId} {args : Bytes} :
    σ.nextClosure ≤ (σ.detachFromInlet cfg w c args).nextClosure := by
  unfold detachFromInlet
  split
  · simp
  · exact le_rfl

/-- Detaching puts the closure it creates into the deque and on the list of its
parent. -/
theorem detach {c : ClosureId} {args : Bytes} (h : σ.Named) (hlt : c < σ.nextClosure) :
    (σ.detachFromInlet cfg w c args).Named := by
  unfold detachFromInlet
  split
  case isFalse => exact h
  case isTrue =>
    obtain ⟨hpos, hdeque, hparent, hchild, hcontrol⟩ := h
    constructor <;> simp <;> try simp only [Function.update_apply]
    all_goals grind [makeInletClosure]

/-- **Nothing that does not exist is named**, after every transition. -/
theorem transition (h : σ.Named) (ht : Transition cfg w σ σ') : σ'.Named := by
  have hw := h.control w
  cases ht
  -- the two halves of a steal name the closure that the first of them creates
  case promote v cl hc =>
    obtain ⟨hpos, hdeque, hparent, hchild, hcontrol⟩ := h
    rw [hc] at hw
    simp only [Control.closures, List.mem_singleton, forall_eq] at hw
    constructor <;> simp <;> try simp only [Function.update_apply]
    all_goals grind [Control.closures, List.mem_of_mem_tail]
  case finishPromote p c args hc _ =>
    obtain ⟨hpos, hdeque, hparent, hchild, hcontrol⟩ := h
    rw [hc] at hw
    simp [Control.closures] at hw
    constructor <;> simp <;> try simp only [Function.update_apply]
    all_goals grind [Control.closures, makeInletClosure]
  case stealNone => exact h
  -- a closure is read off a deque, which keeps it
  case stealPeek v cl hc _ _ ht =>
    refine h.keep (by simp) (by simp) (by simp) (by simp) (by simp; rfl) ?_
    simpa [Control.closures] using h.top ht
  case pollHandler t g r hc _ _ hσ' =>
    exact h.handled (by simp) (by simp) (by simp) (by simp) (by simp) hσ'
  case handlerRelock t g r hc _ hσ' =>
    exact h.handled (by simp) (by simp) (by simp) (by simp) (by simp) hσ'
  case pollRelock t t' g r hc _ hb _ =>
    refine h.keep (by simp) (by simp) (by simp) (by simp) (by simp; rfl) ?_
    simpa [Control.closures] using h.bottom hb
  case handlerDeque t g r hc _ hb =>
    refine h.keep (by simp) (by simp) (by simp) (by simp) (by simp; rfl) ?_
    simpa [Control.closures] using h.bottom hb
  case slowDeque call t hc _ hb =>
    refine h.keep (by simp) (by simp) (by simp) (by simp) (by simp; rfl) ?_
    simpa [Control.closures] using h.bottom hb
  case leave hc _ =>
    exact h.keep (w := w) (p := .exited none) (by simp) (by simp) (by simp) (by simp) (by simp)
      (by simp [Control.closures])
  -- a closure leaves a deque, or goes there
  case fetchSome t hc _ hb =>
    refine h.move (by simp) (by simp; rfl) (fun c hc => h.deque w c (List.dropLast_subset _ hc))
      (by simp) (by simp) (by simp; rfl) ?_
    simpa [Control.closures] using h.bottom hb
  case stealReady v cl hc _ _ _ =>
    rw [hc] at hw
    refine h.move (by simp) (by simp; rfl) (fun c hc => h.deque v c (List.mem_of_mem_tail hc))
      (by simp) (by simp) (by simp; rfl) (by simpa [Control.closures] using hw)
  case insert t hc _ =>
    rw [hc] at hw
    refine h.move (w := w) (p := .user) (by simp) (by simp; rfl) ?_ (by simp) (by simp) (by simp)
      (by simp [Control.closures])
    intro c hc
    rcases List.mem_append.mp hc with hc | hc
    · exact h.deque w c hc
    · exact hw c hc
  case pollSuspend | remove =>
    exact h.move (w := w) (p := .fetch) (by simp) (by simp; rfl)
      (fun c hc => h.deque w c (List.dropLast_subset _ hc)) (by simp) (by simp) (by simp)
      (by simp [Control.closures])
  -- an abort walks down the children, which their parents name
  case inletAbort k i rest args hc _ _ _ _ =>
    rw [hc] at hw
    have hset : ((σ.setComplete k.closure rest).runInlet cfg w k.closure i).Named :=
      ⟨by simpa using h.pos, by simpa using h.deque, by simpa using h.parent,
        by simpa using h.child, by simpa using h.control⟩
    have hnext : ((σ.setComplete k.closure rest).runInlet cfg w k.closure i).nextClosure =
        σ.nextClosure := by simp
    refine startAbort (hset.detach (hnext ▸ hw k.closure k.closure_mem)) fun c hc => ?_
    exact lt_of_lt_of_le (by rw [hnext]; exact hw c hc) nextClosure_detachFromInlet
  case walkFirst k i d ds hc _ =>
    rw [hc] at hw
    refine h.keep (by simp) (by simp) (by simp) (by simp) (by simp; rfl) ?_
    have hd : ∀ e ∈ (σ.closure d).children, e < σ.nextClosure := fun e => h.children
    simp [Control.closures, -incompleteInlets_closure] at hw hd ⊢
    grind
  case walkDown k i todo c d ds path hc _ =>
    rw [hc] at hw
    refine h.keep (by simp) (by simp) (by simp) (by simp) (by simp; rfl) ?_
    have hd : ∀ e ∈ (σ.closure d).children, e < σ.nextClosure := fun e => h.children
    simp [Control.closures, -incompleteInlets_closure] at hw hd ⊢
    grind
  case walkDone k i hc =>
    rw [hc] at hw
    cases i
    all_goals
      refine h.keep (p := .poll k) (by simp [freeAborted]) (by simp [freeAborted])
        (by simp [freeAborted]) (by simp [freeAborted]) (by simp [freeAborted]; rfl) ?_
      simpa [Control.closures] using hw
  case slowAbort t hc _ =>
    rw [hc] at hw
    refine startAbort ⟨by simpa using h.pos, by simpa using h.deque, by simpa using h.parent,
      by simpa using h.child, by simpa using h.control⟩ ?_
    simpa [Control.closures, PollCaller.closures] using hw
  -- a child that returns reads its parent
  case lockParent c p i is hc hp _ hi =>
    rw [hc] at hw
    obtain ⟨-, -, his⟩ := mem_removeChild hi
    simp only [incompleteInlets_closure] at his
    have hp := h.parent c p hp
    refine h.goto (by simp) (by simp; grind) (by simp) ?_ (by simp; rfl) ?_
    · simp
      simp only [Function.update_apply]
      grind
    · simp [Control.closures] at hw ⊢
      exact ⟨hp, hw⟩
  case returnRunning c p i _ hc _ hσ' _ =>
    obtain ⟨hnext, hdeque, hcontrol, hparent, hchild⟩ := enqueued hσ'
    refine h.keep (w := w) (p := .fetch) (by simp [hnext]) (by simp [hdeque])
      (by simp [hparent]) (by simp [hchild]) (by simp [hcontrol]) (by simp [Control.closures])
  case returnPoll c p i _ hc _ hσ' _ =>
    rw [hc] at hw
    obtain ⟨hnext, hdeque, hcontrol, hparent, hchild⟩ := enqueued hσ'
    refine h.keep (w := w) (by simp [hnext]) (by simp [hdeque])
      (by simp [hparent]) (by simp [hchild]) (by simp [hcontrol]; rfl) ?_
    simpa [Control.closures, PollCaller.closures] using hw
  case exitPoll =>
    refine h.keep (by simp) (by simp) (by simp) (by simp) (by simp; rfl) ?_
    simpa [Control.closures, PollCaller.closures] using h.pos
  -- the worker goes on with the closures it had
  all_goals
    rw [‹σ.control w = _›] at hw
    refine h.keep (w := w) (by simp) (by simp) (by simp) (by simp) (by simp; rfl) ?_
    simp [Control.closures, PollCaller.closures] at hw ⊢
    try grind

/-- At the start there is the root closure, which one worker executes. -/
theorem init (w₀ : W) : (State.init cfg w₀).Named := by
  constructor
  case control =>
    intro w c hc
    simp only [State.init] at hc ⊢
    split at hc <;> simp_all [Control.closures]
  all_goals simp [State.init, fieldOf]

/-- No reachable state names a closure that does not exist. -/
theorem reachable {w₀ : W} (h : (scheduler cfg w₀).Reachable σ) : σ.Named :=
  h.invariant (init w₀) fun _ _ _ _ hn hs => hn.transition (transition_of_step hs)

end Named

end State

end Cilk
