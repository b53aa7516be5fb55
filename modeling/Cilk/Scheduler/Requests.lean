import Cilk.Scheduler.Walks

/-!
# The lock order of the scheduler

A worker that holds a lock asks for locks in a fixed order only: a deque
before a closure, and a closure before its children. The one exception is a
child on its way home, whose lock `Closure_return` takes after that of the
parent and keeps while it polls the inlets of the parent. No worker that holds
a lock asks for that one, so it closes no cycle, and the graph of who waits for
whom is acyclic in every reachable state.
-/

namespace Cilk

variable {W : Type}

/-! ## The order -/

/-- The first lock comes before the second. -/
inductive Lock.Before : Lock W → Lock W → Prop
  | deque (v : W) (c : ClosureId) : Before (.deque v) (.closure c)
  | closure {p c : ClosureId} : p < c → Before (.closure p) (.closure c)

instance : IsStrictOrder (Lock W) Lock.Before where
  irrefl l h := by
    cases h with
    | closure h => exact lt_irrefl _ h
  trans l m n h h' := by
    cases h' with
    | deque v c => cases h
    | closure h' =>
      cases h with
      | deque v p => exact .deque v _
      | closure h => exact .closure (h.trans h')

/-! ## Requests -/

/-- The next child the walk visits. -/
def nextChild (todo : List ClosureId) (path : List (ClosureId × List ClosureId)) :
    Option ClosureId :=
  match path with
  | [] => todo.head?
  | (_, ds) :: _ => ds.head?

/-- The locks of `poll_inlets`, one by one. -/
theorem PollCaller.eq_of_mem_held {w : W} {k : PollCaller} {l : Lock W} (hl : l ∈ k.held w) :
    l = .deque w ∨ l = .closure k.closure ∨
      ∃ p c s, k.child = some (p, c, s) ∧ l = .closure c := by
  cases k <;> simp_all [held, closure, child] <;> tauto

/-- A walk has locked the closure it visits the children of. -/
theorem Control.mem_held_of_walk {w : W} {k : PollCaller} {i : Option InletClosure}
    {todo : List ClosureId} {path : List (ClosureId × List ClosureId)} :
    .closure ((path.head?.map Prod.fst).getD k.closure) ∈
      (abortWalk k i todo path).held w := by
  rcases path with _ | ⟨d, path⟩
  · exact k.mem_held w
  · exact List.mem_cons_self

namespace State

variable [DecidableEq W] {cfg : Config} {σ : State W} {w w₀ : W} {victim : W → W}

/-- The lock that a worker takes next, or waits for, where the next victim of
each worker is given. Nobody steals from itself. -/
def request (σ : State W) (victim : W → W) (w : W) : Option (Lock W) :=
  match σ.control w with
  | .fetch | .insert _ | .handlerDeque _ _ | .slowDeque _ | .remove => some (.deque w)
  | .steal => if victim w = w then none else some (.deque (victim w))
  | .stealLock _ t | .execute t | .returnChild t _ _ | .handlerLock t _ _ | .handlerRelock t _ _
  | .slowLock _ t => some (.closure t)
  | .abortWalk _ _ todo path => (nextChild todo path).map .closure
  | .returnLock c => (σ.closure c).parent.map .closure
  | .exitLock _ => some (.closure rootClosure)
  | _ => none

/-- A lock that somebody waits for after all: the child on its way home, while
the inlets of its parent are polled. -/
def Hidden (σ : State W) (l : Lock W) : Prop :=
  ∃ w k p c s, (σ.control w).polling = some k ∧ k.child = some (p, c, s) ∧ l = .closure c

omit [DecidableEq W] in
/-- What the walk visits next is above the path. -/
theorem Walking.descends {k : PollCaller} {i : Option InletClosure} {todo : List ClosureId}
    {path : List (ClosureId × List ClosureId)} {d : ClosureId} (h : σ.Walking)
    (hc : σ.control w = .abortWalk k i todo path) (hd : nextChild todo path = some d) :
    Descends (fieldOf σ.closure Closure.parent) k.closure ((d, []) :: path) := by
  have hwalks := h.walks w
  rw [hc] at hwalks
  obtain ⟨htodo, hpath⟩ := hwalks
  rcases path with _ | ⟨⟨q, ds⟩, path⟩
  · exact ⟨(htodo d (List.mem_of_mem_head? hd)).1, by simp, trivial⟩
  · exact ⟨hpath.2.1 d (List.mem_of_mem_head? hd), by simp, hpath⟩

omit [DecidableEq W] in
/-- Who polls with a child on its way home has the child in its hand. -/
theorem token_of_child {k : PollCaller} {p c : ClosureId} {s : Stage}
    (hk : (σ.control w).polling = some k) (hs : k.child = some (p, c, s)) :
    σ.place.custody.hand w = some c ∧ (σ.control w).child = some (p, c, s) ∧
      p = k.closure := by
  have hhand : σ.place.custody.hand w = ((σ.control w).role : Role W).token := rfl
  rw [hhand]
  cases hc : σ.control w <;> rw [hc] at hk
  case poll k' | abortWalk k' _ _ _ =>
    cases hk
    cases k <;> cases hs <;> exact ⟨rfl, rfl, rfl⟩
  all_goals cases hk

/-- **Whoever holds a lock asks for no child on its way home.** -/
theorem not_hidden_of_request {l : Lock W} (hr : (scheduler cfg w₀).Reachable σ)
    (hl : σ.request victim w = some l) (hheld : σ.held w ≠ []) : ¬ σ.Hidden l := by
  rintro ⟨u, k, p, c, s, hk, hs, rfl⟩
  obtain ⟨hhand, hchild, hp⟩ := token_of_child hk hs
  obtain ⟨-, hlocks, -, hv⟩ := Sound.reachable hr
  obtain ⟨J, hj⟩ := Joins.reachable hr
  have hwalk := Walking.reachable hr
  have hown := hv.own w
  have hrole : σ.place.role w = (σ.control w).role := rfl
  -- what is in a deque is in no hand
  have hnot : ∀ v, c ∉ σ.place.custody.queue v := fun v hmem =>
    hv.custody.not_hand_of_mem hmem hhand
  rw [held] at hheld
  unfold request at hl
  cases hc : σ.control w <;> simp only [hc, reduceCtorEq] at hl hheld
  case stealLock v t =>
    cases hl
    exact hnot v (List.mem_of_mem_head? (hv.peeking w v c (by rw [hrole, hc]; rfl)).2)
  case handlerLock t g r | handlerRelock t g r =>
    cases hl
    rw [hrole, hc] at hown
    exact hnot w (List.mem_of_getLast? (hown.2.elim (·.1.1) (·.1.1)))
  case slowLock call t =>
    cases hl
    rw [hrole, hc] at hown
    exact hnot w (List.mem_of_getLast? hown.1.1)
  case returnChild t q i =>
    cases hl
    have hw : σ.place.custody.hand w = some c :=
      (congrArg Role.token hrole).trans (by rw [hc]; rfl)
    cases hv.custody.hand_unique c u w hhand hw
    rw [hc] at hk
    cases hk
  case abortWalk k' i todo path =>
    obtain ⟨d, hd, hdc⟩ := Option.map_eq_some_iff.mp hl
    cases hdc
    -- both workers have locked the parent of the child
    have hparent := ((hj.busy.stage u p c s hchild).1).symm.trans
      ((congrFun hj.tracks.parent c).trans (hwalk.descends hc hd).1)
    have hheld : .closure p ∈ σ.held w := by
      rw [held, hc, Option.some.inj hparent]
      exact Control.mem_held_of_walk
    cases hlocks.held.unique (hp ▸ Control.mem_held_of_polling hk) hheld
    rw [hc] at hk
    cases hk
    rcases path with _ | ⟨⟨q, ds⟩, path⟩
    · have hwalks := hwalk.walks w
      rw [hc] at hwalks
      exact (hwalks.1 c (List.mem_of_mem_head? hd)).2 p c s hs rfl
    · have hlt : k.closure < q := (hwalk.descends hc hd).2.2.lt_top hwalk.older (.inl rfl)
      exact hlt.ne (hp.symm.trans (Option.some.inj hparent))
  all_goals exact absurd rfl hheld

/-- **Whoever holds a lock asks for one that comes after it**, but for the child
on its way home. -/
theorem before_of_request {l l' : Lock W} (hr : (scheduler cfg w₀).Reachable σ)
    (hl : σ.request victim w = some l) (hheld : l' ∈ σ.held w) (hl' : ¬ σ.Hidden l') :
    Lock.Before l' l := by
  obtain ⟨J, hj⟩ := Joins.reachable hr
  have hwalk := Walking.reachable hr
  rw [held] at hheld
  unfold request at hl
  cases hc : σ.control w <;> simp only [hc, reduceCtorEq] at hl hheld
  case stealLock v t | handlerLock t _ _ | handlerRelock t _ _ | slowLock t =>
    cases hl
    cases List.mem_singleton.mp hheld
    exact .deque _ _
  case returnChild t p i =>
    cases hl
    cases List.mem_singleton.mp hheld
    have hparent := (hj.busy.stage w p t .carried (by rw [hc]; rfl)).1
    rw [hj.tracks.parent] at hparent
    exact .closure (hwalk.older t p hparent)
  case abortWalk k i todo path =>
    obtain ⟨d, hd, rfl⟩ := Option.map_eq_some_iff.mp hl
    have hlt := fun {c} => (hwalk.descends hc hd).lt_top hwalk.older (d := c)
    rcases List.mem_append.mp hheld with hheld | hheld
    · obtain ⟨e, he, rfl⟩ := List.mem_map.mp hheld
      exact .closure (hlt (.inr (List.mem_map_of_mem he)))
    · rcases k.eq_of_mem_held hheld with rfl | rfl | ⟨p, c, s, hs, rfl⟩
      · exact .deque _ _
      · exact .closure (hlt (.inl rfl))
      · exact absurd ⟨w, k, p, c, s, by rw [hc]; rfl, hs, rfl⟩ hl'
  all_goals cases hheld

/-- Nobody waits for itself. -/
theorem acyclic_requests (hr : (scheduler cfg w₀).Reachable σ) (victim : W → W) (w : W) :
    ¬ Relation.TransGen (Mutex.Waits (σ.request victim) σ.held) w w := by
  have hord : ∀ u l, σ.request victim u = some l → ∀ l' ∈ σ.held u, ¬ σ.Hidden l' →
      Lock.Before l' l := fun _ _ hl _ hheld hl' => before_of_request hr hl hheld hl'
  have hhidden : ∀ u l, σ.request victim u = some l → σ.held u ≠ [] → ¬ σ.Hidden l :=
    fun _ _ hl hheld => not_hidden_of_request hr hl hheld
  exact Mutex.Waits.acyclic_of_hidden σ.Hidden hord hhidden w

end State

section Results

variable [DecidableEq W] {cfg : Config} {w₀ : W} {σ : State W}

/-- **The locks of the scheduler cannot deadlock.** Whichever victims the
thieves choose, no worker waits for a lock that is held by a worker that waits,
directly or through others, for the first one. -/
theorem no_worker_waits_for_itself (hr : (scheduler cfg w₀).Reachable σ) (victim : W → W)
    (w : W) : ¬ Relation.TransGen (Mutex.Waits (σ.request victim) σ.held) w w :=
  State.acyclic_requests hr victim w

theorem no_worker_waits_for_itself_trapped : ∃ σ : State (Fin 2),
    Mutex.Waits (σ.request fun _ => 0) σ.held 0 1 ∧
    ¬ Relation.TransGen (Mutex.Waits (σ.request fun _ => 0) σ.held) 1 0 := by
  obtain ⟨σ, hr, hp⟩ := TransitionSystem.Reachable.of_eval (M := scheduler .small (0 : Fin 2))
    trapBehindThief
    (fun σ => σ.request (fun _ => 0) 0 == some (.deque 0) && (σ.held 1).contains (.deque 0))
    (by decide +kernel)
  simp only [Bool.and_eq_true, beq_iff_eq, List.contains_iff_mem] at hp
  have hwaits : Mutex.Waits (σ.request fun _ => 0) σ.held 0 1 := ⟨_, hp⟩
  exact ⟨σ, hwaits, fun h => no_worker_waits_for_itself hr (fun _ => 0) 0 (.head hwaits h)⟩

end Results

end Cilk
