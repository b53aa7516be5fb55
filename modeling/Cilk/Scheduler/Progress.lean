import Cilk.Scheduler.Requests

/-!
# Somebody can go on

The waits-for graph has no cycle, so a worker that waits for a lock waits at
last for a worker that waits for none; and that one can move, because what its
code counts on is there: `Closure_return` finds the child on the list, the
exception handler finds a closure in its deque, a thief finds no suspended
closure.

No work is lost either. A suspended closure has a child that is not home yet,
and every other live closure is in a hand or in a deque, so as long as the
computation is not done, some worker has work and can go on with it.
-/

namespace Cilk

variable {W : Type}

/-- The worker has no work, and tries to steal some. -/
def Control.hungry : Control W → Bool
  | steal | stealLock _ _ | dekkerHead _ _ | dekkerTail _ _ _ | retract _ _ | promote _ _ => true
  | _ => false

namespace State

/-- What the scheduler counts on when it looks for work: the root closure
lives until the computation is done, and a suspended closure waits for a
child, or is being woken up. -/
structure Pending (σ : State W) : Prop where
  exited : ∀ w t, σ.control w = .exited t → σ.done = true
  removing : ∀ w, σ.control w = .remove → σ.done = true
  root : fieldOf σ.closure Closure.magic rootClosure = true ∨ σ.done = true
  suspended : ∀ c, fieldOf σ.closure Closure.status c = .suspended →
    fieldOf σ.closure Closure.joinCounter c ≠ 0 ∨
      ∃ w d, (σ.control w).polling = some (.provablyGood d c)
  hungry : ∀ w, (σ.control w).hungry = true → fieldOf σ.deque ReadyDeque.closures w = []

variable [DecidableEq W] {cfg : Config} {w w₀ : W} {σ σ' : State W}

namespace Pending

/-- A step that wakes nobody up. -/
theorem keep {q : Control W} (h : σ.Pending) (hdone : σ.done = true → σ'.done = true)
    (hroot : fieldOf σ'.closure Closure.magic rootClosure =
      fieldOf σ.closure Closure.magic rootClosure ∨ σ'.done = true)
    (hcontrol : σ'.control = Function.update σ.control w q)
    (hexited : ∀ t, q = .exited t → σ'.done = true) (hremove : q = .remove → σ'.done = true)
    (hsuspended : ∀ c, fieldOf σ'.closure Closure.status c = .suspended →
      fieldOf σ'.closure Closure.joinCounter c ≠ 0 ∨
      (∃ d, q.polling = some (.provablyGood d c)) ∨
      fieldOf σ.closure Closure.status c = .suspended ∧
        fieldOf σ'.closure Closure.joinCounter c = fieldOf σ.closure Closure.joinCounter c ∧
        ∀ d, (σ.control w).polling = some (.provablyGood d c) →
          q.polling = some (.provablyGood d c))
    (hhungry : q.hungry = true → fieldOf σ'.deque ReadyDeque.closures w = [])
    (hdeque : ∀ u, u ≠ w → fieldOf σ.deque ReadyDeque.closures u = [] →
      fieldOf σ'.deque ReadyDeque.closures u = []) : σ'.Pending where
  exited u t hu := by
    rw [hcontrol, Function.update_apply] at hu
    split at hu
    · exact hexited t hu
    · exact hdone (h.exited u t hu)
  removing u hu := by
    rw [hcontrol, Function.update_apply] at hu
    split at hu
    · exact hremove hu
    · exact hdone (h.removing u hu)
  root := by
    rcases hroot with hroot | hd
    · rw [hroot]
      exact h.root.imp_right hdone
    · exact .inr hd
  suspended c hc := by
    rw [hcontrol]
    rcases hsuspended c hc with hcount | ⟨d, hd⟩ | ⟨hs, hcount, hpoll⟩
    · exact .inl hcount
    · exact .inr ⟨w, d, by rw [Function.update_self, hd]⟩
    · rw [hcount]
      refine (h.suspended c hs).imp_right fun ⟨u, d, hu⟩ => ⟨u, d, ?_⟩
      rw [Function.update_apply]
      split
      case isTrue he => exact hpoll d (he ▸ hu)
      case isFalse => exact hu
  hungry u hu := by
    rw [hcontrol, Function.update_apply] at hu
    split at hu
    case isTrue he => exact he ▸ hhungry hu
    case isFalse he => exact hdeque u he (h.hungry u hu)

omit [DecidableEq W] in
/-- A worker that wakes nobody up has no suspended closure to answer for. -/
theorem suspended_of_not_waking {q : Control W}
    (hpoll : ∀ d c, (σ.control w).polling ≠ some (.provablyGood d c))
    (hs : ∀ c, fieldOf σ'.closure Closure.status c = .suspended →
      fieldOf σ'.closure Closure.joinCounter c ≠ 0 ∨
      fieldOf σ.closure Closure.status c = .suspended ∧
        fieldOf σ'.closure Closure.joinCounter c = fieldOf σ.closure Closure.joinCounter c)
    (c : ClosureId) (hc : fieldOf σ'.closure Closure.status c = .suspended) :
    fieldOf σ'.closure Closure.joinCounter c ≠ 0 ∨
      (∃ d, q.polling = some (.provablyGood d c)) ∨
      fieldOf σ.closure Closure.status c = .suspended ∧
        fieldOf σ'.closure Closure.joinCounter c = fieldOf σ.closure Closure.joinCounter c ∧
        ∀ d, (σ.control w).polling = some (.provablyGood d c) →
          q.polling = some (.provablyGood d c) :=
  (hs c hc).imp_right fun h => .inr ⟨h.1, h.2, fun d hd => absurd hd (hpoll d c)⟩

/-- The worker turns to something else. -/
theorem goto {q : Control W} (h : σ.Pending)
    (hpoll : ∀ d c, (σ.control w).polling ≠ some (.provablyGood d c))
    (hexited : ∀ t, q = .exited t → σ.done = true) (hremove : q = .remove → σ.done = true)
    (hhungry : q.hungry = true → fieldOf σ.deque ReadyDeque.closures w = []) :
    (σ.goto w q).Pending :=
  h.keep id (.inl rfl) rfl hexited hremove
    (suspended_of_not_waking hpoll fun _ hs => .inr ⟨hs, rfl⟩) hhungry fun _ _ => id

omit [DecidableEq W] in
/-- The computation is done. -/
theorem setDone (h : σ.Pending) : σ.setDone.Pending where
  exited _ _ _ := rfl
  removing _ _ := rfl
  root := .inr rfl
  suspended := h.suspended
  hungry := h.hungry

omit [DecidableEq W] in
/-- Owners, lists of inlets and frames do not count. -/
theorem of_eq (h : σ.Pending) (hdone : σ'.done = σ.done)
    (hmagic : fieldOf σ'.closure Closure.magic = fieldOf σ.closure Closure.magic)
    (hstatus : fieldOf σ'.closure Closure.status = fieldOf σ.closure Closure.status)
    (hcount : fieldOf σ'.closure Closure.joinCounter = fieldOf σ.closure Closure.joinCounter)
    (hcontrol : σ'.control = σ.control)
    (hdeque : fieldOf σ'.deque ReadyDeque.closures = fieldOf σ.deque ReadyDeque.closures) :
    σ'.Pending where
  exited := by
    rw [hcontrol, hdone]
    exact h.exited
  removing := by
    rw [hcontrol, hdone]
    exact h.removing
  root := by
    rw [hmagic, hdone]
    exact h.root
  suspended := by
    rw [hstatus, hcount, hcontrol]
    exact h.suspended
  hungry := by
    rw [hcontrol, hdeque]
    exact h.hungry

/-- What the exception handler does. -/
theorem handled {t : ClosureId} {g : FrameId} {r : Bytes} (h : σ.Pending)
    (hpoll : ∀ d c, (σ.control w).polling ≠ some (.provablyGood d c))
    (hσ' : Handled w t g r (σ.resetExceptionPointer t) σ') : σ'.Pending := by
  cases hσ'
  case suspended hchildren =>
    simp at hchildren
    refine h.keep (w := w) (by simp) (.inl (by simp)) (by simp; rfl) (by simp) (by simp)
      (suspended_of_not_waking hpoll ?_) ?_ ?_
    · simp
      grind
    · simp [Control.hungry]
    · simp +contextual
  all_goals
    refine h.keep (w := w) (by simp) (.inl (by simp)) (by simp; rfl) (by simp) (by simp)
      (suspended_of_not_waking hpoll ?_) ?_ ?_
    · simp
      try grind
    · simp [Control.hungry]
    · simp +contextual

/-- The end of `Closure_return`, where the parent does not wait for its last
child. -/
theorem returnEnd {c p : ClosureId} {τ : State W} (h : σ.Pending) (hc : c ≠ rootClosure)
    (hpoll : ∀ d c, (σ.control w).polling ≠ some (.provablyGood d c))
    (hdone : τ.done = σ.done)
    (hmagic : fieldOf τ.closure Closure.magic = fieldOf σ.closure Closure.magic)
    (hstatus : fieldOf τ.closure Closure.status = fieldOf σ.closure Closure.status)
    (hcount : fieldOf τ.closure Closure.joinCounter = Function.update
      (fieldOf σ.closure Closure.joinCounter) p (fieldOf σ.closure Closure.joinCounter p - 1))
    (hwait : fieldOf σ.closure Closure.joinCounter p - 1 ≠ 0 ∨
      fieldOf σ.closure Closure.status p ≠ .suspended)
    (hcontrol : τ.control = σ.control) (hdeque : τ.deque = σ.deque) :
    (τ.returnEnd cfg w c p .fetch).Pending := by
  refine h.keep (w := w) (by simp [hdone]) (.inl (by simp [hmagic, hc.symm]))
    (by simp [hcontrol]; rfl) (by simp) (by simp) (suspended_of_not_waking hpoll ?_) ?_ ?_
  · simp [hstatus, hcount]
    grind
  · simp [Control.hungry]
  · simp [hdeque]

/-- **Every step keeps it.** -/
theorem transition {J : ForkJoin ClosureId} (h : σ.Pending) (hsound : σ.Sound) (hj : σ.Joins J)
    (ht : Transition cfg w σ σ') : σ'.Pending := by
  obtain ⟨hn, -, -, hv⟩ := hsound
  have hpos : rootClosure < σ.nextClosure := hn.pos
  -- what `Closure_return` destroys is a child
  have hchild : ∀ {p c s}, (σ.control w).child = some (p, c, s) → c ≠ rootClosure := by
    rintro p c s hc rfl
    have hparent := (hj.busy.stage w p _ s hc).1
    rw [hj.books.root] at hparent
    cases hparent
  have hhungry := h.hungry w
  cases ht
  case stealNone => exact h
  case leave hc hdone =>
    refine h.goto ?_ (fun _ _ => hdone) (fun _ => hdone) (by simp [Control.hungry])
    rcases hc with hc | hc
    all_goals
      simp [hc, Control.polling]
  case leaveExecute hc hdone =>
    exact h.goto (by simp [hc, Control.polling]) (fun _ _ => hdone) (fun _ => hdone)
      (by simp [Control.hungry])
  case finish hc _ _ _ =>
    exact h.setDone.goto (by simp [hc, Control.polling]) (fun _ _ => rfl) (fun _ => rfl)
      (by simp [Control.hungry])
  case remove hc _ _ =>
    have hdone := h.removing w hc
    refine h.keep (w := w) (fun _ => hdone) (.inr hdone) (by simp; rfl) (fun _ _ => hdone)
      (fun _ => hdone) ?_ ?_ ?_
    · simp [Control.polling, *]
      exact fun c hs => .inr hs
    · simp [Control.hungry]
    · simp +contextual
  case fetchNone hc hfree hb =>
    exact h.goto (by simp [hc, Control.polling]) (by simp) (by simp)
      fun _ => List.getLast?_eq_none_iff.mp hb
  case pollHandler t g r hc _ _ hσ' =>
    have hτ : (σ.pollDone t).Pending :=
      h.of_eq (by simp) (by simp) (by simp) (by simp) (by simp) (by simp)
    exact hτ.handled (w := w) (by simp [hc, Control.polling]) hσ'
  case handlerRelock t g r hc _ hσ' =>
    have hτ : (σ.lockClosure w t).Pending :=
      h.of_eq (by simp) (by simp) (by simp) (by simp) (by simp) (by simp)
    exact hτ.handled (w := w) (by simp [hc, Control.polling]) hσ'
  case returnRunning c p i hc _ hσ' hrun =>
    have hne := hchild (by rw [hc]; rfl)
    cases hσ'
    all_goals
      simp at hrun
      refine h.returnEnd hne (by simp [hc, Control.polling]) (by simp) (by simp) (by simp)
        (by simp) (.inr (by simp [hrun])) (by simp) (by simp)
  case returnPoll hc _ hσ' hrun =>
    have hne := hchild (by rw [hc]; rfl)
    cases hσ'
    all_goals
      refine h.keep (w := w) (by simp) (.inl (by simp)) (by simp; rfl) (by simp) (by simp) ?_ ?_ ?_
      · simp [Control.polling, hc]
        exact fun c hs => .inr hs
      · simp [Control.hungry]
      · simp
  case pollReturn c p hc _ hwait =>
    have hne := hchild (by rw [hc]; rfl)
    simp at hwait
    exact h.returnEnd hne (by simp [hc, Control.polling]) (by simp) (by simp) (by simp)
      (by simp) hwait (by simp) (by simp)
  case pollWake hc _ =>
    have hne := hchild (by rw [hc]; rfl)
    refine h.keep (w := w) (by simp) (.inl (by simp [hne.symm])) (by simp; rfl) (by simp)
        (by simp) ?_ ?_ ?_
    · simp [Control.polling, hc]
      grind
    · simp [Control.hungry]
    · simp
  case abortSuspend hchildren | pollSuspend hchildren =>
    simp at hchildren
    refine h.keep (w := w) (by simp) (.inl (by simp)) (by simp; rfl) (by simp) (by simp) ?_ ?_ ?_
    · simp [Control.polling, *]
      grind
    · simp [Control.hungry]
    · simp +contextual
  case walkDone i hc =>
    cases i
    all_goals
      refine h.keep (w := w) id (.inl rfl) rfl (by simp) (by simp) ?_ ?_ fun _ _ => id
      · rw [hc]
        exact fun c hs => .inr (.inr ⟨hs, rfl, fun _ => id⟩)
      · simp [Control.hungry]
  case inletAbort hc _ _ _ _ =>
    refine h.keep (w := w) (by simp) (.inl ?_) (by simp; rfl) (by simp) (by simp) ?_ ?_ ?_
    · unfold detachFromInlet
      split
      · simp
        grind
      · simp
    · rw [hc]
      unfold detachFromInlet
      split
      · simp [Control.polling]
        grind
      · simp [Control.polling]
        grind
    · simp [Control.hungry]
    · unfold detachFromInlet
      split <;> simp +contextual
  case inletDrop hc _ _ | inletApply hc _ _ _ =>
    refine h.keep (w := w) (by simp) (.inl (by simp)) (Function.update_eq_self ..).symm ?_ ?_ ?_ ?_ ?_
    · simp [hc]
    · simp [hc]
    · simp
      exact fun c hs => .inr (.inr hs)
    · exact hhungry
    · simp +contextual
  all_goals
    refine h.keep (w := w) (by simp) (.inl ?_) (by simp; rfl) (by simp) (by simp) ?_ ?_ ?_
    · simp
      try grind
    · simp [Control.polling, *]
      try grind
    · simp [Control.hungry, *]
      try grind
    · simp +contextual
      try grind

/-- In the beginning nothing is suspended. -/
theorem init (w₀ : W) : (State.init cfg w₀).Pending where
  exited w t hw := by
    rw [show (State.init cfg w₀).control w = if w = w₀ then _ else _ from rfl] at hw
    split at hw <;> cases hw
  removing w hw := by
    rw [show (State.init cfg w₀).control w = if w = w₀ then _ else _ from rfl] at hw
    split at hw <;> cases hw
  root := .inl rfl
  suspended c hc := by
    simp only [State.init, fieldOf] at hc
    split at hc <;> cases hc
  hungry _ _ := rfl

/-- It holds in every reachable state. -/
theorem reachable (h : (scheduler cfg w₀).Reachable σ) : σ.Pending := by
  refine h.invariant (init w₀) fun τ τ' a hr h hst => ?_
  obtain ⟨J, hj⟩ := Joins.reachable hr
  exact h.transition (Sound.reachable hr) hj (transition_of_step hst)

end Pending

/-! ## A worker that waits for no lock -/

/-- `complete_and_enque_inlet` complains of a value that is too large. -/
def Complains (σ : State W) (w : W) : Prop :=
  ∃ c p i, σ.control w = .returnChild c p i ∧
    i.argsize < ((σ.closure c).returnValue.getD []).length

/-- The worker can take a step. -/
def Moves (cfg : Config) (σ : State W) (w : W) : Prop :=
  ∃ a, (step cfg (w, a) σ).isSome = true

/-- `poll_inlets` goes on, where the exception handler finds a closure in its
deque. -/
theorem moves_of_poll {k : PollCaller} (hc : σ.control w = .poll k)
    (hb : ∀ t g r, k = .handler t g r → (σ.deque w).closures.getLast? ≠ none) :
    σ.Moves cfg w := by
  rcases hi : (σ.closure k.closure).completeInlets with _ | ⟨i, rest⟩
  · refine ⟨.go, ?_⟩
    simp only [step, hc, hi, if_true]
    cases k
    case handler t g r =>
      obtain ⟨b, hb⟩ := Option.ne_none_iff_exists'.mp (hb t g r rfl)
      simp only [pollEnd]
      rw [show (σ.pollDone (PollCaller.handler t g r).closure).dequePeekBottom w = some b from hb]
      dsimp only
      split <;> rfl
    all_goals
      dsimp only [pollEnd]
      try split
      all_goals rfl
  · -- the inlet of `invoke_main` aborts
    by_cases hroot : k.closure = rootClosure ∧ i.inlet = true
    · refine ⟨.inlet true (List.replicate (σ.frame (σ.frameOf k.closure)).info.argsize 0), ?_⟩
      simp only [step, hc, hi, applyInlet, hroot.2, List.length_replicate]
      split <;> rfl
    · refine ⟨.inlet false [], ?_⟩
      simp only [step, hc, hi, applyInlet, hroot]
      split <;> rfl

/-- User code goes on: it spawns, and `invoke_main` spawns, syncs and ends. -/
theorem moves_of_user (hs : σ.Stacked) (hc : σ.control w = .user) (htail : 1 ≤ σ.depth w) :
    σ.Moves cfg w := by
  by_cases hroot : σ.topFrame w = rootFrame
  · -- the frame of `invoke_main` is at the bottom of the stack
    have hdepth : σ.depth w = 1 := by
      by_contra hne
      exact hs.slot w (σ.depth w - 1) (by omega) (Nat.sub_lt htail Nat.one_pos) hroot
    rcases he : (σ.frame rootFrame).entry
    · exact ⟨.spawn ⟨0, false⟩ false cfg.rootInfo, by simp [step, hc, spawnFrame, hroot, he]⟩
    · exact ⟨.sync, by simp [step, hc, callSlow, hdepth, hroot, he]⟩
    · exact ⟨.finish, by simp [step, hc, hdepth, hroot, he]⟩
  · exact ⟨.spawn ⟨0, false⟩ false cfg.rootInfo, by simp [step, hc, spawnFrame, hroot]⟩

/-- **A worker that waits for no lock can go on**, unless it has left, looks for
somebody else to steal from, or complains. -/
theorem moves_of_free (hr : (scheduler cfg w₀).Reachable σ) {victim : W → W}
    (hfree : ∀ l, σ.request victim w = some l → σ.owner l = none)
    (hexited : ∀ t, σ.control w ≠ .exited t) (hsteal : σ.control w = .steal → victim w ≠ w) :
    σ.Moves cfg w ∨ σ.Complains w := by
  obtain ⟨-, hlocks, -, hv⟩ := Sound.reachable hr
  have hown := hv.own w
  have hrole : σ.place.role w = (σ.control w).role := rfl
  rw [hrole] at hown
  unfold request at hfree
  cases hc : σ.control w <;> simp only [hc, Control.role] at hfree hown
  case exited t => exact absurd hc (hexited t)
  case poll k =>
    refine .inl (moves_of_poll hc fun t g r hk => ?_)
    rw [hk] at hown
    exact List.getLast?_eq_none_iff.not.mpr (List.ne_nil_of_mem hown.1)
  case user =>
    obtain ⟨b, -, htail⟩ := hown
    exact .inl (moves_of_user (Stacked.reachable hr) hc (Nat.le_of_add_left_le htail))
  case dekkerHead | dekkerTail | retract | promote | pushFrame | popCheck | slowReturn =>
    exact .inl ⟨.go, by simp only [step, hc]; rfl⟩
  case unwind => exact .inl ⟨.dummy [], by simp only [step, hc]; rfl⟩
  case finishPromote p c =>
    exact .inl ⟨.capture (List.replicate (σ.frame (σ.frameOf p)).info.argsize 0), by
      simp [step, hc]⟩
  case fetch =>
    have hfree := hfree _ rfl
    simp only [owner] at hfree
    refine .inl ⟨.go, ?_⟩
    simp only [step, hc, fetchBottom]
    simp [hfree]
    split <;> rfl
  case steal =>
    have hfree := hfree _ (if_neg (hsteal hc))
    simp only [owner] at hfree
    refine .inl ⟨.victim (victim w), ?_⟩
    simp only [step, hc, stealDeque]
    simp [hfree, hsteal hc]
    split <;> rfl
  case insert t =>
    have hfree := hfree _ rfl
    simp only [owner] at hfree
    exact .inl ⟨.go, by simp [step, hc, hfree]⟩
  case exitLock res =>
    have hfree := hfree _ rfl
    simp only [owner] at hfree
    refine .inl ⟨.capture (List.replicate cfg.returnSize 0), ?_⟩
    simp [step, hc, exitRoot, hfree]
    split <;> rfl
  case stealLock v t =>
    have hfree := hfree _ rfl
    simp only [owner] at hfree
    -- a suspended closure is in no deque
    have htop := (hv.peeking w v t (by rw [hrole, hc]; rfl)).2
    have hstatus : fieldOf σ.closure Closure.status t ≠ .suspended :=
      (hv.custody.holds_live (.inl (List.mem_of_mem_head? htop))).2
    refine .inl ⟨.go, ?_⟩
    simp only [step, hc, stealClosure]
    simp [hfree]
    split
    · rfl
    · split <;> simp_all
  case execute t =>
    have hfree := hfree _ rfl
    simp only [owner] at hfree
    have hstatus : fieldOf σ.closure Closure.status t = .ready ∨
        fieldOf σ.closure Closure.status t = .returning := hown.2
    refine .inl ⟨.go, ?_⟩
    simp only [step, hc, doWhatItSays]
    rcases hstatus with hstatus | hstatus
    · simp [hfree, hstatus]
      split <;> rfl
    · simp [hfree, hstatus]
  case abortWalk k i todo path =>
    refine .inl ⟨.go, ?_⟩
    simp only [step, hc, abortWalkStep]
    rcases path with _ | ⟨⟨q, ds⟩, path⟩
    · rcases todo with _ | ⟨d, ds⟩
      · rfl
      · have hfree := hfree _ rfl
        simp only [owner] at hfree
        simp [hfree]
    · rcases ds with _ | ⟨d, ds⟩
      · rfl
      · have hfree := hfree _ rfl
        simp only [owner] at hfree
        simp [hfree]
  case returnLock c =>
    obtain ⟨p, hp, -, hfound⟩ := exists_parent_of_returnLock hr hc
    rw [hp] at hfree
    have hfree := hfree _ rfl
    obtain ⟨r, hr⟩ := Option.isSome_iff_exists.mp (hfound hfree)
    simp only [owner] at hfree
    refine .inl ⟨.go, ?_⟩
    simp only [step, hc, returnParent, hp, hr]
    simp [hfree]
  case returnChild c p i =>
    have hfree := hfree _ rfl
    simp only [owner] at hfree
    by_cases hsize : i.argsize < ((σ.closure c).returnValue.getD []).length
    · exact .inr ⟨c, p, i, hc, hsize⟩
    · refine .inl ⟨.go, ?_⟩
      simp only [step, hc, returnChild, completeAndEnqueInlet]
      simp at hsize
      simp [hfree, hsize.not_gt]
      split <;> simp
  case handlerDeque g r =>
    have hfree := hfree _ rfl
    simp only [owner] at hfree
    obtain ⟨-, b, hb⟩ := hown
    have hb : (σ.deque w).closures.getLast? = some b := hb.elim (·.1.1) (·.1.1)
    refine .inl ⟨.go, ?_⟩
    simp only [step, hc, handlerDeque, dequePeekBottom, hb]
    simp [hfree]
  case slowDeque call =>
    have hfree := hfree _ rfl
    simp only [owner] at hfree
    obtain ⟨b, hruns, -⟩ := hown
    have hb : (σ.deque w).closures.getLast? = some b := hruns.1
    refine .inl ⟨.go, ?_⟩
    simp only [step, hc, slowDeque, dequePeekBottom, hb]
    simp [hfree]
  case remove =>
    have hfree := hfree _ rfl
    simp only [owner] at hfree
    obtain ⟨b, hruns, -⟩ := hown
    have hb : (σ.deque w).closures.getLast? = some b := hruns.1
    refine .inl ⟨.go, ?_⟩
    simp only [step, hc, removeRoot, dequePeekBottom, hb]
    simp [hfree]
  case handlerLock t g r | handlerRelock t g r =>
    have hfree := hfree _ rfl
    simp only [owner] at hfree
    exact .inl ⟨.go, by simp [step, hc, hfree]⟩
  case slowLock call t =>
    have hfree := hfree _ rfl
    simp only [owner] at hfree
    exact .inl ⟨.go, by cases call <;> simp [step, hc, slowClosure, hfree]⟩

/-! ## Somebody can move -/

/-- Who waits does so, at last, for a worker that holds a lock and can move. -/
theorem exists_mover_of_waits [Finite W] (hr : (scheduler cfg w₀).Reachable σ) {victim : W → W}
    {u : W} (hu : Mutex.Waits (σ.request victim) σ.held w u) :
    ∃ v, Relation.TransGen (Mutex.Waits (σ.request victim) σ.held) w v ∧ σ.held v ≠ [] ∧
      (σ.Moves cfg v ∨ σ.Complains v) := by
  obtain ⟨v, huv, hlast⟩ := Mutex.Waits.exists_last (acyclic_requests hr victim) u
  have hwv := Relation.TransGen.head' hu huv
  have hheld : σ.held v ≠ [] := by
    obtain ⟨x, -, l, -, hl⟩ := Relation.TransGen.tail'_iff.mp hwv
    exact List.ne_nil_of_mem hl
  have hfree : ∀ l, σ.request victim v = some l → σ.owner l = none := by
    intro l hl
    by_contra hne
    obtain ⟨x, hx⟩ := Option.ne_none_iff_exists'.mp hne
    exact hlast x ⟨l, hl, ((LocksHeld.reachable hr).held.mem_held x l).mpr hx⟩
  refine ⟨v, hwv, hheld, moves_of_free hr hfree ?_ ?_⟩
  · exact fun t hc => hheld (by rw [held, hc]; rfl)
  · exact fun hc => absurd (by rw [held, hc]; rfl) hheld

/-- The worker has something to do: it is not about to choose a victim, its
deque is not empty where it looks there, and it has not left. A thief that has
locked the deque of a victim counts as at work, whatever it will find there. -/
def AtWork (σ : State W) (w : W) : Prop :=
  σ.control w ≠ .steal ∧ (σ.control w = .fetch → (σ.deque w).closures ≠ []) ∧
    ∀ t, σ.control w ≠ .exited t

omit [DecidableEq W] in
/-- Who holds a lock is at work. -/
theorem atWork_of_held (hheld : σ.held w ≠ []) : σ.AtWork w := by
  refine ⟨fun hc => ?_, fun hc => ?_, fun t hc => ?_⟩
  all_goals exact absurd (by rw [held, hc]; rfl) hheld

omit [DecidableEq W] in
/-- What a worker has in hand is the closure of its role. -/
theorem hand_place (σ : State W) (w : W) :
    σ.place.custody.hand w = ((σ.control w).role : Role W).token := rfl

/-- A closure that lives keeps somebody at work. -/
theorem exists_atWork (hr : (scheduler cfg w₀).Reachable σ) (hdone : σ.done = false)
    (c : ClosureId) (hlive : fieldOf σ.closure Closure.magic c = true) : ∃ w, σ.AtWork w := by
  obtain ⟨J, hj⟩ := Joins.reachable hr
  obtain ⟨hn, -, -, hv⟩ := Sound.reachable hr
  have hpending := Pending.reachable hr
  have hwalk := Walking.reachable hr
  have hexited : ∀ w t, σ.control w ≠ .exited t := fun w t hc => by
    rw [hpending.exited w t hc] at hdone
    cases hdone
  -- children are younger than their parent
  induction hm : σ.nextClosure - c using Nat.strong_induction_on generalizing c with
  | _ n ih =>
    subst hm
    by_cases hs : fieldOf σ.closure Closure.status c = .suspended
    · rcases hpending.suspended c hs with hcount | ⟨w, d, hw⟩
      · rw [← hj.tracks.count] at hcount
        obtain ⟨d, hd, hlive⟩ := hj.valid.exists_child hcount
        have hlt := hwalk.older d c (by rw [← hj.tracks.parent, hd])
        have hknown : d < σ.nextClosure := by
          by_contra hle
          exact hlive.1 ((hj.books.known d).mpr (Nat.le_of_not_lt hle))
        exact ih (σ.nextClosure - d) (Nat.sub_lt_sub_left (hlt.trans hknown) hlt) d
          ((hj.books.live d).mpr hlive) rfl
      · refine ⟨w, fun hc => ?_, fun hc => ?_, hexited w⟩
        all_goals
          rw [hc] at hw
          cases hw
    · obtain ⟨w, hw, -⟩ := hv.custody.existsUnique_holds hlive hs
      refine ⟨w, fun hc => ?_, fun hc => ?_, hexited w⟩
      · rcases hw with hw | hw
        · have hnil := hpending.hungry w (by rw [hc]; rfl)
          exact List.ne_nil_of_mem hw hnil
        · rw [hand_place, hc] at hw
          cases hw
      · rcases hw with hw | hw
        · exact List.ne_nil_of_mem hw
        · rw [hand_place, hc] at hw
          cases hw

end State

section Results

variable [DecidableEq W] {cfg : Config} {w₀ : W} {σ : State W}

/-- **A worker that is blocked is so only for now**: the worker it waits for at
last can take a step, whichever victims the thieves choose, unless the runtime
complains there of a result that is too large. -/
theorem blocked_worker_waits_for_mover [Finite W] (hr : (scheduler cfg w₀).Reachable σ)
    (victim : W → W) {u w : W} (hw : Mutex.Waits (σ.request victim) σ.held w u) :
    ∃ v, Relation.TransGen (Mutex.Waits (σ.request victim) σ.held) w v ∧
      (σ.Moves cfg v ∨ σ.Complains v) :=
  let ⟨v, hwv, _, hv⟩ := State.exists_mover_of_waits hr hw
  ⟨v, hwv, hv⟩

/-- Worker 0 waits for its own deque, and the thief that has it goes on. -/
theorem blocked_worker_waits_for_mover_trapped : ∃ (σ : State (Fin 2)) (v : Fin 2),
    σ.control 0 = .handlerDeque 1 [] ∧
    Relation.TransGen (Mutex.Waits (σ.request fun _ => 0) σ.held) 0 v ∧
    (σ.Moves .small v ∨ σ.Complains v) := by
  obtain ⟨σ, hr, hp⟩ := TransitionSystem.Reachable.of_eval (M := scheduler .small (0 : Fin 2))
    trapBehindThief
    (fun σ => σ.control 0 == .handlerDeque 1 [] && σ.request (fun _ => 0) 0 == some (.deque 0) &&
      (σ.held 1).contains (.deque 0)) (by decide +kernel)
  simp only [Bool.and_eq_true, beq_iff_eq, List.contains_iff_mem] at hp
  obtain ⟨⟨hc, hl⟩, hheld⟩ := hp
  obtain ⟨v, hv⟩ := blocked_worker_waits_for_mover hr (fun _ => 0) ⟨_, hl, hheld⟩
  exact ⟨σ, v, hc, hv⟩

/-- **No work is lost.** As long as the computation is not done, a worker that
has work, or is in the middle of a steal, can take a step: every closure that lives waits for children or is held
by a worker, and that one goes on, or waits for one that does. -/
theorem work_goes_on [Finite W] (hr : (scheduler cfg w₀).Reachable σ)
    (hdone : σ.done = false) : ∃ w, σ.AtWork w ∧ (σ.Moves cfg w ∨ σ.Complains w) := by
  have hroot := (State.Pending.reachable hr).root.resolve_right (by rw [hdone]; decide)
  obtain ⟨w, hw⟩ := State.exists_atWork hr hdone rootClosure hroot
  by_cases hfree : ∀ l, σ.request id w = some l → σ.owner l = none
  · exact ⟨w, hw, State.moves_of_free hr hfree hw.2.2 fun hc => absurd hc hw.1⟩
  · obtain ⟨l, hl⟩ := not_forall.mp hfree
    obtain ⟨hl, howner⟩ := Classical.not_imp.mp hl
    obtain ⟨u, hu⟩ := Option.ne_none_iff_exists'.mp howner
    have hwaits : Mutex.Waits (σ.request id) σ.held w u :=
      ⟨l, hl, ((State.LocksHeld.reachable hr).held.mem_held u l).mpr hu⟩
    obtain ⟨v, -, hheld, hv⟩ := State.exists_mover_of_waits hr hwaits
    exact ⟨v, State.atWork_of_held hheld, hv⟩

/-- Both workers are in the runtime, and the computation is not done. -/
theorem work_goes_on_trapped : ∃ (σ : State (Fin 2)) (w : Fin 2), σ.done = false ∧
    σ.control 0 ≠ .user ∧ σ.control 1 ≠ .user ∧ σ.AtWork w ∧
    (σ.Moves .small w ∨ σ.Complains w) := by
  obtain ⟨σ, hr, hp⟩ := TransitionSystem.Reachable.of_eval (M := scheduler .small (0 : Fin 2))
    trapBehindThief
    (fun σ => σ.done == false && σ.control 0 != .user && σ.control 1 != .user) (by decide +kernel)
  simp only [Bool.and_eq_true, beq_iff_eq, bne_iff_ne] at hp
  obtain ⟨⟨hdone, h0⟩, h1⟩ := hp
  obtain ⟨w, hw⟩ := work_goes_on hr hdone
  exact ⟨σ, w, hdone, h0, h1, hw⟩

end Results

end Cilk
