import Cilk.Scheduler.Links
import Cilk.Scheduler.Refinement

/-!
# The scheduler on linked deques

The scheduler keeps its deques as lists. `State.dequeCalls` names the calls
of the deque functions that the code makes in a step, each with the closure
the step goes on with, and `linkedScheduler` makes them on the links beside
every step. It never stops short: the calls are allowed in every reachable
state, they return what the step goes on with, and the links stand for the
lists of the scheduler throughout.
-/

namespace Cilk

variable {W : Type}

namespace State

/-- The deques of a state, and the closures there are. -/
def queues (σ : State W) : ReadyQueues W where
  queue := fieldOf σ.deque ReadyDeque.closures
  holder := fieldOf σ.deque ReadyDeque.mutexOwner
  created c := c < σ.nextClosure

variable [DecidableEq W]

/-! ## The calls of a step -/

/-- `promote_child`. -/
def promoteCalls (σ : State W) (w : W) (parent : ClosureId) (victim : W) :
    List (DequeCall W × Option ClosureId) :=
  [(.closureInit σ.nextClosure, none), (.assertPromotable w parent victim, none),
    (.addBottom w σ.nextClosure victim, none)]

/-- `Closure_suspend` of the bottom closure where `suspend` holds, and the
release of the deque. -/
def suspendCalls (w : W) (t : ClosureId) (suspend : Bool) :
    List (DequeCall W × Option ClosureId) :=
  if suspend then [(.xtractBottom w w, some t), (.unlock w w, none)]
  else [(.unlock w w, none)]

/-- The exception handler from the reset of the exception pointer on
suspends the closure. -/
def handlerSuspends (σ : State W) (w : W) (t : ClosureId) : Bool :=
  let σ := σ.resetExceptionPointer t
  if (σ.cache w).tail ≤ (σ.cache w).head then false
  else if σ.beingAborted t then
    let σ := σ.signalImmediateException t
    σ.atTopOfStack t && σ.hasChildren t
  else false

/-- The caller of `poll_inlets` goes on. `Cilk_sync` asserts first that its
closure is at the bottom. -/
def pollEndCalls (σ : State W) (w : W) : PollCaller → List (DequeCall W × Option ClosureId)
  | .handler t _ _ =>
    (.peekBottom w w, σ.dequePeekBottom w) ::
      if σ.dequePeekBottom w = some t then
        suspendCalls w t ((σ.pollDone t).handlerSuspends w t)
      else []
  | .sync t => (.peekBottom w w, some t) :: suspendCalls w t (σ.hasChildren t)
  | .abortSlow _ => [(.unlock w w, none)]
  | .setup _ | .closureReturn .. | .provablyGood .. | .exit _ => []

/-- **The calls of a step** of the worker `a.1`, with the closures that the
step goes on with. -/
def dequeCalls (a : W × Action W) (σ : State W) : List (DequeCall W × Option ClosureId) :=
  let w := a.1
  match σ.control w with
  | .fetch | .remove =>
    match a.2 with
    | .go => [(.lock w w, none), (.xtractBottom w w, σ.dequePeekBottom w), (.unlock w w, none)]
    | _ => []
  | .steal =>
    match a.2 with
    | .victim v =>
      [(.lock w v, none), (.peekTop w v, σ.dequePeekTop v)] ++
        if σ.dequePeekTop v = none then [(.unlock w v, none)] else []
    | _ => []
  | .stealLock v cl =>
    if σ.beingAborted cl then [(.unlock w v, none)]
    else match (σ.closure cl).status with
      | .ready => [(.xtractTop w v, some cl), (.unlock w v, none)]
      | .returning => [(.unlock w v, none)]
      | .running | .suspended => []
  | .retract v _ => [(.unlock w v, none)]
  | .promote v cl =>
    σ.promoteCalls w cl v ++ [(.xtractTop w v, some cl), (.unlock w v, none)]
  | .insert t => [(.lock w w, none), (.addBottom w t w, none), (.unlock w w, none)]
  | .poll k =>
    match a.2 with
    | .go => σ.pollEndCalls w k
    | .inlet abort _ =>
      if abort && !σ.beingAborted k.closure && σ.isRunning k.closure &&
          !σ.atTopOfStack k.closure then
        σ.promoteCalls w k.closure w
      else []
    | _ => []
  | .handlerDeque .. | .slowDeque _ =>
    [(.lock w w, none), (.peekBottom w w, σ.dequePeekBottom w)]
  | .handlerRelock t _ _ => suspendCalls w t (σ.handlerSuspends w t)
  | .slowLock (.setResult _) _ => [(.unlock w w, none)]
  | _ => []

end State

/-- **The scheduler with the links of its deques.** A step also makes the
calls of the step on the links, and is not taken where they fail or return
something else than the step goes on with. -/
def linkedScheduler (debug : Bool) (cfg : Config) (w₀ : W) (m₀ : ReadyDeques W) [DecidableEq W] :
    TransitionSystem (State W × ReadyDeques W) (W × Action W) where
  init := (State.init cfg w₀, m₀)
  step a s := do
    let σ ← State.step cfg a s.1
    let (rs, m) ← ReadyDeques.run debug ((s.1.dequeCalls a).map Prod.fst) s.2
    if rs = (s.1.dequeCalls a).map Prod.snd then some (σ, m) else none

/-- The deques as `init_deques` leaves them, with the root closure. The links
of all other closures may be anything. -/
structure ReadyDeques.Initial (debug : Bool) (m : ReadyDeques W) : Prop where
  top : ∀ v, m.top v = none
  bottom : ∀ v, m.bottom v = none
  mutex : ∀ v, m.mutex v = false
  mutexOwner : debug = true → ∀ v, m.mutexOwner v = none
  ownerReadyDeque : debug = true → m.ownerReadyDeque rootClosure = none

namespace ReadyQueues

variable [DecidableEq W] {Q Q' : ReadyQueues W} {c : DequeCall W} {r : Option ClosureId}
  {cs : List (DequeCall W × Option ClosureId)}

theorem Run.step (hc : c.Allowed Q) (hr : c.answer Q = r) (hcs : (c.apply Q).Run cs Q') :
    Q.Run ((c, r) :: cs) Q' :=
  hr ▸ .cons hc hcs

theorem Run.done (h : Q = Q') : Q.Run [] Q' := h ▸ .nil Q

end ReadyQueues

namespace State

variable [DecidableEq W] {cfg : Config} {w : W} {σ σ' : State W}

/-! ## The calls are allowed -/

omit [DecidableEq W] in
/-- The deque a worker has locked. -/
theorem Sound.holder (h : σ.Sound) {v : W} (hv : (σ.control w).role.locks w = some v) :
    σ.queues.holder v = some w :=
  (h.locks.held.mem_held w (.deque v)).mp (Control.deque_mem_held hv)

/-- A deque that is locked and released again is as it was. -/
theorem update_lock_unlock {f : W → Option W} {v : W} (u : Option W) (hf : f v = none) :
    Function.update (Function.update f v u) v none = f := by
  rw [Function.update_idem, ← hf, Function.update_eq_self]

/-- A step that makes no call. -/
theorem quiet_run (hdeque : σ'.deque = σ.deque) (hnext : σ'.nextClosure = σ.nextClosure) :
    σ.queues.Run [] σ'.queues := by
  refine .done ?_
  unfold queues
  rw [hdeque, hnext]

/-- A step that makes calls, which do to the deques what the step does. -/
theorem run_of_eq {cs : List (DequeCall W × Option ClosureId)} {Q : ReadyQueues W}
    (h : σ.queues.Run cs Q) (hqueue : fieldOf σ'.deque ReadyDeque.closures = Q.queue)
    (hholder : fieldOf σ'.deque ReadyDeque.mutexOwner = Q.holder)
    (hcreated : ∀ c, c < σ'.nextClosure ↔ Q.created c) : σ.queues.Run cs σ'.queues := by
  have hQ : Q = σ'.queues := by
    unfold queues
    rw [hqueue, hholder, funext fun c => propext (hcreated c)]
  exact hQ ▸ h

/-- The calls under the lock of the worker's own deque, which is released
again. -/
theorem suspend_run {t : ClosureId} {suspend : Bool} (hlock : σ.queues.holder w = some w)
    (hb : (σ.queues.queue w).getLast? = some t)
    (hqueue : fieldOf σ'.deque ReadyDeque.closures =
      if suspend then Function.update σ.queues.queue w (σ.queues.queue w).dropLast
      else σ.queues.queue)
    (hholder : fieldOf σ'.deque ReadyDeque.mutexOwner = Function.update σ.queues.holder w none)
    (hnext : σ'.nextClosure = σ.nextClosure) :
    σ.queues.Run (suspendCalls w t suspend) σ'.queues := by
  have hcreated : ∀ c, c < σ'.nextClosure ↔ σ.queues.created c := fun c => by
    rw [hnext]
    rfl
  cases suspend
  · exact run_of_eq (.step hlock rfl (.nil _)) hqueue hholder hcreated
  · exact run_of_eq (.step hlock hb (.step hlock rfl (.nil _))) hqueue hholder hcreated

/-- `promote_child`, under the lock of the victim's deque. -/
theorem promote_run (h : σ.Sound) {t : ClosureId} {v : W} {Q : ReadyQueues W}
    {cs : List (DequeCall W × Option ClosureId)} (hlock : σ.queues.holder v = some w)
    (hb : (σ.queues.queue v).getLast? = some t)
    (hcs : ReadyQueues.Run
      ⟨Function.update σ.queues.queue v (σ.queues.queue v ++ [σ.nextClosure]), σ.queues.holder,
        Function.update σ.queues.created σ.nextClosure True⟩ cs Q) :
    σ.queues.Run (σ.promoteCalls w t v ++ cs) Q := by
  have hfresh : ∀ u, σ.nextClosure ∉ σ.queues.queue u := fun u hu =>
    h.placed.next_not_held (.inl hu)
  refine .step hfresh rfl (.step ⟨hlock, hb⟩ rfl (.step ⟨hlock, ?_, hfresh⟩ rfl hcs))
  show Function.update σ.queues.created σ.nextClosure True σ.nextClosure
  rw [Function.update_self]
  trivial

omit [DecidableEq W] in
/-- The closures there are after `promote_child`. -/
theorem created_promote (c : ClosureId) :
    c < σ.nextClosure + 1 ↔ Function.update σ.queues.created σ.nextClosure True c := by
  by_cases hc : c = σ.nextClosure
  · rw [hc, Function.update_self]
    exact iff_of_true (Nat.lt_succ_self _) trivial
  · rw [Function.update_of_ne hc]
    exact ⟨fun hlt => lt_of_le_of_ne (Nat.le_of_lt_succ hlt) hc, Nat.lt_succ_of_lt⟩

/-- The bottom closure is taken, under a lock that is released again. -/
theorem takeBottom_run (hfree : (σ.deque w).mutexOwner = none)
    (hqueue : fieldOf σ'.deque ReadyDeque.closures =
      Function.update σ.queues.queue w (σ.queues.queue w).dropLast)
    (hholder : fieldOf σ'.deque ReadyDeque.mutexOwner = σ.queues.holder)
    (hnext : σ'.nextClosure = σ.nextClosure) :
    σ.queues.Run [(.lock w w, none), (.xtractBottom w w, σ.dequePeekBottom w),
      (.unlock w w, none)] σ'.queues := by
  refine run_of_eq (.step hfree rfl (.step ?_ rfl (.step ?_ rfl (.nil _)))) hqueue ?_ fun c => ?_
  · exact Function.update_self ..
  · exact Function.update_self ..
  · exact hholder.trans (update_lock_unlock (some w) hfree).symm
  · rw [hnext]
    rfl

theorem fetch_run {a : Action W} (hc : σ.control w = .fetch)
    (hs : step cfg (w, a) σ = some σ') : σ.queues.Run (σ.dequeCalls (w, a)) σ'.queues := by
  simp only [dequeCalls, hc]
  cases a <;> simp only [step, hc, reduceCtorEq] at hs
  case go =>
    unfold fetchBottom at hs
    split at hs
    · cases hs
    case isFalse hfree =>
      have hfree : (σ.deque w).mutexOwner = none := not_not.mp hfree
      split at hs <;> cases Option.some.inj hs
      case h_1 hb =>
        refine takeBottom_run hfree ?_ rfl rfl
        have hnil : σ.queues.queue w = [] := List.getLast?_eq_none_iff.mp hb
        rw [hnil, List.dropLast_nil, ← hnil, Function.update_eq_self]
        rfl
      case h_2 t hb =>
        refine takeBottom_run hfree ?_ ?_ rfl
        · simp [queues]
        · simp [queues]
  case leave =>
    split at hs
    · cases Option.some.inj hs
      exact quiet_run rfl rfl
    · cases hs

theorem remove_run {a : Action W} (hc : σ.control w = .remove)
    (hs : step cfg (w, a) σ = some σ') : σ.queues.Run (σ.dequeCalls (w, a)) σ'.queues := by
  simp only [dequeCalls, hc]
  cases a <;> simp only [step, hc, reduceCtorEq] at hs
  unfold removeRoot at hs
  split at hs
  · cases hs
  case isFalse hfree =>
    have hfree : (σ.deque w).mutexOwner = none := not_not.mp hfree
    obtain ⟨t, -, rfl⟩ := Option.map_eq_some_iff.mp hs
    refine takeBottom_run hfree ?_ ?_ rfl
    · simp [queues]
    · simp [queues]

theorem steal_run {a : Action W} (hc : σ.control w = .steal)
    (hs : step cfg (w, a) σ = some σ') : σ.queues.Run (σ.dequeCalls (w, a)) σ'.queues := by
  simp only [dequeCalls, hc]
  cases a <;> simp only [step, hc, reduceCtorEq] at hs
  case victim v =>
    unfold stealDeque at hs
    split at hs
    · cases hs
    case isFalse hfree =>
      have hfree : (σ.deque v).mutexOwner = none := not_not.mp (not_or.mp hfree).2
      have hself : Function.update σ.queues.holder v (some w) v = some w := Function.update_self ..
      dsimp only
      split at hs <;> cases Option.some.inj hs
      case h_1 ht =>
        rw [if_pos ht]
        refine run_of_eq (.step hfree rfl (.step hself rfl (.step hself rfl (.nil _)))) rfl ?_
          fun _ => Iff.rfl
        exact (update_lock_unlock (some w) hfree).symm
      case h_2 cl ht =>
        rw [if_neg (by rw [ht]; exact Option.some_ne_none cl)]
        refine run_of_eq (.step hfree rfl (.step hself rfl (.nil _))) ?_ ?_ fun _ => Iff.rfl
        · simp [queues, DequeCall.apply]
        · simp [queues, DequeCall.apply]
  case leave =>
    split at hs
    · cases Option.some.inj hs
      exact quiet_run rfl rfl
    · cases hs

theorem stealLock_run (h : σ.Sound) {a : Action W} {v : W} {cl : ClosureId}
    (hc : σ.control w = .stealLock v cl) (hs : step cfg (w, a) σ = some σ') :
    σ.queues.Run (σ.dequeCalls (w, a)) σ'.queues := by
  have hlock : σ.queues.holder v = some w := h.holder (by rw [hc]; rfl)
  simp only [dequeCalls, hc]
  cases a <;> simp only [step, hc, reduceCtorEq] at hs
  unfold stealClosure at hs
  split at hs
  · cases hs
  split at hs
  case isTrue habort =>
    rw [if_pos habort]
    cases Option.some.inj hs
    refine run_of_eq (.step hlock rfl (.nil _)) ?_ ?_ fun _ => Iff.rfl
    · simp [queues, DequeCall.apply]
    · simp [queues, DequeCall.apply]
  case isFalse habort =>
    rw [if_neg habort]
    split at hs
    case h_1 hstatus =>
      rw [hstatus]
      cases Option.some.inj hs
      have htop : (σ.queues.queue v).head? = some cl :=
        (h.placed.peeking w v cl (congrArg Control.role hc)).2
      refine run_of_eq (.step hlock htop (.step hlock rfl (.nil _))) ?_ ?_ fun _ => Iff.rfl
      · simp [queues, DequeCall.apply]
      · simp [queues, DequeCall.apply]
    case h_2 hstatus =>
      rw [hstatus]
      cases Option.some.inj hs
      exact quiet_run rfl rfl
    case h_3 => cases hs
    case h_4 hstatus =>
      rw [hstatus]
      cases Option.some.inj hs
      refine run_of_eq (.step hlock rfl (.nil _)) ?_ ?_ fun _ => Iff.rfl
      · simp [queues, DequeCall.apply]
      · simp [queues, DequeCall.apply]

theorem retract_run (h : σ.Sound) {a : Action W} {v : W} {cl : ClosureId}
    (hc : σ.control w = .retract v cl) (hs : step cfg (w, a) σ = some σ') :
    σ.queues.Run (σ.dequeCalls (w, a)) σ'.queues := by
  have hlock : σ.queues.holder v = some w := h.holder (by rw [hc]; rfl)
  simp only [dequeCalls, hc]
  cases a <;> simp only [step, hc, reduceCtorEq] at hs
  cases Option.some.inj hs
  refine run_of_eq (.step hlock rfl (.nil _)) ?_ ?_ fun _ => Iff.rfl
  · simp [queues, DequeCall.apply]
  · simp [queues, DequeCall.apply]

theorem stealPromote_run (h : σ.Sound) {a : Action W} {v : W} {cl : ClosureId}
    (hc : σ.control w = .promote v cl) (hs : step cfg (w, a) σ = some σ') :
    σ.queues.Run (σ.dequeCalls (w, a)) σ'.queues := by
  have hlock : σ.queues.holder v = some w := h.holder (by rw [hc]; rfl)
  have hdeque : σ.queues.queue v = [cl] :=
    (h.placed.raised w v cl (by rw [show σ.place.role w = _ from congrArg Control.role hc]; rfl)).2.1
  simp only [dequeCalls, hc]
  cases a <;> simp only [step, hc, reduceCtorEq] at hs
  cases Option.some.inj hs
  refine run_of_eq (promote_run h hlock (by rw [hdeque]; rfl)
    (.step hlock ?_ (.step hlock rfl (.nil _)))) ?_ ?_ created_promote
  · show (Function.update σ.queues.queue v (σ.queues.queue v ++ [σ.nextClosure]) v).head? = some cl
    rw [Function.update_self, hdeque]
    rfl
  · simp [queues, DequeCall.apply]
  · simp [queues, DequeCall.apply]

theorem insert_run (h : σ.Sound) {a : Action W} {t : ClosureId}
    (hc : σ.control w = .insert t) (hs : step cfg (w, a) σ = some σ') :
    σ.queues.Run (σ.dequeCalls (w, a)) σ'.queues := by
  have hrole : σ.place.role w = .starting t := congrArg Control.role hc
  have hhand : σ.place.custody.hand w = some t := by
    show (σ.place.role w).token = some t
    rw [hrole]
    rfl
  have hnot : ∀ v, t ∉ σ.queues.queue v := fun v hv =>
    h.placed.custody.not_hand_of_mem (u := v) hv hhand
  have hlt : t < σ.nextClosure := h.named.control w t (by rw [hc]; exact List.mem_singleton_self t)
  have hself : Function.update σ.queues.holder w (some w) w = some w := Function.update_self ..
  simp only [dequeCalls, hc]
  cases a <;> simp only [step, hc, reduceCtorEq] at hs
  split at hs
  · cases hs
  case isFalse hfree =>
    have hfree : (σ.deque w).mutexOwner = none := not_not.mp hfree
    cases Option.some.inj hs
    refine run_of_eq (.step hfree rfl (.step ⟨hself, hlt, hnot⟩ rfl (.step hself rfl (.nil _))))
      ?_ ?_ fun _ => Iff.rfl
    · simp [queues, DequeCall.apply]
    · refine Eq.trans ?_ (update_lock_unlock (some w) hfree).symm
      simp [queues]

theorem handlerBody_run {t : ClosureId} {g : FrameId} {r : Bytes}
    (hlock : σ.queues.holder w = some w) (hb : (σ.queues.queue w).getLast? = some t) :
    σ.queues.Run (suspendCalls w t (σ.handlerSuspends w t)) (σ.handlerBody w t g r).queues := by
  unfold handlerSuspends handlerBody
  dsimp only
  split_ifs with hstolen hrun haborted htop hchildren
  · exact suspend_run hlock hb (by simp [queues]) (by simp [queues]) rfl
  · exact suspend_run hlock hb (by simp [queues]) (by simp [queues]) rfl
  · rw [htop, hchildren]
    exact suspend_run hlock hb (by simp [queues]) (by simp [queues]) rfl
  · rw [htop, Bool.eq_false_of_not_eq_true hchildren]
    exact suspend_run hlock hb (by simp [queues]) (by simp [queues]) rfl
  · rw [Bool.eq_false_of_not_eq_true htop]
    exact suspend_run hlock hb (by simp [queues]) (by simp [queues]) rfl
  · exact suspend_run hlock hb (by simp [queues]) (by simp [queues]) rfl

theorem pollEnd_run (h : σ.Sound) {k : PollCaller} (hc : σ.control w = .poll k)
    (hs : σ.pollEnd cfg w k = some σ') : σ.queues.Run (σ.pollEndCalls w k) σ'.queues := by
  have hrole : σ.place.role w = k.role := congrArg Control.role hc
  unfold pollEnd at hs
  cases k with
  | setup t =>
    cases Option.some.inj hs
    exact quiet_run rfl rfl
  | handler t g r =>
    have hlock : σ.queues.holder w = some w := h.holder (by rw [hc]; rfl)
    have hpeek : (σ.pollDone t).dequePeekBottom w = σ.dequePeekBottom w := rfl
    dsimp only [PollCaller.closure] at hs
    rw [hpeek] at hs
    refine .step hlock rfl ?_
    show σ.queues.Run _ σ'.queues
    split at hs
    · cases hs
    case h_2 t' hb =>
      rw [hb]
      split at hs
      case isTrue he =>
        rw [if_pos (congrArg some he)]
        cases Option.some.inj hs
        exact handlerBody_run (σ := σ.pollDone t) hlock (he ▸ hb)
      case isFalse hne =>
        rw [if_neg fun he => hne (Option.some.inj he)]
        cases Option.some.inj hs
        exact quiet_run rfl rfl
  | sync t =>
    have hlock : σ.queues.holder w = some w := h.holder (by rw [hc]; rfl)
    have hb : (σ.queues.queue w).getLast? = some t := by
      have hown := h.placed.own w
      rw [hrole] at hown
      exact hown.1.1
    have hchildren : ((σ.pollDone t).maybeResetAbort t).hasChildren t = σ.hasChildren t := by
      simp [hasChildren]
    dsimp only [PollCaller.closure] at hs
    rw [hchildren] at hs
    refine .step hlock hb ?_
    show σ.queues.Run _ σ'.queues
    split at hs
    case isTrue hsuspend =>
      rw [hsuspend]
      cases Option.some.inj hs
      exact suspend_run hlock hb (by simp [queues]) (by simp [queues]) rfl
    case isFalse hsynced =>
      rw [Bool.eq_false_of_not_eq_true hsynced]
      cases Option.some.inj hs
      exact suspend_run hlock hb (by simp [queues]) (by simp [queues]) rfl
  | abortSlow t =>
    have hlock : σ.queues.holder w = some w := h.holder (by rw [hc]; rfl)
    cases Option.some.inj hs
    refine run_of_eq (.step hlock rfl (.nil _)) ?_ ?_ fun _ => Iff.rfl
    · simp [queues, DequeCall.apply]
    · simp [queues, DequeCall.apply]
  | closureReturn c p =>
    dsimp only at hs
    split at hs <;> cases Option.some.inj hs
    · exact quiet_run rfl rfl
    · exact quiet_run rfl rfl
  | provablyGood c p =>
    cases Option.some.inj hs
    exact quiet_run rfl rfl
  | exit r =>
    cases Option.some.inj hs
    exact quiet_run rfl rfl

/-- The deques after an inlet that aborts. -/
theorem inletAbort_run (h : σ.Sound) {k : PollCaller} {i : InletClosure}
    {rest : List InletClosure} {args : Bytes} (hc : σ.control w = .poll k) :
    σ.queues.Run
      (if σ.isRunning k.closure && !σ.atTopOfStack k.closure then σ.promoteCalls w k.closure w
        else [])
      ((((σ.setComplete k.closure rest).runInlet cfg w k.closure i).detachFromInlet cfg w
        k.closure args).startAbort w k (some i)).queues := by
  have hrunning : ((σ.setComplete k.closure rest).runInlet cfg w k.closure i).isRunning k.closure =
      σ.isRunning k.closure := by simp [isRunning]
  have htop : ((σ.setComplete k.closure rest).runInlet cfg w k.closure i).atTopOfStack k.closure =
      σ.atTopOfStack k.closure := by simp [atTopOfStack]
  unfold detachFromInlet
  rw [hrunning, htop]
  split
  case isTrue hif =>
    rw [Bool.and_eq_true, Bool.not_eq_true'] at hif
    obtain ⟨hrole, hruns⟩ := Placed.handler_of_running h hc (by simpa [isRunning] using hif.1) hif.2
    have hlock : σ.queues.holder w = some w := by
      refine h.holder ?_
      rw [hc, show (Control.poll k : Control W).role = _ from hrole]
      rfl
    rw [← List.append_nil (σ.promoteCalls w k.closure w)]
    refine run_of_eq (promote_run h hlock hruns.1 (.nil _)) ?_ ?_ ?_
    · simp [queues]
    · simp [queues]
    · intro c
      show _ ↔ Function.update σ.queues.created σ.nextClosure True c
      rw [← created_promote]
      simp
  case isFalse => exact quiet_run (by simp) (by simp)

theorem poll_run (h : σ.Sound) {a : Action W} {k : PollCaller} (hc : σ.control w = .poll k)
    (hs : step cfg (w, a) σ = some σ') : σ.queues.Run (σ.dequeCalls (w, a)) σ'.queues := by
  simp only [dequeCalls, hc]
  cases a <;> simp only [step, hc, reduceCtorEq] at hs
  case go =>
    split at hs
    · exact pollEnd_run h hc hs
    · cases hs
  case inlet abort args =>
    split at hs
    · cases hs
    dsimp only
    unfold applyInlet at hs
    dsimp only at hs
    split at hs
    case isTrue haborted =>
      rw [haborted, if_neg (by simp)]
      cases Option.some.inj hs
      exact quiet_run rfl rfl
    case isFalse haborted =>
      rw [Bool.eq_false_of_not_eq_true haborted, Bool.not_false, Bool.and_true]
      split at hs
      case isTrue habort =>
        rw [habort, Bool.true_and]
        split at hs
        · cases Option.some.inj hs
          exact inletAbort_run h hc
        · cases hs
      case isFalse habort =>
        rw [Bool.eq_false_of_not_eq_true habort, if_neg (by simp)]
        split at hs
        · cases hs
        · cases Option.some.inj hs
          refine quiet_run ?_ ?_
          · simp
          · simp

/-- The exception handler, and slow code, at the lock of the own deque. -/
theorem lockPeek_run {p : Control W} (hfree : (σ.deque w).mutexOwner = none) :
    σ.queues.Run [(.lock w w, none), (.peekBottom w w, σ.dequePeekBottom w)]
      ((σ.lockDeque w w).goto w p).queues := by
  refine run_of_eq (.step hfree rfl (.step (Function.update_self ..) rfl (.nil _))) ?_ ?_
    fun _ => Iff.rfl
  · simp [queues, DequeCall.apply]
  · simp [queues, DequeCall.apply]

theorem handlerRelock_run (h : σ.Sound) {a : Action W} {t : ClosureId} {g : FrameId} {r : Bytes}
    (hc : σ.control w = .handlerRelock t g r) (hs : step cfg (w, a) σ = some σ') :
    σ.queues.Run (σ.dequeCalls (w, a)) σ'.queues := by
  have hrole : σ.place.role w = .trapped t := congrArg Control.role hc
  have hlock : σ.queues.holder w = some w := h.holder (by rw [hc]; rfl)
  have hb : (σ.queues.queue w).getLast? = some t := by
    have hown := h.placed.own w
    rw [hrole] at hown
    exact hown.2.elim (fun hr => hr.1.1) fun hr => hr.1.1
  have hsuspends : (σ.lockClosure w t).handlerSuspends w t = σ.handlerSuspends w t := by
    simp [handlerSuspends, beingAborted, atTopOfStack, hasChildren]
  simp only [dequeCalls, hc]
  cases a <;> simp only [step, hc, reduceCtorEq] at hs
  split at hs
  · cases hs
  · cases Option.some.inj hs
    rw [← hsuspends]
    exact handlerBody_run (σ := σ.lockClosure w t) (by simpa [queues] using hlock)
      (by simpa [queues] using hb)

/-- **The calls of a step are allowed, return what the step goes on with, and
do to the deques what the step does.** -/
theorem calls_run (h : σ.Sound) {a : Action W} (hs : step cfg (w, a) σ = some σ') :
    σ.queues.Run (σ.dequeCalls (w, a)) σ'.queues := by
  have ht := transition_of_step hs
  cases ht
  case leave hc _ =>
    rcases hc with hc | hc
    · exact fetch_run hc hs
    · exact steal_run hc hs
  case fetchNone hc _ _ | fetchSome hc _ _ => exact fetch_run hc hs
  case stealNone hc _ _ _ | stealPeek hc _ _ _ => exact steal_run hc hs
  case stealAborted hc _ _ | stealReturning hc _ _ _ | stealReady hc _ _ _ |
      stealRunning hc _ _ _ => exact stealLock_run h hc hs
  case retract hc => exact retract_run h hc hs
  case promote hc => exact stealPromote_run h hc hs
  case insert hc _ => exact insert_run h hc hs
  case pollSetup hc _ | pollHandler hc _ _ _ | pollRelock hc _ _ _ | pollSuspend hc _ _ |
      pollSynced hc _ _ | pollAbortSlow hc _ | pollWait hc _ _ _ | pollReturn hc _ _ |
      pollWake hc _ | pollExit hc _ | inletDrop hc _ _ | inletApply hc _ _ _ |
      inletAbort hc _ _ _ _ => exact poll_run h hc hs
  case handlerDeque hc hfree _ | slowDeque hc hfree _ =>
    simp only [dequeCalls, hc]
    exact lockPeek_run hfree
  case handlerRelock hc _ _ => exact handlerRelock_run h hc hs
  case slowSetResult t r hc _ =>
    have hlock : σ.queues.holder w = some w := h.holder (by rw [hc]; rfl)
    simp only [dequeCalls, hc]
    refine run_of_eq (.step hlock rfl (.nil _)) ?_ ?_ fun _ => Iff.rfl
    · simp [queues, DequeCall.apply]
    · simp [queues, DequeCall.apply]
  case remove hc _ _ => exact remove_run hc hs
  case returnRunning c p i σ₁ hc _ hσ' _ =>
    simp only [dequeCalls, hc]
    cases hσ' <;> exact quiet_run (by simp) (by simp)
  case returnPoll c p i σ₁ hc _ hσ' _ =>
    simp only [dequeCalls, hc]
    cases hσ' <;> exact quiet_run (by simp) (by simp)
  case walkDone k i hc =>
    simp only [dequeCalls, hc]
    cases i <;> exact quiet_run rfl rfl
  case leaveExecute hc _ | dekkerHead hc | tooLate hc _ | inTime hc _ | finishPromote hc _ |
      abortSuspend hc _ _ _ _ | abortReturn hc _ _ _ _ | setup hc _ _ _ | collect hc _ _ |
      walkFirst hc _ | walkDown hc _ | walkUp hc | lockParent hc _ _ _ | spawn hc _ | push hc |
      returnFast hc _ | popResume hc _ | popTrap hc _ | handlerLock hc _ | unwindLast hc _ |
      unwind hc _ | callSync hc _ _ | callSetResult hc _ _ _ | callAbortSlow hc _ _ |
      slowSync hc _ | slowAbort hc _ | slowReturn hc | exit hc _ | exitRunning hc _ _ _ |
      exitPoll hc _ _ _ | finish hc _ _ _ =>
    simp only [dequeCalls, hc]
    exact quiet_run (by simp) (by simp)

end State

/-! ## The runs -/

variable [DecidableEq W] {cfg : Config} {w₀ : W} {debug : Bool}

namespace ReadyDeques

/-- The deques before the first step. -/
theorem Initial.represents {m : ReadyDeques W} (h : m.Initial debug) :
    m.Represents debug (State.init cfg w₀).queues where
  links := .empty h.top h.bottom
  created _ _ hc := absurd hc List.not_mem_nil
  mutex v := h.mutex v
  mutexOwner hd v := h.mutexOwner hd v
  ownerReadyDeque hd c hc v := by
    have hroot : c = rootClosure := Nat.lt_one_iff.mp hc
    rw [hroot, h.ownerReadyDeque hd]
    exact ⟨nofun, fun hm => absurd hm List.not_mem_nil⟩

end ReadyDeques

/-- A step of the scheduler is one of the linked scheduler. -/
theorem linkedScheduler_step (w₀ : W) (m₀ : ReadyDeques W) {m : ReadyDeques W} {a : W × Action W} {σ σ' : State W}
    (hσ : σ.Sound) (hm : m.Represents debug σ.queues) (hs : State.step cfg a σ = some σ') :
    ∃ m', (linkedScheduler debug cfg w₀ m₀).step a (σ, m) = some (σ', m') ∧
      m'.Represents debug σ'.queues := by
  obtain ⟨m', hrun, hm'⟩ := ReadyDeques.Represents.run (State.calls_run hσ hs) hm
  refine ⟨m', ?_, hm'⟩
  show (State.step cfg a σ).bind _ = _
  rw [hs, Option.bind_some]
  show (ReadyDeques.run debug _ m).bind _ = _
  rw [hrun, Option.bind_some]
  exact if_pos rfl

/-- A run of the scheduler is one of the linked scheduler. -/
theorem linkedScheduler_run {m₀ : ReadyDeques W} {as : List (W × Action W)} :
    ∀ {σ σ' : State W} {m : ReadyDeques W}, (scheduler cfg w₀).Reachable σ →
      m.Represents debug σ.queues → (scheduler cfg w₀).run as σ = some σ' →
      ∃ m', (linkedScheduler debug cfg w₀ m₀).run as (σ, m) = some (σ', m') ∧
        m'.Represents debug σ'.queues := by
  induction as with
  | nil => exact fun {σ σ' m} _ hm hrun => ⟨m, by cases hrun; rfl, Option.some.inj hrun ▸ hm⟩
  | cons a as ih =>
    intro σ σ' m hσ hm hrun
    obtain ⟨σ₁, hs, hrest⟩ := Option.bind_eq_some_iff.mp hrun
    obtain ⟨m₁, hstep, hm₁⟩ := linkedScheduler_step w₀ m₀
      (State.Sound.reachable hσ) hm hs
    obtain ⟨m', hrun', hm'⟩ := ih (hσ.step a hs) hm₁ hrest
    refine ⟨m', ?_, hm'⟩
    rw [TransitionSystem.run_cons, hstep, Option.bind_some, hrun']

/-- **The linked deques refine sequences.** Allowed calls in any order act on
links that stand for some sequences as they do on the sequences, and return
the same; what is left in the links of a closure that is in no deque plays no
part; and the calls of the scheduler are allowed in every run, so that the
links stand for its deques throughout. All this holds with and without the
assertions. -/
theorem deques_refine_sequences (debug : Bool) :
    (∀ (m : ReadyDeques W) (Q Q' : ReadyQueues W)
      (cs : List (DequeCall W × Option ClosureId)), m.Represents debug Q → Q.Run cs Q' →
      ∃ m', ReadyDeques.run debug (cs.map Prod.fst) m = some (cs.map Prod.snd, m') ∧
        m'.Represents debug Q') ∧
    (∀ (m : ReadyDeques W) (Q : ReadyQueues W) (cl : ClosureId) (next prev : Option ClosureId),
      m.Represents debug Q → (∀ v, cl ∉ Q.queue v) →
      ((m.setNextReady cl next).setPrevReady cl prev).Represents debug Q) ∧
    (∀ (cfg : Config) (w₀ : W) (m₀ : ReadyDeques W) (as : List (W × Action W)) (σ : State W),
      m₀.Initial debug → (scheduler cfg w₀).run as (scheduler cfg w₀).init = some σ →
      ∃ m, (linkedScheduler debug cfg w₀ m₀).run as (linkedScheduler debug cfg w₀ m₀).init =
          some (σ, m) ∧
        m.Represents debug σ.queues) :=
  ⟨fun _ _ _ _ hm hrun => hm.run hrun, fun _ _ _ next prev hm hcl => hm.stale hcl next prev,
    fun _ _ _ _ _ hm₀ hrun => linkedScheduler_run .init hm₀.represents hrun⟩

/-- Empty deques, and closures whose links lead to themselves. -/
def ReadyDeques.leftovers : ReadyDeques (Fin 2) where
  mutex _ := false
  mutexOwner _ := none
  top _ := none
  bottom _ := none
  nextReady c := some c
  prevReady c := some c
  ownerReadyDeque _ := none

theorem ReadyDeques.leftovers_initial : ReadyDeques.leftovers.Initial true :=
  ⟨fun _ => rfl, fun _ => rfl, fun _ => rfl, fun _ _ => rfl, fun _ => rfl⟩

/-- Closure 5 goes from one deque to the other with the link to closure 6
still in it, and the root closure is inserted. -/
theorem deques_refine_sequences_moved :
    (∃ m, ReadyDeques.run true
        [.lock 0 0, .addBottom 0 5 0, .addBottom 0 6 0, .xtractTop 0 0, .lock 0 1,
          .addBottom 0 5 1, .xtractBottom 0 1, .peekTop 0 1, .peekTop 0 0]
        ReadyDeques.leftovers =
      some ([none, none, none, some 5, none, none, some 5, none, some 6], m)) ∧
    ((ReadyDeques.leftovers.setNextReady 5 (some 6)).setPrevReady 5 none).Represents true
      ⟨fun _ => [], fun _ => none, fun _ => True⟩ ∧
    ∃ σ m, (linkedScheduler true .small (0 : Fin 2) ReadyDeques.leftovers).run
        [(0, .go), (0, .go), (0, .go)]
        (linkedScheduler true .small (0 : Fin 2) ReadyDeques.leftovers).init = some (σ, m) ∧
      m.Represents true σ.queues := by
  have hm : ReadyDeques.leftovers.Represents true
      ⟨fun _ => [], fun _ => none, fun _ => True⟩ :=
    ⟨.empty (fun _ => rfl) fun _ => rfl, fun _ _ _ => trivial, fun _ => rfl, fun _ _ => rfl,
      fun _ _ _ _ => ⟨nofun, nofun⟩⟩
  obtain ⟨hruns, hstale, hscheduler⟩ := deques_refine_sequences (W := Fin 2) true
  refine ⟨?_, hstale _ _ 5 (some 6) none hm fun _ => List.not_mem_nil, ?_⟩
  · obtain ⟨m, hrun, -⟩ := hruns _ _ _
      [(.lock 0 0, none), (.addBottom 0 5 0, none), (.addBottom 0 6 0, none),
        (.xtractTop 0 0, some 5), (.lock 0 1, none), (.addBottom 0 5 1, none),
        (.xtractBottom 0 1, some 5), (.peekTop 0 1, none), (.peekTop 0 0, some 6)] hm
      (.step rfl rfl (.step ⟨rfl, trivial, by decide⟩ rfl (.step ⟨rfl, trivial, by decide⟩ rfl
        (.step rfl rfl (.step rfl rfl (.step ⟨rfl, trivial, by decide⟩ rfl
        (.step rfl rfl (.step rfl rfl (.step rfl rfl (.nil _))))))))))
    exact ⟨m, hrun⟩
  · obtain ⟨m, hrun, hm⟩ := hscheduler .small 0 ReadyDeques.leftovers
      [(0, .go), (0, .go), (0, .go)] _ ReadyDeques.leftovers_initial rfl
    exact ⟨_, m, hrun, hm⟩

end Cilk
