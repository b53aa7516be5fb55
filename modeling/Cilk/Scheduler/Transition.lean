import Cilk.Scheduler.Step

/-!
# The transitions of the scheduler

`State.step` read as a relation: `Transition cfg w σ σ'` has one constructor
for each thing a step of worker `w` can do, with all that the step has
checked, and `Transition.of_step` is the inversion lemma. The invariants of
the scheduler are proved by cases on it and never unfold `State.step`.
-/

namespace Cilk

variable {W : Type} [DecidableEq W]

/-- What the exception handler does with the bottom closure `t`, once it has
reset the exception pointer. -/
inductive Handled (w : W) (t : ClosureId) (popped : FrameId) (result : Bytes)
    (σ : State W) : State W → Prop
  | returning (hstolen : (σ.cache w).tail ≤ (σ.cache w).head)
      (hstatus : (σ.closure t).status = .running) :
      Handled w t popped result σ (σ.handlerReturn w t popped result)
  | unwinding (hstolen : (σ.cache w).tail ≤ (σ.cache w).head)
      (hstatus : (σ.closure t).status ≠ .running) :
      Handled w t popped result σ (σ.handlerUnwind w t popped)
  | suspended (hstolen : (σ.cache w).head < (σ.cache w).tail)
      (habort : (σ.closure t).abortStatus ≠ .noAbort)
      (htop : (σ.signalImmediateException t).atTopOfStack t = true)
      (hchildren : (σ.closure t).joinCounter ≠ 0) :
      Handled w t popped result σ ((σ.signalImmediateException t).handlerSuspend w t)
  | discardLast (hstolen : (σ.cache w).head < (σ.cache w).tail)
      (habort : (σ.closure t).abortStatus ≠ .noAbort)
      (htop : (σ.signalImmediateException t).atTopOfStack t = true)
      (hchildren : (σ.closure t).joinCounter = 0) :
      Handled w t popped result σ ((σ.signalImmediateException t).handlerDiscardLast w t)
  | discard (hstolen : (σ.cache w).head < (σ.cache w).tail)
      (habort : (σ.closure t).abortStatus ≠ .noAbort)
      (htop : (σ.signalImmediateException t).atTopOfStack t = false) :
      Handled w t popped result σ ((σ.signalImmediateException t).handlerDiscard w t)
  | resumed (hstolen : (σ.cache w).head < (σ.cache w).tail)
      (habort : (σ.closure t).abortStatus = .noAbort) :
      Handled w t popped result σ (σ.handlerResume w t popped)

/-- What `complete_and_enque_inlet` does with the inlet of the child `c`. -/
inductive Enqueued (cfg : Config) (w : W) (p c : ClosureId) (i : InletClosure)
    (σ : State W) : State W → Prop
  | dropped (hsize : ((σ.closure c).returnValue.getD []).length ≤ i.argsize)
      (habort : (σ.closure c).abortStatus ≠ .noAbort) :
      Enqueued cfg w p c i σ (((σ.moveValue w c).freeInlet cfg w
        (i.withValue (σ.closure c).returnValue)).emit
        (.drop p (i.withValue (σ.closure c).returnValue)))
  | enqueued (hsize : ((σ.closure c).returnValue.getD []).length ≤ i.argsize)
      (habort : (σ.closure c).abortStatus = .noAbort) :
      Enqueued cfg w p c i σ (((σ.moveValue w c).modifyClosure p fun k => { k with
        completeInlets := i.withValue (σ.closure c).returnValue :: k.completeInlets }).emit
        (.enqueue p (i.withValue (σ.closure c).returnValue)))

/-- One step of worker `w`. -/
inductive Transition (cfg : Config) (w : W) (σ : State W) : State W → Prop
  -- the scheduler loop
  | leave (hc : σ.control w = .fetch ∨ σ.control w = .steal) (hdone : σ.done = true) :
      Transition cfg w σ (σ.goto w (.exited none))
  | leaveExecute (t : ClosureId) (hc : σ.control w = .execute t) (hdone : σ.done = true) :
      Transition cfg w σ (σ.goto w (.exited (some t)))
  | fetchNone (hc : σ.control w = .fetch) (hfree : (σ.deque w).mutexOwner = none)
      (hb : (σ.deque w).closures.getLast? = none) :
      Transition cfg w σ (σ.goto w .steal)
  | fetchSome (t : ClosureId) (hc : σ.control w = .fetch)
      (hfree : (σ.deque w).mutexOwner = none) (hb : (σ.deque w).closures.getLast? = some t) :
      Transition cfg w σ ((σ.dequeXtractBottom w t).goto w (.execute t))
  -- `Closure_steal`
  | stealNone (v : W) (hc : σ.control w = .steal) (hne : v ≠ w)
      (hfree : (σ.deque v).mutexOwner = none) (ht : (σ.deque v).closures.head? = none) :
      Transition cfg w σ σ
  | stealPeek (v : W) (cl : ClosureId) (hc : σ.control w = .steal) (hne : v ≠ w)
      (hfree : (σ.deque v).mutexOwner = none) (ht : (σ.deque v).closures.head? = some cl) :
      Transition cfg w σ ((σ.lockDeque w v).goto w (.stealLock v cl))
  | stealAborted (v : W) (cl : ClosureId) (hc : σ.control w = .stealLock v cl)
      (hfree : (σ.closure cl).mutexOwner = none)
      (habort : (σ.closure cl).abortStatus ≠ .noAbort) :
      Transition cfg w σ ((σ.unlockDeque v).goto w .steal)
  | stealReturning (v : W) (cl : ClosureId) (hc : σ.control w = .stealLock v cl)
      (hfree : (σ.closure cl).mutexOwner = none)
      (habort : (σ.closure cl).abortStatus = .noAbort)
      (hstatus : (σ.closure cl).status = .returning) :
      Transition cfg w σ ((σ.unlockDeque v).goto w .steal)
  | stealReady (v : W) (cl : ClosureId) (hc : σ.control w = .stealLock v cl)
      (hfree : (σ.closure cl).mutexOwner = none)
      (habort : (σ.closure cl).abortStatus = .noAbort)
      (hstatus : (σ.closure cl).status = .ready) :
      Transition cfg w σ ((((σ.dequeXtractTop v cl).unlockDeque v).emit (.handed w cl)).goto w
        (.execute cl))
  | stealRunning (v : W) (cl : ClosureId) (hc : σ.control w = .stealLock v cl)
      (hfree : (σ.closure cl).mutexOwner = none)
      (habort : (σ.closure cl).abortStatus = .noAbort)
      (hstatus : (σ.closure cl).status = .running) :
      Transition cfg w σ (((σ.lockClosure w cl).incrementExceptionPointer cl).goto w
        (.dekkerHead v cl))
  | dekkerHead (v : W) (cl : ClosureId) (hc : σ.control w = .dekkerHead v cl) :
      Transition cfg w σ (σ.goto w (.dekkerTail v cl (σ.cache v).head))
  | tooLate (v : W) (cl : ClosureId) (h : ℕ) (hc : σ.control w = .dekkerTail v cl h)
      (hle : (σ.cache v).tail ≤ h + 1) :
      Transition cfg w σ (σ.goto w (.retract v cl))
  | inTime (v : W) (cl : ClosureId) (h : ℕ) (hc : σ.control w = .dekkerTail v cl h)
      (hlt : h + 1 < (σ.cache v).tail) :
      Transition cfg w σ (σ.goto w (.promote v cl))
  | retract (v : W) (cl : ClosureId) (hc : σ.control w = .retract v cl) :
      Transition cfg w σ (σ.retract w v cl)
  | promote (v : W) (cl : ClosureId) (hc : σ.control w = .promote v cl) :
      Transition cfg w σ (σ.stealPromote cfg w v cl)
  | finishPromote (p c : ClosureId) (args : Bytes) (hc : σ.control w = .finishPromote p c)
      (hargs : args.length = (σ.frame (σ.frameOf p)).info.argsize) :
      Transition cfg w σ (σ.stealFinish cfg w p c args)
  -- `do_what_it_says`
  | abortSuspend (t : ClosureId) (hc : σ.control w = .execute t)
      (hfree : (σ.closure t).mutexOwner = none) (hstatus : (σ.closure t).status = .ready)
      (habort : (σ.closure t).abortStatus ≠ .noAbort)
      (hchildren : (σ.closure t).joinCounter ≠ 0) :
      Transition cfg w σ ((σ.setStatus t .suspended).goto w .fetch)
  | abortReturn (t : ClosureId) (hc : σ.control w = .execute t)
      (hfree : (σ.closure t).mutexOwner = none) (hstatus : (σ.closure t).status = .ready)
      (habort : (σ.closure t).abortStatus ≠ .noAbort)
      (hchildren : (σ.closure t).joinCounter = 0) :
      Transition cfg w σ (((σ.destroyFrame w (σ.frameOf t)).setStatus t .returning).goto w
        (.execute t))
  | setup (t : ClosureId) (hc : σ.control w = .execute t)
      (hfree : (σ.closure t).mutexOwner = none) (hstatus : (σ.closure t).status = .ready)
      (habort : (σ.closure t).abortStatus = .noAbort) :
      Transition cfg w σ (((σ.lockClosure w t).setupForExecution w t).goto w (.poll (.setup t)))
  | collect (t : ClosureId) (hc : σ.control w = .execute t)
      (hfree : (σ.closure t).mutexOwner = none) (hstatus : (σ.closure t).status = .returning) :
      Transition cfg w σ (σ.goto w (.returnLock t))
  | insert (t : ClosureId) (hc : σ.control w = .insert t)
      (hfree : (σ.deque w).mutexOwner = none) :
      Transition cfg w σ ((σ.dequeAddBottom w t).goto w .user)
  -- `poll_inlets`, at an empty list
  | pollSetup (t : ClosureId) (hc : σ.control w = .poll (.setup t))
      (hempty : (σ.closure t).completeInlets = []) :
      Transition cfg w σ (((σ.pollDone t).unlockClosure t).goto w (.insert t))
  | pollHandler (t : ClosureId) (g : FrameId) (r : Bytes) {σ' : State W}
      (hc : σ.control w = .poll (.handler t g r))
      (hempty : (σ.closure t).completeInlets = [])
      (hb : (σ.deque w).closures.getLast? = some t)
      (hσ' : Handled w t g r ((σ.pollDone t).resetExceptionPointer t) σ') :
      Transition cfg w σ σ'
  | pollRelock (t t' : ClosureId) (g : FrameId) (r : Bytes)
      (hc : σ.control w = .poll (.handler t g r))
      (hempty : (σ.closure t).completeInlets = [])
      (hb : (σ.deque w).closures.getLast? = some t') (hne : t' ≠ t) :
      Transition cfg w σ (((σ.pollDone t).unlockClosure t).goto w (.handlerRelock t' g r))
  | pollSuspend (t : ClosureId) (hc : σ.control w = .poll (.sync t))
      (hempty : (σ.closure t).completeInlets = [])
      (hchildren : (σ.closure t).joinCounter ≠ 0) :
      Transition cfg w σ ((((((σ.pollDone t).maybeResetAbort t).closureSuspend w
        t).unlockClosure t).unlockDeque w).goto w .fetch)
  | pollSynced (t : ClosureId) (hc : σ.control w = .poll (.sync t))
      (hempty : (σ.closure t).completeInlets = [])
      (hchildren : (σ.closure t).joinCounter = 0) :
      Transition cfg w σ ((((((σ.pollDone t).maybeResetAbort t).unlockClosure t).unlockDeque
        w).emit (.synced t)).goto w .user)
  | pollAbortSlow (t : ClosureId) (hc : σ.control w = .poll (.abortSlow t))
      (hempty : (σ.closure t).completeInlets = []) :
      Transition cfg w σ ((((σ.pollDone t).unlockClosure t).unlockDeque w).goto w .user)
  | pollWait (c p : ClosureId) (hc : σ.control w = .poll (.closureReturn c p))
      (hempty : (σ.closure p).completeInlets = [])
      (hchildren : (σ.closure p).joinCounter - 1 = 0)
      (hstatus : (σ.closure p).status = .suspended) :
      Transition cfg w σ (((σ.pollDone p).decrementJoin p).goto w (.poll (.provablyGood c p)))
  | pollReturn (c p : ClosureId) (hc : σ.control w = .poll (.closureReturn c p))
      (hempty : (σ.closure p).completeInlets = [])
      (hwait : (σ.closure p).joinCounter - 1 ≠ 0 ∨ (σ.closure p).status ≠ .suspended) :
      Transition cfg w σ (((σ.pollDone p).decrementJoin p).returnEnd cfg w c p .fetch)
  | pollWake (c p : ClosureId) (hc : σ.control w = .poll (.provablyGood c p))
      (hempty : (σ.closure p).completeInlets = []) :
      Transition cfg w σ ((((σ.pollDone p).makeReady p).emit (.provablyGood p)).returnEnd cfg w
        c p (.execute p))
  | pollExit (r : ClosureId) (hc : σ.control w = .poll (.exit r))
      (hempty : (σ.closure r).completeInlets = []) :
      Transition cfg w σ (((σ.pollDone r).unlockClosure r).goto w .user)
  -- `apply_inlet`
  | inletDrop (k : PollCaller) (i : InletClosure) (rest : List InletClosure)
      (hc : σ.control w = .poll k)
      (hnext : (σ.closure k.closure).completeInlets = i :: rest)
      (habort : (σ.closure k.closure).abortStatus ≠ .noAbort) :
      Transition cfg w σ (((σ.setComplete k.closure rest).freeInlet cfg w i).emit
        (.drop k.closure i))
  | inletApply (k : PollCaller) (i : InletClosure) (rest : List InletClosure)
      (hc : σ.control w = .poll k)
      (hnext : (σ.closure k.closure).completeInlets = i :: rest)
      (habort : (σ.closure k.closure).abortStatus = .noAbort)
      (hroot : ¬(k.closure = rootClosure ∧ i.inlet = true)) :
      Transition cfg w σ (((σ.setComplete k.closure rest).runInlet cfg w k.closure i).freeInlet
        cfg w i)
  | inletAbort (k : PollCaller) (i : InletClosure) (rest : List InletClosure) (args : Bytes)
      (hc : σ.control w = .poll k)
      (hnext : (σ.closure k.closure).completeInlets = i :: rest)
      (habort : (σ.closure k.closure).abortStatus = .noAbort) (hinlet : i.inlet = true)
      (hargs : args.length = (σ.frame (σ.frameOf k.closure)).info.argsize) :
      Transition cfg w σ ((((σ.setComplete k.closure rest).runInlet cfg w k.closure
        i).detachFromInlet cfg w k.closure args).startAbort w k (some i))
  -- `recursively_signal_abort`
  | walkFirst (k : PollCaller) (i : Option InletClosure) (d : ClosureId)
      (ds : List ClosureId) (hc : σ.control w = .abortWalk k i (d :: ds) [])
      (hfree : (σ.closure d).mutexOwner = none) :
      Transition cfg w σ (((σ.lockClosure w d).signalAbortHere d .abortAll).goto w
        (.abortWalk k i ds [(d, (σ.closure d).children)]))
  | walkDown (k : PollCaller) (i : Option InletClosure) (todo : List ClosureId)
      (c d : ClosureId) (ds : List ClosureId) (path : List (ClosureId × List ClosureId))
      (hc : σ.control w = .abortWalk k i todo ((c, d :: ds) :: path))
      (hfree : (σ.closure d).mutexOwner = none) :
      Transition cfg w σ (((σ.lockClosure w d).signalAbortHere d .abortAll).goto w
        (.abortWalk k i todo ((d, (σ.closure d).children) :: (c, ds) :: path)))
  | walkUp (k : PollCaller) (i : Option InletClosure) (todo : List ClosureId)
      (c : ClosureId) (path : List (ClosureId × List ClosureId))
      (hc : σ.control w = .abortWalk k i todo ((c, []) :: path)) :
      Transition cfg w σ ((σ.unlockClosure c).goto w (.abortWalk k i todo path))
  | walkDone (k : PollCaller) (i : Option InletClosure)
      (hc : σ.control w = .abortWalk k i [] []) :
      Transition cfg w σ ((σ.freeAborted cfg w i).goto w (.poll k))
  -- `Closure_return`
  | lockParent (c p : ClosureId) (i : InletClosure) (is : List InletClosure)
      (hc : σ.control w = .returnLock c) (hp : (σ.closure c).parent = some p)
      (hfree : (σ.closure p).mutexOwner = none)
      (hi : State.removeChild c (σ.closure p).incompleteInlets = some (i, is)) :
      Transition cfg w σ (((σ.lockClosure w p).modifyClosure p fun k =>
        { k with incompleteInlets := is }).goto w (.returnChild c p i))
  | returnRunning (c p : ClosureId) (i : InletClosure) {σ' : State W}
      (hc : σ.control w = .returnChild c p i) (hfree : (σ.closure c).mutexOwner = none)
      (hσ' : Enqueued cfg w p c i (σ.lockClosure w c) σ')
      (hstatus : (σ'.closure p).status = .running) :
      Transition cfg w σ (((σ'.signalImmediateException p).decrementJoin p).returnEnd cfg w c p
        .fetch)
  | returnPoll (c p : ClosureId) (i : InletClosure) {σ' : State W}
      (hc : σ.control w = .returnChild c p i) (hfree : (σ.closure c).mutexOwner = none)
      (hσ' : Enqueued cfg w p c i (σ.lockClosure w c) σ')
      (hstatus : (σ'.closure p).status ≠ .running) :
      Transition cfg w σ (σ'.goto w (.poll (.closureReturn c p)))
  -- user code, and the pop check
  | spawn (sig : ProcSig) (receiver : Bool) (info : ProcInfo) (hc : σ.control w = .user)
      (hroot : σ.topFrame w = rootFrame → (σ.frame (σ.topFrame w)).entry = .start ∧
        receiver = false ∧ info = cfg.rootInfo) :
      Transition cfg w σ (σ.storeFrame w sig receiver info)
  | push (hc : σ.control w = .pushFrame) : Transition cfg w σ (σ.pushFrame w)
  | returnFast (r : Bytes) (hc : σ.control w = .user) (hdepth : 2 ≤ σ.depth w) :
      Transition cfg w σ (σ.popFast w r)
  | popResume (g : FrameId) (r : Bytes) (hc : σ.control w = .popCheck g r)
      (hexc : (σ.cache w).exception.reached (σ.depth w) = false) :
      Transition cfg w σ (((σ.emit (.access w (σ.topFrame w))).emit
        (.resume w (σ.topFrame w) g)).goto w .user)
  | popTrap (g : FrameId) (r : Bytes) (hc : σ.control w = .popCheck g r)
      (hexc : (σ.cache w).exception.reached (σ.depth w) = true) :
      Transition cfg w σ (σ.goto w (.handlerDeque g r))
  | handlerDeque (t : ClosureId) (g : FrameId) (r : Bytes)
      (hc : σ.control w = .handlerDeque g r) (hfree : (σ.deque w).mutexOwner = none)
      (hb : (σ.deque w).closures.getLast? = some t) :
      Transition cfg w σ ((σ.lockDeque w w).goto w (.handlerLock t g r))
  | handlerLock (t : ClosureId) (g : FrameId) (r : Bytes)
      (hc : σ.control w = .handlerLock t g r) (hfree : (σ.closure t).mutexOwner = none) :
      Transition cfg w σ ((σ.lockClosure w t).goto w (.poll (.handler t g r)))
  | handlerRelock (t : ClosureId) (g : FrameId) (r : Bytes) {σ' : State W}
      (hc : σ.control w = .handlerRelock t g r) (hfree : (σ.closure t).mutexOwner = none)
      (hσ' : Handled w t g r ((σ.lockClosure w t).resetExceptionPointer t) σ') :
      Transition cfg w σ σ'
  | unwindLast (hc : σ.control w = .unwind) (hdepth : σ.depth w ≤ 1) :
      Transition cfg w σ (σ.popLast w)
  | unwind (r : Bytes) (hc : σ.control w = .unwind) (hdepth : 2 ≤ σ.depth w) :
      Transition cfg w σ (σ.popUnwound w r)
  -- slow code
  | callSync (hc : σ.control w = .user) (hdepth : σ.depth w = 1)
      (hroot : σ.topFrame w = rootFrame → (σ.frame (σ.topFrame w)).entry = .spawn) :
      Transition cfg w σ (((σ.modifyFrame (σ.topFrame w) fun k =>
        { k with entry := .sync }).emit (.access w (σ.topFrame w))).goto w (.slowDeque .sync))
  | callSetResult (r : Bytes) (hc : σ.control w = .user) (hdepth : σ.depth w = 1)
      (hroot : σ.topFrame w ≠ rootFrame) (hentry : (σ.frame (σ.topFrame w)).entry ≠ .spawn) :
      Transition cfg w σ (σ.goto w (.slowDeque (.setResult r)))
  | callAbortSlow (hc : σ.control w = .user) (hdepth : σ.depth w = 1)
      (hroot : σ.topFrame w ≠ rootFrame) :
      Transition cfg w σ (σ.goto w (.slowDeque .abortSlow))
  | slowDeque (call : SlowCall) (t : ClosureId) (hc : σ.control w = .slowDeque call)
      (hfree : (σ.deque w).mutexOwner = none) (hb : (σ.deque w).closures.getLast? = some t) :
      Transition cfg w σ ((σ.lockDeque w w).goto w (.slowLock call t))
  | slowSync (t : ClosureId) (hc : σ.control w = .slowLock .sync t)
      (hfree : (σ.closure t).mutexOwner = none) :
      Transition cfg w σ ((σ.lockClosure w t).goto w (.poll (.sync t)))
  | slowSetResult (t : ClosureId) (r : Bytes) (hc : σ.control w = .slowLock (.setResult r) t)
      (hfree : (σ.closure t).mutexOwner = none) :
      Transition cfg w σ (σ.setResult w t r)
  | slowAbort (t : ClosureId) (hc : σ.control w = .slowLock .abortSlow t)
      (hfree : (σ.closure t).mutexOwner = none) :
      Transition cfg w σ ((σ.lockClosure w t).startAbort w (.abortSlow t) none)
  | slowReturn (f : FrameId) (hc : σ.control w = .slowReturn f) :
      Transition cfg w σ (σ.slowReturn w f)
  -- `Cilk_exit`, and the end of `invoke_main`
  | exit (res : Bytes) (hc : σ.control w = .user) (hdepth : 2 ≤ σ.depth w) :
      Transition cfg w σ (σ.goto w (.exitLock res))
  | exitRunning (res args : Bytes) (hc : σ.control w = .exitLock res)
      (hfree : (σ.closure rootClosure).mutexOwner = none) (hargs : args.length = cfg.returnSize)
      (hstatus : (σ.closure rootClosure).status = .running) :
      Transition cfg w σ (((σ.enqueExit cfg w res args).signalImmediateException
        rootClosure).goto w .user)
  | exitPoll (res args : Bytes) (hc : σ.control w = .exitLock res)
      (hfree : (σ.closure rootClosure).mutexOwner = none) (hargs : args.length = cfg.returnSize)
      (hstatus : (σ.closure rootClosure).status ≠ .running) :
      Transition cfg w σ (((σ.enqueExit cfg w res args).lockClosure w rootClosure).goto w
        (.poll (.exit rootClosure)))
  | finish (hc : σ.control w = .user) (hdepth : σ.depth w = 1)
      (hroot : σ.topFrame w = rootFrame) (hentry : (σ.frame rootFrame).entry = .sync) :
      Transition cfg w σ (σ.setDone.goto w .remove)
  | remove (t : ClosureId) (hc : σ.control w = .remove) (hfree : (σ.deque w).mutexOwner = none)
      (hb : (σ.deque w).closures.getLast? = some t) :
      Transition cfg w σ (((((σ.dequeXtractBottom w t).modifyClosure t fun k =>
        { k with magic := false }).emit (.freeRoot w)).emit (.destroy t)).goto w .fetch)

namespace State

variable {cfg : Config} {w : W} {σ σ' : State W}

/-- `handlerBody` does one of the six things of `Handled`. -/
theorem handled_handlerBody {t : ClosureId} {g : FrameId} {r : Bytes} :
    Handled w t g r (σ.resetExceptionPointer t) (σ.handlerBody w t g r) := by
  -- what the handler finds is read off the state with the pointer reset
  unfold handlerBody
  generalize σ.resetExceptionPointer t = σ
  dsimp only
  have habort : (σ.signalImmediateException t).closure t = σ.closure t := rfl
  split_ifs with hstolen hrun haborted htop hchildren
  · exact .returning hstolen (by simpa [isRunning] using hrun)
  · exact .unwinding hstolen (by simpa [isRunning] using hrun)
  · refine .suspended (by omega) (by simpa [beingAborted] using haborted) htop ?_
    simpa [hasChildren, habort] using hchildren
  · refine .discardLast (by omega) (by simpa [beingAborted] using haborted) htop ?_
    simpa [hasChildren, habort] using hchildren
  · exact .discard (by omega) (by simpa [beingAborted] using haborted) (by simpa using htop)
  · exact .resumed (by omega) (by simpa [beingAborted] using haborted)

omit [DecidableEq W] in
/-- `completeAndEnqueInlet` drops the inlet or enqueues it, where the arguments
have room for the value. -/
theorem enqueued_of_completeAndEnqueInlet {p c : ClosureId} {i : InletClosure}
    (h : σ.completeAndEnqueInlet cfg w p c i = some σ') : Enqueued cfg w p c i σ σ' := by
  unfold completeAndEnqueInlet at h
  split at h
  · cases h
  case isFalse hsize =>
    dsimp only at h
    split at h <;> cases Option.some.inj h
    case isTrue habort =>
      exact .dropped (by omega) (by simpa [beingAborted] using habort)
    case isFalse habort =>
      exact .enqueued (by omega) (by simpa [beingAborted] using habort)

section Inversion

/-- `Cilk_scheduler`, at the lock of the own deque. -/
theorem transition_fetchBottom (hc : σ.control w = .fetch) (h : σ.fetchBottom w = some σ') :
    Transition cfg w σ σ' := by
  unfold fetchBottom dequePeekBottom at h
  split at h
  · cases h
  case isFalse hfree =>
    split at h <;> cases Option.some.inj h
    case h_1 hb => exact .fetchNone hc (by simpa using hfree) hb
    case h_2 t hb => exact .fetchSome t hc (by simpa using hfree) hb

/-- `Closure_steal`, at the lock of the victim's deque. -/
theorem transition_stealDeque {v : W} (hc : σ.control w = .steal)
    (h : σ.stealDeque w v = some σ') : Transition cfg w σ σ' := by
  unfold stealDeque dequePeekTop at h
  split at h
  · cases h
  case isFalse hfree =>
    obtain ⟨hne, hfree⟩ := not_or.mp hfree
    split at h <;> cases Option.some.inj h
    case h_1 ht => exact .stealNone v hc hne (by simpa using hfree) ht
    case h_2 cl ht => exact .stealPeek v cl hc hne (by simpa using hfree) ht

/-- `Closure_steal`, at the lock of the top closure: the thief gives up, takes
the closure, or goes on to `do_dekker_on`. -/
theorem transition_stealClosure {v : W} {cl : ClosureId} (hc : σ.control w = .stealLock v cl)
    (h : σ.stealClosure w v cl = some σ') : Transition cfg w σ σ' := by
  unfold stealClosure at h
  split at h
  · cases h
  case isFalse hfree =>
    have hfree : (σ.closure cl).mutexOwner = none := by simpa using hfree
    split at h
    case isTrue habort =>
      cases Option.some.inj h
      exact .stealAborted v cl hc hfree (by simpa [beingAborted] using habort)
    case isFalse habort =>
      have habort : (σ.closure cl).abortStatus = .noAbort := by
        simpa [beingAborted] using habort
      -- by the status: only ready and running closures are stolen
      split at h
      case h_1 hs =>
        cases Option.some.inj h
        exact .stealReady v cl hc hfree habort hs
      case h_2 hs =>
        cases Option.some.inj h
        exact .stealRunning v cl hc hfree habort hs
      case h_3 => cases h
      case h_4 hs =>
        cases Option.some.inj h
        exact .stealReturning v cl hc hfree habort hs

/-- `do_dekker_on`, reading the tail. -/
theorem transition_dekkerTail {v : W} {cl : ClosureId} {k : ℕ}
    (hc : σ.control w = .dekkerTail v cl k) : Transition cfg w σ (σ.dekkerTail w v cl k) := by
  unfold State.dekkerTail
  split
  case isTrue hle => exact .tooLate v cl k hc hle
  case isFalse hlt => exact .inTime v cl k hc (by omega)

/-- `do_what_it_says`, by the status of the closure. -/
theorem transition_doWhatItSays {t : ClosureId} (hc : σ.control w = .execute t)
    (h : σ.doWhatItSays w t = some σ') : Transition cfg w σ σ' := by
  unfold doWhatItSays at h
  split at h
  · cases h
  case isFalse hfree =>
    have hfree : (σ.closure t).mutexOwner = none := by simpa using hfree
    split at h
    case h_1 hs =>
      split at h <;> cases Option.some.inj h
      case isTrue habort =>
        have habort : (σ.closure t).abortStatus ≠ .noAbort := by
          simpa [beingAborted] using habort
        unfold abortReadyClosure
        split
        case isTrue hch => exact .abortSuspend t hc hfree hs habort (by simpa [hasChildren] using hch)
        case isFalse hch =>
          exact .abortReturn t hc hfree hs habort (by simpa [hasChildren] using hch)
      case isFalse habort => exact .setup t hc hfree hs (by simpa [beingAborted] using habort)
    case h_2 hs =>
      cases Option.some.inj h
      exact .collect t hc hfree hs
    all_goals cases h

/-- The end of `poll_inlets`, by its caller. -/
theorem transition_pollEnd {k : PollCaller} (hc : σ.control w = .poll k)
    (hempty : (σ.closure k.closure).completeInlets = []) (h : σ.pollEnd cfg w k = some σ') :
    Transition cfg w σ σ' := by
  cases k with
  | setup t =>
    cases Option.some.inj h
    exact .pollSetup t hc hempty
  | handler t g r =>
    unfold pollEnd dequePeekBottom at h
    dsimp only [PollCaller.closure] at h
    split at h
    · cases h
    case h_2 t' hb =>
      split at h <;> cases Option.some.inj h
      case isTrue he => exact .pollHandler t g r hc hempty (he ▸ hb) handled_handlerBody
      case isFalse hne => exact .pollRelock t t' g r hc hempty hb hne
  | sync t =>
    -- the poll leaves the join counter alone, which decides what comes next
    have hjoin : (((σ.pollDone t).maybeResetAbort t).closure t).joinCounter =
        (σ.closure t).joinCounter := by simp
    unfold pollEnd at h
    simp only [PollCaller.closure, hasChildren, hjoin] at h
    by_cases hch : (σ.closure t).joinCounter = 0
    · rw [hch] at h
      cases Option.some.inj h
      exact .pollSynced t hc hempty hch
    · rw [if_pos (by simpa using hch)] at h
      cases Option.some.inj h
      exact .pollSuspend t hc hempty hch
  | abortSlow t =>
    cases Option.some.inj h
    exact .pollAbortSlow t hc hempty
  | closureReturn c p =>
    -- the last child of a suspended parent goes on to wake it up
    have hjoin : (((σ.pollDone p).decrementJoin p).closure p).joinCounter =
        (σ.closure p).joinCounter - 1 := by simp
    have hstat : (((σ.pollDone p).decrementJoin p).closure p).status =
        (σ.closure p).status := by simp
    unfold pollEnd at h
    simp only [PollCaller.closure, hasChildren, hjoin, hstat] at h
    by_cases hw : (σ.closure p).joinCounter - 1 = 0 ∧ (σ.closure p).status = .suspended
    · rw [if_pos (by simpa using hw)] at h
      cases Option.some.inj h
      exact .pollWait c p hc hempty hw.1 hw.2
    · rw [if_neg (by simpa using hw)] at h
      cases Option.some.inj h
      exact .pollReturn c p hc hempty (not_and_or.mp hw)
  | provablyGood c p =>
    cases Option.some.inj h
    exact .pollWake c p hc hempty
  | exit r =>
    cases Option.some.inj h
    exact .pollExit r hc hempty

/-- `apply_inlet`: the inlet is dropped, aborts, or is applied. -/
theorem transition_applyInlet {k : PollCaller} {i : InletClosure} {rest : List InletClosure}
    {abort : Bool} {args : Bytes} (hc : σ.control w = .poll k)
    (hnext : (σ.closure k.closure).completeInlets = i :: rest)
    (h : σ.applyInlet cfg w k i rest abort args = some σ') : Transition cfg w σ σ' := by
  unfold applyInlet at h
  dsimp only at h
  split at h
  case isTrue habort =>
    cases Option.some.inj h
    exact .inletDrop k i rest hc hnext (by simpa [beingAborted] using habort)
  case isFalse habort =>
    have habort : (σ.closure k.closure).abortStatus = .noAbort := by
      simpa [beingAborted] using habort
    -- user code decides whether the inlet aborts
    split at h
    · split at h
      case isTrue hi =>
        cases Option.some.inj h
        exact .inletAbort k i rest args hc hnext habort hi.1 hi.2
      · cases h
    · split at h
      · cases h
      case isFalse hroot =>
        cases Option.some.inj h
        exact .inletApply k i rest hc hnext habort hroot

/-- `recursively_signal_abort`, by what is left to walk. -/
theorem transition_abortWalkStep {k : PollCaller} {i : Option InletClosure}
    {todo : List ClosureId} {path : List (ClosureId × List ClosureId)}
    (hc : σ.control w = .abortWalk k i todo path)
    (h : σ.abortWalkStep cfg w k i todo path = some σ') : Transition cfg w σ σ' := by
  unfold abortWalkStep at h
  dsimp only at h
  split at h
  case h_1 c d ds path =>
    split at h
    · cases h
    case isFalse hfree =>
      cases Option.some.inj h
      exact .walkDown k i todo c d ds path hc (by simpa using hfree)
  case h_2 c path =>
    cases Option.some.inj h
    exact .walkUp k i todo c path hc
  case h_3 d ds =>
    split at h
    · cases h
    case isFalse hfree =>
      cases Option.some.inj h
      exact .walkFirst k i d ds hc (by simpa using hfree)
  case h_4 =>
    cases Option.some.inj h
    exact .walkDone k i hc

/-- `Closure_return`, at the lock of the parent. -/
theorem transition_returnParent {c : ClosureId} (hc : σ.control w = .returnLock c)
    (h : σ.returnParent w c = some σ') : Transition cfg w σ σ' := by
  unfold returnParent at h
  split at h
  · cases h
  case h_2 p hp =>
    split at h
    · cases h
    case isFalse hfree =>
      split at h
      · cases h
      case h_2 i is hi =>
        cases Option.some.inj h
        exact .lockParent c p i is hc hp (by simpa using hfree) hi

/-- `Closure_return`, at the lock of the child. -/
theorem transition_returnChild {c p : ClosureId} {i : InletClosure}
    (hc : σ.control w = .returnChild c p i) (h : σ.returnChild cfg w c p i = some σ') :
    Transition cfg w σ σ' := by
  unfold returnChild at h
  split at h
  · cases h
  case isFalse hfree =>
    obtain ⟨σ₁, hσ₁, he⟩ := Option.map_eq_some_iff.mp h
    have henq := enqueued_of_completeAndEnqueInlet hσ₁
    split at he <;> subst he
    case isTrue hrun =>
      exact .returnRunning c p i hc (by simpa using hfree) henq (by simpa [isRunning] using hrun)
    case isFalse hrun =>
      exact .returnPoll c p i hc (by simpa using hfree) henq (by simpa [isRunning] using hrun)

/-- A call of slow code. -/
theorem transition_callSlow {call : SlowCall} (hc : σ.control w = .user)
    (h : σ.callSlow w call = some σ') : Transition cfg w σ σ' := by
  unfold callSlow at h
  dsimp only at h
  split at h
  · cases h
  case isFalse hd =>
    have hdepth : σ.depth w = 1 := by simpa using hd
    cases call with
    | sync =>
      dsimp only at h
      split at h
      case isTrue hroot =>
        cases Option.some.inj h
        exact .callSync hc hdepth hroot
      · cases h
    | setResult r =>
      dsimp only at h
      split at h
      · cases h
      case isFalse hr =>
        cases Option.some.inj h
        exact .callSetResult r hc hdepth (not_or.mp hr).1 (not_or.mp hr).2
    | abortSlow =>
      dsimp only at h
      split at h
      · cases h
      case isFalse hr =>
        cases Option.some.inj h
        exact .callAbortSlow hc hdepth hr

/-- Slow code, at the lock of the own deque. -/
theorem transition_slowDeque {call : SlowCall} (hc : σ.control w = .slowDeque call)
    (h : σ.slowDeque w call = some σ') : Transition cfg w σ σ' := by
  unfold State.slowDeque dequePeekBottom at h
  split at h
  · cases h
  case isFalse hfree =>
    obtain ⟨t, hb, rfl⟩ := Option.map_eq_some_iff.mp h
    exact .slowDeque call t hc (by simpa using hfree) hb

/-- Slow code, at the lock of the bottom closure. -/
theorem transition_slowClosure {call : SlowCall} {t : ClosureId}
    (hc : σ.control w = .slowLock call t) (h : σ.slowClosure w call t = some σ') :
    Transition cfg w σ σ' := by
  unfold slowClosure at h
  split at h
  · cases h
  case isFalse hfree =>
    have hfree : (σ.closure t).mutexOwner = none := by simpa using hfree
    cases call with
    | sync =>
      cases Option.some.inj h
      exact .slowSync t hc hfree
    | setResult r =>
      cases Option.some.inj h
      exact .slowSetResult t r hc hfree
    | abortSlow =>
      cases Option.some.inj h
      exact .slowAbort t hc hfree

/-- `Cilk_exception_handler`, at the lock of the own deque. -/
theorem transition_handlerDeque {g : FrameId} {r : Bytes} (hc : σ.control w = .handlerDeque g r)
    (h : σ.handlerDeque w g r = some σ') : Transition cfg w σ σ' := by
  unfold State.handlerDeque dequePeekBottom at h
  split at h
  · cases h
  case isFalse hfree =>
    obtain ⟨t, hb, rfl⟩ := Option.map_eq_some_iff.mp h
    exact .handlerDeque t g r hc (by simpa using hfree) hb

/-- `Cilk_exit_from_user_main`, at the lock of the root closure. -/
theorem transition_exitRoot {res args : Bytes} (hc : σ.control w = .exitLock res)
    (h : σ.exitRoot cfg w res args = some σ') : Transition cfg w σ σ' := by
  unfold exitRoot at h
  dsimp only at h
  split at h
  · cases h
  case isFalse hf =>
    obtain ⟨hfree, hargs⟩ := not_or.mp hf
    have hfree : (σ.closure rootClosure).mutexOwner = none := by simpa using hfree
    have hargs : args.length = cfg.returnSize := by simpa using hargs
    split at h <;> cases Option.some.inj h
    case isTrue hs => exact .exitRunning res args hc hfree hargs (by simpa [isRunning] using hs)
    case isFalse hs => exact .exitPoll res args hc hfree hargs (by simpa [isRunning] using hs)

/-- The end of `invoke_main_slow`. -/
theorem transition_removeRoot (hc : σ.control w = .remove) (h : σ.removeRoot w = some σ') :
    Transition cfg w σ σ' := by
  unfold removeRoot dequePeekBottom at h
  split at h
  · cases h
  case isFalse hfree =>
    obtain ⟨t, hb, rfl⟩ := Option.map_eq_some_iff.mp h
    exact .remove t hc (by simpa using hfree) hb

end Inversion

/-- **The inversion of `State.step`.** -/
theorem transition_of_step {a : Action W} (h : step cfg (w, a) σ = some σ') :
    Transition cfg w σ σ' := by
  -- one case for each pair of a program counter and an action in `step`
  unfold step at h
  dsimp only at h
  split at h
  -- the scheduler loop, and `Closure_steal`
  case h_1 hc | h_2 hc =>
    split at h
    case isTrue hd =>
      cases Option.some.inj h
      first | exact .leave (.inl hc) hd | exact .leave (.inr hc) hd
    · cases h
  case h_3 hc =>
    split at h
    case isTrue hd =>
      cases Option.some.inj h
      exact .leaveExecute _ hc hd
    · cases h
  case h_4 hc => exact transition_fetchBottom hc h
  case h_5 hc => exact transition_stealDeque hc h
  case h_6 hc => exact transition_stealClosure hc h
  case h_7 hc => cases Option.some.inj h; exact .dekkerHead _ _ hc
  case h_8 hc => cases Option.some.inj h; exact transition_dekkerTail hc
  case h_9 hc => cases Option.some.inj h; exact .retract _ _ hc
  case h_10 hc => cases Option.some.inj h; exact .promote _ _ hc
  case h_11 hc =>
    split at h
    case isTrue ha =>
      cases Option.some.inj h
      exact .finishPromote _ _ _ hc ha
    · cases h
  -- `do_what_it_says`, polls, aborts and returns
  case h_12 hc => exact transition_doWhatItSays hc h
  case h_13 hc =>
    split at h
    case isTrue hempty => exact transition_pollEnd hc hempty h
    · cases h
  case h_14 hc =>
    split at h
    · cases h
    case h_2 hnext => exact transition_applyInlet hc hnext h
  case h_15 hc => exact transition_abortWalkStep hc h
  case h_16 hc =>
    split at h <;> cases h
    case isFalse hfree => exact .insert _ hc (by simpa using hfree)
  case h_17 hc => exact transition_returnParent hc h
  case h_18 hc => exact transition_returnChild hc h
  -- user code, and the exception handler
  case h_19 hc =>
    unfold spawnFrame at h
    dsimp only at h
    split at h <;> cases h
    case isTrue hroot => exact .spawn _ _ _ hc hroot
  case h_20 hc => cases Option.some.inj h; exact .push hc
  case h_21 hc =>
    unfold returnFast at h
    split at h <;> cases h
    case isTrue hd => exact .returnFast _ hc hd
  case h_22 hc =>
    cases Option.some.inj h
    unfold popCheck
    split
    case isTrue he => exact .popTrap _ _ hc he
    case isFalse he => exact .popResume _ _ hc (by simpa using he)
  case h_23 hc => exact transition_handlerDeque hc h
  case h_24 hc =>
    split at h <;> cases h
    case isFalse hfree => exact .handlerLock _ _ _ hc (by simpa using hfree)
  case h_25 hc =>
    split at h <;> cases h
    case isFalse hfree =>
      exact .handlerRelock _ _ _ hc (by simpa using hfree) handled_handlerBody
  case h_26 hc =>
    cases Option.some.inj h
    unfold unwind
    split
    case isTrue hd => exact .unwindLast hc hd
    case isFalse hd => exact .unwind _ hc (by omega)
  -- slow code, and the end
  case h_27 hc | h_28 hc | h_29 hc => exact transition_callSlow hc h
  case h_30 hc => exact transition_slowDeque hc h
  case h_31 hc => exact transition_slowClosure hc h
  case h_32 hc => cases Option.some.inj h; exact .slowReturn _ hc
  case h_33 hc =>
    split at h <;> cases h
    case isFalse hd => exact .exit _ hc (by omega)
  case h_34 hc => exact transition_exitRoot hc h
  case h_35 hc =>
    split at h
    case isTrue hf =>
      cases Option.some.inj h
      exact .finish hc hf.1 hf.2.1 hf.2.2
    · cases h
  case h_36 hc => exact transition_removeRoot hc h
  case h_37 => cases h

end State

end Cilk
