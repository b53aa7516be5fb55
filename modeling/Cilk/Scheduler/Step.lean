import Cilk.Scheduler.State
import Cilk.TransitionSystem

/-!
# The steps of the scheduler

Each function below is a piece of a function of `runtime/sched.c` between two
of its scheduling points, under that function's name. A scheduling point is
the request of a lock, or an access to one of the two locations that are
shared without a lock: the victim's tail and its exception pointer. Every
other field is only touched under the lock of its closure or deque, so what
stands between two scheduling points can be one step: `Closure_steal` is five
steps, one for each of its two locks and the three that read the head, read
the tail and act on the comparison, and the interleavings of the model are
those of the code. What follows the release of a lock in the same step is
private to the worker.

`step` is the dispatch on the program counter. What the code leaves open –
the victim, what user code does next, whether an inlet aborts, the bytes an
inlet's arguments have – is in the `Action`. A step the runtime refuses
(`Cilk_die_internal`, `CILK_COMPLAIN`) or has to wait for is `none`.
-/

namespace Cilk

variable {W : Type} [DecidableEq W]

/-- The sizes of the runtime's own structures, and of the result of the
procedure the computation was started with. -/
structure Config where
  sizeofInvokeMainFrame : ℕ
  sizeofClosure : ℕ
  sizeofInletClosure : ℕ
  returnSize : ℕ

/-- Sizes to run examples with. -/
def Config.small : Config := ⟨64, 128, 48, 1⟩

/-- `invoke_main_sig[1]`. -/
def Config.rootInfo (cfg : Config) : ProcInfo := ⟨true, cfg.returnSize⟩

/-- The closure and the frame of `invoke_main`. -/
abbrev rootClosure : ClosureId := 0

abbrev rootFrame : FrameId := 0

/-- A choice the code leaves open. -/
inductive Action (W : Type)
  /-- The next step of runtime code. -/
  | go
  /-- The scheduler sees that the computation is done. -/
  | leave
  /-- The victim of the next steal attempt. -/
  | victim (v : W)
  /-- The inlet argument bytes `make_incomplete_inlet_closure` copies. -/
  | capture (args : Bytes)
  /-- Whether the inlet aborts, and the bytes copied if it detaches. -/
  | inlet (abort : Bool) (args : Bytes)
  /-- User code spawns a procedure, with or without a receiver. -/
  | spawn (sig : ProcSig) (receiver : Bool) (info : ProcInfo)
  /-- User code returns, from a fast clone or from a slow one. -/
  | returnFast (result : Bytes)
  | returnSlow (result : Bytes)
  /-- User code of a slow clone syncs, or aborts. -/
  | sync
  | abortSlow
  /-- User code calls `Cilk_exit`. -/
  | exit (res : Bytes)
  /-- `invoke_main` is past its sync. -/
  | finish
  /-- What an unwound activation returns. -/
  | dummy (result : Bytes)
  deriving DecidableEq, Repr

/-- The inlet of a child that returned this value, which is copied to the
front of the arguments. -/
def InletClosure.withValue (i : InletClosure) : Option Bytes → InletClosure
  | some v => { i with inletArgs := v ++ i.inletArgs.drop v.length }
  | none => i

namespace State

/-! ## Locks and deques -/

def lockClosure (σ : State W) (w : W) (c : ClosureId) : State W :=
  σ.modifyClosure c fun k => { k with mutexOwner := some w }

def unlockClosure (σ : State W) (c : ClosureId) : State W :=
  σ.modifyClosure c fun k => { k with mutexOwner := none }

def lockDeque (σ : State W) (w v : W) : State W :=
  σ.modifyDeque v fun d => { d with mutexOwner := some w }

def unlockDeque (σ : State W) (v : W) : State W :=
  σ.modifyDeque v fun d => { d with mutexOwner := none }

def dequeAddBottom (σ : State W) (v : W) (c : ClosureId) : State W :=
  (σ.modifyDeque v fun d => { d with closures := d.closures ++ [c] }).modifyClosure c
    fun k => { k with ownerReadyDeque := some v }

/-- `deque_xtract_top`, where `c` is the top. -/
def dequeXtractTop (σ : State W) (v : W) (c : ClosureId) : State W :=
  (σ.modifyDeque v fun d => { d with closures := d.closures.tail }).modifyClosure c
    fun k => { k with ownerReadyDeque := none }

/-- `deque_xtract_bottom`, where `c` is the bottom. -/
def dequeXtractBottom (σ : State W) (v : W) (c : ClosureId) : State W :=
  (σ.modifyDeque v fun d => { d with closures := d.closures.dropLast }).modifyClosure c
    fun k => { k with ownerReadyDeque := none }

def dequePeekTop (σ : State W) (v : W) : Option ClosureId :=
  (σ.deque v).closures.head?

def dequePeekBottom (σ : State W) (v : W) : Option ClosureId :=
  (σ.deque v).closures.getLast?

/-! ## Closures -/

def hasChildren (σ : State W) (c : ClosureId) : Bool :=
  (σ.closure c).joinCounter != 0

def beingAborted (σ : State W) (c : ClosureId) : Bool :=
  (σ.closure c).abortStatus != .noAbort

def isRunning (σ : State W) (c : ClosureId) : Bool :=
  (σ.closure c).status == .running

/-- `Closure_at_top_of_stack`. -/
def atTopOfStack (σ : State W) (c : ClosureId) : Bool :=
  match (σ.closure c).cache with
  | some v => (σ.cache v).head + 1 == (σ.cache v).tail
  | none => false

def incrementExceptionPointer (σ : State W) (c : ClosureId) : State W :=
  σ.modifyCacheOf c fun k => { k with exception := k.exception.increment }

def decrementExceptionPointer (σ : State W) (c : ClosureId) : State W :=
  σ.modifyCacheOf c fun k => { k with exception := k.exception.decrement }

def resetExceptionPointer (σ : State W) (c : ClosureId) : State W :=
  σ.modifyCacheOf c fun k => { k with exception := .slot k.head }

def signalImmediateException (σ : State W) (c : ClosureId) : State W :=
  σ.modifyCacheOf c fun k => { k with exception := .infinity }

/-- `Closure_make_ready`. -/
def makeReady (σ : State W) (c : ClosureId) : State W :=
  σ.modifyClosure c fun k => { k with cache := none, status := .ready }

def setStatus (σ : State W) (c : ClosureId) (s : ClosureStatus) : State W :=
  σ.modifyClosure c fun k => { k with status := s }

def maybeResetAbort (σ : State W) (c : ClosureId) : State W :=
  σ.modifyClosure c fun k =>
    { k with abortStatus := if k.abortStatus = .abortAll then k.abortStatus else .noAbort }

/-- `signal_abort`, which lowers the status only. -/
def signalAbort (σ : State W) (c : ClosureId) (s : AbortStatus) : State W :=
  σ.modifyClosure c fun k =>
    { k with abortStatus :=
        match s, k.abortStatus with
        | .abortAll, _ | _, .abortAll => .abortAll
        | .almostNoAbort, _ | _, .almostNoAbort => .almostNoAbort
        | .noAbort, .noAbort => .noAbort }

/-- One call of `recursively_signal_abort`, before it walks the children. -/
def signalAbortHere (σ : State W) (c : ClosureId) (s : AbortStatus) : State W :=
  if σ.isRunning c then (σ.signalAbort c s).signalImmediateException c else σ.signalAbort c s

section
variable (σ : State W) (c : ClosureId) (s : AbortStatus)

@[simp] theorem signalAbortHere_closure :
    (σ.signalAbortHere c s).closure = (σ.signalAbort c s).closure := by
  unfold signalAbortHere
  split <;> rfl

@[simp] theorem signalAbortHere_deque : (σ.signalAbortHere c s).deque = σ.deque := by
  unfold signalAbortHere
  split <;> rfl

@[simp] theorem signalAbortHere_control : (σ.signalAbortHere c s).control = σ.control := by
  unfold signalAbortHere
  split <;> rfl

@[simp] theorem signalAbortHere_nextClosure :
    (σ.signalAbortHere c s).nextClosure = σ.nextClosure := by
  unfold signalAbortHere
  split <;> rfl

end

/-- `Cilk_destroy_frame`, of a frame with this size in its link table. -/
def destroyFrame (σ : State W) (w : W) (f : FrameId) : State W :=
  (σ.emit (.access w f)).emit (.free w (.frame f) (σ.frame f).sig.index)

/-- `Closure_suspend`, where `c` is the bottom of the worker's deque. -/
def closureSuspend (σ : State W) (w : W) (c : ClosureId) : State W :=
  (σ.setStatus c .suspended).dequeXtractBottom w c

/-- `Closure_destroy`. -/
def closureDestroy (σ : State W) (cfg : Config) (w : W) (c : ClosureId) : State W :=
  ((σ.modifyClosure c fun k => { k with magic := false }).emit (.destroy c)).emit
    (.free w (.closure c) cfg.sizeofClosure)

/-- `move_result_into_closure`. A result of size 0 takes no block. -/
def moveResultIntoClosure (σ : State W) (w : W) (c : ClosureId) (result : Bytes) :
    State W :=
  (σ.modifyClosure c fun k =>
    { k with returnValue := if result = [] then none else some result }).emitIf
    (result != []) (.alloc w (.returnValue c) result.length)

/-! ## Promotion -/

/-- `promote_child`: the frame above the head becomes the closure that runs
on the victim's cache. The child is `σ.nextClosure`. -/
def promoteChild (σ : State W) (cfg : Config) (w : W) (parent : ClosureId) (victim : W) :
    State W :=
  let child := σ.nextClosure
  let h := (σ.cache victim).head + 1
  (((σ.newClosure
      { mutexOwner := none, joinCounter := 0, status := .running, returnValue := none,
        completeInlets := [], incompleteInlets := [], parent := some parent,
        frame := some ((σ.cache victim).stack h), abortStatus := .noAbort,
        cache := some victim, ownerReadyDeque := none, magic := true }).emit
    (.alloc w (.closure child) cfg.sizeofClosure)).modifyCache victim
    fun k => { k with head := h }).dequeAddBottom victim child

/-- `make_incomplete_inlet_closure`, with the arguments copied. -/
def makeInletClosure (σ : State W) (info : ProcInfo)
    (this : Option ClosureId) (args : Bytes) : InletClosure :=
  { id := σ.nextInlet, this := this, inlet := info.inlet, argsize := info.argsize,
    inletArgs := args }

/-- The two blocks of an inlet closure. -/
def allocInlet (σ : State W) (cfg : Config) (w : W) (i : InletClosure) : State W :=
  (σ.newInlet.emit (.alloc w (.inlet i.id) cfg.sizeofInletClosure)).emit
    (.alloc w (.inletArgs i.id) i.argsize)

def freeInlet (σ : State W) (cfg : Config) (w : W) (i : InletClosure) : State W :=
  (σ.emit (.free w (.inletArgs i.id) i.argsize)).emit
    (.free w (.inlet i.id) cfg.sizeofInletClosure)

/-- The frame of a closure, which `f->sig` and the like read through. -/
def frameOf (σ : State W) (c : ClosureId) : FrameId :=
  (σ.closure c).frame.getD rootFrame

/-- `finish_promote`, with `Closure_add_child`. -/
def finishPromote (σ : State W) (cfg : Config) (w : W) (parent child : ClosureId)
    (args : Bytes) : State W :=
  let f := σ.frameOf parent
  let i := σ.makeInletClosure (σ.frame f).info (some child) args
  (((σ.allocInlet cfg w i).emit (.access w f)).emit (.promoted parent child)).modifyClosure
    parent fun k => { k with
      joinCounter := k.joinCounter + 1
      incompleteInlets := i :: k.incompleteInlets
      cache := none
      status := .ready }

/-! ## Stealing: `Closure_steal` -/

/-- `Closure_steal`, at the lock of the victim's deque. -/
def stealDeque (σ : State W) (w v : W) : Option (State W) :=
  if v = w ∨ (σ.deque v).mutexOwner ≠ none then none
  else match σ.dequePeekTop v with
    | none => some σ
    | some cl => some ((σ.lockDeque w v).goto w (.stealLock v cl))

/-- `Closure_steal`, at the lock of the top closure. Giving up releases it
and the deque at once. -/
def stealClosure (σ : State W) (w v : W) (cl : ClosureId) : Option (State W) :=
  if (σ.closure cl).mutexOwner ≠ none then none
  else if σ.beingAborted cl then some ((σ.unlockDeque v).goto w .steal)
  else match (σ.closure cl).status with
    | .ready => some ((((σ.dequeXtractTop v cl).unlockDeque v).emit (.handed w cl)).goto w
        (.execute cl))
    | .running => some (((σ.lockClosure w cl).incrementExceptionPointer cl).goto w
        (.dekkerHead v cl))
    | .suspended => none
    | .returning => some ((σ.unlockDeque v).goto w .steal)

/-- `do_dekker_on`, reading the head. -/
def dekkerHead (σ : State W) (w v : W) (cl : ClosureId) : State W :=
  σ.goto w (.dekkerTail v cl (σ.cache v).head)

/-- `do_dekker_on`, reading the tail. -/
def dekkerTail (σ : State W) (w v : W) (cl : ClosureId) (head : ℕ) : State W :=
  if (σ.cache v).tail ≤ head + 1 then σ.goto w (.retract v cl)
  else σ.goto w (.promote v cl)

/-- `do_dekker_on`, retracting, and the end of `Closure_steal`. -/
def retract (σ : State W) (w v : W) (cl : ClosureId) : State W :=
  ((((σ.decrementExceptionPointer cl).unlockClosure cl).unlockDeque v)).goto w .steal

/-- `Closure_steal`: promote the child, detach the parent, release the
deque. -/
def stealPromote (σ : State W) (cfg : Config) (w v : W) (cl : ClosureId) : State W :=
  let h := (σ.cache v).head
  ((((σ.promoteChild cfg w cl v).dequeXtractTop v cl).unlockDeque v).emit
    (.steal w ((σ.cache v).stack h) ((σ.cache v).stack (h + 1)))).goto w
    (.finishPromote cl σ.nextClosure)

/-- `Closure_steal`: finish the promotion, and return the parent. -/
def stealFinish (σ : State W) (cfg : Config) (w : W) (cl child : ClosureId)
    (args : Bytes) : State W :=
  (((σ.finishPromote cfg w cl child args).unlockClosure cl).emit (.handed w cl)).goto w
    (.execute cl)

/-! ## Polling inlets, and abort -/

/-- `signal_abort_from_inlet`, before the walk of the children: a running
closure that is not at the top of its stack is detached first, and stays in
the deque above the child promoted. -/
def detachFromInlet (σ : State W) (cfg : Config) (w : W) (cl : ClosureId)
    (args : Bytes) : State W :=
  if σ.isRunning cl && !σ.atTopOfStack cl then
    let h := (σ.cache w).head
    ((σ.promoteChild cfg w cl w).emit
      (.detach w ((σ.cache w).stack h) ((σ.cache w).stack (h + 1)))).finishPromote cfg w cl
      σ.nextClosure args
  else σ

@[simp] theorem detachFromInlet_control (σ : State W) (cfg : Config) (w : W) (cl : ClosureId)
    (args : Bytes) : (σ.detachFromInlet cfg w cl args).control = σ.control := by
  unfold detachFromInlet
  split <;> rfl

/-- Abort is requested on a closure, at the start of the walk. -/
def startAbort (σ : State W) (w : W) (k : PollCaller) (i : Option InletClosure) : State W :=
  let σ := (σ.signalAbortHere k.closure .almostNoAbort).emit (.abort k.closure)
  σ.goto w (.abortWalk k i (σ.closure k.closure).children [])

def setComplete (σ : State W) (c : ClosureId) (is : List InletClosure) : State W :=
  σ.modifyClosure c fun k => { k with completeInlets := is }

/-- The inlet runs on the frame of the closure. `invoke_main_catch_inlet`
stores its arguments as the result of the computation. -/
def runInlet (σ : State W) (cfg : Config) (w : W) (c : ClosureId) (i : InletClosure) :
    State W :=
  ((σ.storeResult (c = rootClosure ∧ i.inlet = true) (i.inletArgs.take cfg.returnSize)).emit
    (.access w (σ.frameOf c))).emit (.apply c i)

/-- `apply_inlet`, of the next complete inlet. An inlet that aborts is freed
after the walk. The inlet of `invoke_main` always aborts. -/
def applyInlet (σ : State W) (cfg : Config) (w : W) (k : PollCaller) (i : InletClosure)
    (rest : List InletClosure) (abort : Bool) (args : Bytes) : Option (State W) :=
  let cl := k.closure
  if σ.beingAborted cl then
    some (((σ.setComplete cl rest).freeInlet cfg w i).emit (.drop cl i))
  else if abort then
    if i.inlet = true ∧ args.length = (σ.frame (σ.frameOf cl)).info.argsize then
      some ((((σ.setComplete cl rest).runInlet cfg w cl i).detachFromInlet cfg w cl
        args).startAbort w k (some i))
    else none
  else if cl = rootClosure ∧ i.inlet = true then none
  else some (((σ.setComplete cl rest).runInlet cfg w cl i).freeInlet cfg w i)

/-- The inlet that aborted is freed. -/
def freeAborted (σ : State W) (cfg : Config) (w : W) (i : Option InletClosure) : State W :=
  match i with
  | some i => σ.freeInlet cfg w i
  | none => σ

/-- `recursively_signal_abort` goes on: lock and mark the next child, return
from a call, or be done. -/
def abortWalkStep (σ : State W) (cfg : Config) (w : W) (k : PollCaller)
    (i : Option InletClosure) (todo : List ClosureId)
    (path : List (ClosureId × List ClosureId)) : Option (State W) :=
  let enter (d : ClosureId) (todo : List ClosureId)
      (path : List (ClosureId × List ClosureId)) : Option (State W) :=
    if (σ.closure d).mutexOwner ≠ none then none
    else some (((σ.lockClosure w d).signalAbortHere d .abortAll).goto w
      (.abortWalk k i todo ((d, (σ.closure d).children) :: path)))
  match path, todo with
  | (c, d :: ds) :: path, todo => enter d todo ((c, ds) :: path)
  | (c, []) :: path, todo => some ((σ.unlockClosure c).goto w (.abortWalk k i todo path))
  | [], d :: ds => enter d ds []
  | [], [] => some ((σ.freeAborted cfg w i).goto w (.poll k))

/-- The end of `Closure_return`: both locks are released and the child is
destroyed. In the code another worker can lock the parent before the child is
unlocked and destroyed. Nobody but this worker refers to the child any more,
so that half of the step reads and writes nothing that another worker does;
only an observer of `destroy` events would see that it comes later. -/
def returnEnd (σ : State W) (cfg : Config) (w : W) (child parent : ClosureId)
    (next : Control W) : State W :=
  (((σ.unlockClosure parent).unlockClosure child).closureDestroy cfg w child).goto w next

/-- `Closure_return`, `--parent->join_counter`. -/
def decrementJoin (σ : State W) (p : ClosureId) : State W :=
  σ.modifyClosure p fun k => { k with joinCounter := k.joinCounter - 1 }

/-- The number of activations on the C stack of the worker. -/
def depth (σ : State W) (w : W) : ℕ := (σ.cache w).tail

/-- The frame of the activation on top. -/
def topFrame (σ : State W) (w : W) : FrameId :=
  (σ.cache w).stack (σ.depth w - 1)

/-- The exception handler drops its locks. -/
def handlerEnd (σ : State W) (w : W) (t : ClosureId) (next : Control W) : State W :=
  ((σ.unlockClosure t).unlockDeque w).goto w next

/-- The frame below the popped one is stolen, and the closure `t` is done. -/
def handlerReturn (σ : State W) (w : W) (t : ClosureId) (popped : FrameId)
    (result : Bytes) : State W :=
  (((σ.emit (.stolenBelow w popped)).setStatus t .returning).moveResultIntoClosure w t
    result).handlerEnd w t .unwind

/-- The frame below is stolen, and `t` is already returning. -/
def handlerUnwind (σ : State W) (w : W) (t : ClosureId) (popped : FrameId) : State W :=
  (σ.emit (.stolenBelow w popped)).handlerEnd w t .unwind

/-- The closure is being aborted, and waits for its children. -/
def handlerSuspend (σ : State W) (w : W) (t : ClosureId) : State W :=
  (((σ.emit (.discard w (σ.topFrame w))).maybeResetAbort t).closureSuspend w t).handlerEnd w t
    .unwind

/-- The closure is being aborted, and this is its last frame. -/
def handlerDiscardLast (σ : State W) (w : W) (t : ClosureId) : State W :=
  (((σ.emit (.discard w (σ.topFrame w))).setStatus t .returning).destroyFrame w
    (σ.topFrame w)).handlerEnd w t .unwind

/-- The closure is being aborted, with more frames below this one. -/
def handlerDiscard (σ : State W) (w : W) (t : ClosureId) : State W :=
  ((σ.emit (.discard w (σ.topFrame w))).destroyFrame w (σ.topFrame w)).handlerEnd w t .unwind

/-- Nothing is wrong: the code below the popped frame goes on. -/
def handlerResume (σ : State W) (w : W) (t : ClosureId) (popped : FrameId) : State W :=
  (((σ.maybeResetAbort t).emit (.access w (σ.topFrame w))).emit
    (.resume w (σ.topFrame w) popped)).handlerEnd w t .user

/-- The rest of the exception handler, once the inlets are polled and `t` is
the bottom closure. -/
def handlerBody (σ : State W) (w : W) (t : ClosureId) (popped : FrameId)
    (result : Bytes) : State W :=
  let σ := σ.resetExceptionPointer t
  if (σ.cache w).tail ≤ (σ.cache w).head then
    if σ.isRunning t then σ.handlerReturn w t popped result else σ.handlerUnwind w t popped
  else if σ.beingAborted t then
    let σ := σ.signalImmediateException t
    if σ.atTopOfStack t then
      if σ.hasChildren t then σ.handlerSuspend w t else σ.handlerDiscardLast w t
    else σ.handlerDiscard w t
  else σ.handlerResume w t popped

/-- The end of `poll_inlets`, where the list is empty. -/
def pollDone (σ : State W) (c : ClosureId) : State W :=
  σ.modifyClosure c fun k =>
    { k with abortStatus := if k.abortStatus = .almostNoAbort then .noAbort else k.abortStatus }

/-- `poll_inlets` has emptied the list, and its caller goes on. -/
def pollEnd (σ : State W) (cfg : Config) (w : W) (k : PollCaller) : Option (State W) :=
  let σ := σ.pollDone k.closure
  match k with
  | .setup t => some ((σ.unlockClosure t).goto w (.insert t))
  | .handler t g r =>
    match σ.dequePeekBottom w with
    | none => none
    | some t' =>
      if t' = t then some (σ.handlerBody w t g r)
      else some ((σ.unlockClosure t).goto w (.handlerRelock t' g r))
  | .sync t =>
    let σ := σ.maybeResetAbort t
    if σ.hasChildren t then
      some ((((σ.closureSuspend w t).unlockClosure t).unlockDeque w).goto w .fetch)
    else some ((((σ.unlockClosure t).unlockDeque w).emit (.synced t)).goto w .user)
  | .abortSlow t => some (((σ.unlockClosure t).unlockDeque w).goto w .user)
  | .closureReturn c p =>
    let σ := σ.decrementJoin p
    if !σ.hasChildren p && (σ.closure p).status == .suspended then
      some (σ.goto w (.poll (.provablyGood c p)))
    else some (σ.returnEnd cfg w c p .fetch)
  | .provablyGood c p =>
    some (((σ.makeReady p).emit (.provablyGood p)).returnEnd cfg w c p (.execute p))
  | .exit r => some ((σ.unlockClosure r).goto w .user)

/-! ## `Closure_return` -/

/-- `Closure_remove_child`: the inlet of the child, and the list without. -/
def removeChild (child : ClosureId) :
    List InletClosure → Option (InletClosure × List InletClosure)
  | [] => none
  | i :: is =>
    if i.this = some child then some (i, is)
    else (removeChild child is).map fun r => (r.1, i :: r.2)

/-- `Closure_return`, at the lock of the parent. -/
def returnParent (σ : State W) (w : W) (child : ClosureId) : Option (State W) :=
  match (σ.closure child).parent with
  | none => none
  | some p =>
    if (σ.closure p).mutexOwner ≠ none then none
    else match removeChild child (σ.closure p).incompleteInlets with
      | none => none
      | some (i, is) => some (((σ.lockClosure w p).modifyClosure p fun k =>
          { k with incompleteInlets := is }).goto w (.returnChild child p i))

/-- The value of the child is moved out of it. -/
def moveValue (σ : State W) (w : W) (c : ClosureId) : State W :=
  (σ.modifyClosure c fun k => { k with returnValue := none }).emitIf
    (σ.closure c).returnValue.isSome
    (.free w (.returnValue c) ((σ.closure c).returnValue.getD []).length)

/-- `complete_and_enque_inlet`. -/
def completeAndEnqueInlet (σ : State W) (cfg : Config) (w : W) (p c : ClosureId)
    (i : InletClosure) : Option (State W) :=
  if i.argsize < ((σ.closure c).returnValue.getD []).length then none
  else
    let i := i.withValue (σ.closure c).returnValue
    if σ.beingAborted c then
      some (((σ.moveValue w c).freeInlet cfg w i).emit (.drop p i))
    else some (((σ.moveValue w c).modifyClosure p fun k =>
      { k with completeInlets := i :: k.completeInlets }).emit (.enqueue p i))

/-- `Closure_return`, at the lock of the child. -/
def returnChild (σ : State W) (cfg : Config) (w : W) (c p : ClosureId)
    (i : InletClosure) : Option (State W) :=
  if (σ.closure c).mutexOwner ≠ none then none
  else ((σ.lockClosure w c).completeAndEnqueInlet cfg w p c i).map fun σ =>
    if σ.isRunning p then
      ((σ.signalImmediateException p).decrementJoin p).returnEnd cfg w c p .fetch
    else σ.goto w (.poll (.closureReturn c p))

/-! ## `do_what_it_says` -/

/-- `setup_for_execution`. -/
def setupForExecution (σ : State W) (w : W) (t : ClosureId) : State W :=
  (((σ.modifyClosure t fun k =>
    { k with status := .running, cache := some w, abortStatus := .noAbort }).modifyCache w
    fun k => { k with
      stack := Function.update k.stack 0 (σ.frameOf t)
      head := 0
      tail := 1
      exception := .slot 0 }).emit (.access w (σ.frameOf t))).emit (.setup w t)

/-- `abort_ready_closure`, and what the scheduler does next with the closure
it returns. -/
def abortReadyClosure (σ : State W) (w : W) (t : ClosureId) : State W :=
  if σ.hasChildren t then (σ.setStatus t .suspended).goto w .fetch
  else ((σ.destroyFrame w (σ.frameOf t)).setStatus t .returning).goto w (.execute t)

/-- `do_what_it_says`, at the lock of the closure. -/
def doWhatItSays (σ : State W) (w : W) (t : ClosureId) : Option (State W) :=
  if (σ.closure t).mutexOwner ≠ none then none
  else match (σ.closure t).status with
    | .ready =>
      if σ.beingAborted t then some (σ.abortReadyClosure w t)
      else some (((σ.lockClosure w t).setupForExecution w t).goto w (.poll (.setup t)))
    | .returning => some (σ.goto w (.returnLock t))
    | .running | .suspended => none

/-- `Cilk_scheduler`, at the lock of the own deque. -/
def fetchBottom (σ : State W) (w : W) : Option (State W) :=
  if (σ.deque w).mutexOwner ≠ none then none
  else match σ.dequePeekBottom w with
    | none => some (σ.goto w .steal)
    | some t => some ((σ.dequeXtractBottom w t).goto w (.execute t))

/-! ## User code -/

/-- `Cilk_cilk2c_init_frame` up to the store of the frame. -/
def storeFrame (σ : State W) (w : W) (sig : ProcSig) (receiver : Bool) (info : ProcInfo) :
    State W :=
  let f := σ.topFrame w
  let g := σ.nextFrame
  ((((((σ.modifyFrame f fun k => { k with entry := .spawn, info := info }).emit
    (.access w f)).newFrame
      { sig := sig, receiver := receiver, entry := .start, info := ⟨false, 0⟩ }).emit
    (.alloc w (.frame g) sig.index)).modifyCache w
    fun k => { k with stack := Function.update k.stack k.tail g })).goto w .pushFrame

/-- User code spawns. `invoke_main` spawns once, without a receiver and with
entry 1 of its link table. -/
def spawnFrame (σ : State W) (cfg : Config) (w : W) (sig : ProcSig) (receiver : Bool)
    (info : ProcInfo) : Option (State W) :=
  let f := σ.topFrame w
  if f = rootFrame → (σ.frame f).entry = .start ∧ receiver = false ∧ info = cfg.rootInfo then
    some (σ.storeFrame w sig receiver info)
  else none

/-- `Cilk_cilk2c_init_frame`, the store to the tail. -/
def pushFrame (σ : State W) (w : W) : State W :=
  let n := (σ.cache w).tail
  ((σ.modifyCache w fun k => { k with tail := n + 1 }).emit
    (.spawn w ((σ.cache w).stack (n - 1)) ((σ.cache w).stack n))).goto w .user

/-- The import wrapper stores what the activation it called returns. -/
def importStore (σ : State W) (w : W) (result : Bytes) : State W :=
  σ.storeResult (σ.depth w = 2 ∧ (σ.cache w).stack 0 = rootFrame) result

/-- `Cilk_cilk2c_before_return_fast`, and the return to the activation
below. -/
def popFast (σ : State W) (w : W) (result : Bytes) : State W :=
  let g := σ.topFrame w
  (((((σ.destroyFrame w g).importStore w result).modifyCache w fun k =>
    { k with tail := k.tail - 1 }).emit (.pop w g)).goto w
    (.popCheck g (if (σ.frame g).receiver then result else [])))

def returnFast (σ : State W) (w : W) (result : Bytes) : Option (State W) :=
  if 2 ≤ σ.depth w then some (σ.popFast w result) else none

/-- `Cilk_cilk2c_pop_check`. -/
def popCheck (σ : State W) (w : W) (popped : FrameId) (result : Bytes) : State W :=
  if (σ.cache w).exception.reached (σ.depth w) then σ.goto w (.handlerDeque popped result)
  else
    ((σ.emit (.access w (σ.topFrame w))).emit (.resume w (σ.topFrame w) popped)).goto w .user

/-- The last activation returns to the scheduler. -/
def popLast (σ : State W) (w : W) : State W :=
  (σ.modifyCache w fun k => { k with tail := k.tail - 1 }).goto w .fetch

/-- `Cilk_cilk2c_pop` and the return of a dummy value, which a fast clone
that returns a structure reads from its frame. -/
def popUnwound (σ : State W) (w : W) (dummy : Bytes) : State W :=
  let f := σ.topFrame w
  (((σ.emitIf (σ.frame f).sig.dummyReturn (.access w f)).importStore w dummy).modifyCache w
    fun k => { k with tail := k.tail - 1 }).goto w (.popCheck f [])

def unwind (σ : State W) (w : W) (dummy : Bytes) : State W :=
  if σ.depth w ≤ 1 then σ.popLast w else σ.popUnwound w dummy

/-- A call of slow code. The slow clone runs at the bottom of the C stack,
and its procedure returns with its children synched. -/
def callSlow (σ : State W) (w : W) (call : SlowCall) : Option (State W) :=
  let f := σ.topFrame w
  if σ.depth w ≠ 1 then none
  else match call with
    | .sync => if f = rootFrame → (σ.frame f).entry = .spawn then
        some (((σ.modifyFrame f fun k => { k with entry := .sync }).emit (.access w f)).goto w
          (.slowDeque .sync))
      else none
    | .setResult r => if f = rootFrame ∨ (σ.frame f).entry = .spawn then none
      else some (σ.goto w (.slowDeque (.setResult r)))
    | .abortSlow => if f = rootFrame then none
      else some (σ.goto w (.slowDeque .abortSlow))

/-- At the lock of the own deque. -/
def slowDeque (σ : State W) (w : W) (call : SlowCall) : Option (State W) :=
  if (σ.deque w).mutexOwner ≠ none then none
  else (σ.dequePeekBottom w).map fun t => (σ.lockDeque w w).goto w (.slowLock call t)

/-- `Cilk_set_result`, with both locks. -/
def setResult (σ : State W) (w : W) (t : ClosureId) (r : Bytes) : State W :=
  ((((σ.modifyClosure t fun k => { k with status := .returning, frame := none
    }).moveResultIntoClosure w t r)).unlockDeque w).goto w (.slowReturn (σ.frameOf t))

/-- `Cilk_sync`, `Cilk_set_result`, `Cilk_abort_slow`, at the lock of the
bottom closure. -/
def slowClosure (σ : State W) (w : W) (call : SlowCall) (t : ClosureId) : Option (State W) :=
  if (σ.closure t).mutexOwner ≠ none then none
  else match call with
    | .sync => some ((σ.lockClosure w t).goto w (.poll (.sync t)))
    | .setResult r => some (σ.setResult w t r)
    | .abortSlow => some ((σ.lockClosure w t).startAbort w (.abortSlow t) none)

/-- `Cilk_cilk2c_before_return_slow`. -/
def slowReturn (σ : State W) (w : W) (f : FrameId) : State W :=
  ((σ.destroyFrame w f).modifyCache w fun k => { k with tail := k.tail - 1 }).goto w .fetch

/-- `Cilk_exception_handler`, at the lock of the own deque. -/
def handlerDeque (σ : State W) (w : W) (popped : FrameId) (result : Bytes) :
    Option (State W) :=
  if (σ.deque w).mutexOwner ≠ none then none
  else (σ.dequePeekBottom w).map fun t =>
    (σ.lockDeque w w).goto w (.handlerLock t popped result)

/-- `make_exit_inlet_closure`. -/
def enqueExit (σ : State W) (cfg : Config) (w : W) (res args : Bytes) : State W :=
  let i := σ.makeInletClosure cfg.rootInfo none (res ++ args.drop res.length)
  (((σ.allocInlet cfg w i).emit (.access w (σ.frameOf rootClosure))).modifyClosure rootClosure
    fun k => { k with completeInlets := i :: k.completeInlets }).emit (.enqueue rootClosure i)

/-- `Cilk_exit_from_user_main`, at the lock of the root closure. -/
def exitRoot (σ : State W) (cfg : Config) (w : W) (res args : Bytes) : Option (State W) :=
  let r := rootClosure
  if (σ.closure r).mutexOwner ≠ none ∨ args.length ≠ cfg.returnSize then none
  else if σ.isRunning r then
    some (((σ.enqueExit cfg w res args).signalImmediateException r).goto w .user)
  else some (((σ.enqueExit cfg w res args).lockClosure w r).goto w (.poll (.exit r)))

/-- The end of `invoke_main_slow`: the root closure and its frame, which
came from `malloc`, are freed. -/
def removeRoot (σ : State W) (w : W) : Option (State W) :=
  if (σ.deque w).mutexOwner ≠ none then none
  else (σ.dequePeekBottom w).map fun t =>
    ((((σ.dequeXtractBottom w t).modifyClosure t fun k => { k with magic := false }).emit
      (.freeRoot w)).emit (.destroy t)).goto w .fetch

-- `simp` reads every piece of a step as a sequence of updates
attribute [simp] lockClosure unlockClosure lockDeque unlockDeque dequeAddBottom
  dequeXtractTop dequeXtractBottom incrementExceptionPointer decrementExceptionPointer
  resetExceptionPointer signalImmediateException makeReady setStatus maybeResetAbort
  signalAbort destroyFrame closureSuspend closureDestroy moveResultIntoClosure promoteChild
  allocInlet freeInlet finishPromote retract stealPromote stealFinish startAbort setComplete
  runInlet returnEnd decrementJoin handlerEnd handlerReturn handlerUnwind handlerSuspend
  handlerDiscardLast handlerDiscard handlerResume pollDone moveValue setupForExecution
  storeFrame pushFrame popFast popLast popUnwound setResult slowReturn enqueExit
  importStore

/-! ## The step function -/

/-- **One step of a worker**: a choice the code leaves open, and the program
counter, decide what happens. -/
def step (cfg : Config) (a : W × Action W) (σ : State W) : Option (State W) :=
  let w := a.1
  match σ.control w, a.2 with
  | .fetch, .leave | .steal, .leave =>
    if σ.done then some (σ.goto w (.exited none)) else none
  | .execute t, .leave => if σ.done then some (σ.goto w (.exited (some t))) else none
  | .fetch, .go => σ.fetchBottom w
  | .steal, .victim v => σ.stealDeque w v
  | .stealLock v cl, .go => σ.stealClosure w v cl
  | .dekkerHead v cl, .go => some (σ.dekkerHead w v cl)
  | .dekkerTail v cl h, .go => some (σ.dekkerTail w v cl h)
  | .retract v cl, .go => some (σ.retract w v cl)
  | .promote v cl, .go => some (σ.stealPromote cfg w v cl)
  | .finishPromote p c, .capture args =>
    if args.length = (σ.frame (σ.frameOf p)).info.argsize then
      some (σ.stealFinish cfg w p c args)
    else none
  | .execute t, .go => σ.doWhatItSays w t
  | .poll k, .go =>
    if (σ.closure k.closure).completeInlets = [] then σ.pollEnd cfg w k else none
  | .poll k, .inlet abort args =>
    match (σ.closure k.closure).completeInlets with
    | [] => none
    | i :: rest => σ.applyInlet cfg w k i rest abort args
  | .abortWalk k i todo path, .go => σ.abortWalkStep cfg w k i todo path
  | .insert t, .go =>
    if (σ.deque w).mutexOwner ≠ none then none
    else some ((σ.dequeAddBottom w t).goto w .user)
  | .returnLock c, .go => σ.returnParent w c
  | .returnChild c p i, .go => σ.returnChild cfg w c p i
  | .user, .spawn sig receiver info => σ.spawnFrame cfg w sig receiver info
  | .pushFrame, .go => some (σ.pushFrame w)
  | .user, .returnFast r => σ.returnFast w r
  | .popCheck g r, .go => some (σ.popCheck w g r)
  | .handlerDeque g r, .go => σ.handlerDeque w g r
  | .handlerLock t g r, .go =>
    if (σ.closure t).mutexOwner ≠ none then none
    else some ((σ.lockClosure w t).goto w (.poll (.handler t g r)))
  | .handlerRelock t g r, .go =>
    if (σ.closure t).mutexOwner ≠ none then none
    else some ((σ.lockClosure w t).handlerBody w t g r)
  | .unwind, .dummy r => some (σ.unwind w r)
  | .user, .sync => σ.callSlow w .sync
  | .user, .returnSlow r => σ.callSlow w (.setResult r)
  | .user, .abortSlow => σ.callSlow w .abortSlow
  | .slowDeque call, .go => σ.slowDeque w call
  | .slowLock call t, .go => σ.slowClosure w call t
  | .slowReturn f, .go => some (σ.slowReturn w f)
  | .user, .exit res => if σ.depth w < 2 then none else some (σ.goto w (.exitLock res))
  | .exitLock res, .capture args => σ.exitRoot cfg w res args
  | .user, .finish =>
    if σ.depth w = 1 ∧ σ.topFrame w = rootFrame ∧ (σ.frame rootFrame).entry = .sync then
      some (σ.setDone.goto w .remove)
    else none
  | .remove, .go => σ.removeRoot w
  | _, _ => none

/-- The computation before its first step: the closure of `invoke_main`,
which `Cilk_create_initial_thread` made, is the local `t` of worker `w₀`. -/
def init (cfg : Config) (w₀ : W) : State W where
  closure c :=
    { mutexOwner := none, joinCounter := 0,
      status := if c = rootClosure then .ready else .returning, returnValue := none,
      completeInlets := [], incompleteInlets := [], parent := none,
      frame := if c = rootClosure then some rootFrame else none, abortStatus := .noAbort,
      cache := none, ownerReadyDeque := none, magic := decide (c = rootClosure) }
  frame _ :=
    { sig := ⟨cfg.sizeofInvokeMainFrame, false⟩, receiver := false, entry := .start,
      info := ⟨false, 0⟩ }
  cache _ := { head := 0, tail := 0, exception := .slot 0, stack := fun _ => rootFrame }
  deque _ := { mutexOwner := none, closures := [] }
  control w := if w = w₀ then .execute rootClosure else .fetch
  done := false
  result := []
  nextClosure := 1
  nextFrame := 1
  nextInlet := 0
  trace := []

end State

/-- **The scheduler as a transition system**: an action names the worker that
moves and the choices its code leaves open. -/
def scheduler (cfg : Config) (w₀ : W) : TransitionSystem (State W) (W × Action W) where
  init := State.init cfg w₀
  step := State.step cfg

end Cilk
