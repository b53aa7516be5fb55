import Mathlib.Logic.Function.Basic
import Mathlib.Data.List.Basic
import Mathlib.Tactic.Simps.Basic

/-!
# The state of the work-stealing scheduler

The data of `runtime/sched.c`: stack frames, closures with their inlet lists,
one closure cache and one ready deque for each worker. Closures, frames and
inlet closures are named by numbers handed out in order and never reused, so
a pointer is its number and the tree of closures is ordered by age.

The shared memory is completed with what the C stacks and program counters
of the workers hold. A worker's C stack needs no separate model: the
generated code pushes one entry on its frame stack for each C activation, so
activation `i` is the code that runs on `stack i`, slot `0` is the slow clone
the scheduler called, and `tail` is the number of activations left. `Control`
is the program counter, with the local variables of the runtime function it
is in.

`trace` is the only component without a counterpart in the source: the
history of what the run did, which no step reads.
-/

namespace Cilk

abbrev ClosureId := ℕ
abbrev FrameId := ℕ
abbrev InletId := ℕ
abbrev Bytes := List UInt8

/-- `enum ClosureStatus`. -/
inductive ClosureStatus
  | running
  | suspended
  | returning
  | ready
  deriving DecidableEq, Repr

/-- `enum AbortStatus`, least first. -/
inductive AbortStatus
  | abortAll
  | almostNoAbort
  | noAbort
  deriving DecidableEq, Repr

/-- The exception pointer: a slot of the frame stack, or
`EXCEPTION_INFINITY`. -/
inductive ExceptionPointer
  | slot (i : ℕ)
  | infinity
  deriving DecidableEq, Repr

namespace ExceptionPointer

/-- `++CLOSURE_EXCEPTION(cl)` unless it is `EXCEPTION_INFINITY`. -/
def increment : ExceptionPointer → ExceptionPointer
  | slot i => slot (i + 1)
  | infinity => infinity

/-- `--CLOSURE_EXCEPTION(cl)` unless it is `EXCEPTION_INFINITY`. -/
def decrement : ExceptionPointer → ExceptionPointer
  | slot i => slot (i - 1)
  | infinity => infinity

/-- The comparison `exception >= t` of `Cilk_cilk2c_pop_check`. -/
def reached (t : ℕ) : ExceptionPointer → Bool
  | slot i => decide (t ≤ i)
  | infinity => true

end ExceptionPointer

/-! ## Frames -/

/-- Entry 0 of a procedure's link table: the size of its frame, and whether
its fast clone returns a structure, for which the frame has a field
`dummy_return`. -/
structure ProcSig where
  index : ℕ
  dummyReturn : Bool
  deriving DecidableEq, Repr

/-- The entry of the link table for a spawn: whether an inlet takes the
result once the frame is stolen, and the size of the inlet's arguments, or of
the value where there is no inlet. -/
structure ProcInfo where
  inlet : Bool
  argsize : ℕ
  deriving DecidableEq, Repr

/-- Where the code of a frame is: at its beginning, at a spawn that no sync
has followed yet, or past its last sync. -/
inductive Entry
  | start
  | spawn
  | sync
  deriving DecidableEq, Repr

/-- `CilkStackFrame`. `receiver` is not in the frame but in the code of the
spawn that pushed it, which either keeps the result in a variable
(`CILK2C_XPOP_FRAME_RESULT`) or has none (`CILK2C_XPOP_FRAME_NORESULT`). -/
structure StackFrame where
  sig : ProcSig
  receiver : Bool
  entry : Entry
  info : ProcInfo
  deriving DecidableEq, Repr

/-! ## Closures -/

/-- `struct InletClosure`. The inlet `Cilk_exit` makes is no child's. -/
structure InletClosure where
  id : InletId
  this : Option ClosureId
  inlet : Bool
  argsize : ℕ
  inletArgs : Bytes
  deriving DecidableEq, Repr

/-- `struct Closure_s`. A null `return_value` is `none`, and `magic` is
whether the closure has been created and not destroyed. -/
structure Closure (W : Type) where
  mutexOwner : Option W
  joinCounter : ℕ
  status : ClosureStatus
  returnValue : Option Bytes
  completeInlets : List InletClosure
  incompleteInlets : List InletClosure
  parent : Option ClosureId
  frame : Option FrameId
  abortStatus : AbortStatus
  cache : Option W
  ownerReadyDeque : Option W
  magic : Bool
  deriving DecidableEq, Repr

/-- The children a closure still waits for: its list of incomplete inlets
is also the list of its outstanding children. -/
def Closure.children {W : Type} (k : Closure W) : List ClosureId :=
  k.incompleteInlets.filterMap InletClosure.this

/-- `CilkClosureCache`: slot `i` of the frame stack, and the three pointers
into it. -/
structure ClosureCache where
  head : ℕ
  tail : ℕ
  exception : ExceptionPointer
  stack : ℕ → FrameId

/-- `ReadyDeque`, the linked list from `top` to `bottom`. -/
structure ReadyDeque (W : Type) where
  mutexOwner : Option W
  closures : List ClosureId
  deriving DecidableEq, Repr

/-! ## Program counters -/

/-- Who called `poll_inlets`, with the locals it still needs: the returning
`child` in `Closure_return`, and in the exception handler the frame that was
popped and the value it left in `resultp`. -/
inductive PollCaller
  | setup (t : ClosureId)
  | handler (t : ClosureId) (popped : FrameId) (result : Bytes)
  | sync (t : ClosureId)
  | abortSlow (t : ClosureId)
  | closureReturn (child parent : ClosureId)
  | provablyGood (child parent : ClosureId)
  | exit (root : ClosureId)
  deriving DecidableEq, Repr

/-- The closure whose inlets are polled. -/
def PollCaller.closure : PollCaller → ClosureId
  | setup t | handler t _ _ | sync t | abortSlow t | exit t => t
  | closureReturn _ p | provablyGood _ p => p

/-- What slow code does to the closure at the bottom of its own deque. -/
inductive SlowCall
  | sync
  | setResult (result : Bytes)
  | abortSlow
  deriving DecidableEq, Repr

/-- The program counter of a worker, and the locals of the function it is
in. Each constructor is named for what the worker does next. -/
inductive Control (W : Type)
  /-- `Cilk_scheduler`: look at the own deque. -/
  | fetch
  /-- `Cilk_scheduler`: steal from some victim. -/
  | steal
  /-- `Closure_steal`: lock the top closure of the victim's deque. -/
  | stealLock (victim : W) (cl : ClosureId)
  /-- `do_dekker_on`: read the head. -/
  | dekkerHead (victim : W) (cl : ClosureId)
  /-- `do_dekker_on`: read the tail and compare. -/
  | dekkerTail (victim : W) (cl : ClosureId) (head : ℕ)
  /-- `do_dekker_on`: retract the exception, and give up. -/
  | retract (victim : W) (cl : ClosureId)
  /-- `promote_child`, and drop the victim's deque. -/
  | promote (victim : W) (cl : ClosureId)
  /-- `finish_promote`. -/
  | finishPromote (parent child : ClosureId)
  /-- `do_what_it_says`. -/
  | execute (t : ClosureId)
  /-- `poll_inlets`: look at the next complete inlet. -/
  | poll (caller : PollCaller)
  /-- `recursively_signal_abort` from the polled closure: the inlet that
  aborted, the children of the closure still to visit, and the stack of
  recursive calls, innermost first. -/
  | abortWalk (caller : PollCaller) (inlet : Option InletClosure)
      (todo : List ClosureId) (path : List (ClosureId × List ClosureId))
  /-- `do_what_it_says`: insert the closure set up into the own deque. -/
  | insert (t : ClosureId)
  /-- `Closure_return`: lock the parent. -/
  | returnLock (child : ClosureId)
  /-- `Closure_return`: lock the child, which is off its parent's list. -/
  | returnChild (child parent : ClosureId) (inlet : InletClosure)
  /-- User code, in the activation on top of the C stack. -/
  | user
  /-- `Cilk_cilk2c_init_frame`: advance the tail over the stored frame. -/
  | pushFrame
  /-- `Cilk_cilk2c_pop_check` in the activation below the popped one. -/
  | popCheck (popped : FrameId) (result : Bytes)
  /-- `Cilk_exception_handler`: lock the own deque. -/
  | handlerDeque (popped : FrameId) (result : Bytes)
  /-- `Cilk_exception_handler`: lock the bottom closure. -/
  | handlerLock (t : ClosureId) (popped : FrameId) (result : Bytes)
  /-- `Cilk_exception_handler`: lock the new bottom closure. -/
  | handlerRelock (t : ClosureId) (popped : FrameId) (result : Bytes)
  /-- `Cilk_cilk2c_pop`, and return to the activation below. -/
  | unwind
  /-- `Cilk_sync`, `Cilk_set_result`, `Cilk_abort_slow`: lock the own deque. -/
  | slowDeque (call : SlowCall)
  /-- `Cilk_sync`, `Cilk_set_result`, `Cilk_abort_slow`: lock the bottom
  closure. -/
  | slowLock (call : SlowCall) (t : ClosureId)
  /-- `Cilk_cilk2c_before_return_slow`: free the frame and return. -/
  | slowReturn (f : FrameId)
  /-- `Cilk_exit_from_user_main`: lock the root closure. -/
  | exitLock (res : Bytes)
  /-- `Cilk_remove_and_free_closure_and_frame`. -/
  | remove
  /-- The worker has left `Cilk_scheduler`, with its local `t`. -/
  | exited (t : Option ClosureId)
  deriving DecidableEq, Repr

/-! ## Histories -/

/-- The blocks the runtime allocator hands out. -/
inductive Block
  | frame (f : FrameId)
  | closure (c : ClosureId)
  | inlet (i : InletId)
  | inletArgs (i : InletId)
  | returnValue (c : ClosureId)
  deriving DecidableEq, Repr

/-- What a run did. -/
inductive Event (W : Type)
  /-- The worker took a block of this size from the allocator. -/
  | alloc (w : W) (b : Block) (size : ℕ)
  /-- The worker gave a block back as one of this size. -/
  | free (w : W) (b : Block) (size : ℕ)
  /-- `invoke_main` gave its own frame back to `malloc`. -/
  | freeRoot (w : W)
  /-- The worker read or wrote a frame. -/
  | access (w : W) (f : FrameId)
  /-- Frame `f` spawned frame `g`. -/
  | spawn (w : W) (f g : FrameId)
  /-- Frame `g` was popped. -/
  | pop (w : W) (g : FrameId)
  /-- The victim passed the pop check after `g` and goes on in `f`. -/
  | resume (w : W) (f g : FrameId)
  /-- The victim learned after popping `g` that the frame below is stolen. -/
  | stolenBelow (w : W) (g : FrameId)
  /-- The victim discarded the aborted frame `f`. -/
  | discard (w : W) (f : FrameId)
  /-- The thief detached frame `f` at its spawn of `g`. -/
  | steal (w : W) (f g : FrameId)
  /-- An aborting inlet detached frame `f` at its spawn of `g`. -/
  | detach (w : W) (f g : FrameId)
  /-- `Closure_steal` returned this closure. -/
  | handed (w : W) (c : ClosureId)
  /-- The closure was set up for execution. -/
  | setup (w : W) (c : ClosureId)
  /-- The closure became a child of its parent. -/
  | promoted (parent child : ClosureId)
  /-- The inlet was put into the complete inlets of the closure. -/
  | enqueue (c : ClosureId) (i : InletClosure)
  /-- The inlet was applied to the closure. -/
  | apply (c : ClosureId) (i : InletClosure)
  /-- The inlet was thrown away because the closure it is for, or the child
  it is of, is aborting. -/
  | drop (c : ClosureId) (i : InletClosure)
  /-- `Cilk_sync` returned 0 for the closure. -/
  | synced (c : ClosureId)
  /-- The suspended closure became ready by a provably good steal. -/
  | provablyGood (c : ClosureId)
  /-- Abort was requested on the closure. -/
  | abort (c : ClosureId)
  /-- The closure was destroyed. -/
  | destroy (c : ClosureId)
  deriving DecidableEq, Repr

/-- The scheduler, with workers `W`. -/
structure State (W : Type) where
  closure : ClosureId → Closure W
  frame : FrameId → StackFrame
  cache : W → ClosureCache
  deque : W → ReadyDeque W
  control : W → Control W
  /-- `USE_SHARED(done)`. -/
  done : Bool
  /-- The result field at the front of the argument structure. -/
  result : Bytes
  nextClosure : ClosureId
  nextFrame : FrameId
  nextInlet : InletId
  trace : List (Event W)

namespace State

variable {W : Type} [DecidableEq W]

/-! The updates every step is made of. -/

/-- One closure is changed. -/
@[simps -fullyApplied]
def modifyClosure (σ : State W) (c : ClosureId) (g : Closure W → Closure W) : State W :=
  { σ with closure := Function.update σ.closure c (g (σ.closure c)) }

/-- One stack frame is changed. -/
@[simps -fullyApplied]
def modifyFrame (σ : State W) (f : FrameId) (g : StackFrame → StackFrame) : State W :=
  { σ with frame := Function.update σ.frame f (g (σ.frame f)) }

/-- The cache of one worker is changed. -/
@[simps -fullyApplied]
def modifyCache (σ : State W) (w : W) (g : ClosureCache → ClosureCache) : State W :=
  { σ with cache := Function.update σ.cache w (g (σ.cache w)) }

/-- An access through `cl->cache`. -/
@[simps -fullyApplied]
def modifyCacheOf (σ : State W) (c : ClosureId) (g : ClosureCache → ClosureCache) :
    State W :=
  { σ with cache :=
      match (σ.closure c).cache with
      | some v => Function.update σ.cache v (g (σ.cache v))
      | none => σ.cache }

/-- The ready deque of one worker is changed. -/
@[simps -fullyApplied]
def modifyDeque (σ : State W) (w : W) (g : ReadyDeque W → ReadyDeque W) : State W :=
  { σ with deque := Function.update σ.deque w (g (σ.deque w)) }

/-- A worker goes on to another place in its code. -/
@[simps -fullyApplied]
def goto (σ : State W) (w : W) (p : Control W) : State W :=
  { σ with control := Function.update σ.control w p }

/-- The result field becomes `r`, where the condition holds. -/
@[simps -fullyApplied]
def storeResult (σ : State W) (b : Bool) (r : Bytes) : State W :=
  { σ with result := if b then r else σ.result }

@[simps -fullyApplied]
def setDone (σ : State W) : State W :=
  { σ with done := true }

/-- `Closure_create`: the next address is given out. -/
@[simps -fullyApplied]
def newClosure (σ : State W) (k : Closure W) : State W :=
  { σ with
    closure := Function.update σ.closure σ.nextClosure k
    nextClosure := σ.nextClosure + 1 }

/-- A stack frame is allocated. -/
@[simps -fullyApplied]
def newFrame (σ : State W) (k : StackFrame) : State W :=
  { σ with
    frame := Function.update σ.frame σ.nextFrame k
    nextFrame := σ.nextFrame + 1 }

/-- An inlet closure is allocated. -/
@[simps -fullyApplied]
def newInlet (σ : State W) : State W :=
  { σ with nextInlet := σ.nextInlet + 1 }

/-- An event is recorded. -/
@[simps -fullyApplied]
def emit (σ : State W) (e : Event W) : State W :=
  { σ with trace := e :: σ.trace }

/-- Record an event, where the condition holds. -/
@[simps -fullyApplied]
def emitIf (σ : State W) (b : Bool) (e : Event W) : State W :=
  { σ with trace := if b then e :: σ.trace else σ.trace }

end State

/-! ## Fields

What an invariant reads of a state is one field of all closures, caches or
deques at a time. `simp` turns the field of a record that was updated into an
update of the field. -/

/-- One field of a family of records. -/
def fieldOf {ι κ α : Type*} (f : ι → κ) (φ : κ → α) (i : ι) : α := φ (f i)

/-- A field after an update of the record is the field that is updated. -/
@[simp] theorem fieldOf_update {ι κ α : Type*} [DecidableEq ι] (f : ι → κ) (φ : κ → α) (i : ι)
    (k : κ) : fieldOf (Function.update f i k) φ = Function.update (fieldOf f φ) i (φ k) :=
  Function.comp_update ..

section Fields

variable {W : Type} (f : ClosureId → Closure W) (c : ClosureId) (g : W → ClosureCache)
  (d : W → ReadyDeque W) (w : W)

@[simp] theorem mutexOwner_closure : (f c).mutexOwner = fieldOf f Closure.mutexOwner c := rfl

@[simp] theorem joinCounter_closure :
    (f c).joinCounter = fieldOf f Closure.joinCounter c := rfl

@[simp] theorem status_closure : (f c).status = fieldOf f Closure.status c := rfl

@[simp] theorem returnValue_closure :
    (f c).returnValue = fieldOf f Closure.returnValue c := rfl

@[simp] theorem completeInlets_closure :
    (f c).completeInlets = fieldOf f Closure.completeInlets c := rfl

@[simp] theorem incompleteInlets_closure :
    (f c).incompleteInlets = fieldOf f Closure.incompleteInlets c := rfl

@[simp] theorem parent_closure : (f c).parent = fieldOf f Closure.parent c := rfl

@[simp] theorem frame_closure : (f c).frame = fieldOf f Closure.frame c := rfl

@[simp] theorem abortStatus_closure :
    (f c).abortStatus = fieldOf f Closure.abortStatus c := rfl

@[simp] theorem cache_closure : (f c).cache = fieldOf f Closure.cache c := rfl

@[simp] theorem ownerReadyDeque_closure :
    (f c).ownerReadyDeque = fieldOf f Closure.ownerReadyDeque c := rfl

@[simp] theorem magic_closure : (f c).magic = fieldOf f Closure.magic c := rfl

@[simp] theorem head_cache : (g w).head = fieldOf g ClosureCache.head w := rfl

@[simp] theorem tail_cache : (g w).tail = fieldOf g ClosureCache.tail w := rfl

@[simp] theorem exception_cache : (g w).exception = fieldOf g ClosureCache.exception w := rfl

@[simp] theorem stack_cache : (g w).stack = fieldOf g ClosureCache.stack w := rfl

@[simp] theorem mutexOwner_deque : (d w).mutexOwner = fieldOf d ReadyDeque.mutexOwner w := rfl

@[simp] theorem closures_deque : (d w).closures = fieldOf d ReadyDeque.closures w := rfl

-- the unifier also takes a cache for a family of caches, over its last field
section Cache

variable (h t : ℕ) (e : ExceptionPointer) (s : ℕ → FrameId)

@[simp] theorem fieldOf_head_mk : fieldOf (ClosureCache.mk h t e) ClosureCache.head s = h := rfl

@[simp] theorem fieldOf_tail_mk : fieldOf (ClosureCache.mk h t e) ClosureCache.tail s = t := rfl

@[simp] theorem fieldOf_exception_mk :
    fieldOf (ClosureCache.mk h t e) ClosureCache.exception s = e := rfl

@[simp] theorem fieldOf_stack_mk : fieldOf (ClosureCache.mk h t e) ClosureCache.stack s = s := rfl

end Cache

end Fields

end Cilk
