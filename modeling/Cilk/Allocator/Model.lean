import Cilk.TransitionSystem
import Cilk.Allocator.Sizes
import Mathlib.Logic.Function.Basic
import Mathlib.Data.BitVec

/-!
# The internal allocator

`internal-malloc.c` and the fast paths `cilk2c` inlines, for any number of
workers. Every worker has a free list for each bucket and the workers share
a second set of lists and a pool, under `global_im_lock`. A free list is
threaded through the blocks themselves: the first word of a free block is the
next one.

## Granularity

A call of a worker is a stack of frames, one for each C function that is
running, and a step is what the function on top does up to its next call, its
next test or its next wait for the lock. A worker's own descriptors are
private, and the shared ones are accessed inside `im_allocate_batch` and
`im_free_batch` with the lock held, so nothing that another worker could see
is skipped. That `im_allocate_batch` calls `Cilk_internal_free`, which calls
`im_free_batch` under a condition, and the same the other way round, is a
matter of what can be on the stack, and nothing here rules it out.

## The program and the system

The program calls any of the four entry points from any worker, frees a block
once, with the size it asked for, and writes what it likes into the blocks it
holds. `Cilk_malloc` is the system's: the action brings the address it
returns, which must be apart from what the system has given out (`Fresh`). A
call of it that fails is not modelled; for the pool it ends the program.
-/

namespace Cilk.Allocator

/-- Two ranges of memory, by start and length, do not overlap. -/
def Apart (a n b m : ℕ) : Prop := a + n ≤ b ∨ b + m ≤ a

instance (a n b m : ℕ) : Decidable (Apart a n b m) := inferInstanceAs (Decidable (_ ∨ _))

/-- `struct Cilk_im_descriptor`; its `length` is a statistic written at the
very end. -/
structure Descriptor where
  /-- `free_list`, with 0 for `NULL` -/
  freeList : ℕ
  /-- `count`, what can be freed before a batch has to go -/
  count : ℤ

/-- The C type `int` of the statistics. They wrap around: `used += size` is
computed as a `size_t` and cut off. -/
abbrev CInt := BitVec 32

/-- `struct Cilk_im_stats`, as far as the allocator updates it. -/
structure Stats where
  /-- `used`, in bytes -/
  used : CInt
  /-- `nmalloc` -/
  nmalloc : CInt

/-- Account for `n` more blocks with `size` bytes in all. -/
def Stats.add (st : Stats) (size n : CInt) : Stats := ⟨st.used + size, st.nmalloc + n⟩

/-- A block the program holds, with the size it asked for. -/
structure Block where
  /-- Its address. -/
  addr : ℕ
  /-- The `size` of the call that returned it. -/
  size : ℕ
  deriving DecidableEq

/-- A C function that is running. `batches` counts how often the body of its
`while` loop was entered. -/
inductive Frame
  /-- `Cilk_internal_malloc`, at the test of its loop. `request` is the size
  it was called with, `size` the canonical one. -/
  | malloc (request size : ℕ) (bucket : Bucket) (batches : ℕ)
  /-- `Cilk_internal_free`, at the test of its loop. -/
  | free (p size : ℕ) (bucket : Bucket) (batches : ℕ)
  /-- `im_allocate_batch`, at `Cilk_mutex_wait`. -/
  | allocateBatchWait (size : ℕ) (bucket : Bucket)
  /-- `im_allocate_batch`, at the test of its loop. -/
  | allocateBatch (size : ℕ) (bucket : Bucket) (i : ℕ)
  /-- `im_allocate_batch`, with what `global_im_alloc` returned. -/
  | allocateBatchGot (size : ℕ) (bucket : Bucket) (i p : ℕ)
  /-- `im_free_batch`, at `Cilk_mutex_wait`. -/
  | freeBatchWait (size : ℕ) (bucket : Bucket)
  /-- `im_free_batch`, at the test of its loop, or in the call of
  `Cilk_internal_malloc`. -/
  | freeBatch (size : ℕ) (bucket : Bucket) (i : ℕ)
  /-- `im_free_batch`, with what `Cilk_internal_malloc` returned. -/
  | freeBatchGot (size : ℕ) (bucket : Bucket) (i p : ℕ)
  deriving DecidableEq

/-- The memory, the allocator's variables, and what every worker is doing. -/
structure State (W : Type*) where
  /-- The first word of every block, and the words of the program. -/
  mem : ℕ → ℕ
  /-- `ws->im_descriptor` -/
  imDescriptor : W → Bucket → Descriptor
  /-- `im_info` -/
  imInfo : W → Stats
  /-- `global_im_descriptor` -/
  globalImDescriptor : Bucket → Descriptor
  /-- `global_im_info` -/
  globalImInfo : Stats
  /-- The owner of `global_im_lock`. -/
  globalImLock : Option W
  /-- `global_pool_begin` -/
  globalPoolBegin : ℕ
  /-- `global_pool_end` -/
  globalPoolEnd : ℕ
  /-- `alloc_list`, up to `alloc_list_index`, latest chunk first. -/
  allocList : List ℕ
  /-- `alloc_list_size` -/
  allocListSize : ℕ
  /-- `im_allocated` -/
  imAllocated : CInt
  /-- `im_wasted` -/
  imWasted : CInt
  /-- The functions a worker is in, innermost first. -/
  stack : W → List Frame
  /-- The blocks the program holds. -/
  live : List Block
  /-- Which blocks were ever cut from the pool, and for which bucket. -/
  carved : ℕ → Option Bucket

variable {W : Type*}

namespace State

/-- `Cilk_internal_malloc_global_init`, `Cilk_internal_malloc_global_init_2`
and `Cilk_internal_malloc_per_worker_init`. -/
def initial (cfg : Config) (mem : ℕ → ℕ) : State W where
  mem := mem
  imDescriptor := fun _ _ => ⟨0, cfg.allocBatchSize⟩
  imInfo := fun _ => ⟨0, 0⟩
  globalImDescriptor := fun _ => ⟨0, cfg.allocBatchSize⟩
  globalImInfo := ⟨0, 0⟩
  globalImLock := none
  globalPoolBegin := 0
  globalPoolEnd := 0
  allocList := []
  allocListSize := defaultAllocListSize
  imAllocated := 0
  imWasted := 0
  stack := fun _ => []
  live := []
  carved := fun _ => none

/-- What the system's allocator promises of a range it returns: it is apart
from the chunks and the large blocks it has given out. -/
def Fresh (s : State W) (p n : ℕ) : Prop :=
  0 < p ∧ (∀ c ∈ s.allocList, Apart p n c chunk) ∧
    ∀ b ∈ s.live, threshold < b.size → Apart p n b.addr b.size

instance (s : State W) (p n : ℕ) : Decidable (s.Fresh p n) :=
  inferInstanceAs (Decidable (_ ∧ _ ∧ _))

/-- `extend_global_pool`, where `Cilk_malloc` returned `p`. -/
def extendGlobalPool (s : State W) (p : ℕ) : State W :=
  { s with
    globalPoolBegin := p
    globalPoolEnd := p + chunk
    imAllocated := s.imAllocated + chunk
    allocListSize :=
      if s.allocListSize ≤ s.allocList.length then s.allocListSize + defaultAllocListSize
      else s.allocListSize
    allocList := p :: s.allocList }

/-- Cut a block off the pool. -/
def carve (s : State W) (size : ℕ) (bucket : Bucket) : State W × ℕ :=
  ({ s with
      globalPoolBegin := s.globalPoolBegin + size
      carved := Function.update s.carved s.globalPoolBegin (some bucket) }, s.globalPoolBegin)

/-- `global_im_alloc`; `p` is what `Cilk_malloc` returns if it is called. -/
def globalImAlloc (s : State W) (size : ℕ) (bucket : Bucket) (p : ℕ) : Option (State W × ℕ) :=
  let s := { s with globalImInfo := s.globalImInfo.add size 1 }
  let d := s.globalImDescriptor bucket
  if d.freeList ≠ 0 then
    some ({ s with
      globalImDescriptor := Function.update s.globalImDescriptor bucket
        ⟨s.mem d.freeList, d.count + 1⟩ }, d.freeList)
  else if s.globalPoolBegin + size > s.globalPoolEnd then
    if s.Fresh p chunk then
      let s := { s with imWasted := s.imWasted + (s.globalPoolEnd - s.globalPoolBegin : CInt) }
      some ((s.extendGlobalPool p).carve size bucket)
    else none
  else some (s.carve size bucket)

/-- `global_im_free` -/
def globalImFree (s : State W) (p size : ℕ) (bucket : Bucket) : State W :=
  let d := s.globalImDescriptor bucket
  { s with
    globalImInfo := s.globalImInfo.add (-size) (-1)
    mem := Function.update s.mem p d.freeList
    globalImDescriptor := Function.update s.globalImDescriptor bucket ⟨p, d.count - 1⟩ }

variable [DecidableEq W]

/-- Worker `w` goes on with the frames `fs`. -/
def goto (s : State W) (w : W) (fs : List Frame) : State W :=
  { s with stack := Function.update s.stack w fs }

/-- Worker `w` accounts for `n` more blocks with `size` bytes in all. -/
def account (s : State W) (w : W) (size n : CInt) : State W :=
  { s with imInfo := Function.update s.imInfo w ((s.imInfo w).add size n) }

/-- Replace a descriptor of worker `w`. -/
def setImDescriptor (s : State W) (w : W) (bucket : Bucket) (d : Descriptor) : State W :=
  { s with
    imDescriptor := Function.update s.imDescriptor w
      (Function.update (s.imDescriptor w) bucket d) }

/-- Take the first block off a free list of worker `w`. -/
def take (s : State W) (w : W) (bucket : Bucket) : State W :=
  let d := s.imDescriptor w bucket
  s.setImDescriptor w bucket ⟨s.mem d.freeList, d.count + 1⟩

/-- Put block `p` in front of a free list of worker `w`. -/
def put (s : State W) (w : W) (bucket : Bucket) (p : ℕ) : State W :=
  let d := s.imDescriptor w bucket
  { s with mem := Function.update s.mem p d.freeList }.setImDescriptor w bucket ⟨p, d.count - 1⟩

/-- A call of `Cilk_internal_malloc` returns `p` to the frames `fs`: to
`im_free_batch`, or to the program. -/
def mallocReturn (s : State W) (w : W) (p request : ℕ) : List Frame → Option (State W)
  | [] => some ({ s with live := ⟨p, request⟩ :: s.live }.goto w [])
  | .freeBatch size bucket i :: fs => some (s.goto w (.freeBatchGot size bucket i p :: fs))
  | _ => none

/-- `Cilk_internal_malloc`, up to the test of its loop, called by the frames
`fs`; `p` is what `Cilk_malloc` returns if it is called. -/
def callMalloc (cfg : Config) (s : State W) (w : W) (size p : ℕ) (fs : List Frame) :
    Option (State W) :=
  let s := s.account w size 1
  if size > threshold then
    if s.Fresh p size then s.mallocReturn w p size fs else none
  else
    (canonicalize cfg size).bind fun canonical =>
      (sizeToBucket cfg canonical).map fun bucket =>
        s.goto w (.malloc size canonical bucket 0 :: fs)

/-- `Cilk_internal_free`, up to the test of its loop, called by the frames
`fs`. -/
def callFree (cfg : Config) (s : State W) (w : W) (p size : ℕ) (fs : List Frame) :
    Option (State W) :=
  let s := s.account w (-size) (-1)
  if size > threshold then some (s.goto w fs)
  else (sizeToBucket cfg size).map fun bucket => s.goto w (.free p size bucket 0 :: fs)

/-- The function worker `w` is in goes on. -/
def advance (cfg : Config) (s : State W) (w : W) (p : ℕ) : Option (State W) :=
  match s.stack w with
  | [] => none
  | .malloc request size bucket n :: fs =>
    let mem := (s.imDescriptor w bucket).freeList
    if mem = 0 then
      some (s.goto w (.allocateBatchWait size bucket :: .malloc request size bucket (n + 1) :: fs))
    else (s.take w bucket).mallocReturn w mem request fs
  | .free q size bucket n :: fs =>
    if (s.imDescriptor w bucket).count ≤ 0 then
      some (s.goto w (.freeBatchWait size bucket :: .free q size bucket (n + 1) :: fs))
    else some ((s.put w bucket q).goto w fs)
  | .allocateBatchWait size bucket :: fs =>
    if s.globalImLock = none then
      some ({ s with globalImLock := some w }.goto w (.allocateBatch size bucket 0 :: fs))
    else none
  | .allocateBatch size bucket i :: fs =>
    if i < cfg.allocBatchSize / 2 then
      (s.globalImAlloc size bucket p).map fun r =>
        r.1.goto w (.allocateBatchGot size bucket i r.2 :: fs)
    else some ({ s with globalImLock := none }.goto w fs)
  | .allocateBatchGot size bucket i q :: fs =>
    s.callFree cfg w q size (.allocateBatch size bucket (i + 1) :: fs)
  | .freeBatchWait size bucket :: fs =>
    if s.globalImLock = none then
      some ({ s with globalImLock := some w }.goto w (.freeBatch size bucket 0 :: fs))
    else none
  | .freeBatch size bucket i :: fs =>
    if i < cfg.allocBatchSize / 2 then
      s.callMalloc cfg w size p (.freeBatch size bucket i :: fs)
    else some ({ s with globalImLock := none }.goto w fs)
  | .freeBatchGot size bucket i q :: fs =>
    some ((s.globalImFree q size bucket).goto w (.freeBatch size bucket (i + 1) :: fs))

/-- `Cilk_internal_malloc_fast`, which returns at once or calls
`Cilk_internal_malloc`. -/
def mallocFast (cfg : Config) (s : State W) (w : W) (size p : ℕ) : Option (State W) :=
  if size > threshold then s.callMalloc cfg w size p []
  else
    (sizeToBucket cfg size).bind fun bucket =>
      let mem := (s.imDescriptor w bucket).freeList
      if mem ≠ 0 then ((s.take w bucket).account w size 1).mallocReturn w mem size []
      else s.callMalloc cfg w size p []

/-- `Cilk_internal_free_fast`, which returns at once or calls
`Cilk_internal_free`. -/
def freeFast (cfg : Config) (s : State W) (w : W) (p size : ℕ) : Option (State W) :=
  if size > threshold then s.callFree cfg w p size []
  else
    (sizeToBucket cfg size).bind fun bucket =>
      if (s.imDescriptor w bucket).count ≤ 0 then s.callFree cfg w p size []
      else some ((s.put w bucket p).account w (-size) (-1))

/-- The program gives up a block it holds. -/
def release (s : State W) (b : Block) : State W := { s with live := s.live.erase b }

end State

/-- What can happen next. The address `p` is what `Cilk_malloc` returns if
the step calls it. -/
inductive Action (W : Type*)
  /-- Worker `w` calls `Cilk_internal_malloc`. -/
  | malloc (w : W) (size p : ℕ)
  /-- Worker `w` calls `Cilk_internal_malloc_fast`. -/
  | mallocFast (w : W) (size p : ℕ)
  /-- Worker `w` calls `Cilk_internal_free` on a block of the program. -/
  | free (w : W) (b : Block)
  /-- Worker `w` calls `Cilk_internal_free_fast` on a block of the program. -/
  | freeFast (w : W) (b : Block)
  /-- The call worker `w` is in goes on. -/
  | advance (w : W) (p : ℕ)
  /-- The program writes into a block it holds. -/
  | write (b : Block) (contents : ℕ → ℕ)

variable [DecidableEq W]

open Allocator.State

/-- One step of some worker or of the program. -/
def step (cfg : Config) : Action W → State W → Option (State W)
  | .malloc w size p, s => if s.stack w = [] then s.callMalloc cfg w size p [] else none
  | .mallocFast w size p, s => if s.stack w = [] then s.mallocFast cfg w size p else none
  | .free w b, s =>
    if s.stack w = [] ∧ b ∈ s.live then (s.release b).callFree cfg w b.addr b.size [] else none
  | .freeFast w b, s =>
    if s.stack w = [] ∧ b ∈ s.live then (s.release b).freeFast cfg w b.addr b.size else none
  | .advance w p, s => s.advance cfg w p
  | .write b contents, s =>
    if b ∈ s.live then
      some { s with
        mem := fun a => if b.addr ≤ a ∧ a < b.addr + b.size then contents a else s.mem a }
    else none

/-- **The allocator**, with the workers of `W` and a program that pairs its
calls. -/
def allocator (cfg : Config) (mem : ℕ → ℕ) : TransitionSystem (State W) (Action W) where
  init := .initial cfg mem
  step := step cfg

end Cilk.Allocator
