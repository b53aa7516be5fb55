import Cilk.Allocator.Books
import Cilk.Mutex
import Mathlib.Algebra.BigOperators.Pi
import Mathlib.Algebra.BigOperators.Fin
import Mathlib.Tactic.LinearCombination

/-!
# The invariant of the allocator

`Shape` lists what can be on the stack of a worker: a call of
`Cilk_internal_malloc` with at most one `im_allocate_batch` inside it, whose
calls of `Cilk_internal_free` go no further, and the same the other way
round. Each shape comes with the length of the worker's free list there,
which is the quantitative half of the argument: a refill starts from an empty
list and puts half a batch on it, a drain starts from a full one and takes
half a batch off.

`Sound` is the invariant of the whole allocator, over a ledger that is not
part of the state.
-/

namespace Cilk.Allocator

open Allocator.State

variable {W : Type*}

/-- How many blocks a batch moves. -/
abbrev Config.half (cfg : Config) : ℕ := cfg.allocBatchSize / 2

theorem Config.half_pos (cfg : Config) : 0 < cfg.half := by
  have := cfg.le_allocBatchSize
  simp only [Config.half]
  omega

theorem Config.half_lt (cfg : Config) : cfg.half < cfg.allocBatchSize := by
  have := cfg.le_allocBatchSize
  simp only [Config.half]
  omega

/-- The block a function has in its hands. -/
def Frame.hand : Frame → List ℕ
  | .free p _ _ _ | .allocateBatchGot _ _ _ p | .freeBatchGot _ _ _ p => [p]
  | _ => []

/-- The blocks a call has in its hands. -/
def hands (fs : List Frame) : List ℕ := fs.flatMap Frame.hand

/-- The function holds `global_im_lock`. -/
def Frame.locked : Frame → Bool
  | .allocateBatch .. | .allocateBatchGot .. | .freeBatch .. | .freeBatchGot .. => true
  | _ => false

/-- The call holds `global_im_lock`. -/
def locked (fs : List Frame) : Bool := fs.any Frame.locked

/-- What a function has accounted for and not handed on yet. -/
def Frame.owed : Frame → CInt × CInt
  | .malloc request _ _ _ => (request, 1)
  | .allocateBatchGot size _ _ _ | .freeBatchGot size _ _ _ => (size, 1)
  | _ => 0

/-- The steps a call has left to take, waits for the lock apart. -/
def remaining (cfg : Config) : List Frame → ℕ
  | [.malloc _ _ _ 0] | [.free _ _ _ 0] => 3 * cfg.half + 4
  | [.malloc _ _ _ _] | [.free _ _ _ _] => 1
  | .allocateBatchWait _ _ :: _ | .freeBatchWait _ _ :: _ => 3 * cfg.half + 3
  | .allocateBatch _ _ i :: _ | .freeBatch _ _ i :: _ => 3 * (cfg.half - i) + 2
  | .allocateBatchGot _ _ i _ :: _ | .malloc _ _ _ _ :: .freeBatch _ _ i :: _ =>
    3 * (cfg.half - i) + 1
  | .free _ _ _ _ :: .allocateBatch _ _ i :: _ => 3 * (cfg.half - i) + 3
  | .freeBatchGot _ _ i _ :: _ => 3 * (cfg.half - i)
  | _ => 0

/-- **What can be on the stack of a worker**, by the length `len` of its free
list for the bucket of the call. -/
inductive Shape (cfg : Config) (len : Bucket → ℕ) (carved : ℕ → Option Bucket) :
    List Frame → Prop
  /-- Outside a call. -/
  | idle : Shape cfg len carved []
  | malloc {r : ℕ} {b : Bucket} (hr : sizeToBucket cfg r = some b) :
      Shape cfg len carved [.malloc r (bucketToSize b) b 0]
  /-- After the refill half a batch is there. -/
  | refilled {r : ℕ} {b : Bucket} (hr : sizeToBucket cfg r = some b) (hlen : len b = cfg.half) :
      Shape cfg len carved [.malloc r (bucketToSize b) b 1]
  /-- A refill starts from an empty list. -/
  | allocateWait {r : ℕ} {b : Bucket} (hr : sizeToBucket cfg r = some b) (hlen : len b = 0) :
      Shape cfg len carved
        [.allocateBatchWait (bucketToSize b) b, .malloc r (bucketToSize b) b 1]
  | allocate {r i : ℕ} {b : Bucket} (hr : sizeToBucket cfg r = some b) (hlen : len b = i)
      (hi : i ≤ cfg.half) :
      Shape cfg len carved
        [.allocateBatch (bucketToSize b) b i, .malloc r (bucketToSize b) b 1]
  | allocateGot {r i p : ℕ} {b : Bucket} (hr : sizeToBucket cfg r = some b) (hlen : len b = i)
      (hi : i < cfg.half) (hp : carved p = some b) :
      Shape cfg len carved
        [.allocateBatchGot (bucketToSize b) b i p, .malloc r (bucketToSize b) b 1]
  /-- The list is never full during a refill. -/
  | allocateFree {r i p : ℕ} {b : Bucket} (hr : sizeToBucket cfg r = some b) (hlen : len b = i)
      (hi : i < cfg.half) (hp : carved p = some b) :
      Shape cfg len carved
        [.free p (bucketToSize b) b 0, .allocateBatch (bucketToSize b) b (i + 1),
          .malloc r (bucketToSize b) b 1]
  | free {r p : ℕ} {b : Bucket} (hr : sizeToBucket cfg r = some b) (hp : carved p = some b) :
      Shape cfg len carved [.free p r b 0]
  /-- After the drain half a batch is gone. -/
  | drained {r p : ℕ} {b : Bucket} (hr : sizeToBucket cfg r = some b) (hp : carved p = some b)
      (hlen : len b = cfg.allocBatchSize - cfg.half) :
      Shape cfg len carved [.free p r b 1]
  /-- A drain starts from a full list. -/
  | freeWait {r p : ℕ} {b : Bucket} (hr : sizeToBucket cfg r = some b) (hp : carved p = some b)
      (hlen : len b = cfg.allocBatchSize) :
      Shape cfg len carved [.freeBatchWait r b, .free p r b 1]
  | freeBatch {r p i : ℕ} {b : Bucket} (hr : sizeToBucket cfg r = some b) (hp : carved p = some b)
      (hlen : len b = cfg.allocBatchSize - i) (hi : i ≤ cfg.half) :
      Shape cfg len carved [.freeBatch r b i, .free p r b 1]
  /-- The list is never empty during a drain. -/
  | freeMalloc {r p i : ℕ} {b : Bucket} (hr : sizeToBucket cfg r = some b)
      (hp : carved p = some b) (hlen : len b = cfg.allocBatchSize - i) (hi : i < cfg.half) :
      Shape cfg len carved
        [.malloc r (bucketToSize b) b 0, .freeBatch r b i, .free p r b 1]
  | freeGot {r p q i : ℕ} {b : Bucket} (hr : sizeToBucket cfg r = some b) (hp : carved p = some b)
      (hq : carved q = some b) (hlen : len b = cfg.allocBatchSize - i - 1) (hi : i < cfg.half) :
      Shape cfg len carved [.freeBatchGot r b i q, .free p r b 1]

theorem Shape.mono {cfg : Config} {len len' : Bucket → ℕ} {carved carved' : ℕ → Option Bucket}
    {fs : List Frame} (h : Shape cfg len carved fs) (hlen : ∀ b, len' b = len b)
    (hcarved : ∀ a b, carved a = some b → carved' a = some b) : Shape cfg len' carved' fs := by
  obtain rfl := funext hlen
  cases h <;> constructor <;> first | assumption | exact hcarved _ _ ‹_›

/-- What worker `w` has accounted for, less what its call has not handed on. -/
def State.net (s : State W) (w : W) : CInt × CInt :=
  ((s.imInfo w).used, (s.imInfo w).nmalloc) - ((s.stack w).map Frame.owed).sum

/-- What the shared lists have accounted for. -/
def State.globalNet (s : State W) : CInt × CInt := (s.globalImInfo.used, s.globalImInfo.nmalloc)

/-- What the program holds, in bytes and in blocks. -/
def State.outstanding (s : State W) : CInt × CInt :=
  (s.live.map fun b => ((b.size : CInt), (1 : CInt))).sum

/-- **What the program holds** is what the ledger says it does, apart from the
large blocks, and of the bucket that was asked for. -/
structure Holdings (cfg : Config) (live : List Block) (carved : ℕ → Option Bucket)
    (place : ℕ → Option (Key W ⊕ Hand W)) : Prop where
  mem_iff : ∀ a, place a = some (.inr none) ↔ ∃ b ∈ live, b.size ≤ threshold ∧ b.addr = a
  bucket : ∀ b ∈ live, b.size ≤ threshold → carved b.addr = sizeToBucket cfg b.size
  nodup : (live.map Block.addr).Nodup

/-- **The invariant of the allocator.** -/
structure Sound [Fintype W] (cfg : Config) (s : State W) (L : BlockLedger W) : Prop where
  books : Books cfg s.mem s.descriptor s.carved L
  layout : Layout s
  holdings : Holdings cfg s.live s.carved L.place
  /-- The blocks in the hands of a call are those the ledger says it has. -/
  hand : ∀ w a, L.place a = some (.inr (some w)) ↔ a ∈ hands (s.stack w)
  handNodup : ∀ w, (hands (s.stack w)).Nodup
  shape : ∀ w, Shape cfg (fun b => (L.stack (some w, b)).length) s.carved (s.stack w)
  /-- No list of a worker is longer than `alloc_batch_size`. -/
  length_le : ∀ w b, (L.stack (some w, b)).length ≤ cfg.allocBatchSize
  lock : Mutex.Exclusive s.globalImLock fun w => locked (s.stack w)
  /-- What was accounted for is what the program holds. -/
  balance : ∑ w, s.net w + s.globalNet = s.outstanding

/-! ## The holdings -/

namespace Holdings

variable {cfg : Config} {live : List Block} {carved carved' : ℕ → Option Bucket}
  {place place' : ℕ → Option (Key W ⊕ Hand W)}

theorem same (h : Holdings cfg live carved place)
    (hcarved : ∀ a k, carved a = some k → carved' a = some k)
    (hplace : ∀ a, place' a = some (.inr none) ↔ place a = some (.inr none)) :
    Holdings cfg live carved' place' := by
  refine ⟨fun a => (hplace a).trans (h.mem_iff a), fun b hb hs => ?_, h.nodup⟩
  obtain ⟨k, hk⟩ := exists_sizeToBucket cfg hs
  rw [hk]
  exact hcarved _ _ ((h.bucket b hb hs).trans hk)

/-- The program gets a small block. -/
theorem cons (h : Holdings cfg live carved place) {a r : ℕ} {k : Bucket}
    (hr : sizeToBucket cfg r = some k) (ha : carved a = some k) (hlive : ∀ b ∈ live, b.addr ≠ a) :
    Holdings cfg (⟨a, r⟩ :: live) carved (Function.update place a (some (.inr none))) := by
  have hsmall : r ≤ threshold := (le_of_sizeToBucket hr).trans (bucketToSize_le_threshold k)
  refine ⟨fun b => ?_, List.forall_mem_cons.mpr ⟨fun _ => ha.trans hr.symm, h.bucket⟩, ?_⟩
  · simp only [Function.update_apply, List.mem_cons, exists_eq_or_imp]
    split_ifs with hb
    · exact iff_of_true rfl (.inl ⟨hsmall, hb.symm⟩)
    · rw [h.mem_iff b]
      exact ⟨.inr, fun hc => hc.resolve_left fun hc => hb hc.2.symm⟩
  · rw [List.map_cons, List.nodup_cons]
    refine ⟨fun hmem => ?_, h.nodup⟩
    obtain ⟨b, hb, hba⟩ := List.mem_map.mp hmem
    exact hlive b hb hba

/-- The program gets a large block. -/
theorem cons_large (h : Holdings cfg live carved place) {a r : ℕ} (hr : threshold < r)
    (hlive : ∀ b ∈ live, b.addr ≠ a) : Holdings cfg (⟨a, r⟩ :: live) carved place := by
  refine ⟨fun b => ?_, List.forall_mem_cons.mpr ⟨fun hs => absurd hr (not_lt.mpr hs), h.bucket⟩, ?_⟩
  · rw [h.mem_iff b]
    simp only [List.mem_cons, exists_eq_or_imp]
    exact ⟨.inr, fun hc => hc.resolve_left fun hc => absurd hr (not_lt.mpr hc.1)⟩
  · rw [List.map_cons, List.nodup_cons]
    refine ⟨fun hmem => ?_, h.nodup⟩
    obtain ⟨b, hb, hba⟩ := List.mem_map.mp hmem
    exact hlive b hb hba

/-- A block that is given up is held no more. -/
theorem addr_ne_of_erase (h : Holdings cfg live carved place) {b c : Block} (hb : b ∈ live)
    (hc : c ∈ live.erase b) : c.addr ≠ b.addr := by
  have hperm := List.perm_cons_erase hb
  have hnodup := h.nodup
  rw [(hperm.map Block.addr).nodup_iff, List.map_cons, List.nodup_cons] at hnodup
  exact fun he => hnodup.1 (List.mem_map.mpr ⟨c, hc, he⟩)

/-- The program gives a small block up. -/
theorem erase (h : Holdings cfg live carved place) {b : Block} (hb : b ∈ live)
    {e : Option (Key W ⊕ Hand W)} (he : e ≠ some (.inr none)) :
    Holdings cfg (live.erase b) carved (Function.update place b.addr e) := by
  refine ⟨fun a => ?_, fun c hc => h.bucket c (List.mem_of_mem_erase hc),
    h.nodup.sublist (List.erase_sublist.map _)⟩
  simp only [Function.update_apply]
  split_ifs with ha
  · refine iff_of_false he ?_
    rintro ⟨c, hc, -, hca⟩
    exact h.addr_ne_of_erase hb hc (hca.trans ha)
  · rw [h.mem_iff a]
    refine ⟨fun ⟨c, hc, hs, hca⟩ => ⟨c, ?_, hs, hca⟩,
      fun ⟨c, hc, hs, hca⟩ => ⟨c, List.mem_of_mem_erase hc, hs, hca⟩⟩
    exact (List.mem_erase_of_ne fun hcb : c = b => ha (hcb ▸ hca.symm)).mpr hc

/-- The program gives a large block up. -/
theorem erase_large (h : Holdings cfg live carved place) {b : Block} (hr : threshold < b.size) :
    Holdings cfg (live.erase b) carved place := by
  refine ⟨fun a => ?_, fun c hc => h.bucket c (List.mem_of_mem_erase hc),
    h.nodup.sublist (List.erase_sublist.map _)⟩
  rw [h.mem_iff a]
  refine ⟨fun ⟨c, hc, hs, hca⟩ => ⟨c, ?_, hs, hca⟩,
    fun ⟨c, hc, hs, hca⟩ => ⟨c, List.mem_of_mem_erase hc, hs, hca⟩⟩
  exact (List.mem_erase_of_ne fun hcb : c = b => absurd hr (not_lt.mpr (hcb ▸ hs))).mpr hc

end Holdings

/-! ## One step of a worker -/

namespace Sound

variable [Fintype W] [DecidableEq W] {cfg : Config} {s s' : State W} {L L' : BlockLedger W}

/-- **What is left to check of a step of worker `w`**: it leaves alone what the
other workers have. -/
theorem update (h : Sound cfg s L) (w : W) (books : Books cfg s'.mem s'.descriptor s'.carved L')
    (layout : Layout s') (holdings : Holdings cfg s'.live s'.carved L'.place)
    (hstack : ∀ u, u ≠ w → s'.stack u = s.stack u)
    (hlen : ∀ u, u ≠ w → ∀ b, L'.stack (some u, b) = L.stack (some u, b))
    (hcarved : ∀ a k, s.carved a = some k → s'.carved a = some k)
    (hplace : ∀ u, u ≠ w → ∀ a,
      L'.place a = some (.inr (some u)) ↔ L.place a = some (.inr (some u)))
    (hhand : ∀ a, L'.place a = some (.inr (some w)) ↔ a ∈ hands (s'.stack w))
    (hnodup : (hands (s'.stack w)).Nodup)
    (hshape : Shape cfg (fun b => (L'.stack (some w, b)).length) s'.carved (s'.stack w))
    (hlength : ∀ b, (L'.stack (some w, b)).length ≤ cfg.allocBatchSize)
    (hlock : Mutex.Exclusive s'.globalImLock fun u => locked (s'.stack u))
    (hinfo : ∀ u, u ≠ w → s'.imInfo u = s.imInfo u)
    (hbalance : s'.net w + s'.globalNet - s'.outstanding = s.net w + s.globalNet - s.outstanding) :
    Sound cfg s' L' where
  books := books
  layout := layout
  holdings := holdings
  hand u a := by
    rcases eq_or_ne u w with rfl | hu
    · exact hhand a
    · rw [hstack u hu, hplace u hu a]
      exact h.hand u a
  handNodup u := by
    rcases eq_or_ne u w with rfl | hu
    · exact hnodup
    · rw [hstack u hu]
      exact h.handNodup u
  shape u := by
    rcases eq_or_ne u w with rfl | hu
    · exact hshape
    · rw [hstack u hu]
      exact (h.shape u).mono (fun b => congrArg _ (hlen u hu b)) hcarved
  length_le u b := by
    rcases eq_or_ne u w with rfl | hu
    · exact hlength b
    · rw [hlen u hu b]
      exact h.length_le u b
  lock := hlock
  balance := by
    have hrest : ∑ u ∈ Finset.univ.erase w, s'.net u = ∑ u ∈ Finset.univ.erase w, s.net u := by
      refine Finset.sum_congr rfl fun u hu => ?_
      have hu := (Finset.mem_erase.mp hu).1
      rw [State.net, State.net, hstack u hu, hinfo u hu]
    have hold := h.balance
    rw [← Finset.add_sum_erase _ _ (Finset.mem_univ w)] at hold ⊢
    rw [hrest]
    linear_combination hold + hbalance

end Sound

end Cilk.Allocator
