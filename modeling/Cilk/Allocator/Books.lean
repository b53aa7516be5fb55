import Cilk.Allocator.Model
import Cilk.Chain
import Cilk.Ledger

/-!
# The books of the allocator

Two accounts of the memory the allocator has cut into blocks. `Books` says
where the blocks are: a ledger notes for every block the free list it is on,
or that the program or a call of a worker has it, and the links in memory and
the counts of the descriptors agree with the ledger. `Layout` says where they
lie: apart from each other and from the rest of the pool, inside the chunks,
which are apart from each other and from the large blocks.
-/

namespace Cilk.Allocator

open Allocator.State

variable {W : Type*}

/-- The descriptors: those of the workers and the shared ones. -/
abbrev Key (W : Type*) := Option W × Bucket

/-- Where a block is that is on no free list: with a call of a worker, or
with the program. -/
abbrev Hand (W : Type*) := Option W

/-- The ledger of the blocks. -/
abbrev BlockLedger (W : Type*) := Ledger ℕ (Key W) (Hand W)

namespace State

/-- All descriptors. -/
def descriptor (s : State W) : Key W → Descriptor
  | (some w, bucket) => s.imDescriptor w bucket
  | (none, bucket) => s.globalImDescriptor bucket

end State

/-- **The books are in order**: the descriptors, the links in the blocks and
the ledger agree. -/
structure Books (cfg : Config) (mem : ℕ → ℕ) (descriptor : Key W → Descriptor)
    (carved : ℕ → Option Bucket) (L : BlockLedger W) : Prop where
  ledger : L.Valid
  chain : ∀ k, Chain mem (descriptor k).freeList (L.stack k)
  count : ∀ k, (descriptor k).count + (L.stack k).length = cfg.allocBatchSize
  carved_iff : ∀ a, L.place a = none ↔ carved a = none
  bucket : ∀ k a, L.place a = some (.inl k) → carved a = some k.2

namespace Books

variable {cfg : Config} {mem mem' : ℕ → ℕ} {descriptor : Key W → Descriptor}
  {carved : ℕ → Option Bucket} {L : BlockLedger W} {k : Key W} {a : ℕ}

theorem mem_bucket (h : Books cfg mem descriptor carved L) (ha : a ∈ L.stack k) :
    carved a = some k.2 :=
  h.bucket k a ((h.ledger.mem_iff k a).mp ha)

/-- A list that is not empty has its head in the descriptor. -/
theorem head (h : Books cfg mem descriptor carved L) (hk : (descriptor k).freeList ≠ 0) :
    ∃ l, L.stack k = (descriptor k).freeList :: l := by
  obtain ⟨l, hl, -⟩ := (h.chain k).exists_cons hk
  exact ⟨l, hl⟩

theorem nil_iff (h : Books cfg mem descriptor carved L) :
    (descriptor k).freeList = 0 ↔ L.stack k = [] :=
  (h.chain k).nil_iff

/-- Writes outside the free blocks do not matter. -/
theorem write (h : Books cfg mem descriptor carved L)
    (hmem : ∀ k, ∀ a ∈ L.stack k, mem' a = mem a) : Books cfg mem' descriptor carved L :=
  { h with chain := fun k => (h.chain k).frame (hmem k) }

variable [DecidableEq W]

/-- Taking a block off the front of a free list. -/
theorem pop (h : Books cfg mem descriptor carved L) {l : List ℕ} (hl : L.stack k = a :: l)
    (e : Hand W) :
    Books cfg mem (Function.update descriptor k ⟨mem a, (descriptor k).count + 1⟩) carved
      (L.pop k a l e) := by
  have hcarved := h.mem_bucket (hl ▸ List.mem_cons_self : a ∈ L.stack k)
  refine ⟨h.ledger.pop hl e, fun m => ?_, fun m => ?_, fun b => ?_, fun m b => ?_⟩
  · simp only [Ledger.pop, Function.update_apply]
    split_ifs with hm
    · have := h.chain k
      rw [hl] at this
      exact this.2.2
    · exact h.chain m
  · simp only [Ledger.pop, Function.update_apply]
    split_ifs with hm
    · have := h.count k
      rw [hl, List.length_cons] at this
      push_cast at this ⊢
      omega
    · exact h.count m
  · simp only [Ledger.pop, Function.update_apply]
    split_ifs with hb
    · exact iff_of_false not_false (by simp [hb, hcarved])
    · exact h.carved_iff b
  · simp only [Ledger.pop, Function.update_apply]
    split_ifs with hb
    · exact fun hm => absurd (Option.some.inj hm) Sum.inr_ne_inl
    · exact h.bucket m b

/-- Putting a block in front of a free list. -/
theorem push (h : Books cfg mem descriptor carved L) (hplace : ∀ m, L.place a ≠ some (.inl m))
    (hcarved : carved a = some k.2) (ha : a ≠ 0) :
    Books cfg (Function.update mem a (descriptor k).freeList)
      (Function.update descriptor k ⟨a, (descriptor k).count - 1⟩) carved (L.push k a) := by
  have hnot := h.ledger.not_mem hplace
  refine ⟨h.ledger.push hplace, fun m => ?_, fun m => ?_, fun b => ?_, fun m b => ?_⟩
  · simp only [Ledger.push, Function.update_apply]
    split_ifs with hm
    · exact (h.chain k).push ha (hnot k)
    · exact (h.chain m).frame fun b hb =>
        Function.update_of_ne (fun he : b = a => hnot m (he ▸ hb)) _ _
  · simp only [Ledger.push, Function.update_apply]
    split_ifs with hm
    · have := h.count k
      rw [List.length_cons]
      push_cast
      omega
    · exact h.count m
  · simp only [Ledger.push, Function.update_apply]
    split_ifs with hb
    · exact iff_of_false not_false (by simp [hb, hcarved])
    · exact h.carved_iff b
  · simp only [Ledger.push, Function.update_apply]
    split_ifs with hb
    · intro hm
      rw [hb, hcarved, Sum.inl.inj (Option.some.inj hm)]
    · exact h.bucket m b

omit [DecidableEq W] in
/-- A block changes hands. -/
theorem move (h : Books cfg mem descriptor carved L) (hplace : ∀ m, L.place a ≠ some (.inl m))
    (hcarved : carved a ≠ none) (e : Hand W) :
    Books cfg mem descriptor carved (L.move a (some e)) := by
  refine ⟨h.ledger.move hplace _, h.chain, h.count, fun b => ?_, fun m b => ?_⟩
  · simp only [Ledger.move, Function.update_apply]
    split_ifs with hb
    · exact iff_of_false (Option.some_ne_none _) (hb ▸ hcarved)
    · exact h.carved_iff b
  · simp only [Ledger.move, Function.update_apply]
    split_ifs with hb
    · exact fun hm => absurd (Option.some.inj hm) Sum.inr_ne_inl
    · exact h.bucket m b

omit [DecidableEq W] in
/-- A new block comes into a hand. -/
theorem carve (h : Books cfg mem descriptor carved L) (ha : carved a = none) (bucket : Bucket)
    (e : Hand W) :
    Books cfg mem descriptor (Function.update carved a (some bucket)) (L.move a (some e)) := by
  have hplace := (h.carved_iff a).mpr ha
  refine ⟨h.ledger.move (by simp [hplace]) _, h.chain, h.count, fun b => ?_, fun m b => ?_⟩
  · simp only [Ledger.move, Function.update_apply]
    split_ifs with hb
    · exact iff_of_false (Option.some_ne_none _) not_false
    · exact h.carved_iff b
  · simp only [Ledger.move, Function.update_apply]
    split_ifs with hb
    · exact fun hm => absurd (Option.some.inj hm) Sum.inr_ne_inl
    · exact h.bucket m b

end Books

/-! ## Where the blocks lie -/

/-- **The layout is in order.** -/
structure Layout (s : State W) : Prop where
  /-- No two blocks overlap. -/
  blocks : ∀ a b k l, s.carved a = some k → s.carved b = some l → a ≠ b →
    Apart a (bucketToSize k) b (bucketToSize l)
  /-- A block is inside a chunk. -/
  inChunk : ∀ a k, s.carved a = some k →
    ∃ c ∈ s.allocList, c ≤ a ∧ a + bucketToSize k ≤ c + chunk
  /-- What is left of the pool is apart from the blocks. -/
  tail : ∀ a k, s.carved a = some k →
    Apart a (bucketToSize k) s.globalPoolBegin (s.globalPoolEnd - s.globalPoolBegin)
  /-- The pool is empty, before the first chunk, or the end of a chunk. -/
  pool : s.globalPoolBegin = 0 ∧ s.globalPoolEnd = 0 ∨
    ∃ c ∈ s.allocList, c ≤ s.globalPoolBegin ∧ s.globalPoolBegin ≤ s.globalPoolEnd ∧
      s.globalPoolEnd = c + chunk
  chunks : s.allocList.Pairwise fun c d => Apart c chunk d chunk
  chunks_pos : ∀ c ∈ s.allocList, 0 < c
  /-- A large block is apart from the chunks. -/
  large : ∀ b ∈ s.live, threshold < b.size → 0 < b.addr ∧
    ∀ c ∈ s.allocList, Apart b.addr b.size c chunk
  larges : s.live.Pairwise fun b c => threshold < b.size → threshold < c.size →
    Apart b.addr b.size c.addr c.size
  /-- `alloc_list` is long enough for its chunks. -/
  allocList : s.allocList.length ≤ s.allocListSize

theorem bucketToSize_pos (b : Bucket) : 0 < bucketToSize b := by
  revert b
  decide

theorem bucketToSize_le_threshold (b : Bucket) : bucketToSize b ≤ threshold := by
  revert b
  decide

namespace Layout

variable {s s' : State W}

/-- Steps that neither cut blocks nor hand out large ones. -/
theorem same (h : Layout s) (hcarved : s'.carved = s.carved) (hlist : s'.allocList = s.allocList)
    (hsize : s'.allocListSize = s.allocListSize) (hbegin : s'.globalPoolBegin = s.globalPoolBegin)
    (hend : s'.globalPoolEnd = s.globalPoolEnd) (hlive : s'.live = s.live) : Layout s' := by
  obtain ⟨h1, h2, h3, h4, h5, h6, h7, h8, h9⟩ := h
  constructor <;> simp only [hcarved, hlist, hsize, hbegin, hend, hlive] <;> assumption

theorem pos (h : Layout s) {a : ℕ} {k : Bucket} (ha : s.carved a = some k) : a ≠ 0 := by
  obtain ⟨c, hc, hle, -⟩ := h.inChunk a k ha
  have := h.chunks_pos c hc
  omega

/-- The program gets a small block. -/
theorem cons_small (h : Layout s) {b : Block} (hb : b.size ≤ threshold)
    (hlive : s'.live = b :: s.live) (hcarved : s'.carved = s.carved)
    (hlist : s'.allocList = s.allocList) (hsize : s'.allocListSize = s.allocListSize)
    (hbegin : s'.globalPoolBegin = s.globalPoolBegin)
    (hend : s'.globalPoolEnd = s.globalPoolEnd) : Layout s' := by
  obtain ⟨h1, h2, h3, h4, h5, h6, h7, h8, h9⟩ := h
  constructor <;> simp only [hcarved, hlist, hsize, hbegin, hend, hlive] <;> try assumption
  · exact List.forall_mem_cons.mpr ⟨fun hlt => absurd hb (not_le.mpr hlt), h7⟩
  · exact List.pairwise_cons.mpr ⟨fun c _ hlt => absurd hb (not_le.mpr hlt), h8⟩

/-- The program gets a large block. -/
theorem cons_large (h : Layout s) {p n : ℕ} (hfresh : s.Fresh p n)
    (hlive : s'.live = ⟨p, n⟩ :: s.live) (hcarved : s'.carved = s.carved)
    (hlist : s'.allocList = s.allocList) (hsize : s'.allocListSize = s.allocListSize)
    (hbegin : s'.globalPoolBegin = s.globalPoolBegin)
    (hend : s'.globalPoolEnd = s.globalPoolEnd) : Layout s' := by
  obtain ⟨hpos, hchunks, hlarge⟩ := hfresh
  obtain ⟨h1, h2, h3, h4, h5, h6, h7, h8, h9⟩ := h
  constructor <;> simp only [hcarved, hlist, hsize, hbegin, hend, hlive] <;> try assumption
  · exact List.forall_mem_cons.mpr ⟨fun _ => ⟨hpos, hchunks⟩, h7⟩
  · exact List.pairwise_cons.mpr ⟨fun c hc _ hlt => hlarge c hc hlt, h8⟩

/-- The program gives a block up. -/
theorem release (h : Layout s) (b : Block) : Layout (s.release b) where
  __ := h
  large c hc := h.large c (List.mem_of_mem_erase hc)
  larges := h.larges.sublist List.erase_sublist

/-- Where the pool has room, it is the end of a chunk. -/
theorem pool_of_room (h : Layout s) {n : ℕ} (hn : 0 < n)
    (hroom : s.globalPoolBegin + n ≤ s.globalPoolEnd) :
    ∃ c ∈ s.allocList, c ≤ s.globalPoolBegin ∧ s.globalPoolEnd = c + chunk := by
  rcases h.pool with ⟨hb, he⟩ | ⟨c, hc, hle, -, he⟩
  · omega
  · exact ⟨c, hc, hle, he⟩

/-- The next block of the pool is a new one. -/
theorem carved_begin (h : Layout s) {n : ℕ} (hn : 0 < n)
    (hroom : s.globalPoolBegin + n ≤ s.globalPoolEnd) : s.carved s.globalPoolBegin = none := by
  by_contra hne
  obtain ⟨k, hk⟩ := Option.ne_none_iff_exists'.mp hne
  have hpos := bucketToSize_pos k
  rcases h.tail _ k hk with ht | ht <;> omega

/-- **Cutting a block off the pool.** -/
theorem carve (h : Layout s) {k : Bucket}
    (hroom : s.globalPoolBegin + bucketToSize k ≤ s.globalPoolEnd) :
    Layout (s.carve (bucketToSize k) k).1 := by
  have hpos := bucketToSize_pos k
  obtain ⟨c, hc, hle, hend⟩ := h.pool_of_room hpos hroom
  have hnew : ∀ a l, s.carved a = some l →
      Apart a (bucketToSize l) s.globalPoolBegin (bucketToSize k) := by
    intro a l ha
    rcases h.tail a l ha with ht | ht
    · exact .inl ht
    · exact .inr (by omega)
  constructor
  · intro a b l m ha hb hne
    simp only [State.carve, Function.update_apply] at ha hb
    split_ifs at ha hb with h1 h2 h2
    · exact absurd (h1.trans h2.symm) hne
    · cases ha
      subst h1
      exact (hnew b m hb).symm
    · cases hb
      subst h2
      exact hnew a l ha
    · exact h.blocks a b l m ha hb hne
  · intro a l ha
    simp only [State.carve, Function.update_apply] at ha
    split_ifs at ha with h1
    · cases ha
      exact ⟨c, hc, by omega, by omega⟩
    · exact h.inChunk a l ha
  · intro a l ha
    simp only [State.carve, Function.update_apply] at ha ⊢
    split_ifs at ha with h1
    · cases ha
      exact .inl (by omega)
    · rcases h.tail a l ha with ht | ht
      · exact .inl (by omega)
      · exact .inr (by omega)
  · exact .inr ⟨c, hc, by simp only [State.carve]; omega, hroom, hend⟩
  · exact h.chunks
  · exact h.chunks_pos
  · exact h.large
  · exact h.larges
  · exact h.allocList

/-- **A new chunk for the pool.** What was left of the old one is lost. -/
theorem extend (h : Layout s) {p : ℕ} (hfresh : s.Fresh p chunk) :
    Layout (s.extendGlobalPool p) := by
  obtain ⟨hpos, hchunks, hlarge⟩ := hfresh
  constructor
  · exact h.blocks
  · intro a k ha
    obtain ⟨c, hc, hin⟩ := h.inChunk a k ha
    exact ⟨c, List.mem_cons_of_mem _ hc, hin⟩
  · intro a k ha
    obtain ⟨c, hc, hle, hin⟩ := h.inChunk a k ha
    simp only [extendGlobalPool]
    rcases hchunks c hc with hp | hp
    · exact .inr (by omega)
    · exact .inl (by omega)
  · exact .inr ⟨p, List.mem_cons_self, le_rfl, Nat.le_add_right _ _, rfl⟩
  · exact List.pairwise_cons.mpr ⟨hchunks, h.chunks⟩
  · exact List.forall_mem_cons.mpr ⟨hpos, h.chunks_pos⟩
  · intro b hb hlt
    refine ⟨(h.large b hb hlt).1, List.forall_mem_cons.mpr ⟨(hlarge b hb hlt).symm, ?_⟩⟩
    exact (h.large b hb hlt).2
  · exact h.larges
  · have := h.allocList
    simp only [extendGlobalPool, List.length_cons]
    split_ifs
    · simp only [defaultAllocListSize]
      omega
    · omega

end Layout

end Cilk.Allocator
