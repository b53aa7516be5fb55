import Cilk.Allocator.Steps

/-!
# What the allocator guarantees

The invariant of the allocator, read for its users. The memory it accounts
for is cut into pieces (`Piece`): the blocks the program holds, the free
blocks, the blocks that are on their way inside a call, and what is left of
the pool. No two pieces overlap. A call ends, if the lock is passed on: it
takes a bounded number of steps, and a worker that cannot go on waits for
another one that can.
-/

namespace Cilk.Allocator

open Allocator.State

variable {W : Type*}

/-- Block `a` is on the free list of descriptor `k`. -/
def State.OnList (s : State W) (k : Key W) (a : ℕ) : Prop :=
  ∃ l, Chain s.mem (s.descriptor k).freeList l ∧ a ∈ l

/-- The bytes the program has asked for and not freed. -/
def State.requested (s : State W) : ℕ := (s.live.map Block.size).sum

/-- `total` in `Cilk_internal_malloc_global_cleanup`, also an `int`. -/
def State.total [Fintype W] (s : State W) : CInt := s.globalImInfo.used + ∑ w, (s.imInfo w).used

/-- `tm` in `Cilk_internal_malloc_global_cleanup` -/
def State.tm [Fintype W] (s : State W) : CInt :=
  s.globalImInfo.nmalloc + ∑ w, (s.imInfo w).nmalloc

/-- What an `int` makes of a number of bytes. -/
theorem toInt_natCast (n : ℕ) : ((n : CInt)).toInt = (n : ℤ).bmod (2 ^ 32) := by
  rw [BitVec.natCast_eq_ofNat, BitVec.toInt_ofNat']

/-- An `int` holds a number of bytes as long as its sign bit stays clear. -/
theorem toInt_natCast_eq_iff (n : ℕ) : ((n : CInt)).toInt = n ↔ n < 2 ^ 31 := by
  rw [toInt_natCast, Int.bmod_def]
  split_ifs <;> omega

/-- The pieces of memory. -/
inductive Piece (W : Type*)
  /-- A block the program holds. -/
  | live (b : Block)
  /-- A block on the free list of a descriptor. -/
  | free (k : Key W) (a : ℕ)
  /-- A block a call of a worker has in its hands. -/
  | hand (w : W) (a : ℕ)
  /-- What is left of the pool. -/
  | tail

namespace Piece

/-- The pieces there are. -/
def Is (s : State W) : Piece W → Prop
  | .live b => b ∈ s.live
  | .free k a => s.OnList k a
  | .hand w a => a ∈ hands (s.stack w)
  | .tail => True

/-- Where a piece begins. -/
def start (s : State W) : Piece W → ℕ
  | .live b => b.addr
  | .free _ a => a
  | .hand _ a => a
  | .tail => s.globalPoolBegin

/-- How long a piece is; a block the program holds has all that was cut off
for it, which may be more than was asked for. -/
def length (cfg : Config) (s : State W) : Piece W → ℕ
  | .live b => (canonicalize cfg b.size).getD b.size
  | .free k _ => bucketToSize k.2
  | .hand _ a => (s.carved a).elim 0 bucketToSize
  | .tail => s.globalPoolEnd - s.globalPoolBegin

/-- Where the ledger has the block of a piece. -/
def place : Piece W → Option (Key W ⊕ Hand W)
  | .live _ => some (.inr none)
  | .free k _ => some (.inl k)
  | .hand w _ => some (.inr (some w))
  | .tail => none

end Piece

theorem Apart.symm {a n b m : ℕ} (h : Apart a n b m) : Apart b m a n :=
  Or.symm h

theorem Apart.mono {a n b m c k : ℕ} (h : Apart a n c k) (hle : c ≤ b) (hend : b + m ≤ c + k) :
    Apart a n b m := by
  rcases h with h | h
  · exact .inl (h.trans hle)
  · exact .inr (hend.trans h)

variable {cfg : Config} {mem : ℕ → ℕ} {s s' : State W} {L : BlockLedger W}

theorem canonicalize_large {r : ℕ} (hr : threshold < r) : canonicalize cfg r = none := by
  rw [canonicalize_eq, Option.map_eq_none_iff]
  by_contra hne
  obtain ⟨b, hb⟩ := Option.ne_none_iff_exists'.mp hne
  exact absurd ((le_of_sizeToBucket hb).trans (bucketToSize_le_threshold b)) (not_le.mpr hr)

namespace Sound

variable [Fintype W]

/-! ## The pieces -/

/-- The free list of a descriptor is the stack of the ledger. -/
theorem onList_iff (h : Sound cfg s L) {k : Key W} {a : ℕ} :
    s.OnList k a ↔ a ∈ L.stack k := by
  refine ⟨?_, fun ha => ⟨_, h.books.chain k, ha⟩⟩
  rintro ⟨l, hl, ha⟩
  rwa [hl.unique (h.books.chain k)] at ha

theorem place_live_of (h : Sound cfg s L) {b : Block} (hb : b ∈ s.live)
    (hr : b.size ≤ threshold) : L.place b.addr = some (.inr none) :=
  (h.holdings.mem_iff _).mpr ⟨b, hb, hr, rfl⟩

/-- What a piece is: a large block, or a block cut from the pool that the
ledger knows of, or the rest of the pool. -/
theorem piece_cases (h : Sound cfg s L) {p : Piece W} (hp : p.Is s) :
    (∃ b ∈ s.live, threshold < b.size ∧ p = .live b ∧ p.length cfg s = b.size) ∨
    (∃ k, s.carved (p.start s) = some k ∧ p.length cfg s = bucketToSize k ∧
      L.place (p.start s) = p.place ∧ p.place ≠ none) ∨ p = .tail := by
  cases p with
  | live b =>
    rcases le_or_gt b.size threshold with hr | hr
    · obtain ⟨k, hk⟩ := exists_sizeToBucket cfg hr
      refine .inr (.inl ⟨k, (h.holdings.bucket b hp hr).trans hk, ?_, h.place_live_of hp hr, nofun⟩)
      rw [Piece.length, canonicalize_eq, hk]
      rfl
    · refine .inl ⟨b, hp, hr, rfl, ?_⟩
      rw [Piece.length, canonicalize_large hr]
      rfl
  | free k a =>
    have ha := h.onList_iff.mp hp
    exact .inr (.inl ⟨k.2, h.books.mem_bucket ha, rfl, (h.books.ledger.mem_iff k a).mp ha, nofun⟩)
  | hand w a =>
    have hplace := (h.hand w a).mpr hp
    have hne : s.carved a ≠ none := fun hc => by
      rw [(h.books.carved_iff a).mpr hc] at hplace
      cases hplace
    obtain ⟨k, hk⟩ := Option.ne_none_iff_exists'.mp hne
    refine .inr (.inl ⟨k, hk, ?_, hplace, nofun⟩)
    rw [Piece.length, hk]
    rfl
  | tail => exact .inr (.inr rfl)

/-- Two pieces at one place of the ledger and of the memory are the same. -/
theorem piece_eq (h : Sound cfg s L) {p q : Piece W} (hp : p.Is s) (hq : q.Is s)
    (hplace : p.place = q.place) (hstart : p.start s = q.start s) : p = q := by
  cases p <;> cases q <;> simp only [Piece.place, reduceCtorEq, Option.some.injEq, Sum.inl.injEq,
    Sum.inr.injEq] at hplace
  · rw [List.inj_on_of_nodup_map h.holdings.nodup hp hq hstart]
  · exact congrArg₂ _ hplace hstart
  · exact congrArg₂ _ hplace hstart
  · rfl

/-- A chunk of the pool, large blocks and the rest of the pool. -/
theorem large_apart (h : Sound cfg s L) {b : Block} (hb : b ∈ s.live) (hr : threshold < b.size)
    {q : Piece W} (hq : q.Is s) (hne : Piece.live b ≠ q) :
    Apart b.addr b.size (q.start s) (q.length cfg s) := by
  obtain ⟨hpos, hchunks⟩ := h.layout.large b hb hr
  rcases h.piece_cases hq with ⟨c, hc, hrc, rfl, hlen⟩ | ⟨k, hk, hlen, -⟩ | rfl
  · rw [hlen]
    have : Std.Symm fun b c : Block => threshold < b.size → threshold < c.size →
        Apart b.addr b.size c.addr c.size := ⟨fun _ _ hbc hc hb => (hbc hb hc).symm⟩
    exact h.layout.larges.forall hb hc (fun he => hne (congrArg _ he)) hr hrc
  · obtain ⟨c, hc, hle, hend⟩ := h.layout.inChunk _ _ hk
    rw [hlen]
    exact (hchunks c hc).mono hle hend
  · rcases h.layout.pool with ⟨hbegin, hend⟩ | ⟨c, hc, hle, hbegin, hend⟩
    · rw [Piece.start, Piece.length, hbegin, hend]
      exact .inr (Nat.zero_le _)
    · refine (hchunks c hc).mono hle (le_of_eq ?_)
      rw [Piece.start, Piece.length, Nat.add_sub_cancel' hbegin, hend]

/-- **No two pieces overlap.** -/
theorem pieces_apart (h : Sound cfg s L) {p q : Piece W} (hp : p.Is s) (hq : q.Is s)
    (hne : p ≠ q) : Apart (p.start s) (p.length cfg s) (q.start s) (q.length cfg s) := by
  rcases h.piece_cases hp with ⟨b, hb, hr, rfl, hlen⟩ | ⟨k, hk, hlen, hplace, hsome⟩ | rfl
  · rw [hlen]
    exact h.large_apart hb hr hq hne
  · rcases h.piece_cases hq with ⟨c, hc, hrc, rfl, hlen'⟩ | ⟨l, hl, hlen', hplace', -⟩ | rfl
    · rw [hlen']
      exact (h.large_apart hc hrc hp hne.symm).symm
    · rw [hlen, hlen']
      refine h.layout.blocks _ _ k l hk hl fun hstart => hne ?_
      exact h.piece_eq hp hq (by rw [← hplace, ← hplace', hstart]) hstart
    · rw [hlen]
      exact h.layout.tail _ _ hk
  · rcases h.piece_cases hq with ⟨c, hc, hrc, rfl, hlen'⟩ | ⟨l, hl, hlen', -⟩ | rfl
    · rw [hlen']
      exact (h.large_apart hc hrc hp hne.symm).symm
    · rw [hlen']
      exact (h.layout.tail _ _ hl).symm
    · exact absurd rfl hne

/-- **A block in use has a chunk to itself as far as it goes**: it is inside
one, with the size that was cut off for it. -/
theorem live_inChunk (h : Sound cfg s L) {b : Block} (hb : b ∈ s.live)
    (hr : b.size ≤ threshold) : ∃ n, canonicalize cfg b.size = some n ∧ b.size ≤ n ∧
      ∃ c ∈ s.allocList, c ≤ b.addr ∧ b.addr + n ≤ c + chunk := by
  obtain ⟨k, hk⟩ := exists_sizeToBucket cfg hr
  refine ⟨bucketToSize k, ?_, le_of_sizeToBucket hk, ?_⟩
  · rw [canonicalize_eq, hk]
    rfl
  · exact h.layout.inChunk _ _ ((h.holdings.bucket b hb hr).trans hk)

/-- **A free block is on one free list**, the one of its bucket. -/
theorem existsUnique_onList (h : Sound cfg s L) {a : ℕ} {b : Bucket} (ha : s.carved a = some b)
    (hlive : ∀ c ∈ s.live, c.addr ≠ a) (hhand : ∀ w, a ∉ hands (s.stack w)) :
    ∃ k : Key W, (s.OnList k a ∧ k.2 = b) ∧ ∀ k', s.OnList k' a → k' = k := by
  have hne : L.place a ≠ none := fun hc => by
    rw [(h.books.carved_iff a).mp hc] at ha
    cases ha
  obtain ⟨x, hx⟩ := Option.ne_none_iff_exists'.mp hne
  rcases x with k | _ | w
  · have hmem := (h.books.ledger.mem_iff k a).mpr hx
    refine ⟨k, ⟨h.onList_iff.mpr hmem, ?_⟩, fun k' hk' => ?_⟩
    · exact Option.some.inj ((h.books.mem_bucket hmem).symm.trans ha)
    · exact h.books.ledger.stack_unique (h.onList_iff.mp hk') hmem
  · obtain ⟨c, hc, -, hca⟩ := (h.holdings.mem_iff a).mp hx
    exact absurd hca (hlive c hc)
  · exact absurd ((h.hand w a).mp hx) (hhand w)

end Sound

/-! ## The calls -/

/-- `im_allocate_batch` and `im_free_batch` -/
def Frame.isBatch : Frame → Bool
  | .malloc .. | .free .. => false
  | _ => true

/-- The function is at `Cilk_mutex_wait`. -/
def Frame.waits : Frame → Bool
  | .allocateBatchWait .. | .freeBatchWait .. => true
  | _ => false

/-- How often the body of the function's `while` loop was entered. -/
def Frame.batches : Frame → ℕ
  | .malloc _ _ _ n | .free _ _ _ n => n
  | _ => 0

/-- The call waits for the lock. -/
def waits (fs : List Frame) : Bool := fs.any Frame.waits

/-- Worker `w` can go on, with some answer of the system. -/
def State.CanAdvance [DecidableEq W] (cfg : Config) (s : State W) (w : W) : Prop :=
  ∃ p s', s.advance cfg w p = some s'

/-- The list of a descriptor has the length its count says. -/
def State.Counted (cfg : Config) (s : State W) (k : Key W) : Prop :=
  ∃ l, Chain s.mem (s.descriptor k).freeList l ∧
    (s.descriptor k).count + l.length = cfg.allocBatchSize

namespace Shape

variable {len : Bucket → ℕ} {carved : ℕ → Option Bucket} {fs : List Frame}

/-- **No loop is entered twice.** -/
theorem batches_le (h : Shape cfg len carved fs) : ∀ f ∈ fs, f.batches ≤ 1 := by
  cases h <;> simp [Frame.batches]

/-- **No batch starts inside a batch.** -/
theorem length_batch_le (h : Shape cfg len carved fs) :
    (fs.filter Frame.isBatch).length ≤ 1 := by
  cases h <;> first | exact zero_le_one | exact le_rfl

/-- **A call does not wait for a lock it holds.** -/
theorem not_locked (h : Shape cfg len carved fs) (hw : waits fs = true) : locked fs = false := by
  cases h <;> simp [waits, locked, Frame.waits, Frame.locked] at hw ⊢

theorem remaining_le (h : Shape cfg len carved fs) : remaining cfg fs ≤ 3 * cfg.half + 4 := by
  cases h <;> simp only [remaining] <;> omega

end Shape

/-- The system can always find room. -/
theorem State.exists_fresh (s : State W) (n : ℕ) : ∃ p, s.Fresh p n := by
  have hchunk : ∀ c ∈ s.allocList, c + chunk ≤ (s.allocList.map (· + chunk)).sum := fun c hc =>
    List.single_le_sum (fun _ _ => Nat.zero_le _) _ (List.mem_map.mpr ⟨c, hc, rfl⟩)
  have hlive : ∀ b ∈ s.live, b.addr + b.size ≤ (s.live.map fun b => b.addr + b.size).sum :=
    fun b hb => List.single_le_sum (fun _ _ => Nat.zero_le _) _ (List.mem_map.mpr ⟨b, hb, rfl⟩)
  refine ⟨(s.allocList.map (· + chunk)).sum + (s.live.map fun b => b.addr + b.size).sum + 1,
    Nat.succ_pos _, fun c hc => .inr ?_, fun b hb _ => .inr ?_⟩
  · have := hchunk c hc
    omega
  · have := hlive b hb
    omega

namespace State

variable [DecidableEq W] {u w : W} {p : ℕ}

theorem goto_stack_of_ne (s : State W) (hu : u ≠ w) (fs : List Frame) :
    (s.goto w fs).stack u = s.stack u :=
  Function.update_of_ne hu ..

theorem mallocReturn_stack_of_ne {q r : ℕ} {fs : List Frame}
    (hst : s.mallocReturn w q r fs = some s') (hu : u ≠ w) : s'.stack u = s.stack u := by
  rw [mallocReturn.eq_def] at hst
  split at hst
  · cases hst
    exact goto_stack_of_ne _ hu _
  · cases hst
    exact goto_stack_of_ne _ hu _
  · cases hst

theorem callMalloc_stack_of_ne {r : ℕ} {fs : List Frame}
    (hst : s.callMalloc cfg w r p fs = some s') (hu : u ≠ w) : s'.stack u = s.stack u := by
  by_cases hr : threshold < r
  · simp only [callMalloc, gt_iff_lt, hr, if_true] at hst
    split_ifs at hst
    exact (mallocReturn_stack_of_ne hst hu).trans rfl
  · obtain ⟨b, hb⟩ := exists_sizeToBucket cfg (not_lt.mp hr)
    rw [Sound.callMalloc_eq hb, Option.some.injEq] at hst
    subst hst
    exact goto_stack_of_ne _ hu _

theorem callFree_stack_of_ne {q r : ℕ} {fs : List Frame}
    (hst : s.callFree cfg w q r fs = some s') (hu : u ≠ w) : s'.stack u = s.stack u := by
  by_cases hr : threshold < r
  · simp only [callFree, gt_iff_lt, hr, if_true, Option.some.injEq] at hst
    subst hst
    exact goto_stack_of_ne _ hu _
  · obtain ⟨b, hb⟩ := exists_sizeToBucket cfg (not_lt.mp hr)
    rw [Sound.callFree_eq hb, Option.some.injEq] at hst
    subst hst
    exact goto_stack_of_ne _ hu _

omit [DecidableEq W] in
theorem globalImAlloc_stack {n : ℕ} {b : Bucket} {r : State W × ℕ}
    (hr : s.globalImAlloc n b p = some r) : r.1.stack = s.stack := by
  simp only [globalImAlloc] at hr
  split_ifs at hr <;> cases hr <;> rfl

/-- **A step of a call is a step of one worker.** -/
theorem advance_stack_of_ne (hst : s.advance cfg w p = some s') (hu : u ≠ w) :
    s'.stack u = s.stack u := by
  rw [advance.eq_def] at hst
  split at hst
  · cases hst
  · dsimp only at hst
    split_ifs at hst
    · cases hst
      exact goto_stack_of_ne _ hu _
    · exact (mallocReturn_stack_of_ne hst hu).trans rfl
  · split_ifs at hst <;> cases hst <;> exact goto_stack_of_ne _ hu _
  · split_ifs at hst
    cases hst
    exact goto_stack_of_ne _ hu _
  · split_ifs at hst
    · obtain ⟨r, hr, rfl⟩ := Option.map_eq_some_iff.mp hst
      rw [goto_stack_of_ne _ hu, globalImAlloc_stack hr]
    · cases hst
      exact goto_stack_of_ne _ hu _
  · exact callFree_stack_of_ne hst hu
  · split_ifs at hst
    cases hst
    exact goto_stack_of_ne _ hu _
  · split_ifs at hst
    · exact callMalloc_stack_of_ne hst hu
    · cases hst
      exact goto_stack_of_ne _ hu _
  · cases hst
    exact goto_stack_of_ne _ hu _

end State

namespace Sound

variable [Fintype W] [DecidableEq W] {w : W}

omit [Fintype W] [DecidableEq W] in
/-- `global_im_alloc` returns, if the system does. -/
theorem exists_globalImAlloc (s : State W) (size : ℕ) (b : Bucket) :
    ∃ p r, s.globalImAlloc size b p = some r := by
  obtain ⟨p, hp⟩ := s.exists_fresh chunk
  have hp' : State.Fresh { s with globalImInfo := s.globalImInfo.add size 1 } p chunk := hp
  refine ⟨p, ?_⟩
  simp only [State.globalImAlloc]
  split_ifs
  · exact ⟨_, rfl⟩
  · exact ⟨_, rfl⟩
  · exact ⟨_, rfl⟩

/-- **A call goes on**, unless it waits for a lock that is taken. -/
theorem canAdvance (h : Sound cfg s L) (hw : s.stack w ≠ [])
    (hwait : waits (s.stack w) = false ∨ s.globalImLock = none) : s.CanAdvance cfg w := by
  have hshape := h.shape w
  generalize hfs : s.stack w = fs at hshape hw hwait
  cases hshape with
  | idle => exact absurd rfl hw
  | malloc | refilled =>
    refine ⟨0, ?_⟩
    simp only [State.advance, hfs, mallocReturn]
    split_ifs
    · exact ⟨_, rfl⟩
    · exact ⟨_, rfl⟩
  | allocateWait | freeWait =>
    have hfree := hwait.resolve_left (by simp [waits, Frame.waits])
    refine ⟨0, ?_⟩
    simp only [State.advance, hfs, hfree, if_true]
    exact ⟨_, rfl⟩
  | @allocate r i b =>
    obtain ⟨p, t, ht⟩ := exists_globalImAlloc s (bucketToSize b) b
    refine ⟨p, ?_⟩
    simp only [State.advance, hfs, ht, Option.map_some]
    split_ifs
    · exact ⟨_, rfl⟩
    · exact ⟨_, rfl⟩
  | allocateGot hr =>
    refine ⟨0, ?_⟩
    simp only [State.advance, hfs, callFree_eq (sizeToBucket_bucketToSize hr)]
    exact ⟨_, rfl⟩
  | allocateFree | free | drained =>
    refine ⟨0, ?_⟩
    simp only [State.advance, hfs]
    split_ifs
    · exact ⟨_, rfl⟩
    · exact ⟨_, rfl⟩
  | freeBatch hr =>
    refine ⟨0, ?_⟩
    simp only [State.advance, hfs, callMalloc_eq hr]
    split_ifs
    · exact ⟨_, rfl⟩
    · exact ⟨_, rfl⟩
  | freeMalloc =>
    refine ⟨0, ?_⟩
    simp only [State.advance, hfs, mallocReturn]
    split_ifs
    · exact ⟨_, rfl⟩
    · exact ⟨_, rfl⟩
  | freeGot =>
    refine ⟨0, ?_⟩
    simp only [State.advance, hfs]
    exact ⟨_, rfl⟩

/-- **A worker that cannot go on waits for one that can**, and that is
another one. -/
theorem exists_canAdvance (h : Sound cfg s L) (hw : s.stack w ≠ [])
    (hstuck : ¬ s.CanAdvance cfg w) :
    ∃ u, u ≠ w ∧ s.globalImLock = some u ∧ s.CanAdvance cfg u := by
  have hwait : waits (s.stack w) = true := by
    by_contra hno
    exact hstuck (h.canAdvance hw (.inl (Bool.eq_false_of_not_eq_true hno)))
  obtain ⟨u, hu⟩ : ∃ u, s.globalImLock = some u := by
    rw [← Option.ne_none_iff_exists']
    exact fun hnone => hstuck (h.canAdvance hw (.inr hnone))
  have hlocked : locked (s.stack u) = true := (h.lock u).mp hu
  refine ⟨u, ?_, hu, h.canAdvance ?_ (.inl ?_)⟩
  · rintro rfl
    rw [(h.shape u).not_locked hwait] at hlocked
    cases hlocked
  · intro hnil
    rw [hnil] at hlocked
    cases hlocked
  · by_contra hno
    rw [(h.shape u).not_locked (Bool.eq_true_of_not_eq_false hno)] at hlocked
    cases hlocked

/-- **A step of a call leaves less to do**, over all workers. -/
theorem sum_remaining_lt (h : Sound cfg s L) {p : ℕ} (hst : s.advance cfg w p = some s') :
    ∑ u, remaining cfg (s'.stack u) < ∑ u, remaining cfg (s.stack u) := by
  refine Finset.sum_lt_sum (fun u _ => ?_) ⟨w, Finset.mem_univ w, (h.advance hst).2⟩
  rcases eq_or_ne u w with rfl | hu
  · exact (h.advance hst).2.le
  · rw [advance_stack_of_ne hst hu]

/-- **Calls that are left alone end**: what the workers can do without the
program making new calls is bounded. -/
theorem length_add_remaining_le (h : Sound cfg s L) {as : List (W × ℕ)}
    (hrun : (allocator cfg mem).run (as.map fun a => .advance a.1 a.2) s = some s') :
    as.length + ∑ u, remaining cfg (s'.stack u) ≤ ∑ u, remaining cfg (s.stack u) := by
  induction as generalizing s L with
  | nil =>
    cases hrun
    rw [List.length_nil, zero_add]
  | cons a as ih =>
    obtain ⟨t, ht, hrest⟩ := Option.bind_eq_some_iff.mp hrun
    have hlt := h.sum_remaining_lt (show s.advance cfg a.1 a.2 = some t from ht)
    obtain ⟨⟨L', h'⟩, -⟩ := h.advance (show s.advance cfg a.1 a.2 = some t from ht)
    have := ih h' hrest
    rw [List.length_cons]
    omega

omit [DecidableEq W] in
/-- **Outside calls the accounts balance**, as far as an `int` can tell. -/
theorem accounts (h : Sound cfg s L) (hidle : ∀ w, s.stack w = []) :
    s.total = (s.requested : CInt) ∧ s.tm = (s.live.length : CInt) := by
  have hnet : ∀ w, s.net w = ((s.imInfo w).used, (s.imInfo w).nmalloc) := fun w => by
    rw [State.net, hidle w]
    exact sub_zero _
  have hout : ∀ live : List Block, (live.map fun b => ((b.size : CInt), (1 : CInt))).sum =
      (((live.map Block.size).sum : CInt), (live.length : CInt)) := by
    intro live
    induction live with
    | nil => rfl
    | cons b live ih =>
      rw [List.map_cons, List.sum_cons, ih, Prod.mk_add_mk, List.map_cons, List.sum_cons,
        List.length_cons, Nat.cast_succ, Nat.cast_add, add_comm (1 : CInt)]
  have hbalance := h.balance
  simp only [hnet, State.globalNet, State.outstanding, hout] at hbalance
  have hfst := congrArg Prod.fst hbalance
  have hsnd := congrArg Prod.snd hbalance
  rw [Prod.fst_add, Prod.fst_sum, add_comm] at hfst
  rw [Prod.snd_add, Prod.snd_sum, add_comm] at hsnd
  exact ⟨hfst, hsnd⟩

end Sound

/-! ## The two contracts -/

variable [Fintype W] [DecidableEq W]

/-- **The allocator never hands out overlapping memory.** In every state that
the workers and the program reach, no two pieces of memory overlap, and each
of them is there once: no free list has a block twice, no address is handed
out twice. A block of the program up to the threshold lies inside a chunk,
with at least the size that was asked for. A block that was cut from the pool
is in use, or in the hands of a call, or on one free list, that of its
bucket. -/
theorem memory_never_overlaps (hs : (allocator cfg mem).Reachable s) :
    (∀ p q : Piece W, p.Is s → q.Is s → p ≠ q →
      Apart (p.start s) (p.length cfg s) (q.start s) (q.length cfg s)) ∧
    (s.live.map Block.addr).Nodup ∧
    (∀ k, ∃ l, Chain s.mem (s.descriptor k).freeList l ∧ l.Nodup) ∧
    (∀ b ∈ s.live, b.size ≤ threshold → ∃ n, canonicalize cfg b.size = some n ∧ b.size ≤ n ∧
      ∃ c ∈ s.allocList, c ≤ b.addr ∧ b.addr + n ≤ c + chunk) ∧
    (∀ a b, s.carved a = some b → (∀ c ∈ s.live, c.addr ≠ a) →
      (∀ w, a ∉ hands (s.stack w)) →
      ∃ k : Key W, (s.OnList k a ∧ k.2 = b) ∧ ∀ k', s.OnList k' a → k' = k) ∧
    ∀ k a, s.OnList k a → s.carved a = some k.2 := by
  obtain ⟨L, h⟩ := Sound.reachable hs
  refine ⟨fun p q => h.pieces_apart, h.holdings.nodup, fun k => ?_, fun b => h.live_inChunk,
    fun a b => h.existsUnique_onList, fun k a hka => ?_⟩
  · exact ⟨_, h.books.chain k, h.books.ledger.nodup k⟩
  · exact h.books.mem_bucket (h.onList_iff.mp hka)

/-- The smallest batches, on a machine with short cache lines. -/
def smallBatches : Config := ⟨32, by decide, 8, by decide⟩

/-- A worker gets a small block, for which the pool is filled, and a large
one. -/
def twoBlocks : List (Action (Fin 1)) :=
  .malloc (Fin.last 0) 100 0 :: List.replicate 16 (.advance (Fin.last 0) 1024) ++
    [.malloc (Fin.last 0) 5000 65536]

theorem memory_never_overlaps_two : ∃ s : State (Fin 1),
    (allocator smallBatches fun _ => 0).Reachable s ∧
      s.live = [⟨65536, 5000⟩, ⟨1408, 100⟩] ∧ Apart 65536 5000 1408 128 := by
  obtain ⟨s, hs, hlive⟩ := TransitionSystem.Reachable.of_eval
    (M := allocator smallBatches fun _ => 0) twoBlocks
    (fun s => s.live == [⟨65536, 5000⟩, ⟨1408, 100⟩]) (by decide +kernel)
  rw [beq_iff_eq] at hlive
  have := (memory_never_overlaps hs).1 (.live ⟨65536, 5000⟩) (.live ⟨1408, 100⟩)
    (by simp [Piece.Is, hlive]) (by simp [Piece.Is, hlive]) (by simp)
  exact ⟨s, hs, hlive, this⟩

/-- **Batching ends and keeps the counts.** In every state that the workers
and the program reach:
* the count of every descriptor, of a worker or shared, is what its list
  leaves of `alloc_batch_size`, and that of a worker is between the bounds;
* no worker is in two batches at once, none waits for the lock while it has
  it, and no loop is entered more than once in a call;
* a call has at most `3 * (alloc_batch_size / 2) + 4` steps to go, each step
  leaves fewer, and together the workers cannot go on for longer than that;
  a call that cannot go on waits for the lock, and the worker that has it can;
* outside calls, the accounts of the workers and the shared one add up to what
  the program holds, in `int`: modulo `2 ^ 32`, and so exactly as long as that
  is less than `2 ^ 31` bytes. -/
theorem batches_end_and_balance (hs : (allocator cfg mem).Reachable s) :
    ((∀ k, s.Counted cfg k) ∧ ∀ w b, 0 ≤ (s.imDescriptor w b).count ∧
      (s.imDescriptor w b).count ≤ cfg.allocBatchSize) ∧
    (∀ w, ((s.stack w).filter Frame.isBatch).length ≤ 1 ∧
      (waits (s.stack w) = true → s.globalImLock ≠ some w) ∧
      ∀ f ∈ s.stack w, f.batches ≤ 1) ∧
    ((∀ w, remaining cfg (s.stack w) ≤ 3 * cfg.half + 4) ∧
      (∀ w p s', s.advance cfg w p = some s' →
        remaining cfg (s'.stack w) < remaining cfg (s.stack w) ∧
          ∀ u, u ≠ w → s'.stack u = s.stack u) ∧
      (∀ as : List (W × ℕ), ∀ s',
        (allocator cfg mem).run (as.map fun a => .advance a.1 a.2) s = some s' →
          as.length + ∑ u, remaining cfg (s'.stack u) ≤ ∑ u, remaining cfg (s.stack u)) ∧
      ∀ w, s.stack w ≠ [] → ¬ s.CanAdvance cfg w →
        ∃ u, u ≠ w ∧ s.globalImLock = some u ∧ s.CanAdvance cfg u) ∧
    ((∀ w, s.stack w = []) → s.total = (s.requested : CInt) ∧
      (s.total.toInt = s.requested ↔ s.requested < 2 ^ 31) ∧ s.tm = (s.live.length : CInt)) := by
  obtain ⟨L, h⟩ := Sound.reachable hs
  refine ⟨⟨fun k => ⟨_, h.books.chain k, h.books.count k⟩, fun w b => ?_⟩, fun w => ?_,
    ⟨fun w => (h.shape w).remaining_le,
      fun w p s' hst => ⟨(h.advance hst).2, fun u hu => advance_stack_of_ne hst hu⟩,
      fun as s' => h.length_add_remaining_le, fun w => h.exists_canAdvance⟩, fun hidle => ?_⟩
  · have hlen := h.length_le w b
    have hcount := h.count_eq (w := w) b
    omega
  · refine ⟨(h.shape w).length_batch_le, fun hwait hlock => ?_, (h.shape w).batches_le⟩
    have hlocked : locked (s.stack w) = true := (h.lock w).mp hlock
    rw [(h.shape w).not_locked hwait] at hlocked
    cases hlocked
  · obtain ⟨htotal, htm⟩ := h.accounts hidle
    exact ⟨htotal, by rw [htotal]; exact toInt_natCast_eq_iff _, htm⟩

/-- A worker gets a block, and gives it back. -/
def oneBlock : List (Action (Fin 1)) :=
  .malloc (Fin.last 0) 100 0 :: List.replicate 16 (.advance (Fin.last 0) 1024) ++
    [.freeFast (Fin.last 0) ⟨1408, 100⟩]

theorem batches_end_and_balance_one : ∃ s : State (Fin 1),
    (allocator smallBatches fun _ => 0).Reachable s ∧ (s.imInfo 0).used.toInt = -512 ∧
      s.globalImInfo.used.toInt = 512 ∧ s.total.toInt = 0 := by
  obtain ⟨s, hs, hp⟩ := TransitionSystem.Reachable.of_eval
    (M := allocator smallBatches fun _ => 0) oneBlock
    (fun s => (s.imInfo 0).used.toInt == -512 && s.globalImInfo.used.toInt == 512 &&
      s.live == [] && s.stack 0 == []) (by decide +kernel)
  simp only [Bool.and_eq_true, beq_iff_eq] at hp
  obtain ⟨⟨⟨hused, hglobal⟩, hlive⟩, hidle⟩ := hp
  have hall : ∀ w, s.stack w = [] := fun w => by
    rw [Subsingleton.elim w 0]
    exact hidle
  have hrequested : s.requested = 0 := by rw [State.requested, hlive]; rfl
  refine ⟨s, hs, hused, hglobal, ?_⟩
  have := ((batches_end_and_balance hs).2.2.2 hall).2.1.mpr (by rw [hrequested]; decide)
  rw [this, hrequested]
  rfl

/-- A block of 3000000000 bytes does not fit into an `int`: outside calls,
the accounts add up to something else than what the program holds. -/
theorem used_wraps_around : ¬ ∀ s : State (Fin 1),
    (allocator smallBatches fun _ => 0).Reachable s → (∀ w, s.stack w = []) →
      s.globalImInfo.used.toInt + ∑ w, (s.imInfo w).used.toInt = s.requested := by
  intro hall
  obtain ⟨s, hs, hp⟩ := TransitionSystem.Reachable.of_eval
    (M := allocator smallBatches fun _ => 0) [.malloc (Fin.last 0) 3000000000 1024]
    (fun s => s.globalImInfo.used.toInt == 0 && (s.imInfo 0).used.toInt == -1294967296 &&
      s.stack 0 == []) (by decide +kernel)
  simp only [Bool.and_eq_true, beq_iff_eq] at hp
  obtain ⟨⟨hglobal, hused⟩, hidle⟩ := hp
  have hsum := hall s hs fun w => by rw [Subsingleton.elim w 0]; exact hidle
  rw [hglobal, Fintype.sum_unique, show (default : Fin 1) = 0 from rfl, hused] at hsum
  omega

end Cilk.Allocator
