import Mathlib.Data.Fin.Basic
import Mathlib.Data.List.FinRange
import Mathlib.Tactic

/-!
# The sizes of the internal allocator

A request up to `CILK_INTERNAL_MALLOC_THRESHOLD` is rounded up to one of nine
sizes, but never below a cache line; the blocks of a size have a bucket of
their own. The three functions of `cilk.h` between requests, sizes and
buckets are chains of macros over the same table, which is `bucketToSize`
here.
-/

namespace Cilk.Allocator

/-- An index below `CILK_INTERNAL_MALLOC_BUCKETS`. -/
abbrev Bucket := Fin 9

/-- `CILK_INTERNAL_MALLOC_THRESHOLD` -/
def threshold : ℕ := 4096

/-- `CILK_INTERNAL_MALLOC_CHUNK` -/
def chunk : ℕ := 32 * 1024

/-- `DEFAULT_ALLOC_LIST_SIZE` -/
def defaultAllocListSize : ℕ := 10

/-- What the allocator is compiled and started with. -/
structure Config where
  /-- `CILK_CACHE_LINE`, by architecture. -/
  cacheLine : ℕ
  cacheLine_mem : cacheLine ∈ [32, 64, 128]
  /-- `options->alloc_batch_size` -/
  allocBatchSize : ℕ
  le_allocBatchSize : 8 ≤ allocBatchSize

/-- `alloc_batch_size` after `Cilk_parse_command_line`, with the value of
`--alloc-batch` where it is given. -/
def parseAllocBatch : Option ℤ → ℤ
  | none => 64
  | some n => if n < 8 then 8 else n

/-- **The parser admits no batch below 8**, whatever the argument. -/
theorem le_parseAllocBatch (arg : Option ℤ) : 8 ≤ parseAllocBatch arg := by
  cases arg with
  | none => decide
  | some n =>
    rw [parseAllocBatch]
    split_ifs with h
    · exact le_rfl
    · exact not_lt.mp h

/-- The configuration a command line gives. -/
def Config.parsed (cacheLine : ℕ) (h : cacheLine ∈ [32, 64, 128]) (arg : Option ℤ) : Config where
  cacheLine := cacheLine
  cacheLine_mem := h
  allocBatchSize := (parseAllocBatch arg).toNat
  le_allocBatchSize := by
    have := le_parseAllocBatch arg
    omega

/-- `Cilk_internal_malloc_bucket_to_size` -/
def bucketToSize : Bucket → ℕ
  | 0 => 16 | 1 => 32 | 2 => 64 | 3 => 128 | 4 => 256 | 5 => 512 | 6 => 1024 | 7 => 2048 | 8 => 4096

/-- `Cilk_internal_malloc_size_to_bucket`; `none` is its `-1`. -/
def sizeToBucket (cfg : Config) (size : ℕ) : Option Bucket :=
  (List.finRange 9).find? fun b => size ≤ bucketToSize b && cfg.cacheLine ≤ bucketToSize b

/-- `Cilk_internal_malloc_canonicalize`; `none` is its `-1`. -/
def canonicalize (cfg : Config) (size : ℕ) : Option ℕ :=
  ((List.finRange 9).map bucketToSize).find? fun n => size ≤ n && cfg.cacheLine ≤ n

variable {cfg : Config}

/-- The two searches of the table stop at the same entry. -/
theorem canonicalize_eq (size : ℕ) :
    canonicalize cfg size = (sizeToBucket cfg size).map bucketToSize := by
  rw [canonicalize, sizeToBucket, List.find?_map]
  rfl

/-- **A bucket is at least as large as what it is asked for.** -/
theorem le_of_sizeToBucket {size : ℕ} {b : Bucket} (h : sizeToBucket cfg size = some b) :
    size ≤ bucketToSize b := by
  have := List.find?_some h
  simp only [Bool.and_eq_true, decide_eq_true_eq] at this
  exact this.1

/-- **Every request up to the threshold has a bucket.** -/
theorem exists_sizeToBucket (cfg : Config) {size : ℕ} (h : size ≤ threshold) :
    ∃ b, sizeToBucket cfg size = some b := by
  rw [← Option.isSome_iff_exists, sizeToBucket, List.find?_isSome]
  refine ⟨8, List.mem_finRange _, ?_⟩
  have hline : cfg.cacheLine ≤ 4096 := by
    have := cfg.cacheLine_mem
    simp only [List.mem_cons, List.not_mem_nil, or_false] at this
    omega
  exact Bool.and_eq_true_iff.mpr ⟨decide_eq_true h, decide_eq_true hline⟩

/-- A size of the table is in its own bucket: what was allocated with the
rounded size and what was freed with the size of the request meet. -/
theorem sizeToBucket_bucketToSize {size : ℕ} {b : Bucket} (h : sizeToBucket cfg size = some b) :
    sizeToBucket cfg (bucketToSize b) = some b := by
  have hfirst : ∀ line ∈ [32, 64, 128], ∀ b : Bucket, line ≤ bucketToSize b →
      ((List.finRange 9).find? fun c =>
        bucketToSize b ≤ bucketToSize c && line ≤ bucketToSize c) = some b := by decide
  have hb := List.find?_some h
  simp only [Bool.and_eq_true, decide_eq_true_eq] at hb
  exact hfirst cfg.cacheLine cfg.cacheLine_mem b hb.2

end Cilk.Allocator
