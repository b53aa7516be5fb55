import Mathlib.Data.List.Basic
import Mathlib.Tactic

/-!
# Linked lists in memory

A list of nodes threaded through memory: the word at a node is the next
node, and 0 ends the list. `Chain mem p l` says that `p` heads the list `l`.
The rules are those of a stack of free blocks: what is read at the head, a
push, a pop, and that writes elsewhere do not matter.
-/

/-- `p` is the head of the list `l` in the memory `mem`. -/
def Chain (mem : ℕ → ℕ) : ℕ → List ℕ → Prop
  | p, [] => p = 0
  | p, a :: l => p = a ∧ a ≠ 0 ∧ Chain mem (mem a) l

namespace Chain

variable {mem mem' : ℕ → ℕ} {p a : ℕ} {l l' : List ℕ}

/-- The null pointer heads the empty list alone. -/
theorem nil_iff (h : Chain mem p l) : p = 0 ↔ l = [] := by
  cases l with
  | nil => exact iff_of_true h rfl
  | cons a l => exact iff_of_false (h.1 ▸ h.2.1) (List.cons_ne_nil a l)

/-- A pointer that is not null is the first node. -/
theorem exists_cons (h : Chain mem p l) (hp : p ≠ 0) :
    ∃ l', l = p :: l' ∧ Chain mem (mem p) l' := by
  cases l with
  | nil => exact absurd h hp
  | cons a l =>
    obtain ⟨rfl, -, h⟩ := h
    exact ⟨l, rfl, h⟩

/-- The list is determined by its head. -/
theorem unique (h : Chain mem p l) (h' : Chain mem p l') : l = l' := by
  induction l generalizing p l' with
  | nil => exact (h'.nil_iff.mp h).symm
  | cons a l ih =>
    obtain ⟨hp, hne, h⟩ := h
    subst hp
    obtain ⟨l', hl', h'⟩ := h'.exists_cons hne
    rw [hl', ih h h']

/-- **Frame**: what is written outside the nodes does not matter. -/
theorem frame (h : Chain mem p l) (hmem : ∀ a ∈ l, mem' a = mem a) : Chain mem' p l := by
  induction l generalizing p with
  | nil => exact h
  | cons a l ih =>
    obtain ⟨hp, hne, h⟩ := h
    obtain ⟨ha, hl⟩ := List.forall_mem_cons.mp hmem
    exact ⟨hp, hne, ha ▸ ih h hl⟩

/-- Pushing a node in front. -/
theorem push (h : Chain mem p l) (ha : a ≠ 0) (hl : a ∉ l) :
    Chain (Function.update mem a p) a (a :: l) := by
  refine ⟨rfl, ha, ?_⟩
  rw [Function.update_self]
  exact h.frame fun b hb => Function.update_of_ne (fun he : b = a => hl (he ▸ hb)) _ _

end Chain
