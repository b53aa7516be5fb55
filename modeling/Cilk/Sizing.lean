import Mathlib.Algebra.BigOperators.Group.List.Basic
import Mathlib.Algebra.Order.BigOperators.Group.List
import Mathlib.Order.Monotone.Basic
import Mathlib.Tactic

/-!
# Sizes that are known by their order

Things are sorted into classes, and the things of a class have one size. All
that is known of the sizes is that they go with an order of the classes, and
the size of one class, which is the unit.

A bound on a size is a bound for every choice of sizes that is possible. Such a
bound can be read off the classes: `Sizing.forall_le_total_iff` says that `n`
things of a class are never larger than a list of things together exactly if
the list has `n` things whose classes are at least as large.
-/

/-- Sizes that go with the order of the classes, in units of one of them. -/
structure Sizing (α : Type*) [Preorder α] (unit : α) where
  size : α → ℕ
  mono : Monotone size
  size_unit : size unit = 1

namespace Sizing

variable {α : Type*} [Preorder α] {unit : α}

/-- The size of a list, of which each entry is a number of things of one
class. -/
def total (s : Sizing α unit) (l : List (α × ℕ)) : ℕ :=
  (l.map fun m => m.2 * s.size m.1).sum

@[simp] theorem total_nil (s : Sizing α unit) : s.total [] = 0 := rfl

@[simp] theorem total_cons (s : Sizing α unit) (m : α × ℕ) (l : List (α × ℕ)) :
    s.total (m :: l) = m.2 * s.size m.1 + s.total l := rfl

variable [DecidableLE α]

/-- How many things on the list are of a class that is at least `a`. -/
def count (a : α) (l : List (α × ℕ)) : ℕ :=
  (l.map fun m => if a ≤ m.1 then m.2 else 0).sum

@[simp] theorem count_nil (a : α) : count a [] = 0 := rfl

@[simp] theorem count_cons (a : α) (m : α × ℕ) (l : List (α × ℕ)) :
    count a (m :: l) = (if a ≤ m.1 then m.2 else 0) + count a l := rfl

/-- **The list has room for `m`**, whatever the sizes are. -/
def Room (m : α × ℕ) (l : List (α × ℕ)) : Prop := m.2 ≤ count m.1 l

instance (m : α × ℕ) (l : List (α × ℕ)) : Decidable (Room m l) :=
  inferInstanceAs (Decidable (_ ≤ _))

/-- There is room for a thing where there is another of its class. -/
theorem room_self (m : α × ℕ) (l : List (α × ℕ)) : Room m (m :: l) := by
  unfold Room
  rw [count_cons, if_pos le_rfl]
  exact Nat.le_add_right _ _

/-- The things of a large class are large. -/
theorem count_mul_size_le (s : Sizing α unit) (a : α) (l : List (α × ℕ)) :
    count a l * s.size a ≤ s.total l := by
  induction l with
  | nil => rw [count_nil, Nat.zero_mul, total_nil]
  | cons m l ih =>
    rw [count_cons, total_cons, Nat.add_mul]
    refine Nat.add_le_add ?_ ih
    split_ifs with h
    · exact Nat.mul_le_mul_left _ (s.mono h)
    · rw [Nat.zero_mul]
      exact Nat.zero_le _

/-- What there is room for fits. -/
theorem Room.le_total {m : α × ℕ} {l : List (α × ℕ)} (h : Room m l) (s : Sizing α unit) :
    m.2 * s.size m.1 ≤ s.total l :=
  calc m.2 * s.size m.1 ≤ count m.1 l * s.size m.1 := Nat.mul_le_mul_right _ h
    _ ≤ s.total l := s.count_mul_size_le m.1 l

/-! ## The sizes that tell the classes apart -/

/-- Everything from `a` upwards is as large as `n`, and the rest as small as it
can be. Where the unit is above `a`, so that `a` has no size to choose, `n` is
one. -/
def raise (unit a : α) (n : ℕ) (hn : 0 < n) (hunit : a ≤ unit → n = 1) : Sizing α unit where
  size b := if a ≤ b then n else if unit ≤ b then 1 else 0
  mono := by
    intro b c hbc
    by_cases hb : a ≤ b
    · dsimp only
      rw [if_pos hb, if_pos (hb.trans hbc)]
    · dsimp only
      rw [if_neg hb]
      split_ifs with hub hc huc
      · exact hn
      · exact le_rfl
      · exact absurd (hub.trans hbc) huc
      all_goals exact Nat.zero_le _
  size_unit := by
    split_ifs with h h'
    · exact hunit h
    · rfl
    · exact absurd le_rfl h'

/-- The rest of the list is no larger than the number of its things. -/
theorem total_raise_le (a : α) {n : ℕ} (hn : 0 < n) (hunit : a ≤ unit → n = 1)
    (l : List (α × ℕ)) :
    (raise unit a n hn hunit).total l ≤ count a l * n + (l.map Prod.snd).sum := by
  induction l with
  | nil => exact Nat.zero_le _
  | cons m l ih =>
    rw [total_cons, count_cons, List.map_cons, List.sum_cons, Nat.add_mul]
    have hm : m.2 * (raise unit a n hn hunit).size m.1 ≤
        (if a ≤ m.1 then m.2 else 0) * n + m.2 := by
      show m.2 * (if a ≤ m.1 then n else if unit ≤ m.1 then 1 else 0) ≤ _
      split_ifs <;> omega
    omega

/-- Where `a` is no larger than the unit, nothing but what counts has a
size. -/
theorem total_raise_one (a : α) (ha : a ≤ unit) (l : List (α × ℕ)) :
    (raise unit a 1 Nat.one_pos fun _ => rfl).total l = count a l := by
  induction l with
  | nil => rfl
  | cons m l ih =>
    rw [total_cons, count_cons, ih]
    congr 1
    show m.2 * (if a ≤ m.1 then 1 else if unit ≤ m.1 then 1 else 0) = _
    split_ifs with h h'
    · exact Nat.mul_one _
    · exact absurd (ha.trans h') h
    · exact Nat.mul_zero _

theorem size_raise (a : α) {n : ℕ} (hn : 0 < n) (hunit : a ≤ unit → n = 1) :
    (raise unit a n hn hunit).size a = n := if_pos le_rfl

variable (unit) in
/-- **A bound for all sizes is a matter of the classes.** -/
theorem forall_le_total_iff {m : α × ℕ} {l : List (α × ℕ)} :
    (∀ s : Sizing α unit, m.2 * s.size m.1 ≤ s.total l) ↔ Room m l := by
  refine ⟨fun h => ?_, fun h s => h.le_total s⟩
  by_cases ha : m.1 ≤ unit
  · have hle := h (raise unit m.1 1 Nat.one_pos fun _ => rfl)
    rw [size_raise, total_raise_one m.1 ha, Nat.mul_one] at hle
    exact hle
  · -- one thing more than the list counts is larger than all the rest of the list
    have hpos : 0 < (l.map Prod.snd).sum + 1 := Nat.succ_pos _
    have hle := (h (raise unit m.1 _ hpos fun hu => absurd hu ha)).trans
      (total_raise_le m.1 hpos _ l)
    rw [size_raise] at hle
    by_contra hroom
    have hmore : count m.1 l + 1 ≤ m.2 := not_le.mp hroom
    have hmul := Nat.mul_le_mul_right ((l.map Prod.snd).sum + 1) hmore
    rw [Nat.add_mul] at hmul
    omega

end Sizing
