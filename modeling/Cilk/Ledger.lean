import Mathlib.Data.List.Basic
import Mathlib.Logic.Function.Basic
import Mathlib.Tactic

/-!
# Ledgers

Items that lie on numbered stacks or at other places, each of them at one
place. A ledger notes both views, the stacks by their contents and the items
by their place, and `Ledger.Valid` says that they agree. An item is taken off
the top of a stack, put on top of one, or moved between other places.
-/

/-- Which items are on which stack, and where every item is. -/
structure Ledger (ι κ η : Type*) where
  /-- The contents of each stack, top first. -/
  stack : κ → List ι
  /-- The place of each item: a stack, or another place. -/
  place : ι → Option (κ ⊕ η)

namespace Ledger

variable {ι κ η : Type*}

/-- **The two views agree**, and no stack has an item twice. -/
structure Valid (L : Ledger ι κ η) : Prop where
  mem_iff : ∀ k i, i ∈ L.stack k ↔ L.place i = some (.inl k)
  nodup : ∀ k, (L.stack k).Nodup

variable [DecidableEq ι] [DecidableEq κ]

/-- Item `i` goes on top of stack `k`. -/
def push (L : Ledger ι κ η) (k : κ) (i : ι) : Ledger ι κ η where
  stack := Function.update L.stack k (i :: L.stack k)
  place := Function.update L.place i (some (.inl k))

/-- Item `i` is taken off stack `k`, which keeps `l`, and goes to place `e`. -/
def pop (L : Ledger ι κ η) (k : κ) (i : ι) (l : List ι) (e : η) : Ledger ι κ η where
  stack := Function.update L.stack k l
  place := Function.update L.place i (some (.inr e))

@[simp] theorem stack_push_self (L : Ledger ι κ η) (k : κ) (i : ι) :
    (L.push k i).stack k = i :: L.stack k :=
  Function.update_self ..

@[simp] theorem stack_pop_self (L : Ledger ι κ η) (k : κ) (i : ι) (l : List ι) (e : η) :
    (L.pop k i l e).stack k = l :=
  Function.update_self ..

theorem stack_push_of_ne (L : Ledger ι κ η) {k m : κ} (h : m ≠ k) (i : ι) :
    (L.push k i).stack m = L.stack m :=
  Function.update_of_ne h ..

theorem stack_pop_of_ne (L : Ledger ι κ η) {k m : κ} (h : m ≠ k) (i : ι) (l : List ι) (e : η) :
    (L.pop k i l e).stack m = L.stack m :=
  Function.update_of_ne h ..

omit [DecidableEq κ] in
/-- Item `i` goes to a place that is not a stack, or away. -/
def move (L : Ledger ι κ η) (i : ι) (e : Option η) : Ledger ι κ η where
  stack := L.stack
  place := Function.update L.place i (e.map .inr)

namespace Valid

variable {L : Ledger ι κ η} {k : κ} {i : ι}

omit [DecidableEq ι] [DecidableEq κ] in
/-- An item that is elsewhere is on no stack. -/
theorem not_mem (h : L.Valid) (hi : ∀ k, L.place i ≠ some (.inl k)) (k : κ) : i ∉ L.stack k :=
  fun hmem => hi k ((h.mem_iff k i).mp hmem)

omit [DecidableEq ι] [DecidableEq κ] in
/-- An item is on one stack only. -/
theorem stack_unique (h : L.Valid) {k' : κ} (hk : i ∈ L.stack k) (hk' : i ∈ L.stack k') :
    k = k' := by
  have := ((h.mem_iff k i).mp hk).symm.trans ((h.mem_iff k' i).mp hk')
  exact Sum.inl.inj (Option.some.inj this)

theorem push (h : L.Valid) (hi : ∀ k, L.place i ≠ some (.inl k)) : (L.push k i).Valid := by
  refine ⟨fun m j => ?_, fun m => ?_⟩
  · have hmem := h.mem_iff m j
    have hnot := h.not_mem hi
    simp only [Ledger.push, Function.update_apply]
    split_ifs <;> grind
  · simp only [Ledger.push, Function.update_apply]
    split_ifs with hm
    · exact List.nodup_cons.mpr ⟨h.not_mem hi k, h.nodup k⟩
    · exact h.nodup m

theorem pop (h : L.Valid) {l : List ι} (hl : L.stack k = i :: l) (e : η) :
    (L.pop k i l e).Valid := by
  have hnd := h.nodup k
  rw [hl, List.nodup_cons] at hnd
  refine ⟨fun m j => ?_, fun m => ?_⟩
  · have hmem := h.mem_iff m j
    have hk := h.mem_iff k j
    have hi := (h.mem_iff k i).mp (hl ▸ List.mem_cons_self)
    simp only [Ledger.pop, Function.update_apply]
    split_ifs <;> grind
  · simp only [Ledger.pop, Function.update_apply]
    split_ifs with hm
    · exact hnd.2
    · exact h.nodup m

omit [DecidableEq κ] in
theorem move (h : L.Valid) (hi : ∀ k, L.place i ≠ some (.inl k)) (e : Option η) :
    (L.move i e).Valid := by
  refine ⟨fun m j => ?_, h.nodup⟩
  have hnot := h.not_mem hi m
  simp only [Ledger.move, Function.update_apply]
  split_ifs with hj
  · subst hj
    refine iff_of_false hnot ?_
    cases e <;> simp
  · exact h.mem_iff m j

end Valid

end Ledger
