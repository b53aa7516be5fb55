import Mathlib.Data.List.Basic
import Mathlib.Logic.Function.Basic
import Mathlib.Tactic

/-!
# Custody

Items that move between the hands and the queues of some workers. An item
that is live and not parked has exactly one holder, which has it either in
its hand or in its queue, and there once; an item that is parked has none.

The moves are those a work-stealing scheduler needs: an item is taken from
either end of a queue, put at the bottom, parked from a hand or from the
bottom of a queue, unparked into a hand, created at the bottom of a queue,
and destroyed in a hand or at the bottom of a queue. Each of them keeps
`Custody.Valid`.
-/

/-- Who holds which item. `home` is the queue an item believes it is in. -/
@[ext]
structure Custody (W ι : Type*) where
  queue : W → List ι
  home : ι → Option W
  hand : W → Option ι
  live : ι → Prop
  parked : ι → Prop

namespace Custody

variable {W ι : Type*} (C : Custody W ι)

/-- The worker has the item in its queue or in its hand. -/
def Holds (w : W) (i : ι) : Prop := i ∈ C.queue w ∨ C.hand w = some i

/-- **Every item that is live and not parked has exactly one holder.** -/
structure Valid : Prop where
  mem_queue : ∀ w i, i ∈ C.queue w ↔ C.home i = some w
  nodup : ∀ w, (C.queue w).Nodup
  hand_home : ∀ w i, C.hand w = some i → C.home i = none
  hand_unique : ∀ i u w, C.hand u = some i → C.hand w = some i → u = w
  live_of_home : ∀ w i, C.home i = some w → C.live i ∧ ¬ C.parked i
  live_of_hand : ∀ w i, C.hand w = some i → C.live i ∧ ¬ C.parked i
  held : ∀ i, C.live i → ¬ C.parked i → C.home i = none → ∃ w, C.hand w = some i
  parked_live : ∀ i, C.parked i → C.live i

variable {C}

namespace Valid

theorem holds_live (h : C.Valid) {w : W} {i : ι} (hi : C.Holds w i) :
    C.live i ∧ ¬ C.parked i := by
  rcases hi with hi | hi
  · exact h.live_of_home w i ((h.mem_queue w i).mp hi)
  · exact h.live_of_hand w i hi

theorem not_hand_of_mem (h : C.Valid) {u w : W} {i : ι} (hi : i ∈ C.queue u) :
    C.hand w ≠ some i := by
  intro hw
  have hhome := (h.mem_queue u i).mp hi
  rw [h.hand_home w i hw] at hhome
  cases hhome

/-- An item is in one queue only. -/
theorem queue_unique (h : C.Valid) {u w : W} {i : ι} (hu : i ∈ C.queue u)
    (hw : i ∈ C.queue w) : u = w :=
  Option.some.inj (((h.mem_queue u i).mp hu).symm.trans ((h.mem_queue w i).mp hw))

theorem holds_unique (h : C.Valid) {u w : W} {i : ι} (hu : C.Holds u i)
    (hw : C.Holds w i) : u = w := by
  rcases hu with hu | hu <;> rcases hw with hw | hw
  · exact h.queue_unique hu hw
  · exact absurd hw (h.not_hand_of_mem hu)
  · exact absurd hu (h.not_hand_of_mem hw)
  · exact h.hand_unique i u w hu hw

/-- Who holds an item that is live and not parked. -/
theorem existsUnique_holds (h : C.Valid) {i : ι} (hlive : C.live i) (hparked : ¬ C.parked i) :
    ∃! w, C.Holds w i := by
  rcases hhome : C.home i with _ | w
  · obtain ⟨w, hw⟩ := h.held i hlive hparked hhome
    exact ⟨w, .inr hw, fun u hu => h.holds_unique hu (.inr hw)⟩
  · have hw : C.Holds w i := .inl ((h.mem_queue w i).mpr hhome)
    exact ⟨w, hw, fun u hu => h.holds_unique hu hw⟩

/-- Without its bottom, the queue has what else is at home there. -/
theorem mem_dropLast (h : C.Valid) {w : W} {i : ι} (hb : (C.queue w).getLast? = some i)
    (j : ι) : j ∈ (C.queue w).dropLast ↔ C.home j = some w ∧ j ≠ i := by
  obtain ⟨l, hl⟩ := List.getLast?_eq_some_iff.mp hb
  have hnd := h.nodup w
  rw [← h.mem_queue w j, hl, List.dropLast_concat]
  rw [hl, List.nodup_append] at hnd
  grind

/-- Without its top, the queue has what else is at home there. -/
theorem mem_tail (h : C.Valid) {w : W} {i : ι} (ht : (C.queue w).head? = some i)
    (j : ι) : j ∈ (C.queue w).tail ↔ C.home j = some w ∧ j ≠ i := by
  obtain ⟨l, hl⟩ := List.head?_eq_some_iff.mp ht
  have hnd := h.nodup w
  rw [← h.mem_queue w j, hl, List.tail_cons]
  rw [hl, List.nodup_cons] at hnd
  grind

end Valid

variable [DecidableEq W] [DecidableEq ι]

/-! ## The moves -/

/-- `u` takes an item out of the queue of `v`, which keeps `l`. -/
def take (C : Custody W ι) (u v : W) (i : ι) (l : List ι) : Custody W ι :=
  { C with
    queue := Function.update C.queue v l
    home := Function.update C.home i none
    hand := Function.update C.hand u (some i) }

/-- An item leaves a hand for the bottom of the queue. -/
def put (C : Custody W ι) (w : W) (i : ι) : Custody W ι :=
  { C with
    queue := Function.update C.queue w (C.queue w ++ [i])
    home := Function.update C.home i (some w)
    hand := Function.update C.hand w none }

/-- An item in a hand is parked. -/
def parkHand (C : Custody W ι) (w : W) (i : ι) : Custody W ι :=
  { C with
    hand := Function.update C.hand w none
    parked := Function.update C.parked i True }

/-- The item at the bottom of a queue is parked. -/
def parkBottom (C : Custody W ι) (w : W) (i : ι) : Custody W ι :=
  { C with
    queue := Function.update C.queue w (C.queue w).dropLast
    home := Function.update C.home i none
    parked := Function.update C.parked i True }

/-- An item is created at the bottom of a queue. -/
def create (C : Custody W ι) (w : W) (i : ι) : Custody W ι :=
  { C with
    queue := Function.update C.queue w (C.queue w ++ [i])
    home := Function.update C.home i (some w)
    live := Function.update C.live i True }

/-- An item is destroyed in a hand. -/
def destroyHand (C : Custody W ι) (w : W) (i : ι) : Custody W ι :=
  { C with
    hand := Function.update C.hand w none
    live := Function.update C.live i False }

/-- The item at the bottom of a queue is destroyed. -/
def destroyBottom (C : Custody W ι) (w : W) (i : ι) : Custody W ι :=
  { C with
    queue := Function.update C.queue w (C.queue w).dropLast
    home := Function.update C.home i none
    live := Function.update C.live i False }

/-- A parked item comes into an empty hand. -/
def unpark (C : Custody W ι) (w : W) (i : ι) : Custody W ι :=
  { C with
    hand := Function.update C.hand w (some i)
    parked := Function.update C.parked i False }

namespace Valid

variable {u v w : W} {i : ι}

theorem takeBottom (h : C.Valid) (hu : C.hand u = none)
    (hb : (C.queue v).getLast? = some i) : (C.take u v i (C.queue v).dropLast).Valid := by
  have hmem := h.mem_dropLast hb
  have hhome := (h.mem_queue v i).mp (List.mem_of_getLast? hb)
  have hnd := (h.nodup v).sublist (List.dropLast_sublist _)
  constructor <;> simp only [take, Function.update_apply] <;>
    grind [h.mem_queue, h.nodup, h.hand_home, h.hand_unique, h.live_of_home, h.live_of_hand,
      h.held, h.parked_live]

theorem takeTop (h : C.Valid) (hu : C.hand u = none)
    (ht : (C.queue v).head? = some i) : (C.take u v i (C.queue v).tail).Valid := by
  have hmem := h.mem_tail ht
  have hhome := (h.mem_queue v i).mp (List.mem_of_head? ht)
  have hnd := (h.nodup v).sublist (List.tail_sublist _)
  constructor <;> simp only [take, Function.update_apply] <;>
    grind [h.mem_queue, h.nodup, h.hand_home, h.hand_unique, h.live_of_home, h.live_of_hand,
      h.held, h.parked_live]

theorem put (h : C.Valid) (hw : C.hand w = some i) : (C.put w i).Valid := by
  have hhome := h.hand_home w i hw
  constructor <;> simp only [Custody.put, Function.update_apply] <;>
    grind [h.mem_queue, h.nodup, h.hand_home, h.hand_unique, h.live_of_home, h.live_of_hand,
      h.held, h.parked_live]

theorem parkHand (h : C.Valid) (hw : C.hand w = some i) : (C.parkHand w i).Valid := by
  have hhome := h.hand_home w i hw
  constructor <;> simp only [Custody.parkHand, Function.update_apply] <;>
    grind [h.mem_queue, h.nodup, h.hand_home, h.hand_unique, h.live_of_home, h.live_of_hand,
      h.held, h.parked_live]

theorem parkBottom (h : C.Valid) (hb : (C.queue w).getLast? = some i) :
    (C.parkBottom w i).Valid := by
  have hmem := h.mem_dropLast hb
  have hhome := (h.mem_queue w i).mp (List.mem_of_getLast? hb)
  have hnd := (h.nodup w).sublist (List.dropLast_sublist _)
  constructor <;> simp only [Custody.parkBottom, Function.update_apply] <;>
    grind [h.mem_queue, h.nodup, h.hand_home, h.hand_unique, h.live_of_home, h.live_of_hand,
      h.held, h.parked_live]

theorem create (h : C.Valid) (hi : ¬ C.live i) : (C.create w i).Valid := by
  have hhome : ∀ v, C.home i ≠ some v := fun v hv => hi (h.live_of_home v i hv).1
  constructor <;> simp only [Custody.create, Function.update_apply] <;>
    grind [h.mem_queue, h.nodup, h.hand_home, h.hand_unique, h.live_of_home, h.live_of_hand,
      h.held, h.parked_live]

theorem destroyHand (h : C.Valid) (hw : C.hand w = some i) : (C.destroyHand w i).Valid := by
  have hhome := h.hand_home w i hw
  have hlive := h.live_of_hand w i hw
  constructor <;> simp only [Custody.destroyHand, Function.update_apply] <;>
    grind [h.mem_queue, h.nodup, h.hand_home, h.hand_unique, h.live_of_home, h.live_of_hand,
      h.held, h.parked_live]

theorem destroyBottom (h : C.Valid) (hb : (C.queue w).getLast? = some i) :
    (C.destroyBottom w i).Valid := by
  have hmem := h.mem_dropLast hb
  have hhome := (h.mem_queue w i).mp (List.mem_of_getLast? hb)
  have hlive := h.live_of_home w i hhome
  have hnd := (h.nodup w).sublist (List.dropLast_sublist _)
  constructor <;> simp only [Custody.destroyBottom, Function.update_apply] <;>
    grind [h.mem_queue, h.nodup, h.hand_home, h.hand_unique, h.live_of_home, h.live_of_hand,
      h.held, h.parked_live]

theorem unpark (h : C.Valid) (hw : C.hand w = none) (hi : C.parked i) :
    (C.unpark w i).Valid := by
  have hlive := h.parked_live i hi
  have hhome : C.home i = none := by
    rcases hv : C.home i with _ | v
    · rfl
    · exact absurd hi (h.live_of_home v i hv).2
  constructor <;> simp only [Custody.unpark, Function.update_apply] <;>
    grind [h.mem_queue, h.nodup, h.hand_home, h.hand_unique, h.live_of_home, h.live_of_hand,
      h.held, h.parked_live]

end Valid

end Custody
