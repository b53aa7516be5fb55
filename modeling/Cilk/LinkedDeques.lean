import Mathlib.Data.List.Nodup
import Mathlib.Logic.Function.Basic

/-!
# Doubly linked deques

Some deques over one stock of cells: each deque has a pointer to its top and
one to its bottom, and each cell a pointer to the next cell of its deque and
one to the previous. A cell that is taken out keeps its own two pointers, so
the pointers of a cell that is in no deque mean nothing.

`LinkedDeques.Represents` says which lists the deques stand for. It is a
statement about cuts: wherever a list is cut in two, the pointer that leads
down over the cut holds the first cell below it, and the pointer that leads
up the last cell above it. The end pointers are the pointers over the two
outermost cuts, so they need no clause of their own, and each operation is
described by the cuts it changes.
-/

/-- The pointers: `next` leads from the top to the bottom. -/
structure LinkedDeques (ι α : Type*) where
  top : ι → Option α
  bottom : ι → Option α
  next : α → Option α
  prev : α → Option α

namespace LinkedDeques

variable {ι α : Type*}

/-! ## Cuts -/

/-- The pointer that leads down from the cell `p`, or into the deque from
above. -/
def below (m : LinkedDeques ι α) (i : ι) : Option α → Option α
  | some c => m.next c
  | none => m.top i

/-- The pointer that leads up from the cell `n`, or into the deque from
below. -/
def above (m : LinkedDeques ι α) (i : ι) : Option α → Option α
  | some c => m.prev c
  | none => m.bottom i

/-- **The deques stand for these lists**, from the top to the bottom: no cell
is in two places, and every cut of a list is linked both ways. -/
structure Represents (m : LinkedDeques ι α) (q : ι → List α) : Prop where
  nodup : ∀ i, (q i).Nodup
  disjoint : ∀ i j c, c ∈ q i → c ∈ q j → i = j
  below : ∀ i l r, q i = l ++ r → m.below i l.getLast? = r.head?
  above : ∀ i l r, q i = l ++ r → m.above i r.head? = l.getLast?

/-- The same deques, upside down. -/
def mirror (m : LinkedDeques ι α) : LinkedDeques ι α :=
  { top := m.bottom, bottom := m.top, next := m.prev, prev := m.next }

theorem mirror_below (m : LinkedDeques ι α) (i : ι) (p : Option α) :
    m.mirror.below i p = m.above i p := by
  cases p <;> rfl

theorem mirror_above (m : LinkedDeques ι α) (i : ι) (p : Option α) :
    m.mirror.above i p = m.below i p := by
  cases p <;> rfl

/-- Where a list can be cut that has `c` added to it. -/
theorem cut_concat {l u r : List α} {c : α} (h : l ++ [c] = u ++ r) :
    r = [] ∧ u = l ++ [c] ∨ ∃ r', r = r' ++ [c] ∧ l = u ++ r' := by
  rcases List.eq_nil_or_concat r with rfl | ⟨r', d, rfl⟩
  · exact .inl ⟨rfl, by rw [h, List.append_nil]⟩
  · rw [List.concat_eq_append, ← List.append_assoc] at h
    obtain ⟨hl, hd⟩ := List.append_inj' h rfl
    rw [← List.singleton_inj.mp hd, List.concat_eq_append]
    exact .inr ⟨r', rfl, hl⟩

namespace Represents

variable {m : LinkedDeques ι α} {q : ι → List α}

theorem top (h : m.Represents q) (i : ι) : m.top i = (q i).head? :=
  h.below i [] (q i) rfl

theorem bottom (h : m.Represents q) (i : ι) : m.bottom i = (q i).getLast? :=
  h.above i (q i) [] (List.append_nil _).symm

/-- The last cell above a cut is not the bottom, if there is one below. -/
theorem getLast?_ne_bottom {i : ι} {u r : List α} {y : α} (h : m.Represents q) (hq : q i = u ++ y :: r) :
    u.getLast? ≠ (q i).getLast? := by
  intro hl
  have hnd := h.nodup i
  rw [hq] at hl hnd
  rw [List.getLast?_append_of_ne_nil _ (List.cons_ne_nil y r)] at hl
  rcases hu : u.getLast? with _ | x
  · rw [hu] at hl
    exact List.cons_ne_nil y r (List.getLast?_eq_none_iff.mp hl.symm)
  · exact (List.nodup_append.mp hnd).2.2 x (List.mem_of_getLast? hu) x
      (List.mem_of_getLast? (hl ▸ hu)) rfl

/-- Deques with both ends empty are empty. -/
theorem empty (htop : ∀ i, m.top i = none) (hbottom : ∀ i, m.bottom i = none) :
    m.Represents fun _ => [] where
  nodup _ := List.nodup_nil
  disjoint _ _ _ hi _ := absurd hi List.not_mem_nil
  below i l r h := by
    obtain ⟨rfl, rfl⟩ := List.append_eq_nil_iff.mp h.symm
    exact htop i
  above i l r h := by
    obtain ⟨rfl, rfl⟩ := List.append_eq_nil_iff.mp h.symm
    exact hbottom i

theorem mirror (h : m.Represents q) : m.mirror.Represents fun i => (q i).reverse where
  nodup i := List.nodup_reverse.mpr (h.nodup i)
  disjoint i j c hi hj := h.disjoint i j c (List.mem_reverse.mp hi) (List.mem_reverse.mp hj)
  below i l r hq := by
    have hcut : q i = r.reverse ++ l.reverse := by
      rw [← List.reverse_append, ← hq, List.reverse_reverse]
    rw [mirror_below, ← List.head?_reverse, h.above i _ _ hcut, List.getLast?_reverse]
  above i l r hq := by
    have hcut : q i = r.reverse ++ l.reverse := by
      rw [← List.reverse_append, ← hq, List.reverse_reverse]
    rw [mirror_above, ← List.getLast?_reverse, h.below i _ _ hcut, List.head?_reverse]

/-- **The pointers of a cell that is in no deque mean nothing.** -/
theorem congr {m' : LinkedDeques ι α} (h : m.Represents q) (htop : m'.top = m.top)
    (hbottom : m'.bottom = m.bottom) (hnext : ∀ i, ∀ c ∈ q i, m'.next c = m.next c)
    (hprev : ∀ i, ∀ c ∈ q i, m'.prev c = m.prev c) : m'.Represents q where
  nodup := h.nodup
  disjoint := h.disjoint
  below i l r hq := by
    rw [← h.below i l r hq]
    rcases hl : l.getLast? with _ | c
    · exact congrFun htop i
    · refine hnext i c ?_
      rw [hq]
      exact List.mem_append_left r (List.mem_of_getLast? hl)
  above i l r hq := by
    rw [← h.above i l r hq]
    rcases hr : r.head? with _ | c
    · exact congrFun hbottom i
    · refine hprev i c ?_
      rw [hq]
      exact List.mem_append_right l (List.mem_of_head? hr)

end Represents

variable [DecidableEq ι] [DecidableEq α]

/-- Set the pointer that leads down from `p`. -/
def setBelow (m : LinkedDeques ι α) (i : ι) (p v : Option α) : LinkedDeques ι α :=
  match p with
  | some c => { m with next := Function.update m.next c v }
  | none => { m with top := Function.update m.top i v }

/-- Set the pointer that leads up from `n`. -/
def setAbove (m : LinkedDeques ι α) (i : ι) (n v : Option α) : LinkedDeques ι α :=
  match n with
  | some c => { m with prev := Function.update m.prev c v }
  | none => { m with bottom := Function.update m.bottom i v }

section

variable (m : LinkedDeques ι α) (i j : ι) (p p' v : Option α)

theorem setAbove_eq_mirror : m.setAbove i p v = (m.mirror.setBelow i p v).mirror := by
  cases p <;> rfl

@[simp] theorem below_setAbove : (m.setAbove i p v).below j p' = m.below j p' := by
  cases p <;> cases p' <;> rfl

@[simp] theorem above_setBelow : (m.setBelow i p v).above j p' = m.above j p' := by
  cases p <;> cases p' <;> rfl

@[simp] theorem below_setBelow_self : (m.setBelow i p v).below i p = v := by
  cases p <;> exact Function.update_self ..

@[simp] theorem above_setAbove_self : (m.setAbove i p v).above i p = v := by
  cases p <;> exact Function.update_self ..

variable {m i j p p' v}

theorem below_setBelow_of_ne (h : p' ≠ p) :
    (m.setBelow i p v).below j p' = m.below j p' := by
  cases p <;> cases p' <;> try rfl
  · exact absurd rfl h
  · exact Function.update_of_ne (fun he => h (congrArg some he)) ..

theorem below_setBelow_other (hij : j ≠ i) (h : p' = p → p = none) :
    (m.setBelow i p v).below j p' = m.below j p' := by
  by_cases hp : p' = p
  · rw [hp, h hp]
    exact Function.update_of_ne hij ..
  · exact below_setBelow_of_ne hp

theorem above_setAbove_of_ne (h : p' ≠ p) :
    (m.setAbove i p v).above j p' = m.above j p' := by
  rw [setAbove_eq_mirror, mirror_above, below_setBelow_of_ne h, mirror_below]

theorem above_setAbove_other (hij : j ≠ i) (h : p' = p → p = none) :
    (m.setAbove i p v).above j p' = m.above j p' := by
  rw [setAbove_eq_mirror, mirror_above, below_setBelow_other hij h, mirror_below]

end

/-! ## The operations -/

/-- Put the cell `c` at the bottom. -/
def addBottom (m : LinkedDeques ι α) (i : ι) (c : α) : LinkedDeques ι α :=
  (((m.setAbove i (some c) (m.bottom i)).setBelow i (some c) none).setAbove i none
    (some c)).setBelow i (m.bottom i) (some c)

/-- Take the cell `c` away from the top. -/
def removeTop (m : LinkedDeques ι α) (i : ι) (c : α) : LinkedDeques ι α :=
  (m.setBelow i none (m.next c)).setAbove i (m.next c) none

/-- Take the cell `c` away from the bottom. -/
def removeBottom (m : LinkedDeques ι α) (i : ι) (c : α) : LinkedDeques ι α :=
  (m.setAbove i none (m.prev c)).setBelow i (m.prev c) none

theorem removeBottom_eq_mirror (m : LinkedDeques ι α) (i : ι) (c : α) :
    m.removeBottom i c = (m.mirror.removeTop i c).mirror := by
  show (m.setAbove i none (m.prev c)).setBelow i (m.prev c) none =
    ((m.mirror.setBelow i none (m.prev c)).setAbove i (m.prev c) none).mirror
  cases m.prev c <;> rfl

namespace Represents

variable {m : LinkedDeques ι α} {q : ι → List α} {i : ι} {c : α} {l : List α}

omit [DecidableEq α] in
/-- No cell is in two places once `c` is at the bottom. -/
theorem addBottom_disjoint (h : m.Represents q) (hc : ∀ j, c ∉ q j) {j k : ι} {d : α}
    (hj : d ∈ Function.update q i (q i ++ [c]) j)
    (hk : d ∈ Function.update q i (q i ++ [c]) k) : j = k := by
  have hplace : ∀ j, d ∈ Function.update q i (q i ++ [c]) j → d ∈ q j ∨ d = c ∧ j = i := by
    intro j hj
    by_cases hji : j = i
    · subst hji
      rw [Function.update_self] at hj
      exact (List.mem_append.mp hj).imp id fun hd => ⟨List.mem_singleton.mp hd, rfl⟩
    · rw [Function.update_of_ne hji] at hj
      exact .inl hj
  rcases hplace j hj with hdj | ⟨hd, hji⟩ <;> rcases hplace k hk with hdk | ⟨hd', hki⟩
  · exact h.disjoint j k d hdj hdk
  · exact absurd (hd' ▸ hdj) (hc j)
  · exact absurd (hd ▸ hdk) (hc k)
  · rw [hji, hki]

/-- **Adding at the bottom**, a cell that is in no deque. -/
theorem addBottom (h : m.Represents q) (hc : ∀ j, c ∉ q j) :
    (m.addBottom i c).Represents (Function.update q i (q i ++ [c])) := by
  have hcell : ∀ j u r, q j = u ++ r → u.getLast? ≠ some c := fun j u r hq hl =>
    hc j (hq ▸ List.mem_append_left r (List.mem_of_getLast? hl))
  have hcell' : ∀ j u r, q j = u ++ r → r.head? ≠ some c := fun j u r hq hr =>
    hc j (hq ▸ List.mem_append_right u (List.mem_of_head? hr))
  unfold LinkedDeques.addBottom
  rw [h.bottom i]
  refine ⟨fun j => ?_, fun j k d hj hk => h.addBottom_disjoint hc hj hk, fun j u r hcut => ?_,
    fun j u r hcut => ?_⟩
  · by_cases hj : j = i
    · subst hj
      rw [Function.update_self, ← List.concat_eq_append]
      exact List.Nodup.concat (hc j) (h.nodup j)
    · rw [Function.update_of_ne hj]
      exact h.nodup j
  · by_cases hj : j = i
    · subst hj
      rw [Function.update_self] at hcut
      rcases cut_concat hcut with ⟨rfl, rfl⟩ | ⟨r, rfl, hq⟩
      · have hb := hcell j (q j) [] (List.append_nil _).symm
        rw [List.getLast?_concat, below_setBelow_of_ne hb.symm, below_setAbove,
          below_setBelow_self]
        rfl
      · rcases r with _ | ⟨y, r⟩
        · rw [hq, List.append_nil, below_setBelow_self]
          rfl
        · rw [below_setBelow_of_ne (h.getLast?_ne_bottom hq), below_setAbove,
            below_setBelow_of_ne (hcell j u _ hq), below_setAbove]
          exact h.below j u (y :: r) hq
    · rw [Function.update_of_ne hj] at hcut
      rw [below_setBelow_other hj, below_setAbove, below_setBelow_of_ne (hcell j u r hcut),
        below_setAbove]
      · exact h.below j u r hcut
      · intro hl
        rcases hb : (q i).getLast? with _ | d
        · rfl
        · rw [hb] at hl
          have hd : d ∈ q j := hcut ▸ List.mem_append_left r (List.mem_of_getLast? hl)
          exact absurd (h.disjoint j i d hd (List.mem_of_getLast? hb)) hj
  · rw [above_setBelow]
    by_cases hj : j = i
    · subst hj
      rw [Function.update_self] at hcut
      rcases cut_concat hcut with ⟨rfl, rfl⟩ | ⟨r, rfl, hq⟩
      · rw [List.getLast?_concat, List.head?_nil, above_setAbove_self]
      · rcases r with _ | ⟨y, r⟩
        · rw [List.nil_append, List.head?_cons, above_setAbove_of_ne (Option.some_ne_none c),
            above_setBelow, above_setAbove_self, hq, List.append_nil]
        · rw [List.cons_append, List.head?_cons, above_setAbove_of_ne (Option.some_ne_none y),
            above_setBelow, above_setAbove_of_ne (show some y ≠ some c from hcell' j u _ hq)]
          exact h.above j u (y :: r) hq
    · rw [Function.update_of_ne hj] at hcut
      rw [above_setAbove_other hj fun _ => rfl, above_setBelow,
        above_setAbove_of_ne (hcell' j u r hcut)]
      exact h.above j u r hcut

/-- **Taking from the top.** -/
theorem removeTop (h : m.Represents q) (hq : q i = c :: l) :
    (m.removeTop i c).Represents (Function.update q i l) := by
  have hnd := h.nodup i
  rw [hq] at hnd
  have hnext : m.next c = l.head? := h.below i [c] l hq
  have hmem : ∀ d ∈ l, d ∈ q i := fun d hd => hq ▸ List.mem_cons_of_mem c hd
  unfold LinkedDeques.removeTop
  rw [hnext]
  refine ⟨fun j => ?_, fun j k d hj hk => ?_, fun j u r hcut => ?_, fun j u r hcut => ?_⟩
  · by_cases hj : j = i
    · rw [hj, Function.update_self]
      exact hnd.of_cons
    · rw [Function.update_of_ne hj]
      exact h.nodup j
  · have hsub : ∀ j, d ∈ Function.update q i l j → d ∈ q j := by
      intro j hj
      by_cases hji : j = i
      · rw [hji, Function.update_self] at hj
        rw [hji]
        exact hmem d hj
      · rwa [Function.update_of_ne hji] at hj
    exact h.disjoint j k d (hsub j hj) (hsub k hk)
  · rw [below_setAbove]
    by_cases hj : j = i
    · subst hj
      rw [Function.update_self] at hcut
      rcases u with _ | ⟨x, u⟩
      · rw [List.getLast?_nil, below_setBelow_self, hcut]
        rfl
      · rw [below_setBelow_of_ne (by simp)]
        have hb := h.below j (c :: x :: u) r (by rw [hq, hcut]; rfl)
        rwa [List.getLast?_cons_cons] at hb
    · rw [Function.update_of_ne hj] at hcut
      rw [below_setBelow_other hj fun _ => rfl]
      exact h.below j u r hcut
  · by_cases hj : j = i
    · subst hj
      rw [Function.update_self] at hcut
      rcases u with _ | ⟨x, u⟩
      · rw [show r = l from hcut.symm, above_setAbove_self]
        rfl
      · rw [above_setAbove_of_ne, above_setBelow]
        · have ha := h.above j (c :: x :: u) r (by rw [hq, hcut]; rfl)
          rwa [List.getLast?_cons_cons] at ha
        · -- `x` is above the cut, so it is not the first cell below
          intro hx
          rw [hcut] at hx hnd
          have hr : x ∈ r := List.mem_of_head? hx
          exact (List.nodup_append.mp hnd.of_cons).2.2 x (List.mem_cons_self ..) x hr rfl
    · rw [Function.update_of_ne hj] at hcut
      rw [above_setAbove_other hj, above_setBelow]
      · exact h.above j u r hcut
      · intro hr
        rcases hl : l.head? with _ | d
        · rfl
        · rw [hl] at hr
          have hd : d ∈ q j := by
            rw [hcut]
            exact List.mem_append_right u (List.mem_of_head? hr)
          exact absurd (h.disjoint j i d hd (hmem d (List.mem_of_head? hl))) hj

/-- **Taking from the bottom.** -/
theorem removeBottom (h : m.Represents q) (hq : q i = l ++ [c]) :
    (m.removeBottom i c).Represents (Function.update q i l) := by
  have hm := (h.mirror.removeTop (i := i) (c := c) (l := l.reverse) (by
    simp [hq])).mirror
  rw [removeBottom_eq_mirror]
  convert hm using 1
  funext j
  by_cases hj : j = i
  · rw [hj, Function.update_self, Function.update_self, List.reverse_reverse]
  · rw [Function.update_of_ne hj, Function.update_of_ne hj, List.reverse_reverse]

end Represents

end LinkedDeques
