import Mathlib.Data.List.Basic
import Mathlib.Data.List.Count
import Mathlib.Logic.Function.Basic
import Mathlib.Tactic

/-!
# Fork and join

Parents that fork children and wait for them. A parent counts the children it
waits for, has them on a list, and takes in what they bring home. Everything
about one child takes several steps, and what has been done is the stage the
child is at.

`ForkJoin.Valid` is the invariant of the protocol, and each move keeps it. At
most one child at a time is being brought home to a parent; the counter of
the parent and its list agree but for that child; and what a child brings
home arrives once, and is settled once.
-/

/-- How far a child is. -/
inductive Stage
  | unknown
  /-- It exists, and is not on its parent's list yet. -/
  | forked
  | waiting
  /-- It is off the list, with what it brings home. -/
  | carried
  /-- What it brought is the parent's, which still counts the child. -/
  | delivered
  /-- It is not counted any more. -/
  | counted
  | ended
  deriving DecidableEq

namespace Stage

/-- The child is being brought home. -/
def homing : Stage → Bool
  | carried | delivered | counted => true
  | _ => false

/-- The child is off the list, and still counted. -/
def pending : Stage → Bool
  | carried | delivered => true
  | _ => false

/-- What the child brings home is the parent's. -/
def brought : Stage → Bool
  | delivered | counted | ended => true
  | _ => false

/-- The child has been put on its parent's list. -/
def listed : Stage → Bool
  | unknown | forked => false
  | _ => true

theorem homing_of_pending {s : Stage} (h : s.pending = true) : s.homing = true := by
  cases s <;> simp_all [pending, homing]

theorem pending_of_homing {s : Stage} (h : s.homing = false) : s.pending = false := by
  cases s <;> simp_all [pending, homing]

end Stage

/-- The children of every parent, and what they brought home. -/
@[ext]
structure ForkJoin (ι : Type*) where
  stage : ι → Stage
  parent : ι → Option ι
  count : ι → ℕ
  waiting : ι → List ι
  arrived : ι → List ι
  /-- How often what the child brought to the parent was settled. -/
  settled : ι → ι → ℕ

namespace ForkJoin

variable {ι : Type*} [DecidableEq ι]

/-- The invariant of the protocol. -/
structure Valid (J : ForkJoin ι) : Prop where
  fresh : ∀ c, J.stage c = .unknown → J.parent c = none ∧ ∀ d, J.parent d ≠ some c
  mem_waiting : ∀ p c, c ∈ J.waiting p ↔ J.parent c = some p ∧ J.stage c = .waiting
  nodup : ∀ p, (J.waiting p).Nodup
  /-- One child at a time is brought home. -/
  homing_unique : ∀ p c d, J.parent c = some p → J.parent d = some p →
    (J.stage c).homing = true → (J.stage d).homing = true → c = d
  count : ∀ p, (∀ c, J.parent c = some p → (J.stage c).pending = false) →
    J.count p = (J.waiting p).length
  count_pending : ∀ p c, J.parent c = some p → (J.stage c).pending = true →
    J.count p = (J.waiting p).length + 1
  /-- What a child brings home is there once. -/
  brought : ∀ p c, (J.arrived p).count c + J.settled p c =
    if J.parent c = some p ∧ (J.stage c).brought = true then 1 else 0

/-! ## The moves -/

/-- The stage of `c` becomes `s`. -/
def setStage (J : ForkJoin ι) (c : ι) (s : Stage) : ForkJoin ι :=
  { J with stage := Function.update J.stage c s }

/-- A child of `p` comes to exist. -/
def fork (J : ForkJoin ι) (p c : ι) : ForkJoin ι :=
  { J.setStage c .forked with parent := Function.update J.parent c (some p) }

/-- The parent puts the child on its list and counts it. -/
def register (J : ForkJoin ι) (p c : ι) : ForkJoin ι :=
  { J.setStage c .waiting with
    count := Function.update J.count p (J.count p + 1)
    waiting := Function.update J.waiting p (c :: J.waiting p) }

/-- The child is taken off the list, which is `l` from then on. -/
def remove (J : ForkJoin ι) (p c : ι) (l : List ι) : ForkJoin ι :=
  { J.setStage c .carried with waiting := Function.update J.waiting p l }

/-- What the child brought home arrives. -/
def deliver (J : ForkJoin ι) (p c : ι) : ForkJoin ι :=
  { J.setStage c .delivered with arrived := Function.update J.arrived p (c :: J.arrived p) }

/-- One more in the books of `p` and `c`. -/
def book (f : ι → ι → ℕ) (p c q d : ι) : ℕ :=
  if q = p ∧ d = c then f q d + 1 else f q d

/-- What the child brought home is thrown away. -/
def discard (J : ForkJoin ι) (p c : ι) : ForkJoin ι :=
  { J.setStage c .delivered with settled := book J.settled p c }

/-- The first that arrived is settled, and `l` is left. -/
def settle (J : ForkJoin ι) (p c : ι) (l : List ι) : ForkJoin ι :=
  { J with
    arrived := Function.update J.arrived p l
    settled := book J.settled p c }

/-- The parent counts one child less. -/
def uncount (J : ForkJoin ι) (p c : ι) : ForkJoin ι :=
  { J.setStage c .counted with count := Function.update J.count p (J.count p - 1) }

def finish (J : ForkJoin ι) (c : ι) : ForkJoin ι :=
  J.setStage c .ended

namespace Valid

variable {J : ForkJoin ι} {p c : ι}

theorem fork (h : J.Valid) (hp : J.stage p ≠ .unknown) (hc : J.stage c = .unknown) :
    (J.fork p c).Valid := by
  obtain ⟨hfresh, hmem, hnodup, hunique, hcount, hpending, hbrought⟩ := h
  constructor <;> simp only [ForkJoin.fork, setStage, Function.update_apply]
  all_goals grind [Stage.homing, Stage.pending, Stage.brought]

theorem register (h : J.Valid) (hp : J.parent c = some p) (hc : J.stage c = .forked) :
    (J.register p c).Valid := by
  obtain ⟨hfresh, hmem, hnodup, hunique, hcount, hpending, hbrought⟩ := h
  constructor <;> simp only [ForkJoin.register, setStage, Function.update_apply]
  all_goals grind [Stage.homing, Stage.pending, Stage.brought]

theorem remove {l : List ι} (h : J.Valid) (hp : J.parent c = some p)
    (hl : (J.waiting p).Perm (c :: l))
    (hfree : ∀ d, J.parent d = some p → (J.stage d).homing = false) :
    (J.remove p c l).Valid := by
  have hperm : ∀ d, d ∈ J.waiting p ↔ d = c ∨ d ∈ l := fun d => by
    rw [hl.mem_iff, List.mem_cons]
  have hnd := hl.nodup_iff.mp (h.nodup p)
  have hlen : J.count p = (c :: l).length :=
    (h.count p fun d hd => Stage.pending_of_homing (hfree d hd)).trans hl.length_eq
  obtain ⟨hfresh, hmem, hnodup, hunique, hcount, hpending, hbrought⟩ := h
  constructor <;> simp only [ForkJoin.remove, setStage, Function.update_apply]
  case count_pending =>
    intro q d hd hs
    have hother := hpending q d hd
    have hq : q = p → d = c := fun hq => by
      by_contra hne
      rw [if_neg hne] at hs
      rw [Stage.pending_of_homing (hfree d (hq ▸ hd))] at hs
      cases hs
    grind
  all_goals grind [Stage.homing, Stage.pending, Stage.brought]

theorem deliver (h : J.Valid) (hp : J.parent c = some p) (hc : J.stage c = .carried) :
    (J.deliver p c).Valid := by
  obtain ⟨hfresh, hmem, hnodup, hunique, hcount, hpending, hbrought⟩ := h
  constructor <;> simp only [ForkJoin.deliver, setStage, Function.update_apply]
  all_goals grind [Stage.homing, Stage.pending, Stage.brought]

theorem discard (h : J.Valid) (hp : J.parent c = some p) (hc : J.stage c = .carried) :
    (J.discard p c).Valid := by
  obtain ⟨hfresh, hmem, hnodup, hunique, hcount, hpending, hbrought⟩ := h
  constructor <;> simp only [ForkJoin.discard, book, setStage, Function.update_apply]
  all_goals grind [Stage.homing, Stage.pending, Stage.brought]

theorem settle {l : List ι} (h : J.Valid) (hl : J.arrived p = c :: l) :
    (J.settle p c l).Valid := by
  obtain ⟨hfresh, hmem, hnodup, hunique, hcount, hpending, hbrought⟩ := h
  constructor <;> simp only [ForkJoin.settle, book, Function.update_apply]
  all_goals grind

theorem uncount (h : J.Valid) (hp : J.parent c = some p) (hc : J.stage c = .delivered) :
    (J.uncount p c).Valid := by
  have hlen := h.count_pending p c hp (by rw [hc]; rfl)
  have hother : ∀ d, J.parent d = some p → (J.stage d).homing = true → d = c := fun d hd hs =>
    h.homing_unique p d c hd hp hs (by rw [hc]; rfl)
  obtain ⟨hfresh, hmem, hnodup, hunique, hcount, hpending, hbrought⟩ := h
  constructor <;> simp only [ForkJoin.uncount, setStage, Function.update_apply]
  case count_pending =>
    intro q d hd hs
    have hcount := hpending q d hd
    have hq : q = p → d = c := fun hq => by
      by_contra hne
      rw [if_neg hne] at hs
      exact hne (hother d (hq ▸ hd) (Stage.homing_of_pending hs))
    grind [Stage.pending]
  all_goals grind [Stage.homing, Stage.pending, Stage.brought]

/-- A child ends once it is not counted, and an item that is nobody's child
at any time. -/
theorem finish (h : J.Valid)
    (hc : J.stage c = .counted ∨ J.parent c = none ∧ J.stage c = .waiting) :
    (J.finish c).Valid := by
  obtain ⟨hfresh, hmem, hnodup, hunique, hcount, hpending, hbrought⟩ := h
  constructor <;> simp only [ForkJoin.finish, setStage, Function.update_apply]
  all_goals grind [Stage.homing, Stage.pending, Stage.brought]

/-! ## What a parent knows -/

/-- While no child is brought home, the counter is the length of the list. -/
theorem count_eq (h : J.Valid)
    (hfree : ∀ c, J.parent c = some p → (J.stage c).homing = false) :
    J.count p = (J.waiting p).length :=
  h.count p fun c hc => Stage.pending_of_homing (hfree c hc)

/-- A parent that counts children has one that is neither counted nor ended. -/
theorem exists_child (h : J.Valid) (hcount : J.count p ≠ 0) :
    ∃ c, J.parent c = some p ∧ J.stage c ≠ .unknown ∧ J.stage c ≠ .ended := by
  by_cases hfree : ∀ c, J.parent c = some p → (J.stage c).pending = false
  · rw [h.count p hfree] at hcount
    obtain ⟨c, hc⟩ := List.exists_mem_of_length_pos (Nat.pos_of_ne_zero hcount)
    obtain ⟨hp, hs⟩ := (h.mem_waiting p c).mp hc
    exact ⟨c, hp, by simp [hs], by simp [hs]⟩
  · obtain ⟨c, hp, hs⟩ := not_forall₂.mp hfree
    refine ⟨c, hp, ?_, ?_⟩
    all_goals
      intro he
      exact hs (by rw [he]; rfl)

/-- **A parent that counts no child has got everything its children brought
home**, and has settled it once, where nothing has arrived that is not
settled. -/
theorem joined (h : J.Valid) (hzero : J.count p = 0) (harrived : J.arrived p = [])
    (hp : J.parent c = some p) (hlisted : (J.stage c).listed = true)
    (hpending : (J.stage c).pending = false) :
    (J.stage c = .counted ∨ J.stage c = .ended) ∧ J.settled p c = 1 := by
  have hnot : c ∉ J.waiting p := by
    intro hc
    by_cases hfree : ∀ d, J.parent d = some p → (J.stage d).pending = false
    · rw [h.count p hfree] at hzero
      rw [List.eq_nil_of_length_eq_zero hzero] at hc
      cases hc
    · obtain ⟨d, hd, hs⟩ := not_forall₂.mp hfree
      rw [h.count_pending p d hd (by simpa using hs)] at hzero
      cases hzero
  have hstage : J.stage c = .counted ∨ J.stage c = .ended := by
    rw [h.mem_waiting, not_and] at hnot
    have hnot := hnot hp
    cases hs : J.stage c <;> simp_all [Stage.listed, Stage.pending]
  refine ⟨hstage, ?_⟩
  have hbrought := h.brought p c
  rw [harrived, List.count_nil, Nat.zero_add, if_pos] at hbrought
  · exact hbrought
  · refine ⟨hp, ?_⟩
    rcases hstage with hs | hs <;> rw [hs] <;> rfl

end Valid

end ForkJoin
