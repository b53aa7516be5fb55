import Mathlib.Data.Int.Bitwise
import Mathlib.Tactic

/-!
# Integer types and their operators

An integer type of C is a number of bits and whether one of them is a sign. Its
operators are partial functions on the integers: `none` is where the language
leaves a result undefined, which is where a signed result does not fit, a
divisor is zero, or a shift is by a negative number of bits or by all of them.
Signed numbers are in two's complement, and a shift to the right keeps the
sign.

A conversion is total: it takes the number of the type that is congruent to
what is converted.
-/

/-- An integer type: the number of its bits, without the highest one, and
whether that is a sign. -/
structure IntType where
  bits : ℕ
  signed : Bool
  deriving DecidableEq

namespace IntType

variable (t : IntType)

/-- How many numbers there are. -/
def size : ℤ := 2 ^ (t.bits + 1)

/-- The least number. -/
def min : ℤ := if t.signed then -2 ^ t.bits else 0

/-- The greatest number. -/
def max : ℤ := t.min + t.size - 1

/-- The numbers of the type. -/
def InRange (x : ℤ) : Prop := t.min ≤ x ∧ x ≤ t.max

instance (x : ℤ) : Decidable (t.InRange x) := inferInstanceAs (Decidable (_ ∧ _))

/-- **Conversion** to the type. -/
def convert (x : ℤ) : ℤ := (x - t.min) % t.size + t.min

theorem size_pos : 0 < t.size := by
  unfold size
  positivity

theorem min_le_zero : t.min ≤ 0 := by
  unfold min
  split
  · have : (0 : ℤ) < 2 ^ t.bits := by positivity
    omega
  · exact le_rfl

theorem max_nonneg : 0 ≤ t.max := by
  have h : t.size = 2 ^ t.bits + 2 ^ t.bits := by
    unfold size
    rw [pow_succ, mul_two]
  have : (0 : ℤ) < 2 ^ t.bits := by positivity
  unfold max min
  split <;> omega

theorem max_of_signed (h : t.signed) : t.max = 2 ^ t.bits - 1 := by
  unfold max min size
  rw [if_pos h, pow_succ]
  ring

/-- **What is converted is of the type.** -/
theorem inRange_convert (x : ℤ) : t.InRange (t.convert x) := by
  have h₀ := Int.emod_nonneg (x - t.min) t.size_pos.ne'
  have h₁ := Int.emod_lt_of_pos (x - t.min) t.size_pos
  unfold InRange max convert
  omega

variable {t}

/-- What is of the type already stays what it is. -/
theorem convert_of_inRange {x : ℤ} (h : t.InRange x) : t.convert x = x := by
  unfold InRange max at h
  unfold convert
  rw [Int.emod_eq_of_lt (by omega) (by omega)]
  omega

/-- A number of a type is one of every larger type. -/
theorem InRange.mono {s : IntType} {x : ℤ} (h : s.InRange x) (hmin : t.min ≤ s.min)
    (hmax : s.max ≤ t.max) : t.InRange x :=
  ⟨hmin.trans h.1, h.2.trans hmax⟩

theorem inRange_zero : t.InRange 0 := ⟨t.min_le_zero, t.max_nonneg⟩

/-- A number of a type without sign that fits in the positive part of another
one is not changed. -/
theorem convert_of_le {x : ℤ} (h₀ : 0 ≤ x) (h : x ≤ t.max) : t.convert x = x :=
  convert_of_inRange ⟨t.min_le_zero.trans h₀, h⟩

/-- **Congruent numbers are converted to the same one.** -/
theorem convert_eq_iff {x y : ℤ} : t.convert x = t.convert y ↔ t.size ∣ x - y := by
  unfold convert
  rw [add_left_inj, Int.emod_eq_emod_iff_emod_sub_eq_zero, ← Int.dvd_iff_emod_eq_zero]
  rw [show x - t.min - (y - t.min) = x - y by ring]

/-- A conversion changes a number by a multiple of the size. -/
theorem size_dvd_convert_sub (x : ℤ) : t.size ∣ t.convert x - x := by
  rw [← convert_eq_iff]
  exact convert_of_inRange (t.inRange_convert x)

/-- The numbers of a type are smaller than how many there are. -/
theorem abs_lt_size {x : ℤ} (h : t.InRange x) : |x| < t.size := by
  have hsize : t.size = 2 ^ t.bits + 2 ^ t.bits := by
    unfold size
    rw [pow_succ, mul_two]
  have : (0 : ℤ) < 2 ^ t.bits := by positivity
  obtain ⟨h₀, h₁⟩ := h
  unfold max at h₁
  unfold min at h₀ h₁
  rw [abs_lt]
  split_ifs at h₀ h₁ <;> exact ⟨by omega, by omega⟩

/-- Only zero is converted to zero, among the numbers nearer to it than the
size. -/
theorem convert_eq_zero_iff {x : ℤ} (h : |x| < t.size) : t.convert x = 0 ↔ x = 0 := by
  rw [← convert_of_inRange (inRange_zero (t := t)), convert_eq_iff,
    convert_of_inRange inRange_zero, sub_zero]
  exact ⟨fun hdvd => Int.eq_zero_of_abs_lt_dvd hdvd h, fun hx => hx ▸ dvd_zero _⟩

/-- **A conversion through a wider type** is forgotten by a narrower one. -/
theorem convert_convert {s : IntType} (h : t.bits ≤ s.bits) (x : ℤ) :
    t.convert (s.convert x) = t.convert x := by
  rw [convert_eq_iff]
  refine dvd_trans ?_ (size_dvd_convert_sub x)
  unfold size
  exact pow_dvd_pow 2 (Nat.succ_le_succ h)

/-! ## Operators -/

variable (t)

/-- What becomes of an exact result: without a sign it wraps around, with one
it has to fit. -/
def result (x : ℤ) : Option ℤ :=
  if t.signed then if t.InRange x then some x else none else some (t.convert x)

/-- Unary minus. -/
def neg (a : ℤ) : Option ℤ := t.result (-a)

/-- Addition. -/
def add (a b : ℤ) : Option ℤ := t.result (a + b)

def sub (a b : ℤ) : Option ℤ := t.result (a - b)

def mul (a b : ℤ) : Option ℤ := t.result (a * b)

/-- Division, towards zero. -/
def div (a b : ℤ) : Option ℤ := if b = 0 then none else t.result (a.tdiv b)

/-- The remainder of the division, defined where the quotient is. -/
def mod (a b : ℤ) : Option ℤ := (t.div a b).map fun _ => a.tmod b

/-- Shift to the left; with a sign, of a number that is not negative. -/
def shl (a b : ℤ) : Option ℤ :=
  if 0 ≤ b ∧ b ≤ t.bits ∧ ¬ (t.signed ∧ a < 0) then t.result (a * 2 ^ b.toNat) else none

/-- Shift to the right, which keeps the sign. -/
def shr (a b : ℤ) : Option ℤ := if 0 ≤ b ∧ b ≤ t.bits then some (a / 2 ^ b.toNat) else none

/-- The bits of the type in a number. -/
def and (a b : ℤ) : Option ℤ := some (t.convert (Int.land a b))

/-- The bitwise operators have a result for all numbers. -/
def or (a b : ℤ) : Option ℤ := some (t.convert (Int.lor a b))

def xor (a b : ℤ) : Option ℤ := some (t.convert (Int.xor a b))

def not (a : ℤ) : Option ℤ := some (t.convert (-a - 1))

variable {t} {a b c : ℤ}

/-- **Only signed types overflow.** -/
theorem result_eq_none_iff : t.result a = none ↔ t.signed ∧ ¬ t.InRange a := by
  unfold result
  split_ifs with hs hr
  · exact iff_of_false nofun fun h => h.2 hr
  · exact iff_of_true rfl ⟨hs, hr⟩
  · exact iff_of_false nofun fun h => hs h.1

/-- A result of the type is what is computed. -/
theorem result_of_inRange (h : t.InRange a) : t.result a = some a := by
  unfold result
  rw [if_pos h, convert_of_inRange h, ite_self]

/-- A result is a number of the type. -/
theorem inRange_of_result (h : t.result a = some c) : t.InRange c := by
  unfold result at h
  split_ifs at h with hs hr
  · exact Option.some.inj h ▸ hr
  · exact Option.some.inj h ▸ t.inRange_convert a

/-- A quotient is of the type. -/
theorem inRange_of_div (h : t.div a b = some c) : t.InRange c := by
  unfold div at h
  split_ifs at h
  exact inRange_of_result h

/-- A remainder is of the type. -/
theorem inRange_of_mod (ha : t.InRange a) (h : t.mod a b = some c) : t.InRange c := by
  obtain ⟨_, -, rfl⟩ := Option.map_eq_some_iff.mp h
  have habs : (a.tmod b).natAbs ≤ a.natAbs := by
    rw [Int.natAbs_tmod]
    exact Nat.mod_le _ _
  have hmin := t.min_le_zero
  have hmax := t.max_nonneg
  obtain ⟨ha₀, ha₁⟩ := ha
  rcases le_total 0 a with h₀ | h₀
  · have := Int.tmod_nonneg b h₀
    exact ⟨by omega, by omega⟩
  · have : 0 ≤ -(a.tmod b) := Int.neg_tmod a b ▸ Int.tmod_nonneg b (neg_nonneg.mpr h₀)
    exact ⟨by omega, by omega⟩

/-- An unsigned type always has a result. -/
theorem exists_result_iff : (∃ v, t.result a = some v) ↔ (t.signed → t.InRange a) := by
  rw [← Option.ne_none_iff_exists', ne_eq, result_eq_none_iff, not_and, not_not]

/-- The only number whose negative does not fit is the least one. -/
theorem inRange_neg_iff (hs : t.signed) (ha : t.InRange a) : t.InRange (-a) ↔ a ≠ t.min := by
  have hmin : t.min = -2 ^ t.bits := if_pos hs
  have hmax := t.max_of_signed hs
  have hpos : (0 : ℤ) < 2 ^ t.bits := by positivity
  obtain ⟨ha₀, ha₁⟩ := ha
  constructor
  · rintro ⟨-, h⟩ rfl
    omega
  · intro h
    exact ⟨by omega, by omega⟩

/-- **The only quotient that does not fit** is that of the least number by
`-1`. -/
theorem exists_div_iff (ha : t.InRange a) (hb : b ≠ 0) :
    (∃ v, t.div a b = some v) ↔ ¬ (t.signed ∧ a = t.min ∧ b = -1) := by
  unfold div
  rw [if_neg hb, exists_result_iff]
  by_cases hs : t.signed
  · have hmin : t.min = -2 ^ t.bits := if_pos hs
    have hmax := t.max_of_signed hs
    have hpos : (0 : ℤ) < 2 ^ t.bits := by positivity
    obtain ⟨ha₀, ha₁⟩ := ha
    have habs : (a.tdiv b).natAbs = a.natAbs / b.natAbs := Int.natAbs_tdiv a b
    by_cases hone : b = -1
    · subst hone
      have : a.tdiv (-1) = -a := by rw [Int.tdiv_neg, Int.tdiv_one]
      rw [this, inRange_neg_iff hs ⟨ha₀, ha₁⟩]
      exact ⟨fun h hmin => h hs hmin.2.1, fun h _ heq => h ⟨hs, heq, rfl⟩⟩
    · refine iff_of_true (fun _ => ?_) fun h => hone h.2.2
      by_cases hb₁ : b = 1
      · rw [hb₁, Int.tdiv_one]
        exact ⟨ha₀, ha₁⟩
      · have : a.natAbs / b.natAbs ≤ a.natAbs / 2 := Nat.div_le_div_left (by omega) (by decide)
        exact ⟨by omega, by omega⟩
  · exact iff_of_true (fun h => absurd h hs) fun h => hs h.1

/-- A remainder is there where the quotient is. -/
theorem exists_mod_iff (ha : t.InRange a) :
    (∃ v, t.mod a b = some v) ↔ b ≠ 0 ∧ ¬ (t.signed ∧ a = t.min ∧ b = -1) := by
  unfold mod
  by_cases hb : b = 0
  · refine iff_of_false ?_ fun h => h.1 hb
    rintro ⟨v, hv⟩
    unfold div at hv
    rw [if_pos hb] at hv
    nomatch hv
  · rw [and_iff_right hb, ← exists_div_iff ha hb]
    exact ⟨fun ⟨_, hv⟩ => (Option.map_eq_some_iff.mp hv).imp fun _ h => h.1,
      fun ⟨_, hv⟩ => ⟨_, congrArg (Option.map _) hv⟩⟩

/-- What is shifted to the left is of the type. -/
theorem inRange_of_shl (h : t.shl a b = some c) : t.InRange c := by
  unfold shl at h
  split_ifs at h
  exact inRange_of_result h

/-- What is shifted to the right is of the type. -/
theorem inRange_of_shr (ha : t.InRange a) (h : t.shr a b = some c) : t.InRange c := by
  unfold shr at h
  split_ifs at h
  obtain rfl := Option.some.inj h
  have hp : (0 : ℤ) < 2 ^ b.toNat := by positivity
  refine ⟨?_, ?_⟩
  · rw [Int.le_ediv_iff_mul_le hp]
    exact (mul_le_of_one_le_right t.min_le_zero hp).trans ha.1
  · exact Int.ediv_le_of_le_mul hp (ha.2.trans (le_mul_of_one_le_right t.max_nonneg hp))

end IntType
