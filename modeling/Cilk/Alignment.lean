import Mathlib.Order.Bounds.Basic
import Mathlib.Tactic

/-!
# Alignment

The least multiple of a number that is not below another, which is where
something of that alignment is placed, and where a field of bits begins that
must not run across the end of a unit.
-/

namespace Alignment

/-- The least multiple of `a` from `n` on. -/
def roundUp (n a : ℕ) : ℕ := if n % a = 0 then n else n + a - n % a

/-- Every number is a multiple of one. -/
@[simp] theorem roundUp_one (n : ℕ) : roundUp n 1 = n := if_pos (Nat.mod_one n)

/-- A number is rounded up. -/
theorem le_roundUp (n : ℕ) {a : ℕ} (ha : 0 < a) : n ≤ roundUp n a := by
  unfold roundUp
  have := Nat.mod_lt n ha
  split <;> omega

/-- It is rounded to a multiple. -/
theorem dvd_roundUp (n a : ℕ) : a ∣ roundUp n a := by
  unfold roundUp
  split
  case isTrue h => exact Nat.dvd_of_mod_eq_zero h
  case isFalse h =>
    have hdiv : a ∣ n - n % a := Nat.dvd_sub_mod n
    have hle : n % a ≤ n := Nat.mod_le n a
    rw [show n + a - n % a = n - n % a + a by omega]
    exact hdiv.add (dvd_refl a)

/-- **A multiple that is not below `n` is not below the one of `n`.** -/
theorem roundUp_le {n a m : ℕ} (hm : a ∣ m) (hn : n ≤ m) : roundUp n a ≤ m := by
  unfold roundUp
  split
  case isTrue => exact hn
  case isFalse h =>
    -- `m` lies above the multiple below `n`, by a whole `a` at least
    have hlt : n - n % a < m := lt_of_lt_of_le (Nat.sub_lt (by
      rcases Nat.eq_zero_or_pos n with rfl | hpos
      · exact absurd (Nat.zero_mod a) h
      · exact hpos) (Nat.pos_of_ne_zero h)) hn
    have hstep := Nat.le_of_dvd (Nat.sub_pos_of_lt hlt) (Nat.dvd_sub hm (Nat.dvd_sub_mod n))
    have := Nat.mod_le n a
    omega

/-- **It is rounded to the least multiple** that is no smaller. -/
theorem isLeast_roundUp (n : ℕ) {a : ℕ} (ha : 0 < a) :
    IsLeast {m | a ∣ m ∧ n ≤ m} (roundUp n a) :=
  ⟨⟨dvd_roundUp n a, le_roundUp n ha⟩, fun _ hm => roundUp_le hm.1 hm.2⟩

/-- The place of `w` bits from `pos` on in units of `unit` bits. No bits begin a
new unit. -/
def bitStart (pos unit w : ℕ) : ℕ :=
  if w ≠ 0 ∧ pos / unit = (pos + w - 1) / unit then pos else roundUp pos unit

theorem le_bitStart (pos : ℕ) {unit : ℕ} (hunit : 0 < unit) (w : ℕ) :
    pos ≤ bitStart pos unit w := by
  unfold bitStart
  split
  · exact le_rfl
  · exact le_roundUp pos hunit

/-- **The bits are placed at the first place where they lie in one unit.** -/
theorem isLeast_bitStart (pos : ℕ) {unit w : ℕ} (hw : 0 < w) (hunit : w ≤ unit) :
    IsLeast {s | pos ≤ s ∧ s / unit = (s + w - 1) / unit} (bitStart pos unit w) := by
  have hpos : 0 < unit := lt_of_lt_of_le hw hunit
  unfold bitStart
  split
  case isTrue h => exact ⟨⟨le_rfl, h.2⟩, fun s hs => hs.1⟩
  case isFalse h =>
    have hcross : pos / unit ≠ (pos + w - 1) / unit := fun heq => h ⟨Nat.pos_iff_ne_zero.mp hw, heq⟩
    refine ⟨⟨le_roundUp pos hpos, ?_⟩, fun s hs => ?_⟩
    · obtain ⟨k, hk⟩ := dvd_roundUp pos unit
      rw [hk, Nat.mul_div_cancel_left k hpos, show unit * k + w - 1 = w - 1 + unit * k by omega,
        Nat.add_mul_div_left _ _ hpos, Nat.div_eq_of_lt (by omega), zero_add]
    · -- a place before the next unit would be in the unit of `pos`
      by_contra hlt
      have hs₁ : pos / unit ≤ s / unit := Nat.div_le_div_right hs.1
      have hs₂ : (pos + w - 1) / unit ≤ (s + w - 1) / unit := Nat.div_le_div_right (by
        have := hs.1
        omega)
      have hs₃ : (pos + w - 1) / unit ≤ s / unit := hs.2 ▸ hs₂
      have hnext : pos / unit + 1 ≤ s / unit := by
        have := Nat.div_le_div_right (c := unit) (show pos ≤ pos + w - 1 by omega)
        omega
      have hmul : unit * (pos / unit + 1) ≤ s :=
        (Nat.mul_le_mul_left unit hnext).trans (Nat.mul_div_le s unit)
      have hround : roundUp pos unit ≤ unit * (pos / unit + 1) :=
        roundUp_le (Dvd.intro _ rfl) (Nat.lt_mul_div_succ pos hpos).le
      omega

end Alignment
