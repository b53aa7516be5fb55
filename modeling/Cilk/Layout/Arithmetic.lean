import Cilk.Layout.Rules

/-!
# The steps of the layout

What the computations in `int` give on positions that are natural numbers: the
realignment to a field, to a word, and to a word if a field of bits would cross
one. Where a result is one of the type it is the one of the rules; and it is one
of the type when the number of the rules is, since the alignments divide the
size of the type.
-/

namespace Cilk.Layout

open Alignment

/-- A size is an `int` below 2³¹. -/
theorem int_inRange_iff {n : ℕ} : int.InRange n ↔ n < 2 ^ 31 := by
  unfold IntType.InRange int IntType.min IntType.max IntType.size IntType.min
  simp only [if_true]
  omega

theorem int_result_cast {n : ℕ} (h : n < 2 ^ 31) : int.result (n : ℤ) = some (n : ℤ) :=
  IntType.result_of_inRange (int_inRange_iff.mpr h)

/-- A result that there is is exact. -/
theorem int_result_eq_some {x c : ℤ} (h : int.result x = some c) : x = c ∧ int.InRange c := by
  have hr := IntType.inRange_of_result h
  unfold IntType.result at h
  rw [if_pos (show int.signed = true from rfl)] at h
  split at h
  · exact ⟨Option.some.inj h, hr⟩
  · cases h

/-- A sum of sizes that is an `int`. -/
theorem int_add_cast {n m : ℕ} (h : n + m < 2 ^ 31) :
    int.add (n : ℤ) (m : ℤ) = some ((n + m : ℕ) : ℤ) := by
  unfold IntType.add
  rw [← Nat.cast_add]
  exact int_result_cast h

/-- A remainder of sizes. -/
theorem int_mod_cast {n a : ℕ} (hn : n < 2 ^ 31) (ha : 0 < a) :
    int.mod (n : ℤ) (a : ℤ) = some ((n % a : ℕ) : ℤ) := by
  have hdiv : int.div (n : ℤ) (a : ℤ) = some ((n / a : ℕ) : ℤ) := by
    unfold IntType.div
    rw [if_neg (by exact_mod_cast ha.ne'), Int.tdiv_eq_ediv_of_nonneg (Int.natCast_nonneg n),
      ← Int.natCast_div]
    exact int_result_cast (lt_of_le_of_lt (Nat.div_le_self n a) hn)
  unfold IntType.mod
  rw [hdiv, Int.tmod_eq_emod_of_nonneg (Int.natCast_nonneg n), ← Int.natCast_mod]
  rfl

/-- **Aligning a size**, where the sum with the alignment is still an `int`. -/
theorem realign_cast {n a : ℕ} (hn : n < 2 ^ 31) (ha : 0 < a) :
    realign n a = if n % a = 0 then some (n : ℤ)
      else if n + a < 2 ^ 31 then some ((roundUp n a : ℕ) : ℤ) else none := by
  unfold realign
  rw [int_mod_cast hn ha]
  show (if ((n % a : ℕ) : ℤ) ≠ 0 then _ else _) = _
  by_cases h : n % a = 0
  · rw [if_pos h, if_neg (not_not.mpr (by exact_mod_cast h))]
  · rw [if_neg h, if_pos (by exact_mod_cast h)]
    by_cases hfit : n + a < 2 ^ 31
    · rw [if_pos hfit, int_add_cast hfit]
      have hle : n % a ≤ n + a := (Nat.mod_le n a).trans (Nat.le_add_right n a)
      show int.result (((n + a : ℕ) : ℤ) - ((n % a : ℕ) : ℤ)) = _
      rw [← Nat.cast_sub hle, int_result_cast (by omega)]
      unfold roundUp
      rw [if_neg h]
    · rw [if_neg hfit]
      have hnone : int.add (n : ℤ) (a : ℤ) = none := by
        refine IntType.result_eq_none_iff.mpr ⟨rfl, fun hr => hfit ?_⟩
        rw [← Nat.cast_add] at hr
        exact int_inRange_iff.mp hr
      rw [hnone]
      rfl

/-- **A realignment that has a result gives the least multiple.** -/
theorem realign_eq_some {n a : ℕ} {v : ℤ} (hn : n < 2 ^ 31) (ha : 0 < a)
    (h : realign n a = some v) : v = (roundUp n a : ℕ) ∧ roundUp n a < 2 ^ 31 := by
  rw [realign_cast hn ha] at h
  unfold roundUp
  split at h
  case isTrue hmod =>
    rw [if_pos hmod]
    exact ⟨(Option.some.inj h).symm, hn⟩
  case isFalse hmod =>
    split at h
    case isTrue hfit =>
      rw [if_neg hmod]
      refine ⟨?_, by omega⟩
      rw [← Option.some.inj h]
      unfold roundUp
      rw [if_neg hmod]
    case isFalse => cases h

/-- **A realignment has a result when the least multiple is an `int`.** -/
theorem realign_of_lt {n a : ℕ} (hn : n < 2 ^ 31) (ha : 0 < a) (hdvd : a ∣ 2 ^ 31)
    (h : roundUp n a < 2 ^ 31) : realign n a = some ((roundUp n a : ℕ) : ℤ) := by
  rw [realign_cast hn ha]
  by_cases hmod : n % a = 0
  · rw [if_pos hmod]
    unfold roundUp
    rw [if_pos hmod]
  · rw [if_neg hmod, if_pos]
    -- the multiple lies below the size of the type by an alignment at least
    have hstep := Nat.le_of_dvd (Nat.sub_pos_of_lt h) (Nat.dvd_sub hdvd (dvd_roundUp n a))
    have heq : roundUp n a = n + a - n % a := by
      unfold roundUp
      rw [if_neg hmod]
    have hpos := Nat.pos_of_ne_zero hmod
    have hlt := Nat.mod_lt n ha
    omega

/-- A size is its own `unsigned long`. -/
theorem unsignedLong_convert_cast {n : ℕ} (h : n < 2 ^ 64) :
    unsignedLong.convert (n : ℤ) = n := by
  refine IntType.convert_of_inRange ⟨?_, ?_⟩
  · exact Int.natCast_nonneg n
  · show (n : ℤ) ≤ 0 + 2 ^ 64 - 1
    omega

/-- A multiple of a word that is converted to `int` is itself or negative. -/
theorem int_convert_cast {n : ℕ} (h : n ≤ 2 ^ 31) :
    int.convert (n : ℤ) = if n < 2 ^ 31 then (n : ℤ) else -2 ^ 31 := by
  split
  case isTrue hlt => exact IntType.convert_of_inRange (int_inRange_iff.mpr hlt)
  case isFalse hlt =>
    obtain rfl : n = 2 ^ 31 := by omega
    decide

/-- **A word is begun** at the next multiple, or out of the type. -/
theorem wordAligned_cast {n : ℕ} (hn : n < 2 ^ 31) :
    wordAligned n = if roundUp n 32 < 2 ^ 31 then ((roundUp n 32 : ℕ) : ℤ) else -2 ^ 31 := by
  have hround : roundUp n 32 ≤ 2 ^ 31 := roundUp_le (by norm_num) hn.le
  unfold wordAligned
  rw [unsignedLong_convert_cast (by omega)]
  have hmod : (n : ℤ) % WORD_LENGTH = ((n % 32 : ℕ) : ℤ) := by
    push_cast
    rfl
  dsimp only
  rw [hmod]
  unfold roundUp at hround ⊢
  by_cases h : n % 32 = 0
  · rw [if_neg (not_not.mpr (by exact_mod_cast h)), if_pos h, if_pos hn]
  · rw [if_pos (by exact_mod_cast h), if_neg h]
    rw [if_neg h] at hround
    have hcast : (n : ℤ) + WORD_LENGTH - ((n % 32 : ℕ) : ℤ) = ((n + 32 - n % 32 : ℕ) : ℤ) := by
      have := Nat.mod_lt n (show 0 < 32 by norm_num)
      rw [Nat.cast_sub (by omega), Nat.cast_add]
      rfl
    rw [hcast, unsignedLong_convert_cast (by omega), int_convert_cast hround]

/-- A bit-field that would cross a boundary begins at the next one. -/
theorem roundUp_of_cross {n w : ℕ} (hpos : 0 < w) (hw : w ≤ 32) (h : n / 32 ≠ (n + w - 1) / 32) :
    roundUp n 32 = 32 * (n / 32 + 1) := by
  unfold roundUp
  have hmod : n % 32 ≠ 0 := by
    intro h0
    omega
  rw [if_neg hmod]
  omega

/-- **Bits that would cross a word** begin at the next one, or out of the
type. -/
theorem wordStart_cast {n w : ℕ} (hn : n < 2 ^ 31) (hw : 0 < w) (hw' : w ≤ 32) :
    wordStart n w = if n + w < 2 ^ 31 then
        some (if bitStart n 32 w < 2 ^ 31 then ((bitStart n 32 w : ℕ) : ℤ) else -2 ^ 31)
      else none := by
  unfold wordStart
  by_cases hfit : n + w < 2 ^ 31
  · rw [if_pos hfit, int_add_cast hfit]
    have hsub : int.sub ((n + w : ℕ) : ℤ) 1 = some ((n + w - 1 : ℕ) : ℤ) := by
      show int.result _ = _
      rw [show ((n + w : ℕ) : ℤ) - 1 = ((n + w - 1 : ℕ) : ℤ) by omega]
      exact int_result_cast (by omega)
    show (int.sub ((n + w : ℕ) : ℤ) 1).bind _ = _
    rw [hsub]
    show (if _ ≠ _ then _ else _) = _
    rw [unsignedLong_convert_cast (by omega), unsignedLong_convert_cast (by omega)]
    have hdiv : ∀ k : ℕ, (k : ℤ) / WORD_LENGTH = ((k / 32 : ℕ) : ℤ) := fun k => by
      push_cast
      rfl
    rw [hdiv, hdiv]
    by_cases hcross : n / 32 = (n + w - 1) / 32
    · have hstart : bitStart n 32 w = n := if_pos ⟨hw.ne', hcross⟩
      rw [if_neg (not_not.mpr (by exact_mod_cast hcross.symm)), hstart, if_pos hn]
    · have hstart : bitStart n 32 w = 32 * (n / 32 + 1) :=
        (if_neg fun h => hcross h.2).trans (roundUp_of_cross hw hw' hcross)
      rw [if_pos (by exact_mod_cast Ne.symm hcross), hstart]
      have hcast : (WORD_LENGTH : ℤ) * (((n / 32 : ℕ) : ℤ) + 1) = ((32 * (n / 32 + 1) : ℕ) : ℤ) := by
        push_cast
        rfl
      rw [hcast, unsignedLong_convert_cast (by omega), int_convert_cast (by omega)]
  · rw [if_neg hfit]
    have hnone : int.add (n : ℤ) (w : ℤ) = none := by
      refine IntType.result_eq_none_iff.mpr ⟨rfl, fun hr => hfit ?_⟩
      rw [← Nat.cast_add] at hr
      exact int_inRange_iff.mp hr
    rw [hnone]
    rfl

/-- A size is its own `int`. -/
theorem toInt_cast {n : ℕ} (h : n < 2 ^ 31) : toInt n = n := by
  unfold toInt
  have hunsigned : unsignedInt.convert (n : ℤ) = n := by
    refine IntType.convert_of_inRange ⟨Int.natCast_nonneg n, ?_⟩
    show (n : ℤ) ≤ 0 + 2 ^ 32 - 1
    omega
  rw [hunsigned]
  exact IntType.convert_of_inRange (int_inRange_iff.mpr h)

end Cilk.Layout
