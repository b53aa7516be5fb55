import Cilk.Alignment
import Cilk.Layout.Model

/-!
# The layout rules of C

What the target's rules say about the size and the alignment of a type and about
the places of the fields of a structure, for types that C admits.

A field is placed at the lowest offset that its alignment admits. A field of
bits is placed at the first bit from which it does not cross a unit of its type,
and one of no bits is placed at the next unit. It raises the alignment of the
structure to that of its type; whether one without a name does so too is up to
the target, and `anon` says it. A complex type has the size of two of its basic
types, and the alignment of one. Where there are attributes, the target says what
they make of the type or of the field.
-/

namespace Cilk.Layout

open Alignment

variable (anon : Bool)

/-- The bytes that hold some bits. -/
def bytes (bits : ℕ) : ℕ := roundUp bits 8 / 8

/-- The start of a field, which is `start` without attributes. -/
def startWith (attributes : Option Placement) (pos start : ℕ) : ℕ :=
  attributes.elim start fun p => p.start pos

/-- The alignment that a field asks for, which is that of its type without
attributes. -/
def alignWith (attributes : Option Placement) (align : ℕ) : ℕ :=
  attributes.elim align Placement.align

theorem le_startWith {pos start : ℕ} (h : pos ≤ start) :
    ∀ attributes : Option Placement, pos ≤ startWith attributes pos start
  | none => h
  | some p => p.le_start pos

mutual

/-- `sizeof`, in bytes. -/
def TypeNode.size : TypeNode → ℕ
  | .Prim b complex => if complex then 2 * b.size else b.size
  | .Ptr => POINTER_SIZE
  | .Edcl => INT_SIZE
  | .Adcl _ none => 0
  | .Adcl type (some dim) => dim * type.size
  | .Sdcl fields => roundUp (fields.end 0) (8 * max 1 fields.align) / 8
  | .Udcl fields => roundUp fields.largest (max 1 fields.align)
  | .Attributed size _ _ => size

/-- The alignment, in bytes. -/
def TypeNode.align : TypeNode → ℕ
  | .Prim b _ => b.size
  | .Ptr => POINTER_SIZE
  | .Edcl => INT_SIZE
  | .Adcl type _ => type.align
  | .Sdcl fields | .Udcl fields => max 1 fields.align
  | .Attributed _ align _ => align

/-- The greatest alignment that a field asks for. -/
def Fields.align : Fields → ℕ
  | .nil => 0
  | .field type attributes rest => max (alignWith attributes type.align) rest.align
  | .bitfield type attributes named _ rest =>
    max (if named || anon then alignWith attributes type.align else 0) rest.align

/-- The bit behind the last field, when the fields start at `pos`. -/
def Fields.end : Fields → ℕ → ℕ
  | .nil, pos => pos
  | .field type attributes rest, pos =>
    rest.end (startWith attributes pos (roundUp pos (8 * type.align)) + 8 * type.size)
  | .bitfield type attributes _ bitsize rest, pos =>
    rest.end (startWith attributes pos (bitStart pos (8 * type.size) bitsize.toNat)
      + bitsize.toNat)

/-- The size of the largest member of a union. -/
def Fields.largest : Fields → ℕ
  | .nil => 0
  | .field type _ rest => max type.size rest.largest
  | .bitfield _ _ _ bitsize rest => max (bytes bitsize.toNat) rest.largest

end

/-- The places of the fields of a structure. -/
def Fields.places : Fields → ℕ → List (ℕ × ℕ)
  | .nil, _ => []
  | .field type attributes rest, pos =>
    let start := startWith attributes pos (roundUp pos (8 * type.align anon))
    let stop := start + 8 * type.size anon
    (start, stop) :: rest.places stop
  | .bitfield type attributes _ bitsize rest, pos =>
    let start := startWith attributes pos (bitStart pos (8 * type.size anon) bitsize.toNat)
    let stop := start + bitsize.toNat
    (start, stop) :: rest.places stop

/-! ## What the places are -/

/-- **A field begins at the lowest place** behind the one before it that its
alignment admits. -/
theorem Fields.field_place {type : TypeNode} (h : 0 < type.align anon) (rest : Fields) (pos : ℕ) :
    ∃ start, (Fields.field type none rest).places anon pos
        = (start, start + 8 * type.size anon) :: rest.places anon (start + 8 * type.size anon) ∧
      IsLeast {s | 8 * type.align anon ∣ s ∧ pos ≤ s} start :=
  ⟨_, rfl, isLeast_roundUp pos (by omega)⟩

/-- **A field of bits begins at the first place** from which it does not cross a
unit of its type. -/
theorem Fields.bitfield_place {type : TypeNode} {named : Bool} {w : ℕ} (hw : 0 < w)
    (h : w ≤ 8 * type.size anon) (rest : Fields) (pos : ℕ) :
    ∃ start, (Fields.bitfield type none named w rest).places anon pos
        = (start, start + w) :: rest.places anon (start + w) ∧
      IsLeast {s | pos ≤ s ∧ s / (8 * type.size anon) = (s + w - 1) / (8 * type.size anon)} start :=
  ⟨_, rfl, isLeast_bitStart pos hw h⟩

/-- **The size of a structure** is the least multiple of its alignment that covers
the fields. -/
theorem struct_size_isLeast (fields : Fields) :
    IsLeast {n | (TypeNode.Sdcl fields).align anon ∣ n ∧ fields.end anon 0 ≤ 8 * n}
      ((TypeNode.Sdcl fields).size anon) := by
  have hpos : 0 < 8 * max 1 (fields.align anon) := by omega
  have hsize : 8 * (TypeNode.Sdcl fields).size anon
      = roundUp (fields.end anon 0) (8 * max 1 (fields.align anon)) :=
    Nat.mul_div_cancel' ((Dvd.intro _ rfl).trans (dvd_roundUp _ _))
  obtain ⟨⟨hdvd, hle⟩, hleast⟩ := isLeast_roundUp (fields.end anon 0) hpos
  refine ⟨⟨?_, hsize ▸ hle⟩, fun n hn => ?_⟩
  · rw [← hsize] at hdvd
    exact Nat.dvd_of_mul_dvd_mul_left (by norm_num) hdvd
  · have h := hleast ⟨Nat.mul_dvd_mul_left 8 hn.1, hn.2⟩
    rw [← hsize] at h
    exact Nat.le_of_mul_le_mul_left h (by norm_num)

/-! ## The types that C admits -/

/-- A complex type. -/
def TypeNode.isComplex : TypeNode → Bool
  | .Prim _ complex => complex
  | .Attributed _ _ type => type.isComplex
  | _ => false

/-- A field of bits fits into its type, which is an integer, and one of no bits has
no name. -/
def AdmittedBits (type : TypeNode) (named : Bool) (bitsize : ℤ) : Prop :=
  type.isBitfieldType = true ∧ type.isComplex = false ∧ 0 < type.size anon ∧
    0 ≤ bitsize ∧ bitsize ≤ 8 * type.size anon ∧ (bitsize = 0 → named = false)

instance (type : TypeNode) (named : Bool) (bitsize : ℤ) :
    Decidable (AdmittedBits anon type named bitsize) := inferInstanceAs (Decidable (_ ∧ _))

mutual

/-- A type that a field may have, where `allow` says whether it may be an array
without a dimension. -/
def TypeNode.Admitted : TypeNode → Bool → Prop
  | .Prim _ _, _ | .Ptr, _ | .Edcl, _ => True
  | .Adcl type none, allow => allow = true ∧ type.Admitted false
  | .Adcl type (some _), _ => type.Admitted false
  | .Sdcl fields, _ => fields.Admitted true 0
  | .Udcl fields, _ => fields.Admitted false 0
  | .Attributed _ align type, allow => 0 < align ∧ type.Admitted allow

/-- The fields are admitted, after `cnt` others. An array without a dimension may
be the last field of a structure, if it is not the only one. -/
def Fields.Admitted : Fields → Bool → ℕ → Prop
  | .nil, _, _ => True
  | .field type _ rest, struct, cnt =>
    type.Admitted (struct && (rest.isNil && cnt + 1 > 1)) ∧ rest.Admitted struct (cnt + 1)
  | .bitfield type _ named bitsize rest, struct, cnt =>
    (type.Admitted false ∧ AdmittedBits anon type named bitsize) ∧ rest.Admitted struct (cnt + 1)

end

/-- **A complete type**: it has a size, and all that it is made of is admitted. -/
def TypeNode.Complete (t : TypeNode) : Prop := t.Admitted anon false

/-- **An admitted type has an alignment.** -/
theorem TypeNode.align_pos : ∀ {t : TypeNode} {allow : Bool}, t.Admitted anon allow →
    0 < t.align anon
  | .Prim b _, _, _ => show 0 < b.size by cases b <;> decide
  | .Ptr, _, _ => show 0 < POINTER_SIZE by decide
  | .Edcl, _, _ => show 0 < INT_SIZE by decide
  | .Adcl type none, _, h => TypeNode.align_pos (t := type) h.2
  | .Adcl type (some _), _, h =>
    TypeNode.align_pos (t := type) (show type.Admitted anon false from h)
  | .Sdcl _, _, _ | .Udcl _, _, _ => Nat.lt_of_lt_of_le Nat.one_pos (le_max_left 1 _)
  | .Attributed _ _ _, _, h => h.1

/-- The positions do not fall. -/
theorem Fields.le_end : ∀ (fields : Fields) {struct : Bool} {cnt : ℕ},
    fields.Admitted anon struct cnt → ∀ pos, pos ≤ fields.end anon pos
  | .nil, _, _, _, pos => le_rfl
  | .field type attributes rest, _, _, h, pos => by
    have hpos := TypeNode.align_pos anon h.1
    have hstart := le_startWith (le_roundUp pos (show 0 < 8 * type.align anon by omega)) attributes
    exact (hstart.trans (Nat.le_add_right _ _)).trans (Fields.le_end rest h.2 _)
  | .bitfield type attributes _ bitsize rest, _, _, h, pos => by
    have hpos := h.1.2.2.2.1
    have hstart := le_startWith
      (le_bitStart pos (show 0 < 8 * type.size anon by omega) bitsize.toNat) attributes
    exact (hstart.trans (Nat.le_add_right _ _)).trans (Fields.le_end rest h.2 _)

end Cilk.Layout
