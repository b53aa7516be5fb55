import Cilk.Layout.Arithmetic

/-!
# Where the layout is that of C

A structure is laid out as the rules say, with all the types it is made of,
exactly when the following hold of these.

* A structure is smaller than 2 ^ 28 bytes, since its bits are counted in an
  `int`, and an array is smaller than 2 ^ 31 bytes.
* Every field is placed where one without attributes would be, and every field of
  bits where one of type `int` would be: the source uses one word length for all
  of them.
* A structure is aligned as the types of its fields are, without those of bits:
  the source gives a field of bits the alignment of a byte, and looks at no
  attributes.
* A union has a member, and needs no padding at its end, where a field of bits
  counts as a whole unit: the source stores the greatest size and the greatest
  alignment among the types of the members.
* No basic type is complex, and attributes change neither the size nor the
  alignment of a type.
-/

namespace Cilk.Layout

open Alignment

variable (anon : Bool)

/-- A list of places, as numbers of the computation. -/
def castPlaces (places : List (ℕ × ℕ)) : List (ℤ × ℤ) :=
  places.map fun p => ((p.1 : ℤ), (p.2 : ℤ))

/-- **What is stored of a type is what the rules say.** -/
def TypeNode.Right : TypeNode → Prop
  | .Adcl type (some dim) => SemCheckAdcl type dim = some ((TypeNode.Adcl type (some dim)).size anon : ℤ)
  | .Sdcl fields => StructCheckFields fields
      = some ⟨(TypeNode.Sdcl fields).size anon, (TypeNode.Sdcl fields).align anon,
          castPlaces (fields.places anon 0)⟩
  | .Udcl fields => UnionCheckFields fields
      = some (((TypeNode.Udcl fields).size anon : ℤ), ((TypeNode.Udcl fields).align anon : ℤ))
  | t => NodeSizeof t true = some (t.size anon : ℤ) ∧ NodeAlignment t = some (t.align anon : ℤ)

/-- The greatest alignment of the type of a field that is not one of bits. -/
def Fields.plainAlign : Fields → ℕ
  | .nil => 0
  | .field type _ rest => max (type.align anon) rest.plainAlign
  | .bitfield _ _ _ _ rest => rest.plainAlign

/-- Every field is placed where one without attributes would be, and one of bits
where one of type `int` would be. -/
def Fields.WordPlaced : Fields → ℕ → Prop
  | .nil, _ => True
  | .field type attributes rest, pos =>
    let plain := roundUp pos (8 * type.align anon)
    startWith attributes pos plain = plain ∧ rest.WordPlaced (plain + 8 * type.size anon)
  | .bitfield type attributes _ bitsize rest, pos =>
    let word := bitStart pos WORD_LENGTH bitsize.toNat
    startWith attributes pos (bitStart pos (8 * type.size anon) bitsize.toNat) = word ∧
      rest.WordPlaced (word + bitsize.toNat)

/-- The size of the largest member of a union, where a field of bits counts as a
whole unit. -/
def Fields.largestUnit : Fields → ℕ
  | .nil => 0
  | .field type _ rest | .bitfield type _ _ _ rest => max (type.size anon) rest.largestUnit

/-- The greatest alignment of the type of a member, with or without a name. -/
def Fields.allAlign : Fields → ℕ
  | .nil => 0
  | .field type _ rest | .bitfield type _ _ _ rest => max (type.align anon) rest.allAlign

/-- **The source's rules give what C's rules give** for this type, when they do
for those that it is made of. -/
def TypeNode.Regular : TypeNode → Prop
  | .Adcl type (some dim) => 0 ≤ int.convert dim ∧ dim * type.size anon < 2 ^ 31
  | .Sdcl fields => 8 * (TypeNode.Sdcl fields).size anon < 2 ^ 31 ∧ fields.WordPlaced anon 0 ∧
      (TypeNode.Sdcl fields).align anon = max 1 (fields.plainAlign anon)
  | .Udcl fields => fields.largestUnit anon = (TypeNode.Udcl fields).size anon ∧
      fields.allAlign anon = (TypeNode.Udcl fields).align anon
  | .Prim _ complex => complex = false
  | .Attributed size align type => size = type.size anon ∧ align = type.align anon
  | _ => True

mutual

/-- A property of a type and of all the types that it is made of. -/
def TypeNode.Everywhere (P : TypeNode → Prop) : TypeNode → Prop
  | .Adcl type dim => P (.Adcl type dim) ∧ type.Everywhere P
  | .Sdcl fields => P (.Sdcl fields) ∧ fields.Everywhere P
  | .Udcl fields => P (.Udcl fields) ∧ fields.Everywhere P
  | .Attributed size align type => P (.Attributed size align type) ∧ type.Everywhere P
  | .Prim b complex => P (.Prim b complex)
  | .Ptr => P .Ptr
  | .Edcl => P .Edcl

def Fields.Everywhere (P : TypeNode → Prop) : Fields → Prop
  | .nil => True
  | .field type _ rest | .bitfield type _ _ _ rest => type.Everywhere P ∧ rest.Everywhere P

end

/-! ## Alignments -/

/-- The alignments of the target. -/
def alignments : List ℕ := [1, 2, 4, 8, 16]

theorem max_mem_alignments {a b : ℕ} (ha : a ∈ 0 :: alignments) (hb : b ∈ 0 :: alignments) :
    max a b ∈ 0 :: alignments := by
  rcases max_choice a b with h | h
  · rw [h]
    exact ha
  · rw [h]
    exact hb

theorem max_one_mem_alignments {a : ℕ} (ha : a ∈ 0 :: alignments) : max 1 a ∈ alignments := by
  revert ha
  unfold alignments
  simp only [List.mem_cons, List.not_mem_nil, or_false]
  omega

theorem BasicType.size_mem (b : BasicType) : b.size ∈ alignments := by
  cases b <;> decide

/-- The bits of an alignment divide the size of an `int`. -/
theorem bits_of_alignment {a : ℕ} (h : a ∈ alignments) : 0 < 8 * a ∧ 8 * a ∣ 2 ^ 31 ∧ a ≤ 16 := by
  revert a
  unfold alignments
  decide

/-! ## What the computation gives for a type -/

/-- The size and the alignment of a type are computed as the rules say. -/
structure TypeNode.Computed (t : TypeNode) (allow : Bool) : Prop where
  size : NodeSizeof t allow = some (t.size anon : ℤ)
  align : NodeAlignment t = some (t.align anon : ℤ)
  lt : t.size anon < 2 ^ 31
  mem : t.align anon ∈ alignments

/-- Those of every field are, when `cnt` fields have been counted. -/
def Fields.Computed : Fields → ℕ → Prop
  | .nil, _ => True
  | .field type _ rest, cnt =>
    type.Computed anon (rest.isNil && cnt + 1 > 1) ∧ rest.Computed (cnt + 1)
  | .bitfield type _ _ _ rest, cnt => type.Computed anon false ∧ rest.Computed (cnt + 1)

/-- The source takes a field of bits to be of at most a word. -/
theorem NodeSizeof_bitfield : ∀ {t : TypeNode}, t.isBitfieldType = true →
    ∃ n : ℕ, NodeSizeof t false = some (n : ℤ) ∧ n ≤ 4
  | .Prim b _, h => by
    refine ⟨b.size, by rw [NodeSizeof], ?_⟩
    cases b <;> first | decide | nomatch h
  | .Edcl, _ => ⟨INT_SIZE, by rw [NodeSizeof], by decide⟩
  | .Attributed _ _ type, h => by
    rw [NodeSizeof]
    exact NodeSizeof_bitfield (t := type) h

theorem bitfield_size {t : TypeNode} (h : t.isBitfieldType = true) (hc : t.Computed anon false) :
    t.size anon ≤ 4 := by
  obtain ⟨n, hn, hle⟩ := NodeSizeof_bitfield h
  have heq : ((t.size anon : ℕ) : ℤ) = n := Option.some.inj (hc.size.symm.trans hn)
  omega

theorem Fields.plainAlign_mem : ∀ (fields : Fields) {cnt : ℕ}, fields.Computed anon cnt →
    fields.plainAlign anon ∈ 0 :: alignments
  | .nil, _, _ => List.mem_cons_self
  | .field _ _ rest, _, h =>
    max_mem_alignments (List.mem_cons_of_mem _ h.1.mem) (Fields.plainAlign_mem rest h.2)
  | .bitfield _ _ _ _ rest, _, h => Fields.plainAlign_mem rest h.2

theorem int_mul_align {a : ℕ} (h : a ∈ alignments) :
    int.mul (a : ℤ) BYTE_LENGTH = some ((8 * a : ℕ) : ℤ) := by
  have := (bits_of_alignment h).2.2
  show int.result _ = _
  rw [show (a : ℤ) * (BYTE_LENGTH : ℤ) = ((8 * a : ℕ) : ℤ) by
    rw [mul_comm, Nat.cast_mul]
    rfl]
  exact int_result_cast (by omega)

theorem max_cast (m a : ℕ) : max (m : ℤ) (a : ℤ) = ((max m a : ℕ) : ℤ) := (Nat.cast_max m a).symm

/-- **The loop follows the rules**, if the bits of the fields fit and the fields
of bits are placed as in words. -/
theorem structLoop_eq : ∀ (fields : Fields) {cnt : ℕ}, fields.Admitted anon true cnt →
    fields.Computed anon cnt → ∀ {pos m : ℕ}, 8 ≤ m → fields.WordPlaced anon pos →
    fields.end anon pos < 2 ^ 31 →
    structLoop fields cnt pos m = some ⟨fields.end anon pos,
      ((max m (8 * fields.plainAlign anon) : ℕ) : ℤ), castPlaces (fields.places anon pos)⟩
  | .nil, cnt, _, _, pos, m, _, _, _ => by
    rw [structLoop]
    show _ = some (Progress.mk (pos : ℤ) ((max m (8 * 0) : ℕ) : ℤ) [])
    rw [mul_zero, max_eq_left (Nat.zero_le m)]
  | .field type attributes rest, cnt, hc, hcomp, pos, m, hm, hword, hend => by
    obtain ⟨⟨hsize, halign, -, hmem⟩, hcomp⟩ := hcomp
    obtain ⟨hpos, hdvd, -⟩ := bits_of_alignment hmem
    obtain ⟨hplain, hword⟩ := hword
    have hstop := Fields.le_end anon rest hc.2
      (roundUp pos (8 * type.align anon) + 8 * type.size anon)
    have hlt : rest.end anon (startWith attributes pos (roundUp pos (8 * type.align anon))
      + 8 * type.size anon) < 2 ^ 31 := hend
    rw [hplain] at hlt
    have hle := le_roundUp pos hpos
    have hplaces : (Fields.field type attributes rest).places anon pos
        = (roundUp pos (8 * type.align anon), roundUp pos (8 * type.align anon) + 8 * type.size anon)
          :: rest.places anon (roundUp pos (8 * type.align anon) + 8 * type.size anon) := by
      rw [Fields.places, hplain]
    have hends : (Fields.field type attributes rest).end anon pos
        = rest.end anon (roundUp pos (8 * type.align anon) + 8 * type.size anon) := by
      rw [Fields.end, hplain]
    have hbits : toInt (BYTE_LENGTH * (type.size anon : ℤ)) = ((8 * type.size anon : ℕ) : ℤ) := by
      rw [← toInt_cast (show 8 * type.size anon < 2 ^ 31 by omega), Nat.cast_mul]
      rfl
    rw [structLoop, hsize]
    show (NodeAlignment type).bind _ = _
    rw [halign]
    show (int.mul _ _).bind _ = _
    rw [int_mul_align hmem]
    show (realign _ _).bind _ = _
    rw [realign_of_lt (by omega) hpos hdvd (by omega), Option.bind_some, hbits,
      int_add_cast (by omega), Option.bind_some, max_cast,
      structLoop_eq rest hc.2 hcomp (hm.trans (le_max_left _ _)) hword hlt]
    have hmax : max (max m (8 * type.align anon)) (8 * rest.plainAlign anon)
        = max m (8 * max (type.align anon) (rest.plainAlign anon)) := by
      rw [max_assoc, Nat.mul_max_mul_left]
    rw [hmax, hplaces, hends]
    rfl
  | .bitfield type attributes named bitsize rest, cnt, hc, hcomp, pos, m, hm, hword, hend => by
    obtain ⟨⟨-, htype, -, -, hnonneg, hfit, hnamed⟩, hrest⟩ := hc
    obtain ⟨hone, hcomp⟩ := hcomp
    obtain ⟨hstart, hword⟩ := hword
    obtain ⟨w, rfl⟩ := Int.eq_ofNat_of_zero_le hnonneg
    have hsize := bitfield_size anon htype hone
    have hw : w ≤ 32 := by omega
    have hle : pos ≤ bitStart pos 32 w := le_bitStart pos (by omega) w
    have hstop := Fields.le_end anon rest hrest (bitStart pos 32 w + w)
    have hstart : startWith attributes pos (bitStart pos (8 * type.size anon) w)
      = bitStart pos 32 w := hstart
    have hlt : rest.end anon (startWith attributes pos (bitStart pos (8 * type.size anon) w)
      + w) < 2 ^ 31 := hend
    rw [hstart] at hlt
    have hword : rest.WordPlaced anon (bitStart pos 32 w + w) := hword
    have hplaces : (Fields.bitfield type attributes named w rest).places anon pos
        = (bitStart pos 32 w, bitStart pos 32 w + w)
          :: rest.places anon (bitStart pos 32 w + w) := by
      rw [← hstart]
      rfl
    have hends : (Fields.bitfield type attributes named w rest).end anon pos
        = rest.end anon (bitStart pos 32 w + w) := by
      rw [← hstart]
      rfl
    rw [structLoop, if_neg (not_not.mpr htype), if_neg (by omega), hplaces, hends]
    have hmax : max (m : ℤ) BYTE_LENGTH = (m : ℤ) := max_eq_left (by exact_mod_cast hm)
    by_cases hzero : w = 0
    · subst hzero
      have hnone : bitStart pos 32 0 = roundUp pos 32 := if_neg fun h => h.1 rfl
      rw [if_pos Nat.cast_zero, if_neg (by rw [hnamed rfl]; exact Bool.false_ne_true)]
      have haligned : wordAligned pos = ((bitStart pos 32 0 : ℕ) : ℤ) := by
        rw [wordAligned_cast (by omega), ← hnone, if_pos (by omega)]
      have hloop : structLoop rest (cnt + 1) ((bitStart pos 32 0 : ℕ) : ℤ) m = _ :=
        structLoop_eq rest hrest hcomp hm hword hlt
      dsimp only
      rw [haligned, hmax, hloop]
      rfl
    · rw [if_neg (by exact_mod_cast hzero)]
      have hbegin : wordStart pos w = some ((bitStart pos 32 w : ℕ) : ℤ) := by
        rw [wordStart_cast (by omega) (Nat.pos_of_ne_zero hzero) hw, if_pos (by omega),
          if_pos (by omega)]
      rw [hbegin, Option.bind_some, int_add_cast (by omega), Option.bind_some, hmax,
        structLoop_eq rest hrest hcomp hm hword hlt]
      rfl

/-- **Places that are those of the rules** were computed as the rules say, each
from the one before it. -/
theorem structLoop_places : ∀ (fields : Fields) {cnt : ℕ}, fields.Admitted anon true cnt →
    fields.Computed anon cnt → ∀ {pos m : ℕ} {p : Progress}, 8 ≤ m → pos < 2 ^ 31 →
    structLoop fields cnt pos m = some p → p.places = castPlaces (fields.places anon pos) →
    fields.WordPlaced anon pos ∧ fields.end anon pos < 2 ^ 31
  | .nil, _, _, _, _, _, _, _, hlt, _, _ => ⟨trivial, hlt⟩
  | .field type attributes rest, cnt, hc, hcomp, pos, m, p, hm, hlt, h, hplaces => by
    obtain ⟨⟨hsize, halign, -, hmem⟩, hcomp⟩ := hcomp
    rw [structLoop, hsize, Option.bind_some, halign, Option.bind_some, int_mul_align hmem,
      Option.bind_some] at h
    obtain ⟨start, hstart, h⟩ := Option.bind_eq_some_iff.mp h
    obtain ⟨stop, hstop, h⟩ := Option.bind_eq_some_iff.mp h
    obtain ⟨q, hq, rfl⟩ := Option.map_eq_some_iff.mp h
    obtain ⟨hplace, hrest⟩ := List.cons.inj hplaces
    obtain ⟨rfl, rfl⟩ := Prod.mk.inj hplace
    have hplain : startWith attributes pos (roundUp pos (8 * type.align anon))
        = roundUp pos (8 * type.align anon) := by
      exact_mod_cast (realign_eq_some hlt (bits_of_alignment hmem).1 hstart).1
    have hend := int_inRange_iff.mp (int_result_eq_some hstop).2
    rw [max_cast] at hq
    have hnext := structLoop_places rest hc.2 hcomp (hm.trans (le_max_left _ _)) hend hq hrest
    exact ⟨⟨hplain, hplain ▸ hnext.1⟩, hnext.2⟩
  | .bitfield type attributes named bitsize rest, cnt, hc, hcomp, pos, m, p, hm, hlt, h, hplaces => by
    obtain ⟨⟨-, htype, -, -, hnonneg, hfit, hnamed⟩, hrest⟩ := hc
    obtain ⟨hone, hcomp⟩ := hcomp
    obtain ⟨w, rfl⟩ := Int.eq_ofNat_of_zero_le hnonneg
    have hsize := bitfield_size anon htype hone
    have hw : w ≤ 32 := by omega
    have hmax : max (m : ℤ) BYTE_LENGTH = (m : ℤ) := max_eq_left (by exact_mod_cast hm)
    rw [structLoop, if_neg (not_not.mpr htype), if_neg (by omega)] at h
    by_cases hzero : w = 0
    · subst hzero
      have hnone : bitStart pos 32 0 = roundUp pos 32 := if_neg fun h => h.1 rfl
      rw [if_pos Nat.cast_zero, if_neg (by rw [hnamed rfl]; exact Bool.false_ne_true), hmax] at h
      obtain ⟨q, hq, rfl⟩ := Option.map_eq_some_iff.mp h
      obtain ⟨hplace, hplaces⟩ := List.cons.inj hplaces
      have hstart : wordAligned pos
          = ((startWith attributes pos (bitStart pos (8 * type.size anon) 0) : ℕ) : ℤ) :=
        (Prod.mk.inj hplace).1
      have hin : roundUp pos 32 < 2 ^ 31 := by
        by_contra hout
        rw [wordAligned_cast hlt, if_neg hout] at hstart
        omega
      have heq : startWith attributes pos (bitStart pos (8 * type.size anon) 0)
          = bitStart pos 32 0 := by
        rw [wordAligned_cast hlt, if_pos hin, ← hnone] at hstart
        exact_mod_cast hstart.symm
      rw [hstart] at hq
      have hnext := structLoop_places rest hrest hcomp hm (by rw [heq, hnone]; exact hin) hq hplaces
      exact ⟨⟨heq, heq ▸ hnext.1⟩, hnext.2⟩
    · rw [if_neg (by exact_mod_cast hzero), hmax] at h
      obtain ⟨start, hbegin, h⟩ := Option.bind_eq_some_iff.mp h
      obtain ⟨stop, hstop, h⟩ := Option.bind_eq_some_iff.mp h
      obtain ⟨q, hq, rfl⟩ := Option.map_eq_some_iff.mp h
      obtain ⟨hplace, htail⟩ := List.cons.inj hplaces
      obtain ⟨hstart, rfl⟩ := Prod.mk.inj hplace
      have hend := int_inRange_iff.mp (int_result_eq_some hstop).2
      have heq : startWith attributes pos (bitStart pos (8 * type.size anon) w)
          = bitStart pos 32 w := by
        rw [wordStart_cast hlt (Nat.pos_of_ne_zero hzero) hw] at hbegin
        split at hbegin
        case isFalse => cases hbegin
        case isTrue =>
          have hbegin := (Option.some.inj hbegin).trans hstart
          split at hbegin
          case isTrue => exact_mod_cast hbegin.symm
          case isFalse => omega
      have hnext := structLoop_places rest hrest hcomp hm hend hq htail
      exact ⟨⟨heq, heq ▸ hnext.1⟩, hnext.2⟩

/-! ## A type whose components are computed -/

/-- The least alignment that the source gives to a structure is that of a byte. -/
theorem max_eight (a : ℕ) : max 8 (8 * a) = 8 * max 1 a := Nat.mul_max_mul_left 8 1 a

/-- The end of `StructCheckFields`, where the bits are rounded up. -/
theorem finish_eq {n a : ℕ} {places : List (ℤ × ℤ)} {s : Stored} (hn : n < 2 ^ 31)
    (ha : a ∈ alignments) : (Progress.mk (n : ℤ) ((8 * a : ℕ) : ℤ) places).finish = some s ↔
      roundUp n (8 * a) < 2 ^ 31 ∧ s = ⟨((roundUp n (8 * a) / 8 : ℕ) : ℤ), (a : ℤ), places⟩ := by
  obtain ⟨hpos, hdvd, -⟩ := bits_of_alignment ha
  have hdiv : ∀ k : ℕ, (k : ℤ).tdiv BYTE_LENGTH = ((k / 8 : ℕ) : ℤ) := fun k => by
    rw [Int.tdiv_eq_ediv_of_nonneg (Int.natCast_nonneg k)]
    rfl
  have halign : ((8 * a : ℕ) : ℤ).tdiv BYTE_LENGTH = (a : ℤ) := by
    rw [hdiv, Nat.mul_div_cancel_left a (by norm_num)]
  unfold Progress.finish
  constructor
  · intro h
    obtain ⟨bits, hbits, h⟩ := Option.bind_eq_some_iff.mp h
    obtain ⟨rfl, hlt⟩ := realign_eq_some hn hpos hbits
    refine ⟨hlt, ?_⟩
    rw [← Option.some.inj h, hdiv, halign]
  · rintro ⟨hlt, rfl⟩
    rw [realign_of_lt hn hpos hdvd hlt]
    show some (Stored.mk _ _ _) = _
    rw [hdiv, halign]

theorem eight_mul_roundUp {n a : ℕ} : 8 * (roundUp n (8 * a) / 8) = roundUp n (8 * a) :=
  Nat.mul_div_cancel' ((Dvd.intro a rfl).trans (dvd_roundUp n (8 * a)))

/-- **A structure of fields that are computed as the rules say.** -/
theorem struct_right_iff {fields : Fields} (hc : fields.Admitted anon true 0)
    (hcomp : fields.Computed anon 0) :
    (TypeNode.Sdcl fields).Right anon ↔ (TypeNode.Sdcl fields).Regular anon := by
  have hmem := max_one_mem_alignments (fields.plainAlign_mem anon hcomp)
  show StructCheckFields fields = some (Stored.mk
      ((roundUp (fields.end anon 0) (8 * max 1 (fields.align anon)) / 8 : ℕ) : ℤ)
      ((max 1 (fields.align anon) : ℕ) : ℤ) (castPlaces (fields.places anon 0))) ↔
    8 * (roundUp (fields.end anon 0) (8 * max 1 (fields.align anon)) / 8) < 2 ^ 31 ∧
      fields.WordPlaced anon 0 ∧ max 1 (fields.align anon) = max 1 (fields.plainAlign anon)
  rw [eight_mul_roundUp]
  unfold StructCheckFields
  constructor
  · intro h
    obtain ⟨p, hloop, hfinish⟩ := Option.bind_eq_some_iff.mp h
    have hplaces : p.places = castPlaces (fields.places anon 0) := by
      obtain ⟨bits, -, hs⟩ := Option.bind_eq_some_iff.mp hfinish
      exact congrArg Stored.places (Option.some.inj hs)
    have hstart : structLoop fields 0 ((0 : ℕ) : ℤ) ((8 : ℕ) : ℤ) = some p := hloop
    obtain ⟨hword, hend⟩ :=
      structLoop_places anon fields hc hcomp (le_refl 8) (by norm_num) hstart hplaces
    have heq := structLoop_eq anon fields hc hcomp (le_refl 8) hword hend
    obtain rfl := Option.some.inj (hloop.symm.trans heq)
    rw [max_eight] at hfinish
    obtain ⟨hlt, hs⟩ := (finish_eq hend hmem).mp hfinish
    have halign : max 1 (fields.align anon) = max 1 (fields.plainAlign anon) :=
      Int.ofNat.inj (congrArg Stored.align hs)
    exact ⟨by rw [halign]; exact hlt, hword, halign⟩
  · rintro ⟨hlt, hword, halign⟩
    rw [halign] at hlt ⊢
    have hend := lt_of_le_of_lt (le_roundUp (fields.end anon 0) (bits_of_alignment hmem).1) hlt
    have heq := structLoop_eq anon fields hc hcomp (le_refl 8) hword hend
    have hloop : structLoop fields 0 0 8 = _ := heq
    rw [hloop, Option.bind_some, max_eight]
    exact (finish_eq hend hmem).mpr ⟨hlt, rfl⟩

/-- A structure that is laid out right has an alignment of the target. -/
theorem struct_align_mem {fields : Fields} (hcomp : fields.Computed anon 0)
    (hreg : (TypeNode.Sdcl fields).Regular anon) :
    (TypeNode.Sdcl fields).align anon ∈ alignments :=
  hreg.2.2 ▸ max_one_mem_alignments (fields.plainAlign_mem anon hcomp)

/-! ## Unions -/

/-- The members of a union are computed as the rules say. -/
def Fields.ComputedUnion : Fields → Prop
  | .nil => True
  | .field type _ rest | .bitfield type _ _ _ rest =>
    type.Computed anon false ∧ rest.ComputedUnion

/-- One member. The source treats one of bits as it treats any other. -/
theorem union_step {type : TypeNode} (hcomp : type.Computed anon false) (s a : ℕ)
    (k : ℤ → ℤ → Option (ℤ × ℤ)) :
    ((NodeSizeof type false).bind fun size => (NodeAlignment type).bind fun align =>
      k (max (s : ℤ) (int.convert size)) (max (a : ℤ) align))
        = k ((max s (type.size anon) : ℕ) : ℤ) ((max a (type.align anon) : ℕ) : ℤ) := by
  rw [hcomp.size, Option.bind_some, hcomp.align, Option.bind_some, int_convert_cast hcomp.lt.le,
    if_pos hcomp.lt, max_cast, max_cast]

theorem unionLoop_eq : ∀ (fields : Fields), fields.ComputedUnion anon → ∀ s a : ℕ,
    unionLoop fields s a = some (((max s (fields.largestUnit anon) : ℕ) : ℤ),
      ((max a (fields.allAlign anon) : ℕ) : ℤ))
  | .nil, _, s, a => by
    rw [unionLoop]
    show _ = some (((max s 0 : ℕ) : ℤ), ((max a 0 : ℕ) : ℤ))
    rw [max_eq_left (Nat.zero_le s), max_eq_left (Nat.zero_le a)]
  | .field type _ rest, h, s, a => by
    rw [unionLoop, union_step anon h.1, unionLoop_eq rest h.2, max_assoc, max_assoc]
    rfl
  | .bitfield type _ _ _ rest, h, s, a => by
    rw [unionLoop, union_step anon h.1, unionLoop_eq rest h.2, max_assoc, max_assoc]
    rfl

theorem union_right_iff {fields : Fields} (hcomp : fields.ComputedUnion anon) :
    (TypeNode.Udcl fields).Right anon ↔ (TypeNode.Udcl fields).Regular anon := by
  show UnionCheckFields fields = some (((TypeNode.Udcl fields).size anon : ℤ),
      ((TypeNode.Udcl fields).align anon : ℤ)) ↔
    fields.largestUnit anon = (TypeNode.Udcl fields).size anon ∧
      fields.allAlign anon = (TypeNode.Udcl fields).align anon
  have hloop : UnionCheckFields fields = some _ := unionLoop_eq anon fields hcomp 0 0
  rw [hloop, max_eq_right (Nat.zero_le _), max_eq_right (Nat.zero_le _), Option.some_inj,
    Prod.mk.injEq, Nat.cast_inj, Nat.cast_inj]

/-! ## Arrays -/

theorem toInt_eq (x : ℤ) : toInt x = int.convert x := IntType.convert_convert (le_refl 31) x

/-- The number of elements is converted to `int` before it is multiplied. -/
theorem array_size_iff {dim size : ℕ} :
    arraySize dim size = some ((dim * size : ℕ) : ℤ) ↔
      0 ≤ int.convert dim ∧ dim * size < 2 ^ 31 := by
  -- a multiple of the size of the type is lost
  have hcongr : int.convert (int.convert dim * size) = int.convert ((dim * size : ℕ) : ℤ) := by
    rw [IntType.convert_eq_iff, Nat.cast_mul, ← sub_mul]
    exact (IntType.size_dvd_convert_sub _).mul_right _
  unfold arraySize
  dsimp only
  constructor
  · intro h
    split at h
    case isTrue => cases h
    case isFalse hnonneg =>
      refine ⟨not_lt.mp hnonneg, int_inRange_iff.mp ?_⟩
      rw [← Option.some.inj h, toInt_eq]
      exact int.inRange_convert _
  · rintro ⟨hnonneg, hlt⟩
    rw [if_neg (not_lt.mpr hnonneg), toInt_eq, hcongr, int_convert_cast hlt.le, if_pos hlt]

theorem array_right_iff {type : TypeNode} {dim : ℕ} (hcomp : type.Computed anon false) :
    (TypeNode.Adcl type (some dim)).Right anon ↔ (TypeNode.Adcl type (some dim)).Regular anon := by
  show (NodeSizeof type false).bind (arraySize dim) = some ((dim * type.size anon : ℕ) : ℤ) ↔ _
  rw [hcomp.size, Option.bind_some]
  exact array_size_iff

/-! ## All types -/

theorem unsignedInt_convert_cast {n : ℕ} (h : n < 2 ^ 31) : unsignedInt.convert (n : ℤ) = n := by
  refine IntType.convert_of_inRange ⟨Int.natCast_nonneg n, ?_⟩
  show (n : ℤ) ≤ 0 + 2 ^ 32 - 1
  omega

/-- What is stored is read back by `NodeSizeof` and `NodeAlignment`. -/
theorem array_computed {type : TypeNode} {dim : ℕ} (hcomp : type.Computed anon false)
    (hright : (TypeNode.Adcl type (some dim)).Right anon)
    (hlt : (TypeNode.Adcl type (some dim)).size anon < 2 ^ 31) (allow : Bool) :
    (TypeNode.Adcl type (some dim)).Computed anon allow := by
  refine ⟨?_, ?_, hlt, hcomp.mem⟩
  · have hsize : SemCheckAdcl type dim = some ((TypeNode.Adcl type (some dim)).size anon : ℤ) := hright
    unfold SemCheckAdcl at hsize
    rw [hcomp.size, Option.bind_some] at hsize
    rw [NodeSizeof, hcomp.size, Option.bind_some, hsize]
    exact congrArg some (unsignedInt_convert_cast hlt)
  · rw [NodeAlignment, hcomp.align]
    rfl

theorem struct_computed {fields : Fields} (hright : (TypeNode.Sdcl fields).Right anon)
    (hlt : (TypeNode.Sdcl fields).size anon < 2 ^ 31)
    (hmem : (TypeNode.Sdcl fields).align anon ∈ alignments) (allow : Bool) :
    (TypeNode.Sdcl fields).Computed anon allow := by
  obtain ⟨p, hloop, hfinish⟩ := Option.bind_eq_some_iff.mp
    (show (structLoop fields 0 0 8).bind Progress.finish = some _ from hright)
  refine ⟨?_, ?_, hlt, hmem⟩
  · rw [NodeSizeof, hloop, Option.bind_some, hfinish]
    exact congrArg some (unsignedInt_convert_cast hlt)
  · rw [NodeAlignment, hloop, Option.bind_some, hfinish]
    rfl

theorem union_computed {fields : Fields} (hright : (TypeNode.Udcl fields).Right anon)
    (hlt : (TypeNode.Udcl fields).size anon < 2 ^ 31)
    (hmem : (TypeNode.Udcl fields).align anon ∈ alignments) (allow : Bool) :
    (TypeNode.Udcl fields).Computed anon allow := by
  have hloop : unionLoop fields 0 0 = some (((TypeNode.Udcl fields).size anon : ℤ),
      ((TypeNode.Udcl fields).align anon : ℤ)) := hright
  refine ⟨?_, ?_, hlt, hmem⟩
  · rw [NodeSizeof, hloop]
    exact congrArg some (unsignedInt_convert_cast hlt)
  · rw [NodeAlignment, hloop]
    rfl

theorem Fields.largestUnit_lt : ∀ {fields : Fields}, fields.ComputedUnion anon →
    fields.largestUnit anon < 2 ^ 31
  | .nil, _ => show 0 < 2 ^ 31 by norm_num
  | .field _ _ _, h => max_lt h.1.lt (Fields.largestUnit_lt h.2)
  | .bitfield _ _ _ _ _, h => max_lt h.1.lt (Fields.largestUnit_lt h.2)

/-- The alignment of the members of a union that has one is an alignment of the
target. -/
theorem Fields.allAlign_mem : ∀ (fields : Fields), fields.ComputedUnion anon →
    fields.allAlign anon ∈ 0 :: alignments
  | .nil, _ => List.mem_cons_self
  | .field _ _ rest, h | .bitfield _ _ _ _ rest, h =>
    max_mem_alignments (List.mem_cons_of_mem _ h.1.mem) (Fields.allAlign_mem rest h.2)

theorem union_align_mem {fields : Fields} (hcomp : fields.ComputedUnion anon)
    (hreg : (TypeNode.Udcl fields).Regular anon) :
    (TypeNode.Udcl fields).align anon ∈ alignments := by
  have hmem := fields.allAlign_mem anon hcomp
  rw [hreg.2] at hmem
  rcases List.mem_cons.mp hmem with hzero | hmem
  · have hpos : 1 ≤ (TypeNode.Udcl fields).align anon := le_max_left 1 _
    omega
  · exact hmem

/-- What is computed for a type is what `Right` asks of it, if nothing is stored. -/
theorem NodeSizeof_allow : ∀ {t : TypeNode} {n : ℤ}, NodeSizeof t false = some n →
    NodeSizeof t true = some n
  | .Adcl _ none, _, h => by
    rw [NodeSizeof, if_neg Bool.false_ne_true] at h
    cases h
  | .Attributed _ _ type, _, h => by
    rw [NodeSizeof] at h ⊢
    exact NodeSizeof_allow (t := type) h
  | .Prim _ _, _, h | .Ptr, _, h | .Edcl, _, h | .Adcl _ (some _), _, h | .Sdcl _, _, h
  | .Udcl _, _, h => by
    rw [NodeSizeof] at h ⊢
    exact h

theorem TypeNode.Computed.sizeof {t : TypeNode} {allow : Bool} (h : t.Computed anon allow) :
    NodeSizeof t true = some (t.size anon : ℤ) := by
  cases allow with
  | true => exact h.size
  | false => exact NodeSizeof_allow h.size

/-- A basic type is computed right when it is not complex. -/
theorem prim_computed {b : BasicType} (allow : Bool) :
    (TypeNode.Prim b false).Computed anon allow := by
  have hlt := (bits_of_alignment b.size_mem).2.2
  refine ⟨?_, ?_, show b.size < 2 ^ 31 by omega, b.size_mem⟩
  · rw [NodeSizeof]
    rfl
  · rw [NodeAlignment]
    rfl

theorem prim_right_iff {b : BasicType} {complex : Bool} :
    (TypeNode.Prim b complex).Right anon ↔ (TypeNode.Prim b complex).Regular anon := by
  cases complex with
  | false =>
    have hcomp := prim_computed anon (b := b) true
    exact ⟨fun _ => rfl, fun _ => ⟨hcomp.size, hcomp.align⟩⟩
  | true =>
    constructor
    · rintro ⟨hsize, -⟩
      rw [NodeSizeof] at hsize
      have hsize : (b.size : ℤ) = ((2 * b.size : ℕ) : ℤ) := Option.some.inj hsize
      have hpos := (bits_of_alignment b.size_mem).1
      omega
    · exact nofun

/-- The computation does not look at the attributes. -/
theorem attributed_right_iff {size align : ℕ} {type : TypeNode} {allow : Bool}
    (hcomp : type.Computed anon allow) :
    (TypeNode.Attributed size align type).Right anon ↔
      (TypeNode.Attributed size align type).Regular anon := by
  show NodeSizeof (.Attributed size align type) true = some (size : ℤ) ∧
    NodeAlignment (.Attributed size align type) = some (align : ℤ) ↔
      size = type.size anon ∧ align = type.align anon
  rw [NodeSizeof, NodeAlignment, hcomp.sizeof, hcomp.align, Option.some_inj, Option.some_inj,
    Nat.cast_inj, Nat.cast_inj, eq_comm, @eq_comm ℕ align]

mutual

/-- **A regular type is computed as the rules say**, and what is stored of it and
of all that it is made of is right. -/
theorem TypeNode.computed : ∀ (t : TypeNode) {allow : Bool}, t.Admitted anon allow →
    t.Everywhere (TypeNode.Regular anon) →
    t.Computed anon allow ∧ t.Everywhere (TypeNode.Right anon)
  | .Prim b complex, allow, _, hreg => by
    obtain rfl : complex = false := hreg
    exact ⟨prim_computed anon allow, (prim_right_iff anon).mpr rfl⟩
  | .Ptr, allow, _, _ => by
    have hcomp (allow : Bool) : TypeNode.Ptr.Computed anon allow := by
      refine ⟨?_, ?_, show POINTER_SIZE < 2 ^ 31 by decide, show POINTER_SIZE ∈ alignments by decide⟩
      · rw [NodeSizeof]
        rfl
      · rw [NodeAlignment]
        rfl
    exact ⟨hcomp allow, (hcomp true).size, (hcomp true).align⟩
  | .Edcl, allow, _, _ => by
    have hcomp (allow : Bool) : TypeNode.Edcl.Computed anon allow := by
      refine ⟨?_, ?_, show INT_SIZE < 2 ^ 31 by decide, show INT_SIZE ∈ alignments by decide⟩
      · rw [NodeSizeof]
        rfl
      · rw [NodeAlignment]
        rfl
    exact ⟨hcomp allow, (hcomp true).size, (hcomp true).align⟩
  | .Adcl type none, _, ⟨rfl, hc⟩, ⟨_, hwhole⟩ => by
    obtain ⟨hcomp, hright⟩ := TypeNode.computed type hc hwhole
    have hstored : (TypeNode.Adcl type none).Computed anon true := by
      refine ⟨?_, ?_, show 0 < 2 ^ 31 by norm_num, hcomp.mem⟩
      · rw [NodeSizeof]
        rfl
      · rw [NodeAlignment, hcomp.align]
        rfl
    exact ⟨hstored, ⟨hstored.size, hstored.align⟩, hright⟩
  | .Adcl type (some dim), allow, hc, ⟨hreg, hwhole⟩ => by
    have hadm : type.Admitted anon false := hc
    obtain ⟨hcomp, hright⟩ := TypeNode.computed type hadm hwhole
    have hstored := (array_right_iff anon hcomp).mpr hreg
    exact ⟨array_computed anon hcomp hstored hreg.2 allow, hstored, hright⟩
  | .Sdcl fields, allow, hc, ⟨hreg, hwhole⟩ => by
    obtain ⟨hcomp, hright⟩ := Fields.computed fields hc hwhole
    have hstored := (struct_right_iff anon hc hcomp).mpr hreg
    have hlt := hreg.1
    have hmem := struct_align_mem anon hcomp hreg
    exact ⟨struct_computed anon hstored (by omega) hmem allow, hstored, hright⟩
  | .Udcl fields, allow, hc, ⟨hreg, hwhole⟩ => by
    obtain ⟨hcomp, hright⟩ := Fields.computedUnion fields hc hwhole
    have hstored := (union_right_iff anon hcomp).mpr hreg
    have hlt := Fields.largestUnit_lt anon hcomp
    rw [hreg.1] at hlt
    exact ⟨union_computed anon hstored hlt (union_align_mem anon hcomp hreg) allow, hstored, hright⟩
  | .Attributed size align type, allow, hc, ⟨hreg, hwhole⟩ => by
    obtain ⟨hcomp, hright⟩ := TypeNode.computed type hc.2 hwhole
    have hstored := (attributed_right_iff anon hcomp).mpr hreg
    obtain ⟨rfl, rfl⟩ := hreg
    refine ⟨⟨?_, hstored.2, hcomp.lt, hcomp.mem⟩, hstored, hright⟩
    rw [NodeSizeof, hcomp.size]
    rfl

theorem Fields.computed : ∀ (fields : Fields) {cnt : ℕ}, fields.Admitted anon true cnt →
    fields.Everywhere (TypeNode.Regular anon) →
    fields.Computed anon cnt ∧ fields.Everywhere (TypeNode.Right anon)
  | .nil, _, _, _ => ⟨trivial, trivial⟩
  | .field type _ rest, cnt, ⟨hadm, hcs⟩, ⟨hone, hwhole⟩ => by
    obtain ⟨hcomp, hright⟩ := TypeNode.computed type hadm hone
    obtain ⟨hcomps, hrights⟩ := Fields.computed rest hcs hwhole
    exact ⟨⟨hcomp, hcomps⟩, hright, hrights⟩
  | .bitfield type _ _ _ rest, _, ⟨⟨hadm, _⟩, hcs⟩, ⟨hone, hwhole⟩ => by
    obtain ⟨hcomp, hright⟩ := TypeNode.computed type hadm hone
    obtain ⟨hcomps, hrights⟩ := Fields.computed rest hcs hwhole
    exact ⟨⟨hcomp, hcomps⟩, hright, hrights⟩

theorem Fields.computedUnion : ∀ (fields : Fields) {cnt : ℕ}, fields.Admitted anon false cnt →
    fields.Everywhere (TypeNode.Regular anon) →
    fields.ComputedUnion anon ∧ fields.Everywhere (TypeNode.Right anon)
  | .nil, _, _, _ => ⟨trivial, trivial⟩
  | .field type _ rest, _, ⟨hadm, hcs⟩, ⟨hone, hwhole⟩ => by
    obtain ⟨hcomp, hright⟩ := TypeNode.computed type hadm hone
    obtain ⟨hcomps, hrights⟩ := Fields.computedUnion rest hcs hwhole
    exact ⟨⟨hcomp, hcomps⟩, hright, hrights⟩
  | .bitfield type _ _ _ rest, _, ⟨⟨hadm, _⟩, hcs⟩, ⟨hone, hwhole⟩ => by
    obtain ⟨hcomp, hright⟩ := TypeNode.computed type hadm hone
    obtain ⟨hcomps, hrights⟩ := Fields.computedUnion rest hcs hwhole
    exact ⟨⟨hcomp, hcomps⟩, hright, hrights⟩

end

mutual

/-- **A type that is right with all that it is made of is regular.** -/
theorem TypeNode.regular : ∀ (t : TypeNode) {allow : Bool}, t.Admitted anon allow →
    t.Everywhere (TypeNode.Right anon) → t.Everywhere (TypeNode.Regular anon)
  | .Prim _ _, _, _, hright => (prim_right_iff anon).mp hright
  | .Ptr, _, _, _ => trivial
  | .Edcl, _, _, _ => trivial
  | .Adcl type none, _, ⟨_, hc⟩, ⟨_, hwhole⟩ => ⟨trivial, TypeNode.regular type hc hwhole⟩
  | .Adcl type (some dim), _, hc, ⟨hright, hwhole⟩ => by
    have hadm : type.Admitted anon false := hc
    have hreg := TypeNode.regular type hadm hwhole
    have hcomp := (TypeNode.computed anon type hadm hreg).1
    exact ⟨(array_right_iff anon hcomp).mp hright, hreg⟩
  | .Sdcl fields, _, hc, ⟨hright, hwhole⟩ => by
    have hreg := Fields.regular fields hc hwhole
    have hcomp := (Fields.computed anon fields hc hreg).1
    exact ⟨(struct_right_iff anon hc hcomp).mp hright, hreg⟩
  | .Udcl fields, _, hc, ⟨hright, hwhole⟩ => by
    have hreg := Fields.regular fields hc hwhole
    have hcomp := (Fields.computedUnion anon fields hc hreg).1
    exact ⟨(union_right_iff anon hcomp).mp hright, hreg⟩
  | .Attributed _ _ type, _, hc, ⟨hright, hwhole⟩ => by
    have hreg := TypeNode.regular type hc.2 hwhole
    have hcomp := (TypeNode.computed anon type hc.2 hreg).1
    exact ⟨(attributed_right_iff anon hcomp).mp hright, hreg⟩

theorem Fields.regular : ∀ (fields : Fields) {struct : Bool} {cnt : ℕ},
    fields.Admitted anon struct cnt → fields.Everywhere (TypeNode.Right anon) →
    fields.Everywhere (TypeNode.Regular anon)
  | .nil, _, _, _, _ => trivial
  | .field type _ rest, _, _, ⟨hadm, hcs⟩, ⟨hone, hwhole⟩ =>
    ⟨TypeNode.regular type hadm hone, Fields.regular rest hcs hwhole⟩
  | .bitfield type _ _ _ rest, _, _, ⟨⟨hadm, _⟩, hcs⟩, ⟨hone, hwhole⟩ =>
    ⟨TypeNode.regular type hadm hone, Fields.regular rest hcs hwhole⟩

end

end Cilk.Layout
