import Cilk.Arithmetic

/-!
# Sizes and alignments

`StructCheckFields` and `UnionCheckFields` of `sem-check.c`, with `SemCheckAdcl`
and with `NodeSizeof` and `NodeAlignment` of `type.c`, on the types of the
fields of structures and unions.

The layout of a structure is accumulated in an `int`, in bits. `NodeSizeof` is
an `unsigned int`, so what is computed from it wraps around and is converted
back. `config.h` takes the sizes of the host, and its alignments are its sizes;
the widths are those of an LP64 machine. There is no result where an error is
reported, a signed sum or product does not fit, or a remainder by zero is
taken.

Attributes are parsed, kept and written out again, and no function here looks at
them. What the target makes of them stands in the types: the size and the
alignment of a type with attributes, and the place of a field with attributes.

Beside what the source stores, the places of the fields are kept: from which
bit to which bit each of them extends.
-/

namespace Cilk.Layout

/-! ## Types -/

inductive BasicType
  | Char | Schar | Uchar | Sshort | Ushort | Sint | Uint | Slong | Ulong | Slonglong | Ulonglong
  | Float | Double | Longdouble
  deriving DecidableEq

/-- `CHAR_SIZE` and its like. -/
def BasicType.size : BasicType → ℕ
  | Char | Schar | Uchar => 1
  | Sshort | Ushort => 2
  | Sint | Uint | Float => 4
  | Slong | Ulong | Slonglong | Ulonglong | Double => 8
  | Longdouble => 16

def INT_SIZE : ℕ := 4
def POINTER_SIZE : ℕ := 8
def BYTE_LENGTH : ℕ := 8
def WORD_LENGTH : ℕ := INT_SIZE * BYTE_LENGTH

/-- What the target makes of the attributes of a field: the bit at which the field
starts, from the bit behind the one before it, and the alignment it asks for. A
field of a packed structure is one with attributes. -/
structure Placement where
  start : ℕ → ℕ
  align : ℕ
  le_start : ∀ pos, pos ≤ start pos

mutual

/-- A type of a field. The dimension of an array is its value as an
`unsigned long`. A type with attributes, of its own or of a typedef, comes with
the size and the alignment that the target gives it; so does an enumeration with
constants that are no `int`s. -/
inductive TypeNode
  | Prim (basic : BasicType) (complex : Bool)
  | Ptr
  | Edcl
  | Adcl (type : TypeNode) (dim : Option ℕ)
  | Sdcl (fields : Fields)
  | Udcl (fields : Fields)
  | Attributed (size align : ℕ) (type : TypeNode)

/-- The fields of a structure or a union. The size of a field of bits is its
value as an `int`. -/
inductive Fields
  | nil
  | field (type : TypeNode) (attributes : Option Placement) (rest : Fields)
  | bitfield (type : TypeNode) (attributes : Option Placement) (named : Bool) (bitsize : ℤ)
      (rest : Fields)

end

/-- The types that a field of bits may have. The basic type is all that is looked
at. -/
def TypeNode.isBitfieldType : TypeNode → Bool
  | Edcl => true
  | Prim b _ => b ∈ [.Schar, .Uchar, .Sshort, .Ushort, .Sint, .Uint]
  | Attributed _ _ type => type.isBitfieldType
  | _ => false

def Fields.isNil : Fields → Bool
  | nil => true
  | _ => false

/-! ## The types of the computation -/

def int : IntType := ⟨31, true⟩
def unsignedInt : IntType := ⟨31, false⟩
def unsignedLong : IntType := ⟨63, false⟩

/-- An `unsigned int` that is assigned to an `int`. -/
def toInt (x : ℤ) : ℤ := int.convert (unsignedInt.convert x)

/-- `if (x % align != 0) x = x + align - (x % align);` -/
def realign (x align : ℤ) : Option ℤ := do
  let r ← int.mod x align
  if r ≠ 0 then
    let sum ← int.add x align
    int.sub sum r
  else some x

/-- The realignment of a field of no bits. `WORD_LENGTH` is an `unsigned long`. -/
def wordAligned (currentbit : ℤ) : ℤ :=
  let r := unsignedLong.convert currentbit % WORD_LENGTH
  if r ≠ 0 then int.convert (unsignedLong.convert (currentbit + WORD_LENGTH - r)) else currentbit

/-- Where a field of bits begins, if it is not to cross a word. -/
def wordStart (currentbit bitsize : ℤ) : Option ℤ := do
  let sum ← int.add currentbit bitsize
  let last ← int.sub sum 1
  if unsignedLong.convert last / WORD_LENGTH ≠ unsignedLong.convert currentbit / WORD_LENGTH then
    some (int.convert (unsignedLong.convert
      (WORD_LENGTH * (unsignedLong.convert currentbit / WORD_LENGTH + 1))))
  else some currentbit

/-! ## Fields -/

/-- What the loop over the fields of a structure leaves, with the places of the
fields. -/
structure Progress where
  currentbit : ℤ
  max_bitalign : ℤ
  places : List (ℤ × ℤ)

/-- The loop after a field at `start`. -/
def Progress.place (start stop : ℤ) (p : Progress) : Progress :=
  { p with places := (start, stop) :: p.places }

/-- What is stored of a structure, with the places of the fields. -/
structure Stored where
  size : ℤ
  align : ℤ
  places : List (ℤ × ℤ)

/-- The end of `StructCheckFields`. -/
def Progress.finish (p : Progress) : Option Stored := do
  let bits ← realign p.currentbit p.max_bitalign
  some ⟨bits.tdiv BYTE_LENGTH, p.max_bitalign.tdiv BYTE_LENGTH, p.places⟩

/-- The size of an array, with elements of `size`. -/
def arraySize (dim : ℕ) (size : ℤ) : Option ℤ :=
  let val := int.convert dim
  if val < 0 then none else some (toInt (val * size))

mutual

/-- `NodeSizeof`. `_Complex` is a qualifier, and is not looked at. -/
def NodeSizeof : TypeNode → Bool → Option ℤ
  | .Prim b _, _ => some b.size
  | .Ptr, _ => some POINTER_SIZE
  | .Edcl, _ => some INT_SIZE
  | .Adcl _ none, allow_unsized_array => if allow_unsized_array then some 0 else none
  | .Adcl type (some dim), _ =>
    (NodeSizeof type false).bind fun size => (arraySize dim size).map unsignedInt.convert
  | .Sdcl fields, _ =>
    (structLoop fields 0 0 8).bind fun p => p.finish.map fun s => unsignedInt.convert s.size
  | .Udcl fields, _ => (unionLoop fields 0 0).map fun s => unsignedInt.convert s.1
  | .Attributed _ _ type, allow_unsized_array => NodeSizeof type allow_unsized_array

/-- `NodeAlignment`. -/
def NodeAlignment : TypeNode → Option ℤ
  | .Prim b _ => some b.size
  | .Ptr => some POINTER_SIZE
  | .Edcl => some INT_SIZE
  | .Adcl type _ | .Attributed _ _ type => NodeAlignment type
  | .Sdcl fields => (structLoop fields 0 0 8).bind fun p => p.finish.map Stored.align
  | .Udcl fields => (unionLoop fields 0 0).map Prod.snd

/-- The loop of `StructCheckFields`, where `cnt` fields have been counted. -/
def structLoop : Fields → ℕ → ℤ → ℤ → Option Progress
  | .nil, _, currentbit, max_bitalign => some ⟨currentbit, max_bitalign, []⟩
  | .bitfield type _ named bitsize rest, cnt, currentbit, max_bitalign =>
    if ¬ type.isBitfieldType then none
    else if bitsize < 0 then none
    else if bitsize = 0 then
      if named then none
      else
        let start := wordAligned currentbit
        (structLoop rest (cnt + 1) start (max max_bitalign BYTE_LENGTH)).map (.place start start)
    else
      (wordStart currentbit bitsize).bind fun start =>
        (int.add start bitsize).bind fun stop =>
          (structLoop rest (cnt + 1) stop (max max_bitalign BYTE_LENGTH)).map (.place start stop)
  | .field type _ rest, cnt, currentbit, max_bitalign =>
    (NodeSizeof type (rest.isNil && cnt + 1 > 1)).bind fun size =>
      (NodeAlignment type).bind fun align =>
        (int.mul align BYTE_LENGTH).bind fun bitalign =>
          (realign currentbit bitalign).bind fun start =>
            (int.add start (toInt (BYTE_LENGTH * size))).bind fun stop =>
              (structLoop rest (cnt + 1) stop (max max_bitalign bitalign)).map (.place start stop)

/-- The loop of `UnionCheckFields`. -/
def unionLoop : Fields → ℤ → ℤ → Option (ℤ × ℤ)
  | .nil, max_size, max_align => some (max_size, max_align)
  | .field type _ rest, max_size, max_align | .bitfield type _ _ _ rest, max_size, max_align =>
    (NodeSizeof type false).bind fun size =>
      (NodeAlignment type).bind fun align =>
        unionLoop rest (max max_size (int.convert size)) (max max_align align)

end

def StructCheckFields (fields : Fields) : Option Stored :=
  (structLoop fields 0 0 8).bind Progress.finish

/-- `UnionCheckFields`: the size and the alignment that are stored. -/
def UnionCheckFields (fields : Fields) : Option (ℤ × ℤ) := unionLoop fields 0 0

/-- `SemCheckAdcl`: the size that is stored. -/
def SemCheckAdcl (type : TypeNode) (dim : ℕ) : Option ℤ :=
  (NodeSizeof type false).bind (arraySize dim)

end Cilk.Layout
