import Cilk.ConstFold.Model
import Mathlib.Data.BitVec

/-!
# Comparing types

`TypeEqualQualified` of `type.c`, with the unwinding of the names of types.

A comparison answers, and on the way it completes arrays: where one of two
arrays that are compared has no dimension, the two get to share the cell of the
other. So a node of an array has an address, `dimp` is a field of a store, and
the comparison is a function of the store. There is no result where the run
ends in a `FAIL`.

The walk over the two types is written for any treatment of two arrays, and any
state that this treatment changes.
-/

namespace Cilk.TypeEquality

open ConstFold (Floats)

variable {F : Floats} {σ : Type*}

/-! ## Qualifiers -/

/-- `TypeQual`: the bits. The attributes of a type take no part. -/
abbrev TypeQual := BitVec 32

def T_RESTRICT : TypeQual := 0x100000
def T_COMPLEX : TypeQual := 0x200000
def T_CONST : TypeQual := 0x400000
def T_VOLATILE : TypeQual := 0x800000
def T_INLINE : TypeQual := 0x1000000
def T_SUE_ELABORATED : TypeQual := 0x2000000
def T_PROCEDURE : TypeQual := 0x4000000
def T_INLET : TypeQual := 0x8000000
def T_EXTENSION : TypeQual := 0x10000000

def T_TYPE_QUALS : TypeQual :=
  T_RESTRICT ||| T_COMPLEX ||| T_CONST ||| T_VOLATILE ||| T_INLINE ||| T_SUE_ELABORATED |||
    T_PROCEDURE ||| T_INLET

def TQ_COMPATIBLE : TypeQual :=
  T_CONST ||| T_VOLATILE ||| T_INLINE ||| T_SUE_ELABORATED ||| T_RESTRICT ||| T_EXTENSION

def tq_type_quals (tq : TypeQual) : TypeQual := tq &&& T_TYPE_QUALS

def tq_remove_sue_elaborated (tq : TypeQual) : TypeQual := tq &&& ~~~T_SUE_ELABORATED

def tq_remove_compatible (tq : TypeQual) : TypeQual := tq &&& ~~~TQ_COMPATIBLE

/-! ## Types -/

/-- The address of a node. -/
abbrev Addr := ℕ

inductive BasicType
  | Uchar | Schar | Char | Ushort | Sshort | Uint | Sint | Int_ParseOnly | Ulong | Slong
  | Ulonglong | Slonglong | Float | Double | Longdouble | Void | Ellipsis
  deriving DecidableEq

/-- Which of the nodes `Sdcl`, `Udcl` and `Edcl`. -/
inductive SueKind
  | Sdcl | Udcl | Edcl
  deriving DecidableEq

/-- `SUEtype`: what the comparison reads of it. -/
structure SUEtype where
  name : Option String

mutual

/-- A node of a type. The name of a type is known by its declaration. -/
inductive Node
  | Prim (tq : TypeQual) (basic : BasicType)
  | Tdef (decl : Addr) (tq : TypeQual) (type : Node)
  | Ptr (tq : TypeQual) (type : Node)
  | Adcl (addr : Addr) (tq : TypeQual) (type : Node)
  | Sue (kind : SueKind) (addr : Addr) (tq : TypeQual) (type : SUEtype)
  | Fdcl (tq : TypeQual) (args : Args) (returns : Node)

/-- The list of a function's parameters, each a `Decl` or a type. -/
inductive Args
  | null
  | decl (type : Node) (rest : Args)
  | type (type : Node) (rest : Args)

end

/-- `NodeTq`. -/
def NodeTq : Node → TypeQual
  | .Prim tq _ | .Tdef _ tq _ | .Ptr tq _ | .Adcl _ tq _ | .Sue _ _ tq _ | .Fdcl tq _ _ => tq

/-- `NodeTypeQuals`. -/
def NodeTypeQuals (node : Node) : TypeQual := tq_type_quals (NodeTq node)

/-- The loop of `UnwindTdefs`. -/
def unwindFrom : Node → TypeQual → Node × TypeQual
  | .Tdef _ _ type, tq => unwindFrom type (tq ||| NodeTypeQuals type)
  | node, tq => (node, tq)

def UnwindTdefs (node : Node) : Node × TypeQual := unwindFrom node (NodeTypeQuals node)

/-- The qualifiers that are compared. -/
def comparedQuals (strict_toplevel : Bool) (node : Node) : TypeQual :=
  let tq := tq_remove_sue_elaborated (UnwindTdefs node).2
  if strict_toplevel then tq else tq_remove_compatible tq

/-- `SUE_SameTagp`. -/
def SUE_SameTagp (sue1 sue2 : SUEtype) : Bool :=
  match sue1.name, sue2.name with
  | some name1, some name2 => name1 == name2
  | _, _ => false

/-- `ListLength`. -/
def Args.length : Args → ℕ
  | null => 0
  | decl _ rest | type _ rest => rest.length + 1

/-! ## Comparisons -/

/-- An answer, and the state that is left. -/
abbrev Comparison (σ : Type*) := σ → Option (Bool × σ)

/-- `return b;` -/
def answer (b : Bool) : Comparison σ := fun s => some (b, s)

/-- `if (!c) return FALSE;`, and then `d`. -/
def both (c d : Comparison σ) : Comparison σ := fun s =>
  match c s with
  | none => none
  | some (false, s') => some (false, s')
  | some (true, s') => d s'

theorem sizeOf_unwindFrom_le : ∀ (node : Node) (tq : TypeQual),
    sizeOf (unwindFrom node tq).1 ≤ sizeOf node
  | .Tdef _ _ type, tq => (sizeOf_unwindFrom_le type _).trans (by simp)
  | .Prim _ _, _ => le_refl _
  | .Ptr _ _, _ => le_refl _
  | .Adcl _ _ _, _ => le_refl _
  | .Sue _ _ _ _, _ => le_refl _
  | .Fdcl _ _ _, _ => le_refl _

theorem sizeOf_unwindTdefs_le (node : Node) : sizeOf (UnwindTdefs node).1 ≤ sizeOf node :=
  sizeOf_unwindFrom_le node _

mutual

/-- `TypeEqualQualified`, where `dims` is what is done to two arrays after
their elements. -/
def compareTypes (dims : Addr → Addr → Comparison σ) (node1 node2 : Node)
    (strict_toplevel strict_recursive : Bool) : Comparison σ :=
  if comparedQuals strict_toplevel node1 ≠ comparedQuals strict_toplevel node2 then answer false
  else
    match _h : (UnwindTdefs node1).1, (UnwindTdefs node2).1 with
    | .Prim _ basic1, .Prim _ basic2 => answer (basic1 = basic2)
    | .Ptr _ type1, .Ptr _ type2 =>
      compareTypes dims type1 type2 strict_recursive strict_recursive
    | .Adcl addr1 _ type1, .Adcl addr2 _ type2 =>
      both (compareTypes dims type1 type2 strict_recursive strict_recursive) (dims addr1 addr2)
    | .Sue kind1 addr1 _ sue1, .Sue kind2 addr2 _ sue2 =>
      answer (kind1 = kind2 && (addr1 == addr2 || SUE_SameTagp sue1 sue2))
    | .Fdcl _ args1 returns1, .Fdcl _ args2 returns2 =>
      both (compareTypes dims returns1 returns2 strict_recursive strict_recursive)
        (if args1.length = 0 ∨ args2.length = 0 then answer true
         else if args1.length ≠ args2.length then answer false
         else compareArgs dims args1 args2 strict_recursive)
    | _, _ => answer false
termination_by sizeOf node1
decreasing_by
  all_goals
    have := sizeOf_unwindTdefs_le node1
    simp_all
    omega

/-- The loop over the parameters of two functions. -/
def compareArgs (dims : Addr → Addr → Comparison σ) (args1 args2 : Args)
    (strict_recursive : Bool) : Comparison σ :=
  match args1, args2 with
  | .null, _ | _, .null => answer true
  | .decl type1 rest1, .decl type2 rest2 | .decl type1 rest1, .type type2 rest2
  | .type type1 rest1, .decl type2 rest2 | .type type1 rest1, .type type2 rest2 =>
    both (compareTypes dims type1 type2 strict_recursive strict_recursive)
      (compareArgs dims rest1 rest2 strict_recursive)
termination_by sizeOf args1

end

/-! ## Dimensions -/

/-- The store: which cell the `dimp` of an array points to, and the `dim` of a
cell. -/
structure Store (F : Floats) where
  dimp : Addr → Addr
  dim : Addr → Option (ConstFold.Node F)

/-- `IntegralConstEqual`. -/
def IntegralConstEqual (node1 node2 : ConstFold.Node F) : Option Bool :=
  match node1.constantIntegralValue.value, node2.constantIntegralValue.value with
  | some value1, some value2 => some (value1 = value2)
  | _, _ => none

/-- Whether two dimensions that are both there agree. -/
def dimsAgree (dim1 dim2 : ConstFold.Node F) : Option Bool :=
  if dim1.isConstant && dim2.isConstant then IntegralConstEqual dim1 dim2 else some true

/-- What `TypeEqualQualified` does to two arrays: the dimensions that are there
are compared, and a missing one is shared. -/
def compareDims (addr1 addr2 : Addr) : Comparison (Store F) := fun s =>
  match s.dim (s.dimp addr1), s.dim (s.dimp addr2) with
  | some dim1, some dim2 => (dimsAgree dim1 dim2).map fun equal => (equal, s)
  | some _, none => some (true, { s with dimp := Function.update s.dimp addr2 (s.dimp addr1) })
  | none, _ => some (true, { s with dimp := Function.update s.dimp addr1 (s.dimp addr2) })

def TypeEqualQualified (node1 node2 : Node) (strict_toplevel strict_recursive : Bool) :
    Comparison (Store F) :=
  compareTypes compareDims node1 node2 strict_toplevel strict_recursive

end Cilk.TypeEquality
