import Cilk.Declarators.Model
import Mathlib.Data.BitVec

/-!
# Declarations with several declarators

`SetDeclType`, `FinishDecl`, `FinishType` and `AppendDecl` of `complex-types.c`,
with what `ANSI-C.y` does to the declarators of `declaring.list`.

The specifiers are parsed into a type, whose lowest node first holds all the
qualifiers. `FinishType` and `FinishDecl` move those of functions to the type
of the function and those of declarations to the `Decl` node, and a later
declarator gets a copy of what is left there.

A declarator is kept as the chain of its pointers, arrays and functions, and
`SetBaseType` puts it on top of a type that is filled in. There is no result
where a pointer is followed that the node does not have. Errors are only
reported, and what `FunctionConflict` does to the parameters of an earlier
declaration of the same name is left out.
-/

namespace Cilk.DeclarationLists

open Declarators (BasicType SueKind Expr)

/-! ## Qualifiers -/

/-- The node of an attribute. -/
structure Attribute where
  node : ℕ
  text : String
  deriving DecidableEq

/-- `TypeQual`: the bits of the word by the masks that are used on them. -/
@[ext] structure TypeQual where
  /-- `T_STORAGE_CLASSES` -/
  storage_class : BitVec 3
  /-- `T_DECL_LOCATIONS` -/
  decl_location : BitVec 3
  redundant_external_decl : Bool
  /-- `T_SHARED` to `T_C_CODE` -/
  decl_quals : BitVec 11
  /-- `T_RESTRICT`, `T_COMPLEX`, `T_CONST`, `T_VOLATILE` and `T_EXTENSION` -/
  type_quals : BitVec 5
  inline : Bool
  sue_elaborated : Bool
  procedure : Bool
  inlet : Bool
  attributes : List Attribute
  deriving DecidableEq

def EMPTY_TQ : TypeQual := ⟨0, 0, false, 0, 0, false, false, false, false, []⟩

def T_EXTERN : BitVec 3 := 2
def T_REGISTER : BitVec 3 := 3
def T_TYPEDEF : BitVec 3 := 5

def T_TOP_DECL : BitVec 3 := 1
def T_BLOCK_DECL : BitVec 3 := 2
def T_FORMAL_DECL : BitVec 3 := 3
def T_SU_DECL : BitVec 3 := 4

/-- `UnionLists`. -/
def UnionLists : List Attribute → List Attribute → List Attribute
  | [], b => b
  | x :: a, b => if x ∈ b then UnionLists a b else x :: UnionLists a b

def tq_union (a b : TypeQual) : TypeQual where
  storage_class := a.storage_class ||| b.storage_class
  decl_location := a.decl_location ||| b.decl_location
  redundant_external_decl := a.redundant_external_decl || b.redundant_external_decl
  decl_quals := a.decl_quals ||| b.decl_quals
  type_quals := a.type_quals ||| b.type_quals
  inline := a.inline || b.inline
  sue_elaborated := a.sue_elaborated || b.sue_elaborated
  procedure := a.procedure || b.procedure
  inlet := a.inlet || b.inlet
  attributes := UnionLists a.attributes b.attributes

def tq_attribute (attributes : List Attribute) : TypeQual := { EMPTY_TQ with attributes }

def tq_add_inline (tq : TypeQual) : TypeQual := { tq with inline := true }
def tq_remove_inline (tq : TypeQual) : TypeQual := { tq with inline := false }
def tq_add_procedure (tq : TypeQual) : TypeQual := { tq with procedure := true }
def tq_remove_procedure (tq : TypeQual) : TypeQual := { tq with procedure := false }
def tq_add_inlet (tq : TypeQual) : TypeQual := { tq with inlet := true }
def tq_remove_inlet (tq : TypeQual) : TypeQual := { tq with inlet := false }
def tq_remove_sue_elaborated (tq : TypeQual) : TypeQual := { tq with sue_elaborated := false }

def tq_add_redundant_external_decl (tq : TypeQual) : TypeQual :=
  { tq with redundant_external_decl := true }

def tq_remove_redundant_external_decl (tq : TypeQual) : TypeQual :=
  { tq with redundant_external_decl := false }

/-- `tq_decl_quals`, to which the attributes count. -/
def tq_decl_quals (tq : TypeQual) : TypeQual :=
  { tq with type_quals := 0, inline := false, sue_elaborated := false, procedure := false
            inlet := false }

def tq_remove_all_decl_quals (tq : TypeQual) : TypeQual :=
  { tq with storage_class := 0, decl_location := 0, redundant_external_decl := false
            decl_quals := 0, attributes := [] }

/-- `tq_set_decl_location_from`. -/
def tq_set_decl_location (tq : TypeQual) (location : BitVec 3) : TypeQual :=
  { tq with decl_location := location }

/-- `tq_set_storage_class_from` with `EMPTY_TQ`. The attributes are lost. -/
def tq_remove_all_storage_classes (tq : TypeQual) : TypeQual :=
  { tq with storage_class := 0, attributes := [] }

/-! ## Types -/

/-- A parameter of a function: a name without a type, or another one, by its
text. -/
inductive Arg
  | Id (name : String)
  | Decl (text : String)
  deriving DecidableEq

/-- A type. `Sue` is one of `Sdcl`, `Udcl` and `Edcl`, with the number of its
`SUEtype`. -/
inductive TypeNode
  | Prim (tq : TypeQual) (basic : BasicType)
  | Tdef (tq : TypeQual) (name : String) (type : TypeNode)
  | Sue (kind : SueKind) (tq : TypeQual) (type : ℕ)
  | Ptr (tq : TypeQual) (type : TypeNode)
  | Adcl (tq : TypeQual) (type : TypeNode) (dim : Expr)
  | Fdcl (tq : TypeQual) (args : List Arg) (returns : TypeNode)

/-- `NodeTq`. -/
def NodeTq : TypeNode → TypeQual
  | .Prim tq _ | .Tdef tq _ _ | .Sue _ tq _ | .Ptr tq _ | .Adcl tq _ _ | .Fdcl tq _ _ => tq

def NodeUpdateTq (f : TypeQual → TypeQual) : TypeNode → TypeNode
  | .Prim tq basic => .Prim (f tq) basic
  | .Tdef tq name type => .Tdef (f tq) name type
  | .Sue kind tq type => .Sue kind (f tq) type
  | .Ptr tq type => .Ptr (f tq) type
  | .Adcl tq type dim => .Adcl (f tq) type dim
  | .Fdcl tq args returns => .Fdcl (f tq) args returns

def GetDeepBaseType : TypeNode → TypeNode
  | .Ptr _ type | .Adcl _ type _ | .Fdcl _ _ type => GetDeepBaseType type
  | type => type

/-- `NodeUpdateTq` on the deep base type. -/
def updateDeepBase (f : TypeQual → TypeQual) : TypeNode → TypeNode
  | .Ptr tq type => .Ptr tq (updateDeepBase f type)
  | .Adcl tq type dim => .Adcl tq (updateDeepBase f type) dim
  | .Fdcl tq args returns => .Fdcl tq args (updateDeepBase f returns)
  | type => NodeUpdateTq f type

/-- `NodeCopy` of a deep base type, with `NodeOnly`. -/
def NodeCopy : TypeNode → TypeNode
  | .Sue kind tq type => .Sue kind (tq_remove_sue_elaborated tq) type
  | type => type

def IsFunctionType : TypeNode → Bool
  | .Fdcl .. => true
  | _ => false

/-- `NodeDataType`, of a type. -/
def NodeDataType : TypeNode → TypeNode
  | .Tdef _ _ type => NodeDataType type
  | type => type

def IsPtrToFunction (type : TypeNode) : Bool :=
  match NodeDataType type with
  | .Ptr _ type => IsFunctionType (NodeDataType type)
  | _ => false

/-- What a declarator adds to a type. -/
inductive Modifier
  | Ptr (tq : TypeQual)
  | Adcl (dim : Expr)
  | Fdcl (args : List Arg)
  deriving DecidableEq

def Modifier.apply (type : TypeNode) : Modifier → TypeNode
  | Ptr tq => .Ptr tq type
  | Adcl dim => .Adcl EMPTY_TQ type dim
  | Fdcl args => .Fdcl EMPTY_TQ args type

/-- `SetBaseType`. The first one of the chain is the one next to the name. -/
def SetBaseType : List Modifier → TypeNode → TypeNode
  | [], base => base
  | m :: chain, base => m.apply (SetBaseType chain base)

/-! ## Declarations -/

/-- A declaration with a type of `τ`. -/
structure Decl (τ : Type) where
  name : String
  type : τ
  tq : TypeQual
  asmdecl : Option String
  init : Option String

/-- What is the same during a declaration. -/
structure Context where
  ANSIOnly : Bool
  OmitLookups : Bool
  OldStyleFunctionDefinition : Bool

inductive ScopeState
  | Redecl | NoRedecl | SU | Formal
  deriving DecidableEq

/-- The names in the tables `Externals` and `Identifiers`, where those of the
current scope and those of the scopes around it are kept apart. -/
structure Tables where
  externals : List String
  current : List String
  outer : List (List String)

/-- `Level`. -/
def Tables.level (t : Tables) : ℕ := t.outer.length

/-- `InsertSymbol` into `Externals`, and whether the name was there. -/
def Tables.insertExternal (t : Tables) (name : String) : Bool × Tables :=
  if name ∈ t.externals then (true, t) else (false, { t with externals := name :: t.externals })

/-- `InsertSymbol` into `Identifiers`, and whether the name was in the current
scope. -/
def Tables.insertIdentifier (t : Tables) (name : String) : Bool × Tables :=
  if name ∈ t.current then (true, t) else (false, { t with current := name :: t.current })

/-- `LookupSymbol` in `Identifiers`. -/
def Tables.lookup (t : Tables) (name : String) : Bool :=
  name ∈ t.current || t.outer.any (name ∈ ·)

variable (c : Context) (redeclare : ScopeState)

/-- A qualifier is moved to the function, or to the one that is pointed to. The
node of a `Tdef` has no type to point to. -/
def qualifyFunction (f : TypeQual → TypeQual) (type : TypeNode) : Option TypeNode :=
  if IsFunctionType type then some (NodeUpdateTq f type)
  else if ¬ IsPtrToFunction type then some type
  else match type with
    | .Ptr tq type => some (.Ptr tq (NodeUpdateTq f type))
    | _ => none

/-- A qualifier of the base type is moved to the function. -/
def moveToFunction (has : Bool) (add remove : TypeQual → TypeQual) (type : TypeNode) :
    Option TypeNode :=
  if has then (qualifyFunction add type).map (updateDeepBase remove) else some type

/-- `inline` is moved to a function, and dropped elsewhere. -/
def moveInline (has : Bool) (type : TypeNode) : TypeNode :=
  if has then
    updateDeepBase tq_remove_inline
      (if ¬ c.ANSIOnly ∧ IsFunctionType type then NodeUpdateTq tq_add_inline type else type)
  else type

def FinishType (type : TypeNode) : Option TypeNode :=
  let basetq := NodeTq (GetDeepBaseType type)
  (moveToFunction basetq.procedure tq_add_procedure tq_remove_procedure
      (moveInline c basetq.inline type)).bind
    (moveToFunction basetq.inlet tq_add_inlet tq_remove_inlet)

def FinishDecl (decl : Decl TypeNode) : Option (Decl TypeNode) :=
  (FinishType c decl.type).map fun type =>
    let tq := NodeTq (GetDeepBaseType type)
    { decl with
      type := updateDeepBase tq_remove_all_decl_quals type
      tq := tq_union decl.tq (tq_decl_quals tq) }

/-- The scope that counts: a declaration in the middle of an old-style function
definition is one of a parameter. -/
def scopeState : ScopeState :=
  if c.OldStyleFunctionDefinition && redeclare != .SU then .Formal else redeclare

/-- The parameters are those of an old-style function definition. -/
def startsWithId : TypeNode → Bool
  | .Fdcl _ (.Id _ :: _) _ => true
  | _ => false

/-- The insertion into the table of external declarations: whether there has been
one of this name. There is no result where the function returns here. -/
def insertExternals (t : Tables) (sc : BitVec 3) (type : TypeNode) (name : String) :
    Option (Bool × Tables) :=
  if sc = T_TYPEDEF then some (false, t)
  else if IsFunctionType type ∧ scopeState c redeclare ≠ .Formal then
    if startsWithId type then none
    else if c.OmitLookups then some (false, t)
    else some (if t.level = 0 then t.insertExternal name else t.insertIdentifier name)
  else if sc = T_EXTERN ∨ t.level = 0 ∧ scopeState c redeclare = .Redecl then
    if c.OmitLookups then some (false, t) else some (t.insertExternal name)
  else some (false, t)

/-- An array that is a parameter is a pointer. -/
def demote : TypeNode → TypeNode
  | .Adcl tq type _ => .Ptr tq type
  | type => type

/-- The storage class of a parameter is illegal. -/
def illegalStorageClass (sc : BitVec 3) : Prop := sc ≠ 0 ∧ sc ≠ T_REGISTER

instance (sc : BitVec 3) : Decidable (illegalStorageClass sc) :=
  inferInstanceAs (Decidable (_ ∧ _))

/-- The tables after a declaration of `name` in the current scope. -/
def insertDeclared (t : Tables) (name : String) : Tables :=
  match scopeState c redeclare with
  | .Redecl | .NoRedecl => if c.OmitLookups then t else (t.insertIdentifier name).2
  | .SU | .Formal => t

/-- The end of `SetDeclType`. -/
def locate (t : Tables) (sc : BitVec 3) (decl : Decl TypeNode) : Decl TypeNode :=
  match scopeState c redeclare with
  | .Redecl | .NoRedecl =>
    let location := if t.level = 0 then T_TOP_DECL else T_BLOCK_DECL
    { decl with tq := tq_set_decl_location decl.tq location }
  | .SU => { decl with tq := tq_set_decl_location decl.tq T_SU_DECL }
  | .Formal =>
    let tq := tq_set_decl_location decl.tq T_FORMAL_DECL
    if illegalStorageClass sc ∧ sc = T_TYPEDEF then { decl with tq }
    else
      { decl with
        type := demote decl.type
        tq := if illegalStorageClass sc then tq_remove_all_storage_classes tq else tq }

/-- What `SetDeclType` does to a declaration that is finished. -/
def declare (t : Tables) (decl : Decl TypeNode) : Decl TypeNode × Tables :=
  let sc := decl.tq.storage_class
  match insertExternals c redeclare t sc decl.type decl.name with
  | none => (decl, t)
  | some (conflict, t) =>
    let decl := if conflict && t.lookup decl.name then
      { decl with tq := tq_add_redundant_external_decl decl.tq } else decl
    (locate c redeclare t sc decl, insertDeclared c redeclare t decl.name)

/-- `SetDeclType`, with a type that is filled in. -/
def SetDeclType (t : Tables) (decl : Decl (List Modifier)) (type : TypeNode) :
    Option (Decl TypeNode × Tables) :=
  (FinishDecl c { decl with type := SetBaseType decl.type type }).map (declare c redeclare t)

def SetDeclInit {τ : Type} (decl : Decl τ) (init : Option String) : Decl τ :=
  let tq := if init.isSome then tq_remove_redundant_external_decl decl.tq else decl.tq
  { decl with tq, init }

def SetDeclAttribs {τ : Type} (decl : Decl τ) (attribs : List Attribute) : Decl τ :=
  { decl with tq := tq_union decl.tq (tq_attribute attribs) }

def SetDeclAsm {τ : Type} (decl : Decl τ) (a : Option String) : Decl τ := { decl with asmdecl := a }

def AppendDecl (t : Tables) (firstdecl : Decl TypeNode) (decl : Decl (List Modifier)) :
    Option (Decl TypeNode × Tables) :=
  SetDeclType c redeclare t { decl with tq := tq_union decl.tq firstdecl.tq }
    (NodeCopy (GetDeepBaseType firstdecl.type))

/-! ## `declaring.list` -/

/-- The specifiers: the type that they are parsed into, and the attributes behind
it. None of them stands for a redundant declaration. -/
structure Specifiers where
  type : TypeNode
  attribs : List Attribute
  parsed : (NodeTq (GetDeepBaseType type)).redundant_external_decl = false

/-- The qualifiers that have been parsed. -/
def Specifiers.tq (S : Specifiers) : TypeQual := NodeTq (GetDeepBaseType S.type)

/-- A declarator, with the attributes in it and with what comes behind it. -/
structure Declarator where
  name : String
  modifiers : List Modifier
  own : List Attribute
  asm : Option String
  attribs : List Attribute
  init : Option String

/-- The `Decl` of a declarator before it has a type. -/
def Declarator.decl (d : Declarator) : Decl (List Modifier) :=
  ⟨d.name, d.modifiers, tq_attribute d.own, none, none⟩

/-- What is behind a declarator. -/
def Declarator.finish (d : Declarator) (decl : Decl TypeNode) : Decl TypeNode :=
  SetDeclInit (SetDeclAttribs (SetDeclAsm decl d.asm) d.attribs) d.init

/-- The first declarator. -/
def firstDecl (S : Specifiers) (t : Tables) (d : Declarator) : Option (Decl TypeNode × Tables) :=
  (SetDeclType c redeclare t (SetDeclAttribs d.decl S.attribs) S.type).map fun r =>
    (d.finish r.1, r.2)

/-- The declarators behind the first one, which is `firstdecl`. -/
def restOfList (firstdecl : Decl TypeNode) : Tables → List Declarator → Option (List (Decl TypeNode))
  | _, [] => some []
  | t, d :: ds =>
    (AppendDecl c redeclare t firstdecl d.decl).bind fun r =>
      (restOfList firstdecl r.2 ds).map (d.finish r.1 :: ·)

/-- **A declaration list.** -/
def declaringList (S : Specifiers) (t : Tables) (d : Declarator) (ds : List Declarator) :
    Option (List (Decl TypeNode)) :=
  (firstDecl c redeclare S t d).bind fun r => (restOfList c redeclare r.1 r.2 ds).map (r.1 :: ·)

/-- **The same declarators, each in a declaration of its own.** -/
def separateDeclarations (S : Specifiers) : Tables → List Declarator → Option (List (Decl TypeNode))
  | _, [] => some []
  | t, d :: ds =>
    (firstDecl c redeclare S t d).bind fun r =>
      (separateDeclarations S r.2 ds).map (r.1 :: ·)

end Cilk.DeclarationLists
