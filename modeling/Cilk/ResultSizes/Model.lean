import Cilk.Alignment
import Cilk.Sizing
import Cilk.TypeEquality.Model

/-!
# The sizes of results

What is checked of the spawns and inlet calls of a program, and the sizes that
the two sides compute for the result of a spawned procedure.

Of the parser there are the symbol tables, as far as `SetDeclType` and
`DefineProc` fill them in: a name is entered in `Externals`, where a later
declaration of it is compared with the first, or in `Identifiers` only. Of
`sem-check.c` there are `SemCheckSpawn` and `SemCheckInletCall`. Checks that do
not bear on the sizes are left out, so a program that is accepted here may
still be refused: those of the parameters and arguments of procedures, that a
receiver is a modifiable lvalue, the conversion of the value of a `return`, and
what is declared twice in one block.

Of `transform.c` there are the entries of a signature, the sizes that the two
clones of a spawned procedure pass on, and of `sched.c` what becomes of both.
-/

namespace Cilk.ResultSizes

open ConstFold (Floats)
open TypeEquality Alignment

variable {F : Floats}

/-! ## Types -/

/-- `NodeDataType` of a type. -/
def NodeDataType (type : Node) : Node := (UnwindTdefs type).1

def tq_has_procedure (tq : TypeQual) : Bool := tq &&& T_PROCEDURE ≠ 0

def tq_has_inlet (tq : TypeQual) : Bool := tq &&& T_INLET ≠ 0

def PrimVoid : Node := .Prim 0 .Void

def TypeEqual (node1 node2 : Node) : Comparison (Store F) :=
  TypeEqualQualified node1 node2 true true

def IsVoidType (type : Node) : Bool :=
  match NodeDataType type with
  | .Prim _ .Void => true
  | _ => false

def IsPointerType (type : Node) : Bool :=
  match NodeDataType type with
  | .Ptr _ _ => true
  | _ => false

def IsFunctionType : Node → Bool
  | .Fdcl _ _ _ => true
  | _ => false

def IsPtrToFunction (type : Node) : Bool :=
  match NodeDataType type with
  | .Ptr _ pointee => IsFunctionType (NodeDataType pointee)
  | _ => false

def IsIntegralType : Node → Bool
  | .Prim _ basic => basic ∈ [.Uchar, .Schar, .Char, .Ushort, .Sshort, .Uint, .Sint, .Ulong,
      .Slong, .Ulonglong, .Slonglong]
  | .Sue .Edcl _ _ _ => true
  | _ => false

def IsEllipsis : Node → Bool
  | .Prim _ .Ellipsis => true
  | _ => false

def IsSchedulableType (type : Node) : Bool :=
  match NodeDataType type with
  | .Fdcl tq _ _ => tq_has_procedure tq
  | _ => false

/-- The types of the parameters. -/
def types : Args → List Node
  | .null => []
  | .decl type rest | .type type rest => type :: types rest

def IsVoidArglist (formals : Args) : Bool :=
  match types formals with
  | [type] => IsVoidType type
  | _ => false

/-! ## Sizes -/

/-- What the compiler of the generated code knows the size of a type by. -/
inductive SizeClass
  /-- One byte: characters, `void` and functions. -/
  | byte
  /-- `short`, `int`, `long` and `long long`, by their rank. -/
  | integer (rank : ℕ)
  /-- `float`, `double` and `long double`. -/
  | floating (rank : ℕ)
  | pointer
  | enumeration (addr : Addr)
  | struct (addr : Addr)
  | array (addr : Addr)
  /-- The name of a type whose declaration sets the size. -/
  | typedef (decl : Addr)
  | ellipsis
  deriving DecidableEq

/-- A type of the first class is no larger than one of the second, whatever
the sizes are. Of structures and arrays not even that they are not empty is
known. -/
def SizeClass.below (a b : SizeClass) : Bool :=
  match a, b with
  | .byte, .integer _ | .byte, .floating _ | .byte, .pointer | .byte, .enumeration _ => true
  | .integer m, .integer n | .floating m, .floating n => m ≤ n
  | a, b => a = b

theorem SizeClass.below_refl (a : SizeClass) : a.below a = true := by
  cases a <;> simp [below]

theorem SizeClass.below_trans {a b c : SizeClass} (hab : a.below b = true)
    (hbc : b.below c = true) : a.below c = true := by
  cases a <;> cases b <;> cases c <;> simp only [below] at hab hbc ⊢ <;> grind

instance : Preorder SizeClass where
  le a b := a.below b = true
  le_refl := SizeClass.below_refl
  le_trans _ _ _ := SizeClass.below_trans

instance : DecidableLE SizeClass := fun a b => inferInstanceAs (Decidable (a.below b = true))

/-- The sizes and alignments that the compiler of the generated code gives to
types. -/
structure Target extends Sizing SizeClass .byte where
  alignof : Node → ℕ
  alignof_pos (type : Node) : 0 < alignof type

/-- Which declarations of a type's name have an attribute that sets the size,
as `mode` and `vector_size` do. -/
abbrev Attributes := Addr → Bool

def BasicType.sizeClass : BasicType → SizeClass
  | .Uchar | .Schar | .Char | .Void => .byte
  | .Ushort | .Sshort => .integer 0
  | .Uint | .Sint | .Int_ParseOnly => .integer 1
  | .Ulong | .Slong => .integer 2
  | .Ulonglong | .Slonglong => .integer 3
  | .Float => .floating 0
  | .Double => .floating 1
  | .Longdouble => .floating 2
  | .Ellipsis => .ellipsis

/-- How many numbers a number has. -/
def parts (tq : TypeQual) : ℕ := if tq &&& T_COMPLEX = 0 then 1 else 2

/-- The size of a type with the qualifiers `tq`: how many of which class. The
compiler looks through a name up to one whose declaration sets the size. -/
def measureFrom (sized : Attributes) : Node → TypeQual → SizeClass × ℕ
  | .Tdef decl _ type, tq =>
    if sized decl then (.typedef decl, parts tq)
    else measureFrom sized type (tq ||| NodeTypeQuals type)
  | .Prim _ basic, tq => (BasicType.sizeClass basic, parts tq)
  | .Ptr _ _, _ => (.pointer, 1)
  | .Adcl addr _ _, _ => (.array addr, 1)
  | .Sue .Edcl addr _ _, _ => (.enumeration addr, 1)
  | .Sue _ addr _ _, _ => (.struct addr, 1)
  | .Fdcl _ _ _, _ => (.byte, 1)

def measure (sized : Attributes) (type : Node) : SizeClass × ℕ :=
  measureFrom sized type (NodeTypeQuals type)

/-- `sizeof` in the generated code. -/
def Target.sizeof (sized : Attributes) (t : Target) (type : Node) : ℕ :=
  (measure sized type).2 * t.size (measure sized type).1

/-- Where the members of a structure end that lie behind the first `n` bytes. -/
def Target.endOf (sized : Attributes) (t : Target) (n : ℕ) : List Node → ℕ
  | [] => n
  | type :: rest => t.endOf sized (roundUp n (t.alignof type) + t.sizeof sized type) rest

/-- `sizeof` of the structure whose members are the parameters of an inlet. -/
def Target.structSize (sized : Attributes) (t : Target) (members : List Node) : ℕ :=
  roundUp (t.endOf sized 0 members) ((members.map t.alignof).foldl max 1)

/-! ## Programs -/

/-- The operator between the receiver and the spawn. -/
inductive OpType
  | assign | PLUSassign | MINUSassign | otherAssign
  deriving DecidableEq

/-- What is read of a receiver: its type, the kind of the variable if it is an
identifier, and `memorycheckedp`. An attribute of the variable that sets its
size is that of a name which only this variable is declared with. -/
structure Receiver where
  declared : Node
  kind : Option ℕ
  memorycheckedp : Bool

/-- The type of the receiver, as `NodeDataType` gives it. -/
def Receiver.type (r : Receiver) : Node := NodeDataType r.declared

/-- How a name is declared: the parameters of a procedure or an inlet are the
first declarations of its body. -/
inductive Storage
  | formal | Extern | other
  deriving DecidableEq

/-- A spawn with the name of what is spawned, or an inlet call with the name of
the inlet, what is spawned, and the types of the other arguments. -/
inductive Call
  | spawn (receiver : Option Receiver) (assign_op : OpType) (name : String)
  | inletCall (inletName name : String) (args : List Node)

/-- The body of a procedure or an inlet: what bears on the sizes, in turn. The
definition in it is that of an inlet, and a `return` has a value or has none. -/
inductive Body
  | nothing
  | declare (name : String) (type : Node) (storage : Storage) (rest : Body)
  | block (inner rest : Body)
  | define (name : String) (tq : TypeQual) (args : Args) (returns : Node) (inner rest : Body)
  | call (call : Call) (rest : Body)
  | ret (value : Bool) (rest : Body)

/-- A declaration or a definition at the top level. -/
inductive External
  | declare (name : String) (type : Node)
  | procedure (name : String) (tq : TypeQual) (args : Args) (returns : Node) (body : Body)

/-! ## Symbol tables -/

/-- The table `Externals`. -/
abbrev Externals := List (String × Node)

/-- What is found under a name in `Identifiers`. -/
inductive Found
  /-- A declaration that stands in `Externals`. -/
  | global
  /-- A declaration or an inlet in a block. -/
  | local
  | formal
  deriving DecidableEq

structure Symbol where
  type : Node
  found : Found

/-- The table `Identifiers`, the innermost scope first. -/
abbrev Identifiers := List (String × Symbol)

/-- `InsertSymbol`: the first declaration stays. -/
def insertExternal (externals : Externals) (name : String) (type : Node) : Externals :=
  match externals.lookup name with
  | some _ => externals
  | none => (name, type) :: externals

/-- The declaration that `InsertSymbol` returns. -/
def externalType (externals : Externals) (name : String) (type : Node) : Node :=
  (externals.lookup name).getD type

/-- `FunctionConflict`, but for the parameters. -/
def FunctionConflict (orig create : Node) : Comparison (Store F) :=
  match NodeDataType orig, NodeDataType create with
  | .Fdcl otq _ oreturns, .Fdcl ntq _ nreturns =>
    if tq_has_procedure otq ≠ tq_has_procedure ntq ∨ tq_has_inlet otq ≠ tq_has_inlet ntq then
      answer false
    else TypeEqual oreturns nreturns
  | _, _ => answer false

/-- The `ConflictProc` for a declaration in `Externals`: `FunctionConflict` or
`extern_conflict`. -/
def externalConflict (orig create : Node) : Comparison (Store F) :=
  if IsFunctionType create then FunctionConflict orig create else TypeEqual orig create

/-- The check of a declaration against `Externals`. -/
def checkExternal (externals : Externals) (name : String) (type : Node) : Comparison (Store F) :=
  match externals.lookup name with
  | some orig => externalConflict orig type
  | none => answer true

/-- Whether `SetDeclType` checks a declaration in a block against `Externals`.
That of a function it does not check. -/
def checksExternals (type : Node) (storage : Storage) : Bool :=
  storage = .Extern && !IsFunctionType type

/-- `SetDeclType` in a block: the symbol that is entered in `Identifiers`. -/
def declared (externals : Externals) (name : String) (type : Node) (storage : Storage) : Symbol :=
  if checksExternals type storage then ⟨externalType externals name type, .global⟩
  else ⟨type, if storage = .formal then .formal else .local⟩

/-- `Externals` after a body. -/
def Body.externals : Body → Externals → Externals
  | nothing, externals => externals
  | declare name type storage rest, externals =>
    rest.externals
      (if checksExternals type storage then insertExternal externals name type else externals)
  | block inner rest, externals | define _ _ _ _ inner rest, externals =>
    rest.externals (inner.externals externals)
  | call _ rest, externals | ret _ rest, externals => rest.externals externals

def External.externals : External → Externals → Externals
  | declare name type, externals => insertExternal externals name type
  | procedure name tq args returns body, externals =>
    body.externals (insertExternal externals name (.Fdcl tq args returns))

/-- `Identifiers` at the top level, after a declaration. -/
def External.identifiers : External → Externals → Identifiers → Identifiers
  | declare name type, externals, identifiers =>
    (name, ⟨externalType externals name type, .global⟩) :: identifiers
  | procedure name tq args returns _, externals, identifiers =>
    (name, ⟨externalType externals name (.Fdcl tq args returns), .global⟩) :: identifiers

/-! ## Checks -/

/-- Where a spawn or an inlet call stands. -/
structure Context where
  in_procedure : Bool
  in_inlet : Bool

/-- What `SemCheckProc` changes for the body of a definition. -/
def Context.enter (tq : TypeQual) (context : Context) : Context :=
  if tq_has_procedure tq then { context with in_procedure := true }
  else if tq_has_inlet tq then { context with in_inlet := true }
  else context

/-- A spawn or an inlet call, with what its names are found to be. -/
structure Site where
  call : Call
  context : Context
  spawned : Option Symbol
  inlet : Option Symbol
  /-- The parameters of the inlets of that name that the procedure defines. -/
  structs : List (List Node)

/-- The function type through which something is spawned. -/
def calltype (type : Node) : Node :=
  match NodeDataType type with
  | .Ptr tq pointee => if IsFunctionType (NodeDataType pointee) then pointee else .Ptr tq pointee
  | other => other

/-- `SemCheckSpawn`. There is no result where the function type has a name of
its own behind a pointer, as that node is read as a function type. -/
def SemCheckSpawn (context : Context) (spawned : Option Symbol) (receiver : Option Receiver)
    (assign_op : OpType) (in_inlet : Bool) : Comparison (Store F) :=
  if !context.in_procedure || context.in_inlet then answer false
  else
    match spawned with
    | none => answer false
    | some symbol =>
      if !IsSchedulableType (calltype symbol.type) then answer false
      else if in_inlet then answer true
      else
        match calltype symbol.type, receiver with
        | .Fdcl _ _ returns, none => TypeEqual returns PrimVoid
        | .Fdcl _ _ returns, some r =>
          if (assign_op = .PLUSassign || assign_op = .MINUSassign) && IsPointerType r.type &&
              IsIntegralType returns then answer true
          else TypeEqualQualified returns r.type false false
        | _, _ => fun _ => none

/-- The loop of `SemCheckCallArgs_Aux`, without conversions. -/
def compareActuals : List Node → List Node → Comparison (Store F)
  | _, [] => answer true
  | [], _ :: _ => fun _ => none
  | formal :: formals, actual :: actuals =>
    both (TypeEqual (NodeDataType formal) actual)
      (if IsEllipsis formal then compareActuals (formal :: formals) actuals
       else compareActuals formals actuals)

/-- `SemCheckInletArgs`. -/
def SemCheckInletArgs (formals : Args) (actuals : List Node) : Comparison (Store F) :=
  let formals_len := if IsVoidArglist formals then 0 else (types formals).length
  let variable_length := (types formals).getLast?.all IsEllipsis
  if !variable_length && formals_len ≠ actuals.length then answer false
  else if IsVoidArglist formals then answer true
  else compareActuals (types formals) actuals

/-- `SemCheckInletCall`. There is no result where the procedure is not declared
by a function type, as that node is read as one. -/
def SemCheckInletCall (context : Context) (inlet spawned : Option Symbol) (args : List Node) :
    Comparison (Store F) :=
  if !context.in_procedure || context.in_inlet then answer false
  else
    both (SemCheckSpawn context spawned none .assign true)
      (match inlet, spawned with
      | some i, some symbol =>
        if IsPtrToFunction i.type then answer false
        else
          match NodeDataType i.type, symbol.type with
          | .Fdcl tq formals returns, .Fdcl _ _ spawn_return_type =>
            if !tq_has_inlet tq then answer false
            else both (TypeEqual returns PrimVoid)
              (SemCheckInletArgs formals
                (if IsVoidType spawn_return_type then args
                 else NodeDataType spawn_return_type :: args))
          | .Fdcl _ _ _, _ => fun _ => none
          | _, _ => answer false
      | _, _ => answer false)

def Site.check (site : Site) : Comparison (Store F) :=
  match site.call with
  | .spawn receiver assign_op _ =>
    SemCheckSpawn site.context site.spawned receiver assign_op false
  | .inletCall _ _ args => SemCheckInletCall site.context site.inlet site.spawned args

/-- The definitions in a body, with their parameters. -/
def Body.definitions : Body → List (String × List Node)
  | nothing => []
  | declare _ _ _ rest | call _ rest | ret _ rest => rest.definitions
  | block inner rest => inner.definitions ++ rest.definitions
  | define name _ args _ inner rest =>
    (name, types args) :: (inner.definitions ++ rest.definitions)

/-- The sites of a body, in a procedure with the definitions `defs`. -/
def Body.sites (defs : List (String × List Node)) (context : Context) :
    Body → Externals → Identifiers → List Site
  | nothing, _, _ => []
  | declare name type storage rest, externals, identifiers =>
    rest.sites defs context
      (if checksExternals type storage then insertExternal externals name type else externals)
      ((name, declared externals name type storage) :: identifiers)
  | block inner rest, externals, identifiers =>
    inner.sites defs context externals identifiers ++
      rest.sites defs context (inner.externals externals) identifiers
  | define name tq args returns inner rest, externals, identifiers =>
    let identifiers := (name, ⟨.Fdcl tq args returns, .local⟩) :: identifiers
    inner.sites defs (context.enter tq) externals identifiers ++
      rest.sites defs context (inner.externals externals) identifiers
  | call c rest, externals, identifiers =>
    let site : Site :=
      match c with
      | .spawn _ _ name => ⟨c, context, identifiers.lookup name, none, []⟩
      | .inletCall inletName name _ =>
        ⟨c, context, identifiers.lookup name, identifiers.lookup inletName,
          (defs.filter (·.1 = inletName)).map Prod.snd⟩
    site :: rest.sites defs context externals identifiers
  | ret _ rest, externals, identifiers => rest.sites defs context externals identifiers

/-- The checks of a body against `Externals`. -/
def Body.checkExternals : Body → Externals → Comparison (Store F)
  | nothing, _ => answer true
  | declare name type storage rest, externals =>
    if checksExternals type storage then
      both (checkExternal externals name type)
        (rest.checkExternals (insertExternal externals name type))
    else rest.checkExternals externals
  | block inner rest, externals | define _ _ _ _ inner rest, externals =>
    both (inner.checkExternals externals) (rest.checkExternals (inner.externals externals))
  | call _ rest, externals | ret _ rest, externals => rest.checkExternals externals

def External.checkExternals : External → Externals → Comparison (Store F)
  | declare name type, externals => checkExternal externals name type
  | procedure name tq args returns body, externals =>
    both (checkExternal externals name (.Fdcl tq args returns))
      (body.checkExternals (insertExternal externals name (.Fdcl tq args returns)))

/-- The sites of a declaration: those of a procedure's body. -/
def External.sites : External → Externals → Identifiers → List Site
  | declare _ _, _, _ => []
  | procedure name tq args returns body, externals, identifiers =>
    body.sites body.definitions (Context.enter tq ⟨false, false⟩)
      (insertExternal externals name (.Fdcl tq args returns))
      ((External.procedure name tq args returns body).identifiers externals identifiers)

/-- The sites of a program. -/
def sites : List External → Externals → Identifiers → List Site
  | [], _, _ => []
  | external :: rest, externals, identifiers =>
    external.sites externals identifiers ++
      sites rest (external.externals externals) (external.identifiers externals identifiers)

/-- The checks of a program while it is parsed. -/
def checkExternals : List External → Externals → Comparison (Store F)
  | [], _ => answer true
  | external :: rest, externals =>
    both (external.checkExternals externals) (checkExternals rest (external.externals externals))

/-- The checks of the sites. -/
def checkSites : List Site → Comparison (Store F)
  | [] => answer true
  | site :: rest => both site.check (checkSites rest)

/-- A program is accepted: it is parsed and checked without an error. -/
def Accepted (program : List External) (s : Store F) : Prop :=
  ∃ s', both (checkExternals program []) (checkSites (sites program [] [])) s = some (true, s')

/-! ## The clones -/

/-- A Cilk procedure: its name, the type of its result, and of each `return` in
it whether it has a value. -/
structure Procedure where
  name : String
  returns : Node
  values : List Bool

/-- The `return` statements of a body, but for those of the inlets. -/
def Body.values : Body → List Bool
  | nothing => []
  | declare _ _ _ rest | call _ rest | define _ _ _ _ _ rest => rest.values
  | block inner rest => inner.values ++ rest.values
  | ret value rest => value :: rest.values

/-- The Cilk procedures of a program. -/
def procedures : List External → List Procedure
  | [] => []
  | .declare _ _ :: rest => procedures rest
  | .procedure name tq _ returns body :: rest =>
    if tq_has_procedure tq then ⟨name, returns, body.values⟩ :: procedures rest
    else procedures rest

/-- Which clone of the spawner. -/
inductive Version
  | Fast | Slow
  deriving DecidableEq

/-- `CilkProcInfo`: what is read of it besides the place of the receiver. -/
structure CilkProcInfo where
  size : ℕ
  inlet : Bool
  argsize : ℕ

/-- The link information of `TransformSpawn2`. -/
def spawnInfo (sized : Attributes) (t : Target) (receiver : Option Receiver) (assign_op : OpType)
    (return_type : Node) : CilkProcInfo where
  size := if receiver.isSome then t.sizeof sized return_type else 0
  inlet := assign_op ≠ .assign
  argsize := if assign_op = .assign then 0 else t.sizeof sized return_type

/-- The size of the area for the arguments of an inlet, where `struct` are the
members of the structure of the inlet's parameters. -/
def argumentArea (sized : Attributes) (t : Target) (formals : Args) (struct : List Node) : ℕ :=
  if (types formals).head?.all IsVoidType then 0 else t.structSize sized struct

/-- The link information of `TransformInletCall`. -/
def inletCallInfo (sized : Attributes) (t : Target) (return_type : Node) (formals : Args)
    (struct : List Node) : CilkProcInfo where
  size := if IsVoidType return_type then 0 else t.sizeof sized (NodeDataType return_type)
  inlet := true
  argsize := argumentArea sized t formals struct

/-- `TransformReceiver`: the receiver is a register variable. -/
def Receiver.register (version : Version) (r : Receiver) : Bool :=
  r.kind = some 1 || (version = .Fast && !r.memorycheckedp && r.kind = some 3)

/-- `MakeXPopFrame`: the type of `__tmp`. The receiver that `TransformReceiver`
makes is a register variable of the spawner, or a temporary one that is declared
with the type of the result. -/
def poppedType (version : Version) (r : Receiver) (assign_op : OpType) (return_type : Node) :
    Node :=
  NodeDataType (if r.register version && assign_op = .assign then r.declared else return_type)

/-- `MakeXPopFrame` of a spawn: the size of `__tmp`. -/
def spawnPopSize (sized : Attributes) (t : Target) (version : Version)
    (receiver : Option Receiver) (assign_op : OpType) (return_type : Node) : ℕ :=
  match receiver with
  | none => 0
  | some r => t.sizeof sized (poppedType version r assign_op return_type)

/-- `MakeXPopFrame` of an inlet call. -/
def inletCallPopSize (sized : Attributes) (t : Target) (return_type : Node) : ℕ :=
  if IsVoidType return_type then 0 else t.sizeof sized (NodeDataType return_type)

/-- `TransformReturn` in the slow clone: the size of `__tmp`, or none. -/
def resultSize (sized : Attributes) (t : Target) (returns : Node) (value : Bool) : ℕ :=
  if value then t.sizeof sized returns else 0

/-! ## The runtime -/

/-- `InletClosure`: what is read of it besides the receiver. -/
structure InletClosure where
  inlet : Bool
  argsize : ℕ

def make_incomplete_inlet_closure (info : CilkProcInfo) : InletClosure :=
  if info.inlet then ⟨true, info.argsize⟩ else ⟨false, info.size⟩

/-- `complete_and_enque_inlet`. There is no result where `CILK_COMPLAIN` ends
the program. -/
def complete_and_enque_inlet (return_size : ℕ) (i : InletClosure) : Option InletClosure :=
  if return_size ≤ i.argsize then some i else none

/-- `apply_inlet`: how many bytes are copied to the receiver. -/
def apply_inlet (i : InletClosure) : ℕ := if i.inlet then 0 else i.argsize

/-- What is passed on fits in: the check does not fail, and no more is copied
than there is room for. -/
def Fits (info : CilkProcInfo) (room return_size : ℕ) : Prop :=
  ∃ i, complete_and_enque_inlet return_size (make_incomplete_inlet_closure info) = some i ∧
    apply_inlet i ≤ room

/-! ## The two sides -/

/-- The type of the result, as it is declared to the spawner. -/
def Site.return_type (site : Site) : Option Node :=
  match site.spawned with
  | none => none
  | some symbol =>
    match calltype symbol.type with
    | .Fdcl _ _ returns => some returns
    | _ => none

/-- The parameters of the inlet, as they are declared to the spawner. -/
def Site.formals (site : Site) : Args :=
  match site.inlet with
  | none => .null
  | some i =>
    match NodeDataType i.type with
    | .Fdcl _ formals _ => formals
    | _ => .null

/-- A parameter, and what is called through a pointer, can be any procedure. -/
def Symbol.indirect (symbol : Symbol) : Bool :=
  symbol.found = .formal || IsPointerType symbol.type

/-- The name of what is spawned. -/
def Call.name : Call → String
  | spawn _ _ name | inletCall _ name _ => name

/-- The site may spawn the procedure. -/
def Site.Spawns (site : Site) (d : Procedure) : Prop :=
  ∃ symbol, site.spawned = some symbol ∧ (symbol.indirect = true ∨ site.call.name = d.name)

/-- **The sizes agree** at a spawn: whatever size the procedure passes on, from
its slow clone with or without a value, or with its fast clone. -/
def SpawnAgrees (sized : Attributes) (t : Target) (receiver : Option Receiver)
    (assign_op : OpType) (return_type : Node) (d : Procedure) : Prop :=
  let info := spawnInfo sized t receiver assign_op return_type
  let room := (receiver.map fun r => t.sizeof sized r.declared).getD 0
  (∀ version, Fits info room (spawnPopSize sized t version receiver assign_op return_type)) ∧
    ∀ value ∈ false :: d.values, Fits info room (resultSize sized t d.returns value)

/-- **The sizes agree** at an inlet call. -/
def InletCallAgrees (sized : Attributes) (t : Target) (return_type : Node) (formals : Args)
    (struct : List Node) (d : Procedure) : Prop :=
  let info := inletCallInfo sized t return_type formals struct
  Fits info 0 (inletCallPopSize sized t return_type) ∧
    ∀ value ∈ false :: d.values, Fits info 0 (resultSize sized t d.returns value)

/-- **The sizes agree** at a site, for a procedure that is spawned there. -/
def Site.Agrees (sized : Attributes) (t : Target) (site : Site) (d : Procedure) : Prop :=
  ∀ return_type, site.return_type = some return_type →
    match site.call with
    | .spawn receiver assign_op _ => SpawnAgrees sized t receiver assign_op return_type d
    | .inletCall _ _ _ =>
      ∀ struct ∈ site.structs, InletCallAgrees sized t return_type site.formals struct d

end Cilk.ResultSizes
