import Mathlib.Data.List.Basic

/-!
# Printing declarators

`OutputPartialType` of `output.c`, which prints a type in two halves, before
and after the name that it is the type of, with `OutputTQ`, `OutputSUE` and
what `OutputDeclList` and `OutputDecl` do to the parameters of a function.

The text is kept as the pieces that are printed. A piece is a blank or a token:
words are whole words, and the text of an expression or of the members of a
structure, which stands in brackets of its own, is one piece. Whether the text
falls into these tokens again is up to `lex`: two words in a row would be read
as one. Coordinates add nothing but white space, and attributes are left out.
-/

namespace Cilk.Declarators

/-! ## Types -/

inductive StorageClass
  | T_TYPEDEF | T_EXTERN | T_STATIC | T_AUTO | T_REGISTER
  deriving DecidableEq

/-- The qualifiers of a `TypeQual`, of those that are still there when a type is
printed, in the order in which they are printed. -/
inductive Qualifier
  | T_EXTENSION | T_SHARED | T_PRIVATE | T_INLINE | T_CONST | T_VOLATILE | T_RESTRICT | T_COMPLEX
  | T_NOOUTPUT | T_CILKONLY | T_CILKSAFE | T_SUE_ELABORATED | T_PROCEDURE | T_INLET
  deriving DecidableEq

@[ext] structure TypeQual where
  storage : Option StorageClass
  has : Qualifier → Bool

def EMPTY_TQ : TypeQual := ⟨none, fun _ => false⟩

/-- `tq_remove_procedure` and its like. -/
def TypeQual.remove (tq : TypeQual) (q : Qualifier) : TypeQual :=
  ⟨tq.storage, fun q' => tq.has q' && q' ≠ q⟩

/-- `tq_storage_class`. -/
def TypeQual.storageClass (tq : TypeQual) : TypeQual := ⟨tq.storage, fun _ => false⟩

inductive BasicType
  | Uchar | Schar | Char | Ushort | Sshort | Uint | Sint | Ulong | Slong | Ulonglong | Slonglong
  | Float | Double | Longdouble | Void
  deriving DecidableEq

inductive SueKind
  | Sdcl | Udcl | Edcl
  deriving DecidableEq

/-- The dimension of an array: `null` where there is no node. An implicit cast
of no expression holds a dimension that was computed. -/
inductive Expr
  | null
  | source (text : String)
  | implicitcast (expr : Expr)
  deriving DecidableEq

mutual

/-- A node of a type. The members of a structure are there where the node is
marked `T_SUE_ELABORATED`. -/
inductive Node
  | Prim (tq : TypeQual) (basic : BasicType)
  | Tdef (tq : TypeQual) (name : String)
  | Sue (kind : SueKind) (tq : TypeQual) (name : String) (fields : Option String)
  | Ptr (tq : TypeQual) (type : Node)
  | Adcl (type : Node) (dim : Expr)
  | Fdcl (tq : TypeQual) (args : Args) (returns : Node)

/-- The list of parameters. -/
inductive Args
  | null
  | list (params : Params)

/-- A list that is not empty. `EllipsisNode` may follow its last parameter. -/
inductive Params
  | last (param : Param)
  | ellipsis (param : Param)
  | cons (param : Param) (rest : Params)

/-- A parameter without a name is a type. -/
inductive Param
  | type (type : Node)
  | decl (tq : TypeQual) (name : String) (type : Node)

end

/-! ## Text -/

/-- A word that qualifies a declaration or a type. -/
inductive Word
  | storage (sc : StorageClass)
  | qual (q : Qualifier)
  deriving DecidableEq

inductive Token
  | word (w : Word)
  | basic (b : BasicType)
  | typedefName (name : String)
  | sue (kind : SueKind)
  | tag (name : String)
  | fields (text : String)
  | name (name : String)
  | expr (text : String)
  | star | lparen | rparen | lbrack | rbrack | comma | ellipsis
  deriving DecidableEq

inductive Piece
  | token (t : Token)
  | blank
  deriving DecidableEq

abbrev Text := List Piece

/-- `OutS` and `OutCh`, of one token. -/
def Out (t : Token) : Text := [.token t]

/-- Whether a token begins and ends with an identifier character. -/
def Token.isWord : Token → Bool
  | word _ | basic _ | typedefName _ | sue _ | tag _ | name _ => true
  | _ => false

/-- `isidentifierchar(out->prev_char)`, after a text. -/
def endsInIdentifierChar (text : Text) : Bool :=
  match text.getLast? with
  | some (.token t) => t.isWord
  | _ => false

/-- The tokens of a text, if no two words stand side by side. -/
def lex : Text → Option (List Token)
  | [] => some []
  | .blank :: rest => lex rest
  | .token t :: rest =>
    match rest with
    | .token t' :: _ => if t.isWord && t'.isWord then none else (lex rest).map (t :: ·)
    | _ => (lex rest).map (t :: ·)

/-! ## Printing -/

/-- The qualifiers that are printed after the storage class. -/
def printedQualifiers : List Qualifier :=
  [.T_SHARED, .T_PRIVATE, .T_INLINE, .T_CONST, .T_VOLATILE, .T_RESTRICT, .T_COMPLEX, .T_NOOUTPUT,
    .T_CILKONLY, .T_CILKSAFE, .T_SUE_ELABORATED, .T_PROCEDURE, .T_INLET]

/-- The words that `OutputTQ` prints. -/
def TypeQual.words (tq : TypeQual) : List Word :=
  (([.T_EXTENSION] : List Qualifier).filter tq.has).map .qual ++ tq.storage.toList.map .storage ++
    (printedQualifiers.filter tq.has).map .qual

/-- `OutputTQ`: every word is followed by a blank. -/
def OutputTQ (tq : TypeQual) : Text := tq.words.flatMap fun w => [.token (.word w), .blank]

inductive Context
  | Left | Right

/-- `IS_ARRAY_OR_FUNC` -/
def Node.isArrayOrFunc : Node → Bool
  | Adcl _ _ | Fdcl _ _ _ => true
  | _ => false

/-- What `OutputExpr` prints of a dimension, if `IsSourceExpression`. -/
def Expr.written : Expr → Option String
  | null => none
  | source text => some text
  | implicitcast expr => expr.written

/-- `OutputSUE`. -/
def OutputSUE (kind : SueKind) (name : String) (fields : Option String) : Text :=
  Out (.sue kind) ++ [.blank] ++ Out (.tag name) ++ (fields.toList.map fun text =>
    .token (.fields text))

/-- The declared name, after the left part of its type. -/
def OutputName (left : Text) (name : String) : Text :=
  left ++ (if endsInIdentifierChar left then [.blank] else []) ++ Out (.name name)

mutual

def OutputPartialType : Context → Node → TypeQual → Text
  | .Left, .Prim tq basic, sc =>
    OutputTQ sc ++ OutputTQ (tq.remove .T_SUE_ELABORATED) ++ Out (.basic basic)
  | .Left, .Tdef tq name, sc => OutputTQ sc ++ OutputTQ tq ++ Out (.typedefName name)
  | .Left, .Sue kind tq name fields, sc =>
    OutputTQ sc ++ OutputTQ (tq.remove .T_SUE_ELABORATED) ++ OutputSUE kind name fields
  | .Right, .Prim _ _, _ | .Right, .Tdef _ _, _ | .Right, .Sue _ _ _ _, _ => []
  | .Left, .Ptr tq type, sc =>
    OutputPartialType .Left type sc ++ (if type.isArrayOrFunc then Out .lparen else []) ++
      Out .star ++ OutputTQ ((tq.remove .T_PROCEDURE).remove .T_INLET)
  | .Right, .Ptr _ type, sc =>
    (if type.isArrayOrFunc then Out .rparen else []) ++ OutputPartialType .Right type sc
  | .Left, .Adcl type _, sc => OutputPartialType .Left type sc
  | .Right, .Adcl type dim, sc =>
    Out .lbrack ++ (dim.written.toList.map fun text => .token (.expr text)) ++ Out .rbrack ++
      OutputPartialType .Right type sc
  | .Left, .Fdcl tq _ returns, sc =>
    OutputTQ ((tq.remove .T_PROCEDURE).remove .T_INLET) ++ OutputPartialType .Left returns sc
  | .Right, .Fdcl _ args returns, sc =>
    Out .lparen ++ OutputArgs args ++ Out .rparen ++ OutputPartialType .Right returns sc

/-- `OutputDeclList`, of a `FormalDecl`. -/
def OutputArgs : Args → Text
  | .null => []
  | .list params => OutputParams params

def OutputParams : Params → Text
  | .last param => OutputParam param
  | .ellipsis param => OutputParam param ++ Out .comma ++ Out .ellipsis
  | .cons param rest => OutputParam param ++ Out .comma ++ OutputParams rest

/-- `OutputType`, or `OutputDecl` of a `FormalDecl`. -/
def OutputParam : Param → Text
  | .type type => OutputPartialType .Left type EMPTY_TQ ++ OutputPartialType .Right type EMPTY_TQ
  | .decl tq name type =>
    if tq.has .T_NOOUTPUT then []
    else
      (if tq.has .T_EXTENSION then Out (.word (.qual .T_EXTENSION)) else []) ++
        OutputName (OutputTQ tq.storageClass ++ OutputPartialType .Left type EMPTY_TQ) name ++
        OutputPartialType .Right type EMPTY_TQ

end

/-- The left part of a type, the name if there is one, and the right part. -/
def OutputDeclarator (name : Option String) (type : Node) : Text :=
  match name with
  | none => OutputPartialType .Left type EMPTY_TQ ++ OutputPartialType .Right type EMPTY_TQ
  | some name =>
    OutputName (OutputPartialType .Left type EMPTY_TQ) name ++ OutputPartialType .Right type EMPTY_TQ

end Cilk.Declarators
