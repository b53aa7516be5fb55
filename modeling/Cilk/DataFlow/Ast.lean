import Mathlib.Data.List.Basic

/-!
# Syntax trees

The nodes of `ast.h`, with what the data-flow framework and the passes that
are built on it read of them: the child links, and the links across the tree
to the target of a jump. A node has an identity, which stands for its address;
a link across the tree is the identity of the node it points to.

The lists of the source are lists of nodes here, and its null pointer is
`Node.null`.
-/

namespace Cilk.Ast

/-- The address of a node. -/
abbrev NodeId := ℕ

/-- The operators, by their names in `ANSI-C.y`; the ones the scanner reads as
one character have the words of `InitOperatorTable`. -/
inductive OpType
  | ARROW | DOT
  | not | bitnot
  | PREINC | PREDEC | POSTINC | POSTDEC
  | SIZEOF | ALIGNOF | IMAG | REAL
  | ADDRESS | INDIR | UPLUS | UMINUS
  | mul | div | mod | add | sub
  | LS | RS
  | lt | gt | LE | GE | EQ | NE
  | band | bxor | bor
  | ANDAND | OROR
  | asgn
  | MULTassign | DIVassign | MODassign | PLUSassign | MINUSassign
  | LSassign | RSassign | ANDassign | ERassign | ORassign
  | DESIGNATED_INITIALIZER | ARRAY_LABELED_INITIALIZER | COLON
  deriving DecidableEq

/-- `typ` of a node that can contain a `Break`, `Continue`, `Case` or
`Default`. -/
inductive ContainerType
  | Switch | While | Do | For
  deriving DecidableEq

/-- The link `container`: where it points, and the `typ` found there. -/
structure Container where
  node : NodeId
  typ : ContainerType
  deriving DecidableEq

/-- `nodeStruct`: a constructor for each `NodeType`, and the null pointer. The
last of a node's arguments, where it has any beside its identity and its
children, are its links across the tree and its flags. -/
inductive Node
  | null
  | Const (id : NodeId) (type : Node)
  | Id (id : NodeId)
  | Binop (id : NodeId) (op : OpType) (left right : Node)
  | Unary (id : NodeId) (op : OpType) (expr : Node)
  | Cast (id : NodeId) (type expr : Node)
  | Comma (id : NodeId) (exprs : List Node)
  | Constructor (id : NodeId) (type initializerlist : Node)
  | Ternary (id : NodeId) (cond true false : Node)
  | Array (id : NodeId) (name : Node) (dims : List Node)
  | Call (id : NodeId) (name : Node) (args : List Node)
  | Initializer (id : NodeId) (exprs : List Node)
  | ImplicitCast (id : NodeId) (expr : Node)
  | Label (id : NodeId)
  | Switch (id : NodeId) (expr stmt : Node) (has_default : Bool)
  | Case (id : NodeId) (expr : Node) (container : Container)
  | Default (id : NodeId) (container : Container)
  | If (id : NodeId) (expr stmt : Node)
  | IfElse (id : NodeId) (expr true false : Node)
  | While (id : NodeId) (expr stmt : Node)
  | Do (id : NodeId) (stmt expr : Node)
  | For (id : NodeId) (init cond next stmt : Node)
  | Goto (id : NodeId) (label : NodeId)
  | Continue (id : NodeId) (container : Container)
  | Break (id : NodeId) (container : Container)
  | Return (id : NodeId) (expr : Node) (proc : NodeId)
  | Block (id : NodeId) (decl stmts : List Node)
  | Prim (id : NodeId)
  | Tdef (id : NodeId)
  | Ptr (id : NodeId) (type : Node)
  | Adcl (id : NodeId) (type dim : Node)
  | Fdcl (id : NodeId) (args : List Node) (returns : Node)
  | Sdcl (id : NodeId) (fields attributes : List Node)
  | Udcl (id : NodeId) (fields attributes : List Node)
  | Edcl (id : NodeId) (fields attributes : List Node)
  | Asm (id : NodeId) (template : Node) (output input clobbered : List Node)
  | AsmArg (id : NodeId) (constraint expr : Node)
  | BuiltinVaArg (id : NodeId) (expr type : Node)
  | Spawn (id : NodeId) (receiver name : Node) (args : List Node)
  | Sync (id : NodeId)
  | InletCall (id : NodeId) (name : Node) (args : List Node)
  | Abort (id : NodeId)
  | Synched (id : NodeId)
  | XBlock (id : NodeId) (decl stmts : List Node)
  | Decl (id : NodeId) (type init bitsize : Node)
  | Attrib (id : NodeId) (arglist : List Node)
  | Proc (id : NodeId) (decl body : Node)
  | Text (id : NodeId)

namespace Node

mutual

/-- `WalkTree` in `Preorder`: the nodes it comes to. The links to the fields
of a structure, union or enumeration are child links only where the type is
elaborated, and empty elsewhere. -/
def walkTree : Node → List Node
  | null => []
  | n@(Id _) | n@(Label _) | n@(Default _ _) | n@(Goto _ _) | n@(Continue _ _) | n@(Break _ _)
  | n@(Prim _) | n@(Tdef _) | n@(Sync _) | n@(Abort _) | n@(Synched _) | n@(Text _) => [n]
  | n@(Const _ a) | n@(Unary _ _ a) | n@(ImplicitCast _ a) | n@(Case _ a _) | n@(Return _ a _)
  | n@(Ptr _ a) => n :: a.walkTree
  | n@(Binop _ _ a b) | n@(Cast _ a b) | n@(Constructor _ a b) | n@(Switch _ a b _)
  | n@(If _ a b) | n@(While _ a b) | n@(Do _ a b) | n@(Adcl _ a b) | n@(AsmArg _ a b)
  | n@(BuiltinVaArg _ a b) | n@(Proc _ a b) => n :: (a.walkTree ++ b.walkTree)
  | n@(Ternary _ a b c) | n@(IfElse _ a b c) | n@(Decl _ a b c) =>
    n :: (a.walkTree ++ (b.walkTree ++ c.walkTree))
  | n@(For _ a b c d) => n :: (a.walkTree ++ (b.walkTree ++ (c.walkTree ++ d.walkTree)))
  | n@(Comma _ as) | n@(Initializer _ as) | n@(Attrib _ as) => n :: walkList as
  | n@(Array _ a bs) | n@(Call _ a bs) | n@(InletCall _ a bs) => n :: (a.walkTree ++ walkList bs)
  | n@(Fdcl _ as b) => n :: (walkList as ++ b.walkTree)
  | n@(Block _ as bs) | n@(XBlock _ as bs) | n@(Sdcl _ as bs) | n@(Udcl _ as bs)
  | n@(Edcl _ as bs) => n :: (walkList as ++ walkList bs)
  | n@(Spawn _ a b cs) => n :: (a.walkTree ++ (b.walkTree ++ walkList cs))
  | n@(Asm _ a bs cs ds) => n :: (a.walkTree ++ (walkList bs ++ (walkList cs ++ walkList ds)))

/-- `LISTWALK`. -/
def walkList : List Node → List Node
  | [] => []
  | n :: ns => n.walkTree ++ walkList ns

end

/-- The address of a node. -/
def id : Node → NodeId
  | null => 0
  | Const n _ | Id n | Binop n _ _ _ | Unary n _ _ | Cast n _ _ | Comma n _ | Constructor n _ _
  | Ternary n _ _ _ | Array n _ _ | Call n _ _ | Initializer n _ | ImplicitCast n _ | Label n
  | Switch n _ _ _ | Case n _ _ | Default n _ | If n _ _ | IfElse n _ _ _ | While n _ _
  | Do n _ _ | For n _ _ _ _ | Goto n _ | Continue n _ | Break n _ | Return n _ _ | Block n _ _
  | Prim n | Tdef n | Ptr n _ | Adcl n _ _ | Fdcl n _ _ | Sdcl n _ _ | Udcl n _ _ | Edcl n _ _
  | Asm n _ _ _ _ | AsmArg n _ _ | BuiltinVaArg n _ _ | Spawn n _ _ _ | Sync n | InletCall n _ _
  | Abort n | Synched n | XBlock n _ _ | Decl n _ _ _ | Attrib n _ | Proc n _ _ | Text n => n

/-- `node == NULL` -/
def isNull : Node → Bool
  | null => true
  | _ => false

end Node

end Cilk.Ast
