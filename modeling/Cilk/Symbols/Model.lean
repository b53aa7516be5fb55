import Cilk.Arithmetic
import Cilk.ScopeStack
import Mathlib.Logic.Function.Basic

/-!
# Symbol tables

The symbol tables of `symbol.c`. A table is hashed, and the symbols of one name
stand under one link of a hash chain, each shadowing the next one. No symbol is
taken out when its scope is closed. The scopes of a level are numbered instead,
by versions, and a symbol is *stale* when its scope is not the one that is open
at its level; stale symbols are removed when their name is looked up or inserted
the next time.

What the procedures of a table do that are called on a conflict, when a symbol
is shadowed and when a scope is closed is not part of the model, only with what
they are called. The memory that symbols are allocated in, and the trace of
`TrackInsertSymbol`, are left out.
-/

namespace Cilk.Symbols

/-- `short`. -/
def short : IntType := ⟨15, true⟩

def MAX_SCOPE_DEPTH : ℕ := 100

def TABLE_SIZE : ℕ := 16

/-- A unique string, by its address. -/
abbrev Name := ℕ

def hash (name : Name) : ℕ := (name >>> 2) % TABLE_SIZE

/-- `Scope`: a level, and which of its scopes. -/
structure ScopeId where
  level : ℕ
  version : ℤ
  deriving DecidableEq

/-- A symbol; `next` and `shadow` are the lists it is in. -/
structure Symbol (α : Type) where
  name : Name
  var : α
  scope : ScopeId
  deriving DecidableEq

/-- A link of a hash chain: a symbol, and those it shadows. -/
abbrev Shadowed (α : Type) := List (Symbol α)

inductive TableType
  | Nested | Flat
  deriving DecidableEq

/-- What a table is made with: `NewSymbolTable`. -/
structure TableKind where
  kind : TableType
  /-- Whether there is a procedure for shadowed symbols. -/
  shadow : Bool
  /-- Whether there is one for the symbols of closed scopes. -/
  exitscope : Bool

structure SymbolTable (α : Type) where
  /-- The hash chains. -/
  table : ℕ → List (Shadowed α)
  /-- For each level what was inserted, the last one first. -/
  scopes : ℕ → List α

variable {ι α : Type}

/-- The tables and the two global variables. -/
structure State (ι α : Type) where
  Level : ℕ
  current_version : ℕ → ℤ
  tables : ι → SymbolTable α

/-- What a caller sees, and which procedures are called. -/
inductive Event (ι α : Type)
  /-- The result of `LookupSymbol`. -/
  | found (var : Option α)
  /-- The result of `InsertSymbol`. -/
  | inserted (var : α)
  | conflict (orig create : α)
  | shadow (create shadowed : α)
  | exitscope (table : ι) (dead : α)
  /-- The error for a brace too many. -/
  | missingBrace
  deriving DecidableEq

/-- What the parser calls. -/
inductive Op (ι α : Type)
  | EnterScope
  | ExitScope
  /-- With or without a procedure for conflicts. -/
  | InsertSymbol (table : ι) (name : Name) (var : α) (conflict : Bool)
  | LookupSymbol (table : ι) (name : Name)
  | MoveToOuterScope (table : ι) (name : Name)

/-! ## Hash chains -/

/-- `stale` -/
def State.stale (s : State ι α) (scope : ScopeId) : Bool :=
  scope.level > s.Level || s.current_version scope.level > scope.version

/-- Whether `chain->name == name`. -/
def named (name : Name) (chain : Shadowed α) : Bool := (chain.head?.map Symbol.name) = some name

/-- What becomes of a new symbol. -/
inductive Outcome (α : Type)
  | first
  | conflict (orig : α)
  | shadow (shadowed : α)
  /-- An assertion fails. -/
  | failed

section

variable (stale : Symbol α → Bool)

/-- The loop of `InsertSymbol`, if the name is found. -/
def insertChain (sym : Symbol α) : List (Shadowed α) → Option (Outcome α × List (Shadowed α))
  | [] => none
  | chain :: next =>
    if named sym.name chain then
      match chain.dropWhile stale with
      | [] => some (.first, [sym] :: next)
      | top :: shadow =>
        if top.scope.level = sym.scope.level then
          some (.conflict top.var, (top :: shadow) :: next)
        else if top.scope.level < sym.scope.level then
          some (.shadow top.var, (sym :: top :: shadow) :: next)
        else some (.failed, chain :: next)
    else (insertChain sym next).map fun (outcome, next) => (outcome, chain :: next)

/-- The loop of `LookupSymbol`. -/
def lookupChain (name : Name) : List (Shadowed α) → Option α × List (Shadowed α)
  | [] => (none, [])
  | chain :: next =>
    if named name chain then
      match chain.dropWhile stale with
      | [] => (none, next)
      | top :: shadow => (some top.var, (top :: shadow) :: next)
    else
      let (found, next) := lookupChain name next
      (found, chain :: next)

end

/-- The loop of `MoveToOuterScope`; the symbol has to be of the scope `inner`. -/
def moveChain (name : Name) (inner outer : ScopeId) :
    List (Shadowed α) → Option (List (Shadowed α))
  | [] => none
  | chain :: next =>
    if named name chain then
      match chain with
      | [] => none
      | top :: shadow =>
        if top.scope = inner then some (({ top with scope := outer } :: shadow) :: next) else none
    else (moveChain name inner outer next).map (chain :: ·)

/-! ## Operations -/

variable [DecidableEq ι] (kinds : ι → TableKind) (table_list : List ι)

namespace State

variable (s : State ι α)

def setTable (i : ι) (t : SymbolTable α) : State ι α :=
  { s with tables := Function.update s.tables i t }

/-- `EnterScope`; it aborts when it runs out of levels. -/
def EnterScope : Option (State ι α) :=
  if s.Level + 1 = MAX_SCOPE_DEPTH then none
  else some { s with
    Level := s.Level + 1
    current_version := Function.update s.current_version (s.Level + 1)
      (short.convert (s.current_version (s.Level + 1) + 1)) }

/-- `ExitScope` -/
def ExitScope : State ι α × List (Event ι α) :=
  if s.Level = 0 then (s, [.missingBrace])
  else
    ({ s with
        Level := s.Level - 1
        tables := fun i =>
          let table := s.tables i
          if i ∈ table_list ∧ (kinds i).exitscope then
            { table with scopes := Function.update table.scopes s.Level [] }
          else table },
      table_list.flatMap fun i =>
        if (kinds i).exitscope then ((s.tables i).scopes s.Level).map (.exitscope i) else [])

/-- `InsertSymbol`; it fails on a conflict that there is no procedure for. -/
def InsertSymbol (i : ι) (name : Name) (var : α) (conflict : Bool) :
    Option (State ι α × List (Event ι α)) :=
  let table := s.tables i
  let level := if (kinds i).kind = .Nested then s.Level else 0
  let version := if (kinds i).kind = .Nested then s.current_version s.Level else 0
  let sym : Symbol α := ⟨name, var, ⟨level, version⟩⟩
  let scopes :=
    if (kinds i).exitscope then
      Function.update table.scopes level (var :: table.scopes level)
    else table.scopes
  let bucket := hash name
  let set chain : State ι α := s.setTable i ⟨Function.update table.table bucket chain, scopes⟩
  match insertChain (fun sym => s.stale sym.scope) sym (table.table bucket) with
  | none => some (set ([sym] :: table.table bucket), [.inserted var])
  | some (.first, chain) => some (set chain, [.inserted var])
  | some (.conflict orig, chain) =>
    if conflict then some (set chain, [.conflict orig var, .inserted orig]) else none
  | some (.shadow shadowed, chain) =>
    some (set chain,
      if (kinds i).shadow then [.shadow var shadowed, .inserted var] else [.inserted var])
  | some (.failed, _) => none

/-- `LookupSymbol` -/
def LookupSymbol (i : ι) (name : Name) : State ι α × List (Event ι α) :=
  let table := s.tables i
  let (found, chain) :=
    lookupChain (fun sym => s.stale sym.scope) name (table.table (hash name))
  (s.setTable i { table with table := Function.update table.table (hash name) chain },
    [.found found])

/-- `MoveToOuterScope`; its assertions are that there is a scope around and that
the symbol that is found is of the scope that is open. -/
def MoveToOuterScope (i : ι) (name : Name) : Option (State ι α) :=
  let table := s.tables i
  if s.Level = 0 then none
  else
    (moveChain name ⟨s.Level, s.current_version s.Level⟩
      ⟨s.Level - 1, s.current_version (s.Level - 1)⟩ (table.table (hash name))).map fun chain =>
        s.setTable i { table with table := Function.update table.table (hash name) chain }

/-- One call. -/
def step (op : Op ι α) : Option (State ι α × List (Event ι α)) :=
  match op with
  | .EnterScope => s.EnterScope.map fun s => (s, [])
  | .ExitScope => some (s.ExitScope kinds table_list)
  | .InsertSymbol i name var conflict => s.InsertSymbol kinds i name var conflict
  | .LookupSymbol i name => some (s.LookupSymbol i name)
  | .MoveToOuterScope i name => (s.MoveToOuterScope i name).map fun s => (s, [])

/-- A sequence of calls, with all that they report. -/
def run : List (Op ι α) → State ι α → Option (State ι α × List (Event ι α))
  | [], s => some (s, [])
  | op :: ops, s => do
    let (s, events) ← s.step kinds table_list op
    let (s, more) ← run ops s
    pure (s, events ++ more)

/-- Before the first call. -/
def init : State ι α := ⟨0, fun _ => 0, fun _ => ⟨fun _ => [], fun _ => []⟩⟩

end State

end Cilk.Symbols
