import Mathlib.Data.List.Basic
import Mathlib.Logic.Function.Basic

/-!
# Labels and gotos

How the parser of `cilk2c` joins gotos with labels (`procedure.c`,
`symbol.c`). Nodes are made as the text is read. A goto to a label that has
not been defined yet makes a provisional `Label` node; the definition makes
another one, and `label_conflict` merges the two.

What matters of the text is the order of the labels, the gotos and the ends
of the procedures in it, so a source here is built from these by sequencing:
a block, a branch, a loop or an expression with statements in it is the
sequence of its parts. An inlet is a procedure within another one. The
expression of a `typeof`, of which the parser keeps the type alone, is left
out.

`Labels` is a flat table, so no entry of it is ever stale or shadowed, and
its buckets are an association list.
-/

namespace Cilk.Labels

/-- A node of the syntax tree. -/
abbrev NodeId := ℕ

/-- The union of `ast.h`, as far as labels go. -/
inductive Node
  /-- An `Id`, as it comes from the scanner. -/
  | id (text : String)
  /-- A `Label`: `name`, `references` and `declared`. -/
  | label (name : String) (references : List NodeId) (declared : Bool)
  /-- A `Goto`: `label`. -/
  | goto (label : NodeId)
  deriving DecidableEq

/-- What is reported about labels. -/
inductive Message
  | multipleDefinitions (name : String)
  | undefinedLabel (name : String)
  /-- A warning. -/
  | unreferencedLabel (name : String)
  deriving DecidableEq

def Message.text : Message → String
  | .multipleDefinitions name => "multiple definitions of label " ++ name
  | .undefinedLabel name => "undefined label " ++ name
  | .unreferencedLabel name => "unreferenced label " ++ name

/-- `SyntaxErrorCoord`, and not `WarningCoord`. -/
def Message.isError : Message → Bool
  | .multipleDefinitions _ | .undefinedLabel _ => true
  | .unreferencedLabel _ => false

/-- The text of a procedure. -/
inductive Source
  | skip
  /-- `name:` -/
  | label (name : String)
  /-- `goto name;` -/
  | goto (name : String)
  | seq (a b : Source)
  /-- A procedure in a declaration, an inlet. -/
  | procedure (body : Source)
  deriving DecidableEq

/-- A `Label` or `Goto` node in the statement tree of a procedure. -/
structure Occurrence where
  /-- The procedure, by the number of `DefineProc` before. -/
  proc : ℕ
  /-- The name in the text. -/
  name : String
  isLabel : Bool
  node : NodeId
  deriving DecidableEq

/-- The parser, as far as labels go. -/
structure State where
  /-- The nodes. -/
  node : NodeId → Node
  /-- The next node to be made. -/
  next : NodeId
  /-- The symbol table `Labels`. -/
  labels : List (String × NodeId)
  messages : List Message
  /-- How many procedures were begun. -/
  procs : ℕ
  /-- The statement trees. -/
  tree : List Occurrence

namespace State

def initial : State where
  node := fun _ => .id ""
  next := 0
  labels := []
  messages := []
  procs := 0
  tree := []

/-- `u.label.name`, for a node that is a label. -/
def newNode (s : State) (n : Node) : State × NodeId :=
  ({ s with node := Function.update s.node s.next n, next := s.next + 1 }, s.next)

def setNode (s : State) (i : NodeId) (n : Node) : State :=
  { s with node := Function.update s.node i n }

def report (s : State) (m : Message) : State := { s with messages := m :: s.messages }

/-- Put a node into the tree of procedure `proc`. -/
def occur (s : State) (o : Occurrence) : State := { s with tree := s.tree ++ [o] }

/-- `label_conflict` -/
def labelConflict (s : State) (orig create : NodeId) : State :=
  match s.node orig, s.node create with
  | .label name references declared, .label name' _ true =>
    if declared then s.report (.multipleDefinitions name)
    else
      -- the gotos so far are pointed at the definition
      let s := references.foldl (fun s item => s.setNode item (.goto create)) s
      (s.setNode orig (.label name references true)).setNode create (.label name' references true)
  | _, _ => s

/-- `InsertSymbol` on `Labels`, with `label_conflict`. -/
def insertSymbol (s : State) (name : String) (var : NodeId) : State × NodeId :=
  match s.labels.lookup name with
  | none => ({ s with labels := (name, var) :: s.labels }, var)
  | some orig => (s.labelConflict orig var, orig)

/-- `BuildLabel` -/
def buildLabel (s : State) (id : NodeId) (text : String) : State :=
  ((s.setNode id (.label text [] true)).insertSymbol text id).1

/-- `label->u.label.references = ConsItem(goto_node, ..)` -/
def addReference (s : State) (label gotoNode : NodeId) : State :=
  match s.node label with
  | .label name references declared =>
    s.setNode label (.label name (gotoNode :: references) declared)
  | _ => s

/-- `ResolveGoto` -/
def resolveGoto (s : State) (id : NodeId) (name : String) : State :=
  let r := match s.labels.lookup name with
    | some label => (s, label)
    | none =>
      let n := s.newNode (.label name [] false)
      n.1.insertSymbol name n.2
  (r.1.setNode id (.goto r.2)).addReference r.2 id

/-- `EndOfLabelScope` -/
def endOfLabelScope (s : State) (label : NodeId) : State :=
  match s.node label with
  | .label name references declared =>
    if !declared then s.report (.undefinedLabel name)
    else if references = [] then s.report (.unreferencedLabel name)
    else s
  | _ => s

/-- `ResetSymbolTable` -/
def resetSymbolTable (s : State) : State :=
  { s.labels.foldl (fun s entry => s.endOfLabelScope entry.2) s with labels := [] }

end State

/-- **The parser reads a text**, inside procedure `proc`. A procedure in it is
begun by `DefineProc` and ended by `SetProcBody`, which resets the table. -/
def parse : Source → ℕ → State → State
  | .skip, _, s => s
  | .label name, proc, s =>
    let n := s.newNode (.id name)
    (n.1.buildLabel n.2 name).occur ⟨proc, name, true, n.2⟩
  | .goto name, proc, s =>
    let n := s.newNode (.id name)
    (n.1.resolveGoto n.2 name).occur ⟨proc, name, false, n.2⟩
  | .seq a b, proc, s => parse b proc (parse a proc s)
  | .procedure body, _, s => (parse body s.procs { s with procs := s.procs + 1 }).resetSymbolTable

/-- The parser after a procedure with this body. -/
def parseProcedure (body : Source) : State := parse (.procedure body) 0 .initial

/-! ## What the text says -/

/-- A label or a goto in the text. -/
structure Mention where
  /-- The procedure it is in, in the order of their beginnings. -/
  proc : ℕ
  /-- How many procedures end before it. -/
  stretch : ℕ
  name : String
  isLabel : Bool
  deriving DecidableEq

/-- The numbers of procedures that begin and end in a text. -/
def Source.procedures : Source → ℕ
  | .skip | .label _ | .goto _ => 0
  | .seq a b => a.procedures + b.procedures
  | .procedure body => body.procedures + 1

/-- The labels and gotos of a text inside procedure `proc`, where `begun`
procedures were begun and `ended` were ended before. -/
def Source.mentions : Source → (proc begun ended : ℕ) → List Mention
  | .skip, _, _, _ => []
  | .label name, proc, _, ended => [⟨proc, ended, name, true⟩]
  | .goto name, proc, _, ended => [⟨proc, ended, name, false⟩]
  | .seq a b, proc, begun, ended =>
    a.mentions proc begun ended ++ b.mentions proc (begun + a.procedures) (ended + a.procedures)
  | .procedure body, _, begun, ended => body.mentions begun (begun + 1) ended

/-- The labels and gotos of a procedure and the procedures in it. -/
def mentions (body : Source) : List Mention := body.mentions 0 1 0

/-- **Each label is defined exactly once**, in the procedure that mentions
it. -/
def DefinedOnce (body : Source) : Prop :=
  ∀ m ∈ mentions body,
    ((mentions body).filter fun d => d.isLabel && d.proc == m.proc && d.name == m.name).length = 1

instance (body : Source) : Decidable (DefinedOnce body) :=
  inferInstanceAs (Decidable (∀ m ∈ mentions body, _))

/-- **Labels and gotos are joined**: no error is reported, a goto is joined
with the label of its name in the tree of its procedure, and the references
of a label are the gotos of its name there, each once. -/
structure Resolved (s : State) : Prop where
  noError : ∀ m ∈ s.messages, m.isError = false
  gotos : ∀ g ∈ s.tree, g.isLabel = false → ∃ l ∈ s.tree, l.isLabel = true ∧ l.proc = g.proc ∧
    l.name = g.name ∧ s.node g.node = .goto l.node
  references : ∀ l ∈ s.tree, l.isLabel = true → ∃ references,
    s.node l.node = .label l.name references true ∧ references.Nodup ∧
      ∀ i, i ∈ references ↔ ∃ g ∈ s.tree, g.isLabel = false ∧ g.proc = l.proc ∧ g.name = l.name ∧
        g.node = i

/-- What a text says of a name in a stretch. -/
def within (ms : List Mention) (stretch : ℕ) (name : String) : List Mention :=
  ms.filter fun m => m.stretch = stretch ∧ m.name = name

/-- A definition, and gotos in the same procedure that all come before it or
all come after it. -/
def OneSided (ms : List Mention) : Prop :=
  ∃ d gotos, (ms = gotos ++ [d] ∨ ms = d :: gotos) ∧ d.isLabel = true ∧
    ∀ g ∈ gotos, g.isLabel = false ∧ g.proc = d.proc

/-- **No label is used from both sides**, up to the end of a procedure: the
mentions of a name between two ends are one-sided. -/
def Clean (body : Source) : Prop :=
  ∀ stretch name, within (mentions body) stretch name = [] ∨
    OneSided (within (mentions body) stretch name)

end Cilk.Labels
