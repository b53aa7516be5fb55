import Cilk.Symbols.Model
import Mathlib.Data.List.Nodup
import Mathlib.Logic.Function.Basic

/-!
# Containers

`container.c`, which links each jump and each label of a switch to the loop or
switch it belongs to while the parser reduces productions bottom-up, and the
calls `ANSI-C.y` makes of it.

A `Phrase` is what the container stack gets to see of a piece of the source, with
the nesting that it has in C. Blocks, declarations and the operands of an
expression with its statement expressions are put one after the other.

The grammar does not nest all of it in the same way. A label is a statement of its
own, which ends at its colon; the statement that it labels is the next one, behind
the loop or switch whose body the label is taken for. A `Reading` has the nesting
of the productions.
-/

namespace Cilk.Containers

open Symbols (MAX_SCOPE_DEPTH)

/-- The address of a node. -/
abbrev NodeId := ℕ

/-- `typ` of a node that can be a container. -/
inductive ContainerType
  | Switch | While | Do | For
  deriving DecidableEq, Repr

/-- `typ` of a node that can be in a container. -/
inductive ContaineeType
  | Break | Continue | Case | Default
  deriving DecidableEq, Repr

structure Containee where
  typ : ContaineeType
  node : NodeId
  deriving DecidableEq, Repr

/-- A label of a switch, which goes to the list `cases`. -/
def ContaineeType.isLabel : ContaineeType → Bool
  | Case | Default => true
  | Break | Continue => false

def Containee.isLabel (c : Containee) : Bool := c.typ.isLabel

/-- Some containers, the innermost first. -/
abbrev Nest := List (ContainerType × NodeId)

/-- A piece of the source. `header` is what stands between the parentheses of a
loop or switch. What is between brackets, like a block or a statement expression,
is a `seq` of its statements, down to `nothing`. -/
inductive Phrase
  | nothing
  | seq (first second : Phrase)
  /-- A jump. -/
  | containee (c : Containee)
  /-- A statement behind a label, which is a containee if it is one of a switch,
  and has an expression then. -/
  | labeled (value : Phrase) (label : Option Containee) (statement : Phrase)
  | ifThen (condition statement : Phrase)
  | ifElse (condition statement otherwise : Phrase)
  | container (typ : ContainerType) (n : NodeId) (header body : Phrase)
  /-- The body of a procedure or inlet. -/
  | procedure (body : Phrase)
  /-- A loop or switch that a syntax error ends: the parser drops what it has
  of it, and goes on behind the error. -/
  | unfinished (typ : ContainerType) (parts : Phrase)
  deriving DecidableEq, Repr

/-- A piece of the source, by the productions that reach the container stack. With
each jump or label stand the containers that enclose it in the source, within its
procedure or inlet. -/
inductive Reading
  | nothing
  | seq (first second : Reading)
  | containee (c : Containee) (enclosing : Nest)
  | container (typ : ContainerType) (n : NodeId) (header body : Reading)
  | unfinished (typ : ContainerType) (parts : Reading)
  deriving DecidableEq, Repr

namespace Phrase

mutual

/-- **What the grammar takes for a statement**, where the source has this one. -/
def first : Phrase → Nest → Reading
  | nothing, _ => .nothing
  | seq a b, enclosing =>
    .seq (.seq (a.first enclosing) (a.behind enclosing))
      (.seq (b.first enclosing) (b.behind enclosing))
  | containee c, enclosing => .containee c enclosing
  | labeled value none _, enclosing => .seq (value.first enclosing) (value.behind enclosing)
  | labeled value (some c) _, enclosing =>
    .seq (.seq (value.first enclosing) (value.behind enclosing)) (.containee c enclosing)
  | ifThen condition statement, enclosing =>
    .seq (.seq (condition.first enclosing) (condition.behind enclosing))
      (statement.first enclosing)
  | ifElse condition statement otherwise, enclosing =>
    .seq (.seq (condition.first enclosing) (condition.behind enclosing))
      (.seq (.seq (statement.first enclosing) (statement.behind enclosing))
        (otherwise.first enclosing))
  | container .Do n header body, enclosing =>
    .container .Do n (.seq (header.first enclosing) (header.behind enclosing))
      (.seq (body.first ((.Do, n) :: enclosing)) (body.behind ((.Do, n) :: enclosing)))
  | container typ n header body, enclosing =>
    .container typ n (.seq (header.first enclosing) (header.behind enclosing))
      (body.first ((typ, n) :: enclosing))
  | procedure body, _ => .seq (body.first []) (body.behind [])
  | unfinished typ parts, enclosing =>
    .unfinished typ (.seq (parts.first enclosing) (parts.behind enclosing))

/-- What it takes for the statements after that one: those behind a label. -/
def behind : Phrase → Nest → Reading
  | nothing, _ | seq _ _, _ | containee _, _ | procedure _, _ | unfinished _ _, _ => .nothing
  | labeled _ _ statement, enclosing =>
    .seq (statement.first enclosing) (statement.behind enclosing)
  | ifThen _ statement, enclosing | ifElse _ _ statement, enclosing => statement.behind enclosing
  | container .Do _ _ _, _ => .nothing
  | container typ n _ body, enclosing => body.behind ((typ, n) :: enclosing)

end

/-- All that the grammar makes of a phrase. -/
def reading (p : Phrase) (enclosing : Nest) : Reading :=
  .seq (p.first enclosing) (p.behind enclosing)

/-- Nothing is left behind the statement that the grammar takes this one for. -/
def Closed : Phrase → Prop
  | nothing | seq _ _ | containee _ | procedure _ | unfinished _ _ => True
  | labeled _ _ _ => False
  | ifThen _ statement | ifElse _ _ statement => statement.Closed
  | container .Do _ _ _ => True
  | container _ _ _ body => body.Closed

/-- **The grammar has productions for it**: the body of a `do`, and the statement
before an `else`, are no labels, behind which another token is wanted than the
statement that they label. -/
def Grammatical : Phrase → Prop
  | nothing | containee _ => True
  | seq a b => a.Grammatical ∧ b.Grammatical
  | labeled value _ statement => value.Grammatical ∧ statement.Grammatical
  | ifThen condition statement => condition.Grammatical ∧ statement.Grammatical
  | ifElse condition statement otherwise =>
    condition.Grammatical ∧ (statement.Closed ∧ statement.Grammatical) ∧ otherwise.Grammatical
  | container .Do _ header body => header.Grammatical ∧ body.Closed ∧ body.Grammatical
  | container _ _ header body => header.Grammatical ∧ body.Grammatical
  | procedure body => body.Grammatical
  | unfinished _ parts => parts.Grammatical

end Phrase

/-! ## The stack -/

/-- `Container`. The null pointer is the empty list. -/
structure Container where
  typ : ContainerType
  cases : List Containee
  exits : List Containee
  deriving DecidableEq, Repr

/-- The container stack, its top first, with the fields of the nodes that it
sets and the syntax errors with the nodes they are reported for. -/
structure State where
  stack : List Container
  container : NodeId → Option NodeId
  cases : NodeId → List NodeId
  has_default : NodeId → Bool
  errors : List (NodeId × String)

/-- `stack` is an array of `MAX_SCOPE_DEPTH` containers, and nothing keeps
`top` within it. -/
def PushContainer (typ : ContainerType) (σ : State) : Option State :=
  if σ.stack.length = MAX_SCOPE_DEPTH then none
  else some { σ with stack := ⟨typ, [], []⟩ :: σ.stack }

/-- One of the exits, of a container of this type at `n`. -/
def setExit (typ : ContainerType) (n : NodeId) (σ : State) (c : Containee) : Option State :=
  match c.typ with
  | .Break => some { σ with container := Function.update σ.container c.node (some n) }
  | .Continue =>
    if typ = .Switch then none
    else some { σ with container := Function.update σ.container c.node (some n) }
  | .Case | .Default => none

/-- One of the cases, of a container of this type at `n`. -/
def setCase (typ : ContainerType) (n : NodeId) (σ : State) (c : Containee) : Option State :=
  if typ ≠ .Switch then none
  else match c.typ with
    | .Case => some { σ with container := Function.update σ.container c.node (some n) }
    | .Default => some { σ with
        container := Function.update σ.container c.node (some n)
        has_default := Function.update σ.has_default n true }
    | .Break | .Continue => none

/-- `PopContainer`, of a node of this type. A failed assertion is `none`. -/
def PopContainer (typ : ContainerType) (n : NodeId) (σ : State) : Option State :=
  match σ.stack with
  | [] => none
  | top :: rest =>
    if typ ≠ top.typ then none
    else do
      let σ ← top.exits.foldlM (setExit typ n) σ
      let σ ← top.cases.foldlM (setCase typ n) σ
      let cases :=
        if typ = .Switch then Function.update σ.cases n (top.cases.map Containee.node)
        else σ.cases
      return { σ with cases := cases, stack := rest }

/-- The first container that satisfies `p` is changed. -/
def changeFirst (p : Container → Bool) (f : Container → Container) :
    List Container → Option (List Container)
  | [] => none
  | c :: cs => if p c then some (f c :: cs) else (changeFirst p f cs).map (c :: ·)

def addCase (c : Containee) (k : Container) : Container := { k with cases := k.cases ++ [c] }

def addExit (c : Containee) (k : Container) : Container := { k with exits := k.exits ++ [c] }

/-- The container that `AddContainee` puts a containee into. -/
def place (c : Containee) (stack : List Container) : Option (List Container) :=
  match c.typ with
  | .Case | .Default => changeFirst (fun k => k.typ = .Switch) (addCase c) stack
  | .Break => changeFirst (fun _ => true) (addExit c) stack
  | .Continue => changeFirst (fun k => k.typ ≠ .Switch) (addExit c) stack

def noContainer : ContaineeType → String
  | .Case | .Default => "no enclosing switch statement"
  | .Break => "no enclosing loop or switch statement found"
  | .Continue => "no enclosing loop"

def AddContainee (c : Containee) (σ : State) : State :=
  match place c σ.stack with
  | some stack => { σ with stack := stack }
  | none => { σ with errors := σ.errors ++ [(c.node, noContainer c.typ)] }

/-! ## The parser -/

/-- The node is made. Only a switch has fields of this module, which
`MakeSwitch` clears. -/
def makeNode (typ : ContainerType) (n : NodeId) (σ : State) : State :=
  if typ = .Switch then { σ with
    cases := Function.update σ.cases n []
    has_default := Function.update σ.has_default n false }
  else σ

/-- What is parsed between the two calls for a container. -/
def enclose (typ : ContainerType) (n : NodeId) (parts : State → Option State) (σ : State) :
    Option State := do
  let σ ← PushContainer typ σ
  let σ ← parts σ
  PopContainer typ n (makeNode typ n σ)

/-- **The actions of the parser**, in the order in which it takes them. A
`while` and a `switch` have their container before their header is read, a
`for` has it behind. -/
def parse : Reading → State → Option State
  | .nothing, σ => some σ
  | .seq a b, σ => (parse a σ).bind (parse b)
  | .containee c _, σ => some (AddContainee c σ)
  | .container .While n header body, σ =>
    enclose .While n (fun σ => (parse header σ).bind (parse body)) σ
  | .container .Switch n header body, σ =>
    enclose .Switch n (fun σ => (parse header σ).bind (parse body)) σ
  | .container .Do n header body, σ =>
    enclose .Do n (fun σ => (parse body σ).bind (parse header)) σ
  | .container .For n header body, σ => (parse header σ).bind (enclose .For n (parse body))
  | .unfinished typ parts, σ => (PushContainer typ σ).bind (parse parts)

/-- `translation.unit`: one definition after the other. -/
def parseAll : List Phrase → State → Option State
  | [], σ => some σ
  | d :: ds, σ => (parse (d.reading []) σ).bind (parseAll ds)

/-- Before the first token: the stack is empty and no field is set. -/
def State.initial : State where
  stack := []
  container _ := none
  cases _ := []
  has_default _ := false
  errors := []

/-! ## Source files -/

/-- The nodes of a phrase, in the order in which they are parsed. -/
def Phrase.nodes : Phrase → List NodeId
  | nothing => []
  | seq a b => a.nodes ++ b.nodes
  | containee c => [c.node]
  | labeled value label statement =>
    value.nodes ++ (label.toList.map Containee.node ++ statement.nodes)
  | ifThen condition statement => condition.nodes ++ statement.nodes
  | ifElse condition statement otherwise =>
    condition.nodes ++ (statement.nodes ++ otherwise.nodes)
  | container .Do n header body => n :: (body.nodes ++ header.nodes)
  | container _ n header body => n :: (header.nodes ++ body.nodes)
  | procedure body => body.nodes
  | unfinished _ parts => parts.nodes

/-- A source file: its external definitions, in which every node is a node of
its own. -/
structure SourceFile where
  definitions : List Phrase
  grammatical : ∀ d ∈ definitions, d.Grammatical
  nodup : (definitions.flatMap Phrase.nodes).Nodup

end Cilk.Containers
