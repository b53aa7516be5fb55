import Cilk.ConstFold.Meaning
import Cilk.LinearProbing

/-!
# Case labels

`SemCheckSwitch`, `SemCheckCase` and `SemCheckDefault` of `sem-check.c`, with
the table that a switch keeps of the labels that were checked.

A statement is as `container.c` leaves it: a label is linked to its switch, and
a switch has the list of its labels. Of the other statements, and of the
expressions that hold statements, only what they hold is kept, in the order in
which it is checked. The expression of a `Case` is as the parser builds it; what
is reported of the expression itself is left out.
-/

namespace Cilk.CaseLabels

open ConstFold LinearProbing

variable {F : Floats} {E : Type}

/-- The address of a node. -/
abbrev NodeId := ℕ

/-- `nodeStruct`, of a statement; `E` are the expressions of its labels, before
their check or after it. -/
inductive Stmt (E : Type)
  | Case (id : NodeId) (expr : E) (container : NodeId)
  | Default (id : NodeId) (container : NodeId)
  | Switch (id : NodeId) (expr : TypeNode) (cases : List NodeId) (stmt : Stmt E)
  | compound (stmts : List (Stmt E))
  | other

/-- What is reported, and at which node. -/
inductive Error
  /-- "controlling expression must have integral type" -/
  | notIntegral (switch : NodeId)
  /-- "case expression must be integer constant" -/
  | notConstant (case : NodeId)
  /-- "duplicate case label" -/
  | duplicate (case : NodeId)
  /-- "multiple default cases" -/
  | multipleDefault (default : NodeId)
  deriving DecidableEq

/-- `struct SwitchCheck`: the size of the table is its length. -/
structure SwitchCheck (F : Floats) where
  defaultcase : Option NodeId
  table : List (Option (Node F))

def HASH_FACTOR : ℕ := 2

/-- `sizeof(struct SwitchCheck)`, with one entry in its table. -/
def sizeofSwitchCheck : ℤ := 24

/-- `sizeof(Node *)` -/
def sizeofNodePointer : ℤ := 8

/-- The bytes of a table, which `HeapAllocate` is told as an `unsigned int`. -/
def tableBytes (tablesize : ℕ) : ℤ := sizeofSwitchCheck + sizeofNodePointer * (tablesize - 1)

/-- `NewSwitchCheck`. The number of entries is computed as an `int`. There is no
result where it leaves that type, nor where `HeapAllocate` is told fewer bytes
than there are: the entries are written beyond them. -/
def NewSwitchCheck (cases : List NodeId) : Option (SwitchCheck F) :=
  let tablesize := cases.length * HASH_FACTOR
  if (tablesize : ℤ) ≤ Kind.Sint.intType.max ∧ tableBytes tablesize ≤ Kind.Uint.intType.max then
    some ⟨none, List.replicate tablesize none⟩
  else none

/-- `NodeConstantIntegralValue`, of a case expression. -/
def key (expr : Node F) : Option ℤ := expr.constantIntegralValue.value

/-- `SwitchCheckAddCase`. There is no result where the value is no integer, the
size of the table is zero, or the search does not end inside the table. -/
def SwitchCheckAddCase (check : SwitchCheck F) (id : NodeId) (expr : Node F) :
    Option (SwitchCheck F × List Error) := do
  let val ← key expr
  if check.table.length = 0 then none
  else
    match ← probe check.table (fun e => key e = some val) check.table.length
        (val.toNat % check.table.length) with
    | .entry _ => pure (check, [.duplicate id])
    | .empty h => pure ({ check with table := check.table.set h (some expr) }, [])

def SwitchCheckAddDefault (check : SwitchCheck F) (node : NodeId) : SwitchCheck F × List Error :=
  match check.defaultcase with
  | some _ => (check, [.multipleDefault node])
  | none => ({ check with defaultcase := some node }, [])

/-- `IsIntegralConstant` -/
def IsIntegralConstant (expr : Node F) : Bool :=
  expr.isConstant && expr.type.isIntegralType

/-- The links `u.Switch.check`, by the address of the switch. -/
abbrev Checks (F : Floats) := NodeId → Option (SwitchCheck F)

/-- The check of a case expression, up to `UsualUnaryConversions`. -/
def semCheckCaseExpr (ANSIOnly : Bool) (expr : Expr) : Sem (Node F) := do
  let expr ← semCheckNode ANSIOnly expr
  usualUnaryConversions expr false

mutual

/-- `SemCheckNode`, of a statement. -/
def SemCheckNode (ANSIOnly : Bool) : Stmt Expr → Checks F → Option (Checks F × List Error)
  | .Case id expr container, checks => do
    let expr ← (semCheckCaseExpr ANSIOnly expr).value
    if IsIntegralConstant expr then do
      let check ← checks container
      let (check, errors) ← SwitchCheckAddCase check id expr
      pure (Function.update checks container (some check), errors)
    else pure (checks, [.notConstant id])
  | .Default id container, checks => do
    let check ← checks container
    let (check, errors) := SwitchCheckAddDefault check id
    pure (Function.update checks container (some check), errors)
  | .Switch id expr cases stmt, checks => do
    let check ← NewSwitchCheck cases
    let (checks, errors) ← SemCheckNode ANSIOnly stmt (Function.update checks id (some check))
    pure (Function.update checks id none,
      (if expr.isIntegralType then [] else [.notIntegral id]) ++ errors)
  | .compound stmts, checks => SemCheckList ANSIOnly stmts checks
  | .other, checks => pure (checks, [])

/-- `SemCheckList` -/
def SemCheckList (ANSIOnly : Bool) : List (Stmt Expr) → Checks F → Option (Checks F × List Error)
  | [], checks => pure (checks, [])
  | stmt :: stmts, checks => do
    let (checks, errors) ← SemCheckNode ANSIOnly stmt checks
    let (checks, more) ← SemCheckList ANSIOnly stmts checks
    pure (checks, errors ++ more)

end

/-! ## The labels of a switch -/

/-- A label: its node, and the expression of a `Case`. -/
structure Label (E : Type) where
  id : NodeId
  expr : Option E

mutual

/-- The labels in a statement that are not in a switch inside it. -/
def labels : Stmt E → List (Label E)
  | .Case id expr _ => [⟨id, some expr⟩]
  | .Default id _ => [⟨id, none⟩]
  | .Switch _ _ _ _ => []
  | .compound stmts => labelsList stmts
  | .other => []

def labelsList : List (Stmt E) → List (Label E)
  | [] => []
  | stmt :: stmts => labels stmt ++ labelsList stmts

end

/-- A switch: its node, the type of the controlling expression, and the labels
whose innermost switch it is. -/
structure SwitchOf (E : Type) where
  id : NodeId
  expr : TypeNode
  labels : List (Label E)

mutual

/-- The switches in a statement. -/
def switches : Stmt E → List (SwitchOf E)
  | .Case _ _ _ => []
  | .Default _ _ => []
  | .Switch id expr _ stmt => ⟨id, expr, labels stmt⟩ :: switches stmt
  | .compound stmts => switchesList stmts
  | .other => []

def switchesList : List (Stmt E) → List (SwitchOf E)
  | [] => []
  | stmt :: stmts => switches stmt ++ switchesList stmts

end

mutual

/-- **The links are those to the innermost switch**, `inner` for a label that is
in none of the statement's own, and every switch has the list of its labels. -/
def Resolved (inner : Option NodeId) : Stmt E → Prop
  | .Case _ _ container => inner = some container
  | .Default _ container => inner = some container
  | .Switch id _ cases stmt => cases = (labels stmt).map Label.id ∧ Resolved (some id) stmt
  | .compound stmts => ResolvedList inner stmts
  | .other => True

def ResolvedList (inner : Option NodeId) : List (Stmt E) → Prop
  | [] => True
  | stmt :: stmts => Resolved inner stmt ∧ ResolvedList inner stmts

end

/-- The addresses of the labels and of the switches in a statement. -/
def addresses (s : Stmt E) : List NodeId :=
  (labels s).map Label.id ++ (switches s).flatMap fun w => w.id :: w.labels.map Label.id

end Cilk.CaseLabels
