import Cilk.Symbols.Model

/-!
# What symbol tables are for

A symbol table is a stack of scopes. A flat one has a single scope, which is
never closed. The calls of the parser on such tables are those of the code, and
they report the same events. A call that the parser may not make has no result:
to close a scope where none is open, to insert a name that the scope has already
where there is no procedure for that, to move what the scope does not bind.

Every symbol that is inserted becomes a member of its scope, also one that the
procedure for conflicts merges with the symbol that is there.
-/

namespace Cilk.Symbols

open ScopeStack

variable {ι α : Type} [DecidableEq ι] [DecidableEq α]

/-- **Symbol tables as stacks of scopes.** -/
structure Scopes (ι α : Type) where
  /-- How many scopes are open. -/
  depth : ℕ
  /-- The scopes of each table, the innermost one first. -/
  stack : ι → List (Scope Name α)

variable (kinds : ι → TableKind) (table_list : List ι)

namespace Scopes

def set (p : Scopes ι α) (i : ι) (stack : List (Scope Name α)) : Scopes ι α :=
  { p with stack := Function.update p.stack i stack }

/-- Which procedures are called when a scope is closed. -/
def closed (p : Scopes ι α) (i : ι) : List (Event ι α) :=
  if (kinds i).exitscope ∧ (kinds i).kind = .Nested then
    (membersAt (p.stack i) p.depth).map (.exitscope i)
  else []

/-- One call. -/
def step (p : Scopes ι α) (op : Op ι α) : Option (Scopes ι α × List (Event ι α)) :=
  match op with
  | .EnterScope =>
    some (⟨p.depth + 1, fun i =>
      if (kinds i).kind = .Nested then fresh :: p.stack i else p.stack i⟩, [])
  | .ExitScope =>
    if p.depth = 0 then none
    else some (⟨p.depth - 1, fun i =>
      if (kinds i).kind = .Nested then (p.stack i).tail else p.stack i⟩,
      table_list.flatMap fun i => p.closed kinds i)
  | .InsertSymbol i name var conflict =>
    match innermost name (p.stack i) with
    | some orig =>
      if conflict then some (p.set i (enroll var (p.stack i)), [.conflict orig var, .inserted orig])
      else none
    | none =>
      some (p.set i (enroll var (bind name var (p.stack i))),
        match lookup name (p.stack i) with
        | some shadowed =>
          if (kinds i).shadow then [.shadow var shadowed, .inserted var] else [.inserted var]
        | none => [.inserted var])
  | .LookupSymbol i name => some (p, [.found (lookup name (p.stack i))])
  | .MoveToOuterScope i name => (moveOut name (p.stack i)).map fun stack => (p.set i stack, [])

/-- A sequence of calls. -/
def run : List (Op ι α) → Scopes ι α → Option (Scopes ι α × List (Event ι α))
  | [], p => some (p, [])
  | op :: ops, p => do
    let (p, events) ← p.step kinds table_list op
    let (p, more) ← run ops p
    pure (p, events ++ more)

/-- Before the first call. -/
def init : Scopes ι α := ⟨0, fun _ => [fresh]⟩

end Scopes

end Cilk.Symbols
