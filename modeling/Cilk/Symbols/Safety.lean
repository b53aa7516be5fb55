import Cilk.Symbols.Refinement

/-!
# Symbol tables behave as stacks of scopes

What the calls on the symbol tables report is what they report on stacks of
scopes, and the procedure for closed scopes is called once for every symbol that
was inserted, when the scope is closed. This holds of all runs that do not enter a
level more often than a version counts and that move symbols with care.
-/

namespace Cilk.Symbols

open ScopeStack

variable {ι α : Type} [DecidableEq ι]

/-- The symbols that are inserted in a table. -/
def inserted (i : ι) (ops : List (Op ι α)) : List α :=
  ops.filterMap fun op =>
    match op with
    | .InsertSymbol j _ var _ => if j = i then some var else none
    | _ => none

/-- The symbols of a table that the procedure for closed scopes is called for. -/
def exited (i : ι) (events : List (Event ι α)) : List α :=
  events.filterMap fun event =>
    match event with
    | .exitscope j dead => if j = i then some dead else none
    | _ => none

/-- The symbols of the scopes of a table that are open. -/
def Scopes.pending (p : Scopes ι α) (i : ι) : List α := (p.stack i).flatMap Scope.members

section

variable {kinds : ι → TableKind} {table_list : List ι} {s s' : State ι α} {p p' : Scopes ι α}
  {events : List (Event ι α)} {op : Op ι α} {i j : ι}

theorem exited_append (events more : List (Event ι α)) :
    exited i (events ++ more) = exited i events ++ exited i more :=
  List.filterMap_append

theorem exited_map (members : List α) :
    exited i (members.map (.exitscope j)) = if j = i then members else [] := by
  induction members with
  | nil => split_ifs <;> rfl
  | cons a members ih =>
    unfold exited at ih ⊢
    by_cases h : j = i
    · rw [if_pos h] at ih ⊢
      rw [List.map_cons, List.filterMap_cons]
      simp only [if_pos h, ih]
    · rw [if_neg h] at ih ⊢
      rw [List.map_cons, List.filterMap_cons]
      simp only [if_neg h, ih]

/-- One table alone is told of its symbols. -/
theorem exited_flatMap {closed : ι → List (Event ι α)} {members : List α}
    (hother : ∀ j, j ≠ i → exited i (closed j) = []) (hself : exited i (closed i) = members)
    (hnodup : table_list.Nodup) (hmem : i ∈ table_list) :
    exited i (table_list.flatMap closed) = members := by
  have hnone {l : List ι} (h : i ∉ l) : exited i (l.flatMap closed) = [] := by
    induction l with
    | nil => rfl
    | cons j l ih =>
      rw [List.mem_cons, not_or] at h
      rw [List.flatMap_cons, exited_append, hother j (Ne.symm h.1), ih h.2]
      rfl
  induction table_list with
  | nil => nomatch hmem
  | cons j l ih =>
    obtain ⟨hj, hl⟩ := List.nodup_cons.mp hnodup
    rw [List.flatMap_cons, exited_append]
    by_cases hij : j = i
    · subst hij
      rw [hself, hnone hj, List.append_nil]
    · rw [hother j hij, ih hl ((List.mem_cons.mp hmem).resolve_left (Ne.symm hij))]
      rfl

theorem pending_set (stack : List (Scope Name α)) :
    (p.set j stack).pending i = if i = j then stack.flatMap Scope.members else p.pending i := by
  unfold Scopes.pending Scopes.set
  dsimp only
  rw [Function.update_apply]
  split_ifs <;> rfl

/-- An insertion calls no procedure for closed scopes, and the symbol becomes a
member of the innermost scope, bound or not. -/
theorem insert_members [DecidableEq α] {name : Name} {var : α} {conflict : Bool}
    (hstep : p.step kinds table_list (.InsertSymbol j name var conflict) = some (p', events)) :
    exited i events = [] ∧ ∃ stack, p' = p.set j (enroll var stack) ∧
      stack.map Scope.members = (p.stack j).map Scope.members := by
  unfold Scopes.step at hstep
  dsimp only at hstep
  split at hstep
  · split_ifs at hstep
    obtain ⟨rfl, rfl⟩ := Prod.mk.inj (Option.some.inj hstep)
    exact ⟨rfl, p.stack j, rfl, rfl⟩
  · obtain ⟨rfl, rfl⟩ := Prod.mk.inj (Option.some.inj hstep)
    refine ⟨?_, bind name var (p.stack j), rfl, ?_⟩
    · split
      · split_ifs <;> rfl
      · rfl
    · cases p.stack j <;> rfl

/-- **One call**: a symbol of the table becomes one that is pending, and the ones
whose scope is closed are no longer. -/
theorem Refines.members_step [DecidableEq α] (h : Refines kinds s p) (hnodup : table_list.Nodup)
    (hmem : i ∈ table_list) (hcareful : Careful kinds s op) (hexit : (kinds i).exitscope)
    (hstep : p.step kinds table_list op = some (p', events)) :
    (exited i events ++ p'.pending i).Perm (inserted i [op] ++ p.pending i) := by
  obtain ⟨scope, rest, hscopes⟩ : ∃ scope rest, p.stack i = scope :: rest := by
    cases hp : p.stack i with
    | nil =>
      have hheight := (h.tables i).height
      rw [hp] at hheight
      exact absurd hheight (Nat.succ_ne_zero _).symm
    | cons scope rest => exact ⟨scope, rest, rfl⟩
  have hrest : rest.length = (kinds i).level s := by
    have hheight := (h.tables i).height
    rw [hscopes] at hheight
    exact Nat.add_right_cancel hheight
  cases op with
  | EnterScope =>
    obtain ⟨rfl, rfl⟩ := Prod.mk.inj (Option.some.inj hstep)
    unfold Scopes.pending
    dsimp only
    split_ifs
    · exact .refl _
    · exact .refl _
  | ExitScope =>
    unfold Scopes.step at hstep
    dsimp only at hstep
    split_ifs at hstep with hdepth
    obtain ⟨rfl, rfl⟩ := Prod.mk.inj (Option.some.inj hstep)
    have hother (j : ι) (hj : j ≠ i) : exited i (p.closed kinds j) = [] := by
      unfold Scopes.closed
      split_ifs
      · rw [exited_map, if_neg hj]
      · rfl
    rw [exited_flatMap hother rfl hnodup hmem]
    unfold Scopes.closed Scopes.pending
    dsimp only
    by_cases hkind : (kinds i).kind = .Nested
    · have hdepth' : p.depth = rest.length := by
        rw [hrest, h.depth]
        exact (if_pos hkind).symm
      rw [if_pos ⟨hexit, hkind⟩, if_pos hkind, exited_map, if_pos rfl, hscopes, hdepth']
      unfold membersAt
      rw [if_pos rfl]
      exact .refl _
    · rw [if_neg fun hboth => hkind hboth.2, if_neg hkind]
      exact .refl _
  | LookupSymbol j name =>
    obtain ⟨rfl, rfl⟩ := Prod.mk.inj (Option.some.inj hstep)
    exact .refl _
  | MoveToOuterScope j name =>
    obtain ⟨stack, -, hstep⟩ := Option.map_eq_some_iff.mp hstep
    obtain ⟨rfl, rfl⟩ := Prod.mk.inj hstep
    have hij : i ≠ j := by
      rintro rfl
      rw [hcareful.silent] at hexit
      exact absurd hexit Bool.false_ne_true
    rw [pending_set, if_neg hij]
    exact .refl _
  | InsertSymbol j name var conflict =>
    obtain ⟨hevents, stack, rfl, hstack⟩ := insert_members (i := i) hstep
    rw [hevents, pending_set]
    by_cases hij : i = j
    · subst hij
      rw [hscopes] at hstack
      cases stack with
      | nil => exact absurd hstack (List.cons_ne_nil _ _).symm
      | cons scope' rest' =>
        have hinserted : inserted i [Op.InsertSymbol i name var conflict] = [var] :=
          List.filterMap_cons_some (if_pos rfl)
        rw [if_pos rfl, hinserted]
        unfold Scopes.pending
        rw [hscopes, List.flatMap_def, List.flatMap_def, ← hstack]
        rfl
    · have hinserted : inserted i [Op.InsertSymbol j name var conflict] = [] :=
        List.filterMap_cons_none (if_neg (Ne.symm hij))
      rw [if_neg hij, hinserted]

/-- **Every symbol that is inserted is told once**, of the scopes that have been
closed; the others are pending. -/
theorem Refines.members_run [DecidableEq α] (hnodup : table_list.Nodup)
    (hlist : ∀ i, i ∈ table_list) (hexit : (kinds i).exitscope) {ops : List (Op ι α)} :
    ∀ {s : State ι α} {p p' : Scopes ι α} {events : List (Event ι α)}, Refines kinds s p →
      AllCareful kinds table_list ops s → p.run kinds table_list ops = some (p', events) →
      (exited i events ++ p'.pending i).Perm (inserted i ops ++ p.pending i) := by
  induction ops with
  | nil =>
    intro s p p' events _ _ hrun
    obtain ⟨rfl, rfl⟩ := Prod.mk.inj (Option.some.inj hrun)
    exact .refl _
  | cons op ops ih =>
    intro s p p' events h hcareful hrun
    obtain ⟨⟨p₁, first⟩, hstep, hrun⟩ := Option.bind_eq_some_iff.mp hrun
    obtain ⟨⟨p₂, more⟩, hrest, hrun⟩ := Option.bind_eq_some_iff.mp hrun
    obtain ⟨rfl, rfl⟩ := Prod.mk.inj (Option.some.inj hrun)
    obtain ⟨s₁, hs₁, h₁⟩ := h.step hlist hcareful.1 hstep
    have hone := h.members_step hnodup (hlist i) hcareful.1 hexit hstep
    have hmany := ih h₁ (hcareful.tail hs₁) hrest
    have hinserted : inserted i (op :: ops) = inserted i [op] ++ inserted i ops :=
      List.filterMap_append (l := [op])
    rw [exited_append, hinserted, List.append_assoc, List.append_assoc]
    have hfirst : (exited i first ++ (exited i more ++ p₂.pending i)).Perm
        (exited i first ++ (inserted i ops ++ p₁.pending i)) := hmany.append_left _
    have hswap := List.perm_append_comm_assoc (exited i first) (inserted i ops) (p₁.pending i)
    have hsecond : (inserted i ops ++ (exited i first ++ p₁.pending i)).Perm
        (inserted i ops ++ (inserted i [op] ++ p.pending i)) := hone.append_left _
    have hback := List.perm_append_comm_assoc (inserted i ops) (inserted i [op]) (p.pending i)
    exact ((hfirst.trans hswap).trans hsecond).trans hback

end

/-- **Symbol tables are stacks of scopes**: in a run whose calls all meet the
condition every call reports what it reports on stacks of scopes. The procedure
for closed scopes is called for every symbol inserted but those of the scopes that
are open. -/
theorem symbol_tables_are_stacks [DecidableEq α] (kinds : ι → TableKind) (table_list : List ι)
    (hnodup : table_list.Nodup) (hlist : ∀ i, i ∈ table_list) (ops : List (Op ι α))
    (hcareful : AllCareful kinds table_list ops State.init) {p : Scopes ι α}
    {events : List (Event ι α)} (hscopes : Scopes.init.run kinds table_list ops = some (p, events)) :
    (∃ s, State.init.run kinds table_list ops = some (s, events)) ∧
      ∀ i, (kinds i).exitscope → (exited i events ++ p.pending i).Perm (inserted i ops) := by
  obtain ⟨s, hs, -⟩ := Refines.run hlist Refines.init hcareful hscopes
  refine ⟨⟨s, hs⟩, fun i hexit => ?_⟩
  have hmembers := Refines.init.members_run hnodup hlist hexit hcareful hscopes
  have hempty : (Scopes.init : Scopes ι α).pending i = [] := rfl
  rwa [hempty, List.append_nil] at hmembers

/-- Two declarations of one name, one in an inner scope. -/
theorem symbol_tables_are_stacks_shadowing :
    (∃ s, (State.init : State Unit ℕ).run (fun _ => ⟨.Nested, true, true⟩) [()]
      [.EnterScope, .InsertSymbol () 8 1 true, .EnterScope, .InsertSymbol () 8 2 true,
        .LookupSymbol () 8, .ExitScope, .LookupSymbol () 8, .ExitScope, .LookupSymbol () 8] =
      some (s, [.inserted 1, .shadow 2 1, .inserted 2, .found (some 2), .exitscope () 2,
        .found (some 1), .exitscope () 1, .found none])) ∧
    ∀ _ : Unit, true = true → ([2, 1] ++ []).Perm [1, 2] :=
  symbol_tables_are_stacks (fun _ => ⟨.Nested, true, true⟩) [()] (by decide) (by decide)
    [.EnterScope, .InsertSymbol () 8 1 true, .EnterScope, .InsertSymbol () 8 2 true,
      .LookupSymbol () 8, .ExitScope, .LookupSymbol () 8, .ExitScope, .LookupSymbol () 8]
    (by decide +kernel) (p := ⟨0, fun _ => [fresh]⟩) rfl

/-! ## When a version wraps around -/

/-- So many empty blocks, one after the other. -/
def emptyBlocks (n : ℕ) : List (Op ι α) :=
  (List.replicate n [Op.EnterScope, Op.ExitScope]).flatten

section

variable {kinds : ι → TableKind} {table_list : List ι} {s s' : State ι α} {p p' : Scopes ι α}
  {events more : List (Event ι α)}

theorem State.run_append {ops ops' : List (Op ι α)}
    (h : s.run kinds table_list ops = some (s', events)) :
    s.run kinds table_list (ops ++ ops') =
      (s'.run kinds table_list ops').map fun (s, more) => (s, events ++ more) := by
  induction ops generalizing s events with
  | nil =>
    obtain ⟨rfl, rfl⟩ := Prod.mk.inj (Option.some.inj h)
    exact Option.map_id'.symm
  | cons op ops ih =>
    obtain ⟨⟨s₁, first⟩, hstep, h⟩ := Option.bind_eq_some_iff.mp h
    obtain ⟨⟨s₂, rest⟩, hrest, h⟩ := Option.bind_eq_some_iff.mp h
    obtain ⟨rfl, rfl⟩ := Prod.mk.inj (Option.some.inj h)
    show (s.step kinds table_list op).bind _ = _
    rw [hstep, Option.bind_some]
    show (s₁.run kinds table_list (ops ++ ops')).bind _ = _
    rw [ih hrest]
    cases s₂.run kinds table_list ops' with
    | none => rfl
    | some r => exact congrArg (fun l => some (r.1, l)) (List.append_assoc _ _ _).symm

theorem Scopes.run_append [DecidableEq α] {ops ops' : List (Op ι α)}
    (h : p.run kinds table_list ops = some (p', events)) :
    p.run kinds table_list (ops ++ ops') =
      (p'.run kinds table_list ops').map fun (p, more) => (p, events ++ more) := by
  induction ops generalizing p events with
  | nil =>
    obtain ⟨rfl, rfl⟩ := Prod.mk.inj (Option.some.inj h)
    exact Option.map_id'.symm
  | cons op ops ih =>
    obtain ⟨⟨p₁, first⟩, hstep, h⟩ := Option.bind_eq_some_iff.mp h
    obtain ⟨⟨p₂, rest⟩, hrest, h⟩ := Option.bind_eq_some_iff.mp h
    obtain ⟨rfl, rfl⟩ := Prod.mk.inj (Option.some.inj h)
    show (p.step kinds table_list op).bind _ = _
    rw [hstep, Option.bind_some]
    show (p₁.run kinds table_list (ops ++ ops')).bind _ = _
    rw [ih hrest]
    cases p₂.run kinds table_list ops' with
    | none => rfl
    | some r => exact congrArg (fun l => some (r.1, l)) (List.append_assoc _ _ _).symm

/-- An empty block takes the next version. -/
theorem run_block (hsilent : ∀ i, (kinds i).exitscope = false) {versions : ℕ → ℤ}
    (tables : ι → SymbolTable α) (hpos : 0 ≤ versions 1) (hmax : versions 1 + 1 ≤ short.max) :
    (⟨0, versions, tables⟩ : State ι α).run kinds table_list [.EnterScope, .ExitScope] =
      some (⟨0, Function.update versions 1 (versions 1 + 1), tables⟩, []) := by
  have hnext : short.convert (versions 1 + 1) = versions 1 + 1 :=
    IntType.convert_of_le (by omega) hmax
  have henter : (⟨0, versions, tables⟩ : State ι α).step kinds table_list .EnterScope =
      some (⟨1, Function.update versions 1 (versions 1 + 1), tables⟩, []) := by
    unfold State.step State.EnterScope
    dsimp only
    rw [if_neg (by decide)]
    show some (State.mk 1 (Function.update versions 1 (short.convert (versions 1 + 1))) tables, _) = _
    rw [hnext]
  have hexit (versions : ℕ → ℤ) :
      (⟨1, versions, tables⟩ : State ι α).step kinds table_list .ExitScope =
        some (⟨0, versions, tables⟩, []) := by
    have htables : (fun i => if i ∈ table_list ∧ (kinds i).exitscope then
        (⟨(tables i).table, Function.update (tables i).scopes 1 []⟩ : SymbolTable α)
        else tables i) = tables := by
      funext i
      exact if_neg fun h => Bool.false_ne_true ((hsilent i).symm.trans h.2)
    have hevents : (table_list.flatMap fun i =>
        if (kinds i).exitscope then ((tables i).scopes 1).map (.exitscope i)
        else ([] : List (Event ι α))) = [] := by
      refine List.flatMap_eq_nil_iff.mpr fun i _ => ?_
      rw [hsilent i, if_neg Bool.false_ne_true]
    show some (State.mk 0 versions (fun i => if i ∈ table_list ∧ (kinds i).exitscope then
      (⟨(tables i).table, Function.update (tables i).scopes 1 []⟩ : SymbolTable α)
      else tables i), table_list.flatMap _) = _
    rw [htables]
    exact congrArg (fun events => some (_, events)) hevents
  exact State.run_of_step henter (State.run_of_step (hexit _) rfl)

/-- **Empty blocks count the versions up**, and do nothing else to tables without a
procedure for closed scopes. -/
theorem run_emptyBlocks (hsilent : ∀ i, (kinds i).exitscope = false)
    (tables : ι → SymbolTable α) (n : ℕ) :
    ∀ versions : ℕ → ℤ, 0 ≤ versions 1 → versions 1 + n ≤ short.max →
      (⟨0, versions, tables⟩ : State ι α).run kinds table_list (emptyBlocks n) =
        some (⟨0, Function.update versions 1 (versions 1 + n), tables⟩, []) := by
  induction n with
  | zero =>
    intro versions _ _
    rw [Nat.cast_zero, add_zero, Function.update_eq_self]
    rfl
  | succ n ih =>
    intro versions hpos hmax
    push_cast at hmax
    have hsplit : (emptyBlocks (n + 1) : List (Op ι α)) =
        [.EnterScope, .ExitScope] ++ emptyBlocks n := rfl
    rw [hsplit, State.run_append (run_block hsilent tables hpos (by omega)), ih _ ?_ ?_]
    · rw [Function.update_self, Function.update_idem]
      push_cast
      rw [add_assoc, add_comm (1 : ℤ)]
      rfl
    · rw [Function.update_self]
      omega
    · rw [Function.update_self]
      omega

theorem scopes_run_emptyBlocks [DecidableEq α] (hsilent : ∀ i, (kinds i).exitscope = false)
    (stack : ι → List (Scope Name α)) (n : ℕ) :
    (⟨0, stack⟩ : Scopes ι α).run kinds table_list (emptyBlocks n) = some (⟨0, stack⟩, []) := by
  have hstack : (fun i => if (kinds i).kind = .Nested then
      (if (kinds i).kind = .Nested then fresh :: stack i else stack i).tail
      else if (kinds i).kind = .Nested then fresh :: stack i else stack i) = stack := by
    funext i
    split_ifs <;> rfl
  have hevents (p : Scopes ι α) : (table_list.flatMap fun i => p.closed kinds i) = [] := by
    refine List.flatMap_eq_nil_iff.mpr fun i _ => ?_
    unfold Scopes.closed
    rw [hsilent i, if_neg fun h => Bool.false_ne_true h.1]
  induction n with
  | zero => rfl
  | succ n ih =>
    have hblock : (⟨0, stack⟩ : Scopes ι α).run kinds table_list [.EnterScope, .ExitScope] =
        some (⟨0, stack⟩, []) := by
      show some (Scopes.mk 0 (fun i => if (kinds i).kind = .Nested then
        (if (kinds i).kind = .Nested then fresh :: stack i else stack i).tail
        else if (kinds i).kind = .Nested then fresh :: stack i else stack i),
        [] ++ (table_list.flatMap _ ++ [])) = _
      rw [hstack, List.append_nil]
      exact congrArg (fun events => some (_, events)) (hevents _)
    have hsplit : (emptyBlocks (n + 1) : List (Op ι α)) =
        [.EnterScope, .ExitScope] ++ emptyBlocks n := rfl
    rw [hsplit, Scopes.run_append hblock, ih]
    rfl

end

/-- **The 32768th block finds what the first one declared**: the version of its
scope is negative, and no version before is less. -/
theorem closed_binding_is_found :
    ¬ ∀ (ops : List (Op Unit ℕ)) (p : Scopes Unit ℕ) (events : List (Event Unit ℕ)),
      Scopes.init.run (fun _ => ⟨.Nested, false, false⟩) [()] ops = some (p, events) →
      ∃ s, State.init.run (fun _ => ⟨.Nested, false, false⟩) [()] ops = some (s, events) := by
  intro h
  let kinds : Unit → TableKind := fun _ => ⟨.Nested, false, false⟩
  let declare : List (Op Unit ℕ) := [.EnterScope, .InsertSymbol () 8 7 true, .ExitScope]
  let last : List (Op Unit ℕ) := [.EnterScope, .LookupSymbol () 8]
  let tables : Unit → SymbolTable ℕ := Function.update (fun _ => ⟨fun _ => [], fun _ => []⟩) ()
    ⟨Function.update (fun _ => []) 2 [[⟨8, 7, ⟨1, 1⟩⟩]], fun _ => []⟩
  have hsilent : ∀ i, (kinds i).exitscope = false := fun _ => rfl
  have hscopes : Scopes.init.run kinds [()] (declare ++ (emptyBlocks 32766 ++ last)) =
      some (⟨1, fun _ => [fresh, fresh]⟩, [.inserted 7, .found none]) := by
    have hdeclare : Scopes.init.run kinds [()] declare =
        some (⟨0, fun _ => [fresh]⟩, [.inserted 7]) := rfl
    rw [Scopes.run_append hdeclare, Scopes.run_append (scopes_run_emptyBlocks hsilent _ _)]
    rfl
  have hstate : (State.init.run kinds [()] (declare ++ (emptyBlocks 32766 ++ last))).map Prod.snd =
      some [.inserted 7, .found (some 7)] := by
    have hdeclare : State.init.run kinds [()] declare =
        some (⟨0, Function.update (fun _ => 0) 1 1, tables⟩, [.inserted 7]) := rfl
    rw [State.run_append hdeclare,
      State.run_append (run_emptyBlocks hsilent tables 32766 _ (by decide) (by decide))]
    rfl
  obtain ⟨s, hs⟩ := h _ _ _ hscopes
  have hevents : some [Event.inserted 7, Event.found (some 7)] =
      some [Event.inserted 7, (Event.found none : Event Unit ℕ)] :=
    hstate.symm.trans (congrArg (Option.map Prod.snd) hs)
  exact absurd hevents (by decide)

end Cilk.Symbols
