import Cilk.CaseLabels.Detection

/-!
# When duplicate labels are detected

The check of a statement with any number of switches in it comes down to the
check of the labels of each, one switch at a time. With that, what is reported
for a switch is compared with what C calls a duplicate: of the constants that C
gives the case expressions, where the table has those that were attached to
them.
-/

namespace Cilk.CaseLabels

open ConstFold LinearProbing

variable {F : Floats} {ANSIOnly : Bool}

/-! ## Statements -/

/-- A label after the check of its expression. -/
def Label.checked (F : Floats) (ANSIOnly : Bool) (l : Label Expr) :
    Option (Label (Node F)) :=
  match l.expr with
  | some expr => (semCheckCaseExpr ANSIOnly expr).value.map fun expr => ⟨l.id, some expr⟩
  | none => some ⟨l.id, none⟩

/-- What is done at a label, with its switch's table, the check of its
expression included. -/
def checkSource (ANSIOnly : Bool) (check : SwitchCheck F) (l : Label Expr) :
    Option (SwitchCheck F × List Error) :=
  (l.checked F ANSIOnly).bind (checkLabel check)

/-- The same at all labels of a switch. -/
def checkSources (ANSIOnly : Bool) :
    SwitchCheck F → List (Label Expr) → Option (SwitchCheck F × List Error)
  | check, [] => some (check, [])
  | check, l :: L => do
    let (check, errors) ← checkSource ANSIOnly check l
    let (check, more) ← checkSources ANSIOnly check L
    pure (check, errors ++ more)

/-- The expressions may as well be checked before all labels. -/
theorem checkSources_eq (check : SwitchCheck F) (L : List (Label Expr)) :
    checkSources ANSIOnly check L =
      (L.mapM (Label.checked F ANSIOnly)).bind (checkLabels check) := by
  induction L generalizing check with
  | nil => rfl
  | cons l L ih =>
    rw [List.mapM_cons]
    show (((l.checked F ANSIOnly).bind (checkLabel check)).bind fun r =>
      (checkSources ANSIOnly r.1 L).bind fun q => some (q.1, r.2 ++ q.2)) =
      ((l.checked F ANSIOnly).bind fun l' =>
        (L.mapM (Label.checked F ANSIOnly)).bind fun L' => some (l' :: L')).bind _
    cases l.checked F ANSIOnly with
    | none => rfl
    | some l' =>
      simp only [ih, Option.bind_some]
      cases L.mapM (Label.checked F ANSIOnly) with
      | none => cases checkLabel check l' <;> rfl
      | some L' => rfl

theorem checkSources_append (check : SwitchCheck F) (L M : List (Label Expr)) :
    checkSources ANSIOnly check (L ++ M) = (checkSources ANSIOnly check L).bind fun r =>
      (checkSources ANSIOnly r.1 M).map fun q => (q.1, r.2 ++ q.2) := by
  rw [checkSources_eq, checkSources_eq, List.mapM_append]
  show ((L.mapM (Label.checked F ANSIOnly)).bind fun L' =>
    (M.mapM (Label.checked F ANSIOnly)).bind fun M' => some (L' ++ M')).bind _ = _
  simp only [checkSources_eq]
  cases L.mapM (Label.checked F ANSIOnly) with
  | none => rfl
  | some L' =>
    cases M.mapM (Label.checked F ANSIOnly) with
    | none =>
      show none = (checkLabels check L').bind fun r => none
      exact (Option.bind_fun_none _).symm
    | some M' => exact checkLabels_append check L' M'

/-- The links after the table of the innermost switch has changed. -/
def store (inner : Option NodeId) (checks : Checks F) (check : SwitchCheck F) : Checks F :=
  match inner with
  | some w => Function.update checks w (some check)
  | none => checks

mutual

/-- The check of a statement, with the table of its innermost switch at hand. -/
def checkStmt (ANSIOnly : Bool) : Stmt Expr → SwitchCheck F → Option (SwitchCheck F × List Error)
  | .Case id expr _, check => checkSource ANSIOnly check ⟨id, some expr⟩
  | .Default id _, check => checkSource ANSIOnly check ⟨id, none⟩
  | .Switch id expr cases stmt, check => do
    let inside ← NewSwitchCheck cases
    let (_, errors) ← checkStmt ANSIOnly stmt inside
    pure (check, (if expr.isIntegralType then [] else [.notIntegral id]) ++ errors)
  | .compound stmts, check => checkStmts ANSIOnly stmts check
  | .other, check => pure (check, [])

def checkStmts (ANSIOnly : Bool) :
    List (Stmt Expr) → SwitchCheck F → Option (SwitchCheck F × List Error)
  | [], check => pure (check, [])
  | stmt :: stmts, check => do
    let (check, errors) ← checkStmt ANSIOnly stmt check
    let (check, more) ← checkStmts ANSIOnly stmts check
    pure (check, errors ++ more)

end

/-- The switches of a statement, by address. -/
def switchIds (s : Stmt Expr) : List NodeId := (switches s).map SwitchOf.id

def switchIdsList (ss : List (Stmt Expr)) : List NodeId := (switchesList ss).map SwitchOf.id

theorem switchIdsList_cons (s : Stmt Expr) (ss : List (Stmt Expr)) :
    switchIdsList (s :: ss) = switchIds s ++ switchIdsList ss :=
  List.map_append

theorem store_store (inner : Option NodeId) (checks : Checks F) (c c' : SwitchCheck F) :
    store inner (store inner checks c) c' = store inner checks c' := by
  cases inner with
  | none => rfl
  | some w => exact Function.update_idem _ _ _

theorem store_none {inner : Option NodeId} {checks : Checks F} {c : SwitchCheck F} {x : NodeId}
    (hx : checks x = none) (hin : inner ≠ some x) : store inner checks c x = none := by
  cases inner with
  | none => exact hx
  | some w =>
    have hne : x ≠ w := fun h => hin (by rw [h])
    exact (Function.update_of_ne hne _ _).trans hx

mutual

/-- **Each switch has its own table.** The check of a statement changes only
the table of the innermost switch around it. -/
theorem SemCheckNode_eq : ∀ (s : Stmt Expr) (inner : Option NodeId) (checks : Checks F)
    (c : SwitchCheck F), Resolved inner s → (switchIds s).Nodup →
    (∀ x ∈ switchIds s, checks x = none ∧ inner ≠ some x) → store inner checks c = checks →
    SemCheckNode ANSIOnly s checks =
      (checkStmt ANSIOnly s c).map fun r => (store inner checks r.1, r.2)
  | .Case id expr container, inner, checks, c, hres, _, _, hstore => by
    obtain rfl : inner = some container := hres
    have hcheck : checks container = some c := by
      rw [← hstore]
      exact Function.update_self _ _ _
    unfold SemCheckNode checkStmt checkSource Label.checked
    dsimp only
    cases (semCheckCaseExpr (F := F) ANSIOnly expr).value with
    | none => rfl
    | some expr =>
      show (if IsIntegralConstant expr then (checks container).bind _ else _) =
        (checkLabel c ⟨id, some expr⟩).map _
      unfold checkLabel
      dsimp only
      by_cases hc : IsIntegralConstant expr
      · rw [if_pos hc, if_pos hc, hcheck]
        show (SwitchCheckAddCase c id expr).bind _ = _
        cases SwitchCheckAddCase c id expr <;> rfl
      · rw [if_neg hc, if_neg hc]
        show some (checks, _) = some (store _ checks c, _)
        rw [hstore]
  | .Default id container, inner, checks, c, hres, _, _, hstore => by
    obtain rfl : inner = some container := hres
    have hcheck : checks container = some c := by
      rw [← hstore]
      exact Function.update_self _ _ _
    unfold SemCheckNode
    rw [hcheck]
    rfl
  | .Switch id expr cases stmt, inner, checks, c, hres, hnodup, hfresh, hstore => by
    obtain ⟨-, hres⟩ := hres
    obtain ⟨hid, hnodup⟩ := List.nodup_cons.mp hnodup
    unfold SemCheckNode checkStmt
    cases NewSwitchCheck cases with
    | none => rfl
    | some inside =>
      have hinside : ∀ x ∈ switchIds stmt,
          Function.update checks id (some inside) x = none ∧ some id ≠ some x := by
        intro x hx
        have hne : x ≠ id := fun h => hid (h ▸ hx)
        refine ⟨?_, fun h => hne (Option.some.inj h).symm⟩
        rw [Function.update_of_ne hne]
        exact (hfresh x (List.mem_cons_of_mem _ hx)).1
      have hrec := SemCheckNode_eq stmt (some id) (Function.update checks id (some inside)) inside
        hres hnodup hinside (Function.update_idem _ _ _)
      show (SemCheckNode ANSIOnly stmt (Function.update checks id (some inside))).bind _ =
        ((checkStmt ANSIOnly stmt inside).bind _).map _
      rw [hrec]
      cases checkStmt ANSIOnly stmt inside with
      | none => rfl
      | some r =>
        have hclean : Function.update
            (store (some id) (Function.update checks id (some inside)) r.1) id none = checks := by
          show Function.update (Function.update (Function.update _ _ _) _ _) _ _ = _
          rw [Function.update_idem, Function.update_idem]
          exact Function.update_eq_self_iff.mpr (hfresh id List.mem_cons_self).1.symm
        show some (Function.update (store _ _ r.1) id none, _) = some (store inner checks c, _)
        rw [hclean, hstore]
  | .compound stmts, inner, checks, c, hres, hnodup, hfresh, hstore => by
    unfold SemCheckNode checkStmt
    exact SemCheckList_eq stmts inner checks c hres hnodup hfresh hstore
  | .other, inner, checks, c, _, _, _, hstore => by
    show some (checks, _) = some (store inner checks c, _)
    rw [hstore]

theorem SemCheckList_eq : ∀ (ss : List (Stmt Expr)) (inner : Option NodeId) (checks : Checks F)
    (c : SwitchCheck F), ResolvedList inner ss → (switchIdsList ss).Nodup →
    (∀ x ∈ switchIdsList ss, checks x = none ∧ inner ≠ some x) → store inner checks c = checks →
    SemCheckList ANSIOnly ss checks =
      (checkStmts ANSIOnly ss c).map fun r => (store inner checks r.1, r.2)
  | [], inner, checks, c, _, _, _, hstore => by
    show some (checks, _) = some (store inner checks c, _)
    rw [hstore]
  | s :: ss, inner, checks, c, hres, hnodup, hfresh, hstore => by
    rw [switchIdsList_cons] at hnodup hfresh
    obtain ⟨hs, hss, -⟩ := List.nodup_append.mp hnodup
    have hrec := SemCheckNode_eq s inner checks c hres.1 hs
      (fun x hx => hfresh x (List.mem_append_left _ hx)) hstore
    unfold SemCheckList checkStmts
    rw [hrec]
    cases checkStmt ANSIOnly s c with
    | none => rfl
    | some r =>
      have hrest := SemCheckList_eq ss inner (store inner checks r.1) r.1 hres.2 hss
        (fun x hx => by
          obtain ⟨hnone, hin⟩ := hfresh x (List.mem_append_right _ hx)
          exact ⟨store_none hnone hin, hin⟩) (store_store _ _ _ _)
      show (SemCheckList ANSIOnly ss (store inner checks r.1)).bind _ =
        ((checkStmts ANSIOnly ss r.1).bind _).map _
      rw [hrest]
      cases checkStmts ANSIOnly ss r.1 with
      | none => rfl
      | some q =>
        show some (store inner (store inner checks r.1) q.1, _) = some (store inner checks q.1, _)
        rw [store_store]

end

variable (F ANSIOnly) in
/-- The check of one switch. -/
def checkSwitch (w : SwitchOf Expr) : Option (List Error) := do
  let check ← NewSwitchCheck (F := F) (w.labels.map Label.id)
  let (_, errors) ← checkSources ANSIOnly check w.labels
  pure ((if w.expr.isIntegralType then [] else [.notIntegral w.id]) ++ errors)

/-- What the check of a statement comes down to. -/
def ComesDownTo (ANSIOnly : Bool) (result : Option (SwitchCheck F × List Error)) (c : SwitchCheck F)
    (L : List (Label Expr)) (W : List (SwitchOf Expr)) : Prop :=
  match result with
  | none => checkSources ANSIOnly c L = none ∨ ∃ w ∈ W, checkSwitch F ANSIOnly w = none
  | some (c', errors) => ∃ own, checkSources ANSIOnly c L = some (c', own) ∧
      (∀ w ∈ W, ∃ es, checkSwitch F ANSIOnly w = some es) ∧
      ∀ e, e ∈ errors ↔ e ∈ own ∨ ∃ w ∈ W, ∃ es, checkSwitch F ANSIOnly w = some es ∧ e ∈ es

mutual

theorem checkStmt_comesDownTo : ∀ (s : Stmt Expr) (inner : Option NodeId) (c : SwitchCheck F),
    Resolved inner s → ComesDownTo ANSIOnly (checkStmt ANSIOnly s c) c (labels s) (switches s)
  | .Case id expr container, _, c, _ => by
    have hone : checkSources ANSIOnly c [⟨id, some expr⟩] =
        checkSource ANSIOnly c ⟨id, some expr⟩ := by
      show (checkSource ANSIOnly c ⟨id, some expr⟩).bind (fun r => some (r.1, r.2 ++ [])) = _
      cases checkSource ANSIOnly c ⟨id, some expr⟩ with
      | none => rfl
      | some r => exact congrArg (fun l => some (r.1, l)) (List.append_nil _)
    show ComesDownTo ANSIOnly (checkSource ANSIOnly c ⟨id, some expr⟩) c [⟨id, some expr⟩] []
    cases hcheck : checkSource ANSIOnly c ⟨id, some expr⟩ with
    | none => exact .inl (hone.trans hcheck)
    | some r => exact ⟨r.2, hone.trans hcheck, fun w hw => absurd hw List.not_mem_nil, by simp⟩
  | .Default id container, _, c, _ => by
    show ComesDownTo ANSIOnly (some (SwitchCheckAddDefault c id)) c [⟨id, none⟩] []
    refine ⟨(SwitchCheckAddDefault c id).2, ?_, fun w hw => absurd hw List.not_mem_nil,
      fun e => (or_iff_left (by simp)).symm⟩
    exact congrArg (fun l => some ((SwitchCheckAddDefault c id).1, l)) (List.append_nil _)
  | .Switch id expr cases stmt, _, c, hres => by
    obtain ⟨rfl, hres⟩ := hres
    unfold checkStmt
    cases hnew : NewSwitchCheck ((labels stmt).map Label.id) with
    | none =>
      refine .inr ⟨⟨id, expr, labels stmt⟩, List.mem_cons_self, ?_⟩
      unfold checkSwitch
      rw [hnew]
      rfl
    | some inside =>
      have hswitch : checkSwitch F ANSIOnly ⟨id, expr, labels stmt⟩ =
          (checkSources ANSIOnly inside (labels stmt)).map fun r =>
            (if expr.isIntegralType then [] else [.notIntegral id]) ++ r.2 := by
        unfold checkSwitch
        rw [hnew]
        show (checkSources ANSIOnly inside (labels stmt)).bind _ = _
        cases checkSources ANSIOnly inside (labels stmt) <;> rfl
      have hrec := checkStmt_comesDownTo stmt (some id) inside hres
      show ComesDownTo ANSIOnly ((checkStmt ANSIOnly stmt inside).bind _) c [] (_ :: switches stmt)
      cases hcheck : checkStmt ANSIOnly stmt inside with
      | none =>
        rw [hcheck] at hrec
        obtain hnone | ⟨w, hw, hnone⟩ := hrec
        · refine .inr ⟨_, List.mem_cons_self, ?_⟩
          rw [hswitch, hnone]
          rfl
        · exact .inr ⟨w, List.mem_cons_of_mem _ hw, hnone⟩
      | some r =>
        rw [hcheck] at hrec
        obtain ⟨own, hown, hall, hmem⟩ := hrec
        rw [hown] at hswitch
        refine ⟨[], rfl, ?_, ?_⟩
        · intro w hw
          obtain rfl | hw := List.mem_cons.mp hw
          · exact ⟨_, hswitch⟩
          · exact hall w hw
        · intro e
          rw [List.mem_append, hmem]
          constructor
          · rintro (he | he | ⟨w, hw, es, hes, he⟩)
            · exact .inr ⟨_, List.mem_cons_self, _, hswitch, List.mem_append_left _ he⟩
            · exact .inr ⟨_, List.mem_cons_self, _, hswitch, List.mem_append_right _ he⟩
            · exact .inr ⟨w, List.mem_cons_of_mem _ hw, es, hes, he⟩
          · rintro (he | ⟨w, hw, es, hes, he⟩)
            · exact absurd he List.not_mem_nil
            · obtain rfl | hw := List.mem_cons.mp hw
              · obtain rfl := Option.some.inj (hswitch.symm.trans hes)
                obtain he | he := List.mem_append.mp he
                · exact .inl he
                · exact .inr (.inl he)
              · exact .inr (.inr ⟨w, hw, es, hes, he⟩)
  | .compound stmts, inner, c, hres => by
    unfold checkStmt
    exact checkStmts_comesDownTo stmts inner c hres
  | .other, _, c, _ => ⟨[], rfl, fun w hw => absurd hw List.not_mem_nil, by simp [switches]⟩

theorem checkStmts_comesDownTo : ∀ (ss : List (Stmt Expr)) (inner : Option NodeId)
    (c : SwitchCheck F), ResolvedList inner ss →
      ComesDownTo ANSIOnly (checkStmts ANSIOnly ss c) c (labelsList ss) (switchesList ss)
  | [], _, c, _ => ⟨[], rfl, fun w hw => absurd hw List.not_mem_nil, by simp [switchesList]⟩
  | s :: ss, inner, c, hres => by
    have hfirst := checkStmt_comesDownTo s inner c hres.1
    unfold checkStmts labelsList switchesList
    cases hcheck : checkStmt ANSIOnly s c with
    | none =>
      rw [hcheck] at hfirst
      obtain hnone | ⟨w, hw, hnone⟩ := hfirst
      · refine .inl ?_
        rw [checkSources_append, hnone]
        rfl
      · exact .inr ⟨w, List.mem_append_left _ hw, hnone⟩
    | some r =>
      rw [hcheck] at hfirst
      obtain ⟨own, hown, hall, hmem⟩ := hfirst
      have hrest := checkStmts_comesDownTo ss inner r.1 hres.2
      show ComesDownTo ANSIOnly ((checkStmts ANSIOnly ss r.1).bind _) c _ _
      cases hchecks : checkStmts ANSIOnly ss r.1 with
      | none =>
        rw [hchecks] at hrest
        obtain hnone | ⟨w, hw, hnone⟩ := hrest
        · refine .inl ?_
          rw [checkSources_append, hown]
          show (checkSources ANSIOnly r.1 _).map _ = none
          rw [hnone]
          rfl
        · exact .inr ⟨w, List.mem_append_right _ hw, hnone⟩
      | some q =>
        rw [hchecks] at hrest
        obtain ⟨own', hown', hall', hmem'⟩ := hrest
        refine ⟨own ++ own', ?_, ?_, ?_⟩
        · rw [checkSources_append, hown]
          show (checkSources ANSIOnly r.1 _).map _ = _
          rw [hown']
          rfl
        · intro w hw
          obtain hw | hw := List.mem_append.mp hw
          · exact hall w hw
          · exact hall' w hw
        · intro e
          rw [List.mem_append, List.mem_append, hmem, hmem']
          simp only [List.mem_append, or_and_right, exists_or]
          exact or_or_or_comm

end

/-! ## Duplicates -/

/-- The promoted type of the controlling expression, where that is integral. -/
def SwitchOf.promotedType (w : SwitchOf Expr) : Option IntType :=
  w.expr.cType.promoted.bind BasicType.intType

variable (F) in
/-- The constant of a `Case` in C, an integer of an integer type. -/
def Label.constant (l : Label Expr) : Option ℤ :=
  l.expr.bind fun expr =>
    match meaning (F := F) expr with
    | some (t, some (.int v)) => if t.isInteger then some v else none
    | _ => none

variable (F) in
def constants (L : List (Label Expr)) : List ℤ := L.filterMap (Label.constant F)

variable (F ANSIOnly) in
/-- The constants that are attached to the expressions. -/
def attached (L : List (Label Expr)) : List ℤ :=
  L.filterMap fun l => (l.checked F ANSIOnly).bind Label.value

/-- Two constants are equal in the type `t`. -/
def HasDuplicate (t : IntType) (V : List ℤ) : Prop := ¬ (V.map t.convert).Nodup

variable (F ANSIOnly) in
/-- The check of the expression of a label comes to an end, and the constant of
an integer type, if there is one, is kept in such a type. -/
def Label.Ends (l : Label Expr) : Prop :=
  ∃ l', l.checked F ANSIOnly = some l' ∧ ¬ l'.IsFloating

theorem checked_id {l : Label Expr} {l' : Label (Node F)}
    (h : l.checked F ANSIOnly = some l') : l'.id = l.id ∧ l'.isDefault = l.isDefault := by
  unfold Label.checked at h
  unfold Label.isDefault
  cases hexpr : l.expr with
  | none =>
    rw [hexpr] at h
    obtain rfl := Option.some.inj h
    exact ⟨rfl, rfl⟩
  | some expr =>
    rw [hexpr] at h
    obtain ⟨node, -, rfl⟩ := Option.map_eq_some_iff.mp h
    exact ⟨rfl, rfl⟩

/-- **The labels of a switch after the check of their expressions.** -/
theorem checked_labels {L : List (Label Expr)} {L' : List (Label (Node F))}
    (h : L.mapM (Label.checked F ANSIOnly) = some L') :
    values L' = attached F ANSIOnly L ∧ L'.map Label.id = L.map Label.id ∧
      defaults L' = defaults L ∧
      ((∀ l' ∈ L', ¬ l'.IsFloating) ↔ ∀ l ∈ L, l.Ends F ANSIOnly) := by
  induction L generalizing L' with
  | nil =>
    obtain rfl := Option.some.inj h
    exact ⟨rfl, rfl, rfl, by simp⟩
  | cons l L ih =>
    rw [List.mapM_cons] at h
    obtain ⟨l', hl, h⟩ := Option.bind_eq_some_iff.mp h
    obtain ⟨M, hM, h⟩ := Option.bind_eq_some_iff.mp h
    obtain rfl := Option.some.inj h
    obtain ⟨hvalues, hids, hdefaults, hends⟩ := ih hM
    obtain ⟨hid, hdefault⟩ := checked_id hl
    refine ⟨?_, ?_, ?_, ?_⟩
    · have hcons : attached F ANSIOnly (l :: L) = values [l'] ++ attached F ANSIOnly L := by
        unfold attached values
        cases hv : l'.value with
        | none =>
          rw [List.filterMap_cons_none (by rw [hl]; exact hv), List.filterMap_cons_none hv]
          rfl
        | some v =>
          rw [List.filterMap_cons_some (by rw [hl]; exact hv), List.filterMap_cons_some hv]
          rfl
      rw [hcons, ← hvalues]
      exact List.filterMap_append (l := [l'])
    · rw [List.map_cons, List.map_cons, hid, hids]
    · unfold defaults at hdefaults ⊢
      rw [List.countP_cons, List.countP_cons, hdefaults, hdefault]
    · rw [List.forall_mem_cons, List.forall_mem_cons, hends]
      refine and_congr_left fun _ => ⟨fun h => ⟨l', hl, h⟩, ?_⟩
      rintro ⟨l'', hl'', h⟩
      obtain rfl := Option.some.inj (hl.symm.trans hl'')
      exact h

theorem mapM_checked {L : List (Label Expr)} (h : ∀ l ∈ L, l.Ends F ANSIOnly) :
    ∃ L', L.mapM (Label.checked F ANSIOnly) = some L' := by
  induction L with
  | nil => exact ⟨[], rfl⟩
  | cons l L ih =>
    obtain ⟨l', hl, -⟩ := h l List.mem_cons_self
    obtain ⟨L', hL⟩ := ih fun m hm => h m (List.mem_cons_of_mem _ hm)
    refine ⟨l' :: L', ?_⟩
    rw [List.mapM_cons, hl, hL]
    rfl

/-- The table of a switch with as many labels can be told to `HeapAllocate`. -/
def TableFits (labels : ℕ) : Prop :=
  tableBytes (labels * HASH_FACTOR) ≤ Kind.Uint.intType.max

/-- That is what decides whether there is a table. -/
theorem newSwitchCheck_isSome_iff {cases : List NodeId} :
    (∃ check : SwitchCheck F, NewSwitchCheck cases = some check) ↔ TableFits cases.length := by
  unfold NewSwitchCheck TableFits
  dsimp only
  have hint (h : tableBytes (cases.length * HASH_FACTOR) ≤ Kind.Uint.intType.max) :
      ((cases.length * HASH_FACTOR : ℕ) : ℤ) ≤ Kind.Sint.intType.max := by
    have huint : Kind.Uint.intType.max = 4294967295 := by decide
    have hsint : Kind.Sint.intType.max = 2147483647 := by decide
    unfold tableBytes sizeofSwitchCheck sizeofNodePointer at h
    omega
  constructor
  · rintro ⟨check, h⟩
    split at h
    · rename_i hfits
      exact hfits.2
    · exact absurd h (by simp)
  · intro h
    exact ⟨_, if_pos ⟨hint h, h⟩⟩

/-- **What is reported for one switch**, when its check comes to an end. -/
theorem checkSwitch_reports {w : SwitchOf Expr} {es : List Error}
    (h : checkSwitch F ANSIOnly w = some es) :
    TableFits w.labels.length ∧
      (∀ l ∈ w.labels, l.Ends F ANSIOnly) ∧
      ((∃ id, Error.duplicate id ∈ es) ↔
        HasDuplicate Kind.Ulong.intType (attached F ANSIOnly w.labels)) ∧
      ((∃ id, Error.multipleDefault id ∈ es) ↔ 2 ≤ defaults w.labels) ∧
      ∀ id, Error.duplicate id ∈ es ∨ Error.multipleDefault id ∈ es →
        id ∈ w.labels.map Label.id := by
  obtain ⟨check, hnew, h⟩ := Option.bind_eq_some_iff.mp h
  obtain ⟨⟨c', own⟩, hown, h⟩ := Option.bind_eq_some_iff.mp h
  obtain rfl := Option.some.inj h
  rw [checkSources_eq] at hown
  obtain ⟨L, hL, hown⟩ := Option.bind_eq_some_iff.mp hown
  obtain ⟨hvalues, hids, hdefaults, hends⟩ := checked_labels hL
  have hlength : L.length = w.labels.length := by
    rw [← List.length_map (f := Label.id), hids, List.length_map]
  have hfloating : ∀ l ∈ L, ¬ l.IsFloating := by
    intro l hl hfloat
    rw [checkLabels_floating hl hfloat] at hown
    exact absurd hown (by simp)
  obtain ⟨hholds, hlen⟩ := holds_new hnew
  rw [List.length_map] at hlen
  obtain ⟨c'', own', hown', hdup, hmult, hid⟩ := checkLabels_spec (L := L) hholds
    (by rw [hlen, hlength, List.length_nil]; omega) hfloating
  obtain ⟨-, rfl⟩ := Prod.mk.inj (Option.some.inj (hown.symm.trans hown'))
  have hdups : ∀ id, Error.duplicate id ∈
      (if w.expr.isIntegralType then [] else [.notIntegral w.id]) ++ own ↔
        Error.duplicate id ∈ own := by
    intro id
    split <;> simp
  have hmults : ∀ id, Error.multipleDefault id ∈
      (if w.expr.isIntegralType then [] else [.notIntegral w.id]) ++ own ↔
        Error.multipleDefault id ∈ own := by
    intro id
    split <;> simp
  refine ⟨?_, hends.mp hfloating, ?_, ?_, ?_⟩
  · have := newSwitchCheck_isSome_iff.mp ⟨check, hnew⟩
    rwa [List.length_map] at this
  · simp only [hdups]
    rw [hdup, hvalues]
    simp [HasDuplicate, values]
  · simp only [hmults]
    rw [hmult, hdefaults]
    simp only [defaults, List.countP_nil]
    omega
  · intro id
    rw [hdups, hmults, ← hids]
    exact hid id

/-- A switch whose check comes to an end. -/
theorem exists_checkSwitch {w : SwitchOf Expr} (hfits : TableFits w.labels.length)
    (hends : ∀ l ∈ w.labels, l.Ends F ANSIOnly) : ∃ es, checkSwitch F ANSIOnly w = some es := by
  have hmap : TableFits (w.labels.map Label.id).length := by rwa [List.length_map]
  obtain ⟨check, hnew⟩ := newSwitchCheck_isSome_iff (F := F).mpr hmap
  obtain ⟨L, hL⟩ := mapM_checked hends
  obtain ⟨-, hids, -, hfloating⟩ := checked_labels hL
  have hlength : L.length = w.labels.length := by
    rw [← List.length_map (f := Label.id), hids, List.length_map]
  obtain ⟨hholds, hlen⟩ := holds_new hnew
  rw [List.length_map] at hlen
  obtain ⟨c', own, hown, -⟩ := checkLabels_spec (L := L) hholds
    (by rw [hlen, hlength, List.length_nil]; omega) (hfloating.mpr hends)
  unfold checkSwitch
  rw [hnew]
  show ∃ es, (checkSources ANSIOnly check w.labels).bind _ = some es
  rw [checkSources_eq, hL]
  show ∃ es, (checkLabels check L).bind _ = some es
  rw [hown]
  exact ⟨_, rfl⟩

variable (F ANSIOnly) in
/-- **Duplicates are detected exactly.** The check of the statement comes to an
end; for each of its switches a duplicate label is reported at one of its own
labels if and only if two of its constants in C are equal in the promoted type
of the controlling expression, and a default if and only if there are two. -/
def Detected (s : Stmt Expr) : Prop :=
  ∃ (checks : Checks F) (errors : List Error),
    SemCheckNode ANSIOnly s (fun _ => none) = some (checks, errors) ∧
    ∀ w ∈ switches s, ∀ t, w.promotedType = some t →
      ((∃ l ∈ w.labels, Error.duplicate l.id ∈ errors) ↔ HasDuplicate t (constants F w.labels)) ∧
      ((∃ l ∈ w.labels, Error.multipleDefault l.id ∈ errors) ↔ 2 ≤ defaults w.labels)

variable (F ANSIOnly) in
/-- When they are: every table can be allocated, the check of every case
expression comes to an end with no constant in a floating type, and attached
constants are equal as `unsigned long` where constants of C are equal in the
promoted type. -/
def Comparable (s : Stmt Expr) : Prop :=
  ∀ w ∈ switches s, TableFits w.labels.length ∧
    (∀ l ∈ w.labels, l.Ends F ANSIOnly) ∧
    ∀ t, w.promotedType = some t →
      (HasDuplicate Kind.Ulong.intType (attached F ANSIOnly w.labels) ↔
        HasDuplicate t (constants F w.labels))

/-- A label belongs to one switch. -/
theorem switch_of_label {s : Stmt Expr} (haddr : (addresses s).Nodup) {w x : SwitchOf Expr}
    (hw : w ∈ switches s) (hx : x ∈ switches s) {id : NodeId} (hidw : id ∈ w.labels.map Label.id)
    (hidx : id ∈ x.labels.map Label.id) : w = x := by
  by_contra hne
  have hflat := (List.nodup_append.mp haddr).2.1
  have hdisj := (List.nodup_flatMap.mp hflat).2
  have hsymm : Std.Symm (Function.onFun List.Disjoint fun w : SwitchOf Expr =>
      w.id :: w.labels.map Label.id) := ⟨fun _ _ h => h.symm⟩
  exact hdisj.forall hw hx hne (List.mem_cons_of_mem _ hidw) (List.mem_cons_of_mem _ hidx)

/-- What is reported at the labels of one switch of a statement. -/
theorem reported_iff {s : Stmt Expr} (haddr : (addresses s).Nodup) {errors : List Error}
    (hmem : ∀ e, e ∈ errors ↔ ∃ w ∈ switches s, ∃ es, checkSwitch F ANSIOnly w = some es ∧ e ∈ es)
    {w : SwitchOf Expr} (hw : w ∈ switches s) {es : List Error}
    (hes : checkSwitch F ANSIOnly w = some es) :
    ((∃ l ∈ w.labels, Error.duplicate l.id ∈ errors) ↔ ∃ id, Error.duplicate id ∈ es) ∧
      ((∃ l ∈ w.labels, Error.multipleDefault l.id ∈ errors) ↔
        ∃ id, Error.multipleDefault id ∈ es) := by
  obtain ⟨-, -, -, -, hid⟩ := checkSwitch_reports hes
  constructor <;> constructor
  · rintro ⟨l, hl, he⟩
    obtain ⟨x, hx, fs, hfs, he⟩ := (hmem _).mp he
    obtain ⟨-, -, -, -, hidx⟩ := checkSwitch_reports hfs
    obtain rfl := switch_of_label haddr hw hx (List.mem_map_of_mem hl) (hidx _ (.inl he))
    obtain rfl := Option.some.inj (hes.symm.trans hfs)
    exact ⟨l.id, he⟩
  · rintro ⟨id, he⟩
    obtain ⟨l, hl, rfl⟩ := List.mem_map.mp (hid id (.inl he))
    exact ⟨l, hl, (hmem _).mpr ⟨w, hw, es, hes, he⟩⟩
  · rintro ⟨l, hl, he⟩
    obtain ⟨x, hx, fs, hfs, he⟩ := (hmem _).mp he
    obtain ⟨-, -, -, -, hidx⟩ := checkSwitch_reports hfs
    obtain rfl := switch_of_label haddr hw hx (List.mem_map_of_mem hl) (hidx _ (.inr he))
    obtain rfl := Option.some.inj (hes.symm.trans hfs)
    exact ⟨l.id, he⟩
  · rintro ⟨id, he⟩
    obtain ⟨l, hl, rfl⟩ := List.mem_map.mp (hid id (.inr he))
    exact ⟨l, hl, (hmem _).mpr ⟨w, hw, es, hes, he⟩⟩

mutual

/-- A statement outside all switches has no labels of its own. -/
theorem labels_of_resolved_none : ∀ s : Stmt Expr, Resolved none s → labels s = []
  | .Case _ _ _, h => absurd h (by simp [Resolved])
  | .Default _ _, h => absurd h (by simp [Resolved])
  | .Switch _ _ _ _, _ => rfl
  | .compound stmts, h => labelsList_of_resolved_none stmts h
  | .other, _ => rfl

theorem labelsList_of_resolved_none : ∀ ss : List (Stmt Expr), ResolvedList none ss →
    labelsList ss = []
  | [], _ => rfl
  | s :: ss, h => by
    unfold labelsList
    rw [labels_of_resolved_none s h.1, labelsList_of_resolved_none ss h.2]
    rfl

end

theorem ids_sublist (W : List (SwitchOf Expr)) :
    (W.map SwitchOf.id).Sublist (W.flatMap fun w => w.id :: w.labels.map Label.id) := by
  induction W with
  | nil => exact List.Sublist.refl _
  | cons w W ih =>
    exact (List.singleton_sublist.mpr List.mem_cons_self : [w.id].Sublist _).append ih

/-- `switch (x) { case 1: case 1: default: }` with an `int` -/
def twice : Stmt Expr :=
  .Switch 1 (.Prim .Sint) [2, 3, 4] (.compound
    [.Case 2 (.Const (.ofInt 1 (by decide))) 1, .Case 3 (.Const (.ofInt 1 (by decide))) 1,
      .Default 4 1])

/-- `switch (x) { case -1: case 4294967295u: }` with an `int` -/
def sameInInt : Stmt Expr :=
  .Switch 1 (.Prim .Sint) [2, 3] (.compound
    [.Case 2 (.Unary .UMINUS (.Const (.ofInt 1 (by decide)))) 1,
      .Case 3 (.Const ⟨.Uint, 4294967295, by decide⟩) 1])

end Cilk.CaseLabels
