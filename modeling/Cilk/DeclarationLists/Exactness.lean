import Cilk.DeclarationLists.Types

/-!
# When a declaration list means the same as separate declarations

A declarator behind the first one gets the type that is left on the base of the
first one, and what the `Decl` of the first one has. So it is declared as in a
declaration of its own exactly when nothing of the specifiers has been moved
where it is not found again, and nothing of the first one is more than the
specifiers give.

* The specifiers are not parsed into a pointer, an array or a function, as
  those of `typeof` may be, and they do not hold the members of a structure, a
  union or an enumeration.
* A declarator of a function has no `inline` to get, unless that is an error, and
  one of a function or a pointer to a function no `cilk` and no `inlet`.
* The attributes of the first declarator are among those that it has itself or
  by the specifiers.
* If the first one is marked as a redundant declaration, it is so too or has an
  initializer.

A parameter of an old-style function definition with a storage class that is
illegal loses it with the attributes, so there the first one cannot hand on
more than its attributes and the mark.
-/

namespace Cilk.DeclarationLists

variable (c : Context) (redeclare : ScopeState)

/-! ## Types -/

/-- What is left of the qualifiers of the base type after `FinishDecl`. -/
def bare (tq : TypeQual) : TypeQual := tq_remove_all_decl_quals (unqualified tq)

/-- The type of a later declarator is that of a declaration of its own. -/
structure TypeKept (S : Specifiers) (d : Declarator) : Prop where
  base : S.type.isBase = true
  tag : NodeCopy S.type = S.type
  inline : IsFunctionType (SetBaseType d.modifiers S.type) = true → S.tq.inline = true →
    c.ANSIOnly = true
  qualifiers : takesQualifiers (SetBaseType d.modifiers S.type) = true →
    S.tq.procedure = false ∧ S.tq.inlet = false

theorem FinishType_of_kept {t : TypeNode}
    (hinline : IsFunctionType t = true → (NodeTq (GetDeepBaseType t)).inline = true →
      c.ANSIOnly = true)
    (hqual : takesQualifiers t = true → (NodeTq (GetDeepBaseType t)).procedure = false ∧
      (NodeTq (GetDeepBaseType t)).inlet = false) :
    FinishType c t = some (updateDeepBase unqualified t) := by
  cases htakes : takesQualifiers t
  case false => exact FinishType_of_not_takes c htakes
  case true =>
    obtain ⟨hproc, hinlet⟩ := hqual htakes
    have hmove : moveInline c (NodeTq (GetDeepBaseType t)).inline t
        = updateDeepBase tq_remove_inline t := by
      cases hfun : IsFunctionType t
      case false => exact moveInline_of_not_function c (.inl hfun)
      case true =>
        cases hq : (NodeTq (GetDeepBaseType t)).inline
        case false => exact (updateDeepBase_eq_self (remove_inline_of_not hq)).symm
        case true =>
          rw [← hq]
          exact moveInline_of_not_function c (.inr (hinline hfun hq))
    have hunqualified : updateDeepBase unqualified t = updateDeepBase tq_remove_inline t := by
      rw [unqualified_eq, ← updateDeepBase_comp]
      refine updateDeepBase_eq_self ?_
      rw [GetDeepBaseType_updateDeepBase, NodeTq_NodeUpdateTq]
      have hproc' : (tq_remove_inline (NodeTq (GetDeepBaseType t))).procedure = false := hproc
      have hinlet' : (tq_remove_inline (NodeTq (GetDeepBaseType t))).inlet = false := hinlet
      show tq_remove_inlet (tq_remove_procedure (tq_remove_inline _)) = _
      rw [remove_procedure_of_not hproc', remove_inlet_of_not hinlet']
    unfold FinishType
    dsimp only
    rw [hmove, hproc, hinlet, hunqualified]
    rfl

/-- The qualifiers of the function that a type is or points to. -/
def functionTq : TypeNode → TypeQual
  | .Fdcl tq _ _ | .Ptr _ (.Fdcl tq _ _) => tq
  | _ => EMPTY_TQ

theorem functionTq_updateDeepBase (f : TypeQual → TypeQual) (t : TypeNode) :
    functionTq (updateDeepBase f t) = functionTq t := by
  cases t with
  | Ptr tq type => cases type <;> rfl
  | _ => rfl

theorem functionTq_of_demote {t : TypeNode} (h : functionTq (demote t) = EMPTY_TQ) :
    functionTq t = EMPTY_TQ := by
  cases t with
  | Adcl => rfl
  | _ => exact h

theorem functionTq_SetBaseType (chain : List Modifier) {b : TypeNode} (hb : b.isBase = true) :
    functionTq (SetBaseType chain b) = EMPTY_TQ := by
  cases chain with
  | nil => cases b <;> first | rfl | cases hb
  | cons m chain =>
    cases m with
    | Ptr tq =>
      cases chain with
      | nil => cases b <;> first | rfl | cases hb
      | cons m chain => cases m <;> rfl
    | _ => rfl

theorem functionTq_demote_SetBaseType (chain : List Modifier) {b : TypeNode}
    (hb : b.isBase = true) : functionTq (demote (SetBaseType chain b)) = EMPTY_TQ := by
  cases chain with
  | nil => cases b <;> first | rfl | cases hb
  | cons m chain =>
    cases m with
    | Adcl dim => exact functionTq_SetBaseType (.Ptr EMPTY_TQ :: chain) hb
    | Ptr tq => exact functionTq_SetBaseType (.Ptr tq :: chain) hb
    | Fdcl args => rfl

/-- **A function without qualifiers** has been given none. -/
theorem kept_of_functionTq {t u : TypeNode} (h : FinishType c t = some u)
    (hu : functionTq u = EMPTY_TQ) :
    (IsFunctionType t = true → (NodeTq (GetDeepBaseType t)).inline = true → c.ANSIOnly = true) ∧
    (takesQualifiers t = true → (NodeTq (GetDeepBaseType t)).procedure = false ∧
      (NodeTq (GetDeepBaseType t)).inlet = false) := by
  cases t with
  | Fdcl tq args returns =>
    rw [FinishType_function] at h
    obtain rfl := Option.some.inj h
    have hbase : GetDeepBaseType (.Fdcl tq args returns) = GetDeepBaseType returns := rfl
    rw [hbase]
    generalize NodeTq (GetDeepBaseType returns) = q at hu ⊢
    have hinline := congrArg TypeQual.inline hu
    have hproc := congrArg TypeQual.procedure hu
    have hinlet := congrArg TypeQual.inlet hu
    cases hi : q.inline <;> cases hp : q.procedure <;> cases hl : q.inlet <;>
      cases ha : c.ANSIOnly <;>
      simp_all [functionTq, EMPTY_TQ, tq_add_inline, tq_add_procedure, tq_add_inlet]
  | Ptr tq type =>
    cases type with
    | Fdcl tq' args returns =>
      rw [FinishType_pointer] at h
      obtain rfl := Option.some.inj h
      have hbase : GetDeepBaseType (.Ptr tq (.Fdcl tq' args returns)) = GetDeepBaseType returns := rfl
      rw [hbase]
      generalize NodeTq (GetDeepBaseType returns) = q at hu ⊢
      have hproc := congrArg TypeQual.procedure hu
      have hinlet := congrArg TypeQual.inlet hu
      refine ⟨nofun, fun _ => ?_⟩
      cases hp : q.procedure <;> cases hl : q.inlet <;>
        simp_all [functionTq, EMPTY_TQ, tq_add_procedure, tq_add_inlet]
    | _ => exact ⟨nofun, nofun⟩
  | Tdef tq name type =>
    refine ⟨nofun, fun hstuck => ?_⟩
    have hsome := mt (FinishType_eq_none_iff c).mpr (h ▸ Option.some_ne_none u)
    rw [not_and_or, not_or, Bool.not_eq_true, Bool.not_eq_true, Bool.not_eq_true] at hsome
    exact hsome.resolve_left fun hnot => Bool.false_ne_true (hnot.symm.trans hstuck)
  | _ => exact ⟨nofun, nofun⟩

theorem isBase_NodeUpdateTq (f : TypeQual → TypeQual) (t : TypeNode) :
    (NodeUpdateTq f t).isBase = t.isBase := by
  cases t <;> rfl

theorem isBase_NodeCopy (t : TypeNode) : (NodeCopy t).isBase = t.isBase := by
  cases t <;> rfl

theorem NodeCopy_NodeUpdateTq_bare (t : TypeNode) :
    NodeCopy (NodeUpdateTq bare t) = NodeUpdateTq bare t ↔ NodeCopy t = t := by
  cases t with
  | Sue kind tq type =>
    show TypeNode.Sue kind (tq_remove_sue_elaborated (bare tq)) type = .Sue kind (bare tq) type ↔
      TypeNode.Sue kind (tq_remove_sue_elaborated tq) type = .Sue kind tq type
    rw [TypeNode.Sue.injEq, TypeNode.Sue.injEq, TypeQual.ext_iff, TypeQual.ext_iff]
    simp [tq_remove_sue_elaborated, bare, tq_remove_all_decl_quals, unqualified]
  | _ => exact iff_of_true rfl rfl

/-- A parameter that is an array may be turned into a pointer. -/
def demoteIf (b : Bool) (t : TypeNode) : TypeNode := if b then demote t else t

theorem depth_demoteIf (b : Bool) (t : TypeNode) : (demoteIf b t).depth = t.depth := by
  cases b
  · rfl
  · exact depth_demote t

theorem GetDeepBaseType_demoteIf (b : Bool) (t : TypeNode) :
    GetDeepBaseType (demoteIf b t) = GetDeepBaseType t := by
  cases b
  · rfl
  · exact GetDeepBaseType_demote t

/-- The base type that is left for a later declarator. -/
def Specifiers.left (S : Specifiers) : TypeNode := NodeUpdateTq bare (GetDeepBaseType S.type)

theorem Specifiers.isBase_left (S : Specifiers) : S.left.isBase = true :=
  (isBase_NodeUpdateTq bare _).trans (isBase_GetDeepBaseType S.type)

theorem NodeTq_SetBaseType (S : Specifiers) (d : Declarator) :
    NodeTq (GetDeepBaseType (SetBaseType d.modifiers S.type)) = S.tq := by
  rw [GetDeepBaseType_SetBaseType]
  rfl

/-- **The types are the same** exactly when nothing that is to be found again has
been moved. -/
theorem type_same_iff {S : Specifiers} {d : Declarator} {u : TypeNode} (b : Bool)
    (h : FinishType c (SetBaseType d.modifiers S.type) = some u) :
    demoteIf b (SetBaseType d.modifiers (NodeCopy S.left))
        = demoteIf b (updateDeepBase tq_remove_all_decl_quals u) ↔ TypeKept c S d := by
  have hleft : (NodeCopy S.left).isBase = true := (isBase_NodeCopy _).trans S.isBase_left
  constructor
  · intro heq
    have hbase : S.type.isBase = true := by
      have hdepth := congrArg TypeNode.depth heq
      rw [depth_demoteIf, depth_demoteIf, depth_SetBaseType, depth_updateDeepBase,
        depth_FinishType c h, depth_SetBaseType, depth_eq_zero_iff.mpr hleft] at hdepth
      exact depth_eq_zero_iff.mp (by omega)
    have htag : NodeCopy S.type = S.type := by
      have hdeep := congrArg GetDeepBaseType heq
      rw [GetDeepBaseType_demoteIf, GetDeepBaseType_demoteIf, GetDeepBaseType_SetBaseType,
        GetDeepBaseType_updateDeepBase, GetDeepBaseType_FinishType c h,
        GetDeepBaseType_SetBaseType, GetDeepBaseType_of_isBase hleft, NodeUpdateTq_comp,
        GetDeepBaseType_of_isBase hbase] at hdeep
      refine (NodeCopy_NodeUpdateTq_bare S.type).mp ?_
      unfold Specifiers.left at hdeep
      rw [GetDeepBaseType_of_isBase hbase] at hdeep
      exact hdeep
    have hfun : functionTq u = EMPTY_TQ := by
      have hsame := congrArg functionTq heq
      rw [← functionTq_updateDeepBase tq_remove_all_decl_quals u]
      cases b
      case false => exact hsame.symm.trans (functionTq_SetBaseType _ hleft)
      case true =>
        exact functionTq_of_demote (hsame.symm.trans (functionTq_demote_SetBaseType _ hleft))
    have hkept := kept_of_functionTq c h hfun
    rw [NodeTq_SetBaseType] at hkept
    exact ⟨hbase, htag, hkept.1, hkept.2⟩
  · rintro ⟨hbase, htag, hinline, hqual⟩
    have hfinish := FinishType_of_kept c (t := SetBaseType d.modifiers S.type)
      (by rw [NodeTq_SetBaseType]; exact hinline) (by rw [NodeTq_SetBaseType]; exact hqual)
    obtain rfl := Option.some.inj (h.symm.trans hfinish)
    rw [updateDeepBase_comp, updateDeepBase_SetBaseType, updateDeepBase_of_isBase _ hbase]
    unfold Specifiers.left
    rw [GetDeepBaseType_of_isBase hbase, (NodeCopy_NodeUpdateTq_bare S.type).mpr htag]
    rfl

/-! ## What `declare` does -/

/-- A parameter that is not a name of a type. -/
def demotes (sc : BitVec 3) : Bool := scopeState c redeclare = .Formal && sc ≠ T_TYPEDEF

/-- The storage class is dropped. -/
def Dropped (sc : BitVec 3) : Prop :=
  scopeState c redeclare = .Formal ∧ illegalStorageClass sc ∧ sc ≠ T_TYPEDEF

instance (sc : BitVec 3) : Decidable (Dropped c redeclare sc) :=
  inferInstanceAs (Decidable (_ ∧ _ ∧ _))

/-- The declaration is marked as a redundant one. -/
def marked (t : Tables) (sc : BitVec 3) (type : TypeNode) (name : String) : Bool :=
  match insertExternals c redeclare t sc type name with
  | none => false
  | some (conflict, t) => conflict && t.lookup name

/-- The tables after the declaration. -/
def tablesAfter (t : Tables) (sc : BitVec 3) (type : TypeNode) (name : String) : Tables :=
  match insertExternals c redeclare t sc type name with
  | none => t
  | some (_, t) => insertDeclared c redeclare t name

theorem locate_type (t : Tables) (sc : BitVec 3) (decl : Decl TypeNode) :
    (locate c redeclare t sc decl).type = demoteIf (demotes c redeclare sc) decl.type := by
  unfold locate demotes demoteIf
  cases scopeState c redeclare with
  | Formal =>
    by_cases hsc : sc = T_TYPEDEF
    · subst hsc
      rfl
    · simp [hsc]
  | _ => rfl

theorem locate_tq_of_dropped {sc : BitVec 3} (h : Dropped c redeclare sc) (t : Tables)
    (decl : Decl TypeNode) : (locate c redeclare t sc decl).tq
      = tq_remove_all_storage_classes (tq_set_decl_location decl.tq T_FORMAL_DECL) := by
  obtain ⟨hstate, hill, hsc⟩ := h
  unfold locate
  rw [hstate]
  show (if _ then _ else _ : Decl TypeNode).tq = _
  rw [if_neg fun h => hsc h.2]
  exact if_pos hill

theorem locate_tq_of_not_dropped {sc : BitVec 3} (h : ¬ Dropped c redeclare sc) (t : Tables)
    (decl : Decl TypeNode) :
    ∃ location, (locate c redeclare t sc decl).tq = tq_set_decl_location decl.tq location := by
  unfold locate
  cases hstate : scopeState c redeclare with
  | Formal =>
    refine ⟨T_FORMAL_DECL, ?_⟩
    show (if _ then _ else _ : Decl TypeNode).tq = _
    by_cases hsc : illegalStorageClass sc ∧ sc = T_TYPEDEF
    · rw [if_pos hsc]
    · rw [if_neg hsc]
      exact if_neg fun hill => h ⟨hstate, hill, fun heq => hsc ⟨hill, heq⟩⟩
  | _ => exact ⟨_, rfl⟩

theorem locate_storage_class (t : Tables) (sc : BitVec 3) (decl : Decl TypeNode) :
    (locate c redeclare t sc decl).tq.storage_class
      = if Dropped c redeclare sc then 0 else decl.tq.storage_class := by
  split
  case isTrue h => rw [locate_tq_of_dropped c redeclare h]; rfl
  case isFalse h =>
    obtain ⟨location, hlocation⟩ := locate_tq_of_not_dropped c redeclare h t decl
    rw [hlocation]
    rfl

theorem locate_attributes (t : Tables) (sc : BitVec 3) (decl : Decl TypeNode) :
    (locate c redeclare t sc decl).tq.attributes
      = if Dropped c redeclare sc then [] else decl.tq.attributes := by
  split
  case isTrue h => rw [locate_tq_of_dropped c redeclare h]; rfl
  case isFalse h =>
    obtain ⟨location, hlocation⟩ := locate_tq_of_not_dropped c redeclare h t decl
    rw [hlocation]
    rfl

theorem locate_redundant (t : Tables) (sc : BitVec 3) (decl : Decl TypeNode) :
    (locate c redeclare t sc decl).tq.redundant_external_decl
      = decl.tq.redundant_external_decl := by
  by_cases h : Dropped c redeclare sc
  · rw [locate_tq_of_dropped c redeclare h]
    rfl
  · obtain ⟨location, hlocation⟩ := locate_tq_of_not_dropped c redeclare h t decl
    rw [hlocation]
    rfl

/-- The function returns early only outside of the parameters of a function. -/
theorem scopeState_of_insertExternals_eq_none {t : Tables} {sc : BitVec 3} {type : TypeNode}
    {name : String} (h : insertExternals c redeclare t sc type name = none) :
    scopeState c redeclare ≠ .Formal := by
  unfold insertExternals at h
  split at h
  · cases h
  · split at h
    case isTrue hfun => exact hfun.2
    case isFalse =>
      split at h
      · split at h <;> cases h
      · cases h

theorem declare_spec (t : Tables) (decl : Decl TypeNode) :
    let sc := decl.tq.storage_class
    let r := declare c redeclare t decl
    r.1.type = demoteIf (demotes c redeclare sc) decl.type ∧
    r.1.tq.storage_class = (if Dropped c redeclare sc then 0 else sc) ∧
    r.1.tq.attributes = (if Dropped c redeclare sc then [] else decl.tq.attributes) ∧
    r.1.tq.redundant_external_decl
      = (decl.tq.redundant_external_decl || marked c redeclare t sc decl.type decl.name) ∧
    r.2 = tablesAfter c redeclare t sc decl.type decl.name := by
  dsimp only
  unfold declare marked tablesAfter
  dsimp only
  cases hins : insertExternals c redeclare t decl.tq.storage_class decl.type decl.name with
  | none =>
    have hstate := scopeState_of_insertExternals_eq_none c redeclare hins
    have hdrop : ¬ Dropped c redeclare decl.tq.storage_class := fun h => hstate h.1
    have hdemote : demotes c redeclare decl.tq.storage_class = false := by
      unfold demotes
      rw [decide_eq_false hstate, Bool.false_and]
    rw [if_neg hdrop, if_neg hdrop, hdemote, Bool.or_false]
    exact ⟨rfl, rfl, rfl, rfl, rfl⟩
  | some r =>
    dsimp only
    rw [locate_type, locate_storage_class, locate_attributes, locate_redundant]
    cases hmark : r.1 && r.2.lookup decl.name
    · rw [Bool.or_false]
      exact ⟨rfl, rfl, rfl, rfl, rfl⟩
    · rw [Bool.or_true]
      exact ⟨rfl, rfl, rfl, rfl, rfl⟩

/-- The insertion depends only on the kind of the type. -/
theorem insertExternals_congr {type type' : TypeNode} (h : SameKind type type') (t : Tables)
    (sc : BitVec 3) (name : String) :
    insertExternals c redeclare t sc type' name = insertExternals c redeclare t sc type name := by
  unfold insertExternals
  rw [h.function, h.id]

theorem marked_congr {type type' : TypeNode} (h : SameKind type type') (t : Tables)
    (sc : BitVec 3) (name : String) :
    marked c redeclare t sc type' name = marked c redeclare t sc type name := by
  unfold marked
  rw [insertExternals_congr c redeclare h]

theorem tablesAfter_congr {type type' : TypeNode} (h : SameKind type type') (t : Tables)
    (sc : BitVec 3) (name : String) :
    tablesAfter c redeclare t sc type' name = tablesAfter c redeclare t sc type name := by
  unfold tablesAfter
  rw [insertExternals_congr c redeclare h]

/-- A parameter without a storage class is not looked for. -/
theorem marked_of_formal (h : scopeState c redeclare = .Formal) (t : Tables) (type : TypeNode)
    (name : String) : marked c redeclare t 0 type name = false := by
  have hins : insertExternals c redeclare t 0 type name = some (false, t) := by
    unfold insertExternals
    rw [if_neg (by decide), if_neg (fun hfun => hfun.2 h), if_neg]
    rintro (hext | hlevel)
    · revert hext
      decide
    · rw [h] at hlevel
      cases hlevel.2
  unfold marked
  rw [hins]
  rfl

/-! ## Attributes -/

/-- What attributes say. -/
def texts (attributes : List Attribute) : List String := attributes.map Attribute.text

theorem mem_UnionLists {a b : List Attribute} {x : Attribute} :
    x ∈ UnionLists a b ↔ x ∈ a ∨ x ∈ b := by
  induction a with
  | nil => exact (or_iff_right List.not_mem_nil).symm
  | cons y a ih =>
    unfold UnionLists
    split
    case isTrue hy =>
      rw [ih, List.mem_cons]
      constructor
      · rintro (h | h)
        · exact .inl (.inr h)
        · exact .inr h
      · rintro ((rfl | h) | h)
        · exact .inr hy
        · exact .inl h
        · exact .inr h
    case isFalse => rw [List.mem_cons, List.mem_cons, ih, or_assoc]

theorem mem_texts_union {a b : List Attribute} {x : String} :
    x ∈ texts (UnionLists a b) ↔ x ∈ texts a ∨ x ∈ texts b := by
  unfold texts
  simp only [List.mem_map, mem_UnionLists]
  constructor
  · rintro ⟨y, hy | hy, rfl⟩
    · exact .inl ⟨y, hy, rfl⟩
    · exact .inr ⟨y, hy, rfl⟩
  · rintro (⟨y, hy, rfl⟩ | ⟨y, hy, rfl⟩)
    · exact ⟨y, .inl hy, rfl⟩
    · exact ⟨y, .inr hy, rfl⟩

/-! ## What is built for a declarator -/

theorem SetDeclType_spec (t : Tables) (decl : Decl (List Modifier)) {type u : TypeNode}
    (h : FinishType c (SetBaseType decl.type type) = some u) :
    let q := NodeTq (GetDeepBaseType type)
    let sc := decl.tq.storage_class ||| q.storage_class
    ∃ r, SetDeclType c redeclare t decl type = some r ∧
      r.1.type = demoteIf (demotes c redeclare sc) (updateDeepBase tq_remove_all_decl_quals u) ∧
      r.1.tq.storage_class = (if Dropped c redeclare sc then 0 else sc) ∧
      r.1.tq.attributes
        = (if Dropped c redeclare sc then [] else UnionLists decl.tq.attributes q.attributes) ∧
      r.1.tq.redundant_external_decl
        = ((decl.tq.redundant_external_decl || q.redundant_external_decl) ||
          marked c redeclare t sc (SetBaseType decl.type type) decl.name) ∧
      r.2 = tablesAfter c redeclare t sc (SetBaseType decl.type type) decl.name := by
  dsimp only
  have hq : NodeTq (GetDeepBaseType u) = unqualified (NodeTq (GetDeepBaseType type)) := by
    rw [GetDeepBaseType_FinishType c h, NodeTq_NodeUpdateTq, GetDeepBaseType_SetBaseType]
  have hkind : SameKind (SetBaseType decl.type type) (updateDeepBase tq_remove_all_decl_quals u) :=
    (sameKind_FinishType c h).trans (sameKind_updateDeepBase _ u)
  have hset : SetDeclType c redeclare t decl type = some (declare c redeclare t
      ⟨decl.name, updateDeepBase tq_remove_all_decl_quals u,
        tq_union decl.tq (tq_decl_quals (unqualified (NodeTq (GetDeepBaseType type)))),
        decl.asmdecl, decl.init⟩) := by
    unfold SetDeclType FinishDecl
    dsimp only
    rw [h, ← hq]
    rfl
  have hspec := declare_spec c redeclare t ⟨decl.name, updateDeepBase tq_remove_all_decl_quals u,
    tq_union decl.tq (tq_decl_quals (unqualified (NodeTq (GetDeepBaseType type)))),
    decl.asmdecl, decl.init⟩
  dsimp only at hspec
  rw [marked_congr c redeclare hkind, tablesAfter_congr c redeclare hkind] at hspec
  exact ⟨_, hset, hspec⟩

theorem SetDeclType_eq_none {t : Tables} {decl : Decl (List Modifier)} {type : TypeNode}
    (h : FinishType c (SetBaseType decl.type type) = none) :
    SetDeclType c redeclare t decl type = none := by
  unfold SetDeclType FinishDecl
  dsimp only
  rw [h]
  rfl

theorem finish_attributes (d : Declarator) (x : Decl TypeNode) :
    (d.finish x).tq.attributes = UnionLists x.tq.attributes d.attribs := by
  unfold Declarator.finish SetDeclInit
  dsimp only
  split <;> rfl

theorem finish_storage_class (d : Declarator) (x : Decl TypeNode) :
    (d.finish x).tq.storage_class = x.tq.storage_class := by
  unfold Declarator.finish SetDeclInit
  dsimp only
  split <;> exact BitVec.or_zero

theorem finish_redundant (d : Declarator) (x : Decl TypeNode) :
    (d.finish x).tq.redundant_external_decl
      = (x.tq.redundant_external_decl && d.init.isNone) := by
  unfold Declarator.finish SetDeclInit
  dsimp only
  cases d.init with
  | none =>
    show (x.tq.redundant_external_decl || false) = (x.tq.redundant_external_decl && true)
    rw [Bool.or_false, Bool.and_true]
  | some init => exact (Bool.and_false _).symm

/-- Where the declarator is marked, when it is declared with the specifiers. -/
def markedAt (S : Specifiers) (t : Tables) (d : Declarator) : Bool :=
  marked c redeclare t S.tq.storage_class (SetBaseType d.modifiers S.type) d.name

/-- The tables after it. -/
def tablesAt (S : Specifiers) (t : Tables) (d : Declarator) : Tables :=
  tablesAfter c redeclare t S.tq.storage_class (SetBaseType d.modifiers S.type) d.name

/-- What is built for a declarator with specifiers of its own. -/
structure Described (S : Specifiers) (t : Tables) (d : Declarator) (u : TypeNode)
    (x : Decl TypeNode) : Prop where
  type : x.type = demoteIf (demotes c redeclare S.tq.storage_class)
    (updateDeepBase tq_remove_all_decl_quals u)
  storage_class : x.tq.storage_class
    = if Dropped c redeclare S.tq.storage_class then 0 else S.tq.storage_class
  redundant : x.tq.redundant_external_decl = (markedAt c redeclare S t d && d.init.isNone)
  attributes : ∀ text, text ∈ texts x.tq.attributes ↔
    (¬ Dropped c redeclare S.tq.storage_class ∧
      (text ∈ texts d.own ∨ text ∈ texts S.attribs ∨ text ∈ texts S.tq.attributes)) ∨
    text ∈ texts d.attribs

theorem firstDecl_spec (S : Specifiers) (t : Tables) (d : Declarator) {u : TypeNode}
    (h : FinishType c (SetBaseType d.modifiers S.type) = some u) :
    ∃ x, firstDecl c redeclare S t d = some (x, tablesAt c redeclare S t d) ∧
      Described c redeclare S t d u x := by
  obtain ⟨r, hr, htype, hsc, hattr, hred, htables⟩ :=
    SetDeclType_spec c redeclare t (SetDeclAttribs d.decl S.attribs) h
  have hzero : (SetDeclAttribs d.decl S.attribs).tq.storage_class
      ||| (NodeTq (GetDeepBaseType S.type)).storage_class = S.tq.storage_class := by
    show (0#3 ||| 0#3) ||| S.tq.storage_class = S.tq.storage_class
    rw [BitVec.zero_or, BitVec.zero_or]
  rw [hzero] at htype hsc hattr hred htables
  refine ⟨d.finish r.1, ?_, ?_, ?_, ?_, ?_⟩
  · unfold firstDecl
    rw [hr, Option.map_some, htables]
    rfl
  · exact htype
  · rw [finish_storage_class, hsc]
  · rw [finish_redundant, hred, show (NodeTq (GetDeepBaseType S.type)).redundant_external_decl
      = false from S.parsed]
    rfl
  · intro text
    rw [finish_attributes, mem_texts_union, hattr]
    refine or_congr_left ?_
    split
    case isTrue hdrop => exact iff_of_false List.not_mem_nil fun hnot => hnot.1 hdrop
    case isFalse hdrop =>
      rw [mem_texts_union]
      show text ∈ texts (UnionLists d.own S.attribs) ∨ text ∈ texts S.tq.attributes ↔ _
      rw [mem_texts_union, or_assoc, and_iff_right hdrop]

/-- What is left of the base type has nothing that could be moved. -/
theorem bare_left (S : Specifiers) : bare (NodeTq (NodeCopy S.left)) = NodeTq (NodeCopy S.left) := by
  unfold Specifiers.left
  cases GetDeepBaseType S.type <;> rfl

/-- The storage class that the first declarator hands on. -/
def handedOn (S : Specifiers) : BitVec 3 :=
  if Dropped c redeclare S.tq.storage_class then 0 else S.tq.storage_class

theorem not_dropped_handedOn (S : Specifiers) : ¬ Dropped c redeclare (handedOn c redeclare S) := by
  unfold handedOn
  split
  case isTrue => exact fun h => h.2.1.1 rfl
  case isFalse h => exact h

theorem demotes_handedOn (S : Specifiers) :
    demotes c redeclare (handedOn c redeclare S) = demotes c redeclare S.tq.storage_class := by
  unfold handedOn
  split
  case isTrue h =>
    unfold demotes
    rw [decide_eq_true h.2.2]
    rfl
  case isFalse => rfl

/-- A declarator behind the first one. -/
theorem AppendDecl_spec (S : Specifiers) (t₀ t : Tables) (d₁ d : Declarator)
    {u₁ : TypeNode} {x₁ : Decl TypeNode}
    (hu₁ : FinishType c (SetBaseType d₁.modifiers S.type) = some u₁)
    (hx₁ : Described c redeclare S t₀ d₁ u₁ x₁) :
    let sc := handedOn c redeclare S
    let type := SetBaseType d.modifiers (NodeCopy S.left)
    ∃ r, AppendDecl c redeclare t x₁ d.decl = some r ∧
      r.2 = tablesAfter c redeclare t sc type d.name ∧
      (d.finish r.1).type = demoteIf (demotes c redeclare S.tq.storage_class) type ∧
      (d.finish r.1).tq.storage_class = sc ∧
      (d.finish r.1).tq.redundant_external_decl
        = (((markedAt c redeclare S t₀ d₁ && d₁.init.isNone) ||
          marked c redeclare t sc type d.name) && d.init.isNone) ∧
      ∀ text, text ∈ texts (d.finish r.1).tq.attributes ↔
        (text ∈ texts d.own ∨ text ∈ texts x₁.tq.attributes) ∨ text ∈ texts d.attribs := by
  dsimp only
  have hdeep : GetDeepBaseType x₁.type = S.left := by
    rw [hx₁.type, GetDeepBaseType_demoteIf, GetDeepBaseType_updateDeepBase,
      GetDeepBaseType_FinishType c hu₁, GetDeepBaseType_SetBaseType, NodeUpdateTq_comp]
    rfl
  have hbase : GetDeepBaseType (NodeCopy S.left) = NodeCopy S.left :=
    GetDeepBaseType_of_isBase ((isBase_NodeCopy _).trans S.isBase_left)
  have hbare := bare_left S
  have hchain : NodeTq (GetDeepBaseType (SetBaseType d.modifiers (NodeCopy S.left)))
      = NodeTq (NodeCopy S.left) := by
    rw [GetDeepBaseType_SetBaseType, hbase]
  -- the base that is copied has no qualifiers left that could be moved
  have hfinish : FinishType c (SetBaseType d.modifiers (NodeCopy S.left))
      = some (updateDeepBase unqualified (SetBaseType d.modifiers (NodeCopy S.left))) := by
    refine FinishType_of_kept c ?_ ?_
    · rw [hchain, ← hbare]
      exact fun _ h => nomatch h
    · rw [hchain, ← hbare]
      exact fun _ => ⟨rfl, rfl⟩
  have hkeep : updateDeepBase tq_remove_all_decl_quals
      (updateDeepBase unqualified (SetBaseType d.modifiers (NodeCopy S.left)))
        = SetBaseType d.modifiers (NodeCopy S.left) := by
    rw [updateDeepBase_comp]
    refine updateDeepBase_eq_self ?_
    rw [hchain]
    exact hbare
  have hsc : (tq_union d.decl.tq x₁.tq).storage_class
      ||| (NodeTq (GetDeepBaseType (NodeCopy S.left))).storage_class = handedOn c redeclare S := by
    rw [hbase, ← hbare]
    show (0#3 ||| x₁.tq.storage_class) ||| 0#3 = _
    rw [BitVec.zero_or, BitVec.or_zero, hx₁.storage_class]
    rfl
  obtain ⟨r, hr, htype, hstorage, hattr, hred, htables⟩ := SetDeclType_spec c redeclare t
    { d.decl with tq := tq_union d.decl.tq x₁.tq } hfinish
  dsimp only at hr htype hstorage hattr hred htables
  rw [hsc] at htype hstorage hattr hred htables
  rw [if_neg (not_dropped_handedOn c redeclare S)] at hstorage hattr
  rw [hkeep, demotes_handedOn] at htype
  refine ⟨r, ?_, htables, ?_, ?_, ?_, ?_⟩
  · unfold AppendDecl
    rw [hdeep]
    exact hr
  · exact htype
  · rw [finish_storage_class, hstorage]
  · rw [finish_redundant, hred, hbase, ← hbare]
    show ((((false || x₁.tq.redundant_external_decl) || false) || _) && _) = _
    rw [Bool.false_or, Bool.or_false, hx₁.redundant]
    rfl
  · intro text
    rw [finish_attributes, mem_texts_union, hattr, mem_texts_union, hbase, ← hbare]
    show (text ∈ texts (UnionLists d.own x₁.tq.attributes) ∨ text ∈ ([] : List String)) ∨ _ ↔ _
    rw [mem_texts_union, or_iff_left (show text ∉ ([] : List String) from List.not_mem_nil)]

/-! ## The declarations of a list -/

/-- **The same declaration**: the type with the qualifiers of functions, the
storage class, the attributes, and the mark of a redundant one. -/
structure Decl.SameAs (x y : Decl TypeNode) : Prop where
  type : x.type = y.type
  storage_class : x.tq.storage_class = y.tq.storage_class
  attributes : ∀ text, text ∈ texts x.tq.attributes ↔ text ∈ texts y.tq.attributes
  redundant : x.tq.redundant_external_decl = y.tq.redundant_external_decl

/-- The same declarations, or none. -/
def SameDecls : Option (List (Decl TypeNode)) → Option (List (Decl TypeNode)) → Prop
  | some xs, some ys => List.Forall₂ Decl.SameAs xs ys
  | none, none => True
  | _, _ => False

/-- The first declarator hands on the mark of a redundant declaration. -/
def handsMark (S : Specifiers) (t : Tables) (d₁ : Declarator) : Bool :=
  markedAt c redeclare S t d₁ && d₁.init.isNone

/-- **A declarator behind `d₁` is declared as on its own**, with the tables `t` that
are found then. -/
structure Kept (S : Specifiers) (t₀ : Tables) (d₁ : Declarator) (t : Tables) (d : Declarator) :
    Prop where
  type : TypeKept c S d
  attributes : if Dropped c redeclare S.tq.storage_class then
      texts (d.own ++ d₁.attribs) ⊆ texts d.attribs
    else
      texts (d₁.own ++ d₁.attribs) ⊆ texts (d.own ++ S.attribs ++ S.tq.attributes ++ d.attribs)
  redundant : d.init = none → if Dropped c redeclare S.tq.storage_class then
      handsMark c redeclare S t₀ d₁ = markedAt c redeclare S t d
    else handsMark c redeclare S t₀ d₁ = true → markedAt c redeclare S t d = true

/-- All the declarators behind `d₁` are. -/
def AllKept (S : Specifiers) (t₀ : Tables) (d₁ : Declarator) : Tables → List Declarator → Prop
  | _, [] => True
  | t, d :: ds => Kept c redeclare S t₀ d₁ t d ∧ AllKept S t₀ d₁ (tablesAt c redeclare S t d) ds

/-- The first declarator is the name of a pointer to a function, and the qualifier
of a function is looked for in it. -/
def Stuck (S : Specifiers) (d₁ : Declarator) : Prop :=
  stuckType (SetBaseType d₁.modifiers S.type) = true ∧
    (S.tq.procedure = true ∨ S.tq.inlet = true)

variable {c redeclare}

theorem finishType_none_iff {S : Specifiers} {d : Declarator} :
    FinishType c (SetBaseType d.modifiers S.type) = none ↔ Stuck S d := by
  rw [FinishType_eq_none_iff, NodeTq_SetBaseType]
  rfl

theorem TypeKept.finish {S : Specifiers} {d : Declarator} (h : TypeKept c S d) :
    FinishType c (SetBaseType d.modifiers S.type)
      = some (updateDeepBase unqualified (SetBaseType d.modifiers S.type)) := by
  refine FinishType_of_kept c ?_ ?_
  · rw [NodeTq_SetBaseType]
    exact h.inline
  · rw [NodeTq_SetBaseType]
    exact h.qualifiers

/-- The types of a later declarator are of one kind when they are the same. -/
theorem TypeKept.type_eq {S : Specifiers} {d : Declarator} (h : TypeKept c S d) :
    SameKind (SetBaseType d.modifiers S.type) (SetBaseType d.modifiers (NodeCopy S.left)) := by
  have hsame := (type_same_iff c false h.finish).mpr h
  show SameKind _ (demoteIf false _)
  rw [hsame]
  exact (sameKind_updateDeepBase _ _).trans (sameKind_updateDeepBase _ _)

variable {S : Specifiers} {t₀ t t' : Tables} {d₁ d : Declarator} {u₁ u : TypeNode}
  {x₁ x : Decl TypeNode}

/-- What the first declarator has more than the specifiers has to be found on the
other one. -/
theorem handed_attributes_iff {own own₁ attribs attribs₁ behind base : List String} {drop : Prop}
    [Decidable drop] :
    (∀ text, ((text ∈ own ∨ (¬ drop ∧ (text ∈ own₁ ∨ text ∈ behind ∨ text ∈ base)) ∨
        text ∈ attribs₁) ∨ text ∈ attribs) ↔
      (¬ drop ∧ (text ∈ own ∨ text ∈ behind ∨ text ∈ base)) ∨ text ∈ attribs) ↔
    if drop then own ++ attribs₁ ⊆ attribs
      else own₁ ++ attribs₁ ⊆ own ++ behind ++ base ++ attribs := by
  split
  case isTrue hdrop =>
    constructor
    · intro h text htext
      have := h text
      rcases List.mem_append.mp htext with hown | hattr <;> tauto
    · intro h text
      have hown : text ∈ own → text ∈ attribs := fun hm => h (List.mem_append_left _ hm)
      have hattr : text ∈ attribs₁ → text ∈ attribs := fun hm => h (List.mem_append_right _ hm)
      tauto
  case isFalse hdrop =>
    have hmem : ∀ text, text ∈ own ++ behind ++ base ++ attribs ↔
        (text ∈ own ∨ text ∈ behind ∨ text ∈ base) ∨ text ∈ attribs := fun text => by
      rw [List.mem_append, List.mem_append, List.mem_append, or_assoc (a := text ∈ own)]
    constructor
    · intro h text htext
      have := h text
      rw [hmem]
      rcases List.mem_append.mp htext with hown | hattr <;> tauto
    · intro h text
      have hown : text ∈ own₁ → _ := fun hm => (hmem text).mp (h (List.mem_append_left _ hm))
      have hattr : text ∈ attribs₁ → _ := fun hm => (hmem text).mp (h (List.mem_append_right _ hm))
      tauto

/-- The mark of the first declarator is added to that of the other one, unless it
has an initializer. -/
theorem handed_mark_iff {hand mark : Bool} {init : Option String} :
    (((hand || mark) && init.isNone) = (mark && init.isNone)) ↔
      (init = none → hand = true → mark = true) := by
  cases init <;> cases hand <;> cases mark <;> simp

/-- **One declarator**, when the same tables are found or the storage class is
dropped. -/
theorem same_iff (hu₁ : FinishType c (SetBaseType d₁.modifiers S.type) = some u₁)
    (hx₁ : Described c redeclare S t₀ d₁ u₁ x₁)
    (hu : FinishType c (SetBaseType d.modifiers S.type) = some u)
    (hx : Described c redeclare S t d u x)
    (ht : ¬ Dropped c redeclare S.tq.storage_class → t' = t) :
    ∃ r, AppendDecl c redeclare t' x₁ d.decl = some r ∧
      ((d.finish r.1).SameAs x ↔ Kept c redeclare S t₀ d₁ t d) ∧
      (¬ Dropped c redeclare S.tq.storage_class → TypeKept c S d →
        r.2 = tablesAt c redeclare S t d) := by
  obtain ⟨r, hr, htables, htype, hsc, hred, hattr⟩ :=
    AppendDecl_spec c redeclare S t₀ t' d₁ d hu₁ hx₁
  have htype_iff : (d.finish r.1).type = x.type ↔ TypeKept c S d := by
    rw [htype, hx.type]
    exact type_same_iff c _ hu
  have hsc_eq : (d.finish r.1).tq.storage_class = x.tq.storage_class := by
    rw [hsc, hx.storage_class]
    rfl
  have hattr_iff : (∀ text, text ∈ texts (d.finish r.1).tq.attributes ↔
      text ∈ texts x.tq.attributes) ↔
      if Dropped c redeclare S.tq.storage_class then
        texts (d.own ++ d₁.attribs) ⊆ texts d.attribs
      else
        texts (d₁.own ++ d₁.attribs)
          ⊆ texts (d.own ++ S.attribs ++ S.tq.attributes ++ d.attribs) := by
    simp only [hattr, hx₁.attributes, hx.attributes]
    unfold texts
    simp only [List.map_append]
    exact handed_attributes_iff
  have hred_iff : TypeKept c S d →
      ((d.finish r.1).tq.redundant_external_decl = x.tq.redundant_external_decl ↔
      (d.init = none → if Dropped c redeclare S.tq.storage_class then
          handsMark c redeclare S t₀ d₁ = markedAt c redeclare S t d
        else handsMark c redeclare S t₀ d₁ = true → markedAt c redeclare S t d = true)) := by
    intro hkept
    rw [hred, hx.redundant, marked_congr c redeclare hkept.type_eq]
    unfold handedOn
    by_cases hdrop : Dropped c redeclare S.tq.storage_class
    · rw [if_pos hdrop, marked_of_formal c redeclare hdrop.1, Bool.or_false, if_pos hdrop]
      show (handsMark c redeclare S t₀ d₁ && d.init.isNone) = _ ↔ _
      cases d.init <;> simp
    · rw [if_neg hdrop, if_neg hdrop, ht hdrop]
      exact handed_mark_iff
  refine ⟨r, hr, ⟨fun h => ?_, fun h => ?_⟩, fun hdrop hkept => ?_⟩
  · have hkept := htype_iff.mp h.type
    exact ⟨hkept, hattr_iff.mp h.attributes, (hred_iff hkept).mp h.redundant⟩
  · exact ⟨htype_iff.mpr h.type, hsc_eq, hattr_iff.mpr h.attributes,
      (hred_iff h.type).mpr h.redundant⟩
  · rw [htables, ht hdrop, tablesAfter_congr c redeclare hkept.type_eq]
    unfold handedOn tablesAt
    rw [if_neg hdrop]

theorem firstDecl_eq_none (h : FinishType c (SetBaseType d.modifiers S.type) = none) :
    firstDecl c redeclare S t d = none := by
  have hset : SetDeclType c redeclare t (SetDeclAttribs d.decl S.attribs) S.type = none :=
    SetDeclType_eq_none c redeclare h
  unfold firstDecl
  rw [hset]
  rfl

theorem restOfList_isSome (hu₁ : FinishType c (SetBaseType d₁.modifiers S.type) = some u₁)
    (hx₁ : Described c redeclare S t₀ d₁ u₁ x₁) :
    ∀ (ds : List Declarator) (t : Tables), ∃ xs, restOfList c redeclare x₁ t ds = some xs
  | [], _ => ⟨[], rfl⟩
  | d :: ds, t => by
    obtain ⟨r, hr, -⟩ := AppendDecl_spec c redeclare S t₀ t d₁ d hu₁ hx₁
    obtain ⟨xs, hxs⟩ := restOfList_isSome hu₁ hx₁ ds r.2
    refine ⟨d.finish r.1 :: xs, ?_⟩
    unfold restOfList
    rw [hr, Option.bind_some, hxs]
    rfl

/-- **All the declarators behind the first one**, by induction on them: while they
are declared as on their own, the same tables are found. -/
theorem rest_same_iff (hu₁ : FinishType c (SetBaseType d₁.modifiers S.type) = some u₁)
    (hx₁ : Described c redeclare S t₀ d₁ u₁ x₁) :
    ∀ (ds : List Declarator) (t t' : Tables),
    (¬ Dropped c redeclare S.tq.storage_class → t' = t) →
    (SameDecls (restOfList c redeclare x₁ t' ds) (separateDeclarations c redeclare S t ds) ↔
      AllKept c redeclare S t₀ d₁ t ds)
  | [], _, _, _ => iff_of_true List.Forall₂.nil trivial
  | d :: ds, t, t', ht => by
    unfold restOfList separateDeclarations AllKept
    cases hu : FinishType c (SetBaseType d.modifiers S.type) with
    | none =>
      obtain ⟨r, hr, -⟩ := AppendDecl_spec c redeclare S t₀ t' d₁ d hu₁ hx₁
      obtain ⟨xs, hxs⟩ := restOfList_isSome hu₁ hx₁ ds r.2
      rw [firstDecl_eq_none hu, hr, Option.bind_some, hxs]
      refine iff_of_false id fun h => ?_
      exact Option.some_ne_none _ (h.1.type.finish.symm.trans hu)
    | some u =>
      obtain ⟨x, hfirst, hx⟩ := firstDecl_spec c redeclare S t d hu
      obtain ⟨r, hr, hsame, htables⟩ := same_iff hu₁ hx₁ hu hx ht
      obtain ⟨xs, hxs⟩ := restOfList_isSome hu₁ hx₁ ds r.2
      rw [hfirst, hr, Option.bind_some, Option.bind_some, ← hsame]
      have htail : (d.finish r.1).SameAs x →
          (SameDecls (restOfList c redeclare x₁ r.2 ds)
            (separateDeclarations c redeclare S (tablesAt c redeclare S t d) ds) ↔
          AllKept c redeclare S t₀ d₁ (tablesAt c redeclare S t d) ds) := fun h =>
        rest_same_iff hu₁ hx₁ ds _ _ fun hdrop => htables hdrop (hsame.mp h).type
      rw [← and_congr_right_iff.mpr htail, hxs]
      cases separateDeclarations c redeclare S (tablesAt c redeclare S t d) ds with
      | none => exact iff_of_false id fun h => h.2
      | some ys => exact List.forall₂_cons

variable (c redeclare)

/-- **A declaration list means the same as separate declarations** exactly when each
declarator behind the first one is declared as on its own; or else the first
one is not declared at all. -/
theorem declaration_list_same_iff (S : Specifiers) (t : Tables) (d : Declarator)
    (ds : List Declarator) :
    SameDecls (declaringList c redeclare S t d ds) (separateDeclarations c redeclare S t (d :: ds)) ↔
      Stuck S d ∨ AllKept c redeclare S t d (tablesAt c redeclare S t d) ds := by
  unfold declaringList separateDeclarations
  cases hu : FinishType c (SetBaseType d.modifiers S.type) with
  | none =>
    rw [firstDecl_eq_none hu]
    exact iff_of_true trivial (.inl (finishType_none_iff.mp hu))
  | some u =>
    have hstuck : ¬ Stuck S d := fun h => Option.some_ne_none u (hu.symm.trans (finishType_none_iff.mpr h))
    obtain ⟨x, hfirst, hx⟩ := firstDecl_spec c redeclare S t d hu
    obtain ⟨xs, hxs⟩ := restOfList_isSome hu hx ds (tablesAt c redeclare S t d)
    rw [hfirst, Option.bind_some, Option.bind_some, or_iff_right hstuck,
      ← rest_same_iff hu hx ds _ _ fun _ => rfl, hxs]
    cases separateDeclarations c redeclare S (tablesAt c redeclare S t d) ds with
    | none => exact Iff.rfl
    | some ys =>
      show List.Forall₂ _ (x :: xs) (x :: ys) ↔ _
      rw [List.forall₂_cons]
      exact and_iff_right ⟨rfl, rfl, fun _ => Iff.rfl, rfl⟩

/-- The same declarations have the same types. -/
theorem SameDecls.map_eq {α : Type} (f : TypeNode → α) : ∀ {a b : Option (List (Decl TypeNode))},
    SameDecls a b → a.map (List.map fun x => f x.type) = b.map (List.map fun x => f x.type)
  | none, none, _ => rfl
  | some xs, some ys, h => by
    refine congrArg some ?_
    have hall : List.Forall₂ Decl.SameAs xs ys := h
    induction hall with
    | nil => rfl
    | cons hxy hrest ih => exact congrArg₂ List.cons (congrArg f hxy.type) (ih hrest)

/-- `cilk int f(int x), g(int x);` -/
theorem later_procedure_lost : ∃ (c : Context) (S : Specifiers) (t : Tables) (f g : Declarator),
    (declaringList c .Redecl S t f [g]).map (List.map fun x => (functionTq x.type).procedure)
        = some [true, false] ∧
    (separateDeclarations c .Redecl S t [f, g]).map (List.map fun x => (functionTq x.type).procedure)
        = some [true, true] ∧
    ¬ SameDecls (declaringList c .Redecl S t f [g]) (separateDeclarations c .Redecl S t [f, g]) := by
  refine ⟨⟨false, false, false⟩, ⟨.Prim { EMPTY_TQ with procedure := true } .Sint, [], rfl⟩,
    ⟨[], [], []⟩, ⟨"f", [.Fdcl [.Decl "int x"]], [], none, [], none⟩,
    ⟨"g", [.Fdcl [.Decl "int x"]], [], none, [], none⟩, by decide, by decide, fun h => ?_⟩
  have heq := h.map_eq fun type => (functionTq type).procedure
  revert heq
  decide

end Cilk.DeclarationLists
