import Cilk.DeclarationLists.Model

/-!
# What is moved from a base type

The types of the declarators before and after `FinishType`: which qualifiers it
leaves on the base type, and which it puts on a function.
-/

namespace Cilk.DeclarationLists

/-! ## The lowest node of a type -/

@[simp] theorem NodeTq_NodeUpdateTq (f : TypeQual → TypeQual) (t : TypeNode) :
    NodeTq (NodeUpdateTq f t) = f (NodeTq t) := by
  cases t <;> rfl

/-- Two changes of the qualifiers of a node are one. -/
theorem NodeUpdateTq_comp (f g : TypeQual → TypeQual) (t : TypeNode) :
    NodeUpdateTq f (NodeUpdateTq g t) = NodeUpdateTq (f ∘ g) t := by
  cases t <;> rfl

/-- What is changed is the base. -/
theorem GetDeepBaseType_updateDeepBase (f : TypeQual → TypeQual) (t : TypeNode) :
    GetDeepBaseType (updateDeepBase f t) = NodeUpdateTq f (GetDeepBaseType t) := by
  induction t with
  | Ptr _ _ ih => exact ih
  | Adcl _ _ _ ih => exact ih
  | Fdcl _ _ _ ih => exact ih
  | _ => rfl

/-- Two changes of the base are one. -/
theorem updateDeepBase_comp (f g : TypeQual → TypeQual) (t : TypeNode) :
    updateDeepBase f (updateDeepBase g t) = updateDeepBase (f ∘ g) t := by
  induction t with
  | Ptr tq _ ih => exact congrArg (TypeNode.Ptr tq) ih
  | Adcl tq _ dim ih => exact congrArg (TypeNode.Adcl tq · dim) ih
  | Fdcl tq args _ ih => exact congrArg (TypeNode.Fdcl tq args) ih
  | _ => rfl

/-- An update that changes nothing of the base type changes nothing. -/
theorem updateDeepBase_eq_self {f : TypeQual → TypeQual} {t : TypeNode}
    (h : f (NodeTq (GetDeepBaseType t)) = NodeTq (GetDeepBaseType t)) :
    updateDeepBase f t = t := by
  induction t with
  | Ptr tq _ ih => exact congrArg (TypeNode.Ptr tq) (ih h)
  | Adcl tq _ dim ih => exact congrArg (TypeNode.Adcl tq · dim) (ih h)
  | Fdcl tq args _ ih => exact congrArg (TypeNode.Fdcl tq args) (ih h)
  | Prim tq basic => exact congrArg (TypeNode.Prim · basic) h
  | Tdef tq name type => exact congrArg (TypeNode.Tdef · name type) h
  | Sue kind tq type => exact congrArg (TypeNode.Sue kind · type) h

/-- A chain of modifiers has the base that it is set on. -/
theorem GetDeepBaseType_SetBaseType (chain : List Modifier) (t : TypeNode) :
    GetDeepBaseType (SetBaseType chain t) = GetDeepBaseType t := by
  induction chain with
  | nil => rfl
  | cons m chain ih => cases m <;> exact ih

/-- The base is changed before the modifiers are set on it, or after. -/
theorem updateDeepBase_SetBaseType (f : TypeQual → TypeQual) (chain : List Modifier)
    (t : TypeNode) :
    updateDeepBase f (SetBaseType chain t) = SetBaseType chain (updateDeepBase f t) := by
  induction chain with
  | nil => rfl
  | cons m chain ih =>
    cases m with
    | Ptr tq => exact congrArg (TypeNode.Ptr tq) ih
    | Adcl dim => exact congrArg (TypeNode.Adcl EMPTY_TQ · dim) ih
    | Fdcl args => exact congrArg (TypeNode.Fdcl EMPTY_TQ args) ih

/-- A type that is its own lowest node. -/
def TypeNode.isBase : TypeNode → Bool
  | Prim .. | Tdef .. | Sue .. => true
  | _ => false

theorem updateDeepBase_of_isBase (f : TypeQual → TypeQual) {t : TypeNode} (h : t.isBase = true) :
    updateDeepBase f t = NodeUpdateTq f t := by
  cases t <;> first | rfl | cases h

/-- A base is its own base. -/
theorem GetDeepBaseType_of_isBase {t : TypeNode} (h : t.isBase = true) :
    GetDeepBaseType t = t := by
  cases t <;> first | rfl | cases h

/-- What `GetDeepBaseType` ends at is a base. -/
theorem isBase_GetDeepBaseType (t : TypeNode) : (GetDeepBaseType t).isBase = true := by
  induction t with
  | Ptr _ _ ih => exact ih
  | Adcl _ _ _ ih => exact ih
  | Fdcl _ _ _ ih => exact ih
  | _ => rfl

/-! ## How many pointers, arrays and functions a type has -/

/-- How many modifiers there are above the base. -/
def TypeNode.depth : TypeNode → ℕ
  | Ptr _ type | Adcl _ type _ | Fdcl _ _ type => type.depth + 1
  | _ => 0

theorem depth_eq_zero_iff {t : TypeNode} : t.depth = 0 ↔ t.isBase = true := by
  cases t <;> simp [TypeNode.depth, TypeNode.isBase]

theorem depth_NodeUpdateTq (f : TypeQual → TypeQual) (t : TypeNode) :
    (NodeUpdateTq f t).depth = t.depth := by
  cases t <;> rfl

theorem depth_updateDeepBase (f : TypeQual → TypeQual) (t : TypeNode) :
    (updateDeepBase f t).depth = t.depth := by
  induction t with
  | Ptr _ _ ih => exact congrArg (· + 1) ih
  | Adcl _ _ _ ih => exact congrArg (· + 1) ih
  | Fdcl _ _ _ ih => exact congrArg (· + 1) ih
  | _ => rfl

/-- Each modifier adds one. -/
theorem depth_SetBaseType (chain : List Modifier) (t : TypeNode) :
    (SetBaseType chain t).depth = chain.length + t.depth := by
  induction chain with
  | nil => exact (Nat.zero_add _).symm
  | cons m chain ih =>
    rw [List.length_cons, Nat.add_right_comm, ← ih]
    cases m <;> rfl

theorem depth_demote (t : TypeNode) : (demote t).depth = t.depth := by
  cases t <;> rfl

theorem GetDeepBaseType_demote (t : TypeNode) : GetDeepBaseType (demote t) = GetDeepBaseType t := by
  cases t <;> rfl

/-! ## Moving a qualifier -/

/-- The name of a type that is a pointer to a function: the qualifier of a
function is then looked for where the node has something else. -/
def stuckType : TypeNode → Bool
  | .Tdef tq name type => IsPtrToFunction (.Tdef tq name type)
  | _ => false

/-- `qualifyFunction` ends in a `FAIL` exactly for a type that is stuck. -/
theorem qualifyFunction_eq_none_iff {f : TypeQual → TypeQual} {t : TypeNode} :
    qualifyFunction f t = none ↔ stuckType t = true := by
  unfold qualifyFunction stuckType
  cases t with
  | Tdef tq name type =>
    cases h : IsPtrToFunction (.Tdef tq name type) <;> simp [IsFunctionType, h]
  | Ptr tq type => cases h : IsPtrToFunction (.Ptr tq type) <;> simp [IsFunctionType]
  | _ => simp [IsFunctionType, IsPtrToFunction, NodeDataType]

/-- A function and a pointer to a function are qualified, and other types are
left as they are. -/
theorem qualifyFunction_eq_some {f : TypeQual → TypeQual} {t t' : TypeNode}
    (h : qualifyFunction f t = some t') :
    (t' = t) ∨ (∃ tq args returns, t = .Fdcl tq args returns ∧ t' = .Fdcl (f tq) args returns) ∨
      ∃ tq type, t = .Ptr tq type ∧ t' = .Ptr tq (NodeUpdateTq f type) := by
  unfold qualifyFunction at h
  split at h
  case isTrue hfun =>
    obtain rfl := Option.some.inj h
    cases t with
    | Fdcl tq args returns => exact .inr (.inl ⟨tq, args, returns, rfl, rfl⟩)
    | _ => cases hfun
  case isFalse =>
    split at h
    case isTrue => exact .inl (Option.some.inj h).symm
    case isFalse =>
      split at h
      · exact .inr (.inr ⟨_, _, rfl, (Option.some.inj h).symm⟩)
      · cases h

/-- What is put on the base type itself is removed again. -/
theorem GetDeepBaseType_qualifyFunction {f r : TypeQual → TypeQual} (hr : ∀ tq, r (f tq) = r tq)
    {t t' : TypeNode} (h : qualifyFunction f t = some t') :
    GetDeepBaseType (updateDeepBase r t') = NodeUpdateTq r (GetDeepBaseType t) := by
  rw [GetDeepBaseType_updateDeepBase]
  obtain rfl | ⟨tq, args, returns, rfl, rfl⟩ | ⟨tq, type, rfl, rfl⟩ := qualifyFunction_eq_some h
  · rfl
  · rfl
  · show NodeUpdateTq r (GetDeepBaseType (NodeUpdateTq f type))
      = NodeUpdateTq r (GetDeepBaseType type)
    cases hbase : type.isBase
    case false => cases type <;> first | rfl | cases hbase
    case true =>
      have hbase' : (NodeUpdateTq f type).isBase = true := by cases type <;> exact hbase
      rw [GetDeepBaseType_of_isBase hbase, GetDeepBaseType_of_isBase hbase', NodeUpdateTq_comp,
        show r ∘ f = r from funext hr]

theorem depth_qualifyFunction {f : TypeQual → TypeQual} {t t' : TypeNode}
    (h : qualifyFunction f t = some t') : t'.depth = t.depth := by
  obtain rfl | ⟨tq, args, returns, rfl, rfl⟩ | ⟨tq, type, rfl, rfl⟩ := qualifyFunction_eq_some h
  · rfl
  · rfl
  · exact congrArg (· + 1) (depth_NodeUpdateTq f type)

/-- What `declare` reads of a type. -/
structure SameKind (t t' : TypeNode) : Prop where
  function : IsFunctionType t' = IsFunctionType t
  id : startsWithId t' = startsWithId t
  stuck : stuckType t' = stuckType t

/-- A type is of its own kind. -/
theorem SameKind.refl (t : TypeNode) : SameKind t t := ⟨rfl, rfl, rfl⟩

theorem SameKind.trans {t t' t'' : TypeNode} (h : SameKind t t') (h' : SameKind t' t'') :
    SameKind t t'' :=
  ⟨h'.function.trans h.function, h'.id.trans h.id, h'.stuck.trans h.stuck⟩

/-- Qualifiers do not change the kind. -/
theorem sameKind_NodeUpdateTq (f : TypeQual → TypeQual) (t : TypeNode) :
    SameKind t (NodeUpdateTq f t) := by
  cases t with
  | Fdcl tq args returns =>
    refine ⟨rfl, ?_, rfl⟩
    cases args with
    | nil => rfl
    | cons arg args => cases arg <;> rfl
  | _ => exact ⟨rfl, rfl, rfl⟩

/-- Those of the base do not either. -/
theorem sameKind_updateDeepBase (f : TypeQual → TypeQual) (t : TypeNode) :
    SameKind t (updateDeepBase f t) := by
  cases t with
  | Fdcl tq args returns =>
    refine ⟨rfl, ?_, rfl⟩
    cases args with
    | nil => rfl
    | cons arg args => cases arg <;> rfl
  | _ => exact ⟨rfl, rfl, rfl⟩

/-- Nor do those that are given to the function. -/
theorem sameKind_qualifyFunction {f : TypeQual → TypeQual} {t t' : TypeNode}
    (h : qualifyFunction f t = some t') : SameKind t t' := by
  obtain rfl | ⟨tq, args, returns, rfl, rfl⟩ | ⟨tq, type, rfl, rfl⟩ := qualifyFunction_eq_some h
  · exact SameKind.refl _
  · exact sameKind_NodeUpdateTq f (.Fdcl tq args returns)
  · exact ⟨rfl, rfl, rfl⟩

/-- A type that takes the qualifiers of functions: a function, a pointer to one,
and the name of a pointer to one. -/
def takesQualifiers : TypeNode → Bool
  | .Fdcl .. => true
  | .Ptr _ (.Fdcl ..) => true
  | .Tdef tq name type => IsPtrToFunction (.Tdef tq name type)
  | _ => false

/-- Whether a type takes the qualifiers of a function does not hang on its base.
-/
theorem takesQualifiers_updateDeepBase (f : TypeQual → TypeQual) (t : TypeNode) :
    takesQualifiers (updateDeepBase f t) = takesQualifiers t := by
  cases t with
  | Ptr tq type => cases type <;> rfl
  | _ => rfl

/-- **Other types lose the qualifier.** On the name of a function that is pointed
to, it is put on what it is then removed from. -/
theorem moveToFunction_of_not_takes {has : Bool} (add remove : TypeQual → TypeQual) {t : TypeNode}
    (hr : ∀ tq, remove (add tq) = remove tq)
    (hhas : has = false → remove (NodeTq (GetDeepBaseType t)) = NodeTq (GetDeepBaseType t))
    (h : takesQualifiers t = false) :
    moveToFunction has add remove t = some (updateDeepBase remove t) := by
  unfold moveToFunction
  cases has
  case false => exact congrArg some (updateDeepBase_eq_self (hhas rfl)).symm
  case true =>
    show (qualifyFunction add t).map (updateDeepBase remove) = some (updateDeepBase remove t)
    unfold qualifyFunction
    cases t with
    | Fdcl => cases h
    | Tdef tq name type =>
      have hptr : IsPtrToFunction (.Tdef tq name type) = false := h
      simp only [IsFunctionType, hptr, Bool.false_eq_true, not_false_eq_true, if_true, if_false,
        Option.map_some]
    | Ptr tq type =>
      cases type with
      | Fdcl => cases h
      | Tdef tq' name type =>
        have hupdate : updateDeepBase remove (.Ptr tq (NodeUpdateTq add (.Tdef tq' name type)))
            = updateDeepBase remove (.Ptr tq (.Tdef tq' name type)) :=
          congrArg (fun tq'' => TypeNode.Ptr tq (.Tdef tq'' name type)) (hr tq')
        cases hptr : IsPtrToFunction (.Ptr tq (.Tdef tq' name type))
        case false =>
          simp only [IsFunctionType, Bool.false_eq_true, not_false_eq_true, if_true,
            if_false, Option.map_some]
        case true =>
          simp only [IsFunctionType, Bool.false_eq_true, not_true_eq_false,
            if_false, Option.map_some, hupdate]
      | _ => rfl
    | _ => rfl

/-- **On a function** the qualifier goes from the result to the function. -/
theorem moveToFunction_function {has : Bool} {add remove : TypeQual → TypeQual} {tq : TypeQual}
    {args : List Arg} {returns : TypeNode} (hhas : has = false →
      remove (NodeTq (GetDeepBaseType returns)) = NodeTq (GetDeepBaseType returns)) :
    moveToFunction has add remove (.Fdcl tq args returns)
      = some (.Fdcl (if has then add tq else tq) args (updateDeepBase remove returns)) := by
  unfold moveToFunction
  cases has
  case false => exact congrArg (fun r => some (TypeNode.Fdcl tq args r)) (updateDeepBase_eq_self (hhas rfl)).symm
  case true => rfl

/-- On a pointer to a function it goes to the function behind the pointer. -/
theorem moveToFunction_pointer {has : Bool} {add remove : TypeQual → TypeQual} {tq tq' : TypeQual}
    {args : List Arg} {returns : TypeNode} (hhas : has = false →
      remove (NodeTq (GetDeepBaseType returns)) = NodeTq (GetDeepBaseType returns)) :
    moveToFunction has add remove (.Ptr tq (.Fdcl tq' args returns))
      = some (.Ptr tq (.Fdcl (if has then add tq' else tq') args (updateDeepBase remove returns))) := by
  unfold moveToFunction
  cases has
  case false =>
    exact congrArg (fun r => some (TypeNode.Ptr tq (.Fdcl tq' args r)))
      (updateDeepBase_eq_self (hhas rfl)).symm
  case true => rfl

/-! ## `FinishType` -/

/-- What is left of the qualifiers of the base type. -/
def unqualified (tq : TypeQual) : TypeQual :=
  { tq with inline := false, procedure := false, inlet := false }

/-- The three qualifiers are removed one after the other. -/
theorem unqualified_eq :
    unqualified = (tq_remove_inlet ∘ tq_remove_procedure) ∘ tq_remove_inline := rfl

variable (c : Context)

/-- A qualifier that is not there is not removed. -/
theorem remove_inline_of_not {tq : TypeQual} (h : tq.inline = false) : tq_remove_inline tq = tq :=
  TypeQual.ext rfl rfl rfl rfl rfl h.symm rfl rfl rfl rfl

theorem remove_procedure_of_not {tq : TypeQual} (h : tq.procedure = false) :
    tq_remove_procedure tq = tq :=
  TypeQual.ext rfl rfl rfl rfl rfl rfl rfl h.symm rfl rfl

theorem remove_inlet_of_not {tq : TypeQual} (h : tq.inlet = false) : tq_remove_inlet tq = tq :=
  TypeQual.ext rfl rfl rfl rfl rfl rfl rfl rfl h.symm rfl

/-- Without a function, `inline` is only removed. -/
theorem moveInline_of_not_function {t : TypeNode} (h : IsFunctionType t = false ∨ c.ANSIOnly = true) :
    moveInline c (NodeTq (GetDeepBaseType t)).inline t = updateDeepBase tq_remove_inline t := by
  unfold moveInline
  cases hinline : (NodeTq (GetDeepBaseType t)).inline
  case false => exact (updateDeepBase_eq_self (remove_inline_of_not hinline)).symm
  case true =>
    rw [if_pos rfl, if_neg]
    rintro ⟨hansi, hfun⟩
    rcases h with h | h
    · exact Bool.false_ne_true (h.symm.trans hfun)
    · exact hansi h

/-- On a function, `inline` goes from the result to the function, unless only
ANSI C is read. -/
theorem moveInline_function {tq : TypeQual} {args : List Arg} {returns : TypeNode} :
    moveInline c (NodeTq (GetDeepBaseType returns)).inline (.Fdcl tq args returns)
      = .Fdcl (if (NodeTq (GetDeepBaseType returns)).inline && !c.ANSIOnly then tq_add_inline tq
          else tq) args (updateDeepBase tq_remove_inline returns) := by
  unfold moveInline
  cases hinline : (NodeTq (GetDeepBaseType returns)).inline
  case false =>
    exact congrArg (TypeNode.Fdcl tq args)
      (updateDeepBase_eq_self (remove_inline_of_not hinline)).symm
  case true => cases c.ANSIOnly <;> rfl

/-- **Types that take no qualifiers** only lose them. -/
theorem FinishType_of_not_takes {t : TypeNode} (h : takesQualifiers t = false) :
    FinishType c t = some (updateDeepBase unqualified t) := by
  have hfun : IsFunctionType t = false := by
    cases t <;> first | rfl | cases h
  have hprocedure := moveToFunction_of_not_takes tq_add_procedure tq_remove_procedure
    (fun _ => rfl) (show (NodeTq (GetDeepBaseType t)).procedure = false → _ from fun hhas => ?_)
    ((takesQualifiers_updateDeepBase tq_remove_inline t).trans h)
  have hinlet := moveToFunction_of_not_takes tq_add_inlet tq_remove_inlet
    (fun _ => rfl) (show (NodeTq (GetDeepBaseType t)).inlet = false → _ from fun hhas => ?_)
    ((takesQualifiers_updateDeepBase tq_remove_procedure _).trans
      ((takesQualifiers_updateDeepBase tq_remove_inline t).trans h))
  · unfold FinishType
    dsimp only
    rw [moveInline_of_not_function c (.inl hfun), hprocedure, Option.bind_some, hinlet,
      updateDeepBase_comp, updateDeepBase_comp, ← unqualified_eq]
  · rw [GetDeepBaseType_updateDeepBase, GetDeepBaseType_updateDeepBase, NodeTq_NodeUpdateTq,
      NodeTq_NodeUpdateTq]
    exact remove_inlet_of_not hhas
  · rw [GetDeepBaseType_updateDeepBase, NodeTq_NodeUpdateTq]
    exact remove_procedure_of_not hhas

/-- **A function gets the qualifiers** of the base type of what it returns. -/
theorem FinishType_function (tq : TypeQual) (args : List Arg) (returns : TypeNode) :
    FinishType c (.Fdcl tq args returns) =
      let q := NodeTq (GetDeepBaseType returns)
      let tq := if q.inline && !c.ANSIOnly then tq_add_inline tq else tq
      let tq := if q.procedure then tq_add_procedure tq else tq
      let tq := if q.inlet then tq_add_inlet tq else tq
      some (.Fdcl tq args (updateDeepBase unqualified returns)) := by
  unfold FinishType
  dsimp only
  have hbase : GetDeepBaseType (.Fdcl tq args returns) = GetDeepBaseType returns := rfl
  rw [hbase, moveInline_function, moveToFunction_function, Option.bind_some,
    moveToFunction_function, updateDeepBase_comp, updateDeepBase_comp, ← unqualified_eq]
  · intro hhas
    rw [GetDeepBaseType_updateDeepBase, GetDeepBaseType_updateDeepBase, NodeTq_NodeUpdateTq,
      NodeTq_NodeUpdateTq]
    exact remove_inlet_of_not hhas
  · intro hhas
    rw [GetDeepBaseType_updateDeepBase, NodeTq_NodeUpdateTq]
    exact remove_procedure_of_not hhas

/-- A pointer to a function hands on those of a procedure and an inlet. -/
theorem FinishType_pointer (tq tq' : TypeQual) (args : List Arg) (returns : TypeNode) :
    FinishType c (.Ptr tq (.Fdcl tq' args returns)) =
      let q := NodeTq (GetDeepBaseType returns)
      let tq' := if q.procedure then tq_add_procedure tq' else tq'
      let tq' := if q.inlet then tq_add_inlet tq' else tq'
      some (.Ptr tq (.Fdcl tq' args (updateDeepBase unqualified returns))) := by
  unfold FinishType
  dsimp only
  rw [moveInline_of_not_function c (.inl rfl)]
  have hupdate : updateDeepBase tq_remove_inline (.Ptr tq (.Fdcl tq' args returns))
      = .Ptr tq (.Fdcl tq' args (updateDeepBase tq_remove_inline returns)) := rfl
  have hbase : GetDeepBaseType (.Ptr tq (.Fdcl tq' args returns)) = GetDeepBaseType returns := rfl
  rw [hbase, hupdate, moveToFunction_pointer, Option.bind_some, moveToFunction_pointer,
    updateDeepBase_comp, updateDeepBase_comp, ← unqualified_eq]
  · intro hhas
    rw [GetDeepBaseType_updateDeepBase, GetDeepBaseType_updateDeepBase, NodeTq_NodeUpdateTq,
      NodeTq_NodeUpdateTq]
    exact remove_inlet_of_not hhas
  · intro hhas
    rw [GetDeepBaseType_updateDeepBase, NodeTq_NodeUpdateTq]
    exact remove_procedure_of_not hhas

/-! ## What every result of `FinishType` is like -/

/-- A qualifier that is there is not moved in a type that is stuck. -/
theorem moveToFunction_eq_none_iff {has : Bool} {add remove : TypeQual → TypeQual} {t : TypeNode} :
    moveToFunction has add remove t = none ↔ has = true ∧ stuckType t = true := by
  unfold moveToFunction
  cases has
  case false => exact iff_of_false nofun fun h => Bool.false_ne_true h.1
  case true =>
    rw [if_pos rfl, Option.map_eq_none_iff, qualifyFunction_eq_none_iff]
    exact (and_iff_right rfl).symm

theorem sameKind_moveToFunction {has : Bool} {add remove : TypeQual → TypeQual} {t u : TypeNode}
    (h : moveToFunction has add remove t = some u) : SameKind t u := by
  unfold moveToFunction at h
  split at h
  · obtain ⟨t', ht', rfl⟩ := Option.map_eq_some_iff.mp h
    exact (sameKind_qualifyFunction ht').trans (sameKind_updateDeepBase remove t')
  · obtain rfl := Option.some.inj h
    exact SameKind.refl t

theorem sameKind_moveInline (has : Bool) (t : TypeNode) : SameKind t (moveInline c has t) := by
  unfold moveInline
  split
  · refine SameKind.trans ?_ (sameKind_updateDeepBase _ _)
    split
    · exact sameKind_NodeUpdateTq _ t
    · exact SameKind.refl t
  · exact SameKind.refl t

/-- **`FinishType` leaves the kind of a type.** -/
theorem sameKind_FinishType {t u : TypeNode} (h : FinishType c t = some u) : SameKind t u := by
  obtain ⟨v, hv, hu⟩ := Option.bind_eq_some_iff.mp h
  exact ((sameKind_moveInline c _ t).trans (sameKind_moveToFunction hv)).trans
    (sameKind_moveToFunction hu)

/-- **There is no result** for a name of a pointer to a function with a qualifier
of a function. -/
theorem FinishType_eq_none_iff {t : TypeNode} : FinishType c t = none ↔
    stuckType t = true ∧ ((NodeTq (GetDeepBaseType t)).procedure = true ∨
      (NodeTq (GetDeepBaseType t)).inlet = true) := by
  have hinline := (sameKind_moveInline c (NodeTq (GetDeepBaseType t)).inline t).stuck
  unfold FinishType
  dsimp only
  cases hproc : moveToFunction (NodeTq (GetDeepBaseType t)).procedure tq_add_procedure
      tq_remove_procedure (moveInline c (NodeTq (GetDeepBaseType t)).inline t) with
  | none =>
    obtain ⟨hhas, hstuck⟩ := moveToFunction_eq_none_iff.mp hproc
    rw [hinline] at hstuck
    exact iff_of_true rfl ⟨hstuck, .inl hhas⟩
  | some v =>
    have hnot : ¬ ((NodeTq (GetDeepBaseType t)).procedure = true ∧ stuckType t = true) := by
      rw [← hinline]
      exact fun h => Option.some_ne_none v (hproc.symm.trans (moveToFunction_eq_none_iff.mpr h))
    show moveToFunction _ _ _ v = none ↔ _
    rw [moveToFunction_eq_none_iff, (sameKind_moveToFunction hproc).stuck, hinline]
    constructor
    · rintro ⟨hhas, hstuck⟩
      exact ⟨hstuck, .inr hhas⟩
    · rintro ⟨hstuck, hhas | hhas⟩
      · exact absurd ⟨hhas, hstuck⟩ hnot
      · exact ⟨hhas, hstuck⟩

theorem depth_moveToFunction {has : Bool} {add remove : TypeQual → TypeQual} {t u : TypeNode}
    (h : moveToFunction has add remove t = some u) : u.depth = t.depth := by
  unfold moveToFunction at h
  split at h
  · obtain ⟨t', ht', rfl⟩ := Option.map_eq_some_iff.mp h
    rw [depth_updateDeepBase, depth_qualifyFunction ht']
  · rw [Option.some.inj h]

theorem depth_moveInline (has : Bool) (t : TypeNode) : (moveInline c has t).depth = t.depth := by
  unfold moveInline
  split
  · rw [depth_updateDeepBase]
    split
    · exact depth_NodeUpdateTq _ t
    · rfl
  · rfl

/-- `FinishType` leaves the modifiers. -/
theorem depth_FinishType {t u : TypeNode} (h : FinishType c t = some u) : u.depth = t.depth := by
  obtain ⟨v, hv, hu⟩ := Option.bind_eq_some_iff.mp h
  rw [depth_moveToFunction hu, depth_moveToFunction hv, depth_moveInline]

/-- The base loses the qualifier, whether it is moved or was not there. -/
theorem GetDeepBaseType_moveToFunction {has : Bool} (add remove : TypeQual → TypeQual)
    {t u : TypeNode} (hr : ∀ tq, remove (add tq) = remove tq)
    (hhas : has = false → remove (NodeTq (GetDeepBaseType t)) = NodeTq (GetDeepBaseType t))
    (h : moveToFunction has add remove t = some u) :
    GetDeepBaseType u = NodeUpdateTq remove (GetDeepBaseType t) := by
  unfold moveToFunction at h
  cases has
  case false =>
    obtain rfl := Option.some.inj h
    rw [← GetDeepBaseType_updateDeepBase, updateDeepBase_eq_self (hhas rfl)]
  case true =>
    obtain ⟨t', ht', rfl⟩ := Option.map_eq_some_iff.mp h
    exact GetDeepBaseType_qualifyFunction hr ht'

/-- The base loses `inline`. -/
theorem GetDeepBaseType_moveInline (t : TypeNode) :
    GetDeepBaseType (moveInline c (NodeTq (GetDeepBaseType t)).inline t)
      = NodeUpdateTq tq_remove_inline (GetDeepBaseType t) := by
  cases t with
  | Fdcl tq args returns =>
    have hbase : GetDeepBaseType (.Fdcl tq args returns) = GetDeepBaseType returns := rfl
    rw [hbase, moveInline_function, ← GetDeepBaseType_updateDeepBase]
    rfl
  | _ => rw [moveInline_of_not_function c (.inl rfl), GetDeepBaseType_updateDeepBase]

/-- **The base type is left without the qualifiers of functions.** -/
theorem GetDeepBaseType_FinishType {t u : TypeNode} (h : FinishType c t = some u) :
    GetDeepBaseType u = NodeUpdateTq unqualified (GetDeepBaseType t) := by
  obtain ⟨v, hv, hu⟩ := Option.bind_eq_some_iff.mp h
  have hproc := GetDeepBaseType_moveToFunction tq_add_procedure tq_remove_procedure
    (fun _ => rfl) (fun hhas => ?_) hv
  · rw [GetDeepBaseType_moveInline] at hproc
    have hinlet := GetDeepBaseType_moveToFunction tq_add_inlet tq_remove_inlet
      (fun _ => rfl) (fun hhas => ?_) hu
    · rw [hinlet, hproc, NodeUpdateTq_comp, NodeUpdateTq_comp, unqualified_eq]
    · rw [hproc, NodeTq_NodeUpdateTq, NodeTq_NodeUpdateTq]
      exact remove_inlet_of_not hhas
  · rw [GetDeepBaseType_moveInline, NodeTq_NodeUpdateTq]
    exact remove_procedure_of_not hhas

end Cilk.DeclarationLists
