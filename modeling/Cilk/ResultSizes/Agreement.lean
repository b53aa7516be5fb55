import Cilk.ResultSizes.Model

/-!
# Types that compare equal

Two types that compare equal have the same size where the size is settled by
what is compared: that of a number which is not complex, and that of a pointer.
Structures, unions and enumerations are compared by their tags.

What an accepted program has compared is then that the procedure which is
spawned has the result that its first declaration gives it, unless it is spawned
under a declaration in a block.
-/

namespace Cilk.ResultSizes

open ConstFold (Floats)
open TypeEquality Alignment

variable {F : Floats} {σ : Type*}

/-! ## Comparisons that pass -/

/-- A comparison answers yes, in some state. -/
def Passed (c : Comparison σ) : Prop := ∃ s s', c s = some (true, s')

theorem both_eq_true {c d : Comparison σ} {s s' : σ} (h : both c d s = some (true, s')) :
    ∃ t, c s = some (true, t) ∧ d t = some (true, s') := by
  unfold both at h
  cases hc : c s with
  | none =>
    rw [hc] at h
    exact absurd h (Option.some_ne_none _).symm
  | some r =>
    obtain ⟨b, t⟩ := r
    rw [hc] at h
    cases b with
    | false => exact absurd (Prod.mk.inj (Option.some.inj h)).1 Bool.false_ne_true
    | true => exact ⟨t, rfl, h⟩

theorem Passed.both {c d : Comparison σ} (h : Passed (both c d)) : Passed c ∧ Passed d := by
  obtain ⟨s, s', h⟩ := h
  obtain ⟨t, hc, hd⟩ := both_eq_true h
  exact ⟨⟨s, t, hc⟩, ⟨t, s', hd⟩⟩

theorem not_passed_answer_false : ¬ Passed (answer false : Comparison σ) := by
  rintro ⟨s, s', h⟩
  exact absurd (Prod.mk.inj (Option.some.inj h)).1 Bool.false_ne_true

theorem not_passed_none : ¬ Passed (fun _ => none : Comparison σ) := by
  rintro ⟨s, s', h⟩
  exact absurd h (Option.some_ne_none _).symm

/-- A check that comes first is not what lets the rest pass. -/
theorem Passed.of_if {c : Comparison σ} {p : Prop} [Decidable p]
    (h : Passed (if p then answer false else c)) : ¬ p ∧ Passed c := by
  by_cases hp : p
  · rw [if_pos hp] at h
    exact absurd h not_passed_answer_false
  · rw [if_neg hp] at h
    exact ⟨hp, h⟩

/-! ## Sizes -/

/-- The sizes of the class are compared with the types. -/
def SizeClass.compared : SizeClass → Bool
  | .byte | .integer _ | .floating _ | .pointer => true
  | .enumeration _ | .struct _ | .array _ | .typedef _ | .ellipsis => false

/-- The size of the type is settled by what is compared: it is that of a number
which is not complex, of a pointer or of a function, and no declaration of a
name sets it. -/
def determined (sized : Attributes) (type : Node) : Bool :=
  (measure sized type).1.compared && (measure sized type).2 = 1

theorem determined_iff {sized : Attributes} {type : Node} :
    determined sized type = true ↔
      (measure sized type).1.compared = true ∧ (measure sized type).2 = 1 := by
  unfold determined
  rw [Bool.and_eq_true, decide_eq_true_iff]

/-- What is known of two types that compare equal. -/
inductive Alike : Node → Node → Prop
  | Prim {tq tq' : TypeQual} {basic : BasicType} : Alike (.Prim tq basic) (.Prim tq' basic)
  | Ptr {tq tq' : TypeQual} {type type' : Node} : Alike (.Ptr tq type) (.Ptr tq' type')
  | Adcl {a a' : Addr} {tq tq' : TypeQual} {type type' : Node} :
    Alike (.Adcl a tq type) (.Adcl a' tq' type')
  | Sue {kind kind' : SueKind} {a a' : Addr} {tq tq' : TypeQual} {type type' : SUEtype} :
    Alike (.Sue kind a tq type) (.Sue kind' a' tq' type')
  | Fdcl {tq tq' : TypeQual} {args args' : Args} {returns returns' : Node} :
    Alike (.Fdcl tq args returns) (.Fdcl tq' args' returns')

theorem complex_comparedQuals (strict : Bool) (type : Node) :
    comparedQuals strict type &&& T_COMPLEX = (UnwindTdefs type).2 &&& T_COMPLEX := by
  unfold comparedQuals
  have hsue : ~~~T_SUE_ELABORATED &&& T_COMPLEX = T_COMPLEX := by decide
  have hcompatible : ~~~TQ_COMPATIBLE &&& T_COMPLEX = T_COMPLEX := by decide
  cases strict
  · show tq_remove_compatible (tq_remove_sue_elaborated _) &&& T_COMPLEX = _
    unfold tq_remove_compatible tq_remove_sue_elaborated
    rw [BitVec.and_assoc, hcompatible, BitVec.and_assoc, hsue]
  · show tq_remove_sue_elaborated _ &&& T_COMPLEX = _
    unfold tq_remove_sue_elaborated
    rw [BitVec.and_assoc, hsue]

/-- **What compares equal is alike**, and equally complex. -/
theorem alike_of_passed {dims : Addr → Addr → Comparison σ} {node1 node2 : Node}
    {strict_toplevel strict_recursive : Bool}
    (h : Passed (compareTypes dims node1 node2 strict_toplevel strict_recursive)) :
    Alike (UnwindTdefs node1).1 (UnwindTdefs node2).1 ∧
      (UnwindTdefs node1).2 &&& T_COMPLEX = (UnwindTdefs node2).2 &&& T_COMPLEX := by
  rw [compareTypes] at h
  obtain ⟨hquals, h⟩ := h.of_if
  refine ⟨?_, ?_⟩
  · split at h
    · rename_i basic1 tq basic2 h1 h2
      rw [h1, h2]
      obtain ⟨s, s', h⟩ := h
      have heq : basic1 = basic2 := of_decide_eq_true (Prod.mk.inj (Option.some.inj h)).1
      rw [heq]
      exact .Prim
    · rename_i h1 h2
      rw [h1, h2]
      exact .Ptr
    · rename_i h1 h2
      rw [h1, h2]
      exact .Adcl
    · rename_i h1 h2
      rw [h1, h2]
      exact .Sue
    · rename_i h1 h2
      rw [h1, h2]
      exact .Fdcl
    · exact absurd h not_passed_answer_false
  · rw [← complex_comparedQuals strict_toplevel node1, not_not.mp hquals, complex_comparedQuals]

/-- Where no declaration of a name sets the size, it is that of the type which
the names stand for. -/
theorem measureFrom_unwindFrom {sized : Attributes} {node : Node} {tq : TypeQual}
    (h : (measureFrom sized node tq).1.compared = true) :
    measureFrom sized node tq =
      measureFrom sized (unwindFrom node tq).1 (unwindFrom node tq).2 := by
  match node with
  | .Tdef decl _ type =>
    unfold measureFrom at h
    split_ifs at h with hsized
    · exact absurd h Bool.false_ne_true
    · calc measureFrom sized (.Tdef decl _ type) tq
          = measureFrom sized type (tq ||| NodeTypeQuals type) := by
            rw [measureFrom, if_neg hsized]
        _ = _ := measureFrom_unwindFrom h
  | .Prim _ _ | .Ptr _ _ | .Adcl _ _ _ | .Sue _ _ _ _ | .Fdcl _ _ _ => rfl

theorem measure_unwindTdefs {sized : Attributes} {type : Node}
    (h : (measure sized type).1.compared = true) :
    measure sized type = measureFrom sized (UnwindTdefs type).1 (UnwindTdefs type).2 :=
  measureFrom_unwindFrom h

section

variable {dims : Addr → Addr → Comparison σ} {node1 node2 : Node}
  {strict_toplevel strict_recursive : Bool}
  (h : Passed (compareTypes dims node1 node2 strict_toplevel strict_recursive))

include h

theorem isVoidType_eq : IsVoidType node1 = IsVoidType node2 := by
  obtain ⟨halike, -⟩ := alike_of_passed h
  unfold IsVoidType NodeDataType
  generalize (UnwindTdefs node1).1 = a at halike ⊢
  generalize (UnwindTdefs node2).1 = b at halike ⊢
  cases halike with
  | @Prim tq tq' basic => cases basic <;> rfl
  | Ptr | Adcl | Sue | Fdcl => rfl

/-- **Types that compare equal have the same size**, where it is settled by what
is compared. -/
theorem measure_eq {sized : Attributes} (hdet1 : determined sized node1 = true)
    (hdet2 : determined sized node2 = true) : measure sized node1 = measure sized node2 := by
  obtain ⟨halike, hcomplex⟩ := alike_of_passed h
  obtain ⟨hclass1, -⟩ := determined_iff.mp hdet1
  obtain ⟨hclass2, -⟩ := determined_iff.mp hdet2
  have hunwind1 := measure_unwindTdefs hclass1
  have hunwind2 := measure_unwindTdefs hclass2
  have hparts : parts (UnwindTdefs node1).2 = parts (UnwindTdefs node2).2 := by
    unfold parts
    rw [hcomplex]
  rw [hunwind1] at hclass1 ⊢
  rw [hunwind2]
  generalize (UnwindTdefs node1).1 = a at halike hclass1 ⊢
  generalize (UnwindTdefs node2).1 = b at halike ⊢
  cases halike with
  | Prim => exact congrArg (Prod.mk _) hparts
  | Ptr | Fdcl => rfl
  | Adcl => exact absurd hclass1 Bool.false_ne_true
  | @Sue kind => cases kind <;> exact absurd hclass1 Bool.false_ne_true

end

/-! ### Without the names of types -/

theorem unwindFrom_fixed (node : Node) (tq : TypeQual) (tq' : TypeQual) :
    unwindFrom (unwindFrom node tq).1 tq' = ((unwindFrom node tq).1, tq') := by
  match node with
  | .Tdef _ _ type =>
    show unwindFrom (unwindFrom type _).1 tq' = ((unwindFrom type _).1, tq')
    exact unwindFrom_fixed type _ _
  | .Prim _ _ | .Ptr _ _ | .Adcl _ _ _ | .Sue _ _ _ _ | .Fdcl _ _ _ => rfl

theorem unwindTdefs_nodeDataType (type : Node) :
    UnwindTdefs (NodeDataType type) = (NodeDataType type, NodeTypeQuals (NodeDataType type)) :=
  unwindFrom_fixed _ _ _

/-- A number that is not complex is not so for fewer qualifiers. -/
theorem parts_eq_one {tq tq' : TypeQual} (hle : tq' ||| tq = tq) (h : parts tq = 1) :
    parts tq' = 1 := by
  unfold parts at h ⊢
  by_cases hcomplex : tq &&& T_COMPLEX = 0
  · rw [← hle, BitVec.and_or_distrib_right] at hcomplex
    exact if_pos (BitVec.or_eq_zero_iff.mp hcomplex).1
  · rw [if_neg hcomplex] at h
    exact absurd h (by decide)

/-- The qualifiers of the node that is reached are among those collected. -/
theorem measureFrom_nodeTypeQuals {sized : Attributes} (node : Node) (tq : TypeQual)
    (htq : NodeTypeQuals node ||| tq = tq)
    (h : (measureFrom sized (unwindFrom node tq).1 (unwindFrom node tq).2).2 = 1) :
    measureFrom sized (unwindFrom node tq).1 (NodeTypeQuals (unwindFrom node tq).1) =
      measureFrom sized (unwindFrom node tq).1 (unwindFrom node tq).2 := by
  match node with
  | .Tdef _ _ type =>
    refine measureFrom_nodeTypeQuals type _ ?_ h
    rw [BitVec.or_comm tq, ← BitVec.or_assoc, BitVec.or_self]
  | .Prim tq' basic =>
    have hparts : parts tq = 1 := h
    have hparts' : parts (NodeTypeQuals (.Prim tq' basic)) = 1 := parts_eq_one htq hparts
    exact congrArg (Prod.mk _) (hparts'.trans hparts.symm)
  | .Ptr _ _ | .Adcl _ _ _ | .Fdcl _ _ _ => rfl
  | .Sue kind _ _ _ => cases kind <;> rfl

/-- **Without the names of types the size is the same**, where it is settled by
what is compared. -/
theorem measure_nodeDataType {sized : Attributes} {type : Node}
    (h : determined sized type = true) :
    measure sized (NodeDataType type) = measure sized type := by
  obtain ⟨hclass, hone⟩ := determined_iff.mp h
  have hunwind := measure_unwindTdefs hclass
  rw [hunwind] at hone ⊢
  exact measureFrom_nodeTypeQuals type _ BitVec.or_self hone

theorem determined_nodeDataType {sized : Attributes} {type : Node}
    (h : determined sized type = true) : determined sized (NodeDataType type) = true := by
  unfold determined
  rw [measure_nodeDataType h]
  exact h

theorem isVoidType_nodeDataType (type : Node) :
    IsVoidType (NodeDataType type) = IsVoidType type := by
  have hfixed : NodeDataType (NodeDataType type) = NodeDataType type :=
    (Prod.mk.inj (unwindTdefs_nodeDataType type)).1
  unfold IsVoidType
  rw [hfixed]

/-! ## What fits for all sizes -/

/-- The compiler that leaves no space between the members of a structure. -/
def packed (s : Sizing SizeClass .byte) : Target := { s with
  alignof := fun _ => 1
  alignof_pos := fun _ => one_pos }

/-- **A type is no larger than another** whatever the sizes are. -/
theorem sizeof_le_iff {sized : Attributes} {type type' : Node} :
    (∀ t : Target, t.sizeof sized type ≤ t.sizeof sized type') ↔
      Sizing.Room (measure sized type) [measure sized type'] := by
  rw [← Sizing.forall_le_total_iff .byte]
  exact ⟨fun h s => h (packed s), fun h t => h t.toSizing⟩

/-! ### The structure of an inlet's parameters -/

/-- The members of a structure have their places in it. -/
theorem total_le_endOf (sized : Attributes) (t : Target) (members : List Node) (n : ℕ) :
    n + t.total (members.map (measure sized)) ≤ t.endOf sized n members := by
  induction members generalizing n with
  | nil => exact le_rfl
  | cons type rest ih =>
    calc n + t.total ((type :: rest).map (measure sized))
        = n + t.sizeof sized type + t.total (rest.map (measure sized)) := (Nat.add_assoc _ _ _).symm
      _ ≤ roundUp n (t.alignof type) + t.sizeof sized type + t.total (rest.map (measure sized)) := by
        have := le_roundUp n (t.alignof_pos type)
        omega
      _ ≤ t.endOf sized n (type :: rest) := ih _

theorem foldl_max_pos (l : List ℕ) (n : ℕ) (hn : 0 < n) : 0 < l.foldl max n := by
  induction l generalizing n with
  | nil => exact hn
  | cons m l ih => exact ih _ (lt_max_of_lt_left hn)

theorem total_le_structSize (sized : Attributes) (t : Target) (members : List Node) :
    t.total (members.map (measure sized)) ≤ t.structSize sized members :=
  calc t.total (members.map (measure sized))
      ≤ t.endOf sized 0 members := (Nat.zero_add _).symm.trans_le (total_le_endOf sized t members 0)
    _ ≤ t.structSize sized members := le_roundUp _ (foldl_max_pos _ _ one_pos)

theorem endOf_packed (sized : Attributes) (s : Sizing SizeClass .byte) (members : List Node)
    (n : ℕ) : (packed s).endOf sized n members = n + s.total (members.map (measure sized)) := by
  induction members generalizing n with
  | nil => rfl
  | cons type rest ih =>
    show (packed s).endOf sized (roundUp n 1 + (packed s).sizeof sized type) rest = _
    rw [ih, roundUp_one, Nat.add_assoc]
    rfl

theorem structSize_packed (sized : Attributes) (s : Sizing SizeClass .byte) (members : List Node) :
    (packed s).structSize sized members = s.total (members.map (measure sized)) := by
  have hone : (members.map (packed s).alignof).foldl max 1 = 1 := by
    induction members with
    | nil => rfl
    | cons type rest ih => exact ih
  unfold Target.structSize
  rw [hone, roundUp_one, endOf_packed, Nat.zero_add]

/-- **A type is no larger than a structure** whatever the sizes are. -/
theorem sizeof_le_structSize_iff {sized : Attributes} {type : Node} {members : List Node} :
    (∀ t : Target, t.sizeof sized type ≤ t.structSize sized members) ↔
      Sizing.Room (measure sized type) (members.map (measure sized)) := by
  rw [← Sizing.forall_le_total_iff .byte]
  constructor
  · intro h s
    exact (h (packed s)).trans_eq (structSize_packed sized s members)
  · exact fun h t => (h t.toSizing).trans (total_le_structSize sized t members)

end Cilk.ResultSizes
