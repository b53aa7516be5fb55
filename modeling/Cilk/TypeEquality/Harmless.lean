import Cilk.TypeEquality.Model

/-!
# What a comparison of types leaves behind

The answer does not depend on which type comes first. The dimensions of all
arrays are what they were, after the answer is no, exactly when no array
without a dimension was compared with one that has a dimension before the
difference was found.

Both are shown for the dimensions that the arrays have, whichever cells hold
them. What the comparison does to the cells is an instance of the same walk,
and so is the search for two arrays that are compared.
-/

namespace Cilk.TypeEquality

open ConstFold (Floats)

variable {F : Floats} {σ τ : Type*}

/-! ## The walk -/

/-- A relation between comparisons that the walk respects. -/
structure Respected (R : Comparison σ → Comparison τ → Prop) : Prop where
  answer : ∀ b, R (answer b) (answer b)
  both : ∀ {c d c' d'}, R c d → R c' d' → R (both c c') (both d d')

theorem sizeOf_pointee {node type : Node} {tq : TypeQual}
    (h : (UnwindTdefs node).1 = .Ptr tq type) : sizeOf type < sizeOf node := by
  have hsize := sizeOf_unwindTdefs_le node
  rw [h] at hsize
  simp at hsize
  omega

theorem sizeOf_element {node type : Node} {addr : Addr} {tq : TypeQual}
    (h : (UnwindTdefs node).1 = .Adcl addr tq type) : sizeOf type < sizeOf node := by
  have hsize := sizeOf_unwindTdefs_le node
  rw [h] at hsize
  simp at hsize
  omega

theorem sizeOf_signature {node returns : Node} {tq : TypeQual} {args : Args}
    (h : (UnwindTdefs node).1 = .Fdcl tq args returns) :
    sizeOf returns < sizeOf node ∧ sizeOf args < sizeOf node := by
  have hsize := sizeOf_unwindTdefs_le node
  rw [h] at hsize
  simp at hsize
  omega

mutual

/-- **Two walks are related when what they do to arrays is.** -/
theorem compareTypes_related {R : Comparison σ → Comparison τ → Prop} (hR : Respected R)
    {dims : Addr → Addr → Comparison σ} {dims' : Addr → Addr → Comparison τ}
    (hdims : ∀ a b, R (dims a b) (dims' a b)) (node1 node2 : Node) (top rec : Bool) :
    R (compareTypes dims node1 node2 top rec) (compareTypes dims' node1 node2 top rec) := by
  rw [compareTypes, compareTypes]
  split
  · exact hR.answer _
  · split
    · exact hR.answer _
    · rename_i h1 _
      have hlt := sizeOf_pointee h1
      exact compareTypes_related hR hdims _ _ _ _
    · rename_i h1 _
      have hlt := sizeOf_element h1
      exact hR.both (compareTypes_related hR hdims _ _ _ _) (hdims _ _)
    · exact hR.answer _
    · rename_i h1 _
      have hlt := sizeOf_signature h1
      refine hR.both (compareTypes_related hR hdims _ _ _ _) ?_
      split
      · exact hR.answer _
      · split
        · exact hR.answer _
        · exact compareArgs_related hR hdims _ _ _
    · exact hR.answer _
termination_by sizeOf node1
decreasing_by all_goals omega

theorem compareArgs_related {R : Comparison σ → Comparison τ → Prop} (hR : Respected R)
    {dims : Addr → Addr → Comparison σ} {dims' : Addr → Addr → Comparison τ}
    (hdims : ∀ a b, R (dims a b) (dims' a b)) (args1 args2 : Args) (rec : Bool) :
    R (compareArgs dims args1 args2 rec) (compareArgs dims' args1 args2 rec) := by
  cases args1 with
  | null =>
    rw [compareArgs, compareArgs]
    exact hR.answer _
  | decl type1 rest1 | type type1 rest1 =>
    cases args2 with
    | null =>
      rw [compareArgs, compareArgs]
      exact hR.answer _
      all_goals simp
    | decl type2 rest2 | type type2 rest2 =>
      rw [compareArgs, compareArgs]
      exact hR.both (compareTypes_related hR hdims _ _ _ _) (compareArgs_related hR hdims _ _ _)
termination_by sizeOf args1

end

theorem sameTagp_comm (sue1 sue2 : SUEtype) :
    SUE_SameTagp sue1 sue2 = SUE_SameTagp sue2 sue1 := by
  unfold SUE_SameTagp
  cases sue1.name with
  | none => cases sue2.name <;> rfl
  | some name1 =>
    cases sue2.name with
    | none => rfl
    | some name2 => exact Bool.beq_comm

theorem sameSue_comm (kind1 kind2 : SueKind) (addr1 addr2 : Addr) (sue1 sue2 : SUEtype) :
    (kind1 = kind2 && (addr1 == addr2 || SUE_SameTagp sue1 sue2) : Bool)
      = (kind2 = kind1 && (addr2 == addr1 || SUE_SameTagp sue2 sue1) : Bool) := by
  rw [sameTagp_comm sue1, Bool.beq_comm (a := addr1), decide_eq_decide.mpr (eq_comm (a := kind1))]

mutual

/-- **A walk is the walk the other way round.** -/
theorem compareTypes_swap (dims : Addr → Addr → Comparison σ) (node1 node2 : Node)
    (top rec : Bool) :
    compareTypes dims node1 node2 top rec
      = compareTypes (fun a b => dims b a) node2 node1 top rec := by
  rw [compareTypes, compareTypes]
  by_cases hq : comparedQuals top node1 = comparedQuals top node2
  · rw [if_neg (not_not.mpr hq), if_neg (not_not.mpr hq.symm)]
    cases h1 : (UnwindTdefs node1).1 <;> cases h2 : (UnwindTdefs node2).1 <;> try rfl
    · exact congrArg answer (decide_eq_decide.mpr eq_comm)
    · have hlt := sizeOf_pointee h1
      exact compareTypes_swap dims _ _ _ _
    · have hlt := sizeOf_element h1
      exact congrArg (both · _) (compareTypes_swap dims _ _ _ _)
    · exact congrArg answer (sameSue_comm _ _ _ _ _ _)
    · have hlt := sizeOf_signature h1
      refine congrArg₂ both (compareTypes_swap dims _ _ _ _) ?_
      rw [compareArgs_swap dims]
      simp only [or_comm, ne_comm]
  · rw [if_pos hq, if_pos (Ne.symm hq)]
termination_by sizeOf node1
decreasing_by all_goals omega

theorem compareArgs_swap (dims : Addr → Addr → Comparison σ) (args1 args2 : Args) (rec : Bool) :
    compareArgs dims args1 args2 rec = compareArgs (fun a b => dims b a) args2 args1 rec := by
  cases args1 with
  | null =>
    cases args2 <;> rw [compareArgs, compareArgs]
    all_goals simp
  | decl type1 rest1 | type type1 rest1 =>
    cases args2 with
    | null =>
      rw [compareArgs, compareArgs]
      all_goals simp
    | decl type2 rest2 | type type2 rest2 =>
      rw [compareArgs, compareArgs]
      exact congrArg₂ both (compareTypes_swap dims _ _ _ _) (compareArgs_swap dims _ _ _)
termination_by sizeOf args1

end

/-! ## The dimensions that arrays have -/

/-- The dimension of each array that has one. -/
abbrev Dims (F : Floats) := Addr → Option (ConstFold.Node F)

/-- The dimensions in a store. -/
def Store.dims (s : Store F) : Dims F := fun addr => s.dim (s.dimp addr)

/-- Comparing two arrays, as far as their dimensions go: one that is missing is
taken from the other array. -/
def completeDims (addr1 addr2 : Addr) : Comparison (Dims F) := fun d =>
  match d addr1, d addr2 with
  | some dim1, some dim2 => (dimsAgree dim1 dim2).map fun equal => (equal, d)
  | some _, none => some (true, Function.update d addr2 (d addr1))
  | none, _ => some (true, Function.update d addr1 (d addr2))

/-- An assignment to a `dimp` copies a dimension. -/
theorem dims_share (s : Store F) (addr1 addr2 : Addr) :
    ({ s with dimp := Function.update s.dimp addr2 (s.dimp addr1) } : Store F).dims
      = Function.update s.dims addr2 (s.dims addr1) := by
  funext addr
  show s.dim (Function.update s.dimp addr2 (s.dimp addr1) addr) = _
  by_cases h : addr = addr2
  · subst h
    rw [Function.update_self, Function.update_self]
    rfl
  · rw [Function.update_of_ne h, Function.update_of_ne h]
    rfl

theorem simulation_respected :
    Respected fun (c : Comparison (Store F)) (d : Comparison (Dims F)) =>
      ∀ s, (c s).map (Prod.map id Store.dims) = d s.dims where
  answer _ _ := rfl
  both := by
    intro c d c' d' h h' s
    unfold both
    rw [← h s]
    cases c s with
    | none => rfl
    | some r =>
      obtain ⟨_ | _, s'⟩ := r
      · rfl
      · exact h' s'

/-- **The comparison of two types is a comparison of dimensions.** -/
theorem typeEqualQualified_dims (node1 node2 : Node) (top rec : Bool) (s : Store F) :
    (TypeEqualQualified node1 node2 top rec s).map (Prod.map id Store.dims)
      = compareTypes completeDims node1 node2 top rec s.dims := by
  refine compareTypes_related simulation_respected (fun addr1 addr2 s => ?_) _ _ _ _ s
  unfold compareDims completeDims
  show _ = match s.dim (s.dimp addr1), s.dim (s.dimp addr2) with
    | some dim1, some dim2 => _
    | some _, none => _
    | none, _ => _
  cases s.dim (s.dimp addr1) with
  | none => exact congrArg some (Prod.ext rfl (dims_share s addr2 addr1))
  | some dim1 =>
    cases s.dim (s.dimp addr2) with
    | none => exact congrArg some (Prod.ext rfl (dims_share s addr1 addr2))
    | some dim2 =>
      show ((dimsAgree dim1 dim2).map _).map _ = _
      rw [Option.map_map]
      rfl

/-! ## The other way round -/

theorem dimsAgree_comm (dim1 dim2 : ConstFold.Node F) :
    dimsAgree dim1 dim2 = dimsAgree dim2 dim1 := by
  unfold dimsAgree IntegralConstEqual
  rw [Bool.and_comm]
  cases dim1.constantIntegralValue.value with
  | none => cases dim2.constantIntegralValue.value <;> rfl
  | some value1 =>
    cases dim2.constantIntegralValue.value with
    | none => rfl
    | some value2 =>
      show (if _ then some (decide (value1 = value2)) else _) = _
      rw [decide_eq_decide.mpr (eq_comm (a := value1))]

/-- **Two arrays complete each other in the same way from either side.** -/
theorem completeDims_comm (addr1 addr2 : Addr) :
    (completeDims addr1 addr2 : Comparison (Dims F)) = completeDims addr2 addr1 := by
  funext d
  unfold completeDims
  cases h1 : d addr1 with
  | none =>
    cases h2 : d addr2 with
    | none =>
      show some (true, Function.update d addr1 none) = some (true, Function.update d addr2 none)
      rw [Function.update_eq_self_iff.mpr h1.symm, Function.update_eq_self_iff.mpr h2.symm]
    | some dim2 => rfl
  | some dim1 =>
    cases h2 : d addr2 with
    | none => rfl
    | some dim2 =>
      show (dimsAgree dim1 dim2).map _ = (dimsAgree dim2 dim1).map _
      rw [dimsAgree_comm]

theorem answer_comm (node1 node2 : Node) (top rec : Bool) (s : Store F) :
    (TypeEqualQualified node1 node2 top rec s).map Prod.fst
      = (TypeEqualQualified node2 node1 top rec s).map Prod.fst := by
  have hfst (node1 node2 : Node) : (TypeEqualQualified node1 node2 top rec s).map Prod.fst
      = (compareTypes completeDims node1 node2 top rec s.dims).map Prod.fst := by
    rw [← typeEqualQualified_dims, Option.map_map]
    rfl
  rw [hfst, hfst, compareTypes_swap]
  simp only [completeDims_comm]

/-! ## What is left behind -/

/-- The dimensions of `d` are among those of `d'`. -/
def Extends (d d' : Dims F) : Prop := ∀ addr dim, d addr = some dim → d' addr = some dim

theorem Extends.trans {d d' d'' : Dims F} (h : Extends d d') (h' : Extends d' d'') :
    Extends d d'' := fun addr dim hd => h' addr dim (h addr dim hd)

theorem Extends.antisymm {d d' : Dims F} (h : Extends d d') (h' : Extends d' d) : d = d' := by
  funext addr
  cases hd : d addr with
  | some dim => exact (h addr dim hd).symm
  | none =>
    cases hd' : d' addr with
    | none => rfl
    | some dim => exact hd.symm.trans (h' addr dim hd')

theorem extends_update {d : Dims F} {addr : Addr} (h : d addr = none)
    (dim : Option (ConstFold.Node F)) : Extends d (Function.update d addr dim) := by
  intro a dim' ha
  have hne : a ≠ addr := by
    rintro rfl
    exact Option.some_ne_none _ (ha.symm.trans h)
  rw [Function.update_of_ne hne]
  exact ha

/-- **An array that has a dimension keeps it.** -/
theorem completeDims_extends {addr1 addr2 : Addr} {d : Dims F} {r : Bool × Dims F}
    (h : completeDims addr1 addr2 d = some r) : Extends d r.2 := by
  unfold completeDims at h
  cases h1 : d addr1 with
  | none =>
    rw [h1] at h
    obtain rfl := Option.some.inj h
    exact extends_update h1 _
  | some dim1 =>
    cases h2 : d addr2 with
    | none =>
      rw [h1, h2] at h
      obtain rfl := Option.some.inj h
      exact extends_update h2 _
    | some dim2 =>
      rw [h1, h2] at h
      obtain ⟨equal, -, rfl⟩ := Option.map_eq_some_iff.mp h
      exact fun _ _ hd => hd

/-- The search for two arrays with `p` among those that are compared, when the
dimensions are those of `d`. It ends at the first. -/
def search (p : Addr → Addr → Bool) (d : Dims F) (addr1 addr2 : Addr) : Comparison Bool :=
  fun found =>
    if p addr1 addr2 then some (false, true)
    else
      match d addr1, d addr2 with
      | some dim1, some dim2 => (dimsAgree dim1 dim2).map fun equal => (equal, found)
      | _, _ => some (true, found)

/-- **Two arrays with `p` are compared** before a difference is found. -/
def Reaches (p : Addr → Addr → Bool) (d : Dims F) (node1 node2 : Node) (top rec : Bool) : Prop :=
  (compareTypes (search p d) node1 node2 top rec false).any Prod.snd = true

/-- Exactly one of the two arrays has a dimension. -/
def oneSided (d : Dims F) (addr1 addr2 : Addr) : Bool := (d addr1).isSome != (d addr2).isSome

/-- One of the two arrays has no dimension, and their cells differ. -/
def apart (s : Store F) (addr1 addr2 : Addr) : Bool :=
  s.dimp addr1 != s.dimp addr2 && !((s.dims addr1).isSome && (s.dims addr2).isSome)

/-- How a run from `s` ends, given how the search ends: the state stays `s`
while the search finds nothing, and `Q` holds of what is left after a find. -/
inductive Outcome (s : σ) (Q : σ → Prop) : Option (Bool × Bool) → Option (Bool × σ) → Prop
  | abort : Outcome s Q none none
  | quiet (b : Bool) : Outcome s Q (some (b, false)) (some (b, s))
  | found (r : Option (Bool × σ)) (h : ∀ q, r = some q → Q q.2) :
      Outcome s Q (some (false, true)) r

/-- A comparison follows a search, and does not lose what is found. -/
structure Follows (s : σ) (Q : σ → Prop) (c : Comparison σ) (d : Comparison Bool) : Prop where
  kept : ∀ s' q, Q s' → c s' = some q → Q q.2
  outcome : Outcome s Q (d false) (c s)

theorem both_eq_some {c d : Comparison σ} {s : σ} {q : Bool × σ} (h : both c d s = some q) :
    c s = some q ∨ ∃ s', c s = some (true, s') ∧ d s' = some q := by
  unfold both at h
  cases hc : c s with
  | none =>
    rw [hc] at h
    cases h
  | some r =>
    obtain ⟨_ | _, s'⟩ := r
    · rw [hc] at h
      exact .inl h
    · rw [hc] at h
      exact .inr ⟨s', rfl, h⟩

/-- **The walk follows the search** when it does so at two arrays. -/
theorem follows_respected (s : σ) (Q : σ → Prop) : Respected (Follows s Q) where
  answer b :=
    { kept := by
        rintro s' q hs' hq
        obtain rfl := Option.some.inj hq
        exact hs'
      outcome := .quiet b }
  both := by
    intro c d c' d' h h'
    have hkept : ∀ s' q, Q s' → both c c' s' = some q → Q q.2 := by
      intro s' q hs' hq
      obtain hc | ⟨t, hc, hc'⟩ := both_eq_some hq
      · exact h.kept s' q hs' hc
      · exact h'.kept t q (h.kept s' _ hs' hc) hc'
    refine ⟨hkept, ?_⟩
    have hout := h.outcome
    have hfirst : ∀ q, both c c' s = some q → c s = some q ∨ ∃ s', c s = some (true, s') ∧
        c' s' = some q := fun q hq => both_eq_some hq
    unfold both at hfirst ⊢
    generalize d false = x at hout ⊢
    generalize c s = y at hout hfirst ⊢
    cases hout with
    | abort => exact .abort
    | quiet b =>
      cases b with
      | false => exact .quiet false
      | true => exact h'.outcome
    | found r hr =>
      refine .found _ fun q hq => ?_
      obtain hc | ⟨t, hc, hc'⟩ := hfirst q hq
      · exact hr q hc
      · exact h'.kept t q (hr _ hc) hc'

/-- **Completing an array changes the dimensions**, and nothing undoes it. -/
theorem completeDims_follows (d : Dims F) (addr1 addr2 : Addr) :
    Follows d (fun d' => Extends d d' ∧ d' ≠ d) (completeDims addr1 addr2)
      (search (oneSided d) d addr1 addr2) where
  kept := by
    rintro d' q ⟨hext, hne⟩ hq
    have hmore := completeDims_extends hq
    refine ⟨hext.trans hmore, fun heq => hne ?_⟩
    rw [heq] at hmore
    exact hmore.antisymm hext
  outcome := by
    unfold search oneSided completeDims
    cases h1 : d addr1 with
    | none =>
      cases h2 : d addr2 with
      | none =>
        show Outcome _ _ (some (true, false)) (some (true, Function.update d addr1 none))
        rw [Function.update_eq_self_iff.mpr h1.symm]
        exact .quiet true
      | some dim2 =>
        refine .found _ fun q hq => ?_
        obtain rfl := Option.some.inj hq
        refine ⟨extends_update h1 _, fun heq => ?_⟩
        exact Option.some_ne_none _ ((Function.update_self addr1 _ d).symm.trans
          ((congrFun heq addr1).trans h1))
    | some dim1 =>
      cases h2 : d addr2 with
      | none =>
        refine .found _ fun q hq => ?_
        obtain rfl := Option.some.inj hq
        refine ⟨extends_update h2 _, fun heq => ?_⟩
        exact Option.some_ne_none _ ((Function.update_self addr2 _ d).symm.trans
          ((congrFun heq addr2).trans h2))
      | some dim2 =>
        show Outcome _ _ ((dimsAgree dim1 dim2).map _) ((dimsAgree dim1 dim2).map _)
        cases dimsAgree dim1 dim2 with
        | none => exact .abort
        | some equal => exact .quiet equal

/-- **Where the cells are the same, or both dimensions are there, the store is
left alone.** -/
theorem compareDims_follows (s : Store F) (addr1 addr2 : Addr) :
    Follows s (fun _ => True) (compareDims addr1 addr2) (search (apart s) s.dims addr1 addr2) where
  kept _ _ _ _ := trivial
  outcome := by
    unfold search
    by_cases hap : apart s addr1 addr2
    · rw [if_pos hap]
      exact .found _ fun _ _ => trivial
    · rw [if_neg hap]
      have hsame : ∀ a b, s.dimp b = s.dimp a →
          ({ s with dimp := Function.update s.dimp a (s.dimp b) } : Store F) = s := by
        intro a b hab
        rw [Function.update_eq_self_iff.mpr hab]
      unfold compareDims
      unfold apart Store.dims at hap
      unfold Store.dims
      cases h1 : s.dim (s.dimp addr1) with
      | none =>
        have heq : s.dimp addr2 = s.dimp addr1 := by
          rw [h1] at hap
          simp only [Option.isSome_none, Bool.false_and, Bool.not_false, Bool.and_true, bne_iff_ne,
            not_not] at hap
          exact hap.symm
        show Outcome _ _ (some (true, false)) (some (true, _))
        rw [hsame addr1 addr2 heq]
        exact .quiet true
      | some dim1 =>
        cases h2 : s.dim (s.dimp addr2) with
        | none =>
          have heq : s.dimp addr1 = s.dimp addr2 := by
            rw [h1, h2] at hap
            simpa using hap
          show Outcome _ _ (some (true, false)) (some (true, _))
          rw [hsame addr2 addr1 heq]
          exact .quiet true
        | some dim2 =>
          show Outcome _ _ ((dimsAgree dim1 dim2).map _) ((dimsAgree dim1 dim2).map _)
          cases dimsAgree dim1 dim2 with
          | none => exact .abort
          | some equal => exact .quiet equal

/-- What a run leaves that follows the search for two arrays. -/
theorem left_behind {s : σ} {Q : σ → Prop} {c : Comparison σ} {p : Addr → Addr → Bool}
    {d : Dims F} {node1 node2 : Node} {top rec : Bool}
    (h : Follows s Q c (compareTypes (search p d) node1 node2 top rec)) {q : Bool × σ}
    (hrun : c s = some q) :
    (Reaches p d node1 node2 top rec → Q q.2) ∧
      (¬ Reaches p d node1 node2 top rec → q.2 = s) := by
  have hout := h.outcome
  unfold Reaches
  generalize compareTypes (search p d) node1 node2 top rec false = x at hout ⊢
  rw [hrun] at hout
  cases hout with
  | quiet b => exact ⟨fun h => (by cases h), fun _ => rfl⟩
  | found r hr => exact ⟨fun _ => hr q rfl, fun h => absurd rfl h⟩

/-- **Comparing types is symmetric**, and after the answer is no the arrays have
the dimensions they had exactly when no array without a dimension was compared
with one that has a dimension. Where no two arrays with cells of their own are
compared of which one has no dimension, the cells are left alone too. -/
theorem comparison_harmless_iff (node1 node2 : Node) (top rec : Bool) (s : Store F) :
    (TypeEqualQualified node1 node2 top rec s).map Prod.fst
        = (TypeEqualQualified node2 node1 top rec s).map Prod.fst ∧
      ∀ s', TypeEqualQualified node1 node2 top rec s = some (false, s') →
        ((∀ addr, s'.dims addr = s.dims addr) ↔
          ¬ Reaches (oneSided s.dims) s.dims node1 node2 top rec) ∧
        (¬ Reaches (apart s) s.dims node1 node2 top rec → s' = s) := by
  refine ⟨answer_comm node1 node2 top rec s, fun s' hrun => ⟨?_, ?_⟩⟩
  · have hdims : compareTypes completeDims node1 node2 top rec s.dims = some (false, s'.dims) := by
      rw [← typeEqualQualified_dims, hrun]
      rfl
    have hleft := left_behind (compareTypes_related (follows_respected _ _)
      (completeDims_follows s.dims) node1 node2 top rec) hdims
    refine ⟨fun hsame hreach => (hleft.1 hreach).2 (funext hsame), fun hreach addr => ?_⟩
    exact congrFun (hleft.2 hreach) addr
  · exact (left_behind (compareTypes_related (follows_respected _ _)
      (compareDims_follows s) node1 node2 top rec) hrun).2

/-! ## A parameter after an array -/

/-- `int (int a[], char)` -/
def openArray : Node :=
  .Fdcl 0 (.decl (.Adcl 1 0 (.Prim 0 .Sint)) (.type (.Prim 0 .Char) .null)) (.Prim 0 .Sint)

/-- `int (int a[3], int)` -/
def closedArray : Node :=
  .Fdcl 0 (.decl (.Adcl 2 0 (.Prim 0 .Sint)) (.type (.Prim 0 .Sint) .null)) (.Prim 0 .Sint)

/-- Each array has a cell of its own. -/
def cells : Store ConstFold.Floats.rational where
  dimp := id
  dim addr := if addr = 2 then some ⟨.Prim .Sint, some (.int .Sint 3)⟩ else none

/-- The store after the two are compared. -/
def cellsAfter : Store ConstFold.Floats.rational :=
  { cells with dimp := Function.update id 1 2 }

theorem compare_openArray :
    TypeEqualQualified openArray closedArray true true cells = some (false, cellsAfter) := by
  simp [TypeEqualQualified, openArray, closedArray, compareTypes, compareArgs, UnwindTdefs,
    unwindFrom, NodeTypeQuals, NodeTq, comparedQuals, both, answer, Args.length, compareDims, cells,
    cellsAfter]

/-- The array gets the dimension `3` although the functions differ. -/
theorem openArray_is_completed :
    ∃ s', TypeEqualQualified openArray closedArray true true cells = some (false, s') ∧
      s'.dims 1 ≠ cells.dims 1 := by
  refine ⟨cellsAfter, compare_openArray, ?_⟩
  show cells.dim 2 ≠ cells.dim 1
  exact Option.some_ne_none _

theorem comparison_harmless_iff_openArray :
    Reaches (oneSided cells.dims) cells.dims openArray closedArray true true := by
  have h := ((comparison_harmless_iff openArray closedArray true true cells).2 _
    compare_openArray).1
  by_contra hreach
  have hsame : cells.dim 2 = cells.dim 1 := h.mpr hreach 1
  exact Option.some_ne_none _ hsame

end Cilk.TypeEquality
