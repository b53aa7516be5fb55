import Cilk.ResultSizes.Agreement

/-!
# When compiler and runtime agree on the sizes of results

Of an accepted program, what a spawned procedure passes on fits into what the
signature records for the site, for each site, whatever sizes the compiler of
the generated code gives to types, exactly if

* the procedure is spawned under a declaration at the top level, unless what it
  returns fits into the type that the other declaration gives it,
* the types fit of results that are not compared by their sizes: structures,
  unions, enumerations and complex numbers, values of type `void`, and types
  whose declaration sets the size,
* an inlet is called under a declaration with the parameters that its definition
  has, unless the result fits into these.

That one type fits into others is a matter of their classes, and not of sizes:
there are as many parts in them whose class is as large.
-/

namespace Cilk.ResultSizes

open ConstFold (Floats)
open TypeEquality Alignment

variable {F : Floats}

/-! ## Symbol tables -/

/-- Names that stand in the table keep their declaration. -/
def Extends (externals externals' : Externals) : Prop :=
  ∀ name type, externals.lookup name = some type → externals'.lookup name = some type

theorem Extends.refl (externals : Externals) : Extends externals externals := fun _ _ h => h

theorem Extends.trans {e e' e'' : Externals} (h : Extends e e') (h' : Extends e' e'') :
    Extends e e'' :=
  fun name type hname => h' name type (h name type hname)

theorem lookup_insertExternal (externals : Externals) (name : String) (type : Node) :
    (insertExternal externals name type).lookup name =
      some (externalType externals name type) := by
  unfold insertExternal externalType
  cases h : externals.lookup name with
  | some orig => exact h
  | none =>
    show ((name, type) :: externals).lookup name = _
    rw [List.lookup_cons_self]
    rfl

theorem extends_insertExternal (externals : Externals) (name : String) (type : Node) :
    Extends externals (insertExternal externals name type) := by
  intro other type' h
  unfold insertExternal
  cases hname : externals.lookup name with
  | some orig => exact h
  | none =>
    show ((name, type) :: externals).lookup other = _
    have hne : other ≠ name := by
      rintro rfl
      exact absurd (hname.symm.trans h) (Option.some_ne_none _).symm
    rw [List.lookup_cons, beq_false_of_ne hne]
    exact h

theorem extends_declare (externals : Externals) (name : String) (type : Node) (p : Bool) :
    Extends externals (if p then insertExternal externals name type else externals) := by
  cases p
  · exact .refl _
  · exact extends_insertExternal _ _ _

theorem Body.extends_externals (body : Body) (externals : Externals) :
    Extends externals (body.externals externals) := by
  induction body generalizing externals with
  | nothing => exact .refl _
  | declare name type storage rest ih => exact (extends_declare _ _ _ _).trans (ih _)
  | block inner rest ihi ihr | define _ _ _ _ inner rest ihi ihr => exact (ihi _).trans (ihr _)
  | call c rest ih | ret _ rest ih => exact ih _

theorem External.extends_externals (external : External) (externals : Externals) :
    Extends externals (external.externals externals) := by
  cases external with
  | declare name type => exact extends_insertExternal _ _ _
  | procedure name tq args returns body =>
    exact (extends_insertExternal _ _ _).trans (body.extends_externals _)

/-- `Externals` after a program. -/
def tableAfter (program : List External) (externals : Externals) : Externals :=
  program.foldl (fun e external => external.externals e) externals

theorem extends_tableAfter (program : List External) (externals : Externals) :
    Extends externals (tableAfter program externals) := by
  induction program generalizing externals with
  | nil => exact .refl _
  | cons external rest ih => exact (external.extends_externals _).trans (ih _)

/-- A symbol that stands in `Externals` is what stands there under its name. -/
def Symbol.Known (externals : Externals) (name : String) (symbol : Symbol) : Prop :=
  symbol.found = .global → externals.lookup name = some symbol.type

/-- The two tables are consistent. -/
def Consistent (externals : Externals) (identifiers : Identifiers) : Prop :=
  ∀ name symbol, identifiers.lookup name = some symbol → symbol.Known externals name

theorem Consistent.mono {externals externals' : Externals} {identifiers : Identifiers}
    (h : Consistent externals identifiers) (hext : Extends externals externals') :
    Consistent externals' identifiers :=
  fun name symbol hname hfound => hext _ _ (h name symbol hname hfound)

theorem Consistent.cons {externals : Externals} {identifiers : Identifiers} {name : String}
    {symbol : Symbol} (h : Consistent externals identifiers) (hknown : symbol.Known externals name) :
    Consistent externals ((name, symbol) :: identifiers) := by
  intro other symbol' hother
  rw [List.lookup_cons] at hother
  by_cases heq : other = name
  · subst heq
    rw [beq_self_eq_true] at hother
    exact Option.some.inj hother ▸ hknown
  · rw [beq_false_of_ne heq] at hother
    exact h other symbol' hother

theorem known_declared (externals : Externals) (name : String) (type : Node) (storage : Storage) :
    (declared externals name type storage).Known
      (if checksExternals type storage then insertExternal externals name type else externals)
      name := by
  unfold declared
  cases checksExternals type storage
  · intro hfound
    change (if storage = .formal then Found.formal else .local) = .global at hfound
    split_ifs at hfound
  · intro _
    exact lookup_insertExternal externals name type

/-- **A name that is spawned** is that of a symbol which is known at the end. -/
theorem Body.sites_known (defs : List (String × List Node)) (body : Body) (context : Context)
    (externals : Externals) (identifiers : Identifiers) (h : Consistent externals identifiers) :
    ∀ site ∈ body.sites defs context externals identifiers, ∀ symbol,
      site.spawned = some symbol → symbol.Known (body.externals externals) site.call.name := by
  induction body generalizing context externals identifiers with
  | nothing => exact fun site hsite => absurd hsite List.not_mem_nil
  | declare name type storage rest ih =>
    exact ih _ _ _ ((h.mono (extends_declare _ _ _ _)).cons (known_declared _ _ _ _))
  | block inner rest ihi ihr =>
    intro site hsite symbol hsymbol
    rcases List.mem_append.mp hsite with hsite | hsite
    · exact fun hfound => rest.extends_externals _ _ _ (ihi _ _ _ h site hsite symbol hsymbol hfound)
    · exact ihr _ _ _ (h.mono (inner.extends_externals _)) site hsite symbol hsymbol
  | define name tq args returns inner rest ihi ihr =>
    have hdef : Consistent externals ((name, ⟨.Fdcl tq args returns, .local⟩) :: identifiers) :=
      h.cons fun hfound => absurd hfound (by decide : ¬ Found.local = .global)
    intro site hsite symbol hsymbol
    rcases List.mem_append.mp hsite with hsite | hsite
    · exact fun hfound =>
        rest.extends_externals _ _ _ (ihi _ _ _ hdef site hsite symbol hsymbol hfound)
    · exact ihr _ _ _ (hdef.mono (inner.extends_externals _)) site hsite symbol hsymbol
  | call c rest ih =>
    intro site hsite symbol hsymbol
    rcases List.mem_cons.mp hsite with rfl | hsite
    · intro hfound
      refine rest.extends_externals _ _ _ ?_
      cases c with
      | spawn _ _ name => exact h name symbol hsymbol hfound
      | inletCall _ name _ => exact h name symbol hsymbol hfound
    · exact ih _ _ _ h site hsite symbol hsymbol
  | ret value rest ih => exact ih _ _ _ h

theorem External.consistent_identifiers (external : External) {externals : Externals}
    {identifiers : Identifiers} (h : Consistent externals identifiers) :
    Consistent (external.externals externals) (external.identifiers externals identifiers) := by
  cases external with
  | declare name type =>
    exact (h.mono (extends_insertExternal _ _ _)).cons fun _ => lookup_insertExternal _ _ _
  | procedure name tq args returns body =>
    have hnew : Consistent (insertExternal externals name (.Fdcl tq args returns))
        ((External.procedure name tq args returns body).identifiers externals identifiers) :=
      (h.mono (extends_insertExternal _ _ _)).cons fun _ => lookup_insertExternal _ _ _
    exact hnew.mono (body.extends_externals _)

theorem sites_known (program : List External) (externals : Externals) (identifiers : Identifiers)
    (h : Consistent externals identifiers) :
    ∀ site ∈ sites program externals identifiers, ∀ symbol, site.spawned = some symbol →
      symbol.Known (tableAfter program externals) site.call.name := by
  induction program generalizing externals identifiers with
  | nil => exact fun site hsite => absurd hsite List.not_mem_nil
  | cons external rest ih =>
    intro site hsite symbol hsymbol
    rcases List.mem_append.mp hsite with hsite | hsite
    · cases external with
      | declare name type => exact absurd hsite List.not_mem_nil
      | procedure name tq args returns body =>
        have hnew : Consistent (insertExternal externals name (.Fdcl tq args returns))
            ((External.procedure name tq args returns body).identifiers externals identifiers) :=
          (h.mono (extends_insertExternal _ _ _)).cons fun _ => lookup_insertExternal _ _ _
        exact fun hfound => extends_tableAfter rest _ _ _
          (body.sites_known _ _ _ _ hnew site hsite symbol hsymbol hfound)
    · exact ih _ _ (external.consistent_identifiers h) site hsite symbol hsymbol

/-! ## Declarations that agree -/

/-- The declaration and the definition have the same result, or results that
compare equal. -/
def ResultsEqual (F : Floats) (declared defined : Node) : Prop :=
  declared = defined ∨ Passed (TypeEqual declared defined : Comparison (Store F))

theorem ResultsEqual.isVoidType_eq {T R : Node} (h : ResultsEqual F T R) :
    IsVoidType T = IsVoidType R := by
  obtain rfl | h := h
  · rfl
  · exact ResultSizes.isVoidType_eq h

theorem ResultsEqual.measure_eq {sized : Attributes} {T R : Node} (h : ResultsEqual F T R)
    (hT : determined sized T = true) (hR : determined sized R = true) :
    measure sized T = measure sized R := by
  obtain rfl | h := h
  · rfl
  · exact ResultSizes.measure_eq h hT hR

/-- **A definition agrees with the first declaration** of the procedure. -/
theorem functionConflict_passed {orig : Node} {tq : TypeQual} {args : Args} {returns : Node}
    (h : Passed (FunctionConflict orig (.Fdcl tq args returns) : Comparison (Store F))) :
    ∃ otq oargs oreturns, NodeDataType orig = .Fdcl otq oargs oreturns ∧
      Passed (TypeEqual oreturns returns : Comparison (Store F)) := by
  unfold FunctionConflict at h
  rw [show NodeDataType (.Fdcl tq args returns) = .Fdcl tq args returns from rfl] at h
  cases horig : NodeDataType orig with
  | Fdcl otq oargs oreturns =>
    rw [horig] at h
    exact ⟨otq, oargs, oreturns, rfl, h.of_if.2⟩
  | Prim | Tdef | Ptr | Adcl | Sue =>
    rw [horig] at h
    exact absurd h not_passed_answer_false

/-- What stands in the table under the name of a procedure has its result. -/
def Declares (F : Floats) (externals : Externals) (d : Procedure) : Prop :=
  ∃ type tq args returns, externals.lookup d.name = some type ∧
    NodeDataType type = .Fdcl tq args returns ∧ ResultsEqual F returns d.returns

theorem declares_of_check {externals : Externals} {name : String} {tq : TypeQual} {args : Args}
    {returns : Node} {values : List Bool}
    (h : Passed (checkExternal externals name (.Fdcl tq args returns) : Comparison (Store F))) :
    Declares F (insertExternal externals name (.Fdcl tq args returns)) ⟨name, returns, values⟩ := by
  unfold checkExternal at h
  cases hname : externals.lookup name with
  | none =>
    refine ⟨.Fdcl tq args returns, tq, args, returns, ?_, rfl, .inl rfl⟩
    rw [lookup_insertExternal, externalType, hname]
    rfl
  | some orig =>
    rw [hname] at h
    obtain ⟨otq, oargs, oreturns, horig, hequal⟩ := functionConflict_passed h
    refine ⟨orig, otq, oargs, oreturns, ?_, horig, .inr hequal⟩
    rw [lookup_insertExternal, externalType, hname]
    rfl

theorem Declares.mono {externals externals' : Externals} {d : Procedure}
    (h : Declares F externals d) (hext : Extends externals externals') :
    Declares F externals' d := by
  obtain ⟨type, tq, args, returns, hname, htype, hequal⟩ := h
  exact ⟨type, tq, args, returns, hext _ _ hname, htype, hequal⟩

theorem procedures_declared (program : List External) (externals : Externals)
    (h : Passed (checkExternals program externals : Comparison (Store F))) :
    ∀ d ∈ procedures program, Declares F (tableAfter program externals) d := by
  induction program generalizing externals with
  | nil => exact fun d hd => absurd hd List.not_mem_nil
  | cons external rest ih =>
    obtain ⟨hfirst, hrest⟩ := Passed.both h
    intro d hd
    cases external with
    | declare name type => exact ih _ hrest d hd
    | procedure name tq args returns body =>
      have htail := ih _ hrest
      unfold procedures at hd
      split_ifs at hd
      · rcases List.mem_cons.mp hd with rfl | hd
        · refine (declares_of_check (Passed.both hfirst).1).mono ?_
          exact (body.extends_externals _).trans (extends_tableAfter rest _)
        · exact htail d hd
      · exact htail d hd

theorem checkSites_passed {l : List Site} (h : Passed (checkSites l : Comparison (Store F))) :
    ∀ site ∈ l, Passed (site.check : Comparison (Store F)) := by
  induction l with
  | nil => exact fun site hsite => absurd hsite List.not_mem_nil
  | cons first rest ih =>
    obtain ⟨hfirst, hrest⟩ := Passed.both h
    exact List.forall_mem_cons.mpr ⟨hfirst, ih hrest⟩

theorem Accepted.checks {program : List External} {s : Store F} (h : Accepted program s) :
    Passed (checkExternals program [] : Comparison (Store F)) ∧
      ∀ site ∈ sites program [] [], Passed (site.check : Comparison (Store F)) := by
  obtain ⟨s', h⟩ := h
  obtain ⟨hfirst, hsecond⟩ := Passed.both ⟨s, s', h⟩
  exact ⟨hfirst, checkSites_passed hsecond⟩

/-- **The declaration is the one at the top level**, of which there is only one
result. -/
def Site.checked (site : Site) : Bool :=
  site.spawned.any fun symbol => symbol.found = .global && !IsPointerType symbol.type

/-- **A procedure that is spawned under its declaration at the top level** has the
result that is declared to the spawner. -/
theorem results_equal {program : List External} {s : Store F} (h : Accepted program s) {site : Site}
    (hsite : site ∈ sites program [] []) {d : Procedure} (hd : d ∈ procedures program)
    (hspawns : site.Spawns d) (hchecked : site.checked = true) {return_type : Node}
    (hreturn : site.return_type = some return_type) : ResultsEqual F return_type d.returns := by
  obtain ⟨symbol, hsymbol, hname⟩ := hspawns
  unfold Site.checked at hchecked
  rw [hsymbol, Option.any_some, Bool.and_eq_true, Bool.not_eq_true'] at hchecked
  obtain ⟨hfound, hpointer⟩ := hchecked
  have hglobal : symbol.found = .global := of_decide_eq_true hfound
  have hdirect : ¬ symbol.indirect = true := by
    unfold Symbol.indirect
    rw [hglobal, hpointer]
    decide
  have hempty : Consistent [] [] := fun name symbol hno => absurd hno (Option.some_ne_none _).symm
  have hknown := sites_known program [] [] hempty site hsite symbol hsymbol hglobal
  obtain ⟨type, tq, args, returns, htype, hdata, hequal⟩ :=
    procedures_declared program [] h.checks.1 d hd
  rw [hname.resolve_left hdirect, htype] at hknown
  obtain rfl := Option.some.inj hknown
  unfold Site.return_type calltype at hreturn
  rw [hsymbol] at hreturn
  dsimp only at hreturn
  rw [hdata] at hreturn
  exact Option.some.inj hreturn ▸ hequal

/-! ## What is recorded -/

/-- The size that is recorded for the result of a spawn. -/
def recorded (sized : Attributes) (t : Target) (receiver : Option Receiver) (assign_op : OpType)
    (return_type : Node) : ℕ :=
  if receiver.isNone && assign_op = .assign then 0 else t.sizeof sized return_type

theorem fits_iff (info : CilkProcInfo) (room return_size : ℕ) :
    Fits info room return_size ↔
      return_size ≤ (if info.inlet then info.argsize else info.size) ∧
        (info.inlet = false → info.size ≤ room) := by
  unfold Fits make_incomplete_inlet_closure complete_and_enque_inlet apply_inlet
  cases hinlet : info.inlet
  · constructor
    · rintro ⟨i, hi, hroom⟩
      rw [if_neg Bool.false_ne_true] at hi ⊢
      split_ifs at hi with hle
      obtain rfl := Option.some.inj hi
      exact ⟨hle, fun _ => hroom⟩
    · rintro ⟨hle, hroom⟩
      exact ⟨⟨false, info.size⟩, if_pos hle, hroom rfl⟩
  · constructor
    · rintro ⟨i, hi, -⟩
      rw [if_pos rfl] at hi ⊢
      split_ifs at hi with hle
      exact ⟨hle, fun he => absurd he.symm Bool.false_ne_true⟩
    · rintro ⟨hle, -⟩
      exact ⟨⟨true, info.argsize⟩, if_pos hle, Nat.zero_le _⟩

theorem fits_spawnInfo (sized : Attributes) (t : Target) (receiver : Option Receiver)
    (assign_op : OpType) (return_type : Node) (room return_size : ℕ) :
    Fits (spawnInfo sized t receiver assign_op return_type) room return_size ↔
      return_size ≤ recorded sized t receiver assign_op return_type ∧
        (assign_op = .assign → recorded sized t receiver assign_op return_type ≤ room) := by
  rw [fits_iff]
  unfold spawnInfo recorded
  by_cases hop : assign_op = .assign
  · cases receiver <;> simp [hop]
  · simp [hop]

theorem fits_inletCallInfo (sized : Attributes) (t : Target) (return_type : Node) (formals : Args)
    (struct : List Node) (room return_size : ℕ) :
    Fits (inletCallInfo sized t return_type formals struct) room return_size ↔
      return_size ≤ argumentArea sized t formals struct := by
  rw [fits_iff]
  exact and_iff_left fun he => absurd he.symm Bool.false_ne_true

/-! ## What fits -/

/-- **A type fits into others**: of its parts there are as many in them whose
class is as large. -/
def FitsInto (sized : Attributes) (type : Node) (members : List Node) : Prop :=
  Sizing.Room (measure sized type) (members.map (measure sized))

instance (sized : Attributes) (type : Node) (members : List Node) :
    Decidable (FitsInto sized type members) :=
  inferInstanceAs (Decidable (Sizing.Room _ _))

/-- A type fits where one of its size is the first. -/
theorem FitsInto.of_measure_eq {sized : Attributes} {type type' : Node} {rest : List Node}
    (h : measure sized type = measure sized type') : FitsInto sized type (type' :: rest) := by
  unfold FitsInto
  rw [h]
  exact Sizing.room_self _ _

/-- Nothing is no larger than no bytes. -/
theorem sizeof_le_zero_iff {sized : Attributes} {type : Node} :
    (∀ t : Target, t.sizeof sized type ≤ 0) ↔ FitsInto sized type [] := by
  unfold FitsInto
  rw [← Sizing.forall_le_total_iff .byte]
  exact ⟨fun h s => h (packed s), fun h t => h t.toSizing⟩

/-- The types whose sizes are recorded for the result of a spawn. -/
def recordedTypes (receiver : Option Receiver) (assign_op : OpType) (return_type : Node) :
    List Node :=
  if receiver.isNone && assign_op = .assign then [] else [return_type]

theorem sizeof_le_recorded_iff {sized : Attributes} {receiver : Option Receiver}
    {assign_op : OpType} {return_type type : Node} :
    (∀ t, t.sizeof sized type ≤ recorded sized t receiver assign_op return_type) ↔
      FitsInto sized type (recordedTypes receiver assign_op return_type) := by
  unfold recorded recordedTypes
  split_ifs
  · exact sizeof_le_zero_iff
  · exact sizeof_le_iff

/-- The types in the area for the arguments of an inlet. -/
def areaTypes (formals : Args) (struct : List Node) : List Node :=
  if (types formals).head?.all IsVoidType then [] else struct

theorem sizeof_le_argumentArea_iff {sized : Attributes} {formals : Args} {struct : List Node}
    {type : Node} :
    (∀ t, t.sizeof sized type ≤ argumentArea sized t formals struct) ↔
      FitsInto sized type (areaTypes formals struct) := by
  unfold argumentArea areaTypes
  split_ifs
  · exact sizeof_le_zero_iff
  · exact sizeof_le_structSize_iff

/-- Everything that is passed on at a spawn fits. -/
structure SpawnFits (sized : Attributes) (receiver : Option Receiver) (assign_op : OpType)
    (return_type : Node) (d : Procedure) : Prop where
  value : true ∈ d.values →
    FitsInto sized d.returns (recordedTypes receiver assign_op return_type)
  popped : ∀ r, receiver = some r → ∀ version,
    FitsInto sized (poppedType version r assign_op return_type) [return_type]
  receiver : ∀ r, receiver = some r → assign_op = .assign →
    FitsInto sized return_type [r.declared]

/-- **For all sizes at once** the sizes agree at a spawn where the types fit. -/
theorem forall_spawnAgrees_iff {sized : Attributes} {receiver : Option Receiver}
    {assign_op : OpType} {return_type : Node} {d : Procedure} :
    (∀ t, SpawnAgrees sized t receiver assign_op return_type d) ↔
      SpawnFits sized receiver assign_op return_type d := by
  unfold SpawnAgrees
  simp only [fits_spawnInfo]
  constructor
  · intro h
    refine ⟨fun hvalue => sizeof_le_recorded_iff.mp fun t =>
      ((h t).2 true (List.mem_cons_of_mem _ hvalue)).1, ?_, ?_⟩
    · rintro r rfl version
      exact sizeof_le_recorded_iff.mp fun t => ((h t).1 version).1
    · rintro r rfl rfl
      exact sizeof_le_iff.mp fun t => ((h t).1 .Fast).2 rfl
  · intro hfits t
    have hroom : assign_op = .assign →
        recorded sized t receiver assign_op return_type ≤
          (receiver.map fun r => t.sizeof sized r.declared).getD 0 := by
      rintro rfl
      cases receiver with
      | none => exact le_rfl
      | some r => exact sizeof_le_iff.mpr (hfits.receiver r rfl rfl) t
    refine ⟨fun version => ⟨?_, hroom⟩, fun value hvalue => ⟨?_, hroom⟩⟩
    · cases receiver with
      | none => exact Nat.zero_le _
      | some r => exact sizeof_le_recorded_iff.mpr (hfits.popped r rfl version) t
    · cases value with
      | false => exact Nat.zero_le _
      | true =>
        have hmem : true ∈ d.values := (List.mem_cons.mp hvalue).resolve_left Bool.false_ne_true.symm
        exact sizeof_le_recorded_iff.mpr (hfits.value hmem) t

/-- Everything that is passed on at an inlet call fits. -/
structure InletCallFits (sized : Attributes) (return_type : Node) (formals : Args)
    (struct : List Node) (d : Procedure) : Prop where
  value : true ∈ d.values → FitsInto sized d.returns (areaTypes formals struct)
  result : IsVoidType return_type = false →
    FitsInto sized (NodeDataType return_type) (areaTypes formals struct)

/-- **For all sizes at once** the sizes agree at an inlet call where the types
fit. -/
theorem forall_inletCallAgrees_iff {sized : Attributes} {return_type : Node} {formals : Args}
    {struct : List Node} {d : Procedure} :
    (∀ t, InletCallAgrees sized t return_type formals struct d) ↔
      InletCallFits sized return_type formals struct d := by
  unfold InletCallAgrees inletCallPopSize
  simp only [fits_inletCallInfo]
  constructor
  · intro h
    refine ⟨fun hvalue => sizeof_le_argumentArea_iff.mp fun t =>
      (h t).2 true (List.mem_cons_of_mem _ hvalue), fun hvoid => ?_⟩
    rw [hvoid] at h
    exact sizeof_le_argumentArea_iff.mp fun t => (h t).1
  · intro hfits t
    refine ⟨?_, fun value hvalue => ?_⟩
    · split_ifs with hvoid
      · exact Nat.zero_le _
      · exact sizeof_le_argumentArea_iff.mpr (hfits.result (Bool.not_eq_true _ ▸ hvoid)) t
    · cases value with
      | false => exact Nat.zero_le _
      | true =>
        have hmem : true ∈ d.values := (List.mem_cons.mp hvalue).resolve_left Bool.false_ne_true.symm
        exact sizeof_le_argumentArea_iff.mpr (hfits.value hmem) t

/-! ## Conditions -/

/-- The size of the procedure's result is not settled by the comparisons, or it
is the result of a procedure that has none. -/
def unsettled (sized : Attributes) (checked : Bool) (return_type : Node) (d : Procedure) : Bool :=
  !checked || !determined sized return_type || !determined sized d.returns || IsVoidType d.returns

theorem unsettled_eq_false {sized : Attributes} {checked : Bool} {return_type : Node}
    {d : Procedure} (h : unsettled sized checked return_type d = false) :
    checked = true ∧ determined sized return_type = true ∧ determined sized d.returns = true ∧
      IsVoidType d.returns = false := by
  unfold unsettled at h
  rw [Bool.or_eq_false_iff, Bool.or_eq_false_iff, Bool.or_eq_false_iff, Bool.not_eq_false',
    Bool.not_eq_false', Bool.not_eq_false'] at h
  exact ⟨h.1.1.1, h.1.1.2, h.1.2, h.2⟩

/-- The result and the receiver are compared by their sizes. -/
def receiverSettled (sized : Attributes) (r : Receiver) (assign_op : OpType)
    (return_type : Node) : Bool :=
  determined sized return_type && (assign_op ≠ .assign || determined sized r.declared)

/-- The inlet is called under a declaration that has the parameters of its
definition, the first of which is compared by its size. -/
def StructSettled (sized : Attributes) (formals : Args) (struct : List Node) : Prop :=
  struct = types formals ∧ (types formals).head?.all (determined sized) = true

/-- **The condition for a spawn.** -/
structure SpawnSettled (sized : Attributes) (checked : Bool) (receiver : Option Receiver)
    (assign_op : OpType) (return_type : Node) (d : Procedure) : Prop where
  /-- A value that is returned fits into the result that is declared. -/
  value : true ∈ d.values → unsettled sized checked return_type d = true →
    FitsInto sized d.returns (recordedTypes receiver assign_op return_type)
  /-- The result fits into the receiver. -/
  assigned : ∀ r, receiver = some r → receiverSettled sized r assign_op return_type = false →
    assign_op = .assign → FitsInto sized return_type [r.declared]
  /-- A receiver in a register fits into the result. -/
  register : ∀ r, receiver = some r → receiverSettled sized r assign_op return_type = false →
    assign_op = .assign → r.register .Fast = true → FitsInto sized r.type [return_type]
  /-- Elsewhere the result fits into its own type under the name of the
  declaration. -/
  temporary : ∀ r, receiver = some r → receiverSettled sized r assign_op return_type = false →
    (assign_op = .assign → r.register .Slow = false) →
    FitsInto sized (NodeDataType return_type) [return_type]

/-- **The condition for an inlet call.** -/
structure InletCallSettled (sized : Attributes) (checked : Bool) (return_type : Node)
    (formals : Args) (struct : List Node) (d : Procedure) : Prop where
  /-- A value that is returned fits into the inlet's parameters. -/
  value : true ∈ d.values →
    unsettled sized checked return_type d = true ∨ ¬ StructSettled sized formals struct →
    FitsInto sized d.returns (areaTypes formals struct)
  /-- The result fits into the inlet's parameters. -/
  result : IsVoidType return_type = false →
    determined sized return_type = false ∨ ¬ StructSettled sized formals struct →
    FitsInto sized (NodeDataType return_type) (areaTypes formals struct)

/-- **The condition for a site.** -/
def Site.Settled (sized : Attributes) (site : Site) (d : Procedure) : Prop :=
  ∀ return_type, site.return_type = some return_type →
    match site.call with
    | .spawn receiver assign_op _ =>
      SpawnSettled sized site.checked receiver assign_op return_type d
    | .inletCall _ _ _ =>
      ∀ struct ∈ site.structs,
        InletCallSettled sized site.checked return_type site.formals struct d

/-! ## Spawns -/

/-- **What `SemCheckSpawn` ensures** of the receiver. -/
theorem semCheckSpawn_passed {context : Context} {symbol : Symbol} {receiver : Option Receiver}
    {assign_op : OpType} {tq : TypeQual} {args : Args} {returns : Node}
    (hcall : calltype symbol.type = .Fdcl tq args returns)
    (h : Passed (SemCheckSpawn context (some symbol) receiver assign_op false :
      Comparison (Store F))) :
    (receiver = none → Passed (TypeEqual returns PrimVoid : Comparison (Store F))) ∧
      ∀ r, receiver = some r → assign_op = .assign →
        Passed (TypeEqualQualified returns r.type false false : Comparison (Store F)) := by
  unfold SemCheckSpawn at h
  have h := h.of_if.2
  dsimp only at h
  have h := h.of_if.2
  rw [if_neg Bool.false_ne_true, hcall] at h
  cases receiver with
  | none => exact ⟨fun _ => h, fun r hr => absurd hr (Option.some_ne_none r).symm⟩
  | some r =>
    refine ⟨fun hr => absurd hr (Option.some_ne_none r), fun r' hr hop => ?_⟩
    obtain rfl := Option.some.inj hr
    subst hop
    exact h

/-- In a register of the slow clone, a receiver is in one of the fast clone. -/
theorem register_fast {r : Receiver} (h : r.register .Slow = true) : r.register .Fast = true := by
  unfold Receiver.register at h ⊢
  rw [Bool.or_eq_true] at h ⊢
  exact h.imp_right fun hslow => (Bool.false_ne_true hslow).elim

/-- **What is popped off in either clone**: a receiver in a register, and a
temporary variable elsewhere. -/
theorem forall_poppedType_iff {sized : Attributes} {r : Receiver} {assign_op : OpType}
    {return_type : Node} :
    (∀ version, FitsInto sized (poppedType version r assign_op return_type) [return_type]) ↔
      (assign_op = .assign → r.register .Fast = true → FitsInto sized r.type [return_type]) ∧
        ((assign_op = .assign → r.register .Slow = false) →
          FitsInto sized (NodeDataType return_type) [return_type]) := by
  unfold poppedType
  constructor
  · intro h
    refine ⟨fun hop hregister => ?_, fun hregister => ?_⟩
    · have hfast := h .Fast
      rw [hregister, hop, if_pos (by decide)] at hfast
      exact hfast
    · have hslow := h .Slow
      rw [if_neg (by simpa using fun hr hop => Bool.false_ne_true ((hregister hop).symm.trans hr))]
        at hslow
      exact hslow
  · rintro ⟨hfast, hslow⟩ version
    split_ifs with hregister
    · obtain ⟨hregister, hop⟩ := Bool.and_eq_true_iff.mp hregister
      refine hfast (of_decide_eq_true hop) ?_
      cases version with
      | Fast => exact hregister
      | Slow => exact register_fast hregister
    · refine hslow fun hop => ?_
      rw [hop, decide_eq_true rfl, Bool.and_true, Bool.not_eq_true] at hregister
      cases version with
      | Fast => exact Bool.eq_false_iff.mpr fun h => Bool.eq_false_iff.mp hregister (register_fast h)
      | Slow => exact hregister

/-- What is popped off where the receiver is settled fits into the result. -/
theorem poppedType_fitsInto {sized : Attributes} {version : Version} {r : Receiver}
    {assign_op : OpType} {return_type : Node}
    (hequal : assign_op = .assign → measure sized return_type = measure sized r.declared)
    (hsettled : receiverSettled sized r assign_op return_type = true) :
    FitsInto sized (poppedType version r assign_op return_type) [return_type] := by
  unfold receiverSettled at hsettled
  rw [Bool.and_eq_true, Bool.or_eq_true] at hsettled
  obtain ⟨hreturn, hreceiver⟩ := hsettled
  refine FitsInto.of_measure_eq ?_
  unfold poppedType
  split_ifs with hregister
  · have hop : assign_op = .assign := of_decide_eq_true (Bool.and_eq_true_iff.mp hregister).2
    have hdeclared : determined sized r.declared = true :=
      hreceiver.resolve_left fun hne => of_decide_eq_true hne hop
    exact (measure_nodeDataType hdeclared).trans (hequal hop).symm
  · exact measure_nodeDataType hreturn

/-- **At a spawn** the sizes agree exactly under the condition. -/
theorem spawnFits_iff {sized : Attributes} {checked : Bool} {receiver : Option Receiver}
    {assign_op : OpType} {return_type : Node} {d : Procedure}
    (hnone : receiver = none → Passed (TypeEqual return_type PrimVoid : Comparison (Store F)))
    (hsome : ∀ r, receiver = some r → assign_op = .assign →
      Passed (TypeEqualQualified return_type r.type false false : Comparison (Store F)))
    (hequal : checked = true → ResultsEqual F return_type d.returns) :
    SpawnFits sized receiver assign_op return_type d ↔
      SpawnSettled sized checked receiver assign_op return_type d := by
  refine ⟨fun h => ⟨fun hvalue _ => h.value hvalue, fun r hr _ => h.receiver r hr,
    fun r hr _ => (forall_poppedType_iff.mp (h.popped r hr)).1,
    fun r hr _ => (forall_poppedType_iff.mp (h.popped r hr)).2⟩, fun h => ?_⟩
  have hsame : ∀ r, receiver = some r → receiverSettled sized r assign_op return_type = true →
      assign_op = .assign → measure sized return_type = measure sized r.declared := by
    intro r hr hsettled hop
    unfold receiverSettled at hsettled
    rw [Bool.and_eq_true, Bool.or_eq_true] at hsettled
    have hdeclared : determined sized r.declared = true :=
      hsettled.2.resolve_left fun hne => of_decide_eq_true hne hop
    calc measure sized return_type
        = measure sized r.type :=
          measure_eq (hsome r hr hop) hsettled.1 (determined_nodeDataType hdeclared)
      _ = measure sized r.declared := measure_nodeDataType hdeclared
  constructor
  case value =>
    intro hvalue
    cases hunsettled : unsettled sized checked return_type d with
    | true => exact h.value hvalue hunsettled
    | false =>
      obtain ⟨hchecked, hreturn, hdet, hvoid⟩ := unsettled_eq_false hunsettled
      have hequal := hequal hchecked
      -- a result that is not `void` has a receiver
      have hrecorded : recordedTypes receiver assign_op return_type = [return_type] := by
        cases receiver with
        | some r => rfl
        | none =>
          have hnull : IsVoidType return_type = IsVoidType PrimVoid := isVoidType_eq (hnone rfl)
          rw [hequal.isVoidType_eq, hvoid] at hnull
          exact absurd hnull Bool.false_ne_true
      rw [hrecorded]
      exact .of_measure_eq (hequal.measure_eq hreturn hdet).symm
  case popped =>
    intro r hr version
    cases hsettled : receiverSettled sized r assign_op return_type with
    | true => exact poppedType_fitsInto (hsame r hr hsettled) hsettled
    | false =>
      exact forall_poppedType_iff.mpr ⟨h.register r hr hsettled, h.temporary r hr hsettled⟩ version
  case receiver =>
    intro r hr hop
    cases hsettled : receiverSettled sized r assign_op return_type with
    | true => exact .of_measure_eq (hsame r hr hsettled hop)
    | false => exact h.assigned r hr hsettled hop

/-! ## Inlet calls -/

theorem not_variable_of_isVoidArglist {formals : Args} (h : IsVoidArglist formals = true) :
    (types formals).getLast?.all IsEllipsis = false := by
  unfold IsVoidArglist at h
  match hl : types formals, h with
  | [type], h =>
    show IsEllipsis type = false
    unfold IsVoidType NodeDataType at h
    match type, h with
    | .Prim _ .Void, _ => rfl
    | .Tdef _ _ _, _ => rfl

/-- **The first argument of an inlet call** is compared with the first
parameter. -/
theorem semCheckInletArgs_passed {formals : Args} {actual : Node} {actuals : List Node}
    (h : Passed (SemCheckInletArgs formals (actual :: actuals) : Comparison (Store F))) :
    ∃ formal rest, types formals = formal :: rest ∧
      Passed (TypeEqual (NodeDataType formal) actual : Comparison (Store F)) := by
  unfold SemCheckInletArgs at h
  dsimp only at h
  obtain ⟨hlength, h⟩ := h.of_if
  by_cases hvoid : IsVoidArglist formals = true
  · rw [if_pos hvoid, not_variable_of_isVoidArglist hvoid] at hlength
    exact absurd (by simp) hlength
  · rw [if_neg hvoid] at h
    cases hl : types formals with
    | nil =>
      rw [hl] at h
      exact absurd h not_passed_none
    | cons formal rest =>
      rw [hl] at h
      exact ⟨formal, rest, rfl, (Passed.both h).1⟩

/-- **What `SemCheckInletCall` ensures**: the result is compared with the first
parameter of the inlet. -/
theorem semCheckInletCall_passed {site : Site} {args : List Node} {symbol : Symbol}
    (hsymbol : site.spawned = some symbol) {return_type : Node}
    (hreturn : site.return_type = some return_type)
    (h : Passed (SemCheckInletCall site.context site.inlet site.spawned args :
      Comparison (Store F))) (hvoid : IsVoidType return_type = false) :
    ∃ formal rest, types site.formals = formal :: rest ∧
      Passed (TypeEqual (NodeDataType formal) (NodeDataType return_type) :
        Comparison (Store F)) := by
  unfold SemCheckInletCall at h
  have h := (Passed.both h.of_if.2).2
  unfold Site.return_type at hreturn
  unfold Site.formals
  rw [hsymbol] at h hreturn
  cases hinlet : site.inlet with
  | none =>
    rw [hinlet] at h
    exact absurd h not_passed_answer_false
  | some i =>
    rw [hinlet] at h
    dsimp only at h hreturn ⊢
    have h := h.of_if.2
    cases htype : NodeDataType i.type with
    | Prim | Tdef | Ptr | Adcl | Sue =>
      rw [htype] at h
      exact absurd h not_passed_answer_false
    | Fdcl tq formals returns =>
      rw [htype] at h
      cases hspawned : symbol.type with
      | Prim | Tdef | Ptr | Adcl | Sue =>
        rw [hspawned] at h
        exact absurd h not_passed_none
      | Fdcl tq' args' spawn_return_type =>
        rw [hspawned] at h hreturn
        obtain rfl : spawn_return_type = return_type := Option.some.inj hreturn
        have h := (Passed.both h.of_if.2).2
        rw [hvoid] at h
        exact semCheckInletArgs_passed h

/-- The area for the arguments of an inlet that is settled begins with the
result. -/
theorem fitsInto_areaTypes {sized : Attributes} {return_type type : Node} {formals : Args}
    {struct : List Node}
    (hformal : ∃ formal rest, types formals = formal :: rest ∧
      Passed (TypeEqual (NodeDataType formal) (NodeDataType return_type) : Comparison (Store F)))
    (hvoid : IsVoidType return_type = false) (hdet : determined sized return_type = true)
    (hstruct : StructSettled sized formals struct)
    (hmeasure : measure sized type = measure sized return_type) :
    FitsInto sized type (areaTypes formals struct) := by
  obtain ⟨rfl, hhead⟩ := hstruct
  obtain ⟨formal, rest, hl, hpassed⟩ := hformal
  rw [hl] at hhead
  have hnotvoid : IsVoidType formal = false := by
    rw [← isVoidType_nodeDataType, isVoidType_eq hpassed, isVoidType_nodeDataType, hvoid]
  have harea : areaTypes formals (types formals) = formal :: rest := by
    unfold areaTypes
    rw [hl]
    exact if_neg fun hall => Bool.false_ne_true (hnotvoid.symm.trans hall)
  rw [harea]
  refine .of_measure_eq ?_
  calc measure sized type
      = measure sized return_type := hmeasure
    _ = measure sized (NodeDataType return_type) := (measure_nodeDataType hdet).symm
    _ = measure sized (NodeDataType formal) :=
      (measure_eq hpassed (determined_nodeDataType hhead) (determined_nodeDataType hdet)).symm
    _ = measure sized formal := measure_nodeDataType hhead

/-- **At an inlet call** the sizes agree exactly under the condition. -/
theorem inletCallFits_iff {sized : Attributes} {checked : Bool} {return_type : Node}
    {formals : Args} {struct : List Node} {d : Procedure}
    (hformal : IsVoidType return_type = false → ∃ formal rest, types formals = formal :: rest ∧
      Passed (TypeEqual (NodeDataType formal) (NodeDataType return_type) : Comparison (Store F)))
    (hequal : checked = true → ResultsEqual F return_type d.returns) :
    InletCallFits sized return_type formals struct d ↔
      InletCallSettled sized checked return_type formals struct d := by
  refine ⟨fun h => ⟨fun hvalue _ => h.value hvalue, fun hvoid _ => h.result hvoid⟩,
    fun h => ⟨fun hvalue => ?_, fun hvoid => ?_⟩⟩
  · by_cases hcase : unsettled sized checked return_type d = true ∨
        ¬ StructSettled sized formals struct
    · exact h.value hvalue hcase
    · rw [not_or, Bool.not_eq_true, not_not] at hcase
      obtain ⟨hchecked, hreturn, hdet, hvoid⟩ := unsettled_eq_false hcase.1
      have hequal := hequal hchecked
      have hvoid' : IsVoidType return_type = false := hequal.isVoidType_eq.trans hvoid
      exact fitsInto_areaTypes (hformal hvoid') hvoid' hreturn hcase.2
        (hequal.measure_eq hreturn hdet).symm
  · by_cases hcase : determined sized return_type = false ∨ ¬ StructSettled sized formals struct
    · exact h.result hvoid hcase
    · rw [not_or, Bool.not_eq_false, not_not] at hcase
      exact fitsInto_areaTypes (hformal hvoid) hvoid hcase.1 hcase.2
        (measure_nodeDataType hcase.1)

/-! ## The sites of a program -/

/-- **The sizes agree at a site of an accepted program exactly under the
condition**, whatever the sizes are. -/
theorem result_sizes_agree_iff {program : List External} {s : Store F} (h : Accepted program s)
    (sized : Attributes) {site : Site} (hsite : site ∈ sites program [] []) {d : Procedure}
    (hd : d ∈ procedures program) (hspawns : site.Spawns d) :
    (∀ t, site.Agrees sized t d) ↔ site.Settled sized d := by
  obtain ⟨symbol, hsymbol, -⟩ := id hspawns
  have hcheck := h.checks.2 site hsite
  unfold Site.Agrees Site.Settled
  rw [forall_comm]
  refine forall_congr' fun return_type => ?_
  rw [forall_comm]
  refine forall_congr' fun hreturn => ?_
  have hequal : site.checked = true → ResultsEqual F return_type d.returns :=
    fun hchecked => results_equal h hsite hd hspawns hchecked hreturn
  unfold Site.check at hcheck
  cases hcall : site.call with
  | spawn receiver assign_op name =>
    rw [hcall] at hcheck
    dsimp only at hcheck ⊢
    rw [hsymbol] at hcheck
    have hreturn' := hreturn
    unfold Site.return_type at hreturn'
    rw [hsymbol] at hreturn'
    dsimp only at hreturn'
    cases htype : calltype symbol.type with
    | Prim | Tdef | Ptr | Adcl | Sue =>
      rw [htype] at hreturn'
      exact absurd hreturn' (Option.some_ne_none _).symm
    | Fdcl tq args returns =>
      rw [htype] at hreturn'
      obtain rfl := Option.some.inj hreturn'
      obtain ⟨hnone, hsome⟩ := semCheckSpawn_passed htype hcheck
      exact forall_spawnAgrees_iff.trans (spawnFits_iff hnone hsome hequal)
  | inletCall inletName name args =>
    rw [hcall] at hcheck
    dsimp only at hcheck ⊢
    rw [forall_comm]
    refine forall_congr' fun struct => ?_
    rw [forall_comm]
    exact forall_congr' fun _ => forall_inletCallAgrees_iff.trans
      (inletCallFits_iff (semCheckInletCall_passed hsymbol hreturn hcheck) hequal)

/-! ### A declaration in a block -/

/-- The sizes of a machine with 64 bits, where no structure has a member. -/
def lp64Size : SizeClass → ℕ
  | .byte => 1
  | .integer rank => if rank = 0 then 2 else if rank = 1 then 4 else 8
  | .floating rank => if rank = 0 then 4 else if rank = 1 then 8 else 16
  | .pointer => 8
  | .enumeration _ => 4
  | .struct _ | .array _ | .typedef _ | .ellipsis => 0

theorem monotone_lp64Size : Monotone lp64Size := by
  intro a b hab
  change a.below b = true at hab
  cases a <;> cases b <;> simp only [SizeClass.below, lp64Size] at hab ⊢ <;> grind

def lp64Sizing : Sizing SizeClass .byte := ⟨lp64Size, monotone_lp64Size, rfl⟩

def lp64 : Target := packed lp64Sizing

/-- `cilk T f(void)`. -/
def procedureType (returns : Node) : Node := .Fdcl T_PROCEDURE (.type PrimVoid .null) returns

/-- The program

```
cilk double f(void) { return 1.0; }

cilk void g(void) {
  cilk int f(void);
  int x;
  x = spawn f();
  sync;
}
``` -/
def redeclared : List External :=
  [.procedure "f" T_PROCEDURE (.type PrimVoid .null) (.Prim 0 .Double) (.ret true .nothing),
    .procedure "g" T_PROCEDURE (.type PrimVoid .null) PrimVoid
      (.declare "f" (procedureType (.Prim 0 .Sint)) .other
        (.declare "x" (.Prim 0 .Sint) .other
          (.call (.spawn (some ⟨.Prim 0 .Sint, some 1, false⟩) .assign "f") .nothing)))]

/-- The spawn in it. -/
def spawnOfF : Site where
  call := .spawn (some ⟨.Prim 0 .Sint, some 1, false⟩) .assign "f"
  context := ⟨true, false⟩
  spawned := some ⟨procedureType (.Prim 0 .Sint), .local⟩
  inlet := none
  structs := []

/-- What is spawned. -/
def procedureF : Procedure := ⟨"f", .Prim 0 .Double, [true]⟩

theorem sites_redeclared : sites redeclared [] [] = [spawnOfF] := rfl

theorem procedures_redeclared : procedureF ∈ procedures redeclared := List.mem_cons_self

theorem spawns_redeclared : spawnOfF.Spawns procedureF := ⟨_, rfl, .inr rfl⟩

/-- A store without dimensions. -/
def emptyStore : Store Floats.rational := ⟨id, fun _ => none⟩

theorem accepted_redeclared : Accepted redeclared emptyStore := by
  have hcheck : spawnOfF.check emptyStore = some (true, emptyStore) := by
    show compareTypes compareDims (.Prim 0 .Sint) (.Prim 0 .Sint) false false emptyStore = _
    rw [compareTypes, if_neg (not_not.mpr rfl)]
    rfl
  refine ⟨emptyStore, ?_⟩
  rw [sites_redeclared]
  show both spawnOfF.check (checkSites []) emptyStore = _
  unfold both
  rw [hcheck]
  rfl

/-- No declaration sets a size. -/
def noAttributes : Attributes := fun _ => false

theorem result_sizes_agree_iff_redeclared :
    (∀ t, spawnOfF.Agrees noAttributes t procedureF) ↔ spawnOfF.Settled noAttributes procedureF :=
  result_sizes_agree_iff accepted_redeclared noAttributes (sites_redeclared ▸ List.mem_cons_self)
    procedures_redeclared spawns_redeclared

/-- **A procedure that is declared again in a block** returns eight bytes where
four are recorded. -/
theorem not_agrees_redeclared : Accepted redeclared emptyStore ∧
    spawnOfF ∈ sites redeclared [] [] ∧ procedureF ∈ procedures redeclared ∧
    spawnOfF.Spawns procedureF ∧ ¬ spawnOfF.Agrees noAttributes lp64 procedureF := by
  refine ⟨accepted_redeclared, sites_redeclared ▸ List.mem_cons_self, procedures_redeclared,
    spawns_redeclared, fun h => ?_⟩
  obtain ⟨-, hvalues⟩ := h (.Prim 0 .Sint) rfl
  have hfits := (hvalues true (List.mem_cons_of_mem _ List.mem_cons_self))
  rw [fits_spawnInfo] at hfits
  exact absurd hfits.1 (by decide : ¬ 8 ≤ 4)

end Cilk.ResultSizes
