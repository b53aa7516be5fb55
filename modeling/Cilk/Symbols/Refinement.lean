import Cilk.Symbols.Scopes

/-!
# Symbol tables refine stacks of scopes

The link of a name is compared with the occurrences of the name in the stack of
scopes. It begins with stale symbols, as many as there may be; the others are the
occurrences, scope by scope. A call keeps this and reports what the stack of
scopes reports, as long as no version wraps around and symbols are moved with
care.
-/

namespace Cilk.Symbols

open ScopeStack

variable {ι α : Type}

/-! ## One link of a hash chain -/

/-- The symbols of a name, stale ones too. -/
def stackOf (name : Name) (bucket : List (Shadowed α)) : Shadowed α :=
  (bucket.find? (named name)).getD []

/-- The link of a name, replaced. -/
def setLink (name : Name) (new : Shadowed α) : List (Shadowed α) → List (Shadowed α)
  | [] => []
  | chain :: next =>
    if named name chain then (if new = [] then next else new :: next)
    else chain :: setLink name new next

/-- **A hash chain**: its links have different names, and a link has symbols of one
name only. -/
structure Hashed (bucket : List (Shadowed α)) : Prop where
  link : ∀ chain ∈ bucket, ∃ name, named name chain ∧ ∀ sym ∈ chain, sym.name = name
  nodup : bucket.Pairwise fun a b => ∀ name, named name a → ¬ named name b

section

variable {name name' : Name} {chain new : Shadowed α} {bucket : List (Shadowed α)}
  {stale : Symbol α → Bool}

theorem named_cons {top : Symbol α} {shadow : Shadowed α} :
    named name (top :: shadow) ↔ top.name = name := by
  show decide (some top.name = some name) = true ↔ _
  rw [decide_eq_true_iff, Option.some_inj]

theorem not_named_nil : ¬ named name ([] : Shadowed α) := nofun

theorem named_unique (h : named name chain) (h' : named name' chain) : name = name' := by
  cases chain with
  | nil => exact absurd h not_named_nil
  | cons top shadow => exact (named_cons.mp h).symm.trans (named_cons.mp h')

/-- A link that is not empty and all of one name. -/
theorem named_of_forall (hne : new ≠ []) (h : ∀ sym ∈ new, sym.name = name) : named name new := by
  cases new with
  | nil => exact absurd rfl hne
  | cons top shadow => exact named_cons.mpr (h top List.mem_cons_self)

theorem stackOf_cons_of_named (h : named name chain) :
    stackOf name (chain :: bucket) = chain := by
  unfold stackOf
  rw [List.find?_cons_of_pos h]
  rfl

theorem stackOf_cons_of_not_named (h : ¬ named name chain) :
    stackOf name (chain :: bucket) = stackOf name bucket := by
  unfold stackOf
  rw [List.find?_cons_of_neg h]

theorem stackOf_eq_nil (h : ∀ chain ∈ bucket, ¬ named name chain) : stackOf name bucket = [] := by
  unfold stackOf
  rw [List.find?_eq_none.mpr h]
  rfl

theorem not_named_of_stackOf (h : stackOf name bucket = []) :
    ∀ chain ∈ bucket, ¬ named name chain := by
  intro chain hchain hnamed
  unfold stackOf at h
  cases hfind : bucket.find? (named name) with
  | none => exact List.find?_eq_none.mp hfind chain hchain hnamed
  | some found =>
    have hfound := List.find?_some hfind
    rw [hfind] at h
    obtain rfl : found = [] := h
    exact not_named_nil hfound

theorem stackOf_named (h : Hashed bucket) : ∀ sym ∈ stackOf name bucket, sym.name = name := by
  intro sym hsym
  unfold stackOf at hsym
  cases hfind : bucket.find? (named name) with
  | none =>
    rw [hfind] at hsym
    nomatch hsym
  | some found =>
    rw [hfind] at hsym
    obtain ⟨n, hn, hall⟩ := h.link found (List.mem_of_find?_eq_some hfind)
    rw [hall sym hsym]
    exact named_unique hn (List.find?_some hfind)

theorem Hashed.tail (h : Hashed (chain :: bucket)) : Hashed bucket :=
  ⟨fun c hc => h.link c (List.mem_cons_of_mem _ hc), (List.pairwise_cons.mp h.nodup).2⟩

theorem Hashed.not_named (h : Hashed (chain :: bucket)) (hname : named name chain) :
    ∀ c ∈ bucket, ¬ named name c :=
  fun c hc => (List.pairwise_cons.mp h.nodup).1 c hc name hname

theorem Hashed.cons (h : Hashed bucket) (hname : named name chain)
    (hall : ∀ sym ∈ chain, sym.name = name) (hnew : ∀ c ∈ bucket, ¬ named name c) :
    Hashed (chain :: bucket) := by
  refine ⟨fun c hc => ?_, List.pairwise_cons.mpr ⟨fun c hc n hn => ?_, h.nodup⟩⟩
  · rcases List.mem_cons.mp hc with rfl | hc
    · exact ⟨name, hname, hall⟩
    · exact h.link c hc
  · rw [named_unique hn hname]
    exact hnew c hc

/-- Where the names of a link after `setLink` come from. -/
theorem named_of_mem_setLink (hall : ∀ sym ∈ new, sym.name = name) {c : Shadowed α}
    (hc : c ∈ setLink name new bucket) (hname : named name' c) :
    ∃ c₀ ∈ bucket, named name' c₀ := by
  induction bucket with
  | nil => nomatch hc
  | cons chain next ih =>
    unfold setLink at hc
    split_ifs at hc with hchain hnew
    · exact ⟨c, List.mem_cons_of_mem _ hc, hname⟩
    · rcases List.mem_cons.mp hc with rfl | hc
      · rw [named_unique hname (named_of_forall hnew hall)]
        exact ⟨chain, List.mem_cons_self, hchain⟩
      · exact ⟨c, List.mem_cons_of_mem _ hc, hname⟩
    · rcases List.mem_cons.mp hc with rfl | hc
      · exact ⟨c, List.mem_cons_self, hname⟩
      · obtain ⟨c₀, hc₀, h⟩ := ih hc
        exact ⟨c₀, List.mem_cons_of_mem _ hc₀, h⟩

theorem hashed_setLink (h : Hashed bucket) (hall : ∀ sym ∈ new, sym.name = name) :
    Hashed (setLink name new bucket) := by
  induction bucket with
  | nil => exact h
  | cons chain next ih =>
    unfold setLink
    split_ifs with hchain hnew
    · exact h.tail
    · exact h.tail.cons (named_of_forall hnew hall) hall (h.not_named hchain)
    · obtain ⟨n, hn, hchain'⟩ := h.link chain List.mem_cons_self
      refine (ih h.tail).cons hn hchain' fun c hc hname => ?_
      obtain ⟨c₀, hc₀, h₀⟩ := named_of_mem_setLink hall hc hname
      exact h.not_named hn c₀ hc₀ h₀

theorem stackOf_setLink (h : Hashed bucket) (hall : ∀ sym ∈ new, sym.name = name)
    (hfound : stackOf name bucket ≠ [] ∨ new = []) :
    stackOf name (setLink name new bucket) = new := by
  induction bucket with
  | nil =>
    rcases hfound with hfound | rfl
    · exact absurd rfl hfound
    · rfl
  | cons chain next ih =>
    unfold setLink
    split_ifs with hchain hnew
    · rw [hnew]
      exact stackOf_eq_nil (h.not_named hchain)
    · exact stackOf_cons_of_named (named_of_forall hnew hall)
    · rw [stackOf_cons_of_not_named hchain] at hfound ⊢
      exact ih h.tail hfound

theorem stackOf_setLink_ne (h : Hashed bucket) (hall : ∀ sym ∈ new, sym.name = name)
    (hne : name' ≠ name) : stackOf name' (setLink name new bucket) = stackOf name' bucket := by
  induction bucket with
  | nil => rfl
  | cons chain next ih =>
    unfold setLink
    split_ifs with hchain hnew
    · rw [stackOf_cons_of_not_named fun h' => hne (named_unique h' hchain)]
    · rw [stackOf_cons_of_not_named fun h' => hne (named_unique h' hchain),
        stackOf_cons_of_not_named fun h' => hne (named_unique h' (named_of_forall hnew hall))]
    · by_cases hchain' : named name' chain
      · rw [stackOf_cons_of_named hchain', stackOf_cons_of_named hchain']
      · rw [stackOf_cons_of_not_named hchain', stackOf_cons_of_not_named hchain', ih h.tail]

/-! ## The loops -/

/-- **The loop of `LookupSymbol`** finds the first symbol that is not stale. -/
theorem lookupChain_eq :
    lookupChain stale name bucket =
      (((stackOf name bucket).dropWhile stale).head?.map Symbol.var,
        setLink name ((stackOf name bucket).dropWhile stale) bucket) := by
  induction bucket with
  | nil => rfl
  | cons chain next ih =>
    unfold lookupChain setLink
    by_cases hchain : named name chain
    · rw [if_pos hchain, if_pos hchain, stackOf_cons_of_named hchain]
      cases chain.dropWhile stale with
      | nil => rfl
      | cons top shadow => rfl
    · rw [if_neg hchain, if_neg hchain, stackOf_cons_of_not_named hchain, ih]

/-- **The loop of `InsertSymbol`**, by what is found. -/
theorem insertChain_eq {sym : Symbol α} :
    insertChain stale sym bucket =
      if stackOf sym.name bucket = [] then none
      else match (stackOf sym.name bucket).dropWhile stale with
        | [] => some (.first, setLink sym.name [sym] bucket)
        | top :: shadow =>
          if top.scope.level = sym.scope.level then
            some (.conflict top.var, setLink sym.name (top :: shadow) bucket)
          else if top.scope.level < sym.scope.level then
            some (.shadow top.var, setLink sym.name (sym :: top :: shadow) bucket)
          else some (.failed, bucket) := by
  induction bucket with
  | nil => rfl
  | cons chain next ih =>
    unfold insertChain setLink
    by_cases hchain : named sym.name chain
    · have hne : chain ≠ [] := by
        rintro rfl
        exact not_named_nil hchain
      rw [if_pos hchain, stackOf_cons_of_named hchain, if_neg hne]
      simp only [if_pos hchain]
      cases chain.dropWhile stale with
      | nil => rfl
      | cons top shadow => rfl
    · rw [if_neg hchain, stackOf_cons_of_not_named hchain, ih]
      simp only [if_neg hchain]
      by_cases hfound : stackOf sym.name next = []
      · rw [if_pos hfound, if_pos hfound]
        rfl
      · rw [if_neg hfound, if_neg hfound]
        cases (stackOf sym.name next).dropWhile stale with
        | nil => rfl
        | cons top shadow =>
          dsimp only
          split_ifs <;> rfl

/-- **The loop of `MoveToOuterScope`** takes the first symbol, stale or not. -/
theorem moveChain_eq {inner outer : ScopeId} {top : Symbol α} {shadow : Shadowed α}
    (h : stackOf name bucket = top :: shadow) (hinner : top.scope = inner) :
    moveChain name inner outer bucket =
      some (setLink name ({ top with scope := outer } :: shadow) bucket) := by
  induction bucket with
  | nil => nomatch h
  | cons chain next ih =>
    unfold moveChain setLink
    by_cases hchain : named name chain
    · rw [stackOf_cons_of_named hchain] at h
      subst h
      rw [if_pos hchain, if_pos hchain]
      exact if_pos hinner
    · rw [stackOf_cons_of_not_named hchain] at h
      rw [if_neg hchain, if_neg hchain, ih h]
      rfl

end

/-! ## Staleness -/

/-- A symbol of a scope that is open, if its level is. -/
def State.current (s : State ι α) (scope : ScopeId) : Prop :=
  scope.version = s.current_version scope.level

/-- A symbol of a scope that is closed, and was not opened later than that of its
level was last. -/
structure State.Dead (s : State ι α) (scope : ScopeId) : Prop where
  stale : s.stale scope = true
  bounded : scope.version ≤ s.current_version scope.level

/-- **The symbols of a name and its occurrences.** -/
def Matches (s : State ι α) (stack : Shadowed α) (occurrences : List (ℕ × α)) : Prop :=
  ∃ dead live, stack = dead ++ live ∧ (∀ sym ∈ dead, s.Dead sym.scope) ∧
    (∀ sym ∈ live, s.current sym.scope) ∧
    live.map (fun sym => (sym.scope.level, sym.var)) = occurrences

section

variable {s s' : State ι α} {stack : Shadowed α} {occ : List (ℕ × α)} {scope : ScopeId}

theorem stale_iff : s.stale scope = true ↔
    s.Level < scope.level ∨ scope.version < s.current_version scope.level := by
  unfold State.stale
  rw [Bool.or_eq_true, decide_eq_true_iff, decide_eq_true_iff]

theorem not_stale_of_current (h : s.current scope) (hlevel : scope.level ≤ s.Level) :
    s.stale scope = false := by
  rw [Bool.eq_false_iff, Ne, stale_iff, ← h]
  omega

/-- **The stale symbols of a link are before the others.** -/
theorem Matches.dropWhile (h : Matches s stack occ) (hocc : ∀ o ∈ occ, o.1 ≤ s.Level) :
    Matches s (stack.dropWhile fun sym => s.stale sym.scope) occ ∧
      (stack.dropWhile fun sym => s.stale sym.scope).map
        (fun sym => (sym.scope.level, sym.var)) = occ := by
  obtain ⟨dead, live, rfl, hdead, hlive, rfl⟩ := h
  have hdrop : (dead ++ live).dropWhile (fun sym => s.stale sym.scope) = live := by
    rw [List.dropWhile_append_of_pos fun sym hsym => (hdead sym hsym).stale]
    cases live with
    | nil => rfl
    | cons top shadow =>
      refine List.dropWhile_cons_of_neg ?_
      rw [not_stale_of_current (hlive top List.mem_cons_self)
        (hocc _ (List.mem_cons_self))]
      exact Bool.false_ne_true
  rw [hdrop]
  exact ⟨⟨[], live, rfl, nofun, hlive, rfl⟩, rfl⟩

/-- Where all symbols are occurrences, none is stale. -/
theorem Matches.current (h : Matches s stack occ)
    (hlive : stack.map (fun sym => (sym.scope.level, sym.var)) = occ) :
    ∀ sym ∈ stack, s.current sym.scope := by
  obtain ⟨dead, live, rfl, -, hall, hocc⟩ := h
  have hlength := congrArg List.length (hlive.trans hocc.symm)
  rw [List.length_map, List.length_map, List.length_append] at hlength
  obtain rfl : dead = [] := List.length_eq_zero_iff.mp (by omega)
  exact hall

theorem matches_of_current (hall : ∀ sym ∈ stack, s.current sym.scope)
    (hlive : stack.map (fun sym => (sym.scope.level, sym.var)) = occ) : Matches s stack occ :=
  ⟨[], stack, rfl, nofun, hall, hlive⟩

/-- **A new scope** makes no symbol stale and revives none. -/
theorem Matches.enter (h : Matches s stack occ) (hocc : ∀ o ∈ occ, o.1 ≤ s.Level)
    (hlevel : s'.Level = s.Level + 1)
    (hversion : ∀ l, s'.current_version l =
      if l = s.Level + 1 then s.current_version l + 1 else s.current_version l) :
    Matches s' stack occ := by
  obtain ⟨dead, live, rfl, hdead, hlive, rfl⟩ := h
  refine ⟨dead, live, rfl, fun sym hsym => ?_, fun sym hsym => ?_, rfl⟩
  · have hstale := stale_iff.mp (hdead sym hsym).stale
    have hbounded := (hdead sym hsym).bounded
    have hnow := hversion sym.scope.level
    refine ⟨stale_iff.mpr ?_, ?_⟩
    · rw [hlevel, hnow]
      split_ifs <;> omega
    · rw [hnow]
      split_ifs <;> omega
  · have hle := hocc _ (List.mem_map_of_mem hsym)
    have hcurrent := hlive sym hsym
    have hne : sym.scope.level ≠ s.Level + 1 := by
      have : sym.scope.level ≤ s.Level := hle
      omega
    unfold State.current at hcurrent ⊢
    rw [hversion, if_neg hne, hcurrent]

/-- **A scope that is closed** takes its symbols with it. -/
theorem Matches.exit {closed rest : List (ℕ × α)} (h : Matches s stack (closed ++ rest))
    (hclosed : ∀ o ∈ closed, o.1 = s.Level) (hpos : 0 < s.Level) (hlevel : s'.Level = s.Level - 1)
    (hversion : s'.current_version = s.current_version) : Matches s' stack rest := by
  obtain ⟨dead, live, rfl, hdead, hlive, hocc⟩ := h
  obtain ⟨gone, live, rfl, rfl, rfl⟩ := List.map_eq_append_iff.mp hocc
  refine ⟨dead ++ gone, live, (List.append_assoc _ _ _).symm, fun sym hsym => ?_,
    fun sym hsym => ?_, rfl⟩
  · rcases List.mem_append.mp hsym with hsym | hsym
    · have hstale := stale_iff.mp (hdead sym hsym).stale
      refine ⟨stale_iff.mpr ?_, hversion ▸ (hdead sym hsym).bounded⟩
      rw [hlevel, hversion]
      omega
    · have hsame : sym.scope.level = s.Level := hclosed _ (List.mem_map_of_mem hsym)
      have hcurrent : s.current sym.scope := hlive sym (List.mem_append_left _ hsym)
      refine ⟨stale_iff.mpr (.inl (by omega)), ?_⟩
      rw [hversion]
      exact hcurrent.le
  · have hcurrent : s.current sym.scope := hlive sym (List.mem_append_right _ hsym)
    unfold State.current at hcurrent ⊢
    rw [hversion]
    exact hcurrent

/-- What does not change the scopes. -/
theorem Matches.congr (h : Matches s stack occ) (hlevel : s'.Level = s.Level)
    (hversion : s'.current_version = s.current_version) : Matches s' stack occ := by
  obtain ⟨dead, live, hstack, hdead, hlive, hocc⟩ := h
  refine ⟨dead, live, hstack, fun sym hsym => ?_, fun sym hsym => ?_, hocc⟩
  · refine ⟨?_, hversion ▸ (hdead sym hsym).bounded⟩
    have hstale := (hdead sym hsym).stale
    unfold State.stale at hstale ⊢
    rw [hlevel, hversion]
    exact hstale
  · have hcurrent := hlive sym hsym
    unfold State.current at hcurrent ⊢
    rw [hversion]
    exact hcurrent

end

/-! ## One table -/

/-- The level of the innermost scope of a table. -/
def TableKind.level (kind : TableKind) (s : State ι α) : ℕ :=
  if kind.kind = .Nested then s.Level else 0

/-- **A table and its stack of scopes.** -/
structure TableRefines (s : State ι α) (kind : TableKind) (table : SymbolTable α)
    (scopes : List (Scope Name α)) : Prop where
  height : scopes.length = kind.level s + 1
  hashed : ∀ bucket, Hashed (table.table bucket)
  links : ∀ name, Matches s (stackOf name (table.table (hash name))) (occurrences name scopes)
  members : kind.exitscope → ∀ level, table.scopes level = membersAt scopes level

/-- **The symbol tables refine stacks of scopes.** -/
structure Refines (kinds : ι → TableKind) (s : State ι α) (p : Scopes ι α) : Prop where
  depth : p.depth = s.Level
  /-- The outermost scope is never opened again. -/
  outermost : s.current_version 0 = 0
  versions : ∀ level, short.InRange (s.current_version level)
  tables : ∀ i, TableRefines s (kinds i) (s.tables i) (p.stack i)

section

variable {s s' : State ι α} {kind : TableKind} {table : SymbolTable α}
  {scopes scopes' : List (Scope Name α)} {name : Name}

theorem TableKind.level_le (kind : TableKind) (s : State ι α) : kind.level s ≤ s.Level := by
  unfold TableKind.level
  split_ifs
  · exact le_rfl
  · exact Nat.zero_le _

theorem TableRefines.le_level (h : TableRefines s kind table scopes) :
    ∀ o ∈ occurrences name scopes, o.1 ≤ s.Level := by
  intro o ho
  have hlt := depth_lt_of_mem ho
  rw [h.height] at hlt
  exact (Nat.lt_succ_iff.mp hlt).trans (kind.level_le s)

theorem TableRefines.congr (h : TableRefines s kind table scopes) (hlevel : s'.Level = s.Level)
    (hversion : s'.current_version = s.current_version) : TableRefines s' kind table scopes := by
  refine ⟨?_, h.hashed, fun name => (h.links name).congr hlevel hversion, h.members⟩
  rw [h.height]
  unfold TableKind.level
  rw [hlevel]

/-- A table whose link of one name is another one. -/
theorem TableRefines.set (h : TableRefines s kind table scopes) {chain : List (Shadowed α)}
    {lists : ℕ → List α} (hheight : scopes'.length = scopes.length) (hhashed : Hashed chain)
    (hlink : Matches s (stackOf name chain) (occurrences name scopes'))
    (hother : ∀ name' ≠ name, stackOf name' chain = stackOf name' (table.table (hash name)) ∧
      occurrences name' scopes' = occurrences name' scopes)
    (hmembers : kind.exitscope → ∀ level, lists level = membersAt scopes' level) :
    TableRefines s kind ⟨Function.update table.table (hash name) chain, lists⟩ scopes' := by
  refine ⟨hheight.trans h.height, fun bucket => ?_, fun name' => ?_, hmembers⟩
  · show Hashed (Function.update table.table (hash name) chain bucket)
    by_cases hbucket : bucket = hash name
    · subst hbucket
      rw [Function.update_self]
      exact hhashed
    · rw [Function.update_of_ne hbucket]
      exact h.hashed bucket
  · show Matches s (stackOf name' (Function.update table.table (hash name) chain (hash name'))) _
    by_cases hname : name' = name
    · subst hname
      rw [Function.update_self]
      exact hlink
    · obtain ⟨hstack, hocc⟩ := hother name' hname
      have hlinks := h.links name'
      rw [hocc]
      by_cases hbucket : hash name' = hash name
      · rw [hbucket, Function.update_self, hstack, ← hbucket]
        exact hlinks
      · rw [Function.update_of_ne hbucket]
        exact hlinks

/-- The link of a name, replaced by symbols of the name. -/
theorem TableRefines.setLink (h : TableRefines s kind table scopes) {new : Shadowed α}
    {lists : ℕ → List α} (hheight : scopes'.length = scopes.length)
    (hall : ∀ sym ∈ new, sym.name = name)
    (hfound : stackOf name (table.table (hash name)) ≠ [] ∨ new = [])
    (hlink : Matches s new (occurrences name scopes'))
    (hother : ∀ name' ≠ name, occurrences name' scopes' = occurrences name' scopes)
    (hmembers : kind.exitscope → ∀ level, lists level = membersAt scopes' level) :
    TableRefines s kind ⟨Function.update table.table (hash name)
      (setLink name new (table.table (hash name))), lists⟩ scopes' := by
  have hhashed := h.hashed (hash name)
  refine h.set hheight (hashed_setLink hhashed hall) ?_ (fun name' hne => ⟨?_, hother name' hne⟩)
    hmembers
  · rw [stackOf_setLink hhashed hall hfound]
    exact hlink
  · exact stackOf_setLink_ne hhashed hall hne

end

section

variable [DecidableEq ι] {kinds : ι → TableKind} {table_list : List ι} {s : State ι α}
  {p p' : Scopes ι α} {events : List (Event ι α)} {i : ι} {name : Name} {var : α}

theorem Refines.setTable (h : Refines kinds s p) {table : SymbolTable α}
    {scopes : List (Scope Name α)} (htable : TableRefines s (kinds i) table scopes) :
    Refines kinds (s.setTable i table) (p.set i scopes) := by
  refine ⟨h.depth, h.outermost, h.versions, fun j => ?_⟩
  by_cases hj : j = i
  · subst hj
    show TableRefines _ _ (Function.update s.tables j table j) (Function.update p.stack j scopes j)
    rw [Function.update_self, Function.update_self]
    exact htable.congr rfl rfl
  · show TableRefines _ _ (Function.update s.tables i table j) (Function.update p.stack i scopes j)
    rw [Function.update_of_ne hj, Function.update_of_ne hj]
    exact (h.tables j).congr rfl rfl

/-- The symbols that are left of a link are of its name. -/
theorem name_of_mem_dropWhile {stale : Symbol α → Bool} {bucket : List (Shadowed α)}
    (h : Hashed bucket) :
    ∀ sym ∈ (stackOf name bucket).dropWhile stale, sym.name = name :=
  fun sym hsym => stackOf_named h sym (List.dropWhile_suffix stale |>.subset hsym)

/-- **`LookupSymbol`** returns what the name stands for. -/
theorem Refines.lookupSymbol (h : Refines kinds s p) (i : ι) (name : Name) :
    Refines kinds (s.LookupSymbol i name).1 p ∧
      (s.LookupSymbol i name).2 = [.found (lookup name (p.stack i))] := by
  have htable := h.tables i
  obtain ⟨hmatches, hlive⟩ := (htable.links name).dropWhile htable.le_level
  unfold State.LookupSymbol
  dsimp only
  rw [lookupChain_eq]
  constructor
  · have hset : p.set i (p.stack i) = p := by
      unfold Scopes.set
      rw [Function.update_eq_self]
    rw [← hset]
    refine h.setTable (htable.setLink rfl (name_of_mem_dropWhile (htable.hashed _)) ?_ hmatches
      (fun _ _ => rfl) htable.members)
    cases hstack : stackOf name ((s.tables i).table (hash name)) with
    | nil => exact .inr rfl
    | cons top shadow => exact .inl (List.cons_ne_nil _ _)
  · rw [lookup_eq, ← hlive, List.head?_map, Option.map_map]
    rfl

omit [DecidableEq ι] in
/-- The lists of the members, after an insertion. -/
theorem members_insert (h : TableRefines s (kinds i) (s.tables i) (p.stack i))
    {scopes : List (Scope Name α)} (hlength : scopes.length = (p.stack i).length)
    (hmembers : ∀ depth, membersAt scopes depth = membersAt (p.stack i) depth) :
    (kinds i).exitscope → ∀ level,
      (if (kinds i).exitscope then
        Function.update (s.tables i).scopes ((kinds i).level s)
          (var :: (s.tables i).scopes ((kinds i).level s))
      else (s.tables i).scopes) level = membersAt (enroll var scopes) level := by
  intro hexit level
  have hheight := hlength.trans h.height
  cases scopes with
  | nil => nomatch hheight
  | cons scope rest =>
    rw [List.length_cons, Nat.add_right_cancel_iff] at hheight
    rw [if_pos hexit, membersAt_enroll, hmembers, hheight]
    by_cases hlevel : level = (kinds i).level s
    · subst hlevel
      rw [Function.update_self, if_pos rfl, h.members hexit]
    · rw [Function.update_of_ne hlevel, if_neg hlevel, h.members hexit]

omit [DecidableEq ι] in
/-- The scope of a new symbol is open. -/
theorem Refines.current_new (h : Refines kinds s p) :
    s.current ⟨if (kinds i).kind = .Nested then s.Level else 0,
      if (kinds i).kind = .Nested then s.current_version s.Level else 0⟩ := by
  unfold State.current
  split_ifs
  · rfl
  · exact h.outermost.symm

/-- The table after an insertion that is no conflict. -/
theorem insert_refines (h : Refines kinds s p) {version : ℤ} {new : Shadowed α}
    {chain : List (Shadowed α)} (hcurrent : s.current ⟨(kinds i).level s, version⟩)
    (hmatches : Matches s new (occurrences name (p.stack i)))
    (hlive : new.map (fun sym => (sym.scope.level, sym.var)) = occurrences name (p.stack i))
    (hhashed : Hashed chain)
    (hlink : stackOf name chain = ⟨name, var, ⟨(kinds i).level s, version⟩⟩ :: new)
    (hother : ∀ name' ≠ name,
      stackOf name' chain = stackOf name' ((s.tables i).table (hash name))) :
    Refines kinds (s.setTable i ⟨Function.update (s.tables i).table (hash name) chain,
      if (kinds i).exitscope then
        Function.update (s.tables i).scopes ((kinds i).level s)
          (var :: (s.tables i).scopes ((kinds i).level s))
      else (s.tables i).scopes⟩) (p.set i (enroll var (bind name var (p.stack i)))) := by
  have htable := h.tables i
  refine h.setTable (htable.set ?_ hhashed ?_ (fun name' hne => ⟨hother name' hne, ?_⟩) ?_)
  · rw [length_enroll, length_bind]
  · rw [hlink, occurrences_enroll]
    have hcons : Matches s (⟨name, var, ⟨(kinds i).level s, version⟩⟩ :: new)
        (((kinds i).level s, var) :: occurrences name (p.stack i)) :=
      matches_of_current (List.forall_mem_cons.mpr ⟨hcurrent, hmatches.current hlive⟩)
        (congrArg _ hlive)
    cases hscopes : p.stack i with
    | nil =>
      have hheight := htable.height
      rw [hscopes] at hheight
      nomatch hheight
    | cons scope rest =>
      have hheight := htable.height
      rw [hscopes, List.length_cons, Nat.add_right_cancel_iff] at hheight
      rw [occurrences_bind, hheight, ← hscopes]
      exact hcons
  · rw [occurrences_enroll, occurrences_bind_ne hne]
  · exact members_insert htable length_bind membersAt_bind

/-- **`InsertSymbol`** binds the name in the innermost scope, unless it is bound
there. -/
theorem Refines.insertSymbol [DecidableEq α] {conflict : Bool} (h : Refines kinds s p)
    (hstep : p.step kinds table_list (.InsertSymbol i name var conflict) = some (p', events)) :
    ∃ s', s.InsertSymbol kinds i name var conflict = some (s', events) ∧ Refines kinds s' p' := by
  have htable := h.tables i
  obtain ⟨hmatches, hlive⟩ := (htable.links name).dropWhile htable.le_level
  have hnames : ∀ sym ∈ (stackOf name ((s.tables i).table (hash name))).dropWhile
      (fun sym => s.stale sym.scope), sym.name = name :=
    name_of_mem_dropWhile (htable.hashed (hash name))
  obtain ⟨scope, rest, hscopes⟩ : ∃ scope rest, p.stack i = scope :: rest := by
    cases hp : p.stack i with
    | nil =>
      have hheight := htable.height
      rw [hp] at hheight
      nomatch hheight
    | cons scope rest => exact ⟨scope, rest, rfl⟩
  have hrest : rest.length = (kinds i).level s := by
    have hheight := htable.height
    rw [hscopes, List.length_cons] at hheight
    omega
  have hinner := innermost_cons name scope rest
  have hlookup := lookup_eq name (p.stack i)
  rw [← hscopes, ← hlive, List.head?_map, hrest] at hinner
  rw [← hlive, List.head?_map] at hlookup
  have hcurrent := h.current_new (i := i)
  have hhashed := htable.hashed (hash name)
  have hfold : (if (kinds i).kind = .Nested then s.Level else 0) = (kinds i).level s := rfl
  unfold Scopes.step at hstep
  unfold State.InsertSymbol
  dsimp only at hstep ⊢
  rw [insertChain_eq, hfold]
  dsimp only
  cases hdrop : (stackOf name ((s.tables i).table (hash name))).dropWhile
      fun sym => s.stale sym.scope with
  | nil =>
    rw [hdrop] at hinner hlookup hmatches hlive
    rw [hinner, hlookup] at hstep
    obtain ⟨rfl, rfl⟩ := Prod.mk.inj (Option.some.inj hstep)
    by_cases hfound : stackOf name ((s.tables i).table (hash name)) = []
    · rw [if_pos hfound]
      refine ⟨_, rfl, insert_refines h hcurrent hmatches hlive ?_ ?_ fun name' hne => ?_⟩
      · exact hhashed.cons (named_cons.mpr rfl) (by simp) (not_named_of_stackOf hfound)
      · exact stackOf_cons_of_named (named_cons.mpr rfl)
      · exact stackOf_cons_of_not_named fun hn => hne (named_cons.mp hn).symm
    · rw [if_neg hfound]
      refine ⟨_, rfl, insert_refines h hcurrent hmatches hlive ?_ ?_ fun name' hne => ?_⟩
      · exact hashed_setLink hhashed (by simp)
      · exact stackOf_setLink hhashed (by simp) (.inl hfound)
      · exact stackOf_setLink_ne hhashed (by simp) hne
  | cons top shadow =>
    rw [hdrop] at hinner hlookup hmatches hlive hnames
    have hfound : stackOf name ((s.tables i).table (hash name)) ≠ [] := by
      intro hnil
      rw [hnil] at hdrop
      nomatch hdrop
    have hle : top.scope.level ≤ (kinds i).level s := by
      have hmem : (top.scope.level, top.var) ∈ occurrences name (p.stack i) := by
        rw [← hlive]
        exact List.mem_cons_self
      have hlt := depth_lt_of_mem hmem
      rw [htable.height] at hlt
      exact Nat.lt_succ_iff.mp hlt
    rw [if_neg hfound]
    dsimp only
    by_cases hlevel : top.scope.level = (kinds i).level s
    · have hfilter : innermost name (p.stack i) = some top.var := by
        rw [hinner]
        simp [hlevel]
      rw [hfilter] at hstep
      rw [if_pos hlevel]
      cases conflict with
      | false => nomatch hstep
      | true =>
        obtain ⟨rfl, rfl⟩ := Prod.mk.inj (Option.some.inj hstep)
        refine ⟨_, rfl, h.setTable (htable.setLink length_enroll hnames (.inl hfound) ?_
          (fun _ _ => occurrences_enroll) (members_insert htable rfl fun _ => rfl))⟩
        rw [occurrences_enroll]
        exact hmatches
    · have hfilter : innermost name (p.stack i) = none := by
        rw [hinner]
        simp [hlevel]
      have hlt : top.scope.level < (kinds i).level s := lt_of_le_of_ne hle hlevel
      rw [hfilter, hlookup] at hstep
      obtain ⟨rfl, rfl⟩ := Prod.mk.inj (Option.some.inj hstep)
      rw [if_neg hlevel, if_pos hlt]
      have hall (scope : ScopeId) : ∀ sym ∈ (⟨name, var, scope⟩ : Symbol α) :: top :: shadow,
          sym.name = name := List.forall_mem_cons.mpr ⟨rfl, hnames⟩
      refine ⟨_, rfl, insert_refines h hcurrent hmatches hlive ?_ ?_ fun name' hne => ?_⟩
      · exact hashed_setLink hhashed (hall _)
      · exact stackOf_setLink hhashed (hall _) (.inl hfound)
      · exact stackOf_setLink_ne hhashed (hall _) hne

/-- **`EnterScope`** opens a scope, if the version does not wrap around. -/
theorem Refines.enterScope [DecidableEq α] (h : Refines kinds s p)
    (hstep : p.step kinds table_list .EnterScope = some (p', events))
    (hlevel : s.Level + 1 < MAX_SCOPE_DEPTH)
    (hversion : s.current_version (s.Level + 1) < short.max) :
    ∃ s', s.EnterScope = some s' ∧ events = [] ∧ Refines kinds s' p' := by
  obtain ⟨rfl, rfl⟩ := Prod.mk.inj (Option.some.inj hstep)
  have hrange : short.InRange (s.current_version (s.Level + 1) + 1) :=
    ⟨(h.versions (s.Level + 1)).1.trans (by omega), by omega⟩
  have hnext := IntType.convert_of_inRange hrange
  have hupdate (l : ℕ) : Function.update s.current_version (s.Level + 1)
      (s.current_version (s.Level + 1) + 1) l =
      if l = s.Level + 1 then s.current_version l + 1 else s.current_version l := by
    rw [Function.update_apply]
    split_ifs with hl
    · rw [hl]
    · rfl
  unfold State.EnterScope
  rw [if_neg hlevel.ne, hnext]
  refine ⟨_, rfl, rfl, congrArg (· + 1) h.depth, ?_, fun l => ?_, fun i => ?_⟩
  · exact (hupdate 0).trans ((if_neg (Nat.succ_ne_zero _).symm).trans h.outermost)
  · show short.InRange (Function.update s.current_version (s.Level + 1)
      (s.current_version (s.Level + 1) + 1) l)
    rw [hupdate]
    split_ifs with hl
    · exact hl ▸ hrange
    · exact h.versions l
  · have htable := h.tables i
    dsimp only
    split_ifs with hkind
    · have hheight := htable.height
      unfold TableKind.level at hheight
      rw [if_pos hkind] at hheight
      refine ⟨?_, htable.hashed, fun name => ?_, fun hexit level => ?_⟩
      · unfold TableKind.level
        rw [if_pos hkind, List.length_cons, hheight]
      · rw [occurrences_fresh]
        exact (htable.links name).enter htable.le_level rfl hupdate
      · rw [htable.members hexit]
        show _ = if level = (p.stack i).length then [] else membersAt (p.stack i) level
        split_ifs with hlast
        · exact membersAt_length_le hlast.ge
        · rfl
    · have hheight := htable.height
      unfold TableKind.level at hheight
      rw [if_neg hkind] at hheight
      refine ⟨?_, htable.hashed, fun name => ?_, htable.members⟩
      · unfold TableKind.level
        rw [if_neg hkind, hheight]
      · exact (htable.links name).enter htable.le_level rfl hupdate

omit [DecidableEq ι] in
/-- A table after a scope is closed. -/
theorem exit_refines {s' : State ι α} {kind : TableKind} {table : SymbolTable α}
    {scopes : List (Scope Name α)} (h : TableRefines s kind table scopes) (hpos : 0 < s.Level)
    (hlevel : s'.Level = s.Level - 1) (hversion : s'.current_version = s.current_version)
    {lists : ℕ → List α}
    (hlists : kind.exitscope → lists = Function.update table.scopes s.Level []) :
    TableRefines s' kind ⟨table.table, lists⟩
      (if kind.kind = .Nested then scopes.tail else scopes) := by
  have hheight := h.height
  unfold TableKind.level at hheight
  split_ifs with hkind
  · rw [if_pos hkind] at hheight
    cases scopes with
    | nil => nomatch hheight
    | cons scope rest =>
      rw [List.length_cons, Nat.add_right_cancel_iff] at hheight
      refine ⟨?_, h.hashed, fun name => ?_, fun hexit level => ?_⟩
      · unfold TableKind.level
        rw [if_pos hkind, List.tail_cons, hlevel, hheight]
        omega
      · refine (h.links name).exit (fun o ho => ?_) hpos hlevel hversion
        rw [depth_of_mem_ofScope ho, hheight]
      · rw [hlists hexit]
        show Function.update table.scopes s.Level [] level = membersAt rest level
        rw [Function.update_apply, h.members hexit]
        split_ifs with hl
        · exact (membersAt_length_le (by omega)).symm
        · exact if_neg (by omega)
  · rw [if_neg hkind] at hheight
    refine ⟨?_, h.hashed, fun name => ?_, fun hexit level => ?_⟩
    · unfold TableKind.level
      rw [if_neg hkind, hheight]
    · have hlinks : Matches s (stackOf name (table.table (hash name)))
          ([] ++ occurrences name scopes) := h.links name
      exact hlinks.exit nofun hpos hlevel hversion
    · rw [hlists hexit]
      show Function.update table.scopes s.Level [] level = membersAt scopes level
      rw [Function.update_apply, h.members hexit]
      split_ifs with hl
      · exact (membersAt_length_le (by omega)).symm
      · rfl

/-- **`ExitScope`** tells the members of the innermost scopes. -/
theorem Refines.exitScope [DecidableEq α] (h : Refines kinds s p)
    (hstep : p.step kinds table_list .ExitScope = some (p', events))
    (hlist : ∀ i, i ∈ table_list) :
    (s.ExitScope kinds table_list).2 = events ∧
      Refines kinds (s.ExitScope kinds table_list).1 p' := by
  unfold Scopes.step at hstep
  dsimp only at hstep
  split_ifs at hstep with hdepth
  obtain ⟨rfl, rfl⟩ := Prod.mk.inj (Option.some.inj hstep)
  have hlevel : s.Level ≠ 0 := fun h' => hdepth (h.depth.trans h')
  unfold State.ExitScope
  rw [if_neg hlevel]
  dsimp only
  refine ⟨?_, ?_, h.outermost, h.versions, fun i => ?_⟩
  · refine List.flatMap_congr fun i _ => ?_
    have htable := h.tables i
    unfold Scopes.closed
    by_cases hexit : (kinds i).exitscope
    · rw [if_pos hexit, htable.members hexit, ← h.depth]
      by_cases hkind : (kinds i).kind = .Nested
      · rw [if_pos ⟨hexit, hkind⟩]
      · rw [if_neg fun hboth => hkind hboth.2]
        have hheight := htable.height
        unfold TableKind.level at hheight
        rw [if_neg hkind] at hheight
        rw [membersAt_length_le (by omega)]
        rfl
    · rw [if_neg hexit, if_neg fun hboth => hexit hboth.1]
  · rw [h.depth]
  · have htable : (if i ∈ table_list ∧ (kinds i).exitscope then
        (⟨(s.tables i).table, Function.update (s.tables i).scopes s.Level []⟩ : SymbolTable α)
        else s.tables i) = ⟨(s.tables i).table, if i ∈ table_list ∧ (kinds i).exitscope then
          Function.update (s.tables i).scopes s.Level [] else (s.tables i).scopes⟩ := by
      split_ifs <;> rfl
    show TableRefines _ (kinds i) (if i ∈ table_list ∧ (kinds i).exitscope then
        (⟨(s.tables i).table, Function.update (s.tables i).scopes s.Level []⟩ : SymbolTable α)
        else s.tables i) _
    rw [htable]
    refine exit_refines (h.tables i) (Nat.pos_of_ne_zero hlevel) ?_ ?_
      fun hexit => if_pos ⟨hlist i, hexit⟩
    · rfl
    · rfl

/-- **When `MoveToOuterScope` is safe**: no procedure is called for the symbols of
closed scopes, the symbol inserted last is not stale, and it does not shadow
another one of its scope. -/
structure MovesCleanly (kind : TableKind) (s : State ι α) (table : SymbolTable α) (name : Name) :
    Prop where
  silent : kind.exitscope = false
  top : ∀ sym ∈ (stackOf name (table.table (hash name))).head?, s.stale sym.scope = false
  alone : ∀ sym ∈ (stackOf name (table.table (hash name))).head?,
    ∀ sym' ∈ (stackOf name (table.table (hash name))).tail.head?,
      sym'.scope.level ≠ sym.scope.level

instance (kind : TableKind) (s : State ι α) (table : SymbolTable α) (name : Name) :
    Decidable (MovesCleanly kind s table name) :=
  decidable_of_iff (kind.exitscope = false ∧
      (∀ sym ∈ (stackOf name (table.table (hash name))).head?, s.stale sym.scope = false) ∧
      ∀ sym ∈ (stackOf name (table.table (hash name))).head?,
        ∀ sym' ∈ (stackOf name (table.table (hash name))).tail.head?,
          sym'.scope.level ≠ sym.scope.level)
    ⟨fun h => ⟨h.1, h.2.1, h.2.2⟩, fun h => ⟨h.silent, h.top, h.alone⟩⟩

/-- **`MoveToOuterScope`** moves the binding to the scope around. -/
theorem Refines.moveToOuterScope [DecidableEq α] (h : Refines kinds s p)
    (hstep : p.step kinds table_list (.MoveToOuterScope i name) = some (p', events))
    (hclean : MovesCleanly (kinds i) s (s.tables i) name) :
    ∃ s', s.MoveToOuterScope i name = some s' ∧ events = [] ∧ Refines kinds s' p' := by
  have htable := h.tables i
  obtain ⟨scopes', hmove, hstep⟩ := Option.map_eq_some_iff.mp hstep
  obtain ⟨rfl, rfl⟩ := Prod.mk.inj hstep
  obtain ⟨inner, outer, rest, hscopes⟩ :
      ∃ inner outer rest, p.stack i = inner :: outer :: rest := by
    cases hp : p.stack i with
    | nil =>
      rw [hp] at hmove
      exact absurd hmove (Option.some_ne_none _).symm
    | cons inner rest =>
      cases rest with
      | nil =>
        rw [hp] at hmove
        exact absurd hmove (Option.some_ne_none _).symm
      | cons outer rest => exact ⟨inner, outer, rest, rfl⟩
  rw [hscopes] at hmove htable
  have hlevel : s.Level = rest.length + 1 := by
    have hheight := htable.height
    unfold TableKind.level at hheight
    split_ifs at hheight
    · exact (Nat.add_right_cancel hheight).symm
    · simp at hheight
  obtain ⟨hmatches, hlive⟩ := (htable.links name).dropWhile htable.le_level
  obtain ⟨a, hhead⟩ := head?_of_moveOut hmove
  cases hstack : stackOf name ((s.tables i).table (hash name)) with
  | nil =>
    rw [hstack] at hlive
    rw [← hlive] at hhead
    exact absurd hhead (Option.some_ne_none _).symm
  | cons top shadow =>
    have hfresh : s.stale top.scope = false := hclean.top top (by rw [hstack]; rfl)
    rw [hstack, List.dropWhile_cons_of_neg (by rw [hfresh]; exact Bool.false_ne_true)] at hmatches hlive
    have htop : top.scope.level = rest.length + 1 := by
      rw [← hlive] at hhead
      exact congrArg Prod.fst (Option.some.inj hhead)
    have hone : ∀ o ∈ (occurrences name (inner :: outer :: rest)).tail.head?,
        o.1 ≠ rest.length + 1 := by
      intro o ho
      rw [← hlive, List.map_cons, List.tail_cons, List.head?_map] at ho
      obtain ⟨sym, hsym, rfl⟩ := Option.map_eq_some_iff.mp ho
      rw [← htop]
      exact hclean.alone top (by rw [hstack]; rfl) sym (by rw [hstack]; exact hsym)
    obtain ⟨b, hbefore, hafter⟩ := occurrences_moveOut hmove hone
    have hall := hmatches.current hlive
    have hscope : top.scope = ⟨s.Level, s.current_version s.Level⟩ := by
      have hversion : top.scope.version = s.current_version top.scope.level :=
        hall top List.mem_cons_self
      have hinner : top.scope.level = s.Level := htop.trans hlevel.symm
      rw [hinner] at hversion
      show (⟨top.scope.level, top.scope.version⟩ : ScopeId) = _
      rw [hinner, hversion]
    rw [hbefore, List.map_cons] at hlive
    obtain ⟨hvar, hshadow⟩ := List.cons.inj hlive
    have hlink : Matches s
        ({ top with scope := ⟨s.Level - 1, s.current_version (s.Level - 1)⟩ } :: shadow)
        (occurrences name scopes') := by
      refine matches_of_current (List.forall_mem_cons.mpr
        ⟨rfl, fun sym hsym => hall sym (List.mem_cons_of_mem _ hsym)⟩) ?_
      rw [List.map_cons, hshadow, hafter, hlevel]
      exact congrArg (· :: _) (congrArg (rest.length, ·) (congrArg Prod.snd hvar))
    have hnames : ∀ sym ∈ stackOf name ((s.tables i).table (hash name)), sym.name = name :=
      stackOf_named (htable.hashed (hash name))
    rw [hstack] at hnames
    unfold State.MoveToOuterScope
    dsimp only
    rw [if_neg (by omega), moveChain_eq hstack hscope]
    refine ⟨_, rfl, rfl, h.setTable (htable.setLink ?_ ?_ (.inl ?_) hlink ?_ ?_)⟩
    · exact length_moveOut hmove
    · exact List.forall_mem_cons.mpr ⟨hnames top List.mem_cons_self,
        fun sym hsym => hnames sym (List.mem_cons_of_mem _ hsym)⟩
    · rw [hstack]
      exact List.cons_ne_nil _ _
    · exact fun name' hne => occurrences_moveOut_ne hmove hne
    · intro hexit
      rw [hclean.silent] at hexit
      exact absurd hexit Bool.false_ne_true

/-! ## Runs -/

variable (kinds) in
/-- **The condition of one call**: no version wraps around and the levels do not run
out, and symbols are moved where that is safe. -/
def Careful (s : State ι α) : Op ι α → Prop
  | .EnterScope =>
    s.Level + 1 < MAX_SCOPE_DEPTH ∧ s.current_version (s.Level + 1) < short.max
  | .MoveToOuterScope i name => MovesCleanly (kinds i) s (s.tables i) name
  | _ => True

instance (s : State ι α) (op : Op ι α) : Decidable (Careful kinds s op) :=
  match op with
  | .EnterScope => inferInstanceAs (Decidable (_ ∧ _))
  | .MoveToOuterScope i name =>
    inferInstanceAs (Decidable (MovesCleanly (kinds i) s (s.tables i) name))
  | .ExitScope | .InsertSymbol .. | .LookupSymbol .. => isTrue trivial

variable (kinds table_list) in
/-- All calls of a run meet the condition. -/
def AllCareful : List (Op ι α) → State ι α → Prop
  | [], _ => True
  | op :: ops, s => Careful kinds s op ∧
    match s.step kinds table_list op with
    | some (s', _) => AllCareful ops s'
    | none => True

theorem allCareful_cons {op : Op ι α} {ops : List (Op ι α)} :
    AllCareful kinds table_list (op :: ops) s ↔ Careful kinds s op ∧
      match s.step kinds table_list op with
      | some (s', _) => AllCareful kinds table_list ops s'
      | none => True := Iff.rfl

instance decidableAllCareful (ops : List (Op ι α)) (s : State ι α) :
    Decidable (AllCareful kinds table_list ops s) :=
  match ops with
  | [] => isTrue trivial
  | op :: ops =>
    match h : s.step kinds table_list op with
    | some (s', events) =>
      have := decidableAllCareful ops s'
      decidable_of_iff (Careful kinds s op ∧ AllCareful kinds table_list ops s')
        (by rw [allCareful_cons, h])
    | none => decidable_of_iff (Careful kinds s op) (by rw [allCareful_cons, h, and_true])

theorem AllCareful.tail {op : Op ι α} {ops : List (Op ι α)}
    (h : AllCareful kinds table_list (op :: ops) s) {s' : State ι α}
    (hstep : s.step kinds table_list op = some (s', events)) :
    AllCareful kinds table_list ops s' := by
  obtain ⟨-, h⟩ := h
  rw [hstep] at h
  exact h

omit [DecidableEq ι] in
theorem Refines.init : Refines kinds (State.init : State ι α) Scopes.init := by
  refine ⟨rfl, rfl, fun _ => IntType.inRange_zero,
    fun i => ⟨?_, fun _ => ⟨nofun, .nil⟩, fun name => ?_, fun _ level => ?_⟩⟩
  · unfold TableKind.level
    split_ifs <;> rfl
  · exact matches_of_current (fun _ h => nomatch h) rfl
  · show [] = if level = 0 then [] else []
    split_ifs <;> rfl

/-- **One call** that meets the condition. -/
theorem Refines.step [DecidableEq α] {op : Op ι α} (h : Refines kinds s p)
    (hlist : ∀ i, i ∈ table_list) (hcareful : Careful kinds s op)
    (hstep : p.step kinds table_list op = some (p', events)) :
    ∃ s', s.step kinds table_list op = some (s', events) ∧ Refines kinds s' p' := by
  cases op with
  | EnterScope =>
    obtain ⟨s', hs', rfl, h'⟩ := h.enterScope hstep hcareful.1 hcareful.2
    exact ⟨s', congrArg (Option.map _) hs', h'⟩
  | ExitScope =>
    obtain ⟨hevents, h'⟩ := h.exitScope hstep hlist
    exact ⟨_, congrArg some (Prod.ext rfl hevents), h'⟩
  | InsertSymbol i name var conflict => exact h.insertSymbol hstep
  | LookupSymbol i name =>
    obtain ⟨rfl, rfl⟩ := Prod.mk.inj (Option.some.inj hstep)
    obtain ⟨h', hevents⟩ := h.lookupSymbol i name
    exact ⟨_, congrArg some (Prod.ext rfl hevents), h'⟩
  | MoveToOuterScope i name =>
    obtain ⟨s', hs', rfl, h'⟩ := h.moveToOuterScope hstep hcareful
    exact ⟨s', congrArg (Option.map _) hs', h'⟩

/-- A call before a run. -/
theorem State.run_of_step {op : Op ι α} {ops : List (Op ι α)} {s₁ s₂ : State ι α}
    {first more : List (Event ι α)} (hstep : s.step kinds table_list op = some (s₁, first))
    (hrest : s₁.run kinds table_list ops = some (s₂, more)) :
    s.run kinds table_list (op :: ops) = some (s₂, first ++ more) := by
  show (s.step kinds table_list op).bind _ = _
  rw [hstep, Option.bind_some]
  show (s₁.run kinds table_list ops).bind _ = _
  rw [hrest]
  rfl

/-- **A whole run.** The induction is on the calls. -/
theorem Refines.run [DecidableEq α] (hlist : ∀ i, i ∈ table_list) {ops : List (Op ι α)} :
    ∀ {s : State ι α} {p p' : Scopes ι α} {events : List (Event ι α)}, Refines kinds s p →
      AllCareful kinds table_list ops s → p.run kinds table_list ops = some (p', events) →
      ∃ s', s.run kinds table_list ops = some (s', events) ∧ Refines kinds s' p' := by
  induction ops with
  | nil =>
    intro s p p' events h _ hrun
    obtain ⟨rfl, rfl⟩ := Prod.mk.inj (Option.some.inj hrun)
    exact ⟨s, rfl, h⟩
  | cons op ops ih =>
    intro s p p' events h hcareful hrun
    obtain ⟨⟨p₁, first⟩, hstep, hrun⟩ := Option.bind_eq_some_iff.mp hrun
    obtain ⟨⟨p₂, more⟩, hrest, hrun⟩ := Option.bind_eq_some_iff.mp hrun
    obtain ⟨rfl, rfl⟩ := Prod.mk.inj (Option.some.inj hrun)
    obtain ⟨s₁, hs₁, h₁⟩ := h.step hlist hcareful.1 hstep
    obtain ⟨s₂, hs₂, h₂⟩ := ih h₁ (hcareful.tail hs₁) hrest
    exact ⟨s₂, State.run_of_step hs₁ hs₂, h₂⟩

end

end Cilk.Symbols
