import Cilk.Labels.Slots

/-!
# When labels are resolved

The parser keeps its invariant and reports no error, or reports one and the
text is faulty: one case for each construct of the text, and from these the
whole text. Then the slots decide. In a merged slot the gotos after the
definition are joined with the provisional label, which is in no tree, so a
label that is used from both sides is not resolved; one that is used from one
side is.
-/

namespace Cilk.Labels

namespace State

/-- What is reported stays. -/
theorem endOfLabelScope_eq (s : State) (l : NodeId) : ∃ ms, s.endOfLabelScope l =
    { s with messages := ms ++ s.messages } ∧
      ((∀ m ∈ ms, m.isError = false) ↔
        ∀ name references, s.node l ≠ .label name references false) := by
  rw [endOfLabelScope]
  cases hl : s.node l with
  | id | goto => exact ⟨[], rfl, by simp⟩
  | label name references declared =>
    cases declared with
    | false => exact ⟨[.undefinedLabel name], rfl, by simp [Message.isError]⟩
    | true =>
      by_cases hr : references = []
      · exact ⟨[.unreferencedLabel name], by simp [hr, report], by simp [Message.isError]⟩
      · exact ⟨[], by simp [hr], by simp⟩

/-- **The table is reset**: an error is reported if a label in it has no
definition. -/
theorem resetSymbolTable_eq (s : State) : ∃ ms, s.resetSymbolTable =
    { s with labels := [], messages := ms ++ s.messages } ∧
      ((∀ m ∈ ms, m.isError = false) ↔
        ∀ p ∈ s.labels, ∀ name references, s.node p.2 ≠ .label name references false) := by
  have hfold : ∀ (l : List (String × NodeId)) (s : State), ∃ ms,
      l.foldl (fun s entry => s.endOfLabelScope entry.2) s =
        { s with messages := ms ++ s.messages } ∧
        ((∀ m ∈ ms, m.isError = false) ↔
          ∀ p ∈ l, ∀ name references, s.node p.2 ≠ .label name references false) := by
    intro l
    induction l with
    | nil => exact fun s => ⟨[], rfl, by simp⟩
    | cons p l ih =>
      intro s
      obtain ⟨ms, hms, hiff⟩ := s.endOfLabelScope_eq p.2
      obtain ⟨ms', hms', hiff'⟩ := ih (s.endOfLabelScope p.2)
      rw [hms] at hms' hiff'
      refine ⟨ms' ++ ms, ?_, ?_⟩
      · rw [List.foldl_cons, hms, hms', List.append_assoc]
      · rw [List.forall_mem_append, List.forall_mem_cons, hiff, hiff', and_comm]
  obtain ⟨ms, hms, hiff⟩ := hfold s.labels s
  exact ⟨ms, by rw [resetSymbolTable, hms], hiff⟩

/-- What is reported stays reported, and no procedure begins. -/
def Keeps (s s' : State) : Prop :=
  (∀ m ∈ s.messages, m ∈ s'.messages) ∧ s'.procs = s.procs

theorem Keeps.rfl {s : State} : s.Keeps s := ⟨fun _ => id, Eq.refl _⟩

theorem Keeps.trans {s t u : State} (h : s.Keeps t) (h' : t.Keeps u) : s.Keeps u :=
  ⟨fun m hm => h'.1 m (h.1 m hm), h'.2.trans h.2⟩

theorem keeps_labelConflict (s : State) (orig create : NodeId) :
    s.Keeps (s.labelConflict orig create) := by
  rw [labelConflict]
  split
  · split_ifs
    · exact ⟨fun m => List.mem_cons_of_mem _, Eq.refl _⟩
    · dsimp only
      rw [foldl_setNode]
      exact Keeps.rfl
  · exact Keeps.rfl

theorem keeps_insertSymbol (s : State) (name : String) (var : NodeId) :
    s.Keeps (s.insertSymbol name var).1 := by
  rw [insertSymbol]
  split
  · exact Keeps.rfl
  · exact s.keeps_labelConflict _ _

theorem keeps_addReference (s : State) (l g : NodeId) : s.Keeps (s.addReference l g) := by
  rw [addReference]
  split
  · exact Keeps.rfl
  · exact Keeps.rfl

theorem keeps_buildLabel (s : State) (id : NodeId) (name : String) :
    s.Keeps (s.buildLabel id name) :=
  (s.setNode id (.label name [] true)).keeps_insertSymbol name id

theorem keeps_resolveGoto (s : State) (id : NodeId) (name : String) :
    s.Keeps (s.resolveGoto id name) := by
  rw [resolveGoto]
  refine Keeps.trans (t := State.setNode _ id _) ?_ (keeps_addReference _ _ _)
  split
  · exact Keeps.rfl
  · exact keeps_insertSymbol (s.newNode (.label name [] false)).1 _ _

end State

/-- **What is reported stays reported**, and the procedures of a text are
counted. -/
theorem parse_messages (src : Source) (proc : ℕ) (s : State) :
    (∀ m ∈ s.messages, m ∈ (parse src proc s).messages) ∧
      (parse src proc s).procs = s.procs + src.procedures := by
  induction src generalizing proc s with
  | skip => exact State.Keeps.rfl
  | label name => exact State.keeps_buildLabel (s.newNode (.id name)).1 s.next name
  | goto name => exact State.keeps_resolveGoto (s.newNode (.id name)).1 s.next name
  | seq a b iha ihb =>
    obtain ⟨ha, hpa⟩ := iha proc s
    obtain ⟨hb, hpb⟩ := ihb proc (parse a proc s)
    refine ⟨fun m hm => hb m (ha m hm), ?_⟩
    rw [parse, hpb, hpa, Source.procedures, Nat.add_assoc]
  | procedure body ih =>
    obtain ⟨hm, hp⟩ := ih s.procs { s with procs := s.procs + 1 }
    obtain ⟨ms, hms, -⟩ :=
      (parse body s.procs { s with procs := s.procs + 1 }).resetSymbolTable_eq
    rw [parse, hms]
    refine ⟨fun m hmem => List.mem_append_right _ (hm m hmem), ?_⟩
    show (parse body _ _).procs = _
    rw [hp, Source.procedures]
    exact Nat.succ_add_eq_add_succ _ _

/-- An error that is reported stays reported. -/
theorem not_noError_parse {s : State} (h : ¬ s.NoError) (src : Source) (proc : ℕ) :
    ¬ (parse src proc s).NoError :=
  fun hno => h fun m hm => hno m ((parse_messages src proc s).1 m hm)

/-! ## One reading at a time -/

theorem History.map_of (l : History) (k : ℕ) (n : String) :
    (l.of k n).map Prod.fst = within (l.map Prod.fst) k n := by
  rw [within, History.of, List.filter_map]
  rfl

theorem within_append (ms ms' : List Mention) (k : ℕ) (n : String) :
    within (ms ++ ms') k n = within ms k n ++ within ms' k n :=
  List.filter_append ..

/-- **How reading ends**: in order, or with an error in a faulty text. -/
def Outcome (s : State) (ms : List Mention) (ended : ℕ) : Prop :=
  (s.NoError ∧ ∃ hist owner, hist.map Prod.fst = ms ∧ Sound s hist ended owner) ∨
    ¬ s.NoError ∧ Faulty ms ended

/-- A text stays faulty. -/
theorem Faulty.append {ms ms' : List Mention} {ended ended' : ℕ} (h : Faulty ms ended)
    (hms' : ∀ m ∈ ms', ended ≤ m.stretch) (hle : ended ≤ ended') :
    Faulty (ms ++ ms') ended' := by
  obtain ⟨k, n, h | ⟨hk, hne, hcount⟩⟩ := h
  · refine ⟨k, n, .inl ?_⟩
    rw [within_append, List.countP_append]
    exact h.trans_le (Nat.le_add_right _ _)
  · have hnil : within ms' k n = [] := by
      refine List.filter_eq_nil_iff.mpr fun m hm hkn => ?_
      have := hms' m hm
      rw [decide_eq_true_eq] at hkn
      omega
    refine ⟨k, n, .inr ⟨hk.trans_le hle, ?_⟩⟩
    rw [within_append, hnil, List.append_nil]
    exact ⟨hne, hcount⟩

section

variable {s : State} {hist : History} {ended : ℕ} {owner : NodeId → ℕ × String}

/-- A second definition makes the text faulty. -/
theorem faulty_label {proc : ℕ} {n : String} (hd : ∃ d ∈ hist.of ended n, d.1.isLabel = true) :
    Faulty (hist.map Prod.fst ++ [⟨proc, ended, n, true⟩]) ended := by
  obtain ⟨d, hd, hlabel⟩ := hd
  have hpos : 0 < ((hist.of ended n).map Prod.fst).countP Mention.isLabel :=
    List.countP_pos_iff.mpr ⟨d.1, List.mem_map.mpr ⟨d, hd, rfl⟩, hlabel⟩
  rw [History.map_of] at hpos
  refine ⟨ended, n, .inl ?_⟩
  have hone : (within [⟨proc, ended, n, true⟩] ended n).countP Mention.isLabel = 1 := by
    simp [within]
  rw [within_append, List.countP_append, hone]
  exact Nat.succ_lt_succ hpos

theorem noError_of_messages {s' : State} (hno : s.NoError) (h : s'.messages = s.messages) :
    s'.NoError := by
  rw [State.NoError, h]
  exact hno

/-- **Reading a label.** -/
theorem outcome_label (h : Sound s hist ended owner) (hno : s.NoError) (proc : ℕ) (n : String) :
    Outcome (parse (.label n) proc s) (hist.map Prod.fst ++ [⟨proc, ended, n, true⟩]) ended := by
  have hok : ((parse (.label n) proc s).messages = s.messages ∧ ∃ owner',
      Sound (parse (.label n) proc s) (hist ++ [(⟨proc, ended, n, true⟩, s.next)]) ended owner') →
      Outcome (parse (.label n) proc s) (hist.map Prod.fst ++ [⟨proc, ended, n, true⟩]) ended := by
    rintro ⟨hm, owner', hs⟩
    exact .inl ⟨noError_of_messages hno hm, _, owner', List.map_append, hs⟩
  have hagain : ∀ {e references}, s.labels.lookup n = some e →
      s.node e = .label n references true → (∃ d ∈ hist.of ended n, d.1.isLabel = true) →
      Outcome (parse (.label n) proc s) (hist.map Prod.fst ++ [⟨proc, ended, n, true⟩]) ended := by
    intro e references hn he hd
    have hlt := (h.exists_slot hn).2.2
    refine .inr ⟨fun hno' => ?_, faulty_label hd⟩
    have := hno' _ (State.buildLabel_defined (s := (s.newNode (.id n)).1) (i := s.next) hn
      ((Function.update_of_ne hlt.ne _ _).trans he) hlt.ne)
    cases this
  rcases hn : s.labels.lookup n with _ | e
  · exact hok (h.label_new hn)
  · obtain ⟨hslot, -, -⟩ := h.exists_slot hn
    generalize hl : hist.of ended n = l at hslot hagain
    cases hslot with
    | pending hne hentry hgotos =>
      subst hl
      exact hok (h.label_pending hn hne hentry hgotos)
    | defined hd hentry => exact hagain hn hentry ⟨_, List.mem_cons_self, hd⟩
    | merged _ hd _ hentry =>
      exact hagain hn hentry ⟨_, List.mem_append_right _ List.mem_cons_self, hd⟩

/-- **Reading a goto.** -/
theorem outcome_goto (h : Sound s hist ended owner) (hno : s.NoError) (proc : ℕ) (n : String) :
    Outcome (parse (.goto n) proc s) (hist.map Prod.fst ++ [⟨proc, ended, n, false⟩]) ended := by
  have hstep : (parse (.goto n) proc s).messages = s.messages ∧ ∃ owner',
      Sound (parse (.goto n) proc s) (hist ++ [(⟨proc, ended, n, false⟩, s.next)]) ended
        owner' := by
    rcases hn : s.labels.lookup n with _ | e
    · exact h.goto_new hn
    · exact h.goto_found hn
  obtain ⟨hm, owner', hs⟩ := hstep
  exact .inl ⟨noError_of_messages hno hm, _, owner', List.map_append, hs⟩

/-- **The end of a procedure.** -/
theorem outcome_reset (h : Sound s hist ended owner) (hno : s.NoError) :
    Outcome s.resetSymbolTable (hist.map Prod.fst) (ended + 1) := by
  obtain ⟨ms, hms, hiff⟩ := s.resetSymbolTable_eq
  rw [hms]
  by_cases hall : ∀ p ∈ s.labels, ∀ name references, s.node p.2 ≠ .label name references false
  · refine .inl ⟨List.forall_mem_append.mpr ⟨hiff.mpr hall, hno⟩, hist, owner, rfl, ?_⟩
    refine ⟨h.tree, h.nodup, h.owned, fun g hg => (h.stretch_le g hg).trans (Nat.le_succ _),
      fun k n hne => ?_, fun _ _ => rfl, nofun, fun k n hk hne => ?_⟩
    · obtain ⟨e, hs, ho, hlt, -⟩ := h.slot k n hne
      refine ⟨e, hs, ho, hlt, fun hk => ?_⟩
      obtain ⟨g, hg⟩ := List.exists_mem_of_ne_nil _ hne
      obtain ⟨hmem, hgk, -⟩ := Sound.mem_of.mp hg
      have := h.stretch_le g hmem
      omega
    · rcases (Nat.lt_succ_iff_lt_or_eq.mp hk) with hk | rfl
      · exact h.closed k n hk hne
      · obtain ⟨e, -, -, -, hl⟩ := h.slot k n hne
        obtain ⟨l₁, l₂, hlabels, -⟩ := List.lookup_eq_some_iff.mp (hl rfl)
        exact h.exists_label_of_declared (hl rfl) (hall (n, e) (hlabels ▸ by simp))
  · refine .inr ⟨fun hno' => hall (hiff.mp fun m hm => hno' m (List.mem_append_left _ hm)), ?_⟩
    push Not at hall
    obtain ⟨p, hp, name, references, he⟩ := hall
    obtain ⟨hne, hnone⟩ := h.pending_of_undeclared (h.keys p hp) he
    refine ⟨ended, p.1, .inr ⟨Nat.lt_succ_self _, ?_, ?_⟩⟩
    · rw [← History.map_of]
      exact fun hnil => hne (List.map_eq_nil_iff.mp hnil)
    · rw [← History.map_of, List.countP_eq_zero]
      intro m hm
      obtain ⟨g, hg, rfl⟩ := List.mem_map.mp hm
      rw [hnone g hg]
      exact Bool.false_ne_true

end

/-! ## The whole text -/

/-- A text is in the stretches between its beginning and its end. -/
theorem stretch_bounds (src : Source) {proc begun ended : ℕ} :
    ∀ m ∈ src.mentions proc begun ended,
      ended ≤ m.stretch ∧ m.stretch ≤ ended + src.procedures := by
  induction src generalizing proc begun ended with
  | skip => nofun
  | label name => exact List.forall_mem_singleton.mpr ⟨le_rfl, le_rfl⟩
  | goto name => exact List.forall_mem_singleton.mpr ⟨le_rfl, le_rfl⟩
  | seq a b iha ihb =>
    refine List.forall_mem_append.mpr ⟨fun m hm => ?_, fun m hm => ?_⟩
    · have := iha m hm
      simp only [Source.procedures]
      omega
    · have := ihb m hm
      simp only [Source.procedures]
      omega
  | procedure body ih =>
    intro m hm
    have := ih m hm
    simp only [Source.procedures]
    omega

/-- **Reading a text.** -/
theorem outcome_parse (src : Source) {s : State} {hist : History} {ended : ℕ}
    {owner : NodeId → ℕ × String} (h : Sound s hist ended owner) (hno : s.NoError) (proc : ℕ) :
    Outcome (parse src proc s) (hist.map Prod.fst ++ src.mentions proc s.procs ended)
      (ended + src.procedures) := by
  induction src generalizing s hist ended owner proc with
  | skip => exact .inl ⟨hno, hist, owner, (List.append_nil _).symm, h⟩
  | label name => exact outcome_label h hno proc name
  | goto name => exact outcome_goto h hno proc name
  | seq a b iha ihb =>
    rw [parse, Source.mentions, Source.procedures, ← List.append_assoc, ← Nat.add_assoc]
    rcases iha h hno proc with ⟨hno', hist', owner', hmap, h'⟩ | ⟨herr, hfault⟩
    · rw [← hmap, ← (parse_messages a proc s).2]
      exact ihb h' hno' proc
    · exact .inr ⟨not_noError_parse herr b proc,
        hfault.append (fun m hm => (stretch_bounds b m hm).1) (Nat.le_add_right _ _)⟩
  | procedure body ih =>
    have hbegin : Sound { s with procs := s.procs + 1 } hist ended owner := { h with }
    rw [parse, Source.mentions, Source.procedures, ← Nat.add_assoc]
    rcases ih hbegin hno s.procs with ⟨hno', hist', owner', hmap, h'⟩ | ⟨herr, hfault⟩
    · rw [← hmap]
      exact outcome_reset h' hno'
    · obtain ⟨ms, hms, -⟩ :=
        (parse body s.procs { s with procs := s.procs + 1 }).resetSymbolTable_eq
      rw [hms]
      refine .inr ⟨fun hno' => herr fun m hm => hno' m (List.mem_append_right _ hm), ?_⟩
      rw [← List.append_nil (hist.map Prod.fst ++ _)]
      exact hfault.append nofun (Nat.le_succ _)

/-- **Reading a procedure.** -/
theorem outcome_parseProcedure (body : Source) :
    Outcome (parseProcedure body) (mentions body) (body.procedures + 1) := by
  have h : Sound .initial [] 0 fun _ => (0, "") :=
    ⟨rfl, List.nodup_nil, nofun, nofun, fun k n hne => absurd rfl hne, fun _ _ => rfl, nofun,
      fun k n hk => absurd hk (Nat.not_lt_zero k)⟩
  have := outcome_parse (.procedure body) h nofun 0
  rw [Nat.zero_add] at this
  exact this

/-! ## From both sides, from one side -/

/-- A clean text is not faulty. -/
theorem not_faulty_of_clean {body : Source} (h : Clean body) {ended : ℕ} :
    ¬ Faulty (mentions body) ended := by
  rintro ⟨k, n, hfault⟩
  have hone : ∀ {d : Mention} {gotos : List Mention}, d.isLabel = true →
      (∀ g ∈ gotos, g.isLabel = false ∧ g.proc = d.proc) →
      gotos.countP Mention.isLabel = 0 := by
    intro d gotos _ hgotos
    rw [List.countP_eq_zero]
    intro g hg
    rw [(hgotos g hg).1]
    exact Bool.false_ne_true
  rcases h k n with hnil | ⟨d, gotos, hms, hd, hgotos⟩
  · rw [hnil] at hfault
    rcases hfault with hlt | ⟨-, hne, -⟩
    · exact absurd hlt (Nat.not_lt_zero 1)
    · exact hne rfl
  · have hcount : (within (mentions body) k n).countP Mention.isLabel = 1 := by
      rcases hms with hms | hms
      · rw [hms, List.countP_append, hone hd hgotos, List.countP_singleton, if_pos hd]
      · rw [hms, List.countP_cons, hone hd hgotos, if_pos hd]
    rw [hcount] at hfault
    rcases hfault with hlt | ⟨-, -, h0⟩
    · exact lt_irrefl 1 hlt
    · cases h0

/-- Gotos before the definition leave none after it. -/
theorem OneSided.after_eq_nil {before after : List Mention} {d : Mention}
    (h : OneSided (before ++ d :: after)) (hne : before ≠ [])
    (hbefore : ∀ g ∈ before, g.isLabel = false) (hd : d.isLabel = true) : after = [] := by
  obtain ⟨d', gotos, hms | hms, hd', hgotos⟩ := h
  · rcases List.eq_nil_or_concat after with rfl | ⟨l, x, rfl⟩
    · rfl
    · rw [List.concat_eq_append, ← List.cons_append, ← List.append_assoc] at hms
      obtain ⟨rfl, -⟩ := List.append_inj' hms rfl
      have := (hgotos d (by simp)).1
      rw [hd] at this
      cases this
  · obtain ⟨b, before, rfl⟩ := List.exists_cons_of_ne_nil hne
    obtain ⟨rfl, -⟩ := List.cons_eq_cons.mp hms
    rw [hbefore b List.mem_cons_self] at hd'
    cases hd'

/-- The mentions of a one-sided name are in one procedure. -/
theorem OneSided.proc_eq {ms : List Mention} (h : OneSided ms) {a b : Mention} (ha : a ∈ ms)
    (hb : b ∈ ms) : a.proc = b.proc := by
  obtain ⟨d, gotos, hms, -, hgotos⟩ := h
  have hall : ∀ m ∈ ms, m.proc = d.proc := by
    intro m hm
    rcases hms with rfl | rfl
    · rcases List.mem_append.mp hm with hm | hm
      · exact (hgotos m hm).2
      · rw [List.mem_singleton.mp hm]
    · rcases List.mem_cons.mp hm with rfl | hm
      · rfl
      · exact (hgotos m hm).2
  rw [hall a ha, hall b hb]

section

variable {body : Source} {s : State} {hist : History} {ended : ℕ} {owner : NodeId → ℕ × String}

/-- The nodes of a tree tell what was read. -/
theorem Sound.mem_tree (h : Sound s hist ended owner) {o : Occurrence} :
    o ∈ s.tree ↔ ∃ g ∈ hist, g.1.occurrence g.2 = o := by
  rw [h.tree, List.mem_map]

theorem Sound.eq_of_node (h : Sound s hist ended owner) {g g' : Mention × NodeId} (hg : g ∈ hist)
    (hg' : g' ∈ hist) (heq : g.2 = g'.2) : g = g' :=
  List.inj_on_of_nodup_map h.nodup hg hg' heq

/-- A goto that is joined in its procedure, by what was read. -/
theorem Sound.exists_label (h : Sound s hist ended owner) (hs : Resolved s)
    {g : Mention × NodeId} (hg : g ∈ hist) (hlabel : g.1.isLabel = false) :
    ∃ l ∈ hist, l.1.isLabel = true ∧ l.1.proc = g.1.proc ∧ l.1.name = g.1.name ∧
      s.node g.2 = .goto l.2 := by
  obtain ⟨o, ho, hl, hproc, hname, hnode⟩ := hs.gotos _ (h.mem_tree.mpr ⟨g, hg, rfl⟩) hlabel
  obtain ⟨l, hmem, rfl⟩ := h.mem_tree.mp ho
  exact ⟨l, hmem, hl, hproc, hname, hnode⟩

/-- **What is resolved is used from one side.** -/
theorem clean_of_resolved (h : Sound s hist ended owner)
    (hmap : hist.map Prod.fst = mentions body) (hended : ∀ g ∈ hist, g.1.stretch < ended)
    (hs : Resolved s) : Clean body := by
  intro k n
  rw [← hmap, ← History.map_of]
  by_cases hne : hist.of k n = []
  · exact .inl (by rw [hne]; rfl)
  right
  obtain ⟨g, hg⟩ := List.exists_mem_of_ne_nil _ hne
  obtain ⟨hmem, rfl, -⟩ := Sound.mem_of.mp hg
  obtain ⟨l, hl, hlabel⟩ := h.closed _ n (hended g hmem) hne
  obtain ⟨e, hslot, howner, -, -⟩ := h.slot _ n hne
  -- a goto that points at a definition of the slot is in its procedure
  have hproc : ∀ {d a : Mention × NodeId}, d ∈ hist.of g.1.stretch n → a ∈ hist.of g.1.stretch n →
      a.1.isLabel = false → s.node a.2 = .goto d.2 → a.1.proc = d.1.proc := by
    intro d a hd ha hal hnode
    obtain ⟨l', hl', -, hp, -, hnode'⟩ := h.exists_label hs (Sound.mem_of.mp ha).1 hal
    rw [hnode] at hnode'
    rw [h.eq_of_node (Sound.mem_of.mp hd).1 hl' (Node.goto.inj hnode'), hp]
  generalize hof : hist.of g.1.stretch n = ms at hslot hl hproc
  cases hslot with
  | pending _ _ hgotos =>
    rw [(hgotos l hl).1] at hlabel
    cases hlabel
  | @defined d gotos hd hentry hgotos =>
    refine ⟨d.1, gotos.map Prod.fst, .inr List.map_cons, hd, fun m hm => ?_⟩
    obtain ⟨a, ha, rfl⟩ := List.mem_map.mp hm
    exact ⟨(hgotos a ha).1, hproc List.mem_cons_self (List.mem_cons_of_mem _ ha) (hgotos a ha).1
      (hgotos a ha).2⟩
  | @merged before after d _ hne' hd hentryd hentry hdef hbefore hafter =>
    -- a goto after the definition points at the provisional label, which is in no tree
    have hnil : after = [] := by
      by_contra hafter'
      obtain ⟨a, ha⟩ := List.exists_mem_of_ne_nil _ hafter'
      have hmem' : a ∈ hist.of g.1.stretch n := by
        rw [hof]
        simp [ha]
      obtain ⟨l', hl', hlab', -, -, hnode⟩ :=
        h.exists_label hs (Sound.mem_of.mp hmem').1 (hafter a ha).1
      rw [(hafter a ha).2] at hnode
      obtain rfl := Node.goto.inj hnode
      obtain ⟨ho, -⟩ := h.owned l' hl'
      rw [howner] at ho
      obtain ⟨hk, hn⟩ := Prod.mk.inj ho
      have hl'' : l' ∈ hist.of g.1.stretch n := Sound.mem_of.mpr ⟨hl', hk.symm, hn.symm⟩
      rw [hof] at hl''
      rcases List.mem_append.mp hl'' with hb | hb
      · rw [(hbefore l' hb).1] at hlab'
        cases hlab'
      · rcases List.mem_cons.mp hb with rfl | hb
        · exact hentryd rfl
        · rw [(hafter l' hb).1] at hlab'
          cases hlab'
    subst hnil
    refine ⟨d.1, before.map Prod.fst, .inl ?_, hd, fun m hm => ?_⟩
    · rw [List.map_append]
      rfl
    · obtain ⟨a, ha, rfl⟩ := List.mem_map.mp hm
      exact ⟨(hbefore a ha).1, hproc (by simp) (by simp [ha]) (hbefore a ha).1 (hbefore a ha).2⟩

/-- A slot whose name is used from one side has one label, that of the
tree. -/
theorem Slot.oneSided {node : NodeId → Node} {n : String} {l : History} {e : NodeId}
    (h : Slot node n l e) (hl : OneSided (l.map Prod.fst)) :
    ∃ d gotos, d.1.isLabel = true ∧ (l = d :: gotos ∨ l = gotos ++ [d]) ∧
      node d.2 = .label n (History.nodes gotos).reverse true ∧
      ∀ a ∈ gotos, a.1.isLabel = false ∧ node a.2 = .goto d.2 := by
  cases h with
  | pending _ _ hgotos =>
    obtain ⟨d, gotos, hms, hd, -⟩ := hl
    have hmem : d ∈ l.map Prod.fst := by rcases hms with hms | hms <;> simp [hms]
    obtain ⟨a, ha, rfl⟩ := List.mem_map.mp hmem
    rw [(hgotos a ha).1] at hd
    cases hd
  | @defined d gotos hd hentry hgotos => exact ⟨d, gotos, hd, .inl rfl, hentry, hgotos⟩
  | @merged before after d _ hne hd _ _ hdef hbefore _ =>
    rw [List.map_append, List.map_cons] at hl
    have hafter := hl.after_eq_nil (mt List.map_eq_nil_iff.mp hne)
      (List.forall_mem_map.mpr fun g hg => (hbefore g hg).1) hd
    obtain rfl := List.map_eq_nil_iff.mp hafter
    exact ⟨d, before, hd, .inr rfl, hdef, hbefore⟩

/-- **What is used from one side is resolved.** -/
theorem resolved_of_clean (h : Sound s hist ended owner) (hno : s.NoError)
    (hmap : hist.map Prod.fst = mentions body) (hdef : DefinedOnce body) (hc : Clean body) :
    Resolved s := by
  have hslot : ∀ g ∈ hist, ∃ d gotos, d.1.isLabel = true ∧
      (hist.of g.1.stretch g.1.name = d :: gotos ∨
        hist.of g.1.stretch g.1.name = gotos ++ [d]) ∧
      s.node d.2 = .label g.1.name (History.nodes gotos).reverse true ∧
      ∀ a ∈ gotos, a.1.isLabel = false ∧ s.node a.2 = .goto d.2 := by
    intro g hg
    have hne : hist.of g.1.stretch g.1.name ≠ [] :=
      List.ne_nil_of_mem (Sound.mem_of.mpr ⟨hg, rfl, rfl⟩)
    obtain ⟨e, hs, -⟩ := h.slot _ _ hne
    refine hs.oneSided ?_
    rw [History.map_of, hmap]
    refine (hc _ _).resolve_left fun hnil => ?_
    rw [← hmap, ← History.map_of, List.map_eq_nil_iff] at hnil
    exact hne hnil
  have hproc : ∀ g ∈ hist, ∀ a ∈ hist.of g.1.stretch g.1.name, a.1.proc = g.1.proc := by
    intro g hg a ha
    have hg' : g ∈ hist.of g.1.stretch g.1.name := Sound.mem_of.mpr ⟨hg, rfl, rfl⟩
    rcases hc g.1.stretch g.1.name with hnil | hone
    · rw [← hmap, ← History.map_of, List.map_eq_nil_iff] at hnil
      rw [hnil] at ha
      cases ha
    · rw [← hmap, ← History.map_of] at hone
      exact hone.proc_eq (List.mem_map.mpr ⟨a, ha, rfl⟩) (List.mem_map.mpr ⟨g, hg', rfl⟩)
  refine ⟨hno, fun o ho hlabel => ?_, fun o ho hlabel => ?_⟩
  · obtain ⟨g, hg, rfl⟩ := h.mem_tree.mp ho
    obtain ⟨d, gotos, hd, hof, -, hgotos⟩ := hslot g hg
    have hmem : g ∈ hist.of g.1.stretch g.1.name := Sound.mem_of.mpr ⟨hg, rfl, rfl⟩
    have hdmem : d ∈ hist.of g.1.stretch g.1.name := by rcases hof with hof | hof <;> simp [hof]
    have hgmem : g ∈ gotos := by
      have hgd : g ≠ d := fun he => by
        rw [← he] at hd
        exact absurd hd (Bool.not_eq_true _ ▸ hlabel)
      rcases hof with hof | hof <;> rw [hof] at hmem
      · exact (List.mem_cons.mp hmem).resolve_left hgd
      · exact (List.mem_append.mp hmem).resolve_right fun hg => hgd (List.mem_singleton.mp hg)
    obtain ⟨hdhist, -, hdname⟩ := Sound.mem_of.mp hdmem
    exact ⟨_, h.mem_tree.mpr ⟨d, hdhist, rfl⟩, hd, hproc g hg d hdmem, hdname,
      (hgotos g hgmem).2⟩
  · obtain ⟨d₀, hd₀, rfl⟩ := h.mem_tree.mp ho
    obtain ⟨d, gotos, hd, hof, hnode, hgotos⟩ := hslot d₀ hd₀
    have hmem : d₀ ∈ hist.of d₀.1.stretch d₀.1.name := Sound.mem_of.mpr ⟨hd₀, rfl, rfl⟩
    have hnot : d₀ ∉ gotos := fun hg => by
      have := (hgotos d₀ hg).1
      rw [show d₀.1.isLabel = true from hlabel] at this
      cases this
    obtain rfl : d₀ = d := by
      rcases hof with hof | hof <;> rw [hof] at hmem
      · exact (List.mem_cons.mp hmem).resolve_right hnot
      · exact List.mem_singleton.mp ((List.mem_append.mp hmem).resolve_left hnot)
    have hsub : gotos.Sublist (hist.of d₀.1.stretch d₀.1.name) := by
      rcases hof with hof | hof <;> rw [hof]
      · exact List.sublist_cons_self _ _
      · exact List.sublist_append_left _ _
    refine ⟨_, hnode, ?_, fun i => ?_⟩
    · rw [List.nodup_reverse]
      exact h.nodup.sublist ((hsub.trans List.filter_sublist).map _)
    · rw [List.mem_reverse, History.nodes, List.mem_map]
      constructor
      · rintro ⟨a, ha, rfl⟩
        obtain ⟨hahist, -, haname⟩ := Sound.mem_of.mp (hsub.subset ha)
        exact ⟨_, h.mem_tree.mpr ⟨a, hahist, rfl⟩, (hgotos a ha).1,
          hproc d₀ hd₀ a (hsub.subset ha), haname, rfl⟩
      · rintro ⟨o', ho', hl', hp', hn', rfl⟩
        obtain ⟨g, hg, rfl⟩ := h.mem_tree.mp ho'
        -- the definition that goes with this goto is the one there is
        obtain ⟨d', gotos', hd', hof', -, -⟩ := hslot g hg
        have hd'mem : d' ∈ hist.of g.1.stretch g.1.name := by
          rcases hof' with hof' | hof' <;> simp [hof']
        obtain ⟨hd'hist, hd'stretch, hd'name⟩ := Sound.mem_of.mp hd'mem
        have hsame : d'.1 = d₀.1 := by
          have hmen : ∀ {a : Mention × NodeId}, a ∈ hist → a.1 ∈ mentions body := fun ha =>
            hmap ▸ List.mem_map.mpr ⟨_, ha, rfl⟩
          obtain ⟨x, hx⟩ := List.length_eq_one_iff.mp (hdef d₀.1 (hmen hd₀))
          have hin : ∀ {a : Mention × NodeId}, a ∈ hist → a.1.isLabel = true →
              a.1.proc = d₀.1.proc → a.1.name = d₀.1.name → a.1 = x := by
            intro a ha hal hap han
            have : a.1 ∈ (mentions body).filter fun d =>
                d.isLabel && d.proc == d₀.1.proc && d.name == d₀.1.name := by
              simp [hmen ha, hal, hap, han]
            rw [hx] at this
            exact List.mem_singleton.mp this
          rw [hin hd'hist hd' ((hproc g hg d' hd'mem).trans hp') (hd'name.trans hn'),
            hin hd₀ hlabel rfl rfl]
        have hgmem : g ∈ hist.of d₀.1.stretch d₀.1.name :=
          Sound.mem_of.mpr ⟨hg, by rw [← hd'stretch, hsame], hn'⟩
        refine ⟨g, ?_, rfl⟩
        have hgd : g ≠ d₀ := fun he => by
          rw [he] at hl'
          rw [show (d₀.1.occurrence d₀.2).isLabel = true from hlabel] at hl'
          cases hl'
        rcases hof with hof | hof <;> rw [hof] at hgmem
        · exact (List.mem_cons.mp hgmem).resolve_left hgd
        · exact (List.mem_append.mp hgmem).resolve_right fun hg => hgd (List.mem_singleton.mp hg)

end

/-- **Labels are resolved exactly where none is used from both sides.** Let
every label be defined once. Then every goto is joined with the label of its
name in its procedure, the label has exactly these gotos as its references,
and no error is reported, if and only if between two ends of procedures the
gotos to a label are in its procedure and all on one side of it. -/
theorem resolved_iff_clean (body : Source) (h : DefinedOnce body) :
    Resolved (parseProcedure body) ↔ Clean body := by
  rcases outcome_parseProcedure body with ⟨hno, hist, owner, hmap, hs⟩ | ⟨herr, hfault⟩
  · refine ⟨clean_of_resolved hs hmap fun g hg => ?_, resolved_of_clean hs hno hmap h⟩
    have hmem : g.1 ∈ mentions body := hmap ▸ List.mem_map.mpr ⟨g, hg, rfl⟩
    have := (stretch_bounds body g.1 hmem).2
    omega
  · exact iff_of_false (fun hs => herr hs.noError) fun hc => not_faulty_of_clean hc hfault

theorem resolved_iff_clean_forward :
    Resolved (parseProcedure (.seq (.goto "out") (.label "out"))) ↔
      Clean (.seq (.goto "out") (.label "out")) :=
  resolved_iff_clean _ (by decide)

/-- A goto before a label and one after it. -/
def bothSides : Source := .seq (.goto "again") (.seq (.label "again") (.goto "again"))

/-- The goto after the label is joined with the provisional label. -/
theorem bothSides_not_resolved :
    ¬ ∀ body, DefinedOnce body → Resolved (parseProcedure body) := by
  intro hall
  obtain ⟨l, hl, hlabel, -, -, hnode⟩ := (hall bothSides (by decide)).gotos
    ⟨0, "again", false, 3⟩ (by decide) rfl
  have htree : ∀ l ∈ (parseProcedure bothSides).tree, l.isLabel = true →
      (parseProcedure bothSides).node 3 ≠ .goto l.node := by decide
  exact htree l hl hlabel hnode

end Cilk.Labels
