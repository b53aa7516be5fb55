import Cilk.Labels.Model
import Mathlib.Tactic

/-!
# The slots of the label table

Between two ends of procedures, what the parser knows of a name is a slot:
the gotos and the definitions of the name so far, and the node in the table.
A slot is pending (gotos alone), defined (the definition came first) or
merged (gotos came first): in a merged slot the node in the table is the
provisional one, which is in no tree. `Sound` says that the nodes are those
of the slots.

An error is reported exactly where a text is `Faulty`: a name is defined
twice between two ends, or used and not defined.
-/

namespace Cilk.Labels

/-- What was read, with the nodes made for it. -/
abbrev History := List (Mention × NodeId)

def History.nodes (l : History) : List NodeId := l.map Prod.snd

theorem History.nodes_concat (l : History) (g : Mention × NodeId) :
    History.nodes (l ++ [g]) = l.nodes ++ [g.2] :=
  List.map_append

/-- What was read of a name in a stretch. -/
def History.of (l : History) (k : ℕ) (n : String) : History :=
  l.filter fun h => h.1.stretch = k ∧ h.1.name = n

def Mention.occurrence (m : Mention) (i : NodeId) : Occurrence := ⟨m.proc, m.name, m.isLabel, i⟩

/-- **What the nodes of a slot are**, by what was read of its name; `entry`
is the node in the table. -/
inductive Slot (node : NodeId → Node) (name : String) : History → NodeId → Prop
  | pending {gotos : History} {entry : NodeId} (hne : gotos ≠ [])
      (hentry : node entry = .label name gotos.nodes.reverse false)
      (hgotos : ∀ g ∈ gotos, g.1.isLabel = false ∧ node g.2 = .goto entry) :
      Slot node name gotos entry
  | defined {d : Mention × NodeId} {gotos : History} (hd : d.1.isLabel = true)
      (hentry : node d.2 = .label name gotos.nodes.reverse true)
      (hgotos : ∀ g ∈ gotos, g.1.isLabel = false ∧ node g.2 = .goto d.2) :
      Slot node name (d :: gotos) d.2
  | merged {before after : History} {d : Mention × NodeId} {entry : NodeId} (hne : before ≠ [])
      (hd : d.1.isLabel = true) (hentryd : entry ≠ d.2)
      (hentry : node entry = .label name (before ++ after).nodes.reverse true)
      (hdef : node d.2 = .label name before.nodes.reverse true)
      (hbefore : ∀ g ∈ before, g.1.isLabel = false ∧ node g.2 = .goto d.2)
      (hafter : ∀ g ∈ after, g.1.isLabel = false ∧ node g.2 = .goto entry) :
      Slot node name (before ++ d :: after) entry

theorem Slot.ne_nil {node : NodeId → Node} {name : String} {l : History} {entry : NodeId}
    (h : Slot node name l entry) : l ≠ [] := by
  cases h with
  | pending hne => exact hne
  | defined => exact List.cons_ne_nil _ _
  | merged hne => exact List.append_ne_nil_of_left_ne_nil hne _

/-- **Frame**: a slot depends on its own nodes alone. -/
theorem Slot.frame {node node' : NodeId → Node} {name : String} {l : History} {entry : NodeId}
    (h : Slot node name l entry) (hentry' : node' entry = node entry)
    (hl : ∀ g ∈ l, node' g.2 = node g.2) : Slot node' name l entry := by
  cases h with
  | pending hne hentry hgotos =>
    exact .pending hne (hentry'.trans hentry) fun g hg =>
      ⟨(hgotos g hg).1, (hl g hg).trans (hgotos g hg).2⟩
  | defined hd hentry hgotos =>
    exact .defined hd (hentry'.trans hentry) fun g hg =>
      ⟨(hgotos g hg).1, (hl g (List.mem_cons_of_mem _ hg)).trans (hgotos g hg).2⟩
  | merged hne hd hentryd hentry hdef hbefore hafter =>
    refine .merged hne hd hentryd (hentry'.trans hentry) ((hl _ (by simp)).trans hdef)
      (fun g hg => ⟨(hbefore g hg).1, (hl g (by simp [hg])).trans (hbefore g hg).2⟩)
      fun g hg => ⟨(hafter g hg).1, (hl g (by simp [hg])).trans (hafter g hg).2⟩

/-- **One more goto**: the node in the table has it as a reference. -/
theorem Slot.goto {node node' : NodeId → Node} {name : String} {l : History} {entry : NodeId}
    {references : List NodeId} {declared : Bool} {g : Mention × NodeId}
    (h : Slot node name l entry) (hentry : node entry = .label name references declared)
    (hentry' : node' entry = .label name (g.2 :: references) declared) (hg : g.1.isLabel = false)
    (hg' : node' g.2 = .goto entry) (hl : ∀ a ∈ l, a.2 ≠ entry → node' a.2 = node a.2) :
    Slot node' name (l ++ [g]) entry := by
  -- a node that is a goto is not the one in the table
  have hgoto : ∀ a ∈ l, ∀ t, node a.2 = .goto t → node' a.2 = .goto t := by
    intro a ha t hat
    refine (hl a ha fun he => ?_).trans hat
    rw [he, hentry] at hat
    cases hat
  cases h with
  | pending hne he hgotos =>
    rw [he] at hentry
    obtain ⟨-, rfl, rfl⟩ := Node.label.inj hentry
    refine .pending (List.append_ne_nil_of_left_ne_nil hne _) ?_ (List.forall_mem_append.mpr
      ⟨fun a ha => ⟨(hgotos a ha).1, hgoto a ha _ (hgotos a ha).2⟩,
        List.forall_mem_singleton.mpr ⟨hg, hg'⟩⟩)
    rw [hentry', History.nodes_concat, List.reverse_append]
    rfl
  | @defined d gotos hd he hgotos =>
    rw [he] at hentry
    obtain ⟨-, rfl, rfl⟩ := Node.label.inj hentry
    refine .defined hd ?_ (List.forall_mem_append.mpr
      ⟨fun a ha => ⟨(hgotos a ha).1, hgoto a (List.mem_cons_of_mem _ ha) _ (hgotos a ha).2⟩,
        List.forall_mem_singleton.mpr ⟨hg, hg'⟩⟩)
    rw [hentry', ← List.reverse_concat, ← History.nodes_concat]
    rfl
  | @merged before after d _ hne hd hentryd he hdef hbefore hafter =>
    rw [he] at hentry
    obtain ⟨-, rfl, rfl⟩ := Node.label.inj hentry
    rw [List.append_assoc, List.cons_append]
    refine .merged hne hd hentryd ?_ ((hl d (by simp) hentryd.symm).trans hdef)
      (fun a ha => ⟨(hbefore a ha).1, hgoto a (by simp [ha]) _ (hbefore a ha).2⟩)
      (List.forall_mem_append.mpr
        ⟨fun a ha => ⟨(hafter a ha).1, hgoto a (by simp [ha]) _ (hafter a ha).2⟩,
          List.forall_mem_singleton.mpr ⟨hg, hg'⟩⟩)
    rw [hentry', ← List.append_assoc, History.nodes_concat (before ++ after), List.reverse_append]
    rfl

/-- The node in the table is a label of the name. -/
theorem Slot.entry_eq {node : NodeId → Node} {name : String} {l : History} {entry : NodeId}
    (h : Slot node name l entry) : ∃ references declared,
      node entry = .label name references declared := by
  cases h with
  | pending _ hentry => exact ⟨_, _, hentry⟩
  | defined _ hentry => exact ⟨_, _, hentry⟩
  | merged _ _ _ hentry => exact ⟨_, _, hentry⟩

/-- A text with an error: two definitions of a name in a stretch, or none
where one has ended. -/
def Faulty (ms : List Mention) (ended : ℕ) : Prop :=
  ∃ k n, 1 < (within ms k n).countP Mention.isLabel ∨
    k < ended ∧ within ms k n ≠ [] ∧ (within ms k n).countP Mention.isLabel = 0

namespace State

/-- Nothing but warnings was reported. -/
def NoError (s : State) : Prop := ∀ m ∈ s.messages, m.isError = false

end State

/-- **The invariant of the parser**: `owner` tells the slots of the nodes
apart. -/
structure Sound (s : State) (hist : History) (ended : ℕ) (owner : NodeId → ℕ × String) : Prop where
  tree : s.tree = hist.map fun h => h.1.occurrence h.2
  nodup : hist.nodes.Nodup
  owned : ∀ h ∈ hist, owner h.2 = (h.1.stretch, h.1.name) ∧ h.2 < s.next
  stretch_le : ∀ h ∈ hist, h.1.stretch ≤ ended
  slot : ∀ k n, hist.of k n ≠ [] → ∃ entry, Slot s.node n (hist.of k n) entry ∧
    owner entry = (k, n) ∧ entry < s.next ∧ (k = ended → s.labels.lookup n = some entry)
  table : ∀ n, hist.of ended n = [] → s.labels.lookup n = none
  keys : ∀ p ∈ s.labels, s.labels.lookup p.1 = some p.2
  closed : ∀ k n, k < ended → hist.of k n ≠ [] → ∃ d ∈ hist.of k n, d.1.isLabel = true

namespace Sound

variable {s s' : State} {hist : History} {ended : ℕ} {owner : NodeId → ℕ × String}

theorem mem_of {l : History} {k : ℕ} {n : String} {h : Mention × NodeId} :
    h ∈ l.of k n ↔ h ∈ l ∧ h.1.stretch = k ∧ h.1.name = n := by
  rw [History.of, List.mem_filter, decide_eq_true_eq]

theorem of_append {l : History} {k : ℕ} {n : String} {h : Mention × NodeId} :
    History.of (l ++ [h]) k n =
      l.of k n ++ if h.1.stretch = k ∧ h.1.name = n then [h] else [] := by
  rw [History.of, History.of, List.filter_append, List.filter_singleton]
  split_ifs with hkn <;> simp [hkn]

/-- **What is left to check where something is read**: its slot, and that the
other slots are left alone. -/
theorem read (h : Sound s hist ended owner) (m : Mention) (i entry : NodeId)
    (hm : m.stretch = ended) (htree : s'.tree = s.tree ++ [m.occurrence i])
    (hnext : s.next ≤ s'.next) (hi : s.next ≤ i) (hi' : i < s'.next)
    (hslot : Slot s'.node m.name (hist.of ended m.name ++ [(m, i)]) entry)
    (hentry : entry < s'.next) (howner : entry < s.next → owner entry = (ended, m.name))
    (hlookup : s'.labels.lookup m.name = some entry)
    (htable : ∀ n, n ≠ m.name → s'.labels.lookup n = s.labels.lookup n)
    (hkeys : ∀ p ∈ s'.labels, s'.labels.lookup p.1 = some p.2)
    (hnode : ∀ j, j < s.next → owner j ≠ (ended, m.name) → s'.node j = s.node j) :
    ∃ owner', Sound s' (hist ++ [(m, i)]) ended owner' := by
  have hother : ∀ k n, ¬ (m.stretch = k ∧ m.name = n) →
      History.of (hist ++ [(m, i)]) k n = hist.of k n := by
    intro k n hkn
    rw [of_append, if_neg hkn, List.append_nil]
  have hhere : History.of (hist ++ [(m, i)]) ended m.name = hist.of ended m.name ++ [(m, i)] := by
    rw [of_append, if_pos ⟨hm, rfl⟩]
  refine ⟨fun j => if j < s.next then owner j else (ended, m.name), ?_, ?_, ?_, ?_, ?_, ?_, hkeys,
    ?_⟩
  · rw [htree, h.tree, List.map_append]
    rfl
  · rw [History.nodes, List.map_append, List.nodup_append]
    refine ⟨h.nodup, List.nodup_singleton _, ?_⟩
    rintro a ha b hb rfl
    obtain ⟨g, hg, rfl⟩ := List.mem_map.mp ha
    have hlt := (h.owned g hg).2
    have heq : g.2 = i := List.mem_singleton.mp hb
    rw [heq] at hlt
    exact absurd hlt (not_lt.mpr hi)
  · intro g hg
    rcases List.mem_append.mp hg with hg | hg
    · obtain ⟨ho, hlt⟩ := h.owned g hg
      exact ⟨by rw [if_pos hlt, ho], hlt.trans_le hnext⟩
    · obtain rfl := List.mem_singleton.mp hg
      refine ⟨?_, hi'⟩
      rw [if_neg (not_lt.mpr hi)]
      exact Prod.ext hm.symm rfl
  · intro g hg
    rcases List.mem_append.mp hg with hg | hg
    · exact h.stretch_le g hg
    · obtain rfl := List.mem_singleton.mp hg
      exact hm.le
  · intro k n hne
    by_cases hkn : m.stretch = k ∧ m.name = n
    · obtain ⟨rfl, rfl⟩ := hkn
      rw [hm, hhere]
      refine ⟨entry, hslot, ?_, hentry, fun _ => hlookup⟩
      split_ifs with hlt
      · exact howner hlt
      · rfl
    · rw [hother k n hkn] at hne ⊢
      obtain ⟨e, hs, ho, hlt, hl⟩ := h.slot k n hne
      have hkey : (k, n) ≠ (ended, m.name) := fun he => by
        cases he
        exact hkn ⟨hm, rfl⟩
      refine ⟨e, hs.frame (hnode e hlt (ho ▸ hkey)) fun g hg => ?_, ?_, hlt.trans_le hnext, ?_⟩
      · obtain ⟨hmem, hk, hn⟩ := mem_of.mp hg
        obtain ⟨ho, hlt⟩ := h.owned g hmem
        refine hnode g.2 hlt ?_
        rw [ho, hk, hn]
        exact hkey
      · rw [if_pos hlt, ho]
      · intro hk
        rw [htable n fun he => hkn ⟨hm.trans hk.symm, he.symm⟩]
        exact hl hk
  · intro n hnil
    have hn : n ≠ m.name := fun he => by
      rw [he, hhere] at hnil
      exact absurd hnil (List.append_ne_nil_of_right_ne_nil _ (List.cons_ne_nil _ _))
    rw [hother ended n fun hkn => hn hkn.2.symm] at hnil
    rw [htable n hn]
    exact h.table n hnil
  · intro k n hk hne
    have hkn : ¬ (m.stretch = k ∧ m.name = n) := fun hkn => by omega
    rw [hother k n hkn] at hne ⊢
    exact h.closed k n hk hne

/-- The table with a name that was not in it. -/
theorem keys_cons (h : Sound s hist ended owner) {n : String} (hn : s.labels.lookup n = none)
    (i : NodeId) : ∀ p ∈ (n, i) :: s.labels, ((n, i) :: s.labels).lookup p.1 = some p.2 := by
  refine List.forall_mem_cons.mpr ⟨List.lookup_cons_self, fun p hp => ?_⟩
  have hpn : p.1 ≠ n := fun he => by
    have := h.keys p hp
    rw [he, hn] at this
    cases this
  rw [List.lookup_cons, beq_eq_false_iff_ne.mpr hpn]
  exact h.keys p hp

/-- The node in the table for a name that was read is that of its slot. -/
theorem exists_slot (h : Sound s hist ended owner) {n : String} {e : NodeId}
    (he : s.labels.lookup n = some e) :
    Slot s.node n (hist.of ended n) e ∧ owner e = (ended, n) ∧ e < s.next := by
  by_cases hnil : hist.of ended n = []
  · rw [h.table n hnil] at he
    cases he
  · obtain ⟨e', hs, ho, hlt, hl⟩ := h.slot ended n hnil
    obtain rfl : e' = e := Option.some.inj ((hl rfl).symm.trans he)
    exact ⟨hs, ho, hlt⟩

theorem nil_of_lookup (h : Sound s hist ended owner) {n : String}
    (hn : s.labels.lookup n = none) : hist.of ended n = [] := by
  by_contra hne
  obtain ⟨e, -, -, -, hl⟩ := h.slot ended n hne
  rw [hl rfl] at hn
  cases hn

end Sound

/-! ## Reading a label -/

namespace State

/-- The references of the provisional label are pointed at the definition. -/
theorem foldl_setNode (l : List NodeId) (n : Node) (s : State) :
    l.foldl (fun s item => s.setNode item n) s =
      { s with node := fun i => if i ∈ l then n else s.node i } := by
  induction l generalizing s with
  | nil => simp
  | cons a l ih =>
    rw [List.foldl_cons, ih]
    simp only [setNode, Function.update_apply, List.mem_cons]
    congr 1
    funext i
    by_cases hl : i ∈ l <;> by_cases ha : i = a <;> simp [hl, ha]

/-- `BuildLabel` of a name that was not read before. -/
theorem buildLabel_new {s : State} {i : NodeId} {n : String} (hn : s.labels.lookup n = none) :
    s.buildLabel i n =
      { s with
        node := Function.update s.node i (.label n [] true)
        labels := (n, i) :: s.labels } := by
  rw [buildLabel, insertSymbol]
  simp only [setNode, hn]

/-- `BuildLabel` of a name that gotos wait for. -/
theorem buildLabel_pending {s : State} {i e : NodeId} {n : String} {references : List NodeId}
    (hn : s.labels.lookup n = some e) (he : s.node e = .label n references false) (hne : e ≠ i) :
    s.buildLabel i n =
      { s with
        node := Function.update (Function.update
          (fun j => if j ∈ references then .goto i else
            Function.update s.node i (.label n [] true) j)
          e (.label n references true)) i (.label n references true) } := by
  rw [buildLabel, insertSymbol]
  simp only [setNode, hn, labelConflict, Function.update_self, Function.update_of_ne hne, he,
    Bool.false_eq_true, if_false]
  rw [show (fun (s : State) (item : NodeId) =>
    { s with node := Function.update s.node item (.goto i) }) =
      fun s item => s.setNode item (.goto i) from rfl, foldl_setNode]

/-- `BuildLabel` of a name that has a definition. -/
theorem buildLabel_defined {s : State} {i e : NodeId} {n : String} {references : List NodeId}
    (hn : s.labels.lookup n = some e) (he : s.node e = .label n references true) (hne : e ≠ i) :
    .multipleDefinitions n ∈ (s.buildLabel i n).messages := by
  rw [buildLabel, insertSymbol]
  simp only [setNode, hn, labelConflict, Function.update_self, Function.update_of_ne hne, he,
    if_true]
  exact List.mem_cons_self

/-- `ResolveGoto` of a name that was read before. -/
theorem resolveGoto_found {s : State} {i e : NodeId} {n : String} {references : List NodeId}
    {declared : Bool} (hn : s.labels.lookup n = some e)
    (he : s.node e = .label n references declared) (hne : e ≠ i) :
    s.resolveGoto i n =
      { s with
        node := Function.update (Function.update s.node i (.goto e)) e
          (.label n (i :: references) declared) } := by
  rw [resolveGoto, hn]
  simp only [setNode, addReference, Function.update_of_ne hne, he]

/-- `ResolveGoto` of a name that was not read before. -/
theorem resolveGoto_new {s : State} {i : NodeId} {n : String} (hn : s.labels.lookup n = none)
    (hi : s.next ≠ i) :
    s.resolveGoto i n =
      { s with
        node := Function.update (Function.update
          (Function.update s.node s.next (.label n [] false)) i (.goto s.next))
          s.next (.label n [i] false)
        next := s.next + 1
        labels := (n, s.next) :: s.labels } := by
  rw [resolveGoto, hn]
  simp only [newNode, insertSymbol, hn, setNode, addReference, Function.update_of_ne hi,
    Function.update_self]

end State

theorem parse_label (n : String) (proc : ℕ) (s : State) :
    parse (.label n) proc s =
      ((s.newNode (.id n)).1.buildLabel s.next n).occur ⟨proc, n, true, s.next⟩ :=
  rfl

theorem parse_goto (n : String) (proc : ℕ) (s : State) :
    parse (.goto n) proc s =
      ((s.newNode (.id n)).1.resolveGoto s.next n).occur ⟨proc, n, false, s.next⟩ :=
  rfl

namespace Sound

variable {s : State} {hist : History} {ended : ℕ} {owner : NodeId → ℕ × String} {proc : ℕ}
  {n : String}

/-- The nodes of a slot are old. -/
theorem lt_next (h : Sound s hist ended owner) {k : ℕ} {g : Mention × NodeId}
    (hg : g ∈ hist.of k n) : g.2 < s.next ∧ owner g.2 = (k, n) := by
  obtain ⟨hmem, hk, hn⟩ := mem_of.mp hg
  obtain ⟨ho, hlt⟩ := h.owned g hmem
  refine ⟨hlt, ?_⟩
  rw [ho, hk, hn]

/-- A label that was not read before. -/
theorem label_new (h : Sound s hist ended owner) (hn : s.labels.lookup n = none) :
    (parse (.label n) proc s).messages = s.messages ∧ ∃ owner',
      Sound (parse (.label n) proc s) (hist ++ [(⟨proc, ended, n, true⟩, s.next)]) ended
        owner' := by
  have hnil := h.nil_of_lookup hn
  have hparse := State.buildLabel_new (s := (s.newNode (.id n)).1) (i := s.next) hn
  rw [parse_label, hparse]
  refine ⟨rfl, h.read ⟨proc, ended, n, true⟩ s.next _ rfl rfl (Nat.le_succ _) le_rfl
    (Nat.lt_succ_self _) ?_ (Nat.lt_succ_self _) (fun hlt => absurd hlt (lt_irrefl _)) ?_
    (fun m hm => ?_) (h.keys_cons hn _) fun j hj _ => ?_⟩
  · rw [hnil]
    exact .defined (d := (_, s.next)) rfl (Function.update_self ..) nofun
  · exact List.lookup_cons_self
  · simp only [State.occur, State.newNode, List.lookup_cons, beq_eq_false_iff_ne.mpr hm]
  · simp only [State.occur, State.newNode, Function.update_of_ne hj.ne]

/-- A label that gotos wait for. -/
theorem label_pending (h : Sound s hist ended owner) {e : NodeId}
    (hn : s.labels.lookup n = some e) (hne : hist.of ended n ≠ [])
    (he : s.node e = .label n (hist.of ended n).nodes.reverse false)
    (hgotos : ∀ g ∈ hist.of ended n, g.1.isLabel = false ∧ s.node g.2 = .goto e) :
    (parse (.label n) proc s).messages = s.messages ∧ ∃ owner',
      Sound (parse (.label n) proc s) (hist ++ [(⟨proc, ended, n, true⟩, s.next)]) ended
        owner' := by
  obtain ⟨-, ho, hlt⟩ := h.exists_slot hn
  have hparse := State.buildLabel_pending (s := (s.newNode (.id n)).1) (i := s.next) hn
    ((Function.update_of_ne hlt.ne _ _).trans he) hlt.ne
  -- the provisional label is not one of the gotos that point at it
  have hself : ∀ g ∈ hist.of ended n, g.2 ≠ e := fun g hg heq => by
    have hgoto := (hgotos g hg).2
    rw [heq, he] at hgoto
    cases hgoto
  rw [parse_label, hparse]
  refine ⟨rfl, h.read ⟨proc, ended, n, true⟩ s.next e rfl rfl (Nat.le_succ _)
    le_rfl (Nat.lt_succ_self _) ?_ (hlt.trans (Nat.lt_succ_self _)) (fun _ => ho) hn
    (fun _ _ => rfl) h.keys fun j hj hoj => ?_⟩
  · refine @Slot.merged _ _ _ [] (_, s.next) _ hne rfl hlt.ne ?_ (Function.update_self ..)
      (fun g hg => ⟨(hgotos g hg).1, ?_⟩) nofun
    · rw [List.append_nil]
      simp only [State.occur, Function.update_of_ne hlt.ne, Function.update_self]
    · have hg' : g.2 ∈ (hist.of ended n).nodes.reverse :=
        List.mem_reverse.mpr (List.mem_map.mpr ⟨g, hg, rfl⟩)
      simp only [State.occur, Function.update_of_ne (h.lt_next hg).1.ne,
        Function.update_of_ne (hself g hg), if_pos hg']
  · have hje : j ≠ e := fun hje => hoj (hje ▸ ho)
    have hjl : j ∉ (hist.of ended n).nodes.reverse := fun hmem => by
      obtain ⟨g, hg, rfl⟩ := List.mem_map.mp (List.mem_reverse.mp hmem)
      exact hoj (h.lt_next hg).2
    simp only [State.occur, State.newNode, Function.update_of_ne hj.ne, Function.update_of_ne hje,
      if_neg hjl]

/-! ## Reading a goto -/

/-- A goto to a name that was not read before. -/
theorem goto_new (h : Sound s hist ended owner) (hn : s.labels.lookup n = none) :
    (parse (.goto n) proc s).messages = s.messages ∧ ∃ owner',
      Sound (parse (.goto n) proc s) (hist ++ [(⟨proc, ended, n, false⟩, s.next)]) ended
        owner' := by
  have hnil := h.nil_of_lookup hn
  have hsucc : s.next + 1 ≠ s.next := Nat.succ_ne_self _
  have hparse := State.resolveGoto_new (s := (s.newNode (.id n)).1) (i := s.next) hn hsucc
  rw [parse_goto, hparse]
  refine ⟨rfl, h.read ⟨proc, ended, n, false⟩ s.next (s.next + 1) rfl rfl
    (Nat.le_succ_of_le (Nat.le_succ _)) le_rfl (Nat.lt_succ_of_lt (Nat.lt_succ_self _)) ?_
    (Nat.lt_succ_self _) (fun hlt => absurd hlt (not_lt.mpr (Nat.le_succ _))) ?_
    (fun m hm => ?_) (h.keys_cons hn _) fun j hj _ => ?_⟩
  · rw [hnil]
    refine .pending (List.cons_ne_nil _ _) (Function.update_self ..)
      (List.forall_mem_singleton.mpr ⟨rfl, ?_⟩)
    simp only [State.occur, State.newNode, Function.update_of_ne hsucc.symm, Function.update_self]
  · exact List.lookup_cons_self
  · simp only [State.occur, State.newNode, List.lookup_cons, beq_eq_false_iff_ne.mpr hm]
  · simp only [State.occur, State.newNode, Function.update_of_ne hj.ne,
      Function.update_of_ne (hj.trans (Nat.lt_succ_self _)).ne]

/-- A goto to a name that was read before. -/
theorem goto_found (h : Sound s hist ended owner) {e : NodeId}
    (hn : s.labels.lookup n = some e) :
    (parse (.goto n) proc s).messages = s.messages ∧ ∃ owner',
      Sound (parse (.goto n) proc s) (hist ++ [(⟨proc, ended, n, false⟩, s.next)]) ended
        owner' := by
  obtain ⟨hslot, ho, hlt⟩ := h.exists_slot hn
  obtain ⟨references, declared, he⟩ := hslot.entry_eq
  have hparse := State.resolveGoto_found (s := (s.newNode (.id n)).1) (i := s.next) hn
    ((Function.update_of_ne hlt.ne _ _).trans he) hlt.ne
  rw [parse_goto, hparse]
  refine ⟨rfl, h.read ⟨proc, ended, n, false⟩ s.next e rfl rfl (Nat.le_succ _)
    le_rfl (Nat.lt_succ_self _) ?_ (hlt.trans (Nat.lt_succ_self _)) (fun _ => ho) hn
    (fun _ _ => rfl) h.keys fun j hj hoj => ?_⟩
  · refine hslot.goto he (Function.update_self ..) rfl ?_ fun a ha hae => ?_
    · simp only [State.occur, Function.update_of_ne hlt.ne', Function.update_self]
    · simp only [State.occur, State.newNode, Function.update_of_ne hae,
        Function.update_of_ne (h.lt_next ha).1.ne]
  · have hje : j ≠ e := fun hje => hoj (hje ▸ ho)
    simp only [State.occur, State.newNode, Function.update_of_ne hj.ne, Function.update_of_ne hje]

/-! ## The end of a procedure -/

/-- A name without a definition in the table. -/
theorem pending_of_undeclared (h : Sound s hist ended owner) {e : NodeId} {m : String}
    {references : List NodeId} (hn : s.labels.lookup n = some e)
    (he : s.node e = .label m references false) :
    hist.of ended n ≠ [] ∧ ∀ g ∈ hist.of ended n, g.1.isLabel = false := by
  obtain ⟨hslot, -, -⟩ := h.exists_slot hn
  refine ⟨hslot.ne_nil, ?_⟩
  generalize hist.of ended n = l at hslot
  cases hslot with
  | pending _ _ hgotos => exact fun g hg => (hgotos g hg).1
  | defined _ hentry =>
    rw [hentry] at he
    cases he
  | merged _ _ _ hentry =>
    rw [hentry] at he
    cases he

/-- A name with a definition in the table. -/
theorem exists_label_of_declared (h : Sound s hist ended owner) {e : NodeId}
    (hn : s.labels.lookup n = some e)
    (he : ∀ m references, s.node e ≠ .label m references false) :
    ∃ d ∈ hist.of ended n, d.1.isLabel = true := by
  obtain ⟨hslot, -, -⟩ := h.exists_slot hn
  generalize hist.of ended n = l at hslot
  cases hslot with
  | pending _ hentry => exact absurd hentry (he _ _)
  | defined hd => exact ⟨_, List.mem_cons_self, hd⟩
  | merged _ hd => exact ⟨_, List.mem_append_right _ List.mem_cons_self, hd⟩

end Sound

end Cilk.Labels
