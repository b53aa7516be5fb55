import Cilk.Containers.Parsing

/-!
# Where jump targets are resolved

Jump targets are resolved in exactly the files where there is room on the stack and
where the innermost open container, if there is one, is the right one. What is open
and what encloses differ in three places, and what may stand there is read off the
source: a procedure inside a loop or switch, the parentheses of a `while`, `do` or
`switch`, and a statement behind a label that is the body of a loop or switch.
-/

namespace Cilk.Containers

open Symbols (MAX_SCOPE_DEPTH)

/-! ## Jumps that find another container -/

namespace Phrase

mutual

/-- The jumps and labels that no container takes, of the statement that the
grammar takes this one for. Those of a procedure are its own. -/
def looseFirst : Phrase → List ContaineeType
  | nothing | procedure _ | unfinished _ _ => []
  | seq a b => (a.looseFirst ++ a.looseBehind) ++ (b.looseFirst ++ b.looseBehind)
  | containee c => [c.typ]
  | labeled value label _ =>
    (value.looseFirst ++ value.looseBehind) ++ label.toList.map Containee.typ
  | ifThen condition statement =>
    (condition.looseFirst ++ condition.looseBehind) ++ statement.looseFirst
  | ifElse condition statement otherwise =>
    (condition.looseFirst ++ condition.looseBehind) ++
      ((statement.looseFirst ++ statement.looseBehind) ++ otherwise.looseFirst)
  | container .Do _ header body =>
    ((body.looseFirst ++ body.looseBehind).filter fun c => !ContainerType.Do.takes c) ++
      (header.looseFirst ++ header.looseBehind)
  | container typ _ header body =>
    (header.looseFirst ++ header.looseBehind) ++ body.looseFirst.filter fun c => !typ.takes c

/-- Those of the statements behind it. -/
def looseBehind : Phrase → List ContaineeType
  | nothing | seq _ _ | containee _ | procedure _ | unfinished _ _ => []
  | labeled _ _ statement => statement.looseFirst ++ statement.looseBehind
  | ifThen _ statement | ifElse _ _ statement => statement.looseBehind
  | container .Do _ _ _ => []
  | container typ _ _ body => body.looseBehind.filter fun c => !typ.takes c

end

def loose (p : Phrase) : List ContaineeType := p.looseFirst ++ p.looseBehind

mutual

/-- **Where these containers are open, no jump goes astray** in the statement that
the grammar takes this one for: nothing that a procedure should keep to itself is
taken by one of them, and nothing between the parentheses of a `while`, `do` or
`switch` is taken by that. -/
def ApartFirst : Phrase → List ContainerType → Prop
  | nothing, _ | containee _, _ | unfinished _ _, _ => True
  | seq a b, opened =>
    (a.ApartFirst opened ∧ a.ApartBehind opened) ∧ b.ApartFirst opened ∧ b.ApartBehind opened
  | labeled value _ _, opened => value.ApartFirst opened ∧ value.ApartBehind opened
  | ifThen condition statement, opened =>
    (condition.ApartFirst opened ∧ condition.ApartBehind opened) ∧ statement.ApartFirst opened
  | ifElse condition statement otherwise, opened =>
    (condition.ApartFirst opened ∧ condition.ApartBehind opened) ∧
      (statement.ApartFirst opened ∧ statement.ApartBehind opened) ∧ otherwise.ApartFirst opened
  | container .For _ header body, opened =>
    (header.ApartFirst opened ∧ header.ApartBehind opened) ∧ body.ApartFirst (.For :: opened)
  | container .Do _ header body, opened =>
    (body.ApartFirst (.Do :: opened) ∧ body.ApartBehind (.Do :: opened)) ∧
      (header.ApartFirst (.Do :: opened) ∧ header.ApartBehind (.Do :: opened)) ∧
        ∀ c ∈ header.loose, ContainerType.Do.takes c = false
  | container typ _ header body, opened =>
    ((header.ApartFirst (typ :: opened) ∧ header.ApartBehind (typ :: opened)) ∧
        ∀ c ∈ header.loose, typ.takes c = false) ∧
      body.ApartFirst (typ :: opened)
  | procedure body, opened =>
    (body.ApartFirst opened ∧ body.ApartBehind opened) ∧
      ∀ c ∈ body.loose, ∀ k ∈ opened, k.takes c = false

/-- None does so in the statements behind it: what belongs to a container that is
closed already is no label, and is taken by none of those that are open. -/
def ApartBehind : Phrase → List ContainerType → Prop
  | nothing, _ | seq _ _, _ | containee _, _ | procedure _, _ | unfinished _ _, _ => True
  | labeled _ _ statement, opened => statement.ApartFirst opened ∧ statement.ApartBehind opened
  | ifThen _ statement, opened | ifElse _ _ statement, opened => statement.ApartBehind opened
  | container .Do _ _ _, _ => True
  | container typ _ _ body, opened =>
    body.ApartBehind opened ∧ ∀ c ∈ body.looseBehind, typ.takes c = true →
      c.isLabel = false ∧ ∀ k ∈ opened, k.takes c = false

end

def Apart (p : Phrase) (opened : List ContainerType) : Prop :=
  p.ApartFirst opened ∧ p.ApartBehind opened

end Phrase

theorem target_cons (c : ContaineeType) (k : ContainerType × NodeId) (nest : Nest) :
    target c (k :: nest) = if k.1.takes c then some k.2 else target c nest := by
  unfold target
  rw [List.find?_cons]
  cases k.1.takes c <;> rfl

theorem target_eq_none {c : ContaineeType} {nest : Nest} :
    target c nest = none ↔ ∀ k ∈ nest.map Prod.fst, k.takes c = false := by
  unfold target
  rw [Option.map_eq_none_iff, List.find?_eq_none, List.forall_mem_map]
  simp only [Bool.not_eq_true]

theorem target_mem {c : ContaineeType} {nest : Nest} {n : NodeId} (h : target c nest = some n) :
    n ∈ nest.map Prod.snd := by
  obtain ⟨k, hk, rfl⟩ := Option.map_eq_some_iff.mp h
  exact List.mem_map_of_mem (List.mem_of_find?_eq_some hk)

/-- **The container that is found is the right one**, or it is a jump and none is
found. -/
def Agrees (c : ContaineeType) (enclosing opened : Nest) : Prop :=
  target c opened = target c enclosing ∨ (target c opened = none ∧ c.isLabel = false)

def Site.Right (x : Site) : Prop := Agrees x.containee.typ x.enclosing x.opened

theorem agrees_cons {c : ContaineeType} {k : ContainerType × NodeId} {enclosing opened : Nest} :
    Agrees c (k :: enclosing) (k :: opened) ↔
      (k.1.takes c = false → Agrees c enclosing opened) := by
  unfold Agrees
  rw [target_cons, target_cons]
  cases k.1.takes c
  · exact ⟨fun h _ => h, fun h => h rfl⟩
  · exact ⟨fun _ => nofun, fun _ => .inl rfl⟩

/-- A container that is open, and does not enclose. -/
theorem agrees_opened {c : ContaineeType} {k : ContainerType × NodeId} {enclosing opened : Nest}
    (hk : k.2 ∉ enclosing.map Prod.snd) :
    Agrees c enclosing (k :: opened) ↔ k.1.takes c = false ∧ Agrees c enclosing opened := by
  unfold Agrees
  rw [target_cons]
  cases k.1.takes c
  · exact ⟨fun h => ⟨rfl, h⟩, And.right⟩
  · refine ⟨fun h => ?_, fun h => absurd h.1.symm Bool.false_ne_true⟩
    rcases h with h | ⟨h, -⟩
    · exact absurd (target_mem h.symm) hk
    · cases h

/-- A container that encloses, and is not open any more. -/
theorem agrees_enclosing {c : ContaineeType} {k : ContainerType × NodeId}
    {enclosing opened : Nest} (hk : k.2 ∉ opened.map Prod.snd) :
    Agrees c (k :: enclosing) opened ↔
      (k.1.takes c = false → Agrees c enclosing opened) ∧
        (k.1.takes c = true →
          c.isLabel = false ∧ ∀ l ∈ opened.map Prod.fst, l.takes c = false) := by
  unfold Agrees
  rw [target_cons, ← target_eq_none]
  cases k.1.takes c
  · exact ⟨fun h => ⟨fun _ => h, fun he => absurd he Bool.false_ne_true⟩, fun h => h.1 rfl⟩
  · refine ⟨fun h => ⟨fun he => absurd he.symm Bool.false_ne_true, fun _ => ?_⟩,
      fun h => .inr (h.2 rfl).symm⟩
    rcases h with h | h
    · exact absurd (target_mem h) hk
    · exact h.symm

/-- Nothing encloses. -/
theorem agrees_nil {c : ContaineeType} {opened : Nest} :
    Agrees c [] opened ↔ ∀ k ∈ opened.map Prod.fst, k.takes c = false := by
  rw [← target_eq_none]
  exact ⟨fun h => h.elim id And.left, .inl⟩

namespace Phrase

/-- The grammar takes all the nodes, in the order of the source. -/
theorem nodes_reading (p : Phrase) (enclosing : Nest) :
    (p.first enclosing).nodes ++ (p.behind enclosing).nodes = p.nodes := by
  induction p generalizing enclosing with
  | nothing => rfl
  | seq a b iha ihb =>
    simp only [first, behind, Reading.nodes, iha, ihb, nodes, List.append_nil]
  | containee c => rfl
  | labeled value label statement ihv ihs =>
    cases label <;>
      simp only [first, behind, Reading.nodes, ihv, ihs, nodes, Option.toList, List.map_nil,
        List.map_cons, List.nil_append, List.append_assoc]
  | ifThen condition statement ihc ihs =>
    simp only [first, behind, Reading.nodes, ihc, nodes, List.append_assoc, ihs]
  | ifElse condition statement otherwise ihc ihs iho =>
    simp only [first, behind, Reading.nodes, ihc, ihs, nodes, List.append_assoc, iho]
  | container typ n header body ihh ihb =>
    cases typ <;>
      simp only [first, behind, Reading.nodes, ihh, ihb, nodes, List.append_assoc,
        List.append_nil, List.cons_append]
  | procedure body ih => simp only [first, behind, Reading.nodes, ih, nodes, List.append_nil]
  | unfinished typ parts ih =>
    simp only [first, behind, Reading.nodes, ih, nodes, List.append_nil]

/-- **The jumps of a piece find the right container** if none goes astray in it, and
those that it passes on find the right container further out. -/
def Sorts (sites : List Site) (apart : Prop) (loose : List ContaineeType)
    (enclosing opened : Nest) : Prop :=
  (∀ x ∈ sites, x.Right) ↔ apart ∧ ∀ c ∈ loose, Agrees c enclosing opened

theorem Sorts.append {L L' : List Site} {P P' : Prop} {loose loose' : List ContaineeType}
    {enclosing opened : Nest} (h : Sorts L P loose enclosing opened)
    (h' : Sorts L' P' loose' enclosing opened) :
    Sorts (L ++ L') (P ∧ P') (loose ++ loose') enclosing opened := by
  unfold Sorts at h h' ⊢
  rw [List.forall_mem_append, List.forall_mem_append, h, h']
  exact and_and_and_comm

theorem Sorts.nil {enclosing opened : Nest} : Sorts [] True [] enclosing opened :=
  ⟨fun _ => ⟨trivial, fun _ hc => absurd hc List.not_mem_nil⟩,
    fun _ _ hx => absurd hx List.not_mem_nil⟩

theorem Sorts.containee {c : Containee} {enclosing opened : Nest} :
    Sorts [⟨c, enclosing, opened⟩] True [c.typ] enclosing opened := by
  unfold Sorts
  rw [List.forall_mem_singleton, List.forall_mem_singleton]
  exact (Iff.of_eq (true_and _)).symm

/-- What a container encloses and is open for. -/
theorem Sorts.inside {L : List Site} {P : Prop} {loose : List ContaineeType}
    {typ : ContainerType} {n : NodeId} {enclosing opened : Nest}
    (h : Sorts L P loose ((typ, n) :: enclosing) ((typ, n) :: opened)) :
    Sorts L P (loose.filter fun c => !typ.takes c) enclosing opened := by
  unfold Sorts at h ⊢
  rw [h]
  refine and_congr_right fun _ => ?_
  simp only [agrees_cons, List.mem_filter, Bool.not_eq_true', and_imp]

/-- What it is open for, and does not enclose. -/
theorem Sorts.header {L : List Site} {P : Prop} {loose : List ContaineeType}
    {typ : ContainerType} {n : NodeId} {enclosing opened : Nest}
    (hn : n ∉ enclosing.map Prod.snd) (h : Sorts L P loose enclosing ((typ, n) :: opened)) :
    Sorts L (P ∧ ∀ c ∈ loose, typ.takes c = false) loose enclosing opened := by
  have hopened : ∀ c, Agrees c enclosing ((typ, n) :: opened) ↔
      typ.takes c = false ∧ Agrees c enclosing opened := fun c => agrees_opened hn
  unfold Sorts at h ⊢
  rw [h]
  simp only [hopened]
  exact ⟨fun h => ⟨⟨h.1, fun c hc => (h.2 c hc).1⟩, fun c hc => (h.2 c hc).2⟩,
    fun h => ⟨h.1.1, fun c hc => ⟨h.1.2 c hc, h.2 c hc⟩⟩⟩

/-- What it encloses, and is not open for any more. -/
theorem Sorts.behind {L : List Site} {P : Prop} {loose : List ContaineeType}
    {typ : ContainerType} {n : NodeId} {enclosing opened : Nest}
    (hn : n ∉ opened.map Prod.snd) (h : Sorts L P loose ((typ, n) :: enclosing) opened) :
    Sorts L (P ∧ ∀ c ∈ loose, typ.takes c = true →
        c.isLabel = false ∧ ∀ k ∈ opened.map Prod.fst, k.takes c = false)
      (loose.filter fun c => !typ.takes c) enclosing opened := by
  have hclosed : ∀ c, Agrees c ((typ, n) :: enclosing) opened ↔ _ := fun c => agrees_enclosing hn
  unfold Sorts at h ⊢
  rw [h]
  simp only [hclosed, List.mem_filter, Bool.not_eq_true', and_imp]
  exact ⟨fun h => ⟨⟨h.1, fun c hc => (h.2 c hc).2⟩, fun c hc => (h.2 c hc).1⟩,
    fun h => ⟨h.1.1, fun c hc => ⟨h.2 c hc, h.1.2 c hc⟩⟩⟩

theorem sorts (p : Phrase) (enclosing opened : Nest)
    (he : ∀ n ∈ p.nodes, n ∉ enclosing.map Prod.snd) (ho : ∀ n ∈ p.nodes, n ∉ opened.map Prod.snd)
    (hnd : p.nodes.Nodup) :
    Sorts ((p.first enclosing).sites opened) (p.ApartFirst (opened.map Prod.fst)) p.looseFirst
        enclosing opened ∧
      Sorts ((p.behind enclosing).sites opened) (p.ApartBehind (opened.map Prod.fst))
        p.looseBehind enclosing opened := by
  induction p generalizing enclosing opened with
  | nothing | unfinished _ _ => exact ⟨.nil, .nil⟩
  | seq a b iha ihb =>
    obtain ⟨ha, hb, -⟩ := List.nodup_append.mp hnd
    rw [nodes, List.forall_mem_append] at he ho
    obtain ⟨hfirst, hbehind⟩ := iha enclosing opened he.1 ho.1 ha
    obtain ⟨hfirst', hbehind'⟩ := ihb enclosing opened he.2 ho.2 hb
    exact ⟨(hfirst.append hbehind).append (hfirst'.append hbehind'), .nil⟩
  | containee c => exact ⟨.containee, .nil⟩
  | labeled value label statement ihv ihs =>
    obtain ⟨hv, hrest, -⟩ := List.nodup_append.mp hnd
    obtain ⟨-, hs, -⟩ := List.nodup_append.mp hrest
    rw [nodes, List.forall_mem_append, List.forall_mem_append] at he ho
    obtain ⟨hfirst, hbehind⟩ := ihv enclosing opened he.1 ho.1 hv
    obtain ⟨hfirst', hbehind'⟩ := ihs enclosing opened he.2.2 ho.2.2 hs
    refine ⟨?_, hfirst'.append hbehind'⟩
    cases label with
    | none =>
      rw [looseFirst, Option.toList_none, List.map_nil, List.append_nil]
      exact hfirst.append hbehind
    | some c =>
      have hlabel := (hfirst.append hbehind).append (.containee (c := c))
      unfold Sorts at hlabel ⊢
      rw [and_true] at hlabel
      exact hlabel
  | ifThen condition statement ihc ihs =>
    obtain ⟨hc, hs, -⟩ := List.nodup_append.mp hnd
    rw [nodes, List.forall_mem_append] at he ho
    obtain ⟨hfirst, hbehind⟩ := ihc enclosing opened he.1 ho.1 hc
    obtain ⟨hfirst', hbehind'⟩ := ihs enclosing opened he.2 ho.2 hs
    exact ⟨(hfirst.append hbehind).append hfirst', hbehind'⟩
  | ifElse condition statement otherwise ihc ihs iho =>
    obtain ⟨hc, hrest, -⟩ := List.nodup_append.mp hnd
    obtain ⟨hs, hr, -⟩ := List.nodup_append.mp hrest
    rw [nodes, List.forall_mem_append, List.forall_mem_append] at he ho
    obtain ⟨hfirst, hbehind⟩ := ihc enclosing opened he.1 ho.1 hc
    obtain ⟨hfirst', hbehind'⟩ := ihs enclosing opened he.2.1 ho.2.1 hs
    obtain ⟨hfirst'', hbehind''⟩ := iho enclosing opened he.2.2 ho.2.2 hr
    exact ⟨(hfirst.append hbehind).append ((hfirst'.append hbehind').append hfirst''), hbehind''⟩
  | container typ n header body ihh ihb =>
    have hparts : n ∈ (container typ n header body).nodes ∧
        (∀ m ∈ header.nodes, m ∈ (container typ n header body).nodes) ∧
        (∀ m ∈ body.nodes, m ∈ (container typ n header body).nodes) ∧
        n ∉ header.nodes ∧ n ∉ body.nodes ∧ header.nodes.Nodup ∧ body.nodes.Nodup := by
      cases typ <;> obtain ⟨hnot, hnd⟩ := List.nodup_cons.mp hnd <;>
        obtain ⟨h₁, h₂, -⟩ := List.nodup_append.mp hnd <;>
        rw [List.mem_append, not_or] at hnot <;>
        simp only [nodes, List.mem_cons, List.mem_append] <;> tauto
    obtain ⟨hn, hheader, hbody, hnh, hnb, hh, hb⟩ := hparts
    have hpush : ∀ {nodes : List NodeId} {nest : Nest}, n ∉ nodes →
        (∀ m ∈ nodes, m ∉ nest.map Prod.snd) →
        ∀ m ∈ nodes, m ∉ ((typ, n) :: nest).map Prod.snd := by
      intro nodes nest hnot hnest m hm
      rw [List.map_cons, List.mem_cons, not_or]
      refine ⟨fun heq => hnot ?_, hnest m hm⟩
      rw [show n = m from heq.symm]
      exact hm
    have heh := fun m hm => he m (hheader m hm)
    have heb := fun m hm => he m (hbody m hm)
    have hoh := fun m hm => ho m (hheader m hm)
    have hob := fun m hm => ho m (hbody m hm)
    -- the header is read with the container open, except that of a `for`
    have hopen := ihh enclosing ((typ, n) :: opened) heh (hpush hnh hoh) hh
    have hlate := ihh enclosing opened heh hoh hh
    have hin := ihb ((typ, n) :: enclosing) ((typ, n) :: opened) (hpush hnb heb) (hpush hnb hob) hb
    have hout := ihb ((typ, n) :: enclosing) opened (hpush hnb heb) hob hb
    have hinside := (hopen.1.append hopen.2).header (he n hn)
    cases typ
    case For => exact ⟨(hlate.1.append hlate.2).append hin.1.inside, hout.2.behind (ho n hn)⟩
    case Do => exact ⟨(hin.1.append hin.2).inside.append hinside, .nil⟩
    case While | Switch => exact ⟨hinside.append hin.1.inside, hout.2.behind (ho n hn)⟩
  | procedure body ih =>
    obtain ⟨hfirst, hbehind⟩ := ih [] opened (fun _ _ => List.not_mem_nil) ho hnd
    refine ⟨?_, .nil⟩
    have hall := hfirst.append hbehind
    unfold Sorts at hall ⊢
    simp only [agrees_nil] at hall
    exact hall.trans ⟨fun h => ⟨h, fun c hc => absurd hc List.not_mem_nil⟩, And.left⟩

/-- Outside every container, no jump is passed on. -/
theorem apart_iff (p : Phrase) (hnd : p.nodes.Nodup) :
    p.Apart [] ↔ ∀ x ∈ (p.reading []).sites [], x.Right := by
  obtain ⟨hfirst, hbehind⟩ :=
    p.sorts [] [] (fun _ _ => List.not_mem_nil) (fun _ _ => List.not_mem_nil) hnd
  refine ((hfirst.append hbehind).trans ⟨And.left, fun h => ⟨h, fun _ _ => .inl rfl⟩⟩).symm

/-- No loop or switch is ended by a syntax error. -/
def Finished : Phrase → Prop
  | nothing | containee _ => True
  | seq a b => a.Finished ∧ b.Finished
  | labeled value _ statement => value.Finished ∧ statement.Finished
  | ifThen condition statement => condition.Finished ∧ statement.Finished
  | ifElse condition statement otherwise =>
    condition.Finished ∧ statement.Finished ∧ otherwise.Finished
  | container _ _ header body => header.Finished ∧ body.Finished
  | procedure body => body.Finished
  | unfinished _ _ => False

theorem finished_reading (p : Phrase) (enclosing : Nest) :
    (p.first enclosing).Finished ∧ (p.behind enclosing).Finished ↔ p.Finished := by
  induction p generalizing enclosing with
  | nothing | containee _ => exact Iff.of_eq (true_and _)
  | seq a b iha ihb => simp only [first, behind, Reading.Finished, iha, ihb, Finished, and_true]
  | labeled value label statement ihv ihs =>
    cases label <;>
      simp only [first, behind, Reading.Finished, ihv, ihs, Finished, and_true]
  | ifThen condition statement ihc ihs =>
    simp only [first, behind, Reading.Finished, ihc, and_assoc, ihs, Finished]
  | ifElse condition statement otherwise ihc ihs iho =>
    simp only [first, behind, Reading.Finished, ihc, ihs, and_assoc, iho, Finished]
  | container typ n header body ihh ihb =>
    cases typ <;>
      simp only [first, behind, Reading.Finished, ihh, ihb, and_assoc, and_true, Finished]
  | procedure body ih => simp only [first, behind, Reading.Finished, ih, Finished, and_true]
  | unfinished typ parts ih => exact Iff.of_eq (false_and _)

/-- The switches that enclose a site in the source are among those of the phrase and
those around it. -/
theorem enclosing_within (p : Phrase) {enclosing opened opened' : Nest} {x : Site} {n : NodeId}
    (hx : x ∈ (p.first enclosing).sites opened ∨ x ∈ (p.behind enclosing).sites opened')
    (hn : (.Switch, n) ∈ x.enclosing) :
    (.Switch, n) ∈ enclosing ∨
      n ∈ (p.first enclosing).switches ∨ n ∈ (p.behind enclosing).switches := by
  induction p generalizing enclosing opened opened' with
  | nothing | unfinished _ _ => exact hx.elim nofun nofun
  | containee c =>
    rw [List.mem_singleton.mp (hx.resolve_right List.not_mem_nil)] at hn
    exact .inl hn
  | seq a b iha ihb =>
    simp only [first, behind, Reading.sites, Reading.switches, List.mem_append,
      List.not_mem_nil, or_false] at hx ⊢
    rcases hx with hx | hx
    · exact (iha hx).imp_right .inl
    · exact (ihb hx).imp_right .inr
  | labeled value label statement ihv ihs =>
    cases label with
    | none =>
      simp only [first, behind, Reading.sites, Reading.switches, List.mem_append] at hx ⊢
      rcases hx with hx | hx
      · exact (ihv hx).imp_right .inl
      · exact (ihs hx).imp_right .inr
    | some c =>
      simp only [first, behind, Reading.sites, Reading.switches, List.mem_append,
        List.mem_singleton, List.not_mem_nil, or_false] at hx ⊢
      rcases hx with (hx | hx) | hx
      · exact (ihv hx).imp_right .inl
      · rw [hx] at hn
        exact .inl hn
      · exact (ihs hx).imp_right .inr
  | ifThen condition statement ihc ihs =>
    simp only [first, behind, Reading.sites, Reading.switches, List.mem_append] at hx ⊢
    rcases hx with (hx | hx) | hx
    · exact (ihc hx).imp_right fun h => .inl (.inl h)
    · exact (@ihs _ opened opened' (.inl hx)).imp_right (.imp_left .inr)
    · exact (@ihs _ opened opened' (.inr hx)).imp_right (.imp_left .inr)
  | ifElse condition statement otherwise ihc ihs iho =>
    simp only [first, behind, Reading.sites, Reading.switches, List.mem_append] at hx ⊢
    rcases hx with (hx | hx | hx) | hx
    · exact (ihc hx).imp_right fun h => .inl (.inl h)
    · exact (ihs hx).imp_right fun h => .inl (.inr (.inl h))
    · exact (@iho _ opened opened' (.inl hx)).imp_right (.imp_left fun h => .inr (.inr h))
    · exact (@iho _ opened opened' (.inr hx)).imp_right (.imp_left fun h => .inr (.inr h))
  | container typ m header body ihh ihb =>
    have hheader : ∀ o, x ∈ (header.first enclosing).sites o ∨
        x ∈ (header.behind enclosing).sites o → _ := fun o h => @ihh enclosing o o h
    have hbody : ∀ o o', x ∈ (body.first ((typ, m) :: enclosing)).sites o ∨
        x ∈ (body.behind ((typ, m) :: enclosing)).sites o' → _ :=
      fun o o' h => @ihb ((typ, m) :: enclosing) o o' h
    simp only [List.mem_cons] at hbody
    cases typ <;>
      simp only [first, behind, Reading.sites, Reading.switches, List.mem_append,
        List.mem_cons, List.not_mem_nil, or_false, Prod.mk.injEq, reduceCtorEq, false_and,
        false_or, true_and] at hx hbody ⊢
    case For =>
      rcases hx with (hx | hx) | hx
      · exact (hheader _ hx).imp_right fun h => .inl (.inl h)
      · exact (hbody _ opened' (.inl hx)).imp_right (.imp_left .inr)
      · exact (hbody opened _ (.inr hx)).imp_right (.imp_left .inr)
    case While =>
      rcases hx with (hx | hx) | hx
      · exact (hheader _ hx).imp_right fun h => .inl (.inl h)
      · exact (hbody _ opened' (.inl hx)).imp_right (.imp_left .inr)
      · exact (hbody opened _ (.inr hx)).imp_right (.imp_left .inr)
    case Do =>
      rcases hx with hx | hx
      · exact (hbody _ _ hx).imp_right .inl
      · exact (hheader _ hx).imp_right .inr
    case Switch =>
      rcases hx with (hx | hx) | hx
      · exact (hheader _ hx).imp_right fun h => .inl (.inr (.inl h))
      · have hin := hbody _ opened' (.inl hx)
        tauto
      · have hin := hbody opened _ (.inr hx)
        tauto
  | procedure body ih =>
    simp only [first, behind, Reading.sites, Reading.switches, List.mem_append,
      List.not_mem_nil, or_false] at hx ⊢
    exact .inr ((@ih [] opened opened hx).resolve_left List.not_mem_nil)

end Phrase

/-! ## Source files -/

/-- With no container open, an error is reported for each containee. -/
theorem addAll_nil (cs : List Containee) {σ : State} (h : σ.stack = []) :
    (addAll cs σ).stack = [] ∧
      (addAll cs σ).errors = σ.errors ++ cs.map fun c => (c.node, noContainer c.typ) := by
  induction cs generalizing σ with
  | nil => exact ⟨h, (List.append_nil _).symm⟩
  | cons c cs ih =>
    have hadd : AddContainee c σ =
        { σ with stack := [], errors := σ.errors ++ [(c.node, noContainer c.typ)] } := by
      rw [← addContainee_nil, ← h]
    show (addAll cs (AddContainee c σ)).stack = [] ∧ (addAll cs (AddContainee c σ)).errors = _
    rw [hadd]
    refine ⟨(ih rfl).1, (ih rfl).2.trans ?_⟩
    rw [List.append_assoc]
    rfl

namespace Phrase

/-- What the grammar makes of some definitions, put one after the other. -/
def ofList (ds : List Phrase) : Reading :=
  ds.foldr (fun d r => .seq (d.reading []) r) .nothing

theorem parse_ofList (ds : List Phrase) : parse (ofList ds) = parseAll ds := by
  induction ds with
  | nil => rfl
  | cons d ds ih =>
    funext σ
    show (parse (d.reading []) σ).bind (parse (ofList ds)) = (parse _ σ).bind (parseAll ds)
    rw [ih]

theorem sites_ofList (ds : List Phrase) :
    (ofList ds).sites [] = ds.flatMap fun d => (d.reading []).sites [] := by
  induction ds with
  | nil => rfl
  | cons d ds ih =>
    rw [List.flatMap_cons, ← ih]
    rfl

theorem switches_ofList (ds : List Phrase) :
    (ofList ds).switches = ds.flatMap fun d => (d.reading []).switches := by
  induction ds with
  | nil => rfl
  | cons d ds ih =>
    rw [List.flatMap_cons, ← ih]
    rfl

theorem nodes_ofList (ds : List Phrase) : (ofList ds).nodes = ds.flatMap Phrase.nodes := by
  induction ds with
  | nil => rfl
  | cons d ds ih =>
    rw [List.flatMap_cons, ← ih, ← d.nodes_reading []]
    rfl

theorem finished_ofList (ds : List Phrase) : (ofList ds).Finished ↔ ∀ d ∈ ds, d.Finished := by
  induction ds with
  | nil => exact ⟨fun _ d hd => absurd hd List.not_mem_nil, fun _ => trivial⟩
  | cons d ds ih =>
    rw [List.forall_mem_cons, ← ih, ← d.finished_reading []]
    rfl

theorem depth_ofList (ds : List Phrase) {m : ℕ} :
    (ofList ds).depth ≤ m ↔ ∀ d ∈ ds, (d.reading []).depth ≤ m := by
  induction ds with
  | nil => exact ⟨fun _ d hd => absurd hd List.not_mem_nil, fun _ => Nat.zero_le m⟩
  | cons d ds ih =>
    rw [List.forall_mem_cons, ← ih]
    exact max_le_iff

end Phrase

namespace SourceFile

variable (F : SourceFile)

/-- **A file that is parsed** leaves the stack empty, and has done its work. -/
theorem parses {ds : List Phrase} (hds : ds.Sublist F.definitions)
    (h : ∀ d ∈ ds, d.Finished ∧ (d.reading []).depth ≤ MAX_SCOPE_DEPTH) :
    ∃ σ, parseAll ds .initial = some σ ∧ σ.stack = [] ∧
      Done (ds.flatMap fun d => (d.reading []).sites [])
        (ds.flatMap fun d => (d.reading []).switches) .initial σ := by
  have hnd : (Phrase.ofList ds).nodes.Nodup := by
    rw [Phrase.nodes_ofList]
    exact F.nodup.sublist (hds.flatMap _)
  have hroom : (Phrase.ofList ds).depth ≤ MAX_SCOPE_DEPTH :=
    (Phrase.depth_ofList ds).mpr fun d hd => (h d hd).2
  obtain ⟨σ, hrun, hdone⟩ := (Phrase.ofList ds).parses hnd
    ((Phrase.finished_ofList ds).mpr fun d hd => (h d hd).1) .initial
    (by rw [show State.initial.stack.length = 0 from rfl, Nat.zero_add]; exact hroom)
  rw [Phrase.parse_ofList] at hrun
  rw [Phrase.sites_ofList, Phrase.switches_ofList] at hdone
  exact ⟨σ, hrun, hdone.stack.trans (addAll_nil _ rfl).1, hdone⟩

theorem within : Within F.sites F.switches (F.definitions.flatMap Phrase.nodes) := by
  have hw := (Phrase.ofList F.definitions).within (by
    rw [Phrase.nodes_ofList]
    exact F.nodup)
  rw [Phrase.sites_ofList, Phrase.switches_ofList, Phrase.nodes_ofList] at hw
  exact hw

/-- A node has an error exactly if its jump is in no open container that takes
it. -/
theorem error_iff {σ : State} (h : Done F.sites F.switches .initial σ) {x : Site}
    (hx : x ∈ F.sites) :
    (∃ text, (x.containee.node, text) ∈ σ.errors) ↔ x.found = none := by
  have herrors : σ.errors = (free F.sites).map fun c => (c.node, noContainer c.typ) :=
    h.errors.trans (addAll_nil _ rfl).2
  rw [herrors]
  constructor
  · rintro ⟨text, htext⟩
    obtain ⟨c, hc, he⟩ := List.mem_map.mp htext
    obtain ⟨y, hy, rfl⟩ := List.mem_map.mp hc
    rw [List.mem_filter, decide_eq_true_eq] at hy
    rw [← F.within.unique y hy.1 x hx (Prod.mk.inj he).1]
    exact hy.2
  · intro hfree
    exact ⟨_, List.mem_map.mpr ⟨x.containee, List.mem_map.mpr
      ⟨x, List.mem_filter.mpr ⟨hx, decide_eq_true hfree⟩, rfl⟩, rfl⟩⟩

/-- The switch that a label should be linked to is one of the file. -/
theorem switch_of_label {x : Site} (hx : x ∈ F.sites) (hlabel : x.containee.isLabel = true)
    {n : NodeId} (hn : x.proper = some n) : n ∈ F.switches := by
  obtain ⟨d, hd, hx⟩ := List.mem_flatMap.mp hx
  obtain ⟨k, hk, rfl⟩ := Option.map_eq_some_iff.mp hn
  have hswitch : k.1 = .Switch := by
    have htakes := List.find?_some hk
    unfold Containee.isLabel at hlabel
    revert htakes hlabel
    cases x.containee.typ <;> simp [ContaineeType.isLabel, ContainerType.takes]
  have henclosing : (.Switch, k.2) ∈ x.enclosing := hswitch ▸ List.mem_of_find?_eq_some hk
  refine List.mem_flatMap.mpr ⟨d, hd, List.mem_append.mpr ?_⟩
  exact (d.enclosing_within (List.mem_append.mp hx) henclosing).resolve_left List.not_mem_nil

/-- **Where jump targets are resolved**: in the files in which no loop or
switch is ended by a syntax error, there is room for the containers, and no
jump goes astray. -/
theorem resolved_iff : F.Resolved ↔ ∀ d ∈ F.definitions,
    d.Finished ∧ (d.reading []).depth ≤ MAX_SCOPE_DEPTH ∧ d.Apart [] := by
  have hapart : (∀ d ∈ F.definitions, d.Apart []) ↔ ∀ x ∈ F.sites, x.Right := by
    have hnd : ∀ d ∈ F.definitions, d.nodes.Nodup := fun d hd =>
      (List.nodup_flatMap.mp F.nodup).1 d hd
    unfold sites
    rw [List.forall_mem_flatMap]
    exact forall₂_congr fun d hd => d.apart_iff (hnd d hd)
  constructor
  · intro h
    have hfinished : (∀ d ∈ F.definitions, d.Finished) ∧
        ∀ d ∈ F.definitions, (d.reading []).depth ≤ MAX_SCOPE_DEPTH := by
      obtain ⟨σ, hrun, hempty⟩ := h.balanced F.definitions [] (List.append_nil _).symm
      rw [← Phrase.parse_ofList] at hrun
      have hfits := (Phrase.ofList F.definitions).fits
      have hlength := (hfits.length _ _ hrun (Nat.zero_le _)).1
      rw [hempty, show State.initial.stack.length = 0 from rfl, Nat.zero_add] at hlength
      have hfinished := (Phrase.ofList F.definitions).finished_of_left hlength.symm
      have hdepth := hfits.depth hfinished _ _ hrun (Nat.zero_le _)
      rw [show State.initial.stack.length = 0 from rfl, Nat.zero_add] at hdepth
      exact ⟨(Phrase.finished_ofList _).mp hfinished, (Phrase.depth_ofList _).mp hdepth⟩
    obtain ⟨σ, hrun, -, hdone⟩ := F.parses (List.Sublist.refl _)
      fun d hd => ⟨hfinished.1 d hd, hfinished.2 d hd⟩
    have hright : ∀ x ∈ F.sites, x.Right := by
      intro x hx
      rcases h.jumps σ hrun x hx with ⟨n, hproper, hlink⟩ | herror
      · rcases hf : x.found with _ | k
        · -- nothing but a container that is found sets the link
          have hunlinked := hdone.unlinked x.containee.node fun y hy he => by
            rw [F.within.unique y hy x hx he]
            exact hf
          rw [hlink] at hunlinked
          cases hunlinked
        · have hlinked := hdone.linked x hx k hf
          rw [hlink] at hlinked
          exact .inl (hf.trans (hlinked.symm.trans hproper.symm))
      · have hnone := (F.error_iff hdone hx).mp herror
        rcases hlabel : x.containee.isLabel with _ | _
        · exact .inr ⟨hnone, hlabel⟩
        · refine .inl (hnone.trans (Eq.symm (Option.eq_none_iff_forall_not_mem.mpr fun n hn => ?_)))
          -- the list of its switch would have it
          have hswitch := F.switch_of_label hx hlabel hn
          have hmem : x.containee.node ∈ σ.cases n := by
            rw [h.cases σ hrun n hswitch]
            exact List.mem_map_of_mem (List.mem_filter.mpr ⟨hx, decide_eq_true ⟨hlabel, hn⟩⟩)
          rw [hdone.cases n hswitch] at hmem
          obtain ⟨y, hy, he⟩ := List.mem_map.mp hmem
          obtain ⟨hy, hfound⟩ := List.mem_filter.mp hy
          rw [F.within.unique y hy x hx he, hnone, Bool.and_eq_true] at hfound
          cases of_decide_eq_true hfound.2
    exact fun d hd => ⟨hfinished.1 d hd, hfinished.2 d hd, hapart.mpr hright d hd⟩
  · intro h
    have hright := hapart.mp fun d hd => (h d hd).2.2
    have hlabels : ∀ x ∈ F.sites, x.containee.isLabel = true → x.found = x.proper :=
      fun x hx hlabel => (hright x hx).resolve_right fun hnone => by
        rw [show x.containee.typ.isLabel = true from hlabel] at hnone
        cases hnone.2
    obtain ⟨σ, hrun, -, hdone⟩ := F.parses (List.Sublist.refl _)
      fun d hd => ⟨(h d hd).1, (h d hd).2.1⟩
    have honly : ∀ σ', parseAll F.definitions .initial = some σ' → σ' = σ :=
      fun σ' hrun' => Option.some.inj (hrun'.symm.trans hrun)
    constructor
    case balanced =>
      intro ds ds' hds
      obtain ⟨σ', hrun', hempty, -⟩ := F.parses (hds ▸ List.sublist_append_left ds ds')
        fun d hd =>
          have hd := h d (hds ▸ List.mem_append_left ds' hd)
          ⟨hd.1, hd.2.1⟩
      exact ⟨σ', hrun', hempty⟩
    case jumps =>
      intro σ' hrun' x hx
      rw [honly σ' hrun']
      rcases hf : x.found with _ | k
      · exact .inr ((F.error_iff hdone hx).mpr hf)
      · refine .inl ⟨k, ?_, hdone.linked x hx k hf⟩
        have hsame := (hright x hx).resolve_right fun hnone =>
          Option.some_ne_none k (hf.symm.trans hnone.1)
        exact hsame.symm.trans hf
    case cases =>
      intro σ' hrun' n hn
      rw [honly σ' hrun', hdone.cases n hn]
      refine congrArg (List.map _) (List.filter_congr fun x hx => ?_)
      rw [Bool.eq_iff_iff, Bool.and_eq_true, decide_eq_true_eq, decide_eq_true_eq]
      exact and_congr_right fun hlabel => by rw [hlabels x hx hlabel]
    case has_default =>
      intro σ' hrun' n hn
      rw [honly σ' hrun', hdone.has_default n hn]
      refine exists_congr fun x => and_congr_right fun hx => and_congr_right fun htyp => ?_
      rw [hlabels x hx (by unfold Containee.isLabel; rw [htyp]; rfl)]

/-- A `break` in an inlet, outside every loop of it, leaves the loop around
the inlet without an error. -/
theorem not_resolved_inlet_break : ¬ SourceFile.Resolved
    ⟨[.procedure (.container .While 1 .nothing
        (.seq (.procedure (.seq (.containee ⟨.Break, 2⟩) .nothing)) .nothing))],
      by simp [Phrase.Grammatical], by decide⟩ := by
  intro h
  rcases h.jumps _ rfl ⟨⟨.Break, 2⟩, [], [(.While, 1)]⟩ (by decide) with
    ⟨n, hproper, -⟩ | ⟨text, herror⟩
  · cases hproper
  · cases herror

/-- In `while (..) { while (..) L: break; }` the inner loop ends at the colon. -/
example : ((Phrase.container .While 1 .nothing (.seq (.container .While 2 .nothing
    (.labeled .nothing none (.containee ⟨.Break, 3⟩))) .nothing)).reading []).sites [] =
      [⟨⟨.Break, 3⟩, [(.While, 2), (.While, 1)], [(.While, 1)]⟩] := by decide

end SourceFile

end Cilk.Containers
