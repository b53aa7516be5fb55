import Cilk.Containers.Model
import Mathlib.Tactic.Basic

/-!
# Jumps and the containers they are linked to

What the links should be is read off the source: the containers that enclose
a jump within its procedure, and of these the innermost that takes it. What is
between the parentheses of a loop or switch is not enclosed by it: a jump in a
statement expression there leaves for a container further out.

What the parser links a jump to is the innermost that takes it of the containers
on the stack, which are not quite the same: a procedure does not hide the
containers around it, a `while`, `do` or `switch` is on the stack when its header
is read, and one whose body begins with a label is not any more when the statement
behind the label is.
-/

namespace Cilk.Containers

open Symbols (MAX_SCOPE_DEPTH)

/-! ## What the links should be -/

/-- A container of this type takes this jump or label. -/
def ContainerType.takes (typ : ContainerType) : ContaineeType → Bool
  | .Break => true
  | .Continue => typ ≠ .Switch
  | .Case | .Default => typ = .Switch

/-- The innermost container that takes it. -/
def target (c : ContaineeType) (nest : Nest) : Option NodeId :=
  (nest.find? fun k => k.1.takes c).map Prod.snd

/-- A jump or label of the source, with the containers that enclose it within
its procedure or inlet, and with those that are open where it is read. -/
structure Site where
  containee : Containee
  enclosing : Nest
  opened : Nest
  deriving DecidableEq

namespace Site

/-- Where it should be linked to. -/
def proper (x : Site) : Option NodeId := target x.containee.typ x.enclosing

/-- The innermost container that takes it and is open. -/
def found (x : Site) : Option NodeId := target x.containee.typ x.opened

end Site

namespace Reading

/-- The nodes, in the order in which they are parsed. -/
def nodes : Reading → List NodeId
  | nothing => []
  | seq a b => a.nodes ++ b.nodes
  | containee c _ => [c.node]
  | container .Do n header body => n :: (body.nodes ++ header.nodes)
  | container _ n header body => n :: (header.nodes ++ body.nodes)
  | unfinished _ parts => parts.nodes

/-- **The jumps and labels**, in the order of the source. -/
def sites : Reading → Nest → List Site
  | nothing, _ => []
  | seq a b, opened => a.sites opened ++ b.sites opened
  | containee c enclosing, opened => [⟨c, enclosing, opened⟩]
  | container .For n header body, opened => header.sites opened ++ body.sites ((.For, n) :: opened)
  | container .Do n header body, opened =>
    body.sites ((.Do, n) :: opened) ++ header.sites ((.Do, n) :: opened)
  | container typ n header body, opened =>
    header.sites ((typ, n) :: opened) ++ body.sites ((typ, n) :: opened)
  | unfinished _ _, _ => []

/-- The switches. -/
def switches : Reading → List NodeId
  | nothing | containee _ _ | unfinished _ _ => []
  | seq a b => a.switches ++ b.switches
  | container .Switch n header body => n :: (header.switches ++ body.switches)
  | container .Do _ header body => body.switches ++ header.switches
  | container _ _ header body => header.switches ++ body.switches

/-- No loop or switch is ended by a syntax error. -/
def Finished : Reading → Prop
  | nothing | containee _ _ => True
  | seq a b => a.Finished ∧ b.Finished
  | container _ _ header body => header.Finished ∧ body.Finished
  | unfinished _ _ => False

/-- The most containers that are open at a time. -/
def depth : Reading → ℕ
  | nothing | containee _ _ => 0
  | seq a b => max a.depth b.depth
  | container .For _ header body => max header.depth (body.depth + 1)
  | container _ _ header body => max header.depth body.depth + 1
  | unfinished _ parts => parts.depth + 1

end Reading

namespace SourceFile

def sites (F : SourceFile) : List Site := F.definitions.flatMap fun d => (d.reading []).sites []

def switches (F : SourceFile) : List NodeId :=
  F.definitions.flatMap fun d => (d.reading []).switches

/-- **Jump targets are resolved**: the parser stays within the bounds of the
stack, which is empty between definitions; each jump and label is linked to
the innermost container that should take it, or an error is reported for it;
and each switch has the list of its labels, and knows if there is a default. -/
structure Resolved (F : SourceFile) : Prop where
  balanced : ∀ ds ds', F.definitions = ds ++ ds' →
    ∃ σ, parseAll ds .initial = some σ ∧ σ.stack = []
  jumps : ∀ σ, parseAll F.definitions .initial = some σ → ∀ x ∈ F.sites,
    (∃ n, x.proper = some n ∧ σ.container x.containee.node = some n) ∨
      ∃ text, (x.containee.node, text) ∈ σ.errors
  cases : ∀ σ, parseAll F.definitions .initial = some σ → ∀ n ∈ F.switches,
    σ.cases n = (F.sites.filter fun x => x.containee.isLabel ∧ x.proper = some n).map
      fun x => x.containee.node
  has_default : ∀ σ, parseAll F.definitions .initial = some σ → ∀ n ∈ F.switches,
    σ.has_default n = true ↔
      ∃ x ∈ F.sites, x.containee.typ = .Default ∧ x.proper = some n

end SourceFile

/-! ## Containees on their way to a container -/

/-- The containees are added one after the other. -/
def addAll (cs : List Containee) (σ : State) : State :=
  cs.foldl (fun σ c => AddContainee c σ) σ

/-- The container with the containees it takes. -/
def Container.fill (k : Container) (cs : List Containee) : Container :=
  { k with
    cases := k.cases ++ cs.filter fun c => k.typ.takes c.typ && c.isLabel
    exits := k.exits ++ cs.filter fun c => k.typ.takes c.typ && !c.isLabel }

/-- The containees that a container of this type does not take. -/
def pass (typ : ContainerType) (cs : List Containee) : List Containee :=
  cs.filter fun c => !typ.takes c.typ

theorem place_nil (c : Containee) : place c [] = none := by
  unfold place
  cases c.typ <;> rfl

/-- The container at the top takes what it can, and passes the rest. -/
theorem place_cons (c : Containee) (k : Container) (stack : List Container) :
    place c (k :: stack) =
      if k.typ.takes c.typ then some (k.fill [c] :: stack) else (place c stack).map (k :: ·) := by
  obtain ⟨typ, node⟩ := c
  obtain ⟨ktyp, cases, exits⟩ := k
  cases typ <;> cases ktyp <;>
    simp [place, changeFirst, ContainerType.takes, Container.fill, Containee.isLabel, ContaineeType.isLabel, addCase,
      addExit]

section

variable (c : Containee) (cs ds : List Containee) (k : Container) (σ : State)

theorem addContainee_container : (AddContainee c σ).container = σ.container := by
  unfold AddContainee
  split <;> rfl

theorem addContainee_cases : (AddContainee c σ).cases = σ.cases := by
  unfold AddContainee
  split <;> rfl

theorem addContainee_has_default : (AddContainee c σ).has_default = σ.has_default := by
  unfold AddContainee
  split <;> rfl

theorem addContainee_cons (stack : List Container) :
    AddContainee c { σ with stack := k :: stack } =
      if k.typ.takes c.typ then { σ with stack := k.fill [c] :: stack }
      else { AddContainee c { σ with stack := stack } with
        stack := k :: (AddContainee c { σ with stack := stack }).stack } := by
  unfold AddContainee
  dsimp only
  rw [place_cons]
  by_cases h : k.typ.takes c.typ = true
  · rw [if_pos h, if_pos h]
  · rw [if_neg h, if_neg h]
    cases place c stack <;> rfl

theorem addContainee_nil :
    AddContainee c { σ with stack := [] } =
      { σ with stack := [], errors := σ.errors ++ [(c.node, noContainer c.typ)] } := by
  unfold AddContainee
  dsimp only
  rw [place_nil]

theorem addAll_append : addAll (cs ++ ds) σ = addAll ds (addAll cs σ) :=
  List.foldl_append ..

theorem fill_append : k.fill (cs ++ ds) = (k.fill cs).fill ds := by
  simp [Container.fill]

theorem fill_nil : k.fill [] = k := by
  simp [Container.fill]

theorem fill_of_not_takes (h : k.typ.takes c.typ = false) : k.fill [c] = k := by
  simp [Container.fill, h]

/-- The container at the top takes what it can, and passes the rest. -/
theorem addAll_cons (stack : List Container) :
    addAll cs { σ with stack := k :: stack } =
      { addAll (pass k.typ cs) { σ with stack := stack } with
        stack := k.fill cs :: (addAll (pass k.typ cs) { σ with stack := stack }).stack } := by
  induction cs generalizing k σ stack with
  | nil => rw [fill_nil]; rfl
  | cons c cs ih =>
    show addAll cs (AddContainee c { σ with stack := k :: stack }) = _
    rw [addContainee_cons, show c :: cs = [c] ++ cs from rfl, fill_append]
    by_cases h : k.typ.takes c.typ = true
    · rw [if_pos h, ih]
      have hpass : pass k.typ ([c] ++ cs) = pass k.typ cs := by simp [pass, h]
      rw [hpass]
      rfl
    · rw [if_neg h, fill_of_not_takes c k (Bool.eq_false_of_not_eq_true h), ih]
      have hpass : pass k.typ ([c] ++ cs) = c :: pass k.typ cs := by simp [pass, h]
      rw [hpass]
      rfl

end

/-! ## The containers on the stack -/

namespace Site

/-- The site as it is seen with some more containers open around it. -/
def around (x : Site) (outer : Nest) : Site := { x with opened := x.opened ++ outer }

theorem found_around (x : Site) (outer : Nest) :
    (x.around outer).found = x.found.or (target x.containee.typ outer) := by
  unfold found around target
  dsimp only
  rw [List.find?_append]
  cases x.opened.find? fun k => k.1.takes x.containee.typ <;> rfl

end Site

namespace Reading

theorem sites_opened (p : Reading) (inner outer : Nest) :
    p.sites (inner ++ outer) = (p.sites inner).map fun x => x.around outer := by
  induction p generalizing inner with
  | nothing => rfl
  | seq a b iha ihb => rw [sites, sites, List.map_append, iha, ihb]
  | containee c enclosing => rfl
  | container typ n header body ihh ihb =>
    cases typ <;> simp only [sites, List.map_append, ← List.cons_append, ihh, ihb]
  | unfinished typ parts => rfl

/-- The sites of a piece, and the containers they find, are among its nodes
and the containers around it. -/
theorem sites_within (p : Reading) {opened : Nest} {x : Site} (hx : x ∈ p.sites opened) :
    x.containee.node ∈ p.nodes ∧
      ∀ n, x.found = some n → n ∈ p.nodes ∨ n ∈ opened.map Prod.snd := by
  induction p generalizing opened with
  | nothing => cases hx
  | seq a b iha ihb =>
    rw [nodes]
    rcases List.mem_append.mp hx with hx | hx
    · obtain ⟨hnode, hfound⟩ := iha hx
      exact ⟨List.mem_append_left _ hnode,
        fun n hn => (hfound n hn).imp_left (List.mem_append_left _)⟩
    · obtain ⟨hnode, hfound⟩ := ihb hx
      exact ⟨List.mem_append_right _ hnode,
        fun n hn => (hfound n hn).imp_left (List.mem_append_right _)⟩
  | containee c enclosing =>
    rw [List.mem_singleton.mp hx]
    refine ⟨List.mem_singleton_self _, fun n hn => .inr ?_⟩
    obtain ⟨k, hk, rfl⟩ := Option.map_eq_some_iff.mp hn
    exact List.mem_map_of_mem (List.mem_of_find?_eq_some hk)
  | container typ m header body ihh ihb =>
    -- the container itself is among the nodes, and may be open around its parts
    have hparts : ∀ o, x ∈ header.sites o ∨ x ∈ body.sites o →
        (x.containee.node ∈ header.nodes ∨ x.containee.node ∈ body.nodes) ∧
          ∀ n, x.found = some n →
            (n ∈ header.nodes ∨ n ∈ body.nodes) ∨ n ∈ o.map Prod.snd := by
      intro o hx
      rcases hx with hx | hx
      · obtain ⟨hnode, hfound⟩ := ihh hx
        exact ⟨.inl hnode, fun n hn => (hfound n hn).imp_left .inl⟩
      · obtain ⟨hnode, hfound⟩ := ihb hx
        exact ⟨.inr hnode, fun n hn => (hfound n hn).imp_left .inr⟩
    cases typ <;> simp only [sites, nodes, List.mem_append, List.mem_cons] at hx ⊢
    case For =>
      rcases hx with hx | hx
      · obtain ⟨hnode, hfound⟩ := hparts _ (.inl hx)
        exact ⟨.inr hnode, fun n hn => (hfound n hn).imp_left .inr⟩
      · obtain ⟨hnode, hfound⟩ := hparts _ (.inr hx)
        refine ⟨.inr hnode, fun n hn => ?_⟩
        have hn := hfound n hn
        rw [List.map_cons, List.mem_cons] at hn
        tauto
    all_goals
      obtain ⟨hnode, hfound⟩ := hparts _ (by tauto)
      refine ⟨by tauto, fun n hn => ?_⟩
      have hn := hfound n hn
      rw [List.map_cons, List.mem_cons] at hn
      tauto
  | unfinished typ parts => cases hx

theorem switches_within (p : Reading) {n : NodeId} (hn : n ∈ p.switches) : n ∈ p.nodes := by
  induction p with
  | nothing => cases hn
  | seq a b iha ihb =>
    rcases List.mem_append.mp hn with hn | hn
    · exact List.mem_append_left _ (iha hn)
    · exact List.mem_append_right _ (ihb hn)
  | containee c enclosing => cases hn
  | container typ m header body ihh ihb =>
    have hparts : n ∈ header.switches ++ body.switches → n ∈ header.nodes ∨ n ∈ body.nodes :=
      fun h => (List.mem_append.mp h).imp ihh ihb
    cases typ <;> simp only [switches, nodes, List.mem_cons, List.mem_append] at hn hparts ⊢ <;>
      tauto
  | unfinished typ parts => cases hn

end Reading

/-! ## What a piece of the parse does -/

/-- The jumps and labels that are passed on to the containers around. -/
def free (L : List Site) : List Containee :=
  (L.filter fun x => x.found = none).map Site.containee

/-- The labels that a switch gets. -/
def labels (L : List Site) (n : NodeId) : List NodeId :=
  (L.filter fun x => x.containee.isLabel && x.found = some n).map fun x => x.containee.node

/-- A piece of the parse has linked the sites that find a container in it, has
set the fields of its switches, and has passed on the other sites. -/
structure Done (L : List Site) (switches : List NodeId) (σ σ' : State) : Prop where
  stack : σ'.stack = (addAll (free L) σ).stack
  errors : σ'.errors = (addAll (free L) σ).errors
  linked : ∀ x ∈ L, ∀ n, x.found = some n → σ'.container x.containee.node = some n
  unlinked : ∀ m, (∀ x ∈ L, x.containee.node = m → x.found = none) →
    σ'.container m = σ.container m
  cases : ∀ n ∈ switches, σ'.cases n = labels L n
  cases_other : ∀ n ∉ switches, σ'.cases n = σ.cases n
  has_default : ∀ n ∈ switches, σ'.has_default n = true ↔
    ∃ x ∈ L, x.containee.typ = .Default ∧ x.found = some n
  has_default_other : ∀ n ∉ switches, σ'.has_default n = σ.has_default n

/-- The nodes that the sites and switches of a piece of the parse mention. -/
structure Within (L : List Site) (switches nodes : List NodeId) : Prop where
  node : ∀ x ∈ L, x.containee.node ∈ nodes
  found : ∀ x ∈ L, ∀ n, x.found = some n → n ∈ nodes
  switch : ∀ n ∈ switches, n ∈ nodes
  unique : ∀ x ∈ L, ∀ y ∈ L, x.containee.node = y.containee.node → x = y

namespace Done

theorem nothing (σ : State) : Done [] [] σ σ where
  stack := rfl
  errors := rfl
  linked _ hx := absurd hx List.not_mem_nil
  unlinked _ _ := rfl
  cases _ hn := absurd hn List.not_mem_nil
  cases_other _ _ := rfl
  has_default _ hn := absurd hn List.not_mem_nil
  has_default_other _ _ := rfl

theorem containee (c : Containee) (enclosing : Nest) (σ : State) :
    Done [⟨c, enclosing, []⟩] [] σ (AddContainee c σ) where
  stack := rfl
  errors := rfl
  linked x hx n hn := by
    rw [List.mem_singleton.mp hx] at hn
    cases hn
  unlinked m _ := congrFun (addContainee_container c σ) m
  cases _ hn := absurd hn List.not_mem_nil
  cases_other n _ := congrFun (addContainee_cases c σ) n
  has_default _ hn := absurd hn List.not_mem_nil
  has_default_other n _ := congrFun (addContainee_has_default c σ) n

theorem free_append (L L' : List Site) : free (L ++ L') = free L ++ free L' := by
  unfold free
  rw [List.filter_append, List.map_append]

theorem labels_append (L L' : List Site) (n : NodeId) :
    labels (L ++ L') n = labels L n ++ labels L' n := by
  unfold labels
  rw [List.filter_append, List.map_append]

theorem labels_eq_nil {L : List Site} {n : NodeId} (h : ∀ x ∈ L, x.found ≠ some n) :
    labels L n = [] := by
  unfold labels
  rw [List.map_eq_nil_iff, List.filter_eq_nil_iff]
  intro x hx
  simp [h x hx]

/-- What is done with the containees only depends on the stack. -/
theorem addAll_congr {cs : List Containee} {σ σ' : State} (hstack : σ'.stack = σ.stack)
    (herrors : σ'.errors = σ.errors) :
    (addAll cs σ').stack = (addAll cs σ).stack ∧
      (addAll cs σ').errors = (addAll cs σ).errors := by
  induction cs generalizing σ σ' with
  | nil => exact ⟨hstack, herrors⟩
  | cons c cs ih =>
    refine ih ?_ ?_
    · show (AddContainee c σ').stack = (AddContainee c σ).stack
      unfold AddContainee
      rw [hstack]
      cases place c σ.stack <;> rfl
    · show (AddContainee c σ').errors = (AddContainee c σ).errors
      unfold AddContainee
      rw [hstack]
      cases place c σ.stack
      · exact congrArg (· ++ [(c.node, noContainer c.typ)]) herrors
      · exact herrors

/-- **One piece of the parse after the other.** -/
theorem seq {L L' : List Site} {switches switches' nodes nodes' : List NodeId}
    {σ σ₁ σ' : State} (h : Done L switches σ σ₁) (h' : Done L' switches' σ₁ σ')
    (hw : Within L switches nodes) (hw' : Within L' switches' nodes')
    (hdisjoint : ∀ n ∈ nodes, n ∉ nodes') :
    Done (L ++ L') (switches ++ switches') σ σ' where
  stack := by
    rw [h'.stack, free_append, addAll_append]
    exact (addAll_congr h.stack h.errors).1
  errors := by
    rw [h'.errors, free_append, addAll_append]
    exact (addAll_congr h.stack h.errors).2
  linked x hx n hn := by
    rcases List.mem_append.mp hx with hx | hx
    · rw [h'.unlinked, h.linked x hx n hn]
      intro y hy he
      exact absurd (he ▸ hw'.node y hy) (hdisjoint _ (hw.node x hx))
    · exact h'.linked x hx n hn
  unlinked m hm := by
    rw [h'.unlinked m fun x hx => hm x (List.mem_append_right _ hx),
      h.unlinked m fun x hx => hm x (List.mem_append_left _ hx)]
  cases n hn := by
    rw [labels_append]
    rcases List.mem_append.mp hn with hn | hn
    · have hnot := hdisjoint n (hw.switch n hn)
      rw [h'.cases_other n fun hn' => hnot (hw'.switch n hn'), h.cases n hn,
        labels_eq_nil fun x hx he => hnot (hw'.found x hx n he), List.append_nil]
    · have hin := hw'.switch n hn
      rw [h'.cases n hn,
        labels_eq_nil fun x hx he => hdisjoint n (hw.found x hx n he) hin, List.nil_append]
  cases_other n hn := by
    rw [h'.cases_other n fun hn' => hn (List.mem_append_right _ hn'),
      h.cases_other n fun hn' => hn (List.mem_append_left _ hn')]
  has_default n hn := by
    simp only [List.mem_append, or_and_right, exists_or]
    rcases List.mem_append.mp hn with hn | hn
    · have hnot := hdisjoint n (hw.switch n hn)
      rw [h'.has_default_other n fun hn' => hnot (hw'.switch n hn'), h.has_default n hn]
      have hno : ¬ ∃ x, x ∈ L' ∧ x.containee.typ = .Default ∧ x.found = some n := by
        rintro ⟨x, hx, -, he⟩
        exact hnot (hw'.found x hx n he)
      exact (or_iff_left hno).symm
    · have hin := hw'.switch n hn
      rw [h'.has_default n hn]
      have hno : ¬ ∃ x, x ∈ L ∧ x.containee.typ = .Default ∧ x.found = some n := by
        rintro ⟨x, hx, -, he⟩
        exact hdisjoint n (hw.found x hx n he) hin
      exact (or_iff_right hno).symm
  has_default_other n hn := by
    rw [h'.has_default_other n fun hn' => hn (List.mem_append_right _ hn'),
      h.has_default_other n fun hn' => hn (List.mem_append_left _ hn')]

/-! ### A container -/

theorem found_inside (x : Site) (typ : ContainerType) (n : NodeId) :
    (x.around [(typ, n)]).found =
      x.found.or (if typ.takes x.containee.typ then some n else none) := by
  rw [Site.found_around]
  unfold target
  rw [List.find?_singleton]
  split <;> rfl

theorem free_inside (L : List Site) (typ : ContainerType) (n : NodeId) :
    free (L.map fun x => x.around [(typ, n)]) = pass typ (free L) := by
  unfold free pass
  rw [List.filter_map, List.filter_map, List.map_map, List.filter_filter]
  congr 1
  refine List.filter_congr fun x _ => ?_
  simp only [Function.comp_apply, found_inside]
  cases x.found <;> cases typ.takes x.containee.typ <;> simp

/-- The containees are linked to `n`. -/
def linkAll (n : NodeId) (cs : List Containee) (f : NodeId → Option NodeId) :
    NodeId → Option NodeId :=
  fun m => if m ∈ cs.map Containee.node then some n else f m

theorem linkAll_cons (n : NodeId) (c : Containee) (cs : List Containee)
    (f : NodeId → Option NodeId) :
    linkAll n (c :: cs) f = linkAll n cs (Function.update f c.node (some n)) := by
  funext m
  unfold linkAll
  by_cases hm : m ∈ cs.map Containee.node
  · simp [hm]
  · by_cases hc : m = c.node <;> simp [hm, hc]

theorem setExits_eq {typ : ContainerType} (n : NodeId) {cs : List Containee}
    (hcs : ∀ c ∈ cs, typ.takes c.typ = true ∧ c.isLabel = false) (σ : State) :
    cs.foldlM (setExit typ n) σ = some { σ with container := linkAll n cs σ.container } := by
  induction cs generalizing σ with
  | nil => rfl
  | cons c cs ih =>
    obtain ⟨htakes, hexit⟩ := hcs c (List.mem_cons_self ..)
    have hset : setExit typ n σ c =
        some { σ with container := Function.update σ.container c.node (some n) } := by
      unfold setExit
      cases hc : c.typ
      case Break => rfl
      case Continue => exact if_neg (by simpa [hc, ContainerType.takes] using htakes)
      case Case | Default => simp [Containee.isLabel, ContaineeType.isLabel, hc] at hexit
    rw [List.foldlM_cons, hset]
    show cs.foldlM (setExit typ n) _ = _
    rw [ih (fun c hc => hcs c (List.mem_cons_of_mem _ hc)), linkAll_cons]

theorem setCases_eq {typ : ContainerType} (n : NodeId) {cs : List Containee}
    (hcs : ∀ c ∈ cs, typ.takes c.typ = true ∧ c.isLabel = true) (σ : State) :
    cs.foldlM (setCase typ n) σ = some { σ with
      container := linkAll n cs σ.container
      has_default := if cs.any fun c => c.typ = .Default then
          Function.update σ.has_default n true else σ.has_default } := by
  induction cs generalizing σ with
  | nil => rfl
  | cons c cs ih =>
    obtain ⟨htakes, hlabel⟩ := hcs c (List.mem_cons_self ..)
    have hswitch : typ = .Switch := by
      cases hc : c.typ <;> simp_all [Containee.isLabel, ContaineeType.isLabel, ContainerType.takes]
    have hset : setCase typ n σ c = some { σ with
        container := Function.update σ.container c.node (some n)
        has_default := if c.typ = .Default then Function.update σ.has_default n true
          else σ.has_default } := by
      unfold setCase
      rw [if_neg (not_not.mpr hswitch)]
      cases hc : c.typ
      case Case => rfl
      case Default => rfl
      case Break | Continue => simp [Containee.isLabel, ContaineeType.isLabel, hc] at hlabel
    rw [List.foldlM_cons, hset]
    show cs.foldlM (setCase typ n) _ = _
    rw [ih (fun c hc => hcs c (List.mem_cons_of_mem _ hc)), linkAll_cons, List.any_cons]
    by_cases hc : c.typ = .Default
    · simp [hc]
    · simp [hc]

/-- The containees that a container of this type takes. -/
theorem mem_taken {L : List Site} {typ : ContainerType} {n m : NodeId}
    (hn : ∀ x ∈ L, x.found ≠ some n) :
    m ∈ ((free L).filter fun c => typ.takes c.typ).map Containee.node ↔
      ∃ x ∈ L, x.containee.node = m ∧ (x.around [(typ, n)]).found = some n := by
  unfold free
  simp only [List.mem_map, List.mem_filter, decide_eq_true_eq]
  constructor
  · rintro ⟨c, ⟨⟨x, ⟨hx, hfree⟩, rfl⟩, htakes⟩, rfl⟩
    refine ⟨x, hx, rfl, ?_⟩
    rw [found_inside, hfree, htakes]
    rfl
  · rintro ⟨x, hx, rfl, hfound⟩
    rw [found_inside] at hfound
    rcases hf : x.found with _ | k
    · rw [hf, Option.none_or] at hfound
      refine ⟨x.containee, ⟨⟨x, ⟨hx, hf⟩, rfl⟩, ?_⟩, rfl⟩
      by_contra htakes
      rw [if_neg htakes] at hfound
      cases hfound
    · rw [hf, Option.some_or] at hfound
      exact absurd (hf.trans hfound) (hn x hx)

/-- What the container that is closed now links to `n`. -/
theorem linkAll_taken {L : List Site} {typ : ContainerType} {n : NodeId}
    (f : NodeId → Option NodeId) (hn : ∀ x ∈ L, x.found ≠ some n) (m : NodeId) :
    linkAll n ((free L).filter fun c => typ.takes c.typ && c.isLabel)
        (linkAll n ((free L).filter fun c => typ.takes c.typ && !c.isLabel) f) m =
      if ∃ x ∈ L, x.containee.node = m ∧ (x.around [(typ, n)]).found = some n then some n
      else f m := by
  have hsplit : m ∈ ((free L).filter fun c => typ.takes c.typ).map Containee.node ↔
      m ∈ ((free L).filter fun c => typ.takes c.typ && c.isLabel).map Containee.node ∨
        m ∈ ((free L).filter fun c => typ.takes c.typ && !c.isLabel).map Containee.node := by
    simp only [List.mem_map, List.mem_filter, Bool.and_eq_true, Bool.not_eq_true']
    constructor
    · rintro ⟨c, ⟨hc, htakes⟩, rfl⟩
      cases hl : c.isLabel
      · exact .inr ⟨c, ⟨hc, htakes, hl⟩, rfl⟩
      · exact .inl ⟨c, ⟨hc, htakes, hl⟩, rfl⟩
    · rintro (⟨c, ⟨hc, htakes, -⟩, rfl⟩ | ⟨c, ⟨hc, htakes, -⟩, rfl⟩) <;>
        exact ⟨c, ⟨hc, htakes⟩, rfl⟩
  have htaken := hsplit.symm.trans (mem_taken hn)
  unfold linkAll
  by_cases hex : ∃ x ∈ L, x.containee.node = m ∧ (x.around [(typ, n)]).found = some n
  · rw [if_pos hex]
    rcases htaken.mpr hex with hm | hm
    · rw [if_pos hm]
    · rw [if_pos hm, ite_self]
  · have hnot := not_or.mp (mt htaken.mp hex)
    rw [if_neg hex, if_neg hnot.1, if_neg hnot.2]

/-- The labels of the switch that is closed now. -/
theorem labels_taken {L : List Site} {n : NodeId} (hn : ∀ x ∈ L, x.found ≠ some n) :
    ((free L).filter fun c => ContainerType.Switch.takes c.typ && c.isLabel).map Containee.node =
      labels (L.map fun x => x.around [(.Switch, n)]) n := by
  unfold labels free
  rw [List.filter_map, List.filter_map, List.map_map, List.map_map, List.filter_filter]
  show ((L.filter _).map fun x => x.containee.node) = (L.filter _).map fun x => x.containee.node
  refine congrArg (List.map _) (List.filter_congr fun x hx => ?_)
  have hne := hn x hx
  simp only [Function.comp_apply, found_inside]
  rcases hf : x.found with _ | k
  · cases ht : ContainerType.Switch.takes x.containee.typ <;> simp [Site.around]
  · have hk : k ≠ n := fun he => hne (he ▸ hf)
    simp [hk]

/-- A container keeps what is found further inside. -/
theorem found_inside_of_ne {x : Site} {typ : ContainerType} {n k : NodeId} (hk : k ≠ n) :
    (x.around [(typ, n)]).found = some k ↔ x.found = some k := by
  rw [found_inside]
  rcases hf : x.found with _ | l
  · rw [Option.none_or]
    split
    · exact ⟨fun h => absurd (Option.some.inj h).symm hk, nofun⟩
    · exact Iff.rfl
  · rw [Option.some_or]

theorem labels_inside {L : List Site} {typ : ContainerType} {n k : NodeId} (hk : k ≠ n) :
    labels (L.map fun x => x.around [(typ, n)]) k = labels L k := by
  unfold labels
  rw [List.filter_map, List.map_map]
  show ((L.filter _).map fun x => x.containee.node) = (L.filter _).map fun x => x.containee.node
  refine congrArg (List.map _) (List.filter_congr fun x _ => ?_)
  simp only [Function.comp_apply, found_inside_of_ne hk]
  rfl

theorem exists_mem_around {L : List Site} {outer : Nest} {t : ContaineeType} {k : NodeId} :
    (∃ x' ∈ L.map fun x => x.around outer, x'.containee.typ = t ∧ x'.found = some k) ↔
      ∃ x ∈ L, x.containee.typ = t ∧ (x.around outer).found = some k := by
  constructor
  · rintro ⟨_, hx', ht, hfound⟩
    obtain ⟨x, hx, rfl⟩ := List.mem_map.mp hx'
    exact ⟨x, hx, ht, hfound⟩
  · rintro ⟨x, hx, ht, hfound⟩
    exact ⟨_, List.mem_map_of_mem hx, ht, hfound⟩

/-- The default of the switch that is closed now. -/
theorem default_taken {L : List Site} {n : NodeId} (hn : ∀ x ∈ L, x.found ≠ some n) :
    (((free L).filter fun c => ContainerType.Switch.takes c.typ && c.isLabel).any
        fun c => c.typ = .Default) = true ↔
      ∃ x ∈ L, x.containee.typ = .Default ∧ (x.around [(.Switch, n)]).found = some n := by
  unfold free
  simp only [List.any_eq_true, List.mem_filter, List.mem_map, decide_eq_true_eq]
  constructor
  · rintro ⟨c, ⟨⟨x, ⟨hx, hfree⟩, rfl⟩, -⟩, hc⟩
    refine ⟨x, hx, hc, ?_⟩
    rw [found_inside, hfree, hc]
    rfl
  · rintro ⟨x, hx, hc, hfound⟩
    rw [found_inside] at hfound
    rcases hf : x.found with _ | k
    · exact ⟨x.containee, ⟨⟨x, ⟨hx, hf⟩, rfl⟩, by simp [hc, ContainerType.takes,
        Containee.isLabel, ContaineeType.isLabel]⟩, hc⟩
    · rw [hf, Option.some_or] at hfound
      exact absurd (hf.trans hfound) (hn x hx)

/-- `PopContainer`, where no assertion fails. -/
theorem pop_eq {typ : ContainerType} (n : NodeId) {σ : State} {cs es : List Containee}
    {rest : List Container} (hstack : σ.stack = ⟨typ, cs, es⟩ :: rest)
    (hes : ∀ c ∈ es, typ.takes c.typ = true ∧ c.isLabel = false)
    (hcs : ∀ c ∈ cs, typ.takes c.typ = true ∧ c.isLabel = true) :
    PopContainer typ n σ = some
      { stack := rest
        container := linkAll n cs (linkAll n es σ.container)
        cases := if typ = .Switch then Function.update σ.cases n (cs.map Containee.node)
          else σ.cases
        has_default := if cs.any fun c => c.typ = .Default then
          Function.update σ.has_default n true else σ.has_default
        errors := σ.errors } := by
  unfold PopContainer
  rw [hstack]
  show (if typ ≠ typ then none else _) = _
  rw [if_neg (not_not.mpr rfl)]
  show (es.foldlM (setExit typ n) σ).bind _ = _
  rw [setExits_eq n hes]
  show (cs.foldlM (setCase typ n) _).bind _ = _
  rw [setCases_eq n hcs]
  rfl

/-- The state after a container is closed, where `σ₁` is the one before. -/
def close (typ : ContainerType) (n : NodeId) (L : List Site) (σ σ₁ : State) : State :=
  let labels := (free L).filter fun c => typ.takes c.typ && c.isLabel
  let exits := (free L).filter fun c => typ.takes c.typ && !c.isLabel
  { stack := (addAll (pass typ (free L)) σ).stack
    container := linkAll n labels (linkAll n exits σ₁.container)
    cases := if typ = .Switch then Function.update σ₁.cases n (labels.map Containee.node)
      else σ₁.cases
    has_default := if typ = .Switch then
        Function.update σ₁.has_default n (labels.any fun c => c.typ = .Default)
      else σ₁.has_default
    errors := (addAll (pass typ (free L)) σ).errors }

theorem popContainer_eq {typ : ContainerType} {n : NodeId} {L : List Site}
    {switches : List NodeId} {σ σ₁ : State}
    (h : Done L switches { σ with stack := ⟨typ, [], []⟩ :: σ.stack } σ₁) :
    PopContainer typ n (makeNode typ n σ₁) = some (close typ n L σ σ₁) := by
  have hall := addAll_cons (free L) ⟨typ, [], []⟩ σ σ.stack
  have hstack : (makeNode typ n σ₁).stack =
      ⟨typ, (free L).filter fun c => typ.takes c.typ && c.isLabel,
        (free L).filter fun c => typ.takes c.typ && !c.isLabel⟩ ::
        (addAll (pass typ (free L)) σ).stack := by
    rw [show (makeNode typ n σ₁).stack = σ₁.stack by unfold makeNode; split <;> rfl,
      h.stack, hall]
    rfl
  have herrors : σ₁.errors = (addAll (pass typ (free L)) σ).errors := by
    rw [h.errors, hall]
  rw [pop_eq n hstack (fun c hc => by simpa using (List.mem_filter.mp hc).2)
    (fun c hc => by simpa using (List.mem_filter.mp hc).2)]
  unfold close makeNode
  by_cases htyp : typ = .Switch
  · rw [if_pos htyp, ← herrors]
    dsimp only
    rw [if_pos htyp, if_pos htyp, if_pos htyp, Function.update_idem]
    congr 2
    cases hany : ((free L).filter fun c => typ.takes c.typ && c.isLabel).any
      fun c => c.typ = .Default
    · rfl
    · rw [if_pos rfl, Function.update_idem]
  · have hnil : ((free L).filter fun c => typ.takes c.typ && c.isLabel) = [] := by
      rw [List.filter_eq_nil_iff]
      intro c _
      cases hc : c.typ <;> simp [ContainerType.takes, Containee.isLabel, ContaineeType.isLabel, hc,
        htyp]
    rw [if_neg htyp, ← herrors]
    dsimp only
    rw [if_neg htyp, hnil, if_neg htyp]
    rfl

/-- The sites of the container that is closed are linked. -/
theorem closed {typ : ContainerType} {n : NodeId} {L : List Site}
    {switches nodes : List NodeId} {σ σ₁ : State} (hw : Within L switches nodes)
    (hn : n ∉ nodes) (h : Done L switches { σ with stack := ⟨typ, [], []⟩ :: σ.stack } σ₁) :
    Done (L.map fun x => x.around [(typ, n)])
      (if typ = .Switch then n :: switches else switches) σ (close typ n L σ σ₁) := by
  have hnot : ∀ x ∈ L, x.found ≠ some n := fun x hx he => hn (hw.found x hx n he)
  have hcontainer : ∀ m, (close typ n L σ σ₁).container m =
      if ∃ x ∈ L, x.containee.node = m ∧ (x.around [(typ, n)]).found = some n then some n
      else σ₁.container m := linkAll_taken σ₁.container hnot
  constructor
  case stack => rw [free_inside]; rfl
  case errors => rw [free_inside]; rfl
  case linked =>
    intro x' hx' k hk
    obtain ⟨x, hx, rfl⟩ := List.mem_map.mp hx'
    show (close typ n L σ σ₁).container x.containee.node = some k
    rw [hcontainer]
    split
    case isTrue hex =>
      obtain ⟨y, hy, hnode, hfound⟩ := hex
      rw [← hfound, hw.unique y hy x hx hnode, hk]
    case isFalse hex =>
      have hne : k ≠ n := fun he => hex ⟨x, hx, rfl, he ▸ hk⟩
      exact h.linked x hx k ((found_inside_of_ne hne).mp hk)
  case unlinked =>
    intro m hm
    have hfree : ∀ x ∈ L, x.containee.node = m → (x.around [(typ, n)]).found = none :=
      fun x hx he => hm _ (List.mem_map_of_mem hx) he
    rw [hcontainer, if_neg, h.unlinked m]
    · intro x hx he
      have hnone := hfree x hx he
      rw [found_inside] at hnone
      exact (Option.or_eq_none_iff.mp hnone).1
    · rintro ⟨x, hx, he, hfound⟩
      rw [hfree x hx he] at hfound
      cases hfound
  case cases =>
    intro k hk
    unfold close
    by_cases htyp : typ = .Switch
    · subst htyp
      by_cases hkn : k = n
      · rw [hkn]
        exact (Function.update_self ..).trans (labels_taken hnot)
      · have hk := (List.mem_cons.mp hk).resolve_left hkn
        rw [labels_inside hkn, ← h.cases k hk]
        exact Function.update_of_ne hkn ..
    · rw [if_neg htyp] at hk
      have hkn : k ≠ n := fun he => hn (he ▸ hw.switch k hk)
      rw [labels_inside hkn, ← h.cases k hk]
      exact congrFun (if_neg htyp) k
  case cases_other =>
    intro k hk
    unfold close
    rw [← h.cases_other k fun hk' => hk (by split; exacts [List.mem_cons_of_mem _ hk', hk'])]
    by_cases htyp : typ = .Switch
    · rw [if_pos htyp] at hk
      exact (congrFun (if_pos htyp) k).trans
        (Function.update_of_ne (fun he : k = n => hk (by rw [he]; exact List.mem_cons_self ..)) ..)
    · exact congrFun (if_neg htyp) k
  case has_default =>
    intro k hk
    have hinside : k ≠ n → ((∃ x' ∈ L.map fun x => x.around [(typ, n)],
        x'.containee.typ = .Default ∧ x'.found = some k) ↔
        ∃ x ∈ L, x.containee.typ = .Default ∧ x.found = some k) := by
      intro hkn
      rw [exists_mem_around]
      simp only [found_inside_of_ne hkn]
    unfold close
    by_cases htyp : typ = .Switch
    · subst htyp
      by_cases hkn : k = n
      · rw [hkn, exists_mem_around, ← default_taken hnot]
        exact Iff.of_eq (congrArg (· = true) (Function.update_self ..))
      · have hk := (List.mem_cons.mp hk).resolve_left hkn
        rw [hinside hkn, ← h.has_default k hk]
        exact Iff.of_eq (congrArg (· = true) (Function.update_of_ne hkn ..))
    · rw [if_neg htyp] at hk
      have hkn : k ≠ n := fun he => hn (he ▸ hw.switch k hk)
      rw [hinside hkn, ← h.has_default k hk]
      exact Iff.of_eq (congrArg (· = true) (congrFun (if_neg htyp) k))
  case has_default_other =>
    intro k hk
    unfold close
    rw [← h.has_default_other k fun hk' => hk (by split; exacts [List.mem_cons_of_mem _ hk', hk'])]
    by_cases htyp : typ = .Switch
    · rw [if_pos htyp] at hk
      exact (congrFun (if_pos htyp) k).trans
        (Function.update_of_ne (fun he : k = n => hk (by rw [he]; exact List.mem_cons_self ..)) ..)
    · exact congrFun (if_neg htyp) k

/-- **A container**, with a piece of the parse in it that leaves its node
alone. -/
theorem enclose {typ : ContainerType} {n : NodeId} {parts : State → Option State}
    {L : List Site} {switches nodes : List NodeId} {d : ℕ} {σ : State}
    (hparts : ∀ σ, σ.stack.length + d ≤ MAX_SCOPE_DEPTH →
      ∃ σ', parts σ = some σ' ∧ Done L switches σ σ')
    (hw : Within L switches nodes) (hn : n ∉ nodes)
    (hd : σ.stack.length + (d + 1) ≤ MAX_SCOPE_DEPTH) :
    ∃ σ', Containers.enclose typ n parts σ = some σ' ∧
      Done (L.map fun x => x.around [(typ, n)])
        (if typ = .Switch then n :: switches else switches) σ σ' := by
  have hpush : PushContainer typ σ = some { σ with stack := ⟨typ, [], []⟩ :: σ.stack } :=
    if_neg (by omega)
  obtain ⟨σ₁, hrun, hdone⟩ := hparts { σ with stack := ⟨typ, [], []⟩ :: σ.stack } (by
    show σ.stack.length + 1 + d ≤ _
    omega)
  refine ⟨close typ n L σ σ₁, ?_, closed hw hn hdone⟩
  unfold Containers.enclose
  rw [hpush]
  show (parts _).bind _ = _
  rw [hrun]
  exact popContainer_eq hdone

end Done

end Cilk.Containers
