import Cilk.Confluence

/-!
# Flow graphs of structured code

Structured code with jumps has a flow graph, and two passes, one in each
direction. The code is built from points, from jumps to labels and out of
procedures, and from procedures, which are entered and left on their own.
Where several jumps meet, the graph has a vertex, and the pass a slot.

The equations say that the value at a vertex is the meet of what comes out of
the vertices before it; backwards, of those after it. A solution is below
what any path carries (`Solves.le_along`). A pass over settled slots solves
the equations forwards (`Code.forward_solves`). Backwards a return starts with
the initial value itself, and the equations are solved exactly if this is what
comes out of the end of its procedure (`Code.backward_solves`,
`Code.leave_eq_of_backward_solves`).
-/

namespace FlowGraph

open Confluence

/-- Code over points `P`, labels `K` and procedures `R`. -/
inductive Code (P K R : Type)
  | skip
  | point (p : P)
  /-- To the label, and nothing goes on. -/
  | jump (k : K)
  /-- What has jumped to the label goes on, and nothing else. -/
  | resume (k : K)
  | seq (a b : Code P K R)
  /-- One way or the other. -/
  | alt (a b : Code P K R)
  /-- Through the point and out of the procedure. -/
  | ret (p : P) (r : R)
  /-- The procedure is entered and left on its own; what comes, goes on. -/
  | proc (r : R) (body : Code P K R)

/-- Vertices: both ends, the points, and where jumps meet. -/
inductive Vertex (P K R : Type)
  | start
  | stop
  | point (p : P)
  | label (k : K)
  | returned (r : R)
  deriving DecidableEq

variable {P K R V : Type}

namespace Code

/-- What jumps to the label goes on, with what comes. -/
def join (k : K) : Code P K R := .seq (.jump k) (.resume k)

/-- The vertices control leaves the code from, coming from `S`. -/
def exits : Code P K R → List (Vertex P K R) → List (Vertex P K R)
  | skip, S => S
  | point p, _ => [.point p]
  | jump _, _ => []
  | resume k, _ => [.label k]
  | seq a b, S => b.exits (a.exits S)
  | alt a b, S => a.exits S ++ b.exits S
  | ret _ _, _ => []
  | proc _ _, S => S

/-- The edges of the code, when control comes from `S`. -/
def edges (enter leave : R → P) :
    Code P K R → List (Vertex P K R) → List (Vertex P K R × Vertex P K R)
  | skip, _ | resume _, _ => []
  | point p, S => S.map (·, .point p)
  | jump k, S => S.map (·, .label k)
  | seq a b, S => a.edges enter leave S ++ b.edges enter leave (a.exits S)
  | alt a b, S => a.edges enter leave S ++ b.edges enter leave S
  | ret p r, S => (.point p, .returned r) :: S.map (·, .point p)
  | proc r body, _ =>
    [(.start, .point (enter r)), (.returned r, .point (leave r)), (.point (leave r), .stop)] ++
      (body.edges enter leave [.point (enter r)] ++
        (body.exits [.point (enter r)]).map (·, .returned r))

/-- **The flow graph**: from the start through the code to the stop. -/
def graph (enter leave : R → P) (c : Code P K R) : List (Vertex P K R × Vertex P K R) :=
  c.edges enter leave [.start] ++ (c.exits [.start]).map (·, .stop)

/-- The points of the code. -/
def points (enter leave : R → P) : Code P K R → List P
  | skip | jump _ | resume _ => []
  | point p | ret p _ => [p]
  | seq a b | alt a b => a.points enter leave ++ b.points enter leave
  | proc r body => enter r :: (body.points enter leave ++ [leave r])

/-- The vertices of the code. -/
def vertices (enter leave : R → P) : Code P K R → List (Vertex P K R)
  | skip => []
  | point p => [.point p]
  | jump k | resume k => [.label k]
  | seq a b | alt a b => a.vertices enter leave ++ b.vertices enter leave
  | ret p r => [.point p, .returned r]
  | proc r body =>
    .point (enter r) :: .returned r :: .point (leave r) :: body.vertices enter leave

/-- The returns: the point, and the procedure that is left. -/
def rets : Code P K R → List (P × R)
  | skip | point _ | jump _ | resume _ => []
  | seq a b | alt a b => a.rets ++ b.rets
  | ret p r => [(p, r)]
  | proc _ body => body.rets

/-- The procedures. -/
def procs : Code P K R → List R
  | skip | point _ | jump _ | resume _ | ret _ _ => []
  | seq a b | alt a b => a.procs ++ b.procs
  | proc r body => r :: body.procs

/-- **The forward pass.** -/
def forward (enter leave : R → P) (init : V) : Code P K R → Pass P (K ⊕ R) V
  | skip => .skip
  | point p => .point p
  | jump k => .put (.inl k)
  | resume k => .get (.inl k)
  | seq a b => .seq (a.forward enter leave init) (b.forward enter leave init)
  | alt a b => .alt (a.forward enter leave init) (b.forward enter leave init)
  | ret p r => .seq (.point p) (.put (.inr r))
  | proc r body => .aside init <| .seq (.point (enter r)) <|
      .seq (body.forward enter leave init) <| .seq (.join (.inr r)) (.point (leave r))

/-- **The backward pass.** What a label has is what comes after it, and what
a return starts with is the initial value. -/
def backward (enter leave : R → P) (init : V) : Code P K R → Pass P (K ⊕ R) V
  | skip => .skip
  | point p => .point p
  | jump k => .get (.inl k)
  | resume k => .put (.inl k)
  | seq a b => .seq (b.backward enter leave init) (a.backward enter leave init)
  | alt a b => .alt (a.backward enter leave init) (b.backward enter leave init)
  | ret p _ => .seq (.const init) (.point p)
  | proc r body => .aside init <| .seq (.point (leave r)) <|
      .seq (body.backward enter leave init) <| .seq (.join (.inr r)) (.point (enter r))

end Code

/-! ## Equations and paths -/

section

variable (trans : P → V → V)

/-- What comes out of a vertex that has the value `v`. -/
def Vertex.out : Vertex P K R → V → V
  | .point p, v => trans p v
  | _, v => v

/-- A path, with the vertices before the last one. -/
inductive Path (G : List (Vertex P K R × Vertex P K R)) :
    Vertex P K R → List (Vertex P K R) → Vertex P K R → Prop
  | nil (u : Vertex P K R) : Path G u [] u
  | snoc {u v w : Vertex P K R} {us : List (Vertex P K R)} :
      Path G u us v → (v, w) ∈ G → Path G u (us ++ [v]) w

/-- What a path carries to its end. -/
def along (us : List (Vertex P K R)) (v : V) : V :=
  us.foldl (fun x u => u.out trans x) v

variable [SemilatticeInf V]

/-- **The equations** at the vertices `ws`: the source has the initial value,
and every vertex the meet of what comes in. -/
structure Solves (ws : List (Vertex P K R)) (G : List (Vertex P K R × Vertex P K R))
    (source : Vertex P K R) (init : V) (val : Vertex P K R → V) : Prop where
  source : val source = init
  isGLB : ∀ w ∈ ws, IsGLB {x | ∃ u, (u, w) ∈ G ∧ x = u.out trans (val u)} (val w)

end

section

variable {trans : P → V → V}

theorem along_append_singleton (us : List (Vertex P K R)) (u : Vertex P K R) (v : V) :
    along trans (us ++ [u]) v = u.out trans (along trans us v) :=
  List.foldl_concat ..

variable [SemilatticeInf V]

theorem Vertex.out_mono (hmono : ∀ p, Monotone (trans p)) (u : Vertex P K R) :
    Monotone (u.out trans) := by
  cases u with
  | point p => exact hmono p
  | start | stop | label | returned => exact monotone_id

/-- **A solution is below what any path carries.** -/
theorem Solves.le_along (hmono : ∀ p, Monotone (trans p)) {ws : List (Vertex P K R)}
    {G : List (Vertex P K R × Vertex P K R)} {source target : Vertex P K R} {init : V}
    {val : Vertex P K R → V} (h : Solves trans ws G source init val)
    (hG : ∀ u w, (u, w) ∈ G → u ≠ target ∧ (w ∈ ws ∨ w = target))
    {us : List (Vertex P K R)} {w : Vertex P K R} (hpath : Path G source us w)
    (hw : w ≠ target) : val w ≤ along trans us init := by
  induction hpath with
  | nil => exact h.source.le
  | @snoc v w us hpath he ih =>
    obtain ⟨hv, hmem⟩ := hG v w he
    rw [along_append_singleton]
    calc val w ≤ v.out trans (val v) := (h.isGLB w (hmem.resolve_right hw)).1 ⟨v, he, rfl⟩
      _ ≤ _ := v.out_mono hmono (ih hv)

end

/-! ## The graph -/

namespace Code

section

variable {enter leave : R → P}

/-- Control leaves from where it comes from, or from a vertex of the code. -/
theorem exits_mem (c : Code P K R) {S : List (Vertex P K R)} {u : Vertex P K R}
    (h : u ∈ c.exits S) : u ∈ S ∨ u ∈ c.vertices enter leave := by
  induction c generalizing S with
  | skip | proc => exact .inl h
  | point | resume => exact .inr h
  | jump | ret => nomatch h
  | seq a b iha ihb =>
    rcases ihb h with ha | hu
    · exact (iha ha).imp_right (List.mem_append_left _)
    · exact .inr (List.mem_append_right _ hu)
  | alt a b iha ihb =>
    rcases List.mem_append.mp h with ha | hb
    · exact (iha ha).imp_right (List.mem_append_left _)
    · exact (ihb hb).imp_right (List.mem_append_right _)

/-- An edge of the code goes from where control comes from, the start or a
vertex of the code, to one or to the stop. -/
theorem edges_mem (c : Code P K R) {S : List (Vertex P K R)} {u w : Vertex P K R}
    (h : (u, w) ∈ c.edges enter leave S) :
    (u ∈ S ∨ u = .start ∨ u ∈ c.vertices enter leave) ∧
      (w ∈ c.vertices enter leave ∨ w = .stop) := by
  induction c generalizing S with
  | skip | resume => nomatch h
  | point | jump =>
    obtain ⟨_, hu, he⟩ := List.mem_map.mp h
    obtain ⟨rfl, rfl⟩ := Prod.mk.inj he
    exact ⟨.inl hu, .inl List.mem_cons_self⟩
  | ret p r =>
    rcases List.mem_cons.mp h with he | h
    · obtain ⟨rfl, rfl⟩ := Prod.mk.inj he
      exact ⟨.inr (.inr List.mem_cons_self), .inl (List.mem_cons_of_mem _ List.mem_cons_self)⟩
    · obtain ⟨_, hu, he⟩ := List.mem_map.mp h
      obtain ⟨rfl, rfl⟩ := Prod.mk.inj he
      exact ⟨.inl hu, .inl List.mem_cons_self⟩
  | seq a b iha ihb =>
    rcases List.mem_append.mp h with ha | hb
    · obtain ⟨hu, hw⟩ := iha ha
      exact ⟨hu.imp_right (Or.imp_right (List.mem_append_left _)),
        hw.imp_left (List.mem_append_left _)⟩
    · obtain ⟨hu | hu | hu, hw⟩ := ihb hb
      · refine ⟨(a.exits_mem hu).imp_right fun h => .inr (List.mem_append_left _ h),
          hw.imp_left (List.mem_append_right _)⟩
      · exact ⟨.inr (.inl hu), hw.imp_left (List.mem_append_right _)⟩
      · exact ⟨.inr (.inr (List.mem_append_right _ hu)), hw.imp_left (List.mem_append_right _)⟩
  | alt a b iha ihb =>
    rcases List.mem_append.mp h with ha | hb
    · obtain ⟨hu, hw⟩ := iha ha
      exact ⟨hu.imp_right (Or.imp_right (List.mem_append_left _)),
        hw.imp_left (List.mem_append_left _)⟩
    · obtain ⟨hu, hw⟩ := ihb hb
      exact ⟨hu.imp_right (Or.imp_right (List.mem_append_right _)),
        hw.imp_left (List.mem_append_right _)⟩
  | proc r body ih =>
    have hbody : ∀ u, u ∈ body.vertices enter leave → u ∈ (proc r body).vertices enter leave :=
      fun u hu => List.mem_cons_of_mem _ (List.mem_cons_of_mem _ (List.mem_cons_of_mem _ hu))
    have henter : Vertex.point (enter r) ∈ (proc r body).vertices enter leave :=
      List.mem_cons_self
    have hreturned : Vertex.returned r ∈ (proc r body).vertices enter leave :=
      List.mem_cons_of_mem _ List.mem_cons_self
    have hleave : Vertex.point (leave r) ∈ (proc r body).vertices enter leave :=
      List.mem_cons_of_mem _ (List.mem_cons_of_mem _ List.mem_cons_self)
    rcases List.mem_append.mp h with h | h
    · rcases List.mem_cons.mp h with he | h
      · obtain ⟨rfl, rfl⟩ := Prod.mk.inj he
        exact ⟨.inr (.inl rfl), .inl henter⟩
      rcases List.mem_cons.mp h with he | h
      · obtain ⟨rfl, rfl⟩ := Prod.mk.inj he
        exact ⟨.inr (.inr hreturned), .inl hleave⟩
      · obtain ⟨rfl, rfl⟩ := Prod.mk.inj (List.mem_singleton.mp h)
        exact ⟨.inr (.inr hleave), .inr rfl⟩
    · rcases List.mem_append.mp h with h | h
      · obtain ⟨hu | hu | hu, hw⟩ := ih h
        · exact ⟨.inr (.inr (List.mem_singleton.mp hu ▸ henter)), hw.imp_left (hbody w)⟩
        · exact ⟨.inr (.inl hu), hw.imp_left (hbody w)⟩
        · exact ⟨.inr (.inr (hbody u hu)), hw.imp_left (hbody w)⟩
      · obtain ⟨_, hu, he⟩ := List.mem_map.mp h
        obtain ⟨rfl, rfl⟩ := Prod.mk.inj he
        refine ⟨.inr (.inr ?_), .inl hreturned⟩
        exact (body.exits_mem hu).elim (fun hu => List.mem_singleton.mp hu ▸ henter) (hbody _)

theorem ne_of_mem_vertices (c : Code P K R) {u : Vertex P K R}
    (h : u ∈ c.vertices enter leave) : u ≠ .start ∧ u ≠ .stop := by
  induction c with
  | skip => nomatch h
  | point | jump | resume =>
    rw [List.mem_singleton.mp h]
    exact ⟨nofun, nofun⟩
  | seq a b iha ihb | alt a b iha ihb => exact (List.mem_append.mp h).elim iha ihb
  | ret =>
    rcases List.mem_cons.mp h with rfl | h
    · exact ⟨nofun, nofun⟩
    · rw [List.mem_singleton.mp h]
      exact ⟨nofun, nofun⟩
  | proc r body ih =>
    rcases List.mem_cons.mp h with rfl | h
    · exact ⟨nofun, nofun⟩
    rcases List.mem_cons.mp h with rfl | h
    · exact ⟨nofun, nofun⟩
    rcases List.mem_cons.mp h with rfl | h
    · exact ⟨nofun, nofun⟩
    · exact ih h

/-- **The ends of the graph**: no edge goes to the start or from the stop, and
between them are the vertices of the code. -/
theorem graph_mem (c : Code P K R) {u w : Vertex P K R} (h : (u, w) ∈ c.graph enter leave) :
    (u = .start ∨ u ∈ c.vertices enter leave) ∧ (w ∈ c.vertices enter leave ∨ w = .stop) := by
  rcases List.mem_append.mp h with h | h
  · obtain ⟨hu | hu | hu, hw⟩ := c.edges_mem h
    · exact ⟨.inl (List.mem_singleton.mp hu), hw⟩
    · exact ⟨.inl hu, hw⟩
    · exact ⟨.inr hu, hw⟩
  · obtain ⟨_, hu, he⟩ := List.mem_map.mp h
    obtain ⟨rfl, rfl⟩ := Prod.mk.inj he
    exact ⟨(c.exits_mem hu).imp_left List.mem_singleton.mp, .inr rfl⟩

theorem graph_ne (c : Code P K R) {u w : Vertex P K R} (h : (u, w) ∈ c.graph enter leave) :
    w ≠ .start ∧ u ≠ .stop := by
  obtain ⟨hu, hw⟩ := c.graph_mem h
  constructor
  · rcases hw with hw | rfl
    · exact (c.ne_of_mem_vertices hw).1
    · nofun
  · rcases hu with rfl | hu
    · nofun
    · exact (c.ne_of_mem_vertices hu).2

theorem point_mem_vertices (c : Code P K R) {p : P} (h : .point p ∈ c.vertices enter leave) :
    p ∈ c.points enter leave := by
  induction c with
  | skip => nomatch h
  | point q =>
    obtain rfl := Vertex.point.inj (List.mem_singleton.mp h)
    exact List.mem_cons_self
  | jump | resume => nomatch List.mem_singleton.mp h
  | seq a b iha ihb | alt a b iha ihb =>
    exact List.mem_append.mpr ((List.mem_append.mp h).imp iha ihb)
  | ret q r =>
    rcases List.mem_cons.mp h with he | h
    · obtain rfl := Vertex.point.inj he
      exact List.mem_cons_self
    · nomatch List.mem_singleton.mp h
  | proc r body ih =>
    rcases List.mem_cons.mp h with he | h
    · obtain rfl := Vertex.point.inj he
      exact List.mem_cons_self
    rcases List.mem_cons.mp h with he | h
    · nomatch he
    rcases List.mem_cons.mp h with he | h
    · obtain rfl := Vertex.point.inj he
      exact List.mem_cons_of_mem _ (List.mem_append_right _ List.mem_cons_self)
    · exact List.mem_cons_of_mem _ (List.mem_append_left _ (ih h))

end

/-! ## Forwards -/

section

variable [SemilatticeInf V] [OrderTop V]

variable {enter leave : R → P} {trans : P → V → V} {init : V} {slots : K ⊕ R → V}
  {val : Vertex P K R → V}

/-- Where the jumps into a slot meet. -/
def meeting : K ⊕ R → Vertex P K R
  | .inl k => .label k
  | .inr r => .returned r

/-- **Along every edge** the value is below what comes out before it. -/
theorem forward_edges (c : Code P K R) {S : List (Vertex P K R)} {v : V}
    (hstart : val .start = init) (hval : ∀ j, val (meeting j) = slots j)
    (happ : ∀ a ∈ (c.forward enter leave init).applications trans slots v, val (.point a.1) = a.2)
    (hbelow : (c.forward enter leave init).Below trans slots v slots)
    (hus : ∀ u ∈ S, v ≤ u.out trans (val u)) :
    (∀ u ∈ c.exits S, (c.forward enter leave init).eval trans slots v ≤ u.out trans (val u)) ∧
      ∀ e ∈ c.edges enter leave S, e.2 ≠ .stop → val e.2 ≤ e.1.out trans (val e.1) := by
  induction c generalizing S v with
  | skip => exact ⟨hus, nofun⟩
  | point p =>
    have hp : val (.point p) = v := happ (p, v) List.mem_cons_self
    refine ⟨List.forall_mem_singleton.mpr ?_, List.forall_mem_map.mpr fun u hu _ => ?_⟩
    · exact (congrArg (trans p) hp).ge
    · exact hp.trans_le (hus u hu)
  | jump k =>
    refine ⟨nofun, List.forall_mem_map.mpr fun u hu _ => ?_⟩
    calc val (.label k) = slots (.inl k) := hval (.inl k)
      _ ≤ v := hbelow (.inl k, v) List.mem_cons_self
      _ ≤ _ := hus u hu
  | resume k => exact ⟨List.forall_mem_singleton.mpr (hval (.inl k)).ge, nofun⟩
  | seq a b iha ihb =>
    obtain ⟨haa, hab⟩ := List.forall_mem_append.mp happ
    obtain ⟨hba, hbb⟩ := List.forall_mem_append.mp hbelow
    obtain ⟨hexits, hedges⟩ := iha haa hba hus
    obtain ⟨hexits', hedges'⟩ := ihb hab hbb hexits
    exact ⟨hexits', List.forall_mem_append.mpr ⟨hedges, hedges'⟩⟩
  | alt a b iha ihb =>
    obtain ⟨haa, hab⟩ := List.forall_mem_append.mp happ
    obtain ⟨hba, hbb⟩ := List.forall_mem_append.mp hbelow
    obtain ⟨hexits, hedges⟩ := iha haa hba hus
    obtain ⟨hexits', hedges'⟩ := ihb hab hbb hus
    refine ⟨List.forall_mem_append.mpr ⟨fun u hu => ?_, fun u hu => ?_⟩,
      List.forall_mem_append.mpr ⟨hedges, hedges'⟩⟩
    · exact inf_le_left.trans (hexits u hu)
    · exact inf_le_right.trans (hexits' u hu)
  | ret p r =>
    have hp : val (.point p) = v := happ (p, v) List.mem_cons_self
    refine ⟨nofun, List.forall_mem_cons.mpr ⟨fun _ => ?_, List.forall_mem_map.mpr fun u hu _ => ?_⟩⟩
    · calc val (.returned r) = slots (.inr r) := hval (.inr r)
        _ ≤ trans p v := hbelow (.inr r, trans p v) List.mem_cons_self
        _ = trans p (val (.point p)) := congrArg (trans p) hp.symm
    · exact hp.trans_le (hus u hu)
  | proc r body ih =>
    obtain ⟨haenter, happ⟩ := List.forall_mem_append.mp happ
    obtain ⟨habody, haleave⟩ := List.forall_mem_append.mp happ
    obtain ⟨-, hbelow⟩ := List.forall_mem_append.mp hbelow
    obtain ⟨hbbody, hbjoin⟩ := List.forall_mem_append.mp hbelow
    have henter : val (.point (enter r)) = init := haenter _ List.mem_cons_self
    have hleave : val (.point (leave r)) = slots (.inr r) := haleave _ List.mem_cons_self
    obtain ⟨hexits, hedges⟩ := ih (S := [.point (enter r)]) habody hbbody
      (List.forall_mem_singleton.mpr (congrArg (trans (enter r)) henter).ge)
    refine ⟨hus, List.forall_mem_append.mpr ⟨?_, List.forall_mem_append.mpr ⟨hedges, ?_⟩⟩⟩
    · refine List.forall_mem_cons.mpr ⟨fun _ => (henter.trans hstart.symm).le, ?_⟩
      refine List.forall_mem_cons.mpr ⟨fun _ => (hleave.trans (hval (.inr r)).symm).le, ?_⟩
      exact List.forall_mem_singleton.mpr fun hstop => absurd rfl hstop
    · refine List.forall_mem_map.mpr fun u hu _ => ?_
      calc val (.returned r) = slots (.inr r) := hval (.inr r)
        _ ≤ _ := hbjoin (.inr r, _) List.mem_cons_self
        _ ≤ _ := hexits u hu

/-- **What flows is the meet**: a value below what comes out before a vertex,
on all edges to it, is below what flows in there. -/
theorem forward_le (c : Code P K R) {S : List (Vertex P K R)} {v x : V}
    {w : Vertex P K R} (hstart : val .start = init) (hval : ∀ j, val (meeting j) = slots j)
    (happ : ∀ a ∈ (c.forward enter leave init).applications trans slots v, val (.point a.1) = a.2)
    (hx : ∀ u, (u, w) ∈ c.edges enter leave S → x ≤ u.out trans (val u))
    (hus : ∀ y, (∀ u ∈ S, y ≤ u.out trans (val u)) → y ≤ v) :
    (∀ y, (∀ u ∈ c.exits S, y ≤ u.out trans (val u)) →
        y ≤ (c.forward enter leave init).eval trans slots v) ∧
      (∀ a ∈ (c.forward enter leave init).applications trans slots v, w = .point a.1 → x ≤ a.2) ∧
      ∀ a ∈ (c.forward enter leave init).contributions trans slots v,
        w = meeting a.1 → x ≤ a.2 := by
  induction c generalizing S v with
  | skip => exact ⟨hus, nofun, nofun⟩
  | point p =>
    have hp : val (.point p) = v := happ (p, v) List.mem_cons_self
    refine ⟨fun y hy => ?_, List.forall_mem_singleton.mpr ?_, nofun⟩
    · exact (hy _ List.mem_cons_self).trans_eq (congrArg (trans p) hp)
    · rintro rfl
      exact hus x fun u hu => hx u (List.mem_map_of_mem hu)
  | jump k =>
    refine ⟨fun y _ => le_top, nofun, List.forall_mem_singleton.mpr ?_⟩
    rintro rfl
    exact hus x fun u hu => hx u (List.mem_map_of_mem hu)
  | resume k => exact ⟨fun y hy => (hy _ List.mem_cons_self).trans_eq (hval (.inl k)), nofun, nofun⟩
  | seq a b iha ihb =>
    obtain ⟨haa, hab⟩ := List.forall_mem_append.mp happ
    obtain ⟨hexits, happs, hcontribs⟩ := iha haa (fun u hu => hx u (List.mem_append_left _ hu)) hus
    obtain ⟨hexits', happs', hcontribs'⟩ :=
      ihb hab (fun u hu => hx u (List.mem_append_right _ hu)) hexits
    exact ⟨hexits', List.forall_mem_append.mpr ⟨happs, happs'⟩,
      List.forall_mem_append.mpr ⟨hcontribs, hcontribs'⟩⟩
  | alt a b iha ihb =>
    obtain ⟨haa, hab⟩ := List.forall_mem_append.mp happ
    obtain ⟨hexits, happs, hcontribs⟩ := iha haa (fun u hu => hx u (List.mem_append_left _ hu)) hus
    obtain ⟨hexits', happs', hcontribs'⟩ :=
      ihb hab (fun u hu => hx u (List.mem_append_right _ hu)) hus
    refine ⟨fun y hy => ?_, List.forall_mem_append.mpr ⟨happs, happs'⟩,
      List.forall_mem_append.mpr ⟨hcontribs, hcontribs'⟩⟩
    obtain ⟨hya, hyb⟩ := List.forall_mem_append.mp hy
    exact le_inf (hexits y hya) (hexits' y hyb)
  | ret p r =>
    have hp : val (.point p) = v := happ (p, v) List.mem_cons_self
    refine ⟨fun y _ => le_top, List.forall_mem_singleton.mpr ?_, List.forall_mem_singleton.mpr ?_⟩
    · rintro rfl
      exact hus x fun u hu => hx u (List.mem_cons_of_mem _ (List.mem_map_of_mem hu))
    · rintro rfl
      exact (hx _ List.mem_cons_self).trans_eq (congrArg (trans p) hp)
  | proc r body ih =>
    obtain ⟨haenter, happ⟩ := List.forall_mem_append.mp happ
    obtain ⟨habody, haleave⟩ := List.forall_mem_append.mp happ
    have henter : val (.point (enter r)) = init := haenter _ List.mem_cons_self
    have hends := fun u (hu : (u, w) ∈ [(.start, .point (enter r)),
      (.returned r, .point (leave r)), (.point (leave r), .stop)]) =>
        hx u (List.mem_append_left _ hu)
    obtain ⟨hexits, happs, hcontribs⟩ := ih habody
      (fun u hu => hx u (List.mem_append_right _ (List.mem_append_left _ hu)))
      fun y hy => (hy _ List.mem_cons_self).trans_eq (congrArg (trans (enter r)) henter)
    refine ⟨hus, List.forall_mem_append.mpr ⟨List.forall_mem_singleton.mpr ?_,
      List.forall_mem_append.mpr ⟨happs, List.forall_mem_singleton.mpr ?_⟩⟩,
      List.forall_mem_append.mpr ⟨nofun,
        List.forall_mem_append.mpr ⟨hcontribs, List.forall_mem_singleton.mpr ?_⟩⟩⟩
    · rintro rfl
      exact (hends _ List.mem_cons_self).trans_eq hstart
    · rintro rfl
      exact (hends _ (List.mem_cons_of_mem _ List.mem_cons_self)).trans_eq (hval (.inr r))
    · rintro rfl
      exact hexits x fun u hu => hx u
        (List.mem_append_right _ (List.mem_append_right _ (List.mem_map_of_mem hu)))

theorem forward_points (c : Code P K R) (v : V) :
    ((c.forward enter leave init).applications trans slots v).map Prod.fst =
      c.points enter leave := by
  induction c generalizing v with
  | skip | point | jump | resume | ret => rfl
  | seq a b iha ihb | alt a b iha ihb =>
    show (List.append _ _).map Prod.fst = _
    exact List.map_append.trans (congrArg₂ _ (iha _) (ihb _))
  | proc r body ih =>
    show ([(enter r, init)] ++ (_ ++ ([] ++ [(leave r, _)]))).map Prod.fst = _
    rw [List.map_append, List.map_append, ih]
    rfl

variable [DecidableEq P]

/-- The values at the vertices: from what the points are applied to, and from
the slots. -/
def value (apps : List (P × V)) (start stop : V) (labels : K → V) (returns : R → V) :
    Vertex P K R → V
  | .start => start
  | .stop => stop
  | .point p => (apps.lookup p).getD ⊤
  | .label k => labels k
  | .returned r => returns r

theorem value_point {apps : List (P × V)} (happs : (apps.map Prod.fst).Nodup) (start stop : V)
    (labels : K → V) (returns : R → V) {a : P × V} (ha : a ∈ apps) :
    value apps start stop labels returns (.point a.1) = a.2 := by
  obtain ⟨l₁, l₂, rfl⟩ := List.append_of_mem ha
  have hfirst : (l₁ ++ a :: l₂).lookup a.1 = some a.2 := by
    refine List.lookup_eq_some_iff.mpr ⟨l₁, l₂, rfl, fun b hb => bne_iff_ne.mpr fun he => ?_⟩
    rw [List.map_append, List.map_cons, List.nodup_append] at happs
    exact happs.2.2 b.1 (List.mem_map_of_mem hb) a.1 List.mem_cons_self he.symm
  show ((l₁ ++ a :: l₂).lookup a.1).getD ⊤ = a.2
  rw [hfirst, Option.getD_some]

/-- **A forward pass over settled slots solves the equations**, with what it
applies the points to as their values. -/
theorem forward_solves [DecidableEq K] [DecidableEq R] (c : Code P K R) {tops : K ⊕ R → V}
    (hpoints : (c.points enter leave).Nodup)
    (hsettled : (c.forward enter leave init).Settled trans init tops slots)
    (htops : ∀ j, meeting j ∈ c.vertices enter leave → tops j = ⊤) :
    ∃ val : Vertex P K R → V,
      (∀ a ∈ (c.forward enter leave init).applications trans slots init,
        val (.point a.1) = a.2) ∧
      Solves trans (c.vertices enter leave) (c.graph enter leave) .start init val := by
  set apps := (c.forward enter leave init).applications trans slots init with happs
  have hfst : apps.map Prod.fst = c.points enter leave := c.forward_points init
  set val : Vertex P K R → V := value apps init init (slots ∘ .inl) (slots ∘ .inr) with hval
  have hpoint : ∀ a ∈ apps, val (.point a.1) = a.2 :=
    fun a ha => value_point (hfst ▸ hpoints) _ _ _ _ ha
  have hmeeting : ∀ j, val (meeting j) = slots j := by
    rintro (k | r)
    · rfl
    · rfl
  have hstart : ∀ u ∈ [Vertex.start], init ≤ u.out trans (val u) :=
    List.forall_mem_singleton.mpr le_rfl
  obtain ⟨-, hedges⟩ := c.forward_edges rfl hmeeting hpoint hsettled.below hstart
  refine ⟨val, hpoint, rfl, fun w hw => ⟨?_, fun x hx => ?_⟩⟩
  · rintro _ ⟨u, hu, rfl⟩
    have hstop := (c.ne_of_mem_vertices hw).2
    rcases List.mem_append.mp hu with hu | hu
    · exact hedges _ hu hstop
    · obtain ⟨_, -, he⟩ := List.mem_map.mp hu
      exact absurd (Prod.mk.inj he).2.symm hstop
  · obtain ⟨-, happ, hcontrib⟩ := c.forward_le (S := [.start]) (v := init) (w := w) rfl hmeeting
      hpoint (fun u hu => hx ⟨u, List.mem_append_left _ hu, rfl⟩)
      fun y hy => hy _ List.mem_cons_self
    have hslot : ∀ j, w = meeting j → x ≤ slots j := fun j hj =>
      (hsettled.isGLB (htops j (hj ▸ hw))).2 fun y hy => hcontrib (j, y) hy hj
    cases w with
    | start => exact absurd rfl (c.ne_of_mem_vertices hw).1
    | stop => exact absurd rfl (c.ne_of_mem_vertices hw).2
    | label k => exact hslot (.inl k) rfl
    | returned r => exact hslot (.inr r) rfl
    | point p =>
      obtain ⟨a, ha, rfl⟩ := List.mem_map.mp (hfst.symm ▸ c.point_mem_vertices hw)
      exact (happ a ha rfl).trans_eq (hpoint a ha).symm

end

/-! ## Backwards -/

section

variable [SemilatticeInf V] [OrderTop V]

variable {enter leave : R → P} {trans : P → V → V} {init : V} {slots : K ⊕ R → V}
  {val : Vertex P K R → V}

/-- Where control is when a slot is what comes after: at the label, or inside
the procedure at its beginning. -/
def before (enter : R → P) : K ⊕ R → Vertex P K R
  | .inl k => .label k
  | .inr r => .point (enter r)

/-- **Along every edge** the value is below what comes out after it, if no
return starts with more than what comes out of the end of its procedure. -/
theorem backward_edges (c : Code P K R) {S : List (Vertex P K R)} {v : V}
    (hstop : val .stop = init) (hlabel : ∀ k, val (.label k) = slots (.inl k))
    (hreturned : ∀ r, val (.returned r) = trans (leave r) init)
    (hrets : ∀ pr ∈ c.rets, init ≤ trans (leave pr.2) init)
    (happ : ∀ a ∈ (c.backward enter leave init).applications trans slots v, val (.point a.1) = a.2)
    (hbelow : (c.backward enter leave init).Below trans slots v slots)
    (hus : ∀ u ∈ S, val u ≤ (c.backward enter leave init).eval trans slots v) :
    (∀ u ∈ c.exits S, val u ≤ v) ∧
      ∀ e ∈ c.edges enter leave S, e.1 ≠ .start → val e.1 ≤ e.2.out trans (val e.2) := by
  induction c generalizing S v with
  | skip => exact ⟨hus, nofun⟩
  | point p =>
    have hp : val (.point p) = v := happ (p, v) List.mem_cons_self
    refine ⟨List.forall_mem_singleton.mpr hp.le, List.forall_mem_map.mpr fun u hu _ => ?_⟩
    exact (hus u hu).trans_eq (congrArg (trans p) hp.symm)
  | jump k =>
    exact ⟨nofun, List.forall_mem_map.mpr fun u hu _ => (hus u hu).trans_eq (hlabel k).symm⟩
  | resume k =>
    refine ⟨List.forall_mem_singleton.mpr ?_, nofun⟩
    exact (hlabel k).trans_le (hbelow (.inl k, v) List.mem_cons_self)
  | seq a b iha ihb =>
    obtain ⟨hra, hrb⟩ := List.forall_mem_append.mp hrets
    obtain ⟨hab, haa⟩ := List.forall_mem_append.mp happ
    obtain ⟨hbb, hba⟩ := List.forall_mem_append.mp hbelow
    obtain ⟨hexits, hedges⟩ := iha hra haa hba hus
    obtain ⟨hexits', hedges'⟩ := ihb hrb hab hbb hexits
    exact ⟨hexits', List.forall_mem_append.mpr ⟨hedges, hedges'⟩⟩
  | alt a b iha ihb =>
    obtain ⟨hra, hrb⟩ := List.forall_mem_append.mp hrets
    obtain ⟨haa, hab⟩ := List.forall_mem_append.mp happ
    obtain ⟨hba, hbb⟩ := List.forall_mem_append.mp hbelow
    obtain ⟨hexits, hedges⟩ := iha hra haa hba fun u hu => (hus u hu).trans inf_le_left
    obtain ⟨hexits', hedges'⟩ := ihb hrb hab hbb fun u hu => (hus u hu).trans inf_le_right
    exact ⟨List.forall_mem_append.mpr ⟨hexits, hexits'⟩,
      List.forall_mem_append.mpr ⟨hedges, hedges'⟩⟩
  | ret p r =>
    have hp : val (.point p) = init := happ (p, init) List.mem_cons_self
    refine ⟨nofun, List.forall_mem_cons.mpr ⟨fun _ => ?_, List.forall_mem_map.mpr fun u hu _ => ?_⟩⟩
    · calc val (.point p) = init := hp
        _ ≤ trans (leave r) init := hrets (p, r) List.mem_cons_self
        _ = val (.returned r) := (hreturned r).symm
    · exact (hus u hu).trans_eq (congrArg (trans p) hp.symm)
  | proc r body ih =>
    obtain ⟨haleave, happ⟩ := List.forall_mem_append.mp happ
    obtain ⟨habody, haenter⟩ := List.forall_mem_append.mp happ
    obtain ⟨-, hbelow⟩ := List.forall_mem_append.mp hbelow
    obtain ⟨hbbody, hbjoin⟩ := List.forall_mem_append.mp hbelow
    have hleave : val (.point (leave r)) = init := haleave _ List.mem_cons_self
    have henter : val (.point (enter r)) = slots (.inr r) := haenter _ List.mem_cons_self
    obtain ⟨hexits, hedges⟩ := ih (S := [.point (enter r)]) hrets habody hbbody
      (List.forall_mem_singleton.mpr (henter.trans_le (hbjoin (.inr r, _) List.mem_cons_self)))
    refine ⟨hus, List.forall_mem_append.mpr ⟨?_, List.forall_mem_append.mpr ⟨hedges, ?_⟩⟩⟩
    · refine List.forall_mem_cons.mpr ⟨fun hstart => absurd rfl hstart, ?_⟩
      refine List.forall_mem_cons.mpr ⟨fun _ => ?_, List.forall_mem_singleton.mpr fun _ => ?_⟩
      · exact ((hreturned r).trans (congrArg (trans (leave r)) hleave.symm)).le
      · exact (hleave.trans hstop.symm).le
    · exact List.forall_mem_map.mpr fun u hu _ => (hexits u hu).trans_eq (hreturned r).symm

/-- **What flows is the meet**: a value below what comes out after a vertex,
on all edges from it, is below what flows in there, if no return starts with
less than what comes out of the end of its procedure. -/
theorem backward_le (c : Code P K R) {S : List (Vertex P K R)} {v x : V} {u : Vertex P K R}
    (hlabel : ∀ k, val (.label k) = slots (.inl k))
    (hreturned : ∀ r, val (.returned r) = trans (leave r) init)
    (hrets : ∀ pr ∈ c.rets, trans (leave pr.2) init ≤ init) (hstop : val .stop = init)
    (happ : ∀ a ∈ (c.backward enter leave init).applications trans slots v, val (.point a.1) = a.2)
    (hx : ∀ w, (u, w) ∈ c.edges enter leave S → x ≤ w.out trans (val w))
    (hexits : u ∈ c.exits S → x ≤ v) :
    (u ∈ S → x ≤ (c.backward enter leave init).eval trans slots v) ∧
      ((∀ r ∈ c.procs, u = .point (enter r) → x ≤ slots (.inr r)) →
        ∀ a ∈ (c.backward enter leave init).applications trans slots v,
          u = .point a.1 → x ≤ a.2) ∧
      ∀ a ∈ (c.backward enter leave init).contributions trans slots v,
        u = before enter a.1 → x ≤ a.2 := by
  induction c generalizing S v with
  | skip => exact ⟨hexits, nofun, nofun⟩
  | point p =>
    have hp : val (.point p) = v := happ (p, v) List.mem_cons_self
    refine ⟨fun hu => ?_, fun _ => List.forall_mem_singleton.mpr ?_, nofun⟩
    · exact (hx _ (List.mem_map_of_mem hu)).trans_eq (congrArg (trans p) hp)
    · rintro rfl
      exact hexits List.mem_cons_self
  | jump k =>
    exact ⟨fun hu => (hx _ (List.mem_map_of_mem hu)).trans_eq (hlabel k), nofun, nofun⟩
  | resume k =>
    refine ⟨fun _ => le_top, nofun, List.forall_mem_singleton.mpr ?_⟩
    rintro rfl
    exact hexits List.mem_cons_self
  | seq a b iha ihb =>
    obtain ⟨hra, hrb⟩ := List.forall_mem_append.mp hrets
    obtain ⟨hab, haa⟩ := List.forall_mem_append.mp happ
    obtain ⟨hmid, happs', hcontribs'⟩ :=
      ihb hrb hab (fun w hw => hx w (List.mem_append_right _ hw)) hexits
    obtain ⟨hus, happs, hcontribs⟩ :=
      iha hra haa (fun w hw => hx w (List.mem_append_left _ hw)) hmid
    refine ⟨hus, fun hprocs => ?_, List.forall_mem_append.mpr ⟨hcontribs', hcontribs⟩⟩
    obtain ⟨hpa, hpb⟩ := List.forall_mem_append.mp hprocs
    exact List.forall_mem_append.mpr ⟨happs' hpb, happs hpa⟩
  | alt a b iha ihb =>
    obtain ⟨hra, hrb⟩ := List.forall_mem_append.mp hrets
    obtain ⟨haa, hab⟩ := List.forall_mem_append.mp happ
    obtain ⟨hus, happs, hcontribs⟩ := iha hra haa
      (fun w hw => hx w (List.mem_append_left _ hw)) fun hu => hexits (List.mem_append_left _ hu)
    obtain ⟨hus', happs', hcontribs'⟩ := ihb hrb hab
      (fun w hw => hx w (List.mem_append_right _ hw)) fun hu => hexits (List.mem_append_right _ hu)
    refine ⟨fun hu => le_inf (hus hu) (hus' hu), fun hprocs => ?_,
      List.forall_mem_append.mpr ⟨hcontribs, hcontribs'⟩⟩
    obtain ⟨hpa, hpb⟩ := List.forall_mem_append.mp hprocs
    exact List.forall_mem_append.mpr ⟨happs hpa, happs' hpb⟩
  | ret p r =>
    have hp : val (.point p) = init := happ (p, init) List.mem_cons_self
    refine ⟨fun hu => ?_, fun _ => List.forall_mem_singleton.mpr ?_, nofun⟩
    · exact (hx _ (List.mem_cons_of_mem _ (List.mem_map_of_mem hu))).trans_eq
        (congrArg (trans p) hp)
    · rintro rfl
      calc x ≤ val (.returned r) := hx _ List.mem_cons_self
        _ = trans (leave r) init := hreturned r
        _ ≤ init := hrets (p, r) List.mem_cons_self
  | proc r body ih =>
    obtain ⟨haleave, happ⟩ := List.forall_mem_append.mp happ
    obtain ⟨habody, haenter⟩ := List.forall_mem_append.mp happ
    obtain ⟨hmid, happs, hcontribs⟩ := ih (S := [.point (enter r)]) hrets habody
      (fun w hw => hx w (List.mem_append_right _ (List.mem_append_left _ hw)))
      fun hu => (hx _ (List.mem_append_right _
        (List.mem_append_right _ (List.mem_map_of_mem hu)))).trans_eq (hreturned r)
    refine ⟨hexits, fun hprocs => ?_, List.forall_mem_append.mpr ⟨nofun,
      List.forall_mem_append.mpr ⟨hcontribs, List.forall_mem_singleton.mpr ?_⟩⟩⟩
    · obtain ⟨hr, hprocs⟩ := List.forall_mem_cons.mp hprocs
      refine List.forall_mem_append.mpr ⟨List.forall_mem_singleton.mpr ?_,
        List.forall_mem_append.mpr ⟨happs hprocs, List.forall_mem_singleton.mpr hr⟩⟩
      rintro rfl
      exact (hx .stop (List.mem_append_left _
        (List.mem_cons_of_mem _ (List.mem_cons_of_mem _ List.mem_cons_self)))).trans_eq hstop
    · rintro rfl
      exact hmid List.mem_cons_self

theorem backward_points (c : Code P K R) (v : V) :
    (((c.backward enter leave init).applications trans slots v).map Prod.fst).Perm
      (c.points enter leave) := by
  induction c generalizing v with
  | skip | point | jump | resume | ret => exact .rfl
  | seq a b iha ihb =>
    show ((_ ++ _ : List _).map Prod.fst).Perm _
    rw [List.map_append]
    exact ((ihb _).append (iha _)).trans List.perm_append_comm
  | alt a b iha ihb =>
    show ((_ ++ _ : List _).map Prod.fst).Perm _
    rw [List.map_append]
    exact (iha _).append (ihb _)
  | proc r body ih =>
    show (([(leave r, init)] ++ (_ ++ ([] ++ [(enter r, _)]))).map Prod.fst).Perm
      ([enter r] ++ (_ ++ [leave r]))
    rw [List.map_append, List.map_append]
    refine List.perm_append_comm.trans ?_
    rw [← List.append_assoc [enter r]]
    exact (List.perm_append_comm.trans ((ih _).append_left _)).append_right _

/-- A procedure is left with the initial value. -/
theorem leave_mem (c : Code P K R) {r : R} (hr : r ∈ c.procs) (S : List (Vertex P K R)) (v : V) :
    (leave r, init) ∈ (c.backward enter leave init).applications trans slots v ∧
      (.returned r, .point (leave r)) ∈ c.edges enter leave S := by
  induction c generalizing S v with
  | skip | point | jump | resume | ret => nomatch hr
  | seq a b iha ihb =>
    rcases List.mem_append.mp hr with hr | hr
    · exact ⟨List.mem_append_right _ (iha hr S _).1, List.mem_append_left _ (iha hr S v).2⟩
    · exact ⟨List.mem_append_left _ (ihb hr S v).1, List.mem_append_right _ (ihb hr _ v).2⟩
  | alt a b iha ihb =>
    rcases List.mem_append.mp hr with hr | hr
    · exact ⟨List.mem_append_left _ (iha hr S v).1, List.mem_append_left _ (iha hr S v).2⟩
    · exact ⟨List.mem_append_right _ (ihb hr S v).1, List.mem_append_right _ (ihb hr S v).2⟩
  | proc q body ih =>
    rcases List.mem_cons.mp hr with rfl | hr
    · exact ⟨List.mem_append_left _ List.mem_cons_self,
        List.mem_append_left _ (List.mem_cons_of_mem _ List.mem_cons_self)⟩
    · exact ⟨List.mem_append_right _ (List.mem_append_left _ (ih hr [] _).1),
        List.mem_append_right _ (List.mem_append_left _ (ih hr _ init).2)⟩

/-- The edges backwards. -/
def back (enter leave : R → P) (c : Code P K R) : List (Vertex P K R × Vertex P K R) :=
  (c.graph enter leave).map Prod.swap

theorem mem_back {c : Code P K R} {u w : Vertex P K R} :
    (u, w) ∈ c.back enter leave ↔ (w, u) ∈ c.graph enter leave := by
  constructor
  · intro h
    obtain ⟨_, he, h⟩ := List.mem_map.mp h
    obtain ⟨rfl, rfl⟩ := Prod.mk.inj h
    exact he
  · exact fun h => List.mem_map.mpr ⟨_, h, rfl⟩

theorem returned_mem_vertices (c : Code P K R) {r : R} (h : .returned r ∈ c.vertices enter leave) :
    r ∈ c.procs ∨ ∃ p, (p, r) ∈ c.rets := by
  induction c with
  | skip => nomatch h
  | point | jump | resume => nomatch List.mem_singleton.mp h
  | seq a b iha ihb | alt a b iha ihb =>
    rcases List.mem_append.mp h with h | h
    · exact (iha h).imp (List.mem_append_left _) fun ⟨p, hp⟩ => ⟨p, List.mem_append_left _ hp⟩
    · exact (ihb h).imp (List.mem_append_right _) fun ⟨p, hp⟩ => ⟨p, List.mem_append_right _ hp⟩
  | ret p q =>
    rcases List.mem_cons.mp h with he | h
    · nomatch he
    · obtain rfl := Vertex.returned.inj (List.mem_singleton.mp h)
      exact .inr ⟨p, List.mem_cons_self⟩
  | proc q body ih =>
    rcases List.mem_cons.mp h with he | h
    · nomatch he
    rcases List.mem_cons.mp h with he | h
    · obtain rfl := Vertex.returned.inj he
      exact .inl List.mem_cons_self
    rcases List.mem_cons.mp h with he | h
    · nomatch he
    · exact (ih h).imp_left (List.mem_cons_of_mem _)

theorem mem_vertices_of_mem_procs (c : Code P K R) {r : R} (h : r ∈ c.procs) :
    .returned r ∈ c.vertices enter leave := by
  induction c with
  | skip | point | jump | resume | ret => nomatch h
  | seq a b iha ihb | alt a b iha ihb =>
    exact List.mem_append.mpr ((List.mem_append.mp h).imp iha ihb)
  | proc q body ih =>
    rcases List.mem_cons.mp h with rfl | h
    · exact List.mem_cons_of_mem _ List.mem_cons_self
    · exact List.mem_cons_of_mem _ (List.mem_cons_of_mem _ (List.mem_cons_of_mem _ (ih h)))

omit [SemilatticeInf V] [OrderTop V] in
/-- The slots of the forward pass are vertices. -/
theorem forward_puts (c : Code P K R) {j : K ⊕ R} (h : j ∈ (c.forward enter leave init).puts) :
    meeting j ∈ c.vertices enter leave := by
  induction c with
  | skip | point | resume => nomatch h
  | jump k =>
    rw [List.mem_singleton.mp h]
    exact List.mem_cons_self
  | seq a b iha ihb | alt a b iha ihb =>
    exact List.mem_append.mpr ((List.mem_append.mp h).imp iha ihb)
  | ret p r =>
    rw [List.mem_singleton.mp h]
    exact List.mem_cons_of_mem _ List.mem_cons_self
  | proc r body ih =>
    rcases List.mem_append.mp ((List.mem_append.mp h).resolve_left (List.not_mem_nil)) with h | h
    · exact List.mem_cons_of_mem _ (List.mem_cons_of_mem _ (List.mem_cons_of_mem _ (ih h)))
    · rw [List.mem_singleton.mp h]
      exact List.mem_cons_of_mem _ List.mem_cons_self

omit [SemilatticeInf V] [OrderTop V] in
/-- The slots of the backward pass are vertices. -/
theorem backward_puts (c : Code P K R) {j : K ⊕ R}
    (h : j ∈ (c.backward enter leave init).puts) : meeting j ∈ c.vertices enter leave := by
  induction c with
  | skip | point | jump | ret => nomatch h
  | resume k =>
    rw [List.mem_singleton.mp h]
    exact List.mem_cons_self
  | seq a b iha ihb => exact List.mem_append.mpr ((List.mem_append.mp h).symm.imp iha ihb)
  | alt a b iha ihb => exact List.mem_append.mpr ((List.mem_append.mp h).imp iha ihb)
  | proc r body ih =>
    rcases List.mem_append.mp ((List.mem_append.mp h).resolve_left (List.not_mem_nil)) with h | h
    · exact List.mem_cons_of_mem _ (List.mem_cons_of_mem _ (List.mem_cons_of_mem _ (ih h)))
    · rw [List.mem_singleton.mp h]
      exact List.mem_cons_of_mem _ List.mem_cons_self

/-- **A backward pass over settled slots solves the equations**, if returns
start with what comes out of the end of their procedures. -/
theorem backward_solves [DecidableEq P] [DecidableEq K] [DecidableEq R] (c : Code P K R)
    {tops : K ⊕ R → V} (hpoints : (c.points enter leave).Nodup)
    (hsettled : (c.backward enter leave init).Settled trans init tops slots)
    (htops : ∀ j, meeting j ∈ c.vertices enter leave → tops j = ⊤)
    (hrets : ∀ pr ∈ c.rets, pr.2 ∈ c.procs)
    (hfix : ∀ pr ∈ c.rets, trans (leave pr.2) init = init) :
    ∃ val : Vertex P K R → V,
      (∀ a ∈ (c.backward enter leave init).applications trans slots init,
        val (.point a.1) = a.2) ∧
      Solves trans (c.vertices enter leave) (c.back enter leave) .stop init val := by
  set apps := (c.backward enter leave init).applications trans slots init with happs
  have hperm : (apps.map Prod.fst).Perm (c.points enter leave) := c.backward_points init
  set val : Vertex P K R → V := value apps ((c.backward enter leave init).eval trans slots init)
    init (slots ∘ .inl) (fun r => trans (leave r) init) with hval
  have hpoint : ∀ a ∈ apps, val (.point a.1) = a.2 :=
    fun a ha => value_point (hperm.nodup_iff.mpr hpoints) _ _ _ _ ha
  have hstart : ∀ u ∈ [Vertex.start], val u ≤ (c.backward enter leave init).eval trans slots init :=
    List.forall_mem_singleton.mpr le_rfl
  obtain ⟨hexits, hedges⟩ := c.backward_edges rfl (fun _ => rfl) (fun _ => rfl)
    (fun pr hpr => (hfix pr hpr).ge) hpoint hsettled.below hstart
  refine ⟨val, hpoint, rfl, fun w hw => ⟨?_, fun x hx => ?_⟩⟩
  · rintro _ ⟨u, hu, rfl⟩
    have hstart := (c.ne_of_mem_vertices hw).1
    rcases List.mem_append.mp (mem_back.mp hu) with hu | hu
    · exact hedges _ hu hstart
    · obtain ⟨_, hw', he⟩ := List.mem_map.mp hu
      obtain ⟨rfl, rfl⟩ := Prod.mk.inj he
      exact hexits _ hw'
  · have hxedge : ∀ u, (w, u) ∈ c.graph enter leave → x ≤ u.out trans (val u) :=
      fun u hu => hx ⟨u, mem_back.mpr hu, rfl⟩
    obtain ⟨-, happ, hcontrib⟩ := c.backward_le (S := [.start]) (v := init) (u := w)
      (fun _ => rfl) (fun _ => rfl) (fun pr hpr => (hfix pr hpr).le) rfl hpoint
      (fun u hu => hxedge u (List.mem_append_left _ hu))
      fun hw' => hxedge .stop (List.mem_append_right _ (List.mem_map_of_mem hw'))
    cases w with
    | start => exact absurd rfl (c.ne_of_mem_vertices hw).1
    | stop => exact absurd rfl (c.ne_of_mem_vertices hw).2
    | label k =>
      exact (hsettled.isGLB (htops (.inl k) hw)).2 fun y hy => hcontrib (.inl k, y) hy rfl
    | returned r =>
      have hr : r ∈ c.procs :=
        (c.returned_mem_vertices hw).elim id fun ⟨p, hp⟩ => hrets (p, r) hp
      obtain ⟨hleave, hedge⟩ := c.leave_mem hr [.start] init
      calc x ≤ trans (leave r) (val (.point (leave r))) :=
            hxedge (.point (leave r)) (List.mem_append_left _ hedge)
        _ = trans (leave r) init := congrArg _ (hpoint _ hleave)
    | point p =>
      obtain ⟨a, ha, rfl⟩ := List.mem_map.mp (hperm.mem_iff.mpr (c.point_mem_vertices hw))
      refine (happ (fun r hr he => ?_) a ha rfl).trans_eq (hpoint a ha).symm
      exact (hsettled.isGLB (htops (.inr r) (c.mem_vertices_of_mem_procs hr))).2
        fun y hy => hcontrib (.inr r, y) hy he

/-! ### Where a return goes -/

theorem mem_points_of_mem_rets (c : Code P K R) {pr : P × R} (h : pr ∈ c.rets) :
    pr.1 ∈ c.points enter leave := by
  induction c with
  | skip | point | jump | resume => nomatch h
  | seq a b iha ihb | alt a b iha ihb =>
    exact List.mem_append.mpr ((List.mem_append.mp h).imp iha ihb)
  | ret p r =>
    rw [List.mem_singleton.mp h]
    exact List.mem_cons_self
  | proc q body ih => exact List.mem_cons_of_mem _ (List.mem_append_left _ (ih h))

/-- Control does not come out of a point that is not in the code. -/
theorem not_from (c : Code P K R) {S : List (Vertex P K R)} {p : P}
    (hp : p ∉ c.points enter leave) (hus : .point p ∉ S) :
    .point p ∉ c.exits S ∧ ∀ w, (.point p, w) ∉ c.edges enter leave S := by
  have hvertices : .point p ∉ c.vertices enter leave := fun h => hp (c.point_mem_vertices h)
  constructor
  · exact fun h => (c.exits_mem h).elim hus hvertices
  · intro w h
    rcases (c.edges_mem h).1 with h | h | h
    · exact hus h
    · nomatch h
    · exact hvertices h

/-- **A return goes out of its procedure only.** -/
theorem ret_edges (c : Code P K R) {S : List (Vertex P K R)} {p : P} {r : R}
    (hpoints : (c.points enter leave).Nodup) (hpr : (p, r) ∈ c.rets) (hus : .point p ∉ S) :
    (.point p, .returned r) ∈ c.edges enter leave S ∧ .point p ∉ c.exits S ∧
      ∀ w, (.point p, w) ∈ c.edges enter leave S → w = .returned r := by
  induction c generalizing S with
  | skip | point | jump | resume => nomatch hpr
  | seq a b iha ihb =>
    obtain ⟨hna, hnb, hdisj⟩ := List.nodup_append.mp hpoints
    rcases List.mem_append.mp hpr with ha | hb
    · have hp : p ∉ b.points enter leave := fun h => hdisj p (a.mem_points_of_mem_rets ha) p h rfl
      obtain ⟨hmem, hexits, hedges⟩ := iha hna ha hus
      obtain ⟨hexits', hedges'⟩ := b.not_from hp hexits
      refine ⟨List.mem_append_left _ hmem, hexits', fun w hw => ?_⟩
      exact (List.mem_append.mp hw).elim (hedges w) fun h => absurd h (hedges' w)
    · have hp : p ∉ a.points enter leave := fun h => hdisj p h p (b.mem_points_of_mem_rets hb) rfl
      obtain ⟨hexits, hedges⟩ := a.not_from hp hus
      obtain ⟨hmem, hexits', hedges'⟩ := ihb hnb hb hexits
      refine ⟨List.mem_append_right _ hmem, hexits', fun w hw => ?_⟩
      exact (List.mem_append.mp hw).elim (fun h => absurd h (hedges w)) (hedges' w)
  | alt a b iha ihb =>
    obtain ⟨hna, hnb, hdisj⟩ := List.nodup_append.mp hpoints
    rcases List.mem_append.mp hpr with ha | hb
    · have hp : p ∉ b.points enter leave := fun h => hdisj p (a.mem_points_of_mem_rets ha) p h rfl
      obtain ⟨hmem, hexits, hedges⟩ := iha hna ha hus
      obtain ⟨hexits', hedges'⟩ := b.not_from hp hus
      refine ⟨List.mem_append_left _ hmem, List.not_mem_append hexits hexits', fun w hw => ?_⟩
      exact (List.mem_append.mp hw).elim (hedges w) fun h => absurd h (hedges' w)
    · have hp : p ∉ a.points enter leave := fun h => hdisj p h p (b.mem_points_of_mem_rets hb) rfl
      obtain ⟨hexits, hedges⟩ := a.not_from hp hus
      obtain ⟨hmem, hexits', hedges'⟩ := ihb hnb hb hus
      refine ⟨List.mem_append_right _ hmem, List.not_mem_append hexits hexits', fun w hw => ?_⟩
      exact (List.mem_append.mp hw).elim (fun h => absurd h (hedges w)) (hedges' w)
  | ret q q' =>
    obtain ⟨rfl, rfl⟩ := Prod.mk.inj (List.mem_singleton.mp hpr)
    refine ⟨List.mem_cons_self, nofun, fun w hw => ?_⟩
    rcases List.mem_cons.mp hw with he | hw
    · exact (Prod.mk.inj he).2
    · obtain ⟨u, hu, he⟩ := List.mem_map.mp hw
      exact absurd ((Prod.mk.inj he).1 ▸ hu) hus
  | proc q body ih =>
    obtain ⟨henter, hbody⟩ := List.nodup_cons.mp hpoints
    obtain ⟨hnbody, -, hleave⟩ := List.nodup_append.mp hbody
    have hp : p ∈ body.points enter leave := body.mem_points_of_mem_rets hpr
    have hpe : p ≠ enter q := fun he => henter (he ▸ List.mem_append_left _ hp)
    have hpl : p ≠ leave q := hleave p hp (leave q) List.mem_cons_self
    obtain ⟨hmem, hexits, hedges⟩ := ih (S := [.point (enter q)]) hnbody hpr
      fun h => hpe (Vertex.point.inj (List.mem_singleton.mp h))
    refine ⟨List.mem_append_right _ (List.mem_append_left _ hmem), hus, fun w hw => ?_⟩
    rcases List.mem_append.mp hw with hw | hw
    · rcases List.mem_cons.mp hw with he | hw
      · nomatch he
      rcases List.mem_cons.mp hw with he | hw
      · nomatch he
      · exact absurd (Vertex.point.inj (Prod.mk.inj (List.mem_singleton.mp hw)).1) hpl
    · rcases List.mem_append.mp hw with hw | hw
      · exact hedges w hw
      · obtain ⟨u, hu, he⟩ := List.mem_map.mp hw
        exact absurd ((Prod.mk.inj he).1 ▸ hu) hexits

theorem returned_exits (c : Code P K R) {S : List (Vertex P K R)} {r : R}
    (h : .returned r ∈ c.exits S) : .returned r ∈ S := by
  induction c generalizing S with
  | skip | proc => exact h
  | jump | ret => nomatch h
  | point | resume => nomatch List.mem_singleton.mp h
  | seq a b iha ihb => exact iha (ihb h)
  | alt a b iha ihb => exact (List.mem_append.mp h).elim iha ihb

/-- What has left the body of a procedure goes to its end. -/
theorem returned_edges (c : Code P K R) {S : List (Vertex P K R)} {r : R} {w : Vertex P K R}
    (h : (.returned r, w) ∈ c.edges enter leave S) (hus : .returned r ∉ S) :
    w = .point (leave r) := by
  induction c generalizing S with
  | skip | resume => nomatch h
  | point | jump =>
    obtain ⟨u, hu, he⟩ := List.mem_map.mp h
    exact absurd ((Prod.mk.inj he).1 ▸ hu) hus
  | seq a b iha ihb =>
    exact (List.mem_append.mp h).elim (iha · hus) (ihb · fun hu => hus (a.returned_exits hu))
  | alt a b iha ihb => exact (List.mem_append.mp h).elim (iha · hus) (ihb · hus)
  | ret p q =>
    rcases List.mem_cons.mp h with he | h
    · nomatch he
    · obtain ⟨u, hu, he⟩ := List.mem_map.mp h
      exact absurd ((Prod.mk.inj he).1 ▸ hu) hus
  | proc q body ih =>
    have hq : (.returned r : Vertex P K R) ∉ [.point (enter q)] :=
      fun h => nomatch List.mem_singleton.mp h
    rcases List.mem_append.mp h with h | h
    · rcases List.mem_cons.mp h with he | h
      · nomatch he
      rcases List.mem_cons.mp h with he | h
      · obtain ⟨hr, rfl⟩ := Prod.mk.inj he
        rw [Vertex.returned.inj hr]
      · nomatch (Prod.mk.inj (List.mem_singleton.mp h)).1
    · rcases List.mem_append.mp h with h | h
      · exact ih h hq
      · obtain ⟨u, hu, he⟩ := List.mem_map.mp h
        exact absurd (body.returned_exits ((Prod.mk.inj he).1 ▸ hu)) hq

theorem ret_mem (c : Code P K R) {pr : P × R} (hpr : pr ∈ c.rets) (v : V) :
    (pr.1, init) ∈ (c.backward enter leave init).applications trans slots v := by
  induction c generalizing v with
  | skip | point | jump | resume => nomatch hpr
  | seq a b iha ihb =>
    exact List.mem_append.mpr ((List.mem_append.mp hpr).symm.imp (ihb · v) (iha · _))
  | alt a b iha ihb =>
    exact List.mem_append.mpr ((List.mem_append.mp hpr).imp (iha · v) (ihb · v))
  | ret p r =>
    rw [List.mem_singleton.mp hpr]
    exact List.mem_cons_self
  | proc q body ih => exact List.mem_append_right _ (List.mem_append_left _ (ih hpr _))

/-- **A backward pass solves the equations only if** returns start with what
comes out of the end of their procedures. -/
theorem leave_eq_of_backward_solves (c : Code P K R) (hpoints : (c.points enter leave).Nodup)
    {pr : P × R} (hpr : pr ∈ c.rets) (hr : pr.2 ∈ c.procs)
    (happ : ∀ a ∈ (c.backward enter leave init).applications trans slots init,
      val (.point a.1) = a.2)
    (hsolves : Solves trans (c.vertices enter leave) (c.back enter leave) .stop init val) :
    trans (leave pr.2) init = init := by
  obtain ⟨p, r⟩ := pr
  obtain ⟨hleave, hedge⟩ := c.leave_mem hr [.start] init
  have hleave : val (.point (leave r)) = init := happ _ hleave
  have hp : val (.point p) = init := happ _ (c.ret_mem hpr init)
  obtain ⟨hmem, hexits, hedges⟩ := c.ret_edges hpoints hpr (S := [.start])
    fun h => nomatch List.mem_singleton.mp h
  have hpvertex : .point p ∈ c.vertices enter leave := by
    rcases (c.edges_mem hmem).1 with h | h | h
    · nomatch List.mem_singleton.mp h
    · nomatch h
    · exact h
  have hrvertex : .returned r ∈ c.vertices enter leave := c.mem_vertices_of_mem_procs hr
  have hgraph {u w : Vertex P K R} (h : (u, w) ∈ c.graph enter leave)
      (hu : u ∉ c.exits [.start]) : (u, w) ∈ c.edges enter leave [.start] := by
    refine (List.mem_append.mp h).elim id fun h => ?_
    obtain ⟨_, hu', he⟩ := List.mem_map.mp h
    exact absurd ((Prod.mk.inj he).1 ▸ hu') hu
  have hr' : .returned r ∉ c.exits [.start] :=
    fun h => nomatch List.mem_singleton.mp (c.returned_exits h)
  -- both vertices have one edge, so the equations say what goes along it
  have hreturned : val (.returned r) = trans (leave r) init := by
    have hglb := hsolves.isGLB _ hrvertex
    refine le_antisymm ?_ (hglb.2 ?_)
    · refine (hglb.1 ⟨_, mem_back.mpr (List.mem_append_left _ hedge), rfl⟩).trans_eq ?_
      exact congrArg (trans (leave r)) hleave
    · rintro _ ⟨w, hw, rfl⟩
      rw [c.returned_edges (hgraph (mem_back.mp hw) hr') fun h => nomatch List.mem_singleton.mp h]
      exact (congrArg (trans (leave r)) hleave).ge
  have hpoint : val (.point p) = val (.returned r) := by
    have hglb := hsolves.isGLB _ hpvertex
    refine le_antisymm ?_ (hglb.2 ?_)
    · exact hglb.1 ⟨_, mem_back.mpr (List.mem_append_left _ hmem), rfl⟩
    · rintro _ ⟨w, hw, rfl⟩
      rw [hedges w (hgraph (mem_back.mp hw) hexits)]
      exact le_rfl
  rw [← hreturned, ← hpoint, hp]

end

end Code

end FlowGraph
