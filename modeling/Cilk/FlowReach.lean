import Cilk.FlowGraph

/-!
# What comes along the edges

A forward pass over bits of any kind answers questions of the form: can this
come here from there? An answer is read off the values by a bound `x` that a
meet is below only if one of the two is: the values at or below `x` are those
that say yes. Where the transfer functions only ask if they have been told
yes, `Marks`, the value at a vertex says yes exactly if there is a way to the
vertex along the edges.

That a way is found is soundness (`Marks.le_of_comes`). That nothing is found
without a way is seen on the passes themselves: no slot ever says yes before
there is a way to it (`Code.iterate_sourced`).
-/

namespace FlowGraph

open Confluence

variable {P K R V : Type}

section

variable (G : List (Vertex P K R × Vertex P K R)) (starts stops : Vertex P K R → Prop)

/-- What some vertices give out, and some do not let through, comes to the
vertex. -/
inductive Comes : Vertex P K R → Prop
  | first {u w : Vertex P K R} : starts u → (u, w) ∈ G → Comes w
  | next {u w : Vertex P K R} : Comes u → ¬ stops u → (u, w) ∈ G → Comes w

/-- It leaves the vertex. -/
def Leaves (u : Vertex P K R) : Prop := starts u ∨ Comes G starts stops u ∧ ¬ stops u

variable {G starts stops}

theorem Leaves.comes {u w : Vertex P K R} (h : Leaves G starts stops u) (he : (u, w) ∈ G) :
    Comes G starts stops w := by
  rcases h with h | ⟨h, hs⟩
  · exact .first h he
  · exact .next h hs he

end

section

variable [SemilatticeInf V] [OrderTop V]

/-- **The bound `x` marks** what starts at some vertices and is stopped at
others. -/
structure Marks (trans : P → V → V) (init x : V) (starts stops : Vertex P K R → Prop) :
    Prop where
  inf : ∀ v w, v ⊓ w ≤ x → v ≤ x ∨ w ≤ x
  top : ¬ ⊤ ≤ x
  start : starts .start ↔ init ≤ x
  out : ∀ u v, u ≠ .start → (u.out trans v ≤ x ↔ starts u ∨ v ≤ x ∧ ¬ stops u)

variable {trans : P → V → V} {init x : V} {starts stops : Vertex P K R → Prop}
  {G : List (Vertex P K R × Vertex P K R)}

namespace Marks

theorem leaves (hm : Marks trans init x starts stops) {u : Vertex P K R} {v : V}
    (hu : u ≠ .start) (hv : v ≤ x → Comes G starts stops u) (h : u.out trans v ≤ x) :
    Leaves G starts stops u :=
  ((hm.out u v hu).mp h).imp_right fun h => ⟨hv h.1, h.2⟩

/-- **A way is found** by what solves the equations. -/
theorem le_of_comes (hm : Marks trans init x starts stops) {ws : List (Vertex P K R)}
    {target : Vertex P K R} {val : Vertex P K R → V} (h : Solves trans ws G .start init val)
    (hG : ∀ u w, (u, w) ∈ G → u ≠ target ∧ w ≠ .start ∧ (w ∈ ws ∨ w = target))
    {w : Vertex P K R} (hw : Comes G starts stops w) : w ≠ target → val w ≤ x := by
  have hedge : ∀ {u w : Vertex P K R}, (u, w) ∈ G → u.out trans (val u) ≤ x → w ≠ target →
      val w ≤ x := by
    intro u w he hu hw
    calc val w ≤ u.out trans (val u) :=
          (h.isGLB w ((hG u w he).2.2.resolve_right hw)).1 ⟨u, he, rfl⟩
      _ ≤ x := hu
  induction hw with
  | @first u w hstarts he =>
    refine hedge he ?_
    by_cases hu : u = .start
    · subst hu
      show val .start ≤ x
      rw [h.source]
      exact hm.start.mp hstarts
    · exact (hm.out u _ hu).mpr (.inl hstarts)
  | @next u w hcomes hstops he ih =>
    have hu : u ≠ .start := by
      cases hcomes with
      | first _ he' => exact (hG _ _ he').2.1
      | next _ _ he' => exact (hG _ _ he').2.1
    exact hedge he ((hm.out u _ hu).mpr (.inr ⟨ih (hG u w he).1, hstops⟩))

end Marks

variable [DecidableEq V] [DecidableEq K] [DecidableEq R]

namespace Code

/-- No slot of the vertices `ws` says yes without a way, and no application but
the `old` ones. -/
structure Sourced (G : List (Vertex P K R × Vertex P K R)) (starts stops : Vertex P K R → Prop)
    (x : V) (ws : List (Vertex P K R)) (old : List (P × V)) (s : State P (K ⊕ R) V) :
    Prop where
  slots : ∀ j, meeting j ∈ ws → s.slots j ≤ x → Comes G starts stops (meeting j)
  applied : ∀ a ∈ s.applied, a ∈ old ∨ (a.2 ≤ x → Comes G starts stops (.point a.1))

variable {ws : List (Vertex P K R)} {old : List (P × V)} {s : State P (K ⊕ R) V}

omit [OrderTop V] [DecidableEq V] [DecidableEq K] [DecidableEq R] in
theorem Sourced.apply {p : P} {v : V} (h : Sourced G starts stops x ws old s)
    (hv : v ≤ x → Comes G starts stops (.point p)) :
    Sourced G starts stops x ws old { s with applied := s.applied ++ [(p, v)] } where
  slots := h.slots
  applied := List.forall_mem_append.mpr ⟨h.applied, List.forall_mem_singleton.mpr (.inr hv)⟩

theorem Sourced.flowInto (hm : Marks trans init x starts stops) {j : K ⊕ R} {v : V}
    (h : Sourced G starts stops x ws old s) (hv : v ≤ x → Comes G starts stops (meeting j)) :
    Sourced G starts stops x ws old (flowInto j v s).2 where
  slots i hi hx := by
    rw [flowInto_slots] at hx
    by_cases hij : i = j
    · subst hij
      rw [Function.update_self] at hx
      exact (hm.inf _ _ hx).elim (h.slots i hi) hv
    · rw [Function.update_of_ne hij] at hx
      exact h.slots i hi hx
  applied := by
    have happlied : (Confluence.flowInto j v s).2.applied = s.applied := by
      rw [flowInto_eq]
      split_ifs <;> rfl
    rw [happlied]
    exact h.applied

/-- **A pass finds nothing without a way.** -/
theorem forward_sourced (hm : Marks trans init x starts stops) {enter leave : R → P}
    (c : Code P K R) {S : List (Vertex P K R)} {v : V}
    (hG : ∀ e ∈ c.edges enter leave S, e ∈ G) (hws : ∀ w ∈ c.vertices enter leave, w ∈ ws)
    (hv : v ≤ x → ∃ u ∈ S, Leaves G starts stops u) (hs : Sourced G starts stops x ws old s) :
    (((c.forward enter leave init).run trans v s).1 ≤ x →
        ∃ u ∈ c.exits S, Leaves G starts stops u) ∧
      Sourced G starts stops x ws old ((c.forward enter leave init).run trans v s).2 := by
  induction c generalizing S v s with
  | skip => exact ⟨hv, hs⟩
  | point p =>
    have hcomes : v ≤ x → Comes G starts stops (.point p) := by
      intro h
      obtain ⟨u, hu, hleaves⟩ := hv h
      exact hleaves.comes (hG _ (List.mem_map_of_mem hu))
    exact ⟨fun h => ⟨_, List.mem_singleton_self _, hm.leaves nofun hcomes h⟩, hs.apply hcomes⟩
  | jump k =>
    refine ⟨fun h => absurd h hm.top, hs.flowInto hm fun h => ?_⟩
    obtain ⟨u, hu, hleaves⟩ := hv h
    exact hleaves.comes (hG _ (List.mem_map_of_mem hu))
  | resume k =>
    have hcomes := hs.slots (.inl k) (hws _ (List.mem_singleton_self _))
    exact ⟨fun h => ⟨_, List.mem_singleton_self _, hm.leaves (u := .label k) nofun hcomes h⟩, hs⟩
  | seq a b iha ihb =>
    obtain ⟨hGa, hGb⟩ := List.forall_mem_append.mp hG
    obtain ⟨hwa, hwb⟩ := List.forall_mem_append.mp hws
    obtain ⟨hva, hsa⟩ := iha hGa hwa hv hs
    exact ihb hGb hwb hva hsa
  | alt a b iha ihb =>
    obtain ⟨hGa, hGb⟩ := List.forall_mem_append.mp hG
    obtain ⟨hwa, hwb⟩ := List.forall_mem_append.mp hws
    obtain ⟨hva, hsa⟩ := iha hGa hwa hv hs
    obtain ⟨hvb, hsb⟩ := ihb hGb hwb hv hsa
    refine ⟨fun h => ?_, hsb⟩
    rcases hm.inf _ _ h with h | h
    · obtain ⟨u, hu, hleaves⟩ := hva h
      exact ⟨u, List.mem_append_left _ hu, hleaves⟩
    · obtain ⟨u, hu, hleaves⟩ := hvb h
      exact ⟨u, List.mem_append_right _ hu, hleaves⟩
  | ret p r =>
    obtain ⟨hret, hGS⟩ := List.forall_mem_cons.mp hG
    have hcomes : v ≤ x → Comes G starts stops (.point p) := by
      intro h
      obtain ⟨u, hu, hleaves⟩ := hv h
      exact hleaves.comes (hGS _ (List.mem_map_of_mem hu))
    refine ⟨fun h => absurd h hm.top, (hs.apply hcomes).flowInto hm fun h => ?_⟩
    exact (hm.leaves (u := .point p) nofun hcomes h).comes hret
  | proc r body ih =>
    obtain ⟨hGends, hGbody⟩ := List.forall_mem_append.mp hG
    obtain ⟨hGbody, hGexits⟩ := List.forall_mem_append.mp hGbody
    have hwr : (.returned r : Vertex P K R) ∈ ws :=
      hws _ (List.mem_cons_of_mem _ List.mem_cons_self)
    have hwbody : ∀ w ∈ body.vertices enter leave, w ∈ ws := fun w hw =>
      hws w (List.mem_cons_of_mem _ (List.mem_cons_of_mem _ (List.mem_cons_of_mem _ hw)))
    have henter : init ≤ x → Comes G starts stops (.point (enter r)) := fun h =>
      .first (hm.start.mpr h) (hGends _ List.mem_cons_self)
    obtain ⟨hvbody, hsbody⟩ := ih (S := [.point (enter r)]) hGbody hwbody
      (fun h => ⟨_, List.mem_singleton_self _, hm.leaves (u := .point (enter r)) nofun henter h⟩)
      (hs.apply henter)
    refine ⟨hv, ?_⟩
    have hput := hsbody.flowInto hm (j := .inr r) fun h => by
      obtain ⟨u, hu, hleaves⟩ := hvbody h
      exact hleaves.comes (hGexits _ (List.mem_map_of_mem hu))
    refine hput.apply fun h => ?_
    exact (hm.leaves (u := .returned r) nofun (hput.slots (.inr r) hwr) h).comes
      (hGends _ (List.mem_cons_of_mem _ List.mem_cons_self))

/-- **The last pass finds nothing without a way**, after passes until nothing
changes that begin with nothing in the slots. -/
theorem iterate_sourced (hm : Marks trans init x starts stops) {enter leave : R → P}
    (c : Code P K R) {fuel : ℕ} {s t : State P (K ⊕ R) V}
    (hs : ∀ j, meeting j ∈ c.vertices enter leave → s.slots j = ⊤)
    (h : iterate ((c.forward enter leave init).run trans init) fuel s = some t) :
    ∀ a ∈ ((c.forward enter leave init).run trans init { t with applied := [] }).2.applied,
      a.2 ≤ x → Comes (c.graph enter leave) starts stops (.point a.1) := by
  have hstart : init ≤ x → ∃ u ∈ [Vertex.start],
      Leaves (c.graph enter leave) starts stops u := fun h =>
    ⟨_, List.mem_singleton_self _, .inl (hm.start.mpr h)⟩
  have hpass : ∀ u : State P (K ⊕ R) V,
      (∀ j, meeting j ∈ c.vertices enter leave → u.slots j ≤ x →
        Comes (c.graph enter leave) starts stops (meeting j)) →
      Sourced (c.graph enter leave) starts stops x (c.vertices enter leave) u.applied
        ((c.forward enter leave init).run trans init u).2 := fun u hu =>
    (c.forward_sourced hm (fun e he => List.mem_append_left _ he) (fun _ hw => hw) hstart
      ⟨hu, fun a ha => .inl ha⟩).2
  obtain ⟨ht, -⟩ := iterate_induction
    (I := fun t => ∀ j, meeting j ∈ c.vertices enter leave → t.slots j ≤ x →
      Comes (c.graph enter leave) starts stops (meeting j))
    (fun j hj hx => absurd (hs j hj ▸ hx) hm.top)
    (fun u hu => (hpass { u with changed := false } hu).slots) h
  exact fun a ha => ((hpass { t with applied := [] } ht).applied a ha).resolve_left nofun

end Code

end

end FlowGraph
