import Mathlib.Data.List.Basic
import Mathlib.Logic.Relation
import Mathlib.Order.RelClasses
import Mathlib.Tactic

/-!
# Mutual exclusion and lock orders

Locks with an owner, and agents with the list of locks they hold. `Mutex.Held`
says that the two views agree, and `Mutex.Held.update` is the rule for a step
of one agent: it may only take locks that are free.

The second half is the argument that an ordered discipline cannot deadlock:
where every request is above everything the agent holds, the graph of who
waits for whom has no cycle, whether or not the order changes along the run.
-/

namespace Mutex

variable {W L : Type*}

/-- Every lock an agent holds is owned by it, and every owned lock is held,
once. -/
structure Held (owner : L → Option W) (held : W → List L) : Prop where
  mem_held : ∀ w l, l ∈ held w ↔ owner l = some w
  nodup : ∀ w, (held w).Nodup

namespace Held

variable {owner owner' : L → Option W} {held held' : W → List L}

theorem unique (h : Held owner held) {u w : W} {l : L} (hu : l ∈ held u) (hw : l ∈ held w) :
    u = w :=
  Option.some.inj (((h.mem_held u l).mp hu).symm.trans ((h.mem_held w l).mp hw))

theorem not_mem_of_free (h : Held owner held) {w : W} {l : L} (hl : owner l = none) :
    l ∉ held w := by
  rw [h.mem_held, hl]
  nofun

/-- **A step of agent `w`**: the locks it no longer holds become free, and
those it comes to hold were free. -/
theorem update [DecidableEq W] [DecidableEq L] (h : Held owner held) (w : W)
    (hother : ∀ u, u ≠ w → held' u = held u)
    (hnew : ∀ l, l ∈ held' w → l ∈ held w ∨ owner l = none)
    (hnodup : (held' w).Nodup)
    (howner : ∀ l, owner' l =
      if l ∈ held' w then some w else if l ∈ held w then none else owner l) :
    Held owner' held' := by
  constructor
  · intro u l
    have hmem := h.mem_held
    rw [howner]
    by_cases hu : u = w
    · subst hu
      split_ifs with hl hl' <;> grind
    · rw [hother u hu]
      split_ifs with hl hl'
      · rcases hnew l hl with hl | hl <;> grind
      · grind
      · exact hmem u l
  · intro u
    by_cases hu : u = w
    · exact hu ▸ hnodup
    · rw [hother u hu]
      exact h.nodup u

theorem same (h : Held owner held) (hheld : ∀ u, held' u = held u)
    (howner : ∀ l, owner' l = owner l) : Held owner' held' := by
  have hheld : held' = held := funext hheld
  have howner : owner' = owner := funext howner
  rw [hheld, howner]
  exact h

theorem acquire [DecidableEq W] [DecidableEq L] (h : Held owner held) (w : W) (l : L)
    (hother : ∀ u, u ≠ w → held' u = held u) (hw : held' w = l :: held w)
    (hfree : owner l = none)
    (howner : ∀ m, owner' m = if m = l then some w else owner m) : Held owner' held' := by
  have hl := h.not_mem_of_free hfree (w := w)
  have hmem := h.mem_held w
  refine h.update w hother ?_ ?_ ?_
  · rw [hw]
    grind
  · rw [hw]
    exact List.nodup_cons.mpr ⟨hl, h.nodup w⟩
  · intro m
    rw [howner, hw]
    grind

theorem release [DecidableEq W] [DecidableEq L] (h : Held owner held) (w : W) (l : L)
    (hother : ∀ u, u ≠ w → held' u = held u) (hw : (held w).Perm (l :: held' w))
    (howner : ∀ m, owner' m = if m = l then none else owner m) : Held owner' held' := by
  have hmem := h.mem_held w
  have hnodup := hw.nodup_iff.mp (h.nodup w)
  refine h.update w hother ?_ (List.nodup_cons.mp hnodup).2 ?_
  · intro m hm
    exact .inl (hw.mem_iff.mpr (List.mem_cons_of_mem _ hm))
  · intro m
    have hiff : m ∈ held w ↔ m = l ∨ m ∈ held' w := by rw [hw.mem_iff, List.mem_cons]
    have hnot := (List.nodup_cons.mp hnodup).1
    rw [howner]
    grind

theorem releaseAll [DecidableEq W] [DecidableEq L] (h : Held owner held) (w : W) (l l' : L)
    (hother : ∀ u, u ≠ w → held' u = held u) (hheld : held w = [l, l']) (hw : held' w = [])
    (howner : ∀ m, owner' m = if m = l ∨ m = l' then none else owner m) :
    Held owner' held' := by
  refine h.update w hother ?_ ?_ ?_
  · simp [hw]
  · simp [hw]
  · intro m
    rw [howner, hw, hheld]
    simp

end Held

/-! ## One mutex -/

/-- A single mutex is owned by the agent inside a critical section, if there
is one. -/
def Exclusive (owner : Option W) (critical : W → Bool) : Prop :=
  ∀ w, owner = some w ↔ critical w = true

namespace Exclusive

variable {owner : Option W} {critical critical' : W → Bool}

/-- No two agents are inside a critical section. -/
theorem unique (h : Exclusive owner critical) {u w : W} (hu : critical u = true)
    (hw : critical w = true) : u = w :=
  Option.some.inj (((h u).mpr hu).symm.trans ((h w).mpr hw))

/-- A step that neither takes nor gives back the mutex. -/
theorem same (h : Exclusive owner critical) (hc : ∀ w, critical' w = critical w) :
    Exclusive owner critical' := by
  rw [funext hc]
  exact h

/-- Agent `w` takes the mutex. -/
theorem lock (h : Exclusive owner critical) (w : W) (hfree : owner = none)
    (hother : ∀ u, u ≠ w → critical' u = critical u) (hw : critical' w = true) :
    Exclusive (some w) critical' := by
  intro u
  by_cases hu : u = w
  · rw [hu, hw]
    exact iff_of_true rfl rfl
  · rw [hother u hu, ← h u, hfree]
    exact iff_of_false (fun he => hu (Option.some.inj he).symm) nofun

/-- Agent `w` gives the mutex back. -/
theorem unlock (h : Exclusive owner critical) (w : W) (hheld : critical w = true)
    (hother : ∀ u, u ≠ w → critical' u = critical u) (hw : critical' w = false) :
    Exclusive none critical' := by
  intro u
  by_cases hu : u = w
  · rw [hu, hw]
    exact iff_of_false nofun nofun
  · rw [hother u hu]
    exact iff_of_false nofun (fun hc => hu (h.unique hc hheld))

end Exclusive

/-! ## Waiting -/

/-- Agent `u` requests a lock that `w` holds. -/
def Waits (request : W → Option L) (held : W → List L) (u w : W) : Prop :=
  ∃ l, request u = some l ∧ l ∈ held w

variable {request : W → Option L} {held : W → List L} {lt : L → L → Prop}

/-- Along a chain of waiting agents the requests go up. -/
theorem Waits.lt_of_transGen [IsTrans L lt]
    (hord : ∀ w l, request w = some l → ∀ l' ∈ held w, lt l' l) {u w : W}
    (h : Relation.TransGen (Waits request held) u w) :
    ∀ l, request u = some l → ∃ l', l' ∈ held w ∧ (l = l' ∨ lt l l') := by
  induction h with
  | single hw =>
    intro l hl
    obtain ⟨l', hl', hmem⟩ := hw
    rw [hl] at hl'
    exact ⟨l', hmem, .inl (Option.some.inj hl')⟩
  | tail _ hw ih =>
    intro l hl
    obtain ⟨m, hm, hle⟩ := ih l hl
    obtain ⟨n, hn, hmem⟩ := hw
    have hmn : lt m n := hord _ n hn m hm
    refine ⟨n, hmem, .inr ?_⟩
    rcases hle with rfl | hlt
    · exact hmn
    · exact trans_of lt hlt hmn

/-- **No deadlock**: if every request is strictly above every lock the agent
holds, no agent waits for itself through others. -/
theorem Waits.acyclic [IsStrictOrder L lt]
    (hord : ∀ w l, request w = some l → ∀ l' ∈ held w, lt l' l) (w : W) :
    ¬ Relation.TransGen (Waits request held) w w := by
  intro h
  have hw : ∃ l, request w = some l := by
    cases Relation.TransGen.head'_iff.mp h with
    | intro v hv => exact ⟨hv.1.choose, hv.1.choose_spec.1⟩
  obtain ⟨l, hl⟩ := hw
  obtain ⟨l', hmem, hle⟩ := Waits.lt_of_transGen hord h l hl
  have hlt : lt l' l := hord w l hl l' hmem
  rcases hle with rfl | hle
  · exact irrefl_of lt l hlt
  · exact irrefl_of lt l (trans_of lt hle hlt)

/-- **No deadlock with hidden locks**: a lock that no agent requests while it
holds another one closes no cycle, and need not be in the order. -/
theorem Waits.acyclic_of_hidden [IsStrictOrder L lt] (hidden : L → Prop)
    (hord : ∀ w l, request w = some l → ∀ l' ∈ held w, ¬ hidden l' → lt l' l)
    (hhidden : ∀ w l, request w = some l → held w ≠ [] → ¬ hidden l) (w : W) :
    ¬ Relation.TransGen (Waits request held) w w := by
  classical
  -- the agents that hold a lock, with the locks that may be waited for
  let request₁ : W → Option L := fun u => if held u = [] then none else request u
  let held₁ : W → List L := fun u => (held u).filter fun l => ¬ hidden l
  have hedge : ∀ u v, held u ≠ [] → Waits request held u v → Waits request₁ held₁ u v := by
    rintro u v hu ⟨l, hl, hmem⟩
    refine ⟨l, by rw [← hl]; exact if_neg hu, ?_⟩
    exact List.mem_filter.mpr ⟨hmem, by simpa using hhidden u l hl hu⟩
  have hpath : ∀ u v, held u ≠ [] → Relation.TransGen (Waits request held) u v →
      Relation.TransGen (Waits request₁ held₁) u v := by
    intro u v hu h
    induction h with
    | single h => exact .single (hedge _ _ hu h)
    | tail h hlast ih =>
      refine .tail ih (hedge _ _ ?_ hlast)
      obtain ⟨x, -, l, -, hl⟩ := Relation.TransGen.tail'_iff.mp h
      exact List.ne_nil_of_mem hl
  intro h
  have hw : held w ≠ [] := by
    obtain ⟨x, -, l, -, hl⟩ := Relation.TransGen.tail'_iff.mp h
    exact List.ne_nil_of_mem hl
  have hord₁ : ∀ u l, request₁ u = some l → ∀ l' ∈ held₁ u, lt l' l := by
    intro u l hl l' hl'
    have hu : ¬ held u = [] := fun he => by simp [request₁, he] at hl
    obtain ⟨hmem, hnot⟩ := List.mem_filter.mp hl'
    exact hord u l (by rw [← hl]; exact (if_neg hu).symm) l' hmem (by simpa using hnot)
  exact Waits.acyclic hord₁ w (hpath w w hw h)

/-- Among finitely many agents without a cycle, whoever waits does so, at
last, for an agent that does not wait. -/
theorem Waits.exists_last [Finite W]
    (hacyclic : ∀ w, ¬ Relation.TransGen (Waits request held) w w) (w : W) :
    ∃ v, Relation.ReflTransGen (Waits request held) w v ∧ ∀ u, ¬ Waits request held v u := by
  have hwf : WellFounded fun u v => Relation.TransGen (Waits request held) v u :=
    have : IsTrans W fun u v => Relation.TransGen (Waits request held) v u :=
      ⟨fun _ _ _ h h' => h'.trans h⟩
    have : Std.Irrefl fun u v => Relation.TransGen (Waits request held) v u := ⟨hacyclic⟩
    Finite.wellFounded_of_trans_of_irrefl _
  induction w using hwf.induction with
  | _ w ih =>
    by_cases hw : ∃ u, Waits request held w u
    · obtain ⟨u, hu⟩ := hw
      obtain ⟨v, huv, hv⟩ := ih u (.single hu)
      exact ⟨v, .head hu huv, hv⟩
    · exact ⟨w, .refl, not_exists.mp hw⟩

end Mutex
