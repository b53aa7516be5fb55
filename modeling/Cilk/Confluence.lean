import Mathlib.Order.Lattice
import Mathlib.Order.BoundedOrder.Lattice
import Mathlib.Data.DFinsupp.WellFounded
import Mathlib.Tactic

/-!
# Passes with confluence slots

A pass carries a value of a meet semilattice through a fixed sequence of
operations. Where flows meet, the value is stashed in a slot: `flowInto`
meets it with what is there and notes a change. Passes are made until a pass
changes nothing, and then one more is made, which is the one that counts.

Slots only go down, so this ends in a semilattice without infinite descent.
What is left when it ends is described without the run: `eval` is the value of
a pass over fixed slots, `contributions` what it flows into them. The slots
in the end are below what the last pass contributes, and above everything
that is below what it contributes: they are the meet of it.
-/

namespace Confluence

/-- The operations of a pass: over points `P`, slots `K` and values `V`. -/
inductive Pass (P K V : Type)
  /-- The value stays. -/
  | skip
  /-- The value goes through the transfer function of a point. -/
  | point (p : P)
  /-- The value flows into a slot, and nothing flows on. -/
  | put (k : K)
  /-- The value comes from a slot. -/
  | get (k : K)
  /-- The value is this one. -/
  | const (c : V)
  | seq (a b : Pass P K V)
  /-- The value goes both ways, and what comes out is met. -/
  | alt (a b : Pass P K V)
  /-- A pass of its own, that starts with `c`; the value stays. -/
  | aside (c : V) (a : Pass P K V)

/-- The slots, whether one has changed, and what the points were applied to. -/
structure State (P K V : Type) where
  slots : K → V
  changed : Bool
  applied : List (P × V)

variable {P K V : Type}

/-- The confluence point: into the slot and out of it. -/
def Pass.join (k : K) : Pass P K V := .seq (.put k) (.get k)

variable [SemilatticeInf V] [DecidableEq V] [DecidableEq K]

/-- Meet `v` with slot `k`, and return the new value of the slot. -/
def flowInto (k : K) (v : V) : StateM (State P K V) V := do
  let s ← get
  let new := s.slots k ⊓ v
  if s.slots k = new then
    return new
  else
    set { s with slots := Function.update s.slots k new, changed := true }
    return new

omit [SemilatticeInf V] [DecidableEq V] [DecidableEq K] in
/-- The value of slot `k`. -/
def read (k : K) : StateM (State P K V) V := do
  return (← get).slots k

omit [SemilatticeInf V] [DecidableEq V] [DecidableEq K] in
/-- The transfer function of point `p`. -/
def apply (trans : P → V → V) (p : P) (v : V) : StateM (State P K V) V := do
  modify fun s => { s with applied := s.applied ++ [(p, v)] }
  return trans p v

namespace Pass

variable [OrderTop V]

/-- **A pass.** -/
def run (trans : P → V → V) : Pass P K V → V → StateM (State P K V) V
  | skip, v => return v
  | point p, v => apply trans p v
  | put k, v => do
    let _ ← flowInto k v
    return ⊤
  | get k, _ => read k
  | const c, _ => return c
  | seq a b, v => do
    let x ← a.run trans v
    b.run trans x
  | alt a b, v => do
    let x ← a.run trans v
    let y ← b.run trans v
    return x ⊓ y
  | aside c a, v => do
    let _ ← a.run trans c
    return v

omit [DecidableEq V] [DecidableEq K]

/-- The value of a pass over fixed slots. -/
def eval (trans : P → V → V) (slots : K → V) : Pass P K V → V → V
  | skip, v => v
  | point p, v => trans p v
  | put _, _ => ⊤
  | get k, _ => slots k
  | const c, _ => c
  | seq a b, v => b.eval trans slots (a.eval trans slots v)
  | alt a b, v => a.eval trans slots v ⊓ b.eval trans slots v
  | aside _ _, v => v

/-- What a pass over fixed slots flows into them. -/
def contributions (trans : P → V → V) (slots : K → V) : Pass P K V → V → List (K × V)
  | skip, _ | point _, _ | get _, _ | const _, _ => []
  | put k, v => [(k, v)]
  | seq a b, v =>
    a.contributions trans slots v ++ b.contributions trans slots (a.eval trans slots v)
  | alt a b, v => a.contributions trans slots v ++ b.contributions trans slots v
  | aside c a, _ => a.contributions trans slots c

/-- What a pass over fixed slots applies its points to. -/
def applications (trans : P → V → V) (slots : K → V) : Pass P K V → V → List (P × V)
  | skip, _ | put _, _ | get _, _ | const _, _ => []
  | point p, v => [(p, v)]
  | seq a b, v =>
    a.applications trans slots v ++ b.applications trans slots (a.eval trans slots v)
  | alt a b, v => a.applications trans slots v ++ b.applications trans slots v
  | aside c a, _ => a.applications trans slots c

/-- The slots a pass flows into. -/
def puts : Pass P K V → List K
  | skip | point _ | get _ | const _ => []
  | put k => [k]
  | seq a b | alt a b => a.puts ++ b.puts
  | aside _ a => a.puts

/-- **What the slots must be below.** -/
def Below (trans : P → V → V) (slots : K → V) (a : Pass P K V) (v : V) (bound : K → V) : Prop :=
  ∀ c ∈ a.contributions trans slots v, bound c.1 ≤ c.2

end Pass

/-! ## One operation -/

section

variable {k : K} {v : V} {s : State P K V}

theorem flowInto_eq : flowInto k v s =
    if s.slots k = s.slots k ⊓ v then (s.slots k ⊓ v, s)
    else (s.slots k ⊓ v,
      { s with slots := Function.update s.slots k (s.slots k ⊓ v), changed := true }) := by
  show (if _ then _ else _ : StateM (State P K V) V) s = _
  split_ifs
  · rfl
  · rfl

/-- `flowInto` returns the new value of the slot. -/
theorem flowInto_fst : (flowInto k v s).1 = s.slots k ⊓ v := by
  rw [flowInto_eq]
  split_ifs
  · rfl
  · rfl

theorem flowInto_slots :
    (flowInto k v s).2.slots = Function.update s.slots k (s.slots k ⊓ v) := by
  rw [flowInto_eq]
  split_ifs with h
  · rw [← h, Function.update_eq_self]
  · rfl

theorem flowInto_changed :
    (flowInto k v s).2.changed = (s.changed || decide (s.slots k ≠ s.slots k ⊓ v)) := by
  rw [flowInto_eq]
  split_ifs with h
  · rw [decide_eq_false (not_not.mpr h), Bool.or_false]
  · rw [decide_eq_true h, Bool.or_true]

/-- **Nothing changes** where the slot is below what flows in. -/
theorem flowInto_of_le (h : s.slots k ≤ v) : flowInto k v s = (s.slots k, s) := by
  rw [flowInto_eq, inf_eq_left.mpr h, if_pos rfl]

end

/-! ## Slots only go down -/

/-- **What running does to the slots**: they go down, and a change is noted
exactly if there is one. -/
structure Descends (s s' : State P K V) : Prop where
  slots_le : s'.slots ≤ s.slots
  quiet : s'.changed = false → s'.slots = s.slots ∧ s.changed = false
  noted : s'.changed = true → s.changed = true ∨ s'.slots ≠ s.slots

namespace Descends

omit [DecidableEq V] [DecidableEq K] in
theorem refl (s : State P K V) : Descends s s :=
  ⟨le_rfl, fun h => ⟨rfl, h⟩, .inl⟩

omit [DecidableEq V] [DecidableEq K] in
theorem trans {s t u : State P K V} (h : Descends s t) (h' : Descends t u) : Descends s u := by
  refine ⟨h'.slots_le.trans h.slots_le, fun hu => ?_, fun hu => ?_⟩
  · obtain ⟨htu, ht⟩ := h'.quiet hu
    obtain ⟨hst, hs⟩ := h.quiet ht
    exact ⟨htu.trans hst, hs⟩
  · rcases h'.noted hu with ht | hne
    · refine (h.noted ht).imp id fun hne heq => hne ?_
      exact le_antisymm h.slots_le (heq ▸ h'.slots_le)
    · exact .inr fun heq => hne (le_antisymm h'.slots_le (heq ▸ h.slots_le))

theorem flowInto (k : K) (v : V) (s : State P K V) : Descends s (flowInto k v s).2 := by
  refine ⟨?_, fun h => ?_, fun h => ?_⟩
  · rw [flowInto_slots]
    exact update_le_self_iff.mpr inf_le_left
  · rw [flowInto_changed, Bool.or_eq_false_iff, decide_eq_false_iff_not, not_not] at h
    rw [flowInto_slots, ← h.2, Function.update_eq_self]
    exact ⟨rfl, h.1⟩
  · rw [flowInto_changed, Bool.or_eq_true, decide_eq_true_eq] at h
    refine h.imp id fun hne heq => hne ?_
    have := congrFun heq k
    rw [flowInto_slots, Function.update_self] at this
    exact this.symm

end Descends

namespace Pass

variable [OrderTop V] {trans : P → V → V}

theorem run_put (k : K) (v : V) (s : State P K V) :
    (put k).run trans v s = (⊤, (flowInto k v s).2) :=
  rfl

theorem run_seq (a b : Pass P K V) (v : V) (s : State P K V) :
    (seq a b).run trans v s = b.run trans (a.run trans v s).1 (a.run trans v s).2 :=
  rfl

theorem run_alt (a b : Pass P K V) (v : V) (s : State P K V) :
    (alt a b).run trans v s =
      ((a.run trans v s).1 ⊓ (b.run trans v (a.run trans v s).2).1,
        (b.run trans v (a.run trans v s).2).2) :=
  rfl

theorem run_aside (c : V) (a : Pass P K V) (v : V) (s : State P K V) :
    (aside c a).run trans v s = (v, (a.run trans c s).2) :=
  rfl

/-- The confluence point is one `flowInto`. -/
theorem run_join (k : K) (v : V) : (join k).run trans v = flowInto k v := by
  funext s
  refine Prod.ext ?_ rfl
  show (flowInto k v s).2.slots k = (flowInto k v s).1
  rw [flowInto_slots, Function.update_self, flowInto_fst]

theorem run_descends (a : Pass P K V) (v : V) (s : State P K V) :
    Descends s (a.run trans v s).2 := by
  induction a generalizing v s with
  | skip | get | const => exact .refl s
  | point p => exact ⟨le_rfl, fun h => ⟨rfl, h⟩, .inl⟩
  | put k => exact .flowInto k v s
  | seq a b iha ihb => exact (iha v s).trans (ihb _ _)
  | alt a b iha ihb => exact (iha v s).trans (ihb v _)
  | aside c a ih => exact ih c s

/-- Slots that nothing flows into do not change. -/
theorem run_slots_of_not_mem (a : Pass P K V) {k : K} (hk : k ∉ a.puts) (v : V)
    (s : State P K V) : (a.run trans v s).2.slots k = s.slots k := by
  induction a generalizing v s with
  | skip | get | const | point => rfl
  | put k' =>
    refine (congrFun flowInto_slots k).trans (Function.update_of_ne ?_ _ _)
    exact fun he => hk (he ▸ List.mem_singleton_self _)
  | seq a b iha ihb =>
    rw [puts, List.mem_append, not_or] at hk
    exact (ihb hk.2 _ _).trans (iha hk.1 v s)
  | alt a b iha ihb =>
    rw [puts, List.mem_append, not_or] at hk
    exact (ihb hk.2 v _).trans (iha hk.1 v s)
  | aside c a ih => exact ih hk c s

/-! ## A pass that changes nothing -/

/-- **A pass over slots that are below what flows into them** changes
nothing, and is a pass over fixed slots. -/
theorem run_of_below (a : Pass P K V) (v : V) (s : State P K V)
    (h : a.Below trans s.slots v s.slots) :
    a.run trans v s = (a.eval trans s.slots v,
      { s with applied := s.applied ++ a.applications trans s.slots v }) := by
  induction a generalizing v s with
  | skip | get | const =>
    rw [applications, List.append_nil]
    rfl
  | point p => rfl
  | put k =>
    rw [run_put, flowInto_of_le (h (k, v) List.mem_cons_self), applications, List.append_nil]
    rfl
  | seq a b iha ihb =>
    obtain ⟨ha, hb⟩ := List.forall_mem_append.mp h
    rw [run_seq, iha v s ha]
    dsimp only
    rw [ihb _ { s with applied := s.applied ++ a.applications trans s.slots v } hb, applications,
      ← List.append_assoc]
    rfl
  | alt a b iha ihb =>
    obtain ⟨ha, hb⟩ := List.forall_mem_append.mp h
    rw [run_alt, iha v s ha]
    dsimp only
    rw [ihb v { s with applied := s.applied ++ a.applications trans s.slots v } hb, applications,
      ← List.append_assoc]
    rfl
  | aside c a ih =>
    rw [run_aside, ih c s h]
    rfl

/-- **A pass that notes no change** is over slots that are below what flows
into them. -/
theorem below_of_quiet (a : Pass P K V) (v : V) (s : State P K V)
    (h : (a.run trans v s).2.changed = false) : a.Below trans s.slots v s.slots := by
  induction a generalizing v s with
  | skip | get | const | point => nofun
  | put k =>
    refine List.forall_mem_singleton.mpr ?_
    rw [run_put, flowInto_changed, Bool.or_eq_false_iff, decide_eq_false_iff_not, not_not] at h
    exact left_eq_inf.mp h.2
  | seq a b iha ihb =>
    rw [run_seq] at h
    have ha := iha v s ((b.run_descends _ _).quiet h).2
    rw [run_of_below a v s ha] at h
    refine List.forall_mem_append.mpr ⟨ha, ?_⟩
    exact ihb _ { s with applied := s.applied ++ a.applications trans s.slots v } h
  | alt a b iha ihb =>
    rw [run_alt] at h
    have ha := iha v s ((b.run_descends v _).quiet h).2
    rw [run_of_below a v s ha] at h
    refine List.forall_mem_append.mpr ⟨ha, ?_⟩
    exact ihb v { s with applied := s.applied ++ a.applications trans s.slots v } h
  | aside c a ih => exact ih c s h

/-! ## Passes from above -/

/-- **Monotonicity**: a pass over higher slots, with a higher value, ends with
a higher value, and leaves the slots above what is below the contributions of
the lower pass. -/
theorem run_ge (hmono : ∀ p, Monotone (trans p)) (a : Pass P K V) {v w : V} {slots : K → V}
    {s : State P K V} (hslots : slots ≤ s.slots) (hv : v ≤ w)
    (hself : a.Below trans slots v slots) :
    a.eval trans slots v ≤ (a.run trans w s).1 ∧
      ∀ bound, bound ≤ s.slots → a.Below trans slots v bound →
        bound ≤ (a.run trans w s).2.slots := by
  induction a generalizing v w s with
  | skip => exact ⟨hv, fun _ hb _ => hb⟩
  | point p => exact ⟨hmono p hv, fun _ hb _ => hb⟩
  | get k => exact ⟨hslots k, fun _ hb _ => hb⟩
  | const c => exact ⟨le_rfl, fun _ hb _ => hb⟩
  | put k =>
    refine ⟨le_rfl, fun bound hb hbelow => ?_⟩
    rw [run_put, flowInto_slots]
    refine le_update_iff.mpr ⟨le_inf (hb k) ?_, fun j _ => hb j⟩
    exact (hbelow (k, v) List.mem_cons_self).trans hv
  | seq a b iha ihb =>
    obtain ⟨ha, hb⟩ := List.forall_mem_append.mp hself
    obtain ⟨hva, hsa⟩ := iha hslots hv ha
    obtain ⟨hvb, hsb⟩ := ihb (hsa slots hslots ha) hva hb
    refine ⟨hvb, fun bound hbound hbelow => ?_⟩
    obtain ⟨hba, hbb⟩ := List.forall_mem_append.mp hbelow
    exact hsb bound (hsa bound hbound hba) hbb
  | alt a b iha ihb =>
    obtain ⟨ha, hb⟩ := List.forall_mem_append.mp hself
    obtain ⟨hva, hsa⟩ := iha hslots hv ha
    obtain ⟨hvb, hsb⟩ := ihb (hsa slots hslots ha) hv hb
    refine ⟨inf_le_inf hva hvb, fun bound hbound hbelow => ?_⟩
    obtain ⟨hba, hbb⟩ := List.forall_mem_append.mp hbelow
    exact hsb bound (hsa bound hbound hba) hbb
  | aside c a ih =>
    obtain ⟨-, hs⟩ := ih hslots (le_refl c) hself
    exact ⟨hv, hs⟩

/-! ## What the slots are in the end -/

omit [DecidableEq V] [DecidableEq K] in
/-- **Settled slots** are the meet of what a pass over them flows into them,
as far as they were not below it in the beginning. -/
structure Settled (trans : P → V → V) (a : Pass P K V) (v : V) (init slots : K → V) : Prop where
  le : slots ≤ init
  below : a.Below trans slots v slots
  tight : ∀ bound ≤ init, a.Below trans slots v bound → bound ≤ slots

omit [DecidableEq V] in
/-- **The meet of the contributions** is in the slot. -/
theorem Settled.isGLB {a : Pass P K V} {v : V} {init slots : K → V} {k : K}
    (h : a.Settled trans v init slots) (hk : init k = ⊤) :
    IsGLB {x | (k, x) ∈ a.contributions trans slots v} (slots k) := by
  refine ⟨fun x hx => h.below (k, x) hx, fun x hx => ?_⟩
  have hbound : Function.update slots k x ≤ slots := by
    refine h.tight _ (update_le_iff.mpr ⟨hk ▸ le_top, fun j _ => h.le j⟩) ?_
    rintro ⟨j, y⟩ hy
    rcases eq_or_ne j k with rfl | hj
    · rw [Function.update_self]
      exact hx hy
    · rw [Function.update_of_ne hj]
      exact h.below _ hy
  have := hbound k
  rwa [Function.update_self] at this

omit [DecidableEq V] [DecidableEq K] in
theorem below_of_puts_eq_nil (a : Pass P K V) (h : a.puts = []) (v : V) (slots bound : K → V) :
    a.Below trans slots v bound := by
  induction a generalizing v with
  | skip | get | const | point => nofun
  | put k => nomatch h
  | seq a b iha ihb =>
    obtain ⟨ha, hb⟩ := List.append_eq_nil_iff.mp h
    exact List.forall_mem_append.mpr ⟨iha ha v, ihb hb _⟩
  | alt a b iha ihb =>
    obtain ⟨ha, hb⟩ := List.append_eq_nil_iff.mp h
    exact List.forall_mem_append.mpr ⟨iha ha v, ihb hb v⟩
  | aside c a ih => exact ih h c

end Pass

/-! ## Passes until nothing changes -/

omit [SemilatticeInf V] [DecidableEq V] [DecidableEq K] in
/-- **Passes while there are changes**, `fuel` of them at most. -/
def iterate (pass : StateM (State P K V) V) : ℕ → State P K V → Option (State P K V)
  | 0, s => if s.changed then none else some s
  | fuel + 1, s => if s.changed then iterate pass fuel (pass { s with changed := false }).2 else some s

section

variable {pass : StateM (State P K V) V} {fuel : ℕ} {s s' : State P K V}

omit [SemilatticeInf V] [DecidableEq V] [DecidableEq K]

/-- It ends where nothing has changed, with what every pass keeps. -/
theorem iterate_induction {I : State P K V → Prop} (hs : I s)
    (hpass : ∀ s, I s → I (pass { s with changed := false }).2)
    (h : iterate pass fuel s = some s') : I s' ∧ s'.changed = false := by
  induction fuel generalizing s with
  | zero =>
    unfold iterate at h
    split_ifs at h with hc
    obtain rfl := Option.some.inj h
    exact ⟨hs, Bool.eq_false_of_not_eq_true hc⟩
  | succ fuel ih =>
    unfold iterate at h
    split_ifs at h with hc
    · exact ih (hpass s hs) h
    · obtain rfl := Option.some.inj h
      exact ⟨hs, Bool.eq_false_of_not_eq_true hc⟩

end

namespace Pass

variable [OrderTop V] {trans : P → V → V}

/-- **A pass that notes a change** leaves a slot it flows into lower. -/
theorem run_lt (a : Pass P K V) (v : V) (s : State P K V) (hs : s.changed = false)
    (h : (a.run trans v s).2.changed = true) :
    (fun k : {k // k ∈ a.puts} => (a.run trans v s).2.slots k) <
      fun k : {k // k ∈ a.puts} => s.slots k := by
  have hdesc : Descends s (a.run trans v s).2 := a.run_descends v s
  refine lt_of_le_of_ne (fun k => hdesc.slots_le k) fun heq => ?_
  rcases hdesc.noted h with hs' | hne
  · rw [hs] at hs'
    nomatch hs'
  · refine hne (funext fun k => ?_)
    by_cases hk : k ∈ a.puts
    · exact congrFun heq ⟨k, hk⟩
    · exact a.run_slots_of_not_mem hk v s

/-- **Iteration ends**: the slots a pass flows into cannot go down forever. -/
theorem iterate_total [WellFoundedLT V] (a : Pass P K V) (v : V) (s : State P K V) :
    ∃ fuel s', iterate (a.run trans v) fuel s = some s' := by
  have : Finite {k // k ∈ a.puts} := a.puts.finite_toSet
  induction hlow : (fun k : {k // k ∈ a.puts} => s.slots k) using
    WellFoundedLT.induction generalizing s with
  | ind low ih =>
    by_cases hc : s.changed = true
    · by_cases hc' : (a.run trans v { s with changed := false }).2.changed = true
      · have hlt := a.run_lt v { s with changed := false } rfl hc'
        obtain ⟨fuel, s', h⟩ := ih _ (hlow ▸ hlt) _ rfl
        exact ⟨fuel + 1, s', (if_pos hc).trans h⟩
      · exact ⟨1, _, (if_pos hc).trans (if_neg hc')⟩
    · exact ⟨0, s, if_neg hc⟩

/-- **The slots are settled** when the iteration ends: a last pass over them
changes nothing, and applies every point to its value over these slots. -/
theorem iterate_settled (hmono : ∀ p, Monotone (trans p)) (a : Pass P K V) (v : V)
    {fuel : ℕ} {s s' : State P K V} (hs : s.changed = false → a.puts = [])
    (h : iterate (a.run trans v) fuel s = some s') :
    a.Settled trans v s.slots s'.slots := by
  have hle : s'.slots ≤ s.slots :=
    (iterate_induction (I := fun t => t.slots ≤ s.slots) le_rfl
      (fun t ht => (a.run_descends v _).slots_le.trans ht) h).1
  have hbelow : a.Below trans s'.slots v s'.slots := by
    have hpass (t : State P K V) (hc : (a.run trans v { t with changed := false }).2.changed = false) :
        a.Below trans (a.run trans v { t with changed := false }).2.slots v
          (a.run trans v { t with changed := false }).2.slots := by
      have hq := a.below_of_quiet v _ hc
      rw [((a.run_descends v _).quiet hc).1]
      exact hq
    obtain ⟨hq, hc⟩ := iterate_induction
      (I := fun t => t.changed = false → a.Below trans t.slots v t.slots)
      (fun hc => a.below_of_puts_eq_nil (hs hc) v _ _) (fun t _ => hpass t) h
    exact hq hc
  refine ⟨hle, hbelow, fun bound hbound hb => ?_⟩
  refine (iterate_induction (I := fun t => s'.slots ≤ t.slots ∧ bound ≤ t.slots) ⟨hle, hbound⟩
    (fun t ht => ?_) h).1.2
  have hge := (a.run_ge hmono (s := { t with changed := false }) ht.1 (le_refl v) hbelow).2
  exact ⟨hge _ ht.1 hbelow, hge _ ht.2 hb⟩

end Pass

end Confluence
