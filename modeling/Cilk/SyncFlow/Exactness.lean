import Cilk.FlowReach
import Cilk.SyncFlow.Simulation

/-!
# Where the assertion of the sync analysis holds

What a bit of a flow value says at a point is whether there is a way to it in
the flow graph of the tree, dead code included: the sync analysis gives a bit
out at every spawn, and makes every undefined value defined at the next exit,
while the return analysis starts at the entry of the procedure alone. So the
assertion can fail behind a jump, and it fails exactly where the end of a body
has a way from a spawn, and none from the entry.
-/

namespace Cilk.SyncFlow

open Ast Ast.Node FlowGraph
open DataFlow (Point Slot SlotName slot code enter leave Linked)

/-! ## Bits of values -/

theorem abs_eq_abs {v w : FlowValue} (h : v.abs = w.abs) :
    v = w ∨ v.undefined = true ∧ w.undefined = true := by
  obtain ⟨vu, vb⟩ := v
  obtain ⟨wu, wb⟩ := w
  cases vu <;> cases wu
  · exact .inl (congrArg _ (OrderDual.toDual_inj.mp (WithTop.coe_inj.mp h)))
  · exact absurd h WithTop.coe_ne_top
  · exact absurd h.symm WithTop.coe_ne_top
  · exact .inr ⟨rfl, rfl⟩

/-- The highest value that has these bits. -/
def has (S : BitVector) : Value := (OrderDual.toDual S : BitVectorᵒᵈ)

theorem abs_le_has {v : FlowValue} {S : BitVector} :
    v.abs ≤ has S ↔ v.undefined = false ∧ S ⊆ v.bitvector := by
  cases h : v.undefined
  · rw [abs_of_defined h]
    exact WithTop.coe_le_coe.trans ⟨fun hle => ⟨rfl, hle⟩, And.right⟩
  · rw [abs_of_undefined h]
    exact ⟨fun hle => absurd hle (WithTop.not_top_le_coe _), nofun⟩

theorem abs_le_abs {v w : FlowValue} :
    v.abs ≤ w.abs ↔ (w.undefined = false → v.undefined = false ∧ w.bitvector ⊆ v.bitvector) := by
  cases h : w.undefined
  · rw [abs_of_defined h]
    exact abs_le_has.trans ⟨fun hle _ => hle, fun hle => hle rfl⟩
  · rw [abs_of_undefined h]
    exact ⟨fun _ => nofun, fun _ => le_top⟩

/-- The flow value with no stale bits. -/
def represent : Value → FlowValue :=
  WithTop.recTopCoe ⟨true, ∅⟩ fun S => ⟨false, OrderDual.ofDual S⟩

theorem abs_represent (v : Value) : (represent v).abs = v := by
  cases v <;> rfl

/-- No bit, or one. -/
def Single (S : BitVector) : Prop := ∀ A B : BitVector, S ⊆ A ∪ B → S ⊆ A ∨ S ⊆ B

theorem single_empty : Single ∅ := fun A _ _ => .inl (Finset.empty_subset A)

theorem single_singleton (b : Fin 64) : Single {b} := by
  intro A B h
  rw [Finset.singleton_subset_iff, Finset.mem_union] at h
  rwa [Finset.singleton_subset_iff, Finset.singleton_subset_iff]

theorem Single.inf {S : BitVector} (hS : Single S) (v w : Value) (h : v ⊓ w ≤ has S) :
    v ≤ has S ∨ w ≤ has S := by
  rw [← abs_represent v, ← abs_represent w] at h ⊢
  rw [← abs_SetUnion] at h
  unfold SetUnion at h
  split_ifs at h with hv hw
  · exact .inr h
  · exact .inl h
  · obtain ⟨-, hsub⟩ := abs_le_has.mp h
    refine (hS _ _ hsub).imp (fun hs => ?_) fun hs => ?_
    · exact abs_le_has.mpr ⟨Bool.eq_false_of_not_eq_true hv, hs⟩
    · exact abs_le_has.mpr ⟨Bool.eq_false_of_not_eq_true hw, hs⟩

/-! ## Transfer functions without the stale bits -/

/-- A transfer function whose flow values do not depend on stale bits, and
that keeps the order. -/
structure Regular (trans : TransOp) : Prop where
  same : ∀ node v w p final final', v.abs = w.abs →
    (trans node v p final).1.abs = (trans node w p final').1.abs
  mono : ∀ node v w p, v.abs ≤ w.abs → (trans node v p false).1.abs ≤ (trans node w p false).1.abs

/-- The transfer function at the node of the tree that has the address. -/
def dropped (trans : TransOp) (root : Node) (p : NodeId × Point) (v : Value) : Value :=
  match root.walkTree.find? fun node => node.id = p.1 with
  | some node => (trans node (represent v) p.2 false).1.abs
  | none => v

section

variable {root : Node}

theorem find_eq (hlinked : Linked root) {node : Node} (h : node ∈ root.walkTree) :
    root.walkTree.find? (fun m => m.id = node.id) = some node := by
  cases hfind : root.walkTree.find? fun m => m.id = node.id with
  | none => exact absurd (decide_eq_true rfl) (List.find?_eq_none.mp hfind node h)
  | some m =>
    have hm := List.find?_some hfind
    rw [hlinked.same _ (List.mem_of_find?_eq_some hfind) _ h (of_decide_eq_true hm)]

theorem drops (hlinked : Linked root) {trans : TransOp} (h : Regular trans) :
    Drops trans (dropped trans root) root.walkTree := by
  intro node hnode v p final
  unfold dropped
  rw [find_eq hlinked hnode]
  exact h.same node v _ p final false (abs_represent _).symm

theorem dropped_mono {trans : TransOp} (h : Regular trans) (p : NodeId × Point) :
    Monotone (dropped trans root p) := by
  intro v w hvw
  unfold dropped
  split
  · refine h.mono _ _ _ _ ?_
    rwa [abs_represent, abs_represent]
  · exact hvw

/-! ## Ways in the flow graph of the tree -/

abbrev FlowVertex := Vertex (NodeId × Point) (NodeId × SlotName) NodeId

/-- The vertex is a point, of this kind, of a node of the tree. -/
def At (root : Node) (kind : Node → Point → Bool) (u : FlowVertex) : Prop :=
  ∃ node ∈ root.walkTree, ∃ p, kind node p = true ∧ u = .point (node.id, p)

/-- Something that the points `gen` give out, and the start if `first`, and
that the points `kill` stop, comes to a point. -/
def ComesTo (root : Node) (first : Prop) (gen kill : Node → Point → Bool) (p : NodeId × Point) :
    Prop :=
  Comes ((code root).graph enter leave) (fun u => first ∧ u = .start ∨ At root gen u)
    (At root kill) (.point p)

theorem at_point_iff (hlinked : Linked root) {kind : Node → Point → Bool} {node : Node}
    (hnode : node ∈ root.walkTree) (p : Point) :
    At root kind (.point (node.id, p)) ↔ kind node p = true := by
  constructor
  · rintro ⟨m, hm, q, hkind, he⟩
    obtain ⟨hid, rfl⟩ := Prod.mk.inj (Vertex.point.inj he)
    rwa [hlinked.same _ hnode _ hm hid]
  · exact fun h => ⟨node, hnode, p, h, rfl⟩

theorem not_at_of_ne {kind : Node → Point → Bool} {u : FlowVertex} (h : ∀ p, u ≠ .point p) :
    ¬ At root kind u := by
  rintro ⟨node, -, p, -, rfl⟩
  exact h _ rfl

/-- Where a transfer function gives out and stops a bit, or the definedness of
the value, this is what the bound marks. -/
theorem marks (hlinked : Linked root) {trans : TransOp} {init : FlowValue} {S : BitVector}
    (hS : Single S) {first : Prop} {gen kill : Node → Point → Bool}
    (hfirst : first ↔ init.abs ≤ has S)
    (htrans : ∀ node p v, (trans node v p false).1.abs ≤ has S ↔
      gen node p = true ∨ v.abs ≤ has S ∧ kill node p = false) :
    Marks (dropped trans root) init.abs (has S)
      (fun u => first ∧ u = .start ∨ At root gen u) (At root kill) where
  inf := hS.inf
  top := WithTop.not_top_le_coe _
  start := by
    rw [← hfirst]
    exact ⟨fun h => h.elim And.left fun h => absurd h (not_at_of_ne nofun),
      fun h => .inl ⟨h, rfl⟩⟩
  out u v hu := by
    have hrest : (∀ p, u ≠ .point p) →
        (v ≤ has S ↔ (first ∧ u = .start ∨ At root gen u) ∨ v ≤ has S ∧ ¬ At root kill u) :=
      fun hne => ⟨fun h => .inr ⟨h, not_at_of_ne hne⟩,
        fun h => h.elim (fun h => h.elim (fun h => absurd h.2 hu)
          fun h => absurd h (not_at_of_ne hne)) And.left⟩
    cases u with
    | start | stop | label | returned => exact hrest nofun
    | point p =>
      obtain ⟨n, p⟩ := p
      show dropped trans root (n, p) v ≤ has S ↔ _
      unfold dropped
      split
      case h_1 node hfind =>
        have hnode := List.mem_of_find?_eq_some hfind
        have hid := List.find?_some hfind
        obtain rfl : node.id = n := of_decide_eq_true hid
        rw [htrans, abs_represent, at_point_iff hlinked hnode, at_point_iff hlinked hnode,
          Bool.not_eq_true]
        exact or_congr_left ⟨.inr, fun h => h.resolve_left fun h => nomatch h.2⟩
      case h_2 hfind =>
        have hnot : ∀ kind, ¬ At root kind (.point (n, p)) := by
          rintro kind ⟨node, hnode, q, -, he⟩
          have hid := (Prod.mk.inj (Vertex.point.inj he)).1
          exact List.find?_eq_none.mp hfind node hnode (decide_eq_true hid.symm)
        exact ⟨fun h => .inr ⟨h, hnot kill⟩, fun h => h.elim
          (fun h => h.elim (fun h => nomatch h.2) fun h => absurd h (hnot gen)) And.left⟩

/-- **What the final pass applies a transfer function to** has the bit exactly
if there is a way for it. -/
theorem applied_iff (hlinked : Linked root) {trans : TransOp} (hregular : Regular trans)
    {init : FlowValue} {S : BitVector} (hS : Single S) {first : Prop}
    {gen kill : Node → Point → Bool} (hfirst : first ↔ init.abs ≤ has S)
    (htrans : ∀ node p v, (trans node v p false).1.abs ≤ has S ↔
      gen node p = true ∨ v.abs ≤ has S ∧ kill node p = false)
    {fuel : ℕ} {s s' : State} (h : iterateDataFlow trans init fuel root s = some s') :
    ∀ a ∈ s'.applied, (a.2.undefined = false ∧ S ⊆ a.2.bitvector) ↔
      ComesTo root first gen kill (a.1.1.id, a.1.2) := by
  have hm := marks hlinked hS hfirst htrans
  have hrun : DataFlow.iterateDataFlow (dropped trans root) .Forwards init.abs fuel root s.abs =
      some s'.abs := by
    rw [abs_iterateDataFlow (drops hlinked hregular), h]
    rfl
  intro a ha
  have ha' : ((a.1.1.id, a.1.2), a.2.abs) ∈ s'.abs.applied := List.mem_map_of_mem ha
  rw [← abs_le_has]
  constructor
  · intro hle
    unfold DataFlow.iterateDataFlow at hrun
    rw [DataFlow.dataFlow_eq] at hrun
    obtain ⟨t, ht, hlast⟩ := Option.bind_eq_some_iff.mp hrun
    rw [← Option.some.inj hlast] at ha'
    obtain ⟨htops, -⟩ := DataFlow.foldl_initConfluencePoints root.walkTree
      { s.abs with changed := false }
    exact (code root).iterate_sourced hm
      (fun j hj => htops j (.inl (hlinked.mem_slots hj))) ht _ ha' hle
  · intro hcomes
    have hsound : DataFlow.Sound (dropped trans root) .Forwards init.abs root s.abs :=
      (DataFlow.dataFlow_sound_iff hlinked (dropped_mono hregular) s.abs).mpr (.inl rfl)
    obtain ⟨val, hval, -, hsolves, -⟩ := hsound.2 fuel s'.abs hrun
    have hle : val (.point (a.1.1.id, a.1.2)) = a.2.abs := hval _ ha'
    have hG : ∀ u w, (u, w) ∈ (code root).graph enter leave →
        u ≠ .stop ∧ w ≠ .start ∧ (w ∈ (code root).vertices enter leave ∨ w = .stop) :=
      fun u w he => ⟨((code root).graph_ne he).2, ((code root).graph_ne he).1,
        ((code root).graph_mem he).2⟩
    rw [← hle]
    exact hm.le_of_comes hsolves hG hcomes nofun

/-- The analyses come to the exit of the node. -/
structure Exits (root node : Node) : Prop where
  mem : node ∈ root.walkTree
  visited : (node.id, .ExitPoint) ∈ (code root).points enter leave

/-- **The exits that are visited** on the final pass are those that the control
flow of the tree comes to. -/
theorem exits_iff (hlinked : Linked root) {trans : TransOp} (hregular : Regular trans)
    {init : FlowValue} {fuel : ℕ} {s s' : State}
    (h : iterateDataFlow trans init fuel root s = some s') (node : Node) :
    Exits root node ↔ ∃ v, ((node, .ExitPoint), v) ∈ s'.applied := by
  have hrun : DataFlow.iterateDataFlow (dropped trans root) .Forwards init.abs fuel root s.abs =
      some s'.abs := by
    rw [abs_iterateDataFlow (drops hlinked hregular), h]
    rfl
  obtain ⟨-, -, -, happlied⟩ :=
    (DataFlow.iterateDataFlow_spec hlinked (dropped_mono hregular) s.abs).2 fuel s'.abs hrun
  have hpoints : s'.abs.applied.map Prod.fst = (code root).points enter leave := by
    rw [happlied]
    exact (code root).forward_points _
  have hmem := applied_mem (drops hlinked hregular) h
  constructor
  · intro hexits
    obtain ⟨a', ha', he⟩ := List.mem_map.mp (hpoints ▸ hexits.visited)
    obtain ⟨⟨⟨m, p⟩, v⟩, ha, rfl⟩ := List.mem_map.mp ha'
    obtain ⟨hid, rfl⟩ := Prod.mk.inj he
    rw [← hlinked.same _ (hmem _ ha) _ hexits.mem hid]
    exact ⟨v, ha⟩
  · rintro ⟨v, ha⟩
    refine ⟨hmem _ ha, ?_⟩
    rw [← hpoints]
    exact List.mem_map_of_mem (List.mem_map_of_mem ha)

/-- The analysis ends. -/
theorem ends (hlinked : Linked root) {trans : TransOp} (hregular : Regular trans)
    (init : FlowValue) (s : State) :
    ∃ fuel s', iterateDataFlow trans init fuel root s = some s' := by
  have hends : ∃ fuel t, DataFlow.iterateDataFlow (dropped trans root) .Forwards init.abs fuel root
      s.abs = some t :=
    (DataFlow.iterateDataFlow_spec hlinked (dropped_mono hregular) s.abs).1
  obtain ⟨fuel, t, ht⟩ := hends
  rw [abs_iterateDataFlow (drops hlinked hregular)] at ht
  obtain ⟨s', hs', -⟩ := Option.map_eq_some_iff.mp ht
  exact ⟨fuel, s', hs'⟩

end

/-! ## The two analyses -/

def exprEntry (node : Node) (p : Point) : Bool := p = .EntryPoint && isExprNotBlock node

def anyExit (_ : Node) (p : Point) : Bool := p = .ExitPoint

def isReturn : Node → Bool
  | .Return _ _ _ => true
  | _ => false

def isProc : Node → Bool
  | .Proc _ _ _ => true
  | _ => false

def isSync : Node → Bool
  | .Sync _ => true
  | _ => false

def isSpawn : Node → Bool
  | .Spawn _ _ _ _ | .InletCall _ _ _ => true
  | _ => false

def returnExit (node : Node) (p : Point) : Bool := p = .ExitPoint && isReturn node

def spawnExit (node : Node) (p : Point) : Bool := p = .ExitPoint && isSpawn node

def syncExit (node : Node) (p : Point) : Bool := p = .ExitPoint && (isSync node || isReturn node)

def nowhere (_ : Node) (_ : Point) : Bool := false

section

variable (signature : NodeId → Signature)

theorem TransRF_entry (node : Node) (v : FlowValue) (final : Bool) :
    (TransRF signature node v .EntryPoint final).1 =
      if v.undefined && isExprNotBlock node then EmptySet else v := by
  unfold TransRF
  split_ifs <;> rfl

/-- The exit of a return sets a bit for it in place of the reachable one; the
exits of the others leave the value. -/
theorem TransRF_exit (node : Node) (v : FlowValue) (final : Bool) :
    (TransRF signature node v .ExitPoint final).1 = v ∧ isReturn node = false ∨
      isReturn node = true ∧ ∃ b ∈ ({VALUE_RETURNED, NOTHING_RETURNED} : BitVector),
        ∀ v, (TransRF signature node v .ExitPoint final).1 = SetBit (ClearBit v REACHABLE) b := by
  cases node
  case Return n expr proc =>
    refine .inr ⟨rfl, if expr.isNull then NOTHING_RETURNED else VALUE_RETURNED, ?_, fun v => ?_⟩
    · split_ifs <;> decide
    · show (if expr.isNull then SetBit (ClearBit v REACHABLE) NOTHING_RETURNED
        else SetBit (ClearBit v REACHABLE) VALUE_RETURNED) = _
      split_ifs <;> rfl
  all_goals exact .inl ⟨rfl, rfl⟩

theorem TransRF_exit_undefined (node : Node) (v : FlowValue) (final : Bool) :
    (TransRF signature node v .ExitPoint final).1.undefined = v.undefined := by
  rcases TransRF_exit signature node v final with ⟨he, -⟩ | ⟨-, b, -, he⟩
  · rw [he]
  · rw [he]
    rfl

theorem not_reachable_exit {b : Fin 64} (hb : b ∈ ({VALUE_RETURNED, NOTHING_RETURNED} : BitVector))
    (v : FlowValue) : REACHABLE ∉ (SetBit (ClearBit v REACHABLE) b).bitvector := by
  show REACHABLE ∉ insert b (v.bitvector.erase REACHABLE)
  rw [Finset.mem_insert, not_or]
  refine ⟨fun he => ?_, Finset.notMem_erase REACHABLE v.bitvector⟩
  rw [← he] at hb
  exact absurd hb (by decide)

theorem regular_TransRF : Regular (TransRF signature) where
  same node v w p final final' h := by
    rcases abs_eq_abs h with rfl | ⟨hv, hw⟩
    · cases p
      · rw [TransRF_entry, TransRF_entry]
      · cases node <;> rfl
    · cases p
      · rw [TransRF_entry, TransRF_entry, hv, hw]
        split_ifs
        · rfl
        · exact h
      · rw [abs_of_undefined ((TransRF_exit_undefined signature node v final).trans hv),
          abs_of_undefined ((TransRF_exit_undefined signature node w final').trans hw)]
  mono node v w p h := by
    rw [abs_le_abs] at h
    cases p
    · rw [TransRF_entry, TransRF_entry, abs_le_abs]
      cases hv : v.undefined <;> cases hw : w.undefined <;> cases isExprNotBlock node
      all_goals simp_all [EmptySet]
    · rw [abs_le_abs, TransRF_exit_undefined]
      intro hw
      obtain ⟨hv, hsub⟩ := h hw
      refine ⟨(TransRF_exit_undefined signature node v false).trans hv, ?_⟩
      cases node
      case Return n expr proc =>
        show (if expr.isNull then SetBit (ClearBit w REACHABLE) NOTHING_RETURNED
            else SetBit (ClearBit w REACHABLE) VALUE_RETURNED).bitvector ⊆
          (if expr.isNull then SetBit (ClearBit v REACHABLE) NOTHING_RETURNED
            else SetBit (ClearBit v REACHABLE) VALUE_RETURNED).bitvector
        split_ifs
        · exact Finset.insert_subset_insert _ (Finset.erase_subset_erase _ hsub)
        · exact Finset.insert_subset_insert _ (Finset.erase_subset_erase _ hsub)
      all_goals exact hsub

/-- The value is defined behind an expression that begins, and where it was. -/
theorem TransRF_defined (node : Node) (p : Point) (v : FlowValue) :
    (TransRF signature node v p false).1.abs ≤ has ∅ ↔
      exprEntry node p = true ∨ v.abs ≤ has ∅ ∧ nowhere node p = false := by
  rw [abs_le_has, abs_le_has]
  simp only [Finset.empty_subset, and_true, nowhere]
  cases p
  · rw [TransRF_entry]
    unfold exprEntry
    cases hv : v.undefined <;> cases isExprNotBlock node <;> simp [EmptySet, hv]
  · rw [TransRF_exit_undefined]
    exact ⟨.inr, fun h => h.resolve_left nofun⟩

/-- Control comes through everything but a return. -/
theorem TransRF_reachable (node : Node) (p : Point) (v : FlowValue) :
    (TransRF signature node v p false).1.abs ≤ has {REACHABLE} ↔
      nowhere node p = true ∨ v.abs ≤ has {REACHABLE} ∧ returnExit node p = false := by
  rw [abs_le_has, abs_le_has, Finset.singleton_subset_iff, Finset.singleton_subset_iff]
  cases p
  · rw [TransRF_entry]
    cases hv : v.undefined <;> cases isExprNotBlock node <;>
      simp [EmptySet, hv, nowhere, returnExit]
  · rcases TransRF_exit signature node v false with ⟨he, hreturn⟩ | ⟨hreturn, b, hb, he⟩
    · rw [he]
      simp [nowhere, returnExit, hreturn]
    · rw [he]
      simp [nowhere, returnExit, hreturn, not_reachable_exit hb v]

theorem GenKill_defined (node : Node) (v : FlowValue) : (GenKill node v).undefined = false := by
  unfold GenKill
  cases hv : v.undefined
  · exact hv
  · rfl

/-- What `GenKill` makes of a value, an undefined one being empty. -/
theorem mem_GenKill {node : Node} {v : FlowValue} {b : Fin 64} :
    b ∈ (GenKill node v).bitvector ↔
      b ∈ Gen node ∨ (v.undefined = false ∧ b ∈ v.bitvector) ∧ b ∉ Kill node := by
  unfold GenKill
  cases v.undefined
  · show b ∈ (v.bitvector \ Kill node) ∪ Gen node ↔ _
    rw [Finset.mem_union, Finset.mem_sdiff, or_comm]
    simp
  · show b ∈ (∅ \ Kill node) ∪ Gen node ↔ _
    rw [Finset.mem_union, Finset.mem_sdiff, or_comm]
    simp

theorem regular_TransSF : Regular TransSF where
  same node v w p final final' h := by
    cases p
    · exact h
    · rcases abs_eq_abs h with rfl | ⟨hv, hw⟩
      · rfl
      · show (GenKill node v).abs = (GenKill node w).abs
        unfold GenKill
        rw [hv, hw]
        rfl
  mono node v w p h := by
    cases p
    · exact h
    · show (GenKill node v).abs ≤ (GenKill node w).abs
      rw [abs_le_abs] at h ⊢
      refine fun _ => ⟨GenKill_defined node v, fun b hb => ?_⟩
      rw [mem_GenKill] at hb ⊢
      exact hb.imp_right fun ⟨⟨hw, hb⟩, hkill⟩ => ⟨⟨(h hw).1, (h hw).2 hb⟩, hkill⟩

/-- The value is defined behind every exit, and where it was. -/
theorem TransSF_defined (node : Node) (p : Point) (v : FlowValue) :
    (TransSF node v p false).1.abs ≤ has ∅ ↔
      anyExit node p = true ∨ v.abs ≤ has ∅ ∧ nowhere node p = false := by
  cases p
  · exact ⟨fun h => .inr ⟨h, rfl⟩, fun h => (h.resolve_left nofun).1⟩
  · exact ⟨fun _ => .inl rfl,
      fun _ => abs_le_has.mpr ⟨GenKill_defined node v, Finset.empty_subset _⟩⟩

/-- Spawns and inlet calls give out children, syncs and returns stop them. -/
theorem TransSF_children (node : Node) (p : Point) (v : FlowValue) :
    (TransSF node v p false).1.abs ≤ has {CHILDREN_OUTSTANDING} ↔
      spawnExit node p = true ∨
        v.abs ≤ has {CHILDREN_OUTSTANDING} ∧ syncExit node p = false := by
  cases p
  · exact ⟨fun h => .inr ⟨h, rfl⟩, fun h => (h.resolve_left nofun).1⟩
  · have hgen : CHILDREN_OUTSTANDING ∈ Gen node ↔ spawnExit node .ExitPoint = true := by
      cases node
      case Spawn | InletCall => exact ⟨fun _ => rfl, fun _ => Finset.mem_singleton_self _⟩
      all_goals exact ⟨fun h => absurd h (Finset.notMem_empty _), nofun⟩
    have hkill : CHILDREN_OUTSTANDING ∉ Kill node ↔ syncExit node .ExitPoint = false := by
      cases node
      case Sync | Return =>
        exact ⟨fun h => absurd (Finset.mem_singleton_self _) h, nofun⟩
      all_goals exact ⟨fun _ => rfl, fun _ => Finset.notMem_empty _⟩
    show (GenKill node v).abs ≤ _ ↔ _
    rw [abs_le_has, abs_le_has, Finset.singleton_subset_iff, Finset.singleton_subset_iff,
      mem_GenKill, hgen, hkill, and_iff_right (GenKill_defined node v)]

/-! ## What is decided -/

theorem needs_return_mem (d : Signature) (n m : NodeId) (v : FlowValue) :
    .needs_return m ∈ decideReturn d n v ↔
      m = n ∧ d.returns = true ∧ REACHABLE ∈ v.bitvector := by
  unfold decideReturn Signature.returns IsBitSet
  cases d.returnsVoid <;> cases d.returnsSint <;> cases d.has_procedure <;> cases d.has_inlet <;>
    by_cases hr : REACHABLE ∈ v.bitvector <;> by_cases hv : VALUE_RETURNED ∈ v.bitvector <;>
    by_cases hn : NOTHING_RETURNED ∈ v.bitvector <;> simp [hr, hv, hn]

/-- Two bits, or none, make another decision at the exit of a procedure. -/
theorem decideReturn_ne (d : Signature) (n : NodeId) :
    decideReturn d n ⟨true, {VALUE_RETURNED, NOTHING_RETURNED}⟩ ≠ decideReturn d n ⟨true, ∅⟩ := by
  have hbits : IsBitSet ⟨true, {VALUE_RETURNED, NOTHING_RETURNED}⟩ REACHABLE = false ∧
      IsBitSet ⟨true, {VALUE_RETURNED, NOTHING_RETURNED}⟩ VALUE_RETURNED = true ∧
      IsBitSet ⟨true, {VALUE_RETURNED, NOTHING_RETURNED}⟩ NOTHING_RETURNED = true := by decide
  have hnone : ∀ b, IsBitSet ⟨true, ∅⟩ b = false := fun b => decide_eq_false (Finset.notMem_empty b)
  unfold decideReturn
  rw [hbits.1, hbits.2.1, hbits.2.2, hnone, hnone, Bool.and_false, Bool.and_false]
  exact nofun

/-- What the return analysis decides at an undefined value depends on its bits
at the exit of a procedure. -/
theorem stale_TransRF_iff {node : Node} {v : FlowValue} {p : Point}
    (hv : v.undefined = true) :
    (∀ bits, (TransRF signature node ⟨true, bits⟩ p true).2 =
        (TransRF signature node v p true).2) ↔
      (p = .ExitPoint → isProc node = false) := by
  cases p
  · refine ⟨fun _ => nofun, fun _ bits => ?_⟩
    show (if true && isExprNotBlock node then _ else _ : FlowValue × List Decision).2 =
      (if v.undefined && isExprNotBlock node then _ else _ : FlowValue × List Decision).2
    rw [hv]
    split_ifs <;> rfl
  · cases node
    case Proc n decl body =>
      refine ⟨fun h => ?_, fun h => nomatch h rfl⟩
      exact absurd ((h {VALUE_RETURNED, NOTHING_RETURNED}).trans (h ∅).symm)
        (decideReturn_ne (signature n) n)
    all_goals exact ⟨fun _ _ => rfl, fun _ _ => rfl⟩

/-- What the sync analysis decides at an undefined value depends on its bits
at the exits of returns and procedures. -/
theorem stale_TransSF_iff {node : Node} {v : FlowValue} {p : Point} :
    (∀ bits, (TransSF node ⟨true, bits⟩ p true).2 = (TransSF node v p true).2) ↔
      (p = .ExitPoint → (isReturn node || isProc node) = false) := by
  cases p
  · exact ⟨fun _ => nofun, fun _ _ => rfl⟩
  · have hdiffer : ∀ ds : List Decision, ds ≠ [] →
        ¬ ∀ bits : BitVector, (if IsBitSet ⟨true, bits⟩ CHILDREN_OUTSTANDING then ds else []) =
          if IsBitSet v CHILDREN_OUTSTANDING then ds else [] := by
      intro ds hds h
      exact hds ((h {CHILDREN_OUTSTANDING}).trans (h ∅).symm)
    cases node
    case Return n expr proc => exact ⟨fun h => absurd h (hdiffer _ nofun), fun h => nomatch h rfl⟩
    case Proc n decl body => exact ⟨fun h => absurd h (hdiffer _ nofun), fun h => nomatch h rfl⟩
    all_goals exact ⟨fun _ _ => rfl, fun _ _ => rfl⟩

theorem TransRF_entry_decision {node : Node} {v : FlowValue} {d : Decision}
    (h : d ∈ (TransRF signature node v .EntryPoint true).2) :
    d = .warning "unreachable code" node.id := by
  unfold TransRF at h
  dsimp only at h
  cases hc : v.undefined && isExprNotBlock node
  · rw [hc] at h
    exact absurd h List.not_mem_nil
  · rw [hc] at h
    exact List.mem_singleton.mp h

/-- A procedure is marked exactly if control comes to its end, and it is one
that returns there. -/
theorem needs_return_iff {s : State} (n : NodeId) :
    .needs_return n ∈ decisions (TransRF signature) s ↔
      ∃ decl body v, ((.Proc n decl body, .ExitPoint), v) ∈ s.applied ∧
        (signature n).returns = true ∧ REACHABLE ∈ v.bitvector := by
  unfold decisions
  rw [List.mem_flatMap]
  constructor
  · rintro ⟨⟨⟨node, p⟩, v⟩, ha, hmem⟩
    cases p
    · nomatch TransRF_entry_decision signature hmem
    · cases node
      case Proc m decl body =>
        obtain ⟨rfl, hreturns, hbit⟩ := (needs_return_mem (signature m) m n v).mp hmem
        exact ⟨decl, body, v, ha, hreturns, hbit⟩
      all_goals nomatch hmem
  · rintro ⟨decl, body, v, ha, hreturns, hbit⟩
    exact ⟨_, ha, (needs_return_mem (signature n) n n v).mpr ⟨rfl, hreturns, hbit⟩⟩

omit signature in
theorem procedure_needs_sync_iff {s : State} (n : NodeId) :
    .procedure_needs_sync n ∈ decisions TransSF s ↔
      ∃ decl body v, ((.Proc n decl body, .ExitPoint), v) ∈ s.applied ∧
        CHILDREN_OUTSTANDING ∈ v.bitvector := by
  unfold decisions
  rw [List.mem_flatMap]
  constructor
  · rintro ⟨⟨⟨node, p⟩, v⟩, ha, hmem⟩
    cases p
    · nomatch hmem
    · cases node
      case Return m expr proc =>
        change _ ∈ (if IsBitSet v CHILDREN_OUTSTANDING then _ else _) at hmem
        split_ifs at hmem
        · nomatch List.mem_singleton.mp hmem
        · nomatch hmem
      case Proc m decl body =>
        change _ ∈ (if IsBitSet v CHILDREN_OUTSTANDING then _ else _) at hmem
        split_ifs at hmem with hbit
        · obtain rfl := Decision.procedure_needs_sync.inj (List.mem_singleton.mp hmem)
          exact ⟨decl, body, v, ha, of_decide_eq_true hbit⟩
        · nomatch hmem
      all_goals nomatch hmem
  · rintro ⟨decl, body, v, ha, hbit⟩
    refine ⟨_, ha, ?_⟩
    have hset : IsBitSet v CHILDREN_OUTSTANDING = true := decide_eq_true hbit
    show _ ∈ if IsBitSet v CHILDREN_OUTSTANDING then _ else _
    rw [if_pos hset]
    exact List.mem_singleton_self _

/-! ## Where the analyses are safe -/

/-- **No end depends on dead code**: the exits of the procedures and returns
are defined for both analyses, and where the end of a procedure has a way from
a spawn, it has one from the entry, and is one that the procedure returns
at. -/
structure Settled (root : Node) : Prop where
  returns : ∀ node, Exits root node → isProc node = true →
    ComesTo root True exprEntry nowhere (node.id, .ExitPoint)
  syncs : ∀ node, Exits root node → (isReturn node || isProc node) = true →
    ComesTo root True anyExit nowhere (node.id, .ExitPoint)
  children : ∀ n decl body, Exits root (.Proc n decl body) →
    ComesTo root False spawnExit syncExit (n, .ExitPoint) →
      (signature n).returns = true ∧ ComesTo root True nowhere returnExit (n, .ExitPoint)

/-- **Where the sync analysis never fails its assertion**, and no decision
depends on stale bits. -/
theorem sync_analysis_safe_iff {root : Node} (hlinked : Linked root) (s : State) :
    Safe signature root s ↔ Settled signature root := by
  have hempty : ∀ {p : Prop} {A : BitVector}, (p ∧ ∅ ⊆ A) ↔ p := fun {p A} =>
    and_iff_left (Finset.empty_subset A)
  -- the four questions, of the values on the final passes
  have hrf : ∀ {fuel s₁}, AnalyzeReturnFlow signature fuel root s = some s₁ → ∀ a ∈ s₁.applied,
      (a.2.undefined = false ↔ ComesTo root True exprEntry nowhere (a.1.1.id, a.1.2)) ∧
        (a.2.undefined = false ∧ REACHABLE ∈ a.2.bitvector ↔
          ComesTo root True nowhere returnExit (a.1.1.id, a.1.2)) := by
    intro fuel s₁ h a ha
    have hdefined := applied_iff hlinked (regular_TransRF signature) single_empty
      ⟨fun _ => abs_le_has.mpr ⟨rfl, Finset.empty_subset _⟩, fun _ => trivial⟩
      (TransRF_defined signature) h a ha
    have hreachable := applied_iff hlinked (regular_TransRF signature)
      (single_singleton REACHABLE)
      ⟨fun _ => abs_le_has.mpr ⟨rfl, by decide⟩, fun _ => trivial⟩
      (TransRF_reachable signature) h a ha
    rw [hempty] at hdefined
    rw [Finset.singleton_subset_iff] at hreachable
    exact ⟨hdefined, hreachable⟩
  have hsf : ∀ {fuel s₁ s₂}, AnalyzeSyncFlow fuel root s₁ = some s₂ → ∀ a ∈ s₂.applied,
      (a.2.undefined = false ↔ ComesTo root True anyExit nowhere (a.1.1.id, a.1.2)) ∧
        (a.2.undefined = false ∧ CHILDREN_OUTSTANDING ∈ a.2.bitvector ↔
          ComesTo root False spawnExit syncExit (a.1.1.id, a.1.2)) := by
    intro fuel s₁ s₂ h a ha
    have hdefined := applied_iff hlinked regular_TransSF single_empty
      ⟨fun _ => abs_le_has.mpr ⟨rfl, Finset.empty_subset _⟩, fun _ => trivial⟩
      TransSF_defined h a ha
    have hchildren := applied_iff hlinked regular_TransSF (single_singleton CHILDREN_OUTSTANDING)
      ⟨False.elim, fun hle => absurd (abs_le_has.mp hle).2 (by decide)⟩
      TransSF_children h a ha
    rw [hempty] at hdefined
    rw [Finset.singleton_subset_iff] at hchildren
    exact ⟨hdefined, hchildren⟩
  constructor
  · intro hsafe
    obtain ⟨fuel, s₁, h₁, fuel', s₂, h₂⟩ := hsafe.ends
    obtain ⟨hstale₁, hstale₂⟩ := hsafe.stale fuel s₁ fuel' s₂ h₁ h₂
    have hdefined : ∀ node, Exits root node → isProc node = true →
        ∀ v, ((node, .ExitPoint), v) ∈ s₁.applied → v.undefined = false := by
      intro node _ hproc v ha
      by_contra hv
      have hv := Bool.eq_true_of_not_eq_false hv
      have hnot := (stale_TransRF_iff signature hv).mp (hstale₁ _ ha hv) rfl
      rw [hproc] at hnot
      cases hnot
    constructor
    case returns =>
      intro node hexits hproc
      obtain ⟨v, ha⟩ := (exits_iff hlinked (regular_TransRF signature) h₁ node).mp hexits
      exact (hrf h₁ _ ha).1.mp (hdefined node hexits hproc v ha)
    case syncs =>
      intro node hexits hkind
      obtain ⟨v, ha⟩ := (exits_iff hlinked regular_TransSF h₂ node).mp hexits
      refine (hsf h₂ _ ha).1.mp ?_
      by_contra hv
      have hnot := stale_TransSF_iff.mp (hstale₂ _ ha (Bool.eq_true_of_not_eq_false hv)) rfl
      rw [hkind] at hnot
      cases hnot
    case children =>
      intro n decl body hexits hcomes
      obtain ⟨v, ha⟩ := (exits_iff hlinked regular_TransSF h₂ _).mp hexits
      have hbit := ((hsf h₂ _ ha).2.mpr hcomes).2
      have hneeds := hsafe.asserted fuel s₁ fuel' s₂ h₁ h₂ n
        ((procedure_needs_sync_iff n).mpr ⟨decl, body, v, ha, hbit⟩)
      obtain ⟨decl', body', w, hw, hreturns, hreach⟩ := (needs_return_iff signature n).mp hneeds
      have hexits' := (exits_iff hlinked (regular_TransRF signature) h₁ _).mpr ⟨w, hw⟩
      exact ⟨hreturns, (hrf h₁ _ hw).2.mp ⟨hdefined _ hexits' rfl w hw, hreach⟩⟩
  · intro hsettled
    have hdefined₁ : ∀ {fuel s₁}, AnalyzeReturnFlow signature fuel root s = some s₁ →
        ∀ {node v}, ((node, .ExitPoint), v) ∈ s₁.applied → isProc node = true →
          v.undefined = false := fun h node v ha hproc =>
      (hrf h _ ha).1.mpr (hsettled.returns _
        ((exits_iff hlinked (regular_TransRF signature) h _).mpr ⟨_, ha⟩) hproc)
    have hdefined₂ : ∀ {fuel s₁ s₂}, AnalyzeSyncFlow fuel root s₁ = some s₂ →
        ∀ {node v}, ((node, .ExitPoint), v) ∈ s₂.applied →
          (isReturn node || isProc node) = true → v.undefined = false := fun h node v ha hkind =>
      (hsf h _ ha).1.mpr (hsettled.syncs _
        ((exits_iff hlinked regular_TransSF h _).mpr ⟨_, ha⟩) hkind)
    constructor
    case ends =>
      obtain ⟨fuel, s₁, h₁⟩ := ends hlinked (regular_TransRF signature) (SetBit EmptySet REACHABLE) s
      obtain ⟨fuel', s₂, h₂⟩ := ends hlinked regular_TransSF EmptySet s₁
      exact ⟨fuel, s₁, h₁, fuel', s₂, h₂⟩
    case asserted =>
      intro fuel s₁ fuel' s₂ h₁ h₂ n hmem
      obtain ⟨decl, body, v, ha, hbit⟩ := (procedure_needs_sync_iff n).mp hmem
      have hexits := (exits_iff hlinked regular_TransSF h₂ _).mpr ⟨v, ha⟩
      obtain ⟨hreturns, hcomes⟩ := hsettled.children n decl body hexits
        ((hsf h₂ _ ha).2.mp ⟨hdefined₂ h₂ ha rfl, hbit⟩)
      obtain ⟨w, hw⟩ := (exits_iff hlinked (regular_TransRF signature) h₁ _).mp hexits
      exact (needs_return_iff signature n).mpr
        ⟨decl, body, w, hw, hreturns, ((hrf h₁ _ hw).2.mpr hcomes).2⟩
    case stale =>
      intro fuel s₁ fuel' s₂ h₁ h₂
      refine ⟨fun a ha hv => (stale_TransRF_iff signature hv).mpr fun hp => ?_,
        fun a ha hv => stale_TransSF_iff.mpr fun hp => ?_⟩
      · obtain ⟨⟨node, p⟩, v⟩ := a
        subst hp
        by_contra hproc
        have hdefined := hdefined₁ h₁ ha (Bool.eq_true_of_not_eq_false hproc)
        rw [hv] at hdefined
        cases hdefined
      · obtain ⟨⟨node, p⟩, v⟩ := a
        subst hp
        by_contra hkind
        have hdefined := hdefined₂ h₂ ha (Bool.eq_true_of_not_eq_false hkind)
        rw [hv] at hdefined
        cases hdefined

end

/-! ## A spawn behind a return -/

/-- `cilk void g() { return; spawn f(); }` -/
def spawnAfterReturn : Node :=
  .Proc 0 .null (.Block 1 [] [.Return 2 .null 0, .Spawn 3 .null (.Id 4) []])

/-- As the nodes are allocated: no slot is undefined, and none has a bit. -/
def allocated : State := ⟨fun _ => EmptySet, false, []⟩

/-- A cilk procedure that returns nothing. -/
def voidProcedure (_ : NodeId) : Signature := ⟨true, false, true, false⟩

theorem spawnAfterReturn_linked : Linked spawnAfterReturn := by
  refine .of_nodup (by decide) ?_ (by decide)
  simp [spawnAfterReturn, walkTree, walkList, DataFlow.targets, DataFlow.slots,
    DataFlow.confluencePoints]

/-- The theorem, at a spawn behind a return. -/
theorem sync_analysis_safe_iff_spawnAfterReturn :
    Safe voidProcedure spawnAfterReturn allocated ↔ Settled voidProcedure spawnAfterReturn :=
  sync_analysis_safe_iff voidProcedure spawnAfterReturn_linked allocated

/-- **The assertion fails** at a spawn behind a return: the children come to
the end of the procedure, which control does not. -/
theorem not_safe_spawnAfterReturn :
    Linked spawnAfterReturn ∧ ¬ Safe voidProcedure spawnAfterReturn allocated := by
  refine ⟨spawnAfterReturn_linked, fun h => ?_⟩
  have hneeds := h.asserted 3 _ 3 _ rfl rfl 0 (by decide)
  exact absurd hneeds (by decide)

end Cilk.SyncFlow
