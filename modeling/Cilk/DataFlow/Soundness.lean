import Cilk.DataFlow.Graph

/-!
# The framework solves the flow equations

A tree whose nodes are distinct and whose jumps go to nodes of the tree has a
flow graph, and `iterateDataFlow` ends with the values at its points. Forwards
they solve the equations of the graph. Backwards a return starts with the
initial value, and not with what comes out of the exit of its procedure, as
control that falls off the end of the body does; they solve the equations
exactly if there is no difference (`dataFlow_sound_iff`).
-/

namespace Cilk.DataFlow

open Ast Ast.Node Confluence FlowGraph

/-- Both points of a node. -/
def nodePoints (n : Node) : List (NodeId × Point) := [(n.id, .EntryPoint), (n.id, .ExitPoint)]

/-- The slots of a tree. -/
def slots (root : Node) : List Slot := root.walkTree.flatMap confluencePoints

/-- The slot of another node that a node flows into or reads. -/
def targets : Node → List Slot
  | .Case _ _ container | .Default _ container => [slot container.node .switch_values]
  | .Goto _ label => [slot label .label_values]
  | .Continue _ container => [continueSlot container]
  | .Break _ container => [slot container.node .break_values]
  | .Return _ _ proc => [return_values proc]
  | _ => []

/-- **A tree as the parser leaves it**: an address is one node, control goes
through a node in one place (a type may be shared), every goto, break,
continue, case and default points to a node of the tree that has the slot, and
a return that control can come to is in the procedure it goes out of. -/
structure Linked (root : Node) : Prop where
  same : ∀ n ∈ root.walkTree, ∀ m ∈ root.walkTree, n.id = m.id → n = m
  nodup : ((code root).points enter leave).Nodup
  targets : ∀ n ∈ root.walkTree, ∀ dest ∈ targets n, dest ∈ slots root
  returns : ∀ pr ∈ (code root).rets, pr.2 ∈ (code root).procs

/-! ## The code of a tree is made of its nodes -/

section

variable {n : NodeId} {c : FlowCode} {l l' : List (NodeId × Point)}

theorem around_subperm (h : (c.points enter leave).Subperm l) :
    ((around n c).points enter leave).Subperm ((n, .EntryPoint) :: (n, .ExitPoint) :: l) := by
  refine (List.subperm_cons _).mpr ?_
  show (c.points enter leave ++ [(n, Point.ExitPoint)]).Subperm ([(n, Point.ExitPoint)] ++ l)
  exact List.perm_append_comm.subperm_right.mp ((List.subperm_append_left _).mpr h)

/-- Nodes that control does not come to may be left out. -/
theorem append_subperm (h : l'.Subperm l) (l₁ : List (NodeId × Point)) : l'.Subperm (l₁ ++ l) :=
  h.trans (List.sublist_append_right _ _).subperm

theorem subperm_append (h : l'.Subperm l) (l₁ : List (NodeId × Point)) : l'.Subperm (l ++ l₁) :=
  h.trans (List.sublist_append_left _ _).subperm

end

mutual

/-- **The points of the code are points of the nodes**, and of none twice. -/
theorem points_subperm : ∀ n : Node,
    ((code n).points enter leave).Subperm (n.walkTree.flatMap nodePoints)
  | .null | .Prim _ | .Tdef _ | .Ptr _ _ | .Adcl _ _ _ | .Fdcl _ _ _ | .Sdcl _ _ _ | .Udcl _ _ _
  | .Edcl _ _ _ | .Attrib _ _ | .Text _ => by
    rw [code]
    exact List.nil_subperm
  | .Const n _ | .Id n | .Sync n | .Abort n | .Synched n => by
    rw [code, walkTree]
    exact around_subperm List.nil_subperm
  | .Label n | .Case n _ _ | .Default n _ => by
    rw [code, walkTree]
    exact around_subperm (n := n) List.nil_subperm
  | .Goto n _ | .Continue n _ | .Break n _ => by
    rw [code, walkTree]
    exact around_subperm (n := n) (c := .skip) List.nil_subperm
  | .Binop n op a b => by
    rw [code, walkTree, List.flatMap_cons, List.flatMap_append]
    have h := (points_subperm a).append (points_subperm b)
    split_ifs
    · refine around_subperm ?_
      show (_ ++ (_ ++ [])).Subperm _
      rwa [List.append_nil]
    · exact around_subperm h
  | .Unary n op a => by
    rw [code, walkTree]
    split_ifs
    · exact around_subperm List.nil_subperm
    · exact around_subperm (points_subperm a)
  | .Cast n a b | .Constructor n a b | .AsmArg n a b => by
    rw [code, walkTree, List.flatMap_cons, List.flatMap_append]
    exact around_subperm (append_subperm (points_subperm b) _)
  | .BuiltinVaArg n a b => by
    rw [code, walkTree, List.flatMap_cons, List.flatMap_append]
    exact around_subperm (subperm_append (points_subperm a) _)
  | .ImplicitCast n a => by
    rw [code, walkTree]
    exact around_subperm (points_subperm a)
  | .Decl n a b c => by
    rw [code, walkTree, List.flatMap_cons, List.flatMap_append, List.flatMap_append]
    exact around_subperm (append_subperm (subperm_append (points_subperm b) _) _)
  | .Comma n as | .Initializer n as => by
    rw [code, walkTree]
    exact around_subperm (pointsList_subperm as)
  | .Ternary n a b c | .IfElse n a b c => by
    rw [code, walkTree, List.flatMap_cons, List.flatMap_append, List.flatMap_append]
    exact around_subperm ((points_subperm a).append ((points_subperm b).append (points_subperm c)))
  | .If n a b => by
    rw [code, walkTree, List.flatMap_cons, List.flatMap_append]
    refine around_subperm ?_
    show (_ ++ (_ ++ [])).Subperm _
    rw [List.append_nil]
    exact (points_subperm a).append (points_subperm b)
  | .Array n a bs | .Call n a bs | .InletCall n a bs => by
    rw [code, walkTree, List.flatMap_cons, List.flatMap_append]
    exact around_subperm ((points_subperm a).append (pointsList_subperm bs))
  | .Block n as bs | .XBlock n as bs => by
    rw [code, walkTree, List.flatMap_cons, List.flatMap_append]
    exact around_subperm ((pointsList_subperm as).append (pointsList_subperm bs))
  | .Asm n a bs cs ds => by
    rw [code, walkTree, List.flatMap_cons, List.flatMap_append, List.flatMap_append,
      List.flatMap_append]
    exact around_subperm ((points_subperm a).append ((pointsList_subperm bs).append
      (subperm_append (pointsList_subperm cs) _)))
  | .Spawn n a b cs => by
    rw [code, walkTree, List.flatMap_cons, List.flatMap_append, List.flatMap_append]
    exact around_subperm ((points_subperm a).append
      ((points_subperm b).append (pointsList_subperm cs)))
  | .Switch n a b has_default => by
    rw [code, walkTree, List.flatMap_cons, List.flatMap_append]
    refine around_subperm ?_
    have h := (points_subperm a).append (points_subperm b)
    cases has_default
    · show (_ ++ (_ ++ [])).Subperm _
      rwa [List.append_nil]
    · show (_ ++ (_ ++ [])).Subperm _
      rwa [List.append_nil]
  | .While n a b => by
    rw [code, walkTree, List.flatMap_cons, List.flatMap_append]
    refine around_subperm ?_
    show (_ ++ (((_ ++ []) ++ []) ++ [])).Subperm _
    rw [List.append_nil, List.append_nil, List.append_nil]
    exact (points_subperm a).append (points_subperm b)
  | .Do n a b => by
    rw [code, walkTree, List.flatMap_cons, List.flatMap_append]
    refine around_subperm ?_
    show (_ ++ (_ ++ [])).Subperm _
    rw [List.append_nil]
    exact (points_subperm a).append (points_subperm b)
  | .For n a b c d => by
    rw [code, walkTree, List.flatMap_cons, List.flatMap_append, List.flatMap_append,
      List.flatMap_append]
    refine around_subperm ?_
    have hstep : ((code d).points enter leave ++ ((code c).points enter leave ++ [])).Subperm
        (c.walkTree.flatMap nodePoints ++ d.walkTree.flatMap nodePoints) := by
      rw [List.append_nil]
      exact ((points_subperm d).append (points_subperm c)).trans List.perm_append_comm.subperm
    split_ifs
    · exact (points_subperm a).append (append_subperm hstep _)
    · refine (points_subperm a).append ?_
      show (((code b).points enter leave ++ []) ++ _).Subperm _
      rw [List.append_nil]
      exact (points_subperm b).append hstep
  | .Return n a _ => by
    rw [code, walkTree]
    exact around_subperm (points_subperm a)
  | .Proc n a b => by
    rw [code, walkTree, List.flatMap_cons, List.flatMap_append]
    exact around_subperm (append_subperm (points_subperm b) _)

theorem pointsList_subperm : ∀ ns : List Node,
    ((codeList ns).points enter leave).Subperm ((walkList ns).flatMap nodePoints)
  | [] => by
    rw [codeList]
    exact List.nil_subperm
  | n :: ns => by
    rw [codeList, walkList, List.flatMap_append]
    exact (points_subperm n).append (pointsList_subperm ns)

end

/-- The slot is one of a node of the list, or what a node of it goes to. -/
def Known (l : List Node) (dest : Slot) : Prop :=
  ∃ m ∈ l, dest ∈ confluencePoints m ∨ dest ∈ targets m

/-- Where the jumps of the code go. -/
def Covers (l : List Node) (c : FlowCode) : Prop :=
  ∀ dest, Code.meeting dest ∈ c.vertices enter leave → Known l dest

namespace Covers

variable {l : List Node} {a b : FlowCode} {k : NodeId × SlotName} {n : NodeId}

theorem skip : Covers l .skip := nofun

theorem point {p : NodeId × Point} : Covers l (.point p) := by
  rintro (k | r) h
  · nomatch List.mem_singleton.mp h
  · nomatch List.mem_singleton.mp h

theorem jump (h : Known l (.inl k)) : Covers l (.jump k) := by
  rintro (k' | r) hk
  · obtain rfl := Vertex.label.inj (List.mem_singleton.mp hk)
    exact h
  · nomatch List.mem_singleton.mp hk

theorem resume (h : Known l (.inl k)) : Covers l (.resume k) := jump h

theorem seq (ha : Covers l a) (hb : Covers l b) : Covers l (.seq a b) := fun dest h =>
  (List.mem_append.mp h).elim (ha dest) (hb dest)

theorem alt (ha : Covers l a) (hb : Covers l b) : Covers l (.alt a b) := seq ha hb

theorem join (h : Known l (.inl k)) : Covers l (.join k) := seq (jump h) (resume h)

theorem around (h : Covers l a) : Covers l (around n a) := seq point (seq h point)

theorem through (h : Known l (.inl k)) : Covers l (through n k) := seq point (seq point (jump h))

theorem ret {p : NodeId × Point} (h : Known l (.inr n)) : Covers l (.ret p n) := by
  rintro (k | r) hr
  · rcases List.mem_cons.mp hr with he | hr
    · nomatch he
    · nomatch List.mem_singleton.mp hr
  · rcases List.mem_cons.mp hr with he | hr
    · nomatch he
    · obtain rfl := Vertex.returned.inj (List.mem_singleton.mp hr)
      exact h

theorem proc (h : Known l (.inr n)) (ha : Covers l a) : Covers l (.proc n a) := by
  rintro (k | r) hr
  · rcases List.mem_cons.mp hr with he | hr
    · nomatch he
    rcases List.mem_cons.mp hr with he | hr
    · nomatch he
    rcases List.mem_cons.mp hr with he | hr
    · nomatch he
    · exact ha _ hr
  · rcases List.mem_cons.mp hr with he | hr
    · nomatch he
    rcases List.mem_cons.mp hr with he | hr
    · obtain rfl := Vertex.returned.inj he
      exact h
    rcases List.mem_cons.mp hr with he | hr
    · nomatch he
    · exact ha _ hr

end Covers

section

variable {l : List Node}

mutual

/-- **The jumps of the code are those of the nodes.** -/
theorem covers_code : ∀ n : Node, n.walkTree ⊆ l → Covers l (code n)
  | .null, _ | .Prim _, _ | .Tdef _, _ | .Ptr _ _, _ | .Adcl _ _ _, _ | .Fdcl _ _ _, _
  | .Sdcl _ _ _, _ | .Udcl _ _ _, _ | .Edcl _ _ _, _ | .Attrib _ _, _ | .Text _, _ => by
    rw [code]
    exact .skip
  | .Const n _, _ | .Id n, _ | .Sync n, _ | .Abort n, _ | .Synched n, _ => by
    rw [code]
    exact .around .skip
  | .Binop n op a b, h => by
    rw [walkTree, List.cons_subset, List.append_subset] at h
    have ha := covers_code a h.2.1
    have hb := covers_code b h.2.2
    rw [code]
    split_ifs
    · exact .around (.seq ha (.alt hb .skip))
    · exact .around (.seq ha hb)
  | .Unary n op a, h => by
    rw [walkTree, List.cons_subset] at h
    rw [code]
    split_ifs
    · exact .around .skip
    · exact .around (covers_code a h.2)
  | .Cast n a b, h | .Constructor n a b, h | .AsmArg n a b, h => by
    rw [walkTree, List.cons_subset, List.append_subset] at h
    rw [code]
    exact .around (covers_code b h.2.2)
  | .BuiltinVaArg n a b, h => by
    rw [walkTree, List.cons_subset, List.append_subset] at h
    rw [code]
    exact .around (covers_code a h.2.1)
  | .ImplicitCast n a, h => by
    rw [walkTree, List.cons_subset] at h
    rw [code]
    exact .around (covers_code a h.2)
  | .Decl n a b c, h => by
    rw [walkTree, List.cons_subset, List.append_subset, List.append_subset] at h
    rw [code]
    exact .around (covers_code b h.2.2.1)
  | .Comma n as, h | .Initializer n as, h => by
    rw [walkTree, List.cons_subset] at h
    rw [code]
    exact .around (covers_codeList as h.2)
  | .Ternary n a b c, h | .IfElse n a b c, h => by
    rw [walkTree, List.cons_subset, List.append_subset, List.append_subset] at h
    rw [code]
    exact .around (.seq (covers_code a h.2.1)
      (.alt (covers_code b h.2.2.1) (covers_code c h.2.2.2)))
  | .If n a b, h => by
    rw [walkTree, List.cons_subset, List.append_subset] at h
    rw [code]
    exact .around (.seq (covers_code a h.2.1) (.alt (covers_code b h.2.2) .skip))
  | .Array n a bs, h | .Call n a bs, h | .InletCall n a bs, h => by
    rw [walkTree, List.cons_subset, List.append_subset] at h
    rw [code]
    exact .around (.seq (covers_code a h.2.1) (covers_codeList bs h.2.2))
  | .Block n as bs, h | .XBlock n as bs, h => by
    rw [walkTree, List.cons_subset, List.append_subset] at h
    rw [code]
    exact .around (.seq (covers_codeList as h.2.1) (covers_codeList bs h.2.2))
  | .Asm n a bs cs ds, h => by
    rw [walkTree, List.cons_subset, List.append_subset, List.append_subset,
      List.append_subset] at h
    rw [code]
    exact .around (.seq (covers_code a h.2.1)
      (.seq (covers_codeList bs h.2.2.1) (covers_codeList cs h.2.2.2.1)))
  | .Spawn n a b cs, h => by
    rw [walkTree, List.cons_subset, List.append_subset, List.append_subset] at h
    rw [code]
    exact .around (.seq (covers_code a h.2.1)
      (.seq (covers_code b h.2.2.1) (covers_codeList cs h.2.2.2)))
  | .Label n, h => by
    rw [walkTree, List.cons_subset] at h
    rw [code]
    exact .seq (.join ⟨_, h.1, .inl List.mem_cons_self⟩) (.around .skip)
  | .Switch n a b has_default, h => by
    rw [walkTree, List.cons_subset, List.append_subset] at h
    have hswitch : Known l (.inl (n, .switch_values)) := ⟨_, h.1, .inl List.mem_cons_self⟩
    have hbreak : Known l (.inl (n, .break_values)) :=
      ⟨_, h.1, .inl (List.mem_cons_of_mem _ List.mem_cons_self)⟩
    rw [code]
    refine .around (.seq (covers_code a h.2.1) (.seq (.jump hswitch)
      (.seq ?_ (.seq (covers_code b h.2.2) (.join hbreak)))))
    split_ifs
    · exact .skip
    · exact .seq (.resume hswitch) (.jump hbreak)
  | .Case n a container, h => by
    rw [walkTree, List.cons_subset] at h
    rw [code]
    exact .seq (.alt .skip (.resume ⟨_, h.1, .inr List.mem_cons_self⟩)) (.around .skip)
  | .Default n container, h => by
    rw [walkTree, List.cons_subset] at h
    rw [code]
    exact .seq (.alt .skip (.resume ⟨_, h.1, .inr List.mem_cons_self⟩)) (.around .skip)
  | .While n a b, h => by
    rw [walkTree, List.cons_subset, List.append_subset] at h
    have hloop : Known l (.inl (n, .loop_values)) := ⟨_, h.1, .inl List.mem_cons_self⟩
    have hbreak : Known l (.inl (n, .break_values)) :=
      ⟨_, h.1, .inl (List.mem_cons_of_mem _ List.mem_cons_self)⟩
    rw [code]
    exact .around (.seq (.join hloop) (.seq (covers_code a h.2.1)
      (.seq (.alt (.seq (covers_code b h.2.2) (.jump hloop)) (.jump hbreak)) (.resume hbreak))))
  | .Do n a b, h => by
    rw [walkTree, List.cons_subset, List.append_subset] at h
    have hloop : Known l (.inl (n, .loop_values)) := ⟨_, h.1, .inl List.mem_cons_self⟩
    have hcontinue : Known l (.inl (n, .continue_values)) :=
      ⟨_, h.1, .inl (List.mem_cons_of_mem _ List.mem_cons_self)⟩
    have hbreak : Known l (.inl (n, .break_values)) :=
      ⟨_, h.1, .inl (List.mem_cons_of_mem _ (List.mem_cons_of_mem _ List.mem_cons_self))⟩
    rw [code]
    exact .around (.seq (.join hloop) (.seq (covers_code a h.2.1) (.seq (.join hcontinue)
      (.seq (covers_code b h.2.2) (.seq (.alt (.jump hloop) (.jump hbreak)) (.resume hbreak))))))
  | .For n a b c d, h => by
    rw [walkTree, List.cons_subset, List.append_subset, List.append_subset,
      List.append_subset] at h
    have hloop : Known l (.inl (n, .loop_values)) := ⟨_, h.1, .inl List.mem_cons_self⟩
    have hcontinue : Known l (.inl (n, .continue_values)) :=
      ⟨_, h.1, .inl (List.mem_cons_of_mem _ List.mem_cons_self)⟩
    have hbreak : Known l (.inl (n, .break_values)) :=
      ⟨_, h.1, .inl (List.mem_cons_of_mem _ (List.mem_cons_of_mem _ List.mem_cons_self))⟩
    rw [code]
    refine .around (.seq (covers_code a h.2.1) (.seq (.join hloop) (.seq ?_
      (.seq (covers_code d h.2.2.2.2) (.seq (.join hcontinue) (.seq (covers_code c h.2.2.2.1)
        (.seq (.jump hloop) (.resume hbreak))))))))
    split_ifs
    · exact .skip
    · exact .seq (covers_code b h.2.2.1) (.alt (.jump hbreak) .skip)
  | .Goto n label, h => by
    rw [walkTree, List.cons_subset] at h
    rw [code]
    exact .through ⟨_, h.1, .inr List.mem_cons_self⟩
  | .Continue n ⟨m, typ⟩, h => by
    rw [walkTree, List.cons_subset] at h
    rw [code]
    refine .through ⟨_, h.1, .inr ?_⟩
    cases typ <;> exact List.mem_cons_self
  | .Break n container, h => by
    rw [walkTree, List.cons_subset] at h
    rw [code]
    exact .through ⟨_, h.1, .inr List.mem_cons_self⟩
  | .Return n a proc, h => by
    rw [walkTree, List.cons_subset] at h
    rw [code]
    exact .seq .point (.seq (covers_code a h.2) (.ret ⟨_, h.1, .inr List.mem_cons_self⟩))
  | .Proc n a b, h => by
    rw [walkTree, List.cons_subset, List.append_subset] at h
    rw [code]
    exact .proc ⟨_, h.1, .inl List.mem_cons_self⟩ (covers_code b h.2.2)

theorem covers_codeList : ∀ ns : List Node, walkList ns ⊆ l → Covers l (codeList ns)
  | [], _ => by
    rw [codeList]
    exact .skip
  | n :: ns, h => by
    rw [walkList, List.append_subset] at h
    rw [codeList]
    exact .seq (covers_code n h.1) (covers_codeList ns h.2)

end

end

theorem fst_of_mem_nodePoints {n : Node} {p : NodeId × Point} (h : p ∈ nodePoints n) :
    p.1 = n.id := by
  rcases List.mem_cons.mp h with rfl | h
  · rfl
  · rw [List.mem_singleton.mp h]

namespace Linked

variable {root : Node}

theorem points_nodup (h : (root.walkTree.map Node.id).Nodup) :
    ((code root).points enter leave).Nodup := by
  obtain ⟨l, hperm, hsub⟩ := points_subperm root
  refine hperm.nodup_iff.mp (List.Nodup.sublist hsub ?_)
  rw [List.nodup_flatMap]
  refine ⟨fun n _ => ?_, ?_⟩
  · refine List.nodup_cons.mpr ⟨fun h => ?_, List.nodup_singleton _⟩
    nomatch List.mem_singleton.mp h
  · refine (List.pairwise_map.mp h).imp fun hne p hp hq => hne ?_
    rw [← fst_of_mem_nodePoints hp, fst_of_mem_nodePoints hq]

/-- A tree whose nodes are all distinct. -/
theorem of_nodup (h : (root.walkTree.map Node.id).Nodup)
    (htargets : ∀ n ∈ root.walkTree, ∀ dest ∈ DataFlow.targets n, dest ∈ slots root)
    (hreturns : ∀ pr ∈ (code root).rets, pr.2 ∈ (code root).procs) : Linked root where
  same _ hn _ hm he := List.inj_on_of_nodup_map h hn hm he
  nodup := points_nodup h
  targets := htargets
  returns := hreturns

/-- **Every jump has its slot.** -/
theorem mem_slots (h : Linked root) {dest : Slot}
    (hdest : Code.meeting dest ∈ (code root).vertices enter leave) : dest ∈ slots root := by
  obtain ⟨m, hm, hmem | hmem⟩ := covers_code root (List.Subset.refl _) dest hdest
  · exact List.mem_flatMap.mpr ⟨m, hm, hmem⟩
  · exact h.targets m hm dest hmem

end Linked

/-! ## The values in the end -/

section

variable {V : Type} [SemilatticeInf V] [OrderTop V] [DecidableEq V]
  {trans : NodeId × Point → V → V} {dir : Direction} {init : V}

/-- The flow graph of a tree, in the direction of the analysis. -/
def flowGraph (dir : Direction) (root : Node) :=
  match dir with
  | .Forwards => (code root).graph enter leave
  | .Backwards => (code root).back enter leave

/-- Where the analysis starts. -/
def source : Direction → Vertex (NodeId × Point) (NodeId × SlotName) NodeId
  | .Forwards => .start
  | .Backwards => .stop

/-- Where the analysis ends. -/
def sink : Direction → Vertex (NodeId × Point) (NodeId × SlotName) NodeId
  | .Forwards => .stop
  | .Backwards => .start

/-- **The framework is sound on a tree**: it ends, and what `trans` is applied
to on the final pass solves the equations of the flow graph, and is at every
point below what any path to there carries. -/
def Sound (trans : NodeId × Point → V → V) (dir : Direction) (init : V) (root : Node)
    (s : State (NodeId × Point) Slot V) : Prop :=
  (∃ fuel s', iterateDataFlow trans dir init fuel root s = some s') ∧
    ∀ fuel s', iterateDataFlow trans dir init fuel root s = some s' →
      ∃ val : Vertex (NodeId × Point) (NodeId × SlotName) NodeId → V,
        (∀ a ∈ s'.applied, val (.point a.1) = a.2) ∧
        (∀ p ∈ (code root).points enter leave, ∃ v, (p, v) ∈ s'.applied) ∧
        Solves trans ((code root).vertices enter leave) (flowGraph dir root) (source dir) init val ∧
        ∀ us w, Path (flowGraph dir root) (source dir) us w → w ≠ sink dir →
          val w ≤ along trans us init

omit [DecidableEq V] in
theorem initConfluencePoints_of_nil {s : State (NodeId × Point) Slot V} {n : Node}
    (h : confluencePoints n = []) : initConfluencePoints s n = s := by
  unfold initConfluencePoints
  rw [h]

omit [DecidableEq V] in
theorem initConfluencePoints_of_ne_nil {s : State (NodeId × Point) Slot V} {n : Node}
    (h : confluencePoints n ≠ []) : initConfluencePoints s n =
      { s with slots := fun k => if (confluencePoints n).any (· = k) then ⊤ else s.slots k,
               changed := true } := by
  unfold initConfluencePoints
  split
  · next hnil => exact absurd hnil h
  · rfl

omit [DecidableEq V] in
/-- **All slots of the tree are undefined** before the first pass, and if there
are any, a pass is made. -/
theorem foldl_initConfluencePoints (l : List Node) (s : State (NodeId × Point) Slot V) :
    (∀ dest, dest ∈ l.flatMap confluencePoints ∨ s.slots dest = ⊤ →
        (l.foldl initConfluencePoints s).slots dest = ⊤) ∧
      ((l.foldl initConfluencePoints s).changed = false →
        l.flatMap confluencePoints = [] ∧ s.changed = false) := by
  induction l generalizing s with
  | nil => exact ⟨fun dest h => h.elim (nomatch ·) id, fun h => ⟨rfl, h⟩⟩
  | cons n l ih =>
    obtain ⟨hslots, hchanged⟩ := ih (initConfluencePoints s n)
    by_cases hn : confluencePoints n = []
    · rw [initConfluencePoints_of_nil hn] at hslots hchanged
      rw [List.flatMap_cons, hn, List.foldl_cons, initConfluencePoints_of_nil hn]
      exact ⟨hslots, hchanged⟩
    · rw [initConfluencePoints_of_ne_nil hn] at hslots hchanged
      rw [List.flatMap_cons, List.foldl_cons, initConfluencePoints_of_ne_nil hn]
      refine ⟨fun dest h => hslots dest ?_, fun h => absurd (hchanged h).2 (by simp)⟩
      by_cases hmem : dest ∈ confluencePoints n
      · exact .inr (if_pos (List.any_eq_true.mpr ⟨dest, hmem, decide_eq_true rfl⟩))
      · rcases h with h | h
        · exact .inl ((List.mem_append.mp h).resolve_left hmem)
        · refine .inr ?_
          dsimp only
          rw [h, ite_self]

/-- **What the final pass is made over**, and what it applies `trans` to. -/
theorem iterateDataFlow_spec [WellFoundedLT V] {root : Node} (hlinked : Linked root)
    (hmono : ∀ p, Monotone (trans p)) (s : State (NodeId × Point) Slot V) :
    (∃ fuel s', iterateDataFlow trans dir init fuel root s = some s') ∧
      ∀ fuel s', iterateDataFlow trans dir init fuel root s = some s' →
        ∃ tops, (∀ dest ∈ slots root, tops dest = ⊤) ∧
          (pass dir init (code root)).Settled trans init tops s'.slots ∧
          s'.applied = (pass dir init (code root)).applications trans s'.slots init := by
  obtain ⟨hslots, hchanged⟩ :=
    foldl_initConfluencePoints root.walkTree { s with changed := false }
  set s₀ := root.walkTree.foldl initConfluencePoints { s with changed := false } with hs₀
  have hputs : s₀.changed = false → (pass dir init (code root)).puts = [] := by
    intro h
    refine List.eq_nil_iff_forall_not_mem.mpr fun dest hdest => ?_
    have hmem : dest ∈ slots root := hlinked.mem_slots (by
      cases dir
      · exact (code root).backward_puts hdest
      · exact (code root).forward_puts hdest)
    rw [slots, (hchanged h).1] at hmem
    exact List.not_mem_nil hmem
  have heq (fuel : ℕ) : iterateDataFlow trans dir init fuel root s =
      (iterate ((pass dir init (code root)).run trans init) fuel s₀).map fun t =>
        ((pass dir init (code root)).run trans init { t with applied := [] }).2 := by
    unfold iterateDataFlow
    rw [dataFlow_eq]
    exact Option.map_eq_bind.symm
  constructor
  · obtain ⟨fuel, t, ht⟩ : ∃ fuel t,
        iterate ((pass dir init (code root)).run trans init) fuel s₀ = some t :=
      (pass dir init (code root)).iterate_total init s₀
    exact ⟨fuel, _, by rw [heq, ht]; rfl⟩
  · intro fuel s' h
    rw [heq] at h
    obtain ⟨t, ht, rfl⟩ := Option.map_eq_some_iff.mp h
    have hsettled := (pass dir init (code root)).iterate_settled hmono init hputs ht
    rw [(pass dir init (code root)).run_of_below init { t with applied := [] } hsettled.below]
    exact ⟨s₀.slots, fun dest hdest => hslots dest (.inl hdest), hsettled, rfl⟩

omit [SemilatticeInf V] [OrderTop V] [DecidableEq V] in
/-- No edge leads into the source of the analysis, or out of its sink. -/
theorem flowGraph_mem {root : Node} {u w : Vertex (NodeId × Point) (NodeId × SlotName) NodeId}
    (h : (u, w) ∈ flowGraph dir root) :
    u ≠ sink dir ∧ (w ∈ (code root).vertices enter leave ∨ w = sink dir) := by
  cases dir
  · have h := Code.mem_back.mp h
    exact ⟨((code root).graph_ne h).1, ((code root).graph_mem h).1.symm⟩
  · exact ⟨((code root).graph_ne h).2, ((code root).graph_mem h).2⟩

omit [OrderTop V] [DecidableEq V] in
/-- A solution is below what any path carries. -/
theorem le_along {root : Node} (hmono : ∀ p, Monotone (trans p))
    {val : Vertex (NodeId × Point) (NodeId × SlotName) NodeId → V}
    (h : Solves trans ((code root).vertices enter leave) (flowGraph dir root) (source dir) init val)
    {us : List (Vertex (NodeId × Point) (NodeId × SlotName) NodeId)}
    {w : Vertex (NodeId × Point) (NodeId × SlotName) NodeId}
    (hpath : Path (flowGraph dir root) (source dir) us w) (hw : w ≠ sink dir) :
    val w ≤ along trans us init :=
  h.le_along hmono (fun _ _ hmem => flowGraph_mem hmem) hpath hw

omit [DecidableEq V] in
/-- **Every point of the code is visited** on the final pass. -/
theorem exists_application {root : Node} (slots : Slot → V) {p : NodeId × Point}
    (hp : p ∈ (code root).points enter leave) :
    ∃ v, (p, v) ∈ (pass dir init (code root)).applications trans slots init := by
  have hmem : p ∈ ((pass dir init (code root)).applications trans slots init).map Prod.fst := by
    cases dir
    · exact ((code root).backward_points init).mem_iff.mpr hp
    · exact ((code root).forward_points init).symm ▸ hp
  obtain ⟨a, ha, rfl⟩ := List.mem_map.mp hmem
  exact ⟨a.2, ha⟩

/-- A sound backward analysis finds nothing out at the exit of a procedure that
has a return. -/
theorem leave_eq_of_sound [WellFoundedLT V] {root : Node} (hlinked : Linked root)
    (hmono : ∀ p, Monotone (trans p)) {s : State (NodeId × Point) Slot V}
    (h : Sound trans .Backwards init root s) {pr : (NodeId × Point) × NodeId}
    (hpr : pr ∈ (code root).rets) : trans (leave pr.2) init = init := by
  obtain ⟨⟨fuel, s', hs'⟩, hsound⟩ := h
  obtain ⟨val, hval, -, hsolves, -⟩ := hsound fuel s' hs'
  obtain ⟨tops, -, -, happ⟩ := (iterateDataFlow_spec hlinked hmono s).2 fuel s' hs'
  rw [happ] at hval
  exact (code root).leave_eq_of_backward_solves hlinked.nodup hpr
    (hlinked.returns pr hpr) hval hsolves

/-- **The framework is sound exactly if** returns start, backwards, with what
comes out of the exit of their procedure. -/
theorem dataFlow_sound_iff [WellFoundedLT V] {root : Node} (hlinked : Linked root)
    (hmono : ∀ p, Monotone (trans p)) (s : State (NodeId × Point) Slot V) :
    Sound trans dir init root s ↔
      dir = .Forwards ∨ ∀ pr ∈ (code root).rets, trans (leave pr.2) init = init := by
  constructor
  · intro h
    cases dir with
    | Forwards => exact .inl rfl
    | Backwards => exact .inr fun pr hpr => leave_eq_of_sound hlinked hmono h hpr
  · intro h
    obtain ⟨hends, hspec⟩ := iterateDataFlow_spec hlinked hmono s
    refine ⟨hends, fun fuel s' hs' => ?_⟩
    obtain ⟨tops, htops, hsettled, happ⟩ := hspec fuel s' hs'
    have hmeeting : ∀ j, Code.meeting j ∈ (code root).vertices enter leave → tops j = ⊤ :=
      fun j hj => htops j (hlinked.mem_slots hj)
    have hpoints := hlinked.nodup
    have hsolution : ∃ val : Vertex (NodeId × Point) (NodeId × SlotName) NodeId → V,
        (∀ a ∈ (pass dir init (code root)).applications trans s'.slots init,
          val (.point a.1) = a.2) ∧
        Solves trans ((code root).vertices enter leave) (flowGraph dir root) (source dir) init
          val := by
      cases dir with
      | Forwards => exact (code root).forward_solves hpoints hsettled hmeeting
      | Backwards =>
        exact (code root).backward_solves hpoints hsettled hmeeting hlinked.returns
          (h.resolve_left nofun)
    obtain ⟨val, hval, hsolves⟩ := hsolution
    rw [happ]
    exact ⟨val, hval, fun p hp => exists_application s'.slots hp, hsolves,
      fun us w hpath hw => le_along hmono hsolves hpath hw⟩

end

/-! ## A return that skips the exit -/

section

/-- `int f() { again: while (c) break; goto again; }` -/
def looping : Node :=
  .Proc 0 .null (.Block 1 [] [.Label 2, .While 3 (.Id 4) (.Break 5 ⟨3, .While⟩), .Goto 6 2])

/-- `void f() { return; }` -/
def returning : Node := .Proc 0 .null (.Block 1 [] [.Return 2 .null 0])

theorem looping_linked : Linked looping := by
  refine .of_nodup (by decide) ?_ nofun
  simp [looping, walkTree, walkList, targets, slots, confluencePoints, slot]

theorem returning_linked : Linked returning := by
  refine .of_nodup (by decide) ?_ (by decide)
  simp [returning, walkTree, walkList, targets, slots, confluencePoints]

/-- A transfer function that takes a value down to `0` where a procedure is
left: `2` is undefined. -/
def clearAtExit (p : NodeId × Point) (v : Fin 3) : Fin 3 :=
  if p = (0, .ExitPoint) ∧ v ≠ 2 then 0 else v

theorem clearAtExit_mono (p : NodeId × Point) : Monotone (clearAtExit p) := by
  intro v w hvw
  unfold clearAtExit
  by_cases hp : p = (0, .ExitPoint)
  · revert v w
    simp only [hp, true_and]
    decide
  · rwa [if_neg fun h => hp h.1, if_neg fun h => hp h.1]

/-- The theorem, at a loop with a goto around it. -/
theorem dataFlow_sound_iff_looping :
    Sound clearAtExit .Backwards (1 : Fin 3) looping ⟨fun _ => 0, false, []⟩ ↔
      Direction.Backwards = .Forwards ∨
        ∀ pr ∈ (code looping).rets, clearAtExit (leave pr.2) 1 = 1 :=
  dataFlow_sound_iff looping_linked clearAtExit_mono _

/-- **A return skips the exit of its procedure** in a backward analysis. -/
theorem return_skips_exit :
    Linked returning ∧ (∀ p, Monotone (clearAtExit p)) ∧
      ¬ Sound clearAtExit .Backwards (1 : Fin 3) returning ⟨fun _ => 0, false, []⟩ := by
  refine ⟨returning_linked, clearAtExit_mono, fun h => ?_⟩
  have hleave : clearAtExit (leave 0) 1 = 1 :=
    leave_eq_of_sound returning_linked clearAtExit_mono h
      (by decide : ((2, .ExitPoint), 0) ∈ (code returning).rets)
  exact absurd hleave (by decide)

end

end Cilk.DataFlow
