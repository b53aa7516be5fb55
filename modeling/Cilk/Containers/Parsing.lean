import Cilk.Containers.Resolution
import Mathlib.Data.List.Nodup

/-!
# What the parser needs and does

A piece of the parse without syntax errors has a result exactly if there is room on
the stack for the containers that are open at a time. It then leaves the stack as it
was, and has linked every jump to the innermost container that takes it and is open.
-/

namespace Cilk.Containers

open Symbols (MAX_SCOPE_DEPTH)

/-! ## What is parsed -/

/-- With room for `d` more containers on the stack, a piece of the parse has
a result, and has done its work. -/
def Parses (parts : State → Option State) (L : List Site) (switches : List NodeId) (d : ℕ) :
    Prop :=
  ∀ σ, σ.stack.length + d ≤ MAX_SCOPE_DEPTH →
    ∃ σ', parts σ = some σ' ∧ Done L switches σ σ'

/-- `place` adds to a container where it stands on the stack. -/
theorem place_length {c : Containee} {stack stack' : List Container}
    (h : place c stack = some stack') : stack'.length = stack.length := by
  induction stack generalizing stack' with
  | nil =>
    rw [place_nil] at h
    cases h
  | cons k stack ih =>
    rw [place_cons] at h
    split at h
    · rw [← Option.some.inj h, List.length_cons, List.length_cons]
    · obtain ⟨rest, hrest, rfl⟩ := Option.map_eq_some_iff.mp h
      rw [List.length_cons, List.length_cons, ih hrest]

/-- What is added to a container leaves the stack. -/
theorem addContainee_length (c : Containee) (σ : State) :
    (AddContainee c σ).stack.length = σ.stack.length := by
  unfold AddContainee
  split
  case h_1 stack h => exact place_length h
  case h_2 => rfl

theorem addAll_length (cs : List Containee) (σ : State) :
    (addAll cs σ).stack.length = σ.stack.length := by
  induction cs generalizing σ with
  | nil => rfl
  | cons c cs ih => exact (ih _).trans (addContainee_length c σ)

namespace Parses

/-- **One part after the other**: the sites of both, of which neither is in the
other. -/
theorem seq {f g : State → Option State} {L L' : List Site}
    {switches switches' nodes nodes' : List NodeId} {d d' : ℕ} (hf : Parses f L switches d)
    (hg : Parses g L' switches' d') (hw : Within L switches nodes)
    (hw' : Within L' switches' nodes') (hdisjoint : ∀ n ∈ nodes, n ∉ nodes') :
    Parses (fun σ => (f σ).bind g) (L ++ L') (switches ++ switches') (max d d') := by
  intro σ hd
  obtain ⟨σ₁, hrun, hdone⟩ := hf σ (by omega)
  have hlength : σ₁.stack.length = σ.stack.length := by
    rw [hdone.stack]
    exact addAll_length _ σ
  obtain ⟨σ₂, hrun', hdone'⟩ := hg σ₁ (by omega)
  refine ⟨σ₂, ?_, hdone.seq hdone' hw hw' hdisjoint⟩
  show (f σ).bind g = some σ₂
  rw [hrun]
  exact hrun'

/-- **A container around its parts**: their sites are in it. -/
theorem enclose {typ : ContainerType} {n : NodeId} {parts : State → Option State}
    {L : List Site} {switches nodes : List NodeId} {d : ℕ} (h : Parses parts L switches d)
    (hw : Within L switches nodes) (hn : n ∉ nodes) :
    Parses (Containers.enclose typ n parts) (L.map fun x => x.around [(typ, n)])
      (if typ = .Switch then n :: switches else switches) (d + 1) :=
  fun _ hd => Done.enclose h hw hn hd

end Parses

namespace Reading

/-- The nodes of the sites are among those of the reading, in their order. -/
theorem sites_sublist (p : Reading) (opened : Nest) :
    ((p.sites opened).map fun x => x.containee.node).Sublist p.nodes := by
  induction p generalizing opened with
  | nothing => exact List.Sublist.refl _
  | seq a b iha ihb =>
    rw [sites, List.map_append]
    exact (iha ..).append (ihb ..)
  | containee c enclosing => exact List.Sublist.refl _
  | container typ n header body ihh ihb =>
    cases typ <;> simp only [sites, List.map_append]
    case Do => exact ((ihb ..).append (ihh ..)).cons n
    case Switch | While | For => exact ((ihh ..).append (ihb ..)).cons n
  | unfinished typ parts => exact List.nil_sublist _

/-- Where no node is used twice, no node is a site twice. -/
theorem within (p : Reading) (hp : p.nodes.Nodup) : Within (p.sites []) p.switches p.nodes where
  node _ hx := (p.sites_within hx).1
  found _ hx n hn := ((p.sites_within hx).2 n hn).resolve_right List.not_mem_nil
  switch _ hn := p.switches_within hn
  unique _ hx _ hy he := List.inj_on_of_nodup_map (hp.sublist (p.sites_sublist [])) hx hy he

/-- The parts of a container, seen from within and from without. -/
theorem sites_inside (p : Reading) (typ : ContainerType) (n : NodeId) :
    p.sites [(typ, n)] = (p.sites []).map fun x => x.around [(typ, n)] :=
  p.sites_opened [] [(typ, n)]

/-- **A piece is parsed**, and its jumps are linked to the innermost open
containers. -/
theorem parses (p : Reading) (hp : p.nodes.Nodup) (hf : p.Finished) :
    Parses (parse p) (p.sites []) p.switches p.depth := by
  induction p with
  | nothing => exact fun σ _ => ⟨σ, rfl, .nothing σ⟩
  | seq a b iha ihb =>
    obtain ⟨ha, hb, hdisjoint⟩ := List.nodup_append.mp hp
    exact (iha ha hf.1).seq (ihb hb hf.2) (a.within ha) (b.within hb)
      fun n hn hn' => hdisjoint n hn n hn' rfl
  | containee c enclosing => exact fun σ _ => ⟨_, rfl, .containee c enclosing σ⟩
  | container typ n header body ihh ihb =>
    have hparts : ∀ a b : Reading, (a.nodes ++ b.nodes).Nodup → n ∉ a.nodes ++ b.nodes →
        Parses (parse a) (a.sites []) a.switches a.depth →
        Parses (parse b) (b.sites []) b.switches b.depth →
        Parses (Containers.enclose typ n fun σ => (parse a σ).bind (parse b))
          (a.sites [(typ, n)] ++ b.sites [(typ, n)])
          (if typ = .Switch then n :: (a.switches ++ b.switches) else a.switches ++ b.switches)
          (max a.depth b.depth + 1) := by
      intro a b hnd hn hpa hpb
      obtain ⟨ha, hb, hdisjoint⟩ := List.nodup_append.mp hnd
      have hw := (seq a b).within hnd
      rw [sites_inside, sites_inside, ← List.map_append]
      exact (hpa.seq hpb (a.within ha) (b.within hb)
        fun m hm hm' => hdisjoint m hm m hm' rfl).enclose hw hn
    cases typ
    case While | Switch =>
      obtain ⟨hn, hnd⟩ := List.nodup_cons.mp hp
      obtain ⟨hh, hb, -⟩ := List.nodup_append.mp hnd
      exact hparts header body hnd hn (ihh hh hf.1) (ihb hb hf.2)
    case Do =>
      obtain ⟨hn, hnd⟩ := List.nodup_cons.mp hp
      obtain ⟨hb, hh, -⟩ := List.nodup_append.mp hnd
      have hdo := hparts body header hnd hn (ihb hb hf.2) (ihh hh hf.1)
      rw [max_comm] at hdo
      exact hdo
    case For =>
      obtain ⟨hn, hnd⟩ := List.nodup_cons.mp hp
      obtain ⟨hh, hb, hdisjoint⟩ := List.nodup_append.mp hnd
      have hnb : n ∉ body.nodes := fun h => hn (List.mem_append_right _ h)
      have hnh : n ∉ header.nodes := fun h => hn (List.mem_append_left _ h)
      have hloop := (container .For n .nothing body).within (List.nodup_cons.mpr ⟨hnb, hb⟩)
      have hbody : Parses (Containers.enclose .For n (parse body)) _ _ _ :=
        (ihb hb hf.2).enclose (body.within hb) hnb
      rw [← sites_inside] at hbody
      exact (ihh hh hf.1).seq hbody (header.within hh) hloop
        fun m hm hm' => by
          rcases List.mem_cons.mp hm' with rfl | hm'
          · exact hnh hm
          · exact hdisjoint m hm m hm' rfl
  | unfinished typ parts => exact hf.elim

/-! ## What is not parsed -/

/-- How many containers are left on the stack. -/
def left : Reading → ℕ
  | nothing | containee _ _ => 0
  | seq a b => a.left + b.left
  | container _ _ header body => header.left + body.left
  | unfinished _ parts => parts.left + 1

/-- Where no container is left on the stack, the reading is finished. -/
theorem finished_of_left (p : Reading) (h : p.left = 0) : p.Finished := by
  induction p with
  | nothing | containee _ _ => trivial
  | seq a b iha ihb => exact ⟨iha (Nat.add_eq_zero_iff.mp h).1, ihb (Nat.add_eq_zero_iff.mp h).2⟩
  | container typ n header body ihh ihb =>
    exact ⟨ihh (Nat.add_eq_zero_iff.mp h).1, ihb (Nat.add_eq_zero_iff.mp h).2⟩
  | unfinished typ parts => cases h

end Reading

/-- A push that goes well is within the depth that there is. -/
theorem pushContainer_some {typ : ContainerType} {σ σ' : State}
    (h : PushContainer typ σ = some σ') (hσ : σ.stack.length ≤ MAX_SCOPE_DEPTH) :
    σ'.stack.length = σ.stack.length + 1 ∧ σ'.stack.length ≤ MAX_SCOPE_DEPTH := by
  unfold PushContainer at h
  split at h
  · cases h
  case isFalse hfull =>
    rw [← Option.some.inj h]
    show σ.stack.length + 1 = _ ∧ σ.stack.length + 1 ≤ _
    exact ⟨rfl, by omega⟩

/-- A pop takes one container off. -/
theorem popContainer_some {typ : ContainerType} {n : NodeId} {σ σ' : State}
    (h : PopContainer typ n σ = some σ') : σ.stack.length = σ'.stack.length + 1 := by
  unfold PopContainer at h
  split at h
  · cases h
  case h_2 top rest hstack =>
    rw [hstack, List.length_cons]
    split at h
    · cases h
    · obtain ⟨σ₁, -, h⟩ := Option.bind_eq_some_iff.mp h
      obtain ⟨σ₂, -, h⟩ := Option.bind_eq_some_iff.mp h
      rw [← Option.some.inj h]

/-- `MakeX` of a container leaves the stack. -/
theorem makeNode_stack (typ : ContainerType) (n : NodeId) (σ : State) :
    (makeNode typ n σ).stack = σ.stack := by
  unfold makeNode
  split <;> rfl

/-- What a piece of the parse needs and leaves of the stack, if it has a
result. -/
structure Fits (parts : State → Option State) (left depth : ℕ) (finished : Prop) : Prop where
  length : ∀ σ σ', parts σ = some σ' → σ.stack.length ≤ MAX_SCOPE_DEPTH →
    σ'.stack.length = σ.stack.length + left ∧ σ'.stack.length ≤ MAX_SCOPE_DEPTH
  depth : finished → ∀ σ σ', parts σ = some σ' → σ.stack.length ≤ MAX_SCOPE_DEPTH →
    σ.stack.length + depth ≤ MAX_SCOPE_DEPTH

namespace Fits

/-- One part after the other, where a finished one leaves no container behind.
-/
theorem seq {f g : State → Option State} {l l' d d' : ℕ} {P P' : Prop} (hf : Fits f l d P)
    (hg : Fits g l' d' P') (hl : P → l = 0) :
    Fits (fun σ => (f σ).bind g) (l + l') (max d d') (P ∧ P') where
  length σ σ' h hσ := by
    obtain ⟨σ₁, hrun, hrest⟩ := Option.bind_eq_some_iff.mp h
    obtain ⟨hlength, hmax⟩ := hf.length σ σ₁ hrun hσ
    obtain ⟨hlength', hmax'⟩ := hg.length σ₁ σ' hrest hmax
    exact ⟨by omega, hmax'⟩
  depth hP σ σ' h hσ := by
    obtain ⟨σ₁, hrun, hrest⟩ := Option.bind_eq_some_iff.mp h
    obtain ⟨hlength, hmax⟩ := hf.length σ σ₁ hrun hσ
    have hfirst := hf.depth hP.1 σ σ₁ hrun hσ
    have hsecond := hg.depth hP.2 σ₁ σ' hrest hmax
    have hzero := hl hP.1
    omega

/-- A container takes one level more than its parts. -/
theorem enclose {typ : ContainerType} {n : NodeId} {parts : State → Option State} {l d : ℕ}
    {P : Prop} (h : Fits parts l d P) : Fits (Containers.enclose typ n parts) l (d + 1) P where
  length σ σ' hrun hσ := by
    obtain ⟨σ₁, hpush, hrest⟩ := Option.bind_eq_some_iff.mp hrun
    obtain ⟨σ₂, hparts, hpop⟩ := Option.bind_eq_some_iff.mp hrest
    obtain ⟨hlength, hmax⟩ := pushContainer_some hpush hσ
    obtain ⟨hlength', hmax'⟩ := h.length σ₁ σ₂ hparts hmax
    have hlast := popContainer_some hpop
    rw [makeNode_stack] at hlast
    omega
  depth hP σ σ' hrun hσ := by
    obtain ⟨σ₁, hpush, hrest⟩ := Option.bind_eq_some_iff.mp hrun
    obtain ⟨σ₂, hparts, -⟩ := Option.bind_eq_some_iff.mp hrest
    obtain ⟨hlength, hmax⟩ := pushContainer_some hpush hσ
    have hinside := h.depth hP σ₁ σ₂ hparts hmax
    omega

end Fits

namespace Reading

/-- A finished reading leaves no container on the stack. -/
theorem left_of_finished (p : Reading) (h : p.Finished) : p.left = 0 := by
  induction p with
  | nothing | containee _ _ => rfl
  | seq a b iha ihb => rw [left, iha h.1, ihb h.2]
  | container typ n header body ihh ihb => rw [left, ihh h.1, ihb h.2]
  | unfinished typ parts => exact h.elim

/-- **What is parsed had the room it needs**, and leaves on the stack what syntax
errors have ended. -/
theorem fits (p : Reading) : Fits (parse p) p.left p.depth p.Finished := by
  induction p with
  | nothing =>
    refine ⟨fun σ σ' h hσ => ?_, fun _ σ σ' _ hσ => hσ⟩
    rw [← Option.some.inj h]
    exact ⟨rfl, hσ⟩
  | seq a b iha ihb => exact iha.seq ihb a.left_of_finished
  | containee c enclosing =>
    refine ⟨fun σ σ' h hσ => ?_, fun _ σ σ' _ hσ => hσ⟩
    rw [← Option.some.inj h, addContainee_length]
    exact ⟨rfl, hσ⟩
  | container typ n header body ihh ihb =>
    have hdo : Fits (Containers.enclose .Do n fun σ => (parse body σ).bind (parse header))
        _ _ _ := (ihb.seq ihh body.left_of_finished).enclose
    rw [add_comm, max_comm, and_comm] at hdo
    cases typ
    case Do => exact hdo
    case For => exact ihh.seq ihb.enclose header.left_of_finished
    case While | Switch => exact (ihh.seq ihb header.left_of_finished).enclose
  | unfinished typ parts ih =>
    refine ⟨fun σ σ' h hσ => ?_, fun hf => hf.elim⟩
    obtain ⟨σ₁, hpush, hparts⟩ := Option.bind_eq_some_iff.mp h
    obtain ⟨hlength, hmax⟩ := pushContainer_some hpush hσ
    obtain ⟨hlength', hmax'⟩ := ih.length σ₁ σ' hparts hmax
    rw [left]
    omega

end Reading

end Cilk.Containers
