import Mathlib.Data.List.Basic
import Mathlib.Tactic

/-!
# Stacks of scopes

Names are bound in scopes that are opened and closed as on a stack. A name
stands for what the innermost scope that binds it says. A scope also has
members, who are told when it is closed; a member may be moved to the scope
around.

`occurrences` lists all bindings of one name with the depths of their scopes,
the innermost one first. It is what an implementation is compared with that
keeps a list of this kind for each name.
-/

/-- A scope. -/
structure Scope (ν α : Type*) where
  /-- The bindings, the last one first. -/
  bindings : List (ν × α)
  /-- Who is told when the scope is closed. -/
  members : List α

namespace ScopeStack

variable {ν α : Type*} [DecidableEq ν]

/-- A new scope. -/
def fresh : Scope ν α := ⟨[], []⟩

/-- **What a name stands for**; the stack has the innermost scope first. -/
def lookup (name : ν) (s : List (Scope ν α)) : Option α :=
  s.findSome? fun scope => scope.bindings.lookup name

/-- What the innermost scope binds a name to. -/
def innermost (name : ν) : List (Scope ν α) → Option α
  | [] => none
  | scope :: _ => scope.bindings.lookup name

/-- A new binding in the innermost scope. -/
def bind (name : ν) (a : α) : List (Scope ν α) → List (Scope ν α)
  | [] => []
  | scope :: s => { scope with bindings := (name, a) :: scope.bindings } :: s

/-- A new member of the innermost scope. -/
def enroll (a : α) : List (Scope ν α) → List (Scope ν α)
  | [] => []
  | scope :: s => { scope with members := a :: scope.members } :: s

/-- **The move of a binding**, and of its member, to the scope around. -/
def moveOut [DecidableEq α] (name : ν) : List (Scope ν α) → Option (List (Scope ν α))
  | inner :: outer :: s =>
    (inner.bindings.lookup name).map fun a =>
      ⟨inner.bindings.eraseP fun b => b.1 = name, inner.members.erase a⟩ ::
        ⟨(name, a) :: outer.bindings, a :: outer.members⟩ :: s
  | _ => none

/-- The members of the scope at a depth. -/
def membersAt : List (Scope ν α) → ℕ → List α
  | [], _ => []
  | scope :: s, depth => if depth = s.length then scope.members else membersAt s depth

/-- The bindings of a name in one scope, with its depth. -/
def ofScope (name : ν) (scope : Scope ν α) (depth : ℕ) : List (ℕ × α) :=
  (scope.bindings.filter fun b => b.1 = name).map fun b => (depth, b.2)

/-- **All bindings of a name**, with the depths of their scopes. -/
def occurrences (name : ν) : List (Scope ν α) → List (ℕ × α)
  | [] => []
  | scope :: s => ofScope name scope s.length ++ occurrences name s

variable {name name' : ν} {a : α} {scope : Scope ν α} {s s' : List (Scope ν α)}

theorem depth_of_mem_ofScope {depth : ℕ} {o : ℕ × α} (h : o ∈ ofScope name scope depth) :
    o.1 = depth := by
  obtain ⟨b, -, rfl⟩ := List.mem_map.mp h
  rfl

theorem depth_lt_of_mem {o : ℕ × α} (h : o ∈ occurrences name s) : o.1 < s.length := by
  induction s with
  | nil => nomatch h
  | cons scope s ih =>
    rw [List.length_cons]
    rcases List.mem_append.mp h with h | h
    · rw [depth_of_mem_ofScope h]
      exact Nat.lt_succ_self _
    · exact (ih h).trans (Nat.lt_succ_self _)

theorem head?_ofScope (name : ν) (scope : Scope ν α) (depth : ℕ) :
    (ofScope name scope depth).head? = (scope.bindings.lookup name).map fun a => (depth, a) := by
  unfold ofScope
  induction scope.bindings with
  | nil => rfl
  | cons b bs ih =>
    obtain ⟨n, x⟩ := b
    by_cases h : n = name
    · subst h
      rw [List.filter_cons_of_pos (by simp), List.lookup_cons_self]
      rfl
    · rw [List.filter_cons_of_neg (by simpa using h), ih, List.lookup_cons,
        beq_false_of_ne (Ne.symm h)]

/-- **A name stands for its first occurrence.** -/
theorem lookup_eq (name : ν) (s : List (Scope ν α)) :
    lookup name s = (occurrences name s).head?.map Prod.snd := by
  induction s with
  | nil => rfl
  | cons scope s ih =>
    have hhead := head?_ofScope name scope s.length
    unfold lookup at ih ⊢
    rw [List.findSome?_cons]
    show _ = ((ofScope name scope s.length ++ occurrences name s).head?).map Prod.snd
    rw [List.head?_append, hhead]
    cases scope.bindings.lookup name with
    | some a => rfl
    | none => exact ih

/-- The innermost scope binds a name where the first occurrence is in it. -/
theorem innermost_cons (name : ν) (scope : Scope ν α) (s : List (Scope ν α)) :
    innermost name (scope :: s) =
      ((occurrences name (scope :: s)).head?.filter fun o => o.1 = s.length).map Prod.snd := by
  have hhead := head?_ofScope name scope s.length
  show scope.bindings.lookup name =
    (((ofScope name scope s.length ++ occurrences name s).head?).filter _).map Prod.snd
  rw [List.head?_append, hhead]
  cases hscope : scope.bindings.lookup name with
  | some a => simp
  | none =>
    cases hs : (occurrences name s).head? with
    | none => rfl
    | some o =>
      have hlt := depth_lt_of_mem (List.mem_of_mem_head? hs)
      simp [hlt.ne]

theorem occurrences_fresh : occurrences name ((fresh : Scope ν α) :: s) = occurrences name s := rfl

theorem occurrences_bind (scope : Scope ν α) : occurrences name (bind name a (scope :: s)) =
    (s.length, a) :: occurrences name (scope :: s) := by
  show ofScope name ⟨(name, a) :: scope.bindings, scope.members⟩ s.length ++ occurrences name s = _
  unfold ofScope
  rw [List.filter_cons_of_pos (by simp)]
  rfl

theorem occurrences_bind_ne (h : name' ≠ name) :
    occurrences name' (bind name a s) = occurrences name' s := by
  cases s with
  | nil => rfl
  | cons scope s =>
    show ofScope name' ⟨(name, a) :: scope.bindings, scope.members⟩ s.length ++ _ = _
    unfold ofScope
    rw [List.filter_cons_of_neg (by simpa using h.symm)]
    rfl

theorem occurrences_enroll : occurrences name (enroll a s) = occurrences name s := by
  cases s <;> rfl

omit [DecidableEq ν] in
theorem length_bind : (bind name a s).length = s.length := by
  cases s <;> rfl

omit [DecidableEq ν] in
theorem length_enroll : (enroll a s).length = s.length := by
  cases s <;> rfl

omit [DecidableEq ν] in
theorem membersAt_bind (depth : ℕ) : membersAt (bind name a s) depth = membersAt s depth := by
  cases s <;> rfl

omit [DecidableEq ν] in
theorem membersAt_enroll (depth : ℕ) : membersAt (enroll a (scope :: s)) depth =
    if depth = s.length then a :: membersAt (scope :: s) depth else membersAt (scope :: s) depth := by
  unfold enroll membersAt
  split_ifs <;> rfl

omit [DecidableEq ν] in
/-- There is no scope as deep as the stack is high. -/
theorem membersAt_length_le {depth : ℕ} (h : s.length ≤ depth) : membersAt s depth = [] := by
  induction s with
  | nil => rfl
  | cons scope s ih =>
    rw [List.length_cons] at h
    unfold membersAt
    rw [if_neg (by omega)]
    exact ih (by omega)

/-- A scope without the last binding of a name. -/
theorem ofScope_erase (depth : ℕ) (members : List α) :
    ofScope name ⟨scope.bindings.eraseP fun b => b.1 = name, members⟩ depth =
      (ofScope name scope depth).tail := by
  unfold ofScope
  rw [← List.map_tail]
  refine congrArg _ ?_
  dsimp only
  induction scope.bindings with
  | nil => rfl
  | cons b bs ih =>
    by_cases h : b.1 = name
    · rw [List.eraseP_cons_of_pos (by simpa using h), List.filter_cons_of_pos (by simpa using h)]
      rfl
    · rw [List.eraseP_cons_of_neg (by simpa using h), List.filter_cons_of_neg (by simpa using h),
        List.filter_cons_of_neg (by simpa using h), ih]

theorem ofScope_erase_ne (h : name' ≠ name) (depth : ℕ) (members : List α) :
    ofScope name' ⟨scope.bindings.eraseP fun b => b.1 = name, members⟩ depth =
      ofScope name' scope depth := by
  unfold ofScope
  refine congrArg _ ?_
  dsimp only
  induction scope.bindings with
  | nil => rfl
  | cons b bs ih =>
    by_cases hb : b.1 = name
    · rw [List.eraseP_cons_of_pos (by simpa using hb),
        List.filter_cons_of_neg (by simpa using fun h' => h (h'.symm.trans hb))]
    · rw [List.eraseP_cons_of_neg (by simpa using hb), List.filter_cons, List.filter_cons, ih]

section

variable [DecidableEq α] {inner outer : Scope ν α}

/-- There is something to move. -/
theorem head?_of_moveOut (h : moveOut name (inner :: outer :: s) = some s') :
    ∃ a, (occurrences name (inner :: outer :: s)).head? = some (s.length + 1, a) := by
  obtain ⟨a, ha, -⟩ := Option.map_eq_some_iff.mp h
  refine ⟨a, ?_⟩
  show (ofScope name inner (s.length + 1) ++ _).head? = _
  rw [List.head?_append, head?_ofScope, ha]
  rfl

/-- **What is moved is the first occurrence**, and it is the only one of its scope
where the next one is of another depth. -/
theorem occurrences_moveOut (h : moveOut name (inner :: outer :: s) = some s')
    (hone : ∀ o ∈ (occurrences name (inner :: outer :: s)).tail.head?, o.1 ≠ s.length + 1) :
    ∃ a, occurrences name (inner :: outer :: s) =
      (s.length + 1, a) :: occurrences name (outer :: s) ∧
      occurrences name s' = (s.length, a) :: occurrences name (outer :: s) := by
  obtain ⟨a, ha, rfl⟩ := Option.map_eq_some_iff.mp h
  refine ⟨a, ?_⟩
  have hhead := head?_ofScope name inner (s.length + 1)
  rw [ha] at hhead
  obtain ⟨rest, hrest⟩ := List.head?_eq_some_iff.mp hhead
  have hinner : ofScope name inner (s.length + 1) = [(s.length + 1, a)] := by
    rw [hrest]
    cases rest with
    | nil => rfl
    | cons o os =>
      have hmem : o ∈ ofScope name inner (s.length + 1) := by
        rw [hrest]
        exact List.mem_cons_of_mem _ List.mem_cons_self
      refine absurd (depth_of_mem_ofScope hmem) (hone o ?_)
      show o ∈ ((ofScope name inner (s.length + 1) ++ _).tail).head?
      rw [hrest]
      rfl
  constructor
  · show ofScope name inner (s.length + 1) ++ _ = _
    rw [hinner]
    rfl
  · show ofScope name ⟨_, _⟩ (s.length + 1) ++
      (ofScope name ⟨(name, a) :: outer.bindings, _⟩ s.length ++ occurrences name s) = _
    rw [ofScope_erase, hinner]
    exact occurrences_bind outer

theorem occurrences_moveOut_ne (h : moveOut name (inner :: outer :: s) = some s')
    (hne : name' ≠ name) : occurrences name' s' = occurrences name' (inner :: outer :: s) := by
  obtain ⟨a, ha, rfl⟩ := Option.map_eq_some_iff.mp h
  show ofScope name' ⟨_, _⟩ (s.length + 1) ++
    (ofScope name' ⟨(name, a) :: outer.bindings, _⟩ s.length ++ occurrences name' s) = _
  rw [ofScope_erase_ne hne]
  exact congrArg _ (occurrences_bind_ne (s := outer :: s) hne)

theorem length_moveOut (h : moveOut name s = some s') : s'.length = s.length := by
  cases s with
  | nil => nomatch h
  | cons inner s =>
    cases s with
    | nil => nomatch h
    | cons outer s =>
      obtain ⟨a, -, rfl⟩ := Option.map_eq_some_iff.mp h
      rfl

end

end ScopeStack
