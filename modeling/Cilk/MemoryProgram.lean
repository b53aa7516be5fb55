import Mathlib.Data.Nat.Notation
import Mathlib.Data.Prod.Basic
import Mathlib.Order.Nat

/-!
# Programs that work on a memory

A program reads a memory, which leaves the memory as it is, or acts on it, which
may change it, and goes on as the answers tell. Here and there it notes what it
is about to do; the memory does not see the notes.

A program is repeated in another one where that runs twice what the first has
noted. That does no harm to a run in which what is noted leaves the memory as it
is. It does harm, on some memory, to every other run: among the memories is one
that counts the actions. Counting alone does not show it, as the repetition may
have the rest of the program act less often. So the memory is made to stand still
after the first actions, one later each time.
-/

/-- **A program**: it asks questions `Q`, performs actions `A`, gets answers `R`
and makes notes `N`. -/
inductive MemoryProgram (Q A R N : Type) (α : Type) : Type
  | ret (a : α)
  | read (q : Q) (next : R → MemoryProgram Q A R N α)
  | act (a : A) (next : R → MemoryProgram Q A R N α)
  | note (n : N) (rest : MemoryProgram Q A R N α)

variable {Q A R N α β γ : Type}

namespace MemoryProgram

/-- **A memory** answers questions, and answers actions with a change. -/
structure Memory (Q A R : Type) where
  State : Type
  read : Q → State → R
  act : A → State → R × State

/-! ## One program after the other -/

/-- One program after the other, which is told the result of the first. -/
def bind (p : MemoryProgram Q A R N α) (f : α → MemoryProgram Q A R N β) :
    MemoryProgram Q A R N β :=
  match p with
  | ret a => f a
  | read q next => read q fun r => (next r).bind f
  | act a next => act a fun r => (next r).bind f
  | note n rest => note n (rest.bind f)

instance : Monad (MemoryProgram Q A R N) where
  pure := ret
  bind := bind

@[simp] theorem pure_eq (a : α) : (pure a : MemoryProgram Q A R N α) = ret a := rfl

@[simp] theorem ret_bind (a : α) (f : α → MemoryProgram Q A R N β) : ret a >>= f = f a := rfl

@[simp] theorem read_bind (q : Q) (next : R → MemoryProgram Q A R N α)
    (f : α → MemoryProgram Q A R N β) :
    read q next >>= f = read q fun r => next r >>= f := rfl

@[simp] theorem act_bind (a : A) (next : R → MemoryProgram Q A R N α)
    (f : α → MemoryProgram Q A R N β) :
    act a next >>= f = act a fun r => next r >>= f := rfl

@[simp] theorem note_bind (n : N) (rest : MemoryProgram Q A R N α)
    (f : α → MemoryProgram Q A R N β) : note n rest >>= f = note n (rest >>= f) := rfl

@[simp] theorem bind_assoc (p : MemoryProgram Q A R N α) (f : α → MemoryProgram Q A R N β)
    (g : β → MemoryProgram Q A R N γ) : p >>= f >>= g = p >>= fun a => f a >>= g := by
  induction p with
  | ret a => rfl
  | read q next ih => exact congrArg (read q) (funext ih)
  | act a next ih => exact congrArg (act a) (funext ih)
  | note n rest ih => exact congrArg (note n) ih

/-- Where a program comes to an end, with these results. -/
inductive Results : MemoryProgram Q A R N α → α → Prop
  | ret (a : α) : Results (ret a) a
  | read {q : Q} {next : R → MemoryProgram Q A R N α} {a : α} (r : R) :
    Results (next r) a → Results (read q next) a
  | act {b : A} {next : R → MemoryProgram Q A R N α} {a : α} (r : R) :
    Results (next r) a → Results (act b next) a
  | note {n : N} {rest : MemoryProgram Q A R N α} {a : α} :
    Results rest a → Results (note n rest) a

/-- What comes behind a program matters for its results only. -/
theorem bind_congr {p : MemoryProgram Q A R N α} {f g : α → MemoryProgram Q A R N β}
    (h : ∀ a, p.Results a → f a = g a) : p >>= f = p >>= g := by
  induction p with
  | ret a => exact h a (.ret a)
  | read q next ih => exact congrArg (read q) (funext fun r => ih r fun a ha => h a (.read r ha))
  | act b next ih => exact congrArg (act b) (funext fun r => ih r fun a ha => h a (.act r ha))
  | note n rest ih => exact congrArg (note n) (ih fun a ha => h a (.note ha))

theorem results_bind {p : MemoryProgram Q A R N α} {f : α → MemoryProgram Q A R N β} {b : β}
    (h : (p >>= f).Results b) : ∃ a, p.Results a ∧ (f a).Results b := by
  induction p with
  | ret a => exact ⟨a, .ret a, h⟩
  | read q next ih =>
    obtain ⟨r, h⟩ : ∃ r, (next r >>= f).Results b := by
      cases h with
      | read r h => exact ⟨r, h⟩
    obtain ⟨a, ha, hb⟩ := ih r h
    exact ⟨a, .read r ha, hb⟩
  | act c next ih =>
    obtain ⟨r, h⟩ : ∃ r, (next r >>= f).Results b := by
      cases h with
      | act r h => exact ⟨r, h⟩
    obtain ⟨a, ha, hb⟩ := ih r h
    exact ⟨a, .act r ha, hb⟩
  | note n rest ih =>
    have h : (rest >>= f).Results b := by
      cases h with
      | note h => exact h
    obtain ⟨a, ha, hb⟩ := ih h
    exact ⟨a, .note ha, hb⟩

/-! ## Runs -/

namespace Memory

/-- The result of a run, and the state after it. -/
def run (M : Memory Q A R) : MemoryProgram Q A R N α → M.State → α × M.State
  | .ret a, s => (a, s)
  | .read q next, s => run M (next (M.read q s)) s
  | .act a next, s => run M (next (M.act a s).1) (M.act a s).2
  | .note _ rest, s => run M rest s

/-- The notes of a run, with the states in which they are made. -/
def notes (M : Memory Q A R) : MemoryProgram Q A R N α → M.State → List (N × M.State)
  | .ret _, _ => []
  | .read q next, s => notes M (next (M.read q s)) s
  | .act a next, s => notes M (next (M.act a s).1) (M.act a s).2
  | .note n rest, s => (n, s) :: notes M rest s

variable (M : Memory Q A R)

variable (f : α → MemoryProgram Q A R N β) (s : M.State)

theorem run_bind (p : MemoryProgram Q A R N α) :
    M.run (p >>= f) s = M.run (f (M.run p s).1) (M.run p s).2 := by
  induction p generalizing s with
  | ret a => rfl
  | read q next ih => exact ih _ _
  | act a next ih => exact ih _ _
  | note n rest ih => exact ih _

theorem notes_bind (p : MemoryProgram Q A R N α) :
    M.notes (p >>= f) s = M.notes p s ++ M.notes (f (M.run p s).1) (M.run p s).2 := by
  induction p generalizing s with
  | ret a => rfl
  | read q next ih => exact ih _ _
  | act a next ih => exact ih _ _
  | note n rest ih => exact congrArg ((n, s) :: ·) (ih _)

/-- The program of a note leaves the memory as it is. -/
def Quiet (operand : N → MemoryProgram Q A R N β) (x : N × M.State) : Prop :=
  (M.run (operand x.1) x.2).2 = x.2

end Memory

/-! ## States that cannot be told apart -/

/-- **An order of states** that questions and actions do not tell apart, where no
action makes two states the same. -/
structure Order (M : Memory Q A R) where
  le : M.State → M.State → Prop
  refl (s : M.State) : le s s
  trans {s t u : M.State} : le s t → le t u → le s u
  antisymm {s t : M.State} : le s t → le t s → s = t
  read_eq (q : Q) {s t : M.State} : le s t → M.read q s = M.read q t
  act_eq (a : A) {s t : M.State} : le s t → (M.act a s).1 = (M.act a t).1
  act_le (a : A) {s t : M.State} : le s t → le (M.act a s).2 (M.act a t).2
  act_inj (a : A) {s t : M.State} : le s t → (M.act a s).2 = (M.act a t).2 → s = t

namespace Order

variable {M : Memory Q A R} (O : Order M) {s t : M.State}

/-- Every state is told apart from the others. -/
def discrete (M : Memory Q A R) : Order M where
  le s t := s = t
  refl _ := rfl
  trans := Eq.trans
  antisymm h _ := h
  read_eq _ _ _ h := by rw [h]
  act_eq _ _ _ h := by rw [h]
  act_le _ _ _ h := by rw [h]
  act_inj _ _ _ h _ := h

theorem run_eq (p : MemoryProgram Q A R N α) (h : O.le s t) :
    (M.run p s).1 = (M.run p t).1 ∧ O.le (M.run p s).2 (M.run p t).2 := by
  induction p generalizing s t with
  | ret a => exact ⟨rfl, h⟩
  | read q next ih =>
    unfold Memory.run
    rw [O.read_eq q h]
    exact ih _ h
  | act a next ih =>
    unfold Memory.run
    rw [O.act_eq a h]
    exact ih _ (O.act_le a h)
  | note n rest ih => exact ih h

theorem run_inj (p : MemoryProgram Q A R N α) (h : O.le s t)
    (heq : (M.run p s).2 = (M.run p t).2) : s = t := by
  induction p generalizing s t with
  | ret a => exact heq
  | read q next ih =>
    unfold Memory.run at heq
    rw [O.read_eq q h] at heq
    exact ih _ h heq
  | act a next ih =>
    unfold Memory.run at heq
    rw [O.act_eq a h] at heq
    exact O.act_inj a h (ih _ (O.act_le a h) heq)
  | note n rest ih => exact ih h heq

/-- The program of a note does not go back in the order. -/
def Tolerates (operand : N → MemoryProgram Q A R N β) (x : N × M.State) : Prop :=
  O.le x.2 (M.run (operand x.1) x.2).2

end Order

/-! ## Repetitions -/

/-- **`q` does what `p` does**, up to repetitions of what `p` notes: if the order
allows for these, a run of `q` leads to the same result and to a state that is not
less, and to the same state only if what is noted leaves the memory as it is. -/
def Repeats (operand : N → MemoryProgram Q A R N γ) (p q : MemoryProgram Q A R N α) : Prop :=
  ∀ (M : Memory Q A R) (O : Order M) (s : M.State),
    (∀ x ∈ M.notes p s, O.Tolerates operand x) →
      (M.run q s).1 = (M.run p s).1 ∧ O.le (M.run p s).2 (M.run q s).2 ∧
        ((M.run p s).2 = (M.run q s).2 → ∀ x ∈ M.notes p s, M.Quiet operand x)

namespace Repeats

variable {operand : N → MemoryProgram Q A R N γ}

theorem ret (a : α) : Repeats operand (ret a) (ret a) :=
  fun _ O s _ => ⟨rfl, O.refl s, fun _ _ hx => absurd hx List.not_mem_nil⟩

theorem read (q : Q) {f g : R → MemoryProgram Q A R N α} (h : ∀ r, Repeats operand (f r) (g r)) :
    Repeats operand (read q f) (read q g) := fun M O s => h (M.read q s) M O s

theorem act (a : A) {f g : R → MemoryProgram Q A R N α} (h : ∀ r, Repeats operand (f r) (g r)) :
    Repeats operand (act a f) (act a g) := fun M O s => h (M.act a s).1 M O (M.act a s).2

theorem bind {p q : MemoryProgram Q A R N α} {f g : α → MemoryProgram Q A R N β}
    (h : Repeats operand p q) (hf : ∀ a, Repeats operand (f a) (g a)) :
    Repeats operand (p >>= f) (q >>= g) := by
  intro M O s htol
  rw [M.notes_bind] at htol
  obtain ⟨hfirst, hthen⟩ := List.forall_mem_append.mp htol
  obtain ⟨heq, hle, hquiet⟩ := h M O s hfirst
  obtain ⟨heq', hle', hquiet'⟩ := hf _ M O _ hthen
  rw [M.run_bind, M.run_bind, M.notes_bind, heq]
  -- the second program of `q` starts in a state that may be greater
  obtain ⟨hsame, hmono⟩ := O.run_eq (g (M.run p s).1) hle
  refine ⟨hsame ▸ heq', O.trans hle' hmono, fun hend => ?_⟩
  have hmid := O.antisymm hle' (hend ▸ hmono)
  have hstart := O.run_inj (g (M.run p s).1) hle (hmid ▸ hend)
  exact List.forall_mem_append.mpr ⟨hquiet hstart, hquiet' hmid⟩

/-- **A program that is noted is run twice.** -/
theorem twice {n : N} {q : MemoryProgram Q A R N γ} {f : γ → MemoryProgram Q A R N α}
    {g : γ → γ → MemoryProgram Q A R N α} (h : Repeats operand (operand n) q)
    (hf : ∀ a, Repeats operand (f a) (g a a)) :
    Repeats operand (note n (operand n >>= f)) (q >>= fun a => q >>= fun b => g a b) := by
  intro M O s htol
  obtain ⟨htwice, htol⟩ := List.forall_mem_cons.mp htol
  rw [M.notes_bind] at htol
  obtain ⟨hfirst, hthen⟩ := List.forall_mem_append.mp htol
  obtain ⟨heq, hle, hquiet⟩ := h M O s hfirst
  obtain ⟨heq', hle', hquiet'⟩ := hf _ M O _ hthen
  show _ = (M.run (operand n >>= f) s).1 ∧ O.le (M.run (operand n >>= f) s).2 _ ∧
    ((M.run (operand n >>= f) s).2 = _ →
      ∀ x ∈ (n, s) :: M.notes (operand n >>= f) s, M.Quiet operand x)
  rw [M.run_bind, M.run_bind, M.run_bind, M.notes_bind, heq]
  -- the second run of `q` starts in a state that is not less than the first one's
  have hagain : O.le s (M.run q s).2 := O.trans htwice hle
  obtain ⟨hsame, hmono⟩ := O.run_eq q hagain
  rw [← hsame, heq]
  have hle₂ := O.trans hle hmono
  obtain ⟨hsame₂, hmono₂⟩ := O.run_eq (g (M.run (operand n) s).1 (M.run (operand n) s).1) hle₂
  refine ⟨hsame₂.symm.trans heq', O.trans hle' hmono₂, fun hend => ?_⟩
  have hmid := O.antisymm hle' (hend ▸ hmono₂)
  have hstart := O.run_inj _ hle₂ (hmid.symm.trans hend)
  have honce : (M.run (operand n) s).2 = (M.run q s).2 := O.antisymm hle (hstart ▸ hmono)
  have hback : s = (M.run q s).2 := O.run_inj q hagain (honce.symm.trans hstart)
  exact List.forall_mem_cons.mpr
    ⟨honce.trans hback.symm, List.forall_mem_append.mpr ⟨hquiet honce, hquiet' hmid⟩⟩

end Repeats

/-! ## A memory that counts and stands still -/

namespace Memory

variable (M : Memory Q A R) {live live' : ℕ → Bool} {p : MemoryProgram Q A R N α}

/-- **The memory with a counter.** It counts the actions, and an action that is not
among the live ones has its answer and changes nothing. -/
def counting (live : ℕ → Bool) : Memory Q A R where
  State := M.State × ℕ
  read q s := M.read q s.1
  act a s := ((M.act a s.1).1, if live s.2 then (M.act a s.1).2 else s.1, s.2 + 1)

/-- The counter is not set back. -/
theorem count_le_run (p : MemoryProgram Q A R N α) (s : (M.counting live).State) :
    s.2 ≤ ((M.counting live).run p s).2.2 := by
  induction p generalizing s with
  | ret a => exact le_rfl
  | read q next ih => exact ih _ s
  | act a next ih => exact (Nat.le_succ _).trans (ih _ ((M.counting live).act a s).2)
  | note n rest ih => exact ih s

theorem count_le_notes (p : MemoryProgram Q A R N α) (s : (M.counting live).State) :
    ∀ x ∈ (M.counting live).notes p s, s.2 ≤ x.2.2 := by
  induction p generalizing s with
  | ret a => exact fun x hx => absurd hx List.not_mem_nil
  | read q next ih => exact ih _ s
  | act a next ih =>
    exact fun x hx => (Nat.le_succ _).trans (ih _ ((M.counting live).act a s).2 x hx)
  | note n rest ih => exact List.forall_mem_cons.mpr ⟨le_rfl, ih s⟩

theorem act_eq_of_agree {b : ℕ} (h : ∀ i < b, live i = live' i) (a : A)
    {s : (M.counting live).State} (hs : s.2 < b) :
    (M.counting live).act a s = (M.counting live').act a s := by
  show ((M.act a s.1).1, if live s.2 then (M.act a s.1).2 else s.1, s.2 + 1)
    = ((M.act a s.1).1, if live' s.2 then (M.act a s.1).2 else s.1, s.2 + 1)
  rw [h _ hs]

/-- Two such memories in which the same actions are live, up to one that a run does
not come to, have the same run. -/
theorem run_eq_of_agree {b : ℕ} (h : ∀ i < b, live i = live' i) (p : MemoryProgram Q A R N α)
    (s : (M.counting live).State) (hend : ((M.counting live).run p s).2.2 ≤ b) :
    (M.counting live).run p s = (M.counting live').run p s := by
  induction p generalizing s with
  | ret a => rfl
  | read q next ih => exact ih _ s hend
  | act a next ih =>
    have hlt : s.2 < b := (M.count_le_run (next ((M.counting live).act a s).1)
      ((M.counting live).act a s).2).trans hend
    exact (ih _ _ hend).trans
      (congrArg (fun x => (M.counting live').run (next x.1) x.2) (M.act_eq_of_agree h a hlt))
  | note n rest ih => exact ih s hend

/-- They have the same notes, too, up to there. -/
theorem mem_notes_of_agree {b : ℕ} (h : ∀ i < b, live i = live' i)
    (p : MemoryProgram Q A R N α) (s : (M.counting live).State) {x : N × (M.State × ℕ)}
    (hx : x ∈ (M.counting live).notes p s) (hend : x.2.2 ≤ b) :
    x ∈ (M.counting live').notes p s := by
  induction p generalizing s with
  | ret a => exact hx
  | read q next ih => exact ih _ s hx
  | act a next ih =>
    have hlt : s.2 < b := (M.count_le_notes _ ((M.counting live).act a s).2 x hx).trans hend
    have hnext := ih _ _ hx
    rw [M.act_eq_of_agree h a hlt] at hnext
    exact hnext
  | note n rest ih =>
    rcases List.mem_cons.mp hx with rfl | hx
    · exact List.mem_cons_self
    · exact List.mem_cons_of_mem _ (ih s hx)

/-- Where every action is live, the counter is all that is new. -/
theorem run_counting (p : MemoryProgram Q A R N α) (s : M.State × ℕ) :
    ((M.counting fun _ => true).run p s).1 = (M.run p s.1).1 ∧
      ((M.counting fun _ => true).run p s).2.1 = (M.run p s.1).2 := by
  induction p generalizing s with
  | ret a => exact ⟨rfl, rfl⟩
  | read q next ih => exact ih _ s
  | act a next ih => exact ih _ ((M.act a s.1).2, s.2 + 1)
  | note n rest ih => exact ih s

theorem exists_mem_notes_counting (p : MemoryProgram Q A R N α) (s : M.State × ℕ) {n : N}
    {t : M.State} (h : (n, t) ∈ M.notes p s.1) :
    ∃ i, (n, (t, i)) ∈ (M.counting fun _ => true).notes p s := by
  induction p generalizing s with
  | ret a => exact absurd h List.not_mem_nil
  | read q next ih => exact ih _ s h
  | act a next ih => exact ih _ ((M.act a s.1).2, s.2 + 1) h
  | note m rest ih =>
    rcases List.mem_cons.mp h with heq | h
    · cases heq
      exact ⟨s.2, List.mem_cons_self⟩
    · obtain ⟨i, hi⟩ := ih s h
      exact ⟨i, List.mem_cons_of_mem _ hi⟩

/-- **The memory stands still from the action `k` on.** Two states of it are not told
apart if they differ in the number of actions only, and these go beyond. -/
def still (k : ℕ) : Order (M.counting fun i => decide (i < k)) where
  le s t := s.1 = t.1 ∧ s.2 ≤ t.2 ∧ (s.2 = t.2 ∨ k ≤ s.2)
  refl s := ⟨rfl, le_rfl, .inl rfl⟩
  trans := by
    rintro s t u ⟨h, hle, hor⟩ ⟨h', hle', hor'⟩
    exact ⟨h.trans h', hle.trans hle', by omega⟩
  antisymm := by
    rintro s t ⟨h, hle, -⟩ ⟨-, hle', -⟩
    exact Prod.ext h (le_antisymm hle hle')
  read_eq := by
    rintro q s t ⟨h, -, -⟩
    exact congrArg (M.read q) h
  act_eq := by
    rintro a s t ⟨h, -, -⟩
    exact congrArg (fun u => (M.act a u).1) h
  act_le := by
    rintro a s t ⟨h, hle, hor⟩
    refine ⟨?_, Nat.succ_le_succ hle, hor.imp (congrArg Nat.succ) Nat.le_succ_of_le⟩
    show (if decide (s.2 < k) then (M.act a s.1).2 else s.1)
      = if decide (t.2 < k) then (M.act a t.1).2 else t.1
    rw [h, show decide (s.2 < k) = decide (t.2 < k) from decide_eq_decide.mpr (by omega)]
  act_inj := by
    rintro a s t ⟨h, -, -⟩ heq
    exact Prod.ext h (Nat.succ.inj (congrArg Prod.snd heq))

/-- Behind the live actions nothing changes but the counter. -/
theorem run_still {k : ℕ} (p : MemoryProgram Q A R N α)
    (s : (M.counting fun i => decide (i < k)).State) (hs : k ≤ s.2) :
    (M.still k).le s ((M.counting fun i => decide (i < k)).run p s).2 := by
  induction p generalizing s with
  | ret a => exact (M.still k).refl s
  | read q next ih => exact ih _ s hs
  | act a next ih =>
    refine (M.still k).trans ⟨?_, Nat.le_succ _, .inr hs⟩ (ih _ _ (hs.trans (Nat.le_succ _)))
    show s.1 = if decide (s.2 < k) then (M.act a s.1).2 else s.1
    rw [decide_eq_false (Nat.not_lt.mpr hs), if_neg Bool.false_ne_true]
  | note n rest ih => exact ih s hs

end Memory

/-! ## When a repetition does no harm -/

namespace Repeats

variable {operand : N → MemoryProgram Q A R N γ} {p q : MemoryProgram Q A R N α}

/-- **A run in which what is noted leaves the memory as it is** is the same with the
repetitions. -/
theorem run_eq (h : Repeats operand p q) (M : Memory Q A R) (s : M.State)
    (hquiet : ∀ x ∈ M.notes p s, M.Quiet operand x) : M.run q s = M.run p s := by
  obtain ⟨heq, hle, -⟩ := h M (.discrete M) s fun x hx => (hquiet x hx).symm
  exact Prod.ext heq hle.symm

/-- With a memory that stands still later and later, what is noted leaves the memory
as it is. -/
theorem quiet_still (h : Repeats operand p q) (hsame : ∀ (M : Memory Q A R) s, M.run q s = M.run p s)
    (M : Memory Q A R) (s : M.State) (k : ℕ) :
    ∀ x ∈ (M.counting fun i => decide (i < k)).notes p (s, 0),
      (M.counting fun i => decide (i < k)).Quiet operand x := by
  induction k with
  | zero =>
    refine (h _ (M.still 0) (s, 0) fun x _ => M.run_still _ x.2 (Nat.zero_le _)).2.2 ?_
    exact congrArg Prod.snd (hsame _ _).symm
  | succ k ih =>
    have hagree : ∀ i < k, decide (i < k + 1) = decide (i < k) :=
      fun i hi => decide_eq_decide.mpr (by omega)
    refine (h _ (M.still (k + 1)) (s, 0) fun x hx => ?_).2.2
      (congrArg Prod.snd (hsame _ _).symm)
    by_cases hk : k + 1 ≤ x.2.2
    · exact M.run_still _ x.2 hk
    · -- up to here the memory is the one that stands still one action earlier
      have hle : x.2.2 ≤ k := Nat.le_of_lt_succ (Nat.not_le.mp hk)
      have hquiet : ((M.counting fun i => decide (i < k)).run (operand x.1) x.2).2 = x.2 :=
        ih x (M.mem_notes_of_agree hagree p (s, 0) hx hle)
      have hend : ((M.counting fun i => decide (i < k)).run (operand x.1) x.2).2.2 ≤ k := by
        rw [hquiet]
        exact hle
      have hrun := M.run_eq_of_agree (fun i hi => (hagree i hi).symm) (operand x.1) x.2 hend
      show (M.still (k + 1)).le x.2 ((M.counting fun i => decide (i < k + 1)).run _ x.2).2
      rw [← hrun, hquiet]
      exact (M.still (k + 1)).refl x.2

/-- **Repetitions do no harm on any memory** exactly if in no run what is noted changes
the memory. -/
theorem run_eq_iff (h : Repeats operand p q) : (∀ (M : Memory Q A R) s, M.run q s = M.run p s) ↔
    ∀ (M : Memory Q A R) s, ∀ x ∈ M.notes p s, M.Quiet operand x := by
  refine ⟨fun hsame M s => ?_, fun hquiet M s => h.run_eq M s (hquiet M s)⟩
  rintro ⟨n, t⟩ hx
  obtain ⟨i, hi⟩ := M.exists_mem_notes_counting p (s, 0) hx
  -- late enough the memory does not stand still before what is noted has been run
  let k := ((M.counting fun _ => true).run (operand n) (t, i)).2.2
  have hik : i ≤ k := M.count_le_run (operand n) (t, i)
  have hagree : ∀ j < k, true = decide (j < k) := fun j hj => (decide_eq_true hj).symm
  have hquiet := h.quiet_still hsame M s k (n, (t, i)) (M.mem_notes_of_agree hagree p (s, 0) hi hik)
  have hrun := M.run_eq_of_agree hagree (operand n) (t, i) le_rfl
  show (M.run (operand n) t).2 = t
  calc (M.run (operand n) t).2
      = ((M.counting fun _ => true).run (operand n) (t, i)).2.1 :=
        (M.run_counting (operand n) (t, i)).2.symm
    _ = t := by
      rw [hrun]
      exact congrArg Prod.fst hquiet

end Repeats

end MemoryProgram
