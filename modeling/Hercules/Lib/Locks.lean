/-
# Locks that are taken in an order

Threads share locks. A thread takes a lock and gives it back where its code says so, and has
to wait for a lock that is held, also if it holds the lock itself. If locks have ranks, and
each is only taken while the locks held have smaller ranks, no thread waits in vain: from
every state that can be reached all threads can come to their ends. A thread that takes a
lock which it holds never does.
-/

import Mathlib.Algebra.Order.BigOperators.Group.Finset
import Mathlib.Data.Fintype.Basic
import Hercules.Lib.Run

namespace Hercules.Lib.Locks

universe u v

/-- What a thread does with the locks. -/
inductive Op (L : Type v)
  | acquire (lock : L)
  | release (lock : L)
  deriving DecidableEq

/-- Code, as far as it is about locks: a part that is run with a lock held, a branch, a loop. -/
inductive Code (L : Type v)
  | skip
  | seq (first second : Code L)
  | hold (lock : L) (body : Code L)
  | either (first second : Code L)
  | loop (body : Code L)

namespace Code

variable {L : Type v}

/-- A lock that is held for something that takes no other one. -/
@[simp]
def locked (lock : L) : Code L := .hold lock .skip

/-- One part after the other. -/
@[simp]
def block (parts : List (Code L)) : Code L := parts.foldr .seq .skip

/-- One of several branches. -/
@[simp]
def branch : List (Code L) → Code L
  | [] => .skip
  | [code] => code
  | code :: codes => .either code (branch codes)

/-- What a thread may do that runs the code. -/
inductive Runs : Code L → List (Op L) → Prop
  | skip : Runs .skip []
  | seq {first second ops ops'} :
      Runs first ops → Runs second ops' → Runs (.seq first second) (ops ++ ops')
  | hold {lock body ops} :
      Runs body ops → Runs (.hold lock body) (.acquire lock :: (ops ++ [.release lock]))
  | left {first second ops} : Runs first ops → Runs (.either first second) ops
  | right {first second ops} : Runs second ops → Runs (.either first second) ops
  | stop {body} : Runs (.loop body) []
  | again {body ops ops'} : Runs body ops → Runs (.loop body) ops' → Runs (.loop body) (ops ++ ops')

variable (rank : L → Nat)

/-- Locks are taken in the order of their ranks, and none of a rank below `n`. -/
@[simp]
def Above (n : Nat) : Code L → Prop
  | .skip => True
  | .seq first second => first.Above n ∧ second.Above n
  | .hold lock body => n ≤ rank lock ∧ body.Above (rank lock + 1)
  | .either first second => first.Above n ∧ second.Above n
  | .loop body => body.Above n

theorem above_block {n : Nat} {parts : List (Code L)} (h : ∀ code ∈ parts, code.Above rank n) :
    (block parts).Above rank n := by
  induction parts with
  | nil => trivial
  | cons code parts ih =>
      rw [List.forall_mem_cons] at h
      exact ⟨h.1, ih h.2⟩

end Code

section Ordered

variable {L : Type v} (rank : L → Nat) {n : Nat} {code : Code L} {ops rest : List (Op L)}
  {held : List L}

/-- What is done from here on, by a thread that holds the locks `held`, the last one first. -/
def Ordered : List (Op L) → List L → Prop
  | [], held => held = []
  | .acquire l :: ops, held => (∀ h ∈ held, rank h < rank l) ∧ Ordered ops (l :: held)
  | .release l :: ops, held => ∃ others, held = l :: others ∧ Ordered ops others

variable {rank}

/-- The code keeps the order, and gives back what it takes. -/
theorem Ordered.of_runs (hruns : code.Runs ops) (habove : code.Above rank n)
    (hheld : ∀ h ∈ held, rank h < n) (hrest : Ordered rank rest held) :
    Ordered rank (ops ++ rest) held := by
  induction hruns generalizing n held rest with
  | skip | stop => exact hrest
  | seq _ _ ih ih' =>
      rw [List.append_assoc]
      exact ih habove.1 hheld (ih' habove.2 hheld hrest)
  | again _ _ ih ih' =>
      rw [List.append_assoc]
      exact ih habove hheld (ih' habove hheld hrest)
  | @hold lock body ops _ ih =>
      rw [List.cons_append, List.append_assoc]
      refine ⟨fun h hh => Nat.lt_of_lt_of_le (hheld h hh) habove.1, ?_⟩
      refine ih habove.2 ?_ ⟨held, rfl, hrest⟩
      intro h hh
      rcases List.mem_cons.mp hh with rfl | hh
      · exact Nat.lt_succ_self _
      · exact Nat.lt_succ_of_lt (Nat.lt_of_lt_of_le (hheld h hh) habove.1)
  | left _ ih => exact ih habove.1 hheld hrest
  | right _ ih => exact ih habove.2 hheld hrest

/-- No lock is taken that the thread holds, and none given back that it does not. -/
def Legal [DecidableEq L] : List (Op L) → List L → Prop
  | [], _ => True
  | .acquire l :: ops, held => l ∉ held ∧ Legal ops (l :: held)
  | .release l :: ops, held => l ∈ held ∧ Legal ops (held.erase l)

/-- After the code the thread holds what it held before. -/
theorem Legal.of_append [DecidableEq L] (hruns : code.Runs ops)
    (hlegal : Legal (ops ++ rest) held) : Legal rest held := by
  induction hruns generalizing held rest with
  | skip | stop => exact hlegal
  | seq _ _ ih ih' | again _ _ ih ih' =>
      rw [List.append_assoc] at hlegal
      exact ih' (ih hlegal)
  | hold _ ih =>
      rw [List.cons_append, List.append_assoc] at hlegal
      have hrelease := (ih hlegal.2).2
      rwa [List.erase_cons_head] at hrelease
  | left _ ih | right _ ih => exact ih hlegal

end Ordered

/-! ## Threads -/

/-- The locks that each thread holds, the last one first, and what it has still to do. -/
structure State (ι : Type u) (L : Type v) where
  held : ι → List L
  todo : ι → List (Op L)

section Threads

variable {ι : Type u} {L : Type v} [Fintype ι] [DecidableEq ι] [DecidableEq L]

/-- No lock is held. -/
def start (todo : ι → List (Op L)) : State ι L :=
  ⟨fun _ => [], todo⟩

/-- The next step of a thread, if it has one and need not wait. -/
def step (state : State ι L) (i : ι) : Option (State ι L) :=
  match state.todo i with
  | [] => none
  | .acquire l :: ops =>
      if ∀ j, l ∉ state.held j then
        some ⟨Function.update state.held i (l :: state.held i), Function.update state.todo i ops⟩
      else none
  | .release l :: ops =>
      if l ∈ state.held i then
        some ⟨Function.update state.held i ((state.held i).erase l),
          Function.update state.todo i ops⟩
      else none

/-- All threads can come to their ends. -/
def CanFinish (state : State ι L) : Prop :=
  ∃ schedule final, run step schedule state = some final ∧ ∀ i, final.todo i = []

variable {rank : L → Nat} {state state' : State ι L} {i j : ι} {l : L}

theorem step_cases (hstep : step state i = some state') :
    ∃ op ops held', state.todo i = op :: ops ∧
      state' = ⟨Function.update state.held i held', Function.update state.todo i ops⟩ ∧
      ((∃ l, op = .acquire l ∧ (∀ j, l ∉ state.held j) ∧ held' = l :: state.held i) ∨
        ∃ l, op = .release l ∧ l ∈ state.held i ∧ held' = (state.held i).erase l) := by
  rw [step] at hstep
  split at hstep
  next => cases hstep
  next l ops htodo =>
    split_ifs at hstep with hfree
    exact ⟨_, ops, _, htodo, (Option.some.inj hstep).symm, Or.inl ⟨l, rfl, hfree, rfl⟩⟩
  next l ops htodo =>
    split_ifs at hstep with hmine
    exact ⟨_, ops, _, htodo, (Option.some.inj hstep).symm, Or.inr ⟨l, rfl, hmine, rfl⟩⟩

/-- The threads keep the order of the locks. -/
def Disciplined (rank : L → Nat) (state : State ι L) : Prop :=
  ∀ i, Ordered rank (state.todo i) (state.held i)

theorem Disciplined.step (h : Disciplined rank state) (hstep : step state i = some state') :
    Disciplined rank state' := by
  intro j
  have hi := h i
  obtain ⟨op, ops, held', htodo, rfl, hcases⟩ := step_cases hstep
  rw [htodo] at hi
  rcases eq_or_ne j i with rfl | hne
  · simp only [Function.update_self]
    obtain ⟨l, rfl, -, rfl⟩ | ⟨l, rfl, -, rfl⟩ := hcases
    · exact hi.2
    · obtain ⟨others, hheld, hrest⟩ := hi
      rwa [hheld, List.erase_cons_head]
  · simpa only [Function.update_of_ne hne] using h j

/-- Some thread need not wait: whoever waits does so for a lock of a thread that waits, if at all,
for a lock of a higher rank. -/
theorem Disciplined.exists_step (h : Disciplined rank state) {bound : Nat}
    (hbound : ∀ l, rank l ≤ bound) (hi : state.todo i ≠ []) :
    ∃ j state', Locks.step state j = some state' := by
  have hrelease : ∀ j l ops, state.todo j = .release l :: ops →
      ∃ j state', Locks.step state j = some state' := by
    intro j l ops htodo
    have hj := h j
    rw [htodo] at hj
    obtain ⟨others, hheld, -⟩ := hj
    have hmine : l ∈ state.held j := hheld ▸ List.mem_cons_self
    exact ⟨j, _, by rw [Locks.step, htodo]; exact if_pos hmine⟩
  have hacquire : ∀ n j l ops, bound - rank l = n → state.todo j = .acquire l :: ops →
      ∃ j state', Locks.step state j = some state' := by
    intro n
    induction n using Nat.strong_induction_on with
    | _ n ih =>
        intro j l ops hn htodo
        by_cases hfree : ∀ k, l ∉ state.held k
        · exact ⟨j, _, by rw [Locks.step, htodo]; exact if_pos hfree⟩
        · obtain ⟨k, hk⟩ := not_forall.mp hfree
          have hmem := not_not.mp hk
          have hordered := h k
          cases hnext : state.todo k with
          | nil =>
              rw [hnext] at hordered
              rw [(hordered : state.held k = [])] at hmem
              exact absurd hmem List.not_mem_nil
          | cons op ops' =>
              cases op with
              | release l' => exact hrelease k l' ops' hnext
              | acquire l' =>
                  rw [hnext] at hordered
                  have hlt := hordered.1 l hmem
                  have hle := hbound l'
                  exact ih (bound - rank l') (by omega) k l' ops' rfl hnext
  cases htodo : state.todo i with
  | nil => exact absurd htodo hi
  | cons op ops =>
      cases op with
      | acquire l => exact hacquire _ i l ops rfl htodo
      | release l => exact hrelease i l ops htodo

theorem sum_todo_step (hstep : step state i = some state') :
    ∑ j, (state'.todo j).length < ∑ j, (state.todo j).length := by
  obtain ⟨op, ops, held', htodo, rfl, -⟩ := step_cases hstep
  refine Finset.sum_lt_sum ?_ ⟨i, Finset.mem_univ i, by simp [htodo]⟩
  intro j _
  rcases eq_or_ne j i with rfl | hne
  · simp [htodo]
  · simp [hne]

theorem Disciplined.canFinish (h : Disciplined rank state) {bound : Nat}
    (hbound : ∀ l, rank l ≤ bound) : CanFinish state := by
  induction hn : ∑ j, (state.todo j).length using Nat.strong_induction_on generalizing state with
  | _ n ih =>
      by_cases hall : ∀ i, state.todo i = []
      · exact ⟨[], state, rfl, hall⟩
      · obtain ⟨i, hi⟩ := not_forall.mp hall
        obtain ⟨j, next, hstep⟩ := h.exists_step hbound hi
        obtain ⟨schedule, final, hrun, hfinal⟩ :=
          ih _ (hn ▸ sum_todo_step hstep) (h.step hstep) rfl
        exact ⟨j :: schedule, final, by rw [run_cons, hstep]; exact hrun, hfinal⟩

/-- Whatever the threads have done so far, all of them can come to their ends. -/
theorem canFinish_of_run {todo : ι → List (Op L)} (hordered : ∀ i, Ordered rank (todo i) [])
    {bound : Nat} (hbound : ∀ l, rank l ≤ bound) {schedule : List ι}
    (hrun : run step schedule (start todo) = some state) : CanFinish state := by
  have hstate : Disciplined rank state :=
    (Along.of_forall (R := fun _ => True) fun _ _ => trivial).invariant
      (fun _ _ _ hinv _ hstep => hinv.step hstep) (s := start todo) hordered hrun
  exact hstate.canFinish hbound

/-- A thread that comes to its end has taken no lock twice. -/
theorem legal_of_run {schedule : List ι} (hrun : run step schedule state = some state')
    (hend : state'.todo i = []) : Legal (state.todo i) (state.held i) := by
  induction schedule generalizing state with
  | nil =>
      obtain rfl := Option.some.inj hrun
      rw [hend]
      trivial
  | cons j schedule ih =>
      obtain ⟨next, hstep, hrest⟩ := Option.bind_eq_some_iff.mp hrun
      have hnext := ih hrest
      obtain ⟨op, ops, held', htodo, rfl, hcases⟩ := step_cases hstep
      rcases eq_or_ne i j with rfl | hne
      · simp only [Function.update_self] at hnext
        rw [htodo]
        obtain ⟨l, rfl, hfree, rfl⟩ | ⟨l, rfl, hmine, rfl⟩ := hcases
        · exact ⟨hfree i, hnext⟩
        · exact ⟨hmine, hnext⟩
      · simpa only [Function.update_of_ne hne] using hnext

end Threads

end Hercules.Lib.Locks
