/-
# Threads over a shared state

Each thread has a phase of its own. A step of one thread reads and changes the shared
state and its own phase, and no other phase. An interleaving is a list of threads, in
the order in which they take their steps; nothing is assumed about that order.
-/

import Mathlib.Data.List.Count
import Mathlib.Logic.Function.Basic
import Hercules.Lib.Run

namespace Hercules.Lib.Threads

universe u v w

variable {ι : Type u} {S : Type v} {P : Type w}

/-- The shared state and the phases. -/
structure State (ι : Type u) (S : Type v) (P : Type w) where
  shared : S
  phase : ι → P

variable [DecidableEq ι] (step : ι → S → P → S × P)

/-- One step of one thread. -/
def next (state : State ι S P) (i : ι) : State ι S P :=
  let moved := step i state.shared (state.phase i)
  ⟨moved.1, Function.update state.phase i moved.2⟩

/-- The steps of a schedule. -/
def interleave (schedule : List ι) (state : State ι S P) : State ι S P :=
  schedule.foldl (next step) state

variable {step} {schedule : List ι} {state : State ι S P} {i j : ι}

@[simp]
theorem interleave_nil (state : State ι S P) : interleave step [] state = state := rfl

theorem interleave_cons (i : ι) (schedule : List ι) (state : State ι S P) :
    interleave step (i :: schedule) state = interleave step schedule (next step state i) := rfl

theorem interleave_append (before after : List ι) (state : State ι S P) :
    interleave step (before ++ after) state =
      interleave step after (interleave step before state) :=
  List.foldl_append

@[simp]
theorem shared_next (state : State ι S P) (i : ι) :
    (next step state i).shared = (step i state.shared (state.phase i)).1 := rfl

@[simp]
theorem phase_next_self (state : State ι S P) (i : ι) :
    (next step state i).phase i = (step i state.shared (state.phase i)).2 :=
  Function.update_self i _ _

theorem phase_next_of_ne (h : j ≠ i) : (next step state i).phase j = state.phase j :=
  Function.update_of_ne h _ _

/-- What every step keeps holds after every run. -/
theorem interleave_invariant {Inv : State ι S P → Prop}
    (hnext : ∀ state i, Inv state → Inv (next step state i)) (schedule : List ι)
    (hinv : Inv state) : Inv (interleave step schedule state) := by
  induction schedule generalizing state with
  | nil => exact hinv
  | cons i schedule ih => exact ih (hnext state i hinv)

/-- A schedule as a run of the steps of single threads. -/
theorem run_next (schedule : List ι) (state : State ι S P) :
    run (fun state i => some (next step state i)) schedule state =
      some (interleave step schedule state) := by
  induction schedule generalizing state with
  | nil => rfl
  | cons i schedule ih => exact ih (next step state i)

/-- The steps of others leave a phase alone. -/
theorem phase_interleave_of_notMem (h : i ∉ schedule) :
    (interleave step schedule state).phase i = state.phase i := by
  induction schedule generalizing state with
  | nil => rfl
  | cons j schedule ih =>
      rw [List.mem_cons, not_or] at h
      rw [interleave_cons, ih h.2, phase_next_of_ne h.1]

/-- Where each step of a thread brings it closer to its end, as many steps as it has left bring it
there, whatever the others do. -/
theorem rank_interleave_le {rank : P → Nat} (hrank : ∀ i s p, rank (step i s p).2 ≤ rank p - 1)
    (schedule : List ι) (state : State ι S P) (i : ι) :
    rank ((interleave step schedule state).phase i) ≤ rank (state.phase i) - schedule.count i := by
  induction schedule generalizing state with
  | nil => exact Nat.le_refl _
  | cons j schedule ih =>
      rw [interleave_cons]
      apply Nat.le_trans (ih (next step state j))
      by_cases hij : j = i
      · subst hij
        have hstep := hrank j state.shared (state.phase j)
        rw [phase_next_self, List.count_cons_self]
        omega
      · apply Nat.le_of_eq
        rw [phase_next_of_ne (Ne.symm hij), List.count_cons_of_ne hij]

end Hercules.Lib.Threads
