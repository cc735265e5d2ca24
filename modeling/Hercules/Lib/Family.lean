/-
# Families of components

A group of components is a function from indices to states. An operation that is
sent to some of them, one after the other, changes these and leaves the others
alone; it stops at the first member that fails.
-/

import Mathlib.Algebra.BigOperators.Group.Finset.Basic
import Mathlib.Data.List.Nodup
import Mathlib.Logic.Function.Basic

namespace Hercules.Lib.Family

universe u v

variable {ι : Type u} {α : Type v} [DecidableEq ι]

/-- Apply an operation that may fail to the listed members in order. -/
def visit (f : ι → α → Option α) : List ι → (ι → α) → Option (ι → α)
  | [], family => some family
  | i :: targets, family =>
      (f i (family i)).bind fun a => visit f targets (Function.update family i a)

variable {targets : List ι} {family family' : ι → α} {j : ι}

theorem visit_of_notMem {f : ι → α → Option α} (hvisit : visit f targets family = some family')
    (h : j ∉ targets) : family' j = family j := by
  induction targets generalizing family with
  | nil =>
      cases hvisit
      rfl
  | cons i targets ih =>
      simp only [List.mem_cons, not_or] at h
      obtain ⟨a, -, hrest⟩ := Option.bind_eq_some_iff.mp hvisit
      rw [ih hrest h.2, Function.update_of_ne h.1]

/-- After a success each listed member has been changed once. -/
theorem visit_of_mem {f : ι → α → Option α} (hnodup : targets.Nodup)
    (hvisit : visit f targets family = some family') (h : j ∈ targets) :
    f j (family j) = some (family' j) := by
  induction targets generalizing family with
  | nil => cases h
  | cons i targets ih =>
      obtain ⟨hfresh, hnodup⟩ := List.nodup_cons.mp hnodup
      obtain ⟨a, ha, hrest⟩ := Option.bind_eq_some_iff.mp hvisit
      rcases List.mem_cons.mp h with rfl | htail
      · rw [visit_of_notMem hrest hfresh, Function.update_self, ha]
      · have hne : j ≠ i := fun heq => hfresh (heq ▸ htail)
        rw [← ih hnodup hrest htail, Function.update_of_ne hne]

/-- A visit succeeds when the operation does on every listed member. -/
theorem isSome_visit (f : ι → α → Option α) (hnodup : targets.Nodup) (family : ι → α) :
    (visit f targets family).isSome ↔ ∀ i ∈ targets, (f i (family i)).isSome := by
  induction targets generalizing family with
  | nil => simp [visit]
  | cons i targets ih =>
      obtain ⟨hfresh, hnodup⟩ := List.nodup_cons.mp hnodup
      rw [visit, List.forall_mem_cons]
      cases hi : f i (family i) with
      | none => simp
      | some a =>
          rw [Option.bind_some, ih hnodup]
          refine (forall₂_congr fun j hj => ?_).trans (and_iff_right rfl).symm
          have hne : j ≠ i := fun heq => hfresh (heq ▸ hj)
          rw [Function.update_of_ne hne]

/-- The members after a visit on which the operation succeeds everywhere. -/
theorem visit_eq {f : ι → α → Option α} {g : ι → α} (hnodup : targets.Nodup)
    (hf : ∀ i ∈ targets, f i (family i) = some (g i)) :
    visit f targets family = some fun j => if j ∈ targets then g j else family j := by
  obtain ⟨family', hvisit⟩ := Option.isSome_iff_exists.mp
    ((isSome_visit f hnodup family).mpr fun i hi => by simp [hf i hi])
  rw [hvisit, Option.some.injEq]
  funext j
  split
  next hj => exact Option.some.inj ((visit_of_mem hnodup hvisit hj).symm.trans (hf j hj))
  next hj => exact visit_of_notMem hvisit hj

/-- A sum over all members when one of them changes. -/
theorem sum_update {M : Type*} [Fintype ι] [AddCommMonoid M] (value : α → M) (family : ι → α)
    (i : ι) (a : α) :
    (∑ j, value (Function.update family i a j)) + value (family i) =
      (∑ j, value (family j)) + value a := by
  have hothers : ∑ j ∈ Finset.univ.erase i, value (Function.update family i a j) =
      ∑ j ∈ Finset.univ.erase i, value (family j) :=
    Finset.sum_congr rfl fun j hj => by rw [Function.update_of_ne (Finset.ne_of_mem_erase hj)]
  rw [← Finset.add_sum_erase Finset.univ _ (Finset.mem_univ i),
    ← Finset.add_sum_erase Finset.univ (fun j => value (family j)) (Finset.mem_univ i), hothers,
    Function.update_self, add_comm (value a), add_right_comm, add_comm (value (family i))]

end Hercules.Lib.Family
