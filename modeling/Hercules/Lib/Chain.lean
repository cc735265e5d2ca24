/-
# Linked lists in a heap

A heap gives a cell to each address that is allocated. A chain is a list of cells in which
each one has the address of the next, and the last one has none. The lemmas say what the
allocation of a cell, a new link at the end and the release of the first cell do to a chain.
-/

import Mathlib.Data.List.Nodup
import Mathlib.Logic.Function.Basic

namespace Hercules.Lib

universe u

/-- An address; the null pointer is `none` where one may stand. -/
abbrev Address := Nat

/-- A cell of a linked list. -/
structure Cell (α : Type u) where
  next : Option Address
  value : α
  deriving DecidableEq

/-- The cells that are allocated. -/
abbrev Heap (α : Type u) := Address → Option (Cell α)

variable {α : Type u} {heap heap' : Heap α} {first : Option Address} {a : Address} {x : α}
  {cells : List (Address × α)}

/-- The cells at these addresses, with these values, are linked one after the other. -/
def Chain (heap : Heap α) : Option Address → List (Address × α) → Prop
  | first, [] => first = none
  | first, (a, x) :: cells =>
      first = some a ∧ ∃ next, heap a = some ⟨next, x⟩ ∧ Chain heap next cells

namespace Chain

theorem first_eq (hchain : Chain heap first cells) : first = cells.head?.map Prod.fst := by
  cases cells with
  | nil => exact hchain
  | cons cell cells => exact hchain.1

/-- The cells of a chain are allocated, with their values. -/
theorem cell_of_mem (hchain : Chain heap first cells) (hmem : (a, x) ∈ cells) :
    ∃ next, heap a = some ⟨next, x⟩ := by
  induction cells generalizing first with
  | nil => exact absurd hmem List.not_mem_nil
  | cons cell cells ih =>
      obtain ⟨-, next, hcell, hrest⟩ := hchain
      rcases List.mem_cons.mp hmem with rfl | htail
      · exact ⟨next, hcell⟩
      · exact ih hrest htail

theorem isSome_of_mem (hchain : Chain heap first cells) (hmem : a ∈ cells.map Prod.fst) :
    (heap a).isSome := by
  obtain ⟨⟨_, x⟩, hcell, rfl⟩ := List.mem_map.mp hmem
  obtain ⟨next, hnext⟩ := hchain.cell_of_mem hcell
  rw [hnext]
  rfl

/-- A chain depends on its own cells only. -/
theorem congr (hchain : Chain heap first cells)
    (hheap : ∀ a ∈ cells.map Prod.fst, heap' a = heap a) : Chain heap' first cells := by
  induction cells generalizing first with
  | nil => exact hchain
  | cons cell cells ih =>
      obtain ⟨hfirst, next, hcell, hrest⟩ := hchain
      rw [List.map_cons, List.forall_mem_cons] at hheap
      exact ⟨hfirst, next, hheap.1.trans hcell, ih hrest hheap.2⟩

theorem update_of_notMem (hchain : Chain heap first cells) (hmem : a ∉ cells.map Prod.fst)
    (cell : Option (Cell α)) : Chain (Function.update heap a cell) first cells := by
  refine hchain.congr fun b hb => ?_
  have hne : b ≠ a := fun heq => hmem (heq ▸ hb)
  exact Function.update_of_ne hne cell heap

/-- The last cell of a chain is linked to a new one. -/
theorem link {last : Address} {y : α} (hchain : Chain heap first (cells ++ [(last, y)]))
    (hnodup : ((cells ++ [(last, y)]).map Prod.fst).Nodup)
    (hnew : heap a = some ⟨none, x⟩) (hmem : a ∉ (cells ++ [(last, y)]).map Prod.fst) :
    Chain (Function.update heap last (some ⟨some a, y⟩)) first
      (cells ++ [(last, y)] ++ [(a, x)]) := by
  induction cells generalizing first with
  | nil =>
      obtain ⟨hfirst, next, hcell, hrest⟩ := hchain
      have hne : a ≠ last := fun heq => hmem (by simp [heq])
      refine ⟨hfirst, some a, Function.update_self last _ heap, rfl, none, ?_, rfl⟩
      rw [Function.update_of_ne hne]
      exact hnew
  | cons cell cells ih =>
      obtain ⟨hfirst, next, hcell, hrest⟩ := hchain
      rw [List.cons_append, List.map_cons, List.nodup_cons] at hnodup
      rw [List.cons_append, List.map_cons, List.mem_cons, not_or] at hmem
      have hne : cell.1 ≠ last := fun heq => hnodup.1 (by simp [heq])
      refine ⟨hfirst, next, ?_, ih hrest hnodup.2 hmem.2⟩
      rw [Function.update_of_ne hne]
      exact hcell

end Chain

end Hercules.Lib
