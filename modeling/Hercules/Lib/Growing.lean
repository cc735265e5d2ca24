/-
# Lists that grow at their end

Observers of a list that only grows at its end each know a beginning of it. An observer
that is told another beginning appends what it does not know yet. If no element occurs
twice, it then knows the longer one of the two, so any two observers agree on every
position that both of them know.
-/

import Mathlib.Data.List.Infix
import Mathlib.Data.List.Nodup

namespace Hercules.Lib

universe u

variable {α : Type u} [DecidableEq α] {known news order : List α}

/-- The elements of `news` that are not known yet, appended one after the other. -/
def appendNew (known news : List α) : List α :=
  news.foldl (fun known x => if x ∈ known then known else known ++ [x]) known

@[simp]
theorem appendNew_nil (known : List α) : appendNew known [] = known := rfl

theorem appendNew_append (known news later : List α) :
    appendNew known (news ++ later) = appendNew (appendNew known news) later :=
  List.foldl_append

theorem appendNew_of_mem {x : α} (h : x ∈ known) : appendNew known [x] = known :=
  if_pos h

theorem appendNew_of_notMem {x : α} (h : x ∉ known) : appendNew known [x] = known ++ [x] :=
  if_neg h

omit [DecidableEq α] in
theorem getElem_mem_take_iff (hnodup : order.Nodup) {m : Nat} (hm : m < order.length) (k : Nat) :
    order[m] ∈ order.take k ↔ m < k := by
  rw [List.mem_take_iff_getElem]
  constructor
  · rintro ⟨j, hj, heq⟩
    have hjm : j = m := (hnodup.getElem_inj_iff).mp heq
    omega
  · intro hmk
    exact ⟨m, by omega, rfl⟩

theorem appendNew_take (hnodup : order.Nodup) (k : Nat) {m : Nat} (hm : m ≤ order.length) :
    appendNew (order.take k) (order.take m) = order.take (max k m) := by
  induction m with
  | zero => simp
  | succ m ih =>
      have hnext : order.take (m + 1) = order.take m ++ [order[m]] := by
        rw [List.take_add_one, List.getElem?_eq_getElem hm, Option.toList_some]
      rw [hnext, appendNew_append, ih (Nat.le_of_lt hm)]
      by_cases hmem : order[m] ∈ order.take (max k m)
      · rw [appendNew_of_mem hmem]
        rw [getElem_mem_take_iff hnodup hm] at hmem
        congr 1
        omega
      · rw [appendNew_of_notMem hmem]
        rw [getElem_mem_take_iff hnodup hm] at hmem
        have hmax : max k m = m := by omega
        have hmax' : max k (m + 1) = m + 1 := by omega
        rw [hmax, hmax', hnext]

/-- Of two beginnings of one list without repetition, the longer one remains. -/
theorem appendNew_of_beginnings (hnodup : order.Nodup) (hknown : known <+: order)
    (hnews : news <+: order) :
    appendNew known news = if known.length ≤ news.length then news else known := by
  have hmerged := appendNew_take hnodup known.length hnews.length_le
  rw [← List.prefix_iff_eq_take.mp hknown, ← List.prefix_iff_eq_take.mp hnews] at hmerged
  rw [hmerged]
  split
  next h => rw [Nat.max_eq_right h, ← List.prefix_iff_eq_take.mp hnews]
  next h => rw [Nat.max_eq_left (by omega), ← List.prefix_iff_eq_take.mp hknown]

theorem appendNew_beginning (hnodup : order.Nodup) (hknown : known <+: order)
    (hnews : news <+: order) : appendNew known news <+: order := by
  rw [appendNew_of_beginnings hnodup hknown hnews]
  split
  · exact hnews
  · exact hknown

end Hercules.Lib
