/-
# Totals over the entries of a map

Every entry of an ordered map has a weight, and the total is their sum. A change of one
entry changes the total by the difference of its weights; since weights are natural
numbers, this is stated as an equation of two sums.
-/

import Mathlib.Algebra.BigOperators.Group.List.Basic
import Mathlib.Algebra.Ring.Nat
import Mathlib.Data.List.Nodup

namespace Hercules.Lib

open Std

universe u v

variable {α : Type u} {β : Type v} {cmp : α → α → Ordering} [TransCmp cmp]

/-- The sum of the weights of all entries. -/
def total (weight : β → Nat) (m : ExtTreeMap α β cmp) : Nat :=
  (m.toList.map fun entry => weight entry.2).sum

/-- The weight of an entry that may be missing. -/
def weightOf (weight : β → Nat) (entry : Option β) : Nat :=
  entry.elim 0 weight

@[simp]
theorem weightOf_none (weight : β → Nat) : weightOf weight none = 0 := rfl

@[simp]
theorem weightOf_some (weight : β → Nat) (value : β) :
    weightOf weight (some value) = weight value := rfl

@[simp]
theorem total_empty (weight : β → Nat) : total weight (∅ : ExtTreeMap α β cmp) = 0 := by
  have hnil : (∅ : ExtTreeMap α β cmp).toList = [] := ExtTreeMap.toList_eq_nil_iff.mpr rfl
  rw [total, hnil]
  rfl

variable [LawfulEqCmp cmp] {weight : β → Nat} {m m' : ExtTreeMap α β cmp} {key : α} {value : β}

theorem nodup_toList (m : ExtTreeMap α β cmp) : m.toList.Nodup := by
  refine ExtTreeMap.distinct_keys_toList.imp ?_
  rintro first second hne rfl
  exact hne ReflCmp.compare_self

/-- The weight of one entry, and the total of the others. -/
theorem total_eq [DecidableEq α] (weight : β → Nat) (m : ExtTreeMap α β cmp) (key : α) :
    total weight m = weightOf weight m[key]? +
      ((m.toList.filter (·.1 ≠ key)).map fun entry => weight entry.2).sum := by
  cases hkey : m[key]? with
  | none =>
      have hall : m.toList.filter (·.1 ≠ key) = m.toList := by
        rw [List.filter_eq_self]
        rintro ⟨key', value⟩ hmem
        rw [decide_eq_true_eq]
        rintro rfl
        rw [ExtTreeMap.mem_toList_iff_getElem?_eq_some, hkey] at hmem
        cases hmem
      rw [hall, weightOf_none, Nat.zero_add, total]
  | some value =>
      have hperm : m.toList.Perm ((key, value) :: m.toList.filter (·.1 ≠ key)) := by
        rw [List.perm_ext_iff_of_nodup (nodup_toList m)
          (List.nodup_cons.mpr ⟨by simp, (nodup_toList m).filter _⟩)]
        rintro ⟨key', value'⟩
        simp only [ExtTreeMap.mem_toList_iff_getElem?_eq_some, List.mem_cons, List.mem_filter,
          Prod.mk.injEq, decide_eq_true_eq]
        constructor
        · intro hvalue'
          by_cases heq : key' = key
          · subst heq
            exact Or.inl ⟨rfl, Option.some.inj (hvalue'.symm.trans hkey)⟩
          · exact Or.inr ⟨hvalue', heq⟩
        · rintro (⟨rfl, rfl⟩ | ⟨hvalue', _⟩)
          · exact hkey
          · exact hvalue'
      rw [total, (hperm.map _).sum_eq]
      rfl

theorem weightOf_le_total (weight : β → Nat) (m : ExtTreeMap α β cmp) (key : α) :
    weightOf weight m[key]? ≤ total weight m := by
  classical
  rw [total_eq weight m key]
  exact Nat.le_add_right _ _

/-- Two maps that agree on all keys but one. -/
theorem total_add_weightOf (weight : β → Nat) (h : ∀ key', key' ≠ key → m'[key']? = m[key']?) :
    total weight m' + weightOf weight m[key]? = total weight m + weightOf weight m'[key]? := by
  classical
  have hperm : (m'.toList.filter (·.1 ≠ key)).Perm (m.toList.filter (·.1 ≠ key)) := by
    rw [List.perm_ext_iff_of_nodup ((nodup_toList m').filter _) ((nodup_toList m).filter _)]
    rintro ⟨key', value'⟩
    simp only [List.mem_filter, ExtTreeMap.mem_toList_iff_getElem?_eq_some, decide_eq_true_eq]
    exact and_congr_left fun hne => by rw [h key' hne]
  rw [total_eq weight m' key, total_eq weight m key, (hperm.map _).sum_eq]
  omega

theorem total_insert (weight : β → Nat) (m : ExtTreeMap α β cmp) (key : α) (value : β) :
    total weight (m.insert key value) + weightOf weight m[key]? =
      total weight m + weight value := by
  have hkeys : ∀ key', key' ≠ key → (m.insert key value)[key']? = m[key']? := by
    intro key' hne
    rw [ExtTreeMap.getElem?_insert, if_neg fun heq => hne (LawfulEqCmp.eq_of_compare heq).symm]
  rw [total_add_weightOf weight hkeys, ExtTreeMap.getElem?_insert_self, weightOf_some]

theorem total_insertIfNew (weight : β → Nat) (hnone : m[key]? = none) (value : β) :
    total weight (m.insertIfNew key value) = total weight m + weight value := by
  have hnew : key ∉ m := by
    rw [← ExtTreeMap.isSome_getElem?_iff_mem, hnone]
    exact Bool.false_ne_true
  have hkeys : ∀ key', key' ≠ key → (m.insertIfNew key value)[key']? = m[key']? := by
    intro key' hne
    rw [ExtTreeMap.getElem?_insertIfNew,
      if_neg fun heq => hne (LawfulEqCmp.eq_of_compare heq.1).symm]
  have hsum := total_add_weightOf weight hkeys
  have hself : (m.insertIfNew key value)[key]? = some value := by
    rw [ExtTreeMap.getElem?_insertIfNew, if_pos ⟨ReflCmp.compare_self, hnew⟩]
  rwa [hnone, hself, weightOf_none, weightOf_some, Nat.add_zero] at hsum

theorem total_erase (weight : β → Nat) (m : ExtTreeMap α β cmp) (key : α) :
    total weight (m.erase key) + weightOf weight m[key]? = total weight m := by
  have hkeys : ∀ key', key' ≠ key → (m.erase key)[key']? = m[key']? := by
    intro key' hne
    rw [ExtTreeMap.getElem?_erase, if_neg fun heq => hne (LawfulEqCmp.eq_of_compare heq).symm]
  rw [total_add_weightOf weight hkeys, ExtTreeMap.getElem?_erase_self, weightOf_none, Nat.add_zero]

end Hercules.Lib
