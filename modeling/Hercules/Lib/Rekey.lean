/-
# Moving entries of an ordered map to new keys

`std::map::extract` takes a node out of a map, its key is changed, and `insert`
puts it back. The insertion does nothing when the new key is taken, and the node
is lost. A rename is a sequence of such moves over keys collected beforehand; the
lemmas say what a lookup finds afterwards, as far as that does not depend on the
order of the moves.
-/

import Mathlib.Data.List.Basic

namespace Hercules.Lib

open Std

universe u v

variable {α : Type u} {β : Type v} {cmp : α → α → Ordering} [TransCmp cmp]

/-- Extract the node at `old` and insert it at `new`. -/
def moveKey (m : ExtTreeMap α β cmp) (old new : α) : ExtTreeMap α β cmp :=
  match m[old]? with
  | none => m
  | some value => (m.erase old).insertIfNew new value

/-- Move each of the keys to its image under `f`, in order. -/
def moveKeys (m : ExtTreeMap α β cmp) (f : α → α) (keys : List α) : ExtTreeMap α β cmp :=
  keys.foldl (fun m key => moveKey m key (f key)) m

@[simp]
theorem moveKeys_cons (m : ExtTreeMap α β cmp) (f : α → α) (key : α) (keys : List α) :
    moveKeys m f (key :: keys) = moveKeys (moveKey m key (f key)) f keys := rfl

variable [LawfulEqCmp cmp] {m : ExtTreeMap α β cmp} {f : α → α} {old new x : α} {value : β}

/-! ## One move -/

/-- Other keys than the two are not touched. -/
theorem getElem?_moveKey_of_ne (hold : old ≠ x) (hnew : new ≠ x) :
    (moveKey m old new)[x]? = m[x]? := by
  unfold moveKey
  split
  · rfl
  · simp [ExtTreeMap.getElem?_insertIfNew, ExtTreeMap.getElem?_erase, hold, hnew]

/-- The old key is free afterwards. -/
theorem getElem?_moveKey_old (hne : new ≠ old) : (moveKey m old new)[old]? = none := by
  unfold moveKey
  split
  · assumption
  · simp [hne]

/-- A free new key receives the value. -/
theorem getElem?_moveKey_new (hold : m[old]? = some value) (hfree : m[new]? = none) :
    (moveKey m old new)[new]? = some value := by
  have hmem : new ∉ m.erase old := by
    rw [ExtTreeMap.mem_erase, ← ExtTreeMap.isSome_getElem?_iff_mem, hfree]
    simp
  simp only [moveKey, hold]
  rw [ExtTreeMap.getElem?_insertIfNew, if_pos ⟨by simp, hmem⟩]

/-- What stands at another key than the old one stays there. -/
theorem getElem?_moveKey_of_some (hold : old ≠ x) (hx : m[x]? = some value) :
    (moveKey m old new)[x]? = some value := by
  by_cases hnew : new = x
  · subst hnew
    have hmem : new ∈ m.erase old := by
      rw [ExtTreeMap.mem_erase, ← ExtTreeMap.isSome_getElem?_iff_mem, hx]
      simp [hold]
    unfold moveKey
    split
    · exact hx
    · rw [ExtTreeMap.getElem?_insertIfNew, if_neg (fun h => h.2 hmem), ExtTreeMap.getElem?_erase,
        if_neg (by simpa using hold), hx]
  · rw [getElem?_moveKey_of_ne hold hnew, hx]

/-- A move onto itself changes no lookup. -/
theorem getElem?_moveKey_self (m : ExtTreeMap α β cmp) (key x : α) :
    (moveKey m key key)[x]? = m[x]? := by
  unfold moveKey
  split
  · rfl
  next value hvalue =>
    by_cases hkey : key = x
    · subst hkey
      rw [ExtTreeMap.getElem?_insertIfNew, if_pos (by simp), hvalue]
    · simp [ExtTreeMap.getElem?_insertIfNew, ExtTreeMap.getElem?_erase, hkey]

omit [LawfulEqCmp cmp] in
/-- Whatever is found after a move stood there before, or at the old key. -/
theorem getElem?_of_moveKey (hx : (moveKey m old new)[x]? = some value) :
    m[x]? = some value ∨ m[old]? = some value := by
  unfold moveKey at hx
  split at hx
  · exact Or.inl hx
  next moved hmoved =>
    rw [ExtTreeMap.getElem?_insertIfNew] at hx
    split at hx
    · exact Or.inr (hmoved.trans hx)
    · rw [ExtTreeMap.getElem?_erase] at hx
      split at hx
      · cases hx
      · exact Or.inl hx

/-! ## A sequence of moves -/

theorem getElem?_moveKeys_of_ne (keys : List α) (m : ExtTreeMap α β cmp) (hold : x ∉ keys)
    (hnew : ∀ key ∈ keys, f key ≠ x) : (moveKeys m f keys)[x]? = m[x]? := by
  induction keys generalizing m with
  | nil => rfl
  | cons key keys ih =>
      rw [moveKeys_cons, ih _ (fun h => hold (List.mem_cons_of_mem _ h))
        (fun k hk => hnew k (List.mem_cons_of_mem _ hk))]
      exact getElem?_moveKey_of_ne (fun h => hold (h ▸ List.mem_cons_self))
        (hnew key List.mem_cons_self)

/-- A key that is not moved keeps its value, also when it is a target. -/
theorem getElem?_moveKeys_of_some (keys : List α) (m : ExtTreeMap α β cmp) (hold : x ∉ keys)
    (hx : m[x]? = some value) : (moveKeys m f keys)[x]? = some value := by
  induction keys generalizing m with
  | nil => exact hx
  | cons key keys ih =>
      rw [moveKeys_cons]
      exact ih _ (fun h => hold (List.mem_cons_of_mem _ h))
        (getElem?_moveKey_of_some (fun h => hold (h ▸ List.mem_cons_self)) hx)

/-- A moved key that is no target is free afterwards. -/
theorem getElem?_moveKeys_source (keys : List α) (m : ExtTreeMap α β cmp)
    (hold : x ∈ keys ∨ m[x]? = none) (hnew : ∀ key ∈ keys, f key ≠ x) :
    (moveKeys m f keys)[x]? = none := by
  induction keys generalizing m with
  | nil =>
      rcases hold with hmem | hfree
      · simp at hmem
      · exact hfree
  | cons key keys ih =>
      rw [moveKeys_cons]
      have hkey := hnew key List.mem_cons_self
      refine ih _ ?_ (fun k hk => hnew k (List.mem_cons_of_mem _ hk))
      by_cases hsame : key = x
      · subst hsame
        exact Or.inr (getElem?_moveKey_old hkey)
      · rcases hold with hmem | hfree
        · exact Or.inl ((List.mem_cons.mp hmem).resolve_left fun h => hsame h.symm)
        · right
          rw [getElem?_moveKey_of_ne hsame hkey, hfree]

/-- A target that was free and is not moved itself receives its value. -/
theorem getElem?_moveKeys_target (keys : List α) (m : ExtTreeMap α β cmp) {key : α}
    (hkey : key ∈ keys) (hnodup : keys.Nodup)
    (hinj : ∀ k ∈ keys, f k = f key → k = key) (htarget : f key ∉ keys)
    (hvalue : m[key]? = some value) (hfree : m[f key]? = none) :
    (moveKeys m f keys)[f key]? = some value := by
  induction keys generalizing m with
  | nil => simp at hkey
  | cons k keys ih =>
      rw [List.nodup_cons] at hnodup
      rw [moveKeys_cons]
      have htail : f key ∉ keys := fun h => htarget (List.mem_cons_of_mem _ h)
      by_cases hsame : k = key
      · subst hsame
        exact getElem?_moveKeys_of_some keys _ htail (getElem?_moveKey_new hvalue hfree)
      · have hmem : key ∈ keys := (List.mem_cons.mp hkey).resolve_left fun h => hsame h.symm
        refine ih _ hmem hnodup.2 (fun k' hk' => hinj k' (List.mem_cons_of_mem _ hk')) htail
          (getElem?_moveKey_of_some hsame hvalue) ?_
        have hother : k ≠ f key := by
          rintro rfl
          exact htarget List.mem_cons_self
        rw [getElem?_moveKey_of_ne hother (fun h => hsame (hinj k List.mem_cons_self h)), hfree]

omit [LawfulEqCmp cmp] in
/-- Whatever is found after the moves was stored before, and stood at the same key
unless it was moved. -/
theorem exists_of_moveKeys (keys : List α) (m : ExtTreeMap α β cmp)
    (hx : (moveKeys m f keys)[x]? = some value) :
    ∃ key, m[key]? = some value ∧ (key ∉ keys → key = x) := by
  induction keys generalizing m with
  | nil => exact ⟨x, hx, fun _ => rfl⟩
  | cons first keys ih =>
      obtain ⟨key, hkey, hstays⟩ := ih _ hx
      rcases getElem?_of_moveKey hkey with hsame | hmoved
      · exact ⟨key, hsame, fun h => hstays fun hmem => h (List.mem_cons_of_mem _ hmem)⟩
      · exact ⟨first, hmoved, fun h => absurd List.mem_cons_self h⟩

/-- Moves onto themselves change no lookup. -/
theorem getElem?_moveKeys_self (keys : List α) (m : ExtTreeMap α β cmp) (x : α)
    (hself : ∀ key ∈ keys, f key = key) : (moveKeys m f keys)[x]? = m[x]? := by
  induction keys generalizing m with
  | nil => rfl
  | cons key keys ih =>
      rw [moveKeys_cons, ih _ fun k hk => hself k (List.mem_cons_of_mem _ hk),
        hself key List.mem_cons_self, getElem?_moveKey_self]

/-! ## All keys at once -/

/-- The map with its keys renamed. -/
def renameKeys (m : ExtTreeMap α β cmp) (f : α → α) : ExtTreeMap α β cmp :=
  ExtTreeMap.ofList (m.toList.map fun entry => (f entry.1, entry.2)) cmp

/-- A map made of a list of entries with different keys has these entries. -/
theorem mem_toList_ofList [DecidableEq α] {entries : List (α × β)}
    (hdistinct : entries.Pairwise fun a b => ¬ cmp a.1 b.1 = .eq) (entry : α × β) :
    entry ∈ (ExtTreeMap.ofList entries cmp).toList ↔ entry ∈ entries := by
  rw [ExtTreeMap.mem_toList_iff_getElem?_eq_some]
  constructor
  · intro hget
    by_cases hkey : entry.1 ∈ entries.map Prod.fst
    · obtain ⟨entry', hmem, hsame⟩ := List.mem_map.mp hkey
      have heq : cmp entry'.1 entry.1 = .eq := hsame ▸ ReflCmp.compare_self
      have hget' := ExtTreeMap.getElem?_ofList_of_mem heq hdistinct hmem
      rw [hget, Option.some.injEq] at hget'
      rwa [Prod.ext hsame.symm hget']
    · rw [ExtTreeMap.getElem?_ofList_of_contains_eq_false (by simpa using hkey)] at hget
      cases hget
  · intro hmem
    exact ExtTreeMap.getElem?_ofList_of_mem ReflCmp.compare_self hdistinct hmem

/-- A renaming that is one-to-one on the keys of a map permutes its entries. -/
theorem toList_renameKeys [DecidableEq α] (hinj : ∀ x ∈ m, ∀ y ∈ m, f x = f y → x = y) :
    (renameKeys m f).toList.Perm (m.toList.map fun entry => (f entry.1, entry.2)) := by
  have hnodup : ∀ {entries : List (α × β)},
      (entries.Pairwise fun a b => ¬ cmp a.1 b.1 = .eq) → entries.Nodup := by
    intro entries hdistinct
    refine hdistinct.imp fun {a b} hne heq => hne ?_
    rw [heq]
    exact ReflCmp.compare_self
  have hdistinct : (m.toList.map fun entry => (f entry.1, entry.2)).Pairwise
      fun a b => ¬ cmp a.1 b.1 = .eq := by
    rw [List.pairwise_map]
    refine ExtTreeMap.distinct_keys_toList.imp_of_mem fun {a b} ha hb hne heq => hne ?_
    have hmem : ∀ entry ∈ m.toList, entry.1 ∈ m := by
      intro entry hentry
      rw [← ExtTreeMap.isSome_getElem?_iff_mem,
        ExtTreeMap.mem_toList_iff_getElem?_eq_some.mp hentry]
      rfl
    rw [hinj _ (hmem a ha) _ (hmem b hb) (LawfulEqCmp.eq_of_compare heq)]
    exact ReflCmp.compare_self
  rw [List.perm_ext_iff_of_nodup (hnodup ExtTreeMap.distinct_keys_toList) (hnodup hdistinct)]
  exact mem_toList_ofList hdistinct

@[simp]
theorem renameKeys_id [DecidableEq α] (m : ExtTreeMap α β cmp) : renameKeys m id = m := by
  apply ExtTreeMap.ext_toList
  have hperm := toList_renameKeys (m := m) (f := id) fun x _ y _ heq => heq
  simpa using hperm

end Hercules.Lib
