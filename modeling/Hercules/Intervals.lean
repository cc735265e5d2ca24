/-
# Intervals of blocks

With malleability on, a dataset remembers for some ranges of block numbers how
many data servers there were when the blocks were placed. The first range that
contains a block counts. Client and metadata server use the same functions.

A table of ranges stands for a function from blocks to values, and `SetInterval` is
meant to give one range of blocks a new value. It does so only for some tables: an
entry that contains the range is cut off behind it and takes the value for all its
blocks, and a range that is added at the end is hidden by the entries before it.
-/

import Mathlib.Data.Int.Range
import Mathlib.Data.List.Perm.Basic
import Hercules.Lib.Run

namespace Hercules

open Lib

/-- `IntervalEntry`: the value for the blocks from `left` to `right`. Values are numbers of
servers, kept in an `int`. -/
structure IntervalEntry (V : Type := Nat) where
  value : V
  left : Int
  right : Int
  deriving DecidableEq

variable {V : Type}

/-- The range of an entry contains the given one. -/
def IntervalEntry.Spans (entry : IntervalEntry V) (left right : Int) : Prop :=
  entry.left ≤ left ∧ right ≤ entry.right

instance (left right : Int) : DecidablePred fun entry : IntervalEntry V => entry.Spans left right :=
  fun _ => inferInstanceAs (Decidable (_ ∧ _))

/-- `GetValueFromInterval`; `none` is its `-1`. -/
def getValueFromInterval (intervals : List (IntervalEntry V)) (dataId : Int) : Option V :=
  (intervals.find? fun entry => decide (entry.Spans dataId dataId)).map IntervalEntry.value

/-- `SetInterval`: the first entry that spans the range ends with it from now on, and
a range that no entry spans is added. The entry of block 0 is never changed. -/
def setInterval (intervals : List (IntervalEntry V)) (value : V) (left right : Int) :
    List (IntervalEntry V) :=
  if right < left then intervals
  else
    match intervals.findIdx? fun entry => decide (entry.Spans left right) with
    | none => intervals ++ [⟨value, left, right⟩]
    | some i =>
        if left = 0 ∧ right = 0 then intervals
        else intervals.modify i fun entry => { entry with value := value, right := right }

/-- `SET` of a stored dataset on the metadata server: its intervals are set one by
one. -/
def mergeIntervals (remote intervals : List (IntervalEntry V)) : List (IntervalEntry V) :=
  intervals.foldl (fun merged entry => setInterval merged entry.value entry.left entry.right) remote

@[simp]
theorem getValueFromInterval_nil (dataId : Int) :
    getValueFromInterval ([] : List (IntervalEntry V)) dataId = none := rfl

/-- A value comes from one of the entries. -/
theorem exists_mem_of_getValueFromInterval {intervals : List (IntervalEntry V)} {dataId : Int}
    {value : V} (h : getValueFromInterval intervals dataId = some value) :
    ∃ entry ∈ intervals, entry.value = value := by
  obtain ⟨entry, hfind, hvalue⟩ := Option.map_eq_some_iff.mp h
  exact ⟨entry, List.mem_of_find?_eq_some hfind, hvalue⟩

/-! ## Tables around the entry that is changed -/

/-- The first entry that spans the range, with the entries before and behind it. -/
def splitSpanning (left right : Int) :
    List (IntervalEntry V) → Option
      (List (IntervalEntry V) × IntervalEntry V × List (IntervalEntry V))
  | [] => none
  | entry :: rest =>
      if entry.Spans left right then some ([], entry, rest)
      else (splitSpanning left right rest).map fun parts => (entry :: parts.1, parts.2)

section Tables

variable {intervals before rest : List (IntervalEntry V)} {entry : IntervalEntry V}
  {left right dataId : Int} {value : V}

theorem splitSpanning_eq_none (h : splitSpanning left right intervals = none) :
    ∀ entry ∈ intervals, ¬ entry.Spans left right := by
  induction intervals with
  | nil => simp
  | cons head tail ih =>
      rw [splitSpanning] at h
      split at h
      · cases h
      next hhead =>
        rw [List.forall_mem_cons]
        exact ⟨hhead, ih (Option.map_eq_none_iff.mp h)⟩

theorem splitSpanning_eq_some
    (h : splitSpanning left right intervals = some (before, entry, rest)) :
    intervals = before ++ entry :: rest ∧ entry.Spans left right := by
  induction intervals generalizing before with
  | nil => cases h
  | cons head tail ih =>
      rw [splitSpanning] at h
      split at h
      next hhead =>
        cases h
        exact ⟨rfl, hhead⟩
      next =>
        obtain ⟨⟨before', entry', rest'⟩, hsplit, hparts⟩ := Option.map_eq_some_iff.mp h
        cases hparts
        obtain ⟨htail, hspans⟩ := ih hsplit
        exact ⟨by rw [htail]; rfl, hspans⟩

/-- `SetInterval` in terms of the parts of the table. -/
theorem setInterval_eq (hle : left ≤ right) (intervals : List (IntervalEntry V)) (value : V) :
    setInterval intervals value left right =
      match splitSpanning left right intervals with
      | none => intervals ++ [⟨value, left, right⟩]
      | some (before, entry, rest) =>
          if left = 0 ∧ right = 0 then intervals
          else before ++ { entry with value := value, right := right } :: rest := by
  rw [setInterval, if_neg (Int.not_lt.mpr hle)]
  induction intervals with
  | nil => rfl
  | cons head tail ih =>
      rw [List.findIdx?_cons, splitSpanning]
      by_cases hhead : head.Spans left right
      · rw [if_pos hhead]
        simp [hhead]
      · rw [if_neg hhead]
        simp only [hhead, decide_false, Bool.false_eq_true, if_false]
        cases hsplit : splitSpanning left right tail with
        | none =>
            rw [hsplit] at ih
            cases hfind : tail.findIdx? fun entry => decide (entry.Spans left right) with
            | none => rfl
            | some i =>
                rw [List.findIdx?_eq_some_iff_getElem] at hfind
                obtain ⟨hi, hspans, -⟩ := hfind
                exact absurd (of_decide_eq_true hspans)
                  (splitSpanning_eq_none hsplit _ (List.getElem_mem hi))
        | some parts =>
            obtain ⟨before, entry, rest⟩ := parts
            rw [hsplit] at ih
            cases hfind : tail.findIdx? fun entry => decide (entry.Spans left right) with
            | none =>
                obtain ⟨htail, hspans⟩ := splitSpanning_eq_some hsplit
                rw [List.findIdx?_eq_none_iff] at hfind
                have hentry := hfind entry (by rw [htail]; simp)
                exact absurd hspans (of_decide_eq_false hentry)
            | some i =>
                rw [hfind] at ih
                dsimp only [Option.map_some] at ih ⊢
                split
                · rfl
                next hzero =>
                  rw [if_neg hzero, if_neg hzero] at ih
                  rw [List.modify_succ_cons, ih]
                  rfl

/-- A lookup goes through the entries in turn. -/
theorem getValueFromInterval_append (intervals intervals' : List (IntervalEntry V)) (dataId : Int) :
    getValueFromInterval (intervals ++ intervals') dataId =
      (getValueFromInterval intervals dataId).or (getValueFromInterval intervals' dataId) := by
  rw [getValueFromInterval, List.find?_append, Option.map_or]
  rfl

theorem getValueFromInterval_cons (entry : IntervalEntry V) (rest : List (IntervalEntry V))
    (dataId : Int) :
    getValueFromInterval (entry :: rest) dataId =
      if entry.Spans dataId dataId then some entry.value else getValueFromInterval rest dataId := by
  rw [getValueFromInterval, List.find?_cons]
  by_cases hspans : entry.Spans dataId dataId
  · simp [hspans]
  · simp [hspans, getValueFromInterval]

theorem getValueFromInterval_singleton (entry : IntervalEntry V) (dataId : Int) :
    getValueFromInterval [entry] dataId =
      if entry.Spans dataId dataId then some entry.value else none :=
  getValueFromInterval_cons entry [] dataId

end Tables

/-! ## The function that a table stands for -/

/-- The result of `GetValueFromInterval`, an `int`. -/
def valueFor (intervals : List (IntervalEntry Int)) (dataId : Int) : Int :=
  (getValueFromInterval intervals dataId).getD (-1)

/-- After the call the blocks of the range have the value, and the others what they had. -/
def Assigned (intervals : List (IntervalEntry Int)) (value left right : Int) : Prop :=
  ∀ dataId, valueFor (setInterval intervals value left right) dataId =
    if left ≤ dataId ∧ dataId ≤ right then value else valueFor intervals dataId

/-- The tables for which the call does what it should. A new range must not be hidden by entries
with other values. An entry that is changed must not be hidden within the range; its blocks before
the range must have the value already or be hidden, and those behind it must be hidden or find their
value further on. The entry of block 0 must have the value. -/
def Assignable (intervals : List (IntervalEntry Int)) (value left right : Int) : Prop :=
  match splitSpanning left right intervals with
  | none =>
      ∀ dataId, left ≤ dataId → dataId ≤ right →
        ∀ old ∈ getValueFromInterval intervals dataId, old = value
  | some (before, entry, rest) =>
      if left = 0 ∧ right = 0 then
        ∀ old ∈ getValueFromInterval intervals 0, old = value
      else
        (∀ dataId, left ≤ dataId → dataId ≤ right →
          ∀ old ∈ getValueFromInterval before dataId, old = value) ∧
        (∀ dataId, entry.left ≤ dataId → dataId < left →
          getValueFromInterval before dataId = none → entry.value = value) ∧
        ∀ dataId, right < dataId → dataId ≤ entry.right →
          getValueFromInterval before dataId = none → valueFor rest dataId = entry.value

instance Assignable.decidable (intervals : List (IntervalEntry Int)) (value left right : Int) :
    Decidable (Assignable intervals value left right) :=
  match h : splitSpanning left right intervals with
  | none =>
      decidable_of_iff
        (∀ dataId, left ≤ dataId → dataId ≤ right →
          ∀ old ∈ getValueFromInterval intervals dataId, old = value)
        (by rw [Assignable, h])
  | some (before, entry, rest) =>
      decidable_of_iff
        (if left = 0 ∧ right = 0 then
          ∀ old ∈ getValueFromInterval intervals 0, old = value
        else
          (∀ dataId, left ≤ dataId → dataId ≤ right →
            ∀ old ∈ getValueFromInterval before dataId, old = value) ∧
          (∀ dataId, entry.left ≤ dataId → dataId < left →
            getValueFromInterval before dataId = none → entry.value = value) ∧
          ∀ dataId, right < dataId → dataId ≤ entry.right →
            getValueFromInterval before dataId = none → valueFor rest dataId = entry.value)
        (by rw [Assignable, h])

section Assigned

variable {intervals before rest : List (IntervalEntry Int)} {entry : IntervalEntry Int}
  {value left right dataId : Int}

theorem valueFor_eq_of_some {old : Int} (h : getValueFromInterval intervals dataId = some old) :
    valueFor intervals dataId = old := by
  rw [valueFor, h]
  rfl

/-- A range that is added counts where no entry was. -/
theorem valueFor_add (intervals : List (IntervalEntry Int)) (value left right dataId : Int) :
    valueFor (intervals ++ [⟨value, left, right⟩]) dataId =
      (getValueFromInterval intervals dataId).getD
        (if left ≤ dataId ∧ dataId ≤ right then value else -1) := by
  rw [valueFor, getValueFromInterval_append, getValueFromInterval_singleton]
  cases getValueFromInterval intervals dataId with
  | some old => rfl
  | none =>
      by_cases hin : left ≤ dataId ∧ dataId ≤ right
      · simp [IntervalEntry.Spans, hin]
      · simp [IntervalEntry.Spans, hin]

/-- A lookup in the parts of a table. -/
theorem valueFor_split (before rest : List (IntervalEntry Int)) (entry : IntervalEntry Int)
    (dataId : Int) :
    valueFor (before ++ entry :: rest) dataId =
      (getValueFromInterval before dataId).getD
        (if entry.left ≤ dataId ∧ dataId ≤ entry.right then entry.value
          else valueFor rest dataId) := by
  rw [valueFor, getValueFromInterval_append, getValueFromInterval_cons]
  cases getValueFromInterval before dataId with
  | some old => rfl
  | none =>
      by_cases hin : entry.left ≤ dataId ∧ dataId ≤ entry.right
      · simp [IntervalEntry.Spans, hin]
      · simp [IntervalEntry.Spans, hin, valueFor]

theorem assigned_add_iff :
    (∀ dataId, valueFor (intervals ++ [⟨value, left, right⟩]) dataId =
        if left ≤ dataId ∧ dataId ≤ right then value else valueFor intervals dataId) ↔
      ∀ dataId, left ≤ dataId → dataId ≤ right →
        ∀ old ∈ getValueFromInterval intervals dataId, old = value := by
  simp only [valueFor_add]
  constructor
  · intro hassigned dataId hleft hright old hold
    have hvalue := hassigned dataId
    rwa [Option.mem_def.mp hold, Option.getD_some, if_pos ⟨hleft, hright⟩] at hvalue
  · intro hold dataId
    cases hget : getValueFromInterval intervals dataId with
    | none =>
        rw [valueFor, hget]
        rfl
    | some old =>
        rw [valueFor_eq_of_some hget]
        split
        next hin => exact hold dataId hin.1 hin.2 old hget
        next => rfl

theorem assigned_change_iff (hspans : entry.Spans left right) (hle : left ≤ right) :
    (∀ dataId, valueFor (before ++ { entry with value := value, right := right } :: rest) dataId =
        if left ≤ dataId ∧ dataId ≤ right then value
        else valueFor (before ++ entry :: rest) dataId) ↔
      (∀ dataId, left ≤ dataId → dataId ≤ right →
        ∀ old ∈ getValueFromInterval before dataId, old = value) ∧
      (∀ dataId, entry.left ≤ dataId → dataId < left →
        getValueFromInterval before dataId = none → entry.value = value) ∧
      ∀ dataId, right < dataId → dataId ≤ entry.right →
        getValueFromInterval before dataId = none → valueFor rest dataId = entry.value := by
  obtain ⟨hfrom, hto⟩ := hspans
  simp only [valueFor_split]
  constructor
  · intro hassigned
    refine ⟨?_, ?_, ?_⟩
    · intro dataId hleft hright old hold
      have hvalue := hassigned dataId
      rwa [Option.mem_def.mp hold, Option.getD_some, if_pos ⟨hleft, hright⟩] at hvalue
    · intro dataId hleft hright hnone
      have hvalue := hassigned dataId
      rw [hnone, Option.getD_none, Option.getD_none, if_pos (by omega), if_neg (by omega),
        if_pos (by omega)] at hvalue
      exact hvalue.symm
    · intro dataId hleft hright hnone
      have hvalue := hassigned dataId
      rwa [hnone, Option.getD_none, Option.getD_none, if_neg (by omega), if_neg (by omega),
        if_pos (by omega)] at hvalue
  · rintro ⟨hinside, hfront, hbehind⟩ dataId
    cases hget : getValueFromInterval before dataId with
    | some old =>
        rw [Option.getD_some, Option.getD_some]
        split
        next hin => exact hinside dataId hin.1 hin.2 old hget
        next => rfl
    | none =>
        rw [Option.getD_none, Option.getD_none]
        -- the block is before the entry, before the range, in it, behind it, or behind the entry
        by_cases hbefore : dataId < entry.left
        · rw [if_neg (by omega), if_neg (by omega), if_neg (by omega)]
        · by_cases hleft : dataId < left
          · rw [if_pos (by omega), if_neg (by omega), if_pos (by omega)]
            exact (hfront dataId (by omega) hleft hget).symm
          · by_cases hright : dataId ≤ right
            · rw [if_pos (by omega), if_pos (by omega)]
            · by_cases hend : dataId ≤ entry.right
              · rw [if_neg (by omega), if_neg (by omega), if_pos (by omega)]
                exact hbehind dataId (by omega) hend hget
              · rw [if_neg (by omega), if_neg (by omega), if_neg (by omega)]

/-- A table in which an entry spans block 0 has a value for it. -/
theorem exists_value_of_splitSpanning
    (h : splitSpanning left left intervals = some (before, entry, rest)) :
    ∃ old, getValueFromInterval intervals left = some old := by
  obtain ⟨rfl, hspans⟩ := splitSpanning_eq_some h
  rw [getValueFromInterval_append, getValueFromInterval_cons, if_pos hspans]
  cases getValueFromInterval before left with
  | none => exact ⟨_, rfl⟩
  | some old => exact ⟨old, rfl⟩

/-- A call does what it should exactly for the tables of `Assignable`. -/
theorem assigned_iff (hle : left ≤ right) (intervals : List (IntervalEntry Int)) (value : Int) :
    Assigned intervals value left right ↔ Assignable intervals value left right := by
  rw [Assigned, Assignable, setInterval_eq hle]
  cases hsplit : splitSpanning left right intervals with
  | none => exact assigned_add_iff
  | some parts =>
      obtain ⟨before, entry, rest⟩ := parts
      obtain ⟨hparts, hspans⟩ := splitSpanning_eq_some hsplit
      dsimp only
      split
      next hzero =>
        obtain ⟨rfl, rfl⟩ := hzero
        obtain ⟨old, hold⟩ := exists_value_of_splitSpanning hsplit
        have hvalue := valueFor_eq_of_some hold
        constructor
        · intro hassigned old' hold'
          have hzero := hassigned 0
          rw [if_pos ⟨Int.le_refl 0, Int.le_refl 0⟩, valueFor_eq_of_some hold'] at hzero
          exact hzero
        · intro hsame dataId
          split
          next hin =>
            obtain rfl : dataId = 0 := Int.le_antisymm hin.2 hin.1
            rw [hvalue]
            exact hsame old hold
          next => rfl
      next =>
        rw [hparts]
        exact assigned_change_iff hspans hle

end Assigned

/-! ## Merging the updates of several clients -/

/-- Each interval of the update finds a table for which the call does what it should. Ranges without
blocks are refused anyway. -/
def MergeAssignable (remote update : List (IntervalEntry Int)) : Prop :=
  Along (fun table entry => some (setInterval table entry.value entry.left entry.right))
    (fun table entry =>
      entry.left ≤ entry.right → Assignable table entry.value entry.left entry.right)
    update remote

/-- Updates of clients that wrote disjoint ranges. The interval of block 0 is in all of them. -/
def Apart (update update' : List (IntervalEntry Int)) : Prop :=
  ∀ entry ∈ update, ∀ entry' ∈ update',
    (∀ dataId, entry.Spans dataId dataId → ¬ entry'.Spans dataId dataId) ∨
      (entry.left = 0 ∧ entry.right = 0) ∧ entry'.left = 0 ∧ entry'.right = 0

section Merge

variable {remote update update' : List (IntervalEntry Int)} {entry : IntervalEntry Int}
  {updates : List (List (IntervalEntry Int))} {dataId value : Int}

theorem Apart.symm (h : Apart update update') : Apart update' update := by
  intro entry' hentry' entry hentry
  rcases h entry hentry entry' hentry' with hdisjoint | ⟨hzero, hzero'⟩
  · exact Or.inl fun dataId hspans' hspans => hdisjoint dataId hspans hspans'
  · exact Or.inr ⟨hzero', hzero⟩

theorem mergeIntervals_cons (remote : List (IntervalEntry V)) (entry : IntervalEntry V)
    (update : List (IntervalEntry V)) :
    mergeIntervals remote (entry :: update) =
      mergeIntervals (setInterval remote entry.value entry.left entry.right) update := rfl

theorem mergeIntervals_append (remote update update' : List (IntervalEntry V)) :
    mergeIntervals remote (update ++ update') =
      mergeIntervals (mergeIntervals remote update) update' :=
  List.foldl_append

/-- Updates that arrive one after the other. -/
theorem foldl_mergeIntervals (remote : List (IntervalEntry V))
    (updates : List (List (IntervalEntry V))) :
    updates.foldl mergeIntervals remote = mergeIntervals remote updates.flatten := by
  induction updates generalizing remote with
  | nil => rfl
  | cons update updates ih => rw [List.foldl_cons, ih, List.flatten_cons, mergeIntervals_append]

theorem MergeAssignable.append (h : MergeAssignable remote (update ++ update')) :
    MergeAssignable remote update ∧ MergeAssignable (mergeIntervals remote update) update' := by
  induction update generalizing remote with
  | nil => exact ⟨trivial, h⟩
  | cons entry update ih =>
      obtain ⟨hfirst, hrest⟩ := ih (h.2 _ rfl)
      refine ⟨⟨h.1, fun table htable => ?_⟩, hrest⟩
      cases htable
      exact hfirst

/-- One interval of an update. -/
theorem valueFor_setInterval
    (h : entry.left ≤ entry.right → Assignable remote entry.value entry.left entry.right)
    (dataId : Int) :
    valueFor (setInterval remote entry.value entry.left entry.right) dataId =
      if entry.Spans dataId dataId then entry.value else valueFor remote dataId := by
  by_cases hle : entry.left ≤ entry.right
  · exact (assigned_iff hle remote entry.value).mpr (h hle) dataId
  · rw [setInterval, if_pos (Int.not_le.mp hle), if_neg fun hspans => ?_]
    exact hle (Int.le_trans hspans.1 hspans.2)

/-- The last interval with the block counts. -/
theorem valueFor_mergeIntervals (h : MergeAssignable remote update) (dataId : Int) :
    valueFor (mergeIntervals remote update) dataId =
      (getValueFromInterval update.reverse dataId).getD (valueFor remote dataId) := by
  induction update generalizing remote with
  | nil => rfl
  | cons entry update ih =>
      rw [mergeIntervals_cons, ih (h.2 _ rfl), valueFor_setInterval h.1, List.reverse_cons,
        getValueFromInterval_append, getValueFromInterval_singleton]
      cases getValueFromInterval update.reverse dataId with
      | some value => rfl
      | none =>
          by_cases hspans : entry.Spans dataId dataId
          · simp [hspans]
          · simp [hspans]

/-- The interval of block 0 is not changed once there is one. -/
theorem setInterval_zero {old : V} {intervals : List (IntervalEntry V)}
    (h : getValueFromInterval intervals 0 = some old) (value : V) :
    setInterval intervals value 0 0 = intervals := by
  rw [setInterval_eq (Int.le_refl 0)]
  split
  next hsplit =>
    obtain ⟨entry, hfind, -⟩ := Option.map_eq_some_iff.mp h
    have hspans : entry.Spans 0 0 := by simpa using List.find?_some hfind
    exact absurd hspans (splitSpanning_eq_none hsplit entry (List.mem_of_find?_eq_some hfind))
  next => rw [if_pos ⟨rfl, rfl⟩]

/-- A value stays if the block is in none of the intervals, or is block 0 with its own intervals. -/
theorem valueFor_merge_of_zero (h : MergeAssignable remote update)
    (hvalue : valueFor remote dataId = value) (hne : value ≠ -1)
    (hzero : ∀ entry ∈ update, entry.Spans dataId dataId → entry.left = 0 ∧ entry.right = 0) :
    valueFor (mergeIntervals remote update) dataId = value := by
  induction update generalizing remote with
  | nil => exact hvalue
  | cons entry update ih =>
      rw [List.forall_mem_cons] at hzero
      rw [mergeIntervals_cons]
      refine ih (h.2 _ rfl) ?_ hzero.2
      by_cases hspans : entry.Spans dataId dataId
      · obtain ⟨hleft, hright⟩ := hzero.1 hspans
        obtain rfl : dataId = 0 := by
          rw [IntervalEntry.Spans, hleft, hright] at hspans
          exact Int.le_antisymm hspans.2 hspans.1
        obtain ⟨old, hold⟩ : ∃ old, getValueFromInterval remote 0 = some old := by
          cases hget : getValueFromInterval remote 0 with
          | some old => exact ⟨old, rfl⟩
          | none =>
              rw [valueFor, hget] at hvalue
              exact absurd hvalue.symm hne
        rw [hleft, hright, setInterval_zero hold, hvalue]
      · rw [valueFor_setInterval h.1, if_neg hspans, hvalue]

/-- The client that wrote a block decides its value, whatever arrives before and after. -/
theorem valueFor_merge_of_mem (h : MergeAssignable remote updates.flatten)
    (hapart : updates.Pairwise Apart) (hupdate : update ∈ updates)
    (hvalue : getValueFromInterval update.reverse dataId = some value) (hne : value ≠ -1) :
    valueFor (mergeIntervals remote updates.flatten) dataId = value := by
  obtain ⟨before, after, rfl⟩ := List.append_of_mem hupdate
  rw [List.flatten_append, List.flatten_cons, ← List.append_assoc] at h ⊢
  obtain ⟨hfront, hafter⟩ := h.append
  rw [mergeIntervals_append]
  refine valueFor_merge_of_zero hafter ?_ hne ?_
  · rw [valueFor_mergeIntervals hfront, List.reverse_append, getValueFromInterval_append, hvalue]
    rfl
  · intro entry' hentry' hspans'
    obtain ⟨update', hupdate', hmem'⟩ := List.mem_flatten.mp hentry'
    obtain ⟨entry, hfind, -⟩ := Option.map_eq_some_iff.mp hvalue
    have hspans : entry.Spans dataId dataId := by simpa using List.find?_some hfind
    have hmem : entry ∈ update := List.mem_reverse.mp (List.mem_of_find?_eq_some hfind)
    have htwo : Apart update update' :=
      (List.pairwise_cons.mp (List.pairwise_append.mp hapart).2.1).1 update' hupdate'
    rcases htwo entry hmem entry' hmem' with hdisjoint | ⟨-, hzero'⟩
    · exact absurd hspans' (hdisjoint dataId hspans)
    · exact hzero'

/-- A value that the updates give to a block comes from one of them. -/
theorem exists_update_of_flatten
    (h : getValueFromInterval updates.flatten.reverse dataId = some value) :
    ∃ update ∈ updates, getValueFromInterval update.reverse dataId = some value := by
  induction updates with
  | nil => cases h
  | cons update updates ih =>
      rw [List.flatten_cons, List.reverse_append, getValueFromInterval_append] at h
      cases hrest : getValueFromInterval updates.flatten.reverse dataId with
      | some value' =>
          rw [hrest, Option.some_or] at h
          rw [Option.some.inj h] at hrest
          obtain ⟨update', hupdate', hvalue⟩ := ih hrest
          exact ⟨update', List.mem_cons_of_mem _ hupdate', hvalue⟩
      | none =>
          rw [hrest, Option.none_or] at h
          exact ⟨update, List.mem_cons_self, h⟩

theorem forall_update_of_flatten (h : getValueFromInterval updates.flatten.reverse dataId = none) :
    ∀ update ∈ updates, getValueFromInterval update.reverse dataId = none := by
  induction updates with
  | nil => simp
  | cons update updates ih =>
      rw [List.flatten_cons, List.reverse_append, getValueFromInterval_append,
        Option.or_eq_none_iff] at h
      rw [List.forall_mem_cons]
      exact ⟨h.2, ih h.1⟩

end Merge

/-- Updates of clients that wrote disjoint ranges, in two orders of arrival. -/
theorem valueFor_merge_perm {remote : List (IntervalEntry Int)}
    {updates updates' : List (List (IntervalEntry Int))} (hperm : updates.Perm updates')
    (hapart : updates.Pairwise Apart) (h : MergeAssignable remote updates.flatten)
    (h' : MergeAssignable remote updates'.flatten) (dataId : Int) :
    valueFor (mergeIntervals remote updates.flatten) dataId =
      valueFor (mergeIntervals remote updates'.flatten) dataId := by
  have hapart' : updates'.Pairwise Apart := hperm.pairwise hapart Apart.symm
  have hfinal := valueFor_mergeIntervals h dataId
  have hfinal' := valueFor_mergeIntervals h' dataId
  cases hlast : getValueFromInterval updates.flatten.reverse dataId with
  | none =>
      have hnone : getValueFromInterval updates'.flatten.reverse dataId = none := by
        cases hlast' : getValueFromInterval updates'.flatten.reverse dataId with
        | none => rfl
        | some value =>
            obtain ⟨update, hmem, hvalue⟩ := exists_update_of_flatten hlast'
            rw [forall_update_of_flatten hlast update (hperm.mem_iff.mpr hmem)] at hvalue
            cases hvalue
      rw [hfinal, hfinal', hlast, hnone]
  | some value =>
      obtain ⟨update, hmem, hvalue⟩ := exists_update_of_flatten hlast
      rw [hlast, Option.getD_some] at hfinal
      by_cases hne : value = -1
      · -- the other order ends with -1 as well: another value would decide this order, too
        cases hlast' : getValueFromInterval updates'.flatten.reverse dataId with
        | none =>
            rw [forall_update_of_flatten hlast' update (hperm.mem_iff.mp hmem)] at hvalue
            cases hvalue
        | some value' =>
            rw [hlast', Option.getD_some] at hfinal'
            obtain ⟨update', hmem', hvalue'⟩ := exists_update_of_flatten hlast'
            by_cases hne' : value' = -1
            · rw [hfinal, hfinal', hne, hne']
            · rw [hfinal']
              exact valueFor_merge_of_mem h hapart (hperm.mem_iff.mpr hmem') hvalue' hne'
      · rw [hfinal, valueFor_merge_of_mem h' hapart' (hperm.mem_iff.mp hmem) hvalue hne]

/-- `SetInterval` gives the blocks of a range their value, and leaves the others alone, exactly for
the tables of `Assignable`. Where all intervals of the updates meet such tables, updates of clients
that wrote disjoint ranges may arrive in any order. -/
theorem intervals_semantics (intervals : List (IntervalEntry Int)) :
    (∀ value left right : Int, left ≤ right →
      (Assigned intervals value left right ↔ Assignable intervals value left right)) ∧
    ∀ updates updates' : List (List (IntervalEntry Int)),
      updates.Perm updates' → updates.Pairwise Apart →
        MergeAssignable intervals updates.flatten → MergeAssignable intervals updates'.flatten →
          ∀ dataId, valueFor (updates.foldl mergeIntervals intervals) dataId =
            valueFor (updates'.foldl mergeIntervals intervals) dataId := by
  refine ⟨fun value left right hle => assigned_iff hle intervals value, ?_⟩
  intro updates updates' hperm hapart h h' dataId
  rw [foldl_mergeIntervals, foldl_mergeIntervals]
  exact valueFor_merge_perm hperm hapart h h' dataId

/-- The update of a client that wrote the blocks from `left` to `right` with `count` servers. -/
def clientUpdate (count left right : Int) : List (IntervalEntry Int) :=
  [⟨count, 0, 0⟩, ⟨count, left, right⟩]

/-- Two clients that wrote one range after the other. -/
theorem apart_clientUpdate {count count' left right left' right' : Int} (hleft : 0 < left)
    (hleft' : 0 < left') (hdisjoint : right < left') :
    Apart (clientUpdate count left right) (clientUpdate count' left' right') := by
  intro entry hentry entry' hentry'
  simp only [clientUpdate, List.mem_cons, List.not_mem_nil, or_false] at hentry hentry'
  rcases hentry with rfl | rfl <;> rcases hentry' with rfl | rfl
  · exact Or.inr ⟨⟨rfl, rfl⟩, rfl, rfl⟩
  all_goals
    left
    intro dataId hspans hspans'
    simp only [IntervalEntry.Spans] at hspans hspans'
    omega

instance (remote update : List (IntervalEntry Int)) : Decidable (MergeAssignable remote update) :=
  Along.decidable update remote

/-- Two clients wrote the blocks 1 to 3 and 4 to 6 with two servers. -/
theorem intervals_semantics_two_clients :
    Assigned [] 2 1 3 ∧
      ∀ dataId, valueFor ([clientUpdate 2 1 3, clientUpdate 2 4 6].foldl mergeIntervals []) dataId =
        valueFor ([clientUpdate 2 4 6, clientUpdate 2 1 3].foldl mergeIntervals []) dataId := by
  refine ⟨((intervals_semantics []).1 2 1 3 (by decide)).mpr (by decide), ?_⟩
  refine (intervals_semantics []).2 _ _ (List.Perm.swap _ _ _) ?_ (by decide +kernel)
    (by decide +kernel)
  rw [List.pairwise_pair]
  exact apart_clientUpdate (by decide) (by decide) (by decide)

/-- The blocks 6 to 10 lose their value when 1 to 5 get a new one. After two updates with disjoint
ranges, the table has the value for block 5 or not, depending on their order. -/
theorem not_intervals_semantics :
    ¬ Assigned [⟨2, 1, 10⟩] 3 1 5 ∧
      [clientUpdate 3 1 3, clientUpdate 4 5 6].Pairwise Apart ∧
      valueFor ([clientUpdate 3 1 3, clientUpdate 4 5 6].foldl mergeIntervals
        (clientUpdate 2 1 10)) 5 = 4 ∧
      valueFor ([clientUpdate 4 5 6, clientUpdate 3 1 3].foldl mergeIntervals
        (clientUpdate 2 1 10)) 5 = -1 := by
  refine ⟨fun hassigned => ?_, ?_, by decide, by decide⟩
  · exact absurd (hassigned 6) (by decide)
  · rw [List.pairwise_pair]
    exact apart_clientUpdate (by decide) (by decide) (by decide)

end Hercules
