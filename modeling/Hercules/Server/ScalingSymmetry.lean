/-
# The scaling decision and the names of the hosts

`make_scaling_decision` looks at a window of the reports: for each position in it the
records of all hosts are added, and the mean of these sums is compared with a threshold.
The sums do not depend on how the hosts are called. The window, however, ends at the last
record of the host whose name comes first, and hosts may have different numbers of records.

Here the records are exact rational numbers.
-/

import Mathlib.Algebra.BigOperators.Group.List.Basic
import Mathlib.Algebra.Order.Field.Basic
import Mathlib.Algebra.Order.Field.Rat
import Hercules.Lib.Rekey
import Hercules.Server.Commissioning

namespace Hercules.Scaling

open Std Lib

/-- The records of the hosts. -/
abbrev History := ExtTreeMap CString (List ℚ)

/-- The sum of the records at a position, over the hosts that have one there. -/
def pointTotal (history : History) (i : Nat) : ℚ :=
  (history.toList.filterMap fun entry => entry.2[i]?).sum

/-- The sum of the records at the `window` positions before `last`. -/
def windowTotal (history : History) (window last : Nat) : ℚ :=
  ((List.range' (last - window) window).map (pointTotal history)).sum

/-- There are enough records before `last`, and their sum is below what the threshold asks for in
a window. -/
def SlowAt (history : History) (window : Nat) (threshold : ℚ) (last : Nat) : Prop :=
  window ≤ last ∧ windowTotal history window last < threshold * window

instance (history : History) (window : Nat) (threshold : ℚ) (last : Nat) :
    Decidable (SlowAt history window threshold last) :=
  inferInstanceAs (Decidable (_ ∧ _))

variable {history : History} {host : CString} {records : List ℚ}

/-- Where one host has records, each position has a sum. -/
theorem aggregatePerformance_eq (hmem : (host, records) ∈ history.toList) {first size : Nat}
    (hfits : first + size ≤ records.length) :
    aggregatePerformance history first size =
      (List.range' first size).map (pointTotal history) := by
  rw [aggregatePerformance, List.filterMap_eq_map_iff_forall_eq_some]
  intro i hi
  have hlt : i < records.length := by
    have hupper := (List.mem_range'_1.mp hi).2
    omega
  have hvalue : records[i] ∈ history.toList.filterMap fun entry => entry.2[i]? :=
    List.mem_filterMap.mpr ⟨_, hmem, List.getElem?_eq_getElem hlt⟩
  rw [pointTotal]
  split
  next hnil =>
    rw [hnil] at hvalue
    cases hvalue
  next => rw [List.sum_eq_foldl]

/-- The window ends at the last record of the first host. -/
theorem makeScalingDecision_of_toList {rest : List (CString × List ℚ)}
    (hlist : history.toList = (host, records) :: rest) {window : Int} (hpos : 1 ≤ window)
    (hfits : window < 2 ^ 31) (threshold : ℚ) :
    makeScalingDecision history window threshold =
      decide (SlowAt history window.toNat threshold records.length) := by
  have hwindow : (UInt64.ofInt window).toNat = window.toNat := by
    rw [UInt64.ofInt, UInt64.toNat_ofNat']
    omega
  have hmem : (host, records) ∈ history.toList := by
    rw [hlist]
    exact List.mem_cons_self
  rw [makeScalingDecision, hlist]
  dsimp only
  rw [hwindow]
  by_cases hfew : records.length < window.toNat
  · rw [if_pos hfew]
    exact (decide_eq_false fun hslow => Nat.not_le.mpr hfew hslow.1).symm
  · have hle := Nat.le_of_not_lt hfew
    rw [if_neg hfew, aggregatePerformance_eq hmem (by omega), if_neg]
    · have hcount : (0 : ℚ) < (window.toNat : ℚ) := by
        exact_mod_cast (by omega : 0 < window.toNat)
      rw [decide_eq_decide, ← List.sum_eq_foldl, List.length_map, List.length_range',
        div_lt_iff₀ hcount]
      exact (and_iff_right hle).symm
    · intro hnil
      have hlength := congrArg List.length hnil
      rw [List.length_map, List.length_range', List.length_nil] at hlength
      omega

/-! ## Renaming -/

/-- The renaming is one-to-one on the hosts of a history. -/
def OneToOne (history : History) (f : CString → CString) : Prop :=
  ∀ x ∈ history, ∀ y ∈ history, f x = f y → x = y

variable {f : CString → CString}

theorem pointTotal_renameKeys (hf : OneToOne history f) (i : Nat) :
    pointTotal (renameKeys history f) i = pointTotal history i := by
  rw [pointTotal, ((toList_renameKeys hf).filterMap _).sum_eq, List.filterMap_map]
  rfl

theorem slowAt_renameKeys (hf : OneToOne history f) (window : Nat) (threshold : ℚ) (last : Nat) :
    SlowAt (renameKeys history f) window threshold last ↔
      SlowAt history window threshold last := by
  have htotal : pointTotal (renameKeys history f) = pointTotal history := by
    funext i
    exact pointTotal_renameKeys hf i
  rw [SlowAt, SlowAt, windowTotal, windowTotal, htotal]

/-- The host whose new name comes first decides. -/
theorem exists_makeScalingDecision_renameKeys (hf : OneToOne history f) (hhost : host ∈ history)
    {window : Int} (hpos : 1 ≤ window) (hfits : window < 2 ^ 31) (threshold : ℚ) :
    ∃ first records, history[first]? = some records ∧
      makeScalingDecision (renameKeys history f) window threshold =
        decide (SlowAt history window.toNat threshold records.length) ∧
      ∀ other ∈ history, other = first ∨ compare (f first) (f other) = .lt := by
  have hperm := toList_renameKeys hf
  have hentry : ∀ {other}, other ∈ history → ∃ records, history[other]? = some records ∧
      (f other, records) ∈ (renameKeys history f).toList := by
    intro other hother
    obtain ⟨records, hrecords⟩ := Option.isSome_iff_exists.mp
      (ExtTreeMap.isSome_getElem?_iff_mem.mpr hother)
    refine ⟨records, hrecords, hperm.mem_iff.mpr (List.mem_map.mpr ⟨(other, records), ?_, rfl⟩)⟩
    exact ExtTreeMap.mem_toList_iff_getElem?_eq_some.mpr hrecords
  obtain ⟨_, _, hsome⟩ := hentry hhost
  obtain ⟨head, rest, hlist⟩ := List.exists_cons_of_ne_nil (List.ne_nil_of_mem hsome)
  have hhead : head ∈ history.toList.map fun entry => (f entry.1, entry.2) := by
    rw [← hperm.mem_iff, hlist]
    exact List.mem_cons_self
  obtain ⟨⟨first, records⟩, hfirst, rfl⟩ := List.mem_map.mp hhead
  have hrecords := ExtTreeMap.mem_toList_iff_getElem?_eq_some.mp hfirst
  refine ⟨first, records, hrecords, ?_, ?_⟩
  · rw [makeScalingDecision_of_toList hlist hpos hfits, decide_eq_decide]
    exact slowAt_renameKeys hf _ _ _
  · intro other hother
    obtain ⟨others, hothers, hmem⟩ := hentry hother
    have hordered := ExtTreeMap.ordered_keys_toList (t := renameKeys history f)
    rw [hlist, List.pairwise_cons] at hordered
    rw [hlist, List.mem_cons] at hmem
    rcases hmem with hsame | hrest
    · refine Or.inl (hf other hother first ?_ (Prod.mk.inj hsame).1)
      rw [← ExtTreeMap.isSome_getElem?_iff_mem, hrecords]
      rfl
    · exact Or.inr (hordered.1 _ hrest)

/-- A renaming that puts one host before the others. -/
def putFirst (host : CString) (other : CString) : CString :=
  if other = host then 'a' :: other else 'b' :: other

theorem oneToOne_putFirst (history : History) (host : CString) :
    OneToOne history (putFirst host) := by
  intro x _ y _ heq
  rw [putFirst, putFirst] at heq
  split at heq <;> split at heq <;> simp_all

theorem compare_putFirst {other : CString} (hne : other ≠ host) :
    compare (putFirst host other) (putFirst host host) = .gt := by
  rw [putFirst, putFirst, if_neg hne, if_pos rfl]
  rfl

theorem makeScalingDecision_putFirst (hrecords : history[host]? = some records) {window : Int}
    (hpos : 1 ≤ window) (hfits : window < 2 ^ 31) (threshold : ℚ) :
    makeScalingDecision (renameKeys history (putFirst host)) window threshold =
      decide (SlowAt history window.toNat threshold records.length) := by
  have hhost : host ∈ history := by
    rw [← ExtTreeMap.isSome_getElem?_iff_mem, hrecords]
    rfl
  obtain ⟨first, records', hfirst, hdecision, hleast⟩ := exists_makeScalingDecision_renameKeys
    (oneToOne_putFirst history host) hhost hpos hfits threshold
  rcases hleast host hhost with rfl | hlt
  · rw [hdecision, Option.some.inj (hrecords.symm.trans hfirst)]
  · by_cases hsame : first = host
    · subst hsame
      rw [hdecision, Option.some.inj (hrecords.symm.trans hfirst)]
    · rw [compare_putFirst hsame] at hlt
      cases hlt

/-- The decision depends on the names of the hosts unless the windows that end at the last records
of the hosts are all slow, or none of them is. -/
theorem makeScalingDecision_symmetric_iff (history : History) {window : Int} (hpos : 1 ≤ window)
    (hfits : window < 2 ^ 31) (threshold : ℚ) :
    (∀ f, OneToOne history f →
        makeScalingDecision (renameKeys history f) window threshold =
          makeScalingDecision history window threshold) ↔
      ∀ (host host' : CString) (records records' : List ℚ), history[host]? = some records →
        history[host']? = some records' →
        (SlowAt history window.toNat threshold records.length ↔
          SlowAt history window.toNat threshold records'.length) := by
  constructor
  · intro hsame host host' records records' hrecords hrecords'
    rw [← decide_eq_decide, ← makeScalingDecision_putFirst hrecords hpos hfits,
      ← makeScalingDecision_putFirst hrecords' hpos hfits,
      hsame _ (oneToOne_putFirst history host), hsame _ (oneToOne_putFirst history host')]
  · intro halike f hf
    by_cases hhost : ∃ host, host ∈ history
    · obtain ⟨host, hhost⟩ := hhost
      obtain ⟨first, records, hrecords, hdecision, -⟩ :=
        exists_makeScalingDecision_renameKeys hf hhost hpos hfits threshold
      have hid : OneToOne history id := fun x _ y _ heq => heq
      obtain ⟨first', records', hrecords', hdecision', -⟩ :=
        exists_makeScalingDecision_renameKeys hid hhost hpos hfits threshold
      rw [renameKeys_id] at hdecision'
      rw [hdecision, hdecision', decide_eq_decide]
      exact halike first first' records records' hrecords hrecords'
    · have hempty : history = ∅ := by
        rw [ExtTreeMap.eq_empty_iff_forall_not_mem]
        exact not_exists.mp hhost
      rw [hempty]
      rfl

/-- Two hosts with two records each. -/
def evenHistory : History :=
  ExtTreeMap.ofList [(['a'], ([1, 1] : List ℚ)), (['b'], [3, 4])]

theorem makeScalingDecision_evenHistory :
    (1 : Int) ≤ 2 ∧ ∀ f, OneToOne evenHistory f →
      makeScalingDecision (renameKeys evenHistory f) 2 10 =
        makeScalingDecision evenHistory 2 10 := by
  refine ⟨by decide, ?_⟩
  refine (makeScalingDecision_symmetric_iff evenHistory (by decide) (by decide) 10).mpr ?_
  have hlength : ∀ entry ∈ evenHistory.toList, entry.2.length = 2 := by
    decide +kernel
  intro host host' records records' hrecords hrecords'
  rw [hlength _ (ExtTreeMap.mem_toList_iff_getElem?_eq_some.mpr hrecords),
    hlength _ (ExtTreeMap.mem_toList_iff_getElem?_eq_some.mpr hrecords')]

/-- Two hosts, the second with one record less. -/
def unevenHistory : History :=
  ExtTreeMap.ofList [(['a'], ([1, 1] : List ℚ)), (['b'], [1])]

/-- With the second host put first there are too few records for a decision. -/
theorem not_makeScalingDecision_symmetric :
    OneToOne unevenHistory (putFirst ['b']) ∧
      makeScalingDecision unevenHistory 2 10 = true ∧
      makeScalingDecision (renameKeys unevenHistory (putFirst ['b'])) 2 10 = false := by
  refine ⟨oneToOne_putFirst unevenHistory ['b'], by decide +kernel, by decide +kernel⟩

end Hercules.Scaling
