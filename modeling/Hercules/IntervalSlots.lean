/-
# Room for the intervals

The intervals of a dataset are in an array of pointers. The first `SetInterval` allocates
`capacity` slots, and a dataset that comes over the network gets as many slots as it has
intervals. `SetInterval` adds an interval behind the others without looking at the number
of slots.

A dataset has a copy on the metadata server and one on each client that knows it. Copies
move both ways, and the server merges the intervals of the clients into its own.
-/

import Mathlib.Logic.Function.Basic
import Hercules.Intervals

namespace Hercules

open Lib

/-- The interval fields of a `dataset_info`: `capacity`, the number of slots of `intervals` (`none`
for a null pointer), and the intervals themselves, of which there are `num_intervals`. -/
structure IntervalArray where
  capacity : Nat
  slots : Option Nat
  entries : List (IntervalEntry Int)

namespace IntervalArray

/-- `MAX_NUM_INTERVALS`. -/
def maxNumIntervals : Nat := 100

/-- The fields as `create_dataset` sets them. -/
def created : IntervalArray :=
  ⟨maxNumIntervals, none, []⟩

/-- `SetInterval` with the allocation of `GetIntervalPointer`. -/
def set (array : IntervalArray) (value left right : Int) : IntervalArray :=
  if right < left then array
  else
    { array with
      slots := some (array.slots.getD array.capacity)
      entries := setInterval array.entries value left right }

/-- `ClearIntervalsStructure`. -/
def clear (array : IntervalArray) : IntervalArray :=
  if array.slots = none ∨ array.entries = [] then array
  else { array with slots := none, entries := [] }

/-- The copy that `recv_dynamic_stream` makes. Without intervals the pointer is that of the
sender. -/
def receive (array : IntervalArray) : IntervalArray :=
  { array with slots := if array.entries = [] then array.slots else some array.entries.length }

/-- The intervals of an update are set one by one. -/
def merge (array : IntervalArray) (update : List (IntervalEntry Int)) : IntervalArray :=
  update.foldl (fun array entry => array.set entry.value entry.left entry.right) array

/-- The intervals have slots. -/
def Fits (array : IntervalArray) : Prop :=
  array.entries.length ≤ array.slots.getD 0

/-- If no interval spans the range there is a free slot for it, or no slot is allocated yet. -/
def Room (array : IntervalArray) (left right : Int) : Prop :=
  left ≤ right → (∀ entry ∈ array.entries, ¬ entry.Spans left right) →
    array.entries.length < array.slots.getD array.capacity

/-- There is room for each interval of an update in turn. -/
def MergeRoom (array : IntervalArray) (update : List (IntervalEntry Int)) : Prop :=
  Along (fun array entry => some (array.set entry.value entry.left entry.right))
    (fun array entry => array.Room entry.left entry.right) update array

/-! ## One array -/

variable {array : IntervalArray} {value left right : Int} {update : List (IntervalEntry Int)}

theorem set_of_le (hle : left ≤ right) :
    array.set value left right =
      { array with
        slots := some (array.slots.getD array.capacity)
        entries := setInterval array.entries value left right } :=
  if_neg (Int.not_lt.mpr hle)

theorem set_of_lt (hlt : right < left) : array.set value left right = array :=
  if_pos hlt

/-- A call adds an interval if no interval spans the range. -/
theorem length_setInterval (hle : left ≤ right) (intervals : List (IntervalEntry Int))
    (value : Int) :
    (setInterval intervals value left right).length = intervals.length ∨
      (setInterval intervals value left right).length = intervals.length + 1 ∧
        ∀ entry ∈ intervals, ¬ entry.Spans left right := by
  rw [setInterval_eq hle]
  split
  next hsplit => exact Or.inr ⟨by simp, splitSpanning_eq_none hsplit⟩
  next hsplit =>
    left
    split
    · rfl
    · rw [(splitSpanning_eq_some hsplit).1]
      simp

theorem length_setInterval_of_forall (hle : left ≤ right) {intervals : List (IntervalEntry Int)}
    (hnone : ∀ entry ∈ intervals, ¬ entry.Spans left right) :
    (setInterval intervals value left right).length = intervals.length + 1 := by
  rw [setInterval_eq hle]
  split
  · simp
  next hsplit =>
    obtain ⟨hparts, hspans⟩ := splitSpanning_eq_some hsplit
    exact absurd hspans (hnone _ (by rw [hparts]; simp))

theorem Fits.set (hfits : array.Fits) (hroom : array.Room left right) :
    (array.set value left right).Fits := by
  by_cases hle : left ≤ right
  · rw [set_of_le hle, Fits, Option.getD_some]
    have hold : array.entries.length ≤ array.slots.getD array.capacity := by
      rw [Fits] at hfits
      cases hslots : array.slots with
      | none =>
          rw [hslots] at hfits
          exact Nat.le_trans hfits (Nat.zero_le _)
      | some n =>
          rw [hslots] at hfits
          exact hfits
    rcases length_setInterval hle array.entries value with hsame | ⟨hmore, hnone⟩
    · rw [hsame]
      exact hold
    · rw [hmore]
      exact hroom hle hnone
  · rwa [set_of_lt (Int.not_le.mp hle)]

/-- More intervals than slots. -/
def Overfull (array : IntervalArray) : Prop :=
  ∃ n, array.slots = some n ∧ n < array.entries.length

theorem Overfull.not_fits (hover : array.Overfull) : ¬ array.Fits := by
  obtain ⟨n, hslots, hlt⟩ := hover
  rw [Fits, hslots]
  exact Nat.not_le.mpr hlt

theorem overfull_set (hroom : ¬ array.Room left right) :
    (array.set value left right).Overfull := by
  simp only [Room, Classical.not_imp, Nat.not_lt] at hroom
  obtain ⟨hle, hnone, hfull⟩ := hroom
  rw [set_of_le hle]
  refine ⟨_, rfl, ?_⟩
  rw [length_setInterval_of_forall hle hnone]
  omega

/-- No call takes intervals away or allocates slots anew. -/
theorem Overfull.set (hover : array.Overfull) : (array.set value left right).Overfull := by
  obtain ⟨n, hslots, hlt⟩ := hover
  by_cases hle : left ≤ right
  · refine ⟨n, ?_, ?_⟩
    · rw [set_of_le hle, hslots]
      rfl
    · rw [set_of_le hle]
      rcases length_setInterval hle array.entries value with hsame | ⟨hmore, -⟩
      · rwa [hsame]
      · rw [hmore]
        omega
  · rw [set_of_lt (Int.not_le.mp hle)]
    exact ⟨n, hslots, hlt⟩

theorem Overfull.merge (hover : array.Overfull) (update : List (IntervalEntry Int)) :
    (array.merge update).Overfull := by
  induction update generalizing array with
  | nil => exact hover
  | cons entry update ih => exact ih hover.set

theorem fits_set_iff (hfits : array.Fits) :
    (array.set value left right).Fits ↔ array.Room left right := by
  constructor
  · intro hset
    by_contra hroom
    exact (overfull_set hroom).not_fits hset
  · exact hfits.set

theorem fits_merge_iff (hfits : array.Fits) (update : List (IntervalEntry Int)) :
    (array.merge update).Fits ↔ array.MergeRoom update := by
  induction update generalizing array with
  | nil => exact iff_of_true hfits trivial
  | cons entry update ih =>
      constructor
      · intro hmerge
        have hroom : array.Room entry.left entry.right := by
          by_contra hroom
          exact ((overfull_set hroom).merge update).not_fits hmerge
        refine ⟨hroom, fun next hnext => ?_⟩
        cases hnext
        exact (ih (hfits.set hroom)).mp hmerge
      · intro hroom
        exact (ih (hfits.set hroom.1)).mpr (hroom.2 _ rfl)

theorem fits_created : created.Fits :=
  Nat.le_refl 0

theorem Fits.clear (hfits : array.Fits) : array.clear.Fits := by
  rw [IntervalArray.clear]
  split
  · exact hfits
  · exact Nat.zero_le _

/-- A received array has just enough slots. -/
theorem fits_receive (array : IntervalArray) : array.receive.Fits := by
  rw [receive, Fits]
  dsimp only
  split
  next hnil =>
    rw [hnil]
    exact Nat.zero_le _
  next => exact Nat.le_refl _

end IntervalArray

/-! ## The copies of a dataset -/

/-- The copies of one dataset on the clients and on the metadata server. -/
structure IntervalCopies (ι : Type) where
  client : ι → Option IntervalArray
  server : Option IntervalArray

/-- What happens to the copies: a client creates the dataset, sends its copy with a `SET` request,
takes over that of the server, sets or clears intervals, or drops its copy; the server clears the
intervals of a dirty dataset, or drops its copy. -/
inductive IntervalAction (ι : Type)
  | createDataset (c : ι)
  | send (c : ι)
  | fetch (c : ι)
  | setInterval (c : ι) (value left right : Int)
  | clear (c : ι)
  | release (c : ι)
  | recover
  | remove

namespace IntervalCopies

variable {ι : Type}

/-- No copies. -/
def init : IntervalCopies ι :=
  ⟨fun _ => none, none⟩

/-- The copy on the server after a `SET` request: the first one is kept, later ones are merged. -/
def serve (server : Option IntervalArray) (sent : IntervalArray) : IntervalArray :=
  match server with
  | none => sent.receive
  | some array => array.merge sent.receive.entries

/-- All copies have slots for their intervals. -/
structure Fits (s : IntervalCopies ι) : Prop where
  client : ∀ c array, s.client c = some array → array.Fits
  server : ∀ array, s.server = some array → array.Fits

/-- There is room for the intervals that the action sets. -/
def Room (s : IntervalCopies ι) : IntervalAction ι → Prop
  | .setInterval c _ left right => ∀ array, s.client c = some array → array.Room left right
  | .send c => ∀ sent array, s.client c = some sent → s.server = some array →
      array.MergeRoom sent.entries
  | _ => True

variable {s : IntervalCopies ι} {c : ι}

theorem fits_server {copy : Option IntervalArray} (hfits : s.Fits) :
    Fits { s with server := copy } ↔ ∀ array, copy = some array → array.Fits :=
  ⟨fun hnew => hnew.server, fun hcopy => ⟨hfits.client, hcopy⟩⟩

/-- The copy on the server fits after a `SET` request if there is room for what it merges. -/
theorem fits_serve_iff (hfits : s.Fits) {sent : IntervalArray} :
    (serve s.server sent).Fits ↔
      ∀ array, s.server = some array → array.MergeRoom sent.entries := by
  cases harray : s.server with
  | none => exact iff_of_true (IntervalArray.fits_receive sent) (by simp)
  | some array =>
      simp only [Option.some.injEq, forall_eq']
      exact IntervalArray.fits_merge_iff (hfits.server array harray) sent.entries

theorem fits_init : (init : IntervalCopies ι).Fits := by
  refine ⟨?_, ?_⟩
  · intro c array harray
    cases harray
  · intro array harray
    cases harray

variable [DecidableEq ι]

/-- One action. -/
def step (s : IntervalCopies ι) : IntervalAction ι → Option (IntervalCopies ι)
  | .createDataset c => some { s with client := Function.update s.client c (some .created) }
  | .send c => some { s with server := ((s.client c).map (serve s.server)).or s.server }
  | .fetch c =>
      some { s with client := Function.update s.client c (s.server.map IntervalArray.receive) }
  | .setInterval c value left right =>
      some { s with
        client := Function.update s.client c
          ((s.client c).map fun array => array.set value left right) }
  | .clear c =>
      some { s with client := Function.update s.client c ((s.client c).map IntervalArray.clear) }
  | .release c => some { s with client := Function.update s.client c none }
  | .recover => some { s with server := s.server.map IntervalArray.clear }
  | .remove => some { s with server := none }

theorem fits_update {copy : Option IntervalArray} (hfits : s.Fits) :
    Fits { s with client := Function.update s.client c copy } ↔
      ∀ array, copy = some array → array.Fits := by
  constructor
  · intro hnew array harray
    refine hnew.client c array ?_
    dsimp only
    rw [Function.update_self, harray]
  · intro hcopy
    refine ⟨fun c' array harray => ?_, hfits.server⟩
    dsimp only at harray
    rcases eq_or_ne c' c with rfl | hne
    · rw [Function.update_self] at harray
      exact hcopy array harray
    · rw [Function.update_of_ne hne] at harray
      exact hfits.client c' array harray

/-- From copies that fit, an action leads to copies that fit exactly if there is room. -/
theorem fits_step_iff (hfits : s.Fits) (action : IntervalAction ι) :
    (∀ s', s.step action = some s' → s'.Fits) ↔ s.Room action := by
  cases action with
  | createDataset c =>
      refine iff_of_true (fun s' hstep => ?_) trivial
      cases hstep
      refine (fits_update hfits).mpr fun array harray => ?_
      cases harray
      exact IntervalArray.fits_created
  | send c =>
      simp only [step, Option.some.injEq, forall_eq']
      rw [fits_server hfits]
      cases hsent : s.client c with
      | none => exact iff_of_true hfits.server (by simp [Room, hsent])
      | some sent =>
          simp only [Option.map_some, Option.some_or, Option.some.injEq, forall_eq']
          rw [fits_serve_iff hfits]
          constructor
          · intro hroom sent' array hsent' harray
            rw [hsent] at hsent'
            cases hsent'
            exact hroom array harray
          · intro hroom array harray
            exact hroom sent array hsent harray
  | fetch c =>
      refine iff_of_true (fun s' hstep => ?_) trivial
      cases hstep
      refine (fits_update hfits).mpr fun array harray => ?_
      obtain ⟨sent, -, rfl⟩ := Option.map_eq_some_iff.mp harray
      exact IntervalArray.fits_receive sent
  | setInterval c value left right =>
      simp only [step, Option.some.injEq, forall_eq']
      rw [fits_update hfits, Room]
      cases harray : s.client c with
      | none => exact iff_of_true (by simp) (by simp)
      | some array =>
          simp only [Option.map_some, Option.some.injEq, forall_eq']
          exact IntervalArray.fits_set_iff (hfits.client c array harray)
  | clear c =>
      refine iff_of_true (fun s' hstep => ?_) trivial
      cases hstep
      refine (fits_update hfits).mpr fun array harray => ?_
      obtain ⟨old, hold, rfl⟩ := Option.map_eq_some_iff.mp harray
      exact (hfits.client c old hold).clear
  | release c =>
      refine iff_of_true (fun s' hstep => ?_) trivial
      cases hstep
      refine (fits_update hfits).mpr fun array harray => ?_
      cases harray
  | recover =>
      refine iff_of_true (fun s' hstep => ?_) trivial
      cases hstep
      refine (fits_server hfits).mpr fun array harray => ?_
      obtain ⟨old, hold, rfl⟩ := Option.map_eq_some_iff.mp harray
      exact (hfits.server old hold).clear
  | remove =>
      refine iff_of_true (fun s' hstep => ?_) trivial
      cases hstep
      refine (fits_server hfits).mpr fun array harray => ?_
      cases harray

end IntervalCopies

/-- Over every run, all copies always have slots for their intervals if and only if there is room
for each interval that is added. -/
theorem intervals_fit_iff {ι : Type} [DecidableEq ι] (actions : List (IntervalAction ι)) :
    Along IntervalCopies.step (fun s action => ∀ s', s.step action = some s' → s'.Fits) actions
        IntervalCopies.init ↔
      Along IntervalCopies.step IntervalCopies.Room actions IntervalCopies.init :=
  Along.iff_of_invariant (fun _ action hfits => IntervalCopies.fits_step_iff hfits action)
    (fun _ _ s' _ hnext hstep => hnext s' hstep) IntervalCopies.fits_init

/-- A client creates the dataset. Then it writes one more block each time, updates the dataset on
the server, and calls `open` with `O_CREAT` again, which clears its own intervals. -/
def growingIntervals (rounds : Nat) : List (IntervalAction Unit) :=
  [.createDataset (), .send ()] ++ (List.range rounds).flatMap fun round =>
    [.setInterval () 2 0 0, .setInterval () 2 1 (round + 1), .send (), .clear ()]

/-- After 100 rounds the server has 101 intervals and 100 slots. -/
theorem not_intervals_fit :
    ∃ s array, run IntervalCopies.step (growingIntervals 100) IntervalCopies.init = some s ∧
      s.server = some array ∧ array.slots = some 100 ∧ array.entries.length = 101 ∧ ¬ s.Fits := by
  have hcounts : ((run IntervalCopies.step (growingIntervals 100) IntervalCopies.init).bind
      fun s => s.server.map fun array => (array.slots, array.entries.length)) =
        some (some 100, 101) := by
    decide +kernel
  obtain ⟨s, hrun, hserver⟩ := Option.bind_eq_some_iff.mp hcounts
  obtain ⟨array, harray, hpair⟩ := Option.map_eq_some_iff.mp hserver
  obtain ⟨hslots, hlength⟩ := Prod.mk.inj hpair
  refine ⟨s, array, hrun, harray, hslots, hlength, fun hfits => ?_⟩
  have hle := hfits.server array harray
  rw [IntervalArray.Fits, hslots, hlength] at hle
  exact absurd hle (by decide)

end Hercules
