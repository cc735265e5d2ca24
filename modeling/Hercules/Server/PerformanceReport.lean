/-
# Performance reports

When a client closes a dataset it reports how fast it has read from and written to each
data server. The report is a byte stream: the number of entries, and for each the length
of the host's name, the name, the server's id and two `double`s. The metadata server reads
the stream and appends a record for each entry to the history of the host.

A cell of the stream is a byte of an integer, a character or one of the eight parts of a
`double`. The values of a `double` are exact rational numbers here, and a `double` is read
only from its own eight parts in order. A quotient by zero, which no entry ought to lead
to, is zero.
-/

import Mathlib.Algebra.BigOperators.Group.List.Basic
import Mathlib.Algebra.Order.Field.Basic
import Mathlib.Algebra.Order.Field.Rat
import Hercules.Lib.Stream
import Hercules.Server.Commissioning

namespace Hercules

open Lib Lib.Reader

/-! ## The stream -/

/-- A cell of the stream. -/
inductive Cell
  | byte (value : UInt8)
  | char (value : Char)
  | part (value : ℚ) (index : Nat)
  deriving DecidableEq

namespace Cell

def byte? : Cell → Option UInt8
  | .byte value => some value
  | _ => none

def char? : Cell → Option Char
  | .char value => some value
  | _ => none

/-- A `size_t`. -/
def ofSize (n : Nat) : List Cell :=
  (Memory.natBytes 8 n).map .byte

/-- An `int`. -/
def ofInt (n : Int32) : List Cell :=
  (Memory.natBytes 4 n.toUInt32.toNat).map .byte

/-- A `double`. -/
def ofDouble (x : ℚ) : List Cell :=
  (List.range 8).map (.part x)

/-- The characters of a string. -/
def ofText (text : CString) : List Cell :=
  text.map .char

def readSize : Reader Cell Nat :=
  readWith 8 fun cells => (cells.mapM byte?).map ofBytes

def readInt : Reader Cell Int32 :=
  readWith 4 fun cells => (cells.mapM byte?).map fun bytes => (UInt32.ofNat (ofBytes bytes)).toInt32

def readDouble : Reader Cell ℚ :=
  readWith 8 fun cells =>
    match cells with
    | .part x _ :: _ => if cells = ofDouble x then some x else none
    | _ => none

def readText (length : Nat) : Reader Cell CString :=
  readWith length fun cells => cells.mapM char?

/-- What each cell was made from is read back. -/
theorem mapM_map {β : Type} (write : β → Cell) (read : Cell → Option β)
    (hread : ∀ x, read (write x) = some x) (xs : List β) :
    (xs.map write).mapM read = some xs := by
  induction xs with
  | nil => rfl
  | cons x xs ih => simp [List.mapM_cons, hread, ih]

theorem reads_size {n : Nat} (hfits : n < 2 ^ 64) : Reads readSize (ofSize n) n := by
  refine reads_readWith (by simp [ofSize]) ?_
  rw [ofSize, mapM_map Cell.byte byte? fun _ => rfl, Option.map_some, ofBytes_natBytes,
    Nat.mod_eq_of_lt (by omega)]

theorem reads_int (n : Int32) : Reads readInt (ofInt n) n := by
  refine reads_readWith (by simp [ofInt]) ?_
  have hlt := n.toUInt32.toNat_lt
  rw [ofInt, mapM_map Cell.byte byte? fun _ => rfl, Option.map_some, ofBytes_natBytes,
    Nat.mod_eq_of_lt (by omega), UInt32.ofNat_toNat, Int32.toInt32_toUInt32]

theorem reads_double (x : ℚ) : Reads readDouble (ofDouble x) x := by
  refine reads_readWith (by simp [ofDouble]) ?_
  exact if_pos rfl

theorem reads_text (text : CString) : Reads (readText text.length) (ofText text) text := by
  refine reads_readWith (by simp [ofText]) ?_
  exact mapM_map Cell.char char? (fun _ => rfl) text

end Cell

/-! ## The report of a client -/

/-- `ServerMetrics`, as far as the report depends on it. -/
structure ServerMetrics where
  totalDataTime : ℚ
  totalDataSize : Int

/-- `IOServerMetrics`. -/
structure IOServerMetrics where
  serverId : Int32
  write : ServerMetrics
  read : ServerMetrics

/-- `double_are_equal`. -/
def doubleAreEqual (a b : ℚ) : Bool :=
  decide (|a - b| < 1 / 10 ^ 9)

/-- The performance that is reported: the quotient, or 0 if no more than `MB` bytes were moved. -/
def ServerMetrics.performance (metrics : ServerMetrics) : ℚ :=
  if 0 < metrics.totalDataTime ∧ doubleAreEqual metrics.totalDataSize 0 = false ∧
      1048576 < metrics.totalDataSize then
    metrics.totalDataSize / metrics.totalDataTime
  else 0

/-- An entry of `backend_performance_metrics`: a host and its metrics. -/
abbrev ReportEntry := CString × IOServerMetrics

namespace ReportEntry

variable (entry : ReportEntry)

def writePerformance : ℚ :=
  entry.2.write.performance

def readPerformance : ℚ :=
  entry.2.read.performance

/-- The cells of an entry. -/
def cells : List Cell :=
  Cell.ofSize entry.1.length ++ (Cell.ofText entry.1 ++ (Cell.ofInt entry.2.serverId ++
    (Cell.ofDouble (writePerformance entry) ++ Cell.ofDouble (readPerformance entry))))

end ReportEntry

/-- The metrics that a client reports. A `size_t` counts the entries and the characters of a
name. -/
structure Report where
  entries : List ReportEntry
  length_lt : entries.length < 2 ^ 64
  host_lt : ∀ entry ∈ entries, entry.1.length < 2 ^ 64

/-- The stream that `close_dataset` sends. -/
def Report.cells (report : Report) : List Cell :=
  Cell.ofSize report.entries.length ++ report.entries.flatMap ReportEntry.cells

/-! ## The metadata server -/

/-- `ElasticityMetric`, with the fields that are set. -/
structure ElasticityRecord where
  serverId : Int32
  serverHostname : CString
  writePerformance : ℚ
  readPerformance : ℚ
  overallPerformance : ℚ
  deriving DecidableEq

/-- The number of values of an entry that the server takes for non-zero. -/
def recordedValues (readPerformance writePerformance : ℚ) : Nat :=
  (if doubleAreEqual readPerformance 0 then 0 else 1) +
    if doubleAreEqual writePerformance 0 then 0 else 1

/-- The loop of `Malleability` over the entries, with the records that it appends. `metric_recorded`
goes on from entry to entry, and an entry is skipped if `num_entries` is zero. -/
def receiveRecords (numEntries : Nat) : Nat → Nat → Reader Cell (List ElasticityRecord)
  | 0, _ => pure []
  | n + 1, metricRecorded => do
      let keyLength ← Cell.readSize
      let key ← Cell.readText keyLength
      let serverId ← Cell.readInt
      let writePerformance ← Cell.readDouble
      let readPerformance ← Cell.readDouble
      let metricRecorded := metricRecorded + recordedValues readPerformance writePerformance
      if numEntries = 0 then receiveRecords numEntries n metricRecorded
      else do
        let overallPerformance := (readPerformance + writePerformance) / metricRecorded
        let records ← receiveRecords numEntries n metricRecorded
        pure (⟨serverId, key, writePerformance, readPerformance, overallPerformance⟩ :: records)

/-- What `Malleability` appends to the history for a report. -/
def malleability : Reader Cell (List ElasticityRecord) := do
  let numEntries ← Cell.readSize
  receiveRecords numEntries numEntries 0

/-! ## What is read -/

namespace ReportEntry

/-- The record of an entry. -/
def record (entry : ReportEntry) (overallPerformance : ℚ) : ElasticityRecord :=
  ⟨entry.2.serverId, entry.1, writePerformance entry, readPerformance entry, overallPerformance⟩

/-- The number of values that the server takes for non-zero. -/
def recorded (entry : ReportEntry) : Nat :=
  recordedValues (readPerformance entry) (writePerformance entry)

end ReportEntry

/-- The records of the entries, from a value of the counter on. -/
def recordsFrom : Nat → List ReportEntry → List ElasticityRecord
  | _, [] => []
  | metricRecorded, entry :: entries =>
      let metricRecorded := metricRecorded + entry.recorded
      entry.record ((entry.readPerformance + entry.writePerformance) / metricRecorded) ::
        recordsFrom metricRecorded entries

theorem reads_records {numEntries : Nat} (hpos : numEntries ≠ 0) {entries : List ReportEntry}
    (hhosts : ∀ entry ∈ entries, entry.1.length < 2 ^ 64) (metricRecorded : Nat) :
    Reads (receiveRecords numEntries entries.length metricRecorded)
      (entries.flatMap ReportEntry.cells) (recordsFrom metricRecorded entries) := by
  induction entries generalizing metricRecorded with
  | nil => exact reads_pure []
  | cons entry entries ih =>
      rw [List.forall_mem_cons] at hhosts
      rw [List.flatMap_cons, ReportEntry.cells]
      simp only [List.append_assoc]
      refine (Cell.reads_size hhosts.1).bind ?_
      refine (Cell.reads_text entry.1).bind ?_
      refine (Cell.reads_int entry.2.serverId).bind ?_
      refine (Cell.reads_double _).bind ?_
      refine (Cell.reads_double _).bind ?_
      dsimp only
      rw [if_neg hpos]
      exact (ih hhosts.2 _).bind_pure

theorem reads_report (report : Report) :
    Reads malleability report.cells (recordsFrom 0 report.entries) := by
  refine (Cell.reads_size report.length_lt).bind ?_
  cases hentries : report.entries with
  | nil => exact reads_pure []
  | cons entry entries =>
      rw [← hentries]
      exact reads_records (by simp [hentries]) report.host_lt 0

/-! ## What should be appended -/

namespace ReportEntry

/-- The values of an entry that are not zero. -/
def nonZero (entry : ReportEntry) : List ℚ :=
  [entry.readPerformance, entry.writePerformance].filter (· ≠ 0)

/-- The mean of the values that are not zero. -/
def mean (entry : ReportEntry) : ℚ :=
  entry.nonZero.sum / entry.nonZero.length

end ReportEntry

/-- The records that are due: one for each entry with a value that is not zero, with the mean of
these values. -/
def dueRecords (entries : List ReportEntry) : List ElasticityRecord :=
  (entries.filter fun entry => entry.nonZero ≠ []).map fun entry => entry.record entry.mean

/-- The history grows by the records that are due. -/
def Report.Recorded (report : Report) : Prop :=
  malleability report.cells = some (dueRecords report.entries, [])

/-- Every entry has a value that is not zero, and the number of values that the server has taken for
non-zero, up to the entry and with it, is the number of the entry's own values. -/
def CountsAgree (entries : List ReportEntry) : Prop :=
  ∀ front entry back, entries = front ++ entry :: back →
    entry.nonZero ≠ [] ∧
      (front.map ReportEntry.recorded).sum + entry.recorded = entry.nonZero.length

theorem ServerMetrics.performance_nonneg (metrics : ServerMetrics) : 0 ≤ metrics.performance := by
  rw [performance]
  split
  next h =>
    have hsize : (0 : ℚ) ≤ metrics.totalDataSize := by
      exact_mod_cast (show (0 : Int) ≤ metrics.totalDataSize by omega)
    exact div_nonneg hsize h.1.le
  next => exact le_refl 0

namespace ReportEntry

variable {entry : ReportEntry}

/-- Zeros do not count for the sum. -/
theorem sum_nonZero (entry : ReportEntry) :
    entry.nonZero.sum = entry.readPerformance + entry.writePerformance := by
  rw [nonZero]
  by_cases hread : entry.readPerformance = 0 <;> by_cases hwrite : entry.writePerformance = 0 <;>
    simp [hread, hwrite]

theorem sum_pos (hne : entry.nonZero ≠ []) :
    0 < entry.readPerformance + entry.writePerformance := by
  have hread : 0 ≤ entry.readPerformance := entry.2.read.performance_nonneg
  have hwrite : 0 ≤ entry.writePerformance := entry.2.write.performance_nonneg
  refine lt_of_le_of_ne (add_nonneg hread hwrite) fun hzero => hne ?_
  obtain ⟨hread, hwrite⟩ := (add_eq_zero_iff_of_nonneg hread hwrite).mp hzero.symm
  simp [nonZero, hread, hwrite]

/-- The overall value is the mean if the counter is right. -/
theorem overall_eq_mean_iff (hne : entry.nonZero ≠ []) (count : Nat) :
    (entry.readPerformance + entry.writePerformance) / (count : ℚ) = entry.mean ↔
      count = entry.nonZero.length := by
  have hpos := sum_pos hne
  have hlength : (entry.nonZero.length : ℚ) ≠ 0 := by
    exact_mod_cast (List.length_pos_of_ne_nil hne).ne'
  rw [mean, sum_nonZero]
  constructor
  · intro heq
    have hcount : (count : ℚ) ≠ 0 := by
      intro hzero
      rw [hzero, div_zero, eq_comm, div_eq_zero_iff] at heq
      exact heq.elim hpos.ne' hlength
    rw [div_eq_div_iff hcount hlength] at heq
    exact_mod_cast (mul_left_cancel₀ hpos.ne' heq).symm
  · rintro rfl
    rfl

end ReportEntry

theorem length_recordsFrom (metricRecorded : Nat) (entries : List ReportEntry) :
    (recordsFrom metricRecorded entries).length = entries.length := by
  induction entries generalizing metricRecorded with
  | nil => rfl
  | cons entry entries ih => simp [recordsFrom, ih]

theorem length_dueRecords_le (entries : List ReportEntry) :
    (dueRecords entries).length ≤ entries.length := by
  rw [dueRecords, List.length_map]
  exact List.length_filter_le _ _

/-- The places in a list are its first one and those in the rest. -/
theorem forall_split_cons {α : Type} (first : α) (rest : List α) (P : List α → α → Prop) :
    (∀ front x back, first :: rest = front ++ x :: back → P front x) ↔
      P [] first ∧ ∀ front x back, rest = front ++ x :: back → P (first :: front) x := by
  constructor
  · intro h
    refine ⟨h [] first rest rfl, fun front x back hrest => h (first :: front) x back ?_⟩
    rw [hrest, List.cons_append]
  · rintro ⟨hfirst, hrest⟩ front x back heq
    cases front with
    | nil =>
        obtain ⟨rfl, -⟩ := List.cons.inj heq
        exact hfirst
    | cons head front =>
        obtain ⟨rfl, htail⟩ := List.cons.inj heq
        exact hrest front x back htail

/-- The records are due if the counter is right at each entry. -/
theorem recordsFrom_eq_iff (metricRecorded : Nat) (entries : List ReportEntry) :
    recordsFrom metricRecorded entries = dueRecords entries ↔
      ∀ front entry back, entries = front ++ entry :: back →
        entry.nonZero ≠ [] ∧ metricRecorded + (front.map ReportEntry.recorded).sum +
          entry.recorded = entry.nonZero.length := by
  induction entries generalizing metricRecorded with
  | nil =>
      refine iff_of_true rfl ?_
      intro front entry back heq
      simp at heq
  | cons first entries ih =>
      by_cases hne : first.nonZero = []
      · -- the entry is not skipped
        refine iff_of_false ?_ fun h => (h [] first entries rfl).1 hne
        intro heq
        have hlength := congrArg List.length heq
        have hle := length_dueRecords_le entries
        have hdue : dueRecords (first :: entries) = dueRecords entries := by
          simp [dueRecords, hne]
        rw [length_recordsFrom, hdue, List.length_cons] at hlength
        omega
      · have hdue : dueRecords (first :: entries) =
            first.record first.mean :: dueRecords entries := by
          simp [dueRecords, hne]
        have hfirst : first.record ((first.readPerformance + first.writePerformance) /
              ((metricRecorded + first.recorded : Nat) : ℚ)) = first.record first.mean ↔
            metricRecorded + first.recorded = first.nonZero.length := by
          rw [← ReportEntry.overall_eq_mean_iff hne]
          simp [ReportEntry.record]
        rw [hdue, recordsFrom, List.cons.injEq, ih, hfirst, forall_split_cons]
        simp only [List.map_nil, List.sum_nil, List.map_cons, List.sum_cons, Nat.add_zero,
          Nat.add_assoc]
        exact and_congr_left' (and_iff_right hne).symm

/-- The history grows by the records that are due exactly if the counts agree. -/
theorem recorded_iff (report : Report) : report.Recorded ↔ CountsAgree report.entries := by
  rw [Report.Recorded, (reads_report report).whole, Option.some.injEq, Prod.mk.injEq,
    and_iff_left rfl, recordsFrom_eq_iff, CountsAgree]
  simp only [Nat.zero_add]

/-- Two servers to each of which two megabytes were written in a second. -/
def twoServers : List ReportEntry :=
  [(['a'], ⟨0, ⟨1, 2097152⟩, ⟨0, 0⟩⟩), (['b'], ⟨1, ⟨1, 2097152⟩, ⟨0, 0⟩⟩)]

theorem twoServers_length : twoServers.length < 2 ^ 64 := by
  decide

theorem twoServers_hosts : ∀ entry ∈ twoServers, entry.1.length < 2 ^ 64 := by
  decide

def twoServersReport : Report :=
  ⟨twoServers, twoServers_length, twoServers_hosts⟩

/-- The second server is recorded with half of its performance. -/
theorem not_recorded :
    malleability twoServersReport.cells =
        some ([⟨0, ['a'], 2097152, 0, 2097152⟩, ⟨1, ['b'], 2097152, 0, 1048576⟩], []) ∧
      dueRecords twoServers =
        [⟨0, ['a'], 2097152, 0, 2097152⟩, ⟨1, ['b'], 2097152, 0, 2097152⟩] ∧
      ¬ twoServersReport.Recorded := by
  have hread : malleability twoServersReport.cells =
      some ([⟨0, ['a'], 2097152, 0, 2097152⟩, ⟨1, ['b'], 2097152, 0, 1048576⟩], []) := by
    decide +kernel
  have hdue : dueRecords twoServers =
      [⟨0, ['a'], 2097152, 0, 2097152⟩, ⟨1, ['b'], 2097152, 0, 2097152⟩] := by
    decide +kernel
  refine ⟨hread, hdue, ?_⟩
  change malleability twoServersReport.cells ≠ some (dueRecords twoServers, [])
  rw [hread, hdue]
  decide

/-- If no value lies between zero and the tolerance, the counts agree for reports with at most one
entry. -/
theorem countsAgree_iff_of_exact {entries : List ReportEntry}
    (hexact : ∀ entry ∈ entries, entry.recorded = entry.nonZero.length) :
    CountsAgree entries ↔ entries.length ≤ 1 ∧ ∀ entry ∈ entries, entry.nonZero ≠ [] := by
  constructor
  · intro hagree
    have hne : ∀ entry ∈ entries, entry.nonZero ≠ [] := by
      intro entry hentry
      obtain ⟨front, back, heq⟩ := List.append_of_mem hentry
      exact (hagree front entry back heq).1
    refine ⟨?_, hne⟩
    match entries, hexact, hagree, hne with
    | [], _, _, _ => exact Nat.zero_le 1
    | [_], _, _, _ => exact Nat.le_refl 1
    | first :: second :: rest, hexact, hagree, hne =>
        -- the second entry is charged with the values of the first
        have hsecond := (hagree [first] second rest rfl).2
        have hpos := List.length_pos_of_ne_nil (hne first List.mem_cons_self)
        have hfirst := hexact first List.mem_cons_self
        have hown := hexact second (List.mem_cons_of_mem _ List.mem_cons_self)
        simp only [List.map_cons, List.map_nil, List.sum_cons, List.sum_nil] at hsecond
        omega
  · rintro ⟨hlength, hne⟩ front entry back rfl
    have hfront : front = [] := by
      rw [List.length_append, List.length_cons] at hlength
      exact List.eq_nil_of_length_eq_zero (by omega)
    subst hfront
    refine ⟨hne entry (by simp), ?_⟩
    rw [List.map_nil, List.sum_nil, Nat.zero_add]
    exact hexact entry (by simp)

/-! ## The history of the hosts -/

namespace Scaling

/-- The overall values, appended to the records of the hosts. -/
def push (history : Std.ExtTreeMap CString (List ℚ)) (records : List ElasticityRecord) :
    Std.ExtTreeMap CString (List ℚ) :=
  records.foldl (fun history record => history.insert record.serverHostname
    (history.getD record.serverHostname [] ++ [record.overallPerformance])) history

/-- An entry as the thread of the report sees it. -/
def metric (entry : ReportEntry) : ElasticityMetric ℚ :=
  ⟨entry.1, entry.writePerformance, entry.readPerformance⟩

/-- The thread of a report appends the records that the stream is read to. -/
theorem receive_eq_push {settings : ScalingSettings ℚ}
    (hzero : ∀ x, settings.nearZero x = doubleAreEqual x 0) (scaling : Scaling ℚ)
    (metricRecorded : Nat) (entries : List ReportEntry) :
    (entries.foldl (fun state entry => receive settings state.1 (metric entry) state.2)
        (scaling, metricRecorded)).1.elasticityRecordsHistory =
      push scaling.elasticityRecordsHistory (recordsFrom metricRecorded entries) := by
  induction entries generalizing scaling metricRecorded with
  | nil => rfl
  | cons entry entries ih =>
      have hcount : (receive settings scaling (metric entry) metricRecorded).2 =
          metricRecorded + entry.recorded := by
        simp only [receive, metric, hzero, ReportEntry.recorded, recordedValues, Nat.add_assoc]
      have hhistory : (receive settings scaling (metric entry)
            metricRecorded).1.elasticityRecordsHistory =
          push scaling.elasticityRecordsHistory [entry.record
            ((entry.readPerformance + entry.writePerformance) /
              ((metricRecorded + entry.recorded : Nat) : ℚ))] := by
        rw [← hcount]
        rfl
      rw [List.foldl_cons, recordsFrom, ← Prod.mk.eta (p := receive _ _ _ _), ih, hcount, hhistory]
      rfl

end Scaling

end Hercules
