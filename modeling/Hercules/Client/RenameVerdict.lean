/-
# What a rename is refused for

`imss_rename` answers `ENOENT` if it does not find the old path or the directory of the new one.
It looks in the records of the client first, and asks the servers for what is not there. For the
old path a record counts as found; for the directory a record counts as a failure, because the
return value of the other branch is tested. The directory is not looked for at all if its name
begins the old path.

The files that the servers have are a function of the path, and all lookups of a call are
answered from it. A call is compared with those of a client that has nothing stored and whose
paths do not begin with one another.
-/

import Hercules.Client.OpenRename

namespace Hercules

open Std Lib Lib.Text

namespace Client

/-- The files of the servers: whether the dataset is a directory, and the record in block 0. -/
abbrev Files := CString → Option (Bool × Memory)

namespace Files

/-- The root exists without a dataset. -/
def Exists (files : Files) (path : CString) : Prop :=
  path = imssRoot ∨ (files path).isSome

/-- What the servers answer to an `imss_getattr`. -/
def answer (files : Files) (path : CString) : GetattrAnswer :=
  ⟨(files path).map fun file => (path, file.1), (files path).map Prod.snd⟩

end Files

/-- A call of `imss_rename`, the tables of the client that makes it, and the files it meets.
The last three are the results of the requests for the rename itself; `rename_dataset_metadata`
returns 0 or -1. -/
structure RenameCall where
  tables : ClientTables
  old : CString
  new : CString
  files : Files
  deleteDataset : Int
  unlinkDataset : Int
  renamed : Bool

/-- There is a record for the path, with a descriptor. -/
def ClientTables.Cached (t : ClientTables) (path : CString) : Prop :=
  (fdLookup (t.records.find path)).isSome

namespace RenameCall

variable (call : RenameCall)

/-- The answers of the servers. -/
def answers : RenameAnswers where
  old := call.files.answer call.old
  parent := call.files.answer (findLastParentDir call.new)
  new := call.files.answer call.new
  deleteDataset := call.deleteDataset
  unlinkDataset := call.unlinkDataset
  renameMetadata := if call.renamed then 0 else -1

/-- The call returns `-ENOENT`. -/
def RejectsNotFound : Prop :=
  (call.tables.imssRename call.old call.new call.answers).1 = -enoent

/-- The old path exists. -/
def SourceExists : Prop :=
  call.files.Exists call.old

/-- The directory of the new path exists. -/
def ParentExists : Prop :=
  call.files.Exists (findLastParentDir call.new)

/-- The directory of the new path is looked for. -/
def ChecksParent : Prop :=
  ¬ findLastParentDir call.new <+: call.old ∧ belowDirectory call.new

/-- The client has nothing stored, and no path or directory begins another one. -/
structure Plain : Prop where
  tables : call.tables = ⟨⟨∅⟩, ⟨∅⟩, 0⟩
  old_new : ¬ call.old <+: call.new
  new_old : ¬ call.new <+: call.old
  parent_old : ¬ findLastParentDir call.new <+: call.old

/-- The call is rejected if and only if a plain one is that agrees with it in what exists. -/
def RejectsByExistence : Prop :=
  ∀ other : RenameCall, other.Plain → (other.SourceExists ↔ call.SourceExists) →
    (other.ParentExists ↔ call.ParentExists) → (call.RejectsNotFound ↔ other.RejectsNotFound)

/-- The calls that are rejected as they should be. If both paths are there, no record of the
directory may be met where it is looked for. If only the old one is, the directory has to be
looked for. If the old one is not there, a record for it must not count, unless the check of the
directory rejects the call. -/
structure Regular : Prop where
  both : call.SourceExists → call.ParentExists → call.old ≠ call.new → call.ChecksParent →
    ¬ call.tables.Cached (findLastParentDir call.new)
  noParent : call.SourceExists → ¬ call.ParentExists →
    call.old ≠ call.new ∧ ¬ findLastParentDir call.new <+: call.old
  noSource : ¬ call.SourceExists → call.old ≠ call.new ∧
    (call.tables.Cached call.old → call.ChecksParent ∧
      (call.tables.Cached (findLastParentDir call.new) ∨ ¬ call.ParentExists))

end RenameCall

/-! ## Lookups -/

namespace ClientTables

variable {t : ClientTables} {path key : CString} {files : Files}

/-- At the servers a path is found if it exists, whatever the pool holds. -/
theorem isSome_imssGetattr_iff (t : ClientTables) (path : CString) (files : Files) :
    (t.imssGetattr path (files.answer path)).1.isSome ↔ files.Exists path := by
  rw [imssGetattr]
  split
  next hroot => exact iff_of_true rfl (Or.inl hroot)
  next hroot =>
    have hexists : files.Exists path ↔ (files path).isSome := or_iff_right hroot
    rw [hexists]
    cases hfile : files path with
    | none =>
        simp only [Files.answer, hfile, openDataset, Option.map_none]
        split
        next => simp
        next => simp
    | some file =>
        simp only [Files.answer, hfile, openDataset, Option.map_some]
        cases t.pool.find path with
        | none => simp
        | some info => simp

theorem isSome_lookUp_iff (t : ClientTables) (path : CString) (files : Files) :
    (t.lookUp path (files.answer path)).1.isSome ↔ t.Cached path ∨ files.Exists path := by
  rw [lookUp, Cached]
  split
  next record hrecord => simp [hrecord]
  next hrecord =>
    rw [isSome_imssGetattr_iff]
    simp [hrecord]

/-- A lookup adds no record but that of its path. -/
theorem find_records_lookUp (hne : key ≠ path) (t : ClientTables) (answer : GetattrAnswer) :
    (t.lookUp path answer).2.records.find key = t.records.find key := by
  have hopened : ∀ ds opened, t.openDataset path answer = some (ds, opened) →
      opened.records = t.records := by
    intro ds opened h
    rw [openDataset] at h
    split at h
    next =>
      cases h
      rfl
    next =>
      obtain ⟨dataset, -, hpair⟩ := Option.map_eq_some_iff.mp h
      cases hpair
      rfl
  rw [lookUp]
  split
  next => rfl
  next =>
    rw [imssGetattr]
    split
    next => rfl
    next =>
      split
      next => rfl
      next ds opened h =>
        split
        next => rw [hopened ds opened h]
        next stat _ =>
          simp only [DirTables.find_hierarchicalMapPut, if_neg hne, Option.or_none,
            hopened ds opened h]

theorem cached_lookUp_iff (hne : key ≠ path) (t : ClientTables) (answer : GetattrAnswer) :
    (t.lookUp path answer).2.Cached key ↔ t.Cached key := by
  rw [Cached, Cached, find_records_lookUp hne]

/-- The check of the directory fails for a record, and for a directory that does not exist. -/
theorem checkParent_eq_false_iff (t : ClientTables) (old new : CString) (files : Files) :
    (t.checkParent old new (files.answer (findLastParentDir new))).1 = false ↔
      (¬ findLastParentDir new <+: old ∧ belowDirectory new) ∧
        (t.Cached (findLastParentDir new) ∨ ¬ files.Exists (findLastParentDir new)) := by
  rw [checkParent, Cached]
  split
  next hcheck =>
    split
    next record hrecord => simp [hrecord, hcheck]
    next hrecord =>
      have hfound := isSome_imssGetattr_iff t (findLastParentDir new) files
      rw [← Bool.not_eq_true, hfound, hrecord]
      simp [hcheck]
  next hcheck => simp [hcheck]

theorem zero_ne_enoent : (0 : Int) ≠ -enoent := by
  decide

theorem minus_one_ne_enoent : (-1 : Int) ≠ -enoent := by
  decide

/-- After its lookups a rename is not refused with `ENOENT`. -/
theorem planOf_ne (old new : CString) (oldIsDir newIsDir : Bool) :
    planOf old new oldIsDir newIsDir ≠ .refused (-enoent) := by
  have hne : (RenamePlan.refused (-eperm)) ≠ .refused (-enoent) := by decide
  cases oldIsDir with
  | true =>
      cases newIsDir with
      | true => rintro ⟨⟩
      | false => exact hne
  | false =>
      cases newIsDir with
      | true =>
          rw [planOf]
          split
          next => exact hne
          next => rintro ⟨⟩
      | false => rintro ⟨⟩

/-- The two lookups that refuse a rename with `ENOENT`. -/
theorem renamePlan_eq_enoent_iff (t : ClientTables) (old new : CString) (answers : RenameAnswers) :
    (t.renamePlan old new answers).1 = .refused (-enoent) ↔ old ≠ new ∧
      ((t.lookUp old answers.old).1.isSome →
        ((t.lookUp old answers.old).2.checkParent old new answers.parent).1 = false) := by
  rw [renamePlan]
  split
  next hsame =>
    refine iff_of_false (fun h => ?_) fun h => h.1 hsame
    exact absurd (RenamePlan.refused.inj h) minus_one_ne_enoent
  next hne =>
    cases hfound : (t.lookUp old answers.old).1 with
    | none => simp [hfound, hne]
    | some oldIsDir =>
        simp only [hfound]
        split
        next hparent => simp [hparent, planOf_ne]
        next hparent => simpa [hne] using hparent

/-- The result is `-ENOENT` if the lookups end so; the rename itself returns other values. -/
theorem imssRename_eq_enoent_iff (t : ClientTables) (old new : CString) {answers : RenameAnswers}
    (hanswers : answers.renameMetadata ≠ -enoent) :
    (t.imssRename old new answers).1 = -enoent ↔
      (t.renamePlan old new answers).1 = .refused (-enoent) := by
  rw [imssRename]
  split
  next result hplan => rw [hplan, RenamePlan.refused.injEq]
  next hplan =>
    rw [hplan]
    exact iff_of_false zero_ne_enoent (by rintro ⟨⟩)
  next destination hplan =>
    rw [hplan]
    refine iff_of_false ?_ (by rintro ⟨⟩)
    rw [renameFile]
    split
    next =>
      split
      next => exact hanswers
      next => exact zero_ne_enoent
    next => exact minus_one_ne_enoent

end ClientTables

namespace RenameCall

variable (call : RenameCall)

theorem renameMetadata_answers : call.answers.renameMetadata ≠ -enoent := by
  rw [answers]
  split
  · exact ClientTables.zero_ne_enoent
  · exact ClientTables.minus_one_ne_enoent

/-- When a call is rejected. -/
theorem rejectsNotFound_iff :
    call.RejectsNotFound ↔ call.old ≠ call.new ∧
      (call.tables.Cached call.old ∨ call.SourceExists →
        call.ChecksParent ∧
          (call.tables.Cached (findLastParentDir call.new) ∨ ¬ call.ParentExists)) := by
  rw [RejectsNotFound, ClientTables.imssRename_eq_enoent_iff _ _ _ call.renameMetadata_answers,
    ClientTables.renamePlan_eq_enoent_iff]
  refine and_congr_right fun hne => imp_congr (ClientTables.isSome_lookUp_iff _ _ _) ?_
  refine (ClientTables.checkParent_eq_false_iff _ _ _ _).trans (and_congr_right fun hcheck => ?_)
  have hdir : findLastParentDir call.new ≠ call.old :=
    fun h => hcheck.1 (h ▸ List.prefix_rfl)
  exact or_congr_left (ClientTables.cached_lookUp_iff hdir _ _)

/-- The directory of a path in the root exists. -/
theorem belowDirectory_of_not_parentExists (h : ¬ call.ParentExists) : belowDirectory call.new := by
  by_contra hnot
  refine h (Or.inl ?_)
  have hnone := Option.not_isSome_iff_eq_none.mp hnot
  rw [findLastParentDir, hnone]

theorem Plain.old_ne_new {call : RenameCall} (hplain : call.Plain) : call.old ≠ call.new :=
  fun h => hplain.old_new (h ▸ List.prefix_rfl)

/-- A plain call is rejected if something is missing. -/
theorem Plain.rejectsNotFound_iff {call : RenameCall} (hplain : call.Plain) :
    call.RejectsNotFound ↔ ¬ (call.SourceExists ∧ call.ParentExists) := by
  have hcached : ∀ path, ¬ call.tables.Cached path := by
    intro path
    rw [hplain.tables, ClientTables.Cached, DirTables.find_empty]
    rintro ⟨⟩
  rw [RenameCall.rejectsNotFound_iff, ChecksParent, not_and, and_iff_right hplain.old_ne_new,
    or_iff_right (hcached call.old), or_iff_right (hcached (findLastParentDir call.new)),
    and_iff_right hplain.parent_old]
  exact imp_congr_right fun _ =>
    and_iff_right_of_imp call.belowDirectory_of_not_parentExists

/-- The record of a directory. -/
def directoryStat : Memory := fun i =>
  if i = 25 then 64 else 0

/-- The file `imss://a` and the directory `imss://d`, as far as they exist. -/
def filesWhere (source parent : Bool) : Files := fun path =>
  if path = "imss://a".toList ∧ source then some (false, fun _ => 0)
  else if path = "imss://d".toList ∧ parent then some (true, directoryStat)
  else none

/-- The rename of `imss://a` to `imss://d/b` by a client that has nothing stored. -/
def plainCall (source parent : Bool) : RenameCall :=
  ⟨⟨⟨∅⟩, ⟨∅⟩, 0⟩, "imss://a".toList, "imss://d/b".toList, filesWhere source parent, 0, 0, true⟩

theorem parent_plainCall : findLastParentDir "imss://d/b".toList = "imss://d".toList := by
  decide +kernel

theorem plain_plainCall (source parent : Bool) : (plainCall source parent).Plain := by
  refine ⟨rfl, ?_, ?_, ?_⟩
  · exact (by decide : ¬ "imss://a".toList <+: "imss://d/b".toList)
  · exact (by decide : ¬ "imss://d/b".toList <+: "imss://a".toList)
  · have hprefix : ¬ "imss://d".toList <+: "imss://a".toList := by decide
    rwa [plainCall, parent_plainCall]

theorem exists_filesWhere_iff {source parent : Bool} {path : CString} (hroot : path ≠ imssRoot) :
    (filesWhere source parent).Exists path ↔
      path = "imss://a".toList ∧ source ∨ path = "imss://d".toList ∧ parent := by
  rw [Files.Exists, or_iff_right hroot, filesWhere]
  split
  next h => exact iff_of_true rfl (Or.inl h)
  next ha =>
    split
    next hd => exact iff_of_true rfl (Or.inr hd)
    next hd => exact iff_of_false (by simp) (not_or.mpr ⟨ha, hd⟩)

theorem sourceExists_plainCall (source parent : Bool) :
    (plainCall source parent).SourceExists ↔ source = true := by
  have hne : "imss://a".toList ≠ "imss://d".toList := by decide
  have hroot : "imss://a".toList ≠ imssRoot := by decide
  rw [SourceExists, plainCall, exists_filesWhere_iff hroot]
  simp only [hne, true_and, false_and, or_false]

theorem parentExists_plainCall (source parent : Bool) :
    (plainCall source parent).ParentExists ↔ parent = true := by
  have hne : "imss://d".toList ≠ "imss://a".toList := by decide
  rw [ParentExists, plainCall, parent_plainCall, exists_filesWhere_iff (by decide)]
  simp only [hne, true_and, false_and, false_or]

open Classical in
/-- The comparison with the plain calls, in terms of what exists. -/
theorem rejectsByExistence_iff :
    call.RejectsByExistence ↔
      (call.RejectsNotFound ↔ ¬ (call.SourceExists ∧ call.ParentExists)) := by
  constructor
  · intro h
    -- some plain call agrees with this one
    have hsource := sourceExists_plainCall (decide call.SourceExists) (decide call.ParentExists)
    have hparent := parentExists_plainCall (decide call.SourceExists) (decide call.ParentExists)
    rw [decide_eq_true_iff] at hsource hparent
    rw [h _ (plain_plainCall _ _) hsource hparent, (plain_plainCall _ _).rejectsNotFound_iff,
      hsource, hparent]
  · intro h other hplain hsource hparent
    rw [h, hplain.rejectsNotFound_iff, hsource, hparent]

/-- A rename is rejected by what exists exactly if it is regular. -/
theorem imssRename_rejectsByExistence_iff : call.RejectsByExistence ↔ call.Regular := by
  rw [rejectsByExistence_iff, rejectsNotFound_iff]
  by_cases hsource : call.SourceExists
  · by_cases hparent : call.ParentExists
    · -- both exist: the call must not be rejected
      have hregular : call.Regular ↔ (call.old ≠ call.new → call.ChecksParent →
          ¬ call.tables.Cached (findLastParentDir call.new)) :=
        ⟨fun h => h.both hsource hparent,
          fun h => ⟨fun _ _ => h, fun _ hnot => absurd hparent hnot,
            fun hnot => absurd hsource hnot⟩⟩
      rw [hregular]
      simp only [hsource, hparent, or_true, true_imp_iff, not_true_eq_false, or_false, and_self,
        iff_false, not_and]
    · -- the directory is missing: it has to be looked for
      have hbelow := call.belowDirectory_of_not_parentExists hparent
      have hregular : call.Regular ↔
          call.old ≠ call.new ∧ ¬ findLastParentDir call.new <+: call.old :=
        ⟨fun h => h.noParent hsource hparent,
          fun h => ⟨fun _ hyes => absurd hyes hparent, fun _ _ => h,
            fun hnot => absurd hsource hnot⟩⟩
      rw [hregular, ChecksParent]
      simp only [hsource, hparent, hbelow, or_true, true_imp_iff, not_false_eq_true, and_true,
        and_false, iff_true]
  · -- the old path is missing: the call must be rejected
    have hregular : call.Regular ↔ call.old ≠ call.new ∧
        (call.tables.Cached call.old → call.ChecksParent ∧
          (call.tables.Cached (findLastParentDir call.new) ∨ ¬ call.ParentExists)) :=
      ⟨fun h => h.noSource hsource,
        fun h => ⟨fun hyes => absurd hyes hsource, fun hyes => absurd hyes hsource, fun _ => h⟩⟩
    rw [hregular]
    simp only [hsource, or_false, false_and, not_false_eq_true, iff_true]

/-- The client has a record for the directory `imss://d`. -/
def cachedParentCall : RenameCall :=
  { plainCall true true with
    tables := ⟨DirTables.hierarchicalMapPut ⟨∅⟩ "imss://d".toList (0, directoryStat), ⟨∅⟩, 0⟩ }

theorem cached_cachedParentCall : cachedParentCall.tables.Cached "imss://d".toList := by
  have hfind : cachedParentCall.tables.records.find "imss://d".toList =
      some (0, directoryStat) := by
    rw [cachedParentCall, DirTables.find_hierarchicalMapPut, if_pos rfl, DirTables.find_empty]
    rfl
  rw [ClientTables.Cached, hfind]
  rfl

theorem rejectsNotFound_cachedParentCall : cachedParentCall.RejectsNotFound := by
  rw [rejectsNotFound_iff]
  refine ⟨(plain_plainCall true true).old_ne_new, fun _ => ⟨⟨?_, ?_⟩, Or.inl ?_⟩⟩
  · exact (plain_plainCall true true).parent_old
  · exact (by decide +kernel : belowDirectory "imss://d/b".toList)
  · rw [cachedParentCall, plainCall, parent_plainCall]
    exact cached_cachedParentCall

/-- The directory `imss://d` does not exist, and its name begins the old path `imss://dx`. -/
def prefixCall : RenameCall :=
  { plainCall false false with
    old := "imss://dx".toList
    files := fun path => if path = "imss://dx".toList then some (false, fun _ => 0) else none }

theorem sourceExists_prefixCall : prefixCall.SourceExists := by
  refine Or.inr ?_
  rw [prefixCall]
  rfl

theorem not_parentExists_prefixCall : ¬ prefixCall.ParentExists := by
  rw [ParentExists, prefixCall, plainCall, parent_plainCall, Files.Exists, not_or]
  exact ⟨by decide, by decide⟩

theorem not_rejectsNotFound_prefixCall : ¬ prefixCall.RejectsNotFound := by
  rw [rejectsNotFound_iff]
  rintro ⟨-, h⟩
  obtain ⟨hcheck, -⟩ := (h (Or.inr sourceExists_prefixCall)).1
  rw [prefixCall, plainCall, parent_plainCall] at hcheck
  exact hcheck (by decide)

/-- Everything exists for the two calls of the first part, and the record makes the difference.
In the second part the directory is missing, which is not noticed. -/
theorem not_imssRename_rejectsByExistence :
    (¬ (plainCall true true).RejectsNotFound ∧ cachedParentCall.RejectsNotFound ∧
        ¬ cachedParentCall.RejectsByExistence) ∧
      (prefixCall.SourceExists ∧ ¬ prefixCall.ParentExists ∧ ¬ prefixCall.RejectsNotFound ∧
        ¬ prefixCall.RejectsByExistence) := by
  have hsource : (plainCall true true).SourceExists :=
    (sourceExists_plainCall true true).mpr rfl
  have hparent : (plainCall true true).ParentExists :=
    (parentExists_plainCall true true).mpr rfl
  refine ⟨⟨?_, rejectsNotFound_cachedParentCall, ?_⟩, sourceExists_prefixCall,
    not_parentExists_prefixCall, not_rejectsNotFound_prefixCall, ?_⟩
  · rw [(plain_plainCall true true).rejectsNotFound_iff]
    exact not_not.mpr ⟨hsource, hparent⟩
  · rw [rejectsByExistence_iff]
    intro h
    exact h.mp rejectsNotFound_cachedParentCall ⟨hsource, hparent⟩
  · rw [rejectsByExistence_iff]
    intro h
    exact not_rejectsNotFound_prefixCall (h.mpr fun hboth => not_parentExists_prefixCall hboth.2)

end RenameCall

end Client

end Hercules
