/-
# The two tables of a client under a directory rename

The pool of datasets and the map of records are tables of tables, and an entry is found in the
table of its parent directory. The rename of a directory has to move the entries at every depth,
and to keep all others.

Both renames look at one table, that of the old directory. In the pool its entries are filed under
the name of the new directory, each in place of the one before, and they stay in the old table;
only the entry of the directory itself is moved. In the map of records the entries are copied to a
new table, and the old one stays; the entry of the directory itself is dropped. Tables can hold
keys that no lookup reaches, left there by earlier renames; they are told apart here.
-/

import Hercules.Client.OpenRename

namespace Hercules

open Std Lib Lib.Text

namespace Client

namespace DirTables

variable {V : Type}

/-- No entry is found for the directory or below it. -/
def NotCached (t : DirTables V) (dir : CString) : Prop :=
  ∀ s, TreeSuffix s → t.find (dir ++ s) = none

/-- What was found under the old directory is found under the new one, nothing is found under the
old one, and every other lookup gives what it gave before. -/
structure FollowsRename (same : V → V → Prop) (t t' : DirTables V) (old new : CString) : Prop where
  moved : ∀ s value, TreeSuffix s → t.find (old ++ s) = some value →
    ∃ value', t'.find (new ++ s) = some value' ∧ same value value'
  gone : t'.NotCached old
  kept : ∀ key, (∀ s, TreeSuffix s → key ≠ old ++ s) →
    (∀ s, TreeSuffix s → (t.find (old ++ s)).isSome → key ≠ new ++ s) → t'.find key = t.find key

/-- The part of `rename_dataset_metadata_dir_dir` that changes the pool. -/
def renameDatasetMetadataDirDir (t : DirTables DatasetInfo) (oldDir rdirDest : CString) :
    DirTables DatasetInfo :=
  (t.replaceUriBasePathDir oldDir rdirDest).replaceUriBasePathRegularFile oldDir rdirDest

/-- The same object; its `uri_` is the new name. -/
def SameDataset (info info' : DatasetInfo) : Prop :=
  info'.id = info.id ∧ info'.isDir = info.isDir

/-- The pools that follow: nothing is found below the old directory, and if the new name is below
it, nothing is found for the directory itself either and none of its keys is replaced by the new
name. -/
structure PoolFollows (t : DirTables DatasetInfo) (old new : CString) : Prop where
  nothing_below : ∀ tail, t.find (old ++ '/' :: tail) = none
  new_below : ∀ tail, new = old ++ '/' :: tail → t.find old = none
  no_keys : findLastParentDir new = old → ∀ key, (t.held old key).isSome → ¬ isChildKey old key

/-- The maps of records that follow: nothing is found under the old directory, and no key of its
table that lookups do not reach becomes one of the new directory. -/
structure RecordsFollow (t : DirTables Record) (old new : CString) : Prop where
  nothing : t.NotCached old
  no_keys : ∀ key, (t.held old key).isSome → findLastParentDir (replaceFirst old new key) ≠ new

/-! ## Keys -/

theorem treeSuffix_nil : TreeSuffix [] :=
  Or.inl rfl

theorem treeSuffix_slash (tail : CString) : TreeSuffix ('/' :: tail) :=
  Or.inr ⟨tail, rfl⟩

/-- A key in the table of a directory continues its name. -/
theorem exists_tail_of_parent {dir key : CString} (hdir : IsFileUri dir)
    (h : findLastParentDir key = dir) : ∃ tail, key = dir ++ '/' :: tail := by
  obtain ⟨tail, htail⟩ := slash_prefix_of_filed hdir h
  exact ⟨tail, by rw [← htail]; simp⟩

theorem NotCached.find_of_parent {t : DirTables V} {dir key : CString} (h : t.NotCached dir)
    (hdir : IsFileUri dir) (hkey : findLastParentDir key = dir) : t.find key = none := by
  obtain ⟨tail, rfl⟩ := exists_tail_of_parent hdir hkey
  exact h _ (treeSuffix_slash tail)

theorem NotCached.find_self {t : DirTables V} {dir : CString} (h : t.NotCached dir) :
    t.find dir = none := by
  rw [← List.append_nil dir]
  exact h [] treeSuffix_nil

theorem append_slash_ne_self (dir tail : CString) : dir ++ '/' :: tail ≠ dir := by
  intro h
  have hlength := congrArg List.length h
  simp at hlength

/-! ## The pool -/

section Pool

variable {t : DirTables DatasetInfo} {old new : CString}

/-- The new name is in the table after one of the keys has been replaced. -/
theorem mem_foldl_replaceKey {new : CString} (keys : List CString)
    {entries : ExtTreeMap CString DatasetInfo}
    (h : (∃ key ∈ keys, key ∈ entries) ∨ new ∈ entries) :
    new ∈ keys.foldl (replaceKey new) entries := by
  induction keys generalizing entries with
  | nil =>
      rcases h with ⟨key, hkey, -⟩ | h
      · cases hkey
      · exact h
  | cons first keys ih =>
      rw [List.foldl_cons]
      apply ih
      rw [replaceKey]
      split
      next hnone =>
        rcases h with ⟨key, hkey, hmem⟩ | h
        · rcases List.mem_cons.mp hkey with rfl | hkey
          · exact absurd hnone (by simpa using hmem)
          · exact Or.inl ⟨key, hkey, hmem⟩
        · exact Or.inr h
      next => exact Or.inr (by simp)

/-- The new name is found in the old directory if one of its keys has been replaced. -/
theorem isSome_find_replaceUriBasePathDir (hparent : findLastParentDir new = old) {key : CString}
    (hkey : (t.held old key).isSome) (hchild : isChildKey old key) :
    ((t.replaceUriBasePathDir old new).find new).isSome := by
  rw [held] at hkey
  obtain ⟨info, hinfo⟩ := Option.isSome_iff_exists.mp hkey
  obtain ⟨entries, hentries, hentry⟩ := Option.bind_eq_some_iff.mp hinfo
  have hmem : key ∈ entries :=
    ExtTreeMap.isSome_getElem?_iff_mem.mp (Option.isSome_of_eq_some hentry)
  simp only [replaceUriBasePathDir, hentries]
  rw [find_setDir, if_pos hparent, ExtTreeMap.isSome_getElem?_iff_mem]
  refine mem_foldl_replaceKey _ (Or.inl ⟨key, ?_, hmem⟩)
  exact List.mem_filter.mpr ⟨ExtTreeMap.mem_keys.mpr hmem, hchild⟩

/-- A pool without entries below the old directory finds the same after its keys have been
replaced. -/
theorem PoolFollows.find_replaceUriBasePathDir (h : t.PoolFollows old new) (hold : IsFileUri old)
    (key : CString) : (t.replaceUriBasePathDir old new).find key = t.find key := by
  by_cases hkey : key = new
  · subst hkey
    rw [replaceUriBasePathDir]
    split
    next => rfl
    next entries hentries =>
      rw [find_setDir]
      split
      next hparent =>
        have hnone : entries.keys.filter (isChildKey old) = [] := by
          rw [List.filter_eq_nil_iff]
          intro key' hmem
          refine h.no_keys hparent key' ?_
          rw [held_of_dirs hentries]
          exact ExtTreeMap.isSome_getElem?_iff_mem.mpr (ExtTreeMap.mem_keys.mp hmem)
        rw [hnone, List.foldl_nil, find, hparent, held_of_dirs hentries]
      next => rfl
  · rw [DirTables.find_replaceUriBasePathDir t old hkey]
    split
    next hchild =>
      obtain ⟨tail, rfl⟩ := exists_tail_of_parent hold hchild.1
      rw [h.nothing_below]
    next => rfl

/-- The directory's own entry is moved; nothing else is found otherwise. -/
theorem find_renameDatasetMetadataDirDir (hnew : IsFileUri new) (hcached : t.NotCached new)
    (hreplaced : ∀ key, (t.replaceUriBasePathDir old new).find key = t.find key) (key : CString) :
    (t.renameDatasetMetadataDirDir old new).find key =
      if key = new then (t.find old).map fun info => { info with uri := new }
      else if key = old then none else t.find key := by
  rw [renameDatasetMetadataDirDir]
  cases hold : t.find old with
  | none =>
      have hunchanged : (t.replaceUriBasePathDir old new).replaceUriBasePathRegularFile old new =
          t.replaceUriBasePathDir old new := by
        simp only [replaceUriBasePathRegularFile, hreplaced, hold]
      rw [hunchanged, hreplaced]
      split
      next hkey => rw [hkey, hcached.find_self, Option.map_none]
      next =>
        split
        next hkey => rw [hkey, hold]
        next => rfl
  | some info =>
      rw [find_replaceUriBasePathRegularFile _ ((hreplaced old).trans hold)]
      by_cases hdir : info.isDir ∧ findLastParentDir key = new
      · -- nothing was found in the table that is replaced
        have hne : key ≠ new := fun h => findLastParentDir_ne_self hnew (h ▸ hdir.2)
        rw [if_pos hdir, if_neg hne, hcached.find_of_parent hnew hdir.2, ite_self]
      · rw [if_neg hdir, hreplaced, Option.map_some]

/-- Without the directory's own entry nothing is moved. -/
theorem renameDatasetMetadataDirDir_of_none
    (hold : (t.replaceUriBasePathDir old new).find old = none) :
    t.renameDatasetMetadataDirDir old new = t.replaceUriBasePathDir old new := by
  simp only [renameDatasetMetadataDirDir, replaceUriBasePathRegularFile, hold]

/-- What was not found is not found afterwards, except for the new name. -/
theorem find_renameDatasetMetadataDirDir_of_none {key : CString} (hne : key ≠ new)
    (hnone : t.find key = none) : (t.renameDatasetMetadataDirDir old new).find key = none := by
  have hreplaced : (t.replaceUriBasePathDir old new).find key = none := by
    rw [DirTables.find_replaceUriBasePathDir t old hne, hnone, ite_self]
  cases hold : (t.replaceUriBasePathDir old new).find old with
  | none => rw [renameDatasetMetadataDirDir_of_none hold, hreplaced]
  | some info =>
      rw [renameDatasetMetadataDirDir, find_replaceUriBasePathRegularFile _ hold, if_neg hne,
        hreplaced]
      simp only [ite_self]

theorem PoolFollows.followsRename (h : t.PoolFollows old new) (hold : IsFileUri old)
    (hnew : IsFileUri new) (hcached : t.NotCached new) :
    FollowsRename SameDataset t (t.renameDatasetMetadataDirDir old new) old new := by
  have hfind := find_renameDatasetMetadataDirDir hnew hcached (h.find_replaceUriBasePathDir hold)
  have hbelow : ∀ tail, new = old ++ '/' :: tail → t.find old = none := h.new_below
  refine ⟨?_, ?_, ?_⟩
  · rintro s info (rfl | ⟨tail, rfl⟩) hinfo
    · rw [List.append_nil] at hinfo ⊢
      rw [hfind, if_pos rfl, hinfo]
      exact ⟨_, rfl, rfl, rfl⟩
    · rw [h.nothing_below] at hinfo
      cases hinfo
  · rintro s (rfl | ⟨tail, rfl⟩)
    · rw [List.append_nil, hfind]
      split
      next hsame => rw [hsame, hcached.find_self, Option.map_none]
      next => rw [if_pos rfl]
    · rw [hfind]
      split
      next hsame => rw [hbelow tail hsame.symm, Option.map_none]
      next => rw [h.nothing_below, ite_self]
  · intro key hkeyOld hkeyNew
    have hneOld : key ≠ old := by
      rw [← List.append_nil old]
      exact hkeyOld [] treeSuffix_nil
    rw [hfind, if_neg hneOld]
    split
    next hsame =>
      have hnone : t.find old = none := by
        rw [← Option.not_isSome_iff_eq_none]
        intro hsome
        rw [← List.append_nil old] at hsome
        exact hkeyNew [] treeSuffix_nil hsome (by rw [hsame, List.append_nil])
      rw [hnone, hsame, hcached.find_self, Option.map_none]
    next => rfl

theorem FollowsRename.poolFollows
    (h : FollowsRename SameDataset t (t.renameDatasetMetadataDirDir old new) old new)
    (hold : IsFileUri old) (hcached : t.NotCached new) : t.PoolFollows old new := by
  have hgone : ∀ tail, new = old ++ '/' :: tail →
      (t.renameDatasetMetadataDirDir old new).find new = none := by
    intro tail htail
    have hnone := h.gone _ (treeSuffix_slash tail)
    rwa [← htail] at hnone
  have hnewBelow : ∀ tail, new = old ++ '/' :: tail → t.find old = none := by
    intro tail htail
    cases hinfo : t.find old with
    | none => rfl
    | some info =>
        -- the entry would have to be found under the new name and not to be found there
        rw [← List.append_nil old] at hinfo
        obtain ⟨info', hmoved, -⟩ := h.moved [] info treeSuffix_nil hinfo
        rw [List.append_nil, hgone tail htail] at hmoved
        cases hmoved
  refine ⟨?_, hnewBelow, ?_⟩
  · intro tail
    cases hinfo : t.find (old ++ '/' :: tail) with
    | none => rfl
    | some info =>
        obtain ⟨info', hmoved, -⟩ := h.moved _ info (treeSuffix_slash tail) hinfo
        rw [find_renameDatasetMetadataDirDir_of_none (append_slash_ne_self new tail)
          (hcached _ (treeSuffix_slash tail))] at hmoved
        cases hmoved
  · intro hparent key hkey hchild
    obtain ⟨tail, htail⟩ := exists_tail_of_parent hold hparent
    have hne : old ≠ new := fun heq => append_slash_ne_self old tail (htail.symm.trans heq.symm)
    have hown : (t.replaceUriBasePathDir old new).find old = none := by
      rw [DirTables.find_replaceUriBasePathDir t old hne, hnewBelow tail htail, ite_self]
    have hfound := isSome_find_replaceUriBasePathDir hparent hkey hchild
    rw [← renameDatasetMetadataDirDir_of_none hown, hgone tail htail] at hfound
    cases hfound

end Pool

/-! ## The map of records -/

section Records

variable {t : DirTables Record} {old new : CString}

/-- The keys that a list of insertions leaves in a table. -/
theorem mem_foldl_insertIfNew (rename : CString → CString) (list : List (CString × Record))
    (entries : ExtTreeMap CString Record) (key : CString) :
    key ∈ list.foldl (fun renamed entry => renamed.insertIfNew (rename entry.1) entry.2) entries ↔
      (∃ entry ∈ list, rename entry.1 = key) ∨ key ∈ entries := by
  induction list generalizing entries with
  | nil => simp
  | cons first list ih =>
      rw [List.foldl_cons, ih, ExtTreeMap.mem_insertIfNew, Std.compare_eq_iff_eq]
      simp only [List.mem_cons, exists_eq_or_imp]
      rw [or_left_comm, or_assoc]

/-- The keys of the copied table are the old keys with the name replaced. -/
theorem mem_renamedEntries_iff (old new : CString) (entries : ExtTreeMap CString Record)
    (key : CString) :
    key ∈ renamedEntries old new entries ↔
      ∃ key', key' ∈ entries ∧ replaceFirst old new key' = key := by
  rw [renamedEntries, mem_foldl_insertIfNew]
  constructor
  · rintro (⟨entry, hentry, hkey⟩ | hempty)
    · refine ⟨entry.1, ?_, hkey⟩
      rw [← ExtTreeMap.mem_keys, ← ExtTreeMap.map_fst_toList_eq_keys]
      exact List.mem_map_of_mem hentry
    · exact absurd hempty ExtTreeMap.not_mem_empty
  · rintro ⟨key', hmem, hkey⟩
    rw [← ExtTreeMap.mem_keys, ← ExtTreeMap.map_fst_toList_eq_keys] at hmem
    obtain ⟨entry, hentry, rfl⟩ := List.mem_map.mp hmem
    exact Or.inl ⟨entry, hentry, hkey⟩

theorem find_hierarchicalMapRenameDirDir_of_some {entries : ExtTreeMap CString Record}
    (hentries : t.dirs[old]? = some entries) (key : CString) :
    (t.hierarchicalMapRenameDirDir old new).find key =
      if findLastParentDir key = new then (renamedEntries old new entries)[key]?
      else if key = old then none else t.find key := by
  simp only [hierarchicalMapRenameDirDir, hentries]
  rw [find_setDir, find_remove]

/-- A map without entries under the old directory finds the same after the rename. -/
theorem RecordsFollow.find_hierarchicalMapRenameDirDir (h : t.RecordsFollow old new)
    (hnew : IsFileUri new) (hcached : t.NotCached new) (key : CString) :
    (t.hierarchicalMapRenameDirDir old new).find key = t.find key := by
  cases hentries : t.dirs[old]? with
  | none => simp only [hierarchicalMapRenameDirDir, hentries]
  | some entries =>
      rw [find_hierarchicalMapRenameDirDir_of_some hentries]
      split
      next hparent =>
        rw [hcached.find_of_parent hnew hparent]
        apply ExtTreeMap.getElem?_eq_none
        rw [mem_renamedEntries_iff]
        rintro ⟨key', hmem, rfl⟩
        refine h.no_keys key' ?_ hparent
        rw [held_of_dirs hentries]
        exact ExtTreeMap.isSome_getElem?_iff_mem.mpr hmem
      next =>
        split
        next hkey => rw [hkey, h.nothing.find_self]
        next => rfl

theorem RecordsFollow.followsRename (h : t.RecordsFollow old new) (hnew : IsFileUri new)
    (hcached : t.NotCached new) :
    FollowsRename Eq t (t.hierarchicalMapRenameDirDir old new) old new := by
  have hsame := h.find_hierarchicalMapRenameDirDir hnew hcached
  refine ⟨?_, ?_, fun key _ _ => hsame key⟩
  · intro s record hs hrecord
    rw [h.nothing s hs] at hrecord
    cases hrecord
  · intro s hs
    rw [hsame, h.nothing s hs]

/-- The directory's own record is not moved, and those below it are still found there. -/
theorem FollowsRename.nothing
    (h : FollowsRename Eq t (t.hierarchicalMapRenameDirDir old new) old new)
    (hnew : IsFileUri new) (hcached : t.NotCached new) : t.NotCached old := by
  intro s hs
  cases hrecord : t.find (old ++ s) with
  | none => rfl
  | some record =>
      exfalso
      have hgone := h.gone s hs
      cases hentries : t.dirs[old]? with
      | none =>
          simp only [hierarchicalMapRenameDirDir, hentries] at hgone
          rw [hrecord] at hgone
          cases hgone
      | some entries =>
          rcases hs with rfl | ⟨tail, rfl⟩
          · obtain ⟨record', hmoved, -⟩ := h.moved [] record treeSuffix_nil hrecord
            rw [List.append_nil, find_hierarchicalMapRenameDirDir_of_some hentries,
              if_neg (findLastParentDir_ne_self hnew), hcached.find_self, ite_self] at hmoved
            cases hmoved
          · rw [find_hierarchicalMapRenameDirDir_of_some hentries,
              if_neg (append_slash_ne_self old tail)] at hgone
            split at hgone
            next hparent =>
              rw [hcached.find_of_parent hnew hparent] at hrecord
              cases hrecord
            next =>
              rw [hrecord] at hgone
              cases hgone

theorem FollowsRename.recordsFollow
    (h : FollowsRename Eq t (t.hierarchicalMapRenameDirDir old new) old new)
    (hnew : IsFileUri new) (hcached : t.NotCached new) : t.RecordsFollow old new := by
  have hnothing := h.nothing hnew hcached
  refine ⟨hnothing, ?_⟩
  intro key hkey hparent
  -- the key would be found in the new directory
  have hnone : (t.hierarchicalMapRenameDirDir old new).find (replaceFirst old new key) = none := by
    by_cases hunder : ∃ s, TreeSuffix s ∧ replaceFirst old new key = old ++ s
    · obtain ⟨s, hs, hname⟩ := hunder
      rw [hname]
      exact h.gone s hs
    · rw [h.kept _ (fun s hs hname => hunder ⟨s, hs, hname⟩)]
      · exact hcached.find_of_parent hnew hparent
      · intro s hs hsome
        rw [hnothing s hs] at hsome
        cases hsome
  rw [held] at hkey
  obtain ⟨record, hrecord⟩ := Option.isSome_iff_exists.mp hkey
  obtain ⟨entries, hentries, hentry⟩ := Option.bind_eq_some_iff.mp hrecord
  have hmem : replaceFirst old new key ∈ renamedEntries old new entries := by
    rw [mem_renamedEntries_iff]
    exact ⟨key, ExtTreeMap.isSome_getElem?_iff_mem.mp (Option.isSome_of_eq_some hentry), rfl⟩
  rw [find_hierarchicalMapRenameDirDir_of_some hentries, if_pos hparent] at hnone
  rw [← ExtTreeMap.isSome_getElem?_iff_mem, hnone] at hmem
  cases hmem

end Records

/-! ## Both tables -/

/-- The pool of a client follows the rename of a directory exactly under `PoolFollows`, and its map
of records exactly under `RecordsFollow`. -/
theorem tables_followRename_iff (t : ClientTables) (old new : FileUri)
    (hpool : t.pool.NotCached new) (hrecords : t.records.NotCached new) :
    (FollowsRename SameDataset t.pool (t.renameDirectories old new).pool old new ↔
        t.pool.PoolFollows old new) ∧
      (FollowsRename Eq t.records (t.renameDirectories old new).records old new ↔
        t.records.RecordsFollow old new) :=
  ⟨⟨fun h => h.poolFollows old.2 hpool, fun h => h.followsRename old.2 new.2 hpool⟩,
    ⟨fun h => h.recordsFollow new.2 hrecords, fun h => h.followsRename new.2 hrecords⟩⟩

/-- The pool of a client that has looked at the directory `imss://f`. -/
def directoryPool : DirTables DatasetInfo :=
  addDatasetEntryInPool ⟨∅⟩ exampleFile.1 ⟨0, exampleFile.1, true⟩

theorem find_directoryPool (key : CString) :
    directoryPool.find key =
      if key = exampleFile.1 ∧ findLastParentDir key ≠ exampleFile.1 then
        some ⟨0, exampleFile.1, true⟩
      else none := by
  rw [directoryPool, find_addDatasetEntryInPool, find_empty]
  by_cases hparent : findLastParentDir key = exampleFile.1
  · simp [hparent]
  · simp [hparent]

theorem not_prefix_example : ¬ exampleOther.1 <+: exampleFile.1 := by
  decide

theorem notCached_directoryPool : directoryPool.NotCached exampleOther := by
  intro s _
  rw [find_directoryPool, if_neg]
  rintro ⟨h, -⟩
  exact not_prefix_example ⟨s, h⟩

theorem notCached_empty {V : Type} (dir : CString) : (⟨∅⟩ : DirTables V).NotCached dir :=
  fun _ _ => find_empty _

/-- A client with the directory in its pool. -/
def directoryTables : ClientTables :=
  ⟨⟨∅⟩, directoryPool, 1⟩

/-- The directory itself is renamed. -/
theorem tables_followRename_directory :
    FollowsRename SameDataset directoryTables.pool
        (directoryTables.renameDirectories exampleFile exampleOther).pool exampleFile
        exampleOther ∧
      FollowsRename Eq directoryTables.records
        (directoryTables.renameDirectories exampleFile exampleOther).records exampleFile
        exampleOther := by
  have hiff := tables_followRename_iff directoryTables exampleFile exampleOther
    notCached_directoryPool (notCached_empty _)
  refine ⟨hiff.1.mpr ⟨?_, ?_, ?_⟩, hiff.2.mpr ⟨notCached_empty _, ?_⟩⟩
  · intro tail
    exact (find_directoryPool _).trans (if_neg fun h => append_slash_ne_self _ tail h.1)
  · intro tail h
    have hprefix : ¬ exampleFile.1 <+: exampleOther.1 := by decide
    exact absurd ⟨_, h.symm⟩ hprefix
  · intro h
    exact absurd h (by decide)
  · intro key h
    simp [directoryTables, held] at h

/-- The pool after the file `imss://f/x` has been opened too. -/
def filePool : DirTables DatasetInfo :=
  directoryPool.addDatasetEntryInPool "imss://f/x".toList ⟨1, "imss://f/x".toList, false⟩

/-- The records of the file. -/
def fileRecords : DirTables Record :=
  hierarchicalMapPut ⟨∅⟩ "imss://f/x".toList (1, fun _ => 0)

theorem find_filePool (key : CString) :
    filePool.find key =
      if key = "imss://f/x".toList then some ⟨1, "imss://f/x".toList, false⟩
      else directoryPool.find key := by
  rw [filePool, find_addDatasetEntryInPool]
  simp only [Bool.false_eq_true, false_and, if_false]

theorem find_fileRecords (key : CString) :
    fileRecords.find key = if key = "imss://f/x".toList then some (1, fun _ => 0) else none := by
  rw [fileRecords, find_hierarchicalMapPut, find_empty, Option.none_or]

/-- A client that has the directory and the file in its tables. -/
def fileTables : ClientTables :=
  ⟨fileRecords, filePool, 2⟩

/-- Neither table follows the rename of a directory with a file in it. -/
theorem not_tables_followRename :
    fileTables.pool.NotCached exampleOther ∧
      ¬ FollowsRename SameDataset fileTables.pool
        (fileTables.renameDirectories exampleFile exampleOther).pool exampleFile exampleOther ∧
      fileTables.records.NotCached exampleOther ∧
      ¬ FollowsRename Eq fileTables.records
        (fileTables.renameDirectories exampleFile exampleOther).records exampleFile
        exampleOther := by
  have hprefix : ¬ exampleOther.1 <+: "imss://f/x".toList := by decide
  have hname : exampleFile.1 ++ '/' :: ['x'] = "imss://f/x".toList := by decide
  have hpool : filePool.NotCached exampleOther := by
    intro s hs
    rw [find_filePool, if_neg fun h => hprefix ⟨s, h⟩, notCached_directoryPool s hs]
  have hrecords : fileRecords.NotCached exampleOther := by
    intro s _
    rw [find_fileRecords, if_neg fun h => hprefix ⟨s, h⟩]
  refine ⟨hpool, fun h => ?_, hrecords, fun h => ?_⟩
  · have hnone : filePool.find (exampleFile.1 ++ '/' :: ['x']) = none :=
      (h.poolFollows exampleFile.2 hpool).nothing_below ['x']
    rw [hname, find_filePool, if_pos rfl] at hnone
    cases hnone
  · have hnone : fileRecords.find (exampleFile.1 ++ '/' :: ['x']) = none :=
      (h.recordsFollow exampleOther.2 hrecords).nothing _ (treeSuffix_slash ['x'])
    rw [hname, find_fileRecords, if_pos rfl] at hnone
    cases hnone

end DirTables

end Client

end Hercules
