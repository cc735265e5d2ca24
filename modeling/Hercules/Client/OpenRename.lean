/-
# Open files under a rename

A descriptor stands for a path. What the calls on it work with is found by this path in two tables
of the client: the record of the file in `hierarchical_map`, and its dataset in the pool
`pool_hash_tables_datasetd`. Both are tables of tables, one for each directory.

`imss_rename` moves the entries of these tables to the new path, and `map_fd` keeps the old one.
Before that it looks up both paths, and a directory that is fetched for the pool begins with an
empty table there. The theorem says which open files are still reached by their descriptors
afterwards.
-/

import Hercules.Client.Descriptors
import Hercules.Cluster.Truncate

namespace Hercules

open Std Lib Lib.Text

namespace Client

/-! ## Tables of tables -/

/-- For each directory the table of what is filed in it. -/
structure DirTables (V : Type) where
  dirs : ExtTreeMap CString (ExtTreeMap CString V)

namespace DirTables

variable {V : Type}

/-- What the table of a directory holds under a key. -/
def held (t : DirTables V) (dir key : CString) : Option V :=
  (t.dirs[dir]?).bind fun entries => entries[key]?

/-- The lookup of an entry, in the table of its parent directory. -/
def find (t : DirTables V) (key : CString) : Option V :=
  t.held (findLastParentDir key) key

/-- The table of a directory; one that is missing is created empty. -/
def entries (t : DirTables V) (dir : CString) : ExtTreeMap CString V :=
  (t.dirs[dir]?).getD ∅

/-- A directory gets this table. -/
def setDir (t : DirTables V) (dir : CString) (entries : ExtTreeMap CString V) : DirTables V :=
  ⟨t.dirs.insert dir entries⟩

/-- `HierarchicalMapErase`, `remove_dataset_entry`: nothing happens without the table. -/
def remove (t : DirTables V) (key : CString) : DirTables V :=
  match t.dirs[findLastParentDir key]? with
  | none => t
  | some entries => t.setDir (findLastParentDir key) (entries.erase key)

theorem find_empty (key : CString) : (⟨∅⟩ : DirTables V).find key = none := by
  simp [find, held]

theorem held_of_dirs {t : DirTables V} {dir : CString} {entries : ExtTreeMap CString V}
    (h : t.dirs[dir]? = some entries) (key : CString) : t.held dir key = entries[key]? := by
  rw [held, h, Option.bind_some]

theorem held_eq_entries (t : DirTables V) (dir key : CString) :
    t.held dir key = (t.entries dir)[key]? := by
  rw [held, entries]
  cases t.dirs[dir]? with
  | none => simp
  | some entries => rfl

theorem held_setDir (t : DirTables V) (dir dir' key : CString) (entries : ExtTreeMap CString V) :
    (t.setDir dir entries).held dir' key =
      if dir' = dir then entries[key]? else t.held dir' key := by
  rw [held, setDir, ExtTreeMap.getElem?_insert]
  by_cases h : dir' = dir
  · rw [if_pos h, if_pos (by simp [h]), Option.bind_some]
  · rw [if_neg h, if_neg (by simpa using fun heq => h heq.symm), held]

theorem find_setDir (t : DirTables V) (dir key : CString) (entries : ExtTreeMap CString V) :
    (t.setDir dir entries).find key =
      if findLastParentDir key = dir then entries[key]? else t.find key :=
  held_setDir t dir _ key entries

theorem held_remove (t : DirTables V) (key dir' key' : CString) :
    (t.remove key).held dir' key' =
      if dir' = findLastParentDir key ∧ key' = key then none else t.held dir' key' := by
  rw [remove]
  split
  next hnone =>
    split
    next hsame => rw [hsame.1, held, hnone, Option.bind_none]
    next => rfl
  next entries hentries =>
    rw [held_setDir]
    by_cases hdir : dir' = findLastParentDir key
    · rw [if_pos hdir, ExtTreeMap.getElem?_erase]
      by_cases hsame : key' = key
      · rw [if_pos (by simp [hsame]), if_pos (by exact ⟨hdir, hsame⟩)]
      · rw [if_neg (by simpa using fun h => hsame h.symm), if_neg (by exact fun h => hsame h.2),
          hdir, held_of_dirs hentries]
    · rw [if_neg hdir, if_neg (by exact fun h => hdir h.1)]

theorem find_remove (t : DirTables V) (key key' : CString) :
    (t.remove key).find key' = if key' = key then none else t.find key' := by
  rw [find, held_remove]
  by_cases hsame : key' = key
  · rw [if_pos hsame, if_pos (by exact ⟨congrArg _ hsame, hsame⟩)]
  · rw [if_neg hsame, if_neg (by exact fun h => hsame h.2), find]

end DirTables

/-! ## The records of the files -/

/-- An entry of `hierarchical_map`: the dataset descriptor and the `stat` record. -/
abbrev Record := Int × Memory

namespace DirTables

/-- `HierarchicalMapPut`. An entry that exists stays as it is. -/
def hierarchicalMapPut (t : DirTables Record) (key : CString) (record : Record) :
    DirTables Record :=
  let t := t.setDir (findLastParentDir key)
    ((t.entries (findLastParentDir key)).insertIfNew key record)
  if isDir record.2 ∧ ¬ t.dirs.contains key then t.setDir key ∅ else t

/-- `HierarchicalMapRename`: the new name is filed in the table of the old one. -/
def hierarchicalMapRename (t : DirTables Record) (oldname newname : CString) : DirTables Record :=
  match t.dirs[findLastParentDir oldname]? with
  | none => t
  | some entries => t.setDir (findLastParentDir oldname) (moveKey entries oldname newname)

/-- `key.replace(key.find(old), …)`: the first occurrence is replaced. -/
def replaceFirst (old new : CString) : CString → CString
  | [] => if old = [] then new else []
  | c :: key =>
      if old <+: c :: key then new ++ (c :: key).drop old.length else c :: replaceFirst old new key

/-- The entries of a directory under its new name; the first of two equal keys is kept. -/
def renamedEntries (old new : CString) (entries : ExtTreeMap CString Record) :
    ExtTreeMap CString Record :=
  entries.toList.foldl (fun renamed entry =>
    renamed.insertIfNew (replaceFirst old new entry.1) entry.2) ∅

/-- `HierarchicalMapRenameDirDir`. The old directory keeps its table, and loses its own entry. -/
def hierarchicalMapRenameDirDir (t : DirTables Record) (oldDir rdirDest : CString) :
    DirTables Record :=
  match t.dirs[oldDir]? with
  | none => t
  | some entries => (t.remove oldDir).setDir rdirDest (renamedEntries oldDir rdirDest entries)

theorem find_hierarchicalMapPut (t : DirTables Record) (key key' : CString) (record : Record) :
    (t.hierarchicalMapPut key record).find key' =
      (t.find key').or (if key' = key then some record else none) := by
  have hput : (t.setDir (findLastParentDir key)
      ((t.entries (findLastParentDir key)).insertIfNew key record)).find key' =
      (t.find key').or (if key' = key then some record else none) := by
    rw [find_setDir]
    split
    next hdir =>
      rw [find, held_eq_entries, hdir, ExtTreeMap.getElem?_insertIfNew]
      by_cases hsame : key' = key
      · subst hsame
        by_cases hmem : key' ∈ t.entries (findLastParentDir key')
        · simp [hmem]
        · simp [hmem]
      · rw [if_neg (fun h => hsame (LawfulEqCmp.eq_of_compare h.1).symm), if_neg hsame,
          Option.or_none]
    next hdir =>
      rw [if_neg (fun h => hdir (congrArg findLastParentDir h)), Option.or_none]
  rw [hierarchicalMapPut]
  split
  next hfresh =>
    rw [find_setDir, ← hput]
    split
    next hdir =>
      -- the table is new, so nothing was filed in it
      have hnone := ExtTreeMap.getElem?_eq_none
        (fun h => hfresh.2 (ExtTreeMap.contains_iff_mem.mpr h))
      rw [find, held, hdir, hnone, Option.bind_none]
      simp
    next => rfl
  next => exact hput

/-- Files other than the two are found as before. -/
theorem find_hierarchicalMapRename_of_ne (t : DirTables Record) {oldname newname key : CString}
    (hold : key ≠ oldname) (hnew : key ≠ newname) :
    (t.hierarchicalMapRename oldname newname).find key = t.find key := by
  rw [hierarchicalMapRename]
  split
  next => rfl
  next entries hentries =>
    rw [find_setDir]
    split
    next hdir =>
      rw [getElem?_moveKey_of_ne hold.symm hnew.symm, find, hdir, held_of_dirs hentries]
    next => rfl

/-- An entry that stands under the new name stays there. -/
theorem find_hierarchicalMapRename_of_some (t : DirTables Record) {oldname newname : CString}
    {record : Record} (hne : newname ≠ oldname) (hrecord : t.find newname = some record) :
    (t.hierarchicalMapRename oldname newname).find newname = some record := by
  rw [hierarchicalMapRename]
  split
  next => exact hrecord
  next entries hentries =>
    rw [find_setDir]
    split
    next hdir =>
      rw [find, hdir, held_of_dirs hentries] at hrecord
      exact getElem?_moveKey_of_some hne.symm hrecord
    next => exact hrecord

theorem find_hierarchicalMapRenameDirDir (t : DirTables Record) (oldDir rdirDest key : CString)
    (hne : key ≠ oldDir) :
    (t.hierarchicalMapRenameDirDir oldDir rdirDest).find key =
      if findLastParentDir key = rdirDest then
        (t.dirs[oldDir]?).elim (t.find key) fun entries =>
          (renamedEntries oldDir rdirDest entries)[key]?
      else t.find key := by
  rw [hierarchicalMapRenameDirDir]
  split
  next hnone =>
    rw [hnone, Option.elim_none, ite_self]
  next entries hentries =>
    rw [find_setDir, hentries, Option.elim_some, find_remove, if_neg hne]

end DirTables

/-! ## The pool of datasets -/

/-- A `dataset_info` object: which one it is, its `uri_`, and whether its type is that of a
directory. -/
structure DatasetInfo where
  id : Nat
  uri : CString
  isDir : Bool

namespace DirTables

/-- `add_dataset_entry_in_pool`. The table of a directory is a new one, also if there was one. -/
def addDatasetEntryInPool (t : DirTables DatasetInfo) (datasetUri : CString) (info : DatasetInfo) :
    DirTables DatasetInfo :=
  let t := t.setDir (findLastParentDir datasetUri)
    ((t.entries (findLastParentDir datasetUri)).insert datasetUri info)
  if info.isDir then t.setDir datasetUri ∅ else t

/-- `replace_uri_base_path_regular_file`, with the table of the old name. -/
def replaceUriBasePathRegularFile (t : DirTables DatasetInfo) (old new : CString) :
    DirTables DatasetInfo :=
  match t.find old with
  | none => t
  | some info => (t.remove old).addDatasetEntryInPool new { info with uri := new }

/-- The keys that `replace_uri_base_path_dir` replaces. -/
def isChildKey (old key : CString) : Bool :=
  decide (old <+: key) && (key.length == old.length || (key.drop old.length).head? == some '/')

/-- A dataset takes the name of the directory: the rest of its own name is not used. -/
def replaceKey (new : CString) (entries : ExtTreeMap CString DatasetInfo) (key : CString) :
    ExtTreeMap CString DatasetInfo :=
  match entries[key]? with
  | none => entries
  | some info => (entries.erase key).insert new { info with uri := new }

/-- `replace_uri_base_path_dir` on the table of the old directory, which stays where it is. The keys
are visited in order here; the order of a `GHashTable` is not specified. -/
def replaceUriBasePathDir (t : DirTables DatasetInfo) (old new : CString) : DirTables DatasetInfo :=
  match t.dirs[old]? with
  | none => t
  | some entries =>
      t.setDir old ((entries.keys.filter (isChildKey old)).foldl (replaceKey new) entries)

theorem held_addDatasetEntryInPool (t : DirTables DatasetInfo) (datasetUri dir key : CString)
    (info : DatasetInfo) :
    (t.addDatasetEntryInPool datasetUri info).held dir key =
      if info.isDir ∧ dir = datasetUri then none
      else if dir = findLastParentDir datasetUri ∧ key = datasetUri then some info
      else t.held dir key := by
  have hadd : (t.setDir (findLastParentDir datasetUri)
      ((t.entries (findLastParentDir datasetUri)).insert datasetUri info)).held dir key =
      if dir = findLastParentDir datasetUri ∧ key = datasetUri then some info
      else t.held dir key := by
    rw [held_setDir]
    by_cases hdir : dir = findLastParentDir datasetUri
    · rw [if_pos hdir, ExtTreeMap.getElem?_insert]
      by_cases hsame : key = datasetUri
      · rw [if_pos (by simp [hsame]), if_pos (by exact ⟨hdir, hsame⟩)]
      · rw [if_neg (by simpa using fun h => hsame h.symm), if_neg (by exact fun h => hsame h.2),
          hdir, held_eq_entries]
    · rw [if_neg hdir, if_neg (by exact fun h => hdir h.1)]
  rw [addDatasetEntryInPool]
  by_cases hisDir : info.isDir
  · rw [if_pos hisDir, held_setDir, hadd]
    by_cases hdir : dir = datasetUri
    · rw [if_pos hdir, if_pos (by exact ⟨hisDir, hdir⟩)]
      simp
    · rw [if_neg hdir, if_neg fun h : info.isDir ∧ dir = datasetUri => hdir h.2]
  · rw [if_neg hisDir, if_neg fun h : info.isDir ∧ dir = datasetUri => hisDir h.1, hadd]

theorem find_addDatasetEntryInPool (t : DirTables DatasetInfo) (datasetUri key : CString)
    (info : DatasetInfo) :
    (t.addDatasetEntryInPool datasetUri info).find key =
      if info.isDir ∧ findLastParentDir key = datasetUri then none
      else if key = datasetUri then some info else t.find key := by
  have hkey : (findLastParentDir key = findLastParentDir datasetUri ∧ key = datasetUri) =
      (key = datasetUri) := by
    apply propext
    exact ⟨And.right, fun h => ⟨congrArg _ h, h⟩⟩
  rw [find, held_addDatasetEntryInPool, find]
  simp only [hkey]

theorem find_replaceUriBasePathRegularFile (t : DirTables DatasetInfo) {old new key : CString}
    {info : DatasetInfo} (hinfo : t.find old = some info) :
    (t.replaceUriBasePathRegularFile old new).find key =
      if info.isDir ∧ findLastParentDir key = new then none
      else if key = new then some { info with uri := new }
      else if key = old then none else t.find key := by
  simp only [replaceUriBasePathRegularFile, hinfo]
  rw [find_addDatasetEntryInPool, find_remove]

/-- Whatever is found after the keys have been replaced, except under the new name, stood there
before and was not one of the keys. -/
theorem getElem?_foldl_replaceKey {new : CString} (keys : List CString) {key : CString}
    (hne : key ≠ new) (entries : ExtTreeMap CString DatasetInfo) :
    (keys.foldl (replaceKey new) entries)[key]? = if key ∈ keys then none else entries[key]? := by
  induction keys generalizing entries with
  | nil => simp
  | cons first keys ih =>
      have hstep : (replaceKey new entries first)[key]? =
          if key = first then none else entries[key]? := by
        rw [replaceKey]
        split
        next hnone =>
          split
          next hsame => rw [hsame, hnone]
          next => rfl
        next info hinfo =>
          rw [ExtTreeMap.getElem?_insert, if_neg (by simpa using hne.symm),
            ExtTreeMap.getElem?_erase]
          by_cases hsame : key = first
          · rw [if_pos hsame, if_pos (by simp [hsame])]
          · rw [if_neg hsame, if_neg (by simpa using fun h => hsame h.symm)]
      rw [List.foldl_cons, ih, hstep]
      by_cases hmem : key ∈ keys
      · rw [if_pos hmem, if_pos (List.mem_cons_of_mem _ hmem)]
      · rw [if_neg hmem]
        by_cases hsame : key = first
        · rw [if_pos hsame, if_pos (by simp [hsame])]
        · rw [if_neg hsame, if_neg (by simp [hsame, hmem])]

theorem find_replaceUriBasePathDir (t : DirTables DatasetInfo) (old : CString) {new key : CString}
    (hne : key ≠ new) :
    (t.replaceUriBasePathDir old new).find key =
      if findLastParentDir key = old ∧ isChildKey old key then none else t.find key := by
  rw [replaceUriBasePathDir]
  split
  next hnone =>
    split
    next hchild => rw [find, held, hchild.1, hnone, Option.bind_none]
    next => rfl
  next entries hentries =>
    rw [find_setDir]
    by_cases hdir : findLastParentDir key = old
    · rw [if_pos hdir, getElem?_foldl_replaceKey _ hne]
      have hfind : t.find key = entries[key]? := by
        rw [find, hdir, held_of_dirs hentries]
      by_cases hchild : isChildKey old key
      · rw [if_pos (show findLastParentDir key = old ∧ isChildKey old key from ⟨hdir, hchild⟩)]
        split
        next => rfl
        next hmem =>
          apply ExtTreeMap.getElem?_eq_none
          intro h
          exact hmem (List.mem_filter.mpr ⟨ExtTreeMap.mem_keys.mpr h, hchild⟩)
      · rw [if_neg fun h : findLastParentDir key = old ∧ isChildKey old key => hchild h.2, hfind]
        split
        next hmem => exact absurd (List.mem_filter.mp hmem).2 hchild
        next => rfl
    · rw [if_neg hdir, if_neg (fun h => hdir h.1)]

end DirTables

/-! ## The tables of a client -/

/-- What the servers answer to an `imss_getattr`: the `uri_` of the dataset and whether it is a
directory, and the record in block 0. -/
structure GetattrAnswer where
  dataset : Option (CString × Bool)
  stat : Option Memory

/-- What the servers answer to a rename: to the lookups of the old path, of the directory of the new
one and of the new path, to the two requests of `imss_unlink`, and to `rename_dataset_metadata`. -/
structure RenameAnswers where
  old : GetattrAnswer
  parent : GetattrAnswer
  new : GetattrAnswer
  deleteDataset : Int
  unlinkDataset : Int
  renameMetadata : Int

/-- The records, the pool, and the number of datasets that have been received so far. -/
structure ClientTables where
  records : DirTables Record
  pool : DirTables DatasetInfo
  received : Nat

/-- What `imss_rename` decides after its lookups. -/
inductive RenamePlan
  | refused (result : Int)
  | directories
  | file (destination : CString)
  deriving DecidableEq

/-- `EPERM`. -/
def eperm : Int := 1

/-- `get_basename`. -/
def getBasename (path : CString) : CString :=
  if path = [] then ['.']
  else
    let stripped := (path.reverse.dropWhile (· == '/')).reverse
    if stripped = [] then ['/'] else (stripped.reverse.takeWhile (· != '/')).reverse

/-- `ConcatLastSlashC`. -/
def concatLastSlash (pathname : CString) : CString :=
  if pathname ≠ [] ∧ pathname.getLast? ≠ some '/' then pathname ++ ['/'] else pathname

namespace ClientTables

/-- `open_dataset`, for a file that is no link: its result if it is not negative. -/
def openDataset (t : ClientTables) (path : CString) (answer : GetattrAnswer) :
    Option (Int × ClientTables) :=
  match t.pool.find path with
  | some _ => some (1, t)
  | none =>
      answer.dataset.map fun dataset =>
        (0, { t with
          pool := t.pool.addDatasetEntryInPool path ⟨t.received, dataset.1, dataset.2⟩
          received := t.received + 1 })

/-- `imss_getattr` of a path without a record: whether it is a directory, if it is there. -/
def imssGetattr (t : ClientTables) (path : CString) (answer : GetattrAnswer) :
    Option Bool × ClientTables :=
  if path = imssRoot then (some true, t)
  else
    match t.openDataset path answer with
    | none => (none, t)
    | some (ds, opened) =>
        match answer.stat with
        | none => (none, opened)
        | some stat =>
            (some (isDir stat),
              { opened with records := opened.records.hierarchicalMapPut path (ds, stat) })

/-- A path is looked up among the records, and else at the servers. -/
def lookUp (t : ClientTables) (path : CString) (answer : GetattrAnswer) :
    Option Bool × ClientTables :=
  match fdLookup (t.records.find path) with
  | some record => (some (isDir record.2), t)
  | none => t.imssGetattr path answer

/-- The check of the directory that the new path is in. It fails if there is a record for it. -/
def checkParent (t : ClientTables) (old new : CString) (answer : GetattrAnswer) :
    Bool × ClientTables :=
  if ¬ findLastParentDir new <+: old ∧ belowDirectory new then
    match fdLookup (t.records.find (findLastParentDir new)) with
    | some _ => (false, t)
    | none =>
        let found := t.imssGetattr (findLastParentDir new) answer
        (found.1.isSome, found.2)
  else (true, t)

/-- Which rename it is, from the kinds of the two paths. -/
def planOf (old new : CString) (oldIsDir newIsDir : Bool) : RenamePlan :=
  match oldIsDir, newIsDir with
  | true, true => .directories
  | true, false => .refused (-eperm)
  | false, true =>
      if old = concatLastSlash new ++ getBasename old then .refused (-eperm)
      else .file (concatLastSlash new ++ getBasename old)
  | false, false => .file new

/-- The part of `imss_rename` before anything is renamed. -/
def renamePlan (t : ClientTables) (old new : CString) (answers : RenameAnswers) :
    RenamePlan × ClientTables :=
  if old = new then (.refused (-eperm), t)
  else
    let oldFound := t.lookUp old answers.old
    match oldFound.1 with
    | none => (.refused (-enoent), oldFound.2)
    | some oldIsDir =>
        let checked := oldFound.2.checkParent old new answers.parent
        if checked.1 then
          let newFound := checked.2.lookUp new answers.new
          (planOf old new oldIsDir (newFound.1.getD oldIsDir), newFound.2)
        else (.refused (-enoent), checked.2)

/-- `imss_unlink`. `unlink_dataset` fails without a dataset in the pool. -/
def imssUnlink (t : ClientTables) (path : CString) (answers : RenameAnswers) : ClientTables :=
  if answers.deleteDataset = 0 ∧ (t.pool.find path).isSome ∧ answers.unlinkDataset = 0 then
    { t with records := t.records.remove path, pool := t.pool.remove path }
  else t

/-- The rename of a regular file. -/
def renameFile (t : ClientTables) (old destination : CString) (answers : RenameAnswers) :
    Int × ClientTables :=
  let t := t.imssUnlink destination answers
  if t.pool.dirs.contains (findLastParentDir old) then
    let t := { t with pool := t.pool.replaceUriBasePathRegularFile old destination }
    if answers.renameMetadata < 0 then (answers.renameMetadata, t)
    else (0, { t with records := t.records.hierarchicalMapRename old destination })
  else (-1, t)

/-- The rename of a directory. -/
def renameDirectories (t : ClientTables) (old new : CString) : ClientTables :=
  { t with
    pool := (t.pool.replaceUriBasePathDir old new).replaceUriBasePathRegularFile old new
    records := t.records.hierarchicalMapRenameDirDir old new }

/-- `imss_rename`. -/
def imssRename (t : ClientTables) (old new : CString) (answers : RenameAnswers) :
    Int × ClientTables :=
  let plan := t.renamePlan old new answers
  match plan.1 with
  | .refused result => (result, plan.2)
  | .directories => (0, plan.2.renameDirectories old new)
  | .file destination => plan.2.renameFile old destination answers

/-- The record and the dataset that the calls on an open file work with. -/
def file (t : ClientTables) (path : CString) : Option (Record × DatasetInfo) :=
  (fdLookup (t.records.find path)).bind fun record =>
    if isDir record.2 then none else (t.pool.find path).map fun info => (record, info)

/-- The rename takes from the file what the calls on it work with. -/
def Touches (t : ClientTables) (old new : CString) (answers : RenameAnswers) (path : CString)
    (record : Record) : Prop :=
  let plan := t.renamePlan old new answers
  plan.2.pool.find path = none ∨
    match plan.1 with
    | .refused _ => False
    | .directories =>
        findLastParentDir path = old ∧ DirTables.isChildKey old path ∨
        findLastParentDir path = new ∧
          ((findLastParentDir old ≠ old ∧ ∃ info, plan.2.pool.find old = some info ∧ info.isDir) ∨
            ∃ entries, plan.2.records.dirs[old]? = some entries ∧
              (DirTables.renamedEntries old new entries)[path]? ≠ some record)
    | .file destination =>
        path = old ∨
        path = destination ∧ ((plan.2.pool.find old).isSome ∨
          answers.deleteDataset = 0 ∧ answers.unlinkDataset = 0) ∨
        findLastParentDir path = destination ∧ ∃ info, plan.2.pool.find old = some info ∧ info.isDir

/-! ## What the lookups do -/

theorem file_eq_some_iff {t : ClientTables} {path : CString} {record : Record}
    {info : DatasetInfo} :
    t.file path = some (record, info) ↔
      (t.records.find path = some record ∧ 0 ≤ record.1 ∧ isDir record.2 = false) ∧
        t.pool.find path = some info := by
  rw [file, fdLookup]
  constructor
  · intro h
    obtain ⟨found, hfound, h⟩ := Option.bind_eq_some_iff.mp h
    obtain ⟨hrecord, hds⟩ := Option.filter_eq_some_iff.mp hfound
    split at h
    next => cases h
    next hdir =>
      obtain ⟨info', hinfo, hpair⟩ := Option.map_eq_some_iff.mp h
      cases hpair
      exact ⟨⟨hrecord, by simpa using hds, by simpa using hdir⟩, hinfo⟩
  · rintro ⟨⟨hrecord, hds, hdir⟩, hinfo⟩
    rw [hrecord, Option.filter_some, if_pos (by simpa using hds), Option.bind_some,
      if_neg (by simp [hdir]), hinfo, Option.map_some]

/-- A lookup adds records and datasets. Of the old datasets it can only drop some. -/
structure LooksUp (t t' : ClientTables) : Prop where
  records : ∀ key record, t.records.find key = some record → t'.records.find key = some record
  received : t.received ≤ t'.received
  pool : ∀ key info, t'.pool.find key = some info → t.pool.find key = some info ∨
    t.received ≤ info.id ∧ fdLookup (t.records.find key) = none

namespace LooksUp

variable {t t' t'' : ClientTables}

theorem refl (t : ClientTables) : LooksUp t t :=
  ⟨fun _ _ h => h, le_rfl, fun _ _ h => Or.inl h⟩

theorem fdLookup_eq_none (h : LooksUp t t') {key : CString}
    (hnone : fdLookup (t'.records.find key) = none) : fdLookup (t.records.find key) = none := by
  cases hrecord : t.records.find key with
  | none => rfl
  | some record => rwa [h.records key record hrecord] at hnone

theorem trans (h : LooksUp t t') (h' : LooksUp t' t'') : LooksUp t t'' := by
  refine ⟨fun key record hrecord => h'.records key record (h.records key record hrecord),
    h.received.trans h'.received, ?_⟩
  intro key info hinfo
  rcases h'.pool key info hinfo with hold | ⟨hid, hrecord⟩
  · exact h.pool key info hold
  · exact Or.inr ⟨h.received.trans hid, h.fdLookup_eq_none hrecord⟩

theorem openDataset {path : CString} {answer : GetattrAnswer} {ds : Int}
    (hrecord : fdLookup (t.records.find path) = none)
    (h : t.openDataset path answer = some (ds, t')) : LooksUp t t' := by
  rw [ClientTables.openDataset] at h
  split at h
  next =>
    cases h
    exact refl t
  next =>
    obtain ⟨dataset, -, hpair⟩ := Option.map_eq_some_iff.mp h
    cases hpair
    refine ⟨fun _ _ hrecord => hrecord, Nat.le_succ _, ?_⟩
    intro key info hinfo
    simp only at hinfo
    rw [DirTables.find_addDatasetEntryInPool] at hinfo
    split at hinfo
    next => cases hinfo
    next =>
      split at hinfo
      next hsame =>
        cases hinfo
        exact Or.inr ⟨le_rfl, hsame ▸ hrecord⟩
      next => exact Or.inl hinfo

theorem put (t : ClientTables) (path : CString) (record : Record) :
    LooksUp t { t with records := t.records.hierarchicalMapPut path record } := by
  refine ⟨fun key found hfound => ?_, le_rfl, fun _ _ h => Or.inl h⟩
  rw [DirTables.find_hierarchicalMapPut, hfound, Option.some_or]

theorem getattr {path : CString} (answer : GetattrAnswer)
    (hrecord : fdLookup (t.records.find path) = none) :
    LooksUp t (t.imssGetattr path answer).2 := by
  rw [imssGetattr]
  split
  next => exact refl t
  next =>
    split
    next => exact refl t
    next ds opened hopened =>
      have hlooks := openDataset hrecord hopened
      split
      next => exact hlooks
      next stat _ => exact hlooks.trans (put opened path (ds, stat))

theorem lookUp (t : ClientTables) (path : CString) (answer : GetattrAnswer) :
    LooksUp t (t.lookUp path answer).2 := by
  rw [ClientTables.lookUp]
  split
  next => exact refl t
  next hrecord => exact getattr answer hrecord

theorem checkParent (t : ClientTables) (old new : CString) (answer : GetattrAnswer) :
    LooksUp t (t.checkParent old new answer).2 := by
  rw [ClientTables.checkParent]
  split
  next =>
    split
    next => exact refl t
    next hrecord => exact getattr answer hrecord
  next => exact refl t

end LooksUp

/-- What each lookup keeps, the lookups of a rename keep together. -/
theorem renamePlan_keeps {P : ClientTables → Prop} {t : ClientTables} {old new : CString}
    {answers : RenameAnswers} (ht : P t)
    (hlookUp : ∀ t path answer, P t → P (t.lookUp path answer).2)
    (hcheck : ∀ t answer, P t → P (t.checkParent old new answer).2) :
    P (t.renamePlan old new answers).2 := by
  rw [renamePlan]
  split
  next => exact ht
  next =>
    have hold := hlookUp t old answers.old ht
    have hparent := hcheck _ answers.parent hold
    cases hfound : (t.lookUp old answers.old).1 with
    | none => simpa only [hfound] using hold
    | some oldIsDir =>
        simp only [hfound]
        split
        next => exact hlookUp _ new answers.new hparent
        next => exact hparent

theorem looksUp_renamePlan (t : ClientTables) (old new : CString) (answers : RenameAnswers) :
    LooksUp t (t.renamePlan old new answers).2 := by
  apply renamePlan_keeps (LooksUp.refl t)
  · intro t' path answer h
    exact h.trans (LooksUp.lookUp t' path answer)
  · intro t' answer h
    exact h.trans (LooksUp.checkParent t' old new answer)

/-- A rename that is not refused has found the old path, and goes by the kinds of the two. -/
theorem renamePlan_eq_planOf {t : ClientTables} {old new : CString} {answers : RenameAnswers}
    {plan : RenamePlan} (hplan : (t.renamePlan old new answers).1 = plan)
    (hgoes : ∀ result, plan ≠ .refused result) :
    old ≠ new ∧ ∃ oldIsDir t', (t.lookUp old answers.old).1 = some oldIsDir ∧ LooksUp t t' ∧
      planOf old new oldIsDir ((t'.lookUp new answers.new).1.getD oldIsDir) = plan := by
  rw [renamePlan] at hplan
  split at hplan
  next => exact absurd hplan.symm (hgoes _)
  next hne =>
    refine ⟨hne, ?_⟩
    cases hfound : (t.lookUp old answers.old).1 with
    | none =>
        simp only [hfound] at hplan
        exact absurd hplan.symm (hgoes _)
    | some oldIsDir =>
        have hlooks := (LooksUp.lookUp t old answers.old).trans
          (LooksUp.checkParent _ old new answers.parent)
        simp only [hfound] at hplan
        split at hplan
        next => exact ⟨oldIsDir, _, rfl, hlooks, hplan⟩
        next => exact absurd hplan.symm (hgoes _)

/-- A path with the record of a regular file is looked up as such. -/
theorem lookUp_of_file {t : ClientTables} {path : CString} {record : Record}
    (hrecord : t.records.find path = some record) (hds : 0 ≤ record.1)
    (hfile : isDir record.2 = false) (answer : GetattrAnswer) :
    t.lookUp path answer = (some false, t) := by
  rw [lookUp, hrecord, fdLookup, Option.filter_some, if_pos (by simpa using hds)]
  simp only [hfile]

theorem planOf_eq_directories {old new : CString} {oldIsDir newIsDir : Bool}
    (h : planOf old new oldIsDir newIsDir = .directories) : oldIsDir = true ∧ newIsDir = true := by
  cases oldIsDir with
  | true =>
      cases newIsDir with
      | true => exact ⟨rfl, rfl⟩
      | false => cases h
  | false =>
      cases newIsDir with
      | true =>
          rw [planOf] at h
          split at h <;> cases h
      | false => cases h

theorem planOf_eq_file {old new destination : CString} {oldIsDir newIsDir : Bool} (hne : old ≠ new)
    (h : planOf old new oldIsDir newIsDir = .file destination) : destination ≠ old := by
  cases oldIsDir with
  | true => cases newIsDir <;> cases h
  | false =>
      cases newIsDir with
      | true =>
          rw [planOf] at h
          split at h
          next => cases h
          next hother =>
            cases h
            exact Ne.symm hother
      | false =>
          cases h
          exact Ne.symm hne

theorem renamePlan_ne {t : ClientTables} {old new : CString} {answers : RenameAnswers}
    (hplan : (t.renamePlan old new answers).1 = .directories) : old ≠ new :=
  (renamePlan_eq_planOf hplan (by simp)).1

theorem renamePlan_directories {t : ClientTables} {old new path : CString} {answers : RenameAnswers}
    {record : Record} (hrecord : t.records.find path = some record) (hds : 0 ≤ record.1)
    (hfile : isDir record.2 = false) (hplan : (t.renamePlan old new answers).1 = .directories) :
    path ≠ old ∧ path ≠ new := by
  obtain ⟨-, oldIsDir, t', hfound, hlooks, heq⟩ := renamePlan_eq_planOf hplan (by simp)
  obtain ⟨hold, hnew⟩ := planOf_eq_directories heq
  constructor
  · rintro rfl
    rw [lookUp_of_file hrecord hds hfile, hold] at hfound
    cases hfound
  · rintro rfl
    rw [lookUp_of_file (hlooks.records _ _ hrecord) hds hfile] at hnew
    cases hnew

theorem renamePlan_file {t : ClientTables} {old new destination : CString} {answers : RenameAnswers}
    (hplan : (t.renamePlan old new answers).1 = .file destination) : destination ≠ old := by
  obtain ⟨hne, oldIsDir, t', -, -, heq⟩ := renamePlan_eq_planOf hplan (by simp)
  exact planOf_eq_file hne heq

/-! ## Each dataset has one place -/

end ClientTables

namespace DirTables

/-- The objects in the pool have been received, and no two places share one. -/
structure Sound (received : Nat) (pool : DirTables DatasetInfo) : Prop where
  received : ∀ dir key info, pool.held dir key = some info → info.id < received
  distinct : ∀ dir key dir' key' info info', pool.held dir key = some info →
    pool.held dir' key' = some info' → info.id = info'.id → dir = dir' ∧ key = key'

variable {received : Nat} {pool pool' : DirTables DatasetInfo}

/-- Objects that come from different places have different places. -/
theorem Sound.of_origin (hsound : Sound received pool)
    (origin : CString → CString → CString × CString)
    (horigin : ∀ dir key info, pool'.held dir key = some info →
      ∃ info', pool.held (origin dir key).1 (origin dir key).2 = some info' ∧ info'.id = info.id)
    (hinj : ∀ dir key dir' key', (pool'.held dir key).isSome → (pool'.held dir' key').isSome →
      origin dir key = origin dir' key' → dir = dir' ∧ key = key') : Sound received pool' := by
  refine ⟨fun dir key info hinfo => ?_, fun dir key dir' key' info info' hinfo hinfo' hid => ?_⟩
  · obtain ⟨old, hold, hsame⟩ := horigin dir key info hinfo
    exact hsame ▸ hsound.received _ _ old hold
  · obtain ⟨old, hold, hsame⟩ := horigin dir key info hinfo
    obtain ⟨old', hold', hsame'⟩ := horigin dir' key' info' hinfo'
    have hplace := hsound.distinct _ _ _ _ old old' hold hold' (by rw [hsame, hsame', hid])
    exact hinj dir key dir' key' (by simp [hinfo]) (by simp [hinfo'])
      (Prod.ext hplace.1 hplace.2)

theorem sound_empty : Sound 0 ⟨∅⟩ := by
  have hheld : ∀ dir key, (DirTables.mk ∅ : DirTables DatasetInfo).held dir key = none := by
    intro dir key
    simp [held]
  refine ⟨fun dir key info h => ?_, fun dir key _ _ info _ h _ _ => ?_⟩
  · rw [hheld] at h
    cases h
  · rw [hheld] at h
    cases h

theorem Sound.remove (hsound : Sound received pool) (key : CString) :
    Sound received (pool.remove key) := by
  refine hsound.of_origin (fun dir key => (dir, key)) (fun dir key' info hinfo => ?_)
    (fun _ _ _ _ _ _ h => ⟨congrArg Prod.fst h, congrArg Prod.snd h⟩)
  rw [held_remove] at hinfo
  split at hinfo
  next => cases hinfo
  next => exact ⟨info, hinfo, rfl⟩

/-- A dataset that is received is a new object. -/
theorem Sound.add (hsound : Sound received pool) (datasetUri uri : CString) (isDir : Bool) :
    Sound (received + 1) (pool.addDatasetEntryInPool datasetUri ⟨received, uri, isDir⟩) := by
  have hcases : ∀ dir key info,
      (pool.addDatasetEntryInPool datasetUri ⟨received, uri, isDir⟩).held dir key = some info →
      (dir = findLastParentDir datasetUri ∧ key = datasetUri) ∧ info.id = received ∨
        pool.held dir key = some info ∧ info.id < received := by
    intro dir key info hinfo
    rw [held_addDatasetEntryInPool] at hinfo
    split at hinfo
    next => cases hinfo
    next =>
      split at hinfo
      next hplace =>
        cases hinfo
        exact Or.inl ⟨hplace, rfl⟩
      next => exact Or.inr ⟨hinfo, hsound.received dir key info hinfo⟩
  refine ⟨fun dir key info hinfo => ?_, fun dir key dir' key' info info' hinfo hinfo' hid => ?_⟩
  · rcases hcases dir key info hinfo with ⟨-, h⟩ | ⟨-, h⟩
    · omega
    · omega
  · rcases hcases dir key info hinfo with ⟨hplace, h⟩ | ⟨hold, h⟩
    · rcases hcases dir' key' info' hinfo' with ⟨hplace', -⟩ | ⟨-, h'⟩
      · exact ⟨hplace.1.trans hplace'.1.symm, hplace.2.trans hplace'.2.symm⟩
      · omega
    · rcases hcases dir' key' info' hinfo' with ⟨-, h'⟩ | ⟨hold', -⟩
      · omega
      · exact hsound.distinct dir key dir' key' info info' hold hold' hid

theorem Sound.replaceUriBasePathRegularFile (hsound : Sound received pool) (old new : CString) :
    Sound received (pool.replaceUriBasePathRegularFile old new) := by
  rw [DirTables.replaceUriBasePathRegularFile]
  split
  next => exact hsound
  next info hinfo =>
    have hheld : ∀ dir key, (((pool.remove old).addDatasetEntryInPool new
        { info with uri := new }).held dir key).isSome →
        dir = findLastParentDir new ∧ key = new ∨
          ¬ (dir = findLastParentDir new ∧ key = new) ∧
          ¬ (dir = findLastParentDir old ∧ key = old) := by
      intro dir key hsome
      rw [held_addDatasetEntryInPool, held_remove] at hsome
      grind
    refine hsound.of_origin
      (fun dir key => if dir = findLastParentDir new ∧ key = new then (findLastParentDir old, old)
        else (dir, key)) (fun dir key found hfound => ?_)
      (fun dir key dir' key' hsome hsome' h => ?_)
    · rw [held_addDatasetEntryInPool, held_remove] at hfound
      split at hfound
      next => cases hfound
      next =>
        split at hfound
        next hplace =>
          cases hfound
          rw [if_pos hplace]
          exact ⟨info, hinfo, rfl⟩
        next hplace =>
          rw [if_neg hplace]
          split at hfound
          next => cases hfound
          next => exact ⟨found, hfound, rfl⟩
    · have hplace := hheld dir key hsome
      have hplace' := hheld dir' key' hsome'
      grind

theorem Sound.replaceKey {dir : CString} {entries : ExtTreeMap CString DatasetInfo}
    (hsound : Sound received (pool.setDir dir entries)) (new key : CString) :
    Sound received (pool.setDir dir (DirTables.replaceKey new entries key)) := by
  rw [DirTables.replaceKey]
  split
  next => exact hsound
  next info hinfo =>
    have hentries : ∀ key', ((entries.erase key).insert new { info with uri := new })[key']? =
        if key' = new then some { info with uri := new }
        else if key' = key then none else entries[key']? := by
      intro key'
      rw [ExtTreeMap.getElem?_insert, ExtTreeMap.getElem?_erase]
      simp only [LawfulEqCmp.compare_eq_iff_eq, @eq_comm _ key']
    refine hsound.of_origin
      (fun dir' key' => if dir' = dir ∧ key' = new then (dir, key) else (dir', key'))
      (fun dir' key' found hfound => ?_) (fun dir₁ key₁ dir₂ key₂ hsome₁ hsome₂ h => ?_)
    · rw [held_setDir, hentries] at hfound
      split
      next hplace =>
        rw [if_pos hplace.1, if_pos hplace.2] at hfound
        cases hfound
        exact ⟨info, by rw [held_setDir, if_pos rfl, hinfo], rfl⟩
      next hplace =>
        refine ⟨found, ?_, rfl⟩
        rw [held_setDir]
        grind
    · rw [held_setDir, hentries] at hsome₁ hsome₂
      grind

theorem Sound.replaceUriBasePathDir (hsound : Sound received pool) (old new : CString) :
    Sound received (pool.replaceUriBasePathDir old new) := by
  rw [DirTables.replaceUriBasePathDir]
  split
  next => exact hsound
  next entries hentries =>
    have hself : Sound received (pool.setDir old entries) := by
      refine hsound.of_origin (fun dir key => (dir, key)) (fun dir key info hinfo => ?_)
        (fun _ _ _ _ _ _ h => ⟨congrArg Prod.fst h, congrArg Prod.snd h⟩)
      rw [held_setDir] at hinfo
      split at hinfo
      next hdir => exact ⟨info, by rw [hdir, held_of_dirs hentries, hinfo], rfl⟩
      next => exact ⟨info, hinfo, rfl⟩
    -- one key after the other
    have hrun : ∀ (keys : List CString) (entries : ExtTreeMap CString DatasetInfo),
        Sound received (pool.setDir old entries) →
        Sound received (pool.setDir old (keys.foldl (DirTables.replaceKey new) entries)) := by
      intro keys
      induction keys with
      | nil => exact fun _ h => h
      | cons key keys ih =>
          intro entries h
          exact ih _ (h.replaceKey new key)
    exact hrun _ entries hself

end DirTables

namespace ClientTables

/-- The pool of a client is sound. -/
def Sound (t : ClientTables) : Prop :=
  t.pool.Sound t.received

variable {t : ClientTables}

theorem Sound.openDataset {opened : ClientTables} {path : CString} {answer : GetattrAnswer}
    {ds : Int}
    (hsound : t.Sound) (h : t.openDataset path answer = some (ds, opened)) : opened.Sound := by
  rw [ClientTables.openDataset] at h
  split at h
  next =>
    cases h
    exact hsound
  next =>
    obtain ⟨dataset, -, hpair⟩ := Option.map_eq_some_iff.mp h
    cases hpair
    exact DirTables.Sound.add hsound path dataset.1 dataset.2

theorem Sound.imssGetattr (hsound : t.Sound) (path : CString) (answer : GetattrAnswer) :
    (t.imssGetattr path answer).2.Sound := by
  rw [ClientTables.imssGetattr]
  split
  next => exact hsound
  next =>
    split
    next => exact hsound
    next ds opened hopened =>
      have hopen := hsound.openDataset hopened
      split
      next => exact hopen
      next => exact hopen

theorem Sound.lookUp (hsound : t.Sound) (path : CString) (answer : GetattrAnswer) :
    (t.lookUp path answer).2.Sound := by
  rw [ClientTables.lookUp]
  split
  next => exact hsound
  next => exact hsound.imssGetattr path answer

theorem Sound.checkParent (hsound : t.Sound) (old new : CString) (answer : GetattrAnswer) :
    (t.checkParent old new answer).2.Sound := by
  rw [ClientTables.checkParent]
  split
  next =>
    split
    next => exact hsound
    next => exact hsound.imssGetattr _ answer
  next => exact hsound

theorem Sound.renamePlan (hsound : t.Sound) (old new : CString) (answers : RenameAnswers) :
    (t.renamePlan old new answers).2.Sound := by
  apply renamePlan_keeps hsound
  · intro t' path answer h
    exact h.lookUp path answer
  · intro t' answer h
    exact h.checkParent old new answer

theorem Sound.renameFile (hsound : t.Sound) (old destination : CString) (answers : RenameAnswers) :
    (t.renameFile old destination answers).2.Sound := by
  have hunlink : (t.imssUnlink destination answers).Sound := by
    rw [imssUnlink]
    split
    next => exact DirTables.Sound.remove hsound destination
    next => exact hsound
  rw [ClientTables.renameFile]
  split
  next =>
    split
    next => exact DirTables.Sound.replaceUriBasePathRegularFile hunlink old destination
    next => exact DirTables.Sound.replaceUriBasePathRegularFile hunlink old destination
  next => exact hunlink

theorem Sound.imssRename (hsound : t.Sound) (old new : CString) (answers : RenameAnswers) :
    (t.imssRename old new answers).2.Sound := by
  have hplan := hsound.renamePlan old new answers
  rw [ClientTables.imssRename]
  cases (t.renamePlan old new answers).1 with
  | refused => exact hplan
  | directories =>
      exact DirTables.Sound.replaceUriBasePathRegularFile
        (DirTables.Sound.replaceUriBasePathDir hplan old new) old new
  | file destination => exact hplan.renameFile old destination answers

/-! ## What the rename does to an open file -/

variable {old new path destination : CString} {answers : RenameAnswers} {record : Record}
  {info : DatasetInfo}

theorem isChildKey_self (key : CString) : DirTables.isChildKey key key = true := by
  simp [DirTables.isChildKey]

/-- The dataset of a file is still in the pool if the file is in neither of the two directories. For
the new one it matters whether its table is made anew. -/
theorem find_pool_renameDirectories (hne : old ≠ new) (hold : path ≠ old) (hnew : path ≠ new) :
    (t.renameDirectories old new).pool.find path =
      if findLastParentDir path = old ∧ DirTables.isChildKey old path ∨
          findLastParentDir path = new ∧ findLastParentDir old ≠ old ∧
            ∃ moved, t.pool.find old = some moved ∧ moved.isDir then none
      else t.pool.find path := by
  have hpath := t.pool.find_replaceUriBasePathDir old hnew
  have hself := t.pool.find_replaceUriBasePathDir old hne
  rw [isChildKey_self] at hself
  rw [renameDirectories]
  cases hmoved : (t.pool.replaceUriBasePathDir old new).find old with
  | none =>
      simp only [DirTables.replaceUriBasePathRegularFile, hmoved]
      rw [hpath]
      grind
  | some moved =>
      simp only [DirTables.find_replaceUriBasePathRegularFile _ hmoved, if_neg hold, if_neg hnew]
      rw [hpath]
      grind

theorem file_renameDirectories_iff (hne : old ≠ new) (hold : path ≠ old) (hnew : path ≠ new)
    (hfile : t.file path = some (record, info)) :
    (∃ info', info'.id = info.id ∧ (t.renameDirectories old new).file path = some (record, info')) ↔
      ¬ (findLastParentDir path = old ∧ DirTables.isChildKey old path ∨
        findLastParentDir path = new ∧
          ((findLastParentDir old ≠ old ∧ ∃ moved, t.pool.find old = some moved ∧ moved.isDir) ∨
            ∃ entries, t.records.dirs[old]? = some entries ∧
              (DirTables.renamedEntries old new entries)[path]? ≠ some record)) := by
  obtain ⟨⟨hrecord, hds, hdir⟩, hinfo⟩ := file_eq_some_iff.mp hfile
  have hrecords : (t.renameDirectories old new).records.find path = some record ↔
      ¬ (findLastParentDir path = new ∧ ∃ entries, t.records.dirs[old]? = some entries ∧
        (DirTables.renamedEntries old new entries)[path]? ≠ some record) := by
    simp only [renameDirectories]
    rw [DirTables.find_hierarchicalMapRenameDirDir _ _ _ _ hold, hrecord]
    cases t.records.dirs[old]? with
    | none => simp
    | some entries =>
        by_cases hparent : findLastParentDir path = new
        · simp [hparent]
        · simp [hparent]
  simp only [file_eq_some_iff, hds, hdir, and_true, hrecords,
    find_pool_renameDirectories hne hold hnew, hinfo]
  constructor
  · rintro ⟨info', -, hkept, hpool⟩
    grind
  · intro hkept
    refine ⟨info, rfl, ?_, ?_⟩
    · grind
    · rw [if_neg]
      grind

theorem find_imssUnlink (t : ClientTables) (destination : CString) (answers : RenameAnswers)
    (key : CString) :
    (t.imssUnlink destination answers).records.find key =
        (if (answers.deleteDataset = 0 ∧ (t.pool.find destination).isSome ∧
          answers.unlinkDataset = 0) ∧ key = destination then none else t.records.find key) ∧
      (t.imssUnlink destination answers).pool.find key =
        if (answers.deleteDataset = 0 ∧ (t.pool.find destination).isSome ∧
          answers.unlinkDataset = 0) ∧ key = destination then none else t.pool.find key := by
  rw [imssUnlink]
  split
  next hremoved =>
    simp only [DirTables.find_remove, hremoved]
    simp
  next hkept =>
    rw [if_neg fun h => hkept h.1, if_neg fun h => hkept h.1]
    exact ⟨rfl, rfl⟩

/-- Without a table for the old name there is no dataset to move, so the pool is the same. -/
theorem pool_renameFile (t : ClientTables) (old destination : CString) (answers : RenameAnswers) :
    (t.renameFile old destination answers).2.pool =
      (t.imssUnlink destination answers).pool.replaceUriBasePathRegularFile old destination := by
  rw [renameFile]
  split
  next =>
    split
    next => rfl
    next => rfl
  next hmissing =>
    have hnone : (t.imssUnlink destination answers).pool.find old = none := by
      rw [DirTables.find, DirTables.held, ExtTreeMap.getElem?_eq_none, Option.bind_none]
      exact fun h => hmissing (ExtTreeMap.contains_iff_mem.mpr h)
    simp only [DirTables.replaceUriBasePathRegularFile, hnone]

theorem records_renameFile (t : ClientTables) (old destination : CString)
    (answers : RenameAnswers) :
    (t.renameFile old destination answers).2.records = (t.imssUnlink destination answers).records ∨
      (t.renameFile old destination answers).2.records =
        (t.imssUnlink destination answers).records.hierarchicalMapRename old destination := by
  rw [renameFile]
  split
  next =>
    split
    next => exact Or.inl rfl
    next => exact Or.inr rfl
  next => exact Or.inl rfl

/-- Records other than that of the old name stay unless the file is deleted. -/
theorem find_records_renameFile (hne : destination ≠ old) (hold : path ≠ old)
    (hrecord : (t.imssUnlink destination answers).records.find path = some record) :
    (t.renameFile old destination answers).2.records.find path = some record := by
  rcases records_renameFile t old destination answers with h | h
  · rw [h, hrecord]
  · rw [h]
    by_cases hdestination : path = destination
    · subst hdestination
      exact DirTables.find_hierarchicalMapRename_of_some _ hne hrecord
    · rw [DirTables.find_hierarchicalMapRename_of_ne _ hold hdestination, hrecord]

/-- The old name has no dataset after the rename. -/
theorem find_pool_renameFile_old (hne : destination ≠ old) :
    (t.renameFile old destination answers).2.pool.find old = none := by
  rw [pool_renameFile]
  cases hmoved : (t.imssUnlink destination answers).pool.find old with
  | none => simp only [DirTables.replaceUriBasePathRegularFile, hmoved]
  | some moved =>
      rw [DirTables.find_replaceUriBasePathRegularFile _ hmoved, if_neg hne.symm, if_pos rfl,
        ite_self]

/-- The pool after the rename: the old dataset is under the new name, and nothing is in the table of
the new name if the dataset is one of a directory. -/
theorem find_pool_renameFile (t : ClientTables) (answers : RenameAnswers) (hne : destination ≠ old)
    (hold : path ≠ old) :
    (t.renameFile old destination answers).2.pool.find path =
      (t.pool.find old).elim ((t.imssUnlink destination answers).pool.find path) fun moved =>
        if moved.isDir ∧ findLastParentDir path = destination then none
        else if path = destination then some { moved with uri := destination }
        else t.pool.find path := by
  have hunlink : (t.imssUnlink destination answers).pool.find old = t.pool.find old := by
    rw [(find_imssUnlink t destination answers old).2, if_neg fun h => hne h.2.symm]
  rw [pool_renameFile]
  cases hmoved : t.pool.find old with
  | none =>
      rw [hmoved] at hunlink
      simp only [DirTables.replaceUriBasePathRegularFile, hunlink, Option.elim_none]
  | some moved =>
      rw [DirTables.find_replaceUriBasePathRegularFile _ (hunlink.trans hmoved), Option.elim_some,
        if_neg hold]
      split
      next => rfl
      next =>
        split
        next => rfl
        next hother => rw [(find_imssUnlink t destination answers path).2,
          if_neg fun h => hother h.2]

theorem file_renameFile_iff (hne : destination ≠ old)
    (honly : ∀ moved, t.pool.find old = some moved → moved.id = info.id → path = old)
    (hfile : t.file path = some (record, info)) :
    (∃ info', info'.id = info.id ∧
        (t.renameFile old destination answers).2.file path = some (record, info')) ↔
      ¬ (path = old ∨
        path = destination ∧ ((t.pool.find old).isSome ∨
          answers.deleteDataset = 0 ∧ answers.unlinkDataset = 0) ∨
        findLastParentDir path = destination ∧
          ∃ moved, t.pool.find old = some moved ∧ moved.isDir) := by
  obtain ⟨⟨hrecord, hds, hdir⟩, hinfo⟩ := file_eq_some_iff.mp hfile
  obtain ⟨hrecords, hpool⟩ := find_imssUnlink t destination answers path
  by_cases hold : path = old
  · subst hold
    simp [file_eq_some_iff, find_pool_renameFile_old hne]
  · have hfind := find_pool_renameFile t answers hne hold
    constructor
    · rintro ⟨info', hid, hfile'⟩ htouched
      have hpool' := (file_eq_some_iff.mp hfile').2
      rw [hfind] at hpool'
      rcases htouched with hsame | ⟨hdestination, hgone⟩ | ⟨hparent, moved, hmoved, hisDir⟩
      · exact hold hsame
      · cases hmoved : t.pool.find old with
        | none =>
            rw [hmoved, Option.elim_none, hpool, if_pos] at hpool'
            · cases hpool'
            · rw [← hdestination, hinfo]
              grind
        | some moved =>
            rw [hmoved, Option.elim_some] at hpool'
            split at hpool'
            next => cases hpool'
            next =>
              rw [Option.some.injEq] at hpool'
              exact hold (honly moved hmoved (by rw [← hid, ← hpool']))
      · rw [hmoved, Option.elim_some, if_pos ⟨hisDir, hparent⟩] at hpool'
        cases hpool'
    · intro hkept
      have hstays : ¬ ((answers.deleteDataset = 0 ∧ (t.pool.find destination).isSome ∧
          answers.unlinkDataset = 0) ∧ path = destination) := by
        rintro ⟨⟨hdelete, -, hunlink⟩, hsame⟩
        exact hkept (Or.inr (Or.inl ⟨hsame, Or.inr ⟨hdelete, hunlink⟩⟩))
      rw [if_neg hstays] at hrecords hpool
      refine ⟨info, rfl, file_eq_some_iff.mpr ⟨⟨?_, hds, hdir⟩, ?_⟩⟩
      · exact find_records_renameFile hne hold (hrecords.trans hrecord)
      · rw [hfind]
        cases hmoved : t.pool.find old with
        | none => rw [Option.elim_none, hpool, hinfo]
        | some moved =>
            rw [Option.elim_some, if_neg, if_neg, hinfo]
            · intro hsame
              exact hkept (Or.inr (Or.inl ⟨hsame, Or.inl (by rw [hmoved]; rfl)⟩))
            · rintro ⟨hisDir, hparent⟩
              exact hkept (Or.inr (Or.inr ⟨hparent, moved, hmoved, hisDir⟩))

/-- The place of an object in the pool. -/
theorem Sound.eq_of_id (hsound : t.Sound) (hinfo : t.pool.find path = some info) {key : CString}
    {info' : DatasetInfo} (hinfo' : t.pool.find key = some info') (hid : info'.id = info.id) :
    path = key :=
  (hsound.distinct _ _ _ _ info info' hinfo hinfo' hid.symm).2

/-- Whatever the lookups find for the rename, what they leave of an open file is what it was. -/
theorem LooksUp.file {t' : ClientTables} (hlooks : LooksUp t t')
    (hfile : t.file path = some (record, info)) :
    t'.pool.find path = none ∨ t'.file path = some (record, info) := by
  obtain ⟨⟨hrecord, hds, hdir⟩, hinfo⟩ := file_eq_some_iff.mp hfile
  cases hfound : t'.pool.find path with
  | none => exact Or.inl rfl
  | some found =>
      right
      rcases hlooks.pool path found hfound with hold | ⟨-, hnone⟩
      · rw [hinfo, Option.some.injEq] at hold
        exact file_eq_some_iff.mpr ⟨⟨hlooks.records path record hrecord, hds, hdir⟩, hold ▸ hfound⟩
      · rw [hrecord, fdLookup, Option.filter_some, if_pos (by simpa using hds)] at hnone
        cases hnone

/-- A file that the lookups have dropped from the pool does not come back. -/
theorem file_imssRename_of_dropped (hsound : t.Sound) (hfile : t.file path = some (record, info))
    (hdropped : (t.renamePlan old new answers).2.pool.find path = none) :
    ¬ ∃ info', info'.id = info.id ∧
      (t.imssRename old new answers).2.file path = some (record, info') := by
  rintro ⟨info', hid, hfile'⟩
  obtain ⟨⟨hrecord, hds, hdir⟩, hinfo⟩ := file_eq_some_iff.mp hfile
  have hlooks := looksUp_renamePlan t old new answers
  have hpool := (file_eq_some_iff.mp hfile').2
  rw [imssRename] at hpool
  cases hplan : (t.renamePlan old new answers).1 with
  | refused result =>
      simp only [hplan] at hpool
      rw [hdropped] at hpool
      cases hpool
  | directories =>
      simp only [hplan] at hpool
      obtain ⟨hold, hnew⟩ := renamePlan_directories hrecord hds hdir hplan
      rw [find_pool_renameDirectories (renamePlan_ne hplan) hold hnew, hdropped, ite_self] at hpool
      cases hpool
  | file destination =>
      simp only [hplan] at hpool
      have hne := renamePlan_file hplan
      by_cases hold : path = old
      · rw [hold, find_pool_renameFile_old hne] at hpool
        cases hpool
      · rw [find_pool_renameFile _ _ hne hold, (find_imssUnlink _ _ _ _).2, hdropped,
          ite_self] at hpool
        cases hmoved : (t.renamePlan old new answers).2.pool.find old with
        | none =>
            rw [hmoved, Option.elim_none] at hpool
            cases hpool
        | some moved =>
            -- what stands under the name now is another object
            have hother : moved.id ≠ info.id := by
              intro hsame
              rcases hlooks.pool old moved hmoved with hstored | ⟨hreceived, -⟩
              · exact hold (hsound.eq_of_id hinfo hstored hsame)
              · have hless := hsound.received _ _ info hinfo
                omega
            rw [hmoved, Option.elim_some] at hpool
            grind

theorem file_imssRename_iff (hsound : t.Sound) (hfile : t.file path = some (record, info)) :
    (∃ info', info'.id = info.id ∧
        (t.imssRename old new answers).2.file path = some (record, info')) ↔
      ¬ t.Touches old new answers path record := by
  obtain ⟨⟨hrecord, hds, hdir⟩, -⟩ := file_eq_some_iff.mp hfile
  rcases (looksUp_renamePlan t old new answers).file hfile with hdropped | hkept
  · rw [Touches]
    exact iff_of_false (file_imssRename_of_dropped hsound hfile hdropped)
      fun h => h (Or.inl hdropped)
  · have hinfo := (file_eq_some_iff.mp hkept).2
    have hpresent : (t.renamePlan old new answers).2.pool.find path ≠ none := by
      rw [hinfo]
      exact Option.some_ne_none info
    rw [Touches, imssRename]
    cases hplan : (t.renamePlan old new answers).1 with
    | refused result =>
        simp only [hpresent, false_or, not_false_eq_true, iff_true]
        exact ⟨info, rfl, hkept⟩
    | directories =>
        obtain ⟨hold, hnew⟩ := renamePlan_directories hrecord hds hdir hplan
        simp only [hpresent, false_or]
        exact file_renameDirectories_iff (renamePlan_ne hplan) hold hnew hkept
    | file destination =>
        simp only [hpresent, false_or]
        refine file_renameFile_iff (renamePlan_file hplan) (fun moved hmoved hid => ?_) hkept
        exact (hsound.renamePlan old new answers).eq_of_id hinfo hmoved hid

end ClientTables

/-! ## Descriptors under a rename -/

/-- A process with its descriptors and its tables. -/
structure OpenFiles where
  process : Process
  tables : ClientTables
  sound : tables.Sound

namespace OpenFiles

/-- `rename` of two paths below the mount point. The descriptors keep their paths. -/
def rename (c : OpenFiles) (old new : HerculesPath) (answers : RenameAnswers) : Int × OpenFiles :=
  let renamed := c.tables.imssRename old.1 new.1 answers
  (if renamed.1 < 0 then -1 else renamed.1,
    ⟨c.process, renamed.2, c.sound.imssRename old.1 new.1 answers⟩)

/-- The record and the dataset that a descriptor leads to: `map_fd_search_by_val`, and the lookups
of the calls. -/
def reach (c : OpenFiles) (fd : Int) : Option (Record × DatasetInfo) :=
  c.tables.file (c.process.mapFdSearchByVal fd)

/-- After the rename each descriptor of an open file leads to the record and the dataset object that
it led to before. -/
def KeepsDescriptors (c : OpenFiles) (old new : HerculesPath) (answers : RenameAnswers) : Prop :=
  ∀ fd record info, (c.process.mapFd[fd]?).isSome → c.reach fd = some (record, info) →
    ∃ info', info'.id = info.id ∧ (c.rename old new answers).2.reach fd = some (record, info')

/-- A process that has one file open, by descriptor 3. -/
def exampleOpen : OpenFiles where
  process := ⟨(∅ : ExtTreeMap Int (CString × Int)).insert 3 (exampleFile.1, 0), [3]⟩
  tables :=
    { records := (DirTables.mk ∅).hierarchicalMapPut exampleFile.1 (0, fun _ => 0)
      pool := (DirTables.mk ∅).addDatasetEntryInPool exampleFile.1 ⟨0, exampleFile.1, false⟩
      received := 1 }
  sound := DirTables.Sound.add DirTables.sound_empty exampleFile.1 exampleFile.1 false

/-- Nothing is stored under the new name, and the metadata server confirms the rename. -/
def exampleAnswers : RenameAnswers :=
  ⟨⟨none, none⟩, ⟨none, none⟩, ⟨none, none⟩, 1, 0, 0⟩

end OpenFiles

end Client

end Hercules
