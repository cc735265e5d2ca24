/-
# The two-level map of a server

A server keeps one record map per directory, and files every key in the map of
its parent directory. A lookup consults only that map, so a key that stands in
the map of another directory is stored and yet never found. `Filed` says that no
key has been misplaced in this way.
-/

import Hercules.Records

namespace Hercules

open Std Lib Lib.Text

universe u v

/-- `HierarchicalRecords`: the record maps by directory. -/
structure HierarchicalRecords (V : Type u) where
  hiermap : ExtTreeMap CString (MapRecords V)

namespace HierarchicalRecords

variable {V : Type u}

/-- The constructor: only the root has a map. -/
def init (root : CString) : HierarchicalRecords V :=
  ⟨ExtTreeMap.insert ∅ root MapRecords.empty⟩

/-- `get_dir_unsafe`: the map of a directory. -/
def getDirUnsafe (store : HierarchicalRecords V) (dir : CString) : Option (MapRecords V) :=
  store.hiermap[dir]?

/-- `get_child_unsafe`: the map in which a key is filed. -/
def getChildUnsafe (store : HierarchicalRecords V) (key : CString) : Option (MapRecords V) :=
  store.getDirUnsafe (findLastParentDir key)

/-- `HierarchicalMapGet`. -/
def hierarchicalMapGet (store : HierarchicalRecords V) (key : CString) : Option V :=
  (store.getChildUnsafe key).bind (·.get key)

/-- Replace or create the map of a directory. -/
def setDir (store : HierarchicalRecords V) (dir : CString) (records : MapRecords V) :
    HierarchicalRecords V :=
  ⟨store.hiermap.insert dir records⟩

/-- Change the map of a directory, if there is one, through its shared pointer. -/
def modifyDir (store : HierarchicalRecords V) (dir : CString)
    (change : MapRecords V → MapRecords V) : HierarchicalRecords V :=
  match store.getDirUnsafe dir with
  | none => store
  | some records => store.setDir dir (change records)

/-- `InsertDirectory`. -/
def insertDirectory (store : HierarchicalRecords V) (key : CString) : HierarchicalRecords V :=
  ⟨store.hiermap.insertIfNew (upTo '$' key) MapRecords.empty⟩

/-- `HierarchicalMapPut`; `isDirectory` is the test of `CheckIfDirectory`, made
for a zero block only. The memory accounting is the caller's. -/
def hierarchicalMapPut (isDirectory : V → Bool) (store : HierarchicalRecords V) (key : CString)
    (value : V) (isZeroBlock : Bool) : HierarchicalRecords V :=
  let parentMap := (store.getChildUnsafe key).getD MapRecords.empty
  let filed := store.setDir (findLastParentDir key) (parentMap.put key value)
  if isZeroBlock && isDirectory value then filed.insertDirectory key else filed

/-- A store through the address that `HierarchicalMapGet` returned. -/
def update (store : HierarchicalRecords V) (key : CString) (value : V) : HierarchicalRecords V :=
  store.modifyDir (findLastParentDir key) (·.update key value)

/-- `HierarchicalMapPutInGarbageCollector`. -/
def hierarchicalMapPutInGarbageCollector (store : HierarchicalRecords V) (key : CString) :
    HierarchicalRecords V :=
  store.modifyDir (findLastParentDir key) (·.putGarbageCollector key)

/-- `HierarchicalMapPopFromGarbageCollector`. -/
def hierarchicalMapPopFromGarbageCollector (store : HierarchicalRecords V) (key : CString) :
    HierarchicalRecords V :=
  store.modifyDir (findLastParentDir key) (·.garbageCollectorPop key)

/-- `HierarchicalMapDeleteEntry`. -/
def hierarchicalMapDeleteEntry (store : HierarchicalRecords V) (key : CString) :
    HierarchicalRecords V :=
  store.modifyDir (findLastParentDir key) (·.deleteMetadataStatWorker key)

/-- `HierarchicalMapRenameRegularFile`: only the map of the old name is touched. -/
def hierarchicalMapRenameRegularFile (store : HierarchicalRecords V) (oldname newname : CString) :
    Except Uncaught (Int × HierarchicalRecords V) :=
  match store.getChildUnsafe oldname with
  | none => .ok (-1, store)
  | some records =>
      match records.renameDataSrvWorker oldname newname with
      | .error uncaught => .error uncaught
      | .ok (ret, renamed) => .ok (ret, store.setDir (findLastParentDir oldname) renamed)

/-- `HierarchicalMapRenameKey`: a map that the new name already has is dropped. -/
def hierarchicalMapRenameKey (store : HierarchicalRecords V) (oldDir newDir : CString) :
    Int × HierarchicalRecords V :=
  match store.getDirUnsafe oldDir with
  | none => (-1, store)
  | some records => (0, ⟨(store.hiermap.insert newDir records).erase oldDir⟩)

/-- The common part of `BackEndHierarchicalMapRenameDirDir`: rename the entries of
the directory, then its own key in the map of its parent. -/
def renameDirDir (renameEntries : MapRecords V → MapRecords V)
    (store : HierarchicalRecords V) (oldDir oldKey newKey : CString) :
    Int × HierarchicalRecords V :=
  if (store.getDirUnsafe oldDir).isNone || (store.getChildUnsafe oldDir).isNone then (-1, store)
  else
    (0, (store.modifyDir oldDir renameEntries).modifyDir (findLastParentDir oldDir)
      fun records => (records.updateKey oldKey newKey).2)

/-- `BackEndHierarchicalMapRenameDirDir` on a data server. `old_dir.append("$0")`
changes `old_dir` itself, so the entries are matched against the name with `$0`. -/
def backEndHierarchicalMapRenameDirDirData (store : HierarchicalRecords V)
    (oldDir rdirDest : CString) : Int × HierarchicalRecords V :=
  let auxOldDir := oldDir ++ ['$', '0']
  let auxRdirDest := rdirDest ++ ['$', '0']
  store.renameDirDir (·.renameDataDirSrvWorker auxOldDir auxRdirDest) oldDir auxOldDir auxRdirDest

/-- `BackEndHierarchicalMapRenameDirDir` on a metadata server. -/
def backEndHierarchicalMapRenameDirDirMetadata (setUri : CString → V → V)
    (store : HierarchicalRecords V) (oldDir rdirDest : CString) : Int × HierarchicalRecords V :=
  store.renameDirDir (·.renameMetadataDirStatWorker setUri oldDir rdirDest) oldDir oldDir rdirDest

/-- `HierarchicalMapListDir`: the keys of a directory's map, in order. -/
def hierarchicalMapListDir (store : HierarchicalRecords V) (desiredDir : CString) :
    Option (List CString) :=
  (store.getDirUnsafe desiredDir).map fun records =>
    records.buffer.keys.filter (· ≠ desiredDir)

/-- One directory's turn in a collection; `endOfMap` is what the loop does with
the amount that `cleaning` returned. -/
def cleanDir {S : Type v} (freeMemory : S → V → S) (endOfMap : S → S)
    (state : S × HierarchicalRecords V) (dir : CString) : S × HierarchicalRecords V :=
  match state.2.getDirUnsafe dir with
  | none => state
  | some records =>
      let (pool, remaining) := records.cleaning freeMemory state.1
      (endOfMap pool, state.2.setDir dir remaining)

/-- `HierarchicalMapCleanGarbageCollector` on a data server. -/
def hierarchicalMapCleanGarbageCollector {S : Type v} (freeMemory : S → V → S)
    (endOfMap : S → S) (store : HierarchicalRecords V) (pool : S) : S × HierarchicalRecords V :=
  store.hiermap.keys.foldl (cleanDir freeMemory endOfMap) (pool, store)

/-- `HierarchicalMapCleanGarbageCollector` on a metadata server. -/
def hierarchicalMapCleanGarbageCollectorMetadata (store : HierarchicalRecords V) :
    HierarchicalRecords V :=
  ⟨store.hiermap.map fun _ records => records.cleaningMetadata⟩

/-! ## The map of a directory after an operation -/

@[simp]
theorem getDirUnsafe_setDir (store : HierarchicalRecords V) (dir dir' : CString)
    (records : MapRecords V) :
    (store.setDir dir records).getDirUnsafe dir' =
      if dir = dir' then some records else store.getDirUnsafe dir' := by
  rw [getDirUnsafe, setDir, ExtTreeMap.getElem?_insert, getDirUnsafe]
  simp

/-- The map that a directory already has. -/
theorem setDir_eq_self {store : HierarchicalRecords V} {dir : CString} {records : MapRecords V}
    (h : store.getDirUnsafe dir = some records) : store.setDir dir records = store := by
  obtain ⟨hiermap⟩ := store
  refine congrArg HierarchicalRecords.mk (ExtTreeMap.ext_getElem? fun dir' => ?_)
  rw [ExtTreeMap.getElem?_insert]
  split
  next heq => rw [← LawfulEqCmp.eq_of_compare heq, ← h, getDirUnsafe]
  next => rfl

@[simp]
theorem getDirUnsafe_modifyDir (store : HierarchicalRecords V) (dir dir' : CString)
    (change : MapRecords V → MapRecords V) :
    (store.modifyDir dir change).getDirUnsafe dir' =
      if dir = dir' then (store.getDirUnsafe dir').map change else store.getDirUnsafe dir' := by
  rw [modifyDir]
  split
  next hnone =>
    split
    next heq => rw [← heq, hnone, Option.map_none]
    next => rfl
  next records hsome =>
    rw [getDirUnsafe_setDir]
    split
    next heq => rw [← heq, hsome, Option.map_some]
    next => rfl

theorem getDirUnsafe_insertDirectory (store : HierarchicalRecords V) (key dir : CString) :
    (store.insertDirectory key).getDirUnsafe dir =
      if upTo '$' key = dir ∧ store.getDirUnsafe dir = none then some MapRecords.empty
      else store.getDirUnsafe dir := by
  rw [insertDirectory, getDirUnsafe, ExtTreeMap.getElem?_insertIfNew, getDirUnsafe]
  by_cases hkey : upTo '$' key = dir
  · subst hkey
    simp
  · simp [hkey]

/-- A directory's turn changes its own map only. -/
theorem cleanDir_snd {S : Type v} (freeMemory : S → V → S) (endOfMap : S → S)
    (state : S × HierarchicalRecords V) (dir : CString) :
    (cleanDir freeMemory endOfMap state dir).2 = state.2.modifyDir dir MapRecords.cleaned := by
  rw [cleanDir, modifyDir]
  split
  next => rfl
  next records _ =>
    exact congrArg (state.2.setDir dir) (MapRecords.cleaning_snd freeMemory records state.1)

private theorem getDirUnsafe_foldl_cleanDir {S : Type v} (freeMemory : S → V → S)
    (endOfMap : S → S) (dirs : List CString) (hnodup : dirs.Nodup)
    (state : S × HierarchicalRecords V) (dir : CString) :
    (dirs.foldl (cleanDir freeMemory endOfMap) state).2.getDirUnsafe dir =
      if dir ∈ dirs then (state.2.getDirUnsafe dir).map MapRecords.cleaned
      else state.2.getDirUnsafe dir := by
  induction dirs generalizing state with
  | nil => simp
  | cons first dirs ih =>
      rw [List.nodup_cons] at hnodup
      rw [List.foldl_cons, ih hnodup.2, cleanDir_snd, getDirUnsafe_modifyDir]
      by_cases hfirst : first = dir
      · subst hfirst
        simp [hnodup.1]
      · simp [hfirst, Ne.symm hfirst]

/-- A collection cleans every map. -/
@[simp]
theorem getDirUnsafe_cleanGarbageCollector {S : Type v} (freeMemory : S → V → S)
    (endOfMap : S → S) (store : HierarchicalRecords V) (pool : S) (dir : CString) :
    (store.hierarchicalMapCleanGarbageCollector freeMemory endOfMap pool).2.getDirUnsafe dir =
      (store.getDirUnsafe dir).map MapRecords.cleaned := by
  rw [hierarchicalMapCleanGarbageCollector,
    getDirUnsafe_foldl_cleanDir freeMemory endOfMap _ ExtTreeMap.nodup_keys]
  split
  · rfl
  next hmem =>
    rw [ExtTreeMap.mem_keys, ← ExtTreeMap.isSome_getElem?_iff_mem] at hmem
    have hnone : store.getDirUnsafe dir = none := by simpa [getDirUnsafe] using hmem
    rw [hnone, Option.map_none]

/-! ## Lookups after an operation -/

theorem hierarchicalMapGet_eq (store : HierarchicalRecords V) (key : CString) :
    store.hierarchicalMapGet key =
      (store.getDirUnsafe (findLastParentDir key)).bind (·.get key) := rfl

theorem hierarchicalMapGet_setDir (store : HierarchicalRecords V) (dir : CString)
    (records : MapRecords V) (key : CString) :
    (store.setDir dir records).hierarchicalMapGet key =
      if dir = findLastParentDir key then records.get key else store.hierarchicalMapGet key := by
  rw [hierarchicalMapGet_eq, getDirUnsafe_setDir]
  split <;> rfl

@[simp]
theorem hierarchicalMapGet_insertDirectory (store : HierarchicalRecords V) (dir key : CString) :
    (store.insertDirectory dir).hierarchicalMapGet key = store.hierarchicalMapGet key := by
  rw [hierarchicalMapGet_eq, getDirUnsafe_insertDirectory]
  split
  next hnew => simp [hierarchicalMapGet_eq, hnew.2]
  next => rfl

/-- A change that keeps the entries of a map keeps every lookup. -/
theorem hierarchicalMapGet_modifyDir (store : HierarchicalRecords V) (dir key : CString)
    {change : MapRecords V → MapRecords V}
    (hkeep : ∀ records, (change records).get key = records.get key) :
    (store.modifyDir dir change).hierarchicalMapGet key = store.hierarchicalMapGet key := by
  rw [hierarchicalMapGet_eq, getDirUnsafe_modifyDir]
  split
  next => cases hdir : store.getDirUnsafe (findLastParentDir key) <;>
    simp [hierarchicalMapGet_eq, hdir, hkeep]
  next => rfl

@[simp]
theorem hierarchicalMapGet_putInGarbageCollector (store : HierarchicalRecords V)
    (key key' : CString) :
    (store.hierarchicalMapPutInGarbageCollector key).hierarchicalMapGet key' =
      store.hierarchicalMapGet key' :=
  hierarchicalMapGet_modifyDir _ _ _ fun _ => rfl

@[simp]
theorem hierarchicalMapGet_popFromGarbageCollector (store : HierarchicalRecords V)
    (key key' : CString) :
    (store.hierarchicalMapPopFromGarbageCollector key).hierarchicalMapGet key' =
      store.hierarchicalMapGet key' :=
  hierarchicalMapGet_modifyDir _ _ _ fun _ => rfl

private theorem hierarchicalMapGet_put_eq (isDirectory : V → Bool) (store : HierarchicalRecords V)
    (key : CString) (value : V) (isZeroBlock : Bool) (key' : CString) :
    (store.hierarchicalMapPut isDirectory key value isZeroBlock).hierarchicalMapGet key' =
      if findLastParentDir key = findLastParentDir key' then
        (((store.getChildUnsafe key).getD MapRecords.empty).put key value).get key'
      else store.hierarchicalMapGet key' := by
  rw [hierarchicalMapPut]
  split
  · rw [hierarchicalMapGet_insertDirectory, hierarchicalMapGet_setDir]
  · exact hierarchicalMapGet_setDir _ _ _ _

/-- A new key is found under its value. -/
theorem hierarchicalMapGet_put_self (isDirectory : V → Bool) {store : HierarchicalRecords V}
    {key : CString} (hnone : store.hierarchicalMapGet key = none) (value : V)
    (isZeroBlock : Bool) :
    (store.hierarchicalMapPut isDirectory key value isZeroBlock).hierarchicalMapGet key =
      some value := by
  rw [hierarchicalMapGet_put_eq, if_pos rfl]
  apply MapRecords.get_put_self
  rw [hierarchicalMapGet] at hnone
  cases hdir : store.getChildUnsafe key with
  | none => exact MapRecords.get_empty key
  | some records => simpa [hdir] using hnone

/-- A key that is found keeps its value. -/
theorem hierarchicalMapGet_put_of_some (isDirectory : V → Bool) {store : HierarchicalRecords V}
    {key : CString} {stored : V} (hsome : store.hierarchicalMapGet key = some stored) (value : V)
    (isZeroBlock : Bool) :
    (store.hierarchicalMapPut isDirectory key value isZeroBlock).hierarchicalMapGet key =
      some stored := by
  rw [hierarchicalMapGet_put_eq, if_pos rfl]
  apply MapRecords.get_put_of_some
  rw [hierarchicalMapGet] at hsome
  cases hdir : store.getChildUnsafe key with
  | none => simp [hdir] at hsome
  | some records => simpa [hdir] using hsome

theorem hierarchicalMapGet_put_of_ne (isDirectory : V → Bool) (store : HierarchicalRecords V)
    {key key' : CString} (hne : key ≠ key') (value : V) (isZeroBlock : Bool) :
    (store.hierarchicalMapPut isDirectory key value isZeroBlock).hierarchicalMapGet key' =
      store.hierarchicalMapGet key' := by
  rw [hierarchicalMapGet_put_eq]
  split
  next hdir =>
    rw [MapRecords.get_put_of_ne hne, hierarchicalMapGet, getChildUnsafe, getChildUnsafe, hdir]
    cases store.getDirUnsafe (findLastParentDir key') <;> simp
  next => rfl

/-- An overwritten entry shows the new value. -/
theorem hierarchicalMapGet_update_self {store : HierarchicalRecords V} {key : CString}
    (hsome : (store.hierarchicalMapGet key).isSome) (value : V) :
    (store.update key value).hierarchicalMapGet key = some value := by
  rw [hierarchicalMapGet_eq] at hsome
  rw [hierarchicalMapGet_eq, update, getDirUnsafe_modifyDir, if_pos rfl]
  cases hdir : store.getDirUnsafe (findLastParentDir key) with
  | none => simp [hdir] at hsome
  | some records => simp

theorem hierarchicalMapGet_update_of_ne (store : HierarchicalRecords V) {key key' : CString}
    (hne : key ≠ key') (value : V) :
    (store.update key value).hierarchicalMapGet key' = store.hierarchicalMapGet key' :=
  hierarchicalMapGet_modifyDir _ _ _ fun records => records.get_update_of_ne hne value

/-- The paths that wait for collection in a directory. -/
def garbageOf (store : HierarchicalRecords V) (dir : CString) : List CString :=
  ((store.getDirUnsafe dir).map MapRecords.garbage).getD []

theorem garbageOf_setDir (store : HierarchicalRecords V) (dir dir' : CString)
    (records : MapRecords V) :
    (store.setDir dir records).garbageOf dir' =
      if dir = dir' then records.garbage else store.garbageOf dir' := by
  rw [garbageOf, getDirUnsafe_setDir]
  split <;> rfl

theorem garbageOf_modifyDir (store : HierarchicalRecords V) (dir dir' : CString)
    (change : MapRecords V → MapRecords V) :
    (store.modifyDir dir change).garbageOf dir' =
      if dir = dir' then
        ((store.getDirUnsafe dir').map fun records => (change records).garbage).getD []
      else store.garbageOf dir' := by
  rw [garbageOf, getDirUnsafe_modifyDir]
  split
  · rw [Option.map_map]
    rfl
  · rfl

theorem garbageOf_insertDirectory (store : HierarchicalRecords V) (key dir : CString) :
    (store.insertDirectory key).garbageOf dir = store.garbageOf dir := by
  rw [garbageOf, getDirUnsafe_insertDirectory]
  split
  next hnew =>
    rw [garbageOf, hnew.2]
    rfl
  next => rfl

@[simp]
theorem garbageOf_put (isDirectory : V → Bool) (store : HierarchicalRecords V) (key : CString)
    (value : V) (isZeroBlock : Bool) (dir : CString) :
    (store.hierarchicalMapPut isDirectory key value isZeroBlock).garbageOf dir =
      store.garbageOf dir := by
  have hput : (store.setDir (findLastParentDir key)
      (((store.getChildUnsafe key).getD MapRecords.empty).put key value)).garbageOf dir =
        store.garbageOf dir := by
    rw [garbageOf_setDir]
    split
    next heq =>
      rw [garbageOf, ← heq, getChildUnsafe]
      cases store.getDirUnsafe (findLastParentDir key) <;> rfl
    next => rfl
  rw [hierarchicalMapPut]
  split
  · rw [garbageOf_insertDirectory, hput]
  · exact hput

@[simp]
theorem garbageOf_update (store : HierarchicalRecords V) (key : CString) (value : V)
    (dir : CString) : (store.update key value).garbageOf dir = store.garbageOf dir := by
  rw [update, garbageOf_modifyDir]
  split <;> rfl

theorem garbageOf_putInGarbageCollector (store : HierarchicalRecords V) (key dir : CString) :
    (store.hierarchicalMapPutInGarbageCollector key).garbageOf dir =
      if findLastParentDir key = dir ∧ (store.getDirUnsafe dir).isSome then
        store.garbageOf dir ++ [key]
      else store.garbageOf dir := by
  rw [hierarchicalMapPutInGarbageCollector, garbageOf_modifyDir, garbageOf]
  cases store.getDirUnsafe dir with
  | none => simp
  | some records => simp [MapRecords.putGarbageCollector]

theorem garbageOf_popFromGarbageCollector (store : HierarchicalRecords V) (key dir : CString) :
    (store.hierarchicalMapPopFromGarbageCollector key).garbageOf dir =
      if findLastParentDir key = dir then (store.garbageOf dir).erase (upTo '$' key)
      else store.garbageOf dir := by
  rw [hierarchicalMapPopFromGarbageCollector, garbageOf_modifyDir, garbageOf]
  cases store.getDirUnsafe dir with
  | none => simp
  | some records => simp [MapRecords.garbageCollectorPop]

@[simp]
theorem garbageOf_cleanGarbageCollector {S : Type v} (freeMemory : S → V → S)
    (endOfMap : S → S) (store : HierarchicalRecords V) (pool : S) (dir : CString) :
    (store.hierarchicalMapCleanGarbageCollector freeMemory endOfMap pool).2.garbageOf dir = [] := by
  rw [garbageOf, getDirUnsafe_cleanGarbageCollector]
  cases store.getDirUnsafe dir <;> rfl

/-- A key that is found has a directory with a map. -/
theorem isSome_getDirUnsafe_of_get {store : HierarchicalRecords V} {key : CString}
    (hfound : (store.hierarchicalMapGet key).isSome) :
    (store.getDirUnsafe (findLastParentDir key)).isSome := by
  rw [hierarchicalMapGet_eq] at hfound
  cases hdir : store.getDirUnsafe (findLastParentDir key) with
  | none => simp [hdir] at hfound
  | some records => rfl

/-- A collection removes what waits for it in the key's own directory. -/
theorem hierarchicalMapGet_cleanGarbageCollector {S : Type v} (freeMemory : S → V → S)
    (endOfMap : S → S) (store : HierarchicalRecords V) (pool : S) (key : CString) :
    (store.hierarchicalMapCleanGarbageCollector freeMemory endOfMap pool).2.hierarchicalMapGet key =
      if upTo '$' key ∈ store.garbageOf (findLastParentDir key) then none
      else store.hierarchicalMapGet key := by
  rw [hierarchicalMapGet_eq, getDirUnsafe_cleanGarbageCollector, garbageOf, hierarchicalMapGet_eq]
  cases store.getDirUnsafe (findLastParentDir key) with
  | none => simp
  | some records => exact MapRecords.get_cleaned records key

theorem hierarchicalMapGet_deleteEntry (store : HierarchicalRecords V) (key key' : CString) :
    (store.hierarchicalMapDeleteEntry key).hierarchicalMapGet key' =
      if key = key' then none else store.hierarchicalMapGet key' := by
  rw [hierarchicalMapGet_eq, hierarchicalMapDeleteEntry, getDirUnsafe_modifyDir,
    hierarchicalMapGet_eq]
  by_cases hkey : key = key'
  · subst hkey
    cases store.getDirUnsafe (findLastParentDir key) <;>
      simp [MapRecords.get_deleteMetadataStatWorker]
  · rw [if_neg hkey]
    split
    · cases store.getDirUnsafe (findLastParentDir key') <;>
        simp [MapRecords.get_deleteMetadataStatWorker, hkey]
    · rfl

@[simp]
theorem garbageOf_deleteEntry (store : HierarchicalRecords V) (key dir : CString) :
    (store.hierarchicalMapDeleteEntry key).garbageOf dir = store.garbageOf dir := by
  rw [hierarchicalMapDeleteEntry, garbageOf_modifyDir]
  split <;> rfl

theorem getDirUnsafe_cleanGarbageCollectorMetadata (store : HierarchicalRecords V)
    (dir : CString) :
    store.hierarchicalMapCleanGarbageCollectorMetadata.getDirUnsafe dir =
      (store.getDirUnsafe dir).map MapRecords.cleaningMetadata := by
  rw [getDirUnsafe, hierarchicalMapCleanGarbageCollectorMetadata, getDirUnsafe]
  simp

/-- On a metadata server a collection removes the listed keys, less a trailing slash. -/
theorem hierarchicalMapGet_cleanGarbageCollectorMetadata (store : HierarchicalRecords V)
    (key : CString) :
    store.hierarchicalMapCleanGarbageCollectorMetadata.hierarchicalMapGet key =
      if key ∈ (store.garbageOf (findLastParentDir key)).map removeLastSlash then none
      else store.hierarchicalMapGet key := by
  rw [hierarchicalMapGet_eq, getDirUnsafe_cleanGarbageCollectorMetadata, garbageOf,
    hierarchicalMapGet_eq]
  cases store.getDirUnsafe (findLastParentDir key) with
  | none => simp
  | some records => exact MapRecords.get_cleaningMetadata records key

@[simp]
theorem garbageOf_cleanGarbageCollectorMetadata (store : HierarchicalRecords V) (dir : CString) :
    store.hierarchicalMapCleanGarbageCollectorMetadata.garbageOf dir = [] := by
  rw [garbageOf, getDirUnsafe_cleanGarbageCollectorMetadata]
  cases store.getDirUnsafe dir <;> rfl

/-! ## Invariants of the stored keys -/

/-- A property of every stored key and the directory in whose map it stands. -/
def EveryKey (P : CString → CString → Prop) (store : HierarchicalRecords V) : Prop :=
  ∀ dir records key, store.getDirUnsafe dir = some records → (records.get key).isSome → P dir key

/-- Every stored key stands in the map of its own parent directory. -/
def Filed (store : HierarchicalRecords V) : Prop :=
  store.EveryKey fun dir key => findLastParentDir key = dir

@[simp]
theorem hierarchicalMapGet_init (root key : CString) :
    (init root : HierarchicalRecords V).hierarchicalMapGet key = none := by
  rw [hierarchicalMapGet_eq, init, getDirUnsafe, ExtTreeMap.getElem?_insert]
  split <;> simp

@[simp]
theorem garbageOf_init (root dir : CString) :
    (init root : HierarchicalRecords V).garbageOf dir = [] := by
  rw [garbageOf, init, getDirUnsafe, ExtTreeMap.getElem?_insert]
  split <;> simp [MapRecords.empty]

theorem everyKey_init (P : CString → CString → Prop) (root : CString) :
    (init root : HierarchicalRecords V).EveryKey P := by
  intro dir records key hdir hsome
  have hempty : records = MapRecords.empty := by
    rw [init, getDirUnsafe, ExtTreeMap.getElem?_insert] at hdir
    by_cases hroot : root = dir
    · simpa [hroot] using hdir.symm
    · simp [hroot] at hdir
  rw [hempty, MapRecords.get_empty] at hsome
  cases hsome

namespace EveryKey

variable {P : CString → CString → Prop} {store : HierarchicalRecords V} (hevery : store.EveryKey P)

include hevery

theorem setDir {dir : CString} {records : MapRecords V}
    (hrecords : ∀ key, (records.get key).isSome → P dir key) :
    (store.setDir dir records).EveryKey P := by
  intro dir' records' key hdir hsome
  rw [getDirUnsafe_setDir] at hdir
  split at hdir
  next heq =>
    cases hdir
    exact heq ▸ hrecords key hsome
  next => exact hevery dir' records' key hdir hsome

theorem modifyDir {dir : CString} {change : MapRecords V → MapRecords V}
    (hchange : ∀ records key, ((change records).get key).isSome →
      (records.get key).isSome ∨ P dir key) : (store.modifyDir dir change).EveryKey P := by
  rw [HierarchicalRecords.modifyDir]
  split
  next => exact hevery
  next records hdir =>
    exact hevery.setDir fun key hsome =>
      (hchange records key hsome).elim (hevery dir records key hdir) id

theorem insertDirectory (key : CString) : (store.insertDirectory key).EveryKey P := by
  intro dir records key' hdir hsome
  rw [getDirUnsafe_insertDirectory] at hdir
  split at hdir
  next =>
    cases hdir
    simp at hsome
  next => exact hevery dir records key' hdir hsome

theorem put {key : CString} (hkey : P (findLastParentDir key) key) (isDirectory : V → Bool)
    (value : V) (isZeroBlock : Bool) :
    (store.hierarchicalMapPut isDirectory key value isZeroBlock).EveryKey P := by
  have hput : (store.setDir (findLastParentDir key)
      (((store.getChildUnsafe key).getD MapRecords.empty).put key value)).EveryKey P := by
    apply hevery.setDir
    intro key' hsome
    by_cases heq : key = key'
    · exact heq ▸ hkey
    · rw [MapRecords.get_put_of_ne heq] at hsome
      cases hchild : store.getChildUnsafe key with
      | none => simp [hchild] at hsome
      | some records => exact hevery _ records key' hchild (by simpa [hchild] using hsome)
  rw [hierarchicalMapPut]
  split
  · exact hput.insertDirectory key
  · exact hput

theorem update {key : CString} (hkey : P (findLastParentDir key) key) (value : V) :
    (store.update key value).EveryKey P := by
  apply hevery.modifyDir
  intro records key' hsome
  by_cases heq : key = key'
  · exact Or.inr (heq ▸ hkey)
  · rw [MapRecords.get_update_of_ne heq] at hsome
    exact Or.inl hsome

theorem deleteEntry (key : CString) : (store.hierarchicalMapDeleteEntry key).EveryKey P := by
  apply hevery.modifyDir
  intro records key' hsome
  rw [MapRecords.get_deleteMetadataStatWorker] at hsome
  split at hsome
  · cases hsome
  · exact Or.inl hsome

theorem putInGarbageCollector (key : CString) :
    (store.hierarchicalMapPutInGarbageCollector key).EveryKey P :=
  hevery.modifyDir fun _ _ => Or.inl

theorem popFromGarbageCollector (key : CString) :
    (store.hierarchicalMapPopFromGarbageCollector key).EveryKey P :=
  hevery.modifyDir fun _ _ => Or.inl

end EveryKey

end HierarchicalRecords

end Hercules
