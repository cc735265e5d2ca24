/-
# Record maps

`map_records` is the ordered map in which both server kinds keep the entries of
one directory, together with the list of keys that wait for the garbage
collector. A data server stores memory blocks under `uri$block`, a metadata
server stores dataset descriptors under the URI itself; the map does not care.
Renames scan the keys and move the nodes they find.
-/

import Mathlib.Data.List.Infix
import Mathlib.Tactic.SplitIfs
import Hercules.Lib.Rekey
import Hercules.Names

namespace Hercules

open Std Lib Lib.Text

universe u v

/-- A C++ exception that no handler catches; it ends the server process. -/
inductive Uncaught
  | outOfRange
  deriving DecidableEq

/-- `map_records`: the stored entries and `buffer_garbage_collector`. -/
structure MapRecords (V : Type u) where
  buffer : ExtTreeMap CString V
  garbage : List CString

namespace MapRecords

variable {V : Type u}

/-- A map as its constructor leaves it. -/
def empty : MapRecords V :=
  ⟨∅, []⟩

/-- `get` and `find`. -/
def get (records : MapRecords V) (key : CString) : Option V :=
  records.buffer[key]?

/-- `put`: an existing entry is kept. -/
def put (records : MapRecords V) (key : CString) (value : V) : MapRecords V :=
  { records with buffer := records.buffer.insertIfNew key value }

/-- A store through the address that `get` returned. -/
def update (records : MapRecords V) (key : CString) (value : V) : MapRecords V :=
  { records with buffer := records.buffer.insert key value }

/-- `put_garbage_collector`. -/
def putGarbageCollector (records : MapRecords V) (key : CString) : MapRecords V :=
  { records with garbage := records.garbage ++ [key] }

/-- `garbage_collector_pop`: the first occurrence of the key without its block
number is dropped. -/
def garbageCollectorPop (records : MapRecords V) (key : CString) : MapRecords V :=
  { records with garbage := records.garbage.erase (upTo '$' key) }

/-- `delete_metadata_stat_worker`. -/
def deleteMetadataStatWorker (records : MapRecords V) (key : CString) : MapRecords V :=
  { records with buffer := records.buffer.erase key }

/-- `update_key`: fails when the old key is missing or the new one is taken. -/
def updateKey (records : MapRecords V) (oldKey newKey : CString) : Int × MapRecords V :=
  if oldKey ∉ records.buffer then (-1, records)
  else if oldKey = newKey then (0, records)
  else if newKey ∈ records.buffer then (-1, records)
  else (0, { records with buffer := moveKey records.buffer oldKey newKey })

/-- The keys whose part before the first `$` is `path`, last key first. -/
def keysOfPath (records : MapRecords V) (path : CString) : List CString :=
  (records.buffer.keys.filter (upTo '$' · = path)).reverse

/-- `rename_data_srv_worker`. The scan takes `key.substr(key.find('$'))` of every
key, which throws for a key without the separator. -/
def renameDataSrvWorker (records : MapRecords V) (oldKey newKey : CString) :
    Except Uncaught (Int × MapRecords V) :=
  if records.buffer.keys.any (fun key => decide ('$' ∉ key)) then .error .outOfRange
  else if records.keysOfPath oldKey = [] then .ok (-1, records)
  else
    .ok (0, { records with
      buffer := moveKeys records.buffer (fun key => newKey ++ fromOn '$' key)
        (records.keysOfPath oldKey) })

/-- The test of the two directory renames: the old name occurs in the key, and
what follows at its length is one of `separators`. -/
def underDir (separators : List Char) (oldDir key : CString) : Bool :=
  decide (oldDir <:+: key) &&
    (decide (key.length ≤ oldDir.length) || separators.any fun c => key[oldDir.length]? == some c)

/-- `rename_data_dir_srv_worker`. -/
def renameDataDirSrvWorker (records : MapRecords V) (oldDir rdirDest : CString) : MapRecords V :=
  { records with
    buffer := moveKeys records.buffer (fun key => rdirDest ++ key.drop oldDir.length)
      (records.buffer.keys.filter (underDir ['/', '$'] oldDir)).reverse }

/-- `rename_metadata_dir_stat_worker`: the URI inside each entry is overwritten
first, then the keys are moved. -/
def renameMetadataDirStatWorker (setUri : CString → V → V) (records : MapRecords V)
    (oldDir rdirDest : CString) : MapRecords V :=
  let renamed := records.buffer.map fun key value =>
    if underDir ['/'] oldDir key then setUri (rdirDest ++ key.drop oldDir.length) value else value
  { records with
    buffer := moveKeys renamed (fun key => rdirDest ++ key.drop oldDir.length)
      (records.buffer.keys.filter (underDir ['/'] oldDir)) }

/-! ## Lookups after an operation -/

@[simp]
theorem get_empty (key : CString) : (empty : MapRecords V).get key = none := by
  simp [empty, get]

@[simp]
theorem get_put_self {records : MapRecords V} {key : CString} (h : records.get key = none)
    (value : V) : (records.put key value).get key = some value := by
  have hmem : key ∉ records.buffer := by
    rw [← ExtTreeMap.isSome_getElem?_iff_mem]
    simpa [get] using h
  rw [get, put, ExtTreeMap.getElem?_insertIfNew, if_pos ⟨by simp, hmem⟩]

theorem get_put_of_some {records : MapRecords V} {key : CString} {stored : V}
    (h : records.get key = some stored) (value : V) :
    (records.put key value).get key = some stored := by
  have hmem : key ∈ records.buffer := by
    rw [get] at h
    rw [← ExtTreeMap.isSome_getElem?_iff_mem, h]
    rfl
  rw [get, put, ExtTreeMap.getElem?_insertIfNew, if_neg (by simp [hmem])]
  exact h

theorem get_put_of_ne {key key' : CString} (h : key ≠ key') (records : MapRecords V) (value : V) :
    (records.put key value).get key' = records.get key' := by
  rw [get, put, ExtTreeMap.getElem?_insertIfNew, if_neg (by simp [h]), get]

@[simp]
theorem get_update_self (records : MapRecords V) (key : CString) (value : V) :
    (records.update key value).get key = some value := by
  rw [get, update, ExtTreeMap.getElem?_insert_self]

theorem get_update_of_ne {key key' : CString} (h : key ≠ key') (records : MapRecords V)
    (value : V) : (records.update key value).get key' = records.get key' := by
  rw [get, update, ExtTreeMap.getElem?_insert, if_neg (by simp [h]), get]

/-- The scanned keys are those with an entry and the given path. -/
theorem mem_keysOfPath {records : MapRecords V} {path key : CString} :
    key ∈ records.keysOfPath path ↔ (records.get key).isSome ∧ upTo '$' key = path := by
  simp [keysOfPath, get]

/-- `update_key` gives a value to the new key only. -/
theorem get_updateKey_of_ne {key oldKey newKey : CString} (records : MapRecords V)
    (hold : key ≠ oldKey) (hnew : key ≠ newKey) :
    (records.updateKey oldKey newKey).2.get key = records.get key := by
  rw [updateKey]
  split_ifs
  · rfl
  · rfl
  · exact getElem?_moveKey_of_ne hold.symm hnew.symm
  · rfl

theorem updateKey_moves {oldKey newKey : CString} {records : MapRecords V}
    (hold : (records.get oldKey).isSome) (hne : oldKey ≠ newKey)
    (hnew : records.get newKey = none) :
    (records.updateKey oldKey newKey).2 =
      { records with buffer := moveKey records.buffer oldKey newKey } := by
  have hmem : oldKey ∈ records.buffer := ExtTreeMap.isSome_getElem?_iff_mem.mp hold
  have hfree : newKey ∉ records.buffer := by
    rw [← ExtTreeMap.isSome_getElem?_iff_mem]
    simpa [get] using hnew
  rw [updateKey, if_neg (not_not.mpr hmem), if_neg hne, if_neg hfree]

theorem updateKey_missing {oldKey newKey : CString} {records : MapRecords V}
    (hold : records.get oldKey = none) : (records.updateKey oldKey newKey).2 = records := by
  have hmem : oldKey ∉ records.buffer := by
    rw [← ExtTreeMap.isSome_getElem?_iff_mem]
    simpa [get] using hold
  rw [updateKey, if_pos hmem]

/-- A taken new key, the old one included, stops `update_key`. -/
theorem updateKey_taken {oldKey newKey : CString} {records : MapRecords V}
    (hnew : (records.get newKey).isSome) : (records.updateKey oldKey newKey).2 = records := by
  have hmem : newKey ∈ records.buffer := ExtTreeMap.isSome_getElem?_iff_mem.mp hnew
  rw [updateKey]
  split_ifs
  · rfl
  · rfl
  · rfl

/-! ## Garbage collection

On a data server every block of a collected path is released: `FreeMemory`
returns its buffer to the allocator or to the pool. What the release does with
the buffer is a parameter here. -/

section Cleaning

variable {S : Type v} (freeMemory : S → V → S)

/-- Release and erase the entry under one key. -/
def releaseKey (state : S × ExtTreeMap CString V) (key : CString) : S × ExtTreeMap CString V :=
  match state.2[key]? with
  | none => state
  | some value => (freeMemory state.1 value, state.2.erase key)

/-- Release and erase every entry of a path. -/
def releasePath (state : S × ExtTreeMap CString V) (path : CString) : S × ExtTreeMap CString V :=
  (keysOfPath ⟨state.2, []⟩ path).foldl (releaseKey freeMemory) state

/-- `cleaning` on a data server: each collected path in turn loses its blocks. -/
def cleaning (records : MapRecords V) (pool : S) : S × MapRecords V :=
  let final := records.garbage.foldl (releasePath freeMemory) (pool, records.buffer)
  (final.1, ⟨final.2, []⟩)

/-- What one collection leaves of a map. -/
def cleaned (records : MapRecords V) : MapRecords V :=
  ⟨records.buffer.filter fun key _ => decide (upTo '$' key ∉ records.garbage), []⟩

theorem get_cleaned (records : MapRecords V) (key : CString) :
    records.cleaned.get key =
      if upTo '$' key ∈ records.garbage then none else records.get key := by
  rw [get, cleaned, ExtTreeMap.getElem?_filter']
  by_cases hkey : upTo '$' key ∈ records.garbage
  · simp [hkey]
  · rw [if_neg hkey, get]
    cases records.buffer[key]? with
    | none => rfl
    | some value => simp [hkey]

theorem getElem?_releaseKey (state : S × ExtTreeMap CString V) (first key : CString) :
    (releaseKey freeMemory state first).2[key]? =
      if first = key then none else state.2[key]? := by
  rw [releaseKey]
  split
  next hnone =>
    split
    next heq => rw [← heq, hnone]
    next => rfl
  next => simp [ExtTreeMap.getElem?_erase]

theorem getElem?_foldl_releaseKey (keys : List CString) (state : S × ExtTreeMap CString V)
    (key : CString) :
    (keys.foldl (releaseKey freeMemory) state).2[key]? =
      if key ∈ keys then none else state.2[key]? := by
  induction keys generalizing state with
  | nil => simp
  | cons first keys ih =>
      rw [List.foldl_cons, ih, getElem?_releaseKey]
      by_cases hkey : first = key
      · simp [hkey]
      · simp [hkey, Ne.symm hkey]

theorem getElem?_releasePath (state : S × ExtTreeMap CString V) (path key : CString) :
    (releasePath freeMemory state path).2[key]? =
      if upTo '$' key = path then none else state.2[key]? := by
  have hmem : key ∈ keysOfPath ⟨state.2, []⟩ path ↔
      (get ⟨state.2, []⟩ key).isSome ∧ upTo '$' key = path := mem_keysOfPath
  rw [releasePath, getElem?_foldl_releaseKey]
  simp only [hmem, get]
  cases state.2[key]? <;> simp

theorem getElem?_foldl_releasePath (garbage : List CString) (state : S × ExtTreeMap CString V)
    (key : CString) :
    (garbage.foldl (releasePath freeMemory) state).2[key]? =
      if upTo '$' key ∈ garbage then none else state.2[key]? := by
  induction garbage generalizing state with
  | nil => simp
  | cons path garbage ih =>
      rw [List.foldl_cons, ih, getElem?_releasePath]
      by_cases hpath : upTo '$' key = path
      · simp [hpath]
      · simp [hpath]

/-- The buffers' fate does not influence what stays in the map. -/
theorem cleaning_snd (records : MapRecords V) (pool : S) :
    (records.cleaning freeMemory pool).2 = records.cleaned := by
  have hbuffer : (records.cleaning freeMemory pool).2.buffer = records.cleaned.buffer := by
    apply ExtTreeMap.ext_getElem?
    intro key
    show (records.garbage.foldl (releasePath freeMemory) (pool, records.buffer)).2[key]? =
      records.cleaned.get key
    rw [getElem?_foldl_releasePath, get_cleaned, get]
  show MapRecords.mk (records.cleaning freeMemory pool).2.buffer [] = records.cleaned
  rw [hbuffer]
  rfl

end Cleaning

/-- `cleaning` on a metadata server: each collected key, less a trailing slash, is
erased. -/
def cleaningMetadata (records : MapRecords V) : MapRecords V :=
  ⟨records.garbage.foldl (fun buffer key => buffer.erase (removeLastSlash key)) records.buffer, []⟩

theorem get_cleaningMetadata (records : MapRecords V) (key : CString) :
    records.cleaningMetadata.get key =
      if key ∈ records.garbage.map removeLastSlash then none else records.get key := by
  have hfold : ∀ (garbage : List CString) (buffer : ExtTreeMap CString V),
      (garbage.foldl (fun buffer key => buffer.erase (removeLastSlash key)) buffer)[key]? =
        if key ∈ garbage.map removeLastSlash then none else buffer[key]? := by
    intro garbage
    induction garbage with
    | nil => simp
    | cons first garbage ih =>
        intro buffer
        rw [List.foldl_cons, ih, ExtTreeMap.getElem?_erase]
        by_cases hkey : removeLastSlash first = key
        · simp [hkey]
        · simp [hkey, Ne.symm hkey]
  exact hfold records.garbage records.buffer

theorem get_deleteMetadataStatWorker (records : MapRecords V) (key key' : CString) :
    (records.deleteMetadataStatWorker key).get key' =
      if key = key' then none else records.get key' := by
  rw [get, deleteMetadataStatWorker, ExtTreeMap.getElem?_erase, get]
  simp

end MapRecords

end Hercules
