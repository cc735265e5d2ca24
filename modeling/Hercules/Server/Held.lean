/-
# The bytes held by a data server

The total size of the blocks in the maps of a server, and of the buffers in its pool. A
block that is inserted adds its size, an update keeps it, and a mark for the garbage
collector has no effect on it. A pass of the collector moves the buffers of full size to
the pool as long as there is room and frees the others, so what it takes from the maps is
in the pool or among the bytes it reports.

The bytes freed in one map are reported as an `int32_t`. The report is right if there are
fewer than 2 GiB of them.
-/

import Hercules.Lib.Totals
import Hercules.Server.Data

namespace Hercules

open Std Lib Lib.Text

universe u v

/-! ## Weights of the stored values -/

namespace MapRecords

variable {V : Type u} {S : Type v}

/-- The entries that the next pass removes. -/
def collectable (records : MapRecords V) : ExtTreeMap CString V :=
  records.buffer.filter fun key _ => records.garbage.contains (upTo '$' key)

theorem total_collectable (weight : V → Nat) (records : MapRecords V) :
    total weight records.collectable + total weight records.cleaned.buffer =
      total weight records.buffer := by
  rw [total, total, total, collectable, cleaned, ExtTreeMap.toList_filter, ExtTreeMap.toList_filter]
  induction records.buffer.toList with
  | nil => rfl
  | cons entry entries ih =>
      simp only [List.contains_eq_mem] at ih ⊢
      by_cases hmarked : upTo '$' entry.1 ∈ records.garbage
      · simp only [List.filter_cons, hmarked, decide_true, decide_not, Bool.not_true, if_true,
          Bool.false_eq_true, if_false, List.map_cons, List.sum_cons] at ih ⊢
        omega
      · simp only [List.filter_cons, hmarked, decide_false, decide_not, Bool.not_false, if_true,
          Bool.false_eq_true, if_false, List.map_cons, List.sum_cons] at ih ⊢
        omega

/-- What every release of an entry keeps, `cleaning` keeps. -/
theorem cleaning_invariant {freeMemory : S → V → S} (Inv : S → ExtTreeMap CString V → Prop)
    (hrelease : ∀ pool m key value, m[key]? = some value → Inv pool m →
      Inv (freeMemory pool value) (m.erase key))
    {records : MapRecords V} {pool : S} (hinv : Inv pool records.buffer) :
    Inv (records.cleaning freeMemory pool).1 (records.cleaning freeMemory pool).2.buffer := by
  have hkey : ∀ (state : S × ExtTreeMap CString V) (key : CString), Inv state.1 state.2 →
      Inv (releaseKey freeMemory state key).1 (releaseKey freeMemory state key).2 := by
    intro state key hstate
    rw [releaseKey]
    split
    next => exact hstate
    next value hvalue => exact hrelease state.1 state.2 key value hvalue hstate
  have hkeys : ∀ (keys : List CString) (state : S × ExtTreeMap CString V), Inv state.1 state.2 →
      Inv (keys.foldl (releaseKey freeMemory) state).1
        (keys.foldl (releaseKey freeMemory) state).2 := by
    intro keys
    induction keys with
    | nil => exact fun _ hstate => hstate
    | cons key keys ih => exact fun state hstate => ih _ (hkey state key hstate)
  have hpaths : ∀ (garbage : List CString) (state : S × ExtTreeMap CString V), Inv state.1 state.2 →
      Inv (garbage.foldl (releasePath freeMemory) state).1
        (garbage.foldl (releasePath freeMemory) state).2 := by
    intro garbage
    induction garbage with
    | nil => exact fun _ hstate => hstate
    | cons path garbage ih => exact fun state hstate => ih _ (hkeys _ state hstate)
  exact hpaths records.garbage (pool, records.buffer) hinv

end MapRecords

namespace HierarchicalRecords

variable {V : Type u} {store : HierarchicalRecords V} {key : CString} {value old : V}

/-- The sum of the weights of all stored values. -/
def held (weight : V → Nat) (store : HierarchicalRecords V) : Nat :=
  total (fun records => total weight records.buffer) store.hiermap

theorem held_setDir (weight : V → Nat) (store : HierarchicalRecords V) (dir : CString)
    (records : MapRecords V) :
    (store.setDir dir records).held weight +
        weightOf (fun records => total weight records.buffer) (store.getDirUnsafe dir) =
      store.held weight + total weight records.buffer :=
  total_insert _ store.hiermap dir records

@[simp]
theorem held_init (weight : V → Nat) (root : CString) :
    (init root : HierarchicalRecords V).held weight = 0 := by
  have hsum := total_insert (fun records : MapRecords V => total weight records.buffer)
    (∅ : ExtTreeMap CString (MapRecords V)) root MapRecords.empty
  rw [total_empty, ExtTreeMap.getElem?_empty] at hsum
  exact hsum

/-- A change of a map that leaves its total alone. -/
theorem held_modifyDir {change : MapRecords V → MapRecords V} {weight : V → Nat}
    (hchange : ∀ records, total weight (change records).buffer = total weight records.buffer)
    (store : HierarchicalRecords V) (dir : CString) :
    (store.modifyDir dir change).held weight = store.held weight := by
  rw [modifyDir]
  split
  next => rfl
  next records hrecords =>
    have hsum := held_setDir weight store dir (change records)
    rw [hrecords, weightOf_some, hchange] at hsum
    omega

@[simp]
theorem held_putInGarbageCollector (weight : V → Nat) (store : HierarchicalRecords V)
    (key : CString) :
    (store.hierarchicalMapPutInGarbageCollector key).held weight = store.held weight := by
  rw [hierarchicalMapPutInGarbageCollector]
  apply held_modifyDir
  intro records
  rfl

@[simp]
theorem held_popFromGarbageCollector (weight : V → Nat) (store : HierarchicalRecords V)
    (key : CString) :
    (store.hierarchicalMapPopFromGarbageCollector key).held weight = store.held weight := by
  rw [hierarchicalMapPopFromGarbageCollector]
  apply held_modifyDir
  intro records
  rfl

@[simp]
theorem held_insertDirectory (weight : V → Nat) (store : HierarchicalRecords V) (key : CString) :
    (store.insertDirectory key).held weight = store.held weight := by
  cases hdir : store.hiermap[upTo '$' key]? with
  | none =>
      rw [held, insertDirectory, total_insertIfNew _ hdir]
      rfl
  | some records =>
      have hmem : upTo '$' key ∈ store.hiermap := by
        rw [← ExtTreeMap.isSome_getElem?_iff_mem, hdir]
        rfl
      have hsame : store.hiermap.insertIfNew (upTo '$' key) MapRecords.empty = store.hiermap := by
        apply ExtTreeMap.ext_getElem?
        intro key'
        rw [ExtTreeMap.getElem?_insertIfNew, if_neg fun hnew => hnew.2 hmem]
      rw [held, insertDirectory, hsame, held]

/-- An insertion adds the weight of the value. -/
theorem held_put (weight : V → Nat) (isDirectory : V → Bool)
    (hnone : store.hierarchicalMapGet key = none) (value : V) (isZeroBlock : Bool) :
    (store.hierarchicalMapPut isDirectory key value isZeroBlock).held weight =
      store.held weight + weight value := by
  have hput : ∀ records, store.getDirUnsafe (findLastParentDir key) = some records →
      (store.setDir (findLastParentDir key) (records.put key value)).held weight =
        store.held weight + weight value := by
    intro records hrecords
    have hfree : records.buffer[key]? = none := by
      rw [hierarchicalMapGet_eq, hrecords] at hnone
      exact hnone
    have hsum := held_setDir weight store (findLastParentDir key) (records.put key value)
    rw [hrecords, weightOf_some, MapRecords.put, total_insertIfNew weight hfree] at hsum
    rw [MapRecords.put]
    omega
  have hfiled : (store.setDir (findLastParentDir key)
      (((store.getChildUnsafe key).getD MapRecords.empty).put key value)).held weight =
        store.held weight + weight value := by
    rw [getChildUnsafe]
    cases hdir : store.getDirUnsafe (findLastParentDir key) with
    | none =>
        have hempty : (∅ : ExtTreeMap CString V)[key]? = none := ExtTreeMap.getElem?_empty
        have hsum := held_setDir weight store (findLastParentDir key)
          (MapRecords.empty.put key value)
        rw [hdir, weightOf_none, MapRecords.put, MapRecords.empty, total_insertIfNew weight hempty,
          total_empty] at hsum
        rw [Option.getD_none, MapRecords.put, MapRecords.empty]
        omega
    | some records => exact hput records hdir
  rw [hierarchicalMapPut]
  split
  · rw [held_insertDirectory, hfiled]
  · exact hfiled

/-- An update replaces the weight of the value. -/
theorem held_update (weight : V → Nat) (hsome : store.hierarchicalMapGet key = some old)
    (value : V) : (store.update key value).held weight + weight old =
      store.held weight + weight value := by
  rw [hierarchicalMapGet_eq, Option.bind_eq_some_iff] at hsome
  obtain ⟨records, hrecords, hold⟩ := hsome
  have hinner : total weight (records.update key value).buffer + weight old =
      total weight records.buffer + weight value := by
    have hsum := total_insert weight records.buffer key value
    rw [MapRecords.get] at hold
    rwa [hold, weightOf_some] at hsum
  have hsum := held_setDir weight store (findLastParentDir key) (records.update key value)
  rw [hrecords, weightOf_some] at hsum
  rw [update, modifyDir, hrecords]
  change (store.setDir _ (records.update key value)).held weight + _ = _
  omega

end HierarchicalRecords

/-! ## A pass of the garbage collector -/

namespace DataServer

variable (config : ServerConfig)

/-- The bytes in the maps and in the pool. -/
def heldBytes (server : DataServer) : Nat :=
  server.store.held Block.size + config.blockSize * server.memPool.length

/-- A bound for the buffers in the pool during a pass: those in it and one for each block. -/
def poolBound (server : DataServer) : Nat :=
  server.memPool.length + server.store.held fun _ => 1

/-- The bytes that a pass frees for a block: none for a block of full size if there is room for it
in the pool. -/
def bytesFreed (server : DataServer) (block : Block) : Nat :=
  if server.poolBound + config.blockSize < config.maxStorageSize ∧
      block.size = config.blockSize then 0
  else block.size

/-- In each map there are fewer than 2 GiB to be freed. -/
def PassFits (server : DataServer) : Prop :=
  ∀ entry ∈ server.store.hiermap.toList,
    total (server.bytesFreed config) entry.2.collectable < 2 ^ 31

instance (server : DataServer) : Decidable (server.PassFits config) :=
  inferInstanceAs (Decidable (∀ entry ∈ server.store.hiermap.toList, _))

variable {config} {server : DataServer}

/-- The state of a pass inside a map: what has left the map is in the pool or among the freed bytes,
the pool is within its bound, and so are the freed bytes. -/
structure Releasing (config : ServerConfig) (server : DataServer) (bytes buffers bound : Nat)
    (state : List Memory × Nat × Nat) (m : ExtTreeMap CString Block) : Prop where
  bytes_eq : config.blockSize * state.1.length + state.2.2 + total Block.size m = bytes
  buffers_le : state.1.length + total (fun _ => 1) m ≤ buffers
  bound_le : state.2.2 + total (server.bytesFreed config) m ≤ bound

theorem Releasing.freeMemory {bytes buffers bound : Nat} {state : List Memory × Nat × Nat}
    {m : ExtTreeMap CString Block} {key : CString} {block : Block}
    (hbuffers : buffers ≤ server.poolBound) (hblock : m[key]? = some block)
    (h : Releasing config server bytes buffers bound state m) :
    Releasing config server bytes buffers bound (freeMemory config state block) (m.erase key) := by
  obtain ⟨pool, passTotal, freed⟩ := state
  obtain ⟨hbytes, hpool, hbound⟩ := h
  have hsize := total_erase Block.size m key
  have hcount := total_erase (fun _ : Block => 1) m key
  have hcost := total_erase (server.bytesFreed config) m key
  rw [hblock, weightOf_some] at hsize hcount hcost
  rw [DataServer.freeMemory]
  simp only at hbytes hpool hbound ⊢
  split
  next hfree =>
    have hfreed : server.bytesFreed config block = block.size := by
      apply if_neg
      rintro ⟨hroom, hfull⟩
      rcases hfree with hfree | hfree
      · omega
      · exact hfree hfull
    refine ⟨?_, ?_, ?_⟩
    · simp only
      omega
    · simp only
      omega
    · simp only
      omega
  next hkept =>
    rw [not_or, not_not] at hkept
    refine ⟨?_, ?_, ?_⟩
    · simp only [List.length_append, List.length_singleton, Nat.mul_add]
      omega
    · simp only [List.length_append, List.length_singleton]
      omega
    · simp only
      omega

/-- The turn of one map. -/
theorem releasing_cleaning (config : ServerConfig) {records : MapRecords Block} {pool : List Memory}
    (passTotal : Nat) (hpool : pool.length + total (fun _ => 1) records.buffer ≤ server.poolBound) :
    Releasing config server (config.blockSize * pool.length + total Block.size records.buffer)
        (pool.length + total (fun _ => 1) records.buffer)
        (total (server.bytesFreed config) records.buffer)
        (records.cleaning (freeMemory config) (pool, passTotal, 0)).1 records.cleaned.buffer ∧
      (records.cleaning (freeMemory config) (pool, passTotal, 0)).1.2.1 = passTotal := by
  rw [← MapRecords.cleaning_snd (freeMemory config) records (pool, passTotal, 0)]
  refine MapRecords.cleaning_invariant (fun state m => Releasing config server _ _ _ state m ∧
    state.2.1 = passTotal) ?_ ⟨⟨?_, ?_, ?_⟩, rfl⟩
  · rintro state m key block hblock ⟨hstate, htotal⟩
    refine ⟨hstate.freeMemory hpool hblock, ?_⟩
    rw [freeMemory]
    split <;> exact htotal
  · rw [Nat.add_zero]
  · exact Nat.le_refl _
  · rw [Nat.zero_add]

/-- The report for one map, if it is right. -/
theorem endOfMap_of_lt {pool : List Memory} {passTotal freed : Nat} (hfreed : freed < 2 ^ 31)
    (htotal : passTotal + freed < 2 ^ 63) :
    endOfMap (pool, passTotal, freed) = (pool, passTotal + freed, 0) := by
  have hreport : int32 freed = freed := by
    apply int32_of_fits
    · exact Int.le_trans (by norm_num) (Int.natCast_nonneg freed)
    · exact_mod_cast hfreed
  have hsum : ((passTotal : Int) + freed) % 2 ^ 64 = (passTotal + freed : Nat) := by
    rw [← Int.natCast_add]
    apply Int.emod_eq_of_lt (Int.natCast_nonneg _)
    have hlt : passTotal + freed < 2 ^ 64 := Nat.lt_trans htotal (by norm_num)
    exact_mod_cast hlt
  rw [endOfMap, hreport, hsum]
  rfl

/-- The state of a pass between two maps. -/
structure Passing (config : ServerConfig) (server : DataServer)
    (state : (List Memory × Nat × Nat) × HierarchicalRecords Block) : Prop where
  bytes_eq : config.blockSize * state.1.1.length + state.1.2.1 + state.2.held Block.size =
    server.heldBytes config
  buffers_le : state.1.1.length + state.2.held (fun _ => 1) ≤ server.poolBound
  freed_eq : state.1.2.2 = 0

theorem Passing.cleanDir {state : (List Memory × Nat × Nat) × HierarchicalRecords Block}
    {dir : CString} (hfits : server.PassFits config) (hbytes : server.heldBytes config < 2 ^ 63)
    (hdir : state.2.getDirUnsafe dir = server.store.getDirUnsafe dir)
    (h : Passing config server state) :
    Passing config server
      (HierarchicalRecords.cleanDir (freeMemory config) endOfMap state dir) := by
  obtain ⟨⟨pool, passTotal, freed⟩, store⟩ := state
  obtain ⟨hsum, hpool, hfreed⟩ := h
  simp only at hsum hpool hfreed hdir
  subst hfreed
  rw [HierarchicalRecords.cleanDir]
  split
  next => exact ⟨hsum, hpool, rfl⟩
  next records hrecords =>
    simp only at hrecords
    have hmem : (dir, records) ∈ server.store.hiermap.toList := by
      rw [ExtTreeMap.mem_toList_iff_getElem?_eq_some]
      exact hdir.symm.trans hrecords
    have hcount := weightOf_le_total (fun records => total (fun _ : Block => 1) records.buffer)
      store.hiermap dir
    have hheld := HierarchicalRecords.held_setDir Block.size store dir records.cleaned
    have hheld' := HierarchicalRecords.held_setDir (fun _ => 1) store dir records.cleaned
    have hrecords' : store.hiermap[dir]? = some records := hrecords
    rw [hrecords', weightOf_some] at hcount
    rw [hrecords, weightOf_some] at hheld hheld'
    have hroom : pool.length + total (fun _ => 1) records.buffer ≤ server.poolBound :=
      Nat.le_trans (Nat.add_le_add_left hcount _) hpool
    obtain ⟨⟨hbytes', hbuffers', hbound'⟩, htotal'⟩ :=
      releasing_cleaning config passTotal hroom
    have hmarked := hfits (dir, records) hmem
    have hsplit := MapRecords.total_collectable (server.bytesFreed config) records
    change Passing config server
      (endOfMap (records.cleaning (freeMemory config) (pool, passTotal, 0)).1,
        store.setDir dir (records.cleaning (freeMemory config) (pool, passTotal, 0)).2)
    rw [MapRecords.cleaning_snd]
    generalize (records.cleaning (freeMemory config) (pool, passTotal, 0)).1 = final at *
    obtain ⟨pool', passTotal', freed'⟩ := final
    simp only at hbytes' hbuffers' hbound' htotal' hmarked
    subst htotal'
    rw [endOfMap_of_lt (Nat.lt_of_le_of_lt (by omega) hmarked)
      (Nat.lt_of_le_of_lt (by omega) hbytes)]
    refine ⟨?_, ?_, rfl⟩
    · simp only
      omega
    · simp only
      omega

/-- A whole pass. -/
theorem passing_foldl (hfits : server.PassFits config) (hbytes : server.heldBytes config < 2 ^ 63)
    (dirs : List CString) (hnodup : dirs.Nodup)
    {state : (List Memory × Nat × Nat) × HierarchicalRecords Block}
    (hdirs : ∀ dir ∈ dirs, state.2.getDirUnsafe dir = server.store.getDirUnsafe dir)
    (h : Passing config server state) :
    Passing config server
      (dirs.foldl (HierarchicalRecords.cleanDir (freeMemory config) endOfMap) state) := by
  induction dirs generalizing state with
  | nil => exact h
  | cons dir dirs ih =>
      rw [List.nodup_cons] at hnodup
      rw [List.forall_mem_cons] at hdirs
      apply ih hnodup.2
      · intro dir' hdir'
        have hne : dir ≠ dir' := by
          rintro rfl
          exact hnodup.1 hdir'
        rw [HierarchicalRecords.cleanDir_snd, HierarchicalRecords.getDirUnsafe_modifyDir,
          if_neg hne]
        exact hdirs.2 dir' hdir'
      · exact h.cleanDir hfits hbytes hdirs.1

/-- What a pass takes from the maps and the pool is what it takes from the count. -/
theorem heldBytes_cleanGarbageCollector (hfits : server.PassFits config)
    (hbytes : server.heldBytes config < 2 ^ 63)
    (hcount : (server.heldBytes config : Int) ≤ server.quantityOccupied) :
    (server.cleanGarbageCollector config).quantityOccupied + server.heldBytes config =
        server.quantityOccupied + (server.cleanGarbageCollector config).heldBytes config ∧
      (server.cleanGarbageCollector config).heldBytes config ≤ server.heldBytes config := by
  have hstart : Passing config server ((server.memPool, 0, 0), server.store) := by
    refine ⟨?_, Nat.le_refl _, rfl⟩
    rw [heldBytes]
    simp only
    omega
  have hpass := passing_foldl hfits hbytes server.store.hiermap.keys ExtTreeMap.nodup_keys
    (fun _ _ => rfl) hstart
  rw [cleanGarbageCollector, HierarchicalRecords.hierarchicalMapCleanGarbageCollector]
  generalize server.store.hiermap.keys.foldl _ _ = final at *
  obtain ⟨⟨pool, passTotal, freed⟩, store⟩ := final
  obtain ⟨hsum, _, _⟩ := hpass
  simp only at hsum ⊢
  have htotal : int64 passTotal = passTotal := by
    apply int64_of_fits
    · exact Int.le_trans (by norm_num) (Int.natCast_nonneg passTotal)
    · exact_mod_cast Nat.lt_of_le_of_lt (by omega : passTotal ≤ server.heldBytes config) hbytes
  rw [htotal, decreaseMemoryOccupied, if_neg (by simp only; omega)]
  change server.quantityOccupied - passTotal + _ = _ + (store.held Block.size +
      config.blockSize * pool.length : Nat) ∧
    store.held Block.size + config.blockSize * pool.length ≤ _
  omega

end DataServer

end Hercules
