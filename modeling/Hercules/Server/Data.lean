/-
# A data server

The state of a data server is its two-level map of blocks, the pool of buffers
that wait for reuse, and the count of occupied bytes. The handlers below are the
branches of `srv_worker_helper` for one request at a time, on the network path.

A buffer that comes from `malloc` has whatever contents the allocator left in
it: each request that may allocate carries these contents as `fresh`. A buffer
that comes from the pool has the contents of the block it held before.
-/

import Hercules.Policies
import Hercules.Stat
import Hercules.Server.RenameFile

namespace Hercules

open Std Lib Lib.Text

/-- A stored block: its buffer and the size recorded for it. -/
structure Block where
  data : Memory
  size : Nat

/-- `CheckIfDirectory` on a data server. -/
def Block.isDirectory (block : Block) : Bool :=
  isDir block.data

/-- The settings of a data server: `BLOCK_SIZE` and `max_storage_size`. -/
structure ServerConfig where
  blockSize : Nat
  maxStorageSize : Nat

/-- The state of a data server: the blocks, `mem_pool` and `quantity_occupied`. -/
structure DataServer where
  store : HierarchicalRecords Block
  memPool : List Memory
  quantityOccupied : Int

namespace DataServer

variable (config : ServerConfig)

/-- A server after its start; `root` is the URI of its instance. -/
def init (root : CString) : DataServer :=
  ⟨HierarchicalRecords.init root, [], 0⟩

/-- `HierarchicalMapGet`. -/
def get (server : DataServer) (key : CString) : Option Block :=
  server.store.hierarchicalMapGet key

/-- `IncreaseMemoryOccupied`. -/
def increaseMemoryOccupied (server : DataServer) (requiredSpace : Nat) : DataServer :=
  if server.quantityOccupied + requiredSpace > config.maxStorageSize then server
  else { server with quantityOccupied := server.quantityOccupied + requiredSpace }

/-- `DecreaseMemoryOccupied`. -/
def decreaseMemoryOccupied (server : DataServer) (freedSpace : Int) : DataServer :=
  if server.quantityOccupied - freedSpace < 0 then server
  else { server with quantityOccupied := server.quantityOccupied - freedSpace }

/-- `READ_OP`: the requested bytes, or nothing if the key is unknown (the
not-found text is sent then). A request for no bytes asks for the whole block. -/
def read (server : DataServer) (key : CString) (blockOffset toRead : Nat) :
    Option (List UInt8) :=
  (server.get key).map fun block =>
    block.data.load blockOffset (if toRead = 0 then block.size else toRead)

/-- The buffer for a new block: block 0 is always allocated, other blocks reuse a
buffer of the pool if there is one. Returned are the buffer, the size recorded for
it, whether it was reused, and the pool. -/
def allocate (server : DataServer) (key : CString) (msgLength : Nat) (fresh : Memory) :
    Memory × Nat × Bool × List Memory :=
  if isBlockZero key then (fresh, msgLength, false, server.memPool)
  else
    match server.memPool with
    | [] => (fresh, config.blockSize, false, [])
    | buffer :: pool => (buffer, config.blockSize, true, pool)

/-- `WRITE_OP` for a key that is not stored. -/
def writeNew (server : DataServer) (key : CString) (blockOffset : Nat) (data : List UInt8)
    (fresh : Memory) : DataServer :=
  let (buffer, size, reused, pool) := allocate config server key data.length fresh
  let counted := if reused then server else server.increaseMemoryOccupied config size
  { counted with
    store := server.store.hierarchicalMapPut Block.isDirectory key
      ⟨buffer.store blockOffset data, size⟩ (isBlockZero key)
    memPool := pool }

/-- The merge of a stored block 0 with the received one: the larger `st_size` wins. -/
def mergeStat (old latest : Memory) : Memory :=
  setStSize latest (max (stSize latest) (stSize old))

/-- `WRITE_OP` for a stored key. A block 0 is taken out of the garbage collector
and merged; another block is overwritten in place. -/
def writeExisting (server : DataServer) (key : CString) (block : Block) (blockOffset : Nat)
    (data : List UInt8) (fresh : Memory) : DataServer :=
  if isBlockZero key then
    let latest := mergeStat block.data (fresh.store 0 data)
    { server with
      store := (server.store.hierarchicalMapPopFromGarbageCollector key).update key
        { block with data := block.data.store blockOffset (latest.load 0 data.length) } }
  else
    { server with
      store := server.store.update key { block with data := block.data.store blockOffset data } }

/-- `WRITE_OP`. An empty message is refused; for a stored block 0 that happens
without a reply and after the garbage collector entry is gone. -/
def write (server : DataServer) (key : CString) (blockOffset : Nat) (data : List UInt8)
    (fresh : Memory) : Option Reply × DataServer :=
  match server.get key with
  | none =>
      if data = [] then (some .error, server)
      else (some .ok, server.writeNew config key blockOffset data fresh)
  | some block =>
      if data = [] then
        if isBlockZero key then
          (none, { server with store := server.store.hierarchicalMapPopFromGarbageCollector key })
        else (some .error, server)
      else (some .ok, server.writeExisting key block blockOffset data fresh)

/-- `UNLINK_OP`; the key is that of a block 0. For an unknown key the handler goes
on with a null pointer and the server ends. -/
def unlink (server : DataServer) (key : CString) (numOpened : Nat) : Option (Reply × DataServer) :=
  match server.get key with
  | none => none
  | some block =>
      let links := (stNlink block.data + (2 ^ 64 - 1)) % 2 ^ 64
      let store := server.store.update key { block with data := setStNlink block.data links }
      if links = 0 ∧ numOpened = 0 then
        some (.delete, { server with store := store.hierarchicalMapPutInGarbageCollector key })
      else some (.noDelete, { server with store := store })

/-- `DELETE_OP`. -/
def delete (server : DataServer) (key : CString) : Reply × DataServer :=
  (.ok, { server with store := server.store.hierarchicalMapPutInGarbageCollector key })

/-- `FreeMemory`: a full-size buffer goes to the pool while there is room, others
are freed. Besides the pool the total of the pass and that of the current map are
kept. -/
def freeMemory (state : List Memory × Nat × Nat) (block : Block) : List Memory × Nat × Nat :=
  let (pool, total, freed) := state
  if pool.length + block.size ≥ config.maxStorageSize ∨ block.size ≠ config.blockSize then
    (pool, total, freed + block.size)
  else (pool ++ [block.data], total, freed)

/-- `cleaning` returns an `int32_t`, which is added to a `uint64_t`. -/
def endOfMap (state : List Memory × Nat × Nat) : List Memory × Nat × Nat :=
  let (pool, total, freed) := state
  (pool, ((total + int32 freed) % 2 ^ 64).toNat, 0)

/-- A pass of the garbage collector. -/
def cleanGarbageCollector (server : DataServer) : DataServer :=
  let ((pool, total, _), store) :=
    server.store.hierarchicalMapCleanGarbageCollector (freeMemory config) endOfMap
      (server.memPool, 0, 0)
  { server with store := store, memPool := pool }.decreaseMemoryOccupied (int64 total)

/-! ## The blocks after a request -/

variable {config : ServerConfig} {server : DataServer} {key key' : CString}

@[simp]
theorem store_decreaseMemoryOccupied (server : DataServer) (freedSpace : Int) :
    (server.decreaseMemoryOccupied freedSpace).store = server.store := by
  rw [decreaseMemoryOccupied]
  split <;> rfl

theorem store_cleanGarbageCollector (config : ServerConfig) (server : DataServer) :
    (server.cleanGarbageCollector config).store =
      (server.store.hierarchicalMapCleanGarbageCollector (freeMemory config) endOfMap
        (server.memPool, 0, 0)).2 := by
  rw [cleanGarbageCollector, store_decreaseMemoryOccupied]

theorem store_writeNew (config : ServerConfig) (server : DataServer) (key : CString)
    (blockOffset : Nat) (data : List UInt8) (fresh : Memory) :
    (server.writeNew config key blockOffset data fresh).store =
      server.store.hierarchicalMapPut Block.isDirectory key
        ⟨(allocate config server key data.length fresh).1.store blockOffset data,
          (allocate config server key data.length fresh).2.1⟩ (isBlockZero key) := rfl

/-- A write touches no other key. -/
theorem get_write_of_ne (hne : key ≠ key') (config : ServerConfig) (server : DataServer)
    (blockOffset : Nat) (data : List UInt8) (fresh : Memory) :
    (server.write config key blockOffset data fresh).2.get key' = server.get key' := by
  rw [write]
  split
  next =>
    split
    · rfl
    · rw [get, store_writeNew, HierarchicalRecords.hierarchicalMapGet_put_of_ne _ _ hne, get]
  next block _ =>
    split
    · split
      · exact HierarchicalRecords.hierarchicalMapGet_popFromGarbageCollector _ _ _
      · rfl
    · rw [writeExisting]
      split
      · rw [get, HierarchicalRecords.hierarchicalMapGet_update_of_ne _ hne,
          HierarchicalRecords.hierarchicalMapGet_popFromGarbageCollector, get]
      · rw [get, HierarchicalRecords.hierarchicalMapGet_update_of_ne _ hne, get]

theorem write_of_none {data : List UInt8} (hdata : data ≠ []) (hnone : server.get key = none)
    (config : ServerConfig) (blockOffset : Nat) (fresh : Memory) :
    (server.write config key blockOffset data fresh).2 =
      server.writeNew config key blockOffset data fresh := by
  simp only [write, hnone, hdata, if_false]

theorem write_of_some {data : List UInt8} (hdata : data ≠ []) {block : Block}
    (hsome : server.get key = some block) (config : ServerConfig) (blockOffset : Nat)
    (fresh : Memory) :
    (server.write config key blockOffset data fresh).2 =
      server.writeExisting key block blockOffset data fresh := by
  simp only [write, hsome, hdata, if_false]

/-- A new block shows the written bytes over whatever its buffer held. -/
theorem get_writeNew (hnone : server.get key = none) (config : ServerConfig) (blockOffset : Nat)
    (data : List UInt8) (fresh : Memory) :
    (server.writeNew config key blockOffset data fresh).get key =
      some ⟨(allocate config server key data.length fresh).1.store blockOffset data,
        (allocate config server key data.length fresh).2.1⟩ := by
  rw [get, store_writeNew]
  exact HierarchicalRecords.hierarchicalMapGet_put_self _ hnone _ _

theorem size_allocate (hzero : isBlockZero key = false) (config : ServerConfig)
    (server : DataServer) (msgLength : Nat) (fresh : Memory) :
    (allocate config server key msgLength fresh).2.1 = config.blockSize := by
  rw [allocate, hzero]
  cases server.memPool <;> rfl

/-- A stored data block is overwritten in place. -/
theorem get_writeExisting {block : Block} (hsome : server.get key = some block)
    (hzero : isBlockZero key = false) (blockOffset : Nat) (data : List UInt8) (fresh : Memory) :
    (server.writeExisting key block blockOffset data fresh).get key =
      some { block with data := block.data.store blockOffset data } := by
  rw [writeExisting, hzero]
  exact HierarchicalRecords.hierarchicalMapGet_update_self (by
    rw [get] at hsome
    rw [hsome]
    rfl) _

/-- A data block after a write shows the data over its old bytes, or over those of
a buffer that is new to it. -/
theorem get_write_data (hzero : isBlockZero key = false) {data : List UInt8} (hdata : data ≠ [])
    (config : ServerConfig) (server : DataServer) (blockOffset : Nat) (fresh : Memory) :
    ∃ (buffer : Memory) (size : Nat),
      (server.write config key blockOffset data fresh).2.get key =
        some ⟨buffer.store blockOffset data, size⟩ ∧
      ((∀ block, server.get key = some block → block.size = config.blockSize) →
        size = config.blockSize) ∧
      ∀ block, server.get key = some block → buffer = block.data := by
  cases hget : server.get key with
  | none =>
      refine ⟨(allocate config server key data.length fresh).1, config.blockSize, ?_, fun _ => rfl,
        fun _ h => by cases h⟩
      rw [write_of_none hdata hget, get_writeNew hget, size_allocate hzero]
  | some block =>
      refine ⟨block.data, block.size, ?_, fun h => h block rfl, ?_⟩
      · rw [write_of_some hdata hget, get_writeExisting hget hzero]
      · intro block' h
        rw [Option.some.inj h]

/-- A stored block 0 shows the merged record. -/
theorem get_writeExisting_zero {block : Block} (hsome : server.get key = some block)
    (hzero : isBlockZero key = true) (blockOffset : Nat) (data : List UInt8) (fresh : Memory) :
    (server.writeExisting key block blockOffset data fresh).get key =
      some { block with
        data := block.data.store blockOffset
          ((mergeStat block.data (fresh.store 0 data)).load 0 data.length) } := by
  rw [writeExisting, if_pos hzero]
  refine HierarchicalRecords.hierarchicalMapGet_update_self ?_ _
  rw [HierarchicalRecords.hierarchicalMapGet_popFromGarbageCollector, ← get, hsome]
  rfl

/-- A record that is sent to a stored block 0: the larger size stays. -/
theorem get_writeExisting_stat {old : Block} (hsome : server.get key = some old)
    (hzero : isBlockZero key = true) (stat fresh : Memory) :
    ∃ block, (server.writeExisting key old 0 (stat.load 0 sizeofStat) fresh).get key = some block ∧
      stSize block.data = max (stSize stat) (stSize old.data) := by
  rw [get_writeExisting_zero hsome hzero, Memory.length_load]
  refine ⟨_, rfl, ?_⟩
  have hbounds := int64_bounds (stat.loadNat 48 8)
  have hbounds' := int64_bounds (old.data.loadNat 48 8)
  rw [stSize_store_load, mergeStat, stSize_store_load]
  exact stSize_setStSize _ (le_max_of_le_left hbounds.1) (max_lt hbounds.2 hbounds'.2)

theorem isSome_get_write {data : List UInt8} (hdata : data ≠ []) (config : ServerConfig)
    (server : DataServer) (key : CString) (blockOffset : Nat) (fresh : Memory) :
    ((server.write config key blockOffset data fresh).2.get key).isSome := by
  cases hget : server.get key with
  | none =>
      rw [write_of_none hdata hget, get_writeNew hget]
      rfl
  | some block =>
      rw [write_of_some hdata hget]
      cases hzero : isBlockZero key with
      | false =>
          rw [get_writeExisting hget hzero]
          rfl
      | true =>
          rw [get_writeExisting_zero hget hzero]
          rfl

/-- A write to a stored block 0 takes its file out of the garbage collector. -/
theorem garbageOf_write {data : List UInt8} (hdata : data ≠ []) (config : ServerConfig)
    (server : DataServer) (key : CString) (blockOffset : Nat) (fresh : Memory) (dir : CString) :
    (server.write config key blockOffset data fresh).2.store.garbageOf dir =
      if isBlockZero key ∧ (server.get key).isSome ∧ findLastParentDir key = dir then
        (server.store.garbageOf dir).erase (upTo '$' key)
      else server.store.garbageOf dir := by
  cases hget : server.get key with
  | none =>
      rw [write_of_none hdata hget, store_writeNew, HierarchicalRecords.garbageOf_put]
      simp
  | some block =>
      rw [write_of_some hdata hget, writeExisting]
      cases hzero : isBlockZero key with
      | false => simp
      | true => simp [HierarchicalRecords.garbageOf_popFromGarbageCollector]

theorem get_delete (server : DataServer) (key key' : CString) :
    (server.delete key).2.get key' = server.get key' :=
  HierarchicalRecords.hierarchicalMapGet_putInGarbageCollector _ _ _

/-- What a successful unlink does: the link count of the block changes, and the
key, with its block number, may be put in the garbage collector. -/
theorem unlink_cases {numOpened : Nat} {reply : Reply} {server' : DataServer}
    (h : server.unlink key numOpened = some (reply, server')) :
    ∃ block links, server.get key = some block ∧
      (server'.store = server.store.update key { block with data := setStNlink block.data links } ∨
        server'.store = (server.store.update key
          { block with data := setStNlink block.data links }).hierarchicalMapPutInGarbageCollector
            key) := by
  rw [unlink] at h
  split at h
  next => cases h
  next block hget =>
    refine ⟨block, (stNlink block.data + (2 ^ 64 - 1)) % 2 ^ 64, hget, ?_⟩
    dsimp only at h
    split at h
    · cases h
      exact Or.inr rfl
    · cases h
      exact Or.inl rfl

/-- A collection removes the blocks whose path waits in their directory. -/
theorem get_cleanGarbageCollector (config : ServerConfig) (server : DataServer) (key : CString) :
    (server.cleanGarbageCollector config).get key =
      if upTo '$' key ∈ server.store.garbageOf (findLastParentDir key) then none
      else server.get key := by
  rw [get, store_cleanGarbageCollector,
    HierarchicalRecords.hierarchicalMapGet_cleanGarbageCollector]
  rfl

/-! ## Invariants of the stored keys -/

section EveryKey

variable {P : CString → CString → Prop} (hserver : server.store.EveryKey P)

include hserver

theorem everyKey_write (hkey : P (findLastParentDir key) key) (config : ServerConfig)
    (blockOffset : Nat) (data : List UInt8) (fresh : Memory) :
    (server.write config key blockOffset data fresh).2.store.EveryKey P := by
  rw [write]
  split
  next =>
    split
    · exact hserver
    · exact hserver.put hkey _ _ _
  next =>
    split
    · split
      · exact hserver.popFromGarbageCollector key
      · exact hserver
    · rw [writeExisting]
      split
      · exact (hserver.popFromGarbageCollector key).update hkey _
      · exact hserver.update hkey _

end EveryKey

end DataServer

end Hercules
