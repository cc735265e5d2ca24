/-
# Prefetching on a data server

A request for a block with prefetching is answered with the block that was asked for and
with those that follow it at a fixed distance, as many as fit in the message. Each comes
with its number. The distance is the number of data servers with which the server was
started, so that with round robin the next block in the message is the next one that the
server has.
-/

import Hercules.Server.Requests

namespace Hercules

open Std Lib Lib.Text

/-- What a data server was started with: the number of data servers, and the size of a message if
the request names none. -/
structure PrefetchSettings where
  numDataServers : Int
  prefetchSize : Nat

/-- `std::stoul`; its exceptions end the server. -/
def stoul (text : CString) : Option Nat :=
  match scanInt text with
  | none => none
  | some (value, _) => if value.natAbs < 2 ^ 64 then some (value % 2 ^ 64).toNat else none

/-- The records in a message: the number of a block and its bytes. -/
def recordBytes (records : List (Nat × List UInt8)) : List UInt8 :=
  records.flatMap fun record => Memory.natBytes 4 record.1 ++ record.2

/-- The loop of `HierarchicalMapGetPrefetch` over the records that fit. It ends at a block that is
missing or has another size. -/
def MapRecords.prefetchRecords (children : MapRecords Block) (blockSize : Nat) (baseKey : CString)
    (numDataServers : Int) : Nat → Nat → List (Nat × List UInt8)
  | 0, _ => []
  | n + 1, current =>
      match children.get (blockKey baseKey current) with
      | none => []
      | some block =>
          if block.size ≠ blockSize then []
          else (current, block.data.load 0 blockSize) ::
            children.prefetchRecords blockSize baseKey numDataServers n
              ((current + numDataServers) % 2 ^ 32).toNat

/-- `HierarchicalMapGetPrefetch`. -/
def HierarchicalRecords.hierarchicalMapGetPrefetch (store : HierarchicalRecords Block)
    (blockSize : Nat) (baseKey : CString) (startBlockId : Nat) (numDataServers : Int)
    (prefetchSize : Nat) : List (Nat × List UInt8) :=
  match store.getChildUnsafe (blockKey baseKey startBlockId) with
  | none => []
  | some children => children.prefetchRecords blockSize baseKey numDataServers
      (prefetchSize / (4 + blockSize)) startBlockId

/-- The same loop with the buffer and `buffer_offset`; the counter bounds its rounds. -/
def MapRecords.writeRecords (children : MapRecords Block) (blockSize : Nat) (baseKey : CString)
    (numDataServers : Int) (prefetchSize : Nat) : Nat → Memory → Nat → Nat → Memory × Nat
  | 0, buffer, offset, _ => (buffer, offset)
  | n + 1, buffer, offset, current =>
      if offset + (4 + blockSize) ≤ prefetchSize then
        match children.get (blockKey baseKey current) with
        | none => (buffer, offset)
        | some block =>
            if block.size ≠ blockSize then (buffer, offset)
            else
              let buffer := buffer.store offset (Memory.natBytes 4 current)
              let buffer := buffer.store (offset + 4) (block.data.load 0 blockSize)
              children.writeRecords blockSize baseKey numDataServers prefetchSize n buffer
                (offset + (4 + blockSize)) ((current + numDataServers) % 2 ^ 32).toNat
      else (buffer, offset)

/-- `HierarchicalMapGetPrefetch` with the buffer that it fills, and the number of bytes that it
reports. -/
def HierarchicalRecords.fillPrefetchBuffer (store : HierarchicalRecords Block) (blockSize : Nat)
    (baseKey : CString) (startBlockId : Nat) (numDataServers : Int) (prefetchBuffer : Memory)
    (prefetchSize : Nat) : Memory × Nat :=
  match store.getChildUnsafe (blockKey baseKey startBlockId) with
  | none => (prefetchBuffer, 0)
  | some children => children.writeRecords blockSize baseKey numDataServers prefetchSize
      prefetchSize prefetchBuffer 0 startBlockId

namespace DataServer

/-- The size of the message for a request. -/
def messageSize (blockSize : Nat) (settings : PrefetchSettings) (toRead : Nat) : Nat :=
  max (if toRead = 0 then settings.prefetchSize else toRead) (4 + blockSize)

/-- `READV2_OP`: the message, or nothing if the text for an unknown key is sent. There is no result
if the server ends or does not answer. -/
def readV2 (config : ServerConfig) (settings : PrefetchSettings) (server : DataServer)
    (key : CString) (toRead : Nat) : Option (Option (List UInt8)) :=
  match fromOn '$' key with
  | [] => none
  | _ :: number =>
      (stoul number).map fun current =>
        match server.store.hierarchicalMapGetPrefetch config.blockSize (upTo '$' key)
            (current % 2 ^ 32) settings.numDataServers
            (messageSize config.blockSize settings toRead) with
        | [] => none
        | records => some (recordBytes records)

/-- The requests of `get_ndata_prefetch` to a data server. Both modes are handled alike. -/
def servePrefetch (config : ServerConfig) (settings : PrefetchSettings) (server : DataServer)
    (req : CString) : Option (Option (List UInt8)) :=
  match scanRequest req with
  | none => none
  | some ⟨mode, blockSizeRecv, _, key, toRead⟩ =>
      if (mode = "GET".toList ∨ mode = "LOCALGET".toList) ∧ blockSizeRecv = 11 then
        server.readV2 config settings key toRead
      else none

end DataServer

/-! ## The answers of a data server -/

section Records

variable {blockSize : Nat} {records : List (Nat × List UInt8)}

theorem recordBytes_cons (record : Nat × List UInt8) (records : List (Nat × List UInt8)) :
    recordBytes (record :: records) =
      Memory.natBytes 4 record.1 ++ record.2 ++ recordBytes records := rfl

theorem length_recordBytes (hdata : ∀ record ∈ records, record.2.length = blockSize) :
    (recordBytes records).length = records.length * (4 + blockSize) := by
  induction records with
  | nil => simp [recordBytes]
  | cons record records ih =>
      rw [List.forall_mem_cons] at hdata
      rw [recordBytes_cons, List.length_append, List.length_append, Memory.length_natBytes, hdata.1,
        ih hdata.2, List.length_cons, Nat.succ_mul]
      omega

end Records

section Server

theorem stoul_decimal {n : Int} (hlower : -2 ^ 31 ≤ n) (hupper : n < 2 ^ 31) :
    stoul (decimal n) = some (n % 2 ^ 64).toNat := by
  simp only [stoul, scanInt_decimal]
  rw [if_pos]
  omega

variable {children : MapRecords Block} {blockSize : Nat} {uri : CString} {numDataServers : Int}
  {n current : Nat}

/-- Every record is a block of the map. -/
theorem MapRecords.mem_prefetchRecords (hcurrent : current < 2 ^ 32) :
    ∀ record ∈ children.prefetchRecords blockSize uri numDataServers n current,
      record.1 < 2 ^ 32 ∧ ∃ block, children.get (blockKey uri record.1) = some block ∧
        block.size = blockSize ∧ record.2 = block.data.load 0 blockSize := by
  induction n generalizing current with
  | zero =>
      intro record hrecord
      cases hrecord
  | succ n ih =>
      rw [prefetchRecords]
      split
      next =>
        intro record hrecord
        cases hrecord
      next block hblock =>
        split
        next =>
          intro record hrecord
          cases hrecord
        next hsize =>
          rw [List.forall_mem_cons]
          refine ⟨⟨hcurrent, block, hblock, not_not.mp hsize, rfl⟩, ih ?_⟩
          have hmod := Int.emod_lt_of_pos ((current : Int) + numDataServers)
            (show (0 : Int) < 2 ^ 32 by norm_num)
          omega

theorem MapRecords.length_prefetchRecords_le :
    (children.prefetchRecords blockSize uri numDataServers n current).length ≤ n := by
  induction n generalizing current with
  | zero => exact Nat.le_refl 0
  | succ n ih =>
      rw [prefetchRecords]
      split
      · exact Nat.zero_le _
      · split
        · exact Nat.zero_le _
        · exact Nat.succ_le_succ ih

theorem MapRecords.prefetchRecords_of_none (h : children.get (blockKey uri current) = none) :
    children.prefetchRecords blockSize uri numDataServers n current = [] := by
  cases n with
  | zero => rfl
  | succ n =>
      rw [prefetchRecords, h]

theorem MapRecords.prefetchRecords_of_some {block : Block}
    (h : children.get (blockKey uri current) = some block) (hsize : block.size = blockSize) :
    children.prefetchRecords blockSize uri numDataServers (n + 1) current =
      (current, block.data.load 0 blockSize) :: children.prefetchRecords blockSize uri
        numDataServers n ((current + numDataServers) % 2 ^ 32).toNat := by
  rw [prefetchRecords, h]
  exact if_neg (not_not.mpr hsize)

/-- The buffer has the records, one behind the other, as many as fit. -/
theorem MapRecords.writeRecords_eq {prefetchSize offset : Nat}
    (hn : (prefetchSize - offset) / (4 + blockSize) ≤ n) (buffer : Memory) :
    children.writeRecords blockSize uri numDataServers prefetchSize n buffer offset current =
      let records := children.prefetchRecords blockSize uri numDataServers
        ((prefetchSize - offset) / (4 + blockSize)) current
      (buffer.store offset (recordBytes records), offset + (recordBytes records).length) := by
  have hnil : (buffer.store offset (recordBytes []), offset + (recordBytes []).length) =
      (buffer, offset) := by
    simp [recordBytes]
  induction n generalizing buffer offset current with
  | zero =>
      rw [Nat.le_zero.mp hn]
      exact hnil.symm
  | succ n ih =>
      rw [writeRecords]
      by_cases hfits : offset + (4 + blockSize) ≤ prefetchSize
      · -- one record less fits behind this one
        have hcount : (prefetchSize - offset) / (4 + blockSize) =
            (prefetchSize - (offset + (4 + blockSize))) / (4 + blockSize) + 1 := by
          rw [Nat.div_eq_sub_div (by omega) (by omega), Nat.sub_sub]
        rw [if_pos hfits, hcount, prefetchRecords]
        cases hblock : children.get (blockKey uri current) with
        | none => exact hnil.symm
        | some block =>
            by_cases hsize : block.size = blockSize
            · dsimp only
              rw [if_neg (not_not.mpr hsize), if_neg (not_not.mpr hsize), ih (by omega)]
              · dsimp only
                rw [recordBytes_cons, Memory.store_append, Memory.store_append]
                simp [Nat.add_assoc]
              · simp [recordBytes]
            · dsimp only
              rw [if_pos hsize, if_pos hsize]
              exact hnil.symm
      · rw [if_neg hfits, Nat.div_eq_of_lt (by omega)]
        exact hnil.symm

theorem MapRecords.mem_prefetchRecords_succ (record : Nat × List UInt8) :
    record ∈ children.prefetchRecords blockSize uri numDataServers (n + 1) current ↔
      ∃ block, children.get (blockKey uri current) = some block ∧ block.size = blockSize ∧
        (record = (current, block.data.load 0 blockSize) ∨
          record ∈ children.prefetchRecords blockSize uri numDataServers n
            ((current + numDataServers) % 2 ^ 32).toNat) := by
  rw [prefetchRecords]
  cases hblock : children.get (blockKey uri current) with
  | none => simp
  | some block =>
      by_cases hsize : block.size = blockSize
      · simp [hsize]
      · simp [hsize]

/-- The records are the blocks at the given distance, up to the first that is missing or has
another size. -/
theorem MapRecords.mem_prefetchRecords_iff {stride : Nat}
    (hids : ∀ k < n, current + k * stride < 2 ^ 32) (record : Nat × List UInt8) :
    record ∈ children.prefetchRecords blockSize uri stride n current ↔
      ∃ k < n, record.1 = current + k * stride ∧
        (∀ j < k, ∃ block, children.get (blockKey uri (current + j * stride : Nat)) = some block ∧
          block.size = blockSize) ∧
        ∃ block, children.get (blockKey uri record.1) = some block ∧ block.size = blockSize ∧
          record.2 = block.data.load 0 blockSize := by
  induction n generalizing current with
  | zero => simp [prefetchRecords]
  | succ n ih =>
      have hnext : record ∈ children.prefetchRecords blockSize uri stride n
          (((current : Int) + stride) % 2 ^ 32).toNat ↔
          record ∈ children.prefetchRecords blockSize uri stride n (current + stride) := by
        cases n with
        | zero => rfl
        | succ n =>
            have hid := hids 1 (by omega)
            have hsum : (((current : Int) + stride) % 2 ^ 32).toNat = current + stride := by
              omega
            rw [hsum]
      have hshift : ∀ j, current + stride + j * stride = current + (j + 1) * stride := by
        intro j
        rw [Nat.succ_mul]
        omega
      have hids' : ∀ k < n, current + stride + k * stride < 2 ^ 32 := by
        intro k hk
        rw [hshift]
        exact hids (k + 1) (by omega)
      rw [mem_prefetchRecords_succ, hnext, ih hids', Nat.exists_lt_succ_left]
      simp only [Nat.forall_lt_succ_left, hshift, Nat.zero_mul, Nat.add_zero]
      constructor
      · rintro ⟨block, hblock, hsize, rfl | ⟨k, hk, hid, hbefore, hrecord⟩⟩
        · exact Or.inl ⟨rfl, fun j hj => absurd hj (Nat.not_lt_zero j), block, hblock, hsize, rfl⟩
        · exact Or.inr ⟨k, hk, hid, ⟨⟨block, hblock, hsize⟩, hbefore⟩, hrecord⟩
      · rintro (⟨hid, -, block, hblock, hsize, hdata⟩ |
          ⟨k, hk, hid, ⟨⟨block, hblock, hsize⟩, hbefore⟩, hrecord⟩)
        · exact ⟨block, hid ▸ hblock, hsize, Or.inl (Prod.ext hid hdata)⟩
        · exact ⟨block, hblock, hsize, Or.inr ⟨k, hk, hid, hbefore, hrecord⟩⟩

namespace HierarchicalRecords

variable {store : HierarchicalRecords Block} {baseKey : CString}

/-- A block is stored in full size, with these bytes. -/
def FullBlock (store : HierarchicalRecords Block) (blockSize : Nat) (baseKey : CString) (c : Nat)
    (data : List UInt8) : Prop :=
  ∃ block, store.hierarchicalMapGet (blockKey baseKey c) = some block ∧ block.size = blockSize ∧
    data = block.data.load 0 blockSize

/-- The blocks that a message has room for: one at each distance, up to the first that is not stored
in full size. -/
def Prefetched (store : HierarchicalRecords Block) (blockSize : Nat) (baseKey : CString)
    (start stride capacity c : Nat) (data : List UInt8) : Prop :=
  ∃ k < capacity, c = start + k * stride ∧
    (∀ j < k, ∃ data, store.FullBlock blockSize baseKey (start + j * stride) data) ∧
    store.FullBlock blockSize baseKey c data

/-- The blocks of one base key are in one map. -/
theorem get_blockKey_eq (store : HierarchicalRecords Block) (baseKey : CString) (start c : Int) :
    store.hierarchicalMapGet (blockKey baseKey c) =
      (store.getChildUnsafe (blockKey baseKey start)).bind (·.get (blockKey baseKey c)) := by
  rw [hierarchicalMapGet, getChildUnsafe, getChildUnsafe, findLastParentDir_blockKey_eq,
    findLastParentDir_blockKey_eq]

theorem fillPrefetchBuffer_eq (store : HierarchicalRecords Block) (blockSize : Nat)
    (baseKey : CString) (start : Nat) (numDataServers : Int) (buffer : Memory)
    (prefetchSize : Nat) :
    store.fillPrefetchBuffer blockSize baseKey start numDataServers buffer prefetchSize =
      let records := store.hierarchicalMapGetPrefetch blockSize baseKey start numDataServers
        prefetchSize
      (buffer.store 0 (recordBytes records), (recordBytes records).length) := by
  rw [fillPrefetchBuffer, hierarchicalMapGetPrefetch]
  cases store.getChildUnsafe (blockKey baseKey start) with
  | none => simp [recordBytes]
  | some children =>
      have hrounds : prefetchSize / (4 + blockSize) ≤ prefetchSize := Nat.div_le_self _ _
      dsimp only
      rw [MapRecords.writeRecords_eq hrounds]
      simp

theorem length_hierarchicalMapGetPrefetch_le (store : HierarchicalRecords Block) (blockSize : Nat)
    (baseKey : CString) (start : Nat) (numDataServers : Int) (prefetchSize : Nat) :
    (store.hierarchicalMapGetPrefetch blockSize baseKey start numDataServers prefetchSize).length ≤
      prefetchSize / (4 + blockSize) := by
  rw [hierarchicalMapGetPrefetch]
  split
  · exact Nat.zero_le _
  · exact MapRecords.length_prefetchRecords_le

theorem FullBlock.length_eq {c : Nat} {data : List UInt8}
    (h : store.FullBlock blockSize baseKey c data) : data.length = blockSize := by
  obtain ⟨block, -, -, rfl⟩ := h
  exact Memory.length_load

theorem FullBlock.unique {c : Nat} {data data' : List UInt8}
    (h : store.FullBlock blockSize baseKey c data)
    (h' : store.FullBlock blockSize baseKey c data') : data = data' := by
  obtain ⟨block, hblock, -, rfl⟩ := h
  obtain ⟨block', hblock', -, rfl⟩ := h'
  rw [Option.some.inj (hblock.symm.trans hblock')]

/-- The records of a message are the blocks that it has room for. -/
theorem mem_hierarchicalMapGetPrefetch_iff {start stride prefetchSize : Nat}
    (hids : ∀ k < prefetchSize / (4 + blockSize), start + k * stride < 2 ^ 32)
    (record : Nat × List UInt8) :
    record ∈ store.hierarchicalMapGetPrefetch blockSize baseKey start stride prefetchSize ↔
      store.Prefetched blockSize baseKey start stride (prefetchSize / (4 + blockSize)) record.1
        record.2 := by
  simp only [Prefetched, FullBlock, get_blockKey_eq store baseKey start]
  rw [hierarchicalMapGetPrefetch]
  cases store.getChildUnsafe (blockKey baseKey start) with
  | none => simp
  | some children =>
      dsimp only
      rw [MapRecords.mem_prefetchRecords_iff hids]
      simp

end HierarchicalRecords

namespace DataServer

variable {config : ServerConfig} {settings : PrefetchSettings} {server : DataServer}

/-- The records for a request. -/
def recordsFor (config : ServerConfig) (settings : PrefetchSettings) (server : DataServer)
    (uri : CString) (dataId : Int) (toRead : Nat) : List (Nat × List UInt8) :=
  server.store.hierarchicalMapGetPrefetch config.blockSize uri (dataId % 2 ^ 32).toNat
    settings.numDataServers (messageSize config.blockSize settings toRead)

theorem get_eq_of_child {start : Nat}
    (hchild : server.store.getChildUnsafe (blockKey uri start) = some children) (b : Nat) :
    server.get (blockKey uri b) = children.get (blockKey uri b) := by
  rw [get, HierarchicalRecords.get_blockKey_eq _ _ start, hchild]
  rfl

theorem get_eq_none_of_child {start : Nat}
    (hchild : server.store.getChildUnsafe (blockKey uri start) = none) (b : Nat) :
    server.get (blockKey uri b) = none := by
  rw [get, HierarchicalRecords.get_blockKey_eq _ _ start, hchild]
  rfl

/-- The records are stored blocks. -/
theorem mem_recordsFor (uri : CString) (config : ServerConfig) (settings : PrefetchSettings)
    (server : DataServer) (dataId : Int) (toRead : Nat) :
    ∀ record ∈ recordsFor config settings server uri dataId toRead,
      record.1 < 2 ^ 32 ∧ ∃ block, server.get (blockKey uri record.1) = some block ∧
        block.size = config.blockSize ∧ record.2 = block.data.load 0 config.blockSize := by
  intro record hrecord
  rw [recordsFor, HierarchicalRecords.hierarchicalMapGetPrefetch] at hrecord
  split at hrecord
  next => cases hrecord
  next children hchild =>
    have hmod := Int.emod_lt_of_pos dataId (show (0 : Int) < 2 ^ 32 by norm_num)
    obtain ⟨hlt, block, hblock, hrest⟩ :=
      MapRecords.mem_prefetchRecords (by omega) record hrecord
    exact ⟨hlt, block, (get_eq_of_child hchild _).trans hblock, hrest⟩

/-- Nothing is sent without the first block. -/
theorem recordsFor_of_none {dataId : Int} {start : Nat}
    (hstart : (dataId % 2 ^ 32).toNat = start) (hnone : server.get (blockKey uri start) = none)
    (toRead : Nat) : recordsFor config settings server uri dataId toRead = [] := by
  rw [recordsFor, HierarchicalRecords.hierarchicalMapGetPrefetch, hstart]
  split
  next => rfl
  next children hchild =>
    exact MapRecords.prefetchRecords_of_none ((get_eq_of_child hchild start).symm.trans hnone)

/-- The first block is sent if it is there. -/
theorem recordsFor_of_some (settings : PrefetchSettings) {dataId : Int}
    {start : Nat}
    (hstart : (dataId % 2 ^ 32).toNat = start) {block : Block}
    (hsome : server.get (blockKey uri start) = some block) (hsize : block.size = config.blockSize)
    (toRead : Nat) :
    ∃ records, recordsFor config settings server uri dataId toRead =
        (start, block.data.load 0 config.blockSize) :: records ∧
      (server.get (blockKey uri ((start + settings.numDataServers) % 2 ^ 32).toNat) = none →
        records = []) := by
  rw [recordsFor, HierarchicalRecords.hierarchicalMapGetPrefetch, hstart]
  cases hchild : server.store.getChildUnsafe (blockKey uri start) with
  | none =>
      rw [get_eq_none_of_child hchild] at hsome
      cases hsome
  | some children =>
      have hfits : 0 < messageSize config.blockSize settings toRead / (4 + config.blockSize) := by
        refine Nat.div_pos ?_ (by omega)
        rw [messageSize]
        exact le_max_right _ _
      obtain ⟨n, hn⟩ := Nat.exists_eq_add_of_lt hfits
      dsimp only
      rw [hn, Nat.zero_add, MapRecords.prefetchRecords_of_some
        ((get_eq_of_child hchild start).symm.trans hsome) hsize]
      refine ⟨_, rfl, fun hnext => MapRecords.prefetchRecords_of_none ?_⟩
      exact (get_eq_of_child hchild _).symm.trans hnext

/-- The message made of the records, or the text. -/
def recordsReply (records : List (Nat × List UInt8)) : Option (List UInt8) :=
  if records = [] then none else some (recordBytes records)

/-- `READV2_OP` for a block of a file without a `$` in its name. -/
theorem readV2_blockKey (hdollar : '$' ∉ uri) {dataId : Int} (hlower : -2 ^ 31 ≤ dataId)
    (hupper : dataId < 2 ^ 31) (toRead : Nat) :
    server.readV2 config settings (blockKey uri dataId) toRead =
      some (recordsReply (recordsFor config settings server uri dataId toRead)) := by
  have hnumber : (dataId % 2 ^ 64).toNat % 2 ^ 32 = (dataId % 2 ^ 32).toNat := by
    omega
  have hfrom : fromOn '$' (blockKey uri dataId) = '$' :: decimal dataId :=
    fromOn_append_cons hdollar _
  rw [readV2, hfrom, upTo_blockKey hdollar]
  dsimp only
  rw [stoul_decimal hlower hupper, Option.map_some, hnumber]
  rw [← recordsFor, recordsReply]
  split
  next hnil => rw [if_pos hnil]
  next hne => rw [if_neg (by simpa using hne)]

end DataServer

end Server

end Hercules
