/-
# Reading a stored file with prefetching

A block is found by its number, whichever message it came with, so the distance between
the blocks of a message does not have to agree with the placement. What matters is that
each block of the range is asked for where it was written. The range has to lie inside the
file, or nothing is read at all.

The request has the name of the file in the key of the block, which the server cuts at the
first `$`, and the reply is compared with the text for an unknown key. Both limit what can
be read.
-/

import Hercules.Client.Prefetch
import Hercules.Cluster.Elastic
import Hercules.Cluster.ReadWrite

namespace Hercules

open Std Lib Lib.Text

/-! ## Reads of a stored file -/

/-- A read of an open file, with all that it depends on: the dataset and the number of data servers
that the client knows, the block size, the recorded size and the range. No object in memory has
`2 ^ 63` bytes or more. -/
structure PrefetchRead where
  uri : FileUri
  dataset : ElasticDataset
  numStorages : Nat
  config : ServerConfig
  fileSize : Nat
  size : Nat
  offset : Nat
  uri_word : IsWord uri.1
  blockSize_pos : 0 < config.blockSize
  blockSize_lt : config.blockSize < 2 ^ 63
  fileSize_lt : fileSize < 2 ^ 63
  size_lt : size < 2 ^ 63

/-- The data servers with their settings, what `malloc` leaves in the buffer for a reply, and what
the CRC policies hash. -/
structure PrefetchWorld where
  cluster : Cluster
  settings : Nat → PrefetchSettings
  fresh : Nat → Memory
  stack : Int → CString

namespace PrefetchRead

variable (read : PrefetchRead)

/-- The key of a block. -/
def key (dataId : Int) : CString :=
  blockKey read.uri.1 dataId

/-- `size_used_per_server`, a `size_t`. -/
def sizeUsedPerServer (dataId : Int) (num : Nat) : Nat :=
  let currImssStorages := read.dataset.numStoragesFor read.numStorages dataId
  (read.size / currImssStorages + num / currImssStorages * 4) % 2 ^ 64

/-- `"%s 11 0 %s$%d %ld"`. -/
def request (dataId : Int) (num : Nat) : CString :=
  printRequest
    (if read.dataset.policy = .local ∨ read.dataset.policy = .zcopy then "LOCALGET".toList
      else "GET".toList)
    11 0 (read.key dataId) (' ' :: decimal (int64 (read.sizeUsedPerServer dataId num)))

/-- The loop of `get_ndata_prefetch` over the copies. -/
def getNdataPrefetchFrom (world : PrefetchWorld) (req : CString) : List Nat → Int × Option Memory
  | [] => (-1, none)
  | s :: servers =>
      match (world.cluster s).servePrefetch read.config (world.settings s) req with
      | none => (-2, none)
      | some reply =>
          let received := (world.fresh s).store 0 (Client.replyBytes reply)
          if Client.replyBytes reply = [] then (-2, none)
          else if received.load 0 Client.noKeyAvail.length = Client.noKeyAvail then
            getNdataPrefetchFrom world req servers
          else ((Client.replyBytes reply).length, some received)

/-- `get_ndata_prefetch`; its block number is an `int32_t`. -/
def getNdataPrefetch (world : PrefetchWorld) (num : Nat) : Client.GetNdataPrefetch := fun currBlk =>
  match read.dataset.getDataLocation (world.stack (int32 currBlk)) read.numStorages
      (int32 currBlk) with
  | none => (-2, none)
  | some _ => read.getNdataPrefetchFrom world (read.request (int32 currBlk) num)
      (read.dataset.getTargets (world.stack (int32 currBlk)) read.numStorages (int32 currBlk))

/-- `imss_sread_prefetch_v2` with these servers. -/
def result (world : PrefetchWorld) (buf : Memory) : Int × Memory :=
  Client.imssSreadPrefetchV2 read.config.blockSize (read.getNdataPrefetch world)
    (some read.fileSize) buf read.size read.offset

/-- The number names a block of the file. -/
def IsBlock (b : Nat) : Prop :=
  0 < b ∧ (b - 1) * read.config.blockSize < read.fileSize ∧ b < 2 ^ 31

/-- The file is stored: each block is on the servers to which `set_data` writes it, with the size
that a data server records. Whatever else the servers hold, no other version of a block is there. -/
structure Stores (file : Memory) (stack : Int → CString) (cluster : Cluster) : Prop where
  held : ∀ b : Nat, read.IsBlock b →
    ∀ s ∈ read.dataset.setTargets (stack b) read.numStorages b,
      ((cluster s).get (read.key b)).isSome
  right : ∀ b : Nat, read.IsBlock b → ∀ s block, (cluster s).get (read.key b) = some block →
    block.size = read.config.blockSize ∧ ∀ i < read.config.blockSize,
      (b - 1) * read.config.blockSize + i < read.fileSize →
        block.data i = file ((b - 1) * read.config.blockSize + i)

/-- However the file is stored and whatever the servers' settings are, the read returns the number
of bytes that are there and these bytes. -/
def ReadsExactly : Prop :=
  ∀ (file : Memory) (stack : Int → CString) (world : PrefetchWorld) (buf : Memory),
    read.Stores file stack world.cluster → (∀ s, 0 < (world.settings s).numDataServers) →
      Client.ReadsBytes file read.offset (Client.readCount read.fileSize read.size read.offset)
        (read.result world buf)

/-- The block has a part in the range. -/
def InRange (b : Nat) : Prop :=
  read.offset / read.config.blockSize + 1 ≤ b ∧
    (b - 1) * read.config.blockSize < read.offset + read.size

/-- The block's number is an `int32_t` that does not look like the start of the text for an unknown
key, and a server to which the block was written is asked for it. -/
def Fetched (b : Nat) : Prop :=
  b < 2 ^ 31 ∧ Memory.natBytes 4 b ≠ Client.noKeyAvail.take 4 ∧
    ∀ stack stack', ∃ s ∈ read.dataset.setTargets stack read.numStorages b,
      s ∈ read.dataset.getTargets stack' read.numStorages b

/-- There is nothing to read, or the range lies inside the file, the name has no `$`, and each block
can be fetched. -/
def Prefetchable : Prop :=
  read.fileSize ≤ read.offset ∨ read.size = 0 ∨
    read.offset + read.size ≤ read.fileSize ∧ '$' ∉ read.uri.1 ∧
      ∀ b, read.InRange b → read.Fetched b

end PrefetchRead

namespace PrefetchRead

variable {read : PrefetchRead} {world : PrefetchWorld}

/-- The request reaches the handler with the key of the block. -/
theorem servePrefetch_request (read : PrefetchRead) (settings : PrefetchSettings)
    (server : DataServer) (dataId : Int) (num : Nat) :
    ∃ toRead, server.servePrefetch read.config settings (read.request dataId num) =
      server.readV2 read.config settings (read.key dataId) toRead := by
  have hkey : IsWord (read.key dataId) := isWord_blockKey read.uri_word dataId
  have hne : read.key dataId ≠ [] := List.ne_nil_of_mem (dollar_mem_blockKey _ _)
  rw [DataServer.servePrefetch, request]
  by_cases hlocal : read.dataset.policy = .local ∨ read.dataset.policy = .zcopy
  · rw [if_pos hlocal, scanRequest_print (by decide) (by decide) hkey hne (endsField_space _)]
    exact ⟨_, if_pos ⟨Or.inr rfl, rfl⟩⟩
  · rw [if_neg hlocal, scanRequest_print (by decide) (by decide) hkey hne (endsField_space _)]
    exact ⟨_, if_pos ⟨Or.inl rfl, rfl⟩⟩

theorem int32_range (c : Int) : -2 ^ 31 ≤ int32 c ∧ int32 c < 2 ^ 31 := by
  have hlower := Int.le_bmod (x := c) (m := 2 ^ 32) (by norm_num)
  have hupper := Int.bmod_lt (x := c) (m := 2 ^ 32) (by norm_num)
  rw [int32]
  omega

/-- The answer to a request for a block of a file without a `$` in its name. -/
theorem servePrefetch_eq (hdollar : '$' ∉ read.uri.1) (settings : PrefetchSettings)
    (server : DataServer) (c : Int) (num : Nat) :
    ∃ toRead, server.servePrefetch read.config settings (read.request (int32 c) num) =
      some (DataServer.recordsReply
        (DataServer.recordsFor read.config settings server read.uri.1 (int32 c) toRead)) := by
  obtain ⟨hlower, hupper⟩ := int32_range c
  obtain ⟨toRead, hserve⟩ := read.servePrefetch_request settings server (int32 c) num
  exact ⟨toRead, hserve.trans (DataServer.readV2_blockKey hdollar hlower hupper toRead)⟩

/-- The text for an unknown key sends the client to the next copy. -/
theorem getNdataPrefetchFrom_of_none {req : CString} {s : Nat}
    (hserve : (world.cluster s).servePrefetch read.config (world.settings s) req = some none)
    (servers : List Nat) :
    read.getNdataPrefetchFrom world req (s :: servers) =
      read.getNdataPrefetchFrom world req servers := by
  have hreply : Client.replyBytes none = Client.noKeyAvail ++ [0] := rfl
  rw [getNdataPrefetchFrom, hserve]
  dsimp only
  rw [hreply, if_neg (List.append_ne_nil_of_right_ne_nil _ (List.cons_ne_nil _ _)),
    if_pos (Client.load_noKeyAvail _ _)]

/-- A message starts with the number of its first block. -/
theorem load_number (fresh : Memory) (b : Nat) (rest : List UInt8) :
    (fresh.store 0 (Memory.natBytes 4 b ++ rest)).load 0 4 = Memory.natBytes 4 b := by
  have hall := Memory.load_store_self fresh 0 (Memory.natBytes 4 b ++ rest)
  rw [List.length_append, Memory.length_natBytes, Memory.load_add] at hall
  exact (List.append_inj hall (by simp)).1

/-- A message whose first number is not the start of the text is taken. -/
theorem getNdataPrefetchFrom_of_some {req : CString} {s b : Nat} {data : List UInt8}
    {records : List (Nat × List UInt8)}
    (hserve : (world.cluster s).servePrefetch read.config (world.settings s) req =
      some (DataServer.recordsReply ((b, data) :: records)))
    (hnumber : Memory.natBytes 4 b ≠ Client.noKeyAvail.take 4) (servers : List Nat) :
    read.getNdataPrefetchFrom world req (s :: servers) =
      (((recordBytes ((b, data) :: records)).length : Int),
        some ((world.fresh s).store 0 (recordBytes ((b, data) :: records)))) := by
  have hreply : Client.replyBytes (DataServer.recordsReply ((b, data) :: records)) =
      recordBytes ((b, data) :: records) := rfl
  have hbytes : recordBytes ((b, data) :: records) =
      Memory.natBytes 4 b ++ (data ++ recordBytes records) := List.append_assoc _ _ _
  rw [getNdataPrefetchFrom, hserve]
  dsimp only
  rw [hreply, if_neg (by rw [hbytes]; simp [Memory.natBytes]), if_neg]
  intro htext
  have hload := load_number (world.fresh s) b (data ++ recordBytes records)
  rw [← hbytes] at hload
  have htake := congrArg (List.take 4) htext
  rw [show Client.noKeyAvail.length = 4 + 18 by decide, Memory.load_add,
    List.take_append_of_le_length (by simp), List.take_of_length_le (by simp), hload] at htake
  exact hnumber htake

/-! ## Blocks that can be fetched -/

/-- What a server sends of a stored file is right. -/
theorem Stores.rightData {file : Memory} {stack : Int → CString} {cluster : Cluster}
    (hstores : read.Stores file stack cluster) {s c : Nat} {block : Block}
    (hget : (cluster s).get (read.key c) = some block) :
    Client.RightData read.config.blockSize read.fileSize file c
      (block.data.load 0 read.config.blockSize) := by
  refine ⟨Memory.length_load, fun hpos hfits i hi hinside => ?_⟩
  rw [Memory.getD_load hi, Nat.zero_add]
  exact (hstores.right c ⟨hpos, by omega, hfits⟩ s block hget).2 i hi hinside

/-- One of the servers has the block: the first of them sends it. -/
theorem getNdataPrefetchFrom_answers {file : Memory} {stack : Int → CString}
    (hstores : read.Stores file stack world.cluster) (hdollar : '$' ∉ read.uri.1) {b : Nat}
    (hblock : read.IsBlock b) (hnumber : Memory.natBytes 4 b ≠ Client.noKeyAvail.take 4) (num : Nat)
    {servers : List Nat} (hheld : ∃ s ∈ servers, ((world.cluster s).get (read.key b)).isSome) :
    ∃ records received,
      read.getNdataPrefetchFrom world (read.request (int32 b) num) servers =
          (((recordBytes records).length : Int), some received) ∧
        received.load 0 (recordBytes records).length = recordBytes records ∧
        (∀ record ∈ records, record.1 < 2 ^ 32 ∧
          Client.RightData read.config.blockSize read.fileSize file record.1 record.2) ∧
        b ∈ records.map Prod.fst := by
  have hid : int32 (b : Int) = b := int32_of_fits (by omega) (by exact_mod_cast hblock.2.2)
  have hlt : b < 2 ^ 31 := hblock.2.2
  have hstart : (int32 (b : Int) % 2 ^ 32).toNat = b := by
    rw [hid]
    omega
  induction servers with
  | nil =>
      obtain ⟨s, hs, -⟩ := hheld
      cases hs
  | cons s servers ih =>
      obtain ⟨toRead, hserve⟩ :=
        servePrefetch_eq hdollar (world.settings s) (world.cluster s) b num
      cases hget : (world.cluster s).get (read.key b) with
      | none =>
          rw [DataServer.recordsFor_of_none hstart hget] at hserve
          rw [getNdataPrefetchFrom_of_none hserve]
          apply ih
          obtain ⟨s', hs', hsome⟩ := hheld
          rcases List.mem_cons.mp hs' with rfl | hmem
          · rw [hget] at hsome
            cases hsome
          · exact ⟨s', hmem, hsome⟩
      | some block =>
          have hsize := (hstores.right b hblock s block hget).1
          obtain ⟨records, hrecords, -⟩ := DataServer.recordsFor_of_some
            (world.settings s) hstart hget hsize toRead
          have hmem := DataServer.mem_recordsFor read.uri.1 read.config (world.settings s)
            (world.cluster s) (int32 b) toRead
          rw [hrecords] at hserve hmem
          refine ⟨_, _, getNdataPrefetchFrom_of_some hserve hnumber servers,
            Memory.load_store_self _ _ _, ?_, List.mem_cons_self⟩
          intro record hrecord
          obtain ⟨hwidth, found, hfound, -, hdata⟩ := hmem record hrecord
          rw [hdata]
          exact ⟨hwidth, hstores.rightData hfound⟩

theorem isBlock_of_inRange (hfile : read.offset + read.size ≤ read.fileSize) {b : Nat}
    (hb : read.InRange b) (hfits : b < 2 ^ 31) : read.IsBlock b :=
  ⟨Nat.lt_of_lt_of_le (Nat.succ_pos _) hb.1, Nat.lt_of_lt_of_le hb.2 hfile, hfits⟩

/-- A block of the range is got. -/
theorem answers_of_fetched {file : Memory} {stack : Int → CString}
    (hstores : read.Stores file stack world.cluster) (hdollar : '$' ∉ read.uri.1)
    (hfile : read.offset + read.size ≤ read.fileSize) {b : Nat} (hb : read.InRange b)
    (hfetched : read.Fetched b) (num : Nat) :
    Client.Answers read.config.blockSize read.fileSize file (read.getNdataPrefetch world num)
      b := by
  obtain ⟨hfits, hnumber, hcommon⟩ := hfetched
  have hblock := isBlock_of_inRange hfile hb hfits
  have hid : int32 (b : Int) = b := int32_of_fits (by omega) (by exact_mod_cast hfits)
  obtain ⟨s, hset, hget⟩ := hcommon (stack b) (world.stack b)
  have hheld := hstores.held b hblock s hset
  obtain ⟨records, received, hfrom, hrest⟩ := getNdataPrefetchFrom_answers hstores hdollar hblock
    hnumber num ⟨s, hget, hheld⟩
  refine ⟨records, received, ?_, hrest⟩
  rw [hid] at hfrom
  rw [getNdataPrefetch, hid]
  cases hlocation : read.dataset.getDataLocation (world.stack b) read.numStorages b with
  | none =>
      rw [ElasticDataset.getTargets, hlocation] at hget
      cases hget
  | some first => exact hfrom

/-- The last block of a range. -/
theorem endBlk_bounds {blockSize t : Nat} (hblock : 0 < blockSize) (ht : 0 < t) :
    ((t + blockSize - 1) / blockSize - 1) * blockSize < t ∧
      t ≤ (t + blockSize - 1) / blockSize * blockSize := by
  have hsplit := Nat.div_add_mod' (t + blockSize - 1) blockSize
  have hmod := Nat.mod_lt (t + blockSize - 1) hblock
  rw [Nat.sub_mul, Nat.one_mul]
  generalize (t + blockSize - 1) / blockSize * blockSize = last at hsplit ⊢
  omega

/-- Inside the file nothing wraps around. -/
theorem numBlocksToRead_eq (hsize : 0 < read.size)
    (hfile : read.offset + read.size ≤ read.fileSize) :
    read.offset / read.config.blockSize + 1 +
        Client.numBlocksToRead read.config.blockSize read.size read.offset =
      (read.offset + read.size + read.config.blockSize - 1) / read.config.blockSize + 1 := by
  have hB := read.blockSize_pos
  have hBlt := read.blockSize_lt
  have hNlt := read.fileSize_lt
  obtain ⟨-, hupper⟩ := endBlk_bounds hB (show 0 < read.offset + read.size by omega)
  have hstart : read.offset / read.config.blockSize <
      (read.offset + read.size + read.config.blockSize - 1) / read.config.blockSize :=
    Nat.div_lt_of_lt_mul (by rw [Nat.mul_comm]; omega)
  have hle := Nat.div_le_self (read.offset + read.size + read.config.blockSize - 1)
    read.config.blockSize
  rw [Client.numBlocksToRead, Nat.mod_eq_of_lt (show _ < 2 ^ 64 by omega)]
  generalize (read.offset + read.size + read.config.blockSize - 1) / read.config.blockSize = last
    at *
  generalize read.offset / read.config.blockSize = first at *
  omega

/-- Under the condition the read is exact. -/
theorem readsExactly_of_prefetchable (h : read.Prefetchable) : read.ReadsExactly := by
  intro file stack world buf hstores _
  rw [result, Client.imssSreadPrefetchV2]
  by_cases hoffset : read.fileSize ≤ read.offset
  · rw [if_pos hoffset, Client.readCount, if_neg (by omega)]
    exact ⟨rfl, fun k hk => by omega⟩
  by_cases hsize : read.size = 0
  · rw [if_neg hoffset, if_pos hsize, Client.readCount, if_pos (by omega), hsize, Nat.zero_min]
    exact ⟨rfl, fun k hk => by omega⟩
  obtain ⟨hfile, hdollar, hfetched⟩ := (h.resolve_left hoffset).resolve_left hsize
  have hNlt := read.fileSize_lt
  have hB := read.blockSize_pos
  obtain ⟨hlower, hupper⟩ := endBlk_bounds hB (show 0 < read.offset + read.size by omega)
  rw [if_neg hoffset, if_neg hsize, Nat.mod_eq_of_lt (show _ < 2 ^ 64 by omega), if_neg (by omega),
    Client.readCount, if_pos (by omega), Nat.min_eq_left (by omega)]
  refine Client.imssSreadPrefetchLoop_reads hB hlower hupper hfile ?_ _ 0 0
    (numBlocksToRead_eq (by omega) hfile) ⟨?_, ?_, ?_⟩
  · intro b hfirst hlast
    have hrange : read.InRange b := by
      refine ⟨hfirst, Nat.lt_of_le_of_lt ?_ hlower⟩
      exact Nat.mul_le_mul_right _ (Nat.sub_le_sub_right hlast 1)
    have hb := hfetched b hrange
    exact ⟨hb.1, answers_of_fetched hstores hdollar hfile hrange hb _⟩
  · rw [if_pos rfl, Nat.add_zero, Nat.add_zero, Nat.add_sub_cancel, Nat.div_add_mod' read.offset]
    omega
  · intro c data hdata
    cases hdata
  · intro k hk
    cases hk

end PrefetchRead

/-! ## Each condition is needed -/

namespace PrefetchRead

variable {read : PrefetchRead}

/-- A file of zeros except for one block. That block has no zero byte and starts with the end of the
text for an unknown key. -/
def marked (blockSize b : Nat) : Memory := fun p =>
  if p / blockSize + 1 = b then (Client.noKeyAvail.drop 4).getD (p % blockSize) 1 else 0

instance (read : PrefetchRead) (b : Nat) : Decidable (read.IsBlock b) :=
  inferInstanceAs (Decidable (_ ∧ _))

/-- The blocks that a server has if each block is where it is written, and nowhere else. -/
def blockList (read : PrefetchRead) (stack : CString) (s : Nat) : List Nat :=
  (List.range (read.fileSize + 1)).filter fun c =>
    decide (read.IsBlock c ∧ s ∈ read.dataset.setTargets stack read.numStorages c)

/-- A block of the marked file. -/
def markedBlock (read : PrefetchRead) (b c : Nat) : Block :=
  ⟨fun i => marked read.config.blockSize b ((c - 1) * read.config.blockSize + i),
    read.config.blockSize⟩

/-- A server with its blocks of the marked file, and nothing else. -/
def markedServer (read : PrefetchRead) (stack : CString) (b s : Nat) : DataServer where
  store := ⟨ExtTreeMap.insert ∅ (findLastParentDir read.uri.1)
    ⟨ExtTreeMap.ofList ((read.blockList stack s).map fun c : Nat =>
      (read.key c, read.markedBlock b c)), []⟩⟩
  memPool := []
  quantityOccupied := 0

/-- Servers with the marked file. The distance is such that a message never has a second block, and
the buffer of a client already holds the text. -/
def markedWorld (read : PrefetchRead) (stack stack' : CString) (b : Nat) : PrefetchWorld where
  cluster := read.markedServer stack b
  settings _ := ⟨2 ^ 31 - 1, 0⟩
  fresh _ := Memory.store (fun _ => 0) 0 Client.noKeyAvail
  stack _ := stack'

theorem mem_blockList {stack : CString} {s c : Nat} : c ∈ read.blockList stack s ↔
    read.IsBlock c ∧ s ∈ read.dataset.setTargets stack read.numStorages c := by
  rw [blockList, List.mem_filter, List.mem_range, decide_eq_true_iff]
  refine and_iff_right_of_imp fun hc => ?_
  have hle := Nat.le_mul_of_pos_right (c - 1) read.blockSize_pos
  have hlt := hc.1.2.1
  omega

/-- All that a server has are blocks of the file. -/
theorem exists_of_get_markedServer {stack : CString} {b s : Nat} {key : CString} {block : Block}
    (hget : (read.markedServer stack b s).get key = some block) :
    ∃ c ∈ read.blockList stack s, key = read.key c := by
  rw [DataServer.get, HierarchicalRecords.hierarchicalMapGet] at hget
  obtain ⟨records, hrecords, hget⟩ := Option.bind_eq_some_iff.mp hget
  rw [HierarchicalRecords.getChildUnsafe, HierarchicalRecords.getDirUnsafe, markedServer,
    ExtTreeMap.getElem?_insert] at hrecords
  split at hrecords
  next =>
    obtain rfl := Option.some.inj hrecords
    have hmem := congrArg Option.isSome hget
    rw [MapRecords.get, Option.isSome_some, ExtTreeMap.isSome_getElem?_iff_mem,
      ExtTreeMap.mem_ofList] at hmem
    simp only [List.map_map, List.contains_iff_mem] at hmem
    obtain ⟨c, hc, rfl⟩ := List.mem_map.mp hmem
    exact ⟨c, hc, rfl⟩
  next => simp at hrecords

theorem get_markedServer {stack : CString} {b s c : Nat} (hc : c ∈ read.blockList stack s) :
    (read.markedServer stack b s).get (read.key c) = some (read.markedBlock b c) := by
  rw [DataServer.get, HierarchicalRecords.hierarchicalMapGet, HierarchicalRecords.getChildUnsafe,
    key, findLastParentDir_blockKey read.uri.2, HierarchicalRecords.getDirUnsafe, markedServer,
    ExtTreeMap.getElem?_insert_self, Option.bind_some, MapRecords.get]
  refine ExtTreeMap.getElem?_ofList_of_mem ReflCmp.compare_self ?_
    (List.mem_map.mpr ⟨c, hc, rfl⟩)
  rw [List.pairwise_map]
  refine (List.nodup_range.filter _).imp ?_
  intro c c' hne hsame
  have hkey := LawfulEqCmp.eq_of_compare hsame
  rw [key, key, blockKey_inj] at hkey
  exact hne (by exact_mod_cast hkey.2)

/-- A block is there if it was written there. -/
theorem mem_of_get_markedServer {stack : CString} {b s c : Nat} {block : Block}
    (hget : (read.markedServer stack b s).get (read.key c) = some block) :
    c ∈ read.blockList stack s ∧ block = read.markedBlock b c := by
  obtain ⟨c', hc', heq⟩ := exists_of_get_markedServer hget
  rw [key, key, blockKey_inj] at heq
  obtain rfl : c = c' := by exact_mod_cast heq.2
  rw [get_markedServer hc'] at hget
  exact ⟨hc', (Option.some.inj hget).symm⟩

theorem stores_markedWorld (read : PrefetchRead) (stack stack' : CString) (b : Nat) :
    read.Stores (marked read.config.blockSize b) (fun _ => stack)
      (read.markedWorld stack stack' b).cluster := by
  refine ⟨?_, ?_⟩
  · intro c hc s hs
    exact Option.isSome_iff_exists.mpr ⟨_, get_markedServer (mem_blockList.mpr ⟨hc, hs⟩)⟩
  · intro c hc s block hget
    obtain ⟨-, rfl⟩ := mem_of_get_markedServer hget
    exact ⟨rfl, fun i _ _ => rfl⟩

/-- A byte of a block, and whether it is marked. -/
theorem data_markedBlock (b : Nat) {c i : Nat} (hpos : 0 < c) (hi : i < read.config.blockSize) :
    (read.markedBlock b c).data i =
      if c = b then (Client.noKeyAvail.drop 4).getD i 1 else 0 := by
  change marked _ _ _ = _
  rw [marked, div_block hi, mod_block hi, Nat.sub_add_cancel hpos]

/-- The other blocks are zero. -/
theorem load_markedBlock {b c : Nat} (hpos : 0 < c) (hne : c ≠ b) :
    ∀ x ∈ (read.markedBlock b c).data.load 0 read.config.blockSize, x = 0 := by
  intro x hx
  obtain ⟨i, hi, rfl⟩ := List.mem_map.mp hx
  rw [List.mem_range] at hi
  rw [Nat.zero_add, data_markedBlock b hpos hi, if_neg hne]

theorem marked_ne_zero {blockSize b p : Nat} (h : p / blockSize + 1 = b) :
    marked blockSize b p ≠ 0 := by
  have htext : ∀ x ∈ Client.noKeyAvail.drop 4, x ≠ 0 := by decide +kernel
  rw [marked, if_pos h]
  rcases Nat.lt_or_ge (p % blockSize) (Client.noKeyAvail.drop 4).length with hin | hout
  · rw [List.getD_eq_getElem _ _ hin]
    exact htext _ (List.getElem_mem hin)
  · rw [List.getD_eq_default _ _ hout]
    decide

/-- The number of the marked block and its bytes are taken for the text. -/
theorem load_marked {b : Nat} (hpos : 0 < b)
    (hnumber : Memory.natBytes 4 b = Client.noKeyAvail.take 4) :
    (Memory.store (Memory.store (fun _ => 0) 0 Client.noKeyAvail) 0
      (recordBytes [(b, (read.markedBlock b b).data.load 0 read.config.blockSize)])).load 0
        Client.noKeyAvail.length = Client.noKeyAvail := by
  have hfresh := Memory.load_store_self (fun _ => 0) 0 Client.noKeyAvail
  conv_rhs => rw [← hfresh]
  apply Memory.load_congr
  intro i hi
  rw [Nat.zero_add]
  have htext : Memory.store (fun _ => 0) 0 Client.noKeyAvail i = Client.noKeyAvail.getD i 0 := by
    rw [Memory.store_of_le (Nat.zero_le i), Nat.sub_zero]
  rw [Memory.store_of_le (Nat.zero_le i), Nat.sub_zero, htext]
  rw [recordBytes, List.flatMap_singleton]
  dsimp only
  rw [hnumber]
  rcases Nat.lt_or_ge i 4 with hfirst | hsecond
  · rw [List.getD_append _ _ _ _ (by simpa using ⟨hfirst, hi⟩)]
    rw [List.getD_eq_getElem _ _ (by simpa using ⟨hfirst, hi⟩), List.getElem_take,
      List.getD_eq_getElem _ _ hi]
  · have hlength : (Client.noKeyAvail.take 4).length = 4 := by decide
    rw [List.getD_append_right _ _ _ _ (by omega), hlength]
    rcases Nat.lt_or_ge (i - 4) read.config.blockSize with hin | hout
    · rw [Memory.getD_load hin, Nat.zero_add, data_markedBlock b hpos hin, if_pos rfl,
        List.getD_eq_getElem _ _ (by rw [List.length_drop]; omega), List.getElem_drop,
        List.getD_eq_getElem _ _ hi]
      congr 1
      omega
    · rw [List.getD_eq_default _ _ (by rw [Memory.length_load]; exact hout)]

/-- The client gets no byte but zeros if the marked block cannot be fetched. -/
theorem getNdataPrefetchFrom_marked (hdollar : '$' ∉ read.uri.1) {stack stack' : CString} {b : Nat}
    (hunfetched : 2 ^ 31 ≤ b ∨ Memory.natBytes 4 b = Client.noKeyAvail.take 4 ∨
      ∀ s ∈ read.dataset.setTargets stack read.numStorages b,
        s ∉ read.dataset.getTargets stack' read.numStorages b)
    (c : Int) (num : Nat) {servers : List Nat}
    (hservers : ∀ s ∈ servers, s ∈ read.dataset.getTargets stack' read.numStorages (int32 c))
    {beenRead : Int} {received : Memory}
    (hreply : read.getNdataPrefetchFrom (read.markedWorld stack stack' b)
      (read.request (int32 c) num) servers = (beenRead, some received)) :
    ∃ e data, e < 2 ^ 32 ∧ data.length = read.config.blockSize ∧ (∀ x ∈ data, x = 0) ∧
      beenRead = (recordBytes [(e, data)]).length ∧
      received.load 0 (recordBytes [(e, data)]).length = recordBytes [(e, data)] := by
  obtain ⟨hlower, hupper⟩ := int32_range c
  generalize hstart : (int32 c % 2 ^ 32).toNat = e
  induction servers with
  | nil => cases hreply
  | cons s servers ih =>
      rw [List.forall_mem_cons] at hservers
      obtain ⟨toRead, hserve⟩ := servePrefetch_eq hdollar
        ((read.markedWorld stack stack' b).settings s) ((read.markedWorld stack stack' b).cluster s)
        c num
      cases hget : ((read.markedWorld stack stack' b).cluster s).get (read.key e) with
      | none =>
          rw [DataServer.recordsFor_of_none hstart hget] at hserve
          rw [getNdataPrefetchFrom_of_none hserve] at hreply
          exact ih hservers.2 hreply
      | some block =>
          obtain ⟨hmem, rfl⟩ := mem_of_get_markedServer hget
          obtain ⟨⟨hpos, -, hfits⟩, hset⟩ := mem_blockList.mp hmem
          obtain ⟨records, hrecords, hnext⟩ := DataServer.recordsFor_of_some
            ((read.markedWorld stack stack' b).settings s) hstart hget rfl toRead
          obtain rfl : records = [] := by
            apply hnext
            by_contra hsome
            obtain ⟨block', hblock'⟩ := Option.ne_none_iff_exists'.mp hsome
            have hlt := (mem_blockList.mp (mem_of_get_markedServer hblock').1).1.2.2
            simp only [markedWorld] at hlt
            omega
          rw [hrecords] at hserve
          by_cases hmarked : e = b
          · subst hmarked
            have hid : int32 c = e := by omega
            rcases hunfetched with hwide | hnumber | hapart
            · omega
            · -- the message is taken for the text
              have hrejected : read.getNdataPrefetchFrom (read.markedWorld stack stack' e)
                  (read.request (int32 c) num) (s :: servers) =
                read.getNdataPrefetchFrom (read.markedWorld stack stack' e)
                  (read.request (int32 c) num) servers := by
                rw [getNdataPrefetchFrom, hserve]
                dsimp only
                rw [if_neg]
                · exact if_pos (load_marked hpos hnumber)
                · simp [DataServer.recordsReply, Client.replyBytes, recordBytes, Memory.natBytes]
              rw [hrejected] at hreply
              exact ih hservers.2 hreply
            · rw [hid] at hservers
              exact absurd hservers.1 (hapart s hset)
          · by_cases hnumber : Memory.natBytes 4 e = Client.noKeyAvail.take 4
            · rw [getNdataPrefetchFrom, hserve] at hreply
              dsimp only at hreply
              split at hreply
              next => cases hreply
              next =>
                split at hreply
                next => exact ih hservers.2 hreply
                next =>
                  cases hreply
                  exact ⟨e, _, by omega, Memory.length_load, load_markedBlock hpos hmarked, rfl,
                    Memory.load_store_self _ _ _⟩
            · rw [getNdataPrefetchFrom_of_some hserve hnumber] at hreply
              cases hreply
              exact ⟨e, _, by omega, Memory.length_load, load_markedBlock hpos hmarked, rfl,
                Memory.load_store_self _ _ _⟩

/-- A name with a `$` is cut in the request, and no block is found under what is left. -/
theorem servePrefetch_of_dollar (hdollar : '$' ∈ read.uri.1) (stack : CString) (b s : Nat)
    (settings : PrefetchSettings) (dataId : Int) (num : Nat) :
    (read.markedServer stack b s).servePrefetch read.config settings (read.request dataId num) =
        none ∨
      (read.markedServer stack b s).servePrefetch read.config settings (read.request dataId num) =
        some none := by
  obtain ⟨toRead, hserve⟩ :=
    read.servePrefetch_request settings (read.markedServer stack b s) dataId num
  rw [hserve, DataServer.readV2]
  split
  next => exact Or.inl rfl
  next _ number _ =>
    cases hnumber : stoul number with
    | none => exact Or.inl rfl
    | some current =>
        right
        have hcut : upTo '$' (read.key dataId) ≠ read.uri.1 := by
          intro heq
          rw [← heq] at hdollar
          exact notMem_upTo '$' _ hdollar
        have hnone : ∀ c : Nat, (read.markedServer stack b s).get
            (blockKey (upTo '$' (read.key dataId)) c) = none := by
          intro c
          by_contra hsome
          obtain ⟨block, hblock⟩ := Option.ne_none_iff_exists'.mp hsome
          obtain ⟨c', -, heq⟩ := exists_of_get_markedServer hblock
          exact hcut (blockKey_inj.mp heq).1
        have hrecords : (read.markedServer stack b s).store.hierarchicalMapGetPrefetch
            read.config.blockSize (upTo '$' (read.key dataId)) (current % 2 ^ 32)
            settings.numDataServers (DataServer.messageSize read.config.blockSize settings toRead) =
              [] := by
          have hget := hnone (current % 2 ^ 32)
          rw [DataServer.get, HierarchicalRecords.hierarchicalMapGet] at hget
          rw [HierarchicalRecords.hierarchicalMapGetPrefetch]
          split
          next => rfl
          next children hchild =>
            rw [hchild, Option.bind_some] at hget
            exact MapRecords.prefetchRecords_of_none hget
        rw [Option.map_some, hrecords]

theorem getNdataPrefetchFrom_of_dollar (hdollar : '$' ∈ read.uri.1) (stack stack' : CString)
    (b : Nat) (dataId : Int) (num : Nat) (servers : List Nat) :
    (read.getNdataPrefetchFrom (read.markedWorld stack stack' b) (read.request dataId num)
      servers).2 = none := by
  induction servers with
  | nil => rfl
  | cons s servers ih =>
      rcases servePrefetch_of_dollar hdollar stack b s
        ((read.markedWorld stack stack' b).settings s) dataId num with hserve | hserve
      · rw [getNdataPrefetchFrom, show ((read.markedWorld stack stack' b).cluster s).servePrefetch
          read.config _ _ = none from hserve]
      · rw [getNdataPrefetchFrom_of_none hserve]
        exact ih

/-- A message with zeros leaves only zeros in the map. -/
theorem parse_zeros {blockSize e : Nat} {data : List UInt8} {received : Memory} (he : e < 2 ^ 32)
    (hlength : data.length = blockSize) (hzero : ∀ x ∈ data, x = 0)
    (hload : received.load 0 (recordBytes [(e, data)]).length = recordBytes [(e, data)])
    {blocks : Client.BlockMap} (hblocks : ∀ c data, blocks c = some data → ∀ x ∈ data, x = 0) :
    ∀ c data', Client.parsePrefetchBuffer blockSize received (recordBytes [(e, data)]).length
      (recordBytes [(e, data)]).length 0 blocks c = some data' → ∀ x ∈ data', x = 0 := by
  have hwidth : ∀ record ∈ [(e, data)], record.1 < 2 ^ 32 ∧ record.2.length = blockSize :=
    List.forall_mem_singleton.mpr ⟨he, hlength⟩
  have hcount := length_recordBytes fun record h => (hwidth record h).2
  have hparse := Client.parsePrefetchBuffer_records hwidth 0
    (n := (recordBytes [(e, data)]).length) hload (by rw [hcount, List.length_singleton]; omega)
    blocks
  rw [Nat.zero_add] at hparse
  rw [hparse]
  exact Client.forall_addRecords (P := fun _ data => ∀ x ∈ data, x = 0) hblocks
    (List.forall_mem_singleton.mpr hzero)

/-- The buffer stays zero if nothing but zeros is received. -/
theorem result_zero {world : PrefetchWorld}
    (hreceived : ∀ num (c : Nat) beenRead received,
      read.getNdataPrefetch world num c = (beenRead, some received) →
      ∃ e data, e < 2 ^ 32 ∧ data.length = read.config.blockSize ∧ (∀ x ∈ data, x = 0) ∧
        beenRead = (recordBytes [(e, data)]).length ∧
        received.load 0 (recordBytes [(e, data)]).length = recordBytes [(e, data)]) (k : Nat) :
    (read.result world fun _ => 0).2 k = 0 := by
  rw [result, Client.imssSreadPrefetchV2]
  dsimp only
  split
  · rfl
  split
  · rfl
  split
  · rfl
  refine Client.imssSreadPrefetchLoop_preserves (P := fun x => x = 0) ?_ _ 0 0 ?_ ?_ k
  · intro c beenRead received hreply blocks hblocks
    obtain ⟨e, data, he, hlength, hzero, rfl, hload⟩ := hreceived _ _ _ _ hreply
    rw [Int.toNat_natCast]
    exact parse_zeros he hlength hzero hload hblocks
  · intro c data hdata
    cases hdata
  · intro k
    rfl

/-- A block of the range has a byte in it. -/
theorem exists_byte (hsize : 0 < read.size) {b : Nat} (hb : read.InRange b) :
    ∃ k < read.size, (read.offset + k) / read.config.blockSize + 1 = b := by
  have hB := read.blockSize_pos
  obtain ⟨hfirst, hlast⟩ := hb
  have hpos : 0 < b := Nat.lt_of_lt_of_le (Nat.succ_pos _) hfirst
  refine ⟨(b - 1) * read.config.blockSize - read.offset, by omega, ?_⟩
  rcases Nat.le_total read.offset ((b - 1) * read.config.blockSize) with hle | hge
  · rw [Nat.add_sub_cancel' hle, Nat.mul_div_cancel _ hB]
    omega
  · rw [Nat.sub_eq_zero_of_le hge, Nat.add_zero]
    have hquot := (Nat.le_div_iff_mul_le hB).mpr hge
    exact Nat.le_antisymm hfirst (Nat.le_add_of_sub_le hquot)

theorem numDataServers_pos : (0 : Int) < 2 ^ 31 - 1 := by
  norm_num

/-- Exact reads need a range inside the file. -/
theorem le_fileSize_of_readsExactly (h : read.ReadsExactly) (hoffset : read.offset < read.fileSize)
    (hsize : 0 < read.size) : read.offset + read.size ≤ read.fileSize := by
  by_contra hbeyond
  have hNlt := read.fileSize_lt
  have hslt := read.size_lt
  have hcount := (h _ _ _ (fun _ => 0) (read.stores_markedWorld [] [] 0)
    fun _ => numDataServers_pos).1
  rw [result, Client.imssSreadPrefetchV2, if_neg (by omega), if_neg (by omega),
    Nat.mod_eq_of_lt (show _ < 2 ^ 64 by omega), if_pos (by omega), Client.readCount,
    if_pos hoffset] at hcount
  omega

/-- Exact reads need all bytes of a block of the range. -/
theorem not_readsExactly_of_zero (hfile : read.offset + read.size ≤ read.fileSize)
    (hsize : 0 < read.size) {b : Nat} (hb : read.InRange b) (stack stack' : CString)
    (hzero : ∀ k, (read.result (read.markedWorld stack stack' b) fun _ => 0).2 k = 0) :
    ¬ read.ReadsExactly := by
  intro h
  obtain ⟨k, hk, hblock⟩ := exists_byte hsize hb
  have hbytes := (h _ _ _ (fun _ => 0) (read.stores_markedWorld stack stack' b)
    fun _ => numDataServers_pos).2 k (by
      rw [Client.readCount, if_pos (by omega)]
      omega)
  rw [hzero] at hbytes
  exact marked_ne_zero hblock hbytes.symm

theorem getNdataPrefetch_eq {world : PrefetchWorld} {num c : Nat} {beenRead : Int}
    {received : Memory} (hreply : read.getNdataPrefetch world num c = (beenRead, some received)) :
    read.getNdataPrefetchFrom world (read.request (int32 c) num)
      (read.dataset.getTargets (world.stack (int32 c)) read.numStorages (int32 c)) =
        (beenRead, some received) := by
  rw [getNdataPrefetch] at hreply
  split at hreply
  next => cases hreply
  next => exact hreply

/-- The read is exact under the condition and only then. -/
theorem readsExactly_iff (read : PrefetchRead) : read.ReadsExactly ↔ read.Prefetchable := by
  refine ⟨fun h => ?_, readsExactly_of_prefetchable⟩
  rcases Nat.lt_or_ge read.offset read.fileSize with hoffset | hoffset
  swap
  · exact Or.inl hoffset
  rcases Nat.eq_zero_or_pos read.size with hsize | hsize
  · exact Or.inr (Or.inl hsize)
  have hfile := le_fileSize_of_readsExactly h hoffset hsize
  have hfirst : read.InRange (read.offset / read.config.blockSize + 1) := by
    refine ⟨Nat.le_refl _, ?_⟩
    rw [Nat.add_sub_cancel]
    have hle := Nat.div_mul_le_self read.offset read.config.blockSize
    omega
  have hdollar : '$' ∉ read.uri.1 := by
    intro hdollar
    refine not_readsExactly_of_zero hfile hsize hfirst [] [] (result_zero ?_) h
    intro num c beenRead received hreply
    have hnone := getNdataPrefetchFrom_of_dollar hdollar [] []
      (read.offset / read.config.blockSize + 1) (int32 c) num
      (read.dataset.getTargets [] read.numStorages (int32 c))
    cases (congrArg Prod.snd (getNdataPrefetch_eq hreply)).symm.trans hnone
  refine Or.inr (Or.inr ⟨hfile, hdollar, fun b hb => ?_⟩)
  have hcases : ∀ stack stack', ¬ (2 ^ 31 ≤ b ∨ Memory.natBytes 4 b = Client.noKeyAvail.take 4 ∨
      ∀ s ∈ read.dataset.setTargets stack read.numStorages b,
        s ∉ read.dataset.getTargets stack' read.numStorages b) := by
    intro stack stack' hunfetched
    refine not_readsExactly_of_zero hfile hsize hb stack stack' (result_zero ?_) h
    intro num c beenRead received hreply
    exact getNdataPrefetchFrom_marked hdollar hunfetched c num (fun _ hs => hs)
      (getNdataPrefetch_eq hreply)
  have hone := hcases [] []
  refine ⟨?_, ?_, ?_⟩
  · by_contra hwide
    exact hone (Or.inl (Nat.le_of_not_lt hwide))
  · intro hnumber
    exact hone (Or.inr (Or.inl hnumber))
  · intro stack stack'
    by_contra hapart
    exact hcases stack stack' (Or.inr (Or.inr fun s hset hget => hapart ⟨s, hset, hget⟩))

/-- A block that is placed by its name and number is fetched if a server can be found for it: the
first copy is written and looked for on the same server. -/
theorem fetched_of_placed (hpolicy : read.dataset.policy.Placed)
    (hrepl : 1 ≤ read.dataset.replFactor) {b first : Nat} (hfits : b < 2 ^ 31)
    (hnumber : Memory.natBytes 4 b ≠ Client.noKeyAvail.take 4)
    (hlocated : read.dataset.getDataLocation [] read.numStorages b = some first)
    (hfirst : first < read.numStorages) : read.Fetched b := by
  have hsame : ∀ stack, read.dataset.getDataLocation stack read.numStorages b = some first :=
    fun stack => (findServer_placed hpolicy stack [] _ _ _).trans hlocated
  refine ⟨hfits, hnumber, fun stack stack' => ⟨first, ?_, ?_⟩⟩
  · rw [ElasticDataset.setTargets, hsame]
    exact mem_replicaServers_self hfirst hrepl
  · rw [ElasticDataset.getTargets, hsame]
    exact mem_replicaServers_self (findServer_lt (hsame stack')) hrepl

theorem isWord_exampleFile : IsWord exampleFile.1 := by
  decide

/-- Nine bytes from offset 2 of a file of ten bytes, in blocks of four on two servers. -/
def exampleRead : PrefetchRead where
  uri := exampleFile
  dataset := ⟨exampleFile.1, .roundRobin, 1, [], 0, 0⟩
  numStorages := 2
  config := ⟨4, 4096⟩
  fileSize := 10
  size := 9
  offset := 2
  uri_word := isWord_exampleFile
  blockSize_pos := Nat.succ_pos 3
  blockSize_lt := by decide
  fileSize_lt := by decide
  size_lt := by decide

/-- The read ends one byte beyond the file: eight bytes are there, and none is read. -/
theorem not_readsExactly :
    Client.readCount exampleRead.fileSize exampleRead.size exampleRead.offset = 8 ∧
      (∀ world buf, exampleRead.result world buf = (0, buf)) ∧ ¬ exampleRead.ReadsExactly := by
  refine ⟨by decide, fun world buf => rfl, ?_⟩
  intro h
  exact absurd (le_fileSize_of_readsExactly h (by decide) (by decide)) (by decide)

end PrefetchRead

end Hercules
