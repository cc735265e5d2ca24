/-
# Reads with prefetching

`imss_sread_prefetch_v2` asks for a block only if it has not come with an earlier one. The
blocks that arrive are kept by their number until the read is over. A block that cannot be
got is counted as read, and the loop ends.

`get_ndata_prefetch` is a parameter here; the servers behind it come later.
-/

import Hercules.Client.Sread
import Hercules.Server.Prefetch

namespace Hercules.Client

open Lib

/-- The data of the blocks that have arrived, by their number. -/
abbrev BlockMap := Nat → Option (List UInt8)

/-- `parse_prefetch_buffer`; the counter bounds the number of records. -/
def parsePrefetchBuffer (blockSize : Nat) (received : Memory) (length : Nat) :
    Nat → Nat → BlockMap → BlockMap
  | 0, _, blocks => blocks
  | n + 1, pos, blocks =>
      if pos + (4 + blockSize) ≤ length then
        parsePrefetchBuffer blockSize received length n (pos + (4 + blockSize))
          (Function.update blocks (received.loadNat pos 4)
            (some (received.load (pos + 4) blockSize)))
      else blocks

/-- `find_data_on_prefetch`: the buffer with the bytes, if the block is there. Its number is looked
up as a `uint32_t`. -/
def findDataOnPrefetch (blocks : BlockMap) (currBlk toRead offsetInBlock pos : Nat) (buf : Memory) :
    Option Memory :=
  (blocks (currBlk % 2 ^ 32)).map fun data => buf.store pos ((data.drop offsetInBlock).take toRead)

/-- `get_ndata_prefetch` as the read loop uses it: the number of bytes received and the buffer with
the message. -/
abbrev GetNdataPrefetch := Nat → Int × Option Memory

/-- A message is received and the block is looked for in it. -/
def receiveBlock (blockSize : Nat) (getNdataPrefetch : GetNdataPrefetch) (blocks : BlockMap)
    (currBlk toRead offsetInBlock pos : Nat) (buf : Memory) : Option (BlockMap × Memory) :=
  match getNdataPrefetch currBlk with
  | (_, none) => none
  | (beenRead, some received) =>
      if 0 < beenRead then
        let blocks := parsePrefetchBuffer blockSize received beenRead.toNat beenRead.toNat 0 blocks
        (findDataOnPrefetch blocks currBlk toRead offsetInBlock pos buf).map (blocks, ·)
      else none

/-- The `while` loop; the counter is the number of blocks that are left. The bytes of a block that
cannot be got are counted, and the loop ends. -/
def imssSreadPrefetchLoop (blockSize size offset : Nat) (getNdataPrefetch : GetNdataPrefetch) :
    Nat → Nat → Nat → BlockMap → Memory → Int × Memory
  | 0, _, scheduled, _, buf => (scheduled, buf)
  | n + 1, launched, scheduled, blocks, buf =>
      let currBlk := offset / blockSize + 1 + launched
      let offsetInBlock := if launched = 0 then offset % blockSize else 0
      let toRead := min (blockSize - offsetInBlock) (size - scheduled)
      match findDataOnPrefetch blocks currBlk toRead offsetInBlock scheduled buf with
      | some buf =>
          imssSreadPrefetchLoop blockSize size offset getNdataPrefetch n (launched + 1)
            (scheduled + toRead) blocks buf
      | none =>
          match receiveBlock blockSize getNdataPrefetch blocks currBlk toRead offsetInBlock
              scheduled buf with
          | some (blocks, buf) =>
              imssSreadPrefetchLoop blockSize size offset getNdataPrefetch n (launched + 1)
                (scheduled + toRead) blocks buf
          | none => (((scheduled + toRead : Nat) : Int), buf)

/-- `num_blocks_to_read`, a `size_t` like its operands. -/
def numBlocksToRead (blockSize size offset : Nat) : Nat :=
  ((((offset + size + blockSize - 1) % 2 ^ 64 / blockSize : Nat) - (offset / blockSize + 1 : Nat) +
    1 : Int) % 2 ^ 64).toNat

/-- `imss_sread_prefetch_v2`; `stSize` is the size recorded for the open file, `none` when
`fd_lookup` does not know the path. The function is called with the number of blocks, from which
`get_ndata_prefetch` computes the size of its requests. -/
def imssSreadPrefetchV2 (blockSize : Nat) (getNdataPrefetch : Nat → GetNdataPrefetch)
    (stSize : Option Nat) (buf : Memory) (size offset : Nat) : Int × Memory :=
  match stSize with
  | none => (-enoent, buf)
  | some stSize =>
      if stSize ≤ offset then (0, buf)
      else if size = 0 then (0, buf)
      else if stSize < (offset + size) % 2 ^ 64 then (0, buf)
      else
        let num := numBlocksToRead blockSize size offset
        imssSreadPrefetchLoop blockSize size offset (getNdataPrefetch num) num 0 0 (fun _ => none)
          buf

/-! ## What the client gets out of a message -/

section Parse

variable {blockSize : Nat} {received : Memory} {records : List (Nat × List UInt8)}

/-- The records of a message, put in the map one after the other. -/
def addRecords (blocks : BlockMap) : List (Nat × List UInt8) → BlockMap
  | [] => blocks
  | record :: records => addRecords (Function.update blocks record.1 (some record.2)) records

/-- A message is parsed to the records it was made from. -/
theorem parsePrefetchBuffer_records
    (hrecords : ∀ record ∈ records, record.1 < 2 ^ 32 ∧ record.2.length = blockSize) (pos : Nat)
    {n : Nat}
    (hload : received.load pos (recordBytes records).length = recordBytes records)
    (hn : records.length ≤ n) (blocks : BlockMap) :
    parsePrefetchBuffer blockSize received (pos + (recordBytes records).length) n pos blocks =
      addRecords blocks records := by
  induction records generalizing pos n blocks with
  | nil =>
      cases n with
      | zero => rfl
      | succ n =>
          rw [parsePrefetchBuffer, if_neg]
          · rfl
          · simp [recordBytes]
  | cons record records ih =>
      rw [List.forall_mem_cons] at hrecords
      obtain ⟨⟨hid, hlength⟩, hrest⟩ := hrecords
      obtain ⟨n, rfl⟩ := Nat.exists_eq_add_of_lt hn
      have hsum : (recordBytes (record :: records)).length =
          4 + blockSize + (recordBytes records).length := by
        rw [recordBytes_cons, List.length_append, List.length_append, Memory.length_natBytes,
          hlength]
      rw [hsum, recordBytes_cons, Memory.load_add, Memory.load_add] at hload
      obtain ⟨hfront, htail⟩ := List.append_inj hload (by simp [hlength])
      obtain ⟨hnumber, hdata⟩ := List.append_inj hfront (by simp)
      have hloadNat : received.loadNat pos 4 = record.1 := by
        rw [Memory.loadNat_of_load hnumber]
        exact Nat.mod_eq_of_lt hid
      rw [hsum, parsePrefetchBuffer, if_pos (by omega), hloadNat, hdata, ← Nat.add_assoc]
      rw [ih hrest _ htail (by simp)]
      rfl

/-- A property that the records have is one of all that the map holds. -/
theorem forall_addRecords {P : Nat → List UInt8 → Prop} {blocks : BlockMap}
    (hblocks : ∀ c data, blocks c = some data → P c data)
    (hrecords : ∀ record ∈ records, P record.1 record.2) :
    ∀ c data, addRecords blocks records c = some data → P c data := by
  induction records generalizing blocks with
  | nil => exact hblocks
  | cons record records ih =>
      rw [List.forall_mem_cons] at hrecords
      refine ih ?_ hrecords.2
      intro c data hdata
      rcases eq_or_ne c record.1 with rfl | hne
      · rw [Function.update_self, Option.some.injEq] at hdata
        exact hdata ▸ hrecords.1
      · rw [Function.update_of_ne hne] at hdata
        exact hblocks c data hdata

theorem isSome_addRecords {c : Nat} (blocks : BlockMap)
    (h : (blocks c).isSome ∨ c ∈ records.map Prod.fst) : (addRecords blocks records c).isSome := by
  induction records generalizing blocks with
  | nil => exact h.resolve_right List.not_mem_nil
  | cons record records ih =>
      refine ih _ ?_
      rcases eq_or_ne c record.1 with rfl | hne
      · left
        rw [Function.update_self]
        rfl
      · rw [Function.update_of_ne hne]
        refine h.imp_right fun hmem => ?_
        rw [List.map_cons, List.mem_cons] at hmem
        exact hmem.resolve_left hne

/-- The map holds the records, if no two of them have one number and different data. -/
theorem addRecords_none_iff
    (hrecords : ∀ record ∈ records, ∀ record' ∈ records, record.1 = record'.1 → record = record')
    (c : Nat) (data : List UInt8) :
    addRecords (fun _ => none) records c = some data ↔ (c, data) ∈ records := by
  have hheld : ∀ c data, addRecords (fun _ => none) records c = some data → (c, data) ∈ records :=
    forall_addRecords (by simp) fun record hrecord => hrecord
  constructor
  · exact hheld c data
  · intro hmem
    have hsome : (addRecords (fun _ => none) records c).isSome :=
      isSome_addRecords _ (Or.inr (List.mem_map.mpr ⟨_, hmem, rfl⟩))
    obtain ⟨data', hdata'⟩ := Option.isSome_iff_exists.mp hsome
    have heq := hrecords _ (hheld c data' hdata') _ hmem rfl
    rw [hdata', (Prod.mk.inj heq).2]

end Parse

/-! ## A message of a data server -/

section Message

variable {blockSize start stride prefetchSize : Nat}

/-- The client gets from a message the blocks that the server had room for, each with its bytes, and
the server writes within its buffer. -/
theorem parsePrefetchBuffer_fillPrefetchBuffer (store : HierarchicalRecords Block)
    (baseKey : CString)
    (hids : ∀ k < prefetchSize / (4 + blockSize), start + k * stride < 2 ^ 32) (buffer : Memory) :
    let message := store.fillPrefetchBuffer blockSize baseKey start stride buffer prefetchSize
    message.2 ≤ prefetchSize ∧
      (∀ i, message.2 ≤ i → message.1 i = buffer i) ∧
      ∀ c data,
        parsePrefetchBuffer blockSize message.1 message.2 message.2 0 (fun _ => none) c =
            some data ↔
          store.Prefetched blockSize baseKey start stride (prefetchSize / (4 + blockSize)) c
            data := by
  rw [HierarchicalRecords.fillPrefetchBuffer_eq]
  have hcount := store.length_hierarchicalMapGetPrefetch_le blockSize baseKey start stride
    prefetchSize
  have hmem : ∀ record,
      record ∈ store.hierarchicalMapGetPrefetch blockSize baseKey start stride prefetchSize ↔ _ :=
    HierarchicalRecords.mem_hierarchicalMapGetPrefetch_iff hids
  generalize store.hierarchicalMapGetPrefetch blockSize baseKey start stride prefetchSize =
    records at hcount hmem
  have hrecord : ∀ record ∈ records, record.1 < 2 ^ 32 ∧ record.2.length = blockSize := by
    intro record hrecord
    obtain ⟨k, hk, hid, -, hfull⟩ := (hmem record).mp hrecord
    exact ⟨hid ▸ hids k hk, hfull.length_eq⟩
  have hlength := length_recordBytes fun record hmem => (hrecord record hmem).2
  have hfits : (recordBytes records).length ≤ prefetchSize := by
    rw [hlength]
    exact (Nat.mul_le_mul_right _ hcount).trans (Nat.div_mul_le_self _ _)
  have hparse : parsePrefetchBuffer blockSize (buffer.store 0 (recordBytes records))
      (recordBytes records).length (recordBytes records).length 0 (fun _ => none) =
        addRecords (fun _ => none) records := by
    have hrounds : records.length ≤ (recordBytes records).length := by
      rw [hlength]
      exact Nat.le_mul_of_pos_right _ (by omega)
    have hwhole := parsePrefetchBuffer_records hrecord 0
      (Memory.load_store_self buffer 0 (recordBytes records)) hrounds fun _ => none
    rwa [Nat.zero_add] at hwhole
  refine ⟨hfits, ?_, ?_⟩
  · intro i hi
    exact Memory.store_of_ge ((Nat.zero_add _).le.trans hi)
  · intro c data
    rw [hparse, addRecords_none_iff, hmem]
    intro record hrecord record' hrecord' hid
    obtain ⟨_, _, _, _, hfull⟩ := (hmem record).mp hrecord
    obtain ⟨_, _, _, _, hfull'⟩ := (hmem record').mp hrecord'
    exact Prod.ext hid (hfull.unique (hid ▸ hfull'))

/-- A store with two full blocks of two bytes. -/
def twoBlocks : HierarchicalRecords Block :=
  let store : HierarchicalRecords Block := HierarchicalRecords.init imssRoot
  let store := store.hierarchicalMapPut Block.isDirectory (blockKey exampleFile.1 1)
    ⟨fun _ => 7, 2⟩ false
  store.hierarchicalMapPut Block.isDirectory (blockKey exampleFile.1 3) ⟨fun _ => 8, 2⟩ false

/-- Blocks 1 and 3 come in one message. -/
theorem parsePrefetchBuffer_twoBlocks :
    let message := twoBlocks.fillPrefetchBuffer 2 exampleFile.1 1 (2 : Nat) (fun _ => 0) 20
    ∃ data, parsePrefetchBuffer 2 message.1 message.2 message.2 0 (fun _ => none) 3 =
      some data := by
  have hfull : ∀ c : Nat, (twoBlocks.hierarchicalMapGet (blockKey exampleFile.1 c)).map
      Block.size = some 2 → ∃ data, twoBlocks.FullBlock 2 exampleFile.1 c data := by
    intro c hsize
    obtain ⟨block, hblock, hsize⟩ := Option.map_eq_some_iff.mp hsize
    exact ⟨_, block, hblock, hsize, rfl⟩
  obtain ⟨data, hdata⟩ := hfull 3 (by decide +kernel)
  refine ⟨data, ?_⟩
  refine ((parsePrefetchBuffer_fillPrefetchBuffer twoBlocks exampleFile.1
    (by decide) fun _ => 0).2.2 3 data).mpr ⟨1, by decide, rfl, ?_, hdata⟩
  intro j hj
  obtain rfl := Nat.lt_one_iff.mp hj
  exact hfull 1 (by decide +kernel)

end Message

/-! ## The loop -/

section Loop

variable {blockSize size offset fileSize : Nat} {getNdataPrefetch : GetNdataPrefetch}
  {file : Memory}

/-- The data are those of the block with the number, as far as the file goes. Numbers that are no
`int32_t` name no block. -/
def RightData (blockSize fileSize : Nat) (file : Memory) (c : Nat) (data : List UInt8) : Prop :=
  data.length = blockSize ∧ (0 < c → c < 2 ^ 31 → ∀ i < blockSize,
    (c - 1) * blockSize + i < fileSize → data.getD i 0 = file ((c - 1) * blockSize + i))

/-- A request for the block is answered with right records, one of them for the block itself. -/
def Answers (blockSize fileSize : Nat) (file : Memory) (getNdataPrefetch : GetNdataPrefetch)
    (c : Nat) : Prop :=
  ∃ records received,
    getNdataPrefetch c = (((recordBytes records).length : Int), some received) ∧
      received.load 0 (recordBytes records).length = recordBytes records ∧
      (∀ record ∈ records, record.1 < 2 ^ 32 ∧
        RightData blockSize fileSize file record.1 record.2) ∧
      c ∈ records.map Prod.fst

/-- The bytes that are copied from the data of a block. -/
theorem RightData.take {b off len : Nat} {data : List UInt8}
    (hdata : RightData blockSize fileSize file b data) (hpos : 0 < b) (hfits : b < 2 ^ 31)
    (hinside : off + len ≤ blockSize) (hfile : (b - 1) * blockSize + off + len ≤ fileSize) :
    (data.drop off).take len = file.load ((b - 1) * blockSize + off) len := by
  obtain ⟨hlength, hbytes⟩ := hdata
  apply List.ext_getElem
  · simp only [List.length_take, List.length_drop, Memory.length_load]
    omega
  · intro i hleft hright
    rw [Memory.length_load] at hright
    have hbyte := hbytes hpos hfits (off + i) (by omega) (by omega)
    rw [List.getD_eq_getElem _ _ (by omega)] at hbyte
    rw [List.getElem_take, List.getElem_drop, hbyte]
    simp only [Memory.load, List.getElem_map, List.getElem_range]
    congr 1
    omega

/-- The map has the block after a message that answers the request for it. -/
theorem receiveBlock_of_answers {c toRead off pos : Nat} {blocks : BlockMap}
    (hanswers : Answers blockSize fileSize file getNdataPrefetch c) (hfits : c < 2 ^ 31)
    (hblocks : ∀ c data, blocks c = some data → RightData blockSize fileSize file c data)
    (buf : Memory) :
    ∃ blocks' data, RightData blockSize fileSize file c data ∧
      (∀ c data, blocks' c = some data → RightData blockSize fileSize file c data) ∧
      receiveBlock blockSize getNdataPrefetch blocks c toRead off pos buf =
        some (blocks', buf.store pos ((data.drop off).take toRead)) := by
  obtain ⟨records, received, hreply, hload, hrecords, hmem⟩ := hanswers
  have hright := forall_addRecords hblocks fun record h => (hrecords record h).2
  have hwidth : ∀ record ∈ records, record.1 < 2 ^ 32 ∧ record.2.length = blockSize :=
    fun record h => ⟨(hrecords record h).1, (hrecords record h).2.1⟩
  have hlength := length_recordBytes fun record h => (hwidth record h).2
  have hcount : records.length ≤ (recordBytes records).length := by
    rw [hlength]
    exact Nat.le_mul_of_pos_right _ (by omega)
  have hne : 0 < records.length := by
    obtain ⟨record, hrecord, -⟩ := List.mem_map.mp hmem
    exact List.length_pos_of_mem hrecord
  have hparse := parsePrefetchBuffer_records hwidth 0 hload hcount blocks
  rw [Nat.zero_add] at hparse
  obtain ⟨data, hdata⟩ := Option.isSome_iff_exists.mp
    (isSome_addRecords blocks (Or.inr hmem))
  refine ⟨addRecords blocks records, data, hright c data hdata, hright, ?_⟩
  simp only [receiveBlock, hreply]
  rw [if_pos (by omega), Int.toNat_natCast, hparse, findDataOnPrefetch,
    Nat.mod_eq_of_lt (by omega), hdata]
  rfl

/-- The state of the loop at a block: how much has been read, and that it is right. -/
structure LoopInv (blockSize fileSize size offset : Nat) (file : Memory) (b off scheduled : Nat)
    (blocks : BlockMap) (buf : Memory) : Prop where
  count : offset + scheduled = min (offset + size) ((b - 1) * blockSize + off)
  right : ∀ c data, blocks c = some data → RightData blockSize fileSize file c data
  read : ∀ k < scheduled, buf k = file (offset + k)

/-- The data of a block are copied. -/
theorem LoopInv.next {b off scheduled : Nat} {blocks blocks' : BlockMap} {buf : Memory}
    {data : List UInt8}
    (hinv : LoopInv blockSize fileSize size offset file b off scheduled blocks buf)
    (hpos : 0 < b) (hfits : b < 2 ^ 31) (hoff : off < blockSize)
    (hstart : (b - 1) * blockSize + off ≤ offset + size) (hfile : offset + size ≤ fileSize)
    (hdata : RightData blockSize fileSize file b data)
    (hright : ∀ c data, blocks' c = some data → RightData blockSize fileSize file c data) :
    LoopInv blockSize fileSize size offset file (b + 1) 0
      (scheduled + min (blockSize - off) (size - scheduled)) blocks'
      (buf.store scheduled ((data.drop off).take (min (blockSize - off) (size - scheduled)))) := by
  have hscheduled := hinv.count
  rw [Nat.min_eq_right hstart] at hscheduled
  have hblock : (b + 1 - 1) * blockSize = (b - 1) * blockSize + blockSize := by
    rw [← Nat.succ_mul]
    congr 1
    omega
  refine ⟨?_, hright, ?_⟩
  · rw [hblock]
    omega
  · rw [hdata.take hpos hfits (by omega) (by omega)]
    exact store_reads hinv.read hscheduled _

/-- The blocks of a range inside the file, each of which can be got, are read. -/
theorem imssSreadPrefetchLoop_reads {endBlk : Nat} (hblock : 0 < blockSize)
    (hlower : (endBlk - 1) * blockSize < offset + size)
    (hupper : offset + size ≤ endBlk * blockSize) (hfile : offset + size ≤ fileSize)
    (hanswers : ∀ b, offset / blockSize + 1 ≤ b → b ≤ endBlk → b < 2 ^ 31 ∧
      Answers blockSize fileSize file getNdataPrefetch b)
    (n launched scheduled : Nat) (hend : offset / blockSize + 1 + launched + n = endBlk + 1)
    {blocks : BlockMap} {buf : Memory}
    (hinv : LoopInv blockSize fileSize size offset file (offset / blockSize + 1 + launched)
      (if launched = 0 then offset % blockSize else 0) scheduled blocks buf) :
    ReadsBytes file offset size (imssSreadPrefetchLoop blockSize size offset getNdataPrefetch n
      launched scheduled blocks buf) := by
  induction n generalizing launched scheduled blocks buf with
  | zero =>
      obtain rfl : endBlk = offset / blockSize + launched := by omega
      have hscheduled := hinv.count
      rw [Nat.add_right_comm, Nat.add_sub_cancel,
        Nat.min_eq_left (hupper.trans (Nat.le_add_right _ _))] at hscheduled
      obtain rfl : scheduled = size := by omega
      exact ⟨rfl, hinv.read⟩
  | succ n ih =>
      have hb := hanswers (offset / blockSize + 1 + launched) (by omega) (by omega)
      have hle : (offset / blockSize + 1 + launched - 1) * blockSize ≤ (endBlk - 1) * blockSize :=
        Nat.mul_le_mul_right _ (by omega)
      have hmod := Nat.mod_lt offset hblock
      have hsplit := Nat.div_add_mod' offset blockSize
      have hoff : (if launched = 0 then offset % blockSize else 0) < blockSize := by
        split <;> omega
      have hstart : (offset / blockSize + 1 + launched - 1) * blockSize +
          (if launched = 0 then offset % blockSize else 0) ≤ offset + size := by
        split
        next hfirst =>
          subst hfirst
          rw [Nat.add_zero, Nat.add_sub_cancel]
          omega
        next => omega
      have hcontinue : ∀ blocks' data,
          (∀ c data, blocks' c = some data → RightData blockSize fileSize file c data) →
          RightData blockSize fileSize file (offset / blockSize + 1 + launched) data →
          ReadsBytes file offset size (imssSreadPrefetchLoop blockSize size offset getNdataPrefetch
            n (launched + 1) (scheduled + min (blockSize -
              if launched = 0 then offset % blockSize else 0) (size - scheduled)) blocks'
            (buf.store scheduled ((data.drop (if launched = 0 then offset % blockSize else 0)).take
              (min (blockSize - if launched = 0 then offset % blockSize else 0)
                (size - scheduled))))) := by
        intro blocks' data hright hdata
        refine ih _ _ (by omega) ?_
        rw [if_neg (Nat.succ_ne_zero launched)]
        exact hinv.next (Nat.add_pos_left (Nat.succ_pos _) _) hb.1 hoff hstart hfile hdata hright
      rw [imssSreadPrefetchLoop]
      cases hfound : blocks (offset / blockSize + 1 + launched) with
      | some data =>
          simp only [findDataOnPrefetch, Nat.mod_eq_of_lt (show offset / blockSize + 1 + launched <
            2 ^ 32 by omega), hfound, Option.map_some]
          exact hcontinue blocks data hinv.right (hinv.right _ _ hfound)
      | none =>
          obtain ⟨blocks', data, hdata, hright, hreceive⟩ :=
            receiveBlock_of_answers hb.2 hb.1 hinv.right buf
          simp only [findDataOnPrefetch, Nat.mod_eq_of_lt (show offset / blockSize + 1 + launched <
            2 ^ 32 by omega), hfound, Option.map_none]
          rw [hreceive]
          exact hcontinue blocks' data hright hdata

/-- What is kept by copying from a message is kept by the loop. -/
theorem imssSreadPrefetchLoop_preserves {P : UInt8 → Prop}
    (hreceived : ∀ c beenRead received, getNdataPrefetch c = (beenRead, some received) →
      ∀ blocks : BlockMap, (∀ c data, blocks c = some data → ∀ x ∈ data, P x) →
      ∀ c data, parsePrefetchBuffer blockSize received beenRead.toNat beenRead.toNat 0 blocks c =
        some data → ∀ x ∈ data, P x)
    (n launched scheduled : Nat) {blocks : BlockMap} {buf : Memory}
    (hblocks : ∀ c data, blocks c = some data → ∀ x ∈ data, P x) (hbuf : ∀ k, P (buf k)) (k : Nat) :
    P ((imssSreadPrefetchLoop blockSize size offset getNdataPrefetch n launched scheduled blocks
      buf).2 k) := by
  have hfind : ∀ {blocks : BlockMap} {c toRead off pos : Nat} {buf buf' : Memory},
      (∀ c data, blocks c = some data → ∀ x ∈ data, P x) → (∀ k, P (buf k)) →
      findDataOnPrefetch blocks c toRead off pos buf = some buf' → ∀ k, P (buf' k) := by
    intro blocks c toRead off pos buf buf' hblocks hbuf hfound k
    obtain ⟨data, hdata, rfl⟩ := Option.map_eq_some_iff.mp hfound
    rcases Nat.lt_or_ge k pos with hlt | hge
    · rw [Memory.store_of_lt hlt]
      exact hbuf k
    · rw [Memory.store_of_le hge]
      rcases Nat.lt_or_ge (k - pos) ((data.drop off).take toRead).length with hin | hout
      · rw [List.getD_eq_getElem _ _ hin]
        exact hblocks _ data hdata _ (List.mem_of_mem_drop (List.mem_of_mem_take
          (List.getElem_mem hin)))
      · rw [List.getD_eq_default _ _ hout]
        exact hbuf k
  induction n generalizing launched scheduled blocks buf with
  | zero => exact hbuf k
  | succ n ih =>
      rw [imssSreadPrefetchLoop]
      split
      next buf' hfound => exact ih _ _ hblocks (hfind hblocks hbuf hfound)
      next =>
        split
        next blocks' buf' hreceive =>
          rw [receiveBlock] at hreceive
          split at hreceive
          next => cases hreceive
          next beenRead received hreply =>
            split at hreceive
            next =>
              obtain ⟨found, hfound, hpair⟩ := Option.map_eq_some_iff.mp hreceive
              cases hpair
              have hnext := hreceived _ _ _ hreply blocks hblocks
              exact ih _ _ hnext (hfind hnext hbuf hfound)
            next => cases hreceive
        next => exact hbuf k

end Loop

end Hercules.Client
