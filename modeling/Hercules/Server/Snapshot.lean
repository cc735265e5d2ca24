/-
# Reassembling a file for a snapshot

For a snapshot each data server collects its blocks of the file in one buffer (`GetDataOfFile`): for
each block its number and the bytes that the server has recorded for it, in the order of the
numbers. One server gets the buffers of all and copies the blocks to their places (`MergeData`).

The lengths of the blocks are not sent along. `MergeData` takes a whole block for each of them,
except for one that reaches beyond the end of the file, which ends there. But the servers have
recorded a whole block for this one too. So the buffer is read right if the file ends with a block.

The space for the numbers is counted in a `uint32_t`, so a server with `2 ^ 30` blocks allocates too
small a buffer.
-/

import Mathlib.Data.List.Sort
import Mathlib.Tactic.Ring
import Hercules.Server.Data

namespace Hercules

open Std Lib Lib.Text

/-! ## The blocks of one server -/

/-- The number that the text after the first `$` begins with; `stoi` may throw. -/
def extractNumber (key : CString) : Option Int :=
  if '$' ∈ key then stoi ((fromOn '$' key).drop 1) else some (-1)

/-- `getBlockInformation`: the block number, which keeps its value if nothing follows the `$`. -/
def getBlockInformation (blockNumber : Int) (key : CString) : Option Int :=
  let block := if '$' ∈ key then (fromOn '$' key).drop 1 else key
  if block = [] then some blockNumber else stoi block

namespace MapRecords

/-- The keys that `GetDataOfFile` collects, last key first. -/
def collectKeys (records : MapRecords Block) (fileName : CString) : List CString :=
  (records.buffer.keys.filter fun key => !isBlockZero key && upTo '$' key == fileName).reverse

/-- `std::sort` by the block number. With one key nothing is compared. -/
def sortKeys (keys : List CString) : Option (List CString) :=
  if keys.length < 2 then some keys
  else if keys.all fun key => (extractNumber key).isSome then
    some (keys.insertionSort fun key key' =>
      (extractNumber key).getD 0 ≤ (extractNumber key').getD 0)
  else none

/-- The size that is recorded under a key. -/
def sizeOf (records : MapRecords Block) (key : CString) : Nat :=
  ((records.get key).map Block.size).getD 0

/-- The bytes that are recorded under a key. -/
def bytesOf (records : MapRecords Block) (key : CString) : List UInt8 :=
  ((records.get key).map fun block => block.data.load 0 block.size).getD []

/-- The loop that fills the buffer: each block after its number, an `int`. -/
def appendBlocks (records : MapRecords Block) : Int → List CString → Option (List UInt8)
  | _, [] => some []
  | blockNumber, key :: keys =>
      (getBlockInformation blockNumber key).bind fun blockNumber =>
        (appendBlocks records blockNumber keys).map fun rest =>
          Memory.natBytes 4 (blockNumber % 2 ^ 32).toNat ++ (records.bytesOf key ++ rest)

/-- `GetDataOfFile`: an exception or a write behind the end of the buffer, `NULL`, or the buffer
with a final NUL, and the size without it. The size is a `uint64_t` and `extra_size` a
`uint32_t`. -/
def getDataOfFile (records : MapRecords Block) (fileName : CString) :
    Option (Option (List UInt8 × Nat)) :=
  let keys := records.collectKeys fileName
  let fileSizeOccupied := (keys.map records.sizeOf).sum % 2 ^ 64
  let extraSize := 4 * keys.length % 2 ^ 32
  if fileSizeOccupied = 0 then some none
  else
    ((sortKeys keys).bind (records.appendBlocks 0)).bind fun data =>
      let allocated := (fileSizeOccupied + extraSize + 1) % 2 ^ 64
      if data.length + 1 ≤ allocated then
        some (some (data ++ [0], (fileSizeOccupied + extraSize) % 2 ^ 64))
      else none

end MapRecords

/-! ## The merge -/

section Merge

variable (fileSize blockSize : Nat)

/-- One round of the inner loop of `MergeData`, on what is left of a buffer: the number of bytes
that are copied, and the file. Nothing is returned if a read or a write is out of bounds. -/
def mergeBlock (buffer : List UInt8) (file : Memory) : Option (Nat × Memory) :=
  if 4 ≤ buffer.length then
    let blockNumber := int32 (Memory.loadNat (fun i => buffer.getD i 0) 0 4)
    let blockOffset := int64 ((blockNumber - 1) * blockSize)
    let blockSizeRtvd : Nat :=
      if (fileSize : Int) % 2 ^ 64 < (blockSize + blockOffset) % 2 ^ 64 then
        ((fileSize - blockOffset) % 2 ^ 64).toNat
      else blockSize
    if 0 ≤ blockOffset ∧ blockOffset + blockSizeRtvd ≤ fileSize ∧
        4 + blockSizeRtvd ≤ buffer.length then
      some (blockSizeRtvd, file.store blockOffset.toNat ((buffer.drop 4).take blockSizeRtvd))
    else none
  else none

/-- The inner loop: `left` bytes of the buffer are not read yet, `total` have been written. Each
round takes four bytes or more, so the fuel does not run out if it is `left` at first. -/
def mergeBuffer : Nat → List UInt8 → Nat → Nat × Memory → Option (Nat × Memory)
  | _, _, 0, merged => some merged
  | 0, _, _ + 1, _ => none
  | fuel + 1, buffer, left + 1, merged =>
      (mergeBlock fileSize blockSize buffer merged.2).bind fun copied =>
        mergeBuffer fuel (buffer.drop (4 + copied.1)) (left + 1 - (4 + copied.1))
          (merged.1 + copied.1, copied.2)

/-- The outer loop, which waits for as many buffers as there are servers. -/
def mergeBuffers : Nat → List (List UInt8 × Nat) → Nat × Memory → Option (Nat × Memory)
  | 0, _, merged => some merged
  | _ + 1, [], _ => none
  | servers + 1, buffer :: buffers, merged =>
      (mergeBuffer fileSize blockSize buffer.2 buffer.1 buffer.2 merged).bind
        (mergeBuffers servers buffers)

/-- `MergeData`, with the buffers in the order of their arrival and the contents `malloc` left: the
size of the data and the file. -/
def mergeData (numOfDataServers : Nat) (buffers : List (List UInt8 × Nat)) (fresh : Memory) :
    Option (Nat × Memory) :=
  if fileSize = 0 then none
  else mergeBuffers fileSize blockSize (max 1 numOfDataServers) buffers (0, fresh)

end Merge

/-! ## A file on several servers -/

/-- A file, and which servers hold which of its blocks. Blocks are numbered from 1. -/
structure SnapshotFile where
  uri : CString
  bytes : List UInt8
  blockSize : Nat
  nServers : Nat
  holds : Fin nServers → Nat → Bool
  length_lt : bytes.length < 2 ^ 63
  blockSize_pos : 0 < blockSize
  blockSize_lt : blockSize < 2 ^ 64
  complete : ∀ b, (b - 1) * blockSize < bytes.length → 0 < b → ∃ s, holds s b = true

namespace SnapshotFile

variable (f : SnapshotFile)

/-- A block of the file. -/
def IsBlock (b : Nat) : Prop :=
  0 < b ∧ (b - 1) * f.blockSize < f.bytes.length

/-- A block of the file that a server holds. -/
def Holds (s : Fin f.nServers) (b : Nat) : Prop :=
  f.IsBlock b ∧ f.holds s b = true

instance (s : Fin f.nServers) (b : Nat) : Decidable (f.Holds s b) :=
  inferInstanceAs
    (Decidable ((0 < b ∧ (b - 1) * f.blockSize < f.bytes.length) ∧ f.holds s b = true))

/-- The blocks that a server holds. -/
def blockList (s : Fin f.nServers) : List Nat :=
  (List.range (f.bytes.length + 1)).filter fun b => decide (f.Holds s b)

/-- The servers have stored the blocks that they hold, each with the size of a whole block. What
stands behind the end of the file is not determined. Other keys with this name belong to block 0. -/
structure Stored (servers : Fin f.nServers → MapRecords Block) : Prop where
  block : ∀ s b, f.Holds s b → ∃ block, (servers s).get (blockKey f.uri b) = some block ∧
    block.size = f.blockSize ∧ ∀ i < f.blockSize, (b - 1) * f.blockSize + i < f.bytes.length →
      block.data i = f.bytes.getD ((b - 1) * f.blockSize + i) 0
  only : ∀ s key, ((servers s).get key).isSome → upTo '$' key = f.uri → isBlockZero key = false →
    ∃ b : Nat, f.Holds s b ∧ key = blockKey f.uri b

/-- The snapshot of the file: the buffers of the servers, in the order of their arrival, are
merged. -/
def snapshot (servers : Fin f.nServers → MapRecords Block) (order : List (Fin f.nServers))
    (fresh : Memory) : Option (Nat × Memory) :=
  (order.mapM fun s => (servers s).getDataOfFile f.uri).bind fun results =>
    mergeData f.bytes.length f.blockSize f.nServers (results.filterMap id) fresh

/-- However the blocks are stored and the buffers arrive, the merged file has the bytes of the
file. -/
def Reconstructs : Prop :=
  ∀ servers, f.Stored servers → ∀ order, order.Perm (List.finRange f.nServers) → ∀ fresh,
    ∃ total file, f.snapshot servers order fresh = some (total, file) ∧
      ∀ i < f.bytes.length, file i = f.bytes.getD i 0

end SnapshotFile

/-! ## One block -/

theorem loadNat_natBytes_append {n : Nat} (hn : n < 2 ^ 32) (rest : List UInt8) :
    Memory.loadNat (fun i => (Memory.natBytes 4 n ++ rest).getD i 0) 0 4 = n := by
  have hstore := Memory.loadNat_store_natBytes (fun _ => 0) 0 4 n
  rw [Nat.mod_eq_of_lt (by norm_num; omega)] at hstore
  refine Eq.trans ?_ hstore
  apply Memory.loadNat_congr
  intro i _ hi
  have hlen : i < (Memory.natBytes 4 n).length := by
    rw [Memory.length_natBytes]
    omega
  rw [Memory.store_of_le (Nat.zero_le i), Nat.sub_zero, List.getD_append _ _ _ _ hlen]

/-- A block is copied to its place, up to the end of the file. -/
theorem mergeBlock_append {fileSize blockSize b : Nat} {data : List UInt8} (hpos : 0 < b)
    (hoffset : (b - 1) * blockSize < fileSize) (hb : b < 2 ^ 31) (hdata : data.length = blockSize)
    (hfile : fileSize < 2 ^ 63) (hblock : blockSize < 2 ^ 64) (rest : List UInt8) (file : Memory) :
    mergeBlock fileSize blockSize (Memory.natBytes 4 b ++ (data ++ rest)) file =
      some (min blockSize (fileSize - (b - 1) * blockSize),
        file.store ((b - 1) * blockSize)
          (data.take (min blockSize (fileSize - (b - 1) * blockSize)))) := by
  have hnumber : int32 (Memory.loadNat
      (fun i => (Memory.natBytes 4 b ++ (data ++ rest)).getD i 0) 0 4) = b := by
    rw [loadNat_natBytes_append (by omega)]
    exact int32_of_fits (by omega) (by exact_mod_cast hb)
  have hplace : int64 (((b : Int) - 1) * blockSize) = ((b - 1) * blockSize : Nat) := by
    rw [show ((b : Int) - 1) = ((b - 1 : Nat) : Int) by omega, ← Int.natCast_mul]
    exact int64_of_fits (by omega) (by omega)
  -- the sum of the two sizes does not wrap around: the offset is zero or not below a block
  have hsum : blockSize + (b - 1) * blockSize < 2 ^ 64 := by
    rcases Nat.eq_zero_or_pos (b - 1) with hfirst | hlater
    · rw [hfirst]
      omega
    · have hle := Nat.le_mul_of_pos_left blockSize hlater
      omega
  have hsize : (if (fileSize : Int) % 2 ^ 64 <
      (blockSize + ((b - 1) * blockSize : Nat)) % 2 ^ 64 then
      ((fileSize - ((b - 1) * blockSize : Nat) : Int) % 2 ^ 64).toNat else blockSize) =
      min blockSize (fileSize - (b - 1) * blockSize) := by
    generalize (b - 1) * blockSize = offset at *
    rw [Int.emod_eq_of_lt (by omega) (by omega), Int.emod_eq_of_lt (by omega) (by omega),
      Int.emod_eq_of_lt (by omega) (by omega)]
    split <;> omega
  rw [mergeBlock, if_pos (by simp)]
  simp only [hnumber, hplace]
  have hdrop : (Memory.natBytes 4 b ++ (data ++ rest)).drop 4 = data ++ rest :=
    List.drop_left' (Memory.length_natBytes 4 b)
  rw [hsize, hdrop, Int.toNat_natCast, List.take_append_of_le_length (by omega), if_pos]
  refine ⟨by omega, by omega, ?_⟩
  simp only [List.length_append, Memory.length_natBytes]
  omega

/-! ## The loops -/

section Loops

variable {fileSize blockSize : Nat}

@[simp]
theorem mergeBuffer_zero (fuel : Nat) (buffer : List UInt8) (merged : Nat × Memory) :
    mergeBuffer fileSize blockSize fuel buffer 0 merged = some merged := by
  cases fuel <;> rfl

/-- A block ends where the next one begins. -/
theorem offset_add_blockSize {b : Nat} (hb : 0 < b) (blockSize : Nat) :
    (b - 1) * blockSize + blockSize = b * blockSize := by
  rw [← Nat.succ_mul, Nat.succ_eq_add_one, Nat.sub_add_cancel hb]

/-- The part of a buffer for one block. -/
def chunk (payload : Nat → List UInt8) (b : Nat) : List UInt8 :=
  Memory.natBytes 4 b ++ payload b

theorem length_flatMap_chunk {payload : Nat → List UInt8} {bs : List Nat}
    (hbs : ∀ b ∈ bs, (payload b).length = blockSize) :
    (bs.flatMap (chunk payload)).length = bs.length * (blockSize + 4) := by
  induction bs with
  | nil => simp
  | cons b bs ih =>
      rw [List.flatMap_cons, List.length_append, ih fun b hb => hbs b (List.mem_cons_of_mem _ hb),
        chunk, List.length_append, Memory.length_natBytes, hbs b List.mem_cons_self,
        List.length_cons, Nat.succ_mul]
      omega

/-- Whole blocks are read one after the other. In the file the places of these blocks have their
bytes, and the others are as before. -/
theorem mergeBuffer_blocks (hfile : fileSize < 2 ^ 63) (hpos : 0 < blockSize)
    (hblock : blockSize < 2 ^ 64) (payload : Nat → List UInt8) (rest : List UInt8) (left fuel : Nat)
    (bs : List Nat)
    (hbs : ∀ b ∈ bs, (0 < b ∧ b * blockSize ≤ fileSize ∧ b < 2 ^ 31) ∧
      (payload b).length = blockSize) (merged : Nat × Memory) :
    ∃ file : Memory,
      (∀ i, file i = if i / blockSize + 1 ∈ bs then
        (payload (i / blockSize + 1)).getD (i % blockSize) 0 else merged.2 i) ∧
      mergeBuffer fileSize blockSize (bs.length + fuel) (bs.flatMap (chunk payload) ++ rest)
          (bs.length * (blockSize + 4) + left) merged =
        mergeBuffer fileSize blockSize fuel rest left (merged.1 + bs.length * blockSize, file) := by
  induction bs generalizing merged with
  | nil => exact ⟨merged.2, by simp, by simp⟩
  | cons b bs ih =>
      obtain ⟨⟨hb, hend, hnumber⟩, hlength⟩ := hbs b List.mem_cons_self
      have hoffset := offset_add_blockSize hb blockSize
      have hwhole : min blockSize (fileSize - (b - 1) * blockSize) = blockSize := by omega
      have hstep := mergeBlock_append hb (by omega) hnumber hlength hfile hblock
        (bs.flatMap (chunk payload) ++ rest) merged.2
      rw [hwhole, List.take_of_length_le hlength.le] at hstep
      obtain ⟨file, hbytes, hrun⟩ := ih (fun b hb => hbs b (List.mem_cons_of_mem _ hb))
        (merged.1 + blockSize, merged.2.store ((b - 1) * blockSize) (payload b))
      refine ⟨file, fun i => ?_, ?_⟩
      · rw [hbytes]
        dsimp only
        by_cases htail : i / blockSize + 1 ∈ bs
        · rw [if_pos htail, if_pos (List.mem_cons_of_mem _ htail)]
        · rw [if_neg htail]
          have hdiv := Nat.div_add_mod i blockSize
          have hmod := Nat.mod_lt i hpos
          by_cases hsame : i / blockSize + 1 = b
          · have hquot : i / blockSize = b - 1 := by omega
            rw [if_pos (by rw [hsame]; exact List.mem_cons_self), hsame]
            rw [hquot, Nat.mul_comm] at hdiv
            rw [Memory.store_of_le (by omega),
              show i - (b - 1) * blockSize = i % blockSize by omega,
              List.getD_eq_getElem _ _ (by omega), List.getD_eq_getElem _ _ (by omega)]
          · rw [if_neg (by simp [hsame, htail])]
            by_cases hbefore : i < (b - 1) * blockSize
            · exact Memory.store_of_lt hbefore
            · refine Memory.store_of_ge ?_
              by_contra hinside
              have hquot : i / blockSize = b - 1 := by
                apply Nat.div_eq_of_lt_le
                · omega
                · rw [Nat.sub_add_cancel hb]
                  omega
              omega
      · rw [List.length_cons, List.flatMap_cons, chunk]
        rw [show bs.length + 1 + fuel = bs.length + fuel + 1 by omega,
          show (bs.length + 1) * (blockSize + 4) + left =
            bs.length * (blockSize + 4) + left + blockSize + 3 + 1 by ring]
        rw [mergeBuffer, List.append_assoc, List.append_assoc, hstep, Option.bind_some]
        simp only
        rw [← List.append_assoc, List.drop_left' (by simp [hlength]),
          show bs.length * (blockSize + 4) + left + blockSize + 3 + 1 - (4 + blockSize) =
            bs.length * (blockSize + 4) + left by omega, hrun,
          show merged.1 + (bs.length + 1) * blockSize =
            merged.1 + blockSize + bs.length * blockSize by
            ring]

/-- The buffer of a server with whole blocks. -/
def bufferOf (blockSize : Nat) (payload : Nat → List UInt8) (bs : List Nat) : List UInt8 × Nat :=
  (bs.flatMap (chunk payload) ++ [0], bs.length * (blockSize + 4))

/-- What the merge has written is right if it was right before or belongs to a block of a server. -/
theorem mergeBuffers_blocks {ι : Type} (hfile : fileSize < 2 ^ 63) (hpos : 0 < blockSize)
    (hblock : blockSize < 2 ^ 64) (bytes : List UInt8) (payload : ι → Nat → List UInt8)
    (blocks : ι → List Nat)
    (hblocks : ∀ s, ∀ b ∈ blocks s, (0 < b ∧ b * blockSize ≤ fileSize ∧ b < 2 ^ 31) ∧
      (payload s b).length = blockSize)
    (hright : ∀ s, ∀ b ∈ blocks s, ∀ i < blockSize,
      (payload s b).getD i 0 = bytes.getD ((b - 1) * blockSize + i) 0)
    (order : List ι) (merged : Nat × Memory) :
    ∃ total file, mergeBuffers fileSize blockSize order.length
        (order.map fun s => bufferOf blockSize (payload s) (blocks s)) merged = some (total, file) ∧
      ∀ i, merged.2 i = bytes.getD i 0 ∨ (∃ s ∈ order, i / blockSize + 1 ∈ blocks s) →
        file i = bytes.getD i 0 := by
  induction order generalizing merged with
  | nil => exact ⟨merged.1, merged.2, rfl, by simp⟩
  | cons s order ih =>
      obtain ⟨file, hbytes, hrun⟩ := mergeBuffer_blocks hfile hpos hblock (payload s) [0] 0
        ((blocks s).length * (blockSize + 3)) (blocks s) (hblocks s) merged
      obtain ⟨total, file', hrest, hfile'⟩ := ih (merged.1 + (blocks s).length * blockSize, file)
      refine ⟨total, file', ?_, fun i hi => hfile' i ?_⟩
      · rw [show (blocks s).length + (blocks s).length * (blockSize + 3) =
          (blocks s).length * (blockSize + 4) by ring, mergeBuffer_zero] at hrun
        simp only [Nat.add_zero] at hrun
        rw [List.map_cons, List.length_cons, mergeBuffers, bufferOf]
        simp only
        rw [hrun, Option.bind_some, hrest]
      · by_cases hmem : i / blockSize + 1 ∈ blocks s
        · left
          simp only
          rw [hbytes, if_pos hmem, hright s _ hmem _ (Nat.mod_lt i hpos), Nat.add_sub_cancel,
            Nat.div_add_mod']
        · rcases hi with hi | ⟨s', hs', hi⟩
          · left
            simp only
            rw [hbytes, if_neg hmem, hi]
          · right
            rcases List.mem_cons.mp hs' with rfl | hs'
            · exact absurd hi hmem
            · exact ⟨s', hs', hi⟩

/-- With fewer buffers than servers the merge does not return. -/
theorem mergeBuffers_of_length_lt {servers : Nat} (buffers : List (List UInt8 × Nat))
    (h : buffers.length < servers) (merged : Nat × Memory) :
    mergeBuffers fileSize blockSize servers buffers merged = none := by
  induction servers generalizing buffers merged with
  | zero => omega
  | succ servers ih =>
      cases buffers with
      | nil => rfl
      | cons buffer buffers =>
          rw [mergeBuffers, Option.bind_eq_none_iff]
          intro merged' _
          exact ih buffers (by simpa using h) merged'

/-- One buffer on which the inner loop fails is enough. -/
theorem mergeBuffers_of_fails {servers : Nat} (buffers : List (List UInt8 × Nat))
    {buffer : List UInt8 × Nat} (hmem : buffer ∈ buffers) (hlength : buffers.length ≤ servers)
    (hfails : ∀ merged, mergeBuffer fileSize blockSize buffer.2 buffer.1 buffer.2 merged = none)
    (merged : Nat × Memory) : mergeBuffers fileSize blockSize servers buffers merged = none := by
  induction buffers generalizing servers merged with
  | nil => cases hmem
  | cons first buffers ih =>
      cases servers with
      | zero => simp at hlength
      | succ servers =>
          rw [mergeBuffers]
          rcases List.mem_cons.mp hmem with rfl | hmem
          · rw [hfails, Option.bind_none]
          · rw [Option.bind_eq_none_iff]
            intro merged' _
            exact ih hmem (by simpa using hlength) merged'

/-- A buffer of zeros is read as block 0, which has no place in the file. -/
theorem mergeBlock_zeros (hfile : fileSize < 2 ^ 63) (hpos : 0 < blockSize) {buffer : List UInt8}
    (hzero : ∀ x ∈ buffer, x = 0) (file : Memory) :
    mergeBlock fileSize blockSize buffer file = none := by
  have hbyte : (fun i => buffer.getD i 0) = fun _ => (0 : UInt8) := by
    funext i
    by_cases hi : i < buffer.length
    · rw [List.getD_eq_getElem _ _ hi, hzero _ (List.getElem_mem hi)]
    · rw [List.getD_eq_default _ _ (by omega)]
  have hnumber : int32 (Memory.loadNat (fun i => buffer.getD i 0) 0 4) = 0 := by
    rw [hbyte]
    decide
  have hmultiple : (2 ^ 64 : Int) ∣ blockSize + int64 ((0 - 1) * blockSize) := by
    have hdiff : (2 ^ 64 : Int) ∣ int64 ((0 - 1) * blockSize) - (0 - 1) * blockSize := by
      rw [int64]
      exact_mod_cast Int.dvd_bmod_sub_self
    convert hdiff using 1
    ring
  rw [mergeBlock]
  split
  next =>
    simp only [hnumber]
    rw [if_neg]
    rw [Int.emod_eq_zero_of_dvd hmultiple, if_neg (by omega)]
    rintro ⟨hlower, hupper, -⟩
    obtain ⟨k, hk⟩ := hmultiple
    omega
  next => rfl

/-- The last block of a file that ends inside of it, with zeros behind the end. -/
theorem mergeBuffer_partial {b : Nat} {data : List UInt8} (hpos : 0 < b)
    (hoffset : (b - 1) * blockSize < fileSize) (hinside : fileSize < b * blockSize)
    (hb : b < 2 ^ 31)
    (hdata : data.length = blockSize) (hfile : fileSize < 2 ^ 63) (hblock : blockSize < 2 ^ 64)
    (hzero : ∀ x ∈ data.drop (fileSize - (b - 1) * blockSize), x = 0) (fuel : Nat)
    (merged : Nat × Memory) :
    mergeBuffer fileSize blockSize fuel (Memory.natBytes 4 b ++ (data ++ [0]))
      (blockSize + 4) merged =
      none := by
  have hend := offset_add_blockSize hpos blockSize
  cases fuel with
  | zero => rfl
  | succ fuel =>
      rw [mergeBuffer, mergeBlock_append hpos hoffset hb hdata hfile hblock, Option.bind_some]
      have hcut : min blockSize (fileSize - (b - 1) * blockSize) =
          fileSize - (b - 1) * blockSize := by
        omega
      simp only [hcut]
      -- the rest of the block is taken for a further one
      have hrest : ∀ x ∈ (Memory.natBytes 4 b ++ (data ++ [0])).drop
          (4 + (fileSize - (b - 1) * blockSize)), x = 0 := by
        rw [← List.drop_drop, List.drop_left' (Memory.length_natBytes 4 b),
          List.drop_append_of_le_length (by omega)]
        intro x hx
        rcases List.mem_append.mp hx with hx | hx
        · exact hzero x hx
        · exact List.mem_singleton.mp hx
      rw [show blockSize + 3 + 1 - (4 + (fileSize - (b - 1) * blockSize)) =
        b * blockSize - fileSize - 1 + 1 by omega]
      cases fuel with
      | zero => rfl
      | succ fuel =>
          rw [mergeBuffer, mergeBlock_zeros hfile (by omega) hrest, Option.bind_none]

end Loops

/-! ## The keys of a file -/

section Keys

variable {uri : CString}

theorem stoi_natCast (b : Nat) :
    stoi (decimal b) = if b < 2 ^ 31 then some (b : Int) else none := by
  rw [stoi_decimal]
  by_cases hb : b < 2 ^ 31
  · rw [if_pos hb, if_pos (int32_of_fits (by omega) (by exact_mod_cast hb))]
  · rw [if_neg hb, if_neg]
    intro hfits
    have hlt := int32_lt b
    rw [hfits] at hlt
    exact hb (by exact_mod_cast hlt)

theorem drop_fromOn_blockKey (hdollar : '$' ∉ uri) (b : Int) :
    (fromOn '$' (blockKey uri b)).drop 1 = decimal b := by
  rw [blockKey, fromOn_append_cons hdollar, List.drop_one, List.tail_cons]

theorem extractNumber_blockKey (hdollar : '$' ∉ uri) (b : Nat) :
    extractNumber (blockKey uri b) = if b < 2 ^ 31 then some (b : Int) else none := by
  rw [extractNumber, if_pos (dollar_mem_blockKey uri b), drop_fromOn_blockKey hdollar, stoi_natCast]

theorem getBlockInformation_blockKey (hdollar : '$' ∉ uri) (number : Int) (b : Nat) :
    getBlockInformation number (blockKey uri b) = if b < 2 ^ 31 then some (b : Int) else none := by
  rw [getBlockInformation, if_pos (dollar_mem_blockKey uri b), drop_fromOn_blockKey hdollar,
    if_neg (decimal_ne_nil b), stoi_natCast]

namespace MapRecords

variable (records : MapRecords Block)

theorem appendBlocks_blocks (hdollar : '$' ∉ uri) (bs : List Nat) (number : Int) :
    records.appendBlocks number (bs.map fun b : Nat => blockKey uri b) =
      if ∀ b ∈ bs, b < 2 ^ 31 then
        some (bs.flatMap (chunk fun b => records.bytesOf (blockKey uri b)))
      else none := by
  induction bs generalizing number with
  | nil => simp [appendBlocks]
  | cons b bs ih =>
      rw [List.map_cons, appendBlocks, getBlockInformation_blockKey hdollar]
      by_cases hb : b < 2 ^ 31
      · rw [if_pos hb, Option.bind_some, ih]
        simp only [List.forall_mem_cons, hb, true_and]
        split
        next =>
          rw [Option.map_some, List.flatMap_cons, chunk, List.append_assoc,
            Int.emod_eq_of_lt (by omega) (by omega), Int.toNat_natCast]
        next => rfl
      · rw [if_neg hb, Option.bind_none, if_neg]
        exact fun h => hb (h b List.mem_cons_self)

theorem mem_collectKeys {key : CString} :
    key ∈ records.collectKeys uri ↔
      (records.get key).isSome ∧ isBlockZero key = false ∧ upTo '$' key = uri := by
  rw [collectKeys, List.mem_reverse, List.mem_filter, ExtTreeMap.mem_keys, get,
    ExtTreeMap.isSome_getElem?_iff_mem]
  simp

theorem nodup_collectKeys (uri : CString) : (records.collectKeys uri).Nodup := by
  rw [collectKeys, List.nodup_reverse]
  refine List.Nodup.filter _ ?_
  refine (ExtTreeMap.distinct_keys (t := records.buffer)).imp ?_
  intro key key' hne hsame
  exact hne (by rw [hsame]; exact ReflCmp.compare_self)

/-- The keys are sorted by their numbers, if these are of type `int`. -/
theorem sortKeys_blocks (hdollar : '$' ∉ uri) (bs : List Nat) :
    (∀ b ∈ bs, b < 2 ^ 31) → sortKeys (bs.map fun b : Nat => blockKey uri b) =
      some ((bs.insertionSort (· ≤ ·)).map fun b : Nat => blockKey uri b) := by
  intro hfits
  rw [sortKeys]
  split
  next hshort =>
    -- nothing is to be sorted
    rcases bs with _ | ⟨b, _ | ⟨b', bs⟩⟩
    · rfl
    · rfl
    · simp only [List.map_cons, List.length_cons] at hshort
      omega
  next =>
    rw [if_pos]
    · congr 1
      refine (List.map_insertionSort _ _ _ bs ?_).symm
      intro b hb b' hb'
      rw [extractNumber_blockKey hdollar, extractNumber_blockKey hdollar, if_pos (hfits b hb),
        if_pos (hfits b' hb'), Option.getD_some, Option.getD_some, Int.ofNat_le]
    · rw [List.all_map, List.all_eq_true]
      intro b hb
      rw [Function.comp_apply, extractNumber_blockKey hdollar, if_pos (hfits b hb),
        Option.isSome_some]

/-- A number that is no `int` makes `GetDataOfFile` throw, when the keys are sorted or later. -/
theorem sortKeys_bind_blocks (hdollar : '$' ∉ uri) (bs : List Nat) :
    (sortKeys (bs.map fun b : Nat => blockKey uri b)).bind (records.appendBlocks 0) =
      if ∀ b ∈ bs, b < 2 ^ 31 then
        some ((bs.insertionSort (· ≤ ·)).flatMap (chunk fun b => records.bytesOf (blockKey uri b)))
      else none := by
  by_cases hfits : ∀ b ∈ bs, b < 2 ^ 31
  · rw [sortKeys_blocks hdollar bs hfits, Option.bind_some, appendBlocks_blocks records hdollar,
      if_pos hfits, if_pos]
    intro b hb
    exact hfits b ((List.perm_insertionSort _ bs).mem_iff.mp hb)
  · rw [if_neg hfits, sortKeys]
    split
    next => rw [Option.bind_some, appendBlocks_blocks records hdollar, if_neg hfits]
    next =>
      rw [if_neg, Option.bind_none]
      intro hall
      refine hfits fun b hb => ?_
      have hsome := List.all_eq_true.mp hall _ (List.mem_map_of_mem hb)
      rw [extractNumber_blockKey hdollar] at hsome
      split at hsome
      next hb => exact hb
      next => cases hsome

end MapRecords

end Keys

/-! ## The buffers of the servers -/

namespace SnapshotFile

variable {f : SnapshotFile} {servers : Fin f.nServers → MapRecords Block}

/-- The bytes that a server has recorded for a block. -/
def payload (f : SnapshotFile) (servers : Fin f.nServers → MapRecords Block) (s : Fin f.nServers)
    (b : Nat) : List UInt8 :=
  (servers s).bytesOf (blockKey f.uri b)

theorem Stored.payload (hstored : f.Stored servers) {s : Fin f.nServers} {b : Nat}
    (hb : f.Holds s b) : (f.payload servers s b).length = f.blockSize ∧
      ∀ i < f.blockSize, (b - 1) * f.blockSize + i < f.bytes.length →
        (f.payload servers s b).getD i 0 = f.bytes.getD ((b - 1) * f.blockSize + i) 0 := by
  obtain ⟨block, hget, hsize, hdata⟩ := hstored.block s b hb
  have hbytes : f.payload servers s b = block.data.load 0 f.blockSize := by
    rw [SnapshotFile.payload, MapRecords.bytesOf, hget, Option.map_some, Option.getD_some, hsize]
  rw [hbytes]
  refine ⟨Memory.length_load, fun i hi hend => ?_⟩
  rw [Memory.getD_load hi, Nat.zero_add, hdata i hi hend]

theorem mem_blockList {s : Fin f.nServers} {b : Nat} : b ∈ f.blockList s ↔ f.Holds s b := by
  rw [blockList, List.mem_filter, List.mem_range, decide_eq_true_iff]
  refine and_iff_right_of_imp fun hb => ?_
  have hle := Nat.le_mul_of_pos_right (b - 1) f.blockSize_pos
  have hlt := hb.1.2
  omega

theorem length_eq_blockList {s : Fin f.nServers} {bs : List Nat} (hnodup : bs.Nodup)
    (hmem : ∀ b, b ∈ bs ↔ f.Holds s b) : bs.length = (f.blockList s).length := by
  refine ((List.perm_ext_iff_of_nodup hnodup (List.nodup_range.filter _)).mpr ?_).length_eq
  exact fun b => (hmem b).trans mem_blockList.symm

theorem le_last_of_isBlock {b : Nat} (hb : f.IsBlock b) :
    b ≤ (f.bytes.length - 1) / f.blockSize + 1 := by
  have hle : b - 1 ≤ (f.bytes.length - 1) / f.blockSize := by
    rw [Nat.le_div_iff_mul_le f.blockSize_pos]
    have hlt := hb.2
    omega
  omega

/-- A server has no more blocks than the file. -/
theorem length_le_last {s : Fin f.nServers} {bs : List Nat} (hnodup : bs.Nodup)
    (hmem : ∀ b, b ∈ bs ↔ f.Holds s b) :
    bs.length ≤ (f.bytes.length - 1) / f.blockSize + 1 := by
  have hsub : bs ⊆ List.range' 1 ((f.bytes.length - 1) / f.blockSize + 1) := by
    intro b hb
    have hblock := ((hmem b).mp hb).1
    have hle := le_last_of_isBlock hblock
    exact List.mem_range'_1.mpr ⟨hblock.1, by omega⟩
  have hle := (hnodup.subperm hsub).length_le
  rwa [List.length_range'] at hle

/-- The sizes of the blocks on a server do not wrap around. -/
theorem length_mul_blockSize_lt {s : Fin f.nServers} {bs : List Nat} (hnodup : bs.Nodup)
    (hmem : ∀ b, b ∈ bs ↔ f.Holds s b) : bs.length * f.blockSize < 2 ^ 64 := by
  have hlt := f.length_lt
  have hmul := Nat.mul_le_mul_right f.blockSize (length_le_last hnodup hmem)
  rw [Nat.succ_mul] at hmul
  by_cases hone : f.bytes.length - 1 < f.blockSize
  · rw [Nat.div_eq_of_lt hone, Nat.zero_mul, Nat.zero_add] at hmul
    exact hmul.trans_lt f.blockSize_lt
  · have hdiv := Nat.div_mul_le_self (f.bytes.length - 1) f.blockSize
    omega

/-- `GetDataOfFile` allocates enough for `n` blocks: no size wraps around. -/
def BufferFits (f : SnapshotFile) (n : Nat) : Prop :=
  n < 2 ^ 30 ∧ n * (f.blockSize + 4) + 1 < 2 ^ 64

instance (n : Nat) : Decidable (f.BufferFits n) :=
  inferInstanceAs (Decidable (_ ∧ _))

/-- The allocated buffer is large enough only if no size wraps around. -/
theorem allocated_iff (f : SnapshotFile) (n : Nat) :
    n * (f.blockSize + 4) + 1 ≤ (n * f.blockSize % 2 ^ 64 + 4 * n % 2 ^ 32 + 1) % 2 ^ 64 ↔
      f.BufferFits n := by
  rw [BufferFits, Nat.mul_add]
  have hblocks := Nat.mod_le (n * f.blockSize) (2 ^ 64)
  have hnumbers := Nat.mod_le (4 * n) (2 ^ 32)
  have hsum := Nat.mod_le (n * f.blockSize % 2 ^ 64 + 4 * n % 2 ^ 32 + 1) (2 ^ 64)
  have hlt := Nat.mod_lt (n * f.blockSize % 2 ^ 64 + 4 * n % 2 ^ 32 + 1) (Nat.two_pow_pos 64)
  generalize n * f.blockSize = size at *
  constructor
  · intro hfits
    have hextra := Nat.mod_lt (4 * n) (Nat.two_pow_pos 32)
    omega
  · rintro ⟨hnumber, hall⟩
    rw [Nat.mod_eq_of_lt (a := size) (by omega), Nat.mod_eq_of_lt (a := 4 * n) (by omega),
      Nat.mod_eq_of_lt (by omega)]
    omega

theorem size_of_bufferFits {n : Nat} (hfits : f.BufferFits n) :
    (n * f.blockSize % 2 ^ 64 + 4 * n % 2 ^ 32) % 2 ^ 64 = n * (f.blockSize + 4) := by
  obtain ⟨hnumber, hall⟩ := hfits
  rw [Nat.mul_add] at hall ⊢
  rw [Nat.mod_eq_of_lt (a := n * f.blockSize) (by omega), Nat.mod_eq_of_lt (a := 4 * n) (by omega),
    Nat.mod_eq_of_lt (by omega), Nat.mul_comm 4]

/-- What `GetDataOfFile` returns: for the blocks of the server, in their order. -/
theorem Stored.getDataOfFile (hstored : f.Stored servers) (hdollar : '$' ∉ f.uri)
    (s : Fin f.nServers) :
    ∃ bs : List Nat, bs.Pairwise (· < ·) ∧ (∀ b, b ∈ bs ↔ f.Holds s b) ∧
      (servers s).getDataOfFile f.uri =
        if bs = [] then some none
        else if (∀ b ∈ bs, b < 2 ^ 31) ∧ f.BufferFits bs.length then
          some (some (bufferOf f.blockSize (f.payload servers s) bs))
        else none := by
  let number : CString → Nat := fun key => (ofDecimal ((fromOn '$' key).drop 1)).toNat
  have hnumber : ∀ b : Nat, number (blockKey f.uri b) = b := by
    intro b
    simp only [number]
    rw [drop_fromOn_blockKey hdollar, ofDecimal_decimal, Int.toNat_natCast]
  have hkey : ∀ key ∈ (servers s).collectKeys f.uri, ∃ b : Nat, f.Holds s b ∧
      key = blockKey f.uri b := by
    intro key hmem
    obtain ⟨hsome, hzero, hname⟩ := (servers s).mem_collectKeys.mp hmem
    exact hstored.only s key hsome hname hzero
  let numbers := ((servers s).collectKeys f.uri).map number
  have hkeys : (servers s).collectKeys f.uri = numbers.map fun b : Nat => blockKey f.uri b := by
    simp only [numbers]
    rw [List.map_map]
    symm
    refine (List.map_congr_left fun key hmem => ?_).trans (List.map_id _)
    obtain ⟨b, -, rfl⟩ := hkey key hmem
    rw [Function.comp_apply, hnumber, id_eq]
  have hmem : ∀ b, b ∈ numbers ↔ f.Holds s b := by
    intro b
    constructor
    · intro hb
      obtain ⟨key, hmem, rfl⟩ := List.mem_map.mp hb
      obtain ⟨b, hholds, rfl⟩ := hkey key hmem
      rwa [hnumber]
    · intro hholds
      obtain ⟨block, hget, -⟩ := hstored.block s b hholds
      refine List.mem_map.mpr ⟨blockKey f.uri b, (servers s).mem_collectKeys.mpr ⟨?_, ?_, ?_⟩,
        hnumber b⟩
      · rw [hget]
        rfl
      · rw [isBlockZero_blockKey hdollar]
        simpa using hholds.1.1.ne'
      · exact upTo_blockKey hdollar b
  have hnodup : numbers.Nodup := by
    have hkeysNodup := (servers s).nodup_collectKeys f.uri
    rw [hkeys] at hkeysNodup
    exact hkeysNodup.of_map
  have hperm := List.perm_insertionSort (· ≤ ·) numbers
  have hsum : (((servers s).collectKeys f.uri).map (servers s).sizeOf).sum =
      numbers.length * f.blockSize := by
    rw [hkeys, List.map_map]
    have hsize : numbers.map ((servers s).sizeOf ∘ fun b : Nat => blockKey f.uri b) =
        List.replicate numbers.length f.blockSize := by
      rw [List.eq_replicate_iff]
      refine ⟨List.length_map .., fun size hsize => ?_⟩
      obtain ⟨b, hb, rfl⟩ := List.mem_map.mp hsize
      obtain ⟨block, hget, hsize, -⟩ := hstored.block s b ((hmem b).mp hb)
      rw [Function.comp_apply, MapRecords.sizeOf, hget, Option.map_some, Option.getD_some, hsize]
    rw [hsize, List.sum_replicate_nat]
  refine ⟨numbers.insertionSort (· ≤ ·), ?_, fun b => hperm.mem_iff.trans (hmem b), ?_⟩
  · have hsorted := List.pairwise_insertionSort (· ≤ ·) numbers
    refine (hsorted.and (hperm.nodup_iff.mpr hnodup)).imp ?_
    intro b b' h
    exact Nat.lt_of_le_of_ne h.1 h.2
  · rw [MapRecords.getDataOfFile]
    simp only [hsum]
    by_cases hnone : numbers = []
    · rw [hnone]
      simp
    · have hlength : 0 < numbers.length := List.length_pos_iff.mpr hnone
      have hsorted : numbers.insertionSort (· ≤ ·) ≠ [] := by
        rw [← List.length_pos_iff, hperm.length_eq]
        exact hlength
      have hsum : numbers.length * f.blockSize % 2 ^ 64 ≠ 0 := by
        rw [Nat.mod_eq_of_lt (length_mul_blockSize_lt hnodup hmem)]
        exact (Nat.mul_pos hlength f.blockSize_pos).ne'
      have hcount : ((servers s).collectKeys f.uri).length = numbers.length :=
        (List.length_map number).symm
      rw [if_neg hsum, if_neg hsorted, hcount, hkeys, (servers s).sortKeys_bind_blocks hdollar]
      simp only [hperm.mem_iff, hperm.length_eq]
      by_cases hfits : ∀ b ∈ numbers, b < 2 ^ 31
      · have hwritten := length_flatMap_chunk fun b hb =>
          (hstored.payload ((hmem b).mp (hperm.mem_iff.mp hb))).1
        rw [hperm.length_eq] at hwritten
        rw [if_pos hfits, Option.bind_some]
        refine if_ctx_congr ?_ (fun hbuffer => ?_) fun _ => rfl
        · rw [show chunk (fun b : Nat => (servers s).bytesOf (blockKey f.uri b)) =
            chunk (f.payload servers s) from rfl, hwritten, allocated_iff]
          exact (and_iff_right hfits).symm
        · rw [bufferOf, hperm.length_eq, size_of_bufferFits hbuffer.2]
          rfl
      · rw [if_neg hfits, if_neg fun h => hfits h.1]
        rfl

/-! ## The whole file -/

/-- When a snapshot of the file is right: there are bytes, the name has no `$`, the numbers of the
blocks are of type `int`, each server has a block and not so many that the space for their numbers
is no `uint32_t`, and the file ends with a block. -/
def Mergeable (f : SnapshotFile) : Prop :=
  0 < f.bytes.length ∧ '$' ∉ f.uri ∧ (f.bytes.length - 1) / f.blockSize + 1 < 2 ^ 31 ∧
    (∀ s, f.blockList s ≠ [] ∧ (f.blockList s).length < 2 ^ 30) ∧ f.blockSize ∣ f.bytes.length

/-- The number of the last block. -/
theorem isBlock_last (hpos : 0 < f.bytes.length) :
    f.IsBlock ((f.bytes.length - 1) / f.blockSize + 1) := by
  refine ⟨Nat.succ_pos _, ?_⟩
  rw [Nat.add_sub_cancel]
  have hle := Nat.div_mul_le_self (f.bytes.length - 1) f.blockSize
  omega

/-- All blocks are whole if the file ends with a block. -/
theorem mul_le_of_isBlock (hend : f.blockSize ∣ f.bytes.length) {b : Nat} (hb : f.IsBlock b) :
    b * f.blockSize ≤ f.bytes.length := by
  obtain ⟨n, hn⟩ := hend
  have hlt := hb.2
  rw [hn, Nat.mul_comm] at hlt
  have hle : b ≤ n := by
    have := Nat.lt_of_mul_lt_mul_left hlt
    omega
  rw [hn, Nat.mul_comm f.blockSize]
  exact Nat.mul_le_mul_right _ hle

theorem exists_holds (f : SnapshotFile) {b : Nat} (hb : f.IsBlock b) : ∃ s, f.Holds s b := by
  obtain ⟨s, hs⟩ := f.complete b hb.2 hb.1
  exact ⟨s, hb, hs⟩

theorem mapM_of_forall_some {ι α : Type} {g : ι → Option α} {h : ι → α} (hg : ∀ s, g s = some (h s))
    (order : List ι) : order.mapM g = some (order.map h) := by
  rw [show g = fun s => pure (h s) from funext hg, List.mapM_pure]
  rfl

/-- Under these conditions every order of the buffers gives the file. -/
theorem reconstructs_of_mergeable (h : f.Mergeable) : f.Reconstructs := by
  obtain ⟨hpos, hdollar, hlast, hall, hend⟩ := h
  intro servers hstored order horder fresh
  choose blocks hsorted hmem hdata using hstored.getDataOfFile hdollar
  have hwhole : ∀ s, ∀ b ∈ blocks s, (0 < b ∧ b * f.blockSize ≤ f.bytes.length ∧ b < 2 ^ 31) ∧
      (f.payload servers s b).length = f.blockSize := by
    intro s b hb
    have hholds := (hmem s b).mp hb
    refine ⟨⟨hholds.1.1, ?_, (le_last_of_isBlock hholds.1).trans_lt hlast⟩,
      (hstored.payload hholds).1⟩
    exact mul_le_of_isBlock hend hholds.1
  have hright : ∀ s, ∀ b ∈ blocks s, ∀ i < f.blockSize, (f.payload servers s b).getD i 0 =
      f.bytes.getD ((b - 1) * f.blockSize + i) 0 := by
    intro s b hb i hi
    refine (hstored.payload ((hmem s b).mp hb)).2 i hi ?_
    obtain ⟨hb, hle, -⟩ := (hwhole s b hb).1
    have hsplit := offset_add_blockSize hb f.blockSize
    omega
  have hbuffers : ∀ s, (servers s).getDataOfFile f.uri =
      some (some (bufferOf f.blockSize (f.payload servers s) (blocks s))) := by
    intro s
    obtain ⟨hne, hnumber⟩ := hall s
    have hnodup : (blocks s).Nodup := (hsorted s).imp Nat.ne_of_lt
    rw [← length_eq_blockList hnodup (hmem s)] at hnumber
    obtain ⟨b, hb⟩ := List.exists_mem_of_ne_nil _ hne
    have hblock := (hmem s b).mpr (mem_blockList.mp hb)
    rw [hdata, if_neg (List.ne_nil_of_mem hblock), if_pos]
    refine ⟨fun b hb => ((hwhole s b hb).1).2.2, hnumber, ?_⟩
    have hle := (Nat.mul_le_mul_right f.blockSize (length_le_last hnodup (hmem s))).trans
      (mul_le_of_isBlock hend (isBlock_last hpos))
    have hlt := f.length_lt
    rw [Nat.mul_add]
    omega
  have hservers : max 1 f.nServers = order.length := by
    obtain ⟨s, -⟩ := f.exists_holds (isBlock_last hpos)
    have hlength := horder.length_eq
    rw [List.length_finRange] at hlength
    have := s.2
    omega
  obtain ⟨total, file, hmerged, hfile⟩ := mergeBuffers_blocks f.length_lt f.blockSize_pos
    f.blockSize_lt f.bytes (f.payload servers) blocks hwhole hright order (0, fresh)
  refine ⟨total, file, ?_, fun i hi => hfile i (Or.inr ?_)⟩
  · rw [snapshot, mapM_of_forall_some hbuffers, Option.bind_some, mergeData, if_neg hpos.ne',
      hservers, List.filterMap_map]
    rw [← hmerged]
    congr 1
    exact congrFun List.filterMap_eq_map' order
  · have hblock : f.IsBlock (i / f.blockSize + 1) := by
      refine ⟨Nat.succ_pos _, ?_⟩
      rw [Nat.add_sub_cancel]
      exact (Nat.div_mul_le_self i f.blockSize).trans_lt hi
    obtain ⟨s, hs⟩ := f.exists_holds hblock
    exact ⟨s, horder.mem_iff.mpr (List.mem_finRange s), (hmem s _).mpr hs⟩

/-! ## A file with zeros behind its end -/

/-- A block with zeros behind the end of the file. -/
def zeroPaddedBlock (f : SnapshotFile) (b : Nat) : Block :=
  ⟨fun i => f.bytes.getD ((b - 1) * f.blockSize + i) 0, f.blockSize⟩

/-- The servers with such blocks and nothing else. -/
def zeroPadded (f : SnapshotFile) (s : Fin f.nServers) : MapRecords Block :=
  ⟨ExtTreeMap.ofList ((f.blockList s).map fun b : Nat => (blockKey f.uri b, f.zeroPaddedBlock b)),
    []⟩

theorem get_zeroPadded {s : Fin f.nServers} {b : Nat} (hb : f.Holds s b) :
    (f.zeroPadded s).get (blockKey f.uri b) = some (f.zeroPaddedBlock b) := by
  rw [MapRecords.get, zeroPadded]
  refine ExtTreeMap.getElem?_ofList_of_mem ReflCmp.compare_self ?_
    (List.mem_map.mpr ⟨b, mem_blockList.mpr hb, rfl⟩)
  rw [List.pairwise_map]
  refine (List.nodup_range.filter _).imp ?_
  intro b b' hne hsame
  have hkey := LawfulEqCmp.eq_of_compare hsame
  rw [blockKey_inj] at hkey
  exact hne (by exact_mod_cast hkey.2)

theorem stored_zeroPadded (f : SnapshotFile) : f.Stored f.zeroPadded := by
  refine ⟨fun s b hb => ⟨_, get_zeroPadded hb, rfl, fun _ _ _ => rfl⟩, fun s key hsome _ _ => ?_⟩
  rw [MapRecords.get, zeroPadded, ExtTreeMap.isSome_getElem?_iff_mem,
    ExtTreeMap.mem_ofList] at hsome
  simp only [List.map_map, List.contains_iff_mem] at hsome
  obtain ⟨b, hb, rfl⟩ := List.mem_map.mp hsome
  exact ⟨b, mem_blockList.mp hb, rfl⟩

theorem payload_zeroPadded {s : Fin f.nServers} {b : Nat} (hb : f.Holds s b) :
    f.payload f.zeroPadded s b = (f.zeroPaddedBlock b).data.load 0 f.blockSize := by
  rw [payload, MapRecords.bytesOf, get_zeroPadded hb, Option.map_some, Option.getD_some]
  rfl

theorem zero_of_mem_payload {s : Fin f.nServers} {b : Nat} (hb : f.Holds s b) :
    ∀ x ∈ (f.payload f.zeroPadded s b).drop (f.bytes.length - (b - 1) * f.blockSize), x = 0 := by
  rw [payload_zeroPadded hb]
  intro x hx
  obtain ⟨i, hi, rfl⟩ := List.mem_iff_getElem.mp hx
  rw [List.getElem_drop]
  simp only [Memory.load, List.getElem_map, List.getElem_range, zeroPaddedBlock]
  exact List.getD_eq_default _ _ (by omega)

/-- A name with a `$` is not the part of any key before its first `$`. -/
theorem getDataOfFile_of_dollar {uri : CString} (hdollar : '$' ∈ uri) (records : MapRecords Block) :
    records.getDataOfFile uri = some none := by
  have hkeys : records.collectKeys uri = [] := by
    apply List.eq_nil_iff_forall_not_mem.mpr
    intro key hkey
    have hname := (records.mem_collectKeys.mp hkey).2.2
    exact notMem_upTo '$' key (hname ▸ hdollar)
  rw [MapRecords.getDataOfFile, hkeys]
  rfl

theorem eq_filterMap_of_mapM {ι α : Type} {g : ι → Option α} {order : List ι} {results : List α}
    (h : order.mapM g = some results) :
    (∀ s ∈ order, (g s).isSome) ∧ results = order.filterMap g := by
  induction order generalizing results with
  | nil =>
      cases h
      simp
  | cons s order ih =>
      rw [List.mapM_cons] at h
      obtain ⟨x, hx, h⟩ := Option.bind_eq_some_iff.mp h
      obtain ⟨rest, hrest, h⟩ := Option.bind_eq_some_iff.mp h
      cases h
      obtain ⟨hsome, hresults⟩ := ih hrest
      refine ⟨List.forall_mem_cons.mpr ⟨by simp [hx], hsome⟩, ?_⟩
      rw [List.filterMap_cons_some hx, hresults]

/-- The buffer of a server with zeros behind the end of the file is not read to its end. -/
theorem mergeBuffer_fails {s : Fin f.nServers} {bs : List Nat} (hsorted : bs.Pairwise (· < ·))
    (hmem : ∀ b, b ∈ bs ↔ f.Holds s b) (hfits : ∀ b ∈ bs, b < 2 ^ 31) {b : Nat} (hb : b ∈ bs)
    (hinside : f.bytes.length < b * f.blockSize) (merged : Nat × Memory) :
    mergeBuffer f.bytes.length f.blockSize
        (bufferOf f.blockSize (f.payload f.zeroPadded s) bs).2
        (bufferOf f.blockSize (f.payload f.zeroPadded s) bs).1
        (bufferOf f.blockSize (f.payload f.zeroPadded s) bs).2 merged = none := by
  -- the block at the end of the file is the last one
  have hlast : ∀ b' ∈ bs, b' ≤ b := by
    intro b' hb'
    have hlt := ((hmem b').mp hb').1.2
    by_contra hlater
    have hle := Nat.mul_le_mul_right f.blockSize (show b ≤ b' - 1 by omega)
    omega
  obtain ⟨front, back, rfl⟩ := List.append_of_mem hb
  obtain ⟨-, hback, hfront⟩ := List.pairwise_append.mp hsorted
  have hnone : back = [] := by
    apply List.eq_nil_iff_forall_not_mem.mpr
    intro b' hb'
    have hle := hlast b' (List.mem_append_right _ (List.mem_cons_of_mem _ hb'))
    have hlt := (List.pairwise_cons.mp hback).1 b' hb'
    omega
  subst hnone
  have hholds := (hmem b).mp hb
  have hwhole : ∀ b' ∈ front, (0 < b' ∧ b' * f.blockSize ≤ f.bytes.length ∧ b' < 2 ^ 31) ∧
      (f.payload f.zeroPadded s b').length = f.blockSize := by
    intro b' hb'
    have hin : b' ∈ front ++ [b] := List.mem_append_left _ hb'
    have hholds' := (hmem b').mp hin
    have hlt := hfront b' hb' b List.mem_cons_self
    have hle := Nat.mul_le_mul_right f.blockSize (show b' ≤ b - 1 by omega)
    have hoffset := hholds.1.2
    exact ⟨⟨hholds'.1.1, by omega, hfits b' hin⟩, (f.stored_zeroPadded.payload hholds').1⟩
  obtain ⟨file, -, hrun⟩ := mergeBuffer_blocks f.length_lt f.blockSize_pos f.blockSize_lt
    (f.payload f.zeroPadded s) (chunk (f.payload f.zeroPadded s) b ++ [0]) (f.blockSize + 4)
    (front.length * (f.blockSize + 3) + (f.blockSize + 4)) front hwhole merged
  have hsize : (front.length + 1) * (f.blockSize + 4) =
      front.length * (f.blockSize + 4) + (f.blockSize + 4) := by ring
  have hfuel : front.length + (front.length * (f.blockSize + 3) + (f.blockSize + 4)) =
      front.length * (f.blockSize + 4) + (f.blockSize + 4) := by ring
  rw [hfuel] at hrun
  simp only [bufferOf]
  rw [List.flatMap_append, List.flatMap_singleton, List.append_assoc, List.length_append,
    List.length_singleton, hsize, hrun, chunk, List.append_assoc]
  exact mergeBuffer_partial hholds.1.1 hholds.1.2 hinside (hfits b hb)
    (f.stored_zeroPadded.payload hholds).1 f.length_lt f.blockSize_lt
    (zero_of_mem_payload hholds) _ _

/-- Each condition is needed, already if there are zeros behind the end of the file. -/
theorem mergeable_of_reconstructs (h : f.Reconstructs) : f.Mergeable := by
  obtain ⟨total, file, hsnapshot, -⟩ := h f.zeroPadded f.stored_zeroPadded
    (List.finRange f.nServers) (List.Perm.refl _) fun _ => 0
  rw [snapshot] at hsnapshot
  obtain ⟨results, hresults, hmerge⟩ := Option.bind_eq_some_iff.mp hsnapshot
  obtain ⟨hsome, rfl⟩ := eq_filterMap_of_mapM hresults
  rw [mergeData] at hmerge
  split at hmerge
  next => cases hmerge
  next hne =>
    have hpos : 0 < f.bytes.length := Nat.pos_of_ne_zero hne
    rw [List.filterMap_filterMap] at hmerge
    have hlength := List.length_filterMap_le
      (fun s => ((f.zeroPadded s).getDataOfFile f.uri).bind id) (List.finRange f.nServers)
    -- no server is without a buffer, or the merge waits
    have hbuffer : ∀ s, ((f.zeroPadded s).getDataOfFile f.uri).bind id ≠ none := by
      intro s hnull
      rw [mergeBuffers_of_length_lt] at hmerge
      · cases hmerge
      · have hless : ((List.finRange f.nServers).filterMap fun s =>
            ((f.zeroPadded s).getDataOfFile f.uri).bind id).length <
            (List.finRange f.nServers).length :=
          List.length_filterMap_lt_length_iff_exists.mpr ⟨s, List.mem_finRange s, hnull⟩
        rw [List.length_finRange] at hless
        exact hless.trans_le (Nat.le_max_right 1 f.nServers)
    obtain ⟨s, hs⟩ := f.exists_holds (isBlock_last hpos)
    have hdollar : '$' ∉ f.uri := by
      intro hdollar
      exact hbuffer s (by rw [getDataOfFile_of_dollar hdollar]; rfl)
    have hblocks : ∀ s, ∃ bs : List Nat, bs.Pairwise (· < ·) ∧ (∀ b, b ∈ bs ↔ f.Holds s b) ∧
        bs ≠ [] ∧ (∀ b ∈ bs, b < 2 ^ 31) ∧ bs.length < 2 ^ 30 ∧
          (f.zeroPadded s).getDataOfFile f.uri =
            some (some (bufferOf f.blockSize (f.payload f.zeroPadded s) bs)) := by
      intro s
      obtain ⟨bs, hsorted, hmem, hdata⟩ := f.stored_zeroPadded.getDataOfFile hdollar s
      have hbuffer := hbuffer s
      rw [hdata] at hbuffer ⊢
      by_cases hnil : bs = []
      · rw [if_pos hnil] at hbuffer
        exact absurd rfl hbuffer
      rw [if_neg hnil] at hbuffer ⊢
      by_cases hfits : (∀ b ∈ bs, b < 2 ^ 31) ∧ f.BufferFits bs.length
      · exact ⟨bs, hsorted, hmem, hnil, hfits.1, hfits.2.1, if_pos hfits⟩
      · rw [if_neg hfits] at hbuffer
        exact absurd rfl hbuffer
    have hall : ∀ s, f.blockList s ≠ [] ∧ (f.blockList s).length < 2 ^ 30 := by
      intro s
      obtain ⟨bs, hsorted, hmem, hne, -, hnumber, -⟩ := hblocks s
      have hlength := length_eq_blockList (hsorted.imp Nat.ne_of_lt) hmem
      rw [← List.length_pos_iff, hlength] at hne
      exact ⟨List.length_pos_iff.mp hne, hlength ▸ hnumber⟩
    obtain ⟨bs, hsorted, hmem, -, hfits, -, hdata⟩ := hblocks s
    have hlast := (hmem _).mpr hs
    refine ⟨hpos, hdollar, hfits _ hlast, hall, ?_⟩
    by_contra hend
    have hinside : f.bytes.length < ((f.bytes.length - 1) / f.blockSize + 1) * f.blockSize := by
      have hle := Nat.lt_mul_div_succ (f.bytes.length - 1) f.blockSize_pos
      rw [Nat.mul_comm]
      refine Nat.lt_of_le_of_ne (by omega) fun hsame => hend ?_
      exact ⟨_, hsame⟩
    rw [mergeBuffers_of_fails _ _ _ (mergeBuffer_fails hsorted hmem hfits hlast hinside)] at hmerge
    · cases hmerge
    · refine List.mem_filterMap.mpr ⟨s, List.mem_finRange s, ?_⟩
      rw [hdata]
      rfl
    · rw [List.length_finRange] at hlength
      exact hlength.trans (Nat.le_max_right 1 f.nServers)

/-- The snapshot reconstructs the file under these conditions and no others. -/
theorem reconstructs_iff (f : SnapshotFile) : f.Reconstructs ↔ f.Mergeable :=
  ⟨mergeable_of_reconstructs, reconstructs_of_mergeable⟩

/-- A file of five bytes in blocks of four, on one server. -/
def exampleSnapshot : SnapshotFile where
  uri := exampleFile.1
  bytes := [1, 2, 3, 4, 5]
  blockSize := 4
  nServers := 1
  holds := fun _ _ => true
  length_lt := by decide
  blockSize_pos := by decide
  blockSize_lt := by decide
  complete := fun _ _ _ => ⟨⟨0, Nat.one_pos⟩, rfl⟩

/-- The server has stored two blocks, the second one with zeros behind its first byte. The merge
takes these for the number of a block. -/
theorem not_reconstructs : ¬ exampleSnapshot.Reconstructs := by
  intro h
  obtain ⟨total, file, hsnapshot, -⟩ :=
    h exampleSnapshot.zeroPadded exampleSnapshot.stored_zeroPadded
    (List.finRange 1) (List.Perm.refl _) fun _ => 0
  have hnone : (exampleSnapshot.snapshot exampleSnapshot.zeroPadded (List.finRange 1)
      fun _ => 0).isNone = true := by
    decide +kernel
  rw [hsnapshot] at hnone
  cases hnone

end SnapshotFile

end Hercules
