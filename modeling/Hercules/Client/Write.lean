/-
# Writes

`imss_write` splits a byte range into blocks, and `set_data` sends one request
per replica for each of them. The first function computes the last block with a
division in double precision, and the second one still changes the length of an
empty request, so the requests on the wire are those of both together.
-/

import Mathlib.Tactic.Linarith
import Hercules.Lib.Binary64
import Hercules.Lib.Tiling
import Hercules.Policies
import Hercules.Stat

namespace Hercules.Client

open Lib

/-! ## Splitting a range -/

/-- One call of `set_data`: the bytes from position `pos` of the caller's buffer
go to `offset` of block `block`. -/
structure BlockWrite where
  block : Nat
  bytes : Nat
  offset : Nat
  pos : Nat
  deriving DecidableEq

/-- `size - bytes_stored` in `uint64_t`. -/
def restToCopy (size bytesStored : Nat) : Nat :=
  (((size : Int) - bytesStored) % 2 ^ 64).toNat

/-- The `while` loop after the first block; the counter is
`end_blk + 1 - curr_blk`. -/
def imssWriteLoop (blockSize size endBlk : Nat) : Nat → Nat → Nat → List BlockWrite
  | 0, _, _ => []
  | n + 1, currBlk, bytesStored =>
      if currBlk = endBlk then
        if size = bytesStored then []
        else
          ⟨currBlk, restToCopy size bytesStored, 0, bytesStored⟩ ::
            imssWriteLoop blockSize size endBlk n (currBlk + 1)
              (bytesStored + restToCopy size bytesStored)
      else
        ⟨currBlk, blockSize, 0, bytesStored⟩ ::
          imssWriteLoop blockSize size endBlk n (currBlk + 1) (bytesStored + blockSize)

/-- `end_blk`: the sum is a `size_t`, the quotient a `double`. -/
def writeEndBlk (blockSize size off : Nat) : Nat :=
  Binary64.ceilDiv ((off + size) % 2 ^ 64) blockSize

/-- The calls of `set_data` that `imss_write` makes, in order, as long as none
fails. The first block may start at an offset. -/
def imssWriteCalls (blockSize size off : Nat) : List BlockWrite :=
  let endBlk := writeEndBlk blockSize size off
  let startBlk := off / blockSize + 1
  let startOffset := off % blockSize
  match endBlk + 1 - startBlk with
  | 0 => []
  | n + 1 =>
      ⟨startBlk, min size (blockSize - startOffset), startOffset, 0⟩ ::
        imssWriteLoop blockSize size endBlk n (startBlk + 1) (min size (blockSize - startOffset))

/-! ## Requests on the wire -/

/-- What `SET length offset uri$block` tells a data server; `copy` is the replica
for which it is sent. -/
structure SetRequest where
  copy : Nat
  server : Nat
  block : Int
  offset : Nat
  length : Nat
  deriving DecidableEq

/-- The length that `set_data` announces: block 0 is a `struct stat`, and an
empty request becomes one for a whole data element. -/
def setDataLength (dataEntitySize : Nat) (dataId : Int) (size : Nat) : Nat :=
  if dataId = 0 then sizeofStat else if size = 0 then dataEntitySize else size

/-- The requests of one call of `set_data`, one for each replica. -/
def setDataRequests (nStorages replFactor dataEntitySize first : Nat) (dataId : Int)
    (size offset : Nat) : List SetRequest :=
  (List.range replFactor).map fun i =>
    ⟨i, replicaServer nStorages replFactor first i, dataId, offset,
      setDataLength dataEntitySize dataId size⟩

/-- The requests of `imss_write`: `data_id` is an `int32_t`, and a block without
location ends the write. -/
def imssWriteRequests (nStorages replFactor dataEntitySize : Nat) (location : Int → Option Nat) :
    List BlockWrite → List SetRequest
  | [] => []
  | call :: calls =>
      match location (int32 call.block) with
      | none => []
      | some first =>
          setDataRequests nStorages replFactor dataEntitySize first (int32 call.block) call.bytes
            call.offset ++
            imssWriteRequests nStorages replFactor dataEntitySize location calls

/-! ## Partitions of the range -/

/-- The first byte of the file that a request writes. -/
def SetRequest.start (blockSize : Nat) (request : SetRequest) : Int :=
  (request.block - 1) * blockSize + request.offset

/-- A request for a data block that stays inside it. -/
def SetRequest.Inside (blockSize : Nat) (request : SetRequest) : Prop :=
  1 ≤ request.block ∧ request.offset + request.length ≤ blockSize

/-- A request writes byte `p` of the file. -/
def SetRequest.Covers (blockSize : Nat) (p : Int) (request : SetRequest) : Prop :=
  request.start blockSize ≤ p ∧ p < request.start blockSize + request.length

instance (blockSize : Nat) (p : Int) : DecidablePred (SetRequest.Covers blockSize p) :=
  fun _ => inferInstanceAs (Decidable (_ ∧ _))

/-- For each replica the requests partition `[off, off + size)`: each byte of the
range is written once, no other byte is, and no request leaves its block. -/
def PartitionsRange (blockSize replFactor size off : Nat) (requests : List SetRequest) : Prop :=
  ∀ i < replFactor,
    (∀ request ∈ requests.filter (·.copy = i), request.Inside blockSize) ∧
      ∀ p : Int, (requests.filter (·.copy = i)).countP (SetRequest.Covers blockSize p ·) =
        if (off : Int) ≤ p ∧ p < off + size then 1 else 0

/-! ### From requests back to calls -/

section Wire

variable {nStorages replFactor blockSize : Nat} {location : Int → Option Nat}

/-- The request for copy `i` of one call. -/
def BlockWrite.request (nStorages replFactor blockSize : Nat) (location : Int → Option Nat)
    (i : Nat) (call : BlockWrite) : SetRequest :=
  ⟨i, replicaServer nStorages replFactor ((location (int32 call.block)).getD 0) i,
    int32 call.block, call.offset, setDataLength blockSize (int32 call.block) call.bytes⟩

/-- If every block has a location, each replica sees one request per call. -/
theorem filter_imssWriteRequests {i : Nat} (hi : i < replFactor) {calls : List BlockWrite}
    (hlocated : ∀ call ∈ calls, (location (int32 call.block)).isSome) :
    (imssWriteRequests nStorages replFactor blockSize location calls).filter (·.copy = i) =
      calls.map (BlockWrite.request nStorages replFactor blockSize location i) := by
  induction calls with
  | nil => rfl
  | cons call calls ih =>
      obtain ⟨first, hfirst⟩ := Option.isSome_iff_exists.mp (hlocated call (by simp))
      have hcopy : (setDataRequests nStorages replFactor blockSize first (int32 call.block)
          call.bytes call.offset).filter (·.copy = i) =
          [call.request nStorages replFactor blockSize location i] := by
        rw [setDataRequests, List.filter_map]
        have hcomp : (fun request : SetRequest => decide (request.copy = i)) ∘
            (fun j => (⟨j, replicaServer nStorages replFactor first j, int32 call.block,
              call.offset, setDataLength blockSize (int32 call.block) call.bytes⟩ : SetRequest)) =
            fun j => decide (j = i) := rfl
        rw [hcomp, List.filter_eq, List.count_eq_one_of_mem List.nodup_range (by simpa using hi)]
        simp [BlockWrite.request, hfirst]
      simp only [imssWriteRequests, hfirst, List.filter_append, hcopy, List.map_cons,
        List.singleton_append]
      rw [ih fun c hc => hlocated c (List.mem_cons_of_mem _ hc)]

/-- The first byte that a call writes, once its block number is an `int32_t`. -/
def BlockWrite.start (blockSize : Nat) (call : BlockWrite) : Int :=
  (int32 call.block - 1) * blockSize + call.offset

/-- The number of bytes a call writes. -/
def BlockWrite.length (blockSize : Nat) (call : BlockWrite) : Nat :=
  setDataLength blockSize (int32 call.block) call.bytes

theorem BlockWrite.request_inside (i : Nat) (call : BlockWrite) :
    (call.request nStorages replFactor blockSize location i).Inside blockSize ↔
      1 ≤ int32 call.block ∧ call.offset + call.length blockSize ≤ blockSize := by
  simp only [SetRequest.Inside, BlockWrite.request, BlockWrite.length]

theorem BlockWrite.request_covers (i : Nat) (call : BlockWrite) (p : Int) :
    SetRequest.Covers blockSize p (call.request nStorages replFactor blockSize location i) ↔
      call.start blockSize ≤ p ∧ p < call.start blockSize + call.length blockSize := by
  simp only [SetRequest.Covers, SetRequest.start, BlockWrite.request, BlockWrite.start,
    BlockWrite.length]

/-- The replicas see the same ranges, so the partition is one of the calls. -/
theorem partitionsRange_iff {size off : Nat} (hcopies : 0 < replFactor) {calls : List BlockWrite}
    (hlocated : ∀ call ∈ calls, (location (int32 call.block)).isSome) :
    PartitionsRange blockSize replFactor size off
        (imssWriteRequests nStorages replFactor blockSize location calls) ↔
      (∀ call ∈ calls, 1 ≤ int32 call.block ∧ call.offset + call.length blockSize ≤ blockSize) ∧
        ∀ p : Int,
          calls.countP (fun call => call.start blockSize ≤ p ∧
            p < call.start blockSize + call.length blockSize) =
            if (off : Int) ≤ p ∧ p < off + size then 1 else 0 := by
  have hcopy : ∀ i < replFactor,
      ((∀ request ∈ (imssWriteRequests nStorages replFactor blockSize location calls).filter
          (·.copy = i), request.Inside blockSize) ↔
        ∀ call ∈ calls, 1 ≤ int32 call.block ∧
          call.offset + call.length blockSize ≤ blockSize) ∧
      ∀ p : Int, ((imssWriteRequests nStorages replFactor blockSize location calls).filter
          (·.copy = i)).countP (SetRequest.Covers blockSize p ·) =
        calls.countP (fun call => call.start blockSize ≤ p ∧
          p < call.start blockSize + call.length blockSize) := by
    intro i hi
    rw [filter_imssWriteRequests hi hlocated]
    refine ⟨by simp only [List.forall_mem_map, BlockWrite.request_inside], ?_⟩
    intro p
    rw [List.countP_map]
    apply List.countP_congr
    intro call _
    simp only [Function.comp_apply, decide_eq_true_eq, BlockWrite.request_covers]
  constructor
  · intro h
    obtain ⟨hinside, hcovers⟩ := h 0 hcopies
    obtain ⟨hcall, hcount⟩ := hcopy 0 hcopies
    exact ⟨hcall.mp hinside, fun p => (hcount p).symm.trans (hcovers p)⟩
  · rintro ⟨hinside, hcovers⟩ i hi
    obtain ⟨hcall, hcount⟩ := hcopy i hi
    exact ⟨hcall.mpr hinside, fun p => (hcount p).trans (hcovers p)⟩

end Wire

/-! ## Exactly when a write partitions its range -/

section Partition

variable {blockSize size off : Nat}

theorem BlockWrite.start_of_fits {call : BlockWrite} (hfits : call.block < 2 ^ 31) :
    call.start blockSize = ((call.block : Int) - 1) * blockSize + call.offset := by
  rw [BlockWrite.start, int32_of_fits (by omega) (by exact_mod_cast hfits)]

theorem BlockWrite.length_of_fits {call : BlockWrite} (hblock : 0 < call.block)
    (hfits : call.block < 2 ^ 31) (hbytes : 0 < call.bytes) :
    call.length blockSize = call.bytes := by
  rw [BlockWrite.length, setDataLength, int32_of_fits (by omega) (by exact_mod_cast hfits),
    if_neg (by omega), if_neg (by omega)]

/-- A call that is sent as it was made, starting at byte `p` of the file. -/
structure BlockWrite.Exact (blockSize : Nat) (p : Nat) (call : BlockWrite) : Prop where
  block_pos : 0 < call.block
  block_lt : call.block < 2 ^ 31
  bytes_pos : 0 < call.bytes
  inside : call.offset + call.bytes ≤ blockSize
  start_eq : (call.block - 1) * blockSize + call.offset = p

/-- Calls that follow each other from `p` to `q`. -/
def ExactCalls (blockSize : Nat) : Nat → List BlockWrite → Nat → Prop
  | p, [], q => p = q
  | p, call :: calls, q => call.Exact blockSize p ∧ ExactCalls blockSize (p + call.bytes) calls q

/-- Exact calls tile their range, each inside its block. -/
theorem ExactCalls.tiles {p q : Nat} {calls : List BlockWrite}
    (h : ExactCalls blockSize p calls q) :
    Tiles (BlockWrite.start blockSize) (BlockWrite.length blockSize) p calls q ∧
      ∀ call ∈ calls, 1 ≤ int32 call.block ∧
        call.offset + call.length blockSize ≤ blockSize := by
  induction calls generalizing p with
  | nil =>
      refine ⟨?_, by simp⟩
      exact congrArg Int.ofNat h
  | cons call calls ih =>
      obtain ⟨⟨hpos, hfits, hbytes, hinside, hstart⟩, hrest⟩ := h
      obtain ⟨htiles, hcalls⟩ := ih hrest
      have hlength : call.length blockSize = call.bytes :=
        BlockWrite.length_of_fits hpos hfits hbytes
      refine ⟨⟨?_, ?_⟩, ?_⟩
      · rw [BlockWrite.start_of_fits hfits, ← hstart]
        push_cast [Nat.cast_sub hpos]
        ring
      · rw [hlength]
        exact_mod_cast htiles
      · intro c hc
        rcases List.mem_cons.mp hc with rfl | hc
        · rw [hlength, int32_of_fits (by omega) (by exact_mod_cast hfits)]
          exact ⟨by omega, hinside⟩
        · exact hcalls c hc

/-- The loop completes a range that ends in block `endBlk`, or with the block
before it. -/
theorem imssWriteLoop_exact {endBlk : Nat} (hblock : 0 < blockSize) (hfits : endBlk ≤ 2 ^ 31)
    (hlower : (endBlk - 1) * blockSize ≤ off + size) (hupper : off + size ≤ endBlk * blockSize)
    (hlast : endBlk = 2 ^ 31 → off + size = (endBlk - 1) * blockSize) (hsize : size < 2 ^ 64)
    (n c bytesStored : Nat) (hend : c + 1 + n = endBlk)
    (hstored : off + bytesStored = c * blockSize) :
    ExactCalls blockSize (c * blockSize)
      (imssWriteLoop blockSize size endBlk (n + 1) (c + 1) bytesStored) (off + size) := by
  induction n generalizing c bytesStored with
  | zero =>
      rw [imssWriteLoop, if_pos (by omega)]
      rw [← hend, Nat.add_zero, Nat.add_sub_cancel] at hlower
      rw [← hend, Nat.add_zero, Nat.add_mul, Nat.one_mul] at hupper
      split
      next hdone =>
        show c * blockSize = off + size
        omega
      next hmore =>
        have hrest : restToCopy size bytesStored = size - bytesStored := by
          unfold restToCopy
          omega
        have hlt : c + 1 < 2 ^ 31 := by
          by_contra hge
          have heq := hlast (by omega)
          rw [← hend, Nat.add_zero, Nat.add_sub_cancel] at heq
          omega
        rw [hrest, imssWriteLoop]
        refine ⟨⟨by simp, hlt, ?_, ?_, by simp⟩, ?_⟩
        · show 0 < size - bytesStored
          omega
        · show 0 + (size - bytesStored) ≤ blockSize
          omega
        · show c * blockSize + (size - bytesStored) = off + size
          omega
  | succ n ih =>
      rw [imssWriteLoop, if_neg (by omega)]
      refine ⟨⟨by simp, by show c + 1 < 2 ^ 31; omega, hblock, by simp, by simp⟩, ?_⟩
      have hnext := ih (c + 1) (bytesStored + blockSize) (by omega)
        (by rw [Nat.add_mul, Nat.one_mul]; omega)
      rwa [Nat.add_mul, Nat.one_mul] at hnext

/-- The block of the last byte of a range. -/
def lastBlk (blockSize size off : Nat) : Nat :=
  (off + size - 1) / blockSize + 1

theorem lastBlk_bounds (hblock : 0 < blockSize) (hsize : 0 < size) (off : Nat) :
    (lastBlk blockSize size off - 1) * blockSize < off + size ∧
      off + size ≤ lastBlk blockSize size off * blockSize := by
  have hsplit := Nat.div_add_mod' (off + size - 1) blockSize
  have hmod := Nat.mod_lt (off + size - 1) hblock
  rw [lastBlk, Nat.add_sub_cancel, Nat.add_mul, Nat.one_mul]
  omega

theorem div_lt_lastBlk (hsize : 0 < size) (blockSize off : Nat) :
    off / blockSize < lastBlk blockSize size off :=
  Nat.lt_succ_of_le (Nat.div_le_div_right (by omega))

/-- A range that ends in its first block. -/
theorem lastBlk_eq_of_le (hblock : 0 < blockSize) (hsize : 0 < size)
    (h : size ≤ blockSize - off % blockSize) :
    lastBlk blockSize size off = off / blockSize + 1 := by
  have hsplit := Nat.div_add_mod' off blockSize
  have hlast : off + size - 1 = off / blockSize * blockSize + (off % blockSize + size - 1) := by
    omega
  rw [lastBlk, hlast, div_block (by omega)]

/-- A range that goes on after its first block. -/
theorem lt_lastBlk_of_lt (hblock : 0 < blockSize) (h : blockSize - off % blockSize < size) :
    off / blockSize + 1 < lastBlk blockSize size off := by
  have hsplit := Nat.div_add_mod' off blockSize
  have hmod := Nat.mod_lt off hblock
  refine Nat.succ_lt_succ ((Nat.le_div_iff_mul_le hblock).mpr ?_)
  rw [Nat.succ_mul]
  omega

/-- The computed end block is the block of the last byte, or the next one when
the loop stops before it. -/
def EndBlkRight (blockSize size off : Nat) : Prop :=
  writeEndBlk blockSize size off = lastBlk blockSize size off ∨
    writeEndBlk blockSize size off = lastBlk blockSize size off + 1 ∧
      (lastBlk blockSize size off = off / blockSize + 1 ∨
        off + size = lastBlk blockSize size off * blockSize)

/-- A write of at least one byte needs the right end block and block numbers that
are `int32_t`s; an empty write must not enter the loop. -/
def WriteCondition (blockSize size off : Nat) : Prop :=
  (size = 0 ∧ writeEndBlk blockSize size off ≤ off / blockSize) ∨
    (0 < size ∧ lastBlk blockSize size off < 2 ^ 31 ∧ EndBlkRight blockSize size off)

instance : Decidable (WriteCondition blockSize size off) :=
  inferInstanceAs (Decidable (_ ∧ _ ∨ _ ∧ _ ∧ (_ ∨ _ ∧ (_ ∨ _))))

theorem imssWriteCalls_of_le (h : writeEndBlk blockSize size off ≤ off / blockSize) :
    imssWriteCalls blockSize size off = [] := by
  have hcounter : writeEndBlk blockSize size off + 1 - (off / blockSize + 1) = 0 := by omega
  simp only [imssWriteCalls, hcounter]

theorem imssWriteCalls_of_eq {n : Nat}
    (h : writeEndBlk blockSize size off = off / blockSize + 1 + n) :
    imssWriteCalls blockSize size off =
      ⟨off / blockSize + 1, min size (blockSize - off % blockSize), off % blockSize, 0⟩ ::
        imssWriteLoop blockSize size (off / blockSize + 1 + n) n (off / blockSize + 1 + 1)
          (min size (blockSize - off % blockSize)) := by
  have hcounter : off / blockSize + 1 + n + 1 - (off / blockSize + 1) = n + 1 := by omega
  simp only [imssWriteCalls, h, hcounter]

/-- Under the condition the calls of a non-empty write follow each other from
`off` to `off + size`. -/
theorem imssWriteCalls_exact (hblock : 0 < blockSize) (hwidth : size < 2 ^ 64) (hsize : 0 < size)
    (hfits : lastBlk blockSize size off < 2 ^ 31) (hend : EndBlkRight blockSize size off) :
    ExactCalls blockSize off (imssWriteCalls blockSize size off) (off + size) := by
  have hsplit := Nat.div_add_mod' off blockSize
  have hmod := Nat.mod_lt off hblock
  obtain ⟨hlower, hupper⟩ := lastBlk_bounds hblock hsize off
  have hstart := div_lt_lastBlk hsize blockSize off
  obtain ⟨n, hn⟩ : ∃ n, writeEndBlk blockSize size off = off / blockSize + 1 + n := by
    refine ⟨writeEndBlk blockSize size off - off / blockSize - 1, ?_⟩
    rcases hend with heq | ⟨heq, -⟩ <;> omega
  rw [EndBlkRight, hn] at hend
  rw [imssWriteCalls_of_eq hn]
  refine ⟨⟨Nat.succ_pos _, by show off / blockSize + 1 < 2 ^ 31; omega,
    by show 0 < min size (blockSize - off % blockSize); omega,
    by show off % blockSize + min size (blockSize - off % blockSize) ≤ blockSize; omega,
    by rw [Nat.add_sub_cancel]; exact hsplit⟩, ?_⟩
  show ExactCalls blockSize (off + min size (blockSize - off % blockSize)) _ (off + size)
  by_cases hone : size ≤ blockSize - off % blockSize
  · have hlast := lastBlk_eq_of_le hblock hsize hone
    rw [Nat.min_eq_left hone]
    have hcases : n = 0 ∨ n = 1 := by omega
    rcases hcases with rfl | rfl
    · exact rfl
    · rw [imssWriteLoop, if_pos rfl, if_pos rfl]
      exact rfl
  · have hnext := lt_lastBlk_of_lt hblock (by omega : blockSize - off % blockSize < size)
    obtain ⟨m, rfl⟩ : ∃ m, n = m + 1 := ⟨n - 1, by omega⟩
    have hlast : (off / blockSize + 1) * blockSize = off + (blockSize - off % blockSize) := by
      rw [Nat.add_mul, Nat.one_mul]
      omega
    rw [Nat.min_eq_right (by omega), ← hlast]
    rcases hend with heq | ⟨heq, hstop⟩
    · rw [heq]
      exact imssWriteLoop_exact hblock (by omega) (le_of_lt hlower) hupper (by omega) hwidth m _ _
        (by omega) hlast.symm
    · have hfull : off + size = lastBlk blockSize size off * blockSize := by
        rcases hstop with hsame | hfull
        · omega
        · exact hfull
      rw [heq]
      refine imssWriteLoop_exact hblock (by omega) ?_ ?_ ?_ hwidth m _ _ (by omega) hlast.symm
      · rw [Nat.add_sub_cancel]
        omega
      · rw [Nat.add_mul]
        omega
      · intro _
        rw [Nat.add_sub_cancel]
        exact hfull

/-- A range that a double counts exactly needs no more than block numbers that are
`int32_t`s. -/
theorem endBlkRight_of_exact (hblock : 0 < blockSize) (hexact : off + size < 2 ^ 53)
    (hsize : 0 < size) : EndBlkRight blockSize size off := by
  left
  have hsum : off + size + blockSize - 1 = off + size - 1 + blockSize := by omega
  rw [writeEndBlk, Nat.mod_eq_of_lt (by omega), Binary64.ceilDiv_eq hexact hblock, hsum,
    Nat.add_div_right _ hblock, lastBlk]

/-! ### The caller's buffer -/

/-- The calls take the bytes of the buffer one after the other, from `pos` on. -/
def Consecutive : Nat → List BlockWrite → Prop
  | _, [] => True
  | pos, call :: calls => call.pos = pos ∧ Consecutive (pos + call.bytes) calls

theorem imssWriteLoop_consecutive (blockSize size endBlk n currBlk bytesStored : Nat) :
    Consecutive bytesStored (imssWriteLoop blockSize size endBlk n currBlk bytesStored) := by
  induction n generalizing currBlk bytesStored with
  | zero => trivial
  | succ n ih =>
      rw [imssWriteLoop]
      split
      · split
        · trivial
        · exact ⟨rfl, ih _ _⟩
      · exact ⟨rfl, ih _ _⟩

theorem imssWriteCalls_consecutive (blockSize size off : Nat) :
    Consecutive 0 (imssWriteCalls blockSize size off) := by
  simp only [imssWriteCalls]
  split
  · trivial
  · refine ⟨rfl, ?_⟩
    rw [Nat.zero_add]
    exact imssWriteLoop_consecutive _ _ _ _ _ _

theorem offset_imssWriteLoop {endBlk n currBlk bytesStored : Nat} :
    ∀ call ∈ imssWriteLoop blockSize size endBlk n currBlk bytesStored, call.offset = 0 := by
  induction n generalizing currBlk bytesStored with
  | zero => simp [imssWriteLoop]
  | succ n ih =>
      rw [imssWriteLoop]
      split
      · split
        · simp
        · simpa using ih
      · simpa using ih

/-- Only the first block may start at an offset. -/
theorem offset_imssWriteCalls {call : BlockWrite} (h : call ∈ imssWriteCalls blockSize size off) :
    call.offset = off % blockSize ∨ call.offset = 0 := by
  simp only [imssWriteCalls] at h
  split at h
  · cases h
  · rcases List.mem_cons.mp h with rfl | hrest
    · exact Or.inl rfl
    · exact Or.inr (offset_imssWriteLoop call hrest)

/-- The number of bytes that exact calls store. -/
theorem ExactCalls.add_sum_bytes {p q : Nat} {calls : List BlockWrite}
    (h : ExactCalls blockSize p calls q) : p + (calls.map BlockWrite.bytes).sum = q := by
  induction calls generalizing p with
  | nil => exact h
  | cons call calls ih =>
      have hrest := ih h.2
      rw [List.map_cons, List.sum_cons]
      omega

/-! ### Necessity -/

/-- Every block strictly before the end block is written whole. -/
theorem mem_imssWriteLoop_middle {endBlk b : Nat} (hb : b < endBlk) (n currBlk bytesStored : Nat)
    (hcounter : currBlk + n = endBlk + 1) (hstart : currBlk ≤ b) :
    ⟨b, blockSize, 0, bytesStored + (b - currBlk) * blockSize⟩ ∈
      imssWriteLoop blockSize size endBlk n currBlk bytesStored := by
  induction n generalizing currBlk bytesStored with
  | zero => omega
  | succ n ih =>
      rw [imssWriteLoop, if_neg (by omega)]
      by_cases hfirst : currBlk = b
      · subst hfirst
        simp
      · have hrest := ih (currBlk + 1) (bytesStored + blockSize) (by omega) (by omega)
        have hsub : b - currBlk = b - (currBlk + 1) + 1 := by omega
        rw [hsub, Nat.add_mul, Nat.one_mul, Nat.add_comm (_ * _), ← Nat.add_assoc]
        exact List.mem_cons_of_mem _ hrest

/-- The end block takes what the blocks before it have left. -/
theorem mem_imssWriteLoop_end (endBlk n currBlk bytesStored : Nat)
    (hcounter : currBlk + n = endBlk + 1) (hstart : currBlk ≤ endBlk)
    (hmore : size ≠ bytesStored + (endBlk - currBlk) * blockSize) :
    ⟨endBlk, restToCopy size (bytesStored + (endBlk - currBlk) * blockSize), 0,
        bytesStored + (endBlk - currBlk) * blockSize⟩ ∈
      imssWriteLoop blockSize size endBlk n currBlk bytesStored := by
  induction n generalizing currBlk bytesStored with
  | zero => omega
  | succ n ih =>
      rw [imssWriteLoop]
      by_cases hlast : currBlk = endBlk
      · subst hlast
        rw [Nat.sub_self, Nat.zero_mul, Nat.add_zero] at hmore ⊢
        rw [if_pos rfl, if_neg hmore]
        exact List.mem_cons_self
      · have hsub : endBlk - currBlk = endBlk - (currBlk + 1) + 1 := by omega
        have hsum : bytesStored + (endBlk - currBlk) * blockSize =
            bytesStored + blockSize + (endBlk - (currBlk + 1)) * blockSize := by
          rw [hsub, Nat.add_mul, Nat.one_mul]
          omega
        rw [hsum] at hmore ⊢
        rw [if_neg hlast]
        exact List.mem_cons_of_mem _ (ih _ _ (by omega) (by omega) hmore)

/-- What a partition says about each call: it stays inside a data block, and
inside the range; each byte of the range has a call. -/
structure CallsPartition (blockSize size off : Nat) (calls : List BlockWrite) : Prop where
  inside : ∀ call ∈ calls, 1 ≤ int32 call.block ∧
    call.offset + call.length blockSize ≤ blockSize
  count : ∀ p : Int, calls.countP (fun call => call.start blockSize ≤ p ∧
    p < call.start blockSize + call.length blockSize) =
      if (off : Int) ≤ p ∧ p < off + size then 1 else 0

theorem CallsPartition.covered {calls : List BlockWrite}
    (h : CallsPartition blockSize size off calls) {p : Int} (hlower : (off : Int) ≤ p)
    (hupper : p < off + size) :
    ∃ call ∈ calls, call.start blockSize ≤ p ∧
      p < call.start blockSize + call.length blockSize := by
  have hcount := h.count p
  rw [if_pos ⟨hlower, hupper⟩] at hcount
  obtain ⟨call, hmem, hcovers⟩ := List.countP_pos_iff.mp (hcount.symm ▸ Nat.one_pos)
  exact ⟨call, hmem, of_decide_eq_true hcovers⟩

theorem CallsPartition.not_covered {calls : List BlockWrite}
    (h : CallsPartition blockSize size off calls) {call : BlockWrite} (hcall : call ∈ calls)
    {p : Int} (hcovers : call.start blockSize ≤ p ∧
      p < call.start blockSize + call.length blockSize) : (off : Int) ≤ p ∧ p < off + size := by
  by_contra hout
  have hcount := h.count p
  rw [if_neg hout, List.countP_eq_zero] at hcount
  exact hcount call hcall (decide_eq_true hcovers)

/-- An empty write that enters the loop sends a whole data element. -/
theorem endBlk_le_of_empty (hblock : 0 < blockSize)
    (h : CallsPartition blockSize 0 off (imssWriteCalls blockSize 0 off)) :
    writeEndBlk blockSize 0 off ≤ off / blockSize := by
  by_contra hlt
  obtain ⟨n, hn⟩ : ∃ n, writeEndBlk blockSize 0 off = off / blockSize + 1 + n :=
    ⟨writeEndBlk blockSize 0 off - off / blockSize - 1, by omega⟩
  rw [imssWriteCalls_of_eq hn, Nat.zero_min] at h
  obtain ⟨hpos, hinside⟩ := h.inside _ List.mem_cons_self
  have hlength : BlockWrite.length blockSize ⟨off / blockSize + 1, 0, off % blockSize, 0⟩ =
      blockSize := by
    rw [BlockWrite.length, setDataLength, if_neg (by omega), if_pos rfl]
  have hrange := h.not_covered List.mem_cons_self
    (p := BlockWrite.start blockSize ⟨off / blockSize + 1, 0, off % blockSize, 0⟩)
    (by rw [hlength]; omega)
  omega

/-- The block of the last byte is the block of some request. -/
theorem lastBlk_lt_of_partition (hsize : 0 < size)
    {calls : List BlockWrite} (h : CallsPartition blockSize size off calls) :
    lastBlk blockSize size off < 2 ^ 31 := by
  obtain ⟨call, hmem, hstart, hend⟩ := h.covered (p := ((off + size - 1 : Nat) : Int)) (by omega)
    (by omega)
  obtain ⟨hpos, hinside⟩ := h.inside call hmem
  have hfits := int32_lt call.block
  obtain ⟨b, hb⟩ : ∃ b : Nat, int32 call.block = b + 1 := ⟨(int32 call.block - 1).toNat, by omega⟩
  rw [BlockWrite.start, hb, add_sub_cancel_right] at hend
  have hlt : off + size - 1 < (b + 1) * blockSize := by
    rw [Nat.add_mul, Nat.one_mul]
    zify
    omega
  have hdiv : (off + size - 1) / blockSize < b + 1 :=
    Nat.div_lt_of_lt_mul (by rwa [Nat.mul_comm])
  rw [lastBlk]
  omega

theorem mem_imssWriteCalls_middle {n b : Nat}
    (hn : writeEndBlk blockSize size off = off / blockSize + 1 + n)
    (hlower : off / blockSize + 1 < b) (hupper : b < off / blockSize + 1 + n) :
    ∃ pos, ⟨b, blockSize, 0, pos⟩ ∈ imssWriteCalls blockSize size off := by
  rw [imssWriteCalls_of_eq hn]
  exact ⟨_, List.mem_cons_of_mem _ (mem_imssWriteLoop_middle hupper n _ _ (by omega) hlower)⟩

/-- A whole block that the loop writes lies inside the range. -/
theorem middle_inside {n b : Nat} (hblock : 0 < blockSize)
    (h : CallsPartition blockSize size off (imssWriteCalls blockSize size off))
    (hn : writeEndBlk blockSize size off = off / blockSize + 1 + n)
    (hlower : off / blockSize + 1 < b) (hupper : b < off / blockSize + 1 + n) (hb : b ≤ 2 ^ 31) :
    b * blockSize ≤ off + size := by
  obtain ⟨pos, hmem⟩ := mem_imssWriteCalls_middle hn hlower hupper
  have hpos : 1 < b := lt_of_le_of_lt (Nat.le_add_left 1 _) hlower
  have hlt : b < 2 ^ 31 := by
    by_contra hge
    have heq : b = 2 ^ 31 := by omega
    have hwrapped : ¬ 1 ≤ int32 ((2 ^ 31 : Nat) : Int) := by decide
    exact hwrapped (heq ▸ (h.inside _ hmem).1)
  have hfull : 1 * blockSize ≤ b * blockSize := Nat.mul_le_mul_right _ (by omega)
  have hlast := h.not_covered hmem (p := (b * blockSize - 1 : Nat)) (by
    rw [BlockWrite.start_of_fits hlt, BlockWrite.length_of_fits (by show 0 < b; omega) hlt hblock]
    push_cast [Nat.cast_sub (show 1 ≤ b * blockSize by omega)]
    constructor <;> linarith)
  omega

/-- An end block before the last byte leaves a byte out or overflows. -/
theorem not_lt_lastBlk {n : Nat} (hblock : 0 < blockSize) (hwidth : size < 2 ^ 64)
    (hsize : 0 < size)
    (h : CallsPartition blockSize size off (imssWriteCalls blockSize size off))
    (hn : writeEndBlk blockSize size off = off / blockSize + 1 + n) :
    ¬ off / blockSize + 1 + n < lastBlk blockSize size off := by
  intro hbefore
  have hfits := lastBlk_lt_of_partition hsize h
  obtain ⟨hlower, -⟩ := lastBlk_bounds hblock hsize off
  have hsplit := Nat.div_add_mod' off blockSize
  have hmod := Nat.mod_lt off hblock
  have hend : (off / blockSize + 1 + n) * blockSize < off + size :=
    (Nat.mul_le_mul_right _ (by omega)).trans_lt hlower
  rw [Nat.add_mul, Nat.add_mul, Nat.one_mul] at hend
  have hmin : min size (blockSize - off % blockSize) = blockSize - off % blockSize := by omega
  rw [imssWriteCalls_of_eq hn, hmin] at h
  cases n with
  | zero =>
      obtain ⟨call, hmem, hstart, hover⟩ := h.covered
        (p := ((off / blockSize * blockSize + blockSize : Nat) : Int)) (by omega) (by omega)
      rw [imssWriteLoop, List.mem_singleton] at hmem
      subst hmem
      rw [BlockWrite.start_of_fits (by show off / blockSize + 1 < 2 ^ 31; omega),
        BlockWrite.length_of_fits (Nat.succ_pos _) (by show off / blockSize + 1 < 2 ^ 31; omega)
          (by show 0 < blockSize - off % blockSize; omega)] at hover
      push_cast at hover
      rw [add_sub_cancel_right] at hover
      omega
  | succ n =>
      have hsub : off / blockSize + 1 + (n + 1) - (off / blockSize + 1 + 1) = n := by omega
      have hmem := mem_imssWriteLoop_end (off / blockSize + 1 + (n + 1)) (n + 1)
        (off / blockSize + 1 + 1) (blockSize - off % blockSize) (by omega)
        (Nat.add_le_add_left (Nat.le_add_left 1 n) _)
        (show size ≠ blockSize - off % blockSize +
          (off / blockSize + 1 + (n + 1) - (off / blockSize + 1 + 1)) * blockSize by
            rw [hsub]; rw [Nat.add_mul] at hend; omega)
      have hinside := (h.inside _ (List.mem_cons_of_mem _ hmem)).2
      have hrest : restToCopy size (blockSize - off % blockSize + n * blockSize) =
          size - (blockSize - off % blockSize + n * blockSize) := by
        rw [Nat.add_mul] at hend
        unfold restToCopy
        omega
      rw [hsub, hrest, BlockWrite.length_of_fits (Nat.succ_pos _)
        (by show off / blockSize + 1 + (n + 1) < 2 ^ 31; omega)
        (by show 0 < size - (blockSize - off % blockSize + n * blockSize)
            rw [Nat.add_mul] at hend
            omega)] at hinside
      have hover : 0 + (size - (blockSize - off % blockSize + n * blockSize)) ≤ blockSize := hinside
      rw [Nat.add_mul] at hend
      omega

/-- A partition needs the right end block. -/
theorem endBlkRight_of_partition (hblock : 0 < blockSize) (hwidth : size < 2 ^ 64)
    (hsize : 0 < size)
    (h : CallsPartition blockSize size off (imssWriteCalls blockSize size off)) :
    EndBlkRight blockSize size off := by
  have hfits := lastBlk_lt_of_partition hsize h
  obtain ⟨hlower, hupper⟩ := lastBlk_bounds hblock hsize off
  have hstart := div_lt_lastBlk hsize blockSize off
  have hsplit := Nat.div_add_mod' off blockSize
  have hmod := Nat.mod_lt off hblock
  have hle : off / blockSize < writeEndBlk blockSize size off := by
    by_contra hge
    obtain ⟨call, hmem, -⟩ := h.covered (p := off) (by omega) (by omega)
    rw [imssWriteCalls_of_le (by omega)] at hmem
    simp at hmem
  obtain ⟨n, hn⟩ : ∃ n, writeEndBlk blockSize size off = off / blockSize + 1 + n :=
    ⟨writeEndBlk blockSize size off - off / blockSize - 1, by omega⟩
  rw [EndBlkRight, hn]
  rcases Nat.lt_trichotomy (off / blockSize + 1 + n) (lastBlk blockSize size off) with
    hbefore | heq | hafter
  · exact absurd hbefore (not_lt_lastBlk hblock hwidth hsize h hn)
  · exact Or.inl heq
  · by_cases hnext : off / blockSize + 1 + n = lastBlk blockSize size off + 1
    · refine Or.inr ⟨hnext, ?_⟩
      by_cases hsame : lastBlk blockSize size off = off / blockSize + 1
      · exact Or.inl hsame
      · have hinside := middle_inside hblock h hn (b := lastBlk blockSize size off) (by omega)
          (by omega) (by omega)
        exact Or.inr (by omega)
    · have hinside := middle_inside hblock h hn (b := lastBlk blockSize size off + 1) (by omega)
        (by omega) (by omega)
      rw [Nat.add_mul] at hinside
      omega

/-- A write partitions its range, for each replica, exactly under the condition.
`size` is a `size_t`, and every block that the write touches has a location. -/
theorem imssWrite_partitions_iff {nStorages replFactor : Nat} {location : Int → Option Nat}
    (hblock : 0 < blockSize) (hcopies : 0 < replFactor) (hwidth : size < 2 ^ 64)
    (hlocated : ∀ call ∈ imssWriteCalls blockSize size off, (location (int32 call.block)).isSome) :
    PartitionsRange blockSize replFactor size off
        (imssWriteRequests nStorages replFactor blockSize location
          (imssWriteCalls blockSize size off)) ↔
      WriteCondition blockSize size off := by
  rw [partitionsRange_iff hcopies hlocated]
  constructor
  · rintro ⟨hinside, hcount⟩
    have h : CallsPartition blockSize size off (imssWriteCalls blockSize size off) :=
      ⟨hinside, hcount⟩
    by_cases hsize : size = 0
    · subst hsize
      exact Or.inl ⟨rfl, endBlk_le_of_empty hblock h⟩
    · exact Or.inr ⟨by omega, lastBlk_lt_of_partition (by omega) h,
        endBlkRight_of_partition hblock hwidth (by omega) h⟩
  · rintro (⟨rfl, hend⟩ | ⟨hsize, hfits, hend⟩)
    · rw [imssWriteCalls_of_le hend]
      refine ⟨by simp, fun p => ?_⟩
      rw [List.countP_nil, if_neg (by omega)]
    · obtain ⟨htiles, hinside⟩ :=
        (imssWriteCalls_exact hblock hwidth hsize hfits hend).tiles
      refine ⟨hinside, fun p => ?_⟩
      rw [htiles.countP_eq, Nat.cast_add]

/-- Where a double holds the sum exactly, the condition is one on the inputs
alone: a positive size and 31-bit block numbers, or an empty write at a block
boundary. -/
theorem writeCondition_iff_of_exact (hblock : 0 < blockSize) (hexact : off + size < 2 ^ 53) :
    WriteCondition blockSize size off ↔
      (size = 0 ∧ blockSize ∣ off) ∨ (0 < size ∧ lastBlk blockSize size off < 2 ^ 31) := by
  by_cases hsize : size = 0
  · subst hsize
    have hend : writeEndBlk blockSize 0 off = (off + 0 + blockSize - 1) / blockSize := by
      rw [writeEndBlk, Nat.mod_eq_of_lt (by omega), Binary64.ceilDiv_eq hexact hblock]
    rw [WriteCondition, hend, Nat.add_zero, ← Nat.lt_succ_iff, Nat.div_lt_iff_lt_mul hblock,
      Nat.succ_mul, Nat.dvd_iff_mod_eq_zero]
    have hsplit := Nat.div_add_mod' off blockSize
    have hboundary : off + blockSize - 1 < off / blockSize * blockSize + blockSize ↔
        off % blockSize = 0 := by
      omega
    simp [hboundary]
  · have hend := endBlkRight_of_exact hblock hexact (Nat.pos_of_ne_zero hsize)
    simp [WriteCondition, hend, hsize]

/-- With blocks of four bytes, an empty write at offset 1 sends a request for
bytes 1 to 4 of the first block, of which the block has three. -/
theorem not_partitions_empty_write :
    ¬ PartitionsRange 4 1 0 1
      (imssWriteRequests 1 1 4 (fun _ => some 0) (imssWriteCalls 4 0 1)) := by
  intro h
  have hinside := (h 0 (by decide)).1 ⟨0, 0, 1, 1, 4⟩ (by decide +kernel)
  exact absurd hinside.2 (by decide)

/-- Ten bytes at offset 3, in blocks of four bytes on two copies. -/
theorem partitions_ten_bytes :
    PartitionsRange 4 2 10 3
      (imssWriteRequests 5 2 4 (fun block => some (block.toNat % 5)) (imssWriteCalls 4 10 3)) :=
  (imssWrite_partitions_iff (by decide) (by decide) (by decide)
    (by simp)).mpr (by decide +kernel)

end Partition

end Hercules.Client
