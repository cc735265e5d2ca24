/-
# Synchronous reads

`imss_sread` splits a byte range into blocks and asks `get_ndata` for each of
them. The first block, the middle blocks and the last block are sized by
different rules, and only the first one is compared with the recorded size of
the file. `get_ndata` is a parameter here; the servers behind it come later.
-/

import Mathlib.Tactic.Linarith
import Hercules.Lib.Binary64
import Hercules.Lib.Memory
import Hercules.Policies

namespace Hercules.Client

open Lib

/-! ## The read loop -/

/-- `get_ndata` as its callers use it: `to_read` bytes at `offset` of block
`data_id` are received at position `pos` of the caller's buffer. The result is
the number of bytes, or negative, and the buffer afterwards. -/
abbrev GetNdata := (dataId : Int) → (toRead offset pos : Nat) → (buf : Memory) → Int × Memory

/-- How much of the first block is read, and whether that reaches the end of the
file. -/
def firstToRead (blockSize stSize size offset : Nat) : Nat × Bool :=
  let startOffset := offset % blockSize
  let toRead :=
    if size < stSize - startOffset ∧ size < blockSize then size
    else if stSize < blockSize then stSize - startOffset
    else blockSize - startOffset
  let toRead := if blockSize < startOffset + toRead then blockSize - startOffset else toRead
  if stSize < offset + toRead then (stSize - offset, true) else (toRead, false)

/-- The size of the current request and the value of `eof_found`: first, middle
and end block. -/
def sreadRequest (blockSize stSize size offset endBlk : Nat) (first : Bool)
    (currBlk byteCount : Nat) : Int × Bool :=
  if first then
    ((firstToRead blockSize stSize size offset).1, (firstToRead blockSize stSize size offset).2)
  else if currBlk ≠ endBlk then (blockSize, false)
  else ((size : Int) - byteCount, false)

/-- The `while` loop; the counter is `end_blk + 1 - curr_blk`. Block numbers are
passed to `get_ndata` as `int32_t`. -/
def imssSreadLoop (blockSize stSize size offset endBlk : Nat) (getNdata : GetNdata) :
    Nat → Bool → Nat → Nat → Memory → Int × Memory
  | 0, _, _, byteCount, buf => (byteCount, buf)
  | n + 1, first, currBlk, byteCount, buf =>
      let request := sreadRequest blockSize stSize size offset endBlk first currBlk byteCount
      let blockOffset := if first then offset % blockSize else 0
      if request.1 ≤ 0 then (request.1, buf)
      else
        let reply := getNdata (int32 currBlk) request.1.toNat blockOffset byteCount buf
        if reply.1 < 0 then reply
        else if request.2 then (byteCount + request.1, reply.2)
        else imssSreadLoop blockSize stSize size offset endBlk getNdata n false (currBlk + 1)
          (byteCount + request.1.toNat) reply.2

/-- `end_blk`: a recorded size below the requested one takes its place. The sum
of `offset` and `size` is a `size_t`. -/
def sreadEndBlk (blockSize stSize size offset : Nat) : Nat :=
  if stSize < size then Binary64.ceilDiv (offset + stSize) blockSize
  else Binary64.ceilDiv ((offset + size) % 2 ^ 64) blockSize

/-- `ENOENT`. -/
def enoent : Int := 2

/-- `imss_sread`; `stSize` is the size recorded for the open file, `none` when
`fd_lookup` does not know the path. -/
def imssSread (blockSize : Nat) (getNdata : GetNdata) (stSize : Option Nat) (buf : Memory)
    (size offset : Nat) : Int × Memory :=
  match stSize with
  | none => (-enoent, buf)
  | some stSize =>
      let currBlk := offset / blockSize + 1
      let endBlk := sreadEndBlk blockSize stSize size offset
      if stSize ≤ offset then (0, buf)
      else if stSize ≤ offset % blockSize then (0, buf)
      else imssSreadLoop blockSize stSize size offset endBlk getNdata (endBlk + 1 - currBlk) true
        currBlk 0 buf

/-! ## What the loop does, whatever `get_ndata` answers -/

section Loop

variable {blockSize stSize size offset endBlk : Nat} {getNdata : GetNdata}

/-- The four ways in which an iteration can go: nothing to read, a failed
request, the end of the file, or the next block. -/
theorem imssSreadLoop_cases (blockSize stSize size offset endBlk : Nat) (getNdata : GetNdata)
    (n : Nat) (first : Bool) (currBlk byteCount : Nat) (buf : Memory) :
    ∃ request reply,
      request = sreadRequest blockSize stSize size offset endBlk first currBlk byteCount ∧
      reply = getNdata (int32 currBlk) request.1.toNat (if first then offset % blockSize else 0)
        byteCount buf ∧
      imssSreadLoop blockSize stSize size offset endBlk getNdata (n + 1) first currBlk byteCount
          buf =
        if request.1 ≤ 0 then (request.1, buf)
        else if reply.1 < 0 then reply
        else if request.2 then (byteCount + request.1, reply.2)
        else imssSreadLoop blockSize stSize size offset endBlk getNdata n false (currBlk + 1)
          (byteCount + request.1.toNat) reply.2 :=
  ⟨_, _, rfl, rfl, rfl⟩

/-- One iteration whose request is answered. -/
theorem imssSreadLoop_succ {n currBlk byteCount : Nat} {first : Bool} {buf : Memory}
    {toRead : Nat} {eofFound : Bool} {reply : Int × Memory}
    (hrequest : sreadRequest blockSize stSize size offset endBlk first currBlk byteCount =
      ((toRead : Int), eofFound))
    (hpos : 0 < toRead)
    (hreply : getNdata (int32 currBlk) toRead (if first then offset % blockSize else 0) byteCount
      buf = reply)
    (hok : 0 ≤ reply.1) :
    imssSreadLoop blockSize stSize size offset endBlk getNdata (n + 1) first currBlk byteCount buf =
      if eofFound then (((byteCount + toRead : Nat) : Int), reply.2)
      else imssSreadLoop blockSize stSize size offset endBlk getNdata n false (currBlk + 1)
        (byteCount + toRead) reply.2 := by
  rw [imssSreadLoop]
  simp only [hrequest, Int.toNat_natCast, hreply]
  rw [if_neg (by omega), if_neg (by omega)]
  simp

/-- A property of the buffer that `get_ndata` keeps is kept by the loop. -/
theorem imssSreadLoop_preserves {P : Memory → Prop}
    (hkeep : ∀ dataId toRead off pos buf, P buf → P (getNdata dataId toRead off pos buf).2)
    (n : Nat) (first : Bool) (currBlk byteCount : Nat) {buf : Memory} (hbuf : P buf) :
    P (imssSreadLoop blockSize stSize size offset endBlk getNdata n first currBlk byteCount
      buf).2 := by
  induction n generalizing first currBlk byteCount buf with
  | zero => exact hbuf
  | succ n ih =>
      obtain ⟨request, reply, -, hreply, heq⟩ := imssSreadLoop_cases blockSize stSize size
        offset endBlk getNdata n first currBlk byteCount buf
      have hnext : P reply.2 := by
        rw [hreply]
        exact hkeep _ _ _ _ _ hbuf
      rw [heq]
      split
      · exact hbuf
      split
      · exact hnext
      split
      · exact hnext
      · exact ih _ _ _ hnext

/-- Once the first block is behind, the loop ends with `size` bytes or with a
failure: the recorded size plays no further part. -/
theorem imssSreadLoop_tail (n currBlk byteCount : Nat) (buf : Memory)
    (hend : currBlk + n = endBlk) :
    (imssSreadLoop blockSize stSize size offset endBlk getNdata (n + 1) false currBlk byteCount
        buf).1 ≤ 0 ∨
      (imssSreadLoop blockSize stSize size offset endBlk getNdata (n + 1) false currBlk byteCount
        buf).1 = size := by
  induction n generalizing currBlk byteCount buf with
  | zero =>
      obtain ⟨request, reply, hrequest, -, heq⟩ := imssSreadLoop_cases blockSize stSize size
        offset endBlk getNdata 0 false currBlk byteCount buf
      have hlast : request = ((size : Int) - byteCount, false) := by
        rw [hrequest, sreadRequest, if_neg (by simp), if_neg (by omega)]
      rw [heq, hlast]
      split
      · exact Or.inl ‹_›
      split
      · exact Or.inl (le_of_lt ‹_›)
      · right
        simp only [imssSreadLoop, Bool.false_eq_true, if_false]
        omega
  | succ n ih =>
      obtain ⟨request, reply, hrequest, -, heq⟩ := imssSreadLoop_cases blockSize stSize size
        offset endBlk getNdata (n + 1) false currBlk byteCount buf
      have hmiddle : request = ((blockSize : Int), false) := by
        rw [hrequest, sreadRequest, if_neg (by simp), if_pos (by omega)]
      rw [heq, hmiddle]
      split
      · exact Or.inl ‹_›
      split
      · exact Or.inl (le_of_lt ‹_›)
      · exact ih _ _ _ (by omega)

end Loop

/-! ## Reads of a stored file -/

/-- The assumption on `get_ndata`: a range inside one block and inside the file
is delivered. Block `b + 1` holds the bytes from `b * blockSize` on; its number
is an `int32_t`. -/
def Delivers (blockSize fileSize : Nat) (file : Memory) (getNdata : GetNdata) : Prop :=
  ∀ (b len off pos : Nat) (buf : Memory), b + 1 < 2 ^ 31 → off + len ≤ blockSize →
    b * blockSize + off + len ≤ fileSize →
      getNdata (b + 1 : Nat) len off pos buf =
        ((len : Int), buf.store pos (file.load (b * blockSize + off) len))

/-- The part of a block that belongs to a range: it starts with the block or with
the range and ends with one of them. -/
structure BlockPart (blockSize offset size b off len : Nat) : Prop where
  pos : 0 < len
  inside : off + len ≤ blockSize
  start_le : offset ≤ b * blockSize + off
  end_le : b * blockSize + off + len ≤ offset + size
  starts : off = 0 ∨ b * blockSize + off = offset
  ends : off + len = blockSize ∨ b * blockSize + off + len = offset + size

/-- The same assumption for one read of the range into the buffer `start`: only
its own parts are asked for, in order, so the rest of the buffer is untouched. -/
def DeliversRange (blockSize offset size : Nat) (file start : Memory) (getNdata : GetNdata) :
    Prop :=
  ∀ (b len off : Nat) (buf : Memory), b + 1 < 2 ^ 31 → BlockPart blockSize offset size b off len →
    (∀ i, b * blockSize + off - offset ≤ i → buf i = start i) →
      getNdata (b + 1 : Nat) len off (b * blockSize + off - offset) buf =
        ((len : Int), buf.store (b * blockSize + off - offset)
          (file.load (b * blockSize + off) len))

/-- The bytes `read` has to deliver. -/
def readCount (fileSize size offset : Nat) : Nat :=
  if offset < fileSize then min size (fileSize - offset) else 0

/-- The result announces `count` bytes, and they are those of the file from
`offset` on. -/
def ReadsBytes (file : Memory) (offset count : Nat) (result : Int × Memory) : Prop :=
  result.1 = count ∧ ∀ k < count, result.2 k = file (offset + k)

section Reads

variable {blockSize fileSize size offset endBlk : Nat} {getNdata : GetNdata} {file : Memory}

/-- A block number below `2 ^ 31` survives the conversion to `int32_t`. -/
theorem Delivers.request (hdeliver : Delivers blockSize fileSize file getNdata)
    (b len off pos : Nat) (buf : Memory) (hfits : b + 1 < 2 ^ 31) (hblock : off + len ≤ blockSize)
    (hfile : b * blockSize + off + len ≤ fileSize) :
    getNdata (int32 ((b + 1 : Nat) : Int)) len off pos buf =
      ((len : Int), buf.store pos (file.load (b * blockSize + off) len)) := by
  rw [int32_of_fits (by omega) (by exact_mod_cast hfits)]
  exact hdeliver b len off pos buf hfits hblock hfile

/-- A file that is delivered is delivered in each range inside it. -/
theorem Delivers.range (hdeliver : Delivers blockSize fileSize file getNdata)
    (hrange : offset + size ≤ fileSize) (start : Memory) :
    DeliversRange blockSize offset size file start getNdata := by
  intro b len off buf hfits hpart _
  exact hdeliver b len off _ buf hfits hpart.inside (hpart.end_le.trans hrange)

theorem DeliversRange.request {start : Memory}
    (hdeliver : DeliversRange blockSize offset size file start getNdata) {b len off pos : Nat}
    {buf : Memory} (hfits : b + 1 < 2 ^ 31) (hpart : BlockPart blockSize offset size b off len)
    (hpos : offset + pos = b * blockSize + off) (hbuf : ∀ i, pos ≤ i → buf i = start i) :
    getNdata (int32 ((b + 1 : Nat) : Int)) len off pos buf =
      ((len : Int), buf.store pos (file.load (b * blockSize + off) len)) := by
  obtain rfl : b * blockSize + off - offset = pos := by omega
  rw [int32_of_fits (by omega) (by exact_mod_cast hfits)]
  exact hdeliver b len off buf hfits hpart hbuf

/-- Receiving the next bytes of the file extends the part that is right. -/
theorem store_reads {buf : Memory} {count start : Nat}
    (hbuf : ∀ k < count, buf k = file (offset + k)) (hstart : offset + count = start) (len : Nat) :
    ∀ k < count + len, buf.store count (file.load start len) k = file (offset + k) := by
  intro k hk
  by_cases hold : k < count
  · rw [Memory.store_of_lt hold, hbuf k hold]
  · rw [Memory.store_load_of_mem (by omega) hk, ← hstart]
    congr 1
    omega

/-- The case of an empty start. -/
theorem store_zero_reads (buf : Memory) (len : Nat) :
    ∀ k < len, buf.store 0 (file.load offset len) k = file (offset + k) := by
  intro k hk
  rw [Memory.store_load_of_mem (Nat.zero_le k) (by omega), Nat.sub_zero]

/-- The blocks after the first one complete a range that is delivered. -/
theorem imssSreadLoop_tail_reads {start : Memory}
    (hdeliver : DeliversRange blockSize offset size file start getNdata)
    (hfits : endBlk < 2 ^ 31) (hlower : (endBlk - 1) * blockSize < offset + size)
    (hupper : offset + size ≤ endBlk * blockSize) (hblock : 0 < blockSize)
    (n b byteCount : Nat) (buf : Memory) (hend : b + 1 + n = endBlk)
    (hcount : offset + byteCount = b * blockSize)
    (hbuf : ∀ k < byteCount, buf k = file (offset + k))
    (hrest : ∀ i, byteCount ≤ i → buf i = start i) :
    ReadsBytes file offset size (imssSreadLoop blockSize fileSize size offset endBlk getNdata
      (n + 1) false (b + 1) byteCount buf) := by
  induction n generalizing b byteCount buf with
  | zero =>
      rw [← hend, Nat.add_zero, Nat.add_sub_cancel] at hlower
      rw [← hend, Nat.add_zero, Nat.add_mul, Nat.one_mul] at hupper
      have hrequest : sreadRequest blockSize fileSize size offset endBlk false (b + 1) byteCount =
          (((size - byteCount : Nat) : Int), false) := by
        rw [sreadRequest, if_neg (by simp), if_neg (by omega), Nat.cast_sub (by omega)]
      have hpart : BlockPart blockSize offset size b 0 (size - byteCount) :=
        ⟨by omega, by omega, by omega, by omega, Or.inl rfl, Or.inr (by omega)⟩
      have hreply := hdeliver.request (by omega) hpart hcount hrest
      rw [imssSreadLoop_succ hrequest (by omega) hreply (by simp), if_neg (by simp), imssSreadLoop,
        Nat.add_sub_cancel' (by omega)]
      have hread := store_reads hbuf hcount (size - byteCount)
      rw [Nat.add_sub_cancel' (by omega)] at hread
      exact ⟨rfl, hread⟩
  | succ n ih =>
      have hnext : (b + 1) * blockSize ≤ (endBlk - 1) * blockSize :=
        Nat.mul_le_mul_right _ (by omega)
      rw [Nat.add_mul, Nat.one_mul] at hnext
      have hrequest : sreadRequest blockSize fileSize size offset endBlk false (b + 1) byteCount =
          ((blockSize : Int), false) := by
        rw [sreadRequest, if_neg (by simp), if_pos (by omega)]
      have hpart : BlockPart blockSize offset size b 0 blockSize :=
        ⟨hblock, by omega, by omega, by omega, Or.inl rfl, Or.inl (by omega)⟩
      have hreply := hdeliver.request (by omega) hpart hcount hrest
      rw [imssSreadLoop_succ hrequest hblock hreply (by simp), if_neg (by simp)]
      refine ih (b + 1) (byteCount + blockSize) _ (by omega)
        (by rw [Nat.add_mul, Nat.one_mul]; omega) (store_reads hbuf hcount blockSize) ?_
      intro i hi
      exact (Memory.store_load_of_notMem (Or.inr hi)).trans (hrest i (by omega))

/-! ### The first block -/

/-- Inside the file the first request takes the rest of the block or the whole
range. -/
theorem firstToRead_of_le (hblock : 0 < blockSize) (hrange : offset + size ≤ fileSize)
    (hoffset : offset < fileSize) :
    firstToRead blockSize fileSize size offset =
      (min size (blockSize - offset % blockSize), false) := by
  have hmod := Nat.mod_lt offset hblock
  have hle := Nat.mod_le offset blockSize
  unfold firstToRead
  simp only
  split_ifs <;> simp only [Prod.mk.injEq, reduceCtorEq, and_false, and_true] <;> omega

/-- A file of at most one block is read to its end without noticing it. -/
theorem firstToRead_of_small (hblock : fileSize ≤ blockSize) (hrange : fileSize < offset + size)
    (hoffset : offset < fileSize) :
    firstToRead blockSize fileSize size offset = (fileSize - offset, false) := by
  have hmod : offset % blockSize = offset := Nat.mod_eq_of_lt (by omega)
  unfold firstToRead
  simp only [hmod]
  split_ifs <;> simp only [Prod.mk.injEq, reduceCtorEq, and_false, and_true] <;> omega

/-- In a larger file the end is noticed if it lies strictly inside the first
block of the range. -/
theorem firstToRead_of_eof (hsize : blockSize ≤ fileSize) (hblock : 0 < blockSize)
    (heof : fileSize < (offset / blockSize + 1) * blockSize) (hrange : fileSize < offset + size) :
    firstToRead blockSize fileSize size offset = (fileSize - offset, true) := by
  have hsplit := Nat.div_add_mod' offset blockSize
  have hmod := Nat.mod_lt offset hblock
  rw [Nat.add_mul, Nat.one_mul] at heof
  unfold firstToRead
  simp only
  split_ifs <;> simp only [Prod.mk.injEq, reduceCtorEq, and_false] <;> omega

/-- Otherwise the rest of the block is read and the loop goes on. -/
theorem firstToRead_of_large (hsize : blockSize < fileSize) (hblock : 0 < blockSize)
    (heof : (offset / blockSize + 1) * blockSize ≤ fileSize) (hrange : fileSize < offset + size) :
    firstToRead blockSize fileSize size offset = (blockSize - offset % blockSize, false) := by
  have hsplit := Nat.div_add_mod' offset blockSize
  have hmod := Nat.mod_lt offset hblock
  rw [Nat.add_mul, Nat.one_mul] at heof
  unfold firstToRead
  simp only
  split_ifs <;> simp only [Prod.mk.injEq, reduceCtorEq, and_false, and_true] <;> omega

/-! ### The whole read -/

theorem imssSread_of_le (h : fileSize ≤ offset) (buf : Memory) :
    imssSread blockSize getNdata (some fileSize) buf size offset = (0, buf) := by
  simp [imssSread, h]

theorem imssSread_of_lt (h : offset < fileSize) (buf : Memory) :
    imssSread blockSize getNdata (some fileSize) buf size offset =
      imssSreadLoop blockSize fileSize size offset (sreadEndBlk blockSize fileSize size offset)
        getNdata (sreadEndBlk blockSize fileSize size offset - offset / blockSize) true
        (offset / blockSize + 1) 0 buf := by
  have hmod := Nat.mod_le offset blockSize
  simp only [imssSread]
  rw [if_neg (by omega), if_neg (by omega), Nat.add_sub_add_right]

/-- The first iteration, when its request is answered. -/
theorem imssSreadLoop_first {toRead : Nat} {eofFound : Bool}
    (hfirst : firstToRead blockSize fileSize size offset = (toRead, eofFound)) (hpos : 0 < toRead)
    {buf : Memory}
    (hreply : getNdata (int32 ((offset / blockSize + 1 : Nat) : Int)) toRead (offset % blockSize) 0
      buf = ((toRead : Int), buf.store 0 (file.load offset toRead))) (endBlk n : Nat) :
    imssSreadLoop blockSize fileSize size offset endBlk getNdata (n + 1) true
        (offset / blockSize + 1) 0 buf =
      if eofFound then ((toRead : Int), buf.store 0 (file.load offset toRead))
      else imssSreadLoop blockSize fileSize size offset endBlk getNdata n false
        (offset / blockSize + 1 + 1) toRead (buf.store 0 (file.load offset toRead)) := by
  have hrequest : sreadRequest blockSize fileSize size offset endBlk true
      (offset / blockSize + 1) 0 =
      ((toRead : Int), eofFound) := by
    rw [sreadRequest, if_pos rfl, hfirst]
  rw [imssSreadLoop_succ hrequest hpos hreply (by simp), Nat.zero_add]

/-- A stored file answers the first request of a read. -/
theorem Delivers.first (hdeliver : Delivers blockSize fileSize file getNdata)
    (hfits : offset / blockSize + 1 < 2 ^ 31) {toRead : Nat}
    (hblock : offset % blockSize + toRead ≤ blockSize) (hfile : offset + toRead ≤ fileSize)
    (buf : Memory) :
    getNdata (int32 ((offset / blockSize + 1 : Nat) : Int)) toRead (offset % blockSize) 0 buf =
      ((toRead : Int), buf.store 0 (file.load offset toRead)) := by
  have hsplit := Nat.div_add_mod' offset blockSize
  have hreply := hdeliver.request (offset / blockSize) toRead (offset % blockSize) 0 buf hfits
    hblock (by omega)
  rwa [hsplit] at hreply

/-- The range ends inside the file, or the file ends in the block in which the
range starts and the code notices it. -/
def SreadRange (blockSize fileSize size offset : Nat) : Prop :=
  offset + size ≤ fileSize ∨
    (fileSize ≤ blockSize ∧ offset + min size fileSize ≤ blockSize) ∨
    (blockSize ≤ fileSize ∧ fileSize < (offset / blockSize + 1) * blockSize)

instance : Decidable (SreadRange blockSize fileSize size offset) :=
  inferInstanceAs (Decidable (_ ∨ _ ∨ _))

/-- Block `offset / blockSize + 1` is not beyond the end block of a positive
range. -/
theorem div_lt_of_lt_mul {e : Nat} (h : offset < e * blockSize) : offset / blockSize < e :=
  Nat.div_lt_of_lt_mul (by rwa [Nat.mul_comm])

/-- A range inside the file is read completely if its parts are delivered. -/
theorem imssSread_reads_inside (hblock : 0 < blockSize) (hexact : offset + size < 2 ^ 53)
    {buf : Memory} (hdeliver : DeliversRange blockSize offset size file buf getNdata)
    (hsize : 0 < size) (hrange : offset + size ≤ fileSize)
    (hfits : offset + size ≤ (2 ^ 31 - 1) * blockSize) :
    ReadsBytes file offset size (imssSread blockSize getNdata (some fileSize) buf size offset) := by
  have hsplit := Nat.div_add_mod' offset blockSize
  have hmod := Nat.mod_lt offset hblock
  have hfirst := firstToRead_of_le hblock hrange (by omega)
  obtain ⟨e, he⟩ : ∃ e, e = Binary64.ceilDiv (offset + size) blockSize := ⟨_, rfl⟩
  obtain ⟨hlower, hupper⟩ := Binary64.ceilDiv_bounds (by omega) hexact hblock
  have hend : sreadEndBlk blockSize fileSize size offset = e := by
    rw [sreadEndBlk, if_neg (by omega), Nat.mod_eq_of_lt (by omega), he]
  rw [← he] at hlower hupper
  have hstart : offset / blockSize < e := div_lt_of_lt_mul (by omega)
  have hlast : e - 1 < 2 ^ 31 - 1 := Nat.lt_of_mul_lt_mul_right (hlower.trans_le hfits)
  obtain ⟨n, rfl⟩ : ∃ n, e = offset / blockSize + 1 + n := ⟨e - offset / blockSize - 1, by omega⟩
  have hcounter : offset / blockSize + 1 + n - offset / blockSize = n + 1 := by omega
  have hpart : BlockPart blockSize offset size (offset / blockSize) (offset % blockSize)
      (min size (blockSize - offset % blockSize)) :=
    ⟨by omega, by omega, by omega, by omega, Or.inr hsplit, by omega⟩
  have hreply := hdeliver.request (by omega) hpart (show offset + 0 = _ by omega) fun i _ => rfl
  rw [hsplit] at hreply
  rw [imssSread_of_lt (by omega), hend, hcounter,
    imssSreadLoop_first hfirst (by omega) hreply, if_neg (by simp)]
  cases n with
  | zero =>
      have hmin : min size (blockSize - offset % blockSize) = size := by
        rw [Nat.add_zero, Nat.add_mul] at hupper
        omega
      rw [hmin, imssSreadLoop]
      exact ⟨rfl, store_zero_reads buf size⟩
  | succ n =>
      have hmin : min size (blockSize - offset % blockSize) = blockSize - offset % blockSize := by
        have hmul : (offset / blockSize + 1) * blockSize ≤
            (offset / blockSize + 1 + (n + 1) - 1) * blockSize :=
          Nat.mul_le_mul_right _ (by omega)
        rw [Nat.add_mul] at hmul
        omega
      rw [hmin]
      refine imssSreadLoop_tail_reads hdeliver (by omega) hlower hupper hblock n
        (offset / blockSize + 1) _ _ (by omega) (by rw [Nat.add_mul]; omega)
        (store_zero_reads buf _) ?_
      intro i hi
      exact Memory.store_load_of_notMem (Or.inr (by omega))

/-- A file of at most one block is read up to its end if the loop does not go on
to a second block. -/
theorem imssSread_reads_small (hexact : offset + min size fileSize < 2 ^ 53)
    (hdeliver : Delivers blockSize fileSize file getNdata) (hoffset : offset < fileSize)
    (hsmall : fileSize ≤ blockSize) (hend : offset + min size fileSize ≤ blockSize)
    (hrange : fileSize < offset + size) (buf : Memory) :
    ReadsBytes file offset (fileSize - offset)
      (imssSread blockSize getNdata (some fileSize) buf size offset) := by
  have hdiv : offset / blockSize = 0 := Nat.div_eq_of_lt (by omega)
  have hmod : offset % blockSize = offset := Nat.mod_eq_of_lt (by omega)
  have hfirst := firstToRead_of_small hsmall hrange hoffset
  have hone : ∀ x, 0 < x → x ≤ blockSize → x < 2 ^ 53 → Binary64.ceilDiv x blockSize = 1 := by
    intro x hpos hle hx
    rw [Binary64.ceilDiv_eq hx (by omega)]
    exact Nat.div_eq_of_lt_le (by omega) (by omega)
  have hblk : sreadEndBlk blockSize fileSize size offset = 1 := by
    unfold sreadEndBlk
    split
    · exact hone _ (by omega) (by omega) (by omega)
    · rw [Nat.mod_eq_of_lt (by omega)]
      exact hone _ (by omega) (by omega) (by omega)
  rw [imssSread_of_lt hoffset, hblk]
  have hstep := imssSreadLoop_first hfirst (by omega)
    (hdeliver.first (by omega) (by omega) (by omega) buf) 1 0
  rw [hdiv] at hstep ⊢
  rw [hstep, if_neg (by simp), imssSreadLoop]
  exact ⟨rfl, store_zero_reads buf _⟩

/-- The end of a larger file is noticed in the first block. -/
theorem imssSread_reads_eof (hblock : 0 < blockSize) (hexact : offset + size < 2 ^ 53)
    (hexact' : offset + fileSize < 2 ^ 53)
    (hdeliver : Delivers blockSize fileSize file getNdata) (hoffset : offset < fileSize)
    (hlarge : blockSize ≤ fileSize) (heof : fileSize < (offset / blockSize + 1) * blockSize)
    (hrange : fileSize < offset + size) (hfits : fileSize ≤ (2 ^ 31 - 1) * blockSize)
    (buf : Memory) :
    ReadsBytes file offset (fileSize - offset)
      (imssSread blockSize getNdata (some fileSize) buf size offset) := by
  have hsplit := Nat.div_add_mod' offset blockSize
  have hfirst := firstToRead_of_eof hlarge hblock heof hrange
  have hstart : offset / blockSize < sreadEndBlk blockSize fileSize size offset := by
    unfold sreadEndBlk
    split
    · exact div_lt_of_lt_mul
        ((by omega : offset < offset + fileSize).trans_le
          (Binary64.ceilDiv_bounds (by omega) hexact' hblock).2)
    · rw [Nat.mod_eq_of_lt (by omega)]
      exact div_lt_of_lt_mul
        ((by omega : offset < offset + size).trans_le
          (Binary64.ceilDiv_bounds (by omega) hexact hblock).2)
  have hlast : offset / blockSize < 2 ^ 31 - 1 := div_lt_of_lt_mul (by omega)
  obtain ⟨n, hn⟩ : ∃ n, sreadEndBlk blockSize fileSize size offset - offset / blockSize = n + 1 :=
    ⟨sreadEndBlk blockSize fileSize size offset - offset / blockSize - 1, by omega⟩
  rw [Nat.add_mul] at heof
  rw [imssSread_of_lt hoffset, hn, imssSreadLoop_first hfirst (by omega)
    (hdeliver.first (by omega) (by omega) (by omega) buf), if_pos rfl]
  exact ⟨rfl, store_zero_reads buf _⟩

/-- Where the end of the file is missed, the loop goes on after the first block. -/
theorem lt_sreadEndBlk_of_not_sreadRange (hblock : 0 < blockSize) (hexact : offset + size < 2 ^ 53)
    (hexact' : offset + fileSize < 2 ^ 53) (hoffset : offset < fileSize)
    (hrange : ¬ SreadRange blockSize fileSize size offset) :
    offset / blockSize + 1 < sreadEndBlk blockSize fileSize size offset := by
  have hsplit := Nat.div_add_mod' offset blockSize
  have hmod := Nat.mod_lt offset hblock
  simp only [SreadRange, not_or, not_and, not_le, not_lt] at hrange
  obtain ⟨hover, hsmall, hlarge⟩ := hrange
  rw [Nat.add_mul, Nat.one_mul] at hlarge
  have hnext : ∀ x, offset / blockSize * blockSize + blockSize < x → x < 2 ^ 53 →
      offset / blockSize + 1 < Binary64.ceilDiv x blockSize := by
    intro x hlt hx
    have hbound := (Binary64.ceilDiv_bounds (by omega) hx hblock).2
    refine Nat.lt_of_mul_lt_mul_right (a := blockSize) ?_
    rw [Nat.add_mul, Nat.one_mul]
    omega
  have hzero : fileSize ≤ blockSize → offset / blockSize * blockSize = 0 := by
    intro hle
    rw [Nat.div_eq_of_lt (by omega), Nat.zero_mul]
  unfold sreadEndBlk
  split
  · exact hnext _ (by omega) hexact'
  · rw [Nat.mod_eq_of_lt (by omega)]
    exact hnext _ (by omega) hexact

/-- Outside these cases the loop leaves the first block and forgets the end of
the file. -/
theorem imssSread_overruns (hblock : 0 < blockSize) (hexact : offset + size < 2 ^ 53)
    (hexact' : offset + fileSize < 2 ^ 53) (hoffset : offset < fileSize)
    (hrange : ¬ SreadRange blockSize fileSize size offset) (buf : Memory) :
    (imssSread blockSize getNdata (some fileSize) buf size offset).1 ≤ 0 ∨
      (imssSread blockSize getNdata (some fileSize) buf size offset).1 = size := by
  have hend := lt_sreadEndBlk_of_not_sreadRange hblock hexact hexact' hoffset hrange
  simp only [SreadRange, not_or, not_and, not_le, not_lt] at hrange
  obtain ⟨hover, -, hlarge⟩ := hrange
  obtain ⟨toRead, hfirst⟩ : ∃ toRead,
      firstToRead blockSize fileSize size offset = (toRead, false) := by
    by_cases hle : fileSize ≤ blockSize
    · exact ⟨_, firstToRead_of_small hle hover hoffset⟩
    · exact ⟨_, firstToRead_of_large (by omega) hblock (hlarge (by omega)) hover⟩
  obtain ⟨n, hn⟩ : ∃ n, sreadEndBlk blockSize fileSize size offset =
      offset / blockSize + 1 + 1 + n :=
    ⟨sreadEndBlk blockSize fileSize size offset - offset / blockSize - 2, by omega⟩
  have hcounter : offset / blockSize + 1 + 1 + n - offset / blockSize = n + 1 + 1 := by omega
  rw [imssSread_of_lt hoffset, hn, hcounter]
  obtain ⟨request, reply, hrequest, -, heq⟩ := imssSreadLoop_cases blockSize fileSize size offset
    (offset / blockSize + 1 + 1 + n) getNdata (n + 1) true (offset / blockSize + 1) 0 buf
  rw [sreadRequest, if_pos rfl, hfirst] at hrequest
  rw [heq, hrequest]
  split
  · exact Or.inl ‹_›
  split
  · exact Or.inl (le_of_lt ‹_›)
  · exact imssSreadLoop_tail n _ _ _ rfl

/-! ### Exactly when reads are correct -/

/-- A `get_ndata` that serves the blocks of `file` and nothing else. -/
def storedNdata (blockSize : Nat) (file : Memory) : GetNdata :=
  fun dataId toRead off pos buf =>
    if 1 ≤ dataId ∧ dataId < 2 ^ 31 ∧ off + toRead ≤ blockSize then
      ((toRead : Int), buf.store pos (file.load ((dataId.toNat - 1) * blockSize + off) toRead))
    else (-1, buf)

theorem storedNdata_delivers (blockSize fileSize : Nat) (file : Memory) :
    Delivers blockSize fileSize file (storedNdata blockSize file) := by
  intro b len off pos buf hfits hblock _
  have hid : ((b + 1 : Nat) : Int).toNat - 1 = b := by omega
  rw [storedNdata, if_pos ⟨by omega, by exact_mod_cast hfits, hblock⟩, hid]

/-- Every read of the range is correct, for every file of that size and every
`get_ndata` that serves it. -/
def SreadCorrect (blockSize fileSize size offset : Nat) : Prop :=
  ∀ (file : Memory) (getNdata : GetNdata), Delivers blockSize fileSize file getNdata →
    ∀ buf : Memory, ReadsBytes file offset (readCount fileSize size offset)
      (imssSread blockSize getNdata (some fileSize) buf size offset)

/-- Nothing to deliver, or a range that the loop handles, in blocks whose numbers
fit into an `int32_t`. -/
def SreadCondition (blockSize fileSize size offset : Nat) : Prop :=
  fileSize ≤ offset ∨ size = 0 ∨
    (SreadRange blockSize fileSize size offset ∧
      offset + readCount fileSize size offset ≤ (2 ^ 31 - 1) * blockSize)

instance : Decidable (SreadCondition blockSize fileSize size offset) :=
  inferInstanceAs (Decidable (_ ∨ _ ∨ _))

theorem readCount_of_lt (h : offset < fileSize) :
    readCount fileSize size offset = min size (fileSize - offset) :=
  if_pos h

/-- The first request asks for no more than the whole read. -/
theorem firstToRead_le (hblock : 0 < blockSize) (hoffset : offset < fileSize) :
    (firstToRead blockSize fileSize size offset).1 ≤ size := by
  have hmod := Nat.mod_lt offset hblock
  have hle := Nat.mod_le offset blockSize
  unfold firstToRead
  simp only
  split_ifs <;> simp only <;> omega

/-- Whatever `get_ndata` answers, a read announces at most `size` bytes. -/
theorem imssSread_le (hblock : 0 < blockSize) (buf : Memory) :
    (imssSread blockSize getNdata (some fileSize) buf size offset).1 ≤ size := by
  by_cases hoffset : fileSize ≤ offset
  · rw [imssSread_of_le hoffset]
    exact Int.natCast_nonneg size
  have hfirst : (firstToRead blockSize fileSize size offset).1 ≤ size :=
    firstToRead_le hblock (Nat.lt_of_not_le hoffset)
  rw [imssSread_of_lt (by omega)]
  cases hcount : sreadEndBlk blockSize fileSize size offset - offset / blockSize with
  | zero => exact Int.natCast_nonneg size
  | succ n =>
      obtain ⟨request, reply, hrequest, -, heq⟩ := imssSreadLoop_cases blockSize fileSize size
        offset (sreadEndBlk blockSize fileSize size offset) getNdata n true
        (offset / blockSize + 1) 0 buf
      have hasked : request.1 ≤ size := by
        rw [hrequest]
        simp only [sreadRequest, if_true]
        omega
      rw [heq]
      split
      · exact hasked
      split
      · omega
      split
      · simpa using hasked
      · cases n with
        | zero =>
            simp only [imssSreadLoop]
            omega
        | succ n =>
            refine (imssSreadLoop_tail n _ _ _ (by omega)).elim (fun h => ?_) fun h => h.le
            exact h.trans (Int.natCast_nonneg size)

/-- An empty read delivers nothing. -/
theorem imssSread_zero (hblock : 0 < blockSize) (buf : Memory) :
    imssSread blockSize getNdata (some fileSize) buf 0 offset = (0, buf) := by
  by_cases hoffset : fileSize ≤ offset
  · exact imssSread_of_le hoffset buf
  · rw [imssSread_of_lt (by omega)]
    cases sreadEndBlk blockSize fileSize 0 offset - offset / blockSize with
    | zero => rfl
    | succ n =>
        have hfirst := firstToRead_of_le hblock (by omega : offset + 0 ≤ fileSize) (by omega)
        simp [imssSreadLoop, sreadRequest, hfirst]

/-- The condition suffices. -/
theorem imssSread_reads (hblock : 0 < blockSize) (hexact : offset + size < 2 ^ 53)
    (hexact' : offset + fileSize < 2 ^ 53)
    (hcondition : SreadCondition blockSize fileSize size offset) :
    SreadCorrect blockSize fileSize size offset := by
  intro file getNdata hdeliver buf
  by_cases hoffset : fileSize ≤ offset
  · rw [imssSread_of_le hoffset, readCount, if_neg (by omega)]
    exact ⟨rfl, by simp⟩
  rw [readCount_of_lt (by omega)]
  rcases hcondition with heof | rfl | ⟨hrange, hfits⟩
  · exact absurd heof hoffset
  · rw [imssSread_zero hblock, Nat.zero_min]
    exact ⟨rfl, by simp⟩
  rw [readCount_of_lt (by omega)] at hfits
  by_cases hsize : size = 0
  · rw [hsize, imssSread_zero hblock, Nat.zero_min]
    exact ⟨rfl, by simp⟩
  by_cases hinside : offset + size ≤ fileSize
  · rw [Nat.min_eq_left (by omega)] at hfits ⊢
    exact imssSread_reads_inside hblock hexact (hdeliver.range hinside buf) (by omega) hinside hfits
  rw [Nat.min_eq_right (by omega)] at hfits ⊢
  rcases hrange with hinside' | ⟨hsmall, hend⟩ | ⟨hlarge, heof⟩
  · exact absurd hinside' hinside
  · exact imssSread_reads_small (by omega) hdeliver (by omega) hsmall hend (by omega) buf
  · exact imssSread_reads_eof hblock hexact hexact' hdeliver (by omega) hlarge heof (by omega)
      (by omega) buf

/-- A file whose bytes tell whether their block number fits into an `int32_t`. -/
private def wideFile (blockSize : Nat) : Memory :=
  fun p => if p < (2 ^ 31 - 1) * blockSize then 0 else 1

/-- No request ever reaches a block whose number does not fit. -/
private theorem storedNdata_wideFile (blockSize : Nat) (dataId : Int) (toRead off pos : Nat)
    (buf : Memory) (hbuf : ∀ k, buf k = 0) (k : Nat) :
    (storedNdata blockSize (wideFile blockSize) dataId toRead off pos buf).2 k = 0 := by
  unfold storedNdata
  split
  next hserved =>
    obtain ⟨hone, hfits, hblock⟩ := hserved
    by_cases hmem : pos ≤ k ∧ k < pos + toRead
    · have hmul : (dataId.toNat - 1) * blockSize + blockSize ≤ (2 ^ 31 - 1) * blockSize := by
        rw [← Nat.succ_mul]
        exact Nat.mul_le_mul_right _ (by omega)
      show buf.store pos _ k = 0
      rw [Memory.store_load_of_mem hmem.1 hmem.2, wideFile, if_pos (by omega)]
    · show buf.store pos _ k = 0
      rw [Memory.store_load_of_notMem (by omega), hbuf k]
  next => exact hbuf k

/-- A range that ends in a block whose number does not fit is not delivered. -/
theorem not_sreadCorrect_of_wide (hoffset : offset < fileSize) (hsize : 0 < size)
    (hwide : (2 ^ 31 - 1) * blockSize < offset + readCount fileSize size offset) :
    ¬ SreadCorrect blockSize fileSize size offset := by
  intro hcorrect
  have hcount : 0 < readCount fileSize size offset := by
    rw [readCount_of_lt hoffset]
    omega
  have hread := (hcorrect (wideFile blockSize) (storedNdata blockSize (wideFile blockSize))
    (storedNdata_delivers blockSize fileSize _) (fun _ => 0)).2
    (readCount fileSize size offset - 1) (by omega)
  have hzero : ∀ k, (imssSread blockSize (storedNdata blockSize (wideFile blockSize))
      (some fileSize) (fun _ => 0) size offset).2 k = 0 := by
    rw [imssSread_of_lt hoffset]
    exact imssSreadLoop_preserves (P := fun buf => ∀ k, buf k = 0)
      (fun dataId toRead off pos buf hbuf k =>
        storedNdata_wideFile blockSize dataId toRead off pos buf hbuf k) _ _ _ _ (fun _ => rfl)
  rw [hzero, wideFile, if_neg (by omega)] at hread
  exact absurd hread (by decide)

/-- Synchronous reads are correct exactly under the condition. The two
hypotheses keep the divisions exact. -/
theorem imssSread_correct_iff (hblock : 0 < blockSize) (hexact : offset + size < 2 ^ 53)
    (hexact' : offset + fileSize < 2 ^ 53) :
    SreadCorrect blockSize fileSize size offset ↔
      SreadCondition blockSize fileSize size offset := by
  constructor
  · intro hcorrect
    by_cases hoffset : fileSize ≤ offset
    · exact Or.inl hoffset
    by_cases hsize : size = 0
    · exact Or.inr (Or.inl hsize)
    refine Or.inr (Or.inr ⟨?_, ?_⟩)
    · by_contra hrange
      have hcount := (hcorrect (fun _ => 0) (storedNdata blockSize fun _ => 0)
        (storedNdata_delivers blockSize fileSize _) (fun _ => 0)).1
      rw [readCount_of_lt (by omega)] at hcount
      rcases imssSread_overruns hblock hexact hexact' (by omega) hrange (fun _ => 0) with
        hfail | hwhole
      · rw [hcount] at hfail
        omega
      · rw [hcount] at hwhole
        simp only [SreadRange, not_or] at hrange
        omega
    · by_contra hfits
      exact not_sreadCorrect_of_wide (by omega) (by omega) (by omega) hcorrect
  · exact imssSread_reads hblock hexact hexact'

/-- With blocks of four bytes, nine bytes from offset 2 of a file of ten bytes
are announced as nine: one more than the file has. -/
theorem not_sreadCorrect_nine_of_ten :
    ¬ SreadCorrect 4 10 9 2 := by
  intro hcorrect
  have hcount := (hcorrect (fun _ => 7) (storedNdata 4 fun _ => 7) (storedNdata_delivers 4 10 _)
    (fun _ => 0)).1
  exact absurd hcount (by decide +kernel)

/-- The same range is delivered when it ends with the file. -/
theorem sreadCorrect_eight_of_ten : SreadCorrect 4 10 8 2 :=
  (imssSread_correct_iff (by decide) (by decide) (by decide)).mpr (by decide)

end Reads

end Hercules.Client
