/-
# The position of an open file

`map_fd` keeps an offset for each open descriptor, and every wrapper changes it in
its own way: `read` adds what was read, `write` adds what it wrote to the size the
file had before, and the seeks compute it from their arguments. What the position
should be is `PositionLaw`.

At a negative offset the block numbers of a transfer wrap around; what a transfer
does there is left open.
-/

import Hercules.Cluster.ReadWrite
import Hercules.Lib.Run

namespace Hercules

open Lib Lib.Text

namespace Client

variable {nStorages : Nat}

/-- The last argument of a seek. -/
inductive Whence
  | seekSet
  | seekCur
  | seekEnd
  deriving DecidableEq

/-- An open descriptor: the file, of which the client has a record, and the offset
in `map_fd`, a `long`. -/
structure Descriptor where
  file : OpenFile
  offset : Int

/-- Transfers at a negative offset: the return value, and the file after a write. -/
structure NegativeTransfers where
  sread : OpenFile → Nat → Int → Int
  write : OpenFile → WriteCall → Int → Option (Int × OpenFile)

/-- The calls that change the position. The `off` of a `WriteCall` is not used:
`write` takes the offset from the descriptor. -/
inductive PositionCall
  | read (stack : CString) (buf : Memory) (size : Nat)
  | write (call : WriteCall)
  | lseek (offset : Int) (whence : Whence)
  | fseek (offset : Int) (whence : Whence)

namespace Descriptor

/-- `lseek`: the return value is the new offset. -/
def lseek (d : Descriptor) (offset : Int) : Whence → Int × Descriptor
  | .seekSet => (offset, { d with offset := offset })
  | .seekCur => (int64 (d.offset + offset), { d with offset := int64 (d.offset + offset) })
  | .seekEnd =>
      (int64 (offset + d.file.stSize), { d with offset := int64 (offset + d.file.stSize) })

/-- `fseek`: from the end of the file the argument is not used. -/
def fseek (d : Descriptor) (offset : Int) (whence : Whence) : Int × Descriptor :=
  let ret :=
    match whence with
    | .seekSet => offset
    | .seekCur => int64 (d.offset + offset)
    | .seekEnd => (d.file.stSize : Int)
  (if 0 ≤ ret then 0 else ret, { d with offset := ret })

variable (config : ServerConfig) (dataset : Dataset nStorages) (negative : NegativeTransfers)

/-- `read`. -/
def read (d : Descriptor) (stack : CString) (buf : Memory) (size : Nat) : Int × Descriptor :=
  if size = 0 then (0, d)
  else
    let ret :=
      if 0 ≤ d.offset then (d.file.sread config dataset stack buf size d.offset.toNat).1
      else negative.sread d.file size d.offset
    (if ret = -2 then -1 else ret,
      if 0 < ret then { d with offset := int64 (d.offset + ret) } else d)

/-- `imss_write` at the offset of the descriptor; the number of bytes is returned
as a `ssize_t`. -/
def imssWriteAt (d : Descriptor) (call : WriteCall) : Option (Int × OpenFile) :=
  if 0 ≤ d.offset then
    (imssWrite config dataset { call with off := d.offset.toNat } d.file).map fun result =>
      (int64 result.1, result.2)
  else negative.write d.file call d.offset

/-- What `generalWrite` does with the result of `imss_write`: the new offset counts
from the size that was looked up before the write. -/
def afterWrite (d : Descriptor) (size : Nat) (ret : Int) (file : OpenFile) : Int × Descriptor :=
  if ret < 0 then (-1, ⟨file, d.offset⟩)
  else if d.file.stSize < (d.file.stSize + size) % 2 ^ 64 then
    (ret, ⟨file, int64 (d.file.stSize + size : Nat)⟩)
  else (ret, ⟨file, d.offset⟩)

/-- `write`, that is `generalWrite` without an offset of its own. -/
def write (d : Descriptor) (call : WriteCall) : Option (Int × Descriptor) :=
  (d.imssWriteAt config dataset negative call).map fun result =>
    d.afterWrite call.size result.1 result.2

/-- One call, with its return value. The process may end in a write. -/
def call (d : Descriptor) : PositionCall → Option (Int × Descriptor)
  | .read stack buf size => some (d.read config dataset negative stack buf size)
  | .write call => d.write config dataset negative call
  | .lseek offset whence => some (d.lseek offset whence)
  | .fseek offset whence => some (d.fseek offset whence)

/-- One call as a step of the descriptor. -/
def step (d : Descriptor) (c : PositionCall) : Option Descriptor :=
  (d.call config dataset negative c).map Prod.snd

/-! ## What the position should be -/

/-- The position that a seek asks for. -/
def target (d : Descriptor) (offset : Int) : Whence → Int
  | .seekSet => offset
  | .seekCur => d.offset + offset
  | .seekEnd => d.file.stSize + offset

/-- A transfer moves the position by the bytes it reports; a seek sets it to its
target, and it does not matter by which of the two functions. -/
def PositionLaw (d : Descriptor) (c : PositionCall) : Prop :=
  ∀ ret d', d.call config dataset negative c = some (ret, d') →
    match c with
    | .read _ _ _ | .write _ => 0 ≤ ret → d'.offset = d.offset + ret
    | .lseek offset whence | .fseek offset whence =>
        d'.offset = d.target offset whence ∧
          (d.lseek offset whence).2.offset = (d.fseek offset whence).2.offset

/-- The limits of the arithmetic: no sum leaves the range of an `off_t`, and a write
has exact block numbers and a server for each of its blocks. -/
def InRange (d : Descriptor) : PositionCall → Prop
  | .read _ _ size => 0 ≤ d.offset ∧ d.offset + size < 2 ^ 63
  | .write call =>
      0 ≤ d.offset ∧ d.offset + call.size < 2 ^ 53 ∧ d.file.stSize + call.size < 2 ^ 63 ∧
        lastBlk config.blockSize call.size d.offset.toNat < 2 ^ 31 ∧
        ∀ p, d.offset.toNat ≤ p → p < d.offset.toNat + call.size →
          (dataset.getDataLocation call.stack (p / config.blockSize + 1 : Nat)).isSome
  | .lseek offset whence | .fseek offset whence =>
      -2 ^ 63 ≤ d.target offset whence ∧ d.target offset whence < 2 ^ 63

/-- The calls after which the position is right: a write appends to the file or
writes nothing, and a seek from the end goes to the end itself. -/
def Keeps (d : Descriptor) : PositionCall → Prop
  | .read _ _ _ => True
  | .write call => call.size = 0 ∨ d.offset = d.file.stSize
  | .lseek offset whence | .fseek offset whence => whence = .seekEnd → offset = 0

end Descriptor

/-! ## One call -/

section Call

variable {config : ServerConfig} {dataset : Dataset nStorages} {negative : NegativeTransfers}
  {d : Descriptor}

/-- Calls whose blocks have servers are carried out. -/
theorem exists_imssWriteBlocks (write : WriteCall) {calls : List BlockWrite} {p q : Nat}
    (hexact : ExactCalls config.blockSize p calls q)
    (hlocated : ∀ r, p ≤ r → r < q →
      (dataset.getDataLocation write.stack (r / config.blockSize + 1 : Nat)).isSome)
    (cluster : Cluster) :
    ∃ cluster', imssWriteBlocks config dataset write calls cluster = some cluster' := by
  induction calls generalizing p cluster with
  | nil => exact ⟨cluster, rfl⟩
  | cons call calls ih =>
      obtain ⟨hcall, hrest⟩ := hexact
      have hbytes := hcall.bytes_pos
      have hend := hrest.add_sum_bytes
      have hid : int32 call.block = (p / config.blockSize + 1 : Nat) := by
        rw [int32_of_fits (by omega) (by exact_mod_cast hcall.block_lt), hcall.block_eq]
      obtain ⟨first, hfirst⟩ := Option.isSome_iff_exists.mp (hlocated p (by omega) (by omega))
      rw [imssWriteBlocks, hid, hfirst]
      simp only [Dataset.setData_eq, Option.bind_some]
      exact ih hrest (fun r hr => hlocated r (by omega)) _

/-- A write of some bytes within the limits reports them all. -/
theorem imssWriteAt_of_inRange (negative : NegativeTransfers) (hblock : 0 < config.blockSize)
    {call : WriteCall}
    (hrange : d.InRange config dataset (.write call)) (hsize : 0 < call.size) :
    ∃ file, d.imssWriteAt config dataset negative call = some ((call.size : Int), file) := by
  obtain ⟨hoffset, hexact, -, hblocks, hlocated⟩ := hrange
  have hcalls := imssWriteCalls_exact hblock (by omega) hsize hblocks
    (endBlkRight_of_exact hblock (by omega) hsize)
  obtain ⟨cluster, hcluster⟩ := exists_imssWriteBlocks { call with off := d.offset.toNat } hcalls
    hlocated d.file.cluster
  have hsum := hcalls.add_sum_bytes
  have hstored : ((imssWriteCalls config.blockSize call.size d.offset.toNat).map
      BlockWrite.bytes).sum = call.size := by omega
  rw [Descriptor.imssWriteAt, if_pos hoffset, imssWrite, hcluster]
  simp only [Option.map_some, hstored]
  rw [int64_of_fits (by omega) (by omega)]
  exact ⟨_, rfl⟩

/-- An empty write makes at most one call, and that for no byte. -/
theorem sum_bytes_empty_write {blockSize off : Nat} (hblock : 0 < blockSize)
    (hexact : off < 2 ^ 53) : ((imssWriteCalls blockSize 0 off).map BlockWrite.bytes).sum = 0 := by
  have hend : writeEndBlk blockSize 0 off ≤ off / blockSize + 1 := by
    rw [writeEndBlk, Nat.add_zero, Nat.mod_eq_of_lt (by omega), Binary64.ceilDiv_eq hexact hblock,
      ← Nat.add_div_right off hblock]
    exact Nat.div_le_div_right (by omega)
  rcases Nat.lt_or_ge (off / blockSize) (writeEndBlk blockSize 0 off) with hlast | hnone
  · rw [imssWriteCalls_of_eq (n := 0) (by omega)]
    simp [imssWriteLoop]
  · rw [imssWriteCalls_of_le hnone]
    rfl

/-- An empty write within the limits reports nothing. -/
theorem imssWriteAt_empty (hblock : 0 < config.blockSize) {call : WriteCall}
    (hrange : d.InRange config dataset (.write call)) (hsize : call.size = 0) {ret : Int}
    {file : OpenFile} (hwrite : d.imssWriteAt config dataset negative call = some (ret, file)) :
    ret = 0 := by
  obtain ⟨hoffset, hexact, -⟩ := hrange
  rw [Descriptor.imssWriteAt, if_pos hoffset] at hwrite
  obtain ⟨⟨stored, file'⟩, hstored, hret⟩ := Option.map_eq_some_iff.mp hwrite
  obtain ⟨cluster, -, hresult⟩ := Option.map_eq_some_iff.mp hstored
  obtain ⟨rfl, -⟩ := Prod.mk.inj hresult
  obtain ⟨rfl, -⟩ := Prod.mk.inj hret
  simp only [hsize]
  rw [sum_bytes_empty_write hblock (by omega)]
  rfl

/-- `lseek` goes to its target; `fseek` agrees unless it drops an argument. -/
theorem seeks_iff {offset : Int} {whence : Whence} (hlower : -2 ^ 63 ≤ d.target offset whence)
    (hupper : d.target offset whence < 2 ^ 63) :
    ((d.lseek offset whence).2.offset = (d.fseek offset whence).2.offset ↔
        (whence = .seekEnd → offset = 0)) ∧
      (d.lseek offset whence).2.offset = d.target offset whence := by
  cases whence with
  | seekSet => simp [Descriptor.lseek, Descriptor.fseek, Descriptor.target]
  | seekCur =>
      have hsum : int64 (d.offset + offset) = d.offset + offset := int64_of_fits hlower hupper
      simp [Descriptor.lseek, Descriptor.fseek, Descriptor.target, hsum]
  | seekEnd =>
      have hsum : int64 (offset + d.file.stSize) = d.file.stSize + offset := by
        rw [Int.add_comm]
        exact int64_of_fits hlower hupper
      simp [Descriptor.lseek, Descriptor.fseek, Descriptor.target, hsum]

/-- Within the limits the position is right after a call exactly if the call is one
of those that keep it. -/
theorem positionLaw_iff (hblock : 0 < config.blockSize) {c : PositionCall}
    (hrange : d.InRange config dataset c) :
    d.PositionLaw config dataset negative c ↔ d.Keeps c := by
  cases c with
  | read stack buf size =>
      refine iff_of_true ?_ trivial
      intro ret d' hcall hret
      obtain ⟨hoffset, hsum⟩ := hrange
      have hle : (d.file.sread config dataset stack buf size d.offset.toNat).1 ≤ size :=
        imssSread_le hblock buf
      simp only [Descriptor.call, Descriptor.read, if_pos hoffset, Option.some.injEq] at hcall
      split at hcall
      · cases hcall
        simp
      · obtain ⟨hvalue, rfl⟩ := Prod.mk.inj hcall
        split at hvalue
        · omega
        split
        · rw [hvalue] at hle ⊢
          exact int64_of_fits (by omega) (by omega)
        · omega
  | write call =>
      rcases Nat.eq_zero_or_pos call.size with hzero | hpos
      · refine iff_of_true ?_ (Or.inl hzero)
        intro ret d' hcall _
        obtain ⟨⟨stored, file⟩, hwrite, hresult⟩ := Option.map_eq_some_iff.mp hcall
        obtain rfl := imssWriteAt_empty hblock hrange hzero hwrite
        have hsame : ¬ d.file.stSize < (d.file.stSize + call.size) % 2 ^ 64 := by
          have hsize := hrange.2.2.1
          rw [hzero, Nat.add_zero, Nat.mod_eq_of_lt (by omega)]
          exact Nat.lt_irrefl _
        rw [Descriptor.afterWrite, if_neg (by omega), if_neg hsame] at hresult
        cases hresult
        simp
      · obtain ⟨file, hwrite⟩ := imssWriteAt_of_inRange negative hblock hrange hpos
        have hsize := hrange.2.2.1
        have hcall : d.call config dataset negative (.write call) =
            some ((call.size : Int), ⟨file, ((d.file.stSize + call.size : Nat) : Int)⟩) := by
          rw [Descriptor.call, Descriptor.write, hwrite, Option.map_some, Descriptor.afterWrite,
            if_neg (by omega), if_pos (by rw [Nat.mod_eq_of_lt (by omega)]; omega),
            int64_of_fits (by omega) (by exact_mod_cast hsize)]
        constructor
        · intro hlaw
          have hmoved : ((d.file.stSize + call.size : Nat) : Int) = d.offset + call.size :=
            hlaw _ _ hcall (by omega)
          exact Or.inr (by omega)
        · rintro (hempty | hend) ret d' hcall' hret
          · omega
          · rw [hcall] at hcall'
            cases hcall'
            show ((d.file.stSize + call.size : Nat) : Int) = d.offset + call.size
            omega
  | lseek offset whence =>
      have hseek := seeks_iff hrange.1 hrange.2
      constructor
      · exact fun hlaw => hseek.1.mp (hlaw _ _ rfl).2
      · intro hkeeps ret d' hcall
        obtain rfl : (d.lseek offset whence).2 = d' := congrArg Prod.snd (Option.some.inj hcall)
        exact ⟨hseek.2, hseek.1.mpr hkeeps⟩
  | fseek offset whence =>
      have hseek := seeks_iff hrange.1 hrange.2
      constructor
      · exact fun hlaw => hseek.1.mp (hlaw _ _ rfl).2
      · intro hkeeps ret d' hcall
        have hagree := hseek.1.mpr hkeeps
        obtain rfl : (d.fseek offset whence).2 = d' := congrArg Prod.snd (Option.some.inj hcall)
        exact ⟨hagree.symm.trans hseek.2, hagree⟩

end Call

/-! ## Whole runs -/

/-- Over any calls within the limits, the position is right after every one of them
exactly if every write appends or is empty and every seek from the end goes to the
end. -/
theorem positionLaw_run_iff {config : ServerConfig} (hblock : 0 < config.blockSize)
    (dataset : Dataset nStorages) (negative : NegativeTransfers) (calls : List PositionCall)
    (d : Descriptor)
    (hrange : Along (Descriptor.step config dataset negative) (Descriptor.InRange config dataset)
      calls d) :
    Along (Descriptor.step config dataset negative)
        (Descriptor.PositionLaw config dataset negative) calls d ↔
      Along (Descriptor.step config dataset negative) Descriptor.Keeps calls d :=
  hrange.congr fun _ _ hcall => positionLaw_iff hblock hcall

/-- The descriptor of a new file on empty servers. -/
def newDescriptor : Descriptor :=
  ⟨⟨fun _ => DataServer.init imssRoot, 0⟩, 0⟩

/-- Transfers at a negative offset that do nothing. -/
def noTransfers : NegativeTransfers :=
  ⟨fun _ _ _ => 0, fun file _ _ => some (0, file)⟩

/-- A write of some bytes `7`. -/
def sevens (size : Nat) : WriteCall :=
  ⟨0, size, fun _ => 7, [], fun _ _ _ => 0⟩

/-- Three bytes are appended, and one of them is read again. -/
theorem positionLaw_append :
    Along (Descriptor.step ⟨4, 4096⟩ (exampleDataset 1 (by decide)) noTransfers)
      (Descriptor.PositionLaw ⟨4, 4096⟩ (exampleDataset 1 (by decide)) noTransfers)
      [.write (sevens 3), .lseek 1 .seekSet, .read [] (fun _ => 0) 1] newDescriptor := by
  refine (positionLaw_run_iff (by decide) _ _ _ _ ?_).mpr ?_
  · refine ⟨⟨by decide, by decide, by decide, by decide, fun p _ hp => ?_⟩, fun written _ => ?_⟩
    · have hlt : p < 3 := hp
      interval_cases p <;> decide
    · refine ⟨⟨by simp [Descriptor.target], by simp [Descriptor.target]⟩, fun moved hmoved => ?_⟩
      obtain rfl : (written.lseek 1 .seekSet).2 = moved := Option.some.inj hmoved
      exact ⟨⟨by simp [Descriptor.lseek], by simp [Descriptor.lseek]⟩, fun _ _ => trivial⟩
  · exact ⟨Or.inr rfl, fun _ _ => ⟨by simp [Descriptor.Keeps], fun _ _ => ⟨trivial, fun _ _ =>
      trivial⟩⟩⟩

/-- Ten bytes are written and the first of them is written again: the position is
then 11 and not 1. -/
theorem not_positionLaw_overwrite :
    ¬ Along (Descriptor.step ⟨4, 4096⟩ (exampleDataset 1 (by decide)) noTransfers)
      (Descriptor.PositionLaw ⟨4, 4096⟩ (exampleDataset 1 (by decide)) noTransfers)
      ([.write (sevens 10), .lseek 0 .seekSet] ++ [.write (sevens 1)]) newDescriptor := by
  intro halong
  have heval : ((run (Descriptor.step ⟨4, 4096⟩ (exampleDataset 1 (by decide)) noTransfers)
      [.write (sevens 10), .lseek 0 .seekSet] newDescriptor).bind fun d =>
        (d.call ⟨4, 4096⟩ (exampleDataset 1 (by decide)) noTransfers (.write (sevens 1))).map
          fun result => (d.offset, result.1, result.2.offset)) = some (0, 1, 11) := by
    decide +kernel
  obtain ⟨d, hrun, hcall⟩ := Option.bind_eq_some_iff.mp heval
  obtain ⟨⟨ret, d'⟩, hwrite, hvalues⟩ := Option.map_eq_some_iff.mp hcall
  obtain ⟨hoffset, hrest⟩ := Prod.mk.inj hvalues
  obtain ⟨hret, hmoved⟩ := Prod.mk.inj hrest
  have hlaw : d'.offset = d.offset + ret := halong.apply hrun ret d' hwrite (by omega)
  simp only at hoffset hret hmoved
  omega

end Client

end Hercules
