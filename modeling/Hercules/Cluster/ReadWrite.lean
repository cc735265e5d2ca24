/-
# Reading what was written

One client writes a file and reads it. A write is split into blocks, each block is
sent to its servers, and a read asks the first server of each block. The abstract
file is flat: the bytes that some write covers, each with its last value.

`Stores` relates the two. It speaks only of the known bytes, so nothing is assumed
about what the servers held before, and every write keeps it. A read of known bytes
then returns them, unless the received bytes look like the text for an unknown key.
-/

import Mathlib.Tactic.IntervalCases
import Hercules.Client.Sread
import Hercules.Client.Write
import Hercules.Cluster

namespace Hercules

open Lib Lib.Text

namespace Client

variable {nStorages : Nat}

/-! ## The calls of a client -/

/-- A file that a client has open: the data servers, and the size in the record of
the file that the client keeps. -/
structure OpenFile where
  cluster : Cluster
  stSize : Nat

/-- One call of `imss_write`: `fresh` is what `malloc` leaves in a new buffer, by
block and server. -/
structure WriteCall where
  off : Nat
  size : Nat
  buf : Memory
  stack : CString
  fresh : Nat → Nat → Memory

/-- The calls of `set_data` in `imss_write`. The client ends at a block without
location. -/
def imssWriteBlocks (config : ServerConfig) (dataset : Dataset nStorages) (write : WriteCall) :
    List BlockWrite → Cluster → Option Cluster
  | [], cluster => some cluster
  | call :: calls, cluster =>
      match dataset.getDataLocation write.stack (int32 call.block) with
      | none => none
      | some _ =>
          (dataset.setData config write.stack (int32 call.block) call.offset
            (write.buf.load call.pos (call.length config.blockSize)) (write.fresh call.block)
            cluster).bind (imssWriteBlocks config dataset write calls)

/-- `imss_write` on an open file: `bytes_stored`, and the recorded size grows if
the range ends beyond it. -/
def imssWrite (config : ServerConfig) (dataset : Dataset nStorages) (write : WriteCall)
    (file : OpenFile) : Option (Nat × OpenFile) :=
  let calls := imssWriteCalls config.blockSize write.size write.off
  (imssWriteBlocks config dataset write calls file.cluster).map fun cluster =>
    ((calls.map BlockWrite.bytes).sum,
      ⟨cluster, max file.stSize ((write.size + write.off) % 2 ^ 64)⟩)

/-- Any number of writes. -/
def imssWrites (config : ServerConfig) (dataset : Dataset nStorages) :
    List WriteCall → OpenFile → Option OpenFile
  | [], file => some file
  | write :: writes, file =>
      (imssWrite config dataset write file).bind fun (_, file) =>
        imssWrites config dataset writes file

/-- The text that a server sends for an unknown key. -/
def noKeyAvail : List UInt8 :=
  "$ERRIMSS_NO_KEY_AVAIL$".toList.map fun c => UInt8.ofNat c.toNat

/-- The bytes of a reply; the text comes with its terminator. -/
def replyBytes (data : Option (List UInt8)) : List UInt8 :=
  data.getD (noKeyAvail ++ [0])

/-- The loop of `get_ndata` over the copies. A reply is received in the caller's
buffer at `pos`, and the buffer is compared with the text for an unknown key; the
next copy is asked if they agree. -/
def getNdataFrom (config : ServerConfig) (cluster : Cluster) (req : CString) (pos : Nat) :
    List Nat → Memory → Int × Memory
  | [], buf => (-1, buf)
  | s :: servers, buf =>
      match (cluster s).serve config req [] fun _ => 0 with
      | some (.block data, _) =>
          if replyBytes data = [] then (-2, buf)
          else
            let buf := buf.store pos (replyBytes data)
            if buf.load pos noKeyAvail.length = noKeyAvail then
              getNdataFrom config cluster req pos servers buf
            else ((replyBytes data).length, buf)
      | _ => (-2, buf)

/-- `get_ndata` on the network path. No server is changed by it. -/
def getNdata (config : ServerConfig) (dataset : Dataset nStorages) (stack : CString)
    (cluster : Cluster) : GetNdata := fun dataId toRead offset pos buf =>
  match dataset.getDataLocation stack dataId with
  | none => (-2, buf)
  | some first =>
      getNdataFrom config cluster
        (readRequest offset dataset.uri.1 dataId (if dataId = 0 then sizeofStat else toRead)) pos
        (replicaServers nStorages dataset.replFactor first) buf

/-- `imss_sread` on an open file. -/
def OpenFile.sread (config : ServerConfig) (dataset : Dataset nStorages) (stack : CString)
    (file : OpenFile) (buf : Memory) (size offset : Nat) : Int × Memory :=
  imssSread config.blockSize (getNdata config dataset stack file.cluster) (some file.stSize) buf
    size offset

/-- The text that is stored is found. -/
theorem load_noKeyAvail (buf : Memory) (pos : Nat) :
    (buf.store pos (noKeyAvail ++ [0])).load pos noKeyAvail.length =
      noKeyAvail := by
  have hall := Memory.load_store_self buf pos (noKeyAvail ++ [0])
  rw [List.length_append, Memory.load_add] at hall
  exact (List.append_inj hall (by rw [Memory.length_load])).1

/-! ## The flat file -/

/-- The bytes that the writes cover, each with the value of the last one. -/
def written (writes : List WriteCall) : Nat → Option UInt8 :=
  writes.foldl (fun known write => Memory.overlay known write.off (write.buf.load 0 write.size))
    fun _ => none

/-- The known bytes as a buffer. -/
def contents (known : Nat → Option UInt8) : Memory :=
  fun p => (known p).getD 0

/-- Every server of a block has the known bytes of the block. -/
def Stores (config : ServerConfig) (dataset : Dataset nStorages) (known : Nat → Option UInt8)
    (cluster : Cluster) : Prop :=
  ∀ p value, known p = some value → ∀ stack, ∃ first,
    dataset.getDataLocation stack (p / config.blockSize + 1 : Nat) = some first ∧
      ∀ s ∈ replicaServers nStorages dataset.replFactor first, ∃ block,
        (cluster s).get (blockKey dataset.uri.1 (p / config.blockSize + 1 : Nat)) = some block ∧
          block.data (p % config.blockSize) = value

/-- A write of at least one byte whose end a double counts exactly, whose block
numbers are `int32_t`s, whose offset the server scans unchanged, and whose blocks
have locations. -/
structure WriteCall.Fits (config : ServerConfig) (dataset : Dataset nStorages)
    (write : WriteCall) : Prop where
  size_pos : 0 < write.size
  exact : write.off + write.size < 2 ^ 53
  blocks : lastBlk config.blockSize write.size write.off < 2 ^ 31
  offset_lt : write.off % config.blockSize < 2 ^ 32
  located : ∀ p, write.off ≤ p → p < write.off + write.size →
    (dataset.getDataLocation write.stack (p / config.blockSize + 1 : Nat)).isSome

/-- The same limits for a read, of whose parts none looks like the text for an
unknown key once it is in the caller's buffer. -/
structure ReadFits (config : ServerConfig) (known : Nat → Option UInt8) (buf : Memory)
    (size offset : Nat) : Prop where
  exact : offset + size < 2 ^ 53
  blocks : offset + size ≤ (2 ^ 31 - 1) * config.blockSize
  offset_lt : offset % config.blockSize < 2 ^ 32
  found : ∀ b off len, BlockPart config.blockSize offset size b off len →
    (buf.store (b * config.blockSize + off - offset)
      ((contents known).load (b * config.blockSize + off) len)).load
        (b * config.blockSize + off - offset) noKeyAvail.length ≠ noKeyAvail

/-! ## Writes keep the known bytes -/

section Writes

variable {config : ServerConfig} {dataset : Dataset nStorages} {known : Nat → Option UInt8}
  {cluster cluster' : Cluster}

theorem getDataLocation_placed (hpolicy : dataset.policy.Placed) (stack stack' : CString)
    (dataId : Int) :
    dataset.getDataLocation stack dataId = dataset.getDataLocation stack' dataId :=
  findServer_placed hpolicy stack stack' _ _ _

theorem isBlockZero_data (hname : '$' ∉ dataset.uri.1) (b : Nat) :
    isBlockZero (blockKey dataset.uri.1 (b + 1 : Nat)) = false := by
  rw [isBlockZero_blockKey hname]
  exact decide_eq_false (by omega)

/-- The block that a message is written to has the known bytes, and over them those
of the message. -/
theorem Stores.get_write (hstores : Stores config dataset known cluster)
    (hname : '$' ∉ dataset.uri.1) {stack : CString} {b first : Nat}
    (hfirst : dataset.getDataLocation stack (b + 1 : Nat) = some first) {s : Nat}
    (hs : s ∈ replicaServers nStorages dataset.replFactor first) {data : List UInt8}
    (hdata : data ≠ []) (offset : Nat) (fresh : Memory) :
    ∃ block, ((cluster s).write config (blockKey dataset.uri.1 (b + 1 : Nat)) offset data
        fresh).2.get (blockKey dataset.uri.1 (b + 1 : Nat)) = some block ∧
      ∀ i < config.blockSize, ∀ value,
        Memory.overlay known (b * config.blockSize + offset) data (b * config.blockSize + i) =
          some value → block.data i = value := by
  obtain ⟨buffer, size, hget, -, hbuffer⟩ := DataServer.get_write_data
    (isBlockZero_data hname b) hdata config (cluster s) offset fresh
  refine ⟨_, hget, fun i hi value hvalue => ?_⟩
  -- inside the block both the write and the byte are counted from its start
  rw [Memory.overlay_add] at hvalue
  refine Memory.store_of_overlay (fun old hold => ?_) hvalue
  have hcopies := hstores _ old hold stack
  rw [div_block hi, mod_block hi] at hcopies
  obtain ⟨first', hfirst', hheld⟩ := hcopies
  obtain rfl : first = first' := Option.some.inj (hfirst.symm.trans hfirst')
  obtain ⟨block, hblock, hbyte⟩ := hheld s hs
  rw [hbuffer block hblock, hbyte]

/-- A message for one block is stored and adds its bytes to the known ones. -/
theorem Stores.setData (hstores : Stores config dataset known cluster)
    (hname : '$' ∉ dataset.uri.1) (hpolicy : dataset.policy.Placed) {stack : CString}
    {b offset : Nat} (hlocated : (dataset.getDataLocation stack (b + 1 : Nat)).isSome)
    (hoffset : offset < 2 ^ 32) {data : List UInt8} (hdata : data ≠ [])
    (hinside : offset + data.length ≤ config.blockSize) (fresh : Nat → Memory) :
    ∃ cluster', dataset.setData config stack (b + 1 : Nat) offset data fresh cluster =
        some cluster' ∧
      Stores config dataset (Memory.overlay known (b * config.blockSize + offset) data)
        cluster' := by
  refine ⟨_, Dataset.setData_eq _ _ _ _ _ _ _ _, ?_⟩
  rw [Nat.mod_eq_of_lt hoffset]
  intro p value hvalue stack'
  have hlength := List.length_pos_of_ne_nil hdata
  have hsplit := Nat.div_add_mod' p config.blockSize
  have hmod := Nat.mod_lt p (show 0 < config.blockSize by omega)
  by_cases hblock : p / config.blockSize = b
  · subst hblock
    obtain ⟨first, hfirst⟩ := Option.isSome_iff_exists.mp hlocated
    refine ⟨first, (getDataLocation_placed hpolicy stack' stack _).trans hfirst, fun s hs => ?_⟩
    have hmem : s ∈ dataset.targets stack (p / config.blockSize + 1 : Nat) := by
      rwa [Dataset.targets, hfirst]
    obtain ⟨block, hget, hbytes⟩ := hstores.get_write hname hfirst hs hdata offset (fresh s)
    simp only [if_pos hmem]
    refine ⟨block, hget, hbytes _ hmod value ?_⟩
    rwa [hsplit]
  · rw [Memory.overlay_of_notMem (outside_block (by omega) hinside hblock)] at hvalue
    obtain ⟨first, hfirst, hcopies⟩ := hstores p value hvalue stack'
    refine ⟨first, hfirst, fun s hs => ?_⟩
    have hkey : blockKey dataset.uri.1 (b + 1 : Nat) ≠
        blockKey dataset.uri.1 (p / config.blockSize + 1 : Nat) := by
      rw [Ne, blockKey_inj]
      omega
    beta_reduce
    split
    · rw [DataServer.get_write_of_ne hkey]
      exact hcopies s hs
    · exact hcopies s hs

/-- An exact call lies in the block of its first byte. -/
theorem BlockWrite.Exact.block_eq {p : Nat} {call : BlockWrite}
    (h : call.Exact config.blockSize p) : call.block = p / config.blockSize + 1 := by
  have hpos := h.block_pos
  have hbytes := h.bytes_pos
  have hinside := h.inside
  rw [← h.start_eq, div_block (by omega)]
  omega

/-- The calls of one write, from byte `p` of the file on: they succeed, and the
known bytes grow by those of the buffer. -/
theorem Stores.imssWriteBlocks (hname : '$' ∉ dataset.uri.1) (hpolicy : dataset.policy.Placed)
    (write : WriteCall) {calls : List BlockWrite} {p pos : Nat}
    (hexact : ExactCalls config.blockSize p calls (write.off + write.size))
    (hbuf : Consecutive pos calls) (hpos : write.off + pos = p)
    (hoffset : ∀ call ∈ calls, call.offset < 2 ^ 32)
    (hlocated : ∀ q, write.off ≤ q → q < write.off + write.size →
      (dataset.getDataLocation write.stack (q / config.blockSize + 1 : Nat)).isSome)
    (hstores : Stores config dataset
      (Memory.overlay known write.off (write.buf.load 0 pos)) cluster) :
    ∃ cluster', imssWriteBlocks config dataset write calls cluster = some cluster' ∧
      Stores config dataset (Memory.overlay known write.off (write.buf.load 0 write.size))
        cluster' := by
  induction calls generalizing p pos cluster with
  | nil =>
      have hend : p = write.off + write.size := hexact
      obtain rfl : pos = write.size := by omega
      exact ⟨cluster, rfl, hstores⟩
  | cons call calls ih =>
      obtain ⟨hcall, hrest⟩ := hexact
      obtain ⟨hcallPos, hbufRest⟩ := hbuf
      have hend := hrest.add_sum_bytes
      have hbytes := hcall.bytes_pos
      have hblock := hcall.block_eq
      have hid : int32 call.block = (p / config.blockSize + 1 : Nat) := by
        rw [int32_of_fits (by omega) (by exact_mod_cast hcall.block_lt), hblock]
      have hloc := hlocated p (by omega) (by omega)
      obtain ⟨first, hfirst⟩ := Option.isSome_iff_exists.mp hloc
      have hlength : call.length config.blockSize = call.bytes :=
        BlockWrite.length_of_fits hcall.block_pos hcall.block_lt hbytes
      have hdata : write.buf.load pos call.bytes ≠ [] :=
        List.ne_nil_of_length_pos (by rwa [Memory.length_load])
      obtain ⟨next, hset, hstep⟩ := hstores.setData hname hpolicy hloc (hoffset call (by simp))
        hdata (by rw [Memory.length_load]; exact hcall.inside) (write.fresh call.block)
      have hstart := hcall.start_eq
      rw [hblock, Nat.add_sub_cancel] at hstart
      have happend : Memory.overlay known write.off (write.buf.load 0 (pos + call.bytes)) =
          Memory.overlay (Memory.overlay known write.off (write.buf.load 0 pos)) p
            (write.buf.load pos call.bytes) := by
        rw [Memory.load_add, Memory.overlay_append, Memory.length_load, Nat.zero_add, hpos]
      rw [hstart, ← happend] at hstep
      obtain ⟨cluster', hrun, hfinal⟩ := ih hrest hbufRest (by omega)
        (fun c hc => hoffset c (List.mem_cons_of_mem _ hc)) hstep
      refine ⟨cluster', ?_, hfinal⟩
      simp only [Client.imssWriteBlocks, hid, hfirst, hlength, hcallPos, hset, Option.bind_some,
        hrun]

/-- A write that fits stores its bytes and returns their number. -/
theorem Stores.imssWrite (hblock : 0 < config.blockSize) (hname : '$' ∉ dataset.uri.1)
    (hpolicy : dataset.policy.Placed) {write : WriteCall} (hfits : write.Fits config dataset)
    {file : OpenFile} (hstores : Stores config dataset known file.cluster) :
    ∃ cluster', imssWrite config dataset write file =
        some (write.size, ⟨cluster', max file.stSize (write.off + write.size)⟩) ∧
      Stores config dataset (Memory.overlay known write.off (write.buf.load 0 write.size))
        cluster' := by
  have hwidth := hfits.exact
  have hexact := imssWriteCalls_exact hblock (by omega) hfits.size_pos hfits.blocks
    (endBlkRight_of_exact hblock hfits.exact hfits.size_pos)
  have hoffset : ∀ call ∈ imssWriteCalls config.blockSize write.size write.off,
      call.offset < 2 ^ 32 := by
    intro call hcall
    have hlt := hfits.offset_lt
    rcases offset_imssWriteCalls hcall with h | h <;> omega
  have hstart : Stores config dataset (Memory.overlay known write.off (write.buf.load 0 0))
      file.cluster := by
    rwa [Memory.load_zero, Memory.overlay_nil]
  obtain ⟨cluster', hrun, hfinal⟩ := Stores.imssWriteBlocks hname hpolicy write hexact
    (imssWriteCalls_consecutive _ _ _) (Nat.add_zero _) hoffset hfits.located hstart
  refine ⟨cluster', ?_, hfinal⟩
  have hsum := hexact.add_sum_bytes
  have hstored : ((imssWriteCalls config.blockSize write.size write.off).map
      BlockWrite.bytes).sum = write.size := by omega
  simp only [Client.imssWrite, hrun, Option.map_some, hstored]
  rw [Nat.mod_eq_of_lt (by omega), Nat.add_comm write.size]

/-- Writes that fit succeed, and the servers have the flat file. -/
theorem imssWrites_stores (hblock : 0 < config.blockSize) (hname : '$' ∉ dataset.uri.1)
    (hpolicy : dataset.policy.Placed) {writes : List WriteCall}
    (hfits : ∀ write ∈ writes, write.Fits config dataset) {file : OpenFile}
    (hstores : Stores config dataset known file.cluster) :
    ∃ file', imssWrites config dataset writes file = some file' ∧
      Stores config dataset (writes.foldl (fun known write =>
        Memory.overlay known write.off (write.buf.load 0 write.size)) known) file'.cluster := by
  induction writes generalizing known file with
  | nil => exact ⟨file, rfl, hstores⟩
  | cons write writes ih =>
      obtain ⟨cluster', hrun, hnext⟩ := hstores.imssWrite hblock hname hpolicy
        (hfits write (by simp))
      rw [imssWrites, hrun]
      exact ih (fun w hw => hfits w (List.mem_cons_of_mem _ hw)) hnext

end Writes

/-! ## Reads return the known bytes -/

section Reads

variable {config : ServerConfig} {dataset : Dataset nStorages} {known : Nat → Option UInt8}
  {cluster : Cluster}

/-- A server of a block answers a request for known bytes. -/
theorem Stores.read (hstores : Stores config dataset known cluster) {b off len : Nat}
    (hinside : off + len ≤ config.blockSize)
    (hknown : ∀ i < len, (known (b * config.blockSize + off + i)).isSome) (hlen : 0 < len)
    (stack : CString) :
    ∃ first, dataset.getDataLocation stack (b + 1 : Nat) = some first ∧
      ∀ s ∈ replicaServers nStorages dataset.replFactor first,
        (cluster s).read (blockKey dataset.uri.1 (b + 1 : Nat)) off len =
          some ((contents known).load (b * config.blockSize + off) len) := by
  have hstored : ∀ i < len, ∃ first,
      dataset.getDataLocation stack (b + 1 : Nat) = some first ∧
        ∀ s ∈ replicaServers nStorages dataset.replFactor first, ∃ block,
          (cluster s).get (blockKey dataset.uri.1 (b + 1 : Nat)) = some block ∧
            block.data (off + i) = contents known (b * config.blockSize + off + i) := by
    intro i hi
    obtain ⟨value, hvalue⟩ := Option.isSome_iff_exists.mp (hknown i hi)
    have hcopies := hstores _ value hvalue stack
    rw [Nat.add_assoc, div_block (by omega), mod_block (by omega)] at hcopies
    rwa [contents, hvalue]
  obtain ⟨first, hfirst, hcopies⟩ := hstored 0 hlen
  refine ⟨first, hfirst, fun s hs => ?_⟩
  obtain ⟨block, hget, -⟩ := hcopies s hs
  rw [DataServer.read, hget, Option.map_some, if_neg (by omega), Option.some.injEq, Memory.load,
    Memory.load, List.map_inj_left]
  intro i hi
  obtain ⟨first', hfirst', hcopies'⟩ := hstored i (List.mem_range.mp hi)
  obtain rfl : first = first' := Option.some.inj (hfirst.symm.trans hfirst')
  obtain ⟨block', hget', hdata⟩ := hcopies' s hs
  obtain rfl : block = block' := Option.some.inj (hget.symm.trans hget')
  exact hdata

/-- `get_ndata` delivers the parts of a range of known bytes. -/
theorem Stores.deliversRange (hstores : Stores config dataset known cluster)
    (hrepl : 0 < dataset.replFactor) {offset size : Nat} {buf : Memory}
    (hknown : ∀ k < size, (known (offset + k)).isSome)
    (hfits : ReadFits config known buf size offset) (stack : CString) :
    DeliversRange config.blockSize offset size (contents known) buf
      (getNdata config dataset stack cluster) := by
  intro b len off buf' hid hpart hbuf
  have hlen := hpart.pos
  have hstart := hpart.start_le
  have hend := hpart.end_le
  have hexact := hfits.exact
  have hoff : off < 2 ^ 32 := by
    have hoffset := hfits.offset_lt
    have hinside := hpart.inside
    rcases hpart.starts with h | h
    · omega
    · rwa [← h, mod_block (by omega)] at hoffset
  obtain ⟨first, hfirst, hread⟩ := hstores.read hpart.inside (fun i hi => by
    have h := hknown (b * config.blockSize + off + i - offset) (by omega)
    rwa [Nat.add_sub_cancel' (by omega)] at h) hlen stack
  obtain ⟨copies, hcopies⟩ : ∃ copies, replicaServers nStorages dataset.replFactor first =
      replicaServer nStorages dataset.replFactor first 0 :: copies := by
    obtain ⟨n, hn⟩ := Nat.exists_eq_succ_of_ne_zero hrepl.ne'
    rw [replicaServers, hn, List.range_succ_eq_map]
    exact ⟨_, rfl⟩
  have hreply := hread _ (hcopies ▸ List.mem_cons_self)
  have hne : ((b + 1 : Nat) : Int) ≠ 0 := by omega
  have hbytes : (contents known).load (b * config.blockSize + off) len ≠ [] :=
    List.ne_nil_of_length_pos (by rwa [Memory.length_load])
  -- beyond the received bytes the comparison sees the caller's own buffer
  have hfound : (buf'.store (b * config.blockSize + off - offset)
      ((contents known).load (b * config.blockSize + off) len)).load
        (b * config.blockSize + off - offset) noKeyAvail.length ≠ noKeyAvail := by
    rw [show (buf'.store _ _).load _ _ = (buf.store (b * config.blockSize + off - offset)
      ((contents known).load (b * config.blockSize + off) len)).load
        (b * config.blockSize + off - offset) noKeyAvail.length from ?_]
    · exact hfits.found b off len hpart
    · refine List.map_congr_left fun i _ => ?_
      rw [Memory.store_of_le (Nat.le_add_right _ _), Memory.store_of_le (Nat.le_add_right _ _),
        hbuf _ (Nat.le_add_right _ _)]
  simp only [getNdata, hfirst, hcopies, getNdataFrom, if_neg hne,
    DataServer.serve_read dataset.uri_word, Nat.mod_eq_of_lt hoff]
  rw [Nat.mod_eq_of_lt (by omega), hreply]
  simp only [replyBytes, Option.getD_some, if_neg hbytes, if_neg hfound, Memory.length_load]

/-- Read your writes: after any number of writes that fit, a read of known bytes
that fits returns their number and the bytes. The servers may have held anything
before. -/
theorem sread_written (config : ServerConfig) (hblock : 0 < config.blockSize)
    (dataset : Dataset nStorages) (hname : '$' ∉ dataset.uri.1) (hpolicy : dataset.policy.Placed)
    (hrepl : 0 < dataset.replFactor) (writes : List WriteCall)
    (hwrites : ∀ write ∈ writes, write.Fits config dataset) (file : OpenFile) :
    ∃ file', imssWrites config dataset writes file = some file' ∧
      ∀ (stack : CString) (buf : Memory) (size offset : Nat), offset + size ≤ file'.stSize →
        (∀ k < size, (written writes (offset + k)).isSome) →
        ReadFits config (written writes) buf size offset →
          (file'.sread config dataset stack buf size offset).1 = size ∧
            ∀ k < size, some ((file'.sread config dataset stack buf size offset).2 k) =
              written writes (offset + k) := by
  have hempty : Stores config dataset (fun _ => none) file.cluster := by
    intro p value h
    cases h
  obtain ⟨file', hrun, hfile⟩ := imssWrites_stores hblock hname hpolicy hwrites hempty
  have hstores : Stores config dataset (written writes) file'.cluster := hfile
  refine ⟨file', hrun, fun stack buf size offset hrange hknown hfits => ?_⟩
  by_cases hsize : 0 < size
  · obtain ⟨hcount, hbytes⟩ := imssSread_reads_inside hblock hfits.exact
      (hstores.deliversRange hrepl hknown hfits stack) hsize hrange hfits.blocks
    refine ⟨hcount, fun k hk => ?_⟩
    obtain ⟨value, hvalue⟩ := Option.isSome_iff_exists.mp (hknown k hk)
    rw [OpenFile.sread, hbytes k hk, contents, hvalue]
    rfl
  · obtain rfl : size = 0 := by omega
    rw [OpenFile.sread, imssSread_zero hblock]
    exact ⟨rfl, by simp⟩

end Reads

/-- With round robin the locations follow from the block numbers: no sum of a block
number and a server number leaves 32 bits. -/
theorem WriteCall.fits_roundRobin {config : ServerConfig} {dataset : Dataset nStorages}
    {write : WriteCall}
    (hpolicy : dataset.policy = .roundRobin ∨ dataset.policy = .local ∨ dataset.policy = .zcopy)
    (hservers : 0 < nStorages) (hsize : 0 < write.size)
    (hexact : write.off + write.size < 2 ^ 53)
    (hblocks : nStorages + lastBlk config.blockSize write.size write.off < 2 ^ 31)
    (hoffset : write.off % config.blockSize < 2 ^ 32) : write.Fits config dataset := by
  refine ⟨hsize, hexact, by omega, hoffset, fun p _ hp => ?_⟩
  have hle : p / config.blockSize + 1 ≤ lastBlk config.blockSize write.size write.off :=
    Nat.succ_le_succ (Nat.div_le_div_right (by omega))
  have hfirst := Nat.mod_lt (crc16 dataset.originalName) hservers
  rw [Dataset.getDataLocation, findServer_roundRobin hpolicy hservers (by omega)]
  rfl

/-- Four bytes in blocks of two, of which the second write replaces one. -/
def exampleWrites : List WriteCall :=
  [⟨0, 4, fun i => UInt8.ofNat (i + 7), [], fun _ _ _ => 0⟩, ⟨1, 1, fun _ => 5, [], fun _ _ _ => 0⟩]

theorem exampleWrites_fit (write : WriteCall) (h : write ∈ exampleWrites) :
    write.Fits ⟨2, 4096⟩ (exampleDataset 2 (by decide)) := by
  rw [exampleWrites, List.mem_cons, List.mem_singleton] at h
  rcases h with rfl | rfl <;>
    exact WriteCall.fits_roundRobin (Or.inl rfl) (by decide) (by decide) (by decide) (by decide)
      (by decide)

theorem exampleWrites_readFits :
    ReadFits ⟨2, 4096⟩ (written exampleWrites) (fun _ => 0) 4 0 where
  exact := by decide
  blocks := by decide
  offset_lt := by decide
  found b off len hpart heq := by
    -- no written byte is the first character of the text
    have hfirst := congrArg (fun bytes => bytes.getD 0 0) heq
    have hlen := hpart.pos
    have hend := hpart.end_le
    simp only at hend
    rw [Memory.getD_load (by decide), Memory.store_load_of_mem (by omega) (by omega)] at hfirst
    obtain ⟨p, hp⟩ : ∃ p, p = b * 2 + off := ⟨_, rfl⟩
    simp only [← hp, Nat.add_zero, Nat.sub_self] at hfirst hend
    have hlt : p < 4 := by omega
    revert hfirst
    clear hp hend
    interval_cases p <;> decide +kernel

/-- Both writes are seen by a read over two servers. -/
theorem sread_exampleWrites :
    ∃ file', imssWrites ⟨2, 4096⟩ (exampleDataset 2 (by decide)) exampleWrites
        ⟨fun _ => DataServer.init imssRoot, 0⟩ = some file' ∧
      (file'.sread ⟨2, 4096⟩ (exampleDataset 2 (by decide)) [] (fun _ => 0) 4 0).1 = (4 : Nat) ∧
        ∀ k < 4, some ((file'.sread ⟨2, 4096⟩ (exampleDataset 2 (by decide)) [] (fun _ => 0) 4
          0).2 k) = written exampleWrites (0 + k) := by
  obtain ⟨file', hrun, hread⟩ := sread_written ⟨2, 4096⟩ (by decide)
    (exampleDataset 2 (by decide)) (by decide) (Or.inl rfl) (by decide) exampleWrites
    exampleWrites_fit ⟨fun _ => DataServer.init imssRoot, 0⟩
  have hsize : (imssWrites ⟨2, 4096⟩ (exampleDataset 2 (by decide)) exampleWrites
      ⟨fun _ => DataServer.init imssRoot, 0⟩).map OpenFile.stSize = some 4 := by decide +kernel
  rw [hrun, Option.map_some, Option.some.injEq] at hsize
  exact ⟨file', hrun, hread [] (fun _ => 0) 4 0 (by omega) (by decide) exampleWrites_readFits⟩

/-- One byte at the start of a file and one at `2 ^ 42`. In blocks of 1024 bytes
the second one belongs to block `2 ^ 32 + 1`. -/
def farWrites : List WriteCall :=
  [⟨0, 1, fun _ => 1, [], fun _ _ _ => 0⟩, ⟨2 ^ 42, 1, fun _ => 2, [], fun _ _ _ => 0⟩]

/-- As an `int32_t` the far block is block 1, so the first byte of the file is
overwritten. -/
theorem not_sread_farWrites :
    ∃ file', imssWrites ⟨1024, 4096⟩ (exampleDataset 1 (by decide)) farWrites
        ⟨fun _ => DataServer.init imssRoot, 0⟩ = some file' ∧
      0 + 1 ≤ file'.stSize ∧ written farWrites 0 = some 1 ∧
      (file'.sread ⟨1024, 4096⟩ (exampleDataset 1 (by decide)) [] (fun _ => 0) 1 0).1 = 1 ∧
      (file'.sread ⟨1024, 4096⟩ (exampleDataset 1 (by decide)) [] (fun _ => 0) 1 0).2 0 = 2 := by
  have hread : ((imssWrites ⟨1024, 4096⟩ (exampleDataset 1 (by decide)) farWrites
      ⟨fun _ => DataServer.init imssRoot, 0⟩).map fun file' =>
        (decide (0 + 1 ≤ file'.stSize),
          (file'.sread ⟨1024, 4096⟩ (exampleDataset 1 (by decide)) [] (fun _ => 0) 1 0).1,
          (file'.sread ⟨1024, 4096⟩ (exampleDataset 1 (by decide)) [] (fun _ => 0) 1 0).2 0)) =
      some (true, 1, 2) := by decide +kernel
  obtain ⟨file', hrun, hresult⟩ := Option.map_eq_some_iff.mp hread
  obtain ⟨hsize, hvalues⟩ := Prod.mk.inj hresult
  obtain ⟨hcount, hbyte⟩ := Prod.mk.inj hvalues
  exact ⟨file', hrun, of_decide_eq_true hsize, by decide, hcount, hbyte⟩

end Client

end Hercules
