/-
# Reading a block from its copies

`get_ndata` asks the servers of a block in turn until one of them has it. A server
without the block answers with a text, and the client finds out by comparing the start
of its buffer with that text. So a block that itself starts with the text is taken for
missing, and so is a short answer that leaves an earlier text in the buffer.

A copy on the client's own node is read through shared memory when the policy says so.
Then the answer is a confirmation, the bytes are elsewhere, and nothing is confused.

No server compares the range with the size of its block. A range that goes on behind the end is
answered with as many bytes as were asked for, and those behind the end are not bytes of the block.
-/

import Hercules.Cluster.ReadWrite
import Hercules.RoundTrip

namespace Hercules

open Lib Lib.Text

/-! ## `get_ndata` on both paths -/

/-- The arguments of `get_ndata`: a block number, an `off_t` and an `ssize_t`. -/
structure NdataCall where
  dataId : Int
  offset : Nat
  toRead : Nat
  offset_lt : offset < 2 ^ 63
  toRead_lt : toRead < 2 ^ 63

/-- `to_read`; block 0 is always read as a `struct stat`. -/
def NdataCall.length (call : NdataCall) : Nat :=
  if call.dataId = 0 then sizeofStat else call.toRead

/-- What a client has got from one server: the message, and the shared segment on the local
path. -/
structure CopyReply where
  message : List UInt8
  segment : Option Memory

/-- `MSG_OK_OP` with its terminator. -/
def okMessage : List UInt8 :=
  "OK".toList.map (fun c => UInt8.ofNat c.toNat) ++ [0]

/-- `LOCALGETBLOCK`: the bytes that the server puts in the segment, or nothing for an unknown
key. -/
def DataServer.readShared (server : DataServer) (req : CString) : Option (Option (List UInt8)) :=
  (scanLocalRequest req).map fun scanned =>
    server.read scanned.uri scanned.blockOffset scanned.toRead

/-- A client that reads a dataset: the server on its own node, the segments it gets, and the
call stack that some policies hash. -/
structure BlockReader (nStorages : Nat) where
  dataset : Dataset nStorages
  matchingServerId : Option Nat
  shmId : Nat → Int
  stack : CString

namespace BlockReader

variable {nStorages : Nat} (reader : BlockReader nStorages)

/-- `use_local`. -/
def useLocal (s : Nat) : Bool :=
  (reader.dataset.policy = .local ∨ reader.dataset.policy = .zcopy) ∧
    reader.matchingServerId = some s

/-- The key of the block. -/
def key (dataId : Int) : CString :=
  blockKey reader.dataset.uri.1 dataId

/-- The request to one server and its reply. No segment can be created for no bytes. -/
def ask (config : ServerConfig) (server : DataServer) (call : NdataCall) (s : Nat) :
    Option CopyReply :=
  if reader.useLocal s then
    if call.length = 0 then none
    else (server.readShared (printLocalRequest "LOCALGETBLOCK".toList 0 call.offset (reader.shmId s)
        (reader.key call.dataId) (' ' :: decimal call.length))).map fun data =>
      match data with
      | none => ⟨Client.noKeyAvail ++ [0], some fun _ => 0⟩
      | some bytes => ⟨okMessage, some (Memory.store (fun _ => 0) 0 bytes)⟩
  else
    match server.serve config (readRequest call.offset reader.dataset.uri.1 call.dataId call.length)
        [] fun _ => 0 with
    | some (.block data, _) => some ⟨Client.replyBytes data, none⟩
    | _ => none

/-- The loop over the copies. The buffer of the caller receives every message. -/
def getNdataFrom (config : ServerConfig) (cluster : Cluster) (call : NdataCall) (pos : Nat) :
    List Nat → Memory → Int × Memory
  | [], buf => (-1, buf)
  | s :: servers, buf =>
      match reader.ask config (cluster s) call s with
      | none => (-2, buf)
      | some reply =>
          if reply.message = [] then (-2, buf)
          else
            let buf := buf.store pos reply.message
            if buf.load pos Client.noKeyAvail.length = Client.noKeyAvail then
              getNdataFrom config cluster call pos servers buf
            else
              match reply.segment with
              | none => (reply.message.length, buf)
              | some content => (call.length, buf.store pos (content.load 0 call.length))

/-- `get_ndata`. -/
def getNdata (config : ServerConfig) (cluster : Cluster) (call : NdataCall) (pos : Nat)
    (buf : Memory) : Int × Memory :=
  match reader.dataset.getDataLocation reader.stack call.dataId with
  | none => (-2, buf)
  | some first => reader.getNdataFrom config cluster call pos
      (replicaServers nStorages reader.dataset.replFactor first) buf

end BlockReader

/-! ## Copies of a block -/

/-- The data servers, on some of which the addressed copies of one block are. -/
structure Copies {nStorages : Nat} (reader : BlockReader nStorages) (dataId : Int) where
  cluster : Cluster
  block : Block
  agree : ∀ s ∈ reader.dataset.targets reader.stack dataId,
    (cluster s).get (reader.key dataId) = none ∨ (cluster s).get (reader.key dataId) = some block

namespace Copies

variable {nStorages : Nat} {reader : BlockReader nStorages} {call : NdataCall}
  (copies : Copies reader call.dataId)

/-- The server has the block. -/
def HeldBy (s : Nat) : Prop :=
  ((copies.cluster s).get (reader.key call.dataId)).isSome

instance (s : Nat) : Decidable (copies.HeldBy s) :=
  inferInstanceAs (Decidable (_ = true))

/-- An addressed server has the block. -/
def Held : Prop :=
  ∃ s ∈ reader.dataset.targets reader.stack call.dataId, copies.HeldBy s

/-- The requested bytes, as far as the block goes. -/
def requested : List UInt8 :=
  copies.block.data.load call.offset (min call.length (copies.block.size - call.offset))

/-- If an addressed server has the block, `get_ndata` returns the requested bytes of the block and
their number; and it reports that there is no block only if no addressed server has it. -/
def ReadRight (config : ServerConfig) (pos : Nat) (buf : Memory) : Prop :=
  let result := reader.getNdata config copies.cluster call pos buf
  (copies.Held → result.1 = copies.requested.length ∧
      result.2.load pos copies.requested.length = copies.requested) ∧
    (result.1 = -1 → ¬ copies.Held)

/-- The caller's buffer when the first copy is received: the text is in it if the first server that
is asked has no copy. -/
def bufferBefore (pos : Nat) (buf : Memory) : Memory :=
  match reader.dataset.targets reader.stack call.dataId with
  | [] => buf
  | s :: _ => if copies.HeldBy s then buf else buf.store pos (Client.noKeyAvail ++ [0])

/-- Some bytes of the block are requested and none behind its end, from a place that the request
can name, and a copy is read through shared memory or the buffer with the first copy in it does not
start with the text. -/
def Distinct (pos : Nat) (buf : Memory) : Prop :=
  0 < call.length ∧ call.offset + call.length ≤ copies.block.size ∧
    copies.block.data.load (call.offset % 2 ^ 32) call.length = copies.requested ∧
    ((∃ s ∈ reader.dataset.targets reader.stack call.dataId,
        copies.HeldBy s ∧ reader.useLocal s = true) ∨
      ((copies.bufferBefore pos buf).store pos copies.requested).load pos Client.noKeyAvail.length ≠
        Client.noKeyAvail)

end Copies

/-! ## One server -/

namespace BlockReader

variable {nStorages : Nat} {reader : BlockReader nStorages} {config : ServerConfig}
  {server : DataServer} {call : NdataCall} {s : Nat}

theorem length_mod (call : NdataCall) : call.length % 2 ^ 64 = call.length := by
  have htoRead := call.toRead_lt
  apply Nat.mod_eq_of_lt
  rw [NdataCall.length]
  split
  · decide
  · omega

/-- The reply on the network path. -/
theorem ask_remote (hremote : reader.useLocal s = false) :
    reader.ask config server call s =
      some ⟨Client.replyBytes (server.read (reader.key call.dataId) (call.offset % 2 ^ 32)
        call.length), none⟩ := by
  rw [ask, hremote, if_neg (by decide), DataServer.serve_read reader.dataset.uri_word, length_mod]
  rfl

/-- The reply on the local path. -/
theorem ask_local (hlocal : reader.useLocal s = true) (hlength : 0 < call.length) :
    reader.ask config server call s =
      some (match server.read (reader.key call.dataId) (call.offset % 2 ^ 32) call.length with
        | none => ⟨Client.noKeyAvail ++ [0], some fun _ => 0⟩
        | some bytes => ⟨okMessage, some (Memory.store (fun _ => 0) 0 bytes)⟩) := by
  have hscan : scanInt (' ' :: decimal call.length) = some ((call.length : Int), []) := by
    have hnumber := scanInt_append call.length endsField_nil
    rwa [List.append_nil, ← scanInt_space] at hnumber
  have hword : IsWord (reader.key call.dataId) := isWord_blockKey reader.dataset.uri_word _
  have hne : reader.key call.dataId ≠ [] := List.ne_nil_of_mem (dollar_mem_blockKey _ _)
  rw [ask, if_pos hlocal, if_neg (by omega), DataServer.readShared,
    scanLocalRequest_print (by decide) (by decide) hword hne (endsField_space _)]
  simp only [scannedPrint, hscan, Option.map_some, Option.getD_some]
  have hread : (((call.length : Int) % 2 ^ 64).toNat) = call.length := by
    have hmod := length_mod call
    omega
  rw [hread]

/-- A confirmation is not taken for the text. -/
theorem load_okMessage (buf : Memory) (pos : Nat) :
    (buf.store pos okMessage).load pos Client.noKeyAvail.length ≠ Client.noKeyAvail := by
  intro heq
  have hfirst : ((buf.store pos okMessage).load pos Client.noKeyAvail.length).getD 0 0 =
      Client.noKeyAvail.getD 0 0 := by rw [heq]
  rw [Memory.getD_load (by decide), Memory.store_of_le (by omega), Nat.add_sub_cancel_left,
    List.getD_eq_getElem _ _ (by decide)] at hfirst
  exact absurd hfirst (by decide +kernel)

/-! ## The loop -/

variable {cluster : Cluster} {pos : Nat} {servers : List Nat} {block : Block}

/-- A server without the block leaves the text in the buffer. -/
theorem getNdataFrom_missing (hlength : 0 < call.length)
    (hget : (cluster s).get (reader.key call.dataId) = none) (buf : Memory) :
    reader.getNdataFrom config cluster call pos (s :: servers) buf =
      reader.getNdataFrom config cluster call pos servers
        (buf.store pos (Client.noKeyAvail ++ [0])) := by
  have hread : (cluster s).read (reader.key call.dataId) (call.offset % 2 ^ 32) call.length =
      none := by
    rw [DataServer.read, hget]
    rfl
  have hne : Client.noKeyAvail ++ [0] ≠ [] := by simp
  cases hlocal : reader.useLocal s with
  | true =>
      rw [getNdataFrom, ask_local hlocal hlength, hread]
      simp only [if_neg hne, Client.load_noKeyAvail, if_true]
  | false =>
      rw [getNdataFrom, ask_remote hlocal, hread]
      simp only [Client.replyBytes, Option.getD_none, if_neg hne, Client.load_noKeyAvail, if_true]

/-- A copy on the client's node is returned. -/
theorem getNdataFrom_local (hlength : 0 < call.length)
    (hget : (cluster s).get (reader.key call.dataId) = some block)
    (hlocal : reader.useLocal s = true) (buf : Memory) :
    reader.getNdataFrom config cluster call pos (s :: servers) buf =
      ((call.length : Int), (buf.store pos okMessage).store pos
        (block.data.load (call.offset % 2 ^ 32) call.length)) := by
  have hread : (cluster s).read (reader.key call.dataId) (call.offset % 2 ^ 32) call.length =
      some (block.data.load (call.offset % 2 ^ 32) call.length) := by
    rw [DataServer.read, hget, Option.map_some, if_neg (by omega)]
  have hne : okMessage ≠ [] := by decide
  have hsegment := Memory.load_store_self (fun _ => 0) 0
    (block.data.load (call.offset % 2 ^ 32) call.length)
  rw [Memory.length_load] at hsegment
  rw [getNdataFrom, ask_local hlocal hlength, hread]
  simp only [if_neg hne, if_neg (load_okMessage buf pos), hsegment]

/-- A copy on another server is returned unless the buffer shows the text. -/
theorem getNdataFrom_remote (hlength : 0 < call.length)
    (hget : (cluster s).get (reader.key call.dataId) = some block)
    (hremote : reader.useLocal s = false) (buf : Memory) :
    reader.getNdataFrom config cluster call pos (s :: servers) buf =
      if (buf.store pos (block.data.load (call.offset % 2 ^ 32) call.length)).load pos
          Client.noKeyAvail.length = Client.noKeyAvail then
        reader.getNdataFrom config cluster call pos servers
          (buf.store pos (block.data.load (call.offset % 2 ^ 32) call.length))
      else ((call.length : Int),
        buf.store pos (block.data.load (call.offset % 2 ^ 32) call.length)) := by
  have hread : (cluster s).read (reader.key call.dataId) (call.offset % 2 ^ 32) call.length =
      some (block.data.load (call.offset % 2 ^ 32) call.length) := by
    rw [DataServer.read, hget, Option.map_some, if_neg (by omega)]
  have hne : block.data.load (call.offset % 2 ^ 32) call.length ≠ [] :=
    List.ne_nil_of_length_pos (by rwa [Memory.length_load])
  rw [getNdataFrom, ask_remote hremote, hread]
  simp only [Client.replyBytes, Option.getD_some, if_neg hne, Memory.length_load]

/-- Nothing is returned as a read of no bytes. -/
theorem getNdataFrom_zero (hlength : call.length = 0) (servers : List Nat) (buf : Memory) :
    (reader.getNdataFrom config cluster call pos servers buf).1 ≠ 0 := by
  induction servers generalizing buf with
  | nil => exact (by decide : (-1 : Int) ≠ 0)
  | cons s servers ih =>
      cases hlocal : reader.useLocal s with
      | true =>
          rw [getNdataFrom, ask, if_pos hlocal, if_pos hlength]
          exact (by decide : (-2 : Int) ≠ 0)
      | false =>
          rw [getNdataFrom, ask_remote hlocal]
          simp only
          split
          · exact (by decide : (-2 : Int) ≠ 0)
          next hne =>
            split
            · exact ih _
            · rw [Ne, Int.natCast_eq_zero, List.length_eq_zero_iff]
              exact hne

/-- The length and the bytes that a copy gives. -/
def Returns (call : NdataCall) (block : Block) (pos : Nat) (result : Int × Memory) : Prop :=
  result.1 = call.length ∧
    result.2.load pos call.length = block.data.load (call.offset % 2 ^ 32) call.length

theorem returns_store (call : NdataCall) (block : Block) (pos : Nat) (buf : Memory) :
    Returns call block pos ((call.length : Int),
      buf.store pos (block.data.load (call.offset % 2 ^ 32) call.length)) := by
  refine ⟨rfl, ?_⟩
  have hload := Memory.load_store_self buf pos
    (block.data.load (call.offset % 2 ^ 32) call.length)
  rwa [Memory.length_load] at hload

section Run

variable (hlength : 0 < call.length)
  (hagree : ∀ s ∈ servers, (cluster s).get (reader.key call.dataId) = none ∨
    (cluster s).get (reader.key call.dataId) = some block)

include hlength hagree

/-- A copy on the client's node is found, whatever is in the buffer. -/
theorem returns_of_local {local_ : Nat} (hmem : local_ ∈ servers)
    (hheld : ((cluster local_).get (reader.key call.dataId)).isSome)
    (hlocal : reader.useLocal local_ = true) (buf : Memory) :
    Returns call block pos (reader.getNdataFrom config cluster call pos servers buf) := by
  induction servers generalizing buf with
  | nil => cases hmem
  | cons s servers ih =>
      have hrest : ∀ s' ∈ servers, (cluster s').get (reader.key call.dataId) = none ∨
          (cluster s').get (reader.key call.dataId) = some block :=
        fun s' hs' => hagree s' (List.mem_cons_of_mem s hs')
      -- a server that is not the local one is passed, or it returns the bytes itself
      have hnext : local_ ≠ s → ∀ buf,
          Returns call block pos (reader.getNdataFrom config cluster call pos servers buf) := by
        intro hne
        exact ih hrest ((List.mem_cons.mp hmem).resolve_left hne)
      rcases hagree s List.mem_cons_self with hget | hget
      · rw [getNdataFrom_missing hlength hget]
        apply hnext
        rintro rfl
        rw [hget] at hheld
        cases hheld
      · cases hhere : reader.useLocal s with
        | true =>
            rw [getNdataFrom_local hlength hget hhere]
            exact returns_store call block pos _
        | false =>
            rw [getNdataFrom_remote hlength hget hhere]
            split
            · apply hnext
              rintro rfl
              rw [hhere] at hlocal
              cases hlocal
            · exact returns_store call block pos buf

/-- With the text in the buffer, a copy is found if it covers the text. -/
theorem returns_of_marked {buf : Memory}
    (hmarked : buf.load pos Client.noKeyAvail.length = Client.noKeyAvail)
    (hcovers : (buf.store pos (block.data.load (call.offset % 2 ^ 32) call.length)).load pos
      Client.noKeyAvail.length ≠ Client.noKeyAvail)
    (hheld : ∃ s ∈ servers, ((cluster s).get (reader.key call.dataId)).isSome) :
    Returns call block pos (reader.getNdataFrom config cluster call pos servers buf) := by
  induction servers generalizing buf with
  | nil =>
      obtain ⟨s, hs, -⟩ := hheld
      cases hs
  | cons s servers ih =>
      rcases hagree s List.mem_cons_self with hget | hget
      · rw [getNdataFrom_missing hlength hget]
        have hagain := Client.load_noKeyAvail buf pos
        apply ih (fun s' hs' => hagree s' (List.mem_cons_of_mem s hs')) hagain
        · rwa [Memory.load_store_congr (hagain.trans hmarked.symm)]
        · obtain ⟨s', hs', hsome⟩ := hheld
          rcases List.mem_cons.mp hs' with rfl | hs'
          · rw [hget] at hsome
            cases hsome
          · exact ⟨s', hs', hsome⟩
      · cases hhere : reader.useLocal s with
        | true =>
            rw [getNdataFrom_local hlength hget hhere]
            exact returns_store call block pos _
        | false =>
            rw [getNdataFrom_remote hlength hget hhere, if_neg hcovers]
            exact returns_store call block pos buf

/-- With the text in the buffer, copies on other servers that look like it are all passed. -/
theorem notFound_of_marked {buf : Memory}
    (hmarked : buf.load pos Client.noKeyAvail.length = Client.noKeyAvail)
    (hlooks : (buf.store pos (block.data.load (call.offset % 2 ^ 32) call.length)).load pos
      Client.noKeyAvail.length = Client.noKeyAvail)
    (hremote : ∀ s ∈ servers, ((cluster s).get (reader.key call.dataId)).isSome →
      reader.useLocal s = false) :
    (reader.getNdataFrom config cluster call pos servers buf).1 = -1 := by
  induction servers generalizing buf with
  | nil => rfl
  | cons s servers ih =>
      have hrest : ∀ s' ∈ servers, (cluster s').get (reader.key call.dataId) = none ∨
          (cluster s').get (reader.key call.dataId) = some block :=
        fun s' hs' => hagree s' (List.mem_cons_of_mem s hs')
      have hother : ∀ s' ∈ servers, ((cluster s').get (reader.key call.dataId)).isSome →
          reader.useLocal s' = false :=
        fun s' hs' => hremote s' (List.mem_cons_of_mem s hs')
      rcases hagree s List.mem_cons_self with hget | hget
      · rw [getNdataFrom_missing hlength hget]
        have hagain := Client.load_noKeyAvail buf pos
        exact ih hrest hagain (Memory.load_store_of_load hlooks hagain) hother
      · have hhere := hremote s List.mem_cons_self (by rw [hget]; rfl)
        rw [getNdataFrom_remote hlength hget hhere, if_pos hlooks]
        exact ih hrest hlooks (Memory.load_store_of_load hlooks hlooks) hother

end Run

end BlockReader

/-! ## The whole call -/

namespace Copies

open BlockReader

variable {nStorages : Nat} {reader : BlockReader nStorages} {config : ServerConfig}
  {call : NdataCall} (copies : Copies reader call.dataId) {pos : Nat} {buf : Memory}

theorem heldBy_of_get {s : Nat}
    (hget : (copies.cluster s).get (reader.key call.dataId) = some copies.block) :
    copies.HeldBy s := by
  rw [HeldBy, hget]
  rfl

theorem not_heldBy_of_get {s : Nat}
    (hget : (copies.cluster s).get (reader.key call.dataId) = none) : ¬ copies.HeldBy s := by
  rw [HeldBy, hget]
  exact Bool.false_ne_true

/-- Without a location no server is asked. -/
theorem getNdata_eq (config : ServerConfig) (pos : Nat) (buf : Memory) :
    reader.getNdata config copies.cluster call pos buf =
      if (reader.dataset.getDataLocation reader.stack call.dataId).isSome then
        reader.getNdataFrom config copies.cluster call pos
          (reader.dataset.targets reader.stack call.dataId) buf
      else (-2, buf) := by
  rw [BlockReader.getNdata, Dataset.targets]
  cases reader.dataset.getDataLocation reader.stack call.dataId <;> rfl

section Loop

variable (hlength : 0 < call.length)

include hlength

/-- The first copy is not taken for the text, or there is one on the client's node. -/
theorem returns_of_distinct (config : ServerConfig) (hheld : copies.Held)
    (hdistinct : (∃ s ∈ reader.dataset.targets reader.stack call.dataId,
        copies.HeldBy s ∧ reader.useLocal s = true) ∨
      ((copies.bufferBefore pos buf).store pos
        (copies.block.data.load (call.offset % 2 ^ 32) call.length)).load pos
          Client.noKeyAvail.length ≠ Client.noKeyAvail) :
    Returns call copies.block pos (reader.getNdataFrom config copies.cluster call pos
      (reader.dataset.targets reader.stack call.dataId) buf) := by
  have hagree := copies.agree
  rcases hdistinct with ⟨s, hs, hsome, hlocal⟩ | hcovers
  · exact returns_of_local hlength hagree hs hsome hlocal buf
  obtain ⟨holder, hholder, hsome⟩ := hheld
  rw [bufferBefore] at hcovers
  cases htargets : reader.dataset.targets reader.stack call.dataId with
  | nil =>
      rw [htargets] at hholder
      cases hholder
  | cons s servers =>
      rw [htargets] at hcovers hholder hagree
      simp only at hcovers
      rcases hagree s List.mem_cons_self with hget | hget
      · have hmissing := copies.not_heldBy_of_get hget
        have hother : holder ≠ s := by
          rintro rfl
          exact hmissing hsome
        rw [if_neg hmissing] at hcovers
        rw [getNdataFrom_missing hlength hget]
        exact returns_of_marked hlength (fun s' hs' => hagree s' (List.mem_cons_of_mem s hs'))
          (Client.load_noKeyAvail buf pos) hcovers
          ⟨holder, (List.mem_cons.mp hholder).resolve_left hother, hsome⟩
      · rw [if_pos (copies.heldBy_of_get hget)] at hcovers
        cases hhere : reader.useLocal s with
        | true =>
            rw [getNdataFrom_local hlength hget hhere]
            exact returns_store call copies.block pos _
        | false =>
            rw [getNdataFrom_remote hlength hget hhere, if_neg hcovers]
            exact returns_store call copies.block pos buf

/-- All copies are on other servers and the first one looks like the text. -/
theorem notFound_of_not_distinct
    (hremote : ∀ s ∈ reader.dataset.targets reader.stack call.dataId, copies.HeldBy s →
      reader.useLocal s = false)
    (hlooks : ((copies.bufferBefore pos buf).store pos
      (copies.block.data.load (call.offset % 2 ^ 32) call.length)).load pos
        Client.noKeyAvail.length = Client.noKeyAvail) :
    (reader.getNdataFrom config copies.cluster call pos
      (reader.dataset.targets reader.stack call.dataId) buf).1 = -1 := by
  have hagree := copies.agree
  rw [bufferBefore] at hlooks
  cases htargets : reader.dataset.targets reader.stack call.dataId with
  | nil => rfl
  | cons s servers =>
      rw [htargets] at hlooks hremote hagree
      simp only at hlooks
      have hrest := fun s' hs' => hagree s' (List.mem_cons_of_mem s hs')
      have hother := fun s' hs' => hremote s' (List.mem_cons_of_mem s hs')
      rcases hagree s List.mem_cons_self with hget | hget
      · have hmissing := copies.not_heldBy_of_get hget
        rw [if_neg hmissing] at hlooks
        rw [getNdataFrom_missing hlength hget]
        exact notFound_of_marked hlength hrest (Client.load_noKeyAvail buf pos) hlooks hother
      · have hhead := copies.heldBy_of_get hget
        rw [if_pos hhead] at hlooks
        rw [getNdataFrom_remote hlength hget (hremote s List.mem_cons_self hhead), if_pos hlooks]
        exact notFound_of_marked hlength hrest hlooks (Memory.load_store_of_load hlooks hlooks)
          hother

end Loop

theorem length_requested : copies.requested.length =
    min call.length (copies.block.size - call.offset) :=
  Memory.length_load

/-- A read that returns another number of bytes is not right. -/
theorem not_readRight_of_count (hheld : copies.Held)
    (hcount : (reader.getNdata config copies.cluster call pos buf).1 ≠ copies.requested.length) :
    ¬ copies.ReadRight config pos buf :=
  fun hright => hcount (hright.1 hheld).1

/-- The stored bytes are returned, and a missing block is reported only if it is missing, exactly
if the range is inside of the block and the first copy can be told from the text. -/
theorem readRight_iff (config : ServerConfig) (pos : Nat) (buf : Memory) :
    copies.ReadRight config pos buf ↔ (copies.Held → copies.Distinct pos buf) := by
  by_cases hheld : copies.Held
  · have hlocated : (reader.dataset.getDataLocation reader.stack call.dataId).isSome := by
      obtain ⟨s, hs, -⟩ := hheld
      rw [Dataset.targets] at hs
      split at hs
      · cases hs
      next hlocation =>
        rw [hlocation]
        rfl
    rw [ReadRight, copies.getNdata_eq, if_pos hlocated]
    constructor
    · rintro ⟨hright, -⟩ -
      obtain ⟨hcount, hbytes⟩ := hright hheld
      have hlength : 0 < call.length := by
        by_contra hzero
        have hlengthZero : call.length = 0 := by omega
        rw [copies.length_requested, hlengthZero, Nat.zero_min] at hcount
        exact getNdataFrom_zero hlengthZero _ buf hcount
      have hdistinct : (∃ s ∈ reader.dataset.targets reader.stack call.dataId,
            copies.HeldBy s ∧ reader.useLocal s = true) ∨
          ((copies.bufferBefore pos buf).store pos
            (copies.block.data.load (call.offset % 2 ^ 32) call.length)).load pos
              Client.noKeyAvail.length ≠ Client.noKeyAvail := by
        by_contra hnot
        rw [not_or, not_not] at hnot
        have hremote : ∀ s ∈ reader.dataset.targets reader.stack call.dataId, copies.HeldBy s →
            reader.useLocal s = false := by
          intro s hs hsome
          rw [← Bool.not_eq_true]
          intro hlocal
          exact hnot.1 ⟨s, hs, hsome, hlocal⟩
        rw [copies.notFound_of_not_distinct hlength hremote hnot.2] at hcount
        omega
      have hreturns := copies.returns_of_distinct hlength config hheld hdistinct
      -- all bytes that are asked for come back, so all of them are in the block
      have hall : copies.requested.length = call.length :=
        Int.ofNat.inj (hcount.symm.trans hreturns.1)
      have hinside : call.offset + call.length ≤ copies.block.size := by
        rw [copies.length_requested] at hall
        omega
      rw [hall] at hbytes
      have hsame := hreturns.2.symm.trans hbytes
      rw [hsame] at hdistinct
      exact ⟨hlength, hinside, hsame, hdistinct⟩
    · intro hdistinct
      obtain ⟨hlength, hinside, hsame, hcases⟩ := hdistinct hheld
      rw [← hsame] at hcases
      obtain ⟨hcount, hbytes⟩ := copies.returns_of_distinct hlength config hheld hcases
      have hall : copies.requested.length = call.length := by
        rw [copies.length_requested]
        omega
      refine ⟨fun _ => ?_, fun hnone => ?_⟩
      · rw [hall]
        exact ⟨hcount, hbytes.trans hsame⟩
      rw [hcount] at hnone
      omega
  · constructor
    · intro _ h
      exact absurd h hheld
    · intro _
      exact ⟨fun h => absurd h hheld, fun _ => hheld⟩

end Copies

/-! ## Bytes that look like the text -/

/-- Two copies of `imss://f` on two servers, read without shared memory. -/
def copiesReader : BlockReader 2 where
  dataset := { exampleDataset 2 (by decide) with replFactor := 2, repl_le := le_refl 2 }
  matchingServerId := none
  shmId _ := 0
  stack := []

/-- A block that starts with the text. -/
def textBlock : Block :=
  ⟨Memory.store (fun _ => 0) 0 Client.noKeyAvail, 4096⟩

/-- A block on the servers that `held` names. -/
def textCopies (call : NdataCall) (held : Nat → Bool) : Copies copiesReader call.dataId where
  cluster s :=
    if held s then
      { DataServer.init imssRoot with
        store := (HierarchicalRecords.init imssRoot).hierarchicalMapPut Block.isDirectory
          (copiesReader.key call.dataId) textBlock false }
    else DataServer.init imssRoot
  block := textBlock
  agree s _ := by
    split
    · exact Or.inr (HierarchicalRecords.hierarchicalMapGet_put_self Block.isDirectory
        (HierarchicalRecords.hierarchicalMapGet_init _ _) textBlock false)
    · exact Or.inl (HierarchicalRecords.hierarchicalMapGet_init _ _)

/-- The first 22 bytes of block 1. -/
def textCall : NdataCall :=
  ⟨1, 0, 22, by decide, by decide⟩

/-- The first byte of block 1. -/
def byteCall : NdataCall :=
  ⟨1, 0, 1, by decide, by decide⟩

/-- Two bytes of block 1, of which only the first one is in the block. -/
def lastCall : NdataCall :=
  ⟨1, 4095, 2, by decide, by decide⟩

/-- Both servers have a block that starts with the text: 22 bytes of it are not found. Only the
second server that is asked has it: not even its first byte is found, because the text of the other
server is still in the buffer. At the end of the block a byte more is returned than there is. -/
theorem not_readRight :
    ¬ (textCopies textCall fun _ => true).ReadRight ⟨4096, 4096⟩ 0 (fun _ => 0) ∧
      ¬ (textCopies byteCall fun s => s = 0).ReadRight ⟨4096, 4096⟩ 0 (fun _ => 0) ∧
      ¬ (textCopies lastCall fun _ => true).ReadRight ⟨4096, 4096⟩ 0 (fun _ => 0) := by
  refine ⟨Copies.not_readRight_of_count _ ?_ ?_, Copies.not_readRight_of_count _ ?_ ?_,
    Copies.not_readRight_of_count _ ?_ ?_⟩
  -- server 0 has the block in all three
  · exact ⟨0, by decide +kernel, by decide +kernel⟩
  · decide +kernel
  · exact ⟨0, by decide +kernel, by decide +kernel⟩
  · decide +kernel
  · exact ⟨0, by decide +kernel, by decide +kernel⟩
  · decide +kernel

end Hercules
