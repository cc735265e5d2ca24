/-
# Requests as text

A client sends a data server one line of text, which `srv_worker_helper` scans
with `"%s %u %u %s %lu"`; the bytes of a write follow in a message of their own.
What a client prints is scanned back field by field if the dataset's name is a
single word. Numbers are reduced to the width of the field that receives them.

An unlink request ends in the number of open descriptors, but its handler takes
the number from `block_offset`, which the request sets to zero.
-/

import Hercules.Server.Data
import Hercules.Server.RenameDir

namespace Hercules

open Lib Lib.Text

/-- The variables that the scan fills: `mode`, `block_size_recv`, `block_offset`,
`uri_` and `to_read`. -/
structure ScannedRequest where
  mode : CString
  blockSizeRecv : Nat
  blockOffset : Nat
  uri : CString
  toRead : Nat

/-- The `sscanf` of `srv_worker_helper`. Only `to_read` has a value when its field
is missing. -/
def scanRequest (req : CString) : Option ScannedRequest := do
  let (mode, req) ← scanWord req
  let (blockSizeRecv, req) ← scanInt req
  let (blockOffset, req) ← scanInt req
  let (uri, req) ← scanWord req
  let toRead := ((scanInt req).map Prod.fst).getD 0
  return ⟨mode, (blockSizeRecv % 2 ^ 32).toNat, (blockOffset % 2 ^ 32).toNat, uri,
    (toRead % 2 ^ 64).toNat⟩

/-- What a data server sends back: a confirmation, or the bytes of a block. An
unknown block is answered with the not-found text, `none` here. -/
inductive Response
  | confirmation (reply : Option Reply)
  | block (data : Option (List UInt8))
  deriving DecidableEq

namespace DataServer

/-- The two names of a rename request, separated by the first comma. -/
def splitNames (key : CString) : Option (CString × CString) :=
  match fromOn ',' key with
  | [] => none
  | _ :: new => some (upTo ',' key, new)

theorem splitNames_eq_some {key old new : CString} (h : splitNames key = some (old, new)) :
    key = old ++ ',' :: new ∧ ',' ∉ old := by
  rw [splitNames] at h
  split at h
  · cases h
  next c tail hfrom =>
    obtain ⟨rfl, rfl⟩ := Prod.mk.inj (Option.some.inj h)
    have hmem : ',' ∈ key := by
      by_contra hnot
      have hwhole := upTo_append_fromOn ',' key
      rw [upTo_of_notMem hnot, hfrom] at hwhole
      simp at hwhole
    obtain ⟨tail', htail'⟩ := exists_eq_upTo_append_cons hmem
    rw [htail', fromOn_append_cons (notMem_upTo ',' key), List.cons.injEq] at hfrom
    exact ⟨by rw [← hfrom.2]; exact htail', notMem_upTo ',' key⟩

theorem splitNames_of_notMem {old : CString} (h : ',' ∉ old) (new : CString) :
    splitNames (old ++ ',' :: new) = some (old, new) := by
  rw [splitNames, fromOn_append_cons h, upTo_append_cons h]

/-- A comma in the old name takes the place of the separator. -/
theorem splitNames_of_mem {old : CString} (h : ',' ∈ old) (new : CString) :
    ∃ tail, old = upTo ',' old ++ ',' :: tail ∧
      splitNames (old ++ ',' :: new) = some (upTo ',' old, tail ++ ',' :: new) := by
  obtain ⟨tail, htail⟩ := exists_eq_upTo_append_cons h
  refine ⟨tail, htail, ?_⟩
  have hkey : old ++ ',' :: new = upTo ',' old ++ ',' :: (tail ++ ',' :: new) := by
    conv_lhs => rw [htail]
    simp
  rw [hkey, splitNames, fromOn_append_cons (notMem_upTo ',' old),
    upTo_append_cons (notMem_upTo ',' old)]

/-- `RENAME_OP`; an exception of the map ends the server. -/
def rename (server : DataServer) (key : CString) : Option (Reply × DataServer) :=
  match splitNames key with
  | none => some (.error, server)
  | some (oldKey, newKey) =>
      match srvRename server.store oldKey newKey with
      | .error _ => none
      | .ok (reply, store) => some (reply, { server with store := store })

/-- `RENAME_DIR_DIR_OP`. -/
def renameDirDir (server : DataServer) (key : CString) : Reply × DataServer :=
  match splitNames key with
  | none => (.error, server)
  | some (oldDir, rdirDest) =>
      let (reply, store) := srvRenameDirDir server.store oldDir rdirDest
      (reply, { server with store := store })

/-- `srv_worker_helper` for the requests of one client on the network path:
`payload` is the message after a `SET`. There is no result if the server ends, or
for the modes and operations that are not modelled. -/
def serve (config : ServerConfig) (server : DataServer) (req : CString) (payload : List UInt8)
    (fresh : Memory) : Option (Response × DataServer) :=
  match scanRequest req with
  | none => none
  | some ⟨mode, blockSizeRecv, blockOffset, key, toRead⟩ =>
      if mode = ['S', 'E', 'T'] then
        let (reply, server) := server.write config key blockOffset payload fresh
        some (.confirmation reply, server)
      else if mode = ['G', 'E', 'T'] then
        match blockSizeRecv with
        | 0 => some (.block (server.read key blockOffset toRead), server)
        | 4 =>
            let (reply, server) := server.delete key
            some (.confirmation reply, server)
        | 5 => (server.rename key).map fun (reply, server) => (.confirmation reply, server)
        | 6 =>
            let (reply, server) := server.renameDirDir key
            some (.confirmation reply, server)
        | 12 =>
            (server.unlink key blockOffset).map fun (reply, server) =>
              (.confirmation reply, server)
        | _ => none
      else none

end DataServer

/-! ## The requests that clients print -/

/-- The common layout of all requests. -/
def printRequest (mode : CString) (number offset : Nat) (key rest : CString) : CString :=
  mode ++ ' ' :: (decimal number ++ ' ' :: (decimal offset ++ ' ' :: (key ++ rest)))

/-- `"SET %lu %ld %s$%d"`, sent by `set_data`. -/
def setRequest (size offset : Nat) (uri : CString) (dataId : Int) : CString :=
  printRequest ['S', 'E', 'T'] size offset (blockKey uri dataId) []

/-- `"GET 0 %ld %s$%d %ld"`, sent by `get_ndata`. -/
def readRequest (offset : Nat) (uri : CString) (dataId : Int) (toRead : Nat) : CString :=
  printRequest ['G', 'E', 'T'] 0 offset (blockKey uri dataId) (' ' :: decimal toRead)

/-- `"GET 4 0 %s"`, sent by `delete_dataset_srv_worker`. -/
def deleteRequest (uri : CString) : CString :=
  printRequest ['G', 'E', 'T'] 4 0 uri []

/-- `"GET 5 0 %s,%s"`, sent by `rename_dataset_srv_worker`. -/
def renameRequest (oldUri newUri : CString) : CString :=
  printRequest ['G', 'E', 'T'] 5 0 (oldUri ++ ',' :: newUri) []

/-- `"GET 12 0 %s$0 %d"`, sent by `unlink_dataset`. -/
def unlinkRequest (uri : CString) (nOpen : Int) : CString :=
  printRequest ['G', 'E', 'T'] 12 0 (blockKey uri 0) (' ' :: decimal nOpen)

theorem isWord_blockKey {uri : CString} (huri : IsWord uri) (dataId : Int) :
    IsWord (blockKey uri dataId) :=
  huri.append (IsWord.append (w := ['$']) (by decide) (isWord_decimal dataId))

/-- A printed request is scanned back. -/
theorem scanRequest_print {mode key : CString} (hmode : IsWord mode) (hmodeNe : mode ≠ [])
    (hkey : IsWord key) (hkeyNe : key ≠ []) {rest : CString} (hrest : EndsField rest)
    (number offset : Nat) :
    scanRequest (printRequest mode number offset key rest) =
      some ⟨mode, number % 2 ^ 32, offset % 2 ^ 32, key,
        (((scanInt rest).map Prod.fst).getD 0 % 2 ^ 64).toNat⟩ := by
  have hscanMode := scanWord_append hmodeNe hmode (endsField_space
    (decimal number ++ ' ' :: (decimal offset ++ ' ' :: (key ++ rest))))
  have hscanNumber := scanInt_append number (endsField_space
    (decimal offset ++ ' ' :: (key ++ rest)))
  have hscanOffset := scanInt_append offset (endsField_space (key ++ rest))
  have hscanKey := scanWord_append hkeyNe hkey hrest
  simp only [scanRequest, printRequest, hscanMode, Option.bind_eq_bind, Option.bind_some,
    scanInt_space, scanWord_space, hscanNumber, hscanOffset, hscanKey]
  rfl

/-! ## How a server answers them -/

namespace DataServer

variable {uri : CString} (huri : IsWord uri) (config : ServerConfig) (server : DataServer)

include huri

theorem serve_set (size offset : Nat) (dataId : Int) (payload : List UInt8) (fresh : Memory) :
    server.serve config (setRequest size offset uri dataId) payload fresh =
      some (.confirmation
          (server.write config (blockKey uri dataId) (offset % 2 ^ 32) payload fresh).1,
        (server.write config (blockKey uri dataId) (offset % 2 ^ 32) payload fresh).2) := by
  rw [serve, setRequest, scanRequest_print (by decide) (by decide) (isWord_blockKey huri dataId)
    (List.ne_nil_of_mem (dollar_mem_blockKey uri dataId)) endsField_nil]
  rfl

theorem serve_read (offset : Nat) (dataId : Int) (toRead : Nat) (payload : List UInt8)
    (fresh : Memory) :
    server.serve config (readRequest offset uri dataId toRead) payload fresh =
      some (.block (server.read (blockKey uri dataId) (offset % 2 ^ 32) (toRead % 2 ^ 64)),
        server) := by
  have hnumber := scanInt_append toRead endsField_nil
  rw [List.append_nil] at hnumber
  rw [serve, readRequest, scanRequest_print (by decide) (by decide) (isWord_blockKey huri dataId)
    (List.ne_nil_of_mem (dollar_mem_blockKey uri dataId)) (endsField_space _), scanInt_space,
    hnumber]
  rfl

theorem serve_delete (hne : uri ≠ []) (payload : List UInt8) (fresh : Memory) :
    server.serve config (deleteRequest uri) payload fresh =
      some (.confirmation (some (server.delete uri).1), (server.delete uri).2) := by
  rw [serve, deleteRequest, scanRequest_print (by decide) (by decide) huri hne endsField_nil]
  rfl

/-- The number of open descriptors does not reach the handler. -/
theorem serve_unlink (nOpen : Int) (payload : List UInt8) (fresh : Memory) :
    server.serve config (unlinkRequest uri nOpen) payload fresh =
      (server.unlink (blockKey uri 0) 0).map fun result =>
        (.confirmation (some result.1), result.2) := by
  rw [serve, unlinkRequest, scanRequest_print (by decide) (by decide) (isWord_blockKey huri 0)
    (List.ne_nil_of_mem (dollar_mem_blockKey uri 0)) (endsField_space _)]
  rfl

theorem serve_rename {new : CString} (hnew : IsWord new) (payload : List UInt8)
    (fresh : Memory) :
    server.serve config (renameRequest uri new) payload fresh =
      (server.rename (uri ++ ',' :: new)).map fun result =>
        (.confirmation (some result.1), result.2) := by
  have hkey : IsWord (uri ++ ',' :: new) :=
    huri.append (IsWord.append (w := [',']) (by decide) hnew)
  rw [serve, renameRequest, scanRequest_print (by decide) (by decide) hkey (by simp)
    endsField_nil]
  rfl

end DataServer

end Hercules
