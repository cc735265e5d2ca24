/-
# A metadata server

A metadata server keeps one `dataset_info` for each dataset. It counts who has the
dataset open, marks it for destruction when it is unlinked, and removes it once
nobody has it open. The handlers below are the branches of `stat_worker_helper` for
one request at a time. What a request does to the record of one name is said once,
by `MetadataRequest.effect`; every other result follows from that.
-/

import Hercules.Intervals
import Hercules.Policies
import Hercules.Server.RenameDir

namespace Hercules

open Std Lib Lib.Text

/-- The values of `status`. -/
inductive DatasetStatus
  | attach
  | dest
  | dirty
  deriving DecidableEq

/-- The fields of `dataset_info` that requests for one dataset use. -/
structure DatasetRecord extends DatasetInfo where
  nOpen : Int
  status : DatasetStatus
  intervals : List IntervalEntry
  deriving DecidableEq

namespace DatasetRecord

/-- `n_open += 1` on an `int`. -/
def opened (record : DatasetRecord) : DatasetRecord :=
  { record with nOpen := int32 (record.nOpen + 1) }

theorem nOpen_opened {record : DatasetRecord} (hlower : 0 ≤ record.nOpen)
    (hupper : record.nOpen < 2 ^ 31 - 1) : record.opened.nOpen = record.nOpen + 1 := by
  rw [opened]
  exact int32_of_fits (by omega) (by omega)

/-- The counter after a close; it does not fall below zero. -/
def closed (record : DatasetRecord) : DatasetRecord :=
  if 0 < record.nOpen then { record with nOpen := record.nOpen - 1 } else record

/-- The mark that `DELETE_OP` makes for operation 4. -/
def marked (record : DatasetRecord) (operation : Nat) : DatasetRecord :=
  if operation = 4 then { record with status := .dest } else record

/-- A dirty record that is used again, after `ClearIntervalsStructure`. -/
def recovered (record : DatasetRecord) : DatasetRecord :=
  if record.status = .dirty then { record with status := .attach, intervals := [] } else record

/-- `strncpy(data->uri_, new_path, URI_)`. -/
def setUri (newPath : CString) (record : DatasetRecord) : DatasetRecord :=
  { record with uri := newPath.take 256 }

/-- A stored record takes over the intervals of a received one, and nothing else. -/
def merged (record received : DatasetRecord) : DatasetRecord :=
  { record with
    intervals := received.intervals.foldl
      (fun intervals entry => setInterval intervals entry.value entry.left entry.right)
      record.intervals }

end DatasetRecord

/-- The replies to these requests; `error` is the text of `err_code`. -/
inductive MetadataReply
  | ok
  | error
  | dataset (record : DatasetRecord)
  | delete
  | noDelete
  | close
  | opened
  deriving DecidableEq

/-- The requests for one dataset, with the operation number in front of `GET` where
the server looks at it, and the structure that follows a `SET`. -/
inductive MetadataRequest
  | readOp (operation : Nat) (uri : CString)
  | deleteOp (operation : Nat) (uri : CString)
  | closeOp (uri : CString)
  | openOp (uri : CString)
  | setOp (uri : CString) (received : DatasetRecord)

/-- The URI of a request. -/
def MetadataRequest.uri : MetadataRequest → CString
  | .readOp _ uri | .deleteOp _ uri | .closeOp uri | .openOp uri | .setOp uri _ => uri

/-- A metadata server: the URI of its instance and the records. -/
structure MetadataServer where
  imssUri : CString
  store : HierarchicalRecords DatasetRecord

namespace MetadataServer

/-- A server after its start. -/
def init (imssUri : CString) : MetadataServer :=
  ⟨imssUri, HierarchicalRecords.init imssUri⟩

/-- The key of a URI: only the instance keeps its trailing slash. -/
def key (server : MetadataServer) (uri : CString) : CString :=
  if uri = server.imssUri then uri else removeLastSlash uri

/-- `HierarchicalMapGet`. -/
def get (server : MetadataServer) (key : CString) : Option DatasetRecord :=
  server.store.hierarchicalMapGet key

/-- A store through the address of the record. -/
def update (server : MetadataServer) (key : CString) (record : DatasetRecord) : MetadataServer :=
  { server with store := server.store.update key record }

/-- The end of a dataset: it is marked as dirty, its key is put in the garbage list,
and its entry is deleted. -/
def remove (server : MetadataServer) (key : CString) (record : DatasetRecord) : MetadataServer :=
  { server with
    store := ((server.store.update key { record with status := .dirty
      }).hierarchicalMapPutInGarbageCollector key).hierarchicalMapDeleteEntry key }

/-- A dirty record that is used again leaves the garbage list. -/
def recover (server : MetadataServer) (key : CString) (record : DatasetRecord) : MetadataServer :=
  if record.status = .dirty then
    { server with store := server.store.hierarchicalMapPopFromGarbageCollector key }
  else server

/-- `READ_OP`. -/
def readOp (server : MetadataServer) (operation : Nat) (uri : CString) :
    MetadataReply × MetadataServer :=
  match server.get (server.key uri) with
  | none => (.error, server)
  | some record =>
      if record.status = .dirty then (.error, server)
      else if operation = 1 then
        (.dataset record.opened, server.update (server.key uri) record.opened)
      else (.dataset record, server)

/-- `DELETE_OP`. -/
def deleteOp (server : MetadataServer) (operation : Nat) (uri : CString) :
    MetadataReply × MetadataServer :=
  match server.get (server.key uri) with
  | none => (.error, server)
  | some record =>
      if record.nOpen = 0 then
        (.delete, server.remove (server.key uri) (record.marked operation))
      else (.noDelete, server.update (server.key uri) (record.marked operation))

/-- `CLOSE_OP`. -/
def closeOp (server : MetadataServer) (uri : CString) : MetadataReply × MetadataServer :=
  match server.get (server.key uri) with
  | none => (.error, server)
  | some record =>
      if record.closed.status = .dest ∧ record.closed.nOpen = 0 then
        (.delete, server.remove (server.key uri) record.closed)
      else (.close, server.update (server.key uri) record.closed)

/-- `OPEN_OP`. -/
def openOp (server : MetadataServer) (uri : CString) : MetadataReply × MetadataServer :=
  match server.get (server.key uri) with
  | none => (.error, server)
  | some record =>
      (.opened, (server.recover (server.key uri) record).update (server.key uri)
        record.recovered.opened)

/-- `SET_OP`. -/
def setOp (server : MetadataServer) (uri : CString) (received : DatasetRecord) :
    MetadataReply × MetadataServer :=
  match server.get (server.key uri) with
  | none =>
      (.ok, { server with
        store := server.store.hierarchicalMapPut (fun record => record.isDirectory)
          (server.key uri) received true })
  | some record =>
      (.ok, (server.recover (server.key uri) record).update (server.key uri)
        (record.recovered.merged received))

/-- `stat_worker_helper` for one of these requests. -/
def handle (server : MetadataServer) : MetadataRequest → MetadataReply × MetadataServer
  | .readOp operation uri => server.readOp operation uri
  | .deleteOp operation uri => server.deleteOp operation uri
  | .closeOp uri => server.closeOp uri
  | .openOp uri => server.openOp uri
  | .setOp uri received => server.setOp uri received

/-- One pass of the garbage collector. -/
def clean (server : MetadataServer) : MetadataServer :=
  { server with store := server.store.hierarchicalMapCleanGarbageCollectorMetadata }

end MetadataServer

/-- What a request does to the record of the name it is for. -/
def MetadataRequest.effect : MetadataRequest → Option DatasetRecord → Option DatasetRecord
  | .setOp _ received, none => some received
  | _, none => none
  | .readOp operation _, some record =>
      if operation = 1 ∧ record.status ≠ .dirty then some record.opened else some record
  | .deleteOp operation _, some record =>
      if record.nOpen = 0 then none else some (record.marked operation)
  | .closeOp _, some record =>
      if record.closed.status = .dest ∧ record.closed.nOpen = 0 then none else some record.closed
  | .openOp _, some record => some record.recovered.opened
  | .setOp _ received, some record => some (record.recovered.merged received)

namespace MetadataServer

variable {server : MetadataServer}

/-! ## The record of a name after a request -/

@[simp]
theorem get_init (imssUri key : CString) : (init imssUri).get key = none :=
  HierarchicalRecords.hierarchicalMapGet_init imssUri key

theorem get_update {key : CString} (hsome : (server.get key).isSome) (record : DatasetRecord)
    (key' : CString) :
    (server.update key record).get key' = if key = key' then some record else server.get key' := by
  rw [get, update]
  split
  next heq =>
    subst heq
    exact HierarchicalRecords.hierarchicalMapGet_update_self hsome record
  next hne => exact HierarchicalRecords.hierarchicalMapGet_update_of_ne server.store hne record

theorem get_remove (key : CString) (record : DatasetRecord) (key' : CString) :
    (server.remove key record).get key' = if key = key' then none else server.get key' := by
  rw [get, remove, HierarchicalRecords.hierarchicalMapGet_deleteEntry]
  split
  · rfl
  next hne =>
    rw [HierarchicalRecords.hierarchicalMapGet_putInGarbageCollector]
    exact HierarchicalRecords.hierarchicalMapGet_update_of_ne server.store hne _

@[simp]
theorem get_recover (key : CString) (record : DatasetRecord) (key' : CString) :
    (server.recover key record).get key' = server.get key' := by
  rw [recover]
  split
  · exact HierarchicalRecords.hierarchicalMapGet_popFromGarbageCollector server.store key key'
  · rfl

theorem get_put {key : CString} (hnone : server.get key = none) (record : DatasetRecord)
    (key' : CString) :
    (server.store.hierarchicalMapPut (fun record => record.isDirectory) key record
      true).hierarchicalMapGet key' = if key = key' then some record else server.get key' := by
  split
  next heq =>
    subst heq
    exact HierarchicalRecords.hierarchicalMapGet_put_self _ hnone record true
  next hne => exact HierarchicalRecords.hierarchicalMapGet_put_of_ne _ server.store hne record true

/-- `server'` holds `found` under `key`, and the rest as `server` does. -/
def Holds (server server' : MetadataServer) (key : CString) (found : Option DatasetRecord) : Prop :=
  ∀ key', server'.get key' = if key = key' then found else server.get key'

theorem holds_self {key : CString} {found : Option DatasetRecord} (hget : server.get key = found) :
    Holds server server key found := by
  intro key'
  split
  next heq => rw [← heq, hget]
  next => rfl

section Handlers

variable {uri : CString}

theorem holds_readOp (operation : Nat) :
    Holds server (server.readOp operation uri).2 (server.key uri)
      ((MetadataRequest.readOp operation uri).effect (server.get (server.key uri))) := by
  rw [readOp]
  cases hget : server.get (server.key uri) with
  | none => exact holds_self hget
  | some record =>
      simp only [MetadataRequest.effect]
      by_cases hdirty : record.status = .dirty
      · rw [if_pos hdirty, if_neg (fun h => h.2 hdirty)]
        exact holds_self hget
      · rw [if_neg hdirty]
        by_cases hone : operation = 1
        · rw [if_pos hone, if_pos ⟨hone, hdirty⟩]
          exact get_update (by simp [hget]) record.opened
        · rw [if_neg hone, if_neg (fun h => hone h.1)]
          exact holds_self hget

/-- A record that is removed or replaced, as a test says. -/
theorem holds_remove_or_update {key : CString} {record removed updated : DatasetRecord}
    {reply : MetadataReply} (hget : server.get key = some record) (c : Prop) [Decidable c] :
    Holds server (if c then (.delete, server.remove key removed)
      else (reply, server.update key updated)).2 key (if c then none else some updated) := by
  split
  · exact get_remove _ _
  · exact get_update (by simp [hget]) _

theorem holds_deleteOp (operation : Nat) :
    Holds server (server.deleteOp operation uri).2 (server.key uri)
      ((MetadataRequest.deleteOp operation uri).effect (server.get (server.key uri))) := by
  rw [deleteOp]
  cases hget : server.get (server.key uri) with
  | none => exact holds_self hget
  | some record => exact holds_remove_or_update hget _

theorem holds_closeOp :
    Holds server (server.closeOp uri).2 (server.key uri)
      ((MetadataRequest.closeOp uri).effect (server.get (server.key uri))) := by
  rw [closeOp]
  cases hget : server.get (server.key uri) with
  | none => exact holds_self hget
  | some record => exact holds_remove_or_update hget _

theorem holds_recover_update {key : CString} {record : DatasetRecord}
    (hget : server.get key = some record) (record' : DatasetRecord) :
    Holds server ((server.recover key record).update key record') key (some record') := by
  intro key'
  rw [get_update (by simp [hget]), get_recover]

theorem holds_openOp :
    Holds server (server.openOp uri).2 (server.key uri)
      ((MetadataRequest.openOp uri).effect (server.get (server.key uri))) := by
  rw [openOp]
  cases hget : server.get (server.key uri) with
  | none => exact holds_self hget
  | some record => exact holds_recover_update hget _

theorem holds_setOp (received : DatasetRecord) :
    Holds server (server.setOp uri received).2 (server.key uri)
      ((MetadataRequest.setOp uri received).effect (server.get (server.key uri))) := by
  rw [setOp]
  cases hget : server.get (server.key uri) with
  | none => exact get_put hget received
  | some record => exact holds_recover_update hget _

end Handlers

/-- A request has its effect on the record of its own name and on no other. -/
theorem holds_handle (server : MetadataServer) (request : MetadataRequest) :
    Holds server (server.handle request).2 (server.key request.uri)
      (request.effect (server.get (server.key request.uri))) := by
  cases request with
  | readOp operation uri => exact holds_readOp operation
  | deleteOp operation uri => exact holds_deleteOp operation
  | closeOp uri => exact holds_closeOp
  | openOp uri => exact holds_openOp
  | setOp uri received => exact holds_setOp received

/-! ## The garbage list after a request -/

/-- What recovers a record leaves at most the old list. -/
theorem mem_garbageOf_recover {key name dir : CString} {record : DatasetRecord}
    (hmem : name ∈ (server.recover key record).store.garbageOf dir) :
    name ∈ server.store.garbageOf dir := by
  rw [recover] at hmem
  split at hmem
  · rw [HierarchicalRecords.garbageOf_popFromGarbageCollector] at hmem
    split at hmem
    · exact List.mem_of_mem_erase hmem
    · exact hmem
  · exact hmem

theorem mem_garbageOf_remove {key name dir : CString} {record : DatasetRecord}
    (hmem : name ∈ (server.remove key record).store.garbageOf dir) :
    name ∈ server.store.garbageOf dir ∨ name = key := by
  rw [remove, HierarchicalRecords.garbageOf_deleteEntry,
    HierarchicalRecords.garbageOf_putInGarbageCollector,
    HierarchicalRecords.garbageOf_update] at hmem
  split at hmem
  · rwa [List.mem_append, List.mem_singleton] at hmem
  · exact Or.inl hmem

/-- A name enters the list only when a delete or a close removes its record. -/
theorem mem_garbageOf_handle {request : MetadataRequest} {name dir : CString}
    (hmem : name ∈ (server.handle request).2.store.garbageOf dir) :
    name ∈ server.store.garbageOf dir ∨
      name = server.key request.uri ∧
        request.effect (server.get (server.key request.uri)) = none ∧
          ((∃ operation uri, request = .deleteOp operation uri) ∨
            ∃ uri, request = .closeOp uri) := by
  cases request with
  | readOp operation uri =>
      left
      rw [handle, readOp] at hmem
      split at hmem
      · exact hmem
      split at hmem
      · exact hmem
      split at hmem
      · rwa [update, HierarchicalRecords.garbageOf_update] at hmem
      · exact hmem
  | deleteOp operation uri =>
      rw [handle, deleteOp] at hmem
      split at hmem
      · exact Or.inl hmem
      next record hget =>
        split at hmem
        next hzero =>
          refine (mem_garbageOf_remove hmem).imp_right fun hname =>
            ⟨hname, ?_, Or.inl ⟨operation, uri, rfl⟩⟩
          simp [MetadataRequest.effect, MetadataRequest.uri, hget, hzero]
        next =>
          rw [update, HierarchicalRecords.garbageOf_update] at hmem
          exact Or.inl hmem
  | closeOp uri =>
      rw [handle, closeOp] at hmem
      split at hmem
      · exact Or.inl hmem
      next record hget =>
        split at hmem
        next hover =>
          refine (mem_garbageOf_remove hmem).imp_right fun hname =>
            ⟨hname, ?_, Or.inr ⟨uri, rfl⟩⟩
          simp [MetadataRequest.effect, MetadataRequest.uri, hget, hover]
        next =>
          rw [update, HierarchicalRecords.garbageOf_update] at hmem
          exact Or.inl hmem
  | openOp uri =>
      left
      rw [handle, openOp] at hmem
      split at hmem
      · exact hmem
      · rw [update, HierarchicalRecords.garbageOf_update] at hmem
        exact mem_garbageOf_recover hmem
  | setOp uri received =>
      left
      rw [handle, setOp] at hmem
      split at hmem
      · rwa [HierarchicalRecords.garbageOf_put] at hmem
      · rw [update, HierarchicalRecords.garbageOf_update] at hmem
        exact mem_garbageOf_recover hmem

@[simp]
theorem imssUri_handle (server : MetadataServer) (request : MetadataRequest) :
    (server.handle request).2.imssUri = server.imssUri := by
  cases request <;> simp only [handle, readOp, deleteOp, closeOp, openOp, setOp] <;>
    (repeat' split) <;> simp [update, remove, recover, apply_ite]

/-! ## What a request does to the store -/

/-- A property of the store that the calls for one key keep is kept by a request for that key. -/
theorem store_handle {P : HierarchicalRecords DatasetRecord → Prop} {request : MetadataRequest}
    {key : CString} (hkey : server.key request.uri = key)
    (hupdate : ∀ store record, P store → P (store.update key record))
    (hgarbage : ∀ store, P store → P (store.hierarchicalMapPutInGarbageCollector key))
    (hpop : ∀ store, P store → P (store.hierarchicalMapPopFromGarbageCollector key))
    (hdelete : ∀ store, P store → P (store.hierarchicalMapDeleteEntry key))
    (hput : ∀ store record, P store →
      P (store.hierarchicalMapPut (fun record => record.isDirectory) key record true))
    (hstore : P server.store) : P (server.handle request).2.store := by
  have hremove : ∀ record, P (server.remove key record).store := by
    intro record
    exact hdelete _ (hgarbage _ (hupdate _ _ hstore))
  have hrecover : ∀ record record', P ((server.recover key record).update key record').store := by
    intro record record'
    apply hupdate
    rw [recover]
    split
    · exact hpop _ hstore
    · exact hstore
  cases request with
  | readOp operation uri =>
      simp only [MetadataRequest.uri] at hkey
      rw [handle, readOp, hkey]
      split
      · exact hstore
      split
      · exact hstore
      split
      · exact hupdate _ _ hstore
      · exact hstore
  | deleteOp operation uri =>
      simp only [MetadataRequest.uri] at hkey
      rw [handle, deleteOp, hkey]
      split
      · exact hstore
      split
      · exact hremove _
      · exact hupdate _ _ hstore
  | closeOp uri =>
      simp only [MetadataRequest.uri] at hkey
      rw [handle, closeOp, hkey]
      split
      · exact hstore
      split
      · exact hremove _
      · exact hupdate _ _ hstore
  | openOp uri =>
      simp only [MetadataRequest.uri] at hkey
      rw [handle, openOp, hkey]
      split
      · exact hstore
      · exact hrecover _ _
  | setOp uri received =>
      simp only [MetadataRequest.uri] at hkey
      rw [handle, setOp, hkey]
      split
      · exact hput _ _ hstore
      · exact hrecover _ _

/-- Every key stays well placed if that of the request is. -/
theorem everyKey_handle {P : CString → CString → Prop} {request : MetadataRequest}
    (hkey : P (findLastParentDir (server.key request.uri)) (server.key request.uri))
    (hstore : server.store.EveryKey P) : (server.handle request).2.store.EveryKey P := by
  apply store_handle rfl
  · intro store record h
    exact h.update hkey record
  · intro store h
    exact h.putInGarbageCollector _
  · intro store h
    exact h.popFromGarbageCollector _
  · intro store h
    exact h.deleteEntry _
  · intro store record h
    exact h.put hkey _ record true
  · exact hstore

/-- No request removes the map of a directory. -/
theorem isSome_getDirUnsafe_handle {dir : CString} {request : MetadataRequest}
    (hstore : (server.store.getDirUnsafe dir).isSome) :
    ((server.handle request).2.store.getDirUnsafe dir).isSome := by
  have hmodify : ∀ (store : HierarchicalRecords DatasetRecord) (dir' : CString)
      (change : MapRecords DatasetRecord → MapRecords DatasetRecord),
      (store.getDirUnsafe dir).isSome →
        ((store.modifyDir dir' change).getDirUnsafe dir).isSome := by
    intro store dir' change h
    rw [HierarchicalRecords.getDirUnsafe_modifyDir]
    split
    · rwa [Option.isSome_map]
    · exact h
  have hset : ∀ (store : HierarchicalRecords DatasetRecord) (dir' : CString)
      (records : MapRecords DatasetRecord),
      (store.getDirUnsafe dir).isSome → ((store.setDir dir' records).getDirUnsafe dir).isSome := by
    intro store dir' records h
    rw [HierarchicalRecords.getDirUnsafe_setDir]
    split
    · rfl
    · exact h
  apply store_handle (P := fun store => (store.getDirUnsafe dir).isSome) rfl
  · intro store record h
    exact hmodify _ _ _ h
  · intro store h
    exact hmodify _ _ _ h
  · intro store h
    exact hmodify _ _ _ h
  · intro store h
    exact hmodify _ _ _ h
  · intro store record h
    rw [HierarchicalRecords.hierarchicalMapPut]
    split
    · rw [HierarchicalRecords.getDirUnsafe_insertDirectory]
      split
      · rfl
      · exact hset _ _ _ h
    · exact hset _ _ _ h
  · exact hstore

/-! ## A pass of the collector -/

theorem get_clean (server : MetadataServer) (key : CString) :
    server.clean.get key =
      if key ∈ (server.store.garbageOf (findLastParentDir key)).map removeLastSlash then none
      else server.get key :=
  HierarchicalRecords.hierarchicalMapGet_cleanGarbageCollectorMetadata server.store key

@[simp]
theorem key_handle (server : MetadataServer) (request : MetadataRequest) (uri : CString) :
    (server.handle request).2.key uri = server.key uri := by
  rw [key, key, imssUri_handle]

end MetadataServer

end Hercules
