/-
# Removing a file from the data servers

A file leaves the data servers on one of two ways. `imss_unlink` sends an unlink
request for block 0 if no descriptor is open; otherwise the last `imss_close`
sends a delete request for the name. Both go to the servers of block 0 only, and
a collection pass later removes the blocks whose front part waits in the garbage
collector.

The unlink handler puts the key of block 0 there, with its block number. No front
part of a key contains a separator, so a pass never finds it.

Whether there is a last `imss_close` is a matter of the counter on the metadata server and of the
`map_fd` of each process. `unlink` erases the path from the map of the process that calls it, and
a `close` of that process then goes to the real file. So the counter stays above zero.
-/

import Mathlib.Data.Finset.Card
import Hercules.Cluster
import Hercules.Lib.Run
import Hercules.Server.Metadata

namespace Hercules

open Lib Lib.Text

/-! ## One server -/

namespace DataServer

variable {server server' : DataServer} {uri : CString}

/-- An unlink changes the link count in block 0 and nothing else in the blocks. -/
theorem get_unlink {reply : Reply}
    (h : server.unlink (blockKey uri 0) 0 = some (reply, server')) :
    (∀ key, key ≠ blockKey uri 0 → server'.get key = server.get key) ∧
      ∃ block links, server.get (blockKey uri 0) = some block ∧
        server'.get (blockKey uri 0) =
          some { block with data := setStNlink block.data links } := by
  obtain ⟨block, links, hblock, hstore⟩ := unlink_cases h
  have hget : ∀ key, server'.get key =
      (server.store.update (blockKey uri 0)
        { block with data := setStNlink block.data links }).hierarchicalMapGet key := by
    intro key
    rw [get]
    rcases hstore with hstore | hstore
    · rw [hstore]
    · rw [hstore, HierarchicalRecords.hierarchicalMapGet_putInGarbageCollector]
  constructor
  · intro key hkey
    rw [hget, HierarchicalRecords.hierarchicalMapGet_update_of_ne _ (Ne.symm hkey), get]
  · refine ⟨block, links, hblock, ?_⟩
    rw [hget]
    refine HierarchicalRecords.hierarchicalMapGet_update_self ?_ _
    rw [← get, hblock]
    rfl

/-- An unlink adds no path that a collection pass would look for. -/
theorem mem_garbageOf_unlink {reply : Reply}
    (h : server.unlink (blockKey uri 0) 0 = some (reply, server')) {path : CString}
    (hpath : '$' ∉ path) (dir : CString) :
    path ∈ server'.store.garbageOf dir ↔ path ∈ server.store.garbageOf dir := by
  obtain ⟨block, links, -, hstore | hstore⟩ := unlink_cases h
  · rw [hstore, HierarchicalRecords.garbageOf_update]
  · rw [hstore, HierarchicalRecords.garbageOf_putInGarbageCollector,
      HierarchicalRecords.garbageOf_update]
    have hne : path ≠ blockKey uri 0 := by
      rintro rfl
      exact hpath (dollar_mem_blockKey uri 0)
    split
    · simp [hne]
    · rfl

/-- A delete request adds the name, if the directory is known. -/
theorem mem_garbageOf_delete (server : DataServer) (uri path : CString) :
    path ∈ (server.delete uri).2.store.garbageOf (findLastParentDir uri) ↔
      path ∈ server.store.garbageOf (findLastParentDir uri) ∨
        path = uri ∧ (server.store.getDirUnsafe (findLastParentDir uri)).isSome := by
  rw [delete, HierarchicalRecords.garbageOf_putInGarbageCollector]
  split
  next h => simp [h.2]
  next h => simp_all

end DataServer

/-! ## All servers of a file -/

namespace Dataset

variable {nStorages : Nat}

/-- `unlink_dataset`, with the number of open descriptors. -/
def unlinkDataset (config : ServerConfig) (dataset : Dataset nStorages) (stack : CString)
    (nOpen : Int) (cluster : Cluster) : Option Cluster :=
  cluster.ask config (dataset.targets stack 0) (unlinkRequest dataset.uri.1 nOpen)

/-- `delete_dataset_srv_worker`. -/
def deleteDatasetSrvWorker (config : ServerConfig) (dataset : Dataset nStorages)
    (stack : CString) (cluster : Cluster) : Option Cluster :=
  cluster.ask config (dataset.targets stack 0) (deleteRequest dataset.uri.1)

variable {config : ServerConfig} {dataset : Dataset nStorages} {cluster cluster' : Cluster}
  {stack : CString}

/-- What a successful unlink did on each server. -/
theorem unlinkDataset_cases {nOpen : Int}
    (h : dataset.unlinkDataset config stack nOpen cluster = some cluster') (s : Nat) :
    (s ∉ dataset.targets stack 0 ∧ cluster' s = cluster s) ∨
      (s ∈ dataset.targets stack 0 ∧
        ∃ reply, (cluster s).unlink (blockKey dataset.uri.1 0) 0 = some (reply, cluster' s)) := by
  by_cases hs : s ∈ dataset.targets stack 0
  · refine Or.inr ⟨hs, ?_⟩
    have hserve := Family.visit_of_mem (dataset.nodup_targets stack 0) h hs
    rw [DataServer.serve_unlink dataset.uri_word, Option.map_map] at hserve
    obtain ⟨⟨reply, server⟩, hunlink, hserver⟩ := Option.map_eq_some_iff.mp hserve
    cases hserver
    exact ⟨reply, hunlink⟩
  · exact Or.inl ⟨hs, Family.visit_of_notMem h hs⟩

theorem deleteDatasetSrvWorker_eq (config : ServerConfig) (dataset : Dataset nStorages)
    (stack : CString) (cluster : Cluster) :
    dataset.deleteDatasetSrvWorker config stack cluster = some fun s =>
      if s ∈ dataset.targets stack 0 then ((cluster s).delete dataset.uri.1).2
      else cluster s := by
  refine Family.visit_eq (dataset.nodup_targets stack 0) fun s _ => ?_
  rw [DataServer.serve_delete dataset.uri_word _ _ dataset.uri_ne_nil]
  rfl

/-- A pass removes the blocks of the file on a server: it runs there, and the name
waits for it. -/
def Swept (dataset : Dataset nStorages) (ran : Nat → Bool) (cluster : Cluster) (s : Nat) : Prop :=
  ran s ∧ upTo '$' dataset.uri.1 ∈
    (cluster s).store.garbageOf (findLastParentDir dataset.uri.1)

instance (dataset : Dataset nStorages) (ran : Nat → Bool) (cluster : Cluster) (s : Nat) :
    Decidable (dataset.Swept ran cluster s) :=
  inferInstanceAs (Decidable (_ ∧ _))

theorem get_collect (config : ServerConfig) (ran : Nat → Bool) (dataset : Dataset nStorages)
    (cluster : Cluster) (s : Nat) (dataId : Int) :
    (cluster.collect config ran s).get (blockKey dataset.uri.1 dataId) =
      if dataset.Swept ran cluster s then none
      else (cluster s).get (blockKey dataset.uri.1 dataId) := by
  rw [Cluster.collect]
  by_cases hran : ran s
  · rw [if_pos hran, DataServer.get_cleanGarbageCollector, upTo_blockKey_eq,
      findLastParentDir_blockKey dataset.uri.2]
    exact if_congr (and_iff_right hran).symm rfl rfl
  · rw [if_neg hran, if_neg fun h => hran h.1]

end Dataset

/-! ## The life of a file -/

/-- No server of the deployment holds a block of the file. -/
def NoBlockLeft (nStorages : Nat) (uri : CString) (cluster : Cluster) : Prop :=
  ∀ s < nStorages, ∀ dataId : Int, (cluster s).get (blockKey uri dataId) = none

/-- Before the file is created, no server holds a block of it and its name does
not wait for collection. -/
structure FreeOf (nStorages : Nat) (uri : CString) (cluster : Cluster) : Prop where
  no_block : NoBlockLeft nStorages uri cluster
  not_waiting : ∀ s < nStorages,
    upTo '$' uri ∉ (cluster s).store.garbageOf (findLastParentDir uri)

/-- The functions that remove a regular file with `imss_unlink`. Only `unlink` erases the path
from `map_fd` afterwards. -/
inductive RemoveCall
  | unlink
  | remove
  deriving DecidableEq

/-- What a process does with the file. The write of block 0 with which `imss_close` begins is a
`setData` of its own; `known` says that `imss_open` finds the file in the client's map. -/
inductive LifeAction (ι : Type)
  | openFile (c : ι) (known : Bool)
  | setData (c : ι) (call : SetCall)
  | removeFile (way : RemoveCall) (c : ι) (nOpen : Int)
  | close (c : ι)

/-- The data servers, the record of the file on its metadata server, the processes whose `map_fd`
has the file, and the calls of `set_data` so far. -/
structure FileLife (ι : Type) where
  cluster : Cluster
  record : Option DatasetRecord
  mapFd : Finset ι
  calls : List SetCall

namespace FileLife

variable {nStorages : Nat} {ι : Type} [DecidableEq ι] (config : ServerConfig)
  (dataset : Dataset nStorages) (stack : CString)

/-- The request with which an open raises the counter. -/
def openRequest (known : Bool) : MetadataRequest :=
  if known then .openOp dataset.uri.1 else .readOp 1 dataset.uri.1

/-- One action. A process whose map has the file gets the descriptor that is there; one whose map
has not writes to and closes another file. There is no result if the counter overflows. -/
def step (life : FileLife ι) : LifeAction ι → Option (FileLife ι)
  | .openFile c known =>
      match life.record with
      | none => some life
      | some record =>
          if c ∈ life.mapFd then some life
          else if record.nOpen < 2 ^ 31 - 1 then
            some { life with
              record := (openRequest dataset known).effect (some record)
              mapFd := insert c life.mapFd }
          else none
  | .setData c call =>
      if c ∈ life.mapFd then
        (dataset.setCall config call life.cluster).map fun cluster =>
          { life with cluster := cluster, calls := life.calls ++ [call] }
      else some life
  | .removeFile way c nOpen =>
      let next := { life with
        record := (MetadataRequest.deleteOp 4 dataset.uri.1).effect life.record
        mapFd := if way = .unlink then life.mapFd.erase c else life.mapFd }
      -- every answer but that the file is kept lets the client go on to the data servers
      if next.record = none then
        (dataset.unlinkDataset config stack nOpen life.cluster).map fun cluster =>
          { next with cluster := cluster }
      else some next
  | .close c =>
      if c ∈ life.mapFd then
        let next := { life with
          record := (MetadataRequest.closeOp dataset.uri.1).effect life.record
          mapFd := life.mapFd.erase c }
        if life.record ≠ none ∧ next.record = none then
          (dataset.deleteDatasetSrvWorker config stack life.cluster).map fun cluster =>
            { next with cluster := cluster }
        else some next
      else some life

/-- The file is in use when it is removed, and not by the process that calls `unlink`. -/
def RemovedInUse (life : FileLife ι) : LifeAction ι → Prop
  | .removeFile way c _ =>
      life.record ≠ none → life.mapFd.Nonempty ∧ (way = .unlink → c ∉ life.mapFd)
  | _ => True

instance (life : FileLife ι) (action : LifeAction ι) : Decidable (life.RemovedInUse action) :=
  match action with
  | .removeFile .. => inferInstanceAs (Decidable (_ → _))
  | .openFile .. | .setData .. | .close .. => isTrue trivial

/-- The file is new: nothing of it is on the data servers, and the counter is that of the
descriptors. -/
structure Starts (life : FileLife ι) : Prop where
  free : FreeOf nStorages dataset.uri.1 life.cluster
  calls : life.calls = []
  record : ∃ record, life.record = some record ∧ record.nOpen = life.mapFd.card ∧
    record.status = .attach

/-- The file has been removed and no process has it in its map. -/
def Ended (life : FileLife ι) : Prop :=
  life.mapFd = ∅ ∧ ∀ record ∈ life.record, record.status = .dest

instance (life : FileLife ι) : Decidable life.Ended :=
  inferInstanceAs (Decidable (_ ∧ _))

/-! ## What the requests do to the blocks -/

/-- The name of the file waits for collection. -/
def Waits (cluster : Cluster) (s : Nat) : Prop :=
  upTo '$' dataset.uri.1 ∈ (cluster s).store.garbageOf (findLastParentDir dataset.uri.1)

/-- A server holds the blocks that were sent to it. -/
def Held (life : FileLife ι) : Prop :=
  ∀ s < nStorages, ∀ dataId : Int,
    ((life.cluster s).get (blockKey dataset.uri.1 dataId)).isSome ↔
      ∃ call ∈ life.calls, call.dataId = dataId ∧ s ∈ dataset.targets call.stack call.dataId

end FileLife

namespace Dataset

variable {nStorages : Nat} {config : ServerConfig} {dataset : Dataset nStorages}
  {cluster cluster' : Cluster} {stack : CString}

/-- A server holds the blocks that were sent to it, if it held none before. -/
theorem held_setAll {calls : List SetCall} (hfree : NoBlockLeft nStorages dataset.uri.1 cluster)
    (hset : dataset.setAll config calls cluster = some cluster') {s : Nat} (hs : s < nStorages)
    (dataId : Int) :
    ((cluster' s).get (blockKey dataset.uri.1 dataId)).isSome ↔
      ∃ call ∈ calls, call.dataId = dataId ∧ s ∈ dataset.targets call.stack call.dataId := by
  rw [isSome_get_setAll hset, hfree s hs]
  simp

/-- An unlink takes no block away. -/
theorem isSome_get_unlinkDataset {nOpen : Int}
    (h : dataset.unlinkDataset config stack nOpen cluster = some cluster') (s : Nat)
    (dataId : Int) :
    ((cluster' s).get (blockKey dataset.uri.1 dataId)).isSome =
      ((cluster s).get (blockKey dataset.uri.1 dataId)).isSome := by
  rcases unlinkDataset_cases h s with ⟨-, hsame⟩ | ⟨-, reply, hunlink⟩
  · rw [hsame]
  · obtain ⟨hother, block, links, hblock, hblock'⟩ := DataServer.get_unlink hunlink
    by_cases hid : dataId = 0
    · rw [hid, hblock, hblock']
      rfl
    · rw [hother _ (by simp [hid])]

/-- After an unlink the name waits where it did before. -/
theorem waits_unlinkDataset {nOpen : Int}
    (h : dataset.unlinkDataset config stack nOpen cluster = some cluster') (s : Nat) :
    FileLife.Waits dataset cluster' s ↔ FileLife.Waits dataset cluster s := by
  rcases unlinkDataset_cases h s with ⟨-, hsame⟩ | ⟨-, reply, hunlink⟩
  · rw [FileLife.Waits, hsame, FileLife.Waits]
  · exact DataServer.mem_garbageOf_unlink hunlink (notMem_upTo '$' dataset.uri.1) _

/-- A delete request takes no block away. -/
theorem isSome_get_deleteDatasetSrvWorker
    (h : dataset.deleteDatasetSrvWorker config stack cluster = some cluster') (s : Nat)
    (dataId : Int) :
    ((cluster' s).get (blockKey dataset.uri.1 dataId)).isSome =
      ((cluster s).get (blockKey dataset.uri.1 dataId)).isSome := by
  rw [deleteDatasetSrvWorker_eq, Option.some.injEq] at h
  simp only [← h]
  split
  · rw [DataServer.get_delete]
  · rfl

/-- After a delete request the name waits exactly on the servers that it reached, and only if it
has no separator. -/
theorem waits_deleteDatasetSrvWorker
    (h : dataset.deleteDatasetSrvWorker config stack cluster = some cluster') {s : Nat}
    (hfree : ¬ FileLife.Waits dataset cluster s)
    {dataId : Int} (hheld : ((cluster s).get (blockKey dataset.uri.1 dataId)).isSome) :
    FileLife.Waits dataset cluster' s ↔
      '$' ∉ dataset.uri.1 ∧ s ∈ dataset.targets stack 0 := by
  rw [deleteDatasetSrvWorker_eq, Option.some.injEq] at h
  have hdir := HierarchicalRecords.isSome_getDirUnsafe_of_get hheld
  rw [findLastParentDir_blockKey dataset.uri.2] at hdir
  have hcut : upTo '$' dataset.uri.1 = dataset.uri.1 ↔ '$' ∉ dataset.uri.1 :=
    ⟨fun heq => heq ▸ notMem_upTo '$' dataset.uri.1, upTo_of_notMem⟩
  rw [FileLife.Waits] at hfree
  simp only [FileLife.Waits, ← h]
  split
  next hs => simp [DataServer.mem_garbageOf_delete, hfree, hdir, hcut, hs]
  next hs => simp [hfree, hs]

end Dataset

namespace FileLife

variable {nStorages : Nat} {ι : Type} {config : ServerConfig} {dataset : Dataset nStorages}
  {stack : CString} {life life' : FileLife ι}

/-! ## Four phases

As long as the counter is that of the map entries, a last close deletes the file. An entry that
`unlink` erases leaves the counter too high for good, and a removal that finds the counter at zero
has sent its unlink request. -/

/-- The blocks are where they were sent to, and none of them is going to be collected. -/
structure Kept (dataset : Dataset nStorages) (life : FileLife ι) : Prop where
  held : Held dataset life
  not_waiting : ∀ s < nStorages, ¬ Waits dataset life.cluster s

/-- The counter is the number of entries. -/
structure Counted (dataset : Dataset nStorages) (life : FileLife ι) : Prop
    extends Kept dataset life where
  record : ∃ record, life.record = some record ∧ record.nOpen = life.mapFd.card ∧
    record.status ≠ .dirty ∧ (record.status = .dest → life.mapFd.Nonempty)

/-- The counter is too high. -/
structure Overcounted (dataset : Dataset nStorages) (life : FileLife ι) : Prop
    extends Kept dataset life where
  record : ∃ record, life.record = some record ∧ (life.mapFd.card : Int) < record.nOpen ∧
    record.status ≠ .dirty

/-- The record is gone, and with it all entries. -/
def Gone (life : FileLife ι) : Prop :=
  life.record = none ∧ life.mapFd = ∅

/-- A last close has sent its delete request. -/
structure Deleted (dataset : Dataset nStorages) (stack : CString) (life : FileLife ι) : Prop where
  gone : life.Gone
  held : Held dataset life
  waiting : ∀ s < nStorages, ∀ dataId : Int,
    ((life.cluster s).get (blockKey dataset.uri.1 dataId)).isSome →
      (Waits dataset life.cluster s ↔ '$' ∉ dataset.uri.1 ∧ s ∈ dataset.targets stack 0)

/-- The blocks are not left to a collection, and will not be. -/
def Leaked (dataset : Dataset nStorages) (life : FileLife ι) : Prop :=
  Overcounted dataset life ∨ life.Gone ∧ Kept dataset life

theorem Leaked.kept (hleaked : Leaked dataset life) : Kept dataset life := by
  rcases hleaked with hover | ⟨-, hkept⟩
  · exact hover.toKept
  · exact hkept

/-- Nothing but the data servers and the calls matters. -/
theorem Kept.of_eq (hkept : Kept dataset life) (hcluster : life'.cluster = life.cluster)
    (hcalls : life'.calls = life.calls) : Kept dataset life' := by
  refine ⟨?_, ?_⟩
  · rw [Held, hcluster, hcalls]
    exact hkept.held
  · rw [hcluster]
    exact hkept.not_waiting

/-- A write puts its block where it is sent to. -/
theorem Kept.setCall (hkept : Kept dataset life) {call : SetCall} {cluster : Cluster}
    (hset : dataset.setCall config call life.cluster = some cluster) :
    Kept dataset { life with cluster := cluster, calls := life.calls ++ [call] } := by
  have hall : dataset.setAll config [call] life.cluster = some cluster := by
    simp [Dataset.setAll, hset]
  constructor
  · intro s hs dataId
    rw [Dataset.isSome_get_setAll hall, hkept.held s hs dataId]
    simp only [List.mem_append, or_and_right, exists_or]
  · intro s hs
    exact Dataset.mem_garbageOf_setAll hall (hkept.not_waiting s hs)

/-- An unlink request leaves the blocks to no collection. -/
theorem Kept.unlinkDataset (hkept : Kept dataset life) {nOpen : Int}
    (hunlink : dataset.unlinkDataset config stack nOpen life.cluster = some life'.cluster)
    (hcalls : life'.calls = life.calls) : Kept dataset life' := by
  constructor
  · intro s hs dataId
    rw [Dataset.isSome_get_unlinkDataset hunlink, hcalls]
    exact hkept.held s hs dataId
  · intro s hs
    rw [Dataset.waits_unlinkDataset hunlink]
    exact hkept.not_waiting s hs

/-- A delete request leaves them to a collection on the servers of block 0. -/
theorem Kept.deleted (hkept : Kept dataset life) (hgone : life'.Gone)
    (hdelete : dataset.deleteDatasetSrvWorker config stack life.cluster = some life'.cluster)
    (hcalls : life'.calls = life.calls) : Deleted dataset stack life' := by
  refine ⟨hgone, fun s hs dataId => ?_, fun s hs dataId hsome => ?_⟩
  · rw [Dataset.isSome_get_deleteDatasetSrvWorker hdelete, hcalls]
    exact hkept.held s hs dataId
  · rw [Dataset.isSome_get_deleteDatasetSrvWorker hdelete] at hsome
    exact Dataset.waits_deleteDatasetSrvWorker hdelete (hkept.not_waiting s hs) hsome

/-- A pass on all servers removes everything exactly if the name waits wherever a block was sent
to. -/
theorem noBlockLeft_collect_iff (hheld : Held dataset life) {P : Nat → Prop}
    (hwaiting : ∀ s < nStorages, ∀ dataId : Int,
      ((life.cluster s).get (blockKey dataset.uri.1 dataId)).isSome →
        (Waits dataset life.cluster s ↔ P s)) :
    NoBlockLeft nStorages dataset.uri.1 (life.cluster.collect config fun _ => true) ↔
      ∀ call ∈ life.calls, ∀ s ∈ dataset.targets call.stack call.dataId, P s := by
  constructor
  · intro hnone call hcall s hs
    have hlt := Dataset.lt_of_mem_targets hs
    have hsome := (hheld s hlt call.dataId).mpr ⟨call, hcall, rfl, hs⟩
    rw [← hwaiting s hlt call.dataId hsome]
    by_contra hnot
    have hleft := hnone s hlt call.dataId
    rw [Dataset.get_collect, if_neg (fun h => hnot h.2)] at hleft
    simp [hleft] at hsome
  · intro hall s hs dataId
    rw [Dataset.get_collect]
    split
    · rfl
    next hnot =>
      rw [← Option.not_isSome_iff_eq_none]
      intro hsome
      obtain ⟨call, hcall, -, htarget⟩ := (hheld s hs dataId).mp hsome
      exact hnot ⟨rfl, (hwaiting s hs dataId hsome).mpr (hall call hcall s htarget)⟩

theorem Starts.counted (hstarts : life.Starts dataset) : Counted dataset life := by
  obtain ⟨record, hrecord, hcount, hattach⟩ := hstarts.record
  refine ⟨⟨fun s hs dataId => ?_, hstarts.free.not_waiting⟩, record, hrecord, hcount, ?_, ?_⟩
  · simp [hstarts.free.no_block s hs dataId, hstarts.calls]
  · simp [hattach]
  · simp [hattach]

variable [DecidableEq ι]

/-- Both requests of an open raise the counter. -/
theorem effect_openRequest {record : DatasetRecord} (hdirty : record.status ≠ .dirty)
    (known : Bool) :
    (openRequest dataset known).effect (some record) = some record.opened := by
  cases known with
  | false => simp [openRequest, MetadataRequest.effect, hdirty]
  | true => simp [openRequest, MetadataRequest.effect, DatasetRecord.recovered, hdirty]

/-- `generalOpen` of a process whose map does not have the file. -/
theorem step_openFile {record : DatasetRecord} (hrecord : life.record = some record)
    (hdirty : record.status ≠ .dirty) {c : ι} {known : Bool}
    (hstep : life.step config dataset stack (.openFile c known) = some life') :
    life' = life ∨ c ∉ life.mapFd ∧ record.nOpen < 2 ^ 31 - 1 ∧
      life' = { life with record := some record.opened, mapFd := insert c life.mapFd } := by
  simp only [step, hrecord] at hstep
  split at hstep
  · exact Or.inl (Option.some.inj hstep).symm
  next hmem =>
    split at hstep
    next hbound =>
      rw [effect_openRequest hdirty] at hstep
      exact Or.inr ⟨hmem, hbound, (Option.some.inj hstep).symm⟩
    · cases hstep

/-- A removal while the counter is not zero. -/
theorem step_removeFile {record : DatasetRecord} (hrecord : life.record = some record)
    (hopen : record.nOpen ≠ 0) {way : RemoveCall} {c : ι} {nOpen : Int}
    (hstep : life.step config dataset stack (.removeFile way c nOpen) = some life') :
    life' = { life with
      record := some { record with status := .dest }
      mapFd := if way = .unlink then life.mapFd.erase c else life.mapFd } := by
  simpa [step, hrecord, MetadataRequest.effect, hopen, DatasetRecord.marked] using hstep.symm

/-- A close lowers a counter above zero, and deletes a removed file when it comes to zero. -/
theorem step_close {record : DatasetRecord} (hrecord : life.record = some record)
    (hopen : 0 < record.nOpen) {c : ι} (hmem : c ∈ life.mapFd)
    (hstep : life.step config dataset stack (.close c) = some life') :
    (record.status = .dest ∧ record.nOpen = 1 ∧
        life'.record = none ∧ life'.mapFd = life.mapFd.erase c ∧ life'.calls = life.calls ∧
        dataset.deleteDatasetSrvWorker config stack life.cluster = some life'.cluster) ∨
      ¬ (record.status = .dest ∧ record.nOpen = 1) ∧
        life' = { life with
          record := some { record with nOpen := record.nOpen - 1 }
          mapFd := life.mapFd.erase c } := by
  have hclosed : record.closed = { record with nOpen := record.nOpen - 1 } := if_pos hopen
  simp only [step, if_pos hmem, hrecord, MetadataRequest.effect, hclosed] at hstep
  by_cases hlast : record.status = .dest ∧ record.nOpen = 1
  · rw [if_pos (by simp [hlast])] at hstep
    obtain ⟨cluster, hdelete, rfl⟩ := Option.map_eq_some_iff.mp hstep
    exact Or.inl ⟨hlast.1, hlast.2, by simp [hlast], rfl, rfl, hdelete⟩
  · have hcond : ¬ (record.status = .dest ∧ record.nOpen - 1 = 0) := by
      rwa [Int.sub_eq_zero]
    rw [if_neg (by simp [hcond]), if_neg hcond] at hstep
    exact Or.inr ⟨hlast, (Option.some.inj hstep).symm⟩

/-- A process whose map does not have the file closes another one. -/
theorem step_close_of_notMem {c : ι} (hmem : c ∉ life.mapFd) :
    life.step config dataset stack (.close c) = some life :=
  if_neg hmem

/-- A write changes blocks only. -/
theorem Kept.step_setData (hkept : Kept dataset life) {c : ι} {call : SetCall}
    (hstep : life.step config dataset stack (.setData c call) = some life') :
    Kept dataset life' ∧ life'.record = life.record ∧ life'.mapFd = life.mapFd := by
  by_cases hmem : c ∈ life.mapFd
  · rw [step, if_pos hmem] at hstep
    obtain ⟨cluster, hset, rfl⟩ := Option.map_eq_some_iff.mp hstep
    exact ⟨hkept.setCall hset, rfl, rfl⟩
  · rw [step, if_neg hmem] at hstep
    cases hstep
    exact ⟨hkept, rfl, rfl⟩

/-- As long as removals find the file in use, the counter stays right until a last close deletes
the file. -/
theorem Counted.step {action : LifeAction ι} (hcounted : Counted dataset life)
    (hinUse : life.RemovedInUse action)
    (hstep : life.step config dataset stack action = some life') :
    Counted dataset life' ∨ Deleted dataset stack life' := by
  have hkept := hcounted.toKept
  obtain ⟨record, hrecord, hcount, hdirty, hdest⟩ := hcounted.record
  cases action with
  | openFile c known =>
      rcases step_openFile hrecord hdirty hstep with rfl | ⟨hmem, hbound, rfl⟩
      · exact Or.inl hcounted
      · have hopened := DatasetRecord.nOpen_opened (by omega) hbound
        refine Or.inl ⟨hkept.of_eq rfl rfl, record.opened, rfl, ?_, hdirty, fun _ => ?_⟩
        · rw [hopened, hcount, Finset.card_insert_of_notMem hmem, Nat.cast_succ]
        · exact Finset.insert_nonempty c life.mapFd
  | setData c call =>
      obtain ⟨hkept', hsame, hmap⟩ := hkept.step_setData hstep
      exact Or.inl ⟨hkept', record, hsame.trans hrecord, hmap ▸ hcount, hdirty, hmap ▸ hdest⟩
  | removeFile way c nOpen =>
      obtain ⟨hnonempty, hother⟩ := hinUse (by simp [hrecord])
      have hpos := hnonempty.card_pos
      obtain rfl := step_removeFile hrecord (by omega) hstep
      have hmap : (if way = .unlink then life.mapFd.erase c else life.mapFd) = life.mapFd := by
        split
        next hway => exact Finset.erase_eq_of_notMem (hother hway)
        · rfl
      simp only [hmap]
      exact Or.inl ⟨hkept.of_eq rfl rfl, _, rfl, hcount, by simp, fun _ => hnonempty⟩
  | close c =>
      by_cases hmem : c ∈ life.mapFd
      · have hcard := Finset.card_erase_add_one hmem
        rcases step_close hrecord (by omega) hmem hstep with
          ⟨-, hone, hnone, hmap, hcalls, hdelete⟩ | ⟨hlast, rfl⟩
        · refine Or.inr (hkept.deleted ⟨hnone, ?_⟩ hdelete hcalls)
          rw [hmap, ← Finset.card_eq_zero]
          omega
        · refine Or.inl ⟨hkept.of_eq rfl rfl, _, rfl, ?_, hdirty, fun hremoved => ?_⟩
          · simp only
            omega
          · have hne : record.nOpen ≠ 1 := fun hone => hlast ⟨hremoved, hone⟩
            have hpos : 0 < (life.mapFd.erase c).card := by omega
            exact Finset.card_pos.mp hpos
      · rw [step_close_of_notMem hmem] at hstep
        cases hstep
        exact Or.inl hcounted

/-- A removal that finds the file not in use, or used by the process that calls `unlink`. -/
theorem Counted.step_not {action : LifeAction ι} (hcounted : Counted dataset life)
    (hinUse : ¬ life.RemovedInUse action)
    (hstep : life.step config dataset stack action = some life') :
    Overcounted dataset life' ∨ life'.Gone ∧ Kept dataset life' := by
  have hkept := hcounted.toKept
  obtain ⟨record, hrecord, hcount, hdirty, -⟩ := hcounted.record
  cases action with
  | removeFile way c nOpen =>
      obtain ⟨-, hnot⟩ := Classical.not_imp.mp hinUse
      rcases life.mapFd.eq_empty_or_nonempty with hempty | hnonempty
      · -- the counter is zero, and the unlink request goes out
        have hzero : record.nOpen = 0 := by rw [hcount, hempty]; rfl
        simp only [FileLife.step, hrecord, MetadataRequest.effect, hzero, hempty, if_true] at hstep
        obtain ⟨cluster, hunlink, rfl⟩ := Option.map_eq_some_iff.mp hstep
        exact Or.inr ⟨⟨rfl, by simp⟩, hkept.unlinkDataset hunlink rfl⟩
      · have hpos := hnonempty.card_pos
        obtain rfl := step_removeFile hrecord (by omega) hstep
        obtain ⟨hway, hmem⟩ : way = .unlink ∧ c ∈ life.mapFd := by
          simpa [hnonempty] using hnot
        have hcard := Finset.card_erase_add_one hmem
        refine Or.inl ⟨hkept.of_eq rfl rfl, _, rfl, ?_, by simp⟩
        simp only [if_pos hway]
        omega
  | openFile | setData | close => exact absurd trivial hinUse

/-- A counter that is too high stays so. -/
theorem Overcounted.step {action : LifeAction ι} (hover : Overcounted dataset life)
    (hstep : life.step config dataset stack action = some life') : Overcounted dataset life' := by
  have hkept := hover.toKept
  obtain ⟨record, hrecord, hcount, hdirty⟩ := hover.record
  cases action with
  | openFile c known =>
      rcases step_openFile hrecord hdirty hstep with rfl | ⟨hmem, hbound, rfl⟩
      · exact hover
      · have hopened := DatasetRecord.nOpen_opened (by omega) hbound
        refine ⟨hkept.of_eq rfl rfl, record.opened, rfl, ?_, hdirty⟩
        rw [hopened, Finset.card_insert_of_notMem hmem, Nat.cast_succ]
        omega
  | setData c call =>
      obtain ⟨hkept', hsame, hmap⟩ := hkept.step_setData hstep
      exact ⟨hkept', record, hsame.trans hrecord, hmap ▸ hcount, hdirty⟩
  | removeFile way c nOpen =>
      obtain rfl := step_removeFile hrecord (by omega) hstep
      refine ⟨hkept.of_eq rfl rfl, _, rfl, ?_, by simp⟩
      have hle := Finset.card_erase_le (s := life.mapFd) (a := c)
      simp only
      split <;> omega
  | close c =>
      by_cases hmem : c ∈ life.mapFd
      · have hcard := Finset.card_erase_add_one hmem
        rcases step_close hrecord (by omega) hmem hstep with ⟨-, hone, -⟩ | ⟨-, rfl⟩
        · omega
        · refine ⟨hkept.of_eq rfl rfl, _, rfl, ?_, hdirty⟩
          simp only
          omega
      · rw [step_close_of_notMem hmem] at hstep
        cases hstep
        exact hover

/-- When the record is gone only unlink requests are sent. -/
theorem Gone.step {action : LifeAction ι} (hgone : life.Gone)
    (hstep : life.step config dataset stack action = some life') :
    life' = life ∨ life'.Gone ∧ life'.calls = life.calls ∧
      ∃ nOpen, dataset.unlinkDataset config stack nOpen life.cluster = some life'.cluster := by
  obtain ⟨hrecord, hmap⟩ := hgone
  cases action with
  | openFile c known =>
      simp only [FileLife.step, hrecord] at hstep
      exact Or.inl (Option.some.inj hstep).symm
  | setData c call =>
      rw [FileLife.step, if_neg (by simp [hmap])] at hstep
      exact Or.inl (Option.some.inj hstep).symm
  | removeFile way c nOpen =>
      simp only [FileLife.step, hrecord, MetadataRequest.effect, hmap, if_true] at hstep
      obtain ⟨cluster, hunlink, rfl⟩ := Option.map_eq_some_iff.mp hstep
      exact Or.inr ⟨⟨rfl, by simp⟩, rfl, nOpen, hunlink⟩
  | close c =>
      rw [FileLife.step, if_neg (by simp [hmap])] at hstep
      exact Or.inl (Option.some.inj hstep).symm

/-- A deleted file stays so. -/
theorem Deleted.step {action : LifeAction ι} (hdeleted : Deleted dataset stack life)
    (hstep : life.step config dataset stack action = some life') :
    Deleted dataset stack life' := by
  rcases hdeleted.gone.step hstep with rfl | ⟨hgone, hcalls, nOpen, hunlink⟩
  · exact hdeleted
  refine ⟨hgone, fun s hs dataId => ?_, fun s hs dataId hsome => ?_⟩
  · rw [Dataset.isSome_get_unlinkDataset hunlink, hcalls]
    exact hdeleted.held s hs dataId
  · rw [Dataset.isSome_get_unlinkDataset hunlink] at hsome
    rw [Dataset.waits_unlinkDataset hunlink]
    exact hdeleted.waiting s hs dataId hsome

/-! ## Blocks that stay behind -/

/-- Leaked blocks stay so. -/
theorem Leaked.step {action : LifeAction ι} (hleaked : Leaked dataset life)
    (hstep : life.step config dataset stack action = some life') : Leaked dataset life' := by
  rcases hleaked with hover | ⟨hgone, hkept⟩
  · exact Or.inl (hover.step hstep)
  · rcases hgone.step hstep with rfl | ⟨hgone', hcalls, nOpen, hunlink⟩
    · exact Or.inr ⟨hgone, hkept⟩
    · exact Or.inr ⟨hgone', hkept.unlinkDataset hunlink hcalls⟩

/-- Over a run either every removal finds the file in use, and then a last close may delete it, or
the blocks have leaked. -/
theorem phase_run {actions : List (LifeAction ι)}
    (hphase : Counted dataset life ∨ Deleted dataset stack life)
    (hrun : run (FileLife.step config dataset stack) actions life = some life') :
    Along (FileLife.step config dataset stack) RemovedInUse actions life ∧
        (Counted dataset life' ∨ Deleted dataset stack life') ∨
      ¬ Along (FileLife.step config dataset stack) RemovedInUse actions life ∧
        Leaked dataset life' := by
  induction actions generalizing life with
  | nil =>
      cases hrun
      exact Or.inl ⟨trivial, hphase⟩
  | cons action actions ih =>
      obtain ⟨next, hnext, hrest⟩ := Option.bind_eq_some_iff.mp hrun
      rw [along_cons_of_step hnext]
      by_cases hinUse : life.RemovedInUse action
      · have hphase' : Counted dataset next ∨ Deleted dataset stack next := by
          rcases hphase with hcounted | hdeleted
          · exact hcounted.step hinUse hnext
          · exact Or.inr (hdeleted.step hnext)
        simpa only [hinUse, true_and] using ih hphase' hrest
      · -- the record is there, so that the file is not deleted yet
        refine Or.inr ⟨fun h => hinUse h.1, ?_⟩
        rcases hphase with hcounted | hdeleted
        · have hleaked : Leaked dataset next := hcounted.step_not hinUse hnext
          exact Along.invariant (fun _ _ _ hinv _ hstep => Leaked.step hinv hstep)
            (Along.of_forall (R := fun _ => True) fun _ _ => trivial) hleaked hrest
        · refine absurd ?_ hinUse
          cases action with
          | removeFile => exact fun hne => absurd hdeleted.gone.1 hne
          | openFile | setData | close => trivial

end FileLife

/-- Servers that have just started hold nothing. -/
theorem freeOf_init (nStorages : Nat) (uri root : CString) :
    FreeOf nStorages uri fun _ => DataServer.init root where
  no_block := fun _ _ _ => HierarchicalRecords.hierarchicalMapGet_init _ _
  not_waiting := fun _ _ => by simp [DataServer.init]

/-- The file is created, and one byte is written to its first data block. -/
def exampleCalls : List SetCall :=
  [createCall [] (fun _ => 0) fun _ _ => 0,
    { stack := [], dataId := 1, offset := 0, data := [7], fresh := fun _ _ => 0,
      data_ne := by decide }]

namespace FileLife

/-- Process 0 has created the record of the file `imss://f`. -/
def created : FileLife Nat where
  cluster := fun _ => DataServer.init imssRoot
  record := some
    { uri := "imss://f".toList, type := .regularFile, nOpen := 1, status := .attach,
      intervals := [] }
  mapFd := {0}
  calls := []

theorem created_starts (nStorages : Nat) (h : 1 ≤ nStorages) :
    created.Starts (exampleDataset nStorages h) :=
  ⟨freeOf_init nStorages _ imssRoot, rfl, _, rfl, rfl, rfl⟩

/-- Process 0 writes the file. Process 1 has it open when it is removed, and closes it. -/
def lastClose : List (LifeAction Nat) :=
  exampleCalls.map (.setData 0) ++
    [.openFile 1 false, .close 0, .removeFile .unlink 0 0, .close 1]

/-- Process 0 writes and closes the file and removes it. -/
def notInUse : List (LifeAction Nat) :=
  exampleCalls.map (.setData 0) ++ [.close 0, .removeFile .unlink 0 0]

/-- Process 0 writes the file, removes it and closes it. -/
def ownUnlink : List (LifeAction Nat) :=
  exampleCalls.map (.setData 0) ++ [.removeFile .unlink 0 1, .close 0]

/-- The run ends with the file removed, and a block of it outlives the pass. -/
def LeavesBlock {nStorages : Nat} (dataset : Dataset nStorages) (actions : List (LifeAction Nat)) :
    Prop :=
  ∃ life', run (step ⟨1024, 4096⟩ dataset []) actions created = some life' ∧ life'.Ended ∧
    ¬ NoBlockLeft nStorages dataset.uri.1
      (life'.cluster.collect ⟨1024, 4096⟩ fun _ => true)

theorem leavesBlock_of_eval {nStorages : Nat} {dataset : Dataset nStorages}
    {actions : List (LifeAction Nat)} {s : Nat} (hs : s < nStorages)
    (heval : (run (step ⟨1024, 4096⟩ dataset []) actions created).map (fun life =>
      decide life.Ended && ((life.cluster.collect ⟨1024, 4096⟩ (fun _ => true) s).get
        (blockKey dataset.uri.1 1)).isSome) = some true) : LeavesBlock dataset actions := by
  obtain ⟨life', hrun, hvalues⟩ := Option.map_eq_some_iff.mp heval
  obtain ⟨hended, hsome⟩ := Bool.and_eq_true_iff.mp hvalues
  refine ⟨life', hrun, of_decide_eq_true hended, fun hnone => ?_⟩
  rw [hnone s hs 1] at hsome
  cases hsome

end FileLife

end Hercules
