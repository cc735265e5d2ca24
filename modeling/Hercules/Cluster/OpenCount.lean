/-
# Open descriptors and the counters of the metadata servers

A metadata server counts in `n_open` who has a dataset open. The counter is raised by a
`stat_dataset` that announces an open, by `open_local_dataset`, and by the structure that
creates the dataset; which of them an `open` uses depends on three tables of the client:
the pool of datasets, the map of `struct stat`, and the map of descriptors. A `close`
lowers it.

Here any number of clients open and close files, and their requests interleave in any
order. Between two requests of one call the requests of others may come. A call that has
raised the counter and has not yet made its descriptor holds a share in the counter, and
the counter is the sum of all shares as long as each call raises it exactly once.
-/

import Mathlib.Algebra.BigOperators.Ring.Finset
import Mathlib.Algebra.Order.BigOperators.Group.Finset
import Hercules.Lib.Family
import Hercules.Lib.Run
import Hercules.Cluster.Routing

namespace Hercules

open Lib Lib.Text

/-! ## A client -/

/-- What a client is doing: `create_dataset` looks for the parent directory, asks for the
dataset, sends the structure and stores block 0; `imss_open` asks for the dataset and
reads block 0; `close_dataset` sends its request. -/
inductive OpenStage
  | idle
  | parent (path : FileUri) (tries : Nat)
  | createStat (path : FileUri)
  | createSet (path : FileUri)
  | createData (path : FileUri)
  | lookup (path : FileUri) (creat : Bool)
  | openData (path : FileUri) (creat : Bool)
  | closing (path : FileUri)
  deriving DecidableEq

/-- The file of a call. -/
def OpenStage.path : OpenStage → Option FileUri
  | idle => none
  | parent path _ | createStat path | createSet path | createData path | lookup path _
  | openData path _ | closing path => some path

/-- The tables of a client, by the names in them: `pool_hash_tables_datasetd` with a table
for each directory, the map of `struct stat`, and `map_fd`, in which a path has one
descriptor. -/
structure OpenClient where
  pool : CString → Option (CString → Bool)
  statMap : CString → Bool
  mapFd : CString → Bool
  stage : OpenStage

namespace OpenClient

/-- A client after its start. -/
def init : OpenClient :=
  ⟨fun dir => if dir = imssRoot then some fun _ => false else none, fun _ => false,
    fun _ => false, .idle⟩

/-- `find_dataset_by_uri_hash_pool` finds the dataset. -/
def inPool (client : OpenClient) (uri : CString) : Bool :=
  ((client.pool (findLastParentDir uri)).map fun table => table uri).getD false

/-- `AddDirectoryToPool`: the directory gets a new table. -/
def addDirectoryToPool (client : OpenClient) (dir : CString) : OpenClient :=
  { client with pool := Function.update client.pool dir (some fun _ => false) }

/-- `add_dataset_entry_in_pool`. -/
def addDatasetEntryInPool (client : OpenClient) (uri : CString) (isDirectory : Bool) :
    OpenClient :=
  let table := (client.pool (findLastParentDir uri)).getD fun _ => false
  let added := { client with
    pool := Function.update client.pool (findLastParentDir uri)
      (some (Function.update table uri true)) }
  if isDirectory then added.addDirectoryToPool uri else added

/-- `HierarchicalMapPut`. -/
def putStat (client : OpenClient) (uri : CString) : OpenClient :=
  { client with statMap := Function.update client.statMap uri true }

/-- `map_fd_put`, the end of an open. -/
def putFd (client : OpenClient) (uri : CString) : OpenClient :=
  { client with mapFd := Function.update client.mapFd uri true, stage := .idle }

/-- The end of a close. -/
def eraseFd (client : OpenClient) (uri : CString) : OpenClient :=
  { client with mapFd := Function.update client.mapFd uri false, stage := .idle }

/-- The start of `generalOpen`: a path with a descriptor needs nothing else. -/
def startOpen (client : OpenClient) (path : FileUri) (creat : Bool) : OpenClient :=
  if client.mapFd path then client
  else if creat then
    { client with stage :=
        if belowDirectory path then .parent path 10
        else .createStat path }
  else { client with stage := .lookup path false }

end OpenClient

/-! ## The clients and the servers -/

/-- The metadata servers and the clients. -/
structure OpenState (ι : Type) where
  cluster : MetadataCluster
  clients : ι → OpenClient

/-- A client starts to open or to close a file, or goes on with what it is doing;
`delivered` says whether a request for block 0 to the data servers succeeds. -/
inductive OpenAction (ι : Type)
  | openFile (c : ι) (path : FileUri) (creat : Bool)
  | close (c : ι) (path : FileUri)
  | advance (c : ι) (delivered : Bool)

section Steps

variable (route : CString → Nat)

/-- The metadata server that `route` names for the URI handles a request. -/
def MetadataCluster.ask (cluster : MetadataCluster) (req : MetadataRequest) :
    MetadataReply × MetadataCluster :=
  let result := (cluster (route req.uri)).handle req
  (result.1, Function.update cluster (route req.uri) result.2)

/-- The record of a file. -/
def MetadataCluster.record (cluster : MetadataCluster) (path : FileUri) : Option DatasetRecord :=
  (cluster (route path)).get path

/-- The structure that `create_dataset` sends for an open. -/
def createdRecord (path : FileUri) : DatasetRecord where
  uri := path
  type := .regularFile
  nOpen := 1
  status := .attach
  intervals := []

/-- The next request of a client. A failed `imss_open` still yields a descriptor if the
call has `O_CREAT`. -/
def OpenClient.advance (client : OpenClient) (cluster : MetadataCluster) (delivered : Bool) :
    Option (OpenClient × MetadataCluster) :=
  match client.stage with
  | .idle => none
  | .parent path tries =>
      let dir := findLastParentDir path
      if client.inPool dir then some ({ client with stage := .createStat path }, cluster)
      else
        let (reply, cluster) := cluster.ask route (.readOp 0 dir)
        if reply ≠ .error then
          some ({ client.addDirectoryToPool dir with stage := .createStat path }, cluster)
        else some ({ client with stage := if tries ≤ 1 then .idle else .parent path (tries - 1) },
          cluster)
  | .createStat path =>
      if client.inPool path then some ({ client with stage := .lookup path true }, cluster)
      else
        match cluster.ask route (.readOp 1 path) with
        | (.dataset record, cluster) =>
            some ({ client.addDatasetEntryInPool path record.isDirectory with
              stage := .lookup path true }, cluster)
        | (_, cluster) => some ({ client with stage := .createSet path }, cluster)
  | .createSet path =>
      let (_, cluster) := cluster.ask route (.setOp path (createdRecord path))
      some ({ client.addDatasetEntryInPool path false with stage := .createData path }, cluster)
  | .createData path =>
      if delivered then some ((client.putStat path).putFd path, cluster)
      else some ({ client with stage := .idle }, cluster)
  | .lookup path creat =>
      if client.statMap path then
        let (_, cluster) := cluster.ask route (.openOp path)
        some (client.putFd path, cluster)
      else if client.inPool path then
        some ({ client with stage := .openData path creat }, cluster)
      else
        match cluster.ask route (.readOp 1 path) with
        | (.dataset record, cluster) =>
            some ({ client.addDatasetEntryInPool path record.isDirectory with
              stage := .openData path creat }, cluster)
        | (_, cluster) =>
            some (if creat then client.putFd path else { client with stage := .idle }, cluster)
  | .openData path creat =>
      if delivered then some ((client.putStat path).putFd path, cluster)
      else some (if creat then client.putFd path else { client with stage := .idle }, cluster)
  | .closing path =>
      let (reply, cluster) := cluster.ask route (.closeOp path)
      some ((if reply = .delete then
          { client with statMap := Function.update client.statMap path false }
        else client).eraseFd path, cluster)

variable {ι : Type} [DecidableEq ι]

namespace OpenState

/-- One step of the clients and the servers. -/
def step (state : OpenState ι) : OpenAction ι → Option (OpenState ι)
  | .openFile c path creat =>
      if (state.clients c).stage = .idle then
        some { state with
          clients := Function.update state.clients c ((state.clients c).startOpen path creat) }
      else none
  | .close c path =>
      if (state.clients c).stage = .idle ∧ (state.clients c).mapFd path then
        some { state with
          clients := Function.update state.clients c
            { state.clients c with stage := .closing path } }
      else none
  | .advance c delivered =>
      ((state.clients c).advance route state.cluster delivered).map fun result =>
        ⟨result.2, Function.update state.clients c result.1⟩

/-- No call for the file is under way. -/
def Settled (state : OpenState ι) (path : FileUri) : Prop :=
  ∀ c, (state.clients c).stage.path ≠ some path

/-- The descriptors of a file, over all clients. -/
def descriptors [Fintype ι] (state : OpenState ι) (path : FileUri) : Nat :=
  (Finset.univ.filter fun c => (state.clients c).mapFd path).card

/-- The servers before the first client opens a file: nobody has one open, and none is
marked for destruction. -/
def Fresh (state : OpenState ι) : Prop :=
  (∀ path record, state.cluster.record route path = some record →
    record.nOpen = 0 ∧ record.status = .attach) ∧
      ∀ c, state.clients c = .init

/-- The counter of every stored file that no call is about is the number of its
descriptors. -/
def Counted [Fintype ι] (state : OpenState ι) : Prop :=
  ∀ path, state.Settled path → ∀ record, state.cluster.record route path = some record →
    record.nOpen = state.descriptors path

/-- An unlink does not remove a file that some client has open. -/
def KeepsOpen (state : OpenState ι) : Prop :=
  ∀ (path : FileUri) c, (state.clients c).mapFd path →
    (state.cluster.ask route (.deleteOp 4 path)).1 = .noDelete ∧
      ((state.cluster.ask route (.deleteOp 4 path)).2.record route path).isSome

/-- The steps by which a call raises the counter once. A dataset that is in the pool is in
the map of `struct stat`; one that `create_dataset` finds on the server is not; nobody else
has created the dataset between the two requests of `create_dataset`; the requests for block
0 succeed; and the counter does not overflow. -/
def Careful (state : OpenState ι) : OpenAction ι → Prop
  | .openFile _ _ _ | .close _ _ => True
  | .advance c delivered =>
      match (state.clients c).stage with
      | .createStat path =>
          if (state.clients c).inPool path then (state.clients c).statMap path = true
          else ∀ record ∈ state.cluster.record route path,
            (state.clients c).statMap path = false ∧ record.nOpen < 2 ^ 31 - 1
      | .createSet path => state.cluster.record route path = none
      | .createData _ | .openData _ _ => delivered = true
      | .lookup path creat =>
          ((state.clients c).statMap path = true ∨ creat = true ∨
              (state.clients c).inPool path = false) ∧
            ∀ record ∈ state.cluster.record route path, record.nOpen < 2 ^ 31 - 1
      | .idle | .parent _ _ | .closing _ => True

end OpenState

end Steps

/-! ## The tables after a step -/

namespace OpenClient

variable {client : OpenClient} {uri uri' dir : CString}

theorem inPool_addDirectoryToPool (client : OpenClient) (dir uri : CString) :
    (client.addDirectoryToPool dir).inPool uri =
      if findLastParentDir uri = dir then false else client.inPool uri := by
  simp only [inPool, addDirectoryToPool, Function.update_apply]
  split <;> rfl

/-- The pool after an entry for a file was added. -/
theorem inPool_addEntry (client : OpenClient) (uri uri' : CString) :
    (client.addDatasetEntryInPool uri false).inPool uri' =
      (decide (uri' = uri) || client.inPool uri') := by
  simp only [inPool, addDatasetEntryInPool, Bool.false_eq_true, if_false, Function.update_apply]
  by_cases hdir : findLastParentDir uri' = findLastParentDir uri
  · rw [if_pos hdir, hdir, Option.map_some, Option.getD_some]
    by_cases heq : uri' = uri
    · simp [heq]
    · cases client.pool (findLastParentDir uri) <;> simp [heq]
  · have hne : uri' ≠ uri := fun heq => hdir (by rw [heq])
    simp [hdir, hne]

theorem inPool_of_addEntry {isDirectory : Bool}
    (h : (client.addDatasetEntryInPool uri isDirectory).inPool uri' = true) :
    uri' = uri ∨ client.inPool uri' = true := by
  have hadded : (client.addDatasetEntryInPool uri false).inPool uri' = true := by
    cases isDirectory with
    | false => exact h
    | true =>
        rw [show client.addDatasetEntryInPool uri true =
          (client.addDatasetEntryInPool uri false).addDirectoryToPool uri from rfl,
          inPool_addDirectoryToPool] at h
        split at h
        · cases h
        · exact h
  simpa [inPool_addEntry] using hadded

theorem inPool_addEntry_self (client : OpenClient) (path : FileUri) (isDirectory : Bool) :
    (client.addDatasetEntryInPool path isDirectory).inPool path = true := by
  cases isDirectory with
  | false => simp [inPool_addEntry]
  | true =>
      rw [show client.addDatasetEntryInPool path true =
        (client.addDatasetEntryInPool path false).addDirectoryToPool path from rfl,
        inPool_addDirectoryToPool, if_neg (findLastParentDir_ne_self path.2)]
      simp [inPool_addEntry]

@[simp]
theorem statMap_addEntry (client : OpenClient) (uri : CString) (isDirectory : Bool) :
    (client.addDatasetEntryInPool uri isDirectory).statMap = client.statMap := by
  cases isDirectory <;> rfl

@[simp]
theorem mapFd_addEntry (client : OpenClient) (uri : CString) (isDirectory : Bool) :
    (client.addDatasetEntryInPool uri isDirectory).mapFd = client.mapFd := by
  cases isDirectory <;> rfl

/-- With a new entry a client knows of one file more. -/
theorem known_addEntry {path q : FileUri} {isDirectory : Bool} {stage : OpenStage}
    (h : { client.addDatasetEntryInPool path isDirectory with stage := stage }.statMap q = true ∨
      { client.addDatasetEntryInPool path isDirectory with stage := stage }.inPool q = true) :
    q = path ∨ client.statMap q = true ∨ client.inPool q = true := by
  rcases h with hstat | hpool
  · rw [statMap_addEntry] at hstat
    exact .inr (.inl hstat)
  · rcases inPool_of_addEntry hpool with heq | hold
    · exact .inl (Subtype.ext heq)
    · exact .inr (.inr hold)

end OpenClient

/-! ## The records after a request -/

section Records

variable {route : CString → Nat} {cluster : MetadataCluster}

theorem key_path (server : MetadataServer) (path : FileUri) : server.key path = path := by
  rw [MetadataServer.key, removeLastSlash_of_ne path.2.no_trailing_slash, ite_self]

theorem record_ask_eq (req : MetadataRequest) (q : FileUri) :
    (cluster.ask route req).2.record route q =
      if route q = route req.uri then ((cluster (route req.uri)).handle req).2.get q
      else cluster.record route q := by
  simp only [MetadataCluster.record, MetadataCluster.ask, Function.update_apply]
  split <;> rfl

/-- A request changes the record of its file as its effect says, and no other. -/
theorem record_ask {req : MetadataRequest} {path : FileUri} (huri : req.uri = path)
    (q : FileUri) :
    (cluster.ask route req).2.record route q =
      if q = path then req.effect (cluster.record route path) else cluster.record route q := by
  have hholds := MetadataServer.holds_handle (cluster (route req.uri)) req q
  rw [record_ask_eq, hholds, huri, key_path]
  by_cases hq : q = path
  · rw [hq, if_pos rfl, if_pos rfl, if_pos rfl]
    rfl
  · have hne : path.1 ≠ q.1 := fun heq => hq (Subtype.ext heq.symm)
    rw [if_neg hq, if_neg hne]
    split
    next hroute => rw [MetadataCluster.record, hroute]
    next => rfl

/-- A lookup that announces no open changes nothing. -/
theorem record_ask_lookup (uri : CString) (q : FileUri) :
    (cluster.ask route (.readOp 0 uri)).2.record route q = cluster.record route q := by
  have hholds := MetadataServer.holds_handle (cluster (route uri)) (.readOp 0 uri) q
  rw [record_ask_eq, MetadataRequest.uri, hholds]
  split
  next hroute =>
    rw [MetadataCluster.record, hroute]
    split
    next heq =>
      rw [← heq]
      cases (cluster (route uri)).get ((cluster (route uri)).key
        (MetadataRequest.readOp 0 uri).uri) <;> rfl
    next => rfl
  next => rfl

end Records

/-! ## Shares in the counters -/

namespace OpenClient

/-- The call of the client has raised the counter of the file and has not made its
descriptor. After `create_dataset` has found the dataset, that is so unless it was found in
the pool, and then `open_local_dataset` comes next. -/
def holds (client : OpenClient) (path : FileUri) : Bool :=
  match client.stage with
  | .createData p | .openData p _ => p = path
  | .lookup p creat => creat && !client.statMap path && p = path
  | .idle | .parent _ _ | .createStat _ | .createSet _ | .closing _ => false

/-- The share of a client in the counter of a file. -/
def share (client : OpenClient) (path : FileUri) : Int :=
  (if client.mapFd path then 1 else 0) + if client.holds path then 1 else 0

/-- What a call relies on: a file that is being opened has no descriptor, and one that is
being closed has. -/
def StageOk (client : OpenClient) : Prop :=
  match client.stage with
  | .idle => True
  | .parent p _ | .createStat p | .createSet p | .createData p | .openData p _ =>
      client.mapFd p = false
  | .lookup p creat =>
      client.mapFd p = false ∧
        (creat = true → client.statMap p = false → client.inPool p = true)
  | .closing p => client.mapFd p = true

end OpenClient

/-- The counter in a record; there is none for a file that is not stored. -/
def countOf (record : Option DatasetRecord) : Int :=
  (record.map fun record => record.nOpen).getD 0

section Invariant

variable {route : CString → Nat} {ι : Type} [Fintype ι]

variable (route) in
/-- Every counter is the sum of the shares, and what the tables of a client know is
stored. -/
structure OpenInv (state : OpenState ι) : Prop where
  count : ∀ path, countOf (state.cluster.record route path) =
    ∑ c, (state.clients c).share path
  attached : ∀ path record, state.cluster.record route path = some record →
    record.status = .attach
  known : ∀ c (path : FileUri), (state.clients c).statMap path = true ∨
    (state.clients c).inPool path = true → (state.cluster.record route path).isSome
  stage : ∀ c, (state.clients c).StageOk

variable {state : OpenState ι} {c : ι} {client : OpenClient} {cluster : MetadataCluster}

theorem OpenClient.share_nonneg (client : OpenClient) (path : FileUri) : 0 ≤ client.share path := by
  rw [OpenClient.share]
  split <;> split <;> decide

/-- Who has a share in a counter has it in the counter of a stored file. -/
theorem OpenInv.le_count (hinv : OpenInv route state) (c : ι) (path : FileUri) :
    (state.clients c).share path ≤ countOf (state.cluster.record route path) := by
  rw [hinv.count]
  exact Finset.single_le_sum (fun c _ => (state.clients c).share_nonneg path) (Finset.mem_univ c)

theorem OpenInv.nOpen_nonneg (hinv : OpenInv route state) {path : FileUri} {record : DatasetRecord}
    (hrecord : state.cluster.record route path = some record) : 0 ≤ record.nOpen := by
  have hcount := hinv.count path
  rw [hrecord] at hcount
  change record.nOpen = _ at hcount
  rw [hcount]
  exact Finset.sum_nonneg fun c _ => (state.clients c).share_nonneg path

theorem OpenInv.exists_of_share (hinv : OpenInv route state) {path : FileUri}
    (hshare : 1 ≤ (state.clients c).share path) :
    ∃ record, state.cluster.record route path = some record ∧ 1 ≤ record.nOpen := by
  have hle := hshare.trans (hinv.le_count c path)
  cases hrecord : state.cluster.record route path with
  | none =>
      rw [hrecord] at hle
      cases hle
  | some record =>
      rw [hrecord] at hle
      exact ⟨record, rfl, hle⟩

variable [DecidableEq ι]

/-- A step of one client that is about one file. -/
theorem OpenInv.move (hinv : OpenInv route state) (path : FileUri)
    (hrecord : ∀ q, q ≠ path → cluster.record route q = state.cluster.record route q)
    (hshare : ∀ q, q ≠ path → client.share q = (state.clients c).share q)
    (hcount : countOf (cluster.record route path) + (state.clients c).share path =
      countOf (state.cluster.record route path) + client.share path)
    (hattached : ∀ record, cluster.record route path = some record → record.status = .attach)
    (hstored : (state.cluster.record route path).isSome → (cluster.record route path).isSome)
    (hknown : ∀ q : FileUri, client.statMap q = true ∨ client.inPool q = true →
      (cluster.record route q).isSome)
    (hstage : client.StageOk) :
    OpenInv route ⟨cluster, Function.update state.clients c client⟩ where
  count q := by
    have hsum := Family.sum_update (fun client : OpenClient => client.share q)
      state.clients c client
    have hold := hinv.count q
    change countOf (cluster.record route q) =
      ∑ c', (Function.update state.clients c client c').share q
    by_cases hq : q = path
    · subst hq
      omega
    · rw [hrecord q hq]
      have hsame := hshare q hq
      omega
  attached q record hq := by
    by_cases hpath : q = path
    · subst hpath
      exact hattached record hq
    · exact hinv.attached q record ((hrecord q hpath).symm.trans hq)
  known c' q hq := by
    by_cases hc : c' = c
    · subst hc
      simp only [Function.update_self] at hq
      exact hknown q hq
    · simp only [Function.update_of_ne hc] at hq
      have hsome := hinv.known c' q hq
      by_cases hpath : q = path
      · subst hpath
        exact hstored hsome
      · exact (hrecord q hpath).symm ▸ hsome
  stage c' := by
    by_cases hc : c' = c
    · subst hc
      simpa only [Function.update_self] using hstage
    · simpa only [Function.update_of_ne hc] using hinv.stage c'

/-- A step that changes no record and no share. -/
theorem OpenInv.stay (hinv : OpenInv route state) (path : FileUri)
    (hrecord : ∀ q, cluster.record route q = state.cluster.record route q)
    (hshare : ∀ q, client.share q = (state.clients c).share q)
    (hknown : ∀ q : FileUri, client.statMap q = true ∨ client.inPool q = true →
      (state.cluster.record route q).isSome)
    (hstage : client.StageOk) :
    OpenInv route ⟨cluster, Function.update state.clients c client⟩ := by
  refine hinv.move path (fun q _ => hrecord q) (fun q _ => hshare q) ?_ ?_ ?_ ?_ hstage
  · rw [hrecord, hshare]
  · intro record hsome
    exact hinv.attached path record ((hrecord path).symm.trans hsome)
  · rw [hrecord]
    exact id
  · intro q hq
    rw [hrecord]
    exact hknown q hq

/-! ## What the requests of a step do -/

section Requests

variable {path : FileUri} {record : DatasetRecord}

theorem ask_stat_some (hrecord : cluster.record route path = some record)
    (hstatus : record.status = .attach) :
    (cluster.ask route (.readOp 1 path)).1 = .dataset record.opened ∧
      (cluster.ask route (.readOp 1 path)).2.record route path = some record.opened := by
  have hdirty : record.status ≠ .dirty := by
    rw [hstatus]
    decide
  constructor
  · rw [MetadataCluster.record] at hrecord
    simp only [MetadataCluster.ask, MetadataServer.handle, MetadataRequest.uri,
      MetadataServer.readOp, key_path, hrecord, hdirty, if_false, if_true]
  · rw [record_ask rfl, if_pos rfl, hrecord]
    exact if_pos ⟨rfl, hdirty⟩

theorem ask_stat_none (hrecord : cluster.record route path = none) :
    (cluster.ask route (.readOp 1 path)).1 = .error ∧
      (cluster.ask route (.readOp 1 path)).2.record route path = none := by
  constructor
  · rw [MetadataCluster.record] at hrecord
    simp only [MetadataCluster.ask, MetadataServer.handle, MetadataRequest.uri,
      MetadataServer.readOp, key_path, hrecord]
  · rw [record_ask rfl, if_pos rfl, hrecord]
    rfl

theorem record_ask_open (hrecord : cluster.record route path = some record)
    (hstatus : record.status = .attach) :
    (cluster.ask route (.openOp path)).2.record route path = some record.opened := by
  have hrecovered : record.recovered = record := by
    rw [DatasetRecord.recovered, if_neg (by rw [hstatus]; decide)]
  rw [record_ask rfl, if_pos rfl, hrecord]
  simp only [MetadataRequest.effect, hrecovered]

theorem ask_close (hrecord : cluster.record route path = some record)
    (hstatus : record.status = .attach) (hopen : 1 ≤ record.nOpen) :
    (cluster.ask route (.closeOp path)).1 = .close ∧
      (cluster.ask route (.closeOp path)).2.record route path =
        some { record with nOpen := record.nOpen - 1 } := by
  have hclosed : record.closed = { record with nOpen := record.nOpen - 1 } := by
    rw [DatasetRecord.closed, if_pos (by omega)]
  have hkept : ¬ (record.closed.status = .dest ∧ record.closed.nOpen = 0) := by
    rw [hclosed, hstatus]
    simp
  constructor
  · rw [MetadataCluster.record] at hrecord
    simp only [MetadataCluster.ask, MetadataServer.handle, MetadataRequest.uri,
      MetadataServer.closeOp, key_path, hrecord, hkept, if_false]
  · rw [record_ask rfl, if_pos rfl, hrecord]
    exact (if_neg hkept).trans (congrArg some hclosed)

/-- The other files keep their records. -/
theorem record_ask_of_ne {req : MetadataRequest} (huri : req.uri = path) (q : FileUri)
    (hq : q ≠ path) : (cluster.ask route req).2.record route q = cluster.record route q := by
  rw [record_ask huri, if_neg hq]

end Requests

/-! ## The stages of a call -/

section Stages

variable {path : FileUri} {delivered : Bool} {result : OpenClient × MetadataCluster}

theorem share_congr {client' : OpenClient} (hmap : client'.mapFd = client.mapFd)
    (hholds : ∀ q, client'.holds q = client.holds q) (q : FileUri) :
    client'.share q = client.share q := by
  rw [OpenClient.share, OpenClient.share, hmap, hholds]

/-- A client that only goes to a stage that holds as much as the one before. -/
theorem OpenInv.goTo (hinv : OpenInv route state) (path : FileUri) {stage : OpenStage}
    (hholds : ∀ q, { state.clients c with stage := stage }.holds q = (state.clients c).holds q)
    (hstage : { state.clients c with stage := stage }.StageOk) :
    OpenInv route ⟨state.cluster,
      Function.update state.clients c { state.clients c with stage := stage }⟩ :=
  hinv.stay path (fun _ => rfl) (share_congr rfl hholds) (hinv.known c) hstage

theorem OpenInv.startOpen (hinv : OpenInv route state) (hs : (state.clients c).stage = .idle)
    (path : FileUri) (creat : Bool) :
    OpenInv route { state with
      clients := Function.update state.clients c ((state.clients c).startOpen path creat) } := by
  have hnone : ∀ q, (state.clients c).holds q = false := by
    intro q
    simp only [OpenClient.holds, hs]
  rw [OpenClient.startOpen]
  split
  next =>
    rw [Function.update_eq_self]
    exact hinv
  next hmap =>
    have hfree : (state.clients c).mapFd path = false := by simpa using hmap
    split
    next =>
      split
      · exact hinv.goTo path (fun q => (hnone q).symm) hfree
      · exact hinv.goTo path (fun q => (hnone q).symm) hfree
    next =>
      refine hinv.goTo path (fun q => ?_) ⟨hfree, by simp⟩
      rw [hnone]
      rfl

theorem OpenInv.startClose (hinv : OpenInv route state) (hs : (state.clients c).stage = .idle)
    (hmap : (state.clients c).mapFd path = true) :
    OpenInv route { state with
      clients := Function.update state.clients c
        { state.clients c with stage := .closing path } } := by
  refine hinv.goTo path (fun q => ?_) hmap
  simp only [OpenClient.holds, hs]

theorem OpenInv.parent {tries : Nat} (hinv : OpenInv route state)
    (hs : (state.clients c).stage = .parent path tries)
    (hadv : (state.clients c).advance route state.cluster delivered = some result) :
    OpenInv route ⟨result.2, Function.update state.clients c result.1⟩ := by
  have hfree : (state.clients c).mapFd path = false := by
    have hstage := hinv.stage c
    simpa only [OpenClient.StageOk, hs] using hstage
  have hnone : ∀ q, (state.clients c).holds q = false := by
    intro q
    simp only [OpenClient.holds, hs]
  simp only [OpenClient.advance, hs] at hadv
  split at hadv
  · cases hadv
    exact hinv.goTo path (fun q => (hnone q).symm) hfree
  · split at hadv
    · cases hadv
      -- the new table of the directory is empty, so the pool only loses names
      refine hinv.stay path (record_ask_lookup _) (share_congr rfl fun q => (hnone q).symm) ?_ hfree
      intro q hq
      refine hinv.known c q (hq.imp_right fun hpool => ?_)
      have hpool := (OpenClient.inPool_addDirectoryToPool _ _ _).symm.trans hpool
      split at hpool
      · cases hpool
      · exact hpool
    · cases hadv
      refine hinv.stay path (record_ask_lookup _) (share_congr rfl fun q => ?_) (hinv.known c) ?_
      · rw [hnone]
        split <;> rfl
      · split
        · trivial
        · exact hfree

/-- A request that raises the counter of its file by one, for a client whose share grows by
one and that learns of no other file. -/
theorem OpenInv.raise {req : MetadataRequest} {record : DatasetRecord} (hinv : OpenInv route state)
    (huri : req.uri = path) (hask : (state.cluster.ask route req).2 = cluster)
    (hrecord : cluster.record route path = some record) (hstatus : record.status = .attach)
    (hcount : record.nOpen = countOf (state.cluster.record route path) + 1)
    (hshare : ∀ q, client.share q = (state.clients c).share q + if q = path then 1 else 0)
    (hknown : ∀ q : FileUri, client.statMap q = true ∨ client.inPool q = true →
      q = path ∨ (state.clients c).statMap q = true ∨ (state.clients c).inPool q = true)
    (hstage : client.StageOk) :
    OpenInv route ⟨cluster, Function.update state.clients c client⟩ := by
  have hother : ∀ q, q ≠ path → cluster.record route q = state.cluster.record route q := by
    intro q hq
    rw [← hask]
    exact record_ask_of_ne huri q hq
  refine hinv.move path hother (fun q hq => ?_) ?_ ?_ ?_ ?_ hstage
  · rw [hshare, if_neg hq, add_zero]
  · have hpath := hshare path
    rw [if_pos rfl] at hpath
    have hnew : countOf (cluster.record route path) = record.nOpen := by
      rw [hrecord]
      rfl
    omega
  · intro stored hstored
    cases hrecord.symm.trans hstored
    exact hstatus
  · intro _
    rw [hrecord]
    rfl
  · intro q hq
    by_cases hpath : q = path
    · rw [hpath, hrecord]
      rfl
    · rw [hother q hpath]
      exact hinv.known c q ((hknown q hq).resolve_left hpath)

theorem share_held {client' : OpenClient} (hmap : client'.mapFd = client.mapFd)
    (hnone : ∀ q, client.holds q = false) (hheld : ∀ q, client'.holds q = decide (q = path))
    (q : FileUri) : client'.share q = client.share q + if q = path then 1 else 0 := by
  rw [OpenClient.share, OpenClient.share, hmap, hnone, hheld]
  by_cases hq : q = path <;> simp [hq]

theorem share_putFd (hfree : client.mapFd path = false) (q : FileUri) :
    (client.putFd path).share q =
      (if client.mapFd q then 1 else 0) + if q = path then 1 else 0 := by
  have hidle : (client.putFd path).holds q = false := rfl
  rw [OpenClient.share, hidle]
  by_cases hq : q = path
  · subst hq
    simp [OpenClient.putFd, hfree]
  · have hne : q.1 ≠ path.1 := fun heq => hq (Subtype.ext heq)
    simp [OpenClient.putFd, hne, hq]

/-- The descriptor takes over the share of the call. -/
theorem share_putFd_of_held (hfree : client.mapFd path = false)
    (hheld : ∀ q, client.holds q = decide (q = path)) (q : FileUri) :
    (client.putFd path).share q = client.share q := by
  rw [share_putFd hfree, OpenClient.share, hheld]
  simp

/-- The descriptor comes with a share of its own. -/
theorem share_putFd_of_none (hfree : client.mapFd path = false)
    (hnone : ∀ q, client.holds q = false) (q : FileUri) :
    (client.putFd path).share q = client.share q + if q = path then 1 else 0 := by
  rw [share_putFd hfree, OpenClient.share, hnone]
  simp

/-- A `stat_dataset` that announces the open of a stored file. -/
theorem OpenInv.announce {record : DatasetRecord} {isDirectory : Bool} {stage : OpenStage}
    (hinv : OpenInv route state) (hask : (state.cluster.ask route (.readOp 1 path)).2 = cluster)
    (hrecord : state.cluster.record route path = some record) (hupper : record.nOpen < 2 ^ 31 - 1)
    (hnone : ∀ q, (state.clients c).holds q = false)
    (hheld : ∀ q, { (state.clients c).addDatasetEntryInPool path isDirectory with
      stage := stage }.holds q = decide (q = path))
    (hstage : { (state.clients c).addDatasetEntryInPool path isDirectory with
      stage := stage }.StageOk) :
    OpenInv route ⟨cluster, Function.update state.clients c
      { (state.clients c).addDatasetEntryInPool path isDirectory with stage := stage }⟩ := by
  have hstatus := hinv.attached path record hrecord
  have hopened : cluster.record route path = some record.opened := by
    rw [← hask]
    exact (ask_stat_some hrecord hstatus).2
  refine hinv.raise rfl hask hopened hstatus ?_ (share_held ?_ hnone hheld) ?_ hstage
  · rw [hrecord, DatasetRecord.nOpen_opened (hinv.nOpen_nonneg hrecord) hupper]
    rfl
  · exact OpenClient.mapFd_addEntry _ _ _
  · exact fun q => OpenClient.known_addEntry

/-- A lookup of a file that is not stored. -/
theorem OpenInv.missing {stage : OpenStage} (hinv : OpenInv route state)
    (hask : (state.cluster.ask route (.readOp 1 path)).2 = cluster)
    (hrecord : state.cluster.record route path = none)
    (hholds : ∀ q, { state.clients c with stage := stage }.holds q = (state.clients c).holds q)
    (hstage : { state.clients c with stage := stage }.StageOk) :
    OpenInv route ⟨cluster,
      Function.update state.clients c { state.clients c with stage := stage }⟩ := by
  refine hinv.stay path (fun q => ?_) (share_congr rfl hholds) (hinv.known c) hstage
  rw [← hask]
  by_cases hq : q = path
  · rw [hq, (ask_stat_none hrecord).2, hrecord]
  · exact record_ask_of_ne rfl q hq

theorem OpenInv.createStat (hinv : OpenInv route state)
    (hs : (state.clients c).stage = .createStat path)
    (hcareful : OpenState.Careful route state (.advance c delivered))
    (hadv : (state.clients c).advance route state.cluster delivered = some result) :
    OpenInv route ⟨result.2, Function.update state.clients c result.1⟩ := by
  have hfree : (state.clients c).mapFd path = false := by
    have hstage := hinv.stage c
    simpa only [OpenClient.StageOk, hs] using hstage
  have hnone : ∀ q, (state.clients c).holds q = false := by
    intro q
    simp only [OpenClient.holds, hs]
  simp only [OpenState.Careful, hs] at hcareful
  simp only [OpenClient.advance, hs] at hadv
  cases hpool : (state.clients c).inPool path with
  | true =>
      rw [if_pos hpool] at hcareful hadv
      cases hadv
      -- `open_local_dataset` will raise the counter, so nothing is held yet
      refine hinv.goTo path (fun q => ?_) ⟨hfree, fun _ hstat => ?_⟩
      · rw [hnone, OpenClient.holds]
        by_cases hq : path = q
        · simp [← hq, hcareful]
        · simp [hq]
      · exact absurd (hcareful.symm.trans hstat) (by decide)
  | false =>
      rw [if_neg (by simp [hpool])] at hcareful hadv
      cases hask : state.cluster.ask route (.readOp 1 path) with
      | mk reply cluster =>
          have hcluster : (state.cluster.ask route (.readOp 1 path)).2 = cluster := by rw [hask]
          rw [hask] at hadv
          cases hrecord : state.cluster.record route path with
          | none =>
              have hreply := (ask_stat_none hrecord).1
              rw [hask] at hreply
              cases hreply
              cases hadv
              exact hinv.missing hcluster hrecord (fun q => (hnone q).symm) hfree
          | some record =>
              have hreply := (ask_stat_some hrecord (hinv.attached path record hrecord)).1
              rw [hask] at hreply
              cases hreply
              cases hadv
              obtain ⟨hstat, hupper⟩ := hcareful record hrecord
              refine hinv.announce hcluster hrecord hupper hnone (fun q => ?_) ⟨?_, fun _ _ => ?_⟩
              · by_cases hq : path = q
                · simp [OpenClient.holds, ← hq, hstat]
                · simp [OpenClient.holds, hq, Ne.symm hq]
              · rwa [OpenClient.mapFd_addEntry]
              · exact OpenClient.inPool_addEntry_self _ _ _

theorem OpenInv.createSet (hinv : OpenInv route state)
    (hs : (state.clients c).stage = .createSet path)
    (hcareful : OpenState.Careful route state (.advance c delivered))
    (hadv : (state.clients c).advance route state.cluster delivered = some result) :
    OpenInv route ⟨result.2, Function.update state.clients c result.1⟩ := by
  have hfree : (state.clients c).mapFd path = false := by
    have hstage := hinv.stage c
    simpa only [OpenClient.StageOk, hs] using hstage
  have hnone : ∀ q, (state.clients c).holds q = false := by
    intro q
    simp only [OpenClient.holds, hs]
  simp only [OpenState.Careful, hs] at hcareful
  simp only [OpenClient.advance, hs] at hadv
  cases hadv
  have hcreated : (state.cluster.ask route (.setOp path (createdRecord path))).2.record route path =
      some (createdRecord path) := by
    rw [record_ask rfl, if_pos rfl, hcareful]
    rfl
  refine hinv.raise rfl rfl hcreated rfl ?_ (share_held ?_ hnone fun q => ?_) ?_ ?_
  · rw [hcareful]
    rfl
  · exact OpenClient.mapFd_addEntry _ _ _
  · simp [OpenClient.holds, eq_comm]
  · exact fun q => OpenClient.known_addEntry
  · change ((state.clients c).addDatasetEntryInPool path false).mapFd path = false
    rw [OpenClient.mapFd_addEntry, hfree]

/-- The end of an open whose call holds a share. -/
theorem OpenInv.complete (hinv : OpenInv route state)
    (hfree : (state.clients c).mapFd path = false)
    (hheld : ∀ q, (state.clients c).holds q = decide (q = path)) :
    OpenInv route ⟨state.cluster,
      Function.update state.clients c (((state.clients c).putStat path).putFd path)⟩ := by
  have hshare : (state.clients c).share path = 1 := by
    rw [OpenClient.share, hfree, hheld]
    simp
  obtain ⟨record, hrecord, -⟩ := hinv.exists_of_share hshare.ge
  refine hinv.stay path (fun _ => rfl) (share_putFd_of_held hfree hheld) ?_ trivial
  rintro q (hstat | hpool)
  · by_cases hq : q = path
    · rw [hq, hrecord]
      rfl
    · have hne : q.1 ≠ path.1 := fun heq => hq (Subtype.ext heq)
      exact hinv.known c q (.inl ((Function.update_of_ne hne _ _).symm.trans hstat))
  · exact hinv.known c q (.inr hpool)

theorem OpenInv.createData (hinv : OpenInv route state)
    (hs : (state.clients c).stage = .createData path)
    (hcareful : OpenState.Careful route state (.advance c delivered))
    (hadv : (state.clients c).advance route state.cluster delivered = some result) :
    OpenInv route ⟨result.2, Function.update state.clients c result.1⟩ := by
  have hfree : (state.clients c).mapFd path = false := by
    have hstage := hinv.stage c
    simpa only [OpenClient.StageOk, hs] using hstage
  simp only [OpenState.Careful, hs] at hcareful
  simp only [OpenClient.advance, hs, if_pos hcareful] at hadv
  cases hadv
  refine hinv.complete hfree fun q => ?_
  simp [OpenClient.holds, hs, eq_comm]

theorem OpenInv.openData {creat : Bool} (hinv : OpenInv route state)
    (hs : (state.clients c).stage = .openData path creat)
    (hcareful : OpenState.Careful route state (.advance c delivered))
    (hadv : (state.clients c).advance route state.cluster delivered = some result) :
    OpenInv route ⟨result.2, Function.update state.clients c result.1⟩ := by
  have hfree : (state.clients c).mapFd path = false := by
    have hstage := hinv.stage c
    simpa only [OpenClient.StageOk, hs] using hstage
  simp only [OpenState.Careful, hs] at hcareful
  simp only [OpenClient.advance, hs, if_pos hcareful] at hadv
  cases hadv
  refine hinv.complete hfree fun q => ?_
  simp [OpenClient.holds, hs, eq_comm]

/-- `open_local_dataset` for a file in the map of `struct stat`. -/
theorem OpenInv.openLocal {creat : Bool} (hinv : OpenInv route state)
    (hs : (state.clients c).stage = .lookup path creat)
    (hfree : (state.clients c).mapFd path = false)
    (hstat : (state.clients c).statMap path = true)
    (hupper : ∀ record ∈ state.cluster.record route path, record.nOpen < 2 ^ 31 - 1) :
    OpenInv route ⟨(state.cluster.ask route (.openOp path)).2,
      Function.update state.clients c ((state.clients c).putFd path)⟩ := by
  have hnone : ∀ q, (state.clients c).holds q = false := by
    intro q
    simp only [OpenClient.holds, hs]
    by_cases hq : path = q
    · simp [← hq, hstat]
    · simp [hq]
  obtain ⟨record, hrecord⟩ := Option.isSome_iff_exists.mp (hinv.known c path (.inl hstat))
  have hstatus := hinv.attached path record hrecord
  refine hinv.raise rfl rfl (record_ask_open hrecord hstatus) hstatus ?_
    (share_putFd_of_none hfree hnone) (fun q => .inr) trivial
  rw [hrecord, DatasetRecord.nOpen_opened (hinv.nOpen_nonneg hrecord) (hupper record hrecord)]
  rfl

theorem OpenInv.lookup {creat : Bool} (hinv : OpenInv route state)
    (hs : (state.clients c).stage = .lookup path creat)
    (hcareful : OpenState.Careful route state (.advance c delivered))
    (hadv : (state.clients c).advance route state.cluster delivered = some result) :
    OpenInv route ⟨result.2, Function.update state.clients c result.1⟩ := by
  obtain ⟨hfree, hfound⟩ : (state.clients c).mapFd path = false ∧ (creat = true →
      (state.clients c).statMap path = false → (state.clients c).inPool path = true) := by
    have hstage := hinv.stage c
    simpa only [OpenClient.StageOk, hs] using hstage
  simp only [OpenState.Careful, hs] at hcareful
  obtain ⟨hpool, hupper⟩ := hcareful
  simp only [OpenClient.advance, hs] at hadv
  cases hstat : (state.clients c).statMap path with
  | true =>
      rw [if_pos hstat] at hadv
      cases hadv
      exact hinv.openLocal hs hfree hstat hupper
  | false =>
      rw [if_neg (by simp [hstat])] at hadv
      cases hin : (state.clients c).inPool path with
      | true =>
          rw [if_pos hin] at hadv
          cases hadv
          -- `create_dataset` has found the file on the server and raised its counter
          have hcreat : creat = true := by simpa [hstat, hin] using hpool
          refine hinv.goTo path (fun q => ?_) hfree
          by_cases hq : path = q
          · simp [OpenClient.holds, hs, ← hq, hcreat, hstat]
          · simp [OpenClient.holds, hs, hq]
      | false =>
          rw [if_neg (by simp [hin])] at hadv
          have hcreat : creat = false := by
            cases creat with
            | false => rfl
            | true => exact absurd (hin.symm.trans (hfound rfl hstat)) (by decide)
          have hnone : ∀ q, (state.clients c).holds q = false := by
            intro q
            simp [OpenClient.holds, hs, hcreat]
          cases hask : state.cluster.ask route (.readOp 1 path) with
          | mk reply cluster =>
              have hcluster : (state.cluster.ask route (.readOp 1 path)).2 = cluster := by
                rw [hask]
              rw [hask] at hadv
              cases hrecord : state.cluster.record route path with
              | none =>
                  have hreply := (ask_stat_none hrecord).1
                  rw [hask] at hreply
                  cases hreply
                  subst hcreat
                  cases hadv
                  exact hinv.missing hcluster hrecord (fun q => (hnone q).symm) trivial
              | some record =>
                  have hreply := (ask_stat_some hrecord (hinv.attached path record hrecord)).1
                  rw [hask] at hreply
                  cases hreply
                  cases hadv
                  refine hinv.announce hcluster hrecord (hupper record hrecord) hnone
                    (fun q => ?_) ?_
                  · simp [OpenClient.holds, eq_comm]
                  · change ((state.clients c).addDatasetEntryInPool path _).mapFd path = false
                    rw [OpenClient.mapFd_addEntry, hfree]

theorem OpenInv.closing (hinv : OpenInv route state)
    (hs : (state.clients c).stage = .closing path)
    (hadv : (state.clients c).advance route state.cluster delivered = some result) :
    OpenInv route ⟨result.2, Function.update state.clients c result.1⟩ := by
  have hmap : (state.clients c).mapFd path = true := by
    have hstage := hinv.stage c
    simpa only [OpenClient.StageOk, hs] using hstage
  have hnone : ∀ q, (state.clients c).holds q = false := by
    intro q
    simp only [OpenClient.holds, hs]
  have hshare : (state.clients c).share path = 1 := by
    simp [OpenClient.share, hmap, hnone]
  obtain ⟨record, hrecord, hopen⟩ := hinv.exists_of_share hshare.ge
  obtain ⟨hreply, hclosed⟩ := ask_close hrecord (hinv.attached path record hrecord) hopen
  simp only [OpenClient.advance, hs, hreply] at hadv
  cases hadv
  refine hinv.move path (record_ask_of_ne rfl) (fun q hq => ?_) ?_ ?_ ?_ ?_ trivial
  · have hne : q.1 ≠ path.1 := fun heq => hq (Subtype.ext heq)
    rw [OpenClient.share, OpenClient.share, hnone]
    simp [OpenClient.eraseFd, OpenClient.holds, hne]
  · have herased : ((state.clients c).eraseFd path).share path = 0 := by
      simp [OpenClient.share, OpenClient.eraseFd, OpenClient.holds]
    change countOf ((state.cluster.ask route (.closeOp path)).2.record route path) + _ =
      _ + ((state.clients c).eraseFd path).share path
    rw [hclosed, hrecord, hshare, herased]
    simp [countOf]
  · intro stored hstored
    cases hclosed.symm.trans hstored
    exact hinv.attached path record hrecord
  · intro _
    change ((state.cluster.ask route (.closeOp path)).2.record route path).isSome
    rw [hclosed]
    rfl
  · intro q hq
    have hsome := hinv.known c q hq
    change ((state.cluster.ask route (.closeOp path)).2.record route q).isSome
    by_cases hpath : q = path
    · rw [hpath, hclosed]
      rfl
    · rw [record_ask_of_ne rfl q hpath]
      exact hsome

end Stages

/-! ## Steps and runs -/

/-- A careful step keeps every counter the sum of the shares. -/
theorem OpenInv.step (hinv : OpenInv route state) {action : OpenAction ι} {state' : OpenState ι}
    (hcareful : state.Careful route action) (hstep : state.step route action = some state') :
    OpenInv route state' := by
  cases action with
  | openFile c path creat =>
      simp only [OpenState.step] at hstep
      split at hstep
      next hidle =>
        cases hstep
        exact hinv.startOpen hidle path creat
      next => cases hstep
  | close c path =>
      simp only [OpenState.step] at hstep
      split at hstep
      next hidle =>
        cases hstep
        exact hinv.startClose hidle.1 hidle.2
      next => cases hstep
  | advance c delivered =>
      obtain ⟨result, hadv, rfl⟩ := Option.map_eq_some_iff.mp hstep
      cases hs : (state.clients c).stage with
      | idle =>
          rw [OpenClient.advance, hs] at hadv
          cases hadv
      | parent path tries => exact hinv.parent hs hadv
      | createStat path => exact hinv.createStat hs hcareful hadv
      | createSet path => exact hinv.createSet hs hcareful hadv
      | createData path => exact hinv.createData hs hcareful hadv
      | lookup path creat => exact hinv.lookup hs hcareful hadv
      | openData path creat => exact hinv.openData hs hcareful hadv
      | closing path => exact hinv.closing hs hadv

namespace OpenState

omit [DecidableEq ι] in
theorem Fresh.openInv {start : OpenState ι} (hfresh : start.Fresh route) : OpenInv route start where
  count path := by
    have hshare : ∀ c, (start.clients c).share path = 0 := by
      intro c
      rw [hfresh.2 c]
      rfl
    rw [Finset.sum_eq_zero fun c _ => hshare c]
    cases hrecord : start.cluster.record route path with
    | none => rfl
    | some record => exact (hfresh.1 path record hrecord).1
  attached path record hrecord := (hfresh.1 path record hrecord).2
  known c path hknown := by
    have hpool : OpenClient.init.inPool path = false := by
      simp only [OpenClient.inPool, OpenClient.init]
      split <;> rfl
    rw [hfresh.2 c, hpool] at hknown
    rcases hknown with hstat | hpool
    · cases hstat
    · cases hpool
  stage c := by
    rw [hfresh.2 c]
    trivial

omit [Fintype ι] [DecidableEq ι] in
theorem Settled.share_eq {path : FileUri} (hsettled : state.Settled path) (c : ι) :
    (state.clients c).share path = if (state.clients c).mapFd path then 1 else 0 := by
  have hpath := hsettled c
  have hnone : (state.clients c).holds path = false := by
    rw [OpenClient.holds]
    split <;> simp_all [OpenStage.path]
  simp [OpenClient.share, hnone]

end OpenState

omit [DecidableEq ι] in
/-- Where no call is under way, the shares are the descriptors. -/
theorem OpenInv.counted (hinv : OpenInv route state) : state.Counted route := by
  intro path hsettled record hrecord
  have hcount := hinv.count path
  rw [hrecord, Finset.sum_congr rfl fun c _ => hsettled.share_eq c, Finset.sum_boole] at hcount
  exact hcount

omit [DecidableEq ι] in
/-- A descriptor has a share, so the counter is not zero. -/
theorem OpenInv.keepsOpen (hinv : OpenInv route state) : state.KeepsOpen route := by
  intro path c hmap
  have hle : 1 ≤ (state.clients c).share path := by
    rw [OpenClient.share, if_pos hmap]
    split <;> decide
  obtain ⟨record, hrecord, hopen⟩ := hinv.exists_of_share hle
  have hne : record.nOpen ≠ 0 := by omega
  constructor
  · rw [MetadataCluster.record] at hrecord
    simp only [MetadataCluster.ask, MetadataServer.handle, MetadataRequest.uri,
      MetadataServer.deleteOp, key_path, hrecord, hne, if_false]
  · rw [record_ask rfl, if_pos rfl, hrecord]
    simp only [MetadataRequest.effect, hne, if_false, Option.isSome_some]

end Invariant

/-- In every run whose steps are careful, the counter of every stored file that no call is
about is the number of its descriptors, and no unlink removes a file that is open. -/
theorem opens_counted {route : CString → Nat} {ι : Type} [Fintype ι] [DecidableEq ι]
    {actions : List (OpenAction ι)} {start state : OpenState ι} (hfresh : start.Fresh route)
    (hcareful : Along (OpenState.step route) (OpenState.Careful route) actions start)
    (hrun : run (OpenState.step route) actions start = some state) :
    state.Counted route ∧ state.KeepsOpen route := by
  have hinv := hcareful.invariant (fun _ _ _ hinv => hinv.step) hfresh.openInv hrun
  exact ⟨hinv.counted, hinv.keepsOpen⟩

instance {ι : Type} (route : CString → Nat) (state : OpenState ι) :
    ∀ action : OpenAction ι, Decidable (state.Careful route action)
  | .openFile _ _ _ | .close _ _ => isTrue trivial
  | .advance c delivered =>
      match hs : (state.clients c).stage with
      | .createStat path =>
          decidable_of_iff (if (state.clients c).inPool path then
            (state.clients c).statMap path = true
          else ∀ record ∈ state.cluster.record route path,
            (state.clients c).statMap path = false ∧ record.nOpen < 2 ^ 31 - 1)
            (by simp only [OpenState.Careful, hs])
      | .createSet path =>
          decidable_of_iff ((state.cluster.record route path).isNone)
            (by simp only [OpenState.Careful, hs, Option.isNone_iff_eq_none])
      | .createData _ | .openData _ _ =>
          decidable_of_iff (delivered = true) (by simp only [OpenState.Careful, hs])
      | .lookup path creat =>
          decidable_of_iff (((state.clients c).statMap path = true ∨ creat = true ∨
            (state.clients c).inPool path = false) ∧
              ∀ record ∈ state.cluster.record route path, record.nOpen < 2 ^ 31 - 1)
            (by simp only [OpenState.Careful, hs])
      | .idle | .parent _ _ | .closing _ => isTrue (by simp only [OpenState.Careful, hs])

/-- Two clients and one metadata server that stores nothing. -/
def withoutFiles : OpenState (Fin 2) where
  cluster _ := .init imssRoot
  clients _ := .init

theorem fresh_withoutFiles : withoutFiles.Fresh fun _ => 0 := by
  refine ⟨fun path record hrecord => ?_, fun _ => rfl⟩
  rw [MetadataCluster.record, withoutFiles, MetadataServer.get_init] at hrecord
  cases hrecord

/-- The counter of a file and the number of its descriptors after a run. -/
def counterAfter (path : FileUri) (actions : List (OpenAction (Fin 2)))
    (start : OpenState (Fin 2)) :
    Option (Option Int × Nat) :=
  (run (OpenState.step fun _ => 0) actions start).map fun state =>
    ((state.cluster.record (fun _ => 0) path).map fun record => record.nOpen,
      state.descriptors path)

/-- Client 0 creates the file, client 1 opens it, and client 0 closes it. -/
def shareActions : List (OpenAction (Fin 2)) :=
  [.openFile 0 exampleFile true, .advance 0 true, .advance 0 true, .advance 0 true,
    .openFile 1 exampleFile false, .advance 1 true, .advance 1 true, .close 0 exampleFile,
    .advance 0 true]

theorem opens_counted_shareActions :
    counterAfter exampleFile shareActions withoutFiles = some (some 1, 1) ∧
      ∀ state ∈ run (OpenState.step fun _ => 0) shareActions withoutFiles,
        state.Counted (fun _ => 0) ∧ state.KeepsOpen fun _ => 0 := by
  refine ⟨by decide +kernel, fun state hrun => ?_⟩
  exact opens_counted fresh_withoutFiles (by decide +kernel) hrun

/-- Both clients create the file at the same time. -/
def raceActions : List (OpenAction (Fin 2)) :=
  [.openFile 0 exampleFile true, .openFile 1 exampleFile true, .advance 0 true, .advance 1 true,
    .advance 0 true, .advance 1 true, .advance 0 true, .advance 1 true]

/-- Then client 0 closes it. -/
def raceCloseActions : List (OpenAction (Fin 2)) :=
  raceActions ++ [.close 0 exampleFile, .advance 0 true]

/-- A directory. -/
def exampleDirectory : FileUri :=
  ⟨"imss://d".toList, by decide, by decide⟩

/-- A file of it. -/
def exampleNested : FileUri :=
  ⟨"imss://d/f".toList, by decide, by decide⟩

/-- The metadata server after `mkdir`. -/
def withDirectory : OpenState (Fin 2) where
  cluster := (withoutFiles.cluster.ask (fun _ => 0)
    (.setOp exampleDirectory ⟨⟨exampleDirectory, .directory⟩, 0, .attach, []⟩)).2
  clients _ := .init

theorem fresh_withDirectory : withDirectory.Fresh fun _ => 0 := by
  refine ⟨fun path record hrecord => ?_, fun _ => rfl⟩
  simp only [withDirectory] at hrecord
  rw [record_ask rfl] at hrecord
  split at hrecord
  · rw [MetadataCluster.record, withoutFiles, MetadataServer.get_init] at hrecord
    cases hrecord
    exact ⟨rfl, rfl⟩
  · exact fresh_withoutFiles.1 path record hrecord

/-- Client 0 creates a file of the directory, closes it and opens it with `O_CREAT` again. -/
def reopenActions : List (OpenAction (Fin 2)) :=
  [.openFile 0 exampleNested true, .advance 0 true, .advance 0 true, .advance 0 true,
    .advance 0 true, .close 0 exampleNested, .advance 0 true, .openFile 0 exampleNested true,
    .advance 0 true, .advance 0 true, .advance 0 true]

/-- Two clients that create a file at the same time have two descriptors and the counter is
1; after the close of one of them an unlink removes the file that the other one has open. A
client that opens a file with `O_CREAT` again has raised the counter twice. -/
theorem not_opens_counted :
    (withoutFiles.Fresh fun _ => 0) ∧
      counterAfter exampleFile raceActions withoutFiles = some (some 1, 2) ∧
      counterAfter exampleFile raceCloseActions withoutFiles = some (some 0, 1) ∧
      (∃ state ∈ run (OpenState.step fun _ => 0) raceCloseActions withoutFiles,
        (state.clients 1).mapFd exampleFile = true ∧
          (state.cluster.ask (fun _ => 0) (.deleteOp 4 exampleFile)).1 = .delete ∧
          ¬ state.KeepsOpen fun _ => 0) ∧
      (withDirectory.Fresh fun _ => 0) ∧
      counterAfter exampleNested reopenActions withDirectory = some (some 2, 1) := by
  refine ⟨fresh_withoutFiles, by decide +kernel, by decide +kernel, ?_, fresh_withDirectory,
    by decide +kernel⟩
  have hend : ∃ state ∈ run (OpenState.step fun _ => 0) raceCloseActions withoutFiles,
      (state.clients 1).mapFd exampleFile = true ∧
        (state.cluster.ask (fun _ => 0) (.deleteOp 4 exampleFile)).1 = .delete := by
    decide +kernel
  obtain ⟨state, hrun, hopen, hdeleted⟩ := hend
  refine ⟨state, hrun, hopen, hdeleted, fun hkeeps => ?_⟩
  have hkept := (hkeeps exampleFile 1 hopen).1
  rw [hdeleted] at hkept
  cases hkept

end Hercules
