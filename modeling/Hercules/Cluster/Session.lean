/-
# A client and its replies

A client has one tag for the replies of the metadata servers and one for those of the
data servers. Each function of the client library sends its requests and takes from the
tag what it expects, so a message too many is taken by a later function for its own
reply. Here the functions are programs over such requests: what they send, how many
messages they then take, and how they go on. Whether a dataset is found in the local
pool, which servers hold the copies of a block and similar facts about the client's
tables are arguments of a call.

A run is aligned if each of its requests meets a running server that answers it with one
message. Four kinds of calls break this: `update_dataset` and an asynchronous write take
no reply, and a write through shared memory and a performance report take one of two.
-/

import Hercules.Lib.Exchange
import Hercules.Cluster.Routing
import Hercules.Server.Answers

namespace Hercules

open Lib Lib.Text

/-! ## Servers, requests and channels -/

/-- The servers of a deployment by their numbers, as far as they are running. -/
structure Backend where
  stat : Nat → Option StatServer
  data : Nat → Option DataServer

/-- A request to a metadata server, with the structure that follows a `SET`, or one to
some data servers. An unconfirmed request is one after which the client takes nothing. -/
inductive ClientRequest
  | stat (server : Nat) (op : StatOp) (received : Option DatasetRecord) (confirmed : Bool)
  | data (servers : List Nat) (op : DataOp) (attachment : Nat → Attachment) (confirmed : Bool)

/-- `local_meta_uid` and `local_data_uid`. -/
inductive Channel
  | stat
  | data
  deriving DecidableEq

namespace Backend

/-- A request to a metadata server. -/
def askStat (backend : Backend) (s : Nat) (req : CString) (received : Option DatasetRecord) :
    List Message × Backend :=
  match backend.stat s with
  | none => ([], backend)
  | some server =>
      let (messages, after) := server.answer req received
      (messages, { backend with stat := Function.update backend.stat s after })

/-- A request to one data server. -/
def askDataServer (config : ServerConfig) (backend : Backend) (s : Nat) (req : CString)
    (attachment : Attachment) : List Message × Backend :=
  match backend.data s with
  | none => ([], backend)
  | some server =>
      let (messages, after) := server.answer config req attachment
      (messages, { backend with data := Function.update backend.data s after })

/-- The same request to data servers in turn. -/
def askData (config : ServerConfig) (req : CString) (attachment : Nat → Attachment) :
    List Nat → Backend → List Message × Backend
  | [], backend => ([], backend)
  | s :: servers, backend =>
      let (messages, backend) := backend.askDataServer config s req (attachment s)
      let (rest, backend) := askData config req attachment servers backend
      (messages ++ rest, backend)

/-- The messages that a request causes. -/
def serve (config : ServerConfig) (backend : Backend) : ClientRequest → List Message × Backend
  | .stat s op received _ => backend.askStat s op.print received
  | .data servers op attachment _ => backend.askData config op.print attachment servers

end Backend

/-- The deployment as its clients see it. A message of length 0 is looked at and left in
its channel. -/
def service (config : ServerConfig) : Service Backend ClientRequest Message Channel where
  serve := Backend.serve config
  channel
    | .stat .. => .stat
    | .data .. => .data
  awaits
    | .stat _ _ _ confirmed => if confirmed then 1 else 0
    | .data servers _ _ confirmed => if confirmed then servers.length else 0
  accepts := Message.hasLength

/-! ## The functions of the client library -/

/-- A part of the client library. -/
abbrev ClientProgram := Program ClientRequest Message

/-- What the requests of a client depend on besides the call: the metadata servers,
`stat_ids`, and the text that the CRC policies hash. -/
structure Client where
  statServers : StatServers
  statIds : Nat → Nat
  stack : CString

/-- The results of `stat_dataset`: 1, -3, -2 and -1, and the end of the process. -/
inductive StatResult
  | pool
  | remote
  | missing
  | failed
  | ended
  deriving DecidableEq

namespace Client

variable (client : Client)

/-- A request to the metadata server of a name. Without one the process ends. -/
def ask (uri : CString) (op : Nat → StatOp) (received : Option DatasetRecord) (confirmed : Bool) :
    ClientProgram (Option (List Message)) :=
  match client.statServers.find client.stack uri with
  | none => return none
  | some s => do
      let replies ← request (.stat s (op s) received confirmed)
      return some replies

/-- `stat_dataset`. -/
def statDataset (uri : CString) (opened : Nat) (inPool : Bool) : ClientProgram StatResult := do
  if inPool then
    return .pool
  else
    match ← client.ask uri (fun _ => .read opened uri) none true with
    | none => return .ended
    | some [] => return .failed
    | some [.stat .error] => return .missing
    | some _ => return .remote

/-- The loop of `create_dataset` that looks for the parent directory, with the number of
tries that are left and the last result. -/
def findParent (parent : CString) (inPool : Bool) : Nat → StatResult → ClientProgram StatResult
  | 0, result => return result
  | tries + 1, _ => do
      match ← client.statDataset parent 0 inPool with
      | .remote => return .remote
      | .ended => return .ended
      | result => findParent parent inPool tries result

/-- The URI of a `SET` request: that of a directory ends in a slash. -/
def setUri (record : DatasetRecord) : CString :=
  if record.isDirectory ∧ record.uri.getLast? ≠ some '/' then record.uri ++ ['/'] else record.uri

/-- `create_dataset`, with `sizeof(dataset_info)`. Whether the client goes on is
returned, here and below. -/
def createDataset (uri : CString) (type : DatasetType) (opened size : Nat)
    (parentInPool inPool : Bool) : ClientProgram Bool := do
  let parent ← if belowDirectory uri then
    client.findParent (findLastParentDir uri) parentInPool 10 .failed else pure .pool
  match parent with
  | .ended => return false
  | .missing | .failed => return true
  | .pool | .remote =>
      match ← client.statDataset uri opened inPool with
      | .ended => return false
      | .pool | .remote => return true
      | .missing | .failed =>
          let record : DatasetRecord :=
            { uri := uri, type := type, nOpen := if opened = 1 then 1 else 0, status := .attach,
              intervals := [] }
          let replies ← client.ask uri (fun _ => .set opened size (setUri record) none) record true
          return replies.isSome

/-- `open_dataset`; `link` is the name in the record of a symbolic link. Without a record
of the link's target the process ends. -/
def openDataset (uri : CString) (opened : Nat) (inPool : Bool) (link : Option CString)
    (linkInPool : Bool) : ClientProgram Bool := do
  match ← client.statDataset uri opened inPool, link with
  | .ended, _ | .failed, _ => return false
  | .missing, _ => return true
  | .pool, none | .remote, none => return true
  | .pool, some link | .remote, some link =>
      let result ← client.statDataset link 0 linkInPool
      return result == .pool || result == .remote

/-- `open_local_dataset`. -/
def openLocalDataset (uri : CString) (opened : Nat) : ClientProgram Bool := do
  let replies ← client.ask uri (fun _ => .openDataset opened uri) none true
  return replies.isSome

/-- `update_dataset`, with the number it sends for a size. No reply is taken. -/
def updateDataset (record : DatasetRecord) (size : Nat) (inPool : Bool) : ClientProgram Bool := do
  if inPool then
    let replies ← client.ask record.uri (fun _ => .set 0 size (setUri record) none) record false
    return replies.isSome
  else
    return true

/-- `delete_dataset`. -/
def deleteDataset (uri : CString) (isDir : Bool) : ClientProgram Bool := do
  let name := if isDir ∧ uri.getLast? ≠ some '/' then uri ++ ['/'] else uri
  let replies ← client.ask uri (fun _ => .delete 4 name) none true
  return replies.isSome

/-- `rename_dataset_metadata` and `rename_dataset_metadata_dir_dir`. The first keeps the
lock of the network if the rename is not confirmed, and the client hangs later. -/
def renameMetadata (kind : RenameKind) (known : Bool) (old new : CString) :
    ClientProgram Bool := do
  if known then
    let replies ← client.ask old (fun s => kind.op (client.statIds s) old new) none true
    return replies.isSome && (kind == .directory || replies == some [.confirmation .rename])
  else
    return true

end Client

/-- A request without an attachment. -/
def noAttachment (_ : Nat) : Attachment :=
  ⟨[], fun _ => 0, none⟩

/-- A request to single data servers in turn, as long as the replies ask for it. -/
def askEach (op : DataOp) (goesOn : List Message → Bool) : List Nat → ClientProgram Bool
  | [] => return true
  | s :: servers => do
      let replies ← request (.data [s] op noAttachment true)
      if goesOn replies then askEach op goesOn servers else return true

/-- `unlink_dataset`. -/
def unlinkDataset (servers : List Nat) (uri : CString) (nOpen : Int) : ClientProgram Bool :=
  askEach (.unlink (blockKey uri 0) nOpen)
    (fun replies => replies == [.confirmation .delete] || replies == [.confirmation .noDelete])
    servers

/-- `delete_dataset_srv_worker`. -/
def deleteDatasetSrvWorker (servers : List Nat) (uri : CString) : ClientProgram Bool :=
  askEach (.delete uri) (fun replies => !replies.isEmpty) servers

/-- `rename_dataset_srv_worker`. -/
def renameDatasetSrvWorker (servers : List Nat) (old new : CString) : ClientProgram Bool :=
  askEach (.rename old new) (fun replies => !replies.isEmpty) servers

/-- `rename_dataset_srv_worker_dir_dir`: all requests are sent before the first reply is
taken. -/
def renameDatasetSrvWorkerDirDir (nStorages : Nat) (old new : CString) : ClientProgram Bool := do
  let _ ← request (.data (List.range nStorages) (.renameDirDir old new) noAttachment true)
  return true

/-- `close_dataset`, which reports the performance if `reports` says so. -/
def Client.closeDataset (client : Client) (servers : List Nat) (uri : CString) (reports : Bool) :
    ClientProgram Bool := do
  match ← client.ask uri (fun s => .close (client.statIds s) uri) none true with
  | none => return false
  | some [] => return true
  | some replies =>
      if replies = [.stat .delete] then
        let _ ← deleteDatasetSrvWorker servers uri
      if reports then
        let replies ← client.ask uri (fun s => .performance (client.statIds s) uri) none true
        return replies.isSome
      else
        return true

/-- A call of `set_data`: the servers of the copies; which copy goes through shared
memory under `LOCAL` or `ZCOPY`, with the identifier of the segment if there is one and
what the server finds under it; the block, its offset and bytes; and the mode. -/
structure SetDataCall where
  servers : List Nat
  localCopy : Option Nat
  shmId : Option Int
  segment : Option Memory
  key : CString
  offset : Nat
  data : List UInt8
  fresh : Nat → Memory
  isAsync : Bool

namespace SetDataCall

/-- The loop of `set_data` from copy `i` on. -/
def setDataFrom (call : SetDataCall) : Nat → List Nat → ClientProgram Bool
  | _, [] => return true
  | i, s :: servers => do
      if call.localCopy = some i then
        match call.shmId with
        | none => return true
        | some shmId =>
            let replies ← request (.data [s] (.localSet call.data.length call.offset shmId call.key)
              (fun s => ⟨[], call.fresh s, call.segment⟩) true)
            if replies.isEmpty then return true else setDataFrom call (i + 1) servers
      else
        let replies ← request (.data [s] (.set call.data.length call.offset call.key)
          (fun s => ⟨call.data, call.fresh s, none⟩) (!call.isAsync))
        if replies.isEmpty ∧ ¬ call.isAsync then return true
        else setDataFrom call (i + 1) servers

/-- `set_data`. -/
def setData (call : SetDataCall) : ClientProgram Bool :=
  call.setDataFrom 0 call.servers

end SetDataCall

/-- A call of `get_ndata`: the servers of the copies, the one that is read through shared
memory under `LOCAL` or `ZCOPY`, the segment as above, and the range of the block. -/
structure GetDataCall where
  servers : List Nat
  localServer : Option Nat
  shmId : Option Int
  segment : Option Memory
  key : CString
  offset : Nat
  toRead : Nat

namespace GetDataCall

/-- The loop of `get_ndata`: the next copy is asked only if the key is unknown. Without a
segment the function returns with the lock of the network. -/
def getNdataFrom (call : GetDataCall) : List Nat → ClientProgram Bool
  | [] => return true
  | s :: servers => do
      if call.localServer = some s then
        match call.shmId with
        | none => return false
        | some shmId =>
            let replies ← request (.data [s] (.localRead call.offset shmId call.key call.toRead)
              (fun _ => ⟨[], fun _ => 0, call.segment⟩) true)
            if replies = [.block none] then getNdataFrom call servers else return true
      else
        let replies ← request (.data [s] (.read call.offset call.key call.toRead) noAttachment true)
        if replies = [.block none] then getNdataFrom call servers else return true

/-- `get_ndata`. -/
def getNdata (call : GetDataCall) : ClientProgram Bool :=
  call.getNdataFrom call.servers

end GetDataCall

/-! ## Runs of a client -/

/-- The calls of a client. -/
inductive ClientOp
  | statDataset (uri : CString) (opened : Nat) (inPool : Bool)
  | createDataset (uri : CString) (type : DatasetType) (opened size : Nat)
      (parentInPool inPool : Bool)
  | openDataset (uri : CString) (opened : Nat) (inPool : Bool) (link : Option CString)
      (linkInPool : Bool)
  | openLocalDataset (uri : CString) (opened : Nat)
  | updateDataset (record : DatasetRecord) (size : Nat) (inPool : Bool)
  | closeDataset (servers : List Nat) (uri : CString) (reports : Bool)
  | deleteDataset (uri : CString) (isDir : Bool)
  | renameMetadata (kind : RenameKind) (known : Bool) (old new : CString)
  | setData (call : SetDataCall)
  | getNdata (call : GetDataCall)
  | unlinkDataset (servers : List Nat) (uri : CString) (nOpen : Int)
  | deleteDatasetSrvWorker (servers : List Nat) (uri : CString)
  | renameDatasetSrvWorker (servers : List Nat) (old new : CString)
  | renameDatasetSrvWorkerDirDir (nStorages : Nat) (old new : CString)

/-- The program of a call. -/
def ClientOp.program (client : Client) : ClientOp → ClientProgram Bool
  | .statDataset uri opened inPool => do
      let result ← client.statDataset uri opened inPool
      return result != .ended
  | .createDataset uri type opened size parentInPool inPool =>
      client.createDataset uri type opened size parentInPool inPool
  | .openDataset uri opened inPool link linkInPool =>
      client.openDataset uri opened inPool link linkInPool
  | .openLocalDataset uri opened => client.openLocalDataset uri opened
  | .updateDataset record size inPool => client.updateDataset record size inPool
  | .closeDataset servers uri reports => client.closeDataset servers uri reports
  | .deleteDataset uri isDir => client.deleteDataset uri isDir
  | .renameMetadata kind known old new => client.renameMetadata kind known old new
  | .setData call => call.setData
  | .getNdata call => call.getNdata
  | .unlinkDataset servers uri nOpen => Hercules.unlinkDataset servers uri nOpen
  | .deleteDatasetSrvWorker servers uri => Hercules.deleteDatasetSrvWorker servers uri
  | .renameDatasetSrvWorker servers old new => Hercules.renameDatasetSrvWorker servers old new
  | .renameDatasetSrvWorkerDirDir nStorages old new =>
      Hercules.renameDatasetSrvWorkerDirDir nStorages old new

/-- One call after the other, as long as the client goes on. -/
def session (client : Client) : List ClientOp → ClientProgram Unit
  | [] => return ()
  | op :: ops => do
      if ← op.program client then session client ops else return ()

/-- The requests of a client that starts with empty channels. -/
def sessionEvents (config : ServerConfig) (client : Client) (ops : List ClientOp)
    (backend : Backend) : List (Event Backend ClientRequest Message) :=
  ((service config).trace (session client ops) ⟨backend, fun _ => [], 0⟩).1

/-- The request is confirmed, and each of its servers is running and answers it with one
message. -/
def ClientRequest.Matched (backend : Backend) : ClientRequest → Prop
  | .stat s op _ confirmed =>
      confirmed = true ∧ ∃ server, backend.stat s = some server ∧ server.AnswersOnce op
  | .data servers op attachment confirmed =>
      confirmed = true ∧ servers.Nodup ∧
        ∀ s ∈ servers, ∃ server, backend.data s = some server ∧
          server.AnswersOnce (attachment s) op

/-- The request reaches servers that send more than the client takes: it is unconfirmed,
or it is a write through shared memory or a report to a server that knows its instance. -/
def ClientRequest.Surplus (backend : Backend) : ClientRequest → Prop
  | .stat s op _ confirmed => ∃ server, backend.stat s = some server ∧
      (confirmed = false ∧ server.AnswersOnce op ∨
        ∃ operation uri, op = .performance operation uri ∧ Readable uri ∧
          server.instanceKnown = true)
  | .data servers op attachment confirmed => ∃ s server, servers = [s] ∧
      backend.data s = some server ∧
        (confirmed = false ∧ server.AnswersOnce (attachment s) op ∨
          ∃ size offset shmId key, op = .localSet size offset shmId key ∧ Readable key ∧
            (attachment s).segment.isSome = true)

instance (backend : Backend) : (req : ClientRequest) → Decidable (req.Matched backend)
  | .stat s op _ confirmed =>
      decidable_of_iff (confirmed = true ∧ ∃ server ∈ backend.stat s, server.AnswersOnce op) Iff.rfl
  | .data servers op attachment confirmed =>
      decidable_of_iff (confirmed = true ∧ servers.Nodup ∧ ∀ s ∈ servers,
        ∃ server ∈ backend.data s, server.AnswersOnce (attachment s) op) Iff.rfl

/-! ## The replies of a run -/

section Balance

variable {config : ServerConfig} {backend : Backend}

/-- Servers that all answer once send one message each. -/
theorem askData_answered {op : DataOp} {attachment : Nat → Attachment} {servers : List Nat}
    (hnodup : servers.Nodup)
    (hservers : ∀ s ∈ servers, ∃ server, backend.data s = some server ∧
      server.AnswersOnce (attachment s) op) :
    (backend.askData config op.print attachment servers).1.length = servers.length ∧
      ∀ message ∈ (backend.askData config op.print attachment servers).1,
        message.hasLength = true := by
  induction servers generalizing backend with
  | nil => exact ⟨rfl, by simp [Backend.askData]⟩
  | cons s servers ih =>
      rw [List.nodup_cons] at hnodup
      rw [List.forall_mem_cons] at hservers
      obtain ⟨⟨server, hserver, honce⟩, hrest⟩ := hservers
      obtain ⟨message, hmessages, hlength⟩ := DataServer.answeredOnce config op honce
      -- the servers that are still to be asked are as they were
      have hothers : ∀ s' ∈ servers, ∃ server',
          (backend.askDataServer config s op.print (attachment s)).2.data s' = some server' ∧
            server'.AnswersOnce (attachment s') op := by
        intro s' hs'
        obtain ⟨server', hserver', honce'⟩ := hrest s' hs'
        have hne : s' ≠ s := fun heq => hnodup.1 (heq ▸ hs')
        refine ⟨server', ?_, honce'⟩
        rw [Backend.askDataServer, hserver]
        exact (Function.update_of_ne hne _ _).trans hserver'
      have hfirst : (backend.askDataServer config s op.print (attachment s)).1 = [message] := by
        rw [Backend.askDataServer, hserver]
        exact hmessages
      obtain ⟨hcount, hall⟩ := ih hnodup.2 hothers
      simp only [Backend.askData, hfirst, List.singleton_append, List.length_cons,
        List.forall_mem_cons]
      exact ⟨congrArg (· + 1) hcount, hlength, hall⟩

theorem serve_stat {s : Nat} {server : StatServer} (hserver : backend.stat s = some server)
    (op : StatOp) (received : Option DatasetRecord) (confirmed : Bool) :
    ((service config).serve backend (.stat s op received confirmed)).1 =
      (server.answer op.print received).1 := by
  simp only [service, Backend.serve, Backend.askStat, hserver]

theorem serve_data_single {s : Nat} {server : DataServer} (hserver : backend.data s = some server)
    (op : DataOp) (attachment : Nat → Attachment) (confirmed : Bool) :
    ((service config).serve backend (.data [s] op attachment confirmed)).1 =
      (server.answer config op.print (attachment s)).1 := by
  simp only [service, Backend.serve, Backend.askData, Backend.askDataServer, hserver,
    List.append_nil]

/-- A request that is matched is balanced. -/
theorem balanced_of_matched {req : ClientRequest} (h : req.Matched backend) :
    (service config).Balanced backend req := by
  cases req with
  | stat s op received confirmed =>
      obtain ⟨rfl, server, hserver, honce⟩ := h
      obtain ⟨message, hmessages, hlength⟩ := StatServer.answeredOnce received op honce
      rw [Service.Balanced, serve_stat hserver, hmessages]
      exact ⟨rfl, List.forall_mem_singleton.mpr hlength⟩
  | data servers op attachment confirmed =>
      obtain ⟨rfl, hnodup, hservers⟩ := h
      exact askData_answered hnodup hservers

/-- A request with a surplus is not balanced. -/
theorem not_balanced_of_surplus {req : ClientRequest} (h : req.Surplus backend) :
    ¬ (service config).Balanced backend req := by
  rintro ⟨hcount, -⟩
  cases req with
  | stat s op received confirmed =>
      obtain ⟨server, hserver, ⟨rfl, honce⟩ | ⟨operation, uri, rfl, huri, hknown⟩⟩ := h
      · obtain ⟨message, hmessages, -⟩ := StatServer.answeredOnce received op honce
        rw [serve_stat hserver, hmessages] at hcount
        cases hcount
      · rw [serve_stat hserver, StatServer.answer_performance huri hknown] at hcount
        cases confirmed <;> cases hcount
  | data servers op attachment confirmed =>
      obtain ⟨s, server, rfl, hserver, ⟨rfl, honce⟩ | ⟨size, offset, shmId, key, rfl, hkey,
        hsegment⟩⟩ := h
      · obtain ⟨message, hmessages, -⟩ := DataServer.answeredOnce config op honce
        rw [serve_data_single hserver, hmessages] at hcount
        cases hcount
      · rw [serve_data_single hserver, DataServer.answer_localSet hkey hsegment] at hcount
        cases confirmed <;> cases hcount

end Balance

/-- In a run whose requests are all matched, each request is answered by as many messages
as the client takes, and these are the messages it takes; the client never waits in vain,
and no message is left at the end. -/
theorem session_aligned (config : ServerConfig) (client : Client) (ops : List ClientOp)
    (backend : Backend)
    (hmatched : ∀ event ∈ sessionEvents config client ops backend,
      event.req.Matched event.before) :
    (∀ event ∈ sessionEvents config client ops backend, (service config).Aligned event) ∧
      ∃ link, ((service config).trace (session client ops) ⟨backend, fun _ => [], 0⟩).2 =
        some ((), link) ∧ Service.Quiet link := by
  have hquiet : Service.Quiet (⟨backend, fun _ => [], 0⟩ : Link Backend Message Channel) :=
    fun _ => rfl
  obtain ⟨haligned, value, link, hend, hlink⟩ := Service.aligned_of_balanced (session client ops)
    hquiet fun event hevent => balanced_of_matched (hmatched event hevent)
  exact ⟨haligned, link, hend, hlink⟩

/-- A run with a surplus is not aligned. -/
theorem not_aligned_of_surplus (config : ServerConfig) (client : Client) (ops : List ClientOp)
    (backend : Backend) {event : Event Backend ClientRequest Message}
    (hevent : event ∈ sessionEvents config client ops backend)
    (hsurplus : event.req.Surplus event.before) :
    ¬ ∀ event ∈ sessionEvents config client ops backend, (service config).Aligned event := by
  intro haligned
  have hbalanced := (Service.forall_aligned_iff (session client ops) fun _ => rfl).mp haligned
  exact not_balanced_of_surplus hsurplus (hbalanced event hevent)

/-- One metadata server that knows its instance, and one data server. -/
def exampleBackend : Backend where
  stat s := if s = 0 then some ⟨MetadataServer.init imssRoot, true⟩ else none
  data s := if s = 0 then some (DataServer.init imssRoot) else none

/-- A client of it. -/
def exampleClient : Client :=
  ⟨⟨1, .roundRobin⟩, fun _ => 1, []⟩

/-- A write of one byte to block 1 of `imss://f`. -/
def exampleSet (localCopy : Option Nat) (isAsync : Bool) : SetDataCall where
  servers := [0]
  localCopy := localCopy
  shmId := some 7
  segment := some fun _ => 1
  key := "imss://f$1".toList
  offset := 0
  data := [1]
  fresh := fun _ _ => 0
  isAsync := isAsync

/-- A read of this byte. -/
def exampleGet : GetDataCall where
  servers := [0]
  localServer := none
  shmId := none
  segment := none
  key := "imss://f$1".toList
  offset := 0
  toRead := 1

/-- A file is created, written synchronously, read and closed. -/
def plainOps : List ClientOp :=
  [.createDataset "imss://f".toList .regularFile 1 4096 false false,
    .setData (exampleSet none false), .getNdata exampleGet,
    .closeDataset [0] "imss://f".toList false]

theorem session_aligned_plainOps :
    (sessionEvents ⟨4096, 8192⟩ exampleClient plainOps exampleBackend).length = 5 ∧
      ∀ event ∈ sessionEvents ⟨4096, 8192⟩ exampleClient plainOps exampleBackend,
        (service ⟨4096, 8192⟩).Aligned event :=
  ⟨by decide +kernel, (session_aligned ⟨4096, 8192⟩ exampleClient plainOps exampleBackend
    (by decide +kernel)).1⟩

/-- The record of `imss://f` that `update_dataset` sends. -/
def exampleRecord : DatasetRecord where
  uri := "imss://f".toList
  type := .regularFile
  nOpen := 1
  status := .attach
  intervals := []

/-- The numbers of the requests, each with those of the messages that were taken for it. -/
def takenNumbers (ops : List ClientOp) : List (Nat × List Nat) :=
  (sessionEvents ⟨4096, 8192⟩ exampleClient ops exampleBackend).map fun event =>
    (event.number, event.taken.map Prod.fst)

/-- A `stat_dataset` after an update takes the confirmation of the update, a read after an
asynchronous write or one through shared memory takes the confirmation of the write, and a
`stat_dataset` after a close with a report takes the list of servers. -/
theorem not_session_aligned :
    takenNumbers [.updateDataset exampleRecord 4242 true,
        .statDataset "imss://f".toList 0 false] = [(0, []), (1, [0])] ∧
      takenNumbers [.setData (exampleSet none true), .getNdata exampleGet] =
        [(0, []), (1, [0])] ∧
      takenNumbers [.setData (exampleSet (some 0) false), .getNdata exampleGet] =
        [(0, [0]), (1, [0])] ∧
      takenNumbers [.closeDataset [0] "imss://f".toList true,
        .statDataset "imss://f".toList 0 false] = [(0, [0]), (1, [1]), (2, [1])] ∧
      ¬ ∀ event ∈ sessionEvents ⟨4096, 8192⟩ exampleClient
        [.updateDataset exampleRecord 4242 true, .statDataset "imss://f".toList 0 false]
        exampleBackend, (service ⟨4096, 8192⟩).Aligned event := by
  refine ⟨?_, ?_, ?_, ?_, ?_⟩ <;> decide +kernel

end Hercules
