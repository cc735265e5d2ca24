/-
# The locks of a server

A server answers requests in several threads, and its collector runs in one more. The
handlers below are those of `ServerJob` as far as they take locks, with a branch for each way
in which they may go on or return; those of `READV`, `SPLIT_READV`, `WHO` and `SETSERVER` are
not among them. A function of the hierarchy holds `hierarchical_map_lock` while it calls a
function of a map, which locks that map; the handlers of the metadata server call it with
`operation_lock`, and some with `memory_protect` too.

A wait for the network, for a signal or for the end of a thread is not a wait for a lock. The
locks of the log and of the decommissioning of servers are left out.
-/

import Hercules.Lib.Locks
import Hercules.Names

namespace Hercules

open Lib Lib.Locks

/-- The locks. Each record map has a `mut`: the map of a directory, and the one without a
directory that keeps the state of snapshots. `memPool` is the mutex of the queue. -/
inductive ServerLock
  | operationLock
  | memoryProtect
  | mutexGarbage
  | hierarchicalMapLock
  | mut (dir : Option CString)
  | memPool
  | mutexQuantityOccupied
  | mutextMalleability
  | lockNetwork
  | mutEps
  deriving DecidableEq

/-- The order in which the locks are taken. -/
@[simp]
def ServerLock.rank : ServerLock → Nat
  | .operationLock => 0
  | .memoryProtect | .mutexGarbage => 1
  | .hierarchicalMapLock => 2
  | .mut _ => 3
  | .memPool | .mutexQuantityOccupied | .mutextMalleability | .lockNetwork | .mutEps => 4

theorem ServerLock.rank_le (l : ServerLock) : l.rank ≤ 4 := by
  cases l <;> simp

/-- What a function of a server does with the locks. -/
abbrev ServerCode := Code ServerLock

namespace ServerCode

/-! ## The hierarchy -/

/-- A function that is called on the map of the parent directory, if there is one. -/
def onParentMap (key : CString) : ServerCode :=
  .hold .hierarchicalMapLock (.branch [.skip, .locked (.mut (findLastParentDir key))])

def hierarchicalMapGet (key : CString) : ServerCode := onParentMap key

def hierarchicalMapRenameRegularFile (oldname : CString) : ServerCode := onParentMap oldname

def hierarchicalMapPutInGarbageCollector (key : CString) : ServerCode := onParentMap key

def hierarchicalMapPopFromGarbageCollector (key : CString) : ServerCode := onParentMap key

/-- `delete_metadata_stat_worker` does not lock the map. -/
def hierarchicalMapDeleteEntry : ServerCode := .locked .hierarchicalMapLock

def hierarchicalMapRenameKey : ServerCode := .locked .hierarchicalMapLock

def hierarchicalMapListDir : ServerCode := .locked .hierarchicalMapLock

/-- One `get` for each block. -/
def hierarchicalMapGetPrefetch (key : CString) : ServerCode :=
  .hold .hierarchicalMapLock (.branch [.skip, .loop (.locked (.mut (findLastParentDir key)))])

/-- The memory of a new buffer is counted before the hierarchy is locked. -/
def hierarchicalMapPut (key : CString) : ServerCode :=
  .block [.branch [.skip, .locked .mutexQuantityOccupied],
    .hold .hierarchicalMapLock (.locked (.mut (findLastParentDir key)))]

/-- The entries of the directory are renamed in its map, then the directory in that of its parent;
the metadata server looks the directory up there before. -/
def backEndHierarchicalMapRenameDirDir (oldDir : CString) : ServerCode :=
  .hold .hierarchicalMapLock (.branch [.skip, .block [.locked (.mut oldDir),
    .branch [.skip, .locked (.mut (findLastParentDir oldDir))],
    .branch [.skip, .locked (.mut (findLastParentDir oldDir))]]])

/-- `cleaning`, which asks for the size of the pool for each block and may push its buffer. -/
def cleaning (dir : CString) : ServerCode :=
  .branch [.skip, .hold (.mut dir) (.loop (.block [.locked .memPool,
    .branch [.skip, .locked .memPool]]))]

def hierarchicalMapCleanGarbageCollector (dirs : List CString) : ServerCode :=
  .hold .hierarchicalMapLock (.seq (.block (dirs.map cleaning)) (.locked .mutexQuantityOccupied))

/-! ## The data server -/

def sendConfirmationMessage : ServerCode := .locked .lockNetwork

/-- The second look and the insertion, or the copy to a block that has come in between. -/
def insertBlock (key : CString) : ServerCode :=
  .block [.hold .memoryProtect (.block [hierarchicalMapGet key,
      .branch [.skip, .locked (.mut none), hierarchicalMapPut key]]), sendConfirmationMessage]

/-- `WRITE_OP` for a new block, over the network or through shared memory. The buffer comes from
`malloc` or from the pool. -/
def writeNew (key : CString) : ServerCode :=
  .branch
    [.branch [sendConfirmationMessage,
      .block [.branch [.skip, .locked .memPool],
        .branch [sendConfirmationMessage, insertBlock key]]],
    .branch [.skip, .block [sendConfirmationMessage, .branch [.skip,
      .block [.branch [.skip, .locked .memPool], .branch [.skip, insertBlock key]]]]]]

/-- `WRITE_OP` for a stored block. -/
def writeExisting (key : CString) : ServerCode :=
  .branch
    [.block [hierarchicalMapPopFromGarbageCollector key, .branch [.skip, sendConfirmationMessage,
      .block [.locked .memoryProtect, sendConfirmationMessage],
      .block [.locked .memoryProtect, sendConfirmationMessage, sendConfirmationMessage]]],
    .branch [.skip, sendConfirmationMessage,
      .block [.locked .memoryProtect, sendConfirmationMessage],
      .block [.locked .memoryProtect, .locked (.mut none), sendConfirmationMessage],
      .block [.locked .memoryProtect, sendConfirmationMessage, sendConfirmationMessage]]]

/-! ## The metadata server -/

/-- The record is marked, or dropped if nobody has the file open. -/
def dropRecord (key : CString) : ServerCode :=
  .hold .memoryProtect (.branch [.skip,
    .block [hierarchicalMapPutInGarbageCollector key, hierarchicalMapDeleteEntry]])

/-- `SET`, for a new record or a stored one. -/
def setDataset (key : CString) : ServerCode :=
  .hold .operationLock (.branch
    [.hold .memoryProtect (.block [hierarchicalMapGet key,
      .branch [.skip, hierarchicalMapPut key]]),
    .block [.hold .memoryProtect (.block [hierarchicalMapGet key,
        .branch [.skip, hierarchicalMapPopFromGarbageCollector key]]),
      .branch [.skip, .locked .memoryProtect]]])

/-- `SET`, if there is no memory for a new record: `memory_protect` is locked a second time where it
should be given back. -/
def setDatasetNoMemory (key : CString) : ServerCode :=
  .hold .operationLock
    (.hold .memoryProtect (.seq (hierarchicalMapGet key) (.locked .memoryProtect)))

/-- `Malleability`, with the thread of `CommissioningStage`, whose end it waits for. -/
def malleability (imssUri : CString) : ServerCode :=
  .branch [.skip, .block [.locked .mutextMalleability, .loop (.locked .mutextMalleability),
    .branch [.skip, hierarchicalMapGet imssUri],
    .branch [.skip, .block [.locked .mutextMalleability, .locked .mutextMalleability,
      .branch [.skip, .locked .mutextMalleability]]],
    .branch [.skip, sendConfirmationMessage]]]

end ServerCode

/-! ## Threads -/

/-- A request to a data server or to a metadata server, or a pass of the collector. -/
inductive ServerJob
  | broadcast
  | read (key : CString)
  | readPrefetch (key : CString)
  | unlink (key : CString)
  | delete (key : CString)
  | rename (oldKey : CString)
  | renameDirDir (oldDir : CString)
  | write (key : CString)
  | release
  | statGetDir
  | statRead (key : CString)
  | statDelete (key : CString)
  | statRename (oldKey : CString)
  | statRenameDirDir (oldKey : CString)
  | statClose (key : CString)
  | statOpen (key : CString)
  | statSet (key : CString)
  | statSetNoMemory (key : CString)
  | statPerformance (imssUri : CString)
  | clean (dirs : List CString)
  deriving DecidableEq

namespace ServerJob

open ServerCode

/-- The handler of a request. -/
def handler : ServerJob → ServerCode
  | .broadcast => .locked (.mut none)
  | .read key => .block [hierarchicalMapGet key, .branch [.skip, sendConfirmationMessage]]
  | .readPrefetch key => .branch [.skip, hierarchicalMapGetPrefetch key]
  | .unlink key => .block [hierarchicalMapGet key, .branch [.skip,
      .block [.branch [.skip, hierarchicalMapPutInGarbageCollector key], sendConfirmationMessage]]]
  | .delete key => .block [hierarchicalMapPutInGarbageCollector key, sendConfirmationMessage]
  | .rename oldKey =>
      .block [.branch [.skip, hierarchicalMapRenameRegularFile oldKey], sendConfirmationMessage]
  | .renameDirDir oldDir => .block [.branch [.skip,
      .block [backEndHierarchicalMapRenameDirDir oldDir, hierarchicalMapRenameKey]],
      sendConfirmationMessage]
  | .write key => .branch [.block [.branch [.skip, hierarchicalMapGet key], writeNew key],
      .block [hierarchicalMapGet key, writeExisting key]]
  | .release => .locked .mutEps
  | .statGetDir => hierarchicalMapListDir
  | .statRead key => .hold .operationLock (.block [hierarchicalMapGet key,
      .branch [.skip, .locked .memoryProtect]])
  | .statDelete key | .statClose key => .hold .operationLock (.block [hierarchicalMapGet key,
      .branch [.skip, .block [dropRecord key, sendConfirmationMessage]]])
  | .statRename oldKey => .block [.branch [.skip,
      .hold .operationLock (hierarchicalMapRenameRegularFile oldKey)], sendConfirmationMessage]
  | .statRenameDirDir oldKey => .branch [sendConfirmationMessage, .hold .operationLock
      (.block [backEndHierarchicalMapRenameDirDir oldKey, hierarchicalMapRenameKey,
        sendConfirmationMessage])]
  | .statOpen key => .hold .operationLock (.block [hierarchicalMapGet key, .branch [.skip,
      .block [.branch [.skip, hierarchicalMapPopFromGarbageCollector key], .locked .memoryProtect,
        sendConfirmationMessage]]])
  | .statSet key => .seq sendConfirmationMessage (setDataset key)
  | .statSetNoMemory key => .seq sendConfirmationMessage (setDatasetNoMemory key)
  | .statPerformance imssUri => .block [sendConfirmationMessage, malleability imssUri]
  -- `cond_wait` gives the mutex back and takes it again
  | .clean dirs => .block [.locked .mutexGarbage,
      .hold .mutexGarbage (.branch [.skip, hierarchicalMapCleanGarbageCollector dirs])]

/-- A round of a thread. For a request, the endpoint of the client is looked up, and stored if it
is new. -/
def code : ServerJob → ServerCode
  | .clean dirs => (ServerJob.clean dirs).handler
  | job => .seq (.block [.locked .mutEps, .branch [.skip, .locked .mutEps]]) job.handler

/-- The request is not one that finds no memory for a new record. -/
def HasMemory (job : ServerJob) : Prop :=
  ∀ key, job ≠ .statSetNoMemory key

variable {job : ServerJob}

theorem above_cleaning (dirs : List CString) :
    (hierarchicalMapCleanGarbageCollector dirs).Above ServerLock.rank 2 := by
  refine ⟨Nat.le_refl 2, Code.above_block _ ?_, by decide, trivial⟩
  intro code hcode
  obtain ⟨dir, -, rfl⟩ := List.mem_map.mp hcode
  simp [cleaning]

/-- The handlers take the locks in their order. -/
theorem above_handler (hmemory : job.HasMemory) : job.handler.Above ServerLock.rank 0 := by
  cases job with
  | statSetNoMemory key => exact absurd rfl (hmemory key)
  | clean dirs =>
      simp [handler, above_cleaning dirs]
  | _ =>
      simp [handler, writeNew, writeExisting, insertBlock, dropRecord, setDataset, malleability,
        hierarchicalMapGet, hierarchicalMapGetPrefetch, hierarchicalMapPut,
        hierarchicalMapPutInGarbageCollector, hierarchicalMapPopFromGarbageCollector,
        hierarchicalMapRenameRegularFile, hierarchicalMapDeleteEntry, hierarchicalMapRenameKey,
        hierarchicalMapListDir, backEndHierarchicalMapRenameDirDir, onParentMap,
        sendConfirmationMessage]

theorem above_code (hmemory : job.HasMemory) : job.code.Above ServerLock.rank 0 := by
  have hhandler := above_handler hmemory
  cases job with
  | clean dirs => exact hhandler
  | _ => exact ⟨by simp, hhandler⟩

/-- Without memory, `memory_protect` is taken a second time. -/
theorem not_legal_statSetNoMemory {key : CString} {ops rest : List (Op ServerLock)}
    (hruns : (code (.statSetNoMemory key)).Runs ops) : ¬ Legal (ops ++ rest) [] := by
  intro hlegal
  obtain _ | ⟨hlookup, hhandler⟩ := hruns
  rw [List.append_assoc] at hlegal
  replace hlegal := hlegal.of_append hlookup
  obtain _ | ⟨hconfirm, hset⟩ := hhandler
  rw [List.append_assoc] at hlegal
  replace hlegal := hlegal.of_append hconfirm
  obtain _ | _ | ⟨hprotected⟩ := hset
  obtain _ | _ | ⟨hbody⟩ := hprotected
  obtain _ | ⟨hget, hagain⟩ := hbody
  obtain _ | _ | ⟨hskip⟩ := hagain
  have hsecond := hlegal.2.2
  simp only [List.append_eq, List.append_assoc, List.cons_append] at hsecond
  exact (hsecond.of_append hget).1 List.mem_cons_self

/-- Only requests that find memory are served to their end. -/
theorem hasMemory_of_legal {jobs : List ServerJob} {ops : List (Op ServerLock)}
    (hruns : (Code.block (jobs.map code)).Runs ops) (hlegal : Legal ops []) :
    ∀ job ∈ jobs, job.HasMemory := by
  induction jobs generalizing ops with
  | nil => exact fun _ h => absurd h List.not_mem_nil
  | cons job jobs ih =>
      rw [List.map_cons, Code.block, List.foldr_cons] at hruns
      obtain _ | ⟨hjob, hrest⟩ := hruns
      rw [List.forall_mem_cons]
      refine ⟨?_, ih hrest (hlegal.of_append hjob)⟩
      rintro key rfl
      exact not_legal_statSetNoMemory hjob hlegal

/-- Any number of threads of a server serve any requests, in any interleaving. No thread ever waits
in vain for a lock, and all can come to their ends from wherever they are, exactly if no request
finds the server without memory for a new record. -/
theorem threads_canFinish_iff {ι : Type} [Fintype ι] [DecidableEq ι] (jobs : ι → List ServerJob)
    (ops : ι → List (Op ServerLock))
    (hruns : ∀ i, (Code.block ((jobs i).map code)).Runs (ops i)) :
    (∀ schedule state, run step schedule (start ops) = some state → CanFinish state) ↔
      ∀ i, ∀ job ∈ jobs i, job.HasMemory := by
  constructor
  · intro hfinish i
    obtain ⟨schedule, final, hrun, hend⟩ := hfinish [] _ rfl
    exact hasMemory_of_legal (hruns i) (legal_of_run hrun (hend i))
  · intro hmemory schedule state hrun
    have hordered : ∀ i, Ordered ServerLock.rank (ops i) [] := by
      intro i
      have habove : (Code.block ((jobs i).map code)).Above ServerLock.rank 0 := by
        apply Code.above_block
        intro part hpart
        obtain ⟨job, hjob, rfl⟩ := List.mem_map.mp hpart
        exact above_code (hmemory i job hjob)
      have hnone : Ordered ServerLock.rank [] [] := rfl
      simpa using Ordered.of_runs (hruns i) habove (fun _ h => absurd h List.not_mem_nil) hnone
    exact canFinish_of_run hordered ServerLock.rank_le hrun

/-- What a thread does that renames a file whose parent directory has no map. -/
def renameOps : List (Op ServerLock) :=
  [.acquire .mutEps, .release .mutEps, .acquire .operationLock, .acquire .hierarchicalMapLock,
    .release .hierarchicalMapLock, .release .operationLock, .acquire .lockNetwork,
    .release .lockNetwork]

/-- Of two such threads, the second one waits for the first, which waits for nobody. -/
theorem threads_canFinish_iff_rename :
    ∃ state, run step [true, true, true, false, true, false] (start fun _ : Bool => renameOps) =
        some state ∧ step state false = none ∧ CanFinish state := by
  have hfinish := (threads_canFinish_iff (fun _ : Bool => [.statRename ['/', 'a']])
    (fun _ => renameOps) fun _ => .seq (.seq (.seq (.hold .skip) (.seq (.left .skip) .skip))
      (.seq (.right (.hold (.hold (.left .skip)))) (.seq (.hold .skip) .skip))) .skip).mpr
    (by simp [HasMemory])
  refine ⟨(run step [true, true, true, false, true, false] (start fun _ => renameOps)).get
    (by decide +kernel), Option.eq_some_of_isSome _, by decide +kernel, ?_⟩
  exact hfinish _ _ (Option.eq_some_of_isSome _)

end ServerJob

end Hercules
