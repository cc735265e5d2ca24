/-
# The data servers of a deployment

A client finds the servers of a block in two steps: `get_data_location` gives the
server of the first copy, and the other copies follow at equal distances. It then
sends the same request to each of them. The placement uses the name under which
the dataset was created; the key in the request uses its present name.

Each call of `set_data` in the life of a file is a `SetCall`. `setAll` runs any
number of them, and the lemmas say which server holds which block afterwards.
-/

import Hercules.Lib.Family
import Hercules.Server.Requests

namespace Hercules

open Lib Lib.Text

/-- The states of the data servers, by their number. -/
abbrev Cluster := Nat → DataServer

/-- The fields of `dataset_info` that the requests for its blocks depend on. The
name is a word of the request text, and `create_dataset` limits the number of
copies to the number of servers. -/
structure Dataset (nStorages : Nat) where
  uri : FileUri
  originalName : CString
  policy : Policy
  replFactor : Nat
  uri_word : IsWord uri.1
  repl_le : replFactor ≤ nStorages

/-- Send a request to the listed servers in turn, with what `malloc` leaves in a
new buffer on each of them. -/
def Cluster.send (config : ServerConfig) (targets : List Nat) (req : CString)
    (payload : List UInt8) (fresh : Nat → Memory) (cluster : Cluster) : Option Cluster :=
  Family.visit
    (fun s server => (server.serve config req payload (fresh s)).map Prod.snd) targets cluster

/-- Send a request that stores nothing. -/
def Cluster.ask (config : ServerConfig) (targets : List Nat) (req : CString) (cluster : Cluster) :
    Option Cluster :=
  cluster.send config targets req [] fun _ _ => 0

/-- One pass of the garbage collector on the servers for which `ran` holds. -/
def Cluster.collect (config : ServerConfig) (ran : Nat → Bool) (cluster : Cluster) : Cluster :=
  fun s => if ran s then (cluster s).cleanGarbageCollector config else cluster s

/-- One call of `set_data`; `stack` is what the CRC policies hash. -/
structure SetCall where
  stack : CString
  dataId : Int
  offset : Nat
  data : List UInt8
  fresh : Nat → Memory
  data_ne : data ≠ []

/-- The record that `imss_create` fills in: no bytes and one link. The other
fields are those of `stat`. -/
def createStat (stat : Memory) : Memory :=
  setStNlink (setStSize stat 0) 1

theorem stSize_createStat (stat : Memory) : stSize (createStat stat) = 0 := by
  rw [createStat, stSize_setStNlink, stSize_setStSize _ (by decide) (by decide)]

/-- The call with which `imss_create` stores block 0. -/
def createCall (stack : CString) (stat : Memory) (fresh : Nat → Memory) : SetCall where
  stack := stack
  dataId := 0
  offset := 0
  data := (createStat stat).load 0 sizeofStat
  fresh := fresh
  data_ne := by
    intro hnil
    have hlength := congrArg List.length hnil
    rw [Memory.length_load] at hlength
    cases hlength

namespace Dataset

variable {nStorages : Nat}

/-- `get_data_location`. -/
def getDataLocation (dataset : Dataset nStorages) (stack : CString) (dataId : Int) : Option Nat :=
  findServer stack nStorages dataId dataset.originalName dataset.policy

/-- The servers that a request for a block goes to. Without a location nothing is
sent. -/
def targets (dataset : Dataset nStorages) (stack : CString) (dataId : Int) : List Nat :=
  match dataset.getDataLocation stack dataId with
  | none => []
  | some first => replicaServers nStorages dataset.replFactor first

/-- `set_data` on the network path. -/
def setData (config : ServerConfig) (dataset : Dataset nStorages) (stack : CString) (dataId : Int)
    (offset : Nat) (data : List UInt8) (fresh : Nat → Memory) (cluster : Cluster) :
    Option Cluster :=
  cluster.send config (dataset.targets stack dataId)
    (setRequest data.length offset dataset.uri.1 dataId) data fresh

/-- One call of `set_data`. -/
def setCall (config : ServerConfig) (dataset : Dataset nStorages) (call : SetCall)
    (cluster : Cluster) : Option Cluster :=
  dataset.setData config call.stack call.dataId call.offset call.data call.fresh cluster

/-- The calls of `set_data` in the life of a file. -/
def setAll (config : ServerConfig) (dataset : Dataset nStorages) :
    List SetCall → Cluster → Option Cluster
  | [], cluster => some cluster
  | call :: calls, cluster =>
      (dataset.setCall config call cluster).bind (dataset.setAll config calls)

variable {config : ServerConfig} {dataset : Dataset nStorages} {cluster cluster' : Cluster}

theorem nodup_targets (dataset : Dataset nStorages) (stack : CString) (dataId : Int) :
    (dataset.targets stack dataId).Nodup := by
  rw [targets]
  split
  · exact List.nodup_nil
  · exact nodup_replicaServers dataset.repl_le _

theorem lt_of_mem_targets {stack : CString} {dataId : Int} {s : Nat}
    (h : s ∈ dataset.targets stack dataId) : s < nStorages := by
  rw [targets] at h
  split at h
  · cases h
  · obtain ⟨i, hi, rfl⟩ := mem_replicaServers.mp h
    have hrepl := dataset.repl_le
    exact Nat.mod_lt _ (by omega)

/-- The present name of a dataset is not empty. -/
theorem uri_ne_nil (dataset : Dataset nStorages) : dataset.uri.1 ≠ [] := by
  obtain ⟨path, hpath⟩ := dataset.uri.2.below_root
  rw [← hpath]
  simp [imssRoot]

/-! ## Which server holds what -/

/-- A call of `set_data` is a write on each target. -/
theorem setData_eq (config : ServerConfig) (dataset : Dataset nStorages) (stack : CString)
    (dataId : Int) (offset : Nat) (data : List UInt8) (fresh : Nat → Memory) (cluster : Cluster) :
    dataset.setData config stack dataId offset data fresh cluster = some fun s =>
      if s ∈ dataset.targets stack dataId then
        ((cluster s).write config (blockKey dataset.uri.1 dataId) (offset % 2 ^ 32) data
          (fresh s)).2
      else cluster s := by
  refine Family.visit_eq (dataset.nodup_targets _ _) fun s _ => ?_
  rw [DataServer.serve_set dataset.uri_word]
  rfl

/-- A property of single servers that writes to the file keep holds on every
server after any number of calls. -/
theorem setAll_preserves {P : Nat → DataServer → Prop}
    (hwrite : ∀ s server dataId offset data fresh, data ≠ [] → P s server →
      P s (server.write config (blockKey dataset.uri.1 dataId) offset data fresh).2)
    {calls : List SetCall} (hset : dataset.setAll config calls cluster = some cluster') {s : Nat}
    (h : P s (cluster s)) : P s (cluster' s) := by
  induction calls generalizing cluster with
  | nil =>
      cases hset
      exact h
  | cons call calls ih =>
      rw [setAll, setCall, setData_eq, Option.bind_some] at hset
      refine ih hset ?_
      split
      · exact hwrite s _ _ _ _ _ call.data_ne h
      · exact h

/-- A write to the file leaves the keys of other files alone. -/
theorem get_setAll_of_ne {calls : List SetCall} {key : CString}
    (hkey : ∀ dataId, blockKey dataset.uri.1 dataId ≠ key)
    (hset : dataset.setAll config calls cluster = some cluster') (s : Nat) :
    (cluster' s).get key = (cluster s).get key := by
  refine setAll_preserves (P := fun s server => server.get key = (cluster s).get key) ?_ hset rfl
  intro s server dataId offset data fresh _ hserver
  rw [DataServer.get_write_of_ne (hkey dataId), hserver]

/-- No call of `set_data` adds to the garbage. -/
theorem mem_garbageOf_setAll {calls : List SetCall} {dir path : CString}
    (hset : dataset.setAll config calls cluster = some cluster') {s : Nat}
    (h : path ∉ (cluster s).store.garbageOf dir) : path ∉ (cluster' s).store.garbageOf dir := by
  refine setAll_preserves (P := fun _ server => path ∉ server.store.garbageOf dir) ?_ hset h
  intro s server dataId offset data fresh hdata hserver
  rw [DataServer.garbageOf_write hdata]
  split
  · exact fun hmem => hserver (List.mem_of_mem_erase hmem)
  · exact hserver

/-- After the calls a server holds the blocks it held before and those that were
sent to it. -/
theorem isSome_get_setAll {calls : List SetCall}
    (hset : dataset.setAll config calls cluster = some cluster') (s : Nat) (dataId : Int) :
    ((cluster' s).get (blockKey dataset.uri.1 dataId)).isSome ↔
      ((cluster s).get (blockKey dataset.uri.1 dataId)).isSome ∨
        ∃ call ∈ calls, call.dataId = dataId ∧ s ∈ dataset.targets call.stack call.dataId := by
  induction calls generalizing cluster with
  | nil =>
      cases hset
      simp
  | cons call calls ih =>
      rw [setAll, setCall, setData_eq, Option.bind_some] at hset
      rw [ih hset, List.exists_mem_cons_iff, ← or_assoc]
      refine or_congr_left ?_
      by_cases hs : s ∈ dataset.targets call.stack call.dataId
      · rw [if_pos hs]
        by_cases hid : call.dataId = dataId
        · subst hid
          simp [DataServer.isSome_get_write call.data_ne, hs]
        · have hkey : blockKey dataset.uri.1 call.dataId ≠ blockKey dataset.uri.1 dataId := by
            rw [Ne, blockKey_inj]
            exact fun h => hid h.2
          simp [DataServer.get_write_of_ne hkey, hid]
      · simp [hs]

end Dataset

/-- The file `imss://f` on some servers, with single copies placed round robin. -/
def exampleDataset (nStorages : Nat) (h : 1 ≤ nStorages) : Dataset nStorages where
  uri := exampleFile
  originalName := exampleFile.1
  policy := .roundRobin
  replFactor := 1
  uri_word := by decide
  repl_le := h

end Hercules
