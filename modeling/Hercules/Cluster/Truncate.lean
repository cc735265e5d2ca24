/-
# Opening a file with O_TRUNC

The size of a file is recorded in block 0 on the data servers, and once more by each
client that has looked at the file. A client reads with its own record, refreshes it on
every `stat`, and sends it on `close`; the servers keep the larger of two sizes.

`generalOpen` looks at `O_TRUNC` only if the process has a descriptor for the path, and
then sets the size in the record of this client to 0. Nothing is sent to a server. So the
file is empty for all clients only if it was empty for all others before.
-/

import Hercules.Client.Descriptors
import Hercules.Cluster.Recreate

namespace Hercules

open Std Lib Lib.Text

namespace Client

variable {nStorages : Nat}

/-- The entry of a client for the file in `hierarchical_map`: the dataset descriptor, and the
record of the file. -/
abbrev FileEntry := Option (Int × Memory)

/-- A client: its descriptors, and its entry for the file. -/
structure FileClient where
  process : Process
  entry : FileEntry

/-- What a call that looks for the file depends on besides: the result of `open_dataset`, what the
CRC policies hash, and what is in the buffer for block 0. -/
structure Lookup where
  openDataset : Int
  stack : CString
  buffer : Memory

/-- One `open` of the file, with the results of `create_dataset` and the kernel. `stat` has the
fields that `imss_create` does not set, `st_mode` among them. -/
structure OpenCall where
  flags : OpenFlags
  createDataset : Int
  stack : CString
  stat : Memory
  fresh : Nat → Memory
  lookup : Lookup
  linkFd : Int
  nullFd : Int
  regular : isDir stat = false

/-- One `close`: the times for the record, and the results of `close_dataset`. -/
structure CloseCall where
  stack : CString
  times : Memory
  fresh : Nat → Memory
  closeDataset : Int
  deleteStack : CString
  lookup : Lookup

/-- One `unlink`, with the results of `delete_dataset` and `unlink_dataset`. -/
structure UnlinkCall where
  deleteDataset : Int
  stack : CString
  nOpen : Int
  unlinkDataset : Int

/-! ## The functions behind the calls -/

section Functions

variable (config : ServerConfig) (dataset : Dataset nStorages)

/-- `fd_lookup`, for callers that go on only with a dataset descriptor that is not negative. -/
def fdLookup (entry : FileEntry) : FileEntry :=
  entry.filter fun found => 0 ≤ found.1

/-- Block 0, as `get_ndata` receives it. -/
def getStat (stack : CString) (buffer : Memory) (cluster : Cluster) : Option Memory :=
  let reply := getNdata config dataset stack cluster 0 0 0 0 buffer
  if reply.1 < 0 then none else some reply.2

/-- `imss_refresh`. -/
def imssRefresh (lookup : Lookup) (cluster : Cluster) (entry : FileEntry) : FileEntry :=
  match fdLookup entry with
  | none => entry
  | some (ds, _) =>
      match getStat config dataset lookup.stack lookup.buffer cluster with
      | none => entry
      | some stat => some (ds, stat)

/-- The attributes of a file with this record; directories have fixed ones. -/
def attributes (stat : Memory) : Memory :=
  if isDir stat then setStMode (setStNlink (setStSize stat 4) 1) 0o40775 else stat

/-- `imss_getattr`: the result, the attributes and the entry afterwards. If `open_dataset` answers
`-EEXIST` the attributes stay zero. -/
def imssGetattr (lookup : Lookup) (cluster : Cluster) (entry : FileEntry) :
    Int × Memory × FileEntry :=
  match fdLookup entry with
  | some (_, stat) => (0, attributes stat, entry)
  | none =>
      if 0 ≤ lookup.openDataset ∨ lookup.openDataset = -Process.eexist then
        match getStat config dataset lookup.stack lookup.buffer cluster with
        | none => (-enoent, fun _ => 0, entry)
        | some stat =>
            (0, if 0 ≤ lookup.openDataset then attributes stat else fun _ => 0,
              entry.or (some (lookup.openDataset, stat)))
      else (-enoent, fun _ => 0, entry)

/-- `imss_open`: the result, `*fh` and the entry afterwards. -/
def imssOpen (lookup : Lookup) (cluster : Cluster) (entry : FileEntry) : Int × Int × FileEntry :=
  match fdLookup entry with
  | some (ds, _) => (0, ds, entry)
  | none =>
      if entry.elim (-1) Prod.fst = -2 then (-1, 0, entry)
      else if lookup.openDataset = -2 then (-2, -2, entry)
      else if lookup.openDataset = -1 then (-enoent, 0, entry)
      else
        let fileDesc := if lookup.openDataset = -Process.eexist then 0 else lookup.openDataset
        match getStat config dataset lookup.stack lookup.buffer cluster with
        | none => (-enoent, 0, entry)
        | some stat =>
            (if fileDesc < 0 then -1 else 0, if fileDesc < 0 then 0 else fileDesc,
              entry.or (some (fileDesc, stat)))

/-- `ECANCELED`. -/
def ecanceled : Int := 125

/-- `imss_create`: the result, the data servers and the entry afterwards. -/
def imssCreate (call : OpenCall) (cluster : Cluster) (entry : FileEntry) :
    Option (Int × Cluster × FileEntry) :=
  if call.createDataset < 0 then some (call.createDataset, cluster, entry)
  else
    match dataset.getDataLocation call.stack 0 with
    | none => some (-ecanceled, cluster, entry)
    | some _ =>
        (dataset.setCall config (createCall call.stack call.stat call.fresh) cluster).map
          fun cluster => (0, cluster, some (call.createDataset, createStat call.stat))

/-- The entry after `O_TRUNC`, from the results of `imss_getattr`. -/
def truncateEntry (attr : Int × Memory × FileEntry) : FileEntry :=
  if attr.1 < 0 then attr.2.2 else attr.2.2.map fun found => (found.1, setStSize attr.2.1 0)

/-- `generalOpen` of the file: the descriptor, the data servers and the client. The results of
functions that are not called in a branch are not used there. -/
def openFile (call : OpenCall) (cluster : Cluster) (client : FileClient) :
    Option (Int × Cluster × FileClient) :=
  let opened := imssOpen config dataset call.lookup cluster client.entry
  let attr := imssGetattr config dataset call.lookup cluster client.entry
  (imssCreate config dataset call cluster client.entry).bind fun created =>
    (client.process.generalOpen dataset.uri.1 call.flags
      ⟨created.1, opened.1, opened.2.1 == -2, call.linkFd, call.nullFd, attr.1⟩).map fun result =>
        match client.process.mapFdSearchByPathname dataset.uri.1 with
        | none =>
            if call.flags.create ∧ created.1 ≠ -Process.eexist then
              (result.1, created.2.1, ⟨result.2, created.2.2⟩)
            else (result.1, cluster, ⟨result.2, opened.2.2⟩)
        | some _ =>
            (result.1, cluster,
              ⟨result.2, if call.flags.trunc then truncateEntry attr else client.entry⟩)

/-- A record with other times in `st_mtim` and `st_ctim`. -/
def setTimes (stat times : Memory) : Memory :=
  stat.store 88 (times.load 0 32)

/-- `imss_release`. -/
def imssRelease (call : CloseCall) (cluster : Cluster) (entry : FileEntry) : Option Cluster :=
  match fdLookup entry with
  | none => some cluster
  | some (_, stat) =>
      dataset.setData config call.stack 0 0 ((setTimes stat call.times).load 0 sizeofStat)
        call.fresh cluster

/-- `imss_close`. The file is deleted if `close_dataset` returns 0. -/
def imssClose (call : CloseCall) (cluster : Cluster) (entry : FileEntry) :
    Option (Cluster × FileEntry) :=
  (imssRelease config dataset call cluster entry).bind fun cluster =>
    if call.closeDataset = 0 then
      (dataset.deleteDatasetSrvWorker config call.deleteStack cluster).map fun cluster =>
        (cluster, none)
    else some (cluster, imssRefresh config dataset call.lookup cluster entry)

/-- `close`. A descriptor of another file leaves this file alone. -/
def closeFile (mountPoint : CString) (fd : Int) (call : CloseCall) (cluster : Cluster)
    (client : FileClient) : Option (Cluster × FileClient) :=
  let process := (client.process.close mountPoint fd).2
  if client.process.mapFdSearchByVal fd = dataset.uri.1 ∧ dataset.uri.1 ≠ mountPoint then
    (imssClose config dataset call cluster client.entry).map fun result =>
      (result.1, ⟨process, result.2⟩)
  else some (cluster, ⟨process, client.entry⟩)

/-- `stat` and its relatives. -/
def statFile (refresh getattr : Lookup) (cluster : Cluster) (entry : FileEntry) :
    Int × Memory × FileEntry :=
  imssGetattr config dataset getattr cluster (imssRefresh config dataset refresh cluster entry)

/-- `imss_sread`, which all reads end in. An offset is not below a negative size. -/
def sreadFile (stack : CString) (cluster : Cluster) (entry : FileEntry) (buf : Memory)
    (size offset : Nat) : Int × Memory :=
  match entry with
  | none => (-enoent, buf)
  | some (ds, stat) =>
      if ds = -1 then (-enoent, buf)
      else if stSize stat < 0 then (0, buf)
      else
        imssSread config.blockSize (getNdata config dataset stack cluster)
          (some (stSize stat).toNat)
          buf size offset

/-- `imss_write`. -/
def writeFile (call : WriteCall) (cluster : Cluster) (entry : FileEntry) :
    Option (Cluster × FileEntry) :=
  match entry with
  | none => some (cluster, entry)
  | some (ds, stat) =>
      if ds = -1 then some (cluster, entry)
      else
        (imssWriteBlocks config dataset call (imssWriteCalls config.blockSize call.size call.off)
          cluster).map fun cluster =>
            (cluster, some (ds,
              if stSize stat % 2 ^ 64 < ((call.size + call.off : Nat) : Int) % 2 ^ 64 then
                setStSize stat (int64 (call.size + call.off : Nat))
              else stat))

/-- `map_fd_erase_by_pathname`. -/
def mapFdEraseByPathname (p : Process) (path : CString) : Process :=
  match p.mapFd.toList.find? fun entry => entry.2.1 == path || entry.2.1 == path ++ ['/'] with
  | none => p
  | some (fd, _) => p.mapFdErase fd

/-- `imss_unlink`, and the end of `unlink` after it. -/
def unlinkFile (call : UnlinkCall) (cluster : Cluster) (client : FileClient) :
    Option (Cluster × FileClient) :=
  let ret := if call.deleteDataset = 0 then call.unlinkDataset else call.deleteDataset
  let process :=
    if ret = 0 ∨ ret = 1 then mapFdEraseByPathname client.process dataset.uri.1 else client.process
  let entry := if ret = 0 then none else client.entry
  if call.deleteDataset = 0 then
    (dataset.unlinkDataset config call.stack call.nOpen cluster).map fun cluster =>
      (cluster, ⟨process, entry⟩)
  else some (cluster, ⟨process, entry⟩)

end Functions

/-! ## Histories -/

/-- The data servers and the clients. -/
structure FileState (ι : Type) where
  cluster : Cluster
  client : ι → FileClient

/-- A call of one of the clients, or a pass of the garbage collectors. -/
inductive FileAction (ι : Type)
  | open (c : ι) (call : OpenCall)
  | close (c : ι) (fd : Int) (call : CloseCall)
  | stat (c : ι) (refresh getattr : Lookup)
  | read (c : ι) (stack : CString) (buf : Memory) (size offset : Nat)
  | write (c : ι) (call : WriteCall)
  | unlink (c : ι) (call : UnlinkCall)
  | collect (ran : Nat → Bool)

/-- Is the action a write? -/
def FileAction.isWrite {ι : Type} : FileAction ι → Bool
  | .write _ _ => true
  | _ => false

namespace FileState

variable {ι : Type} [DecidableEq ι] (config : ServerConfig) (dataset : Dataset nStorages)

/-- The state after a call of one client. -/
def set (s : FileState ι) (c : ι) (cluster : Cluster) (client : FileClient) : FileState ι :=
  ⟨cluster, Function.update s.client c client⟩

/-- One action. -/
def step (mountPoint : CString) (s : FileState ι) : FileAction ι → Option (FileState ι)
  | .open c call =>
      (openFile config dataset call s.cluster (s.client c)).map fun result =>
        s.set c result.2.1 result.2.2
  | .close c fd call =>
      (closeFile config dataset mountPoint fd call s.cluster (s.client c)).map fun result =>
        s.set c result.1 result.2
  | .stat c refresh getattr =>
      let result := statFile config dataset refresh getattr s.cluster (s.client c).entry
      some (s.set c s.cluster ⟨(s.client c).process, result.2.2⟩)
  | .read _ _ _ _ _ => some s
  | .write c call =>
      (writeFile config dataset call s.cluster (s.client c).entry).map fun result =>
        s.set c result.1 ⟨(s.client c).process, result.2⟩
  | .unlink c call =>
      (unlinkFile config dataset call s.cluster (s.client c)).map fun result =>
        s.set c result.1 result.2
  | .collect ran => some ⟨s.cluster.collect config ran, s.client⟩

/-- A `stat` that succeeds shows size 0, and a read gets no bytes, or fails since the client does
not know the file. -/
def SeesEmpty (s : FileState ι) : FileAction ι → Prop
  | .stat c refresh getattr =>
      let result := statFile config dataset refresh getattr s.cluster (s.client c).entry
      result.1 = 0 → stSize result.2.1 = 0
  | .read c stack buf size offset =>
      let ret := (sreadFile config dataset stack s.cluster (s.client c).entry buf size offset).1
      ret = 0 ∨ ret = -enoent
  | _ => True

end FileState

/-- The record of a file (not of a directory) without bytes. -/
def EmptyRecord (stat : Memory) : Prop :=
  stSize stat = 0 ∧ isDir stat = false

/-- Every stored copy of block 0 says that the file has no bytes. -/
def StoredEmpty (dataset : Dataset nStorages) (cluster : Cluster) : Prop :=
  ∀ s block, (cluster s).get (blockKey dataset.uri.1 0) = some block → EmptyRecord block.data

/-- The entry says that the file has no bytes, if there is one. -/
def EntryEmpty (entry : FileEntry) : Prop :=
  ∀ found, entry = some found → EmptyRecord found.2

/-- The client that opens the file has it as empty, unless it has a descriptor for the path or
creates the file. -/
def OwnEmpty (dataset : Dataset nStorages) (client : FileClient) (call : OpenCall) : Prop :=
  ∀ found, client.entry = some found →
    if (client.process.mapFdSearchByPathname dataset.uri.1).isSome then isDir found.2 = false
    else call.flags.create = true ∧ 0 ≤ call.createDataset ∨ EmptyRecord found.2

/-- The servers and the clients have the file as empty before it is opened. -/
structure Truncatable {ι : Type} (dataset : Dataset nStorages) (s : FileState ι) (c : ι)
    (call : OpenCall) : Prop where
  stored : StoredEmpty dataset s.cluster
  others : ∀ k, k ≠ c → EntryEmpty (s.client k).entry
  own : OwnEmpty dataset (s.client c) call

/-! ## Records without bytes -/

section Records

variable {config : ServerConfig} {dataset : Dataset nStorages} {cluster cluster' : Cluster}
  {stat stat' : Memory}

theorem EmptyRecord.congr (hempty : EmptyRecord stat) (h : ∀ i < sizeofStat, stat' i = stat i) :
    EmptyRecord stat' := by
  rw [sizeofStat] at h
  constructor
  · rw [← hempty.1]
    exact stSize_congr fun i _ hi => h i (by omega)
  · rw [← hempty.2]
    exact isDir_congr fun i _ hi => h i (by omega)

theorem emptyRecord_zero : EmptyRecord fun _ => 0 :=
  ⟨by decide +kernel, by decide +kernel⟩

/-- With size 0 the record of a file is one without bytes. -/
theorem emptyRecord_setStSize (hfile : isDir stat = false) : EmptyRecord (setStSize stat 0) :=
  ⟨stSize_setStSize stat (by decide) (by decide), by rw [isDir_setStSize, hfile]⟩

theorem emptyRecord_createStat (hfile : isDir stat = false) : EmptyRecord (createStat stat) :=
  ⟨stSize_createStat stat, by rw [createStat, isDir_setStNlink, isDir_setStSize, hfile]⟩

theorem EmptyRecord.setStNlink (hempty : EmptyRecord stat) (links : Nat) :
    EmptyRecord (setStNlink stat links) :=
  ⟨by rw [stSize_setStNlink, hempty.1], by rw [isDir_setStNlink, hempty.2]⟩

theorem EmptyRecord.setTimes (hempty : EmptyRecord stat) (times : Memory) :
    EmptyRecord (setTimes stat times) := by
  refine ⟨?_, ?_⟩
  · rw [← hempty.1]
    exact stSize_congr fun i _ hi => Memory.store_of_lt (by omega)
  · rw [← hempty.2]
    exact isDir_congr fun i _ hi => Memory.store_of_lt (by omega)

theorem EmptyRecord.attributes (hempty : EmptyRecord stat) : attributes stat = stat := by
  rw [Client.attributes, hempty.2, if_neg (by decide)]

/-! ## Block 0 on the servers -/

/-- A record that is received as it was sent. -/
theorem EmptyRecord.store_load (hempty : EmptyRecord stat) (data : Memory) :
    EmptyRecord (data.store 0 (stat.load 0 sizeofStat)) := by
  apply hempty.congr
  intro i hi
  rw [Memory.store_load_of_mem (Nat.zero_le i) (by omega)]
  congr 1
  omega

/-- An empty record that is merged with an empty one. -/
theorem EmptyRecord.merge {old : Memory} (hempty : EmptyRecord stat) (hold : EmptyRecord old) :
    EmptyRecord (DataServer.mergeStat old stat) := by
  rw [DataServer.mergeStat, hempty.1, hold.1, Int.max_self]
  exact emptyRecord_setStSize hempty.2

/-- A server that gets an empty record for an empty file has an empty record. -/
theorem EmptyRecord.write {server : DataServer} {uri : CString} (hempty : EmptyRecord stat)
    (hserver : ∀ block, server.get (blockKey uri 0) = some block → EmptyRecord block.data)
    (config : ServerConfig) (fresh : Memory) :
    ∀ block, (server.write config (blockKey uri 0) 0 (stat.load 0 sizeofStat) fresh).2.get
      (blockKey uri 0) = some block → EmptyRecord block.data := by
  intro block hblock
  have hne : stat.load 0 sizeofStat ≠ [] := List.ne_nil_of_length_pos (by simp [sizeofStat])
  cases hget : server.get (blockKey uri 0) with
  | none =>
      rw [DataServer.write_of_none hne hget, DataServer.get_writeNew hget, DataServer.allocate,
        if_pos (isBlockZero_zero uri)] at hblock
      cases hblock
      exact hempty.store_load fresh
  | some old =>
      rw [DataServer.write_of_some hne hget,
        DataServer.get_writeExisting_zero hget (isBlockZero_zero uri), Memory.length_load] at hblock
      cases hblock
      exact ((hempty.store_load fresh).merge (hserver old hget)).store_load old.data

/-- An empty record that is sent to the servers of the file. -/
theorem StoredEmpty.setData (hstored : StoredEmpty dataset cluster) (hempty : EmptyRecord stat)
    {stack : CString} {fresh : Nat → Memory}
    (hset : dataset.setData config stack 0 0 (stat.load 0 sizeofStat) fresh cluster =
      some cluster') : StoredEmpty dataset cluster' := by
  rw [Dataset.setData_eq, Option.some.injEq] at hset
  subst hset
  intro s block hblock
  simp only at hblock
  split at hblock
  · exact hempty.write (hstored s) config (fresh s) block hblock
  · exact hstored s block hblock

theorem StoredEmpty.delete (hstored : StoredEmpty dataset cluster) {stack : CString}
    (hdelete : dataset.deleteDatasetSrvWorker config stack cluster = some cluster') :
    StoredEmpty dataset cluster' := by
  rw [Dataset.deleteDatasetSrvWorker_eq, Option.some.injEq] at hdelete
  subst hdelete
  intro s block hblock
  simp only at hblock
  split at hblock
  · rw [DataServer.get_delete] at hblock
    exact hstored s block hblock
  · exact hstored s block hblock

theorem StoredEmpty.unlink (hstored : StoredEmpty dataset cluster) {stack : CString} {nOpen : Int}
    (hunlink : dataset.unlinkDataset config stack nOpen cluster = some cluster') :
    StoredEmpty dataset cluster' := by
  intro s block hblock
  rcases Dataset.unlinkDataset_cases hunlink s with ⟨-, hsame⟩ | ⟨-, reply, hserver⟩
  · rw [hsame] at hblock
    exact hstored s block hblock
  · obtain ⟨-, old, links, hold, hnew⟩ := DataServer.get_unlink hserver
    obtain rfl := Option.some.inj (hnew.symm.trans hblock)
    exact (hstored s old hold).setStNlink links

theorem StoredEmpty.collect (hstored : StoredEmpty dataset cluster) (config : ServerConfig)
    (ran : Nat → Bool) : StoredEmpty dataset (cluster.collect config ran) := by
  intro s block hblock
  rw [Dataset.get_collect] at hblock
  split at hblock
  · cases hblock
  · exact hstored s block hblock

/-- The record that `get_ndata` returns is a stored one. -/
theorem emptyRecord_getNdataFrom (hstored : StoredEmpty dataset cluster) (servers : List Nat)
    (buf : Memory)
    (hfound : ¬ (getNdataFrom config cluster (readRequest 0 dataset.uri.1 0 sizeofStat) 0 servers
      buf).1 < 0) :
    EmptyRecord (getNdataFrom config cluster (readRequest 0 dataset.uri.1 0 sizeofStat) 0 servers
      buf).2 := by
  induction servers generalizing buf with
  | nil => exact absurd (by decide : (-1 : Int) < 0) hfound
  | cons s servers ih =>
      have hserve := DataServer.serve_read dataset.uri_word config (cluster s) 0 0 sizeofStat []
        fun _ => 0
      have hlength : sizeofStat % 2 ^ 64 = sizeofStat := by decide
      rw [hlength, Nat.zero_mod] at hserve
      cases hget : (cluster s).get (blockKey dataset.uri.1 0) with
      | none =>
          have hread : (cluster s).read (blockKey dataset.uri.1 0) 0 sizeofStat = none := by
            rw [DataServer.read, hget]
            rfl
          have hne : noKeyAvail ++ [0] ≠ [] := by simp
          rw [hread] at hserve
          simp only [getNdataFrom, hserve, replyBytes, Option.getD_none, if_neg hne,
            load_noKeyAvail, if_true] at hfound ⊢
          exact ih _ hfound
      | some block =>
          have hread : (cluster s).read (blockKey dataset.uri.1 0) 0 sizeofStat =
              some (block.data.load 0 sizeofStat) := by
            rw [DataServer.read, hget, Option.map_some, if_neg (by decide)]
          have hne : replyBytes (some (block.data.load 0 sizeofStat)) ≠ [] :=
            List.ne_nil_of_length_pos (by simp [replyBytes, sizeofStat])
          rw [hread] at hserve
          simp only [getNdataFrom, hserve] at hfound ⊢
          rw [if_neg hne] at hfound ⊢
          split
          next htext =>
            rw [if_pos htext] at hfound
            exact ih _ hfound
          next => exact (hstored s block hget).store_load buf

theorem emptyRecord_getStat (hstored : StoredEmpty dataset cluster) {stack : CString}
    {buffer : Memory} (hget : getStat config dataset stack buffer cluster = some stat) :
    EmptyRecord stat := by
  rw [getStat] at hget
  split at hget
  · cases hget
  next hfound =>
    cases hget
    rw [getNdata] at hfound ⊢
    split at hfound
    · exact absurd (by decide : (-2 : Int) < 0) hfound
    · exact emptyRecord_getNdataFrom hstored _ _ hfound

end Records

/-! ## The entry of a client -/

section Entries

variable {config : ServerConfig} {dataset : Dataset nStorages} {cluster cluster' : Cluster}
  {entry entry' : FileEntry} {stat : Memory} {client client' : FileClient} {fd : Int}

theorem eq_some_of_fdLookup {found : Int × Memory} (h : fdLookup entry = some found) :
    entry = some found :=
  (Option.filter_eq_some_iff.mp h).1

theorem entryEmpty_none : EntryEmpty none := by
  intro found hfound
  cases hfound

theorem entryEmpty_some (ds : Int) (hempty : EmptyRecord stat) : EntryEmpty (some (ds, stat)) := by
  intro found hfound
  cases hfound
  exact hempty

theorem EntryEmpty.or (hentry : EntryEmpty entry) (ds : Int) (hempty : EmptyRecord stat) :
    EntryEmpty (entry.or (some (ds, stat))) := by
  cases entry with
  | none => exact entryEmpty_some ds hempty
  | some found => exact hentry

theorem EntryEmpty.refresh (hentry : EntryEmpty entry) (hstored : StoredEmpty dataset cluster)
    (lookup : Lookup) : EntryEmpty (imssRefresh config dataset lookup cluster entry) := by
  rw [imssRefresh]
  split
  · exact hentry
  · split
    · exact hentry
    next hget => exact entryEmpty_some _ (emptyRecord_getStat hstored hget)

/-- What `imss_getattr` does: it uses the entry, it fails, or it fetches block 0. -/
theorem imssGetattr_cases (config : ServerConfig) (dataset : Dataset nStorages) (lookup : Lookup)
    (cluster : Cluster) (entry : FileEntry) :
    (∃ found, entry = some found ∧
        imssGetattr config dataset lookup cluster entry = (0, attributes found.2, entry)) ∨
      imssGetattr config dataset lookup cluster entry = (-enoent, fun _ => 0, entry) ∨
      ∃ stat ds attr, getStat config dataset lookup.stack lookup.buffer cluster = some stat ∧
        (attr = attributes stat ∨ attr = fun _ => 0) ∧
        imssGetattr config dataset lookup cluster entry =
          (0, attr, entry.or (some (ds, stat))) := by
  rw [imssGetattr]
  split
  next found hfound => exact Or.inl ⟨_, eq_some_of_fdLookup hfound, rfl⟩
  next =>
    right
    split
    · split
      · exact Or.inl rfl
      next stat hget =>
        refine Or.inr ⟨stat, _, _, hget, ?_, rfl⟩
        split
        · exact Or.inl rfl
        · exact Or.inr rfl
    · exact Or.inl rfl

theorem EntryEmpty.getattr (hentry : EntryEmpty entry) (hstored : StoredEmpty dataset cluster)
    (lookup : Lookup) : EntryEmpty (imssGetattr config dataset lookup cluster entry).2.2 := by
  rcases imssGetattr_cases config dataset lookup cluster entry with
    ⟨_, _, hattr⟩ | hattr | ⟨stat, ds, _, hget, _, hattr⟩
  · rwa [hattr]
  · rwa [hattr]
  · rw [hattr]
    exact hentry.or ds (emptyRecord_getStat hstored hget)

/-- The attributes of an empty file. -/
theorem EntryEmpty.attributes (hentry : EntryEmpty entry) (hstored : StoredEmpty dataset cluster)
    (lookup : Lookup) : EmptyRecord (imssGetattr config dataset lookup cluster entry).2.1 := by
  rcases imssGetattr_cases config dataset lookup cluster entry with
    ⟨found, hfound, hattr⟩ | hattr | ⟨stat, ds, attr, hget, hrecord, hattr⟩
  · rw [hattr, (hentry found hfound).attributes]
    exact hentry found hfound
  · rw [hattr]
    exact emptyRecord_zero
  · rw [hattr]
    have hempty := emptyRecord_getStat hstored hget
    rcases hrecord with rfl | rfl
    · rwa [hempty.attributes]
    · exact emptyRecord_zero

/-- The attributes are those of a file if the entry is. -/
theorem isDir_getattr (hfile : ∀ found, entry = some found → isDir found.2 = false)
    (hstored : StoredEmpty dataset cluster) (lookup : Lookup) :
    isDir (imssGetattr config dataset lookup cluster entry).2.1 = false := by
  rcases imssGetattr_cases config dataset lookup cluster entry with
    ⟨found, hfound, hattr⟩ | hattr | ⟨stat, ds, attr, hget, hrecord, hattr⟩
  · rw [hattr, Client.attributes, hfile found hfound, if_neg (by decide)]
    exact hfile found hfound
  · rw [hattr]
    exact emptyRecord_zero.2
  · rw [hattr]
    have hempty := emptyRecord_getStat hstored hget
    rcases hrecord with rfl | rfl
    · rw [hempty.attributes]
      exact hempty.2
    · exact emptyRecord_zero.2

theorem EntryEmpty.imssOpen (hentry : EntryEmpty entry) (hstored : StoredEmpty dataset cluster)
    (lookup : Lookup) : EntryEmpty (imssOpen config dataset lookup cluster entry).2.2 := by
  rw [Client.imssOpen]
  split
  · exact hentry
  · split
    · exact hentry
    · split
      · exact hentry
      · split
        · exact hentry
        · dsimp only
          split
          · exact hentry
          next hget => exact hentry.or _ (emptyRecord_getStat hstored hget)

/-- What `imss_create` does: it fails, or it stores a record without bytes. -/
theorem imssCreate_cases {call : OpenCall} {created : Int × Cluster × FileEntry}
    (h : imssCreate config dataset call cluster entry = some created) :
    (created = (call.createDataset, cluster, entry) ∧ call.createDataset < 0) ∨
      (created = (-ecanceled, cluster, entry) ∧ 0 ≤ call.createDataset) ∨
      ∃ cluster', dataset.setCall config (createCall call.stack call.stat call.fresh) cluster =
          some cluster' ∧
        created = (0, cluster', some (call.createDataset, createStat call.stat)) ∧
        0 ≤ call.createDataset := by
  rw [imssCreate] at h
  split at h
  next hneg => exact Or.inl ⟨(Option.some.inj h).symm, hneg⟩
  next hnonneg =>
    rw [Int.not_lt] at hnonneg
    right
    split at h
    · exact Or.inl ⟨(Option.some.inj h).symm, hnonneg⟩
    · obtain ⟨cluster', hset, hcreated⟩ := Option.map_eq_some_iff.mp h
      exact Or.inr ⟨cluster', hset, hcreated.symm, hnonneg⟩

/-- The three ways of `generalOpen`: the file is created, opened, or has a descriptor already. -/
theorem openFile_cases {call : OpenCall}
    (h : openFile config dataset call cluster client = some (fd, cluster', client')) :
    ∃ created, imssCreate config dataset call cluster client.entry = some created ∧
      client.process.generalOpen dataset.uri.1 call.flags
        ⟨created.1, (imssOpen config dataset call.lookup cluster client.entry).1,
          (imssOpen config dataset call.lookup cluster client.entry).2.1 == -2, call.linkFd,
          call.nullFd, (imssGetattr config dataset call.lookup cluster client.entry).1⟩ =
        some (fd, client'.process) ∧
      ((client.process.mapFdSearchByPathname dataset.uri.1 = none ∧
          (call.flags.create ∧ created.1 ≠ -Process.eexist) ∧ cluster' = created.2.1 ∧
          client'.entry = created.2.2) ∨
        (client.process.mapFdSearchByPathname dataset.uri.1 = none ∧
          ¬ (call.flags.create ∧ created.1 ≠ -Process.eexist) ∧ cluster' = cluster ∧
          client'.entry = (imssOpen config dataset call.lookup cluster client.entry).2.2) ∨
        (client.process.mapFdSearchByPathname dataset.uri.1).isSome ∧ cluster' = cluster ∧
          client'.entry = if call.flags.trunc then
            truncateEntry (imssGetattr config dataset call.lookup cluster client.entry)
            else client.entry) := by
  obtain ⟨created, hcreated, hopen⟩ := Option.bind_eq_some_iff.mp h
  obtain ⟨⟨fd', process⟩, hgeneral, hresult⟩ := Option.map_eq_some_iff.mp hopen
  refine ⟨created, hcreated, ?_⟩
  split at hresult
  next hnone =>
    split at hresult
    next hcreate =>
      cases hresult
      exact ⟨hgeneral, Or.inl ⟨hnone, hcreate, rfl, rfl⟩⟩
    next hcreate =>
      cases hresult
      exact ⟨hgeneral, Or.inr (Or.inl ⟨hnone, hcreate, rfl, rfl⟩)⟩
  next hsome =>
    cases hresult
    exact ⟨hgeneral, Or.inr (Or.inr ⟨by rw [hsome]; rfl, rfl, rfl⟩)⟩

/-- An open that does not create the file sends nothing to the data servers, whatever its flags. -/
theorem cluster_openFile {call : OpenCall}
    (h : openFile config dataset call cluster client = some (fd, cluster', client'))
    (hknown : call.flags.create = false ∨ call.createDataset < 0) : cluster' = cluster := by
  obtain ⟨created, hcreated, -, ⟨-, hcreate, rfl, -⟩ | ⟨-, -, hsame, -⟩ | ⟨-, hsame, -⟩⟩ :=
    openFile_cases h
  · rcases imssCreate_cases hcreated with ⟨rfl, -⟩ | ⟨rfl, -⟩ | ⟨_, -, -, hnonneg⟩
    · rfl
    · rfl
    · rcases hknown with hflag | hneg
      · rw [hflag] at hcreate
        cases hcreate.1
      · omega
  · exact hsame
  · exact hsame

theorem uri_ne_root (dataset : Dataset nStorages) : dataset.uri.1 ≠ imssRoot := by
  intro heq
  have hslash := dataset.uri.2.no_trailing_slash
  rw [heq] at hslash
  exact hslash (by decide)

/-- An open after which the file is empty: it was empty for the client before, or the open succeeds
and resets the size. -/
theorem empty_openFile {call : OpenCall} (hstored : StoredEmpty dataset cluster)
    (h : openFile config dataset call cluster client = some (fd, cluster', client'))
    (hclient : EntryEmpty client.entry ∨
      call.flags.trunc = true ∧ 0 ≤ fd ∧ OwnEmpty dataset client call) :
    StoredEmpty dataset cluster' ∧ EntryEmpty client'.entry := by
  obtain ⟨created, hcreated, hgeneral, hways⟩ := openFile_cases h
  rw [Process.generalOpen, if_neg (uri_ne_root dataset)] at hgeneral
  rcases hways with ⟨hnone, hcreate, rfl, hentry'⟩ | ⟨hnone, hcreate, rfl, hentry'⟩ |
    ⟨hsome, rfl, hentry'⟩
  · -- the entry is kept only if the creation fails
    rw [hnone] at hgeneral
    rw [hentry']
    simp only [hcreate.1, if_true] at hgeneral
    have hkept : created.1 < 0 → EntryEmpty client.entry := by
      intro hneg
      rcases hclient with hentry | ⟨-, hfd, -⟩
      · exact hentry
      · rw [if_pos ⟨hneg, hcreate.2⟩, Option.some.injEq, Prod.mk.injEq] at hgeneral
        omega
    rcases imssCreate_cases hcreated with ⟨rfl, hneg⟩ | ⟨rfl, -⟩ | ⟨cluster', hset, rfl, -⟩
    · exact ⟨hstored, hkept hneg⟩
    · exact ⟨hstored, hkept (by decide : -ecanceled < 0)⟩
    · have hempty := emptyRecord_createStat call.regular
      exact ⟨hstored.setData hempty hset, entryEmpty_some _ hempty⟩
  · refine ⟨hstored, ?_⟩
    rw [hentry']
    apply EntryEmpty.imssOpen _ hstored
    rcases hclient with hentry | ⟨-, -, hown⟩
    · exact hentry
    · intro found hfound
      have hrecord := hown found hfound
      rw [hnone, Option.isSome_none, if_neg (by decide)] at hrecord
      refine hrecord.resolve_left fun hcreates => hcreate ⟨hcreates.1, ?_⟩
      rcases imssCreate_cases hcreated with ⟨-, hneg⟩ | ⟨rfl, -⟩ | ⟨_, -, rfl, -⟩
      · omega
      · exact (by decide : -ecanceled ≠ -Process.eexist)
      · exact (by decide : 0 ≠ -Process.eexist)
  · refine ⟨hstored, ?_⟩
    rw [hentry']
    split
    next htrunc =>
      obtain ⟨⟨fd', offset⟩, hsearch⟩ := Option.isSome_iff_exists.mp hsome
      rw [hsearch] at hgeneral
      simp only [htrunc, if_true, Option.some.injEq, Prod.mk.injEq] at hgeneral
      rw [truncateEntry]
      split
      next hfailed =>
        rcases hclient with hentry | ⟨-, hfd, -⟩
        · exact hentry.getattr hstored _
        · rw [if_pos hfailed] at hgeneral
          omega
      next =>
        have hfile : ∀ found, client.entry = some found → isDir found.2 = false := by
          intro found hfound
          rcases hclient with hentry | ⟨-, -, hown⟩
          · exact (hentry found hfound).2
          · have hrecord := hown found hfound
            rwa [hsome, if_pos rfl] at hrecord
        intro found hfound
        obtain ⟨_, -, rfl⟩ := Option.map_eq_some_iff.mp hfound
        exact emptyRecord_setStSize (isDir_getattr hfile hstored _)
    next hflag =>
      rcases hclient with hentry | ⟨htrunc, -, -⟩
      · exact hentry
      · exact absurd htrunc hflag

theorem empty_closeFile {mountPoint : CString} {call : CloseCall}
    (hstored : StoredEmpty dataset cluster) (hentry : EntryEmpty client.entry)
    (h : closeFile config dataset mountPoint fd call cluster client = some (cluster', client')) :
    StoredEmpty dataset cluster' ∧ EntryEmpty client'.entry := by
  rw [closeFile] at h
  split at h
  · obtain ⟨⟨closed, entry'⟩, hclose, hresult⟩ := Option.map_eq_some_iff.mp h
    cases hresult
    obtain ⟨released, hrelease, hrest⟩ := Option.bind_eq_some_iff.mp hclose
    have hreleased : StoredEmpty dataset released := by
      rw [imssRelease] at hrelease
      split at hrelease
      · cases hrelease
        exact hstored
      next hfound =>
        exact hstored.setData ((hentry _ (eq_some_of_fdLookup hfound)).setTimes _) hrelease
    split at hrest
    · obtain ⟨deleted, hdelete, hpair⟩ := Option.map_eq_some_iff.mp hrest
      cases hpair
      exact ⟨hreleased.delete hdelete, entryEmpty_none⟩
    · cases hrest
      exact ⟨hreleased, hentry.refresh hreleased _⟩
  · cases h
    exact ⟨hstored, hentry⟩

theorem empty_unlinkFile {call : UnlinkCall} (hstored : StoredEmpty dataset cluster)
    (hentry : EntryEmpty client.entry)
    (h : unlinkFile config dataset call cluster client = some (cluster', client')) :
    StoredEmpty dataset cluster' ∧ EntryEmpty client'.entry := by
  rw [unlinkFile] at h
  split at h
  · obtain ⟨unlinked, hunlink, hpair⟩ := Option.map_eq_some_iff.mp h
    cases hpair
    refine ⟨hstored.unlink hunlink, ?_⟩
    dsimp only
    split
    · exact entryEmpty_none
    · exact hentry
  · cases h
    exact ⟨hstored, hentry⟩

end Entries

/-! ## Whole histories -/

namespace FileState

variable {ι : Type} {config : ServerConfig} {dataset : Dataset nStorages} {s s' : FileState ι}

/-- The file is empty for the servers and for every client. -/
structure Empty (dataset : Dataset nStorages) (s : FileState ι) : Prop where
  stored : StoredEmpty dataset s.cluster
  entries : ∀ k, EntryEmpty (s.client k).entry

/-- Every client sees an empty file as empty. -/
theorem Empty.seesEmpty (hempty : Empty dataset s) (action : FileAction ι) :
    s.SeesEmpty config dataset action := by
  cases action with
  | stat c refresh getattr =>
      intro _
      exact (((hempty.entries c).refresh hempty.stored refresh).attributes hempty.stored getattr).1
  | read c stack buf size offset =>
      simp only [SeesEmpty, sreadFile]
      split
      · exact Or.inr rfl
      next ds stat hentry =>
        have hsize := (hempty.entries c _ hentry).1
        split
        · exact Or.inr rfl
        · rw [hsize, if_neg (by decide), Int.toNat_zero, imssSread_of_le (Nat.zero_le offset)]
          exact Or.inl rfl
  | «open» | close | write | unlink | collect => trivial

variable [DecidableEq ι]

theorem empty_set {c : ι} {cluster : Cluster} {client : FileClient}
    (hothers : ∀ k, k ≠ c → EntryEmpty (s.client k).entry)
    (hnew : StoredEmpty dataset cluster ∧ EntryEmpty client.entry) :
    Empty dataset (s.set c cluster client) := by
  refine ⟨hnew.1, fun k => ?_⟩
  rw [set]
  dsimp only
  rcases eq_or_ne k c with rfl | hne
  · rw [Function.update_self]
    exact hnew.2
  · rw [Function.update_of_ne hne]
    exact hothers k hne

/-- Without a write an empty file stays empty. -/
theorem Empty.step {mountPoint : CString} {action : FileAction ι} (hempty : Empty dataset s)
    (hquiet : action.isWrite = false)
    (hstep : s.step config dataset mountPoint action = some s') : Empty dataset s' := by
  have hothers : ∀ c k, k ≠ c → EntryEmpty (s.client k).entry := fun _ k _ => hempty.entries k
  cases action with
  | «open» c call =>
      obtain ⟨⟨fd, cluster, client⟩, hopen, rfl⟩ := Option.map_eq_some_iff.mp hstep
      exact empty_set (hothers c)
        (empty_openFile hempty.stored hopen (Or.inl (hempty.entries c)))
  | close c fd call =>
      obtain ⟨⟨cluster, client⟩, hclose, rfl⟩ := Option.map_eq_some_iff.mp hstep
      exact empty_set (hothers c) (empty_closeFile hempty.stored (hempty.entries c) hclose)
  | stat c refresh getattr =>
      cases hstep
      exact empty_set (hothers c) ⟨hempty.stored,
        ((hempty.entries c).refresh hempty.stored refresh).getattr hempty.stored getattr⟩
  | read c stack buf size offset =>
      cases hstep
      exact hempty
  | write c call => cases hquiet
  | unlink c call =>
      obtain ⟨⟨cluster, client⟩, hunlink, rfl⟩ := Option.map_eq_some_iff.mp hstep
      exact empty_set (hothers c) (empty_unlinkFile hempty.stored (hempty.entries c) hunlink)
  | collect ran =>
      cases hstep
      exact ⟨hempty.stored.collect config ran, hempty.entries⟩

end FileState

/-- After an open with `O_TRUNC` that succeeds, and until the next write, all clients see the file
as empty, if the servers and the other clients had it as empty before. -/
theorem truncatingOpen_empties {ι : Type} [DecidableEq ι] (config : ServerConfig)
    (dataset : Dataset nStorages) (mountPoint : CString) (s : FileState ι) (c : ι) (call : OpenCall)
    (htrunc : call.flags.trunc = true) {fd : Int} {cluster : Cluster} {client : FileClient}
    (hopen : openFile config dataset call s.cluster (s.client c) = some (fd, cluster, client))
    (hfd : 0 ≤ fd) (hempty : Truncatable dataset s c call) (actions : List (FileAction ι))
    (hquiet : ∀ action ∈ actions, action.isWrite = false) :
    Along (FileState.step config dataset mountPoint) (FileState.SeesEmpty config dataset) actions
      (s.set c cluster client) := by
  have hstart : FileState.Empty dataset (s.set c cluster client) :=
    FileState.empty_set hempty.others
      (empty_openFile hempty.stored hopen (Or.inr ⟨htrunc, hfd, hempty.own⟩))
  exact Along.of_invariant (fun action hmem _ _ h hstep => h.step (hquiet action hmem) hstep)
    (fun _ action h => h.seesEmpty action) hstart

/-- A lookup in which `open_dataset` succeeds. -/
def exampleLookup : Lookup :=
  ⟨0, [], fun _ => 0⟩

/-- An `open` of the file; the kernel gives descriptor 3. -/
def exampleOpen (create trunc : Bool) : OpenCall :=
  ⟨⟨create, trunc⟩, 0, [], fun _ => 0, fun _ _ => 0, exampleLookup, -1, 3, by decide +kernel⟩

/-- A `close` after which the file exists. -/
def exampleClose : CloseCall :=
  ⟨[], fun _ => 0, fun _ _ => 0, 1, [], exampleLookup⟩

/-- A client has created the file and written five bytes, which no server knows of yet. -/
def unsavedFile : FileState Bool where
  cluster := createdOnly
  client c :=
    if c then ⟨(Process.start [0, 1, 2, 3]).mapFdPut exampleFile.1 3 0,
      some (0, setStSize (createStat fun _ => 0) 5)⟩
    else ⟨Process.start [0, 1, 2], none⟩

theorem storedEmpty_createdOnly :
    StoredEmpty (exampleDataset 1 (by decide)) createdOnly := by
  intro s
  refine (emptyRecord_createStat (by decide +kernel)).write ?_ _ _
  intro block hblock
  rw [DataServer.get, DataServer.init, HierarchicalRecords.hierarchicalMapGet_init] at hblock
  cases hblock

/-- The client opens the file again with `O_TRUNC`; it is empty then, and after the `close` as
well. -/
theorem truncatingOpen_empties_unsaved :
    ∃ fd cluster client, openFile ⟨1024, 4096⟩ (exampleDataset 1 (by decide))
        (exampleOpen false true) unsavedFile.cluster (unsavedFile.client true) =
          some (fd, cluster, client) ∧
      Along (FileState.step ⟨1024, 4096⟩ (exampleDataset 1 (by decide)) [])
        (FileState.SeesEmpty ⟨1024, 4096⟩ (exampleDataset 1 (by decide)))
        [.stat true exampleLookup exampleLookup, .close true 3 exampleClose,
          .stat false exampleLookup exampleLookup]
        (unsavedFile.set true cluster client) := by
  have hfd : (openFile ⟨1024, 4096⟩ (exampleDataset 1 (by decide)) (exampleOpen false true)
      unsavedFile.cluster (unsavedFile.client true)).map Prod.fst = some 3 := by
    decide +kernel
  obtain ⟨⟨fd, cluster, client⟩, hopen, rfl⟩ := Option.map_eq_some_iff.mp hfd
  refine ⟨3, cluster, client, hopen, ?_⟩
  refine truncatingOpen_empties ⟨1024, 4096⟩ _ [] unsavedFile true
    (exampleOpen false true) rfl hopen
    (by decide) ⟨storedEmpty_createdOnly, ?_, ?_⟩ _ (by decide)
  · intro k hk
    cases k with
    | false => exact entryEmpty_none
    | true => exact absurd rfl hk
  · intro found hfound
    rw [if_pos (by decide +kernel)]
    cases hfound
    decide +kernel

/-- No file is stored, and the clients have descriptors 0, 1 and 2. -/
def FileState.start : FileState Bool where
  cluster _ := DataServer.init imssRoot
  client _ := ⟨Process.start [0, 1, 2], none⟩

/-- After the history the client opens the file with `O_TRUNC`, and what it then sees is not
empty. -/
def NotTruncated (dataset : Dataset nStorages) (history : List (FileAction Bool)) (c : Bool) :
    Prop :=
  ∃ s fd cluster client,
    run (FileState.step ⟨1024, 4096⟩ dataset []) history FileState.start = some s ∧
      openFile ⟨1024, 4096⟩ dataset (exampleOpen false true) s.cluster (s.client c) =
        some (fd, cluster, client) ∧
      0 ≤ fd ∧
      ¬ (s.set c cluster client).SeesEmpty ⟨1024, 4096⟩ dataset
        (.stat c exampleLookup exampleLookup)

/-- The descriptor, and the result of the `stat` and the size in it. -/
def shownAfterTrunc (dataset : Dataset nStorages) (history : List (FileAction Bool)) (c : Bool) :
    Option (Int × Int × Int) :=
  (run (FileState.step ⟨1024, 4096⟩ dataset []) history FileState.start).bind fun s =>
    (openFile ⟨1024, 4096⟩ dataset (exampleOpen false true) s.cluster (s.client c)).map
      fun result =>
      let shown := statFile ⟨1024, 4096⟩ dataset exampleLookup exampleLookup result.2.1
        result.2.2.entry
      (result.1, shown.1, stSize shown.2.1)

theorem notTruncated_of_shown {dataset : Dataset nStorages} {history : List (FileAction Bool)}
    {c : Bool} (h : shownAfterTrunc dataset history c = some (3, 0, 5)) :
    NotTruncated dataset history c := by
  obtain ⟨s, hrun, hrest⟩ := Option.bind_eq_some_iff.mp h
  obtain ⟨⟨fd, cluster, client⟩, hopen, hshown⟩ := Option.map_eq_some_iff.mp hrest
  simp only [Prod.mk.injEq] at hshown
  obtain ⟨rfl, hret, hsize⟩ := hshown
  refine ⟨s, 3, cluster, client, hrun, hopen, by decide, fun hsees => ?_⟩
  rw [FileState.SeesEmpty, FileState.set] at hsees
  simp only [Function.update_self] at hsees
  rw [hsees hret] at hsize
  cases hsize

/-- A client creates the file, writes five bytes and closes it. -/
def writtenFile : List (FileAction Bool) :=
  [.open true (exampleOpen true false), .write true ⟨0, 5, fun _ => 7, [], fun _ _ _ => 0⟩,
    .close true 3 exampleClose]

/-- An `O_TRUNC` of another client, which has not opened the file, or of the same client, which has
opened it again: the size is still 5. -/
theorem not_truncatingOpen_empties :
    NotTruncated (exampleDataset 1 (by decide)) writtenFile false ∧
      NotTruncated (exampleDataset 1 (by decide))
        (writtenFile ++ [.open true (exampleOpen false false)]) true :=
  ⟨notTruncated_of_shown (by decide +kernel), notTruncated_of_shown (by decide +kernel)⟩

end Client

end Hercules
