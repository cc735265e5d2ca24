/-
# Creating a file again after an unlink

An unlink leaves every block in place: the garbage collector gets a key that no
pass looks for. A file that is created under the same name then finds the old
blocks. Block 0 is merged with the old record, where the larger size wins, and the
old data blocks are the data blocks of the new file.

`recreatedEmpty_iff` says from which states the new file is empty all the same.
-/

import Hercules.Cluster.Unlink

namespace Hercules

open Lib Lib.Text

/-! ## Block 0 of the new file -/

namespace DataServer

variable {config : ServerConfig} {server : DataServer} {uri : CString}

/-- A record for an unknown file is stored as it is sent. -/
theorem get_write_stat_new (hnone : server.get (blockKey uri 0) = none) (config : ServerConfig)
    (stat fresh : Memory) :
    ∃ block, (server.write config (blockKey uri 0) 0 (stat.load 0 sizeofStat) fresh).2.get
        (blockKey uri 0) = some block ∧ stSize block.data = stSize stat := by
  have hne : stat.load 0 sizeofStat ≠ [] := List.ne_nil_of_length_pos (by simp [sizeofStat])
  rw [write_of_none hne hnone, get_writeNew hnone, allocate, if_pos (isBlockZero_zero uri)]
  exact ⟨_, rfl, stSize_store_load fresh stat⟩

/-- A record for a known file keeps the larger size. -/
theorem get_write_stat_existing {old : Block} (hsome : server.get (blockKey uri 0) = some old)
    (config : ServerConfig) (stat fresh : Memory) :
    ∃ block, (server.write config (blockKey uri 0) 0 (stat.load 0 sizeofStat) fresh).2.get
        (blockKey uri 0) = some block ∧
      stSize block.data = max (stSize stat) (stSize old.data) := by
  have hne : stat.load 0 sizeofStat ≠ [] := List.ne_nil_of_length_pos (by simp [sizeofStat])
  rw [write_of_some hne hsome]
  exact get_writeExisting_stat hsome (isBlockZero_zero uri) stat fresh

end DataServer

/-! ## The new file -/

/-- The new file has no bytes: each copy of its record says so, and no server that
is asked for one of its data blocks has one. -/
structure RecreatedEmpty {nStorages : Nat} (dataset : Dataset nStorages) (stack : CString)
    (cluster : Cluster) : Prop where
  size_zero : ∀ s ∈ dataset.targets stack 0, ∃ block,
    (cluster s).get (blockKey dataset.uri.1 0) = some block ∧ stSize block.data = 0
  no_old_bytes : ∀ stack' dataId, dataId ≠ 0 → ∀ s ∈ dataset.targets stack' dataId,
    (cluster s).get (blockKey dataset.uri.1 dataId) = none

namespace Dataset

variable {nStorages : Nat}

/-- The old file is unlinked, the garbage collectors run on some servers, and a
file of the same name is created, which may be placed in another way. -/
def recreate (config : ServerConfig) (old new : Dataset nStorages) (stack : CString)
    (nOpen : Int) (ran : Nat → Bool) (create : CString × Memory × (Nat → Memory))
    (cluster : Cluster) : Option Cluster :=
  (old.unlinkDataset config stack nOpen cluster).bind fun cluster =>
    new.setCall config (createCall create.1 create.2.1 create.2.2) (cluster.collect config ran)

/-- The states from which the new file is empty: where the new file will look for
a block, the old one has left none that a pass does not remove, except for
records that claim no bytes. -/
def RecreateCondition (new : Dataset nStorages) (stack : CString) (ran : Nat → Bool)
    (cluster : Cluster) : Prop :=
  (∀ s ∈ new.targets stack 0, ∀ block, (cluster s).get (blockKey new.uri.1 0) = some block →
      new.Swept ran cluster s ∨ stSize block.data ≤ 0) ∧
    ∀ stack' dataId, dataId ≠ 0 → ∀ s ∈ new.targets stack' dataId,
      new.Swept ran cluster s ∨ (cluster s).get (blockKey new.uri.1 dataId) = none

variable {config : ServerConfig} {old new : Dataset nStorages} {cluster cluster' : Cluster}
  {stack : CString} {nOpen : Int}

/-- An unlink changes no data block, no recorded size and no name that waits. -/
theorem unlinkDataset_keeps (h : old.unlinkDataset config stack nOpen cluster = some cluster')
    (s : Nat) :
    (∀ dataId : Int, dataId ≠ 0 → (cluster' s).get (blockKey old.uri.1 dataId) =
        (cluster s).get (blockKey old.uri.1 dataId)) ∧
      ((cluster' s).get (blockKey old.uri.1 0)).map (fun block => stSize block.data) =
        ((cluster s).get (blockKey old.uri.1 0)).map (fun block => stSize block.data) ∧
      ∀ ran, old.Swept ran cluster' s ↔ old.Swept ran cluster s := by
  rcases unlinkDataset_cases h s with ⟨-, hsame⟩ | ⟨-, reply, hunlink⟩
  · refine ⟨fun dataId _ => by rw [hsame], by rw [hsame], fun ran => ?_⟩
    rw [Swept, Swept, hsame]
  · obtain ⟨hother, block, links, hblock, hblock'⟩ := DataServer.get_unlink hunlink
    refine ⟨fun dataId hid => hother _ (by simp [hid]), ?_, fun ran => ?_⟩
    · rw [hblock, hblock']
      exact congrArg some (stSize_setStNlink block.data links)
    · simp only [Swept,
        DataServer.mem_garbageOf_unlink hunlink (notMem_upTo '$' old.uri.1)]

/-- The recorded size after a record without bytes arrives. -/
theorem size_zero_iff (config : ServerConfig) (server : DataServer) (uri : CString)
    (stat fresh : Memory) :
    (∃ block, (server.write config (blockKey uri 0) 0 ((createStat stat).load 0 sizeofStat)
        fresh).2.get (blockKey uri 0) = some block ∧ stSize block.data = 0) ↔
      ∀ block, server.get (blockKey uri 0) = some block → stSize block.data ≤ 0 := by
  cases hget : server.get (blockKey uri 0) with
  | none =>
      obtain ⟨block, hblock, hsize⟩ := DataServer.get_write_stat_new hget config (createStat stat)
        fresh
      rw [stSize_createStat] at hsize
      exact iff_of_true ⟨block, hblock, hsize⟩ (fun _ h => by cases h)
  | some old =>
      obtain ⟨block, hblock, hsize⟩ := DataServer.get_write_stat_existing hget config
        (createStat stat) fresh
      rw [stSize_createStat] at hsize
      rw [hblock]
      simp [hsize]

theorem setCall_create (config : ServerConfig) (new : Dataset nStorages) (stack : CString)
    (stat : Memory) (fresh : Nat → Memory) (cluster : Cluster) :
    new.setCall config (createCall stack stat fresh) cluster = some fun s =>
      if s ∈ new.targets stack 0 then
        ((cluster s).write config (blockKey new.uri.1 0) 0 ((createStat stat).load 0 sizeofStat)
          (fresh s)).2
      else cluster s :=
  setData_eq config new stack 0 0 _ fresh cluster

section Unlinked

variable (hname : new.uri = old.uri)
  (hunlink : old.unlinkDataset config stack nOpen cluster = some cluster')

include hname hunlink

theorem swept_unlinkDataset (ran : Nat → Bool) (s : Nat) :
    new.Swept ran cluster' s ↔ new.Swept ran cluster s := by
  have hkeep := (unlinkDataset_keeps hunlink s).2.2 ran
  rwa [Swept, Swept, ← hname] at hkeep

/-- The data blocks that the new file finds. -/
theorem get_collect_unlinked_eq_none_iff (ran : Nat → Bool) (s : Nat) {dataId : Int}
    (hid : dataId ≠ 0) :
    (cluster'.collect config ran s).get (blockKey new.uri.1 dataId) = none ↔
      new.Swept ran cluster s ∨ (cluster s).get (blockKey new.uri.1 dataId) = none := by
  have hblock := (unlinkDataset_keeps hunlink s).1 dataId hid
  rw [← hname] at hblock
  rw [← swept_unlinkDataset hname hunlink, get_collect, hblock]
  by_cases hswept : new.Swept ran cluster' s <;> simp [hswept]

/-- The recorded size that the new file finds. -/
theorem stSize_collect_unlinked_iff (ran : Nat → Bool) (s : Nat) :
    (∀ block, (cluster'.collect config ran s).get (blockKey new.uri.1 0) = some block →
        stSize block.data ≤ 0) ↔
      ∀ block, (cluster s).get (blockKey new.uri.1 0) = some block →
        new.Swept ran cluster s ∨ stSize block.data ≤ 0 := by
  have hsize := (unlinkDataset_keeps hunlink s).2.1
  rw [← hname] at hsize
  rw [← swept_unlinkDataset hname hunlink, get_collect]
  by_cases hswept : new.Swept ran cluster' s
  · simp [hswept]
  · rw [if_neg hswept]
    cases hget : (cluster s).get (blockKey new.uri.1 0) <;>
      cases hget' : (cluster' s).get (blockKey new.uri.1 0) <;>
      simp_all

end Unlinked

/-- After an unlink and a creation under the same name the new file is empty
exactly from the states of `RecreateCondition`, whether or not the garbage
collectors ran in between. -/
theorem recreatedEmpty_iff (config : ServerConfig) {old new : Dataset nStorages}
    (hname : new.uri = old.uri) (stack : CString) (nOpen : Int) (ran : Nat → Bool)
    (create : CString × Memory × (Nat → Memory)) {cluster cluster' : Cluster}
    (hrun : old.recreate config new stack nOpen ran create cluster = some cluster') :
    RecreatedEmpty new create.1 cluster' ↔ new.RecreateCondition create.1 ran cluster := by
  obtain ⟨unlinked, hunlink, hcreate⟩ := Option.bind_eq_some_iff.mp hrun
  rw [setCall_create, Option.some.injEq] at hcreate
  have hzero : ∀ s ∈ new.targets create.1 0,
      (∃ block, (cluster' s).get (blockKey new.uri.1 0) = some block ∧ stSize block.data = 0) ↔
        ∀ block, (cluster s).get (blockKey new.uri.1 0) = some block →
          new.Swept ran cluster s ∨ stSize block.data ≤ 0 := by
    intro s hs
    have hserver := congrFun hcreate s
    rw [if_pos hs] at hserver
    rw [← hserver, size_zero_iff, stSize_collect_unlinked_iff hname hunlink]
  have hdata : ∀ s (dataId : Int), dataId ≠ 0 →
      ((cluster' s).get (blockKey new.uri.1 dataId) = none ↔
        new.Swept ran cluster s ∨ (cluster s).get (blockKey new.uri.1 dataId) = none) := by
    intro s dataId hid
    have hkey : blockKey new.uri.1 0 ≠ blockKey new.uri.1 dataId := by simp [Ne.symm hid]
    rw [← get_collect_unlinked_eq_none_iff hname hunlink ran s hid, ← congrFun hcreate s]
    split
    · rw [DataServer.get_write_of_ne hkey]
    · rfl
  constructor
  · intro hempty
    exact ⟨fun s hs => (hzero s hs).mp (hempty.size_zero s hs),
      fun stack' dataId hid s hs => (hdata s dataId hid).mp
        (hempty.no_old_bytes stack' dataId hid s hs)⟩
  · rintro ⟨hstat, hblocks⟩
    exact
      { size_zero := fun s hs => (hzero s hs).mpr (hstat s hs)
        no_old_bytes := fun stack' dataId hid s hs =>
          (hdata s dataId hid).mpr (hblocks stack' dataId hid s hs) }

end Dataset

/-- A file that was created and never written, on one server. -/
def createdOnly : Cluster :=
  fun s => ((DataServer.init imssRoot).write ⟨1024, 4096⟩ (blockKey "imss://f".toList 0) 0
    ((createStat fun _ => 0).load 0 sizeofStat) fun _ => UInt8.ofNat s).2

/-- A file that was never written can be created again. -/
theorem recreatedEmpty_of_createdOnly :
    ∃ cluster', (exampleDataset 1 (by decide)).recreate ⟨1024, 4096⟩ (exampleDataset 1 (by decide))
        [] 0 (fun _ => true) ([], fun _ => 0, fun _ _ => 0) createdOnly = some cluster' ∧
      RecreatedEmpty (exampleDataset 1 (by decide)) [] cluster' := by
  obtain ⟨cluster', hrun⟩ := Option.isSome_iff_exists.mp
    (show ((exampleDataset 1 (by decide)).recreate ⟨1024, 4096⟩ (exampleDataset 1 (by decide))
      [] 0 (fun _ => true) ([], fun _ => 0, fun _ _ => 0) createdOnly).isSome from by
        decide +kernel)
  have hnew : ∀ key, (DataServer.init imssRoot).get key = none :=
    fun key => HierarchicalRecords.hierarchicalMapGet_init imssRoot key
  refine ⟨cluster', hrun, (Dataset.recreatedEmpty_iff _ rfl _ _ _ _ hrun).mpr ⟨?_, ?_⟩⟩
  · intro s _ block hblock
    right
    obtain ⟨stored, hstored, hsize⟩ := DataServer.get_write_stat_new
      (hnew (blockKey "imss://f".toList 0)) ⟨1024, 4096⟩ (createStat fun _ => 0)
      fun _ => UInt8.ofNat s
    obtain rfl : stored = block := Option.some.inj (hstored.symm.trans hblock)
    rw [hsize, stSize_createStat]
  · intro stack' dataId hid s _
    right
    have hkey : blockKey "imss://f".toList 0 ≠ blockKey "imss://f".toList dataId := by
      simp [Ne.symm hid]
    exact (DataServer.get_write_of_ne hkey _ _ _ _ _).trans (hnew _)

/-- The calls of a file that is created, written with one byte and closed. -/
def writtenCalls : List SetCall :=
  exampleCalls ++
    [{ stack := [], dataId := 0, offset := 0,
       data := (setStSize (createStat fun _ => 0) 1).load 0 sizeofStat, fresh := fun _ _ => 0,
       data_ne := by decide }]

/-- The file is written, unlinked and created again, with a pass of the garbage
collector in between or without one. -/
def recreateWritten (ran : Bool) : Option Cluster :=
  ((exampleDataset 1 (by decide)).setAll ⟨1024, 4096⟩ writtenCalls
      fun _ => DataServer.init imssRoot).bind
    ((exampleDataset 1 (by decide)).recreate ⟨1024, 4096⟩ (exampleDataset 1 (by decide)) [] 0
      (fun _ => ran) ([], fun _ => 0, fun _ _ => 0))

theorem recreateWritten_keeps (ran : Bool) :
    ∃ cluster', recreateWritten ran = some cluster' ∧
      (∃ block, (cluster' 0).get (blockKey "imss://f".toList 0) = some block ∧
        stSize block.data = 1) ∧
      (cluster' 0).read (blockKey "imss://f".toList 1) 0 1 = some [7] := by
  have hrun : ((recreateWritten ran).map fun cluster' =>
      (((cluster' 0).get (blockKey "imss://f".toList 0)).map fun block => stSize block.data,
        (cluster' 0).read (blockKey "imss://f".toList 1) 0 1)) = some (some 1, some [7]) := by
    cases ran <;> decide +kernel
  obtain ⟨cluster', hrecreate, hfound⟩ := Option.map_eq_some_iff.mp hrun
  obtain ⟨hsize, hread⟩ := Prod.mk.inj hfound
  exact ⟨cluster', hrecreate, Option.map_eq_some_iff.mp hsize, hread⟩

/-- The record of an empty file claims no bytes. -/
theorem RecreatedEmpty.stSize_eq_zero {nStorages : Nat} {dataset : Dataset nStorages}
    {stack : CString} {cluster : Cluster} (hempty : RecreatedEmpty dataset stack cluster) {s : Nat}
    (hs : s ∈ dataset.targets stack 0) {block : Block}
    (hblock : (cluster s).get (blockKey dataset.uri.1 0) = some block) : stSize block.data = 0 := by
  obtain ⟨stored, hstored, hzero⟩ := hempty.size_zero s hs
  rw [hblock, Option.some.injEq] at hstored
  rw [hstored, hzero]

/-- The old byte is still there, with a pass in between and without one. -/
theorem not_recreatedEmpty_written :
    (∃ cluster', recreateWritten false = some cluster' ∧
      (cluster' 0).read (blockKey "imss://f".toList 1) 0 1 = some [7] ∧
      ¬ RecreatedEmpty (exampleDataset 1 (by decide)) [] cluster') ∧
    ∃ cluster', recreateWritten true = some cluster' ∧
      (cluster' 0).read (blockKey "imss://f".toList 1) 0 1 = some [7] ∧
      ¬ RecreatedEmpty (exampleDataset 1 (by decide)) [] cluster' := by
  constructor
  all_goals
    obtain ⟨cluster', hrun, ⟨block, hblock, hsize⟩, hread⟩ := recreateWritten_keeps _
    refine ⟨cluster', hrun, hread, fun hempty => ?_⟩
    have hzero := hempty.stSize_eq_zero (by decide +kernel : 0 ∈ _) hblock
    rw [hsize] at hzero
    cases hzero

end Hercules
