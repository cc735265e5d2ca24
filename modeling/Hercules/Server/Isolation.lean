/-
# What a file's bytes depend on

The abstract view of one file on a data server is a `FileState`: which of its
blocks are stored, which of their bytes have been written since, and how often
the file waits for collection. It moves with the requests for that file and with
the collector passes, and with nothing else. A server represents the abstract
files as long as names are free of `$`; where an abstract byte is known the server
has that byte. Nothing is known of bytes that were never written: there the
buffer shows what it held before, possibly for another file.
-/

import Mathlib.Tactic.IntervalCases
import Hercules.Server.Data

namespace Hercules

open Std Lib Lib.Text

/-- The requests of clients and collector that change a data server. -/
inductive Request
  | write (uri : FileUri) (block : Int) (offset : Nat) (data : List UInt8) (fresh : Memory)
  | delete (uri : FileUri)
  | unlink (uri : FileUri) (numOpened : Nat)
  | clean

namespace Request

variable (config : ServerConfig)

/-- The handler of a request; `none` if the server ends. -/
def step (server : DataServer) : Request → Option DataServer
  | .write uri block offset data fresh =>
      some (server.write config (blockKey uri.1 block) offset data fresh).2
  | .delete uri => some (server.delete uri.1).2
  | .unlink uri numOpened => (server.unlink (blockKey uri.1 0) numOpened).map Prod.snd
  | .clean => some (server.cleanGarbageCollector config)

/-- A sequence of requests. -/
def run (server : DataServer) : List Request → Option DataServer
  | [] => some server
  | request :: requests => (request.step config server).bind fun server' => run server' requests

/-- The file that a request names; a collector pass names none. -/
def uri? : Request → Option FileUri
  | .write uri _ _ _ _ => some uri
  | .delete uri => some uri
  | .unlink uri _ => some uri
  | .clean => none

/-- The requests that a file's state may depend on. -/
def concerns (uri : FileUri) (request : Request) : Bool :=
  request.uri?.all (· = uri)

end Request

/-- One file as its own requests define it. -/
structure FileState where
  blocks : Int → Option (Nat → Option UInt8)
  pending : Nat

namespace FileState

/-- A file that was never written. -/
def empty : FileState :=
  ⟨fun _ => none, 0⟩

/-- The bytes of a block that are known before a write. -/
def known (file : FileState) (block : Int) : Nat → Option UInt8 :=
  (file.blocks block).getD fun _ => none

/-- A request for this file, or a collector pass. A write to a stored block 0
takes the file out of the garbage collector once. -/
def step (file : FileState) : Request → FileState
  | .write _ block offset data _ =>
      { blocks := fun b => if b = block then some (Memory.overlay (file.known block) offset data)
          else file.blocks b
        pending := if block = 0 ∧ (file.blocks 0).isSome then file.pending - 1
          else file.pending }
  | .delete _ => { file with pending := file.pending + 1 }
  | .unlink _ _ => file
  | .clean => if file.pending = 0 then file else empty

/-- The state of a file after a run: other files' requests are skipped. -/
def ofRun (uri : FileUri) (requests : List Request) : FileState :=
  (requests.filter (Request.concerns uri)).foldl step empty

/-- What a read should return: the written bytes, and zero where nothing was
written. -/
def read (config : ServerConfig) (file : FileState) (block : Int) (offset toRead : Nat) :
    Option (List UInt8) :=
  (file.blocks block).map fun written =>
    (List.range (if toRead = 0 then config.blockSize else toRead)).map fun i =>
      (written (offset + i)).getD 0

/-- All requested bytes have been written since the block was created. -/
def Covers (config : ServerConfig) (file : FileState) (block : Int) (offset toRead : Nat) : Prop :=
  ∀ written, file.blocks block = some written →
    ∀ i, i < (if toRead = 0 then config.blockSize else toRead) → (written (offset + i)).isSome

end FileState

/-- The requests under which files do not disturb each other: names are free of
`$`, a message stays inside its block (for block 0 it is one stat record), and only
files of which the server holds a block are deleted. -/
def Request.Orderly (config : ServerConfig) (file : FileUri → FileState) : Request → Prop
  | .write uri block offset data _ =>
      '$' ∉ uri.1 ∧ data ≠ [] ∧
        if block = 0 then offset = 0 ∧ data.length = sizeofStat
        else offset + data.length ≤ config.blockSize
  | .delete uri => '$' ∉ uri.1 ∧ ∃ block, ((file uri).blocks block).isSome
  | .unlink uri _ => '$' ∉ uri.1
  | .clean => True

/-- Every request of a run is orderly when its turn comes. -/
def OrderlyRun (config : ServerConfig) (requests : List Request) : Prop :=
  ∀ before request after, requests = before ++ request :: after →
    request.Orderly config fun uri => FileState.ofRun uri before

/-- The server holds the abstract file. -/
structure Represents (config : ServerConfig) (server : DataServer) (uri : FileUri)
    (file : FileState) : Prop where
  present : ∀ block, (server.get (blockKey uri.1 block)).isSome = (file.blocks block).isSome
  size : ∀ block stored, block ≠ 0 → server.get (blockKey uri.1 block) = some stored →
    stored.size = config.blockSize
  bytes : ∀ block stored written i value, block ≠ 0 →
    server.get (blockKey uri.1 block) = some stored → file.blocks block = some written →
      written i = some value → stored.data i = value
  pending : (server.store.garbageOf (findLastParentDir uri.1)).count uri.1 = file.pending

/-! ## One request -/

section Step

variable {config : ServerConfig} {server server' : DataServer} {uri other : FileUri}
  {file : FileState}

/-- A request that leaves the file's blocks and its garbage entries alone. -/
theorem Represents.frame (hrep : Represents config server uri file)
    (hget : ∀ block, server'.get (blockKey uri.1 block) = server.get (blockKey uri.1 block))
    (hcount : (server'.store.garbageOf (findLastParentDir uri.1)).count uri.1 =
      (server.store.garbageOf (findLastParentDir uri.1)).count uri.1) :
    Represents config server' uri file where
  present block := by rw [hget, hrep.present]
  size block stored hblock hstored := hrep.size block stored hblock (hget block ▸ hstored)
  bytes block stored written i value hblock hstored :=
    hrep.bytes block stored written i value hblock (hget block ▸ hstored)
  pending := hcount.trans hrep.pending

/-- The garbage entries of a file after a write, its own or another's. -/
theorem count_garbageOf_write {data : List UInt8} (hdata : data ≠ []) (hother : '$' ∉ other.1)
    (config : ServerConfig) (server : DataServer) (block : Int) (offset : Nat) (fresh : Memory) :
    ((server.write config (blockKey other.1 block) offset data fresh).2.store.garbageOf
        (findLastParentDir uri.1)).count uri.1 =
      if other = uri ∧ block = 0 ∧ (server.get (blockKey uri.1 0)).isSome then
        (server.store.garbageOf (findLastParentDir uri.1)).count uri.1 - 1
      else (server.store.garbageOf (findLastParentDir uri.1)).count uri.1 := by
  rw [DataServer.garbageOf_write hdata, upTo_blockKey hother, isBlockZero_blockKey hother,
    findLastParentDir_blockKey other.2]
  by_cases hsame : other = uri
  · subst hsame
    by_cases hblock : block = 0
    · subst hblock
      by_cases hsome : (server.get (blockKey other.1 0)).isSome
      · simp [hsome, List.count_erase_self]
      · simp [hsome]
    · simp [hblock]
  · have hne : uri.1 ≠ other.1 := fun h => hsame (Subtype.ext h.symm)
    split
    · rw [if_neg fun h => hsame h.1, List.count_erase_of_ne hne]
    · rw [if_neg fun h => hsame h.1]

theorem Represents.write_other (hrep : Represents config server uri file) (hne : other ≠ uri)
    (hother : '$' ∉ other.1) {data : List UInt8} (hdata : data ≠ []) (block : Int) (offset : Nat)
    (fresh : Memory) :
    Represents config
      (server.write config (blockKey other.1 block) offset data fresh).2 uri file := by
  apply hrep.frame
  · intro block'
    apply DataServer.get_write_of_ne
    intro hkey
    exact hne (Subtype.ext (blockKey_inj.mp hkey).1)
  · rw [count_garbageOf_write hdata hother, if_neg fun h => hne h.1]

/-- A data block after a write: the data over a buffer that has the known bytes. -/
theorem Represents.get_write (hrep : Represents config server uri file) (huri : '$' ∉ uri.1)
    {data : List UInt8} (hdata : data ≠ []) {block : Int} (hblock : block ≠ 0) (offset : Nat)
    (fresh : Memory) :
    ∃ buffer : Memory,
      (server.write config (blockKey uri.1 block) offset data fresh).2.get (blockKey uri.1 block) =
        some ⟨buffer.store offset data, config.blockSize⟩ ∧
      ∀ i value, file.known block i = some value → buffer i = value := by
  have hzero : isBlockZero (blockKey uri.1 block) = false := by
    rw [isBlockZero_blockKey huri, decide_eq_false hblock]
  obtain ⟨buffer, size, hget, hsize, hbuffer⟩ :=
    DataServer.get_write_data hzero hdata config server offset fresh
  have hstored : ∀ stored, server.get (blockKey uri.1 block) = some stored →
      stored.size = config.blockSize := fun stored => hrep.size block stored hblock
  refine ⟨buffer, hsize hstored ▸ hget, fun i value h => ?_⟩
  cases hblocks : file.blocks block with
  | none => simp [FileState.known, hblocks] at h
  | some written =>
      have hpresent := hrep.present block
      rw [hblocks, Option.isSome_some, Option.isSome_iff_exists] at hpresent
      obtain ⟨stored, hold⟩ := hpresent
      rw [hbuffer stored hold]
      refine hrep.bytes block stored written i value hblock hold hblocks ?_
      simpa [FileState.known, hblocks] using h

theorem Represents.write_self (hrep : Represents config server uri file) (huri : '$' ∉ uri.1)
    {data : List UInt8} (hdata : data ≠ []) (block : Int) (offset : Nat) (fresh : Memory) :
    Represents config (server.write config (blockKey uri.1 block) offset data fresh).2 uri
      (file.step (.write uri block offset data fresh)) := by
  have hothers : ∀ block', block' ≠ block →
      (server.write config (blockKey uri.1 block) offset data fresh).2.get (blockKey uri.1 block') =
        server.get (blockKey uri.1 block') := fun block' hne =>
    DataServer.get_write_of_ne (fun h => hne (blockKey_inj.mp h).2.symm) _ _ _ _ _
  constructor
  case present =>
    intro block'
    by_cases hne : block' = block
    · subst hne
      simp [FileState.step, DataServer.isSome_get_write hdata]
    · rw [hothers block' hne, hrep.present]
      simp [FileState.step, hne]
  case size =>
    intro block' stored hblock hstored
    by_cases hne : block' = block
    · subst hne
      obtain ⟨buffer, hget, -⟩ := hrep.get_write huri hdata hblock offset fresh
      rw [hget, Option.some.injEq] at hstored
      rw [← hstored]
    · exact hrep.size block' stored hblock (hothers block' hne ▸ hstored)
  case bytes =>
    intro block' stored written i value hblock hstored hblocks hvalue
    by_cases hne : block' = block
    · subst hne
      obtain ⟨buffer, hget, hknown⟩ := hrep.get_write huri hdata hblock offset fresh
      rw [hget, Option.some.injEq] at hstored
      simp only [FileState.step, if_true, Option.some.injEq] at hblocks
      rw [← hstored]
      rw [← hblocks] at hvalue
      exact Memory.store_of_overlay (hknown i) hvalue
    · simp only [FileState.step, hne, if_false] at hblocks
      exact hrep.bytes block' stored written i value hblock (hothers block' hne ▸ hstored) hblocks
        hvalue
  case pending =>
    rw [count_garbageOf_write hdata huri, hrep.pending, FileState.step, hrep.present]
    simp

theorem Represents.delete_other (hrep : Represents config server uri file) (hne : other ≠ uri) :
    Represents config (server.delete other.1).2 uri file := by
  apply hrep.frame
  · intro block
    exact DataServer.get_delete _ _ _
  · have hname : other.1 ≠ uri.1 := fun h => hne (Subtype.ext h)
    rw [DataServer.delete, HierarchicalRecords.garbageOf_putInGarbageCollector]
    split
    · rw [List.count_append, List.count_singleton, if_neg (by simpa using hname), Nat.add_zero]
    · rfl

theorem Represents.delete_self (hrep : Represents config server uri file)
    (hpresent : ∃ block, (file.blocks block).isSome) :
    Represents config (server.delete uri.1).2 uri (file.step (.delete uri)) := by
  obtain ⟨block, hblock⟩ := hpresent
  have hdir : (server.store.getDirUnsafe (findLastParentDir uri.1)).isSome := by
    rw [← findLastParentDir_blockKey uri.2 block]
    apply HierarchicalRecords.isSome_getDirUnsafe_of_get
    rwa [← DataServer.get, hrep.present]
  have hget : ∀ block, (server.delete uri.1).2.get (blockKey uri.1 block) =
      server.get (blockKey uri.1 block) := fun block => DataServer.get_delete _ _ _
  constructor
  case present =>
    intro block'
    rw [hget, hrep.present]
    rfl
  case size =>
    intro block' stored hne hstored
    exact hrep.size block' stored hne (hget block' ▸ hstored)
  case bytes =>
    intro block' stored written i value hne hstored hblocks
    exact hrep.bytes block' stored written i value hne (hget block' ▸ hstored) hblocks
  case pending =>
    rw [DataServer.delete, HierarchicalRecords.garbageOf_putInGarbageCollector,
      if_pos ⟨rfl, hdir⟩, List.count_append, hrep.pending, List.count_singleton_self]
    rfl

/-- An unlink changes link counts only; the entry it leaves in the garbage
collector has a block number and matches no file. -/
theorem Represents.unlink (hrep : Represents config server uri file) (huri : '$' ∉ uri.1)
    {numOpened : Nat} {reply : Reply}
    (hunlink : server.unlink (blockKey other.1 0) numOpened = some (reply, server')) :
    Represents config server' uri file := by
  obtain ⟨old, links, hold, hstore⟩ := DataServer.unlink_cases hunlink
  have hget : ∀ key, server'.get key = (server.store.update (blockKey other.1 0)
      { old with data := setStNlink old.data links }).hierarchicalMapGet key := by
    intro key
    rcases hstore with hstore | hstore
    · rw [DataServer.get, hstore]
    · rw [DataServer.get, hstore, HierarchicalRecords.hierarchicalMapGet_putInGarbageCollector]
  have hother : ∀ block, blockKey other.1 0 ≠ blockKey uri.1 block →
      server'.get (blockKey uri.1 block) = server.get (blockKey uri.1 block) := by
    intro block hne
    rw [hget, HierarchicalRecords.hierarchicalMapGet_update_of_ne _ hne, DataServer.get]
  have hdata : ∀ block, block ≠ 0 →
      server'.get (blockKey uri.1 block) = server.get (blockKey uri.1 block) :=
    fun block hblock => hother block fun h => hblock (blockKey_inj.mp h).2.symm
  constructor
  case present =>
    intro block
    by_cases hkey : blockKey other.1 0 = blockKey uri.1 block
    · rw [← hrep.present, hget, ← hkey, hold]
      rw [HierarchicalRecords.hierarchicalMapGet_update_self (by
        rw [← DataServer.get, hold]
        rfl)]
      rfl
    · rw [hother block hkey, hrep.present]
  case size =>
    intro block stored hblock hstored
    exact hrep.size block stored hblock (hdata block hblock ▸ hstored)
  case bytes =>
    intro block stored written i value hblock hstored hblocks
    exact hrep.bytes block stored written i value hblock (hdata block hblock ▸ hstored) hblocks
  case pending =>
    have hname : blockKey other.1 0 ≠ uri.1 := by
      intro h
      exact huri (h ▸ dollar_mem_blockKey other.1 0)
    rcases hstore with hstore | hstore
    · rw [hstore, HierarchicalRecords.garbageOf_update, hrep.pending]
    · rw [hstore, HierarchicalRecords.garbageOf_putInGarbageCollector,
        HierarchicalRecords.garbageOf_update]
      split
      · rw [List.count_append, List.count_singleton, if_neg (by simpa using hname), Nat.add_zero,
          hrep.pending]
      · exact hrep.pending

theorem Represents.clean (hrep : Represents config server uri file) (huri : '$' ∉ uri.1) :
    Represents config (server.cleanGarbageCollector config) uri (file.step .clean) := by
  have hwaits : uri.1 ∈ server.store.garbageOf (findLastParentDir uri.1) ↔ file.pending ≠ 0 := by
    rw [← List.count_pos_iff, hrep.pending, Nat.pos_iff_ne_zero]
  have hget : ∀ block, (server.cleanGarbageCollector config).get (blockKey uri.1 block) =
      if file.pending ≠ 0 then none else server.get (blockKey uri.1 block) := by
    intro block
    rw [DataServer.get_cleanGarbageCollector, upTo_blockKey huri,
      findLastParentDir_blockKey uri.2]
    simp only [hwaits]
  have hempty : ((server.cleanGarbageCollector config).store.garbageOf
      (findLastParentDir uri.1)).count uri.1 = 0 := by
    rw [DataServer.store_cleanGarbageCollector,
      HierarchicalRecords.garbageOf_cleanGarbageCollector, List.count_nil]
  by_cases hpending : file.pending = 0
  · rw [FileState.step, if_pos hpending]
    refine hrep.frame (fun block => ?_) (hempty.trans ?_)
    · rw [hget, if_neg (not_not.mpr hpending)]
    · rw [hrep.pending, hpending]
  · rw [FileState.step, if_neg hpending]
    constructor
    case present =>
      intro block
      rw [hget, if_pos hpending]
      rfl
    case size =>
      intro block stored _ hstored
      rw [hget, if_pos hpending] at hstored
      cases hstored
    case bytes =>
      intro block stored _ _ _ _ hstored
      rw [hget, if_pos hpending] at hstored
      cases hstored
    case pending => exact hempty

/-- One orderly request moves every abstract file as that file's own state says. -/
theorem Represents.step (files : FileUri → FileState) {request : Request}
    (hrep : Represents config server uri (files uri)) (huri : '$' ∉ uri.1)
    (hrequest : request.Orderly config files) (hstep : request.step config server = some server') :
    Represents config server' uri
      (if request.concerns uri then (files uri).step request else files uri) := by
  cases request with
  | write other block offset data fresh =>
      obtain ⟨hother, hdata, -⟩ := hrequest
      cases hstep
      by_cases hsame : other = uri
      · subst hsame
        simpa [Request.concerns, Request.uri?] using hrep.write_self hother hdata block offset fresh
      · simpa [Request.concerns, Request.uri?, hsame] using
          hrep.write_other hsame hother hdata block offset fresh
  | delete other =>
      obtain ⟨-, hpresent⟩ := hrequest
      cases hstep
      by_cases hsame : other = uri
      · subst hsame
        simpa [Request.concerns, Request.uri?] using hrep.delete_self hpresent
      · simpa [Request.concerns, Request.uri?, hsame] using hrep.delete_other hsame
  | unlink other numOpened =>
      rw [Request.step, Option.map_eq_some_iff] at hstep
      obtain ⟨⟨reply, server''⟩, hunlink, rfl⟩ := hstep
      simpa [FileState.step] using hrep.unlink huri hunlink
  | clean =>
      cases hstep
      simpa [Request.concerns, Request.uri?] using hrep.clean huri

end Step

/-! ## Whole runs -/

section Run

variable {config : ServerConfig} {uri : FileUri} {requests : List Request} {request : Request}

theorem Request.run_append_singleton (server : DataServer) (requests : List Request)
    (request : Request) :
    Request.run config server (requests ++ [request]) =
      (Request.run config server requests).bind (request.step config) := by
  induction requests generalizing server with
  | nil =>
      show (request.step config server).bind some = request.step config server
      cases request.step config server <;> rfl
  | cons first requests ih =>
      show (first.step config server).bind _ = ((first.step config server).bind _).bind _
      rw [Option.bind_assoc]
      congr
      funext server'
      exact ih server'

theorem FileState.ofRun_append_singleton (uri : FileUri) (requests : List Request)
    (request : Request) :
    FileState.ofRun uri (requests ++ [request]) =
      if request.concerns uri then (FileState.ofRun uri requests).step request
      else FileState.ofRun uri requests := by
  rw [FileState.ofRun, List.filter_append, List.foldl_append]
  cases hconcerns : request.concerns uri <;> simp [hconcerns, FileState.ofRun]

theorem OrderlyRun.of_append (horderly : OrderlyRun config (requests ++ [request])) :
    OrderlyRun config requests := by
  intro before req after heq
  exact horderly before req (after ++ [request]) (by rw [heq]; simp)

theorem orderlyRun_nil (config : ServerConfig) : OrderlyRun config [] := by
  intro before request after heq
  simp at heq

theorem OrderlyRun.append_singleton (horderly : OrderlyRun config requests)
    (hrequest : request.Orderly config fun uri => FileState.ofRun uri requests) :
    OrderlyRun config (requests ++ [request]) := by
  intro before other after heq
  rcases List.eq_nil_or_concat after with rfl | ⟨after, last, rfl⟩
  · obtain ⟨rfl, hlast⟩ := List.append_inj' heq rfl
    cases hlast
    exact hrequest
  · rw [List.concat_eq_append, ← List.cons_append, ← List.append_assoc] at heq
    exact horderly before other after (List.append_inj' heq rfl).1

theorem represents_init (config : ServerConfig) (root : CString) (uri : FileUri) :
    Represents config (DataServer.init root) uri FileState.empty where
  present block := by simp [DataServer.get, DataServer.init, FileState.empty]
  size block stored _ hstored := by simp [DataServer.get, DataServer.init] at hstored
  bytes block stored _ _ _ _ hstored := by simp [DataServer.get, DataServer.init] at hstored
  pending := by simp [DataServer.init, FileState.empty]

/-- After an orderly run the server holds every file as its own requests left it. -/
theorem represents_run {root : CString} (huri : '$' ∉ uri.1) :
    ∀ {requests : List Request} {server : DataServer}, OrderlyRun config requests →
      Request.run config (DataServer.init root) requests = some server →
        Represents config server uri (FileState.ofRun uri requests) := by
  intro requests
  induction requests using List.reverseRecOn with
  | nil =>
      intro server _ hrun
      cases hrun
      exact represents_init config root uri
  | append_singleton requests request ih =>
      intro server horderly hrun
      rw [Request.run_append_singleton, Option.bind_eq_some_iff] at hrun
      obtain ⟨previous, hprevious, hstep⟩ := hrun
      rw [FileState.ofRun_append_singleton]
      exact Represents.step (fun uri => FileState.ofRun uri requests)
        (ih horderly.of_append hprevious) huri (horderly requests request [] (by simp)) hstep

/-- A represented block is read as it was written, where it was written. -/
theorem Represents.read {server : DataServer} {file : FileState}
    (hrep : Represents config server uri file) {block : Int} (hblock : block ≠ 0)
    {offset toRead : Nat} (hcovers : file.Covers config block offset toRead) :
    server.read (blockKey uri.1 block) offset toRead = file.read config block offset toRead := by
  have hpresent := hrep.present block
  rw [DataServer.read, FileState.read]
  cases hget : server.get (blockKey uri.1 block) with
  | none =>
      cases hblocks : file.blocks block with
      | none => rfl
      | some written => simp [hget, hblocks] at hpresent
  | some stored =>
      cases hblocks : file.blocks block with
      | none => simp [hget, hblocks] at hpresent
      | some written =>
          rw [Option.map_some, Option.map_some, hrep.size block stored hblock hget,
            Memory.load]
          congr 1
          apply List.map_congr_left
          intro i hi
          obtain ⟨value, hvalue⟩ :=
            Option.isSome_iff_exists.mp (hcovers written hblocks i (List.mem_range.mp hi))
          rw [hrep.bytes block stored written _ value hblock hget hblocks hvalue, hvalue]
          rfl

/-- A request without the contents that the allocator happened to return. -/
def Request.withoutFresh : Request → Request
  | .write uri block offset data _ => .write uri block offset data fun _ => 0
  | request => request

/-- The requests that a file's contents may depend on. -/
def Request.projection (uri : FileUri) (requests : List Request) : List Request :=
  (requests.filter (Request.concerns uri)).map Request.withoutFresh

theorem FileState.step_withoutFresh (file : FileState) (request : Request) :
    file.step request.withoutFresh = file.step request := by
  cases request <;> rfl

/-- A file's state depends on its projection only. -/
theorem FileState.ofRun_eq_of_projection_eq {requests' : List Request}
    (h : Request.projection uri requests = Request.projection uri requests') :
    FileState.ofRun uri requests = FileState.ofRun uri requests' := by
  have hfold : ∀ requests : List Request, FileState.ofRun uri requests =
      (Request.projection uri requests).foldl FileState.step FileState.empty := by
    intro requests
    rw [FileState.ofRun, Request.projection, List.foldl_map]
    congr
    funext file request
    exact (FileState.step_withoutFresh file request).symm
  rw [hfold, hfold, h]

end Run

/-- In an orderly run every read that asks for written bytes only returns the
file's own bytes, and so does every other run with the same requests for the file. -/
theorem read_depends_on_own_writes {config : ServerConfig} {root : CString}
    {requests : List Request} {server : DataServer} (horderly : OrderlyRun config requests)
    (hrun : Request.run config (DataServer.init root) requests = some server) {uri : FileUri}
    (huri : '$' ∉ uri.1) {block : Int} (hblock : block ≠ 0) {offset toRead : Nat}
    (hcovers : (FileState.ofRun uri requests).Covers config block offset toRead) :
    server.read (blockKey uri.1 block) offset toRead =
        (FileState.ofRun uri requests).read config block offset toRead ∧
      ∀ requests' server', OrderlyRun config requests' →
        Request.run config (DataServer.init root) requests' = some server' →
        Request.projection uri requests = Request.projection uri requests' →
          server'.read (blockKey uri.1 block) offset toRead =
            server.read (blockKey uri.1 block) offset toRead := by
  have hread := (represents_run huri horderly hrun).read hblock hcovers
  refine ⟨hread, fun requests' server' horderly' hrun' hsame => ?_⟩
  have hfile := FileState.ofRun_eq_of_projection_eq hsame
  rw [hread, hfile]
  exact (represents_run huri horderly' hrun').read hblock (hfile ▸ hcovers)

/-- The buffer of a file that was deleted and collected is reused for another one, whose block is
written in two parts. -/
def reuseRun (bytes : List UInt8) : List Request :=
  [.write exampleOther 1 0 bytes fun _ => 0, .write exampleFile 2 0 [5] fun _ => 7,
    .delete exampleOther, .clean, .write exampleFile 1 2 [3, 4] fun _ => 7,
    .write exampleFile 1 0 [1, 2] fun _ => 7]

theorem orderlyRun_reuseRun {bytes : List UInt8} (hne : bytes ≠ []) (hlength : bytes.length ≤ 4) :
    OrderlyRun ⟨4, 100⟩ (reuseRun bytes) := by
  have hother : OrderlyRun ⟨4, 100⟩ ((reuseRun bytes).take 1) :=
    (orderlyRun_nil _).append_singleton ⟨by decide, hne, by simpa using hlength⟩
  have hsecond : OrderlyRun ⟨4, 100⟩ ((reuseRun bytes).take 2) :=
    hother.append_singleton ⟨by decide, by decide, by decide⟩
  have hdelete : OrderlyRun ⟨4, 100⟩ ((reuseRun bytes).take 3) :=
    hsecond.append_singleton ⟨by decide, 1, rfl⟩
  have hclean : OrderlyRun ⟨4, 100⟩ ((reuseRun bytes).take 4) :=
    hdelete.append_singleton trivial
  have hright : OrderlyRun ⟨4, 100⟩ ((reuseRun bytes).take 5) :=
    hclean.append_singleton ⟨by decide, by decide, by decide⟩
  exact hright.append_singleton ⟨by decide, by decide, by decide⟩

/-- Two runs that differ in what was written to the deleted file. The block is in its buffer, and
the bytes are its own in both. -/
theorem read_depends_on_own_writes_reuse :
    ∃ server server',
      Request.run ⟨4, 100⟩ (DataServer.init imssRoot) (reuseRun [9, 9, 9, 9]) = some server ∧
        Request.run ⟨4, 100⟩ (DataServer.init imssRoot) (reuseRun [8, 0, 8]) = some server' ∧
        server.read (blockKey exampleFile.1 1) 0 4 = some [1, 2, 3, 4] ∧
        server'.read (blockKey exampleFile.1 1) 0 4 =
          server.read (blockKey exampleFile.1 1) 0 4 := by
  have hruns : ∀ bytes, ∃ server,
      Request.run ⟨4, 100⟩ (DataServer.init imssRoot) (reuseRun bytes) = some server :=
    fun bytes => ⟨_, rfl⟩
  obtain ⟨server, hrun⟩ := hruns [9, 9, 9, 9]
  obtain ⟨server', hrun'⟩ := hruns [8, 0, 8]
  have hcovers : (FileState.ofRun exampleFile (reuseRun [9, 9, 9, 9])).Covers ⟨4, 100⟩ 1 0 4 := by
    intro written hwritten i hi
    cases hwritten
    have hi' : i < 4 := hi
    interval_cases i <;> decide
  obtain ⟨hread, hother⟩ := read_depends_on_own_writes
    (orderlyRun_reuseRun (List.cons_ne_nil _ _) (by decide)) hrun (by decide) (by decide) hcovers
  refine ⟨server, server', hrun, hrun', ?_, ?_⟩
  · rw [hread]
    decide
  · exact hother _ _ (orderlyRun_reuseRun (List.cons_ne_nil _ _) (by decide)) hrun' rfl

/-- One file is written, deleted and collected; another is written at both ends of
a block. -/
def staleRun (bytes : List UInt8) : List Request :=
  [.write exampleOther 1 0 bytes fun _ => 0, .delete exampleOther, .clean,
    .write exampleFile 1 0 [9] fun _ => 0, .write exampleFile 1 3 [9] fun _ => 0]

/-- The first file's bytes show up in the second one: bytes that were never written
are not zero, and they change with what the first file held. -/
theorem stale_bytes_of_other_file :
    ((Request.run ⟨4, 100⟩ (DataServer.init imssRoot) (staleRun [1, 2, 3, 4])).bind
        fun server => server.read (blockKey exampleFile.1 1) 0 4) = some [9, 2, 3, 9] ∧
      ((Request.run ⟨4, 100⟩ (DataServer.init imssRoot) (staleRun [1, 5, 6, 4])).bind
        fun server => server.read (blockKey exampleFile.1 1) 0 4) = some [9, 5, 6, 9] ∧
      (FileState.ofRun exampleFile (staleRun [1, 2, 3, 4])).read ⟨4, 100⟩ 1 0 4 =
        some [9, 0, 0, 9] ∧
      (FileState.ofRun exampleFile (staleRun [1, 5, 6, 4])).read ⟨4, 100⟩ 1 0 4 =
        some [9, 0, 0, 9] := by
  decide +kernel

end Hercules
