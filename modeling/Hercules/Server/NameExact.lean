/-
# Names with a `$`

A key of a data server is the name of a file, a `$` and the number of a block. The pair
can be read from the last `$` of the key. The server looks for the first one: deletions
and collections cut the key there, and block 0 is recognised by a `$0` anywhere in it.

For a name without `$` both readings agree. A file whose name has one is never found by
its own name, its blocks go with those of the shorter name, and all of its blocks are
taken for block 0 if the name has a `$0`.
-/

import Hercules.Server.Isolation

namespace Hercules

open Lib Lib.Text

universe u v

namespace MapRecords

variable {V : Type u}

/-- `garbage_collector_search`. -/
def garbageCollectorSearch (records : MapRecords V) (key : CString) : Int :=
  if records.garbage.contains (upTo '$' key) then 1 else 0

/-- `cleaning_specific`; no state is returned for -1. -/
def cleaningSpecific {S : Type v} (freeMemory : S → V → S) (records : MapRecords V) (pool : S)
    (newKey : CString) : Option S × MapRecords V :=
  if records.keysOfPath newKey = [] then (none, records)
  else
    let final := releasePath freeMemory (pool, records.buffer) newKey
    (some final.1, { records with buffer := final.2 })

theorem get_cleaningSpecific {S : Type v} (freeMemory : S → V → S) (records : MapRecords V)
    (pool : S) (newKey key : CString) :
    (records.cleaningSpecific freeMemory pool newKey).2.get key =
      if upTo '$' key = newKey then none else records.get key := by
  rw [cleaningSpecific]
  split
  next hnone =>
    split
    next hkey =>
      by_contra hsome
      have hmem : key ∈ records.keysOfPath newKey :=
        mem_keysOfPath.mpr ⟨Option.isSome_iff_ne_none.mpr hsome, hkey⟩
      rw [hnone] at hmem
      cases hmem
    next => rfl
  next => exact getElem?_releasePath freeMemory (pool, records.buffer) newKey key

end MapRecords

namespace HierarchicalRecords

variable {V : Type u}

/-- `HierarchicalMapSearchInGarbageCollector`. -/
def hierarchicalMapSearchInGarbageCollector (store : HierarchicalRecords V) (key : CString) : Int :=
  match store.getDirUnsafe (findLastParentDir key) with
  | none => -1
  | some records => records.garbageCollectorSearch key

end HierarchicalRecords

namespace DataServer

/-! ## Exactness -/

/-- What is to be collected in a directory once `uri` is deleted. -/
def marked (server : DataServer) (uri dir : CString) : List CString :=
  server.store.garbageOf dir ++ if findLastParentDir uri = dir then [uri] else []

/-- The block is stored. -/
def Stored (server : DataServer) (file : FileUri) (block : Int) : Prop :=
  (server.get (blockKey file.1 block)).isSome

instance (server : DataServer) (file : FileUri) (block : Int) :
    Decidable (server.Stored file block) :=
  inferInstanceAs (Decidable (_ = true))

/-- Names are used exactly when `uri` is deleted: the next collection removes the blocks of the
marked files and no others, `cleaning_specific` removes the blocks of `uri` and no others, a block
is found among the marked ones if its file is marked, and the blocks taken for block 0 are those
with number 0. -/
structure NameExact (config : ServerConfig) (server : DataServer) (uri : FileUri) : Prop where
  collected : ∀ (file : FileUri) (block : Int),
    ((server.delete uri.1).2.cleanGarbageCollector config).get (blockKey file.1 block) =
      if file.1 ∈ server.marked uri.1 (findLastParentDir file.1) then none
      else server.get (blockKey file.1 block)
  specific : ∀ records, server.store.getDirUnsafe (findLastParentDir uri.1) = some records →
    ∀ (file : FileUri) (block : Int),
      (records.cleaningSpecific (freeMemory config) (server.memPool, 0, 0) uri.1).2.get
          (blockKey file.1 block) =
        if file = uri then none else records.get (blockKey file.1 block)
  searched : ∀ (file : FileUri) (block : Int), server.Stored file block →
    (server.store.hierarchicalMapSearchInGarbageCollector (blockKey file.1 block) = 1 ↔
      file.1 ∈ server.store.garbageOf (findLastParentDir file.1))
  zero : ∀ (file : FileUri) (block : Int), server.Stored file block →
    (isBlockZero (blockKey file.1 block) = true ↔ block = 0)

/-- No stored file makes the readings of a key differ. A file with a `$` in its name: the part of
the name before it is marked if and only if the file is; it is in the map of `uri` neither as `uri`
nor as a name that begins with `uri$`; and it has only a block 0 if its name has a `$0`. -/
structure Unambiguous (server : DataServer) (uri : FileUri) : Prop where
  collected : ∀ (file : FileUri) (block : Int), server.Stored file block → '$' ∈ file.1 →
    (upTo '$' file.1 ∈ server.marked uri.1 (findLastParentDir file.1) ↔
      file.1 ∈ server.marked uri.1 (findLastParentDir file.1))
  specific : ∀ records, server.store.getDirUnsafe (findLastParentDir uri.1) = some records →
    ∀ (file : FileUri) (block : Int), (records.get (blockKey file.1 block)).isSome → '$' ∈ file.1 →
      file ≠ uri ∧ upTo '$' file.1 ≠ uri.1
  searched : ∀ (file : FileUri) (block : Int), server.Stored file block → '$' ∈ file.1 →
    (upTo '$' file.1 ∈ server.store.garbageOf (findLastParentDir file.1) ↔
      file.1 ∈ server.store.garbageOf (findLastParentDir file.1))
  zero : ∀ (file : FileUri) (block : Int), server.Stored file block → ['$', '0'] <:+: file.1 →
    block = 0

/-! ## What the server looks at -/

variable {config : ServerConfig} {server : DataServer} {uri file : FileUri} {block : Int}

/-- A collection after a deletion, for any key. -/
theorem get_collect (config : ServerConfig) (server : DataServer) (uri key : CString) :
    ((server.delete uri).2.cleanGarbageCollector config).get key =
      if upTo '$' key ∈ server.marked uri (findLastParentDir key) then none
      else server.get key := by
  rw [get, store_cleanGarbageCollector,
    HierarchicalRecords.hierarchicalMapGet_cleanGarbageCollector,
    delete, HierarchicalRecords.hierarchicalMapGet_putInGarbageCollector,
    HierarchicalRecords.garbageOf_putInGarbageCollector, marked, get]
  cases hdir : server.store.getDirUnsafe (findLastParentDir key) with
  | none =>
      have hnone : server.store.hierarchicalMapGet key = none := by
        rw [HierarchicalRecords.hierarchicalMapGet_eq, hdir, Option.bind_none]
      rw [hnone, ite_self, ite_self]
  | some records =>
      simp only [Option.isSome_some, and_true]
      split <;> simp

theorem searchInGarbageCollector_iff (hstored : server.Stored file block) :
    server.store.hierarchicalMapSearchInGarbageCollector (blockKey file.1 block) = 1 ↔
      upTo '$' file.1 ∈ server.store.garbageOf (findLastParentDir file.1) := by
  obtain ⟨records, hdir⟩ := Option.isSome_iff_exists.mp
    (HierarchicalRecords.isSome_getDirUnsafe_of_get hstored)
  have hgarbage : server.store.garbageOf (findLastParentDir file.1) = records.garbage := by
    rw [HierarchicalRecords.garbageOf, ← findLastParentDir_blockKey file.2 block, hdir]
    rfl
  rw [HierarchicalRecords.hierarchicalMapSearchInGarbageCollector, hdir, hgarbage]
  simp only [MapRecords.garbageCollectorSearch, upTo_blockKey_eq, List.contains_iff_mem]
  split
  next hmem => exact iff_of_true rfl hmem
  next hmem => exact iff_of_false (by decide) hmem

/-- Two conditions agree if they leave the same of something. -/
theorem ite_none_eq_iff {α : Type u} {p q : Prop} [Decidable p] [Decidable q] {found : Option α}
    (hfound : found.isSome) :
    ((if p then none else found) = if q then none else found) ↔ (p ↔ q) := by
  obtain ⟨value, rfl⟩ := Option.isSome_iff_exists.mp hfound
  by_cases hp : p <;> by_cases hq : q <;> simp [hp, hq]

theorem ite_none_congr {α : Type u} {p q : Prop} [Decidable p] [Decidable q] {found : Option α}
    (h : found.isSome → (p ↔ q)) :
    (if p then none else found) = if q then none else found := by
  cases found with
  | none => rw [ite_self, ite_self]
  | some value => exact (ite_none_eq_iff rfl).mpr (h rfl)

/-- For a name without `$` the cut name is the name. -/
theorem cut_iff {P : CString → Prop} (h : '$' ∈ file.1 → (P (upTo '$' file.1) ↔ P file.1)) :
    P (upTo '$' file.1) ↔ P file.1 := by
  by_cases hdollar : '$' ∈ file.1
  · exact h hdollar
  · rw [upTo_of_notMem hdollar]

/-- Names are used exactly if and only if the stored files are unambiguous. The names are
those that the server has scanned, so they are words without white space. -/
theorem nameExact_iff (config : ServerConfig) (server : DataServer) (uri : FileUri) :
    server.NameExact config uri ↔ server.Unambiguous uri := by
  have hsubtype : ∀ file : FileUri, file = uri ↔ file.1 = uri.1 := fun file => Subtype.ext_iff
  constructor
  · intro hexact
    refine ⟨?_, ?_, ?_, ?_⟩
    · intro file block hstored _
      have hcollected := hexact.collected file block
      rw [get_collect, upTo_blockKey_eq, findLastParentDir_blockKey file.2] at hcollected
      exact (ite_none_eq_iff hstored).mp hcollected
    · intro records hrecords file block hsome hdollar
      have hspecific := hexact.specific records hrecords file block
      rw [MapRecords.get_cleaningSpecific, upTo_blockKey_eq, ite_none_eq_iff hsome] at hspecific
      have hnot : upTo '$' file.1 ≠ uri.1 := by
        intro hcut
        have hfree : '$' ∉ uri.1 := hcut ▸ notMem_upTo '$' file.1
        rw [hspecific.mp hcut] at hdollar
        exact hfree hdollar
      exact ⟨fun hfile => hnot (hspecific.mpr hfile), hnot⟩
    · intro file block hstored _
      exact (searchInGarbageCollector_iff hstored).symm.trans (hexact.searched file block hstored)
    · intro file block hstored htext
      exact (hexact.zero file block hstored).mp ((isBlockZero_blockKey_iff file.1 block).mpr
        (Or.inr htext))
  · intro hnames
    refine ⟨?_, ?_, ?_, ?_⟩
    · intro file block
      rw [get_collect, upTo_blockKey_eq, findLastParentDir_blockKey file.2]
      apply ite_none_congr
      intro hstored
      exact cut_iff (P := (· ∈ server.marked uri.1 (findLastParentDir file.1)))
        (hnames.collected file block hstored)
    · intro records hrecords file block
      rw [MapRecords.get_cleaningSpecific, upTo_blockKey_eq]
      apply ite_none_congr
      intro hsome
      rw [hsubtype]
      refine cut_iff (P := (· = uri.1)) fun hdollar => ?_
      obtain ⟨hother, hcut⟩ := hnames.specific records hrecords file block hsome hdollar
      rw [Ne, hsubtype] at hother
      exact iff_of_false hcut hother
    · intro file block hstored
      rw [searchInGarbageCollector_iff hstored]
      exact cut_iff (P := (· ∈ server.store.garbageOf (findLastParentDir file.1)))
        (hnames.searched file block hstored)
    · intro file block hstored
      rw [isBlockZero_blockKey_iff]
      exact or_iff_left_of_imp (hnames.zero file block hstored)

end DataServer

/-! ## Two files -/

/-- The file `imss://f$0`. -/
def dollarFile : FileUri :=
  ⟨"imss://f$0".toList, ⟨by decide, by decide⟩⟩

/-- A server with block 1 of `imss://f` and block 1 of `imss://f$0`. -/
def dollarServer : DataServer :=
  let first := ((DataServer.init imssRoot).write ⟨4096, 2 ^ 20⟩ (blockKey exampleFile.1 1) 0 [1]
    fun _ => 0).2
  (first.write ⟨4096, 2 ^ 20⟩ (blockKey dollarFile.1 1) 0 [2] fun _ => 0).2

/-- The deletion of `imss://f` removes the block of `imss://f$0`, the deletion of `imss://f$0`
removes nothing, and block 1 of `imss://f$0` is taken for a block 0. -/
theorem not_nameExact :
    dollarServer.Stored exampleFile 1 ∧ dollarServer.Stored dollarFile 1 ∧
      ((((dollarServer.delete exampleFile.1).2.cleanGarbageCollector ⟨4096, 2 ^ 20⟩).get
        (blockKey dollarFile.1 1)).isNone ∧
          ¬ dollarServer.NameExact ⟨4096, 2 ^ 20⟩ exampleFile) ∧
      ((((dollarServer.delete dollarFile.1).2.cleanGarbageCollector ⟨4096, 2 ^ 20⟩).get
        (blockKey dollarFile.1 1)).isSome ∧
          ¬ dollarServer.NameExact ⟨4096, 2 ^ 20⟩ dollarFile) ∧
      isBlockZero (blockKey dollarFile.1 1) = true := by
  have hstored : dollarServer.Stored dollarFile 1 := by decide +kernel
  have hzero : ∀ uri, ¬ dollarServer.NameExact ⟨4096, 2 ^ 20⟩ uri := by
    intro uri hexact
    have hone := (hexact.zero dollarFile 1 hstored).mp (by decide +kernel)
    exact absurd hone (by decide)
  refine ⟨by decide +kernel, hstored, ⟨by decide +kernel, hzero exampleFile⟩,
    ⟨by decide +kernel, hzero dollarFile⟩, by decide +kernel⟩

end Hercules
