/-
# Where a renamed dataset is looked for

A client finds the metadata server of a name from the first component of its path. A
rename is sent to the server of the old name, and a later `stat_dataset` goes to the
server of the new one. The rename changes the entries of one server only, and there
only inside the map of the old name's directory.

To say that the dataset can be found we follow its record: whatever record stands
under the old name, the lookup under the new name has to return it. On the way names
are printed into the request and scanned by the server, so the names that the server
uses need not be those that the client meant.
-/

import Mathlib.Data.Fintype.EquivFin
import Hercules.RoundTrip
import Hercules.Server.Metadata

namespace Hercules

open Std Lib Lib.Text

/-! ## One server -/

section Server

variable {store : HierarchicalRecords DatasetRecord} {old new key key' : CString}
  {record value : DatasetRecord} {records : MapRecords DatasetRecord}

/-- `update_key` of the old name has an effect: the new name is another one, and free
in the map of the old name's directory. -/
def KeyMoves (store : HierarchicalRecords DatasetRecord) (old new : CString) : Prop :=
  old ≠ new ∧ ((store.getChildUnsafe old).bind (·.get new)) = none

instance : Decidable (KeyMoves store old new) :=
  inferInstanceAs (Decidable (_ ∧ _))

/-- After `old` has been renamed to `new` as a directory, a lookup of `key'` leads to what
was found under `key`. -/
def DirTracked (store : HierarchicalRecords DatasetRecord) (old new key key' : CString) : Prop :=
  findLastParentDir key' ≠ old ∧ findLastParentDir key' ≠ new ∧
    ((key' = key ∧ ¬ (key = old ∧ KeyMoves store old new)) ∨
      (key = old ∧ key' = new ∧ KeyMoves store old new ∧
        findLastParentDir new = findLastParentDir old))

/-- The maps after a directory rename, with the names that the server uses. -/
def renamedDirs (store : HierarchicalRecords DatasetRecord) (old new : CString) :
    HierarchicalRecords DatasetRecord :=
  ((store.backEndHierarchicalMapRenameDirDirMetadata DatasetRecord.setUri old new
    ).2.hierarchicalMapRenameKey old new).2

theorem getDirUnsafe_backEnd (dir : CString) (hsome : (store.getDirUnsafe old).isSome) :
    (store.backEndHierarchicalMapRenameDirDirMetadata DatasetRecord.setUri old new
      ).2.getDirUnsafe dir =
      if (store.getChildUnsafe old).isNone then store.getDirUnsafe dir
      else
        let entries := if old = dir then (store.getDirUnsafe dir).map
            (·.renameMetadataDirStatWorker DatasetRecord.setUri old new)
          else store.getDirUnsafe dir
        if findLastParentDir old = dir then entries.map fun records => (records.updateKey old new).2
        else entries := by
  have hnone : (store.getDirUnsafe old).isNone = false := by
    simpa using hsome
  rw [HierarchicalRecords.backEndHierarchicalMapRenameDirDirMetadata,
    HierarchicalRecords.renameDirDir, hnone, Bool.false_or]
  split
  · rfl
  · simp only [HierarchicalRecords.getDirUnsafe_modifyDir]

theorem isSome_getDirUnsafe_backEnd (new : CString) (hsome : (store.getDirUnsafe old).isSome) :
    ((store.backEndHierarchicalMapRenameDirDirMetadata DatasetRecord.setUri old new
      ).2.getDirUnsafe old).isSome := by
  rw [getDirUnsafe_backEnd old hsome]
  split
  · exact hsome
  · simp only [if_true]
    split <;> simpa using hsome

/-- A lookup in the map of a directory that is neither the old nor the new one. -/
theorem get_renamedDirs_of_ne (hold : findLastParentDir key ≠ old)
    (hnew : findLastParentDir key ≠ new) (hsome : (store.getDirUnsafe old).isSome) :
    (renamedDirs store old new).hierarchicalMapGet key =
      if findLastParentDir old = findLastParentDir key then
        (store.getChildUnsafe key).bind fun parent => (parent.updateKey old new).2.get key
      else store.hierarchicalMapGet key := by
  obtain ⟨moved, hmoved⟩ := Option.isSome_iff_exists.mp
    (isSome_getDirUnsafe_backEnd new hsome)
  rw [HierarchicalRecords.hierarchicalMapGet_eq, renamedDirs, getDirUnsafe_renameKey hmoved,
    if_neg (Ne.symm hold), if_neg (Ne.symm hnew), getDirUnsafe_backEnd _ hsome]
  rw [HierarchicalRecords.getChildUnsafe]
  by_cases hdir : findLastParentDir old = findLastParentDir key
  · rw [if_pos hdir, if_pos hdir, if_neg (Ne.symm hold), HierarchicalRecords.getChildUnsafe, hdir]
    cases store.getDirUnsafe (findLastParentDir key) <;> rfl
  · simp only [if_neg hdir, if_neg (Ne.symm hold), ite_self]
    rfl

/-- Nothing is found any more in the old directory. -/
theorem get_renamedDirs_old (hkey : findLastParentDir key = old)
    (hsome : (store.getDirUnsafe old).isSome) :
    (renamedDirs store old new).hierarchicalMapGet key = none := by
  obtain ⟨moved, hmoved⟩ := Option.isSome_iff_exists.mp (isSome_getDirUnsafe_backEnd new hsome)
  rw [HierarchicalRecords.hierarchicalMapGet_eq, renamedDirs, getDirUnsafe_renameKey hmoved,
    if_pos hkey.symm, Option.bind_none]

/-- What the renamed entries hold was an entry before: one that is given a new URI, or one
that stays where it is. -/
theorem exists_of_renameMetadataDirStatWorker
    (hvalue : (records.renameMetadataDirStatWorker DatasetRecord.setUri old new).get key =
      some value) :
    ∃ source entry, records.get source = some entry ∧
      ((∃ path, value = entry.setUri path) ∨
        (MapRecords.underDir ['/'] old source = false ∧ value = entry ∧ source = key)) := by
  obtain ⟨source, hsource, hstays⟩ := exists_of_moveKeys _ _ hvalue
  rw [ExtTreeMap.getElem?_map, Option.map_eq_some_iff] at hsource
  obtain ⟨entry, hentry, hnamed⟩ := hsource
  refine ⟨source, entry, hentry, ?_⟩
  cases hunder : MapRecords.underDir ['/'] old source with
  | true => exact Or.inl ⟨_, by rw [← hnamed, hunder]; rfl⟩
  | false =>
      refine Or.inr ⟨rfl, by rw [← hnamed, hunder]; rfl, hstays ?_⟩
      simp [hunder]

/-- What `update_key` leaves was there, or stood at the old key. -/
theorem get_of_updateKey (hvalue : (records.updateKey old new).2.get key = some value) :
    records.get key = some value ∨ records.get old = some value := by
  rw [MapRecords.updateKey] at hvalue
  split_ifs at hvalue
  · exact Or.inl hvalue
  · exact Or.inl hvalue
  · exact getElem?_of_moveKey hvalue
  · exact Or.inl hvalue

/-- What is found in the new directory comes from an entry of the old one: it has a new
URI, or its key is the same. -/
theorem exists_of_get_renamedDirs_new (hkey : findLastParentDir key = new) (hne : new ≠ old)
    (hvalue : (renamedDirs store old new).hierarchicalMapGet key = some value)
    (hrecords : store.getDirUnsafe old = some records) :
    ∃ source entry, records.get source = some entry ∧
      ((∃ path, value = entry.setUri path) ∨ (value = entry ∧ source = key)) := by
  have hsome : (store.getDirUnsafe old).isSome := by simp [hrecords]
  obtain ⟨moved, hmoved⟩ := Option.isSome_iff_exists.mp (isSome_getDirUnsafe_backEnd new hsome)
  rw [HierarchicalRecords.hierarchicalMapGet_eq, renamedDirs, getDirUnsafe_renameKey hmoved, hkey,
    if_neg (Ne.symm hne), if_pos rfl, Option.bind_some] at hvalue
  rw [getDirUnsafe_backEnd old hsome] at hmoved
  have hself : MapRecords.underDir ['/'] old old = true := by
    simp [MapRecords.underDir]
  split at hmoved
  · obtain rfl := Option.some.inj (hrecords.symm.trans hmoved)
    exact ⟨key, value, hvalue, Or.inr ⟨rfl, rfl⟩⟩
  simp only [if_true, hrecords, Option.map_some] at hmoved
  have hentries : ∀ key',
      (records.renameMetadataDirStatWorker DatasetRecord.setUri old new).get key' = some value →
        key' = key ∨ key' = old → ∃ source entry, records.get source = some entry ∧
          ((∃ path, value = entry.setUri path) ∨ (value = entry ∧ source = key)) := by
    intro key' hkey' hcases
    obtain ⟨source, entry, hentry, hnamed | ⟨hunder, hsame, rfl⟩⟩ :=
      exists_of_renameMetadataDirStatWorker hkey'
    · exact ⟨source, entry, hentry, Or.inl hnamed⟩
    · rcases hcases with rfl | rfl
      · exact ⟨source, entry, hentry, Or.inr ⟨hsame, rfl⟩⟩
      · rw [hself] at hunder
        cases hunder
  split at hmoved
  · obtain rfl := Option.some.inj hmoved
    rcases get_of_updateKey hvalue with hthere | hold
    · exact hentries key hthere (Or.inl rfl)
    · exact hentries old hold (Or.inr rfl)
  · obtain rfl := Option.some.inj hmoved
    exact hentries key hvalue (Or.inl rfl)

/-! ### A record that stands nowhere else -/

/-- No entry of the store has this count. -/
def FreshCount (store : HierarchicalRecords DatasetRecord) (count : Int) : Prop :=
  ∀ dir records key value, store.getDirUnsafe dir = some records → records.get key = some value →
    value.nOpen ≠ count

theorem exists_freshCount (stores : List (HierarchicalRecords DatasetRecord)) :
    ∃ count, ∀ store ∈ stores, FreshCount store count := by
  obtain ⟨count, hcount⟩ := Infinite.exists_notMem_finset
    (stores.flatMap fun store => store.hiermap.toList.flatMap fun dir =>
      dir.2.buffer.toList.map fun entry => entry.2.nOpen).toFinset
  refine ⟨count, fun store hstore dir records key value hdir hkey heq => hcount ?_⟩
  rw [List.mem_toFinset, List.mem_flatMap]
  refine ⟨store, hstore, List.mem_flatMap.mpr ⟨(dir, records), ?_, ?_⟩⟩
  · exact ExtTreeMap.mem_toList_iff_getElem?_eq_some.mpr hdir
  · exact List.mem_map.mpr
      ⟨(key, value), ExtTreeMap.mem_toList_iff_getElem?_eq_some.mpr hkey, heq⟩

theorem getDirUnsafe_update (store : HierarchicalRecords DatasetRecord) (key dir : CString)
    (record : DatasetRecord) :
    (store.update key record).getDirUnsafe dir =
      if findLastParentDir key = dir then (store.getDirUnsafe dir).map (·.update key record)
      else store.getDirUnsafe dir := by
  rw [HierarchicalRecords.update, HierarchicalRecords.getDirUnsafe_modifyDir]

theorem isSome_getDirUnsafe_update (dir : CString) :
    ((store.update key record).getDirUnsafe dir).isSome = (store.getDirUnsafe dir).isSome := by
  rw [getDirUnsafe_update]
  split
  · exact Option.isSome_map
  · rfl

/-- A record with a fresh count is found only where it was put. -/
theorem eq_of_freshCount {dir source : CString} (hfresh : FreshCount store record.nOpen)
    (hdir : (store.update key record).getDirUnsafe dir = some records)
    (hsource : records.get source = some value) (hcount : value.nOpen = record.nOpen) :
    findLastParentDir key = dir ∧ source = key := by
  rw [getDirUnsafe_update] at hdir
  split at hdir
  next hparent =>
    obtain ⟨before, hbefore, rfl⟩ := Option.map_eq_some_iff.mp hdir
    refine ⟨hparent, ?_⟩
    by_contra hne
    rw [MapRecords.get_update_of_ne (Ne.symm hne)] at hsource
    exact hfresh dir before source value hbefore hsource hcount
  next => exact absurd hcount (hfresh dir records source value hdir hsource)

theorem eq_of_freshCount_get (hfresh : FreshCount store record.nOpen)
    (hfound : (store.update key record).hierarchicalMapGet key' = some value)
    (hcount : value.nOpen = record.nOpen) : key' = key := by
  rw [HierarchicalRecords.hierarchicalMapGet_eq] at hfound
  obtain ⟨records, hrecords, hvalue⟩ := Option.bind_eq_some_iff.mp hfound
  exact (eq_of_freshCount hfresh hrecords hvalue hcount).2

/-- A name that is taken, or the same, is not moved to. -/
theorem updateKey_of_not_moves (h : old = new ∨ (records.get new).isSome) :
    (records.updateKey old new).2 = records := by
  rcases h with rfl | htaken
  · rw [MapRecords.updateKey]
    split_ifs <;> rfl
  · exact MapRecords.updateKey_taken htaken

/-- The directory of the stored key, before and after its record is replaced. -/
theorem exists_parent_of_stored (hstored : (store.hierarchicalMapGet key).isSome) :
    ∃ parent, store.getDirUnsafe (findLastParentDir key) = some parent ∧
      (parent.get key).isSome := by
  rw [HierarchicalRecords.hierarchicalMapGet_eq] at hstored
  cases hparent : store.getDirUnsafe (findLastParentDir key) with
  | none => simp [hparent] at hstored
  | some parent => exact ⟨parent, rfl, by simpa [hparent] using hstored⟩

/-- A tracked record is found. -/
theorem get_renamedDirs_of_tracked (hstored : (store.hierarchicalMapGet key).isSome)
    (hdir : (store.getDirUnsafe old).isSome)
    (htracked : DirTracked store old new key key') (record : DatasetRecord) :
    (renamedDirs (store.update key record) old new).hierarchicalMapGet key' = some record := by
  obtain ⟨hnotOld, hnotNew, hcases⟩ := htracked
  rw [get_renamedDirs_of_ne hnotOld hnotNew (by rwa [isSome_getDirUnsafe_update])]
  obtain ⟨parent, hparent, hkey⟩ := exists_parent_of_stored hstored
  rcases hcases with ⟨rfl, hstays⟩ | ⟨rfl, rfl, hmoves, hsame⟩
  · split
    next hbeside =>
      rw [HierarchicalRecords.getChildUnsafe, getDirUnsafe_update, if_pos rfl, hparent,
        Option.map_some, Option.bind_some]
      by_cases hold : key' = old
      · have hkeeps : old = new ∨ ((parent.update key' record).get new).isSome := by
          by_contra hnot
          rw [not_or] at hnot
          refine hstays ⟨hold, hnot.1, ?_⟩
          have hne : key' ≠ new := fun h => hnot.1 (hold.symm.trans h)
          rw [MapRecords.get_update_of_ne hne] at hnot
          rw [HierarchicalRecords.getChildUnsafe, hbeside, hparent, Option.bind_some]
          simpa using hnot.2
        rw [updateKey_of_not_moves hkeeps, MapRecords.get_update_self]
      · by_cases hnew : key' = new
        · rw [updateKey_of_not_moves (Or.inr (by simp [← hnew])), MapRecords.get_update_self]
        · rw [MapRecords.get_updateKey_of_ne _ hold hnew, MapRecords.get_update_self]
    next => exact HierarchicalRecords.hierarchicalMapGet_update_self hstored record
  · have hfree : (parent.update key record).get key' = none := by
      have hnone := hmoves.2
      rw [HierarchicalRecords.getChildUnsafe, hparent, Option.bind_some] at hnone
      rwa [MapRecords.get_update_of_ne hmoves.1]
    rw [if_pos hsame.symm, HierarchicalRecords.getChildUnsafe, hsame, getDirUnsafe_update,
      if_pos rfl, hparent, Option.map_some, Option.bind_some,
      MapRecords.updateKey_moves (by simp) hmoves.1 hfree]
    exact getElem?_moveKey_new (MapRecords.get_update_self parent key record) hfree

/-- In the map beside the old name, `update_key` leaves a fresh record where it was or
moves it from the old name to the new one. -/
theorem tracked_of_get_updateKey {parent : MapRecords DatasetRecord}
    (hfresh : FreshCount store record.nOpen)
    (hparent : (store.update key record).getDirUnsafe (findLastParentDir old) = some parent)
    (hfound : (parent.updateKey old new).2.get key' = some record) :
    (key' = key ∧ ¬ (key = old ∧ KeyMoves store old new)) ∨
      (key = old ∧ key' = new ∧ KeyMoves store old new) := by
  have honly : ∀ source, parent.get source = some record → source = key :=
    fun source h => (eq_of_freshCount hfresh hparent h rfl).2
  -- the record that was replaced has another key than `new`
  have hmoves : old = key → (KeyMoves store old new ↔ old ≠ new ∧ parent.get new = none) := by
    rintro rfl
    refine and_congr_right fun hne => ?_
    rw [getDirUnsafe_update, if_pos rfl] at hparent
    obtain ⟨before, hbefore, rfl⟩ := Option.map_eq_some_iff.mp hparent
    rw [HierarchicalRecords.getChildUnsafe, hbefore, Option.bind_some,
      MapRecords.get_update_of_ne hne]
  by_cases hkeeps : old = new ∨ (parent.get new).isSome
  · rw [updateKey_of_not_moves hkeeps] at hfound
    refine Or.inl ⟨honly key' hfound, ?_⟩
    rintro ⟨hkey, hmove⟩
    obtain ⟨hne, hnone⟩ := (hmoves hkey.symm).mp hmove
    rcases hkeeps with heq | htaken
    · exact hne heq
    · simp [hnone] at htaken
  · rw [not_or, Option.not_isSome_iff_eq_none] at hkeeps
    cases hold : parent.get old with
    | none =>
        rw [MapRecords.updateKey_missing hold] at hfound
        have hkey := honly key' hfound
        refine Or.inl ⟨hkey, fun h => ?_⟩
        rw [hkey, h.1, hold] at hfound
        cases hfound
    | some value =>
        rw [MapRecords.updateKey_moves (by simp [hold]) hkeeps.1 hkeeps.2] at hfound
        by_cases hnew : key' = new
        · rw [hnew, MapRecords.get, getElem?_moveKey_new hold hkeeps.2] at hfound
          have hkey := honly old (hold.trans hfound)
          exact Or.inr ⟨hkey.symm, hnew, (hmoves hkey).mpr hkeeps⟩
        · by_cases hsource : key' = old
          · rw [hsource, MapRecords.get, getElem?_moveKey_old (Ne.symm hkeeps.1)] at hfound
            cases hfound
          · rw [MapRecords.get, getElem?_moveKey_of_ne (Ne.symm hsource) (Ne.symm hnew)] at hfound
            have hkey := honly key' hfound
            exact Or.inl ⟨hkey, fun h => hsource (hkey.trans h.1)⟩

/-- A fresh record that is found was tracked. -/
theorem dirTracked_of_get (hdir : (store.getDirUnsafe old).isSome)
    (hfresh : FreshCount store record.nOpen) (huri : 256 < record.uri.length)
    (hfound : (renamedDirs (store.update key record) old new).hierarchicalMapGet key' =
      some record) : DirTracked store old new key key' := by
  have hsome : ((store.update key record).getDirUnsafe old).isSome := by
    rwa [isSome_getDirUnsafe_update]
  have hnotOld : findLastParentDir key' ≠ old := by
    intro hparent
    rw [get_renamedDirs_old hparent hsome] at hfound
    cases hfound
  have hnotNew : findLastParentDir key' ≠ new := by
    intro hparent
    obtain ⟨records, hrecords⟩ := Option.isSome_iff_exists.mp hsome
    obtain ⟨source, entry, hentry, ⟨path, rfl⟩ | ⟨rfl, rfl⟩⟩ := exists_of_get_renamedDirs_new
      hparent (fun h => hnotOld (hparent.trans h)) hfound hrecords
    · simp [DatasetRecord.setUri] at huri
    · obtain ⟨hkey, rfl⟩ := eq_of_freshCount hfresh hrecords hentry rfl
      exact hnotOld hkey
  refine ⟨hnotOld, hnotNew, ?_⟩
  rw [get_renamedDirs_of_ne hnotOld hnotNew hsome] at hfound
  split at hfound
  next hbeside =>
    obtain ⟨parent, hparent, hvalue⟩ := Option.bind_eq_some_iff.mp hfound
    rw [HierarchicalRecords.getChildUnsafe, ← hbeside] at hparent
    rcases tracked_of_get_updateKey hfresh hparent hvalue with hstays | ⟨hkey, hnew, hmoves⟩
    · exact Or.inl hstays
    · exact Or.inr ⟨hkey, hnew, hmoves, by rw [← hnew, hbeside]⟩
  next hbeside =>
    have hkey := eq_of_freshCount_get hfresh hfound rfl
    exact Or.inl ⟨hkey, fun h => hbeside (by rw [hkey, h.1])⟩

/-! ### Regular files -/

/-- Replacing a stored record changes the value of one key and adds none. -/
theorem get_iff_of_update (hstored : (store.hierarchicalMapGet key).isSome) {dir source : CString} :
    (∃ records, (store.update key record).getDirUnsafe dir = some records ∧
        (records.get source).isSome) ↔
      ∃ records, store.getDirUnsafe dir = some records ∧ (records.get source).isSome := by
  rw [getDirUnsafe_update]
  split
  next hdir =>
    obtain ⟨parent, hparent, hkey⟩ := exists_parent_of_stored hstored
    rw [← hdir, hparent]
    by_cases hsource : key = source
    · simp [← hsource, hkey]
    · simp [MapRecords.get_update_of_ne hsource]
  next => rfl

/-- The server confirms a rename of `old` as a regular file. -/
def FileAccepted (store : HierarchicalRecords DatasetRecord) (old : CString) : Prop :=
  AllCut store old ∧ SomeMatch store old

/-- Whether the scan throws depends on the keys in the map of the directory alone. -/
theorem allCut_iff : AllCut store old ↔ ∀ source, (∃ records,
    store.getChildUnsafe old = some records ∧ (records.get source).isSome) → '$' ∈ source := by
  constructor
  · rintro h source ⟨records, hchild, hsome⟩
    exact h records source hchild hsome
  · intro h records source hchild hsome
    exact h source ⟨records, hchild, hsome⟩

/-- So does whether it finds a key. -/
theorem someMatch_iff : SomeMatch store old ↔ ∃ source, (∃ records,
    store.getChildUnsafe old = some records ∧ (records.get source).isSome) ∧
      upTo '$' source = old := by
  constructor
  · rintro ⟨records, source, hchild, hsome, hpath⟩
    exact ⟨source, ⟨records, hchild, hsome⟩, hpath⟩
  · rintro ⟨source, ⟨records, hchild, hsome⟩, hpath⟩
    exact ⟨records, source, hchild, hsome, hpath⟩

theorem fileAccepted_update (hstored : (store.hierarchicalMapGet key).isSome)
    (record : DatasetRecord) :
    FileAccepted (store.update key record) old ↔ FileAccepted store old := by
  have hkeys : ∀ source, (∃ records, (store.update key record).getChildUnsafe old = some records ∧
      (records.get source).isSome) ↔
        ∃ records, store.getChildUnsafe old = some records ∧ (records.get source).isSome :=
    fun source => get_iff_of_update hstored
  rw [FileAccepted, FileAccepted, allCut_iff, allCut_iff, someMatch_iff, someMatch_iff]
  simp only [hkeys]

/-- The result of an accepted rename. -/
theorem rename_of_accepted (haccepted : FileAccepted store old) (new : CString) :
    ∃ records, store.getChildUnsafe old = some records ∧
      store.hierarchicalMapRenameRegularFile old new =
        .ok (0, renamedStore store records old new) := by
  obtain ⟨hcut, records, source, hchild, hsome, hpath⟩ := haccepted
  exact ⟨records, hchild, rename_moves hcut hchild (MapRecords.mem_keysOfPath.mpr ⟨hsome, hpath⟩)⟩

/-- Only an accepted rename is confirmed. -/
theorem fileAccepted_of_ok {store' : HierarchicalRecords DatasetRecord} {ret : Int}
    (hret : ret ≠ -1)
    (h : store.hierarchicalMapRenameRegularFile old new = .ok (ret, store')) :
    FileAccepted store old := by
  by_cases hcut : AllCut store old
  · by_cases hmatch : SomeMatch store old
    · exact ⟨hcut, hmatch⟩
    · rw [rename_refused hcut hmatch] at h
      cases h
      exact absurd rfl hret
  · rw [rename_throws hcut] at h
    cases h

/-- The record of a key that is not scanned stays where it is. -/
theorem get_renamedStore_update (hstored : (store.hierarchicalMapGet key).isSome)
    (hchild : (store.update key record).getChildUnsafe old = some records)
    (hpath : key ∉ records.keysOfPath old) :
    (renamedStore (store.update key record) records old new).hierarchicalMapGet key =
      some record := by
  have hget := HierarchicalRecords.hierarchicalMapGet_update_self hstored record
  by_cases hdir : findLastParentDir key = findLastParentDir old
  · rw [get_renamedStore_visible hdir]
    rw [get_of_getChildUnsafe hchild hdir] at hget
    exact get_renamedRecords_of_some hpath hget
  · rw [get_renamedStore_hidden hdir, hget]

theorem eq_of_get_renamedStore (hfresh : FreshCount store record.nOpen)
    (hchild : (store.update key record).getChildUnsafe old = some records)
    (hpath : key ∉ records.keysOfPath old)
    (hfound : (renamedStore (store.update key record) records old new).hierarchicalMapGet key' =
      some record) : key' = key := by
  by_cases hdir : findLastParentDir key' = findLastParentDir old
  · rw [get_renamedStore_visible hdir] at hfound
    obtain ⟨source, hsource, hstays⟩ := exists_of_moveKeys _ _ hfound
    obtain ⟨-, rfl⟩ := eq_of_freshCount hfresh hchild hsource rfl
    exact (hstays hpath).symm
  · rw [get_renamedStore_hidden hdir] at hfound
    exact eq_of_freshCount_get hfresh hfound rfl

end Server

/-! ## The names in the requests -/

/-- The text up to the first blank. -/
def firstWord (text : CString) : CString :=
  text.takeWhile (!isSpace ·)

theorem isWord_firstWord (text : CString) : IsWord (firstWord text) := by
  intro x hx
  simpa using List.mem_takeWhile_imp hx

theorem firstWord_ne_nil {text : CString} (h : imssRoot <+: text) : firstWord text ≠ [] := by
  obtain ⟨tail, rfl⟩ := h
  simp [firstWord, imssRoot, isSpace]

theorem firstWord_mono {text text' : CString} (h : text <+: text') :
    firstWord text <+: firstWord text' := by
  obtain ⟨rest, rfl⟩ := h
  rw [firstWord, firstWord, List.takeWhile_append]
  split
  next => exact (List.takeWhile_prefix _).trans (List.prefix_append text _)
  next => exact List.prefix_rfl

/-- The text after the first word ends the field. -/
theorem endsField_dropWhile (text : CString) : EndsField (text.dropWhile (!isSpace ·)) := by
  intro x hx
  have hhead := List.head?_dropWhile_not (!isSpace ·) text
  rw [Option.mem_def.mp hx] at hhead
  simpa using hhead

/-- A `GET` request is taken for its first word. -/
theorem parseStat_get {operation number : Nat} {text : CString} (h : imssRoot <+: text)
    (hnumber : number < 10 ^ 15) :
    parseStat (printStatRequest operation ['G', 'E', 'T'] number text []) =
      if (firstWord text).length < 256 then
        ScannedStatRequest.op ⟨operation % 2 ^ 32, ['G', 'E', 'T'], decimal number, firstWord text,
          (text.dropWhile (!isSpace ·)).dropWhile isSpace⟩
      else none := by
  have hprint : printStatRequest operation ['G', 'E', 'T'] number text [] =
      printStatRequest operation ['G', 'E', 'T'] number (firstWord text)
        (text.dropWhile (!isSpace ·)) := by
    rw [printStatRequest, printStatRequest, firstWord, List.takeWhile_append_dropWhile,
      List.append_nil]
  rw [hprint, parseStat_print (by decide) (by decide) (by decide) (isWord_firstWord text)
    (firstWord_ne_nil h) (endsField_dropWhile text)]
  simp only [hnumber, true_and]

/-- `find_first_parent_dir`: the path up to the first slash after `imss://`. -/
def findFirstParentDir (datasetUri : CString) : CString :=
  datasetUri.take imssRoot.length ++ upTo '/' (datasetUri.drop imssRoot.length)

/-- The states of the metadata servers, by their number. -/
abbrev MetadataCluster := Nat → MetadataServer

/-- What the choice of a metadata server depends on: `n_stat_servers` and
`curr_imss.info.session_plcy`. -/
structure StatServers where
  nStatServers : Nat
  sessionPlcy : Policy

/-- The metadata server that a name is looked for on. -/
def StatServers.find (servers : StatServers) (stack uri : CString) : Option Nat :=
  findServer stack servers.nStatServers 0 (findFirstParentDir uri) servers.sessionPlcy

/-- The two rename requests. -/
inductive RenameKind
  | file
  | directory
  deriving DecidableEq

namespace RenameKind

/-- The request of `rename_dataset_metadata` or `rename_dataset_metadata_dir_dir`; the
latter adds a slash to each name. -/
def op (id : Nat) (old new : CString) : RenameKind → StatOp
  | .file => .rename id old new
  | .directory => .renameDirDir id (old ++ ['/']) (new ++ ['/'])

/-- The names that the server works with. -/
def sentNames (kind : RenameKind) (id : Nat) (old new : CString) : Option (CString × CString) :=
  match parseStat (kind.op id old new).print with
  | some (.rename _ old new) => some (removeLastSlash old, removeLastSlash new)
  | some (.renameDirDir _ old new) => some (removeLastSlash old, removeLastSlash new)
  | _ => none

/-- The server confirms a rename of `old`. -/
def Accepted (store : HierarchicalRecords DatasetRecord) (old : CString) : RenameKind → Prop
  | .file => FileAccepted store old
  | .directory => (store.getDirUnsafe old).isSome

/-- A lookup of `key'` after the rename leads to what was found under `key`. -/
def Tracked (store : HierarchicalRecords DatasetRecord) (old new key key' : CString) :
    RenameKind → Prop
  | .file => key' = key
  | .directory => DirTracked store old new key key'

end RenameKind

namespace MetadataServer

/-- The key that a `stat_dataset` of `uri` looks up. -/
def readKey (server : MetadataServer) (opened : Nat) (uri : CString) : Option CString :=
  match parseStat (StatOp.read opened uri).print with
  | some (.read _ uri) => some (server.key uri)
  | _ => none

theorem readKey_eq {uri : CString} (huri : imssRoot <+: uri) (server : MetadataServer)
    (opened : Nat) :
    server.readKey opened uri =
      if (firstWord uri).length < 256 then some (server.key (firstWord uri)) else none := by
  have hparse : parseStat (StatOp.read opened uri).print =
      if (firstWord uri).length < 256 then some (.read (opened % 2 ^ 32) (firstWord uri))
      else none :=
    parseStat_get huri (by decide)
  rw [readKey, hparse]
  split_ifs <;> rfl

theorem prefix_of_readKey {server : MetadataServer} {opened : Nat} {uri key : CString}
    (huri : imssRoot <+: uri) (hread : server.readKey opened uri = some key) :
    key <+: firstWord uri := by
  rw [readKey_eq huri] at hread
  split at hread
  · obtain rfl := Option.some.inj hread
    rw [MetadataServer.key]
    split
    · exact List.prefix_rfl
    · exact removeLastSlash_prefix_self _
  · cases hread

/-- A rename request, with the confirmation. Without one there is no reply: the text is
not taken for a rename, or an exception ends the server. -/
def serveRename (server : MetadataServer) (req : CString) : Option (Reply × MetadataServer) :=
  match parseStat req with
  | some (.rename _ old new) =>
      match statRename server.store old new with
      | .ok result => some (result.1, { server with store := result.2 })
      | .error _ => none
  | some (.renameDirDir _ old new) =>
      let result := statRenameDirDir DatasetRecord.setUri server.store old new
      some (result.1, { server with store := result.2 })
  | _ => none

end MetadataServer

/-- `rename_dataset_metadata` and `rename_dataset_metadata_dir_dir`. Nothing is sent
unless the client's tables know the old name. -/
def renameDatasetMetadata (servers : StatServers) (kind : RenameKind) (known : Bool)
    (statIds : Nat → Nat) (stack : CString) (cluster : MetadataCluster) (old new : CString) :
    Option (Reply × MetadataCluster) :=
  if known then
    (servers.find stack old).bind fun s =>
      ((cluster s).serveRename (kind.op (statIds s) old new).print).map fun result =>
        (result.1, Function.update cluster s result.2)
  else none

/-- Whatever record stands under the old name, after a confirmed rename the server that a
client asks for the new name has it there. -/
def RenameFollowed (servers : StatServers) (kind : RenameKind) (known : Bool) (statIds : Nat → Nat)
    (stack stack' : CString) (opened opened' : Nat) (cluster : MetadataCluster)
    (old new : CString) : Prop :=
  ∀ s key, servers.find stack old = some s → (cluster s).readKey opened old = some key →
    ((cluster s).get key).isSome → ∀ record after,
      renameDatasetMetadata servers kind known statIds stack
          (Function.update cluster s ((cluster s).update key record)) old new =
        some (.rename, after) →
        ∃ s' key', servers.find stack' new = some s' ∧
          (after s').readKey opened' new = some key' ∧ (after s').get key' = some record

/-- The names and states for which that is so: unless the rename is not confirmed, the new
name leads to the same server, and there the lookup leads to the record. -/
def FollowCondition (servers : StatServers) (kind : RenameKind) (known : Bool)
    (statIds : Nat → Nat) (stack stack' : CString) (opened opened' : Nat)
    (cluster : MetadataCluster) (old new : CString) : Prop :=
  ∀ s key oldKey newKey, known = true → servers.find stack old = some s →
    (cluster s).readKey opened old = some key → ((cluster s).get key).isSome →
      kind.sentNames (statIds s) old new = some (oldKey, newKey) →
        kind.Accepted (cluster s).store oldKey →
          ∃ key', servers.find stack' new = some s ∧ (cluster s).readKey opened' new = some key' ∧
            kind.Tracked (cluster s).store oldKey newKey key key'

/-! ## What a confirmed rename has done -/

namespace RenameKind

/-- The names in the text of a request. -/
def text (old new : CString) : RenameKind → CString
  | .file => old ++ ',' :: new
  | .directory => (old ++ ['/']) ++ ',' :: (new ++ ['/'])

/-- The operation that is scanned for the names. -/
def scanned (id : Nat) (names : CString × CString) : RenameKind → StatOp
  | .file => .rename (id % 2 ^ 32) names.1 names.2
  | .directory => .renameDirDir (id % 2 ^ 32) names.1 names.2

/-- The reply and the store after a rename, with the names that the server works with. -/
def answer (store : HierarchicalRecords DatasetRecord) (old new : CString) :
    RenameKind → Option (Reply × HierarchicalRecords DatasetRecord)
  | .file =>
      match store.hierarchicalMapRenameRegularFile old new with
      | .ok result => some (if result.1 = -1 then .error else .rename, result.2)
      | .error _ => none
  | .directory =>
      some (if (store.getDirUnsafe old).isSome then .rename else .error, renamedDirs store old new)

variable {kind : RenameKind} {id : Nat} {old new oldKey newKey : CString}

theorem old_prefix_text (old new : CString) (kind : RenameKind) : old <+: kind.text old new := by
  cases kind with
  | file => exact List.prefix_append old _
  | directory =>
      rw [text, List.append_assoc]
      exact List.prefix_append old _

theorem parseStat_op (hold : imssRoot <+: old) (kind : RenameKind) :
    parseStat (kind.op id old new).print =
      if (firstWord (kind.text old new)).length < 256 then
        (DataServer.splitNames (firstWord (kind.text old new))).map fun names =>
          kind.scanned id names
      else none := by
  have hroot : imssRoot <+: kind.text old new := hold.trans (old_prefix_text old new kind)
  cases kind with
  | file => exact parseStat_get hroot (by decide)
  | directory => exact parseStat_get hroot (by decide)

/-- The names are the two sides of the first comma in the first word. -/
theorem sentNames_eq (hold : imssRoot <+: old) :
    kind.sentNames id old new =
      if (firstWord (kind.text old new)).length < 256 then
        (DataServer.splitNames (firstWord (kind.text old new))).map fun names =>
          (removeLastSlash names.1, removeLastSlash names.2)
      else none := by
  rw [sentNames, parseStat_op hold]
  split_ifs
  · cases DataServer.splitNames (firstWord (kind.text old new)) with
    | none => rfl
    | some names => cases kind <;> rfl
  · rfl

theorem statRenameDirDir_eq (store : HierarchicalRecords DatasetRecord)
    (oldTree newTree : CString) :
    statRenameDirDir DatasetRecord.setUri store oldTree newTree =
      (if (store.getDirUnsafe (removeLastSlash oldTree)).isSome then .rename else .error,
        renamedDirs store (removeLastSlash oldTree) (removeLastSlash newTree)) := by
  rw [statRenameDirDir, renamedDirs]
  cases hdir : store.getDirUnsafe (removeLastSlash oldTree) with
  | none =>
      rw [HierarchicalRecords.backEndHierarchicalMapRenameDirDirMetadata, renameDirDir_of_none hdir,
        renameKey_of_none hdir]
      rfl
  | some records =>
      obtain ⟨moved, hmoved⟩ := Option.isSome_iff_exists.mp (isSome_getDirUnsafe_backEnd
        (removeLastSlash newTree) (show (store.getDirUnsafe _).isSome by rw [hdir]; rfl))
      simp [HierarchicalRecords.hierarchicalMapRenameKey, hmoved]

/-- A server answers with the names that it has scanned. -/
theorem serveRename_eq (hold : imssRoot <+: old) (server : MetadataServer) :
    server.serveRename (kind.op id old new).print =
      (kind.sentNames id old new).bind fun names =>
        (kind.answer server.store names.1 names.2).map fun result =>
          (result.1, { server with store := result.2 }) := by
  rw [MetadataServer.serveRename, parseStat_op hold, sentNames_eq hold]
  split_ifs
  · cases DataServer.splitNames (firstWord (kind.text old new)) with
    | none => rfl
    | some names =>
        cases kind with
        | file =>
            simp only [Option.map_some, scanned, Option.bind_some, answer, statRename]
            cases server.store.hierarchicalMapRenameRegularFile (removeLastSlash names.1)
              (removeLastSlash names.2) <;> rfl
        | directory =>
            simp only [Option.map_some, scanned, Option.bind_some, answer, statRenameDirDir_eq]
  · rfl

section Answer

variable {store store' : HierarchicalRecords DatasetRecord} {key key' : CString}
  {record : DatasetRecord}

/-- A confirmed rename was accepted. -/
theorem answer_rename_iff (kind : RenameKind) (newKey : CString) :
    (∃ store', kind.answer store oldKey newKey = some (.rename, store')) ↔
      kind.Accepted store oldKey := by
  cases kind with
  | file =>
      constructor
      · rintro ⟨store', hanswer⟩
        simp only [answer] at hanswer
        split at hanswer
        next result hresult =>
          have hret : result.1 ≠ -1 := by
            intro hret
            simp [hret] at hanswer
          exact fileAccepted_of_ok hret hresult
        next => cases hanswer
      · intro haccepted
        obtain ⟨records, -, hmoves⟩ := rename_of_accepted haccepted newKey
        exact ⟨_, by rw [answer, hmoves]; rfl⟩
  | directory =>
      simp only [answer, Accepted, Option.some.injEq, Prod.mk.injEq, exists_and_left,
        exists_eq', and_true]
      split <;> simp_all

theorem accepted_update (hstored : (store.hierarchicalMapGet key).isSome) (kind : RenameKind)
    (record : DatasetRecord) :
    kind.Accepted (store.update key record) oldKey ↔ kind.Accepted store oldKey := by
  cases kind with
  | file => exact fileAccepted_update hstored record
  | directory =>
      rw [Accepted, Accepted, isSome_getDirUnsafe_update]

/-- No file rename moves a key that does not continue the old name with `$`. -/
theorem notMem_keysOfPath {records : MapRecords DatasetRecord}
    (haccepted : FileAccepted store oldKey) (hchild : store.getChildUnsafe oldKey = some records)
    (hkey : ∀ tail, key ≠ oldKey ++ '$' :: tail) : key ∉ records.keysOfPath oldKey := by
  intro hmem
  obtain ⟨tail, htail⟩ :=
    exists_tail_of_mem_keysOfPath (fun key => haccepted.1 records key hchild) hmem
  exact hkey tail htail

/-- An accepted rename of a file moves keys, and `key` is not among them. -/
theorem answer_file_moves (hstored : (store.hierarchicalMapGet key).isSome)
    (haccepted : FileAccepted store oldKey) (hkey : ∀ tail, key ≠ oldKey ++ '$' :: tail)
    (hanswer : RenameKind.file.answer (store.update key record) oldKey newKey =
      some (.rename, store')) :
    ∃ records, (store.update key record).getChildUnsafe oldKey = some records ∧
      key ∉ records.keysOfPath oldKey ∧
      store' = renamedStore (store.update key record) records oldKey newKey := by
  have hupdated := (fileAccepted_update hstored record).mpr haccepted
  obtain ⟨records, hchild, hmoves⟩ := rename_of_accepted hupdated newKey
  rw [answer, hmoves] at hanswer
  cases hanswer
  exact ⟨records, hchild, notMem_keysOfPath hupdated hchild hkey, rfl⟩

/-- A tracked record is found in the server's answer. -/
theorem get_answer_of_tracked (hstored : (store.hierarchicalMapGet key).isSome)
    (haccepted : kind.Accepted store oldKey) (hkey : ∀ tail, key ≠ oldKey ++ '$' :: tail)
    (htracked : kind.Tracked store oldKey newKey key key')
    (hanswer : kind.answer (store.update key record) oldKey newKey = some (.rename, store')) :
    store'.hierarchicalMapGet key' = some record := by
  cases kind with
  | file =>
      obtain rfl : key' = key := htracked
      obtain ⟨records, hchild, hpath, rfl⟩ := answer_file_moves hstored haccepted hkey hanswer
      exact get_renamedStore_update hstored hchild hpath
  | directory =>
      obtain rfl := (Prod.mk.inj (Option.some.inj hanswer)).2
      exact get_renamedDirs_of_tracked hstored haccepted htracked record

/-- A fresh record that is found there was tracked. -/
theorem tracked_of_get_answer (hstored : (store.hierarchicalMapGet key).isSome)
    (haccepted : kind.Accepted store oldKey) (hkey : ∀ tail, key ≠ oldKey ++ '$' :: tail)
    (hfresh : FreshCount store record.nOpen) (huri : 256 < record.uri.length)
    (hanswer : kind.answer (store.update key record) oldKey newKey = some (.rename, store'))
    (hfound : store'.hierarchicalMapGet key' = some record) :
    kind.Tracked store oldKey newKey key key' := by
  cases kind with
  | file =>
      obtain ⟨records, hchild, hpath, rfl⟩ := answer_file_moves hstored haccepted hkey hanswer
      exact eq_of_get_renamedStore hfresh hchild hpath hfound
  | directory =>
      obtain rfl := (Prod.mk.inj (Option.some.inj hanswer)).2
      exact dirTracked_of_get haccepted hfresh huri hfound

end Answer

/-- The key of the old name never continues the server's old name with `$`: in the
request a comma or a slash stands there. -/
theorem key_ne_of_sentNames {server : MetadataServer} {opened : Nat} {key : CString}
    (hold : imssRoot <+: old) (hsent : kind.sentNames id old new = some (oldKey, newKey))
    (hread : server.readKey opened old = some key) (tail : CString) :
    key ≠ oldKey ++ '$' :: tail := by
  rintro rfl
  have hprefix : oldKey ++ '$' :: tail <+: firstWord (kind.text old new) :=
    (MetadataServer.prefix_of_readKey hold hread).trans
      (firstWord_mono (old_prefix_text old new kind))
  rw [sentNames_eq hold] at hsent
  split at hsent
  · obtain ⟨⟨oldTree, newTree⟩, hsplit, hnames⟩ := Option.map_eq_some_iff.mp hsent
    obtain ⟨htext, -⟩ := DataServer.splitNames_eq_some hsplit
    have holdKey : removeLastSlash oldTree = oldKey := (Prod.mk.inj hnames).1
    rw [htext, ← holdKey] at hprefix
    rw [removeLastSlash] at hprefix
    split at hprefix
    next hslash =>
      obtain ⟨front, rfl⟩ := List.getLast?_eq_some_iff.mp hslash
      simp [List.append_assoc] at hprefix
    next => simp at hprefix
  · cases hsent

end RenameKind

section Follow

variable {servers : StatServers} {kind : RenameKind} {known : Bool} {statIds : Nat → Nat}
  {stack stack' old new : CString} {opened opened' : Nat} {cluster after : MetadataCluster}

/-- A confirmed rename has changed the store of one server. -/
theorem renameDatasetMetadata_eq_some_iff (hold : imssRoot <+: old) :
    renameDatasetMetadata servers kind known statIds stack cluster old new = some (.rename, after) ↔
      known = true ∧ ∃ s oldKey newKey store', servers.find stack old = some s ∧
        kind.sentNames (statIds s) old new = some (oldKey, newKey) ∧
          kind.answer (cluster s).store oldKey newKey = some (.rename, store') ∧
            Function.update cluster s { cluster s with store := store' } = after := by
  cases known with
  | false => simp [renameDatasetMetadata]
  | true =>
      simp only [renameDatasetMetadata, if_true, true_and, RenameKind.serveRename_eq hold,
        Option.bind_eq_some_iff, Option.map_eq_some_iff]
      constructor
      · rintro ⟨s, hs, ⟨reply, server'⟩,
          ⟨⟨oldKey, newKey⟩, hsent, ⟨reply', store'⟩, hanswer, hserver⟩,
          hafter⟩
        obtain ⟨rfl, rfl⟩ := Prod.mk.inj hserver
        obtain ⟨hreply, rfl⟩ := Prod.mk.inj hafter
        exact ⟨s, oldKey, newKey, store', hs, hsent, by rw [hanswer, ← hreply], rfl⟩
      · rintro ⟨s, oldKey, newKey, store', hs, hsent, hanswer, rfl⟩
        exact ⟨s, hs, _, ⟨(oldKey, newKey), hsent, _, hanswer, rfl⟩, rfl⟩

/-- The same with the record of a key on that server replaced. -/
theorem rename_update_eq_some_iff (hold : imssRoot <+: old) {s : Nat} {key : CString}
    {record : DatasetRecord} (hs : servers.find stack old = some s) :
    renameDatasetMetadata servers kind known statIds stack
        (Function.update cluster s ((cluster s).update key record)) old new =
        some (.rename, after) ↔
      known = true ∧ ∃ oldKey newKey store',
        kind.sentNames (statIds s) old new = some (oldKey, newKey) ∧
          kind.answer ((cluster s).store.update key record) oldKey newKey = some (.rename, store') ∧
            Function.update cluster s { cluster s with store := store' } = after := by
  rw [renameDatasetMetadata_eq_some_iff hold]
  refine and_congr_right fun _ => ?_
  constructor
  · rintro ⟨t, oldKey, newKey, store', ht, hsent, hanswer, hafter⟩
    obtain rfl := Option.some.inj (hs.symm.trans ht)
    rw [Function.update_self] at hanswer hafter
    rw [Function.update_idem] at hafter
    exact ⟨oldKey, newKey, store', hsent, hanswer, hafter⟩
  · rintro ⟨oldKey, newKey, store', hsent, hanswer, hafter⟩
    refine ⟨s, oldKey, newKey, store', hs, hsent, ?_, ?_⟩
    · rw [Function.update_self]
      exact hanswer
    · rw [Function.update_self, Function.update_idem]
      exact hafter

end Follow

/-- After a confirmed rename, the dataset is where the new name is looked for exactly under
`FollowCondition`. -/
theorem renameFollowed_iff (servers : StatServers) (kind : RenameKind) (known : Bool)
    (statIds : Nat → Nat) (stack stack' : CString) (opened opened' : Nat)
    (cluster : MetadataCluster) (old new : FileUri) :
    RenameFollowed servers kind known statIds stack stack' opened opened' cluster old.1 new.1 ↔
      FollowCondition servers kind known statIds stack stack' opened opened' cluster
        old.1 new.1 := by
  have hold := old.2.below_root
  constructor
  · intro hfollowed s key oldKey newKey hknown hs hkey hstored hsent haccepted
    -- a record that stands nowhere else, on none of the two servers in question
    obtain ⟨count, hfresh⟩ := exists_freshCount
      [(cluster s).store, (cluster ((servers.find stack' new.1).getD s)).store]
    let record : DatasetRecord := ⟨⟨List.replicate 257 'x', .directory⟩, count, .attach, []⟩
    have huri : 256 < (List.replicate 257 'x').length := by
      rw [List.length_replicate]
      decide
    obtain ⟨store', hanswer⟩ := (RenameKind.answer_rename_iff kind newKey).mpr
      ((RenameKind.accepted_update hstored kind record).mpr haccepted)
    obtain ⟨s', key', hs', hkey', hfound⟩ := hfollowed s key hs hkey hstored record _
      ((rename_update_eq_some_iff hold hs).mpr
        ⟨hknown, oldKey, newKey, store', hsent, hanswer, rfl⟩)
    have hkeyNe := RenameKind.key_ne_of_sentNames hold hsent hkey
    by_cases hsame : s' = s
    · subst hsame
      rw [Function.update_self] at hkey' hfound
      exact ⟨key', hs', hkey', RenameKind.tracked_of_get_answer hstored haccepted hkeyNe
        (hfresh _ List.mem_cons_self) huri hanswer hfound⟩
    · rw [Function.update_of_ne hsame] at hfound
      rw [hs', Option.getD_some] at hfresh
      obtain ⟨records, hrecords, hvalue⟩ := Option.bind_eq_some_iff.mp hfound
      exact absurd rfl (hfresh _ (by simp) _ records key' record hrecords hvalue)
  · intro hcondition s key hs hkey hstored record after hrename
    obtain ⟨hknown, oldKey, newKey, store', hsent, hanswer, rfl⟩ :=
      (rename_update_eq_some_iff hold hs).mp hrename
    have haccepted := (RenameKind.accepted_update hstored kind record).mp
      ((RenameKind.answer_rename_iff kind newKey).mp ⟨store', hanswer⟩)
    obtain ⟨key', hs', hkey', htracked⟩ :=
      hcondition s key oldKey newKey hknown hs hkey hstored hsent haccepted
    refine ⟨s, key', hs', ?_, ?_⟩
    · rw [Function.update_self]
      exact hkey'
    · rw [Function.update_self]
      exact RenameKind.get_answer_of_tracked hstored haccepted
        (RenameKind.key_ne_of_sentNames hold hsent hkey) htracked hanswer

/-- A directory `imss://a` on server `s`, and nothing else. -/
def directoryCluster (s : Nat) : MetadataCluster :=
  Function.update (fun _ => MetadataServer.init imssRoot) s
    ((MetadataServer.init imssRoot).setOp "imss://a".toList
      ⟨⟨"imss://a/".toList, .directory⟩, 0, .attach, []⟩).2

/-- With two servers, a renamed directory stays on the server of its old name, and a stat of
the new name asks the other one. With one server, a directory that is moved into another
one keeps its old key. -/
theorem not_renameFollowed :
    ¬ RenameFollowed ⟨2, .roundRobin⟩ .directory true (fun _ => 0) [] [] 0 0 (directoryCluster 1)
        "imss://a".toList "imss://b".toList ∧
      ¬ RenameFollowed ⟨1, .roundRobin⟩ .directory true (fun _ => 0) [] [] 0 0 (directoryCluster 0)
        "imss://a".toList "imss://d/e".toList := by
  let record : DatasetRecord := ⟨⟨"imss://a/".toList, .directory⟩, 0, .attach, []⟩
  constructor
  · intro hfollowed
    obtain ⟨s', key', hs', hkey', hfound⟩ := hfollowed 1 "imss://a".toList (by decide +kernel)
      (by decide +kernel) (by decide +kernel) record _
      ((rename_update_eq_some_iff (by decide) (by decide +kernel)).mpr
        ⟨rfl, "imss://a".toList, "imss://b".toList, _, by decide +kernel, rfl, rfl⟩)
    obtain rfl : 0 = s' := Option.some.inj
      ((show StatServers.find ⟨2, .roundRobin⟩ [] "imss://b".toList = some 0 by
        decide +kernel).symm.trans hs')
    rw [Function.update_of_ne (by decide)] at hkey' hfound
    obtain rfl : "imss://b".toList = key' := Option.some.inj
      ((show (directoryCluster 1 0).readKey 0 "imss://b".toList = some "imss://b".toList by
        decide +kernel).symm.trans hkey')
    exact absurd hfound (by decide +kernel)
  · intro hfollowed
    obtain ⟨s', key', hs', hkey', hfound⟩ := hfollowed 0 "imss://a".toList (by decide +kernel)
      (by decide +kernel) (by decide +kernel) record _
      ((rename_update_eq_some_iff (by decide) (by decide +kernel)).mpr
        ⟨rfl, "imss://a".toList, "imss://d/e".toList, _, by decide +kernel, rfl, rfl⟩)
    obtain rfl : 0 = s' := Option.some.inj
      ((show StatServers.find ⟨1, .roundRobin⟩ [] "imss://d/e".toList = some 0 by
        decide +kernel).symm.trans hs')
    rw [Function.update_self] at hkey' hfound
    obtain rfl : "imss://d/e".toList = key' := Option.some.inj
      ((show MetadataServer.readKey ⟨imssRoot, _⟩ 0 "imss://d/e".toList =
        some "imss://d/e".toList by decide +kernel).symm.trans hkey')
    exact absurd hfound (by decide +kernel)

end Hercules
