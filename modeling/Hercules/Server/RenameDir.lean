/-
# Renaming a directory on one server

`RENAME_DIR_DIR_OP` renames the entries of one directory map, then the directory's
own key in the map of its parent, and at last re-keys the directory map itself.
On a data server the entries are compared with `old$0`, which none of them
contains, so their keys stay as they were: after the re-keying no lookup finds
them. If a later request gives the map its first name back, they are found again. On a metadata
server the directory's own entry keeps its `uri_`.
-/

import Hercules.Server.RenameFile

namespace Hercules

open Std Lib Lib.Text

universe u

variable {V : Type u}

/-- `RENAME_DIR_DIR_OP` of `srv_worker_helper`, with the two names of the request. -/
def srvRenameDirDir (store : HierarchicalRecords V) (oldDir rdirDest : CString) :
    Reply × HierarchicalRecords V :=
  let renamed := (store.backEndHierarchicalMapRenameDirDirData oldDir rdirDest).2
  let result := renamed.hierarchicalMapRenameKey oldDir rdirDest
  (if result.1 ≠ 0 then .error else .rename, result.2)

/-- `RENAME_DIR_DIR_OP` of `stat_worker_helper`, with the two names of the request. -/
def statRenameDirDir (setUri : CString → V → V) (store : HierarchicalRecords V)
    (oldKeyTree newKeyTree : CString) : Reply × HierarchicalRecords V :=
  let oldKey := removeLastSlash oldKeyTree
  let newKey := removeLastSlash newKeyTree
  let renamed := (store.backEndHierarchicalMapRenameDirDirMetadata setUri oldKey newKey).2
  let result := renamed.hierarchicalMapRenameKey oldKey newKey
  (if result.1 ≠ 0 then .error else .rename, result.2)

/-- A key belongs to a directory as one of its own blocks or below it. -/
def DirSuffix (suffix : CString) : Prop :=
  BlockSuffix suffix ∨ ∃ tail, suffix = '/' :: tail

/-! ## The directory maps after the request -/

section Maps

variable {store : HierarchicalRecords V} {old new oldKey newKey : CString} {records : MapRecords V}
  {renameEntries : MapRecords V → MapRecords V}

theorem renameKey_of_none (hnone : store.getDirUnsafe old = none) :
    store.hierarchicalMapRenameKey old new = (-1, store) := by
  simp only [HierarchicalRecords.hierarchicalMapRenameKey, hnone]

theorem getDirUnsafe_renameKey (hsome : store.getDirUnsafe old = some records) (dir : CString) :
    (store.hierarchicalMapRenameKey old new).2.getDirUnsafe dir =
      if old = dir then none
      else if new = dir then some records else store.getDirUnsafe dir := by
  simp only [HierarchicalRecords.hierarchicalMapRenameKey, hsome]
  rw [HierarchicalRecords.getDirUnsafe, ExtTreeMap.getElem?_erase, ExtTreeMap.getElem?_insert]
  simp [HierarchicalRecords.getDirUnsafe]

theorem renameDirDir_of_none (hnone : store.getDirUnsafe old = none) :
    store.renameDirDir renameEntries old oldKey newKey = (-1, store) := by
  simp [HierarchicalRecords.renameDirDir, hnone]

/-- The entries and the own key are renamed together, or not at all. -/
theorem getDirUnsafe_renameDirDir (huri : IsFileUri old)
    (hsome : store.getDirUnsafe old = some records) (dir : CString) :
    (store.renameDirDir renameEntries old oldKey newKey).2.getDirUnsafe dir =
      if findLastParentDir old = dir then
        (store.getDirUnsafe dir).map fun parent => (parent.updateKey oldKey newKey).2
      else if old = dir ∧ (store.getChildUnsafe old).isSome then some (renameEntries records)
      else store.getDirUnsafe dir := by
  have hparent := findLastParentDir_ne_self huri
  cases hchild : store.getChildUnsafe old with
  | none =>
      simp only [HierarchicalRecords.renameDirDir, hchild, Option.isNone_none, Bool.or_true,
        if_true]
      split
      next hdir => rw [← hdir, ← HierarchicalRecords.getChildUnsafe, hchild, Option.map_none]
      next => simp
  | some parent =>
      simp only [HierarchicalRecords.renameDirDir, hsome, hchild, Option.isNone_some,
        Bool.or_self, Bool.false_eq_true, if_false, HierarchicalRecords.getDirUnsafe_modifyDir]
      by_cases hdir : findLastParentDir old = dir
      · have hold : old ≠ dir := fun h => hparent (hdir.trans h.symm)
        simp [hdir, hold]
      · by_cases hold : old = dir
        · subst hold
          simp [hdir, hsome]
        · simp [hdir, hold]

end Maps

/-! ## Data servers -/

section Data

variable {store : HierarchicalRecords V} {old new : CString} {records : MapRecords V}

/-- The keys that are moved do not come to lie under `new/`. -/
theorem get_renameDataDirSrvWorker (records : MapRecords V) (old new tail : CString) :
    (records.renameDataDirSrvWorker (old ++ ['$', '0']) (new ++ ['$', '0'])).get
        (new ++ '/' :: tail) =
      if MapRecords.underDir ['/', '$'] (old ++ ['$', '0']) (new ++ '/' :: tail) then none
      else records.get (new ++ '/' :: tail) := by
  have htarget : ∀ key : CString,
      new ++ ['$', '0'] ++ key.drop (old ++ ['$', '0']).length ≠ new ++ '/' :: tail := by
    intro key heq
    rw [List.append_assoc, List.append_cancel_left_eq] at heq
    cases heq
  rw [MapRecords.get, MapRecords.renameDataDirSrvWorker]
  split
  next hunder =>
    refine getElem?_moveKeys_source _ _ ?_ fun key _ => htarget key
    rw [List.mem_reverse, List.mem_filter, ExtTreeMap.mem_keys,
      ← ExtTreeMap.isSome_getElem?_iff_mem]
    cases hget : records.buffer[new ++ '/' :: tail]? with
    | none => exact Or.inr rfl
    | some value => exact Or.inl ⟨rfl, hunder⟩
  next hunder =>
    refine getElem?_moveKeys_of_ne _ _ (fun hmem => hunder ?_) fun key _ => htarget key
    exact (List.mem_filter.mp (List.mem_reverse.mp hmem)).2

theorem srvRenameDirDir_of_none (hnone : store.getDirUnsafe old = none) :
    srvRenameDirDir store old new = (.error, store) := by
  rw [srvRenameDirDir, HierarchicalRecords.backEndHierarchicalMapRenameDirDirData,
    renameDirDir_of_none hnone, renameKey_of_none hnone]
  rfl

/-- What the map of `old` shows under the name `new`: the keys `new/tail` that it holds already,
unless the comparison with `old$0` takes them away. -/
def HierarchicalRecords.shownAs (store : HierarchicalRecords V) (old new tail : CString) :
    Option V :=
  (store.getDirUnsafe old).bind fun records =>
    if (store.getChildUnsafe old).isSome ∧
        MapRecords.underDir ['/', '$'] (old ++ ['$', '0']) (new ++ '/' :: tail) then none
    else records.get (new ++ '/' :: tail)

/-- A map whose keys are all filed in it shows nothing under another name. -/
theorem HierarchicalRecords.Filed.shownAs (hfiled : store.Filed) (hne : old ≠ new) {tail : CString}
    (hdir : findLastParentDir (new ++ '/' :: tail) = new) : store.shownAs old new tail = none := by
  rw [HierarchicalRecords.shownAs]
  cases hrecords : store.getDirUnsafe old with
  | none => rfl
  | some records =>
      have hget : records.get (new ++ '/' :: tail) = none := by
        by_contra hsome
        have hkey := hfiled old records _ hrecords (Option.isSome_iff_ne_none.mpr hsome)
        exact hne (hkey.symm.trans hdir)
      simp [hget]

variable (hold : IsFileUri old) (hrecords : store.getDirUnsafe old = some records)

include hold hrecords

/-- The directory's map moves, and beside it only the own block is renamed. -/
theorem getDirUnsafe_srvRenameDirDir (dir : CString) :
    (srvRenameDirDir store old new).2.getDirUnsafe dir =
      if old = dir then none
      else if new = dir then
        some (if (store.getChildUnsafe old).isSome then
          records.renameDataDirSrvWorker (old ++ ['$', '0']) (new ++ ['$', '0']) else records)
      else if findLastParentDir old = dir then
        (store.getDirUnsafe dir).map fun parent =>
          (parent.updateKey (blockKey old 0) (blockKey new 0)).2
      else store.getDirUnsafe dir := by
  have hmap : ∀ dir, (store.backEndHierarchicalMapRenameDirDirData old new).2.getDirUnsafe dir =
      if findLastParentDir old = dir then
        (store.getDirUnsafe dir).map fun parent =>
          (parent.updateKey (blockKey old 0) (blockKey new 0)).2
      else if old = dir ∧ (store.getChildUnsafe old).isSome then
        some (records.renameDataDirSrvWorker (old ++ ['$', '0']) (new ++ ['$', '0']))
      else store.getDirUnsafe dir := by
    intro dir
    rw [HierarchicalRecords.backEndHierarchicalMapRenameDirDirData,
      getDirUnsafe_renameDirDir hold hrecords, blockKey_zero, blockKey_zero]
  have hmoved : (store.backEndHierarchicalMapRenameDirDirData old new).2.getDirUnsafe old =
      some (if (store.getChildUnsafe old).isSome then
        records.renameDataDirSrvWorker (old ++ ['$', '0']) (new ++ ['$', '0']) else records) := by
    rw [hmap, if_neg (findLastParentDir_ne_self hold), hrecords]
    by_cases hchild : (store.getChildUnsafe old).isSome <;> simp [hchild]
  show (HierarchicalRecords.hierarchicalMapRenameKey _ old new).2.getDirUnsafe dir = _
  rw [getDirUnsafe_renameKey hmoved, hmap]
  by_cases hdir : old = dir
  · rw [if_pos hdir, if_pos hdir]
  · simp [hdir]

theorem get_srvRenameDirDir_old {key : CString} (hdir : findLastParentDir key = old) :
    (srvRenameDirDir store old new).2.hierarchicalMapGet key = none := by
  rw [HierarchicalRecords.hierarchicalMapGet_eq,
    getDirUnsafe_srvRenameDirDir hold hrecords, if_pos hdir.symm, Option.bind_none]

/-- The map under the new name shows the keys that it held under that name before. -/
theorem get_srvRenameDirDir_new (hne : old ≠ new) {tail : CString}
    (hdir : findLastParentDir (new ++ '/' :: tail) = new) :
    (srvRenameDirDir store old new).2.hierarchicalMapGet (new ++ '/' :: tail) =
      store.shownAs old new tail := by
  rw [HierarchicalRecords.hierarchicalMapGet_eq, getDirUnsafe_srvRenameDirDir hold hrecords, hdir,
    if_neg hne, if_pos rfl, Option.bind_some, HierarchicalRecords.shownAs, hrecords,
    Option.bind_some]
  by_cases hchild : (store.getChildUnsafe old).isSome
  · simp only [hchild, if_true, true_and]
    exact get_renameDataDirSrvWorker records old new tail
  · simp [hchild]

theorem get_srvRenameDirDir_beside {key : CString}
    (hkey : findLastParentDir key = findLastParentDir old) (hnew : findLastParentDir old ≠ new) :
    (srvRenameDirDir store old new).2.hierarchicalMapGet key =
      (store.getChildUnsafe old).bind fun parent =>
        (parent.updateKey (blockKey old 0) (blockKey new 0)).2.get key := by
  rw [HierarchicalRecords.hierarchicalMapGet_eq,
    getDirUnsafe_srvRenameDirDir hold hrecords, hkey,
    if_neg (findLastParentDir_ne_self hold).symm, if_neg hnew.symm, if_pos rfl,
    HierarchicalRecords.getChildUnsafe]
  cases store.getDirUnsafe (findLastParentDir old) <;> rfl

/-- Every other key is found as before. -/
theorem get_srvRenameDirDir_other {key : CString} (hdirOld : findLastParentDir key ≠ old)
    (hdirNew : findLastParentDir key ≠ new)
    (hkey : findLastParentDir key = findLastParentDir old →
      key ≠ blockKey old 0 ∧ key ≠ blockKey new 0) :
    (srvRenameDirDir store old new).2.hierarchicalMapGet key = store.hierarchicalMapGet key := by
  by_cases hparent : findLastParentDir key = findLastParentDir old
  · obtain ⟨hneOld, hneNew⟩ := hkey hparent
    rw [get_srvRenameDirDir_beside hold hrecords hparent (hparent ▸ hdirNew),
      HierarchicalRecords.hierarchicalMapGet, HierarchicalRecords.getChildUnsafe,
      HierarchicalRecords.getChildUnsafe, hparent]
    cases store.getDirUnsafe (findLastParentDir old) with
    | none => rfl
    | some parent => exact parent.get_updateKey_of_ne hneOld hneNew
  · rw [HierarchicalRecords.hierarchicalMapGet_eq,
      getDirUnsafe_srvRenameDirDir hold hrecords, if_neg (Ne.symm hdirOld),
      if_neg (Ne.symm hdirNew), if_neg (Ne.symm hparent)]
    rfl

/-- Without an own block beside the directory nothing there is renamed. -/
theorem get_srvRenameDirDir_absent {key : CString} (hdirOld : findLastParentDir key ≠ old)
    (hdirNew : findLastParentDir key ≠ new)
    (habsent : store.hierarchicalMapGet (blockKey old 0) = none) :
    (srvRenameDirDir store old new).2.hierarchicalMapGet key = store.hierarchicalMapGet key := by
  by_cases hparent : findLastParentDir key = findLastParentDir old
  · rw [get_srvRenameDirDir_beside hold hrecords hparent (hparent ▸ hdirNew),
      HierarchicalRecords.hierarchicalMapGet_eq, hparent, HierarchicalRecords.getChildUnsafe]
    rw [HierarchicalRecords.hierarchicalMapGet_eq, findLastParentDir_blockKey hold] at habsent
    cases hchild : store.getDirUnsafe (findLastParentDir old) with
    | none => rfl
    | some parent =>
        rw [hchild, Option.bind_some] at habsent
        rw [Option.bind_some, Option.bind_some, MapRecords.updateKey_missing habsent]
  · exact get_srvRenameDirDir_other hold hrecords hdirOld hdirNew fun h => absurd h hparent

end Data

/-- The stores on which a data server renames the directory `old` to `new`: the directory has
nothing but its own block 0, which finds room, and entries that its map holds under the new name
already. -/
structure DirRenameCondition (store : HierarchicalRecords V) (old new : CString) : Prop where
  entries : ∀ tail, findLastParentDir (old ++ '/' :: tail) = old →
    store.hierarchicalMapGet (old ++ '/' :: tail) =
      if old = new then none else store.shownAs old new tail
  no_deeper : ∀ tail, findLastParentDir (old ++ '/' :: tail) ≠ old →
    store.hierarchicalMapGet (old ++ '/' :: tail) = none
  only_zero : ∀ block, (store.hierarchicalMapGet (blockKey old block)).isSome → block = 0
  zero : ∀ value, store.hierarchicalMapGet (blockKey old 0) = some value →
    (store.getDirUnsafe old).isSome ∧
      (∀ parent, store.getChildUnsafe old = some parent → parent.get (blockKey new 0) = none) ∧
      (findLastParentDir new = findLastParentDir old ∨
        store.hierarchicalMapGet (blockKey new 0) = some value)

/-- A request to rename `old` to `new`, which is not below `old` and holds no
entries. -/
structure DirRequest (store : HierarchicalRecords V) (old new : CString) : Prop where
  old_uri : IsFileUri old
  new_uri : IsFileUri new
  not_below : ¬ old ++ ['/'] <+: new
  new_empty : ∀ key, (store.hierarchicalMapGet key).isSome → ¬ new ++ ['/'] <+: key

namespace DirRequest

variable {store : HierarchicalRecords V} {old new : CString} {records : MapRecords V}
  (hreq : DirRequest store old new)

include hreq

theorem parent_new_ne_old : findLastParentDir new ≠ old :=
  fun h => hreq.not_below (slash_prefix_of_filed hreq.old_uri h)

theorem parent_ne_new_of_found {key : CString} (hfound : (store.hierarchicalMapGet key).isSome) :
    findLastParentDir key ≠ new :=
  fun h => hreq.new_empty key hfound (slash_prefix_of_filed hreq.new_uri h)

/-- Nothing is found below `new`. -/
theorem get_below_new (tail : CString) : store.hierarchicalMapGet (new ++ '/' :: tail) = none := by
  by_contra hsome
  exact hreq.new_empty _ (Option.isSome_iff_ne_none.mpr hsome) ⟨tail, by simp⟩

/-- The own block of `new` is no key below `old`. -/
theorem entry_ne_block (tail : CString) (block : Int) :
    old ++ '/' :: tail ≠ blockKey new block := by
  intro heq
  refine hreq.not_below (slash_prefix_blockKey_iff.mp (?_ : _ <+: blockKey new block))
  rw [← heq]
  exact ⟨tail, by simp⟩

omit hreq in
theorem entry_ne_own_block (tail : CString) (block : Int) :
    old ++ '/' :: tail ≠ blockKey old block := by
  intro heq
  rw [blockKey, List.append_cancel_left_eq] at heq
  cases heq

/-- A key of `old` that lies in `new` lies there because `old` does. -/
theorem below_new_of_prefix (hne : old ≠ new) {s : CString} (hs : DirSuffix s)
    (hbegins : new ++ ['/'] <+: old ++ s) : new ++ ['/'] <+: old := by
  rcases hs with ⟨block, rfl⟩ | ⟨tail, rfl⟩
  · exact slash_prefix_blockKey_iff.mp hbegins
  · have hslash : old ++ ['/'] <+: old ++ '/' :: tail := ⟨tail, by simp⟩
    rcases List.prefix_or_prefix_of_prefix hbegins hslash with h | h
    · exact (List.prefix_concat_iff.mp h).resolve_left fun heq =>
        hne (List.append_cancel_right heq).symm
    · rcases List.prefix_concat_iff.mp h with heq | hbelow
      · exact absurd (List.append_cancel_right heq) hne
      · exact absurd hbelow hreq.not_below

/-- The own block that is found lies in the parent's map. -/
theorem exists_parent_of_found {value : V}
    (hvalue : store.hierarchicalMapGet (blockKey old 0) = some value) :
    findLastParentDir old ≠ new ∧ ∃ parent, store.getChildUnsafe old = some parent ∧
      parent.get (blockKey old 0) = some value := by
  have hdir := findLastParentDir_blockKey hreq.old_uri 0
  refine ⟨hdir ▸ hreq.parent_ne_new_of_found (by simp [hvalue]), ?_⟩
  rw [HierarchicalRecords.hierarchicalMapGet_eq, hdir, Option.bind_eq_some_iff] at hvalue
  exact hvalue

theorem no_deeper_of_renamed
    (hrenamed : Renamed DirSuffix store (srvRenameDirDir store old new).2 old new)
    (tail : CString) (hdir : findLastParentDir (old ++ '/' :: tail) ≠ old) :
    store.hierarchicalMapGet (old ++ '/' :: tail) = none := by
  have hgone := hrenamed.gone ('/' :: tail) (Or.inr ⟨tail, rfl⟩)
  cases hrecords : store.getDirUnsafe old with
  | none => rwa [srvRenameDirDir_of_none hrecords] at hgone
  | some records =>
      by_contra hsome
      have hnew := hreq.parent_ne_new_of_found (Option.isSome_iff_ne_none.mpr hsome)
      rw [get_srvRenameDirDir_other hreq.old_uri hrecords hdir hnew
        (fun _ => ⟨entry_ne_own_block tail 0, hreq.entry_ne_block tail 0⟩)] at hgone
      exact hsome hgone

theorem entries_of_renamed
    (hrenamed : Renamed DirSuffix store (srvRenameDirDir store old new).2 old new)
    (tail : CString) (hdir : findLastParentDir (old ++ '/' :: tail) = old) :
    store.hierarchicalMapGet (old ++ '/' :: tail) =
      if old = new then none else store.shownAs old new tail := by
  cases hrecords : store.getDirUnsafe old with
  | none =>
      simp [HierarchicalRecords.hierarchicalMapGet_eq, hdir, HierarchicalRecords.shownAs, hrecords]
  | some records =>
      have hfound := fun value => hrenamed.found ('/' :: tail) value (Or.inr ⟨tail, rfl⟩)
      split
      next heq =>
        by_contra hsome
        obtain ⟨value, hvalue⟩ := Option.ne_none_iff_exists'.mp hsome
        have hafter := hfound value hvalue
        rw [← heq] at hafter
        rw [get_srvRenameDirDir_old hreq.old_uri hrecords hdir] at hafter
        cases hafter
      next hne =>
        rw [← get_srvRenameDirDir_new hreq.old_uri hrecords hne
          (findLastParentDir_slash hreq.old_uri hreq.new_uri hdir)]
        cases hget : store.hierarchicalMapGet (old ++ '/' :: tail) with
        | some value => exact (hfound value hget).symm
        | none =>
            by_cases hown : ∃ s, DirSuffix s ∧ new ++ '/' :: tail = old ++ s
            · obtain ⟨s, hs, heq⟩ := hown
              rw [heq, hrenamed.gone s hs]
            · rw [hrenamed.kept _ (fun s hs heq => hown ⟨s, hs, heq⟩), hreq.get_below_new]
              intro s _ hsome heq
              rw [← List.append_cancel_left heq, hget] at hsome
              cases hsome

theorem only_zero_of_renamed
    (hrenamed : Renamed DirSuffix store (srvRenameDirDir store old new).2 old new)
    (block : Int) (hfound : (store.hierarchicalMapGet (blockKey old block)).isSome) :
    block = 0 := by
  have hgone : (srvRenameDirDir store old new).2.hierarchicalMapGet (blockKey old block) = none :=
    hrenamed.gone _ (Or.inl ⟨block, rfl⟩)
  by_contra hblock
  have hdir := findLastParentDir_blockKey hreq.old_uri block
  cases hrecords : store.getDirUnsafe old with
  | none =>
      rw [srvRenameDirDir_of_none hrecords] at hgone
      simp [hgone] at hfound
  | some records =>
      rw [get_srvRenameDirDir_other hreq.old_uri hrecords
        (hdir ▸ findLastParentDir_ne_self hreq.old_uri) (hreq.parent_ne_new_of_found hfound)
        (fun _ => ⟨by simp [hblock], by simp [hblock]⟩)] at hgone
      simp [hgone] at hfound

/-- The new own block, when it lies in another directory, is found as before. -/
theorem get_new_zero_other (hrecords : store.getDirUnsafe old = some records)
    (hdir : findLastParentDir new ≠ findLastParentDir old) :
    (srvRenameDirDir store old new).2.hierarchicalMapGet (blockKey new 0) =
      store.hierarchicalMapGet (blockKey new 0) := by
  have hnew := findLastParentDir_blockKey hreq.new_uri 0
  exact get_srvRenameDirDir_other hreq.old_uri hrecords
    (hnew ▸ hreq.parent_new_ne_old) (hnew ▸ findLastParentDir_ne_self hreq.new_uri)
    (fun h => absurd (hnew.symm.trans h) hdir)

theorem zero_of_renamed
    (hrenamed : Renamed DirSuffix store (srvRenameDirDir store old new).2 old new) (value : V)
    (hvalue : store.hierarchicalMapGet (blockKey old 0) = some value) :
    (store.getDirUnsafe old).isSome ∧
      (∀ parent, store.getChildUnsafe old = some parent → parent.get (blockKey new 0) = none) ∧
      (findLastParentDir new = findLastParentDir old ∨
        store.hierarchicalMapGet (blockKey new 0) = some value) := by
  have hgone : (srvRenameDirDir store old new).2.hierarchicalMapGet (blockKey old 0) = none :=
    hrenamed.gone _ (Or.inl ⟨0, rfl⟩)
  have hfound : (srvRenameDirDir store old new).2.hierarchicalMapGet (blockKey new 0) =
      some value := hrenamed.found _ value (Or.inl ⟨0, rfl⟩) hvalue
  obtain ⟨hparentNew, parent, hchild, hget⟩ := hreq.exists_parent_of_found hvalue
  cases hrecords : store.getDirUnsafe old with
  | none =>
      rw [srvRenameDirDir_of_none hrecords, hvalue] at hgone
      cases hgone
  | some records =>
      refine ⟨rfl, fun parent' hparent' => ?_, ?_⟩
      · obtain rfl : parent = parent' := Option.some.inj (hchild.symm.trans hparent')
        by_contra htaken
        rw [get_srvRenameDirDir_beside hreq.old_uri hrecords
          (findLastParentDir_blockKey hreq.old_uri 0) hparentNew, hchild, Option.bind_some,
          MapRecords.updateKey_taken (Option.isSome_iff_ne_none.mpr htaken), hget] at hgone
        cases hgone
      · by_cases hdir : findLastParentDir new = findLastParentDir old
        · exact Or.inl hdir
        · rw [hreq.get_new_zero_other hrecords hdir] at hfound
          exact Or.inr hfound

omit hreq in
/-- Under the condition the own block is moved inside the parent's map. -/
theorem parent_moves (hcond : DirRenameCondition store old new) {parent : MapRecords V} {value : V}
    (hchild : store.getChildUnsafe old = some parent)
    (hvalue : store.hierarchicalMapGet (blockKey old 0) = some value)
    (hget : parent.get (blockKey old 0) = some value) :
    blockKey old 0 ≠ blockKey new 0 ∧ parent.get (blockKey new 0) = none ∧
      (parent.updateKey (blockKey old 0) (blockKey new 0)).2 =
        { parent with buffer := moveKey parent.buffer (blockKey old 0) (blockKey new 0) } := by
  have hfree := (hcond.zero value hvalue).2.1 parent hchild
  have hne : blockKey old 0 ≠ blockKey new 0 := by
    intro heq
    rw [heq, hfree] at hget
    cases hget
  exact ⟨hne, hfree, MapRecords.updateKey_moves (by simp [hget]) hne hfree⟩

/-- A key in the directory `new` is found afterwards as the same key of `old` was. -/
theorem get_in_new (hcond : DirRenameCondition store old new) (hne : old ≠ new)
    (hrecords : store.getDirUnsafe old = some records) {tail : CString}
    (hdir : findLastParentDir (new ++ '/' :: tail) = new) :
    (srvRenameDirDir store old new).2.hierarchicalMapGet (new ++ '/' :: tail) =
      store.hierarchicalMapGet (old ++ '/' :: tail) := by
  have hentry := hcond.entries tail (findLastParentDir_slash hreq.new_uri hreq.old_uri hdir)
  rw [get_srvRenameDirDir_new hreq.old_uri hrecords hne hdir, hentry, if_neg hne]

theorem found_of_condition (hcond : DirRenameCondition store old new)
    (hrecords : store.getDirUnsafe old = some records) {s : CString} {value : V}
    (hs : DirSuffix s) (hvalue : store.hierarchicalMapGet (old ++ s) = some value) :
    (srvRenameDirDir store old new).2.hierarchicalMapGet (new ++ s) = some value := by
  rcases hs with ⟨block, rfl⟩ | ⟨tail, rfl⟩
  · obtain rfl : block = 0 := hcond.only_zero block (by rw [blockKey, hvalue]; rfl)
    rw [← blockKey] at hvalue ⊢
    obtain ⟨hparentNew, parent, hchild, hget⟩ := hreq.exists_parent_of_found hvalue
    by_cases hdir : findLastParentDir new = findLastParentDir old
    · obtain ⟨-, hfree, hmoves⟩ := parent_moves hcond hchild hvalue hget
      rw [get_srvRenameDirDir_beside hreq.old_uri hrecords
        ((findLastParentDir_blockKey hreq.new_uri 0).trans hdir) hparentNew, hchild,
        Option.bind_some, hmoves]
      exact getElem?_moveKey_new hget hfree
    · rw [hreq.get_new_zero_other hrecords hdir]
      exact (hcond.zero value hvalue).2.2.resolve_left hdir
  · by_cases hdir : findLastParentDir (old ++ '/' :: tail) = old
    · have hne : old ≠ new := by
        intro heq
        rw [hcond.entries tail hdir, if_pos heq] at hvalue
        cases hvalue
      rw [hreq.get_in_new hcond hne hrecords
        (findLastParentDir_slash hreq.old_uri hreq.new_uri hdir), hvalue]
    · rw [hcond.no_deeper tail hdir] at hvalue
      cases hvalue

theorem gone_of_condition (hcond : DirRenameCondition store old new)
    (hrecords : store.getDirUnsafe old = some records) {s : CString} (hs : DirSuffix s) :
    (srvRenameDirDir store old new).2.hierarchicalMapGet (old ++ s) = none := by
  by_cases hdirOld : findLastParentDir (old ++ s) = old
  · exact get_srvRenameDirDir_old hreq.old_uri hrecords hdirOld
  by_cases hdirNew : findLastParentDir (old ++ s) = new
  · -- then the whole of `old` lies below `new`, where nothing was found
    have hne : old ≠ new := fun heq => hdirOld (hdirNew.trans heq.symm)
    obtain ⟨tail, htail⟩ := slash_prefix_of_filed hreq.new_uri hdirNew
    obtain ⟨rest, hrest⟩ := hreq.below_new_of_prefix hne hs ⟨tail, htail⟩
    rw [List.append_assoc, List.singleton_append] at htail
    rw [← htail] at hdirNew ⊢
    rw [hreq.get_in_new hcond hne hrecords hdirNew]
    have hbelow := hreq.get_below_new (rest ++ '/' :: tail)
    rw [← hrest]
    simpa using hbelow
  rcases hs with ⟨block, rfl⟩ | ⟨tail, rfl⟩
  · rw [← blockKey] at hdirOld hdirNew ⊢
    cases hzero : store.hierarchicalMapGet (blockKey old 0) with
    | none =>
        rw [get_srvRenameDirDir_absent hreq.old_uri hrecords hdirOld hdirNew hzero]
        by_contra hsome
        have hblock := hcond.only_zero block (Option.isSome_iff_ne_none.mpr hsome)
        exact hsome (hblock ▸ hzero)
    | some value =>
        obtain ⟨hparentNew, parent, hchild, hget⟩ := hreq.exists_parent_of_found hzero
        obtain ⟨hne, -, hmoves⟩ := parent_moves hcond hchild hzero hget
        by_cases hblock : block = 0
        · subst hblock
          rw [get_srvRenameDirDir_beside hreq.old_uri hrecords
            (findLastParentDir_blockKey hreq.old_uri 0) hparentNew, hchild, Option.bind_some,
            hmoves]
          exact getElem?_moveKey_old hne.symm
        · rw [get_srvRenameDirDir_other hreq.old_uri hrecords hdirOld hdirNew
            (fun _ => ⟨by simp [hblock], by simp [hblock]⟩)]
          by_contra hsome
          exact hblock (hcond.only_zero block (Option.isSome_iff_ne_none.mpr hsome))
  · rw [get_srvRenameDirDir_other hreq.old_uri hrecords hdirOld hdirNew
      (fun _ => ⟨entry_ne_own_block tail 0, hreq.entry_ne_block tail 0⟩),
      hcond.no_deeper tail hdirOld]

theorem kept_of_condition (hcond : DirRenameCondition store old new)
    (hrecords : store.getDirUnsafe old = some records) {key : CString}
    (hold : ∀ s, DirSuffix s → key ≠ old ++ s)
    (hnew : ∀ s, DirSuffix s → (store.hierarchicalMapGet (old ++ s)).isSome → key ≠ new ++ s) :
    (srvRenameDirDir store old new).2.hierarchicalMapGet key = store.hierarchicalMapGet key := by
  have hdirOld : findLastParentDir key ≠ old := by
    intro h
    obtain ⟨tail, rfl⟩ := slash_prefix_of_filed hreq.old_uri h
    exact hold ('/' :: tail) (Or.inr ⟨tail, rfl⟩) (by simp)
  by_cases hdirNew : findLastParentDir key = new
  · have hne : old ≠ new := fun heq => hdirOld (hdirNew.trans heq.symm)
    obtain ⟨tail, rfl⟩ := slash_prefix_of_filed hreq.new_uri hdirNew
    rw [List.append_assoc, List.singleton_append] at hdirNew hnew ⊢
    rw [hreq.get_in_new hcond hne hrecords hdirNew, hreq.get_below_new]
    by_contra hsome
    exact hnew ('/' :: tail) (Or.inr ⟨tail, rfl⟩) (Option.isSome_iff_ne_none.mpr hsome) rfl
  · cases hzero : store.hierarchicalMapGet (blockKey old 0) with
    | none => exact get_srvRenameDirDir_absent hreq.old_uri hrecords hdirOld hdirNew hzero
    | some value =>
        exact get_srvRenameDirDir_other hreq.old_uri hrecords hdirOld hdirNew fun _ =>
          ⟨hold _ (Or.inl ⟨0, rfl⟩), hnew _ (Or.inl ⟨0, rfl⟩) (by rw [← blockKey, hzero]; rfl)⟩

/-- Under the condition the directory is renamed. One without a map has no keys then, and the
request does nothing. -/
theorem renamed_of_condition (hcond : DirRenameCondition store old new) :
    Renamed DirSuffix store (srvRenameDirDir store old new).2 old new := by
  cases hrecords : store.getDirUnsafe old with
  | some records =>
      exact
        { found := fun s value hs hvalue => hreq.found_of_condition hcond hrecords hs hvalue
          gone := fun s hs => hreq.gone_of_condition hcond hrecords hs
          kept := fun key hold hnew => hreq.kept_of_condition hcond hrecords hold hnew }
  | none =>
      rw [srvRenameDirDir_of_none hrecords]
      have hnone : ∀ s, DirSuffix s → store.hierarchicalMapGet (old ++ s) = none := by
        rintro s (⟨block, rfl⟩ | ⟨tail, rfl⟩)
        · by_contra hsome
          obtain ⟨value, hvalue⟩ := Option.ne_none_iff_exists'.mp hsome
          obtain rfl : block = 0 :=
            hcond.only_zero block (Option.isSome_iff_ne_none.mpr hsome)
          have hmap := (hcond.zero value hvalue).1
          simp [hrecords] at hmap
        · by_cases hdir : findLastParentDir (old ++ '/' :: tail) = old
          · rw [HierarchicalRecords.hierarchicalMapGet_eq, hdir, hrecords, Option.bind_none]
          · exact hcond.no_deeper tail hdir
      exact
        { found := fun s value hs hvalue => by
            rw [hnone s hs] at hvalue
            cases hvalue
          gone := hnone
          kept := fun key _ _ => rfl }

end DirRequest

/-- A data server renames a directory correctly exactly when there is nothing to
rename but the directory's own block 0, or its map happens to hold the new keys already. -/
theorem srvRenameDirDir_renamed_iff (store : HierarchicalRecords V) (old new : FileUri)
    (hbelow : ¬ old.1 ++ ['/'] <+: new.1)
    (hempty : ∀ key, (store.hierarchicalMapGet key).isSome → ¬ new.1 ++ ['/'] <+: key) :
    Renamed DirSuffix store (srvRenameDirDir store old.1 new.1).2 old.1 new.1 ↔
      DirRenameCondition store old.1 new.1 := by
  have hreq : DirRequest store old.1 new.1 := ⟨old.2, new.2, hbelow, hempty⟩
  constructor
  · intro hrenamed
    exact
      { entries := hreq.entries_of_renamed hrenamed
        no_deeper := hreq.no_deeper_of_renamed hrenamed
        only_zero := hreq.only_zero_of_renamed hrenamed
        zero := hreq.zero_of_renamed hrenamed }
  · exact hreq.renamed_of_condition

/-- A store that holds the directory `imss://a`, with a map of its own. -/
def oneDirectory : HierarchicalRecords Nat :=
  (HierarchicalRecords.init imssRoot).hierarchicalMapPut (fun value => value == 4)
    (blockKey "imss://a".toList 0) 4 true

/-- An empty directory is renamed inside its parent directory. -/
theorem renamed_empty_directory :
    Renamed DirSuffix oneDirectory
      (srvRenameDirDir oneDirectory "imss://a".toList "imss://b".toList).2
      "imss://a".toList "imss://b".toList := by
  have hnone : ∀ key, key ≠ blockKey "imss://a".toList 0 →
      oneDirectory.hierarchicalMapGet key = none := by
    intro key hkey
    rw [oneDirectory, HierarchicalRecords.hierarchicalMapGet_put_of_ne _ _ hkey.symm]
    exact HierarchicalRecords.hierarchicalMapGet_init _ _
  have hfound : ∀ key, (oneDirectory.hierarchicalMapGet key).isSome →
      key = blockKey "imss://a".toList 0 := by
    intro key hsome
    by_contra hkey
    simp [hnone key hkey] at hsome
  have hfiled : oneDirectory.Filed := (HierarchicalRecords.everyKey_init _ imssRoot).put rfl _ _ _
  refine (srvRenameDirDir_renamed_iff oneDirectory
    ⟨"imss://a".toList, by decide, by decide⟩ ⟨"imss://b".toList, by decide, by decide⟩
    (by decide) fun key hsome => ?_).mpr ?_
  · rw [hfound key hsome]
    decide
  · exact
      { entries := fun tail hdir => by
          rw [hnone _ (DirRequest.entry_ne_own_block tail 0), if_neg (by decide),
            hfiled.shownAs (by decide)
              (findLastParentDir_slash ⟨by decide, by decide⟩ ⟨by decide, by decide⟩ hdir)]
        no_deeper := fun tail _ => hnone _ (DirRequest.entry_ne_own_block tail 0)
        only_zero := fun block hsome => by
          have hkey := hfound _ hsome
          rw [blockKey_inj] at hkey
          exact hkey.2
        zero := fun value _ => by
          refine ⟨by decide +kernel, fun parent hparent => ?_, Or.inl (by decide)⟩
          have hget : (oneDirectory.getChildUnsafe "imss://a".toList).map
              (fun parent => parent.get (blockKey "imss://b".toList 0)) = some none := by
            decide +kernel
          rw [hparent] at hget
          exact Option.some.inj hget }

/-- The same directory with a block of a file in it. -/
def oneDirectoryWithFile : HierarchicalRecords Nat :=
  oneDirectory.hierarchicalMapPut (fun _ => false) (blockKey "imss://a/f".toList 1) 7 false

/-- A block in the directory is found under neither name afterwards. -/
theorem not_renamed_directory_with_file :
    (oneDirectoryWithFile.Filed ∧ ¬ "imss://a".toList ++ ['/'] <+: "imss://b".toList ∧
        ∀ key, (oneDirectoryWithFile.hierarchicalMapGet key).isSome →
          ¬ "imss://b".toList ++ ['/'] <+: key) ∧
      ¬ Renamed DirSuffix oneDirectoryWithFile
        (srvRenameDirDir oneDirectoryWithFile "imss://a".toList "imss://b".toList).2
        "imss://a".toList "imss://b".toList := by
  refine ⟨⟨((HierarchicalRecords.everyKey_init _ imssRoot).put rfl _ _ _).put rfl _ _ _, by decide,
    fun key hsome => ?_⟩, fun hrenamed => ?_⟩
  · by_cases hfile : blockKey "imss://a/f".toList 1 = key
    · rw [← hfile]
      decide
    · rw [oneDirectoryWithFile, HierarchicalRecords.hierarchicalMapGet_put_of_ne _ _ hfile] at hsome
      by_cases hdir : blockKey "imss://a".toList 0 = key
      · rw [← hdir]
        decide
      · rw [oneDirectory, HierarchicalRecords.hierarchicalMapGet_put_of_ne _ _ hdir,
          HierarchicalRecords.hierarchicalMapGet_init] at hsome
        cases hsome
  · have hfound := hrenamed.found "/f$1".toList 7 (Or.inr ⟨"f$1".toList, by decide⟩)
      (by decide +kernel)
    have hlost : (srvRenameDirDir oneDirectoryWithFile "imss://a".toList
        "imss://b".toList).2.hierarchicalMapGet ("imss://b".toList ++ "/f$1".toList) = none := by
      decide +kernel
    rw [hlost] at hfound
    cases hfound

/-! ## Metadata servers -/

/-- The file types of `dataset_info`. -/
inductive DatasetType
  | herculesInstance
  | regularFile
  | directory
  | error
  deriving DecidableEq

/-- The fields of `dataset_info` that the server's own logic uses. -/
structure DatasetInfo where
  uri : CString
  type : DatasetType
  deriving DecidableEq

/-- `CheckIfDirectory` on a metadata server compares with `TYPE_DIRECTORY`. -/
def DatasetInfo.isDirectory (info : DatasetInfo) : Bool :=
  info.type == .directory

/-- `strncpy(data->uri_, new_path, URI_)`. -/
def DatasetInfo.setUri (newPath : CString) (info : DatasetInfo) : DatasetInfo :=
  { info with uri := newPath.take 256 }

/-- The directory itself, or something below it. -/
def TreeSuffix (suffix : CString) : Prop :=
  suffix = [] ∨ ∃ tail, suffix = '/' :: tail

/-- Every dataset of the tree is found under the new name and says so itself, none
is found under the old name, the new parent lists the new directory, and every
other dataset is found as before. -/
structure DatasetsRenamed (store store' : HierarchicalRecords DatasetInfo) (old new : CString) :
    Prop where
  found : ∀ s info, TreeSuffix s → store.hierarchicalMapGet (old ++ s) = some info →
    ∃ info', store'.hierarchicalMapGet (new ++ s) = some info' ∧ info'.uri = new ++ s
  gone : ∀ s, TreeSuffix s → store'.hierarchicalMapGet (old ++ s) = none
  listed : ∃ entries, store'.hierarchicalMapListDir (findLastParentDir new) = some entries ∧
    new ∈ entries
  kept : ∀ key, (∀ s, TreeSuffix s → key ≠ old ++ s) →
    (∀ s, TreeSuffix s → (store.hierarchicalMapGet (old ++ s)).isSome → key ≠ new ++ s) →
      store'.hierarchicalMapGet key = store.hierarchicalMapGet key

section Metadata

variable {store : HierarchicalRecords V} {setUri : CString → V → V} {old new : CString}

theorem statRenameDirDir_of_none (hold : IsFileUri old) (hnone : store.getDirUnsafe old = none) :
    (statRenameDirDir setUri store old new).2 = store := by
  rw [statRenameDirDir, removeLastSlash_of_ne hold.no_trailing_slash,
    HierarchicalRecords.backEndHierarchicalMapRenameDirDirMetadata, renameDirDir_of_none hnone,
    renameKey_of_none hnone]

/-- Outside the directory only the parent's map changes, and in it only the
directory's own key. -/
theorem getDirUnsafe_statRenameDirDir (hold : IsFileUri old) (hnew : IsFileUri new)
    {records : MapRecords V} (hrecords : store.getDirUnsafe old = some records) {dir : CString}
    (hdirOld : old ≠ dir) (hdirNew : new ≠ dir) :
    (statRenameDirDir setUri store old new).2.getDirUnsafe dir =
      if findLastParentDir old = dir then
        (store.getDirUnsafe dir).map fun parent => (parent.updateKey old new).2
      else store.getDirUnsafe dir := by
  rw [statRenameDirDir, removeLastSlash_of_ne hold.no_trailing_slash,
    removeLastSlash_of_ne hnew.no_trailing_slash]
  obtain ⟨moved, hmoved⟩ : ∃ moved,
      (store.backEndHierarchicalMapRenameDirDirMetadata setUri old new).2.getDirUnsafe old =
        some moved := by
    rw [HierarchicalRecords.backEndHierarchicalMapRenameDirDirMetadata,
      getDirUnsafe_renameDirDir hold hrecords, if_neg (findLastParentDir_ne_self hold)]
    split
    · exact ⟨_, rfl⟩
    · exact ⟨records, hrecords⟩
  show (HierarchicalRecords.hierarchicalMapRenameKey _ old new).2.getDirUnsafe dir = _
  rw [getDirUnsafe_renameKey hmoved, if_neg hdirOld, if_neg hdirNew,
    HierarchicalRecords.backEndHierarchicalMapRenameDirDirMetadata,
    getDirUnsafe_renameDirDir hold hrecords]
  simp [hdirOld]

/-- What is found under the new name is the directory's entry, unchanged. -/
theorem get_statRenameDirDir_new (hold : IsFileUri old) (hnew : IsFileUri new)
    (hbelow : ¬ old ++ ['/'] <+: new) {value value' : V}
    (hvalue : store.hierarchicalMapGet old = some value)
    (hfree : store.hierarchicalMapGet new = none) {records : MapRecords V}
    (hrecords : store.getDirUnsafe old = some records)
    (hfound : (statRenameDirDir setUri store old new).2.hierarchicalMapGet new = some value') :
    value' = value := by
  have hparentOld : old ≠ findLastParentDir new :=
    fun h => hbelow (slash_prefix_of_filed hold h.symm)
  rw [HierarchicalRecords.hierarchicalMapGet_eq] at hvalue hfree
  rw [HierarchicalRecords.hierarchicalMapGet_eq, getDirUnsafe_statRenameDirDir hold hnew hrecords
    hparentOld (findLastParentDir_ne_self hnew).symm] at hfound
  split at hfound
  next hdir =>
    rw [← hdir] at hfree hfound
    cases hparent : store.getDirUnsafe (findLastParentDir old) with
    | none => simp [hparent] at hvalue
    | some parent =>
        rw [hparent, Option.bind_some] at hvalue hfree
        rw [hparent, Option.map_some, Option.bind_some, MapRecords.updateKey_moves
          (by simp [hvalue]) (by rintro rfl; simp [hvalue] at hfree) hfree] at hfound
        exact Option.some.inj (hfound.symm.trans (getElem?_moveKey_new hvalue hfree))
  next =>
    rw [hfree] at hfound
    cases hfound

end Metadata

/-- Whatever the stored datasets, the renamed directory's own entry still carries
the old name, so the request never does what it should. The hypothesis on the name
in the entry is what a `SET` stores. A directory that was renamed before carries its
first name, and a rename back to that name comes out right. -/
theorem statRenameDirDir_not_renamed {store : HierarchicalRecords DatasetInfo} (old new : FileUri)
    {info : DatasetInfo} (hinfo : store.hierarchicalMapGet old.1 = some info)
    (huri : removeLastSlash info.uri = old.1) (hbelow : ¬ old.1 ++ ['/'] <+: new.1)
    (hfree : store.hierarchicalMapGet new.1 = none) :
    ¬ DatasetsRenamed store (statRenameDirDir DatasetInfo.setUri store old.1 new.1).2
      old.1 new.1 := by
  intro hrenamed
  have hroot : store.hierarchicalMapGet (old.1 ++ []) = some info := by
    rwa [List.append_nil]
  cases hrecords : store.getDirUnsafe old.1 with
  | none =>
      have hgone := hrenamed.gone [] (Or.inl rfl)
      rw [statRenameDirDir_of_none old.2 hrecords, hroot] at hgone
      cases hgone
  | some records =>
      obtain ⟨info', hfound, hname⟩ := hrenamed.found [] info (Or.inl rfl) hroot
      rw [List.append_nil] at hfound hname
      obtain rfl := get_statRenameDirDir_new old.2 new.2 hbelow hinfo hfree hrecords hfound
      rw [hname, removeLastSlash_of_ne new.2.no_trailing_slash] at huri
      rw [huri, hinfo] at hfree
      cases hfree

/-- A namespace that holds one directory and a file in it. -/
def oneDirectoryNamespace : HierarchicalRecords DatasetInfo :=
  ((HierarchicalRecords.init imssRoot).hierarchicalMapPut DatasetInfo.isDirectory
    "imss://a".toList ⟨"imss://a/".toList, .directory⟩ true).hierarchicalMapPut
      DatasetInfo.isDirectory "imss://a/f".toList ⟨"imss://a/f".toList, .regularFile⟩ true

theorem oneDirectoryNamespace_not_renamed :
    ¬ DatasetsRenamed oneDirectoryNamespace
      (statRenameDirDir DatasetInfo.setUri oneDirectoryNamespace "imss://a".toList
        "imss://c/d".toList).2 "imss://a".toList "imss://c/d".toList :=
  statRenameDirDir_not_renamed ⟨"imss://a".toList, by decide, by decide⟩
    ⟨"imss://c/d".toList, by decide, by decide⟩
    (show oneDirectoryNamespace.hierarchicalMapGet "imss://a".toList =
      some ⟨"imss://a/".toList, .directory⟩ by decide +kernel)
    (by decide) (by decide) (by decide +kernel)

/-- Inside one parent directory the entry is found, with its old name. -/
theorem not_datasetsRenamed_same_parent :
    oneDirectoryNamespace.hierarchicalMapGet "imss://b".toList = none ∧
      ¬ DatasetsRenamed oneDirectoryNamespace
        (statRenameDirDir DatasetInfo.setUri oneDirectoryNamespace "imss://a".toList
          "imss://b".toList).2 "imss://a".toList "imss://b".toList := by
  refine ⟨by decide +kernel, fun hrenamed => ?_⟩
  obtain ⟨info, hfound, hname⟩ := hrenamed.found [] ⟨"imss://a/".toList, .directory⟩ (Or.inl rfl)
    (by decide +kernel)
  have hentry : (statRenameDirDir DatasetInfo.setUri oneDirectoryNamespace "imss://a".toList
      "imss://b".toList).2.hierarchicalMapGet ("imss://b".toList ++ []) =
        some ⟨"imss://a/".toList, .directory⟩ := by decide +kernel
  rw [hentry, Option.some.injEq] at hfound
  rw [← hfound] at hname
  revert hname
  decide

end Hercules
