/-
# Renaming a regular file on one server

Both server kinds rename a file through `rename_data_srv_worker`: it scans the
map of the old name's directory, cuts every key at its first `$`, and moves the
keys whose front part is the old name. A data server's keys `uri$block` suit this
scan. A metadata server's keys are plain URIs, for which the cut throws. On both,
the moved keys stay in the map of the old directory, where a lookup under a name
of another directory does not search.

`renameCorrect_iff` says for which stores the outcome is what a rename should be.
The parameter `suffix` describes the keys a file owns: `$block` on a data server,
nothing after the name on a metadata server.
-/

import Mathlib.Data.Finset.Max
import Hercules.HierarchicalRecords

namespace Hercules

open Std Lib Lib.Text

universe u

/-- The confirmation messages of the servers. -/
inductive Reply
  | ok
  | error
  | rename
  | delete
  | noDelete
  deriving DecidableEq

variable {V : Type u}

/-- `RENAME_OP` of `srv_worker_helper`, with the two names of the request. -/
def srvRename (store : HierarchicalRecords V) (oldKey newKey : CString) :
    Except Uncaught (Reply × HierarchicalRecords V) :=
  (store.hierarchicalMapRenameRegularFile oldKey newKey).map fun result =>
    (if result.1 ≠ 0 then .error else .ok, result.2)

/-- `RENAME_OP` of `stat_worker_helper`, with the two names of the request. -/
def statRename (store : HierarchicalRecords V) (oldKeyTree newKeyTree : CString) :
    Except Uncaught (Reply × HierarchicalRecords V) :=
  (store.hierarchicalMapRenameRegularFile (removeLastSlash oldKeyTree)
    (removeLastSlash newKeyTree)).map fun result =>
      (if result.1 = -1 then .error else .rename, result.2)

/-! ## What a rename should do -/

/-- The keys of a file on a data server continue its name with `$block`. -/
def BlockSuffix (suffix : CString) : Prop :=
  ∃ block : Int, suffix = '$' :: decimal block

/-- The key of a dataset entry on a metadata server is its name. -/
def EntrySuffix (suffix : CString) : Prop :=
  suffix = []

/-- The file's keys are found under the new name with their values, none is found
under the old name, and every other key is found as before. -/
structure Renamed (suffix : CString → Prop) (store store' : HierarchicalRecords V)
    (old new : CString) : Prop where
  found : ∀ s value, suffix s → store.hierarchicalMapGet (old ++ s) = some value →
    store'.hierarchicalMapGet (new ++ s) = some value
  gone : ∀ s, suffix s → store'.hierarchicalMapGet (old ++ s) = none
  kept : ∀ key, (∀ s, suffix s → key ≠ old ++ s) →
    (∀ s, suffix s → (store.hierarchicalMapGet (old ++ s)).isSome → key ≠ new ++ s) →
      store'.hierarchicalMapGet key = store.hierarchicalMapGet key

/-- No exception escapes, and a confirmed rename has renamed the file. -/
def RenameCorrect (suffix : CString → Prop) (store : HierarchicalRecords V) (old new : CString)
    (outcome : Except Uncaught (Reply × HierarchicalRecords V)) : Prop :=
  match outcome with
  | .error _ => False
  | .ok (reply, store') => reply ≠ .error → Renamed suffix store store' old new

/-! ## When it does so -/

/-- Every key stored beside the old name has a separator. -/
def AllCut (store : HierarchicalRecords V) (old : CString) : Prop :=
  ∀ records key, store.getChildUnsafe old = some records → (records.get key).isSome → '$' ∈ key

/-- Some key stored beside the old name is cut back to it. -/
def SomeMatch (store : HierarchicalRecords V) (old : CString) : Prop :=
  ∃ records key, store.getChildUnsafe old = some records ∧ (records.get key).isSome ∧
    upTo '$' key = old

/-- Every key that is cut back to the old name belongs to the file, unless the
move of the key changes no lookup. -/
def OnlyOwnKeys (suffix : CString → Prop) (store : HierarchicalRecords V) (old new : CString) :
    Prop :=
  ∀ records key, store.getChildUnsafe old = some records → (records.get key).isSome →
    upTo '$' key = old →
      (∃ s, suffix s ∧ key = old ++ s) ∨
        (findLastParentDir key ≠ findLastParentDir old ∧
          (findLastParentDir (new ++ fromOn '$' key) ≠ findLastParentDir old ∨
            (store.hierarchicalMapGet (new ++ fromOn '$' key)).isSome))

/-- Each key of the file can be found under the new name: the name is free and in
the same directory, or the same value already stands there. -/
def RoomForKeys (suffix : CString → Prop) (store : HierarchicalRecords V) (old new : CString) :
    Prop :=
  ∀ s value, suffix s → store.hierarchicalMapGet (old ++ s) = some value →
    (findLastParentDir new = findLastParentDir old ∧
        store.hierarchicalMapGet (new ++ s) = none) ∨
      store.hierarchicalMapGet (new ++ s) = some value

/-- The stores on which a rename from `old` to `new` is correct. -/
def RenameCondition (suffix : CString → Prop) (store : HierarchicalRecords V)
    (old new : CString) : Prop :=
  AllCut store old ∧
    (SomeMatch store old →
      if old = new then ∀ s, suffix s → store.hierarchicalMapGet (old ++ s) = none
      else OnlyOwnKeys suffix store old new ∧ RoomForKeys suffix store old new)

/-! ## The keys a file owns -/

/-- Nothing, or one separator and text without separator or slash. -/
def OwnSuffix (suffix : CString → Prop) : Prop :=
  ∀ s, suffix s → s = [] ∨ ∃ tail, s = '$' :: tail ∧ '$' ∉ tail ∧ '/' ∉ tail

theorem ownSuffix_block : OwnSuffix BlockSuffix := by
  rintro s ⟨block, rfl⟩
  exact Or.inr ⟨_, rfl, dollar_notMem_decimal block, slash_notMem_decimal block⟩

theorem ownSuffix_entry : OwnSuffix EntrySuffix :=
  fun _ hs => Or.inl hs

variable {suffix : CString → Prop} {old new : CString}

/-- The file's keys are filed beside its name. -/
theorem OwnSuffix.findLastParentDir_append (hsuffix : OwnSuffix suffix) {uri s : CString}
    (huri : IsFileUri uri) (hs : suffix s) :
    findLastParentDir (uri ++ s) = findLastParentDir uri := by
  rcases hsuffix s hs with rfl | ⟨tail, rfl, -, hslash⟩
  · rw [List.append_nil]
  · refine (findLastParentDir_append_dollar huri tail).mpr fun hmem => ?_
    rw [removeLastSlash_dollar, removeLastSlash] at hmem
    split at hmem <;> simp_all [List.mem_of_mem_dropLast]

/-- A key with a separator and the front part `old`. -/
theorem exists_tail_of_upTo_eq {key : CString} (hmem : '$' ∈ key) (hcut : upTo '$' key = old) :
    ∃ tail, key = old ++ '$' :: tail := by
  obtain ⟨tail, htail⟩ := exists_eq_upTo_append_cons hmem
  exact ⟨tail, by rwa [hcut] at htail⟩

/-- A moved key can be one of the old name only if the new name extends it. -/
theorem extends_of_target_eq (hold : '$' ∉ old) (hne : old ≠ new) {tail tail' : CString}
    (heq : new ++ '$' :: tail = old ++ '$' :: tail') : ∃ middle, new = old ++ '$' :: middle := by
  have hcut : upTo '$' (new ++ '$' :: tail) = old := by
    rw [heq, upTo_append_cons hold]
  by_cases hnew : '$' ∈ new
  · obtain ⟨middle, hmiddle⟩ := exists_eq_upTo_append_cons hnew
    refine ⟨middle, ?_⟩
    rw [hmiddle, List.append_assoc, List.cons_append,
      upTo_append_cons (notMem_upTo '$' new)] at hcut
    rwa [hcut] at hmiddle
  · rw [upTo_append_cons hnew] at hcut
    exact absurd hcut.symm hne

/-- No key is moved onto a key of the old name. -/
theorem OwnSuffix.target_ne (hsuffix : OwnSuffix suffix) (hold : '$' ∉ old) (hne : old ≠ new)
    {s : CString} (hs : suffix s) (tail : CString) : new ++ '$' :: tail ≠ old ++ s := by
  intro heq
  rcases hsuffix s hs with rfl | ⟨tail', rfl, hdollar, -⟩
  · rw [List.append_nil] at heq
    exact hold (heq ▸ by simp)
  · obtain ⟨middle, rfl⟩ := extends_of_target_eq hold hne heq
    rw [List.append_assoc, List.append_cancel_left_eq, List.cons_append, List.cons.injEq] at heq
    exact hdollar (heq.2 ▸ by simp)

/-! ## The moved keys of one map -/

section Worker

variable {records : MapRecords V}

/-- The entries after the moves of `rename_data_srv_worker`. -/
def renamedRecords (records : MapRecords V) (old new : CString) : MapRecords V :=
  { records with
    buffer := moveKeys records.buffer (fun key => new ++ fromOn '$' key)
      (records.keysOfPath old) }

theorem mem_keysOfPath_append (hold : '$' ∉ old) (tail : CString) :
    old ++ '$' :: tail ∈ records.keysOfPath old ↔ (records.get (old ++ '$' :: tail)).isSome := by
  rw [MapRecords.mem_keysOfPath, upTo_append_cons hold]
  simp

/-- Every scanned key has the expected form. -/
theorem exists_tail_of_mem_keysOfPath
    (hcut : ∀ key, (records.get key).isSome → '$' ∈ key) {key : CString}
    (hkey : key ∈ records.keysOfPath old) : ∃ tail, key = old ++ '$' :: tail := by
  rw [MapRecords.mem_keysOfPath] at hkey
  exact exists_tail_of_upTo_eq (hcut key hkey.1) hkey.2

variable (hold : '$' ∉ old) (hcut : ∀ key, (records.get key).isSome → '$' ∈ key)

include hold hcut

/-- What a scanned key is moved to. -/
theorem target_of_mem_keysOfPath (new : CString) {key : CString}
    (hkey : key ∈ records.keysOfPath old) :
    ∃ tail, key = old ++ '$' :: tail ∧ new ++ fromOn '$' key = new ++ '$' :: tail := by
  obtain ⟨tail, rfl⟩ := exists_tail_of_mem_keysOfPath hcut hkey
  exact ⟨tail, rfl, by rw [fromOn_append_cons hold]⟩

/-- A scanned key that is nobody's target is free afterwards. -/
theorem get_renamedRecords_source {key : CString}
    (hkey : key ∈ records.keysOfPath old ∨ records.get key = none)
    (htarget : ∀ tail, (records.get (old ++ '$' :: tail)).isSome → new ++ '$' :: tail ≠ key) :
    (renamedRecords records old new).get key = none := by
  refine getElem?_moveKeys_source _ _ hkey fun moved hmoved => ?_
  obtain ⟨tail, rfl, hto⟩ := target_of_mem_keysOfPath hold hcut new hmoved
  rw [hto]
  exact htarget tail ((mem_keysOfPath_append hold tail).mp hmoved)

/-- A free target receives the value. -/
theorem get_renamedRecords_target {tail : CString} {value : V}
    (hvalue : records.get (old ++ '$' :: tail) = some value)
    (hfree : records.get (new ++ '$' :: tail) = none) :
    (renamedRecords records old new).get (new ++ '$' :: tail) = some value := by
  have hmem : old ++ '$' :: tail ∈ records.keysOfPath old :=
    (mem_keysOfPath_append hold tail).mpr (by simp [hvalue])
  have hto : new ++ fromOn '$' (old ++ '$' :: tail) = new ++ '$' :: tail := by
    rw [fromOn_append_cons hold]
  have hmoved := getElem?_moveKeys_target (f := fun key => new ++ fromOn '$' key)
    (records.keysOfPath old) records.buffer hmem
    (List.nodup_reverse.mpr (ExtTreeMap.nodup_keys.filter _)) ?_ ?_ hvalue ?_
  · rw [hto] at hmoved
    exact hmoved
  · intro key hkey heq
    obtain ⟨tail', rfl, hto'⟩ := target_of_mem_keysOfPath hold hcut new hkey
    rw [hto, hto', List.append_cancel_left_eq] at heq
    rw [heq]
  · rw [hto, MapRecords.mem_keysOfPath, hfree]
    simp
  · rw [hto]
    exact hfree

/-- A key that is not scanned and nobody's target is found as before. -/
theorem get_renamedRecords_of_ne {key : CString} (hkey : key ∉ records.keysOfPath old)
    (htarget : ∀ tail, (records.get (old ++ '$' :: tail)).isSome → new ++ '$' :: tail ≠ key) :
    (renamedRecords records old new).get key = records.get key := by
  refine getElem?_moveKeys_of_ne _ _ hkey fun moved hmoved => ?_
  obtain ⟨tail, rfl, hto⟩ := target_of_mem_keysOfPath hold hcut new hmoved
  rw [hto]
  exact htarget tail ((mem_keysOfPath_append hold tail).mp hmoved)

/-- Moves from a name to itself change no lookup. -/
theorem get_renamedRecords_self (key : CString) :
    (renamedRecords records old old).get key = records.get key := by
  refine getElem?_moveKeys_self _ _ _ fun moved hmoved => ?_
  obtain ⟨tail, rfl, hto⟩ := target_of_mem_keysOfPath hold hcut old hmoved
  exact hto

end Worker

/-- A key that is not scanned keeps its value, also when it is a target. -/
theorem get_renamedRecords_of_some {records : MapRecords V} {key : CString} {value : V}
    (hkey : key ∉ records.keysOfPath old) (hvalue : records.get key = some value) :
    (renamedRecords records old new).get key = some value :=
  getElem?_moveKeys_of_some _ _ hkey hvalue

/-! ## Lookups in the renamed store -/

section Store

variable {store : HierarchicalRecords V} {records : MapRecords V}

/-- The store after the moves. -/
def renamedStore (store : HierarchicalRecords V) (records : MapRecords V) (old new : CString) :
    HierarchicalRecords V :=
  store.setDir (findLastParentDir old) (renamedRecords records old new)

theorem get_renamedStore_visible {key : CString}
    (hdir : findLastParentDir key = findLastParentDir old) :
    (renamedStore store records old new).hierarchicalMapGet key =
      (renamedRecords records old new).get key := by
  rw [renamedStore, HierarchicalRecords.hierarchicalMapGet_setDir, if_pos hdir.symm]

theorem get_renamedStore_hidden {key : CString}
    (hdir : findLastParentDir key ≠ findLastParentDir old) :
    (renamedStore store records old new).hierarchicalMapGet key =
      store.hierarchicalMapGet key := by
  rw [renamedStore, HierarchicalRecords.hierarchicalMapGet_setDir, if_neg (Ne.symm hdir)]

/-- A key filed beside the old name is found in the scanned map. -/
theorem get_of_getChildUnsafe (hchild : store.getChildUnsafe old = some records) {key : CString}
    (hdir : findLastParentDir key = findLastParentDir old) :
    store.hierarchicalMapGet key = records.get key := by
  rw [HierarchicalRecords.getChildUnsafe] at hchild
  rw [HierarchicalRecords.hierarchicalMapGet, HierarchicalRecords.getChildUnsafe, hdir, hchild,
    Option.bind_some]

/-- A rename that finds keys to move, between two different names. -/
structure Scan (store : HierarchicalRecords V) (records : MapRecords V) (old new : CString) :
    Prop where
  child : store.getChildUnsafe old = some records
  cut : ∀ key, (records.get key).isSome → '$' ∈ key
  old_uri : IsFileUri old
  new_uri : IsFileUri new
  no_dollar : '$' ∉ old
  ne : old ≠ new

namespace Scan

variable (hscan : Scan store records old new) (hsuffix : OwnSuffix suffix)

include hscan

theorem get_visible {key : CString} (hdir : findLastParentDir key = findLastParentDir old) :
    store.hierarchicalMapGet key = records.get key :=
  get_of_getChildUnsafe hscan.child hdir

/-- A target is visible when the new name adds no directory and its source is. -/
theorem target_visible_iff {middle : CString} (hnew : new = old ++ '$' :: middle)
    (tail : CString) :
    findLastParentDir (new ++ '$' :: tail) = findLastParentDir old ↔
      '/' ∉ middle ∧ findLastParentDir (old ++ '$' :: tail) = findLastParentDir old := by
  rw [hnew, List.append_assoc, List.cons_append,
    findLastParentDir_append_dollar hscan.old_uri, findLastParentDir_append_dollar hscan.old_uri,
    ← List.cons_append, removeLastSlash_append _ (List.cons_ne_nil '$' tail)]
  simp

include hsuffix

/-- A key of the file that is found has a separator. -/
theorem exists_tail_of_found {s : CString} (hs : suffix s)
    (hfound : (store.hierarchicalMapGet (old ++ s)).isSome) :
    ∃ tail, s = '$' :: tail ∧ (records.get (old ++ '$' :: tail)).isSome := by
  rw [hscan.get_visible (hsuffix.findLastParentDir_append hscan.old_uri hs)] at hfound
  rcases hsuffix s hs with rfl | ⟨tail, rfl, -⟩
  · rw [List.append_nil] at hfound
    exact absurd (hscan.cut old hfound) hscan.no_dollar
  · exact ⟨tail, rfl, hfound⟩

variable (hkept : ∀ key, (∀ s, suffix s → key ≠ old ++ s) →
  (∀ s, suffix s → (store.hierarchicalMapGet (old ++ s)).isSome → key ≠ new ++ s) →
    (renamedStore store records old new).hierarchicalMapGet key = store.hierarchicalMapGet key)

include hkept

/-- If all other keys are found as before, the target of a visible foreign key is
a stored key as well. -/
theorem target_isSome {tail : CString} (hforeign : ¬ suffix ('$' :: tail))
    (hsome : (records.get (old ++ '$' :: tail)).isSome)
    (hdir : findLastParentDir (new ++ '$' :: tail) = findLastParentDir old) :
    (records.get (new ++ '$' :: tail)).isSome := by
  obtain ⟨value, hvalue⟩ := Option.isSome_iff_exists.mp hsome
  have hsame := hkept (new ++ '$' :: tail)
    (fun s hs => hsuffix.target_ne hscan.no_dollar hscan.ne hs tail)
    (fun s hs _ heq => hforeign (List.append_cancel_left heq ▸ hs))
  rw [get_renamedStore_visible hdir, hscan.get_visible hdir] at hsame
  by_contra hfree
  rw [Option.not_isSome_iff_eq_none] at hfree
  rw [get_renamedRecords_target hscan.no_dollar hscan.cut hvalue hfree, hfree] at hsame
  cases hsame

/-- A visible foreign key that no move refills would be lost. -/
theorem hidden_of_no_target {tail : CString} (hforeign : ¬ suffix ('$' :: tail))
    (hsome : (records.get (old ++ '$' :: tail)).isSome)
    (htarget : findLastParentDir (old ++ '$' :: tail) = findLastParentDir old →
      ∀ tail', new ++ '$' :: tail' ≠ old ++ '$' :: tail) :
    findLastParentDir (old ++ '$' :: tail) ≠ findLastParentDir old := by
  intro hdir
  have hsame := hkept (old ++ '$' :: tail)
    (fun s hs heq => hforeign (List.append_cancel_left heq ▸ hs))
    (fun s hs hfound heq => by
      obtain ⟨tail', rfl, -⟩ := hscan.exists_tail_of_found hsuffix hs hfound
      exact htarget hdir tail' heq.symm)
  rw [get_renamedStore_visible hdir, hscan.get_visible hdir,
    get_renamedRecords_source hscan.no_dollar hscan.cut
      (Or.inl ((mem_keysOfPath_append hscan.no_dollar tail).mpr hsome))
      (fun tail' _ => htarget hdir tail')] at hsame
  simp [← hsame] at hsome

/-- If all other keys are found as before, no foreign key was visible. -/
theorem foreign_hidden {tail : CString} (hforeign : ¬ suffix ('$' :: tail))
    (hsome : (records.get (old ++ '$' :: tail)).isSome) :
    findLastParentDir (old ++ '$' :: tail) ≠ findLastParentDir old := by
  classical
  by_cases hextends : ∃ middle, new = old ++ '$' :: middle
  · obtain ⟨middle, hnew⟩ := hextends
    by_cases hslash : '/' ∈ middle
    · -- every target lies in another directory, so nothing visible is refilled
      refine hscan.hidden_of_no_target hsuffix hkept hforeign hsome fun hdir tail' heq => ?_
      rw [← heq, hscan.target_visible_iff hnew] at hdir
      exact hdir.1 hslash
    · -- the longest visible foreign key would have a longer one as its target
      intro hdir
      let foreign := records.buffer.keys.toFinset.filter fun key =>
        ∃ tail, key = old ++ '$' :: tail ∧ ¬ suffix ('$' :: tail) ∧
          findLastParentDir key = findLastParentDir old
      have hmem : ∀ key, key ∈ foreign ↔ (records.get key).isSome ∧
          ∃ tail, key = old ++ '$' :: tail ∧ ¬ suffix ('$' :: tail) ∧
            findLastParentDir key = findLastParentDir old := by
        intro key
        simp [foreign, MapRecords.get]
      obtain ⟨key, hkey, hmax⟩ := foreign.exists_max_image List.length
        ⟨_, (hmem _).mpr ⟨hsome, tail, rfl, hforeign, hdir⟩⟩
      obtain ⟨hkeySome, tail', rfl, hforeign', hdir'⟩ := (hmem key).mp hkey
      have htargetDir := (hscan.target_visible_iff hnew tail').mpr ⟨hslash, hdir'⟩
      have htarget := hscan.target_isSome hsuffix hkept hforeign' hkeySome htargetDir
      have hlonger : new ++ '$' :: tail' ∈ foreign := by
        refine (hmem _).mpr ⟨htarget, middle ++ '$' :: tail', by simp [hnew], ?_, htargetDir⟩
        intro hown
        rcases hsuffix _ hown with hnil | ⟨tail'', htail, hdollar, -⟩
        · cases hnil
        · rw [List.cons.injEq] at htail
          exact hdollar (htail.2 ▸ by simp)
      have hlen := hmax _ hlonger
      simp only [hnew, List.length_append, List.length_cons] at hlen
      omega
  · exact hscan.hidden_of_no_target hsuffix hkept hforeign hsome fun _ tail' heq =>
      hextends (extends_of_target_eq hscan.no_dollar hscan.ne heq)

theorem onlyOwnKeys_of_kept : OnlyOwnKeys suffix store old new := by
  intro records' key hchild hsome hcutKey
  obtain rfl : records = records' := Option.some.inj (hscan.child.symm.trans hchild)
  obtain ⟨tail, rfl⟩ := exists_tail_of_upTo_eq (hscan.cut key hsome) hcutKey
  by_cases hown : suffix ('$' :: tail)
  · exact Or.inl ⟨_, hown, rfl⟩
  · refine Or.inr ⟨hscan.foreign_hidden hsuffix hkept hown hsome, ?_⟩
    rw [fromOn_append_cons hscan.no_dollar]
    by_cases hdir : findLastParentDir (new ++ '$' :: tail) = findLastParentDir old
    · right
      rw [hscan.get_visible hdir]
      exact hscan.target_isSome hsuffix hkept hown hsome hdir
    · exact Or.inl hdir

omit hkept

/-- A visible key of the new name is not among the keys to move. -/
theorem target_notMem (honly : OnlyOwnKeys suffix store old new) {tail : CString}
    (hdir : findLastParentDir (new ++ '$' :: tail) = findLastParentDir old) :
    new ++ '$' :: tail ∉ records.keysOfPath old := by
  intro hmem
  obtain ⟨hsome, hcutKey⟩ := MapRecords.mem_keysOfPath.mp hmem
  rcases honly records _ hscan.child hsome hcutKey with ⟨s, hs, heq⟩ | ⟨hhidden, -⟩
  · exact hsuffix.target_ne hscan.no_dollar hscan.ne hs tail heq
  · exact hhidden hdir

theorem kept_of_onlyOwnKeys (honly : OnlyOwnKeys suffix store old new) {key : CString}
    (hold : ∀ s, suffix s → key ≠ old ++ s)
    (hnew : ∀ s, suffix s → (store.hierarchicalMapGet (old ++ s)).isSome → key ≠ new ++ s) :
    (renamedStore store records old new).hierarchicalMapGet key =
      store.hierarchicalMapGet key := by
  by_cases hdir : findLastParentDir key = findLastParentDir old
  · rw [get_renamedStore_visible hdir, hscan.get_visible hdir]
    have hmem : key ∉ records.keysOfPath old := by
      intro hmem
      obtain ⟨hsome, hcutKey⟩ := MapRecords.mem_keysOfPath.mp hmem
      rcases honly records key hscan.child hsome hcutKey with ⟨s, hs, heq⟩ | ⟨hhidden, -⟩
      · exact hold s hs heq
      · exact hhidden hdir
    cases hvalue : records.get key with
    | some value => exact get_renamedRecords_of_some hmem hvalue
    | none =>
        rw [← hvalue]
        refine get_renamedRecords_of_ne hscan.no_dollar hscan.cut hmem fun tail hsome heq => ?_
        -- a source of the key is a block of the file, or its target is taken
        rcases honly records _ hscan.child hsome (upTo_append_cons hscan.no_dollar tail) with
          ⟨s, hs, hown⟩ | ⟨-, hhidden⟩
        · rw [List.append_cancel_left_eq] at hown
          subst hown
          refine hnew _ hs ?_ heq.symm
          rwa [hscan.get_visible (hsuffix.findLastParentDir_append hscan.old_uri hs)]
        · rw [fromOn_append_cons hscan.no_dollar, heq, hscan.get_visible hdir, hvalue] at hhidden
          exact hhidden.elim (fun hne => hne hdir) (fun hsome => by cases hsome)
  · exact get_renamedStore_hidden hdir

theorem gone {s : CString} (hs : suffix s) :
    (renamedStore store records old new).hierarchicalMapGet (old ++ s) = none := by
  rw [get_renamedStore_visible (hsuffix.findLastParentDir_append hscan.old_uri hs)]
  refine get_renamedRecords_source hscan.no_dollar hscan.cut ?_
    fun tail _ => hsuffix.target_ne hscan.no_dollar hscan.ne hs tail
  by_cases hsome : (records.get (old ++ s)).isSome
  · have hdir := hsuffix.findLastParentDir_append hscan.old_uri hs
    obtain ⟨tail, rfl, -⟩ := hscan.exists_tail_of_found hsuffix hs
      (by rwa [hscan.get_visible hdir])
    exact Or.inl ((mem_keysOfPath_append hscan.no_dollar tail).mpr hsome)
  · exact Or.inr (Option.not_isSome_iff_eq_none.mp hsome)

theorem found_iff (honly : OnlyOwnKeys suffix store old new) {s : CString} {value : V}
    (hs : suffix s) (hvalue : store.hierarchicalMapGet (old ++ s) = some value) :
    (renamedStore store records old new).hierarchicalMapGet (new ++ s) = some value ↔
      (findLastParentDir new = findLastParentDir old ∧
          store.hierarchicalMapGet (new ++ s) = none) ∨
        store.hierarchicalMapGet (new ++ s) = some value := by
  have hnewDir := hsuffix.findLastParentDir_append hscan.new_uri hs
  obtain ⟨tail, rfl, hsome⟩ := hscan.exists_tail_of_found hsuffix hs (by simp [hvalue])
  rw [hscan.get_visible (hsuffix.findLastParentDir_append hscan.old_uri hs)] at hvalue
  by_cases hdir : findLastParentDir new = findLastParentDir old
  · rw [hdir] at hnewDir
    rw [get_renamedStore_visible hnewDir, hscan.get_visible hnewDir]
    cases htaken : records.get (new ++ '$' :: tail) with
    | none =>
        simp [get_renamedRecords_target hscan.no_dollar hscan.cut hvalue htaken, hdir]
    | some taken =>
        have hmem := hscan.target_notMem hsuffix honly hnewDir
        simp [get_renamedRecords_of_some hmem htaken]
  · rw [get_renamedStore_hidden (hnewDir ▸ hdir)]
    simp [hdir]

/-- The moves rename the file exactly when they touch nothing else and every key
of the file finds room. -/
theorem renamed_iff :
    Renamed suffix store (renamedStore store records old new) old new ↔
      OnlyOwnKeys suffix store old new ∧ RoomForKeys suffix store old new := by
  constructor
  · intro hrenamed
    have honly := hscan.onlyOwnKeys_of_kept hsuffix hrenamed.kept
    exact ⟨honly, fun s value hs hvalue =>
      (hscan.found_iff hsuffix honly hs hvalue).mp (hrenamed.found s value hs hvalue)⟩
  · rintro ⟨honly, hroom⟩
    exact
      { found := fun s value hs hvalue =>
          (hscan.found_iff hsuffix honly hs hvalue).mpr (hroom s value hs hvalue)
        gone := fun s hs => hscan.gone hsuffix hs
        kept := fun key hold hnew => hscan.kept_of_onlyOwnKeys hsuffix honly hold hnew }

end Scan

end Store

/-! ## The three outcomes of the worker -/

section Outcome

variable {store : HierarchicalRecords V}

/-- A key without a separator beside the old name ends the server. -/
theorem rename_throws (hcut : ¬ AllCut store old) :
    store.hierarchicalMapRenameRegularFile old new = .error .outOfRange := by
  simp only [AllCut, not_forall] at hcut
  obtain ⟨records, key, hchild, hsome, hkey⟩ := hcut
  have hany : records.buffer.keys.any (fun key => decide ('$' ∉ key)) = true := by
    rw [List.any_eq_true]
    refine ⟨key, ?_, decide_eq_true hkey⟩
    rwa [ExtTreeMap.mem_keys, ← ExtTreeMap.isSome_getElem?_iff_mem]
  simp only [HierarchicalRecords.hierarchicalMapRenameRegularFile, hchild,
    MapRecords.renameDataSrvWorker, hany, if_true]

private theorem any_eq_false (hcut : AllCut store old) {records : MapRecords V}
    (hchild : store.getChildUnsafe old = some records) :
    records.buffer.keys.any (fun key => decide ('$' ∉ key)) = false := by
  rw [List.any_eq_false]
  intro key hkey
  rw [ExtTreeMap.mem_keys, ← ExtTreeMap.isSome_getElem?_iff_mem] at hkey
  simpa using hcut records key hchild hkey

/-- Without a matching key the rename is refused, and the store stays as it is. -/
theorem rename_refused (hcut : AllCut store old) (hmatch : ¬ SomeMatch store old)
    (new : CString) : store.hierarchicalMapRenameRegularFile old new = .ok (-1, store) := by
  cases hchild : store.getChildUnsafe old with
  | none => simp only [HierarchicalRecords.hierarchicalMapRenameRegularFile, hchild]
  | some records =>
      have hnil : records.keysOfPath old = [] := by
        rw [List.eq_nil_iff_forall_not_mem]
        intro key hkey
        rw [MapRecords.mem_keysOfPath] at hkey
        exact hmatch ⟨records, key, hchild, hkey⟩
      simp only [HierarchicalRecords.hierarchicalMapRenameRegularFile, hchild,
        MapRecords.renameDataSrvWorker, any_eq_false hcut hchild, hnil, if_true,
        Bool.false_eq_true, if_false]
      rw [HierarchicalRecords.setDir_eq_self hchild]

/-- With a matching key the moves are made. -/
theorem rename_moves (hcut : AllCut store old) {records : MapRecords V}
    (hchild : store.getChildUnsafe old = some records) {key : CString}
    (hkey : key ∈ records.keysOfPath old) :
    store.hierarchicalMapRenameRegularFile old new =
      .ok (0, renamedStore store records old new) := by
  have hne : records.keysOfPath old ≠ [] := List.ne_nil_of_mem hkey
  simp only [HierarchicalRecords.hierarchicalMapRenameRegularFile, hchild,
    MapRecords.renameDataSrvWorker, any_eq_false hcut hchild, hne, Bool.false_eq_true, if_false,
    renamedStore, renamedRecords]

/-- A rename of a name to itself changes no lookup. -/
theorem get_renamedStore_self {records : MapRecords V} (hcut : AllCut store old)
    (hdollar : '$' ∉ old) (hchild : store.getChildUnsafe old = some records) (key : CString) :
    (renamedStore store records old old).hierarchicalMapGet key =
      store.hierarchicalMapGet key := by
  by_cases hdir : findLastParentDir key = findLastParentDir old
  · rw [get_renamedStore_visible hdir,
      get_renamedRecords_self hdollar (fun key => hcut records key hchild),
      get_of_getChildUnsafe hchild hdir]
  · exact get_renamedStore_hidden hdir

/-- A confirmed rename of a name to itself leaves the name in place. -/
theorem renamed_self_iff {records : MapRecords V} (hcut : AllCut store old) (hdollar : '$' ∉ old)
    (hchild : store.getChildUnsafe old = some records) :
    Renamed suffix store (renamedStore store records old old) old old ↔
      ∀ s, suffix s → store.hierarchicalMapGet (old ++ s) = none := by
  have hsame := get_renamedStore_self hcut hdollar hchild
  constructor
  · intro hrenamed s hs
    rw [← hsame]
    exact hrenamed.gone s hs
  · intro hnone
    exact
      { found := fun s value _ hvalue => by rw [hsame, hvalue]
        gone := fun s hs => by rw [hsame, hnone s hs]
        kept := fun key _ _ => hsame key }

/-- The rename with a reply for each return value. -/
theorem renameCorrect_iff (hsuffix : OwnSuffix suffix) (hold : IsFileUri old)
    (hnew : IsFileUri new) (reply : Int → Reply) (hok : reply 0 ≠ .error)
    (herror : reply (-1) = .error) :
    RenameCorrect suffix store old new
        ((store.hierarchicalMapRenameRegularFile old new).map fun result =>
          (reply result.1, result.2)) ↔
      RenameCondition suffix store old new := by
  by_cases hcut : AllCut store old
  · by_cases hmatch : SomeMatch store old
    · obtain ⟨records, key, hchild, hsome, hkey⟩ := hmatch
      have hdollar : '$' ∉ old := hkey ▸ notMem_upTo '$' key
      rw [rename_moves hcut hchild (MapRecords.mem_keysOfPath.mpr ⟨hsome, hkey⟩)]
      have hcorrect : RenameCorrect suffix store old new
          (.ok (reply 0, renamedStore store records old new)) ↔
            Renamed suffix store (renamedStore store records old new) old new :=
        forall_prop_of_true hok
      refine hcorrect.trans ?_
      simp only [RenameCondition, hcut, true_and,
        forall_prop_of_true (show SomeMatch store old from ⟨records, key, hchild, hsome, hkey⟩)]
      by_cases hne : old = new
      · subst hne
        rw [if_pos rfl]
        exact renamed_self_iff hcut hdollar hchild
      · rw [if_neg hne]
        exact Scan.renamed_iff ⟨hchild, fun key => hcut records key hchild, hold, hnew, hdollar,
          hne⟩ hsuffix
    · rw [rename_refused hcut hmatch]
      simp [RenameCorrect, Except.map, RenameCondition, hcut, hmatch, herror]
  · rw [rename_throws hcut]
    simp [RenameCorrect, Except.map, RenameCondition, hcut]

end Outcome

universe w

/-- A rename of a regular file is correct on a data server and on a metadata
server exactly under `RenameCondition`. On a metadata server that condition
excludes every ordinary entry beside the old name, the renamed one included. The
two names are those after the split of the request at its first comma. -/
theorem rename_correct_iff {W : Type w} (dataStore : HierarchicalRecords V)
    (metadataStore : HierarchicalRecords W) (old new : FileUri) :
    (RenameCorrect BlockSuffix dataStore old.1 new.1 (srvRename dataStore old.1 new.1) ↔
        RenameCondition BlockSuffix dataStore old.1 new.1) ∧
      (RenameCorrect EntrySuffix metadataStore old.1 new.1
          (statRename metadataStore old.1 new.1) ↔
        RenameCondition EntrySuffix metadataStore old.1 new.1) := by
  constructor
  · exact renameCorrect_iff ownSuffix_block old.2 new.2 (fun ret => if ret ≠ 0 then .error else .ok)
      (by decide) (by decide)
  · rw [statRename, removeLastSlash_of_ne old.2.no_trailing_slash,
      removeLastSlash_of_ne new.2.no_trailing_slash]
    exact renameCorrect_iff ownSuffix_entry old.2 new.2
      (fun ret => if ret = -1 then .error else .rename) (by decide) (by decide)

/-- A store that holds one entry. -/
def singleEntry (key : CString) : HierarchicalRecords Nat :=
  (HierarchicalRecords.init imssRoot).hierarchicalMapPut (fun _ => false) key 7 false

/-- A block moved to another directory is not found there, and a metadata entry
ends its server. -/
theorem not_renameCorrect_other_directory :
    ¬ RenameCorrect BlockSuffix (singleEntry "imss://a/f$1".toList) "imss://a/f".toList
        "imss://b/f".toList
        (srvRename (singleEntry "imss://a/f$1".toList) "imss://a/f".toList "imss://b/f".toList) ∧
      ¬ RenameCorrect EntrySuffix (singleEntry "imss://f".toList) "imss://f".toList
        "imss://g".toList
        (statRename (singleEntry "imss://f".toList) "imss://f".toList "imss://g".toList) := by
  constructor
  · intro hcorrect
    have hrun : (srvRename (singleEntry "imss://a/f$1".toList) "imss://a/f".toList
        "imss://b/f".toList).toOption.map (fun result =>
          (result.1, result.2.hierarchicalMapGet ("imss://b/f".toList ++ '$' :: decimal 1))) =
            some (.ok, none) := by decide +kernel
    cases houtcome : srvRename (singleEntry "imss://a/f$1".toList) "imss://a/f".toList
        "imss://b/f".toList with
    | error uncaught =>
        rw [houtcome] at hrun
        cases hrun
    | ok result =>
        rw [houtcome] at hrun hcorrect
        obtain ⟨hreply, hlookup⟩ : result.1 = .ok ∧ result.2.hierarchicalMapGet
            ("imss://b/f".toList ++ '$' :: decimal 1) = none := by
          simpa [Except.toOption] using hrun
        have hfound := (hcorrect (by simp [hreply])).found _ 7 ⟨1, rfl⟩ (by decide +kernel)
        rw [hlookup] at hfound
        cases hfound
  · have hrun : (statRename (singleEntry "imss://f".toList) "imss://f".toList
        "imss://g".toList).toOption.map (fun result => result.1) = none := by decide +kernel
    cases houtcome : statRename (singleEntry "imss://f".toList) "imss://f".toList
        "imss://g".toList with
    | error uncaught => exact id
    | ok result =>
        rw [houtcome] at hrun
        cases hrun

end Hercules
