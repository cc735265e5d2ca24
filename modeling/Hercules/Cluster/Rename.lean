/-
# Renaming a file on the data servers

`rename_dataset_srv_worker` sends the two names to the servers of block 0 and to
no others, separated by a comma. A server that stores other blocks of the file is
not asked. On the servers that are asked, the blocks move if the first comma of the
request stands between the names, the old name has no separator and both names
have the same directory.
-/

import Hercules.Cluster.Unlink

namespace Hercules

open Lib Lib.Text

/-! ## One server -/

/-- A key that lies in the tail of a longer text with another separator in it
contains that separator. -/
theorem ne_blockKey_of_suffix {front : CString} (hfront : front ≠ []) (uri tail : CString)
    (block : Int) :
    front ++ uri ++ '$' :: tail ≠ blockKey uri block := by
  intro heq
  have hpos := List.length_pos_of_ne_nil hfront
  have hright : (blockKey uri block).drop (uri.length + 1) = decimal block := by
    rw [blockKey, ← List.singleton_append, ← List.append_assoc]
    exact List.drop_left' (by simp)
  rw [← heq, List.drop_append_of_le_length (by rw [List.length_append]; omega)] at hright
  exact dollar_notMem_decimal block (hright ▸ by simp)

namespace DataServer

variable {server : DataServer} {old new : CString}

/-- Every stored key has a separator. Clients send no other keys. -/
def KeysCut (server : DataServer) : Prop :=
  server.store.EveryKey fun _ key => '$' ∈ key

theorem keysCut_init (root : CString) : (DataServer.init root).KeysCut :=
  HierarchicalRecords.everyKey_init _ root

theorem KeysCut.allCut (hcut : server.KeysCut) (old : CString) : AllCut server.store old :=
  fun records key hchild => hcut _ records key hchild

/-- If all keys have separators, a rename is refused and changes no lookup, or it
moves the keys of the scanned map. -/
theorem rename_cases {key : CString} (hcut : server.KeysCut)
    (hsplit : splitNames key = some (old, new)) :
    ∃ reply server', server.rename key = some (reply, server') ∧
      ((¬ SomeMatch server.store old ∧ ∀ key, server'.get key = server.get key) ∨
        ∃ records, server.store.getChildUnsafe old = some records ∧ SomeMatch server.store old ∧
          '$' ∉ old ∧ server'.store = renamedStore server.store records old new) := by
  simp only [rename, hsplit, srvRename]
  by_cases hmatch : SomeMatch server.store old
  · obtain ⟨records, key, hchild, hsome, hkey⟩ := hmatch
    rw [rename_moves (hcut.allCut old) hchild (MapRecords.mem_keysOfPath.mpr ⟨hsome, hkey⟩)]
    exact ⟨_, _, rfl, Or.inr ⟨records, hchild, ⟨records, key, hchild, hsome, hkey⟩,
      hkey ▸ notMem_upTo '$' key, rfl⟩⟩
  · rw [rename_refused (hcut.allCut old) hmatch]
    exact ⟨_, _, rfl, Or.inl ⟨hmatch, fun _ => rfl⟩⟩

/-- The keys that a rename can bring under a new name are those of the old name. -/
theorem get_rename_of_ne {key : CString} (hcut : server.KeysCut)
    (hsplit : splitNames key = some (old, new)) {reply : Reply} {server' : DataServer}
    (hrename : server.rename key = some (reply, server')) {key' : CString}
    (hsource : (server.get key').isSome → upTo '$' key' ≠ old)
    (htarget : ∀ tail, new ++ '$' :: tail ≠ key') : server'.get key' = server.get key' := by
  obtain ⟨_, _, hresult, hcases⟩ := rename_cases hcut hsplit
  rw [hrename, Option.some.injEq, Prod.mk.injEq] at hresult
  obtain ⟨rfl, rfl⟩ := hresult
  rcases hcases with ⟨-, hsame⟩ | ⟨records, hchild, -, hdollar, hstore⟩
  · exact hsame key'
  · rw [get, hstore]
    by_cases hdir : findLastParentDir key' = findLastParentDir old
    · have hget := get_of_getChildUnsafe hchild hdir
      rw [get_renamedStore_visible hdir, get, hget]
      refine get_renamedRecords_of_ne hdollar (fun key => hcut.allCut old records key hchild)
        (fun hmem => ?_) fun tail _ => htarget tail
      obtain ⟨hsome, hkey⟩ := MapRecords.mem_keysOfPath.mp hmem
      exact hsource (by rwa [get, hget]) hkey
    · exact get_renamedStore_hidden hdir

section Blocks

variable {reply : Reply} {server' : DataServer} (hcut : server.KeysCut)
  (hfree : old ≠ new → ∀ block, server.get (blockKey new block) = none)
  (hrename : server.rename (old ++ ',' :: new) = some (reply, server'))

include hcut hfree hrename

/-- With a comma in the old name the request moves the keys of another name, to
another name than the new one. -/
theorem get_rename_of_comma (hcomma : ',' ∈ old) (block : Int) :
    server'.get (blockKey new block) = server.get (blockKey new block) := by
  obtain ⟨tail, htail, hsplit⟩ := splitNames_of_mem hcomma new
  refine get_rename_of_ne hcut hsplit hrename (fun hsome hkey => ?_) fun tail' => ?_
  · obtain rfl : old = new := by
      by_contra hne
      simp [hfree hne block] at hsome
    -- the comma is part of what stands before the separator
    rw [upTo_blockKey_eq] at hkey
    have hfront : ∀ c ∈ upTo ',' old, (c != '$') = true := by
      intro c hc
      rw [bne_iff_ne]
      rintro rfl
      exact notMem_upTo '$' old (hkey ▸ hc)
    have hmem : ',' ∈ upTo '$' old := by
      rw [htail, upTo, List.takeWhile_append_of_pos hfront]
      simp
    exact notMem_upTo ',' old (hkey ▸ hmem)
  · have hfront : tail ++ [','] ≠ [] := by simp
    simpa using ne_blockKey_of_suffix hfront new tail' block

/-- A stored block is found under the new name exactly if the request names the two
files rightly, the scan recognises the old one, and the directory stays. -/
theorem get_rename_iff (hold : IsFileUri old) (hnew : IsFileUri new) {block : Int} {value : Block}
    (hvalue : server.get (blockKey old block) = some value) :
    server'.get (blockKey new block) = some value ↔
      old = new ∨
        ',' ∉ old ∧ '$' ∉ old ∧ findLastParentDir new = findLastParentDir old := by
  -- if the blocks of the new name are looked up as before, only equal names succeed
  have hunchanged : server'.get (blockKey new block) = server.get (blockKey new block) →
      (server'.get (blockKey new block) = some value ↔ old = new) := by
    intro hsame
    rw [hsame]
    by_cases hne : old = new
    · rw [← hne]
      simp [hvalue]
    · simp [hfree hne block, hne]
  by_cases hcomma : ',' ∈ old
  · rw [hunchanged (get_rename_of_comma hcut hfree hrename hcomma block)]
    simp [hcomma]
  obtain ⟨_, _, hresult, hcases⟩ := rename_cases hcut (splitNames_of_notMem hcomma new)
  rw [hrename, Option.some.injEq, Prod.mk.injEq] at hresult
  obtain ⟨rfl, rfl⟩ := hresult
  have hdirOld := findLastParentDir_blockKey hold block
  have hdirNew := findLastParentDir_blockKey hnew block
  rcases hcases with ⟨hmatch, hsame⟩ | ⟨records, hchild, -, hdollar, hstore⟩
  · -- nothing was recognised, so the old name has a separator of its own
    rw [hunchanged (hsame _)]
    refine (or_iff_left fun h => hmatch ?_).symm
    obtain ⟨records, hchild⟩ := Option.isSome_iff_exists.mp
      (HierarchicalRecords.isSome_getDirUnsafe_of_get (by rw [← get, hvalue]; rfl))
    rw [hdirOld] at hchild
    refine ⟨records, blockKey old block, hchild, ?_, upTo_blockKey h.2.1 block⟩
    rw [← get_of_getChildUnsafe hchild hdirOld, ← get, hvalue]
    rfl
  · by_cases hne : old = new
    · subst hne
      rw [get, hstore, get_renamedStore_self (hcut.allCut old) hdollar hchild, ← get]
      simp [hvalue]
    · have hnone := hfree hne block
      simp only [hne, hcomma, hdollar, not_false_eq_true, true_and, false_or]
      by_cases hdir : findLastParentDir new = findLastParentDir old
      · rw [get, get_of_getChildUnsafe hchild (hdirNew.trans hdir)] at hnone
        rw [get, get_of_getChildUnsafe hchild hdirOld] at hvalue
        rw [get, hstore, get_renamedStore_visible (hdirNew.trans hdir)]
        exact iff_of_true (get_renamedRecords_target hdollar
          (fun key => hcut.allCut old records key hchild) hvalue hnone) hdir
      · rw [get, hstore, get_renamedStore_hidden (hdirNew ▸ hdir), ← get, hnone]
        simp [hdir]

end Blocks

end DataServer

/-! ## All servers of a file -/

/-- Every server that holds a block of the file is asked to rename it, and
afterwards each of its blocks is found under the new name. -/
structure BlocksFollow {nStorages : Nat} (dataset : Dataset nStorages) (new : CString)
    (asked : List Nat) (cluster : Cluster) (outcome : Option Cluster) : Prop where
  reaches_holders : ∀ s < nStorages, ∀ dataId : Int,
    ((cluster s).get (blockKey dataset.uri.1 dataId)).isSome → s ∈ asked
  found : ∃ cluster', outcome = some cluster' ∧ ∀ s < nStorages, ∀ (dataId : Int) block,
    (cluster s).get (blockKey dataset.uri.1 dataId) = some block →
      (cluster' s).get (blockKey new dataId) = some block

namespace Dataset

variable {nStorages : Nat}

/-- The entry of a dataset under another name; what decides its placement stays. -/
def withName (dataset : Dataset nStorages) (new : FileUri) (hword : IsWord new.1) :
    Dataset nStorages :=
  { dataset with uri := new, uri_word := hword }

/-- `rename_dataset_srv_worker`; the location is that of the renamed entry. -/
def renameDatasetSrvWorker (config : ServerConfig) (dataset renamed : Dataset nStorages)
    (stack : CString) (cluster : Cluster) : Option Cluster :=
  cluster.ask config (renamed.targets stack 0) (renameRequest dataset.uri.1 renamed.uri.1)

theorem keysCut_setAll {config : ServerConfig} {dataset : Dataset nStorages}
    {calls : List SetCall} {cluster cluster' : Cluster}
    (hset : dataset.setAll config calls cluster = some cluster') {s : Nat}
    (h : (cluster s).KeysCut) : (cluster' s).KeysCut :=
  setAll_preserves (P := fun _ server => server.KeysCut)
    (fun _ _ dataId _ _ _ _ hserver => DataServer.everyKey_write hserver
      (dollar_mem_blockKey dataset.uri.1 dataId) _ _ _ _) hset h

/-- A rename request is answered by every server that is asked. -/
theorem renameDatasetSrvWorker_cases (config : ServerConfig) (dataset renamed : Dataset nStorages)
    (stack : CString) {cluster : Cluster} (hcut : ∀ s < nStorages, (cluster s).KeysCut) :
    ∃ cluster', dataset.renameDatasetSrvWorker config renamed stack cluster = some cluster' ∧
      ∀ s, (s ∉ renamed.targets stack 0 ∧ cluster' s = cluster s) ∨
        (s ∈ renamed.targets stack 0 ∧ ∃ reply,
          (cluster s).rename (dataset.uri.1 ++ ',' :: renamed.uri.1) =
            some (reply, cluster' s)) := by
  have hserve : ∀ s, ((cluster s).serve config (renameRequest dataset.uri.1 renamed.uri.1) []
      fun _ => 0).map Prod.snd =
        ((cluster s).rename (dataset.uri.1 ++ ',' :: renamed.uri.1)).map Prod.snd := by
    intro s
    rw [DataServer.serve_rename dataset.uri_word _ _ renamed.uri_word, Option.map_map]
    rfl
  have hsplit : ∃ old new, DataServer.splitNames (dataset.uri.1 ++ ',' :: renamed.uri.1) =
      some (old, new) := by
    by_cases hcomma : ',' ∈ dataset.uri.1
    · obtain ⟨tail, -, hsplit⟩ := DataServer.splitNames_of_mem hcomma renamed.uri.1
      exact ⟨_, _, hsplit⟩
    · exact ⟨_, _, DataServer.splitNames_of_notMem hcomma renamed.uri.1⟩
  obtain ⟨old, new, hsplit⟩ := hsplit
  have hall : (dataset.renameDatasetSrvWorker config renamed stack cluster).isSome := by
    refine (Family.isSome_visit _ (renamed.nodup_targets stack 0) cluster).mpr fun s hs => ?_
    obtain ⟨reply, server', hrename, -⟩ :=
      DataServer.rename_cases (hcut s (lt_of_mem_targets hs)) hsplit
    rw [hserve, hrename]
    rfl
  obtain ⟨cluster', hrun⟩ := Option.isSome_iff_exists.mp hall
  refine ⟨cluster', hrun, fun s => ?_⟩
  by_cases hs : s ∈ renamed.targets stack 0
  · have hserver := Family.visit_of_mem (renamed.nodup_targets stack 0) hrun hs
    rw [hserve] at hserver
    obtain ⟨⟨reply, server'⟩, hrename, hsnd⟩ := Option.map_eq_some_iff.mp hserver
    cases hsnd
    exact Or.inr ⟨hs, reply, hrename⟩
  · exact Or.inl ⟨hs, Family.visit_of_notMem hrun hs⟩

end Dataset

end Hercules
