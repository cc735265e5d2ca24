/-
# The pool of datasets under a creation

`create_dataset` looks for the parent directory first, and then for the dataset itself. Both
lookups go to the pool, and to the metadata server for what the pool does not hold. On the way
the pool changes in two places. A parent directory that is found at the server gets a table of
its own, and so does a created dataset that is a directory. `AddDirectoryToPool` makes this
table without a look at the one that is there, and the pool drops the old one with the datasets
in it.

The answers of the metadata server are an argument: nothing is assumed about them. The theorem
says for which pools and answers no other dataset is forgotten.
-/

import Hercules.Client.OpenRename

namespace Hercules

open Std Lib Lib.Text

namespace Client

/-- `EINVAL`. -/
def einval : Int := 22

/-- The answer of the metadata server to a `stat_dataset`: the request failed, the dataset does
not exist, or its structure was received. -/
inductive StatAnswer
  | failed
  | absent
  | found (uri : CString) (isDir : Bool)

namespace StatAnswer

/-- The value that `stat_dataset` returns. -/
def code : StatAnswer → Int
  | .failed => -1
  | .absent => -2
  | .found _ _ => -3

/-- The dataset exists at the server. -/
def IsFound (answer : StatAnswer) : Prop :=
  ∃ uri isDir, answer = .found uri isDir

theorem code_eq_iff (answer : StatAnswer) : answer.code = -3 ↔ answer.IsFound := by
  cases answer with
  | failed => exact iff_of_false (by decide) (by rintro ⟨_, _, ⟨⟩⟩)
  | absent => exact iff_of_false (by decide) (by rintro ⟨_, _, ⟨⟩⟩)
  | found uri isDir => exact iff_of_true rfl ⟨uri, isDir, rfl⟩

theorem code_neg (answer : StatAnswer) : answer.code < 0 := by
  cases answer with
  | failed => decide
  | absent => decide
  | found uri isDir => exact (by decide : (-3 : Int) < 0)

end StatAnswer

/-- The arguments of `create_dataset` that are checked, and whether the file type is that of a
directory. A policy that is a null pointer is `none`. -/
structure CreateArgs where
  policy : Option CString
  numDataElem : Int
  dataElemSize : Int
  replFactor : Int
  replType : Int
  isDir : Bool

/-- The checks of the arguments; `NONE` is 1, `TRM` is 3, `SYNC` is 0 and `ASYNC` is 1. -/
def CreateArgs.Accepted (args : CreateArgs) : Prop :=
  args.policy.isSome ∧ args.numDataElem ≠ 0 ∧ args.dataElemSize ≠ 0 ∧
    1 ≤ args.replFactor ∧ args.replFactor ≤ 3 ∧ 0 ≤ args.replType ∧ args.replType ≤ 1

instance (args : CreateArgs) : Decidable args.Accepted :=
  inferInstanceAs (Decidable (_ ∧ _))

/-- What a creation finds outside of the pool: the URIs of the instances in `imssd`, the answers
to the ten lookups of the parent and to the one of the dataset, and whether the new structure
could be sent. -/
structure CreateAnswers where
  instances : List CString
  parent : Fin 10 → StatAnswer
  own : StatAnswer
  sent : Bool

/-- `imss_check`. -/
def imssCheck (instances : List CString) (datasetUri : CString) : Int :=
  match instances.findIdx? fun imssUri => !imssUri.isEmpty && imssUri.isPrefixOf datasetUri with
  | none => -1
  | some index => index

namespace DirTables

/-- `AddDirectoryToPool`. -/
def addDirectoryToPool (t : DirTables DatasetInfo) (datasetUri : CString) : DirTables DatasetInfo :=
  t.setDir datasetUri ∅

/-- `stat_dataset`. -/
def statDataset (t : DirTables DatasetInfo) (datasetUri : CString) (answer : StatAnswer) : Int :=
  if (t.find datasetUri).isSome then 1 else answer.code

/-- The loop over the lookups of the parent directory. -/
def seekParent (t : DirTables DatasetInfo) (parentDir : CString) : List StatAnswer → Int → Int
  | [], ret => ret
  | answer :: answers, _ =>
      let ret := t.statDataset parentDir answer
      if ret = 0 ∨ ret = -3 then ret else t.seekParent parentDir answers ret

end DirTables

namespace ClientTables

/-- The check of the parent directory: the tables to go on with, or nothing if there is no such
directory. -/
def checkParentDir (t : ClientTables) (datasetUri : CString) (answers : CreateAnswers) :
    Option ClientTables :=
  let parentDir := findLastParentDir datasetUri
  if belowDirectory datasetUri then
    let ret := t.pool.seekParent parentDir (List.ofFn answers.parent) 0
    if ret < 0 ∧ ret ≠ -3 then none
    else if ret = -3 then some { t with pool := t.pool.addDirectoryToPool parentDir }
    else some t
  else some t

/-- A dataset is added to the pool. -/
def addDataset (t : ClientTables) (datasetUri uri : CString) (isDir : Bool) : ClientTables :=
  { t with
    pool := t.pool.addDatasetEntryInPool datasetUri ⟨t.received, uri, isDir⟩
    received := t.received + 1 }

/-- The part of `create_dataset` after the check of the parent directory. -/
def createOwn (t : ClientTables) (datasetUri : CString) (args : CreateArgs)
    (answers : CreateAnswers) : Option Int × ClientTables :=
  if t.pool.statDataset datasetUri answers.own = 1 then (some (-Process.eexist), t)
  else
    match answers.own with
    | .found uri isDir => (some (-Process.eexist), t.addDataset datasetUri uri isDir)
    | _ =>
        if answers.sent then (none, t.addDataset datasetUri datasetUri args.isDir)
        else (some (-1), t)

/-- `create_dataset`: the error it returns, if there is one. The number that a created dataset
is returned as is not kept. -/
def createDataset (t : ClientTables) (datasetUri : CString) (args : CreateArgs)
    (answers : CreateAnswers) : Option Int × ClientTables :=
  if ¬ args.Accepted then (some (-einval), t)
  else if imssCheck answers.instances datasetUri = -1 then (some (-enoent), t)
  else
    match t.checkParentDir datasetUri answers with
    | none => (some (-enoent), t)
    | some t => t.createOwn datasetUri args answers

/-! ## Which tables are replaced -/

/-- The call gets beyond the check of the parent directory. -/
def PassesChecks (t : ClientTables) (datasetUri : CString) (args : CreateArgs)
    (answers : CreateAnswers) : Prop :=
  args.Accepted ∧ imssCheck answers.instances datasetUri ≠ -1 ∧
    (belowDirectory datasetUri → (t.pool.find (findLastParentDir datasetUri)).isSome ∨
      ∃ i, (answers.parent i).IsFound)

/-- The parent directory is not in the pool, and the server has it. -/
def FetchesParent (t : ClientTables) (datasetUri : CString) (answers : CreateAnswers) : Prop :=
  belowDirectory datasetUri ∧ t.pool.find (findLastParentDir datasetUri) = none ∧
    ∃ i, (answers.parent i).IsFound

/-- A dataset that is added is a directory: the one that the server has, or the new one. -/
def BecomesDirectory (args : CreateArgs) (answers : CreateAnswers) : Prop :=
  match answers.own with
  | .found _ isDir => isDir = true
  | _ => answers.sent = true ∧ args.isDir = true

/-- The dataset is not in the pool when it is looked up, and is added as a directory. -/
def AddsDirectory (t : ClientTables) (datasetUri : CString) (args : CreateArgs)
    (answers : CreateAnswers) : Prop :=
  (t.pool.find datasetUri = none ∨ t.FetchesParent datasetUri answers) ∧
    BecomesDirectory args answers

/-- A dataset in a table that the call replaces. -/
def Forgotten (t : ClientTables) (datasetUri : CString) (args : CreateArgs)
    (answers : CreateAnswers) (key : CString) : Prop :=
  t.PassesChecks datasetUri args answers ∧
    (findLastParentDir key = findLastParentDir datasetUri ∧ t.FetchesParent datasetUri answers ∨
      findLastParentDir key = datasetUri ∧ t.AddsDirectory datasetUri args answers)

end ClientTables

namespace DirTables

theorem find_addDirectoryToPool (t : DirTables DatasetInfo) (dir key : CString) :
    (t.addDirectoryToPool dir).find key =
      if findLastParentDir key = dir then none else t.find key := by
  rw [addDirectoryToPool, find_setDir]
  simp

theorem statDataset_of_some {t : DirTables DatasetInfo} {uri : CString}
    (h : (t.find uri).isSome) (answer : StatAnswer) : t.statDataset uri answer = 1 :=
  if_pos h

theorem statDataset_of_none {t : DirTables DatasetInfo} {uri : CString} (h : t.find uri = none)
    (answer : StatAnswer) : t.statDataset uri answer = answer.code := by
  rw [statDataset, h]
  rfl

/-- A parent in the pool answers every lookup. -/
theorem seekParent_of_some {t : DirTables DatasetInfo} {dir : CString} (h : (t.find dir).isSome)
    (answers : List StatAnswer) : t.seekParent dir answers 1 = 1 := by
  induction answers with
  | nil => rfl
  | cons answer answers ih =>
      rw [seekParent, statDataset_of_some h]
      exact ih

/-- Without the parent in the pool the loop ends with the first structure that is received, or
with the last failure. -/
theorem seekParent_of_none {t : DirTables DatasetInfo} {dir : CString} (h : t.find dir = none)
    (answers : List StatAnswer) (ret : Int) (hret : answers = [] → ret < 0 ∧ ret ≠ -3) :
    t.seekParent dir answers ret < 0 ∧
      (t.seekParent dir answers ret = -3 ↔ ∃ answer ∈ answers, answer.IsFound) := by
  induction answers generalizing ret with
  | nil =>
      obtain ⟨hneg, hne⟩ := hret rfl
      exact ⟨hneg, iff_of_false hne (by simp)⟩
  | cons answer answers ih =>
      have hneg := answer.code_neg
      rw [seekParent, statDataset_of_none h]
      by_cases hfound : answer.code = -3
      · rw [if_pos (Or.inr hfound)]
        exact ⟨hneg, iff_of_true hfound
          ⟨answer, List.mem_cons_self, answer.code_eq_iff.mp hfound⟩⟩
      · rw [if_neg (by omega)]
        obtain ⟨hrest, hiff⟩ := ih answer.code fun _ => ⟨hneg, hfound⟩
        refine ⟨hrest, hiff.trans ?_⟩
        simp [answer.code_eq_iff.not.mp hfound]

end DirTables

namespace ClientTables

variable {t t' : ClientTables} {datasetUri : CString} {args : CreateArgs}
  {answers : CreateAnswers}

/-- A parent directory in the pool, or none at all, changes nothing. -/
theorem checkParentDir_of_some
    (h : belowDirectory datasetUri → (t.pool.find (findLastParentDir datasetUri)).isSome)
    (answers : CreateAnswers) : t.checkParentDir datasetUri answers = some t := by
  rw [checkParentDir]
  split
  next hbelow =>
    have hret : t.pool.seekParent (findLastParentDir datasetUri)
        (List.ofFn answers.parent) 0 = 1 := by
      rw [List.ofFn_succ, DirTables.seekParent, DirTables.statDataset_of_some (h hbelow)]
      exact DirTables.seekParent_of_some (h hbelow) _
    rw [hret]
    rfl
  next => rfl

/-- A parent directory that is not in the pool has to be at the server, and gets a table. -/
theorem checkParentDir_of_none (hbelow : belowDirectory datasetUri)
    (hnone : t.pool.find (findLastParentDir datasetUri) = none) (answers : CreateAnswers) :
    (t.checkParentDir datasetUri answers = none ∧ ¬ ∃ i, (answers.parent i).IsFound) ∨
      (t.checkParentDir datasetUri answers =
          some { t with pool := t.pool.addDirectoryToPool (findLastParentDir datasetUri) } ∧
        ∃ i, (answers.parent i).IsFound) := by
  have hfound : (∃ answer ∈ List.ofFn answers.parent, answer.IsFound) ↔
      ∃ i, (answers.parent i).IsFound := by
    constructor
    · rintro ⟨answer, hmem, hanswer⟩
      obtain ⟨i, rfl⟩ := List.mem_ofFn.mp hmem
      exact ⟨i, hanswer⟩
    · rintro ⟨i, hanswer⟩
      exact ⟨_, List.mem_ofFn.mpr ⟨i, rfl⟩, hanswer⟩
  have hret := DirTables.seekParent_of_none hnone (List.ofFn answers.parent) 0
    fun h => by simp at h
  rw [hfound] at hret
  rw [checkParentDir, if_pos hbelow]
  by_cases hthree : t.pool.seekParent (findLastParentDir datasetUri)
      (List.ofFn answers.parent) 0 = -3
  · refine Or.inr ⟨?_, hret.2.mp hthree⟩
    rw [hthree]
    rfl
  · exact Or.inl ⟨if_pos ⟨hret.1, hthree⟩, hret.2.not.mp hthree⟩

/-- A dataset that is added changes no lookup but its own, and those in its table if it is a
directory. -/
theorem find_addDataset {key : CString} (hne : key ≠ datasetUri) (t : ClientTables) (uri : CString)
    (isDir : Bool) :
    (t.addDataset datasetUri uri isDir).pool.find key =
      if isDir = true ∧ findLastParentDir key = datasetUri then none else t.pool.find key := by
  rw [addDataset, DirTables.find_addDatasetEntryInPool, if_neg hne]

/-- The datasets in the table of a directory that is added are gone. -/
theorem find_createOwn_of_added {key : CString} (hne : key ≠ datasetUri)
    (hnone : t.pool.find datasetUri = none) (hdir : BecomesDirectory args answers)
    (hkey : findLastParentDir key = datasetUri) :
    (t.createOwn datasetUri args answers).2.pool.find key = none := by
  have hcode : answers.own.code ≠ 1 := by
    have := answers.own.code_neg
    omega
  rw [BecomesDirectory] at hdir
  rw [createOwn, DirTables.statDataset_of_none hnone, if_neg hcode]
  split
  next uri isDir hown =>
    rw [hown] at hdir
    rw [find_addDataset hne, if_pos ⟨hdir, hkey⟩]
  next hown =>
    split at hdir
    next uri isDir heq => exact absurd heq (hown uri isDir)
    next =>
      rw [if_pos hdir.1, find_addDataset hne, if_pos ⟨hdir.2, hkey⟩]

/-- All other datasets stay. -/
theorem find_createOwn_of_kept {key : CString} (hne : key ≠ datasetUri)
    (hkept : ¬ (findLastParentDir key = datasetUri ∧ t.pool.find datasetUri = none ∧
      BecomesDirectory args answers)) :
    (t.createOwn datasetUri args answers).2.pool.find key = t.pool.find key := by
  rw [createOwn]
  split
  next => rfl
  next hstat =>
    have hnone : t.pool.find datasetUri = none := by
      rw [DirTables.statDataset] at hstat
      split at hstat
      next => exact absurd rfl hstat
      next hfind => exact Option.not_isSome_iff_eq_none.mp hfind
    split
    next uri isDir hown =>
      rw [find_addDataset hne, if_neg]
      rintro ⟨hdir, hkey⟩
      refine hkept ⟨hkey, hnone, ?_⟩
      rw [BecomesDirectory, hown]
      exact hdir
    next hown =>
      split
      next hsent =>
        rw [find_addDataset hne, if_neg]
        rintro ⟨hdir, hkey⟩
        refine hkept ⟨hkey, hnone, ?_⟩
        rw [BecomesDirectory]
        split
        next uri isDir heq => exact absurd heq (hown uri isDir)
        next => exact ⟨hsent, hdir⟩
      next => rfl

/-- What a creation does: it is refused, or it goes on with a new table for the parent, or with
the tables as they are. -/
theorem createDataset_cases (t : ClientTables) (datasetUri : CString) (args : CreateArgs)
    (answers : CreateAnswers) :
    (¬ t.PassesChecks datasetUri args answers ∧ (t.createDataset datasetUri args answers).2 = t) ∨
      (t.PassesChecks datasetUri args answers ∧ t.FetchesParent datasetUri answers ∧
        t.createDataset datasetUri args answers =
          createOwn { t with pool := t.pool.addDirectoryToPool (findLastParentDir datasetUri) }
            datasetUri args answers) ∨
      (t.PassesChecks datasetUri args answers ∧ ¬ t.FetchesParent datasetUri answers ∧
        t.createDataset datasetUri args answers = t.createOwn datasetUri args answers) := by
  rw [createDataset]
  by_cases haccepted : args.Accepted
  · rw [if_neg (not_not.mpr haccepted)]
    by_cases himss : imssCheck answers.instances datasetUri = -1
    · rw [if_pos himss]
      exact Or.inl ⟨fun h => h.2.1 himss, rfl⟩
    · rw [if_neg himss]
      by_cases hpool : belowDirectory datasetUri →
          (t.pool.find (findLastParentDir datasetUri)).isSome
      · rw [checkParentDir_of_some hpool]
        refine Or.inr (Or.inr ⟨⟨haccepted, himss, fun h => Or.inl (hpool h)⟩, ?_, rfl⟩)
        rintro ⟨hbelow, hnone, -⟩
        have hsome := hpool hbelow
        rw [hnone] at hsome
        cases hsome
      · rw [Classical.not_imp, Option.not_isSome_iff_eq_none] at hpool
        obtain ⟨hbelow, hnone⟩ := hpool
        rcases checkParentDir_of_none hbelow hnone answers with ⟨hcheck, hfound⟩ | ⟨hcheck, hfound⟩
        · rw [hcheck]
          refine Or.inl ⟨fun h => ?_, rfl⟩
          rcases h.2.2 hbelow with hsome | hsome
          · rw [hnone] at hsome
            cases hsome
          · exact hfound hsome
        · rw [hcheck]
          exact Or.inr (Or.inl ⟨⟨haccepted, himss, fun _ => Or.inr hfound⟩,
            ⟨hbelow, hnone, hfound⟩, rfl⟩)
  · rw [if_pos haccepted]
    exact Or.inl ⟨fun h => haccepted h.1, rfl⟩

/-- The lookup of another dataset after the creation. -/
theorem find_createDataset {key : CString} (hne : key ≠ datasetUri) :
    (t.Forgotten datasetUri args answers key ∧
        (t.createDataset datasetUri args answers).2.pool.find key = none) ∨
      (¬ t.Forgotten datasetUri args answers key ∧
        (t.createDataset datasetUri args answers).2.pool.find key = t.pool.find key) := by
  rcases createDataset_cases t datasetUri args answers with
    ⟨hchecks, hresult⟩ | ⟨hchecks, hfetch, hresult⟩ | ⟨hchecks, hfetch, hresult⟩
  · refine Or.inr ⟨fun h => hchecks h.1, ?_⟩
    rw [hresult]
  · rw [hresult]
    -- the new table of the parent is empty, so the dataset is looked up at the server
    have hown : (t.pool.addDirectoryToPool (findLastParentDir datasetUri)).find datasetUri =
        none := by
      rw [DirTables.find_addDirectoryToPool, if_pos rfl]
    by_cases hadded : findLastParentDir key = datasetUri ∧ BecomesDirectory args answers
    · refine Or.inl ⟨⟨hchecks, Or.inr ⟨hadded.1, Or.inr hfetch, hadded.2⟩⟩, ?_⟩
      exact find_createOwn_of_added hne hown hadded.2 hadded.1
    · rw [find_createOwn_of_kept hne fun h => hadded ⟨h.1, h.2.2⟩,
        DirTables.find_addDirectoryToPool]
      by_cases hbeside : findLastParentDir key = findLastParentDir datasetUri
      · exact Or.inl ⟨⟨hchecks, Or.inl ⟨hbeside, hfetch⟩⟩, if_pos hbeside⟩
      · refine Or.inr ⟨?_, if_neg hbeside⟩
        rintro ⟨-, ⟨h, -⟩ | ⟨h, -, hdir⟩⟩
        · exact hbeside h
        · exact hadded ⟨h, hdir⟩
  · rw [hresult]
    by_cases hadded : findLastParentDir key = datasetUri ∧ t.pool.find datasetUri = none ∧
        BecomesDirectory args answers
    · obtain ⟨hkey, hnone, hdir⟩ := hadded
      refine Or.inl ⟨⟨hchecks, Or.inr ⟨hkey, Or.inl hnone, hdir⟩⟩, ?_⟩
      exact find_createOwn_of_added hne hnone hdir hkey
    · refine Or.inr ⟨?_, find_createOwn_of_kept hne hadded⟩
      rintro ⟨-, ⟨-, h⟩ | ⟨h, hnone | h', hdir⟩⟩
      · exact hfetch h
      · exact hadded ⟨h, hnone, hdir⟩
      · exact hfetch h'

/-- A creation keeps the other datasets: what the pool found for another URI it still finds. -/
def KeepsOthers (t : ClientTables) (datasetUri : CString) (args : CreateArgs)
    (answers : CreateAnswers) : Prop :=
  ∀ key info, key ≠ datasetUri → t.pool.find key = some info →
    (t.createDataset datasetUri args answers).2.pool.find key = some info

/-- No other dataset is forgotten exactly if none is found in a table that the creation
replaces. -/
theorem createDataset_keepsOthers_iff (t : ClientTables) (datasetUri : CString)
    (args : CreateArgs) (answers : CreateAnswers) :
    t.KeepsOthers datasetUri args answers ↔
      ∀ key info, key ≠ datasetUri → t.pool.find key = some info →
        ¬ t.Forgotten datasetUri args answers key := by
  constructor
  · intro hkeeps key info hne hinfo hforgotten
    have hfind := hkeeps key info hne hinfo
    rcases find_createDataset hne with ⟨-, hnone⟩ | ⟨hnot, -⟩
    · rw [hnone] at hfind
      cases hfind
    · exact hnot hforgotten
  · intro hnone key info hne hinfo
    rcases find_createDataset hne with ⟨hforgotten, -⟩ | ⟨-, hsame⟩
    · exact absurd hforgotten (hnone key info hne hinfo)
    · rw [hsame, hinfo]

/-- A client that has opened `imss://d/a`, and has not asked for `imss://d`. -/
def oneOpenFile : ClientTables :=
  ClientTables.addDataset ⟨⟨∅⟩, ⟨∅⟩, 0⟩ "imss://d/a".toList "imss://d/a".toList false

/-- The arguments for a regular file. -/
def regularFile : CreateArgs :=
  ⟨some "RR".toList, 1, 1, 1, 0, false⟩

/-- The servers have the directory `imss://d`, and the file is new. -/
def newFile : CreateAnswers :=
  ⟨["imss://".toList], fun _ => .found "imss://d".toList true, .absent, true⟩

theorem forgotten_oneOpenFile :
    oneOpenFile.Forgotten "imss://d/b".toList regularFile newFile "imss://d/a".toList := by
  have hparent : oneOpenFile.pool.find (findLastParentDir "imss://d/b".toList) = none := by
    rw [oneOpenFile, addDataset, DirTables.find_addDatasetEntryInPool, if_neg (by decide),
      if_neg (by decide +kernel), DirTables.find_empty]
  have hfound : ∃ i, (newFile.parent i).IsFound := ⟨0, _, _, rfl⟩
  refine ⟨⟨by decide, by decide +kernel, fun _ => Or.inr hfound⟩, Or.inl ⟨?_, ?_, hparent, hfound⟩⟩
  · decide +kernel
  · decide +kernel

/-- The creation of `imss://d/b` takes the open file out of the pool. -/
theorem not_createDataset_keepsOthers :
    (oneOpenFile.pool.find "imss://d/a".toList).isSome ∧
      (oneOpenFile.createDataset "imss://d/b".toList regularFile newFile).2.pool.find
        "imss://d/a".toList = none ∧
      ¬ oneOpenFile.KeepsOthers "imss://d/b".toList regularFile newFile := by
  have hne : "imss://d/a".toList ≠ "imss://d/b".toList := by decide
  have hbefore : oneOpenFile.pool.find "imss://d/a".toList =
      some ⟨0, "imss://d/a".toList, false⟩ := by
    rw [oneOpenFile, addDataset, DirTables.find_addDatasetEntryInPool]
    rfl
  rcases find_createDataset hne with ⟨-, hafter⟩ | ⟨hnot, -⟩
  · refine ⟨Option.isSome_of_eq_some hbefore, hafter, fun hkeeps => ?_⟩
    have hfind := hkeeps _ _ hne hbefore
    rw [hafter] at hfind
    cases hfind
  · exact absurd forgotten_oneOpenFile hnot

end ClientTables

end Client

end Hercules
