/-
# Parents of the stored names

Any number of clients create, remove and rename files and directories, and one metadata
server keeps the records. A client looks for the parent directory before it sends a new
record; it looks in its own pool first, and asks the server only for what is not there.
The server stores what it is sent. Nobody looks at the type of the parent, and between the
lookup and the record the requests of others may come.

Each call is a program over its requests. The tables of a client change when its call is
over: nobody else sees them. What the data servers answer comes from outside, and nothing
is assumed about it.

What a call has found is in its log: a parent at the server, a listing without names. The
programs are such that a new record is sent only after the parent was found, and that a
directory that was listed is deleted only if nothing was listed. So every stored name stays
below a stored directory in all runs in which nobody makes these findings wrong before the
call acts on them, and nobody takes a regular file for a directory or the reverse.
-/

import Hercules.Lib.Clients
import Hercules.Client.CreateDataset
import Hercules.Cluster.Listing
import Hercules.Cluster.Session

namespace Hercules

open Std Lib Lib.Text

open Client (ClientTables StatAnswer CreateArgs CreateAnswers GetattrAnswer RenameAnswers imssCheck
  fdLookup)

/-! ## Requests -/

/-- The requests of the calls: a lookup, a new record, a deletion, a listing and the two
renames go to the metadata server, the last two to the data servers. -/
inductive NameRequest
  | read (opened : Nat) (uri : CString)
  | set (uri : CString) (record : DatasetRecord)
  | delete (uri : CString)
  | getdir (uri : CString)
  | rename (kind : RenameKind) (old new : CString)
  | blockZero (uri : CString)
  | data (uri : CString)

/-- The replies. -/
inductive NameReply
  | metadata (reply : MetadataReply)
  | names (items : Option (List CString))
  | renamed (reply : Reply)
  | stat (record : Option Memory)
  | code (ret : Int)

/-- What the data servers answer: the record in block 0, or a return value. -/
structure DataAnswer where
  stat : Option Memory
  ret : Int

namespace MetadataServer

/-- `RENAME_OP` and `RENAME_DIR_DIR_OP`. The names of directories are sent with a slash at
their end. An exception ends the server. -/
def serveRenameKind (server : MetadataServer) (old new : CString) :
    RenameKind → Option (Reply × MetadataServer)
  | .file =>
      match statRename server.store old new with
      | .ok result => some (result.1, { server with store := result.2 })
      | .error _ => none
  | .directory =>
      let result := statRenameDirDir DatasetRecord.setUri server.store (old ++ ['/']) (new ++ ['/'])
      some (result.1, { server with store := result.2 })

/-- The answer to a request. -/
def serveName (server : MetadataServer) (req : NameRequest) (outside : DataAnswer) :
    Option (List NameReply × MetadataServer) :=
  match req with
  | .read opened uri =>
      let result := server.handle (.readOp opened uri)
      some ([.metadata result.1], result.2)
  | .set uri record =>
      let result := server.handle (.setOp uri record)
      some ([.metadata result.1], result.2)
  | .delete uri =>
      let result := server.handle (.deleteOp 4 uri)
      some ([.metadata result.1], result.2)
  | .getdir uri => some ([.names (server.getdir uri).names], server)
  | .rename kind old new =>
      (server.serveRenameKind old new kind).map fun result => ([.renamed result.1], result.2)
  | .blockZero _ => some ([.stat outside.stat], server)
  | .data _ => some ([.code outside.ret], server)

end MetadataServer

/-! ## The calls of a client -/

/-- A part of a call. -/
abbrev NameProgram := Program NameRequest NameReply

namespace NameProgram

/-- `stat_dataset` of a name that is not in the pool. -/
def askStat (opened : Nat) (uri : CString) : NameProgram StatAnswer := do
  match ← request (.read opened uri) with
  | [.metadata (.dataset record)] => return .found record.uri record.isDirectory
  | _ => return .absent

/-- Block 0, if `get_ndata` receives it. -/
def askBlockZero (uri : CString) : NameProgram (Option Memory) := do
  match ← request (.blockZero uri) with
  | [.stat record] => return record
  | _ => return none

/-- Another request to the data servers, with what the function returns. -/
def askData (uri : CString) : NameProgram Int := do
  match ← request (.data uri) with
  | [.code ret] => return ret
  | _ => return -1

/-- The lookups of the parent directory, at most this many. -/
def askParent (parentDir : CString) : Nat → NameProgram (List StatAnswer)
  | 0 => return []
  | tries + 1 => do
      match ← askStat 0 parentDir with
      | .found uri isDir => return [.found uri isDir]
      | answer => return answer :: (← askParent parentDir tries)

/-- What `imss_getattr` asks for a path without a record. -/
def askGetattr (t : ClientTables) (path : CString) : NameProgram GetattrAnswer := do
  if path = imssRoot then
    return ⟨none, none⟩
  else if (t.pool.find path).isSome then
    return ⟨none, ← askBlockZero path⟩
  else
    match ← askStat 0 path with
    | .found uri isDir => return ⟨some (uri, isDir), ← askBlockZero path⟩
    | _ => return ⟨none, none⟩

/-- A path with a record needs no request. -/
def askLookUp (t : ClientTables) (path : CString) : NameProgram GetattrAnswer :=
  if (fdLookup (t.records.find path)).isSome then return ⟨none, none⟩ else askGetattr t path

/-- What the check of the directory of a new path asks. -/
def askCheckParent (t : ClientTables) (old new : CString) : NameProgram GetattrAnswer :=
  if ¬ findLastParentDir new <+: old ∧ belowDirectory new then askLookUp t (findLastParentDir new)
  else return ⟨none, none⟩

/-- The requests of `imss_unlink`: the results of `delete_dataset` and `unlink_dataset`. -/
def askUnlink (t : ClientTables) (path : CString) : NameProgram (Int × Int) := do
  match ← request (.delete path) with
  | [.metadata .noDelete] => return (1, -1)
  | _ =>
      if (t.pool.find path).isSome then
        return (0, ← askData path)
      else
        return (0, -1)

/-- `imss_unlink`. -/
def imssUnlink (t : ClientTables) (path : CString) : NameProgram ClientTables := do
  let (deleted, unlinked) ← askUnlink t path
  return t.imssUnlink path ⟨⟨none, none⟩, ⟨none, none⟩, ⟨none, none⟩, deleted, unlinked, -1⟩

/-- `imss_rmdir`. The listing begins with the directory itself. -/
def imssRmdir (t : ClientTables) (path : CString) : NameProgram ClientTables := do
  match ← request (.getdir (dirRequestUri path)) with
  | [.names (some items)] => if 1 < items.length + 1 then return t else imssUnlink t path
  | _ => return t

/-- `unlink`. -/
def unlink (t : ClientTables) (path : CString) : NameProgram ClientTables := do
  if path = imssRoot then
    imssRmdir t path
  else
    let found := t.lookUp path (← askLookUp t path)
    match found.1 with
    | none => return found.2
    | some true => imssRmdir found.2 path
    | some false => imssUnlink found.2 path

/-- The structure that `create_dataset` sends. -/
def newRecord (path : CString) (args : CreateArgs) (opened : Nat) : DatasetRecord where
  uri := path
  type := if args.isDir then .directory else .regularFile
  nOpen := if opened = 1 then 1 else 0
  status := .attach
  intervals := []

/-- What the check of the parent directory asks: nothing, if the pool has it. -/
def askParents (t : ClientTables) (path : CString) : NameProgram (List StatAnswer) :=
  if belowDirectory path ∧ (t.pool.find (findLastParentDir path)).isNone then
    askParent (findLastParentDir path) 10
  else return []

/-- The part of `create_dataset` after the check of the parent directory, for a dataset that is not
in the pool. -/
def askOwn (t : ClientTables) (path : CString) (args : CreateArgs) (opened : Nat)
    (answers : CreateAnswers) : NameProgram (Option Int × ClientTables) := do
  match ← askStat opened path with
  | .found uri isDir =>
      return t.createDataset path args { answers with own := .found uri isDir }
  | own =>
      let record := newRecord path args opened
      let _ ← request (.set (Client.setUri record) record)
      return t.createDataset path args { answers with own := own }

/-- `create_dataset`, of a session with the instance `imss://`. -/
def createDataset (t : ClientTables) (path : CString) (args : CreateArgs) (opened : Nat) :
    NameProgram (Option Int × ClientTables) := do
  let answers : CreateAnswers := ⟨[imssRoot], fun _ => .absent, .absent, true⟩
  if ¬ args.Accepted ∨ imssCheck [imssRoot] path = -1 then
    return t.createDataset path args answers
  else
    let parents ← askParents t path
    let answers := { answers with parent := fun i => parents.getD i .absent }
    match t.checkParentDir path answers with
    | none => return t.createDataset path args answers
    | some checked =>
        if (checked.pool.find path).isSome then return t.createDataset path args answers
        else askOwn t path args opened answers

/-- The record that `imss_create` makes, without its times and its owner. -/
def createdStat (mode : Nat) : Memory :=
  setStMode (setStNlink (fun _ => 0) 1) (if mode / 4096 % 16 = 4 then mode else mode ||| 32768)

/-- `imss_create`. -/
def imssCreate (t : ClientTables) (path : CString) (args : CreateArgs) (opened mode : Nat) :
    NameProgram ClientTables := do
  let (error, created) ← createDataset t path args opened
  if error.isSome then
    return created
  else if (← askData path) < 0 then
    return created
  else
    return { created with
      records := (created.records.remove path).hierarchicalMapPut path
        (created.received, createdStat mode) }

/-- The requests of the rename of a regular file, with what they return. -/
def askRenameFile (t : ClientTables) (old destination : CString) (answers : RenameAnswers) :
    NameProgram RenameAnswers := do
  let (deleted, unlinked) ← askUnlink t destination
  let answers := { answers with deleteDataset := deleted, unlinkDataset := unlinked }
  if (t.imssUnlink destination answers).pool.dirs.contains (findLastParentDir old) then
    match ← request (.rename .file old destination) with
    | [.renamed .rename] =>
        let _ ← askData old
        return { answers with renameMetadata := 0 }
    | _ => return { answers with renameMetadata := -1 }
  else
    return answers

/-- `imss_rename`. -/
def imssRename (t : ClientTables) (old new : CString) : NameProgram ClientTables := do
  if old = new then
    return t
  let oldAnswer ← askLookUp t old
  let oldFound := t.lookUp old oldAnswer
  if oldFound.1.isNone then
    return oldFound.2
  let parentAnswer ← askCheckParent oldFound.2 old new
  let checked := oldFound.2.checkParent old new parentAnswer
  if checked.1 = false then
    return checked.2
  let newAnswer ← askLookUp checked.2 new
  let answers : RenameAnswers := ⟨oldAnswer, parentAnswer, newAnswer, -1, -1, -1⟩
  let plan := t.renamePlan old new answers
  match plan.1 with
  | .refused _ => return plan.2
  | .directories =>
      if plan.2.pool.dirs.contains (findLastParentDir old) then
        let _ ← request (.rename .directory old new)
      let _ ← askData old
      return plan.2.renameDirectories old new
  | .file destination =>
      let answers ← askRenameFile plan.2 old destination answers
      return (plan.2.renameFile old destination answers).2

end NameProgram

/-- The calls. The arguments of `create_dataset` other than the type come from the
configuration. -/
inductive NameCall
  | create (path : CString) (args : CreateArgs) (mode : Nat)
  | mkdir (path : CString) (args : CreateArgs) (mode : Nat)
  | unlink (path : CString)
  | rmdir (path : CString)
  | rename (old new : CString)

/-- The program of a call. -/
def NameCall.program : NameCall → ClientTables → NameProgram ClientTables
  | .create path args mode, t => .imssCreate t path { args with isDir := false } 1 mode
  | .mkdir path args mode, t => .imssCreate t path { args with isDir := true } 2 (mode ||| 16384)
  | .unlink path, t => .unlink t path
  | .rmdir path, t => .imssRmdir t path
  | .rename old new, t => .imssRename t old new

/-- The clients and the metadata server, whose collector runs at any time. -/
def naming : Protocol MetadataServer NameRequest NameReply ClientTables NameCall DataAnswer where
  start := NameCall.program
  serve := MetadataServer.serveName
  work := MetadataServer.clean

/-- The tables of a client after its start. -/
def Client.ClientTables.init : ClientTables :=
  ⟨⟨ExtTreeMap.insert ∅ imssRoot ∅⟩, ⟨ExtTreeMap.insert ∅ imssRoot ∅⟩, 0⟩

/-- The clients and the server after their start. -/
def namingInit (ι : Type) : Clients ι MetadataServer NameRequest NameReply ClientTables :=
  .init (.init imssRoot) .init

/-! ## Names below stored directories -/

/-- Every name that is found, except the root and what is directly below it, has a parent that is
found as a directory. -/
def MetadataServer.Closed (server : MetadataServer) : Prop :=
  ∀ key, (server.get key).isSome → findLastParentDir key ≠ imssRoot →
    ∃ record, server.get (findLastParentDir key) = some record ∧ record.isDirectory = true

namespace HierarchicalRecords

/-- The keys in the map of a directory. -/
def keysOf (store : HierarchicalRecords DatasetRecord) (dir : CString) : List CString :=
  ((store.getDirUnsafe dir).map fun records => records.buffer.keys).getD []

/-- Something stands in the map of the directory. -/
def HasEntries (store : HierarchicalRecords DatasetRecord) (dir : CString) : Prop :=
  store.keysOf dir ≠ []

/-- The name is found as a directory. -/
def IsDirectory (store : HierarchicalRecords DatasetRecord) (name : CString) : Prop :=
  (store.hierarchicalMapGet name).any (fun record => record.isDirectory) = true

/-- No entry of the directory has entries of its own. -/
def Flat (store : HierarchicalRecords DatasetRecord) (dir : CString) : Prop :=
  ∀ key ∈ store.keysOf dir, ¬ store.HasEntries key

/-- The root, or a name that is found as a directory. -/
def CanHold (store : HierarchicalRecords DatasetRecord) (dir : CString) : Prop :=
  dir = imssRoot ∨ store.IsDirectory dir

instance (store : HierarchicalRecords DatasetRecord) (dir : CString) :
    Decidable (store.HasEntries dir) :=
  inferInstanceAs (Decidable (_ ≠ _))

instance (store : HierarchicalRecords DatasetRecord) (name : CString) :
    Decidable (store.IsDirectory name) :=
  inferInstanceAs (Decidable (_ = _))

instance (store : HierarchicalRecords DatasetRecord) (dir : CString) :
    Decidable (store.Flat dir) :=
  inferInstanceAs (Decidable (∀ key ∈ store.keysOf dir, ¬ store.HasEntries key))

/-- A directory with entries may take the new name: the new name is the root, or it is not below
the old one and either is a directory already or becomes one, beside the old name. -/
def TakesName (store : HierarchicalRecords DatasetRecord) (old new : CString) : Prop :=
  new = imssRoot ∨ findLastParentDir new ≠ old ∧ (store.IsDirectory new ∨
    findLastParentDir new = findLastParentDir old ∧ (store.hierarchicalMapGet new).isNone)

instance (store : HierarchicalRecords DatasetRecord) (old new : CString) :
    Decidable (store.TakesName old new) :=
  inferInstanceAs (Decidable (_ ∨ _ ∧ (_ ∨ _ ∧ _)))

end HierarchicalRecords

/-! ## What a call has found -/

/-- What a call has asked and been answered. -/
abbrev NameLog := Log NameRequest NameReply

namespace NameLog

variable (log : NameLog)

/-- A lookup of the name that was answered with its record. -/
def finds (name : CString) : NameRequest × List NameReply → Bool
  | (.read _ uri, [.metadata (.dataset _)]) => uri = name
  | _ => false

/-- A listing of the directory. -/
def lists (uri : CString) : NameRequest × List NameReply → Bool
  | (.getdir requested, _) => requested = dirRequestUri uri
  | _ => false

/-- A listing of the directory without names. -/
def listsNothing (uri : CString) : NameRequest × List NameReply → Bool
  | (.getdir requested, [.names (some [])]) => requested = dirRequestUri uri
  | _ => false

/-- The client has the name in its pool, or has found it at the server. -/
def Found (t : ClientTables) (name : CString) : Prop :=
  (t.pool.find name).isSome ∨ log.any (finds name)

instance (t : ClientTables) (name : CString) : Decidable (log.Found t name) :=
  inferInstanceAs (Decidable (_ ∨ _))

end NameLog

namespace MetadataServer

/-- The requests that keep names below directories. A new name has a parent that can hold it, and
a name that is removed or renamed has nothing below it; a directory that is renamed may have
entries if these have none. -/
def Keeps (server : MetadataServer) : NameRequest → Prop
  | .set uri _ =>
      (server.get (server.key uri)).isSome ∨
        server.store.CanHold (findLastParentDir (server.key uri))
  | .delete uri =>
      (server.get (server.key uri)).any (fun record => record.nOpen == 0) = true →
        server.store.HasEntries (server.key uri) → ¬ server.store.IsDirectory (server.key uri)
  | .rename .file old _ =>
      ∀ key ∈ server.store.keysOf (findLastParentDir (removeLastSlash old)),
        upTo '$' key = removeLastSlash old → ¬ server.store.HasEntries key
  | .rename .directory old new =>
      server.store.Flat old ∧ server.store.Flat new ∧
        (server.store.HasEntries old → server.store.TakesName old new)
  | .read _ _ | .getdir _ | .blockZero _ | .data _ => True

/-- What a call has found still holds when it acts on it. For a new record: the parent that was
found is still stored, and no regular file is taken for a directory; the name does not end in two
slashes, of which the server takes away one. For a deletion, unless the dataset is open: the
directory that was listed without names still has none, and what was not listed is no directory.
Nothing that a client finds out makes a rename safe, so the demand is on the server. -/
def Orderly (server : MetadataServer) (t : ClientTables) (log : NameLog) : NameRequest → Prop
  | .set uri _ =>
      ¬ ['/', '/'] <:+ uri.drop imssRoot.length ∧
        (log.Found t (findLastParentDir (server.key uri)) →
          (server.get (findLastParentDir (server.key uri))).isSome) ∧
        (server.get (findLastParentDir (server.key uri))).all (fun record => record.isDirectory)
  | .delete uri =>
      (server.get (server.key uri)).any (fun record => record.nOpen == 0) = true →
        (log.any (NameLog.listsNothing uri) → ¬ server.store.HasEntries (server.key uri)) ∧
          (¬ log.any (NameLog.lists uri) → ¬ server.store.IsDirectory (server.key uri))
  | req => server.Keeps req

/-- The collector finds no directory with entries in the garbage lists. -/
def CleansBare (server : MetadataServer) : Prop :=
  ∀ dir ∈ server.store.hiermap.keys, server.store.HasEntries dir →
    ∀ name ∈ server.store.garbageOf (findLastParentDir dir), removeLastSlash name ≠ dir

instance (server : MetadataServer) (t : ClientTables) (log : NameLog) :
    ∀ req, Decidable (server.Orderly t log req)
  | .set _ _ => inferInstanceAs (Decidable (_ ∧ (_ → _) ∧ _))
  | .delete _ => inferInstanceAs (Decidable (_ → (_ → _) ∧ (_ → _)))
  | .rename .file old _ => inferInstanceAs (Decidable
      (∀ key ∈ server.store.keysOf (findLastParentDir (removeLastSlash old)),
        upTo '$' key = removeLastSlash old → ¬ server.store.HasEntries key))
  | .rename .directory _ _ => inferInstanceAs (Decidable (_ ∧ _ ∧ (_ → _)))
  | .read _ _ | .getdir _ | .blockZero _ | .data _ => isTrue trivial

instance (server : MetadataServer) : Decidable server.CleansBare :=
  inferInstanceAs (Decidable (∀ dir ∈ server.store.hiermap.keys, server.store.HasEntries dir →
    ∀ name ∈ server.store.garbageOf (findLastParentDir dir), removeLastSlash name ≠ dir))

end MetadataServer

/-! ## What the calls check -/

/-- The name that a URI is stored under. -/
def nameOf (uri : CString) : CString :=
  if uri = imssRoot then uri else removeLastSlash uri

/-- What a call has found before it sends a request. A new record is below the root or below a
parent that was found; a directory that was listed is deleted only if nothing was listed. -/
def Checked (t : ClientTables) (log : NameLog) : NameRequest → Prop
  | .set uri _ =>
      ¬ ['/', '/'] <:+ uri.drop imssRoot.length →
        findLastParentDir (nameOf uri) = imssRoot ∨ log.Found t (findLastParentDir (nameOf uri))
  | .delete uri => log.any (NameLog.lists uri) → log.any (NameLog.listsNothing uri)
  | _ => True

/-- One slash at the end does not change the parent. -/
theorem findLastParentDir_nameOf {uri : CString} (huri : imssRoot <+: uri)
    (hend : ¬ ['/', '/'] <:+ uri.drop imssRoot.length) :
    findLastParentDir (nameOf uri) = findLastParentDir uri := by
  obtain ⟨rest, rfl⟩ := huri
  rw [List.drop_left] at hend
  by_cases hrest : rest = []
  · rw [hrest, List.append_nil, nameOf, if_pos rfl]
  · have hne : imssRoot ++ rest ≠ imssRoot := by simpa using hrest
    have honce : removeLastSlash (removeLastSlash rest) = removeLastSlash rest := by
      rw [removeLastSlash]
      split
      next hslash =>
        obtain ⟨before, hbefore⟩ := List.getLast?_eq_some_iff.mp hslash
        obtain ⟨tail, htail⟩ := removeLastSlash_prefix_self rest
        rw [removeLastSlash] at hbefore
        split at hbefore
        next hlast =>
          obtain ⟨before', rfl⟩ := List.getLast?_eq_some_iff.mp hlast
          rw [List.dropLast_concat] at hbefore
          exact absurd ⟨before, by simp [hbefore]⟩ hend
        next hlast => exact absurd (by rw [hbefore]; simp) hlast
      next => rfl
    rw [nameOf, if_neg hne, removeLastSlash_append _ hrest, findLastParentDir, findLastParentDir,
      List.drop_left, List.drop_left, honce, List.take_left, List.take_left]

/-- Nor does the slash that a directory gets. -/
theorem findLastParentDir_setUri {path : CString} (hpath : imssRoot <+: path) (args : CreateArgs)
    (opened : Nat) :
    findLastParentDir (Client.setUri (NameProgram.newRecord path args opened)) =
      findLastParentDir path := by
  rw [Client.setUri]
  split
  next hdir =>
    obtain ⟨rest, rfl⟩ := hpath
    have hlast : rest.getLast? ≠ some '/' := by
      intro hlast
      obtain ⟨before, rfl⟩ := List.getLast?_eq_some_iff.mp hlast
      exact hdir.2 (by simp [NameProgram.newRecord])
    change findLastParentDir (imssRoot ++ rest ++ ['/']) = _
    rw [findLastParentDir, findLastParentDir, List.append_assoc, List.drop_left, List.drop_left,
      removeLastSlash_append_slash, removeLastSlash_of_ne hlast, List.take_left, List.take_left]
  next => rfl

namespace NameProgram

variable {t : ClientTables} {P : NameLog → NameRequest → Prop} {log : NameLog} {path : CString}

theorem traced_askStat {Q : NameLog → StatAnswer → Prop} {opened : Nat} {uri : CString}
    (hread : P log (.read opened uri))
    (hfound : ∀ record, Q (log ++ [(.read opened uri, [.metadata (.dataset record)])])
      (.found record.uri record.isDirectory))
    (habsent : ∀ replies, Q (log ++ [(.read opened uri, replies)]) .absent) :
    (askStat opened uri).Traced P Q log := by
  rw [askStat, Program.traced_bind]
  refine ⟨hread, fun replies => ?_⟩
  rw [Program.traced_done]
  split
  · exact hfound _
  · exact habsent _

/-- The lookups of a parent: if one of them is answered with a record, then it was found. -/
theorem traced_askParent (hread : ∀ log uri, P log (.read 0 uri)) (parentDir : CString)
    (tries : Nat) :
    (askParent parentDir tries).Traced P (fun log answers =>
      (∃ answer ∈ answers, answer.IsFound) → log.any (NameLog.finds parentDir)) log := by
  induction tries generalizing log with
  | zero =>
      rintro ⟨answer, hmem, -⟩
      cases hmem
  | succ tries ih =>
      rw [askParent, Program.traced_bind]
      apply traced_askStat (hread log parentDir)
      · intro record _
        simp [NameLog.finds]
      · intro replies
        change Program.Traced _ _ (askParent parentDir tries >>= fun answers =>
          pure (StatAnswer.absent :: answers)) _
        rw [Program.traced_bind]
        refine ih.mono fun log answers hfound => ?_
        rintro ⟨answer, hmem, hanswer⟩
        rcases List.mem_cons.mp hmem with rfl | hmem
        · obtain ⟨uri, isDir, heq⟩ := hanswer
          cases heq
        · exact hfound ⟨answer, hmem, hanswer⟩

/-- A check of the parent directory that is passed has found it. -/
theorem traced_askParents (t : ClientTables) (path : CString) :
    (askParents t path).Traced (Checked t) (fun log parents =>
      ∀ answers : CreateAnswers, (∀ i, answers.parent i = parents.getD i .absent) →
        t.checkParentDir path answers ≠ none → findLastParentDir path = imssRoot ∨
          NameLog.Found log t (findLastParentDir path)) log := by
  rw [askParents]
  split
  next hasked =>
    have hnone := Option.isNone_iff_eq_none.mp hasked.2
    refine (traced_askParent (fun _ _ => trivial) _ 10).mono fun log parents hfound => ?_
    intro answers hparent hpassed
    rcases ClientTables.checkParentDir_of_none hasked.1 hnone answers with hfails | ⟨-, i, hi⟩
    · exact absurd hfails.1 hpassed
    · rw [hparent i] at hi
      refine Or.inr (Or.inr (hfound ⟨_, ?_, hi⟩))
      by_cases hlt : i.val < parents.length
      · rw [List.getD_eq_getElem _ _ hlt]
        exact List.getElem_mem hlt
      · rw [List.getD_eq_default _ _ (Nat.le_of_not_lt hlt)] at hi
        obtain ⟨uri, isDir, heq⟩ := hi
        cases heq
  next hpool =>
    intro answers _ _
    by_cases hbelow : belowDirectory path
    · refine Or.inr (Or.inl (Option.isSome_iff_ne_none.mpr fun hnone => hpool ⟨hbelow, ?_⟩))
      rw [hnone, Option.isNone_none]
    · left
      rw [belowDirectory, Bool.not_eq_true, Option.isSome_eq_false_iff,
        Option.isNone_iff_eq_none] at hbelow
      rw [findLastParentDir, hbelow]

theorem traced_askOwn {args : CreateArgs} {opened : Nat} (answers : CreateAnswers)
    (hpath : imssRoot <+: path)
    (hparent : findLastParentDir path = imssRoot ∨
      NameLog.Found log t (findLastParentDir path)) :
    (askOwn t path args opened answers).Traced (Checked t) (fun _ _ => True) log := by
  rw [askOwn, Program.traced_bind]
  apply traced_askStat trivial
  · intro record
    trivial
  · intro replies
    refine ⟨fun hend => ?_, fun _ => trivial⟩
    have huri : imssRoot <+: Client.setUri (newRecord path args opened) := by
      rw [Client.setUri]
      split
      · exact hpath.trans (List.prefix_append _ _)
      · exact hpath
    rw [findLastParentDir_nameOf huri hend, findLastParentDir_setUri hpath]
    refine hparent.imp_right fun hfound => hfound.imp_right fun hlog => ?_
    rw [List.any_append, hlog, Bool.true_or]

/-- A new record is sent only after the check of its parent. -/
theorem traced_createDataset (t : ClientTables) (path : CString) (args : CreateArgs)
    (opened : Nat) :
    (createDataset t path args opened).Traced (Checked t) (fun _ _ => True) log := by
  rw [createDataset]
  split
  next => trivial
  next haccepted =>
    have hpath : imssRoot <+: path := by
      by_contra hpath
      have hnot : imssRoot.isPrefixOf path = false := by
        rwa [← Bool.not_eq_true, List.isPrefixOf_iff_prefix]
      refine haccepted (Or.inr ?_)
      simp [imssCheck, List.findIdx?_cons, hnot]
    rw [Program.traced_bind]
    refine (traced_askParents t path).mono fun log parents hparents => ?_
    dsimp only
    split
    next => trivial
    next checked hchecked =>
      split
      next => trivial
      next =>
        have hpassed := hparents _ (fun _ => rfl) (Option.ne_none_iff_exists'.mpr ⟨_, hchecked⟩)
        exact traced_askOwn _ hpath hpassed

theorem asks_askData {R : NameRequest → Prop} {uri : CString} (h : R (.data uri)) :
    (askData uri).Asks R := by
  refine (Program.asks_request h).bind fun replies => ?_
  split <;> trivial

theorem traced_imssCreate (t : ClientTables) (path : CString) (args : CreateArgs)
    (opened mode : Nat) :
    (imssCreate t path args opened mode).Traced (Checked t) (fun _ _ => True) log := by
  rw [imssCreate, Program.traced_bind]
  refine (traced_createDataset t path args opened).mono fun log created _ => ?_
  dsimp only
  split
  · trivial
  · apply Program.Asks.traced_true
    refine (asks_askData fun _ => trivial).bind fun ret => ?_
    split <;> trivial

/-- The requests of the other calls: no new record, and no listing but that of `imss_rmdir`. -/
def Searches : NameRequest → Prop
  | .set _ _ | .getdir _ => False
  | _ => True

/-- Nothing was listed. -/
def NoListing (log : NameLog) : Prop :=
  ∀ uri, log.any (NameLog.lists uri) = false

theorem noListing_append {req : NameRequest} (replies : List NameReply) (hreq : Searches req)
    (hlog : NoListing log) : NoListing (log ++ [(req, replies)]) := by
  intro uri
  rw [List.any_append, hlog uri, Bool.false_or]
  cases req with
  | set | getdir => exact hreq.elim
  | read | delete | rename | blockZero | data => rfl

theorem checked_of_noListing {req : NameRequest} (hreq : Searches req) (hlog : NoListing log) :
    Checked t log req := by
  cases req with
  | set => exact hreq.elim
  | delete uri =>
      intro hlists
      rw [hlog uri] at hlists
      cases hlists
  | read | getdir | rename | blockZero | data => trivial

/-- A program without new records and listings lists nothing. -/
theorem traced_of_searches {α : Type} {program : NameProgram α} (h : program.Asks Searches)
    (hlog : NoListing log) :
    program.Traced (Checked t) (fun log _ => NoListing log) log :=
  h.traced (fun _ _ => checked_of_noListing) (fun _ _ replies => noListing_append replies) hlog

theorem asks_askStat (opened : Nat) (uri : CString) : (askStat opened uri).Asks Searches := by
  refine (Program.asks_request trivial).bind fun replies => ?_
  split <;> trivial

theorem asks_askBlockZero (uri : CString) : (askBlockZero uri).Asks Searches := by
  refine (Program.asks_request trivial).bind fun replies => ?_
  split <;> trivial

theorem asks_askLookUp (t : ClientTables) (path : CString) : (askLookUp t path).Asks Searches := by
  rw [askLookUp, askGetattr]
  split
  · trivial
  split
  · trivial
  split
  · exact (asks_askBlockZero path).bind fun _ => trivial
  · refine (asks_askStat 0 path).bind fun answer => ?_
    split
    · exact (asks_askBlockZero path).bind fun _ => trivial
    · trivial

theorem asks_askCheckParent (t : ClientTables) (old new : CString) :
    (askCheckParent t old new).Asks Searches := by
  rw [askCheckParent]
  split
  · exact asks_askLookUp t _
  · trivial

theorem asks_askUnlink (t : ClientTables) (path : CString) : (askUnlink t path).Asks Searches := by
  refine (Program.asks_request trivial).bind fun replies => ?_
  split
  · trivial
  · split
    · exact (asks_askData trivial).bind fun _ => trivial
    · trivial

theorem asks_askRenameFile (t : ClientTables) (old destination : CString)
    (answers : RenameAnswers) : (askRenameFile t old destination answers).Asks Searches := by
  refine (asks_askUnlink t destination).bind fun removed => ?_
  dsimp only
  split
  · refine (Program.asks_request trivial).bind fun replies => ?_
    split
    · exact (asks_askData trivial).bind fun _ => trivial
    · trivial
  · trivial

theorem asks_imssRename (t : ClientTables) (old new : CString) :
    (imssRename t old new).Asks Searches := by
  rw [imssRename]
  split
  · trivial
  refine (asks_askLookUp t old).bind fun oldAnswer => ?_
  dsimp only
  split
  · trivial
  refine (asks_askCheckParent _ old new).bind fun parentAnswer => ?_
  split
  · trivial
  refine (asks_askLookUp _ new).bind fun newAnswer => ?_
  split
  · trivial
  · have hdata : ∀ t' : ClientTables, (askData old >>= fun _ => pure t').Asks Searches :=
      fun _ => (asks_askData trivial).bind fun _ => trivial
    split
    · exact (Program.asks_request trivial).bind fun _ => hdata _
    · exact hdata _
  · exact (asks_askRenameFile _ old _ _).bind fun _ => trivial

theorem traced_imssUnlink {t' : ClientTables} (h : Checked t log (.delete path)) :
    (imssUnlink t' path).Traced (Checked t) (fun _ _ => True) log := by
  have hunlink : (askUnlink t' path).Traced (Checked t) (fun _ _ => True) log := by
    rw [askUnlink, Program.traced_bind]
    refine ⟨h, fun replies => ?_⟩
    rw [Program.traced_done]
    split
    · trivial
    · split
      · apply Program.Asks.traced_true
        exact (asks_askData fun _ => trivial).bind fun _ => trivial
      · trivial
  rw [imssUnlink, Program.traced_bind]
  exact hunlink.mono fun _ _ _ => trivial

/-- A directory is deleted only if its listing has no names. -/
theorem traced_imssRmdir (t' : ClientTables) :
    (imssRmdir t' path).Traced (Checked t) (fun _ _ => True) log := by
  rw [imssRmdir, Program.traced_bind]
  refine ⟨trivial, fun replies => ?_⟩
  rw [Program.traced_done]
  split
  next items =>
    split
    next => trivial
    next hshort =>
      obtain rfl : items = [] := List.eq_nil_of_length_eq_zero (by omega)
      refine traced_imssUnlink fun _ => ?_
      rw [List.any_append]
      simp [NameLog.listsNothing]
  next => trivial

theorem traced_unlink (t : ClientTables) (path : CString) :
    (unlink t path).Traced (Checked t) (fun _ _ => True) [] := by
  have hnothing : NoListing [] := fun _ => rfl
  rw [unlink]
  split
  next => exact traced_imssRmdir t
  next =>
    rw [Program.traced_bind]
    refine (traced_of_searches (asks_askLookUp t path) hnothing).mono fun log answer hlog => ?_
    dsimp only
    split
    next => trivial
    next => exact traced_imssRmdir _
    next =>
      have hdelete : Searches (.delete path) := trivial
      exact traced_imssUnlink (checked_of_noListing hdelete hlog)

end NameProgram

/-- Every call makes its checks. -/
theorem NameCall.traced_program (call : NameCall) (t : ClientTables) :
    (call.program t).Traced (Checked t) (fun _ _ => True) [] := by
  cases call with
  | create path args mode => exact NameProgram.traced_imssCreate t path _ 1 mode
  | mkdir path args mode => exact NameProgram.traced_imssCreate t path _ 2 _
  | unlink path => exact NameProgram.traced_unlink t path
  | rmdir path => exact NameProgram.traced_imssRmdir t
  | rename old new =>
      have hnothing : NameProgram.NoListing [] := fun _ => rfl
      exact (NameProgram.traced_of_searches (NameProgram.asks_imssRename t old new)
        hnothing).mono fun _ _ _ => trivial

/-! ## What keeps the maps below directories -/

namespace HierarchicalRecords

variable {store store' : HierarchicalRecords DatasetRecord} {dir key name old new : CString}

/-- Every map with entries belongs to the root or to a name that is found as a directory. -/
def Rooted (store : HierarchicalRecords DatasetRecord) : Prop :=
  ∀ dir, store.HasEntries dir → store.CanHold dir

theorem mem_keysOf : key ∈ store.keysOf dir ↔
    ∃ records, store.getDirUnsafe dir = some records ∧ (records.get key).isSome := by
  rw [keysOf]
  cases store.getDirUnsafe dir with
  | none => simp
  | some records => simp [MapRecords.get]

theorem hasEntries_iff : store.HasEntries dir ↔
    ∃ records key, store.getDirUnsafe dir = some records ∧ (records.get key).isSome := by
  constructor
  · intro h
    obtain ⟨key, hkey⟩ := List.exists_mem_of_ne_nil _ h
    obtain ⟨records, hrecords, hsome⟩ := mem_keysOf.mp hkey
    exact ⟨records, key, hrecords, hsome⟩
  · rintro ⟨records, key, hrecords, hsome⟩
    exact List.ne_nil_of_mem (mem_keysOf.mpr ⟨records, hrecords, hsome⟩)

theorem hasEntries_of_get (h : (store.hierarchicalMapGet key).isSome) :
    store.HasEntries (findLastParentDir key) := by
  obtain ⟨records, hrecords, hkey⟩ := exists_parent_of_stored h
  exact hasEntries_iff.mpr ⟨records, key, hrecords, hkey⟩

theorem mem_keysOf_of_get (h : (store.hierarchicalMapGet key).isSome) :
    key ∈ store.keysOf (findLastParentDir key) :=
  mem_keysOf.mpr (exists_parent_of_stored h)

theorem isDirectory_iff : store.IsDirectory name ↔
    ∃ record, store.hierarchicalMapGet name = some record ∧ record.isDirectory = true := by
  rw [IsDirectory]
  cases store.hierarchicalMapGet name with
  | none => simp
  | some record => simp

/-- A name that takes over the record of a directory is one. -/
theorem IsDirectory.of_get (hdir : store.IsDirectory old)
    (h : ∀ record, store.hierarchicalMapGet old = some record →
      store'.hierarchicalMapGet new = some record) : store'.IsDirectory new := by
  obtain ⟨record, hrecord, hisDir⟩ := isDirectory_iff.mp hdir
  exact isDirectory_iff.mpr ⟨record, h record hrecord, hisDir⟩

/-- Each map with entries belongs to what can hold them, or had entries before and to a directory
that stays one. -/
theorem Rooted.of_step (hrooted : store.Rooted)
    (hstep : ∀ dir, store'.HasEntries dir → store'.CanHold dir ∨
      store.HasEntries dir ∧ (store.IsDirectory dir → store'.IsDirectory dir)) :
    store'.Rooted := by
  intro dir hdir
  rcases hstep dir hdir with hcan | ⟨hbefore, hstays⟩
  · exact hcan
  · exact (hrooted dir hbefore).imp_right hstays

end HierarchicalRecords

/-! ## Requests for one name -/

/-- What a request leaves of a record has the same type. -/
theorem MetadataRequest.isDirectory_effect {request : MetadataRequest}
    {record record' : DatasetRecord} (h : request.effect (some record) = some record') :
    record'.isDirectory = record.isDirectory := by
  cases request with
  | readOp operation uri =>
      simp only [effect] at h
      split at h
      · cases h
        rfl
      · cases h
        rfl
  | deleteOp operation uri =>
      simp only [effect, DatasetRecord.marked] at h
      split_ifs at h
      · cases h
        rfl
      · cases h
        rfl
  | closeOp uri =>
      simp only [effect, DatasetRecord.closed] at h
      split_ifs at h
      · cases h
        rfl
      · cases h
        rfl
  | openOp uri =>
      simp only [effect, DatasetRecord.recovered, DatasetRecord.opened] at h
      cases h
      split_ifs
      · rfl
      · rfl
  | setOp uri received =>
      simp only [effect, DatasetRecord.recovered, DatasetRecord.merged] at h
      cases h
      split_ifs
      · rfl
      · rfl

namespace MetadataServer

variable {server : MetadataServer} {request : MetadataRequest}

/-- A directory stays one under a request, unless the request removes it. -/
theorem isDirectory_handle {name : CString} (hdir : server.store.IsDirectory name)
    (hkept : server.key request.uri = name → request.effect (server.get name) ≠ none) :
    (server.handle request).2.store.IsDirectory name := by
  obtain ⟨record, hrecord, hisDir⟩ := HierarchicalRecords.isDirectory_iff.mp hdir
  have hget := server.holds_handle request name
  by_cases hkey : server.key request.uri = name
  · rw [if_pos hkey, hkey] at hget
    obtain ⟨record', heffect⟩ := Option.ne_none_iff_exists'.mp (hkept hkey)
    refine HierarchicalRecords.isDirectory_iff.mpr ⟨record', hget.trans heffect, ?_⟩
    rw [get, hrecord] at heffect
    rw [MetadataRequest.isDirectory_effect heffect, hisDir]
  · rw [if_neg hkey] at hget
    exact hdir.of_get fun _ => hget.trans

/-- A request for a name that is found, or has a place, keeps the maps below directories if it does
not remove a directory with entries. -/
theorem rooted_handle (hrooted : server.store.Rooted)
    (hplace : (server.get (server.key request.uri)).isSome ∨
      (server.handle request).2.store.CanHold (findLastParentDir (server.key request.uri)))
    (hkept : server.store.HasEntries (server.key request.uri) →
      server.store.IsDirectory (server.key request.uri) →
        request.effect (server.get (server.key request.uri)) ≠ none) :
    (server.handle request).2.store.Rooted := by
  have hevery : (server.handle request).2.store.EveryKey fun dir _ =>
      server.store.HasEntries dir ∨ (server.handle request).2.store.CanHold dir := by
    apply everyKey_handle
    · exact hplace.imp_left HierarchicalRecords.hasEntries_of_get
    · intro dir records key hrecords hsome
      exact Or.inl (HierarchicalRecords.hasEntries_iff.mpr ⟨records, key, hrecords, hsome⟩)
  apply hrooted.of_step
  intro dir hentries
  obtain ⟨records, key, hrecords, hsome⟩ := HierarchicalRecords.hasEntries_iff.mp hentries
  rcases hevery dir records key hrecords hsome with hbefore | hcan
  · refine Or.inr ⟨hbefore, fun hdir => isDirectory_handle hdir ?_⟩
    rintro rfl
    exact hkept hbefore hdir
  · exact Or.inl hcan

/-- A name that is not found is not touched by a lookup or a deletion. -/
theorem handle_readOp_of_none {uri : CString} (h : server.get (server.key uri) = none)
    (operation : Nat) : server.handle (.readOp operation uri) = (.error, server) := by
  simp only [handle, readOp, h]

theorem handle_deleteOp_of_none {uri : CString} (h : server.get (server.key uri) = none)
    (operation : Nat) : server.handle (.deleteOp operation uri) = (.error, server) := by
  simp only [handle, deleteOp, h]

theorem rooted_readOp (hrooted : server.store.Rooted) (opened : Nat) (uri : CString) :
    (server.handle (.readOp opened uri)).2.store.Rooted := by
  cases hget : server.get (server.key uri) with
  | none => rwa [handle_readOp_of_none hget]
  | some record =>
      apply rooted_handle hrooted
      · exact Or.inl (by rw [MetadataRequest.uri, hget, Option.isSome_some])
      · intro _ _
        rw [MetadataRequest.uri, hget, MetadataRequest.effect]
        split <;> simp

theorem rooted_deleteOp (hrooted : server.store.Rooted) {uri : CString}
    (hkeeps : server.Keeps (.delete uri)) :
    (server.handle (.deleteOp 4 uri)).2.store.Rooted := by
  cases hget : server.get (server.key uri) with
  | none => rwa [handle_deleteOp_of_none hget]
  | some record =>
      apply rooted_handle hrooted
      · exact Or.inl (by rw [MetadataRequest.uri, hget, Option.isSome_some])
      · intro hentries hdir
        have hopen : record.nOpen ≠ 0 := by
          intro hzero
          refine hkeeps ?_ hentries hdir
          simp [hget, hzero]
        rw [MetadataRequest.uri, hget, MetadataRequest.effect, if_neg hopen]
        simp

theorem rooted_setOp (hrooted : server.store.Rooted) {uri : CString} {record : DatasetRecord}
    (hkeeps : server.Keeps (.set uri record)) :
    (server.handle (.setOp uri record)).2.store.Rooted := by
  have heffect : ∀ found, (MetadataRequest.setOp uri record).effect found ≠ none := by
    intro found
    cases found with
    | none => simp [MetadataRequest.effect]
    | some stored => simp [MetadataRequest.effect]
  apply rooted_handle hrooted
  · refine hkeeps.imp_right fun hcan => hcan.imp_right fun hdir => ?_
    exact isDirectory_handle hdir fun _ => heffect _
  · intro _ _
    exact heffect _

end MetadataServer

/-! ## Renames -/

section Renames

variable {store : HierarchicalRecords DatasetRecord} {old new : CString}

/-- The keys that are scanned have nothing below them, so the rename of a regular file moves no
directory with entries. -/
theorem rooted_renamedStore (hrooted : store.Rooted) {records : MapRecords DatasetRecord}
    (hchild : store.getChildUnsafe old = some records)
    (hbare : ∀ key ∈ store.keysOf (findLastParentDir old), upTo '$' key = old →
      ¬ store.HasEntries key) : (renamedStore store records old new).Rooted := by
  apply hrooted.of_step
  intro dir hentries
  obtain ⟨records', key, hrecords', hsome⟩ := HierarchicalRecords.hasEntries_iff.mp hentries
  have hbefore : store.HasEntries dir := by
    rw [renamedStore, HierarchicalRecords.getDirUnsafe_setDir] at hrecords'
    split at hrecords'
    next hdir =>
      cases hrecords'
      obtain ⟨value, hvalue⟩ := Option.isSome_iff_exists.mp hsome
      obtain ⟨source, hsource, -⟩ := exists_of_moveKeys _ _ hvalue
      exact HierarchicalRecords.hasEntries_iff.mpr
        ⟨records, source, hdir ▸ hchild, Option.isSome_of_eq_some hsource⟩
    next => exact HierarchicalRecords.hasEntries_iff.mpr ⟨records', key, hrecords', hsome⟩
  refine Or.inr ⟨hbefore, fun hdir => hdir.of_get fun record hrecord => ?_⟩
  by_cases hbeside : findLastParentDir dir = findLastParentDir old
  · have hmem := HierarchicalRecords.mem_keysOf_of_get (Option.isSome_of_eq_some hrecord)
    rw [get_of_getChildUnsafe hchild hbeside] at hrecord
    rw [get_renamedStore_visible hbeside]
    refine get_renamedRecords_of_some (fun hscanned => ?_) hrecord
    rw [hbeside] at hmem
    exact hbare dir hmem (MapRecords.mem_keysOfPath.mp hscanned).2 hbefore
  · rw [get_renamedStore_hidden hbeside, hrecord]

theorem rooted_statRename (hrooted : store.Rooted)
    (hbare : ∀ key ∈ store.keysOf (findLastParentDir (removeLastSlash old)),
      upTo '$' key = removeLastSlash old → ¬ store.HasEntries key)
    {result : Reply × HierarchicalRecords DatasetRecord}
    (h : statRename store old new = .ok result) : result.2.Rooted := by
  rw [statRename] at h
  by_cases hcut : AllCut store (removeLastSlash old)
  · by_cases hmatch : SomeMatch store (removeLastSlash old)
    · obtain ⟨records, hchild, hrename⟩ :=
        rename_of_accepted ⟨hcut, hmatch⟩ (removeLastSlash new)
      rw [hrename] at h
      cases h
      exact rooted_renamedStore hrooted hchild hbare
    · rw [rename_refused hcut hmatch] at h
      cases h
      exact hrooted
  · rw [rename_throws hcut] at h
    cases h

/-- The renames of the entries and of the own key fill no empty map. -/
theorem hasEntries_of_backEnd {dir : CString} (hsome : (store.getDirUnsafe old).isSome)
    (h : (store.backEndHierarchicalMapRenameDirDirMetadata DatasetRecord.setUri old new
      ).2.HasEntries dir) : store.HasEntries dir := by
  obtain ⟨records, key, hrecords, hkey⟩ := HierarchicalRecords.hasEntries_iff.mp h
  obtain ⟨value, hvalue⟩ := Option.isSome_iff_exists.mp hkey
  rw [getDirUnsafe_backEnd dir hsome] at hrecords
  split at hrecords
  next => exact HierarchicalRecords.hasEntries_iff.mpr ⟨records, key, hrecords, hkey⟩
  next =>
    have hentries : ∀ records' key', (if old = dir then (store.getDirUnsafe dir).map
        (·.renameMetadataDirStatWorker DatasetRecord.setUri old new)
        else store.getDirUnsafe dir) = some records' → records'.get key' = some value →
          store.HasEntries dir := by
      intro records' key' hrecords' hvalue'
      split at hrecords'
      next =>
        obtain ⟨before, hbefore, rfl⟩ := Option.map_eq_some_iff.mp hrecords'
        obtain ⟨source, entry, hentry, -⟩ := exists_of_renameMetadataDirStatWorker hvalue'
        exact HierarchicalRecords.hasEntries_iff.mpr
          ⟨before, source, hbefore, Option.isSome_of_eq_some hentry⟩
      next =>
        exact HierarchicalRecords.hasEntries_iff.mpr
          ⟨records', key', hrecords', Option.isSome_of_eq_some hvalue'⟩
    simp only at hrecords
    split at hrecords
    next =>
      obtain ⟨parent, hparent, rfl⟩ := Option.map_eq_some_iff.mp hrecords
      rcases get_of_updateKey hvalue with hthere | hold
      · exact hentries parent key hparent hthere
      · exact hentries parent old hparent hold
    next => exact hentries records key hrecords hvalue

/-- After a directory rename the new name has the entries of the old one, and the old one has
none. -/
theorem hasEntries_of_renamedDirs {dir : CString} (hsome : (store.getDirUnsafe old).isSome)
    (h : (renamedDirs store old new).HasEntries dir) :
    dir ≠ old ∧ if dir = new then store.HasEntries old else store.HasEntries dir := by
  obtain ⟨records, key, hrecords, hkey⟩ := HierarchicalRecords.hasEntries_iff.mp h
  obtain ⟨moved, hmoved⟩ := Option.isSome_iff_exists.mp (isSome_getDirUnsafe_backEnd new hsome)
  rw [renamedDirs, getDirUnsafe_renameKey hmoved] at hrecords
  split at hrecords
  next => cases hrecords
  next hold =>
    refine ⟨Ne.symm hold, ?_⟩
    split at hrecords
    next hnew =>
      cases hrecords
      rw [if_pos hnew.symm]
      exact hasEntries_of_backEnd hsome
        (HierarchicalRecords.hasEntries_iff.mpr ⟨_, key, hmoved, hkey⟩)
    next hnew =>
      rw [if_neg (Ne.symm hnew)]
      exact hasEntries_of_backEnd hsome
        (HierarchicalRecords.hasEntries_iff.mpr ⟨records, key, hrecords, hkey⟩)

/-- A name other than the old one is found as before, if its parent is neither of the two. -/
theorem get_renamedDirs_of_some {name : CString} {record : DatasetRecord}
    (hsome : (store.getDirUnsafe old).isSome) (hne : name ≠ old)
    (hold : findLastParentDir name ≠ old) (hnew : findLastParentDir name ≠ new)
    (hrecord : store.hierarchicalMapGet name = some record) :
    (renamedDirs store old new).hierarchicalMapGet name = some record := by
  rw [get_renamedDirs_of_ne hold hnew hsome]
  split
  next =>
    obtain ⟨parent, hparent, hname⟩ := Option.bind_eq_some_iff.mp hrecord
    rw [hparent, Option.bind_some]
    by_cases htaken : name = new
    · rw [updateKey_of_not_moves (Or.inr (htaken ▸ Option.isSome_of_eq_some hname)), hname]
    · rw [MapRecords.get_updateKey_of_ne _ hne htaken, hname]
  next => exact hrecord

/-- A free name beside the old one takes its record. -/
theorem get_renamedDirs_of_free {record : DatasetRecord}
    (hsome : (store.getDirUnsafe old).isSome) (hold : findLastParentDir new ≠ old)
    (hnew : findLastParentDir new ≠ new) (hbeside : findLastParentDir new = findLastParentDir old)
    (hfree : store.hierarchicalMapGet new = none)
    (hrecord : store.hierarchicalMapGet old = some record) :
    (renamedDirs store old new).hierarchicalMapGet new = some record := by
  obtain ⟨parent, hparent, hvalue⟩ := Option.bind_eq_some_iff.mp hrecord
  rw [HierarchicalRecords.getChildUnsafe, ← hbeside] at hparent
  rw [HierarchicalRecords.hierarchicalMapGet_eq, hparent, Option.bind_some] at hfree
  have hne : old ≠ new := by
    rintro rfl
    rw [hvalue] at hfree
    cases hfree
  rw [get_renamedDirs_of_ne hold hnew hsome, if_pos hbeside.symm,
    HierarchicalRecords.getChildUnsafe, hparent, Option.bind_some,
    MapRecords.updateKey_moves (Option.isSome_of_eq_some hvalue) hne hfree]
  exact getElem?_moveKey_new hvalue hfree

/-- The new name of a directory with entries can hold them. -/
theorem canHold_renamedDirs (hrooted : store.Rooted) (hsome : (store.getDirUnsafe old).isSome)
    (hne : new ≠ old) (hentries : store.HasEntries old) (htakes : store.TakesName old new) :
    (renamedDirs store old new).CanHold new := by
  by_cases hroot : new = imssRoot
  · exact Or.inl hroot
  · have hself : findLastParentDir new ≠ new := fun h =>
      hroot (eq_imssRoot_of_findLastParentDir h)
    obtain ⟨hold, hdir | ⟨hbeside, hfree⟩⟩ := htakes.resolve_left hroot
    · exact Or.inr (hdir.of_get fun _ => get_renamedDirs_of_some hsome hne hold hself)
    · rcases hrooted old hentries with rfl | hdir
      · exact absurd hbeside hold
      · have hnone := Option.isNone_iff_eq_none.mp hfree
        exact Or.inr (hdir.of_get fun _ =>
          get_renamedDirs_of_free hsome hold hself hbeside hnone)

/-- A directory with entries is not in a map without directories that have some. -/
theorem parent_ne_of_flat {dir flat : CString} (hflat : store.Flat flat)
    (hentries : store.HasEntries dir) (hdir : store.IsDirectory dir) :
    findLastParentDir dir ≠ flat := by
  rintro rfl
  obtain ⟨record, hrecord, -⟩ := HierarchicalRecords.isDirectory_iff.mp hdir
  exact hflat dir (HierarchicalRecords.mem_keysOf_of_get
    (Option.isSome_of_eq_some hrecord)) hentries

theorem rooted_renamedDirs (hrooted : store.Rooted) (hold : store.Flat old) (hnew : store.Flat new)
    (htakes : store.HasEntries old → store.TakesName old new) :
    (renamedDirs store old new).Rooted := by
  cases hmap : store.getDirUnsafe old with
  | none =>
      rwa [renamedDirs, HierarchicalRecords.backEndHierarchicalMapRenameDirDirMetadata,
        renameDirDir_of_none hmap, renameKey_of_none hmap]
  | some records =>
      have hsome : (store.getDirUnsafe old).isSome := Option.isSome_of_eq_some hmap
      apply hrooted.of_step
      intro dir hentries
      obtain ⟨hne, hbefore⟩ := hasEntries_of_renamedDirs hsome hentries
      split at hbefore
      next hdir =>
        subst hdir
        exact Or.inl (canHold_renamedDirs hrooted hsome hne hbefore (htakes hbefore))
      next =>
        refine Or.inr ⟨hbefore, fun hdir => hdir.of_get fun _ => ?_⟩
        exact get_renamedDirs_of_some hsome hne (parent_ne_of_flat hold hbefore hdir)
          (parent_ne_of_flat hnew hbefore hdir)

end Renames

/-! ## Whole runs -/

namespace MetadataServer

variable {server : MetadataServer}

/-- The collector takes no directory with entries. -/
theorem rooted_clean (hrooted : server.store.Rooted) (hbare : server.CleansBare) :
    server.clean.store.Rooted := by
  apply hrooted.of_step
  intro dir hentries
  obtain ⟨records, key, hrecords, hsome⟩ := HierarchicalRecords.hasEntries_iff.mp hentries
  rw [clean, HierarchicalRecords.getDirUnsafe_cleanGarbageCollectorMetadata] at hrecords
  obtain ⟨before, hbefore, rfl⟩ := Option.map_eq_some_iff.mp hrecords
  rw [MapRecords.get_cleaningMetadata] at hsome
  have hkey : (before.get key).isSome := by
    split at hsome
    · cases hsome
    · exact hsome
  have hheld : server.store.HasEntries dir :=
    HierarchicalRecords.hasEntries_iff.mpr ⟨before, key, hbefore, hkey⟩
  refine Or.inr ⟨hheld, fun hdir => hdir.of_get fun record hrecord => ?_⟩
  have hkept : dir ∉ (server.store.garbageOf (findLastParentDir dir)).map removeLastSlash := by
    intro hmem
    obtain ⟨name, hname, heq⟩ := List.mem_map.mp hmem
    refine hbare dir ?_ hheld name hname heq
    rw [ExtTreeMap.mem_keys, ← ExtTreeMap.isSome_getElem?_iff_mem]
    exact Option.isSome_of_eq_some hbefore
  exact (server.get_clean dir).trans (by rw [if_neg hkept, get, hrecord])

/-- Each request that meets its condition keeps the maps below directories. -/
theorem rooted_serveName (req : NameRequest) (outside : DataAnswer)
    (answer : List NameReply × MetadataServer) (hrooted : server.store.Rooted)
    (hkeeps : server.Keeps req) (hserve : server.serveName req outside = some answer) :
    answer.2.store.Rooted := by
  cases req with
  | read opened uri =>
      cases hserve
      exact rooted_readOp hrooted opened uri
  | set uri record =>
      cases hserve
      exact rooted_setOp hrooted hkeeps
  | delete uri =>
      cases hserve
      exact rooted_deleteOp hrooted hkeeps
  | rename kind old new =>
      obtain ⟨result, hresult, rfl⟩ := Option.map_eq_some_iff.mp hserve
      cases kind with
      | file =>
          simp only [serveRenameKind] at hresult
          split at hresult
          next renamed hrename =>
            cases hresult
            exact rooted_statRename hrooted hkeeps hrename
          next => cases hresult
      | directory =>
          cases hresult
          simp only [statRenameDirDir, removeLastSlash_append_slash]
          exact rooted_renamedDirs hrooted hkeeps.1 hkeeps.2.1 hkeeps.2.2
  | getdir | blockZero | data =>
      cases hserve
      exact hrooted

/-- The instance stays the same. -/
theorem imssUri_serveName {req : NameRequest} {outside : DataAnswer}
    {answer : List NameReply × MetadataServer} (h : server.serveName req outside = some answer) :
    answer.2.imssUri = server.imssUri := by
  cases req with
  | read | set | delete =>
      cases h
      exact server.imssUri_handle _
  | rename kind old new =>
      obtain ⟨result, hresult, rfl⟩ := Option.map_eq_some_iff.mp h
      cases kind with
      | file =>
          simp only [serveRenameKind] at hresult
          split at hresult
          · cases hresult
            rfl
          · cases hresult
      | directory =>
          cases hresult
          rfl
  | getdir | blockZero | data =>
      cases h
      rfl

theorem closed_of_rooted (hrooted : server.store.Rooted) : server.Closed := by
  intro key hkey hparent
  have hcan := hrooted _ (HierarchicalRecords.hasEntries_of_get hkey)
  exact HierarchicalRecords.isDirectory_iff.mp (hcan.resolve_left hparent)

theorem rooted_init (imssUri : CString) : (init imssUri).store.Rooted := by
  intro dir hentries
  obtain ⟨records, key, hrecords, hkey⟩ := HierarchicalRecords.hasEntries_iff.mp hentries
  exact (HierarchicalRecords.everyKey_init (fun _ _ => False) imssUri dir records key hrecords
    hkey).elim

end MetadataServer

/-- What a call has checked, and what it has found and nobody has made wrong, keeps names below
directories. -/
theorem MetadataServer.keeps_of_orderly {server : MetadataServer} {t : ClientTables}
    {log : NameLog} {req : NameRequest} (himss : server.imssUri = imssRoot)
    (hchecked : Checked t log req) (horderly : server.Orderly t log req) : server.Keeps req := by
  cases req with
  | set uri record =>
      have hname : server.key uri = nameOf uri := by rw [key, himss, nameOf]
      obtain ⟨hend, hstored, hdirectory⟩ := horderly
      rw [hname] at hstored hdirectory
      rw [Keeps, hname]
      rcases hchecked hend with hroot | hfound
      · exact Or.inr (Or.inl hroot)
      · obtain ⟨parent, hparent⟩ := Option.isSome_iff_exists.mp (hstored hfound)
        rw [hparent, Option.all_some] at hdirectory
        exact Or.inr (Or.inr
          (HierarchicalRecords.isDirectory_iff.mpr ⟨parent, hparent, hdirectory⟩))
  | delete uri =>
      intro hclosed hentries hdir
      obtain ⟨hempty, hregular⟩ := horderly hclosed
      by_cases hlisted : log.any (NameLog.lists uri) = true
      · exact hempty (hchecked hlisted) hentries
      · exact hregular hlisted hdir
  | rename => exact horderly
  | read | getdir | blockZero | data => trivial

/-- In every run in which what the calls have found stays right until they act on it, each stored
name below the first level has a parent that is stored as a directory. -/
theorem closed_of_orderly {ι : Type} [DecidableEq ι]
    (actions : List (ClientsAction ι NameCall DataAnswer))
    (state : Clients ι MetadataServer NameRequest NameReply ClientTables)
    (hrun : run naming.step actions (namingInit ι) = some state)
    (horderly : Along naming.step
      (Protocol.Meets MetadataServer.Orderly MetadataServer.CleansBare) actions (namingInit ι)) :
    state.server.Closed := by
  have hserve : ∀ (server : MetadataServer) t log req outside answer,
      server.imssUri = imssRoot ∧ server.store.Rooted → Checked t log req →
        server.Orderly t log req → naming.serve server req outside = some answer →
          answer.2.imssUri = imssRoot ∧ answer.2.store.Rooted := by
    intro server t log req outside answer hinv hchecked horderly hanswer
    refine ⟨(MetadataServer.imssUri_serveName hanswer).trans hinv.1, ?_⟩
    exact MetadataServer.rooted_serveName req outside answer hinv.2
      (MetadataServer.keeps_of_orderly hinv.1 hchecked horderly) hanswer
  have hwork : ∀ server : MetadataServer, server.imssUri = imssRoot ∧ server.store.Rooted →
      server.CleansBare →
        (naming.work server).imssUri = imssRoot ∧ (naming.work server).store.Rooted := by
    intro server hinv hbare
    exact ⟨hinv.1, MetadataServer.rooted_clean hinv.2 hbare⟩
  apply MetadataServer.closed_of_rooted
  exact (Protocol.invariant_run NameCall.traced_program hserve hwork horderly
    ⟨rfl, MetadataServer.rooted_init imssRoot⟩ hrun).2

/-- The arguments of a creation that are accepted. -/
def acceptedArgs : CreateArgs :=
  ⟨some "RR".toList, 1, 1, 1, 0, false⟩

/-- One client makes `imss://d` and `imss://e`. Another one creates `imss://d/x`; between its
lookup and its record the first one removes `imss://e`. -/
def childOfDirectory : List (ClientsAction Bool NameCall DataAnswer) :=
  .start true (.mkdir "imss://d".toList acceptedArgs 0) ::
    (List.replicate 3 (.advance true ⟨none, 0⟩) ++
      .start true (.mkdir "imss://e".toList acceptedArgs 0) ::
        (List.replicate 3 (.advance true ⟨none, 0⟩) ++
          .start false (.create "imss://d/x".toList acceptedArgs 0) ::
            .advance false ⟨none, 0⟩ ::
              .start true (.rmdir "imss://e".toList) ::
                (List.replicate 3 (.advance true ⟨none, 0⟩) ++
                  List.replicate 3 (.advance false ⟨none, 0⟩) ++ [.work])))

theorem closed_childOfDirectory : ∃ state, run naming.step childOfDirectory (namingInit Bool) =
    some state ∧ (state.server.get "imss://d/x".toList).isSome ∧
      (state.server.get "imss://e".toList).isNone ∧ state.server.Closed := by
  have hstored : ((run naming.step childOfDirectory (namingInit Bool)).map fun state =>
      ((state.server.get "imss://d/x".toList).isSome,
        (state.server.get "imss://e".toList).isNone)) = some (true, true) := by
    decide +kernel
  obtain ⟨state, hrun, hfound⟩ := Option.map_eq_some_iff.mp hstored
  obtain ⟨hchild, hremoved⟩ := Prod.mk.inj hfound
  exact ⟨state, hrun, hchild, hremoved,
    closed_of_orderly childOfDirectory state hrun (by decide +kernel)⟩

/-- After a run that stores `imss://f/x`, and no directory under the name of its parent, the server
is not closed. -/
theorem not_closed_of_child {actions : List (ClientsAction Bool NameCall DataAnswer)}
    (h : ((run naming.step actions (namingInit Bool)).map fun state =>
      ((state.server.get "imss://f/x".toList).isSome,
        (state.server.get "imss://f".toList).any fun record => record.isDirectory)) =
      some (true, false)) :
    ∃ state, run naming.step actions (namingInit Bool) = some state ∧ ¬ state.server.Closed := by
  obtain ⟨state, hrun, hfound⟩ := Option.map_eq_some_iff.mp h
  obtain ⟨hchild, hparent⟩ := Prod.mk.inj hfound
  have hdir : findLastParentDir "imss://f/x".toList = "imss://f".toList := by decide +kernel
  have hbelow : findLastParentDir "imss://f/x".toList ≠ imssRoot := by decide +kernel
  refine ⟨state, hrun, fun hclosed => ?_⟩
  obtain ⟨record, hrecord, hisDir⟩ := hclosed "imss://f/x".toList hchild hbelow
  rw [hdir] at hrecord
  rw [hrecord, Option.any_some, hisDir] at hparent
  cases hparent

/-- A client creates the regular file `imss://f`, and then `imss://f/x`. -/
def childOfFile : List (ClientsAction Bool NameCall DataAnswer) :=
  .start true (.create "imss://f".toList acceptedArgs 0) ::
    (List.replicate 3 (.advance true ⟨none, 0⟩) ++
      .start true (.create "imss://f/x".toList acceptedArgs 0) ::
        List.replicate 2 (.advance true ⟨none, 0⟩))

/-- A client makes `imss://f` and removes it while another one creates `imss://f/x`. -/
def childOfRemoved : List (ClientsAction Bool NameCall DataAnswer) :=
  .start true (.mkdir "imss://f".toList acceptedArgs 0) ::
    (List.replicate 3 (.advance true ⟨none, 0⟩) ++
      .start false (.create "imss://f/x".toList acceptedArgs 0) ::
        .advance false ⟨none, 0⟩ ::
          .start true (.rmdir "imss://f".toList) ::
            (List.replicate 2 (.advance true ⟨none, 0⟩) ++
              List.replicate 2 (.advance false ⟨none, 0⟩)))

/-- The parent is a regular file after the one run and is not stored after the other. -/
theorem not_closed_childOfFile :
    (∃ state, run naming.step childOfFile (namingInit Bool) = some state ∧
        ¬ state.server.Closed) ∧
      ∃ state, run naming.step childOfRemoved (namingInit Bool) = some state ∧
        ¬ state.server.Closed :=
  ⟨not_closed_of_child (by decide +kernel), not_closed_of_child (by decide +kernel)⟩

end Hercules
