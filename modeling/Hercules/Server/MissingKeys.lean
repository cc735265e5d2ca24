/-
# Requests for what a data server does not hold

A read, an unlink, a delete or a rename can name a block or a file that the server does
not hold. `Handled` records what the handling of one request does: the replies in the
order they are sent, and the state the server goes on with. A server that ends sends no
more, but what it sent before has left.

The four kinds find out in four ways. A read and an unlink look the key up, and both send
the not-found text; the read is finished then, the unlink goes on with the null pointer.
A delete does not look, and drops the return value of the garbage collector. A rename
scans the map of the directory, and confirms what the scan reports.
-/

import Hercules.Server.Requests

namespace Hercules

open Lib Lib.Text

/-- The replies that are sent for a request, and the state afterwards; there is none if
the server ends. -/
structure Handled where
  replies : List Response
  next : Option DataServer

/-- A request that is answered with one confirmation. -/
def Handled.confirmed (result : Reply × DataServer) : Handled :=
  ⟨[.confirmation result.1], some result.2⟩

/-- The requests on objects that should be stored: `READ_OP`, `UNLINK_OP`, `DELETE_OP`,
`RENAME_OP` and `RENAME_DIR_DIR_OP`. -/
inductive ObjectRequest
  | read (key : CString) (blockOffset toRead : Nat)
  | unlink (key : CString) (numOpened : Nat)
  | delete (key : CString)
  | rename (names : CString)
  | renameDirDir (names : CString)

/-- The request that a data server recognises in the scanned fields. -/
def ScannedRequest.toObjectRequest (scanned : ScannedRequest) : Option ObjectRequest :=
  if scanned.mode = ['G', 'E', 'T'] then
    match scanned.blockSizeRecv with
    | 0 => some (.read scanned.uri scanned.blockOffset scanned.toRead)
    | 4 => some (.delete scanned.uri)
    | 5 => some (.rename scanned.uri)
    | 6 => some (.renameDirDir scanned.uri)
    | 12 => some (.unlink scanned.uri scanned.blockOffset)
    | _ => none
  else none

namespace ObjectRequest

/-- The branches of `srv_worker_helper`. -/
def handle (server : DataServer) : ObjectRequest → Handled
  | .read key blockOffset toRead =>
      ⟨[.block (server.read key blockOffset toRead)], some server⟩
  | .unlink key numOpened =>
      match server.unlink key numOpened with
      -- the not-found text is sent before the null pointer is used
      | none => ⟨[.block none], none⟩
      | some result => .confirmed result
  | .delete key => .confirmed (server.delete key)
  | .rename names =>
      match server.rename names with
      | none => ⟨[], none⟩
      | some result => .confirmed result
  | .renameDirDir names => .confirmed (server.renameDirDir names)

/-- The server's answer to the text of a request is what the handling ends with. -/
theorem serve_eq_handle {req : CString} {scanned : ScannedRequest} {request : ObjectRequest}
    (hscan : scanRequest req = some scanned) (hrequest : scanned.toObjectRequest = some request)
    (config : ServerConfig) (server : DataServer) (payload : List UInt8) (fresh : Memory) :
    server.serve config req payload fresh =
      (request.handle server).next.bind fun server' =>
        (request.handle server).replies.head?.map fun reply => (reply, server') := by
  obtain ⟨mode, number, blockOffset, key, toRead⟩ := scanned
  rw [ScannedRequest.toObjectRequest] at hrequest
  split at hrequest
  · next hmode =>
      obtain rfl : mode = ['G', 'E', 'T'] := hmode
      rw [DataServer.serve, hscan]
      split at hrequest
      all_goals cases hrequest
      next hnumber =>
        obtain rfl : number = 0 := hnumber
        rfl
      next hnumber =>
        obtain rfl : number = 4 := hnumber
        rfl
      next hnumber =>
        obtain rfl : number = 5 := hnumber
        simp only [handle]
        cases server.rename key <;> rfl
      next hnumber =>
        obtain rfl : number = 6 := hnumber
        rfl
      next hnumber =>
        obtain rfl : number = 12 := hnumber
        simp only [handle]
        cases server.unlink key blockOffset <;> rfl
  · cases hrequest

/-- No key that continues the name with one of the suffixes is held. -/
def NotHeld (server : DataServer) (suffix : CString → Prop) (name : CString) : Prop :=
  ∀ s, suffix s → server.get (name ++ s) = none

/-- The request names an object that the server does not hold: a block, a file without any
block, or a directory without own blocks and with nothing below it. -/
def Missing (server : DataServer) : ObjectRequest → Prop
  | .read key _ _ => server.get key = none
  | .unlink key _ => server.get key = none
  | .delete key => NotHeld server BlockSuffix key
  | .rename names =>
      ∀ old new, DataServer.splitNames names = some (old, new) → NotHeld server BlockSuffix old
  | .renameDirDir names =>
      ∀ old new, DataServer.splitNames names = some (old, new) → NotHeld server DirSuffix old

/-- The replies that say that an object is absent or a request has failed. -/
def TellsFailure (response : Response) : Prop :=
  response = .block none ∨ response = .confirmation (some .error)

/-- One reply is sent, it tells the client, and the server goes on with the state it had. -/
def AnswersFailure (server : DataServer) (handled : Handled) : Prop :=
  ∃ response, TellsFailure response ∧ handled = ⟨[response], some server⟩

/-- The requests that are answered as they should be. A read always is, an unlink and a
delete never are. A rename is if no key beside the old name ends the scan or is taken for
one of the file's, and a directory rename if there is no map for the directory. -/
def AnsweredWhenMissing (server : DataServer) : ObjectRequest → Prop
  | .read _ _ _ => True
  | .unlink _ _ => False
  | .delete _ => False
  | .rename names =>
      ∀ old new, DataServer.splitNames names = some (old, new) →
        AllCut server.store old ∧ ¬ SomeMatch server.store old
  | .renameDirDir names =>
      ∀ old new, DataServer.splitNames names = some (old, new) →
        server.store.getDirUnsafe old = none

/-! ## Confirmations -/

theorem answersFailure_confirmed_iff (server : DataServer) (result : Reply × DataServer) :
    AnswersFailure server (.confirmed result) ↔ result = (.error, server) := by
  obtain ⟨reply, server'⟩ := result
  constructor
  · rintro ⟨response, rfl | rfl, h⟩
    · cases h
    · cases h
      rfl
  · rintro h
    cases h
    exact ⟨_, Or.inr rfl, rfl⟩

/-- A server that ends has not answered. -/
theorem not_answersFailure_of_ended (server : DataServer) (replies : List Response) :
    ¬ AnswersFailure server ⟨replies, none⟩ := by
  rintro ⟨response, -, h⟩
  cases h

/-! ## Renames -/

/-- The file rename is refused exactly if no key beside the old name stops the scan or
matches. -/
theorem rename_eq_error_iff {server : DataServer} {names old new : CString}
    (hsplit : DataServer.splitNames names = some (old, new)) :
    server.rename names = some (.error, server) ↔
      AllCut server.store old ∧ ¬ SomeMatch server.store old := by
  simp only [DataServer.rename, hsplit, srvRename]
  by_cases hcut : AllCut server.store old
  · by_cases hmatch : SomeMatch server.store old
    · obtain ⟨records, key, hchild, hsome, hpath⟩ := hmatch
      have hkey : key ∈ records.keysOfPath old := MapRecords.mem_keysOfPath.mpr ⟨hsome, hpath⟩
      rw [rename_moves hcut hchild hkey]
      refine iff_of_false ?_ fun h => h.2 ⟨records, key, hchild, hsome, hpath⟩
      rintro ⟨⟩
    · rw [rename_refused hcut hmatch]
      exact iff_of_true rfl ⟨hcut, hmatch⟩
  · rw [rename_throws hcut]
    exact iff_of_false (by rintro ⟨⟩) fun h => hcut h.1

/-- The first step of a directory rename drops no map. -/
theorem isSome_getDirUnsafe_renameDirDir {V : Type} {store : HierarchicalRecords V} {old : CString}
    (hsome : (store.getDirUnsafe old).isSome)
    (renameEntries : MapRecords V → MapRecords V) (oldKey newKey : CString) :
    ((store.renameDirDir renameEntries old oldKey newKey).2.getDirUnsafe old).isSome := by
  rw [HierarchicalRecords.renameDirDir]
  split
  · exact hsome
  · simp only [HierarchicalRecords.getDirUnsafe_modifyDir]
    split <;> simpa using hsome

/-- The directory rename is refused exactly if the directory has no map. -/
theorem renameDirDir_eq_error_iff {server : DataServer} {names old new : CString}
    (hsplit : DataServer.splitNames names = some (old, new)) :
    server.renameDirDir names = (.error, server) ↔ server.store.getDirUnsafe old = none := by
  simp only [DataServer.renameDirDir, hsplit]
  cases hmap : server.store.getDirUnsafe old with
  | none =>
      rw [srvRenameDirDir_of_none hmap]
      simp
  | some records =>
      have hsome := isSome_getDirUnsafe_renameDirDir (Option.isSome_of_eq_some hmap)
        (·.renameDataDirSrvWorker (old ++ ['$', '0']) (new ++ ['$', '0'])) (old ++ ['$', '0'])
        (new ++ ['$', '0'])
      obtain ⟨moved, hmoved⟩ := Option.isSome_iff_exists.mp hsome
      refine iff_of_false ?_ (by rintro ⟨⟩)
      simp only [srvRenameDirDir, HierarchicalRecords.backEndHierarchicalMapRenameDirDirData,
        HierarchicalRecords.hierarchicalMapRenameKey, hmoved]
      rintro ⟨⟩

/-! ## The answer to a request for a missing object -/

/-- The handling of a request for what the server does not hold. -/
theorem answersFailure_iff {server : DataServer} {request : ObjectRequest}
    (hmissing : request.Missing server) :
    AnswersFailure server (request.handle server) ↔ request.AnsweredWhenMissing server := by
  cases request with
  | read key blockOffset toRead =>
      have hnone : server.read key blockOffset toRead = none := by
        rw [DataServer.read, show server.get key = none from hmissing, Option.map_none]
      rw [handle, hnone]
      exact iff_of_true ⟨_, Or.inl rfl, rfl⟩ trivial
  | unlink key numOpened =>
      have hnone : server.unlink key numOpened = none := by
        rw [DataServer.unlink, show server.get key = none from hmissing]
      simp only [handle, hnone]
      exact iff_of_false (not_answersFailure_of_ended _ _) id
  | delete key =>
      rw [handle, answersFailure_confirmed_iff]
      refine iff_of_false ?_ id
      rintro ⟨⟩
  | rename names =>
      cases hsplit : DataServer.splitNames names with
      | none =>
          have hrefused : server.rename names = some (.error, server) := by
            rw [DataServer.rename, hsplit]
          simp only [handle, hrefused, answersFailure_confirmed_iff, AnsweredWhenMissing, hsplit]
          simp
      | some oldNew =>
          obtain ⟨old, new⟩ := oldNew
          have hanswered : AnswersFailure server ((ObjectRequest.rename names).handle server) ↔
              server.rename names = some (.error, server) := by
            rw [handle]
            cases server.rename names with
            | none => exact iff_of_false (not_answersFailure_of_ended _ _) (by rintro ⟨⟩)
            | some result => rw [answersFailure_confirmed_iff, Option.some.injEq]
          rw [hanswered, rename_eq_error_iff hsplit]
          simp [AnsweredWhenMissing, hsplit]
  | renameDirDir names =>
      rw [handle, answersFailure_confirmed_iff]
      cases hsplit : DataServer.splitNames names with
      | none => simp [DataServer.renameDirDir, AnsweredWhenMissing, hsplit]
      | some oldNew =>
          obtain ⟨old, new⟩ := oldNew
          rw [renameDirDir_eq_error_iff hsplit]
          simp [AnsweredWhenMissing, hsplit]

/-- A server that holds nothing. -/
def emptyServer : DataServer :=
  DataServer.init "imss://".toList

theorem get_emptyServer (key : CString) : emptyServer.get key = none :=
  HierarchicalRecords.hierarchicalMapGet_init _ _

/-- A server that holds block 0 of `imss://a` and nothing else. -/
def otherFileServer : DataServer :=
  { emptyServer with
    store := emptyServer.store.hierarchicalMapPut Block.isDirectory "imss://a$0".toList
      ⟨fun _ => 0, 1⟩ true }

theorem get_otherFileServer {key : CString} (hne : "imss://a$0".toList ≠ key) :
    otherFileServer.get key = none :=
  (HierarchicalRecords.hierarchicalMapGet_put_of_ne Block.isDirectory emptyServer.store hne _
    true).trans (get_emptyServer key)

/-- A server with another file beside it answers a read and a rename of a file that it does not
hold. -/
theorem answersFailure_otherFileServer :
    (otherFileServer.get "imss://a$0".toList).isSome ∧
      AnswersFailure otherFileServer ((read "imss://f$1".toList 0 0).handle otherFileServer) ∧
      AnswersFailure otherFileServer
        ((rename "imss://f,imss://g".toList).handle otherFileServer) := by
  have hread : (read "imss://f$1".toList 0 0).Missing otherFileServer :=
    get_otherFileServer (by decide)
  have hsplit : DataServer.splitNames "imss://f,imss://g".toList =
      some ("imss://f".toList, "imss://g".toList) := by decide
  have hrename : (rename "imss://f,imss://g".toList).Missing otherFileServer := by
    intro old new hnames s _
    obtain ⟨rfl, -⟩ := Prod.mk.inj (Option.some.inj (hsplit.symm.trans hnames))
    refine get_otherFileServer fun heq => ?_
    have hseventh := congrArg (fun key => key[7]?) heq
    exact absurd hseventh (by simp)
  have hkeys : otherFileServer.store.EveryKey fun _ key =>
      '$' ∈ key ∧ upTo '$' key ≠ "imss://f".toList :=
    (HierarchicalRecords.everyKey_init _ _).put (by decide) _ _ true
  refine ⟨by decide +kernel, (answersFailure_iff hread).mpr trivial,
    (answersFailure_iff hrename).mpr ?_⟩
  intro old new hnames
  obtain ⟨rfl, -⟩ := Prod.mk.inj (Option.some.inj (hsplit.symm.trans hnames))
  constructor
  · intro records key hchild hsome
    exact (hkeys _ records key hchild hsome).1
  · rintro ⟨records, key, hchild, hsome, hcut⟩
    exact (hkeys _ records key hchild hsome).2 hcut

/-- An unlink of a file that the empty server does not hold ends it after the not-found
text, and a delete is confirmed. -/
theorem not_answersFailure_emptyServer :
    ((unlink "imss://f$0".toList 0).Missing emptyServer ∧
        (unlink "imss://f$0".toList 0).handle emptyServer = ⟨[.block none], none⟩ ∧
        ¬ AnswersFailure emptyServer ((unlink "imss://f$0".toList 0).handle emptyServer)) ∧
      ((delete "imss://f".toList).Missing emptyServer ∧
        ((delete "imss://f".toList).handle emptyServer).replies = [.confirmation (some .ok)] ∧
        ¬ AnswersFailure emptyServer ((delete "imss://f".toList).handle emptyServer)) := by
  have hunlink : emptyServer.unlink "imss://f$0".toList 0 = none := by
    rw [DataServer.unlink, get_emptyServer]
  refine ⟨⟨get_emptyServer _, ?_, ?_⟩, fun s _ => get_emptyServer _, rfl, ?_⟩
  · simp only [handle, hunlink]
  · simp only [handle, hunlink]
    exact not_answersFailure_of_ended _ _
  · rw [handle, answersFailure_confirmed_iff]
    rintro ⟨⟩

end ObjectRequest

end Hercules
