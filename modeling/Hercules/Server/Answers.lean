/-
# What the servers send back

Both server loops answer on the tag of the client that sent the request. Here the text
of a request is followed through `srv_worker_helper` and `stat_worker_helper` to the
messages that go out, in their order, and to the state of the server afterwards. Most
branches send one message. A write through shared memory sends two, a performance report
two if the instance is known, and a branch that ends the process sends none or leaves
later requests without an answer.
-/

import Hercules.RoundTrip
import Hercules.Server.Metadata

namespace Hercules

open Lib Lib.Text

/-- A message to a client: a confirmation or a block from a data server, the not-found
text being `block none`; a reply about a dataset; or the list of data servers. -/
inductive Message
  | confirmation (reply : Reply)
  | block (data : Option (List UInt8))
  | stat (reply : MetadataReply)
  | dataServers
  deriving DecidableEq

namespace Message

/-- The message has a length other than 0. -/
def hasLength : Message → Bool
  | block (some []) => false
  | _ => true

end Message

/-- The message of a response on the network path. -/
def Response.messages : Response → List Message
  | .confirmation none => []
  | .confirmation (some reply) => [.confirmation reply]
  | .block data => [.block data]

/-! ## Data servers -/

/-- What comes with the text of a request: the message that follows a `SET`, what
`malloc` leaves in a new buffer, and the shared memory segment, if the server finds it. -/
structure Attachment where
  bytes : List UInt8
  fresh : Memory
  segment : Option Memory

namespace DataServer

variable (config : ServerConfig)

/-- `WRITE_OP` from shared memory. The branches confirm once the segment is mapped, and
the end of the handler confirms again. A stored block 0 leaves the garbage collector in
any case. -/
def localWrite (server : DataServer) (key : CString) (blockOffset size : Nat)
    (attachment : Attachment) : List Message × DataServer :=
  match server.get key, attachment.segment with
  | none, none => ([], server)
  | none, some content =>
      ([.confirmation .ok, .confirmation .ok],
        server.writeNew config key blockOffset (content.load 0 size) attachment.fresh)
  | some _, none =>
      ([], if isBlockZero key then
          { server with store := server.store.hierarchicalMapPopFromGarbageCollector key }
        else server)
  | some block, some content =>
      ([.confirmation .ok, .confirmation .ok],
        server.writeExisting key block blockOffset (content.load 0 size) content)

/-- `READ_OP` to shared memory; the bytes do not travel in the message. -/
def localRead (server : DataServer) (key : CString) (segment : Option Memory) : Message :=
  match server.get key with
  | none => .block none
  | some _ => .confirmation (if segment.isSome then .ok else .error)

/-- The requests through shared memory, `LOCALSETBLOCK` and `LOCALGETBLOCK`. -/
def serveLocal (server : DataServer) (scanned : ScannedLocalRequest) (attachment : Attachment) :
    List Message × Option DataServer :=
  if scanned.mode = "LOCALSETBLOCK".toList then
    let (messages, server) := server.localWrite config scanned.uri scanned.blockOffset
      scanned.blockSizeRecv attachment
    (messages, some server)
  else if scanned.blockSizeRecv = 0 then
    ([server.localRead scanned.uri attachment.segment], some server)
  else ([], none)

/-- The requests on the network path. An unlink of an unknown key is answered with the
not-found text before the server ends. -/
def serveRemote (server : DataServer) (req : CString) (scanned : ScannedRequest)
    (attachment : Attachment) : List Message × Option DataServer :=
  match server.serve config req attachment.bytes attachment.fresh with
  | some (response, server) => (response.messages, some server)
  | none =>
      (if scanned.mode = ['G', 'E', 'T'] ∧ scanned.blockSizeRecv = 12 then [.block none] else [],
        none)

/-- `srv_worker_helper`: the messages, and the server unless it ends or does what is not
modelled. -/
def answer (server : DataServer) (req : CString) (attachment : Attachment) :
    List Message × Option DataServer :=
  match scanWord req with
  | none => ([], some server)
  | some (mode, _) =>
      if isLocalMode mode then
        match scanLocalRequest req with
        | none => ([], none)
        | some scanned =>
            if scanned.Fits then server.serveLocal config scanned attachment else ([], none)
      else
        match scanRequest req with
        | none => ([], none)
        | some scanned =>
            if scanned.Fits then server.serveRemote config req scanned attachment
            else ([], none)

end DataServer

/-! ## Metadata servers -/

/-- A metadata server that may have its instance at hand, in `curr_global_imss`. -/
structure StatServer extends MetadataServer where
  currGlobalImss : Bool

namespace StatServer

/-- `Malleability` finds the instance. -/
def instanceKnown (server : StatServer) : Bool :=
  server.currGlobalImss || (server.get server.imssUri).isSome

/-- One of the requests for a single dataset. -/
def respond (server : StatServer) (req : MetadataRequest) : List Message × Option StatServer :=
  let (reply, metadata) := server.toMetadataServer.handle req
  ([.stat reply], some { server with toMetadataServer := metadata })

/-- `RENAME_OP`. -/
def rename (server : StatServer) (names : CString) : List Message × Option StatServer :=
  match DataServer.splitNames names with
  | none => ([.confirmation .error], some server)
  | some (old, new) =>
      match statRename server.store old new with
      | .error _ => ([], none)
      | .ok (reply, store) => ([.confirmation reply], some { server with store := store })

/-- `RENAME_DIR_DIR_OP`. -/
def renameDirDir (server : StatServer) (names : CString) : List Message × Option StatServer :=
  match DataServer.splitNames names with
  | none => ([.confirmation .error], some server)
  | some (old, new) =>
      let (reply, store) := statRenameDirDir DatasetRecord.setUri server.store old new
      ([.confirmation reply], some { server with store := store })

/-- `SET_OP`, which confirms before it receives the structure, and waits for one. A status
after the URI of a stored dataset is written into the record as if it were that of the
instance. -/
def set (server : StatServer) (scanned : ScannedStatRequest) (received : Option DatasetRecord) :
    List Message × Option StatServer :=
  let isNew := (server.get (server.key scanned.uri)).isNone
  match received with
  | none => ([.stat .ok], none)
  | some received =>
      if scanned.rest = [] ∨ isNew then
        let (messages, after) := server.respond (.setOp scanned.uri received)
        (messages, after.map fun after =>
          { after with
            currGlobalImss := after.currGlobalImss || (isNew && scanned.operation == 6) })
      else ([.stat .ok], none)

/-- `SETPERFORMANCE`: the confirmation, and the answer of `CommissioningStage`. -/
def setPerformance (server : StatServer) : List Message × Option StatServer :=
  if server.instanceKnown then
    ([.stat .ok, .dataServers], some { server with currGlobalImss := true })
  else ([.stat .ok], some server)

/-- The switch of `stat_worker_helper`; directory listings are not modelled. -/
def dispatch (server : StatServer) (scanned : ScannedStatRequest)
    (received : Option DatasetRecord) : List Message × Option StatServer :=
  if scanned.mode = ['G', 'E', 'T'] then
    match atoi scanned.number with
    | 0 => server.respond (.readOp scanned.operation scanned.uri)
    | 4 => server.respond (.deleteOp scanned.operation scanned.uri)
    | 5 => server.rename scanned.uri
    | 6 => server.renameDirDir scanned.uri
    | 7 => server.respond (.closeOp scanned.uri)
    | 8 => server.respond (.openOp scanned.uri)
    | _ => ([], none)
  else if scanned.mode = ['S', 'E', 'T'] then server.set scanned received
  else if scanned.mode = ['S', 'E', 'T', 'P', 'E', 'R', 'F', 'O', 'R', 'M', 'A', 'N', 'C', 'E'] then
    server.setPerformance
  else ([], none)

/-- `stat_worker_helper`. -/
def answer (server : StatServer) (req : CString) (received : Option DatasetRecord) :
    List Message × Option StatServer :=
  match scanStatRequest req with
  | none => ([], none)
  | some scanned => if scanned.Fits then server.dispatch scanned received else ([], none)

end StatServer

/-! ## Requests with one answer -/

/-- The word of a request that names its dataset or its datasets: it is scanned as one
word that fits its buffer. -/
def Readable (word : CString) : Prop :=
  word ≠ [] ∧ IsWord word ∧ word.length < 256

instance (word : CString) : Decidable (Readable word) :=
  inferInstanceAs (Decidable (_ ∧ _ ∧ _))

/-- The request is answered with one message, and the client takes it. -/
def AnsweredOnce (messages : List Message) : Prop :=
  ∃ message, messages = [message] ∧ message.hasLength = true

instance {V : Type} (store : HierarchicalRecords V) (old : CString) :
    Decidable (AllCut store old) :=
  decidable_of_iff (∀ records ∈ store.getChildUnsafe old, ∀ key ∈ records.buffer.keys, '$' ∈ key)
    (by
    simp only [AllCut, MapRecords.get, Std.ExtTreeMap.mem_keys,
      Std.ExtTreeMap.isSome_getElem?_iff_mem, Option.mem_def]
    exact forall_congr' fun records => forall_comm)

/-- A rename of a regular file without an exception. -/
theorem exists_rename_of_allCut {V : Type} {store : HierarchicalRecords V} {old : CString}
    (hcut : AllCut store old) (new : CString) :
    ∃ ret store', store.hierarchicalMapRenameRegularFile old new = .ok (ret, store') := by
  by_cases hmatch : SomeMatch store old
  · obtain ⟨records, key, hchild, hsome, hpath⟩ := hmatch
    exact ⟨_, _, rename_moves hcut hchild (MapRecords.mem_keysOfPath.mpr ⟨hsome, hpath⟩)⟩
  · exact ⟨_, _, rename_refused hcut hmatch new⟩

namespace DataServer

/-- The requests that a data server answers once. A write sends no empty message to a
stored block 0, and the keys beside the old name of a rename all have a separator. -/
def AnswersOnce (server : DataServer) (attachment : Attachment) : DataOp → Prop
  | .set _ _ key => Readable key ∧ attachment.bytes ≠ []
  | .read offset key toRead =>
      Readable key ∧ server.read key (offset % 2 ^ 32) (toRead % 2 ^ 64) ≠ some []
  | .localRead _ _ key _ => Readable key
  | .delete uri => Readable uri
  | .rename old new => Readable (old ++ ',' :: new) ∧ ',' ∉ old ∧ AllCut server.store old
  | .renameDirDir old new => Readable (old ++ ',' :: new)
  | .unlink key _ => Readable key
  | _ => False

instance (server : DataServer) (attachment : Attachment) :
    (op : DataOp) → Decidable (server.AnswersOnce attachment op)
  | .set _ _ _ | .read _ _ _ => inferInstanceAs (Decidable (_ ∧ _))
  | .localRead _ _ key _ | .delete key | .unlink key _ => inferInstanceAs (Decidable (Readable key))
  | .rename _ _ => inferInstanceAs (Decidable (_ ∧ _ ∧ _))
  | .renameDirDir old new => inferInstanceAs (Decidable (Readable (old ++ ',' :: new)))
  | .localSet .. | .prefetch .. | .readv .. | .splitReadv .. | .splitWritev .. =>
      inferInstanceAs (Decidable False)

variable {config : ServerConfig} {server : DataServer} {attachment : Attachment}

/-- What the server does with a request of the common layout. -/
theorem answer_print {mode key rest : CString} {number offset : Nat} (hmode : IsWord mode)
    (hmodeNe : mode ≠ []) (hmodeLt : mode.length < 24) (hlocal : isLocalMode mode = false)
    (hkey : Readable key) (hrest : EndsField rest) :
    server.answer config (printRequest mode number offset key rest) attachment =
      server.serveRemote config (printRequest mode number offset key rest)
        (scannedPrint mode number offset key rest) attachment := by
  have hfirst : scanWord (printRequest mode number offset key rest) =
      some (mode, ' ' :: (decimal number ++ ' ' :: (decimal offset ++ ' ' :: (key ++ rest)))) :=
    scanWord_append hmodeNe hmode (endsField_space _)
  have hscan := scanRequest_print hmode hmodeNe hkey.2.1 hkey.1 hrest number offset
  have hfits : (scannedPrint mode number offset key rest).Fits := ⟨hmodeLt, hkey.2.2⟩
  simp only [answer, hfirst, hlocal, Bool.false_eq_true, if_false, hscan]
  exact if_pos hfits

theorem answeredOnce_confirmation (reply : Reply) :
    AnsweredOnce (Response.confirmation (some reply)).messages :=
  ⟨.confirmation reply, rfl, rfl⟩

theorem exists_rename {old : CString} (hcomma : ',' ∉ old) (hcut : AllCut server.store old)
    (new : CString) :
    ∃ reply server', server.rename (old ++ ',' :: new) = some (reply, server') := by
  obtain ⟨ret, store, hrename⟩ := exists_rename_of_allCut hcut new
  simp only [rename, splitNames_of_notMem hcomma, srvRename, hrename, Except.map]
  exact ⟨_, _, rfl⟩

theorem reply_write (hbytes : attachment.bytes ≠ []) (key : CString) (blockOffset : Nat) :
    (server.write config key blockOffset attachment.bytes attachment.fresh).1 = some .ok := by
  rw [write]
  cases server.get key <;> simp [hbytes]

/-- A request of the common layout that the server can read, and that has a response of
one message. -/
theorem answeredOnce_print {mode key rest : CString} {number offset : Nat} (hmode : IsWord mode)
    (hmodeNe : mode ≠ []) (hmodeLt : mode.length < 24) (hlocal : isLocalMode mode = false)
    (hkey : Readable key) (hrest : EndsField rest) {response : Response} {server' : DataServer}
    (hserve : server.serve config (printRequest mode number offset key rest) attachment.bytes
      attachment.fresh = some (response, server'))
    (hmessages : AnsweredOnce response.messages) :
    AnsweredOnce (server.answer config (printRequest mode number offset key rest)
      attachment).1 := by
  rw [answer_print hmode hmodeNe hmodeLt hlocal hkey hrest, serveRemote, hserve]
  exact hmessages

/-- What the server does with a request for shared memory. -/
theorem answer_printLocal {mode key rest : CString} {number offset : Nat} {shmId : Int}
    (hmode : IsWord mode) (hmodeNe : mode ≠ []) (hmodeLt : mode.length < 24)
    (hlocal : isLocalMode mode = true) (hkey : Readable key) (hrest : EndsField rest) :
    server.answer config (printLocalRequest mode number offset shmId key rest) attachment =
      server.serveLocal config ⟨scannedPrint mode number offset key rest, int32 shmId⟩
        attachment := by
  have hfirst : scanWord (printLocalRequest mode number offset shmId key rest) =
      some (mode, ' ' :: (decimal number ++ ' ' :: (decimal offset ++ ' ' :: (decimal shmId ++
        ' ' :: (key ++ rest))))) :=
    scanWord_append hmodeNe hmode (endsField_space _)
  have hscan : scanLocalRequest (printLocalRequest mode number offset shmId key rest) =
      some ⟨scannedPrint mode number offset key rest, int32 shmId⟩ :=
    scanLocalRequest_print hmode hmodeNe hkey.2.1 hkey.1 hrest shmId
  have hfits : (scannedPrint mode number offset key rest).Fits := ⟨hmodeLt, hkey.2.2⟩
  simp only [answer, hfirst, hlocal, if_true, hscan]
  exact if_pos hfits

theorem messages_localWrite (hsegment : attachment.segment.isSome) (key : CString)
    (blockOffset size : Nat) :
    (server.localWrite config key blockOffset size attachment).1 =
      [.confirmation .ok, .confirmation .ok] := by
  obtain ⟨content, hcontent⟩ := Option.isSome_iff_exists.mp hsegment
  rw [localWrite, hcontent]
  cases server.get key <;> rfl

/-- A write through shared memory is confirmed twice. -/
theorem answer_localSet {size offset : Nat} {shmId : Int} {key : CString} (hkey : Readable key)
    (hsegment : attachment.segment.isSome) :
    (server.answer config (DataOp.localSet size offset shmId key).print attachment).1 =
      [.confirmation .ok, .confirmation .ok] := by
  rw [DataOp.print, answer_printLocal (by decide) (by decide) (by decide) (by decide) hkey
    endsField_nil]
  exact messages_localWrite hsegment key _ _

theorem answeredOnce_localRead {offset toRead : Nat} {shmId : Int} {key : CString}
    (hkey : Readable key) :
    AnsweredOnce (server.answer config (DataOp.localRead offset shmId key toRead).print
      attachment).1 := by
  rw [DataOp.print, answer_printLocal (by decide) (by decide) (by decide) (by decide) hkey
    (endsField_space _)]
  refine ⟨server.localRead key attachment.segment, rfl, ?_⟩
  rw [localRead]
  cases server.get key <;> rfl

variable (config) in
/-- The request is answered once. -/
theorem answeredOnce (op : DataOp) (h : server.AnswersOnce attachment op) :
    AnsweredOnce (server.answer config op.print attachment).1 := by
  cases op with
  | set size offset key =>
      obtain ⟨hkey, hbytes⟩ := h
      have hserve : server.serve config (DataOp.set size offset key).print attachment.bytes
          attachment.fresh = some (.confirmation (some .ok),
            (server.write config key (offset % 2 ^ 32) attachment.bytes attachment.fresh).2) := by
        rw [serve, DataOp.print, scanRequest_print (by decide) (by decide) hkey.2.1 hkey.1
          endsField_nil, ← reply_write hbytes key (offset % 2 ^ 32)]
        rfl
      exact answeredOnce_print (by decide) (by decide) (by decide) (by decide) hkey endsField_nil
        hserve (answeredOnce_confirmation .ok)
  | read offset key toRead =>
      obtain ⟨hkey, hread⟩ := h
      have hnumber := scanInt_decimal toRead
      have hserve : server.serve config (DataOp.read offset key toRead).print attachment.bytes
          attachment.fresh =
            some (.block (server.read key (offset % 2 ^ 32) (toRead % 2 ^ 64)), server) := by
        rw [serve, DataOp.print, scanRequest_print (by decide) (by decide) hkey.2.1 hkey.1
          (endsField_space _), scanInt_space, hnumber]
        rfl
      refine answeredOnce_print (by decide) (by decide) (by decide) (by decide) hkey
        (endsField_space _) hserve ⟨_, rfl, ?_⟩
      rw [Message.hasLength]
      exact fun heq => hread (Message.block.inj heq)
  | localRead offset shmId key toRead => exact answeredOnce_localRead h
  | delete uri =>
      exact answeredOnce_print (by decide) (by decide) (by decide) (by decide) h endsField_nil
        (serve_delete h.2.1 config server h.1 _ _) (answeredOnce_confirmation _)
  | rename old new =>
      obtain ⟨hkey, hcomma, hcut⟩ := h
      obtain ⟨reply, server', hrename⟩ := exists_rename hcomma hcut new
      have hserve : server.serve config (DataOp.rename old new).print attachment.bytes
          attachment.fresh = some (.confirmation (some reply), server') := by
        rw [serve, DataOp.print, scanRequest_print (by decide) (by decide) hkey.2.1 hkey.1
          endsField_nil]
        exact congrArg (Option.map _) hrename
      exact answeredOnce_print (by decide) (by decide) (by decide) (by decide) hkey endsField_nil
        hserve (answeredOnce_confirmation reply)
  | renameDirDir old new =>
      have hserve : server.serve config (DataOp.renameDirDir old new).print attachment.bytes
          attachment.fresh = some (.confirmation (some (server.renameDirDir (old ++ ',' :: new)).1),
            (server.renameDirDir (old ++ ',' :: new)).2) := by
        rw [serve, DataOp.print, scanRequest_print (by decide) (by decide) h.2.1 h.1 endsField_nil]
        rfl
      exact answeredOnce_print (by decide) (by decide) (by decide) (by decide) h endsField_nil
        hserve (answeredOnce_confirmation _)
  | unlink key numOpened =>
      have hserve : server.serve config (DataOp.unlink key numOpened).print attachment.bytes
          attachment.fresh = (server.unlink key 0).map fun result =>
            (.confirmation (some result.1), result.2) := by
        rw [serve, DataOp.print, scanRequest_print (by decide) (by decide) h.2.1 h.1
          (endsField_space _)]
        rfl
      cases hunlink : server.unlink key 0 with
      | some result =>
          rw [hunlink] at hserve
          exact answeredOnce_print (by decide) (by decide) (by decide) (by decide) h
            (endsField_space _) hserve (answeredOnce_confirmation _)
      | none =>
          -- the not-found text is sent before the server ends
          rw [hunlink] at hserve
          have hanswer : server.answer config (DataOp.unlink key numOpened).print attachment =
              ([.block none], none) := by
            rw [DataOp.print] at hserve ⊢
            rw [answer_print (by decide) (by decide) (by decide) (by decide) h (endsField_space _),
              serveRemote, hserve]
            rfl
          exact ⟨.block none, by rw [hanswer], rfl⟩
  | localSet size offset shmId key => exact h.elim
  | prefetch shared uri block size => exact h.elim
  | readv uri currBlock endBlock blockSize startOffset size => exact h.elim
  | splitReadv path blockSize startOffset statsSize msgLength => exact h.elim
  | splitWritev entitySize path blockSize startOffset statsSize msg => exact h.elim

end DataServer

namespace StatServer

/-- The requests that a metadata server answers once. The keys beside the old name of a
rename all have a separator; a report meets a server that does not know its instance. -/
def AnswersOnce (server : StatServer) : StatOp → Prop
  | .read _ uri | .delete _ uri | .close _ uri | .openDataset _ uri => Readable uri
  | .rename _ old new =>
      Readable (old ++ ',' :: new) ∧ ',' ∉ old ∧ AllCut server.store (removeLastSlash old)
  | .renameDirDir _ old new => Readable (old ++ ',' :: new)
  | .set _ size uri none => Readable uri ∧ size < 10 ^ 15
  | .performance _ uri => Readable uri ∧ server.instanceKnown = false
  | .set _ _ _ (some _) | .getdir _ _ => False

instance (server : StatServer) : (op : StatOp) → Decidable (server.AnswersOnce op)
  | .read _ uri | .delete _ uri | .close _ uri | .openDataset _ uri =>
      inferInstanceAs (Decidable (Readable uri))
  | .rename _ _ _ => inferInstanceAs (Decidable (_ ∧ _ ∧ _))
  | .renameDirDir _ old new => inferInstanceAs (Decidable (Readable (old ++ ',' :: new)))
  | .set _ _ _ none | .performance _ _ => inferInstanceAs (Decidable (_ ∧ _))
  | .set _ _ _ (some _) | .getdir _ _ => inferInstanceAs (Decidable False)

variable {server : StatServer} {received : Option DatasetRecord}

/-- What the server does with a printed request. -/
theorem answer_print {mode uri : CString} {operation number : Nat} (hmode : IsWord mode)
    (hmodeNe : mode ≠ []) (hmodeLt : mode.length < 24) (hnumber : number < 10 ^ 15)
    (huri : Readable uri) :
    server.answer (printStatRequest operation mode number uri []) received =
      server.dispatch ⟨operation % 2 ^ 32, mode, decimal number, uri, []⟩ received := by
  have hscan := scanStatRequest_print hmode hmodeNe huri.2.1 huri.1 endsField_nil operation number
  have hfits : ScannedStatRequest.Fits ⟨operation % 2 ^ 32, mode, decimal number, uri, []⟩ :=
    ⟨hmodeLt, length_decimal_lt.mpr hnumber, huri.2.2⟩
  rw [answer, hscan]
  exact if_pos hfits

theorem answeredOnce_respond (req : MetadataRequest) : AnsweredOnce (server.respond req).1 :=
  ⟨.stat _, rfl, rfl⟩

theorem answeredOnce_rename {old new : CString} (hcomma : ',' ∉ old)
    (hcut : AllCut server.store (removeLastSlash old)) :
    AnsweredOnce (server.rename (old ++ ',' :: new)).1 := by
  obtain ⟨ret, store, hrename⟩ := exists_rename_of_allCut hcut (removeLastSlash new)
  simp only [rename, DataServer.splitNames_of_notMem hcomma, statRename, hrename, Except.map]
  exact ⟨_, rfl, rfl⟩

theorem answeredOnce_renameDirDir (names : CString) :
    AnsweredOnce (server.renameDirDir names).1 := by
  rw [renameDirDir]
  split <;> exact ⟨_, rfl, rfl⟩

variable (received) in
/-- The request is answered once. -/
theorem answeredOnce (op : StatOp) (h : server.AnswersOnce op) :
    AnsweredOnce (server.answer op.print received).1 := by
  cases op with
  | read operation uri =>
      rw [StatOp.print, answer_print (by decide) (by decide) (by decide) (by decide) h]
      exact answeredOnce_respond (.readOp (operation % 2 ^ 32) uri)
  | delete operation uri =>
      rw [StatOp.print, answer_print (by decide) (by decide) (by decide) (by decide) h]
      exact answeredOnce_respond (.deleteOp (operation % 2 ^ 32) uri)
  | close operation uri =>
      rw [StatOp.print, answer_print (by decide) (by decide) (by decide) (by decide) h]
      exact answeredOnce_respond (.closeOp uri)
  | openDataset operation uri =>
      rw [StatOp.print, answer_print (by decide) (by decide) (by decide) (by decide) h]
      exact answeredOnce_respond (.openOp uri)
  | rename operation old new =>
      rw [StatOp.print, answer_print (by decide) (by decide) (by decide) (by decide) h.1]
      exact answeredOnce_rename h.2.1 h.2.2
  | renameDirDir operation old new =>
      rw [StatOp.print, answer_print (by decide) (by decide) (by decide) (by decide) h]
      exact answeredOnce_renameDirDir _
  | set operation size uri status =>
      cases status with
      | none =>
          rw [StatOp.print, answer_print (by decide) (by decide) (by decide) h.2 h.1]
          cases received with
          | none => exact ⟨.stat .ok, rfl, rfl⟩
          | some received => exact ⟨.stat _, rfl, rfl⟩
      | some status => exact h.elim
  | performance operation uri =>
      rw [StatOp.print, answer_print (by decide) (by decide) (by decide) (by decide) h.1]
      refine ⟨.stat .ok, ?_, rfl⟩
      simp [dispatch, setPerformance, h.2]
  | getdir operation uri => exact h.elim

/-- A report to a server that knows its instance is answered twice. -/
theorem answer_performance {operation : Nat} {uri : CString} (huri : Readable uri)
    (hknown : server.instanceKnown = true) :
    (server.answer (StatOp.performance operation uri).print received).1 =
      [.stat .ok, .dataServers] := by
  rw [StatOp.print, answer_print (by decide) (by decide) (by decide) (by decide) huri]
  simp [dispatch, setPerformance, hknown]

end StatServer

end Hercules
