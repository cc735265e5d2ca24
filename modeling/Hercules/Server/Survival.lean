/-
# Datasets that are created again

A garbage list and a mark for destruction are about a name, not about the dataset
that had it. If the name is used again, the new dataset may be removed for the sake
of the old one. A dataset is wanted while its last create came after its last
unlink; this module says when the servers keep every wanted dataset.
-/

import Hercules.Server.Isolation
import Hercules.Server.Lifecycle

namespace Hercules

open Std Lib Lib.Text

/-! ## On a metadata server -/

/-- What happens on a metadata server. -/
inductive MetadataEvent
  | request (request : MetadataRequest)
  | clean

namespace MetadataServer

/-- One event. -/
def eventStep (server : MetadataServer) : MetadataEvent → Option MetadataServer
  | .request request => some (server.handle request).2
  | .clean => some server.clean

/-- The wanted datasets after one more event. -/
def wantedNext (imssUri : CString) (wanted : CString → Bool) : MetadataEvent → CString → Bool
  | .request (.setOp uri _) => Function.update wanted ((init imssUri).key uri) true
  | .request (.deleteOp _ uri) => Function.update wanted ((init imssUri).key uri) false
  | _ => wanted

/-- The datasets whose last create came after their last unlink. -/
def wantedAfter (imssUri : CString) (events : List MetadataEvent) : CString → Bool :=
  events.foldl (wantedNext imssUri) fun _ => false

/-- The events that keep wanted datasets. A name is used again only when its old
dataset is neither marked for destruction nor in the garbage list; and when a name
that still ends with a slash may enter the list, nothing is stored without that slash,
since the collector drops it. -/
def KeepsWanted (server : MetadataServer) : MetadataEvent → Prop
  | .request (.setOp uri _) =>
      (∀ record, server.get (server.key uri) = some record → record.status ≠ .dest) ∧
        server.key uri ∉
          (server.store.garbageOf (findLastParentDir (server.key uri))).map removeLastSlash
  | .request (.deleteOp _ uri) | .request (.closeOp uri) =>
      removeLastSlash (server.key uri) = server.key uri ∨
        server.get (removeLastSlash (server.key uri)) = none
  | _ => True

/-- A wanted dataset is safe: it is stored, and neither a close nor the collector
has a reason to remove it. -/
def Safe (server : MetadataServer) (key : CString) : Prop :=
  (∃ record, server.get key = some record ∧ record.status ≠ .dest) ∧
    key ∉ (server.store.garbageOf (findLastParentDir key)).map removeLastSlash

/-- The server of an instance, on which the wanted datasets are safe. -/
structure KeepsSafe (imssUri : CString) (server : MetadataServer) (wanted : CString → Bool) :
    Prop where
  imssUri_eq : server.imssUri = imssUri
  safe : ∀ key, wanted key = true → server.Safe key

variable {imssUri key : CString} {server server' : MetadataServer} {wanted : CString → Bool}

/-- A request other than an unlink leaves a safe record, and makes one of a create. -/
theorem effect_of_safe {request : MetadataRequest} (found : Option DatasetRecord)
    (hlife : request.OfLife) (hdelete : ∀ operation uri, request ≠ .deleteOp operation uri)
    (hfound : (∃ record, found = some record) ∨ ∃ uri received, request = .setOp uri received)
    (hstatus : ∀ record, found = some record → record.status ≠ .dest) :
    ∃ record, request.effect found = some record ∧ record.status ≠ .dest := by
  cases found with
  | none =>
      obtain ⟨uri, received, rfl⟩ := hfound.resolve_left (by simp)
      exact ⟨received, rfl, by rw [hlife.1]; decide⟩
  | some record =>
      have hstatus := hstatus record rfl
      have hrecovered : record.recovered.status ≠ .dest := by
        rw [DatasetRecord.recovered]
        split
        · simp
        · exact hstatus
      have hclosed : record.closed.status ≠ .dest := by
        rw [DatasetRecord.closed]
        split <;> exact hstatus
      cases request with
      | readOp operation uri =>
          rw [MetadataRequest.effect]
          split
          · exact ⟨record.opened, rfl, hstatus⟩
          · exact ⟨record, rfl, hstatus⟩
      | deleteOp operation uri => exact absurd rfl (hdelete operation uri)
      | closeOp uri =>
          rw [MetadataRequest.effect, if_neg fun hover => hclosed hover.1]
          exact ⟨record.closed, rfl, hclosed⟩
      | openOp uri => exact ⟨record.recovered.opened, rfl, hrecovered⟩
      | setOp uri received => exact ⟨record.recovered.merged received, rfl, hrecovered⟩

/-- No request puts a name in the garbage list that stands for a stored dataset. -/
theorem notMem_garbage_handle {request : MetadataRequest}
    (hkeeps : server.KeepsWanted (.request request))
    (hlist : key ∉ (server.store.garbageOf (findLastParentDir key)).map removeLastSlash)
    (hstored : (server.get key).isSome ∨ ∃ uri received, request = .setOp uri received)
    (hself : server.key request.uri = key →
      request.effect (server.get (server.key request.uri)) ≠ none) :
    key ∉ ((server.handle request).2.store.garbageOf (findLastParentDir key)).map
      removeLastSlash := by
  rw [List.mem_map]
  rintro ⟨name, hname, hslash⟩
  rcases mem_garbageOf_handle hname with hold | ⟨rfl, hnone, hremoval⟩
  · exact hlist (List.mem_map.mpr ⟨name, hold, hslash⟩)
  have hcond : removeLastSlash (server.key request.uri) = server.key request.uri ∨
      server.get (removeLastSlash (server.key request.uri)) = none := by
    rcases hremoval with ⟨operation, uri, rfl⟩ | ⟨uri, rfl⟩ <;> exact hkeeps
  rcases hcond with hsame | hfree
  · exact hself (hsame.symm.trans hslash) hnone
  · rcases hstored with hsome | ⟨uri, received, rfl⟩
    · rw [hslash] at hfree
      rw [hfree] at hsome
      cases hsome
    · rcases hremoval with ⟨operation, uri', heq⟩ | ⟨uri', heq⟩ <;> cases heq

/-- A dataset is safe after a create of it, and stays safe until an unlink of it. -/
theorem Safe.handle {request : MetadataRequest} (hlife : request.OfLife)
    (hkeeps : server.KeepsWanted (.request request))
    (hdelete : ∀ operation uri, request = .deleteOp operation uri → server.key uri ≠ key)
    (hsafe : server.Safe key ∨
      ∃ uri received, request = .setOp uri received ∧ server.key uri = key) :
    (server.handle request).2.Safe key := by
  have hlist : key ∉ (server.store.garbageOf (findLastParentDir key)).map removeLastSlash := by
    rcases hsafe with hsafe | ⟨uri, received, rfl, rfl⟩
    · exact hsafe.2
    · exact hkeeps.2
  have hstored : (server.get key).isSome ∨ ∃ uri received, request = .setOp uri received := by
    rcases hsafe with hsafe | ⟨uri, received, rfl, -⟩
    · obtain ⟨record, hget, -⟩ := hsafe.1
      exact Or.inl (by rw [hget]; rfl)
    · exact Or.inr ⟨uri, received, rfl⟩
  have hstatus : ∀ record, server.get key = some record → record.status ≠ .dest := by
    rcases hsafe with hsafe | ⟨uri, received, rfl, rfl⟩
    · obtain ⟨record, hget, hrecord⟩ := hsafe.1
      intro record' hget'
      rw [hget, Option.some.injEq] at hget'
      rwa [← hget']
    · exact hkeeps.1
  have hholds := holds_handle server request key
  by_cases hkey : server.key request.uri = key
  · rw [if_pos hkey, hkey] at hholds
    obtain ⟨record, heffect, hrecord⟩ := effect_of_safe (server.get key) hlife
      (fun operation uri heq => hdelete operation uri heq (by rw [heq] at hkey; exact hkey))
      (hstored.imp_left Option.isSome_iff_exists.mp) hstatus
    refine ⟨⟨record, hholds.trans heffect, hrecord⟩, ?_⟩
    refine notMem_garbage_handle hkeeps hlist hstored fun _ => ?_
    rw [hkey, heffect]
    simp
  · rw [if_neg hkey] at hholds
    obtain ⟨record, hget, hrecord⟩ : ∃ record, server.get key = some record ∧
        record.status ≠ .dest := by
      rcases hsafe with hsafe | ⟨uri, received, rfl, huri⟩
      · exact hsafe.1
      · exact absurd huri hkey
    exact ⟨⟨record, hholds.trans hget, hrecord⟩,
      notMem_garbage_handle hkeeps hlist hstored fun heq => absurd heq hkey⟩

theorem Safe.clean (hsafe : server.Safe key) : server.clean.Safe key := by
  obtain ⟨record, hget, hrecord⟩ := hsafe.1
  refine ⟨⟨record, ?_, hrecord⟩, ?_⟩
  · rw [get_clean, if_neg hsafe.2, hget]
  · rw [MetadataServer.clean, HierarchicalRecords.garbageOf_cleanGarbageCollectorMetadata]
    simp

theorem KeepsSafe.step {event : MetadataEvent} (h : KeepsSafe imssUri server wanted)
    (hlife : ∀ request, event = .request request → request.OfLife)
    (hkeeps : server.KeepsWanted event) (hstep : server.eventStep event = some server') :
    KeepsSafe imssUri server' (wantedNext imssUri wanted event) := by
  have hkey : ∀ uri, (init imssUri).key uri = server.key uri := by
    intro uri
    rw [MetadataServer.key, MetadataServer.key, h.imssUri_eq]
    rfl
  cases event with
  | clean =>
      cases hstep
      exact ⟨h.imssUri_eq, fun key hwanted => (h.safe key hwanted).clean⟩
  | request request =>
      obtain rfl : (server.handle request).2 = server' := Option.some.inj hstep
      refine ⟨(imssUri_handle server request).trans h.imssUri_eq, fun key hwanted => ?_⟩
      apply Safe.handle (hlife request rfl) hkeeps
      · rintro operation uri rfl rfl
        simp [wantedNext, hkey] at hwanted
      · cases request with
        | setOp uri received =>
            by_cases hsame : server.key uri = key
            · exact Or.inr ⟨uri, received, rfl, hsame⟩
            · left
              apply h.safe key
              simpa [wantedNext, hkey, Function.update_of_ne (Ne.symm hsame)] using hwanted
        | deleteOp operation uri =>
            left
            apply h.safe key
            by_cases hsame : server.key uri = key
            · simp [wantedNext, hkey, ← hsame] at hwanted
            · simpa [wantedNext, hkey, Function.update_of_ne (Ne.symm hsame)] using hwanted
        | readOp operation uri => exact Or.inl (h.safe key hwanted)
        | closeOp uri => exact Or.inl (h.safe key hwanted)
        | openOp uri => exact Or.inl (h.safe key hwanted)

/-- On a metadata server every wanted dataset is stored. -/
theorem isSome_get_of_wanted {events : List MetadataEvent}
    (hlife : ∀ event ∈ events, ∀ request, event = .request request → request.OfLife)
    (hkeeps : Along eventStep KeepsWanted events (init imssUri))
    (hrun : run eventStep events (init imssUri) = some server)
    (hwanted : wantedAfter imssUri events key = true) : (server.get key).isSome := by
  have hinit : KeepsSafe imssUri (init imssUri) fun _ => false :=
    ⟨rfl, fun _ hfalse => absurd hfalse Bool.false_ne_true⟩
  have hfinal : KeepsSafe imssUri server (wantedAfter imssUri events) := by
    refine (hkeeps.and_forall hlife).simulation ?_ hinit hrun
    intro server event server' wanted hsafe hcond hstep
    exact hsafe.step hcond.2 hcond.1 hstep
  obtain ⟨record, hget, -⟩ := (hfinal.safe key hwanted).1
  rw [hget]
  rfl

end MetadataServer

/-! ## On a data server

A create is a write of block 0. Deletes and unlinks both count as unlinks: which of
them the client sends depends on who has the file open. -/

namespace Request

/-- Whether a file is wanted after one more request. -/
def wantedNext (uri : FileUri) (wanted : Bool) : Request → Bool
  | .write other block _ _ _ => wanted || decide (other = uri ∧ block = 0)
  | .delete other | .unlink other _ => wanted && decide (other ≠ uri)
  | .clean => wanted

/-- The last create of the file came after its last unlink. -/
def wantedAfter (uri : FileUri) (requests : List Request) : Bool :=
  requests.foldl (wantedNext uri) false

/-- The writes of block 0 that free the file from the garbage list: a stored block is
taken out of it once, and for a new block the list is not looked at. -/
def KeepsWanted (server : DataServer) : Request → Prop
  | .write uri block _ _ _ =>
      block = 0 → (server.store.garbageOf (findLastParentDir uri.1)).count uri.1 ≤
        if (server.get (blockKey uri.1 0)).isSome then 1 else 0
  | _ => True

variable {config : ServerConfig} {root : CString} {uri : FileUri}

theorem run_eq (server : DataServer) (requests : List Request) :
    Request.run config server requests = Lib.run (Request.step config) requests server := by
  induction requests generalizing server with
  | nil => rfl
  | cons request requests ih =>
      exact congrArg (Option.bind (request.step config server)) (funext fun next => ih next)

/-- A wanted file has its block 0 and does not wait for collection. -/
theorem file_of_wanted {requests : List Request} {server : DataServer}
    (horderly : OrderlyRun config requests)
    (hkeeps : Along (Request.step config) KeepsWanted requests (DataServer.init root))
    (hrun : Request.run config (DataServer.init root) requests = some server)
    (hwanted : wantedAfter uri requests = true) :
    '$' ∉ uri.1 ∧ ((FileState.ofRun uri requests).blocks 0).isSome ∧
      (FileState.ofRun uri requests).pending = 0 := by
  induction requests using List.reverseRecOn generalizing server with
  | nil => cases hwanted
  | append_singleton requests request ih =>
      rw [Request.run_append_singleton, Option.bind_eq_some_iff] at hrun
      obtain ⟨previous, hprevious, hstep⟩ := hrun
      rw [wantedAfter, List.foldl_concat, ← wantedAfter] at hwanted
      rw [FileState.ofRun_append_singleton]
      have hcond : KeepsWanted previous request := by
        rw [run_eq] at hprevious
        exact hkeeps.apply hprevious
      have hrequest := horderly requests request [] (by simp)
      have ih := ih horderly.of_append hkeeps.of_append hprevious
      cases request with
      | write other block offset data fresh =>
          by_cases hsame : other = uri
          · subst hsame
            have hdollar : '$' ∉ other.1 := hrequest.1
            rw [if_pos (by simp [concerns, uri?])]
            refine ⟨hdollar, ?_⟩
            by_cases hblock : block = 0
            · subst hblock
              have hrep := represents_run hdollar horderly.of_append hprevious
              have hcount := hcond rfl
              rw [hrep.pending, hrep.present] at hcount
              refine ⟨by simp [FileState.step], ?_⟩
              simp only [FileState.step, true_and]
              split at hcount
              next hsome => rw [if_pos hsome, Nat.sub_eq_zero_of_le hcount]
              next hnone => rw [if_neg hnone, Nat.eq_zero_of_le_zero hcount]
            · obtain ⟨-, hstored, hpending⟩ := ih (by simpa [wantedNext, hblock] using hwanted)
              simpa [FileState.step, hblock, Ne.symm hblock] using And.intro hstored hpending
          · rw [if_neg (by simp [concerns, uri?, hsame])]
            exact ih (by simpa [wantedNext, hsame] using hwanted)
      | delete other =>
          obtain ⟨hbefore, hother⟩ : wantedAfter uri requests = true ∧ other ≠ uri := by
            simpa [wantedNext] using hwanted
          rw [if_neg (by simp [concerns, uri?, hother])]
          exact ih hbefore
      | unlink other numOpened =>
          obtain ⟨hbefore, hother⟩ : wantedAfter uri requests = true ∧ other ≠ uri := by
            simpa [wantedNext] using hwanted
          rw [if_neg (by simp [concerns, uri?, hother])]
          exact ih hbefore
      | clean =>
          obtain ⟨hdollar, hstored, hpending⟩ := ih hwanted
          rw [if_pos (by simp [concerns, uri?]), FileState.step, if_pos hpending]
          exact ⟨hdollar, hstored, hpending⟩

end Request

/-- A file survives on a data server: its block 0 is stored, and the collector
removes none of its blocks. -/
def DataServer.Survives (config : ServerConfig) (server : DataServer) (uri : FileUri) : Prop :=
  (server.get (blockKey uri.1 0)).isSome ∧
    ∀ block, (server.cleanGarbageCollector config).get (blockKey uri.1 block) =
      server.get (blockKey uri.1 block)

theorem survives_of_wanted {config : ServerConfig} {root : CString} {uri : FileUri}
    {requests : List Request} {server : DataServer} (horderly : OrderlyRun config requests)
    (hkeeps : Along (Request.step config) Request.KeepsWanted requests (DataServer.init root))
    (hrun : Request.run config (DataServer.init root) requests = some server)
    (hwanted : Request.wantedAfter uri requests = true) : server.Survives config uri := by
  obtain ⟨hdollar, hstored, hpending⟩ := Request.file_of_wanted horderly hkeeps hrun hwanted
  have hrep := represents_run hdollar horderly hrun
  refine ⟨by rw [hrep.present, hstored], fun block => ?_⟩
  rw [DataServer.get_cleanGarbageCollector, upTo_blockKey hdollar,
    findLastParentDir_blockKey uri.2, if_neg]
  rw [← List.count_eq_zero, hrep.pending, hpending]

/-! ## On both -/

/-- A dataset whose last create came after its last unlink is never removed: it is
stored on the metadata server, and its blocks survive on the data server. Names are
words without white space, which requests carry whole. -/
theorem recreated_survives {imssUri root : CString} {config : ServerConfig}
    {events : List MetadataEvent} {requests : List Request} {server : MetadataServer}
    {dataServer : DataServer}
    (hlife : ∀ event ∈ events, ∀ request, event = .request request → request.OfLife)
    (hkeeps : Along MetadataServer.eventStep MetadataServer.KeepsWanted events
      (MetadataServer.init imssUri))
    (hrun : run MetadataServer.eventStep events (MetadataServer.init imssUri) = some server)
    (horderly : OrderlyRun config requests)
    (hkeepsData : Along (Request.step config) Request.KeepsWanted requests (DataServer.init root))
    (hrunData : Request.run config (DataServer.init root) requests = some dataServer) :
    (∀ key, MetadataServer.wantedAfter imssUri events key = true → (server.get key).isSome) ∧
      ∀ uri, Request.wantedAfter uri requests = true → dataServer.Survives config uri :=
  ⟨fun _ hwanted => MetadataServer.isSome_get_of_wanted hlife hkeeps hrun hwanted,
    fun _ hwanted => survives_of_wanted horderly hkeepsData hrunData hwanted⟩

instance (server : MetadataServer) :
    ∀ event : MetadataEvent, Decidable (server.KeepsWanted event)
  | .request (.setOp _ _) =>
      inferInstanceAs (Decidable ((∀ record, server.get _ = some record → _) ∧ _))
  | .request (.deleteOp _ _) | .request (.closeOp _) => inferInstanceAs (Decidable (_ ∨ _))
  | .request (.readOp _ _) | .request (.openOp _) | .clean => isTrue trivial

instance (server : DataServer) : ∀ request : Request, Decidable (request.KeepsWanted server)
  | .write _ _ _ _ _ => inferInstanceAs (Decidable (_ → _))
  | .delete _ | .unlink _ _ | .clean => isTrue trivial

open MetadataServer in
/-- A file that is created, unlinked, collected, created again and closed. -/
def recreateEvents : List MetadataEvent :=
  [.request (.setOp exampleFile.1 (newRecord exampleFile)), .request (.closeOp exampleFile.1),
    .request (.deleteOp 4 exampleFile.1), .clean,
    .request (.setOp exampleFile.1 (newRecord exampleFile)), .request (.closeOp exampleFile.1),
    .clean]

/-- A file that is created, deleted, created again and not collected. -/
def recreateRequests : List Request :=
  [.write exampleFile 0 0 (List.replicate sizeofStat 0) fun _ => 0, .delete exampleFile,
    .write exampleFile 0 0 (List.replicate sizeofStat 0) fun _ => 0, .clean]

theorem orderlyRun_recreateRequests : OrderlyRun ⟨4, 4096⟩ recreateRequests := by
  refine ((((orderlyRun_nil _).append_singleton ?_).append_singleton ?_).append_singleton
    ?_).append_singleton trivial
  · exact ⟨by decide, by simp [sizeofStat], by simp⟩
  · exact ⟨by decide, 0, by decide⟩
  · exact ⟨by decide, by simp [sizeofStat], by simp⟩

theorem recreated_survives_collected :
    ∃ server dataServer,
      run MetadataServer.eventStep recreateEvents (MetadataServer.init imssRoot) = some server ∧
      Request.run ⟨4, 4096⟩ (DataServer.init imssRoot) recreateRequests = some dataServer ∧
      (server.get exampleFile.1).isSome ∧ dataServer.Survives ⟨4, 4096⟩ exampleFile := by
  obtain ⟨server, hrun⟩ := Option.isSome_iff_exists.mp (show (run MetadataServer.eventStep
    recreateEvents (MetadataServer.init imssRoot)).isSome by decide +kernel)
  obtain ⟨dataServer, hrunData⟩ := Option.isSome_iff_exists.mp (show (Request.run ⟨4, 4096⟩
    (DataServer.init imssRoot) recreateRequests).isSome by decide +kernel)
  have hlife : ∀ event ∈ recreateEvents, ∀ request, event = .request request →
      request.OfLife := by
    simp [recreateEvents, MetadataRequest.OfLife, MetadataServer.newRecord]
  obtain ⟨hstored, hsurvives⟩ := recreated_survives hlife (by decide +kernel) hrun
    orderlyRun_recreateRequests (by decide +kernel) hrunData
  exact ⟨server, dataServer, hrun, hrunData, hstored exampleFile.1 (by decide),
    hsurvives exampleFile (by decide)⟩

/-- The file is created again before the collection. -/
def recreateUncollected : List MetadataEvent :=
  [.request (.setOp exampleFile.1 (MetadataServer.newRecord exampleFile)),
    .request (.closeOp exampleFile.1), .request (.deleteOp 4 exampleFile.1),
    .request (.setOp exampleFile.1 (MetadataServer.newRecord exampleFile)), .clean]

/-- The file is created again while it is still open. -/
def recreateOpen : List MetadataEvent :=
  [.request (.setOp exampleFile.1 (MetadataServer.newRecord exampleFile)),
    .request (.deleteOp 4 exampleFile.1),
    .request (.setOp exampleFile.1 (MetadataServer.newRecord exampleFile)),
    .request (.closeOp exampleFile.1)]

/-- The file is deleted twice before it is created again. -/
def recreateDeletedTwice : List Request :=
  [.write exampleFile 0 0 (List.replicate sizeofStat 0) fun _ => 0, .delete exampleFile,
    .delete exampleFile, .write exampleFile 0 0 (List.replicate sizeofStat 0) fun _ => 0, .clean]

/-- The new dataset is collected in the old one's place, or removed by the close that
ends the old one; on a data server only one of two deletes is taken back. -/
theorem recreated_removed :
    (∃ server, run MetadataServer.eventStep recreateUncollected (MetadataServer.init imssRoot) =
        some server ∧
      MetadataServer.wantedAfter imssRoot recreateUncollected exampleFile.1 = true ∧
      server.get exampleFile.1 = none) ∧
    (∃ server, run MetadataServer.eventStep recreateOpen (MetadataServer.init imssRoot) =
        some server ∧
      MetadataServer.wantedAfter imssRoot recreateOpen exampleFile.1 = true ∧
      server.get exampleFile.1 = none) ∧
    ∃ server, Request.run ⟨4, 4096⟩ (DataServer.init imssRoot) recreateDeletedTwice =
        some server ∧
      Request.wantedAfter exampleFile recreateDeletedTwice = true ∧
      ¬ server.Survives ⟨4, 4096⟩ exampleFile := by
  refine ⟨⟨_, rfl, by decide, by decide +kernel⟩, ⟨_, rfl, by decide, by decide +kernel⟩,
    _, rfl, by decide, ?_⟩
  rintro ⟨hstored, -⟩
  revert hstored
  decide +kernel

end Hercules
