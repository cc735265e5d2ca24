/-
# The life of a dataset

A dataset should exist from its creation to the first moment after an unlink at
which nobody has it open. `Life` says this from the requests alone: it counts the
opens and remembers the unlink. The record that a metadata server keeps follows
the life of its name, as long as the counter, a C `int`, does not overflow.
-/

import Hercules.Lib.Run
import Hercules.Server.Metadata

namespace Hercules

open Std Lib Lib.Text

/-- What the requests so far say of an existing dataset. -/
structure Life where
  count : Nat
  unlinked : Bool
  deriving DecidableEq

namespace Life

/-- The dataset ends here if it is unlinked and not open. -/
def settle (life : Life) : Option Life :=
  if life.unlinked ∧ life.count = 0 then none else some life

/-- The life of a dataset after one more request for it. -/
def next : Option Life → MetadataRequest → Option Life
  | none, .setOp _ received => some ⟨received.nOpen.toNat, false⟩
  | none, _ => none
  | some life, .setOp _ _ => some life
  | some life, .readOp operation _ =>
      some (if operation = 1 then { life with count := life.count + 1 } else life)
  | some life, .openOp _ => some { life with count := life.count + 1 }
  | some life, .closeOp _ => settle { life with count := life.count - 1 }
  | some life, .deleteOp _ _ => settle { life with unlinked := true }

end Life

/-- The lives of all datasets, by key. -/
abbrev Lives := CString → Option Life

/-- A request concerns the dataset of its own key. -/
def Lives.next (imssUri : CString) (lives : Lives) (request : MetadataRequest) : Lives :=
  Function.update lives ((MetadataServer.init imssUri).key request.uri)
    (Life.next (lives ((MetadataServer.init imssUri).key request.uri)) request)

/-- The lives after a list of requests to an empty server. -/
def livesAfter (imssUri : CString) (requests : List MetadataRequest) : Lives :=
  requests.foldl (Lives.next imssUri) fun _ => none

namespace MetadataRequest

/-- The requests of a life: a new dataset is attached and open at most once, and an
unlink is a delete with operation 4. -/
def OfLife : MetadataRequest → Prop
  | .setOp _ received => received.status = .attach ∧ (received.nOpen = 0 ∨ received.nOpen = 1)
  | .deleteOp operation _ => operation = 4
  | _ => True

/-- A request that opens the dataset finds room in the counter. -/
def Fits : MetadataRequest → DatasetRecord → Prop
  | .openOp _, record => record.nOpen ≠ 2 ^ 31 - 1
  | .readOp operation _, record => operation = 1 → record.nOpen ≠ 2 ^ 31 - 1
  | _, _ => True

end MetadataRequest

namespace MetadataServer

/-- One request as a step of the server. -/
def step (server : MetadataServer) (request : MetadataRequest) : Option MetadataServer :=
  some (server.handle request).2

/-- If a request opens a stored dataset, its counter is not at the largest `int`. -/
def CounterFits (server : MetadataServer) (request : MetadataRequest) : Prop :=
  ∀ record, server.get (server.key request.uri) = some record → request.Fits record

/-- The server keeps what it should: a dataset is stored exactly while it lives and
with the right counter, none is marked as dirty, none is both marked for destruction
and closed, and no counter is negative. -/
structure KeepsLives (server : MetadataServer) (lives : Lives) : Prop where
  stored : ∀ key, (server.get key).isSome ↔ (lives key).isSome
  counted : ∀ key record life, server.get key = some record → lives key = some life →
    record.nOpen = life.count
  not_dirty : ∀ key record, server.get key = some record → record.status ≠ .dirty
  not_over : ∀ key record, server.get key = some record →
    ¬ (record.status = .dest ∧ record.nOpen = 0)
  not_negative : ∀ key record, server.get key = some record → 0 ≤ record.nOpen

end MetadataServer

/-! ## One record and one life -/

/-- The record that belongs to a life. -/
structure DatasetRecord.Shows (record : DatasetRecord) (life : Life) : Prop where
  counted : record.nOpen = life.count
  bounded : life.count < 2 ^ 31
  marked : record.status = if life.unlinked then .dest else .attach
  lives : ¬ (life.unlinked ∧ life.count = 0)

/-- A record is stored exactly while the dataset lives, and shows its life. -/
def Follows : Option DatasetRecord → Option Life → Prop
  | none, none => True
  | some record, some life => record.Shows life
  | _, _ => False

namespace DatasetRecord.Shows

variable {record : DatasetRecord} {life : Life}

theorem not_dirty (h : record.Shows life) : record.status ≠ .dirty := by
  rw [h.marked]
  split <;> decide

theorem recovered (h : record.Shows life) : record.recovered = record :=
  if_neg h.not_dirty

theorem opened (h : record.Shows life) (hfits : record.nOpen ≠ 2 ^ 31 - 1) :
    record.opened.Shows { life with count := life.count + 1 } := by
  have hcounted := h.counted
  have hbounded := h.bounded
  refine ⟨?_, ?_, h.marked, fun hover => absurd hover.2 (Nat.succ_ne_zero _)⟩
  · rw [DatasetRecord.opened, int32_of_fits (by omega) (by omega), hcounted]
    rfl
  · simp only
    omega

theorem closed (h : record.Shows life) :
    record.closed.nOpen = (life.count - 1 : Nat) ∧ record.closed.status = record.status := by
  have hcounted := h.counted
  rw [DatasetRecord.closed]
  split
  · exact ⟨by simp only; omega, rfl⟩
  · exact ⟨by omega, rfl⟩

end DatasetRecord.Shows

/-- After a close and after an unlink the record goes exactly when the life ends. -/
theorem follows_settle (record : DatasetRecord) (life : Life) (hcounted : record.nOpen = life.count)
    (hbounded : life.count < 2 ^ 31)
    (hmarked : record.status = if life.unlinked then .dest else .attach) :
    Follows (if record.status = .dest ∧ record.nOpen = 0 then none else some record)
      life.settle := by
  have hdest : record.status = .dest ↔ life.unlinked = true := by
    rw [hmarked]
    cases life.unlinked <;> decide
  have hzero : record.nOpen = 0 ↔ life.count = 0 := by
    rw [hcounted, Int.natCast_eq_zero]
  rw [Life.settle]
  by_cases hover : life.unlinked ∧ life.count = 0
  · rw [if_pos hover, if_pos ⟨hdest.mpr hover.1, hzero.mpr hover.2⟩]
    trivial
  · rw [if_neg hover, if_neg (fun h => hover ⟨hdest.mp h.1, hzero.mp h.2⟩)]
    exact ⟨hcounted, hbounded, hmarked, hover⟩

/-- A request keeps the record in step with the life. -/
theorem Follows.effect {request : MetadataRequest} (hlife : request.OfLife)
    {found : Option DatasetRecord} {life : Option Life} (h : Follows found life)
    (hfits : ∀ record, found = some record → request.Fits record) :
    Follows (request.effect found) (Life.next life request) := by
  match found, life, h with
  | none, none, _ =>
      cases request with
      | setOp uri received =>
          obtain ⟨hattach, hnew⟩ := hlife
          refine ⟨?_, ?_, hattach, fun hover => Bool.false_ne_true hover.1⟩
          · rcases hnew with hnew | hnew <;> rw [hnew] <;> rfl
          · rcases hnew with hnew | hnew <;> rw [hnew] <;> decide
      | readOp | deleteOp | closeOp | openOp => trivial
  | some record, some life, h =>
      have h : record.Shows life := h
      cases request with
      | setOp uri received =>
          simp only [MetadataRequest.effect, Life.next, h.recovered]
          exact ⟨h.counted, h.bounded, h.marked, h.lives⟩
      | readOp operation uri =>
          simp only [MetadataRequest.effect, Life.next]
          by_cases hone : operation = 1
          · rw [if_pos ⟨hone, h.not_dirty⟩, if_pos hone]
            exact h.opened (hfits record rfl hone)
          · rw [if_neg (fun hop => hone hop.1), if_neg hone]
            exact h
      | openOp uri =>
          simp only [MetadataRequest.effect, Life.next, h.recovered]
          exact h.opened (hfits record rfl)
      | closeOp uri =>
          obtain ⟨hcounted, hstatus⟩ := h.closed
          exact follows_settle _ { life with count := life.count - 1 } hcounted
            (Nat.lt_of_le_of_lt (Nat.sub_le _ _) h.bounded) (hstatus.trans h.marked)
      | deleteOp operation uri =>
          obtain rfl : operation = 4 := hlife
          have hsettle : Follows _ (Life.settle { life with unlinked := true }) :=
            follows_settle (record.marked 4) _ h.counted h.bounded rfl
          simpa [MetadataRequest.effect, Life.next, DatasetRecord.marked] using hsettle

namespace MetadataServer

variable {imssUri : CString} {server server' : MetadataServer} {lives : Lives}

/-- The server of an instance, and the lives its records follow. -/
structure FollowsLives (imssUri : CString) (server : MetadataServer) (lives : Lives) : Prop where
  imssUri_eq : server.imssUri = imssUri
  follows : ∀ key, Follows (server.get key) (lives key)

theorem followsLives_init (imssUri : CString) :
    FollowsLives imssUri (init imssUri) fun _ => none := by
  refine ⟨rfl, fun key => ?_⟩
  rw [get_init]
  trivial

theorem FollowsLives.step {request : MetadataRequest} (h : FollowsLives imssUri server lives)
    (hlife : request.OfLife) (hfits : server.CounterFits request)
    (hstep : server.step request = some server') :
    FollowsLives imssUri server' (lives.next imssUri request) := by
  obtain rfl : (server.handle request).2 = server' := Option.some.inj hstep
  have hkey : (init imssUri).key request.uri = server.key request.uri := by
    rw [key, key, h.imssUri_eq]
    rfl
  refine ⟨(imssUri_handle server request).trans h.imssUri_eq, fun key => ?_⟩
  rw [holds_handle server request key, Lives.next, hkey]
  split
  next heq =>
    rw [← heq, Function.update_self]
    exact (h.follows _).effect hlife hfits
  next hne =>
    rw [Function.update_of_ne (Ne.symm hne)]
    exact h.follows key

theorem FollowsLives.keepsLives (h : FollowsLives imssUri server lives) :
    server.KeepsLives lives := by
  have hshows : ∀ key record, server.get key = some record →
      ∃ life, lives key = some life ∧ record.Shows life := by
    intro key record hget
    have hfollows := h.follows key
    rw [hget] at hfollows
    cases hlife : lives key with
    | none => simp [hlife, Follows] at hfollows
    | some life =>
        rw [hlife] at hfollows
        exact ⟨life, rfl, hfollows⟩
  constructor
  case stored =>
    intro key
    have hfollows := h.follows key
    cases hget : server.get key <;> cases hlife : lives key <;> simp [hget, hlife, Follows] at *
  case counted =>
    intro key record life hget hlife
    obtain ⟨life', hlife', hrecord⟩ := hshows key record hget
    rw [hlife, Option.some.injEq] at hlife'
    rw [hlife']
    exact hrecord.counted
  case not_dirty =>
    intro key record hget
    obtain ⟨life, -, hrecord⟩ := hshows key record hget
    exact hrecord.not_dirty
  case not_over =>
    rintro key record hget ⟨hdest, hzero⟩
    obtain ⟨life, -, hrecord⟩ := hshows key record hget
    refine hrecord.lives ⟨?_, ?_⟩
    · by_contra hnot
      rw [hrecord.marked, if_neg hnot] at hdest
      cases hdest
    · rw [hrecord.counted] at hzero
      exact_mod_cast hzero
  case not_negative =>
    intro key record hget
    obtain ⟨life, -, hrecord⟩ := hshows key record hget
    rw [hrecord.counted]
    exact Int.natCast_nonneg _

/-- From an empty server on, whatever creates, stats, opens, closes and unlinks
arrive, every dataset is stored exactly while it lives. -/
theorem keepsLives_run {requests : List MetadataRequest}
    (hlife : ∀ request ∈ requests, request.OfLife)
    (hfits : Along MetadataServer.step CounterFits requests (init imssUri))
    (hrun : run MetadataServer.step requests (init imssUri) = some server) :
    server.KeepsLives (livesAfter imssUri requests) := by
  refine FollowsLives.keepsLives ((hfits.and_forall hlife).simulation ?_ (followsLives_init imssUri)
    hrun)
  intro server request server' lives hfollows hcond hstep
  exact hfollows.step hcond.2 hcond.1 hstep

instance : ∀ (request : MetadataRequest) (record : DatasetRecord), Decidable (request.Fits record)
  | .openOp _, record => inferInstanceAs (Decidable (record.nOpen ≠ 2 ^ 31 - 1))
  | .readOp operation _, record =>
      inferInstanceAs (Decidable (operation = 1 → record.nOpen ≠ 2 ^ 31 - 1))
  | .setOp _ _, _ | .deleteOp _ _, _ | .closeOp _, _ => isTrue trivial

instance (server : MetadataServer) (request : MetadataRequest) :
    Decidable (server.CounterFits request) :=
  inferInstanceAs (Decidable (∀ record, server.get _ = some record → _))

/-- The record of a new file that is open once. -/
def newRecord (uri : FileUri) : DatasetRecord :=
  ⟨⟨uri.1, .regularFile⟩, 1, .attach, []⟩

/-- A dataset that is unlinked while it is open twice goes with the second close. -/
theorem keepsLives_unlink_open :
    ∃ server, run MetadataServer.step
        [.setOp exampleFile.1 (newRecord exampleFile), .openOp exampleFile.1,
          .deleteOp 4 exampleFile.1, .closeOp exampleFile.1, .closeOp exampleFile.1]
        (init imssRoot) = some server ∧
      server.KeepsLives (livesAfter imssRoot
        [.setOp exampleFile.1 (newRecord exampleFile), .openOp exampleFile.1,
          .deleteOp 4 exampleFile.1, .closeOp exampleFile.1, .closeOp exampleFile.1]) := by
  refine ⟨_, rfl, keepsLives_run ?_ (by decide +kernel) rfl⟩
  simp [MetadataRequest.OfLife, newRecord]

/-! ## The counter overflows -/

section Overflow

variable {uri : CString} {record : DatasetRecord}

theorem get_openOp (hget : server.get (server.key uri) = some record)
    (hstatus : record.status ≠ .dirty) :
    (server.handle (.openOp uri)).2.get (server.key uri) = some record.opened := by
  have hholds := holds_handle server (.openOp uri) (server.key uri)
  rw [MetadataRequest.uri, if_pos rfl, hget] at hholds
  rw [hholds, MetadataRequest.effect, DatasetRecord.recovered, if_neg hstatus]

/-- Opening a dataset again and again counts modulo `2 ^ 32`. -/
theorem run_openOp (hget : server.get (server.key uri) = some record)
    (hstatus : record.status ≠ .dirty) (hint : int32 record.nOpen = record.nOpen) (n : Nat) :
    ∃ server', run MetadataServer.step (List.replicate n (.openOp uri)) server = some server' ∧
      server'.get (server.key uri) =
        some { record with nOpen := int32 (record.nOpen + n) } := by
  induction n generalizing server record with
  | zero =>
      refine ⟨server, rfl, ?_⟩
      rw [hget, Int.natCast_zero, Int.add_zero, hint]
  | succ n ih =>
      have hopened := get_openOp hget hstatus
      rw [← key_handle server (.openOp uri)] at hopened
      obtain ⟨server', hrun, hfinal⟩ := ih hopened hstatus (Int.bmod_bmod)
      refine ⟨server', hrun, ?_⟩
      rw [key_handle] at hfinal
      rw [hfinal, DatasetRecord.opened, int32, int32, int32, Int.bmod_add_bmod, Int.add_assoc,
        Int.natCast_succ, Int.add_comm 1]

end Overflow

/-- A new file is opened until the counter is negative. -/
theorem not_keepsLives_overflow :
    ∃ server, run MetadataServer.step
        (.setOp exampleFile.1 (newRecord exampleFile) ::
          List.replicate (2 ^ 31 - 1) (.openOp exampleFile.1)) (init imssRoot) = some server ∧
      ∀ lives, ¬ server.KeepsLives lives := by
  have hget : ((init imssRoot).handle (.setOp exampleFile.1 (newRecord exampleFile))).2.get
      (((init imssRoot).handle (.setOp exampleFile.1 (newRecord exampleFile))).2.key
        exampleFile.1) = some (newRecord exampleFile) := by decide +kernel
  obtain ⟨server, hrun, hfinal⟩ := run_openOp hget (by decide) (by decide) (2 ^ 31 - 1)
  refine ⟨server, ?_, fun lives hkeeps => ?_⟩
  · rw [run_cons, MetadataServer.step, Option.bind_some]
    exact hrun
  have hcounter := hkeeps.not_negative _ _ hfinal
  revert hcounter
  decide

end MetadataServer

end Hercules
