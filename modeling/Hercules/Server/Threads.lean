/-
# The threads of a data server

Several threads handle requests at the same time. A thread with a block to store looks
whether the block exists. If not, it receives the bytes in a buffer of its own, looks
again under a lock, and inserts the buffer or, if another thread was faster, copies the
bytes to the block that is there now. If the block exists, the bytes go to it under the
same lock.

Between these steps the other threads go on. A thread that is left alone does what the
sequential handler does.
-/

import Hercules.Lib.Threads
import Hercules.Server.Data

namespace Hercules

open Lib Lib.Text Lib.Threads

universe u

/-- A request to store bytes; `fresh` is what `malloc` leaves in a new buffer. -/
structure WriteJob where
  offset : Nat
  data : List UInt8
  fresh : Memory

/-- How far a thread has come with its request. -/
inductive WritePhase
  | start
  | absent
  | received (buffer : Memory) (size : Nat) (reused : Bool)
  | found
  | done

namespace WriteJob

variable (config : ServerConfig) (key : CString)

/-- The receive in a buffer of the thread. -/
def receive (job : WriteJob) (server : DataServer) : DataServer × WritePhase :=
  if job.data = [] then (server, .done)
  else
    let (buffer, size, reused, pool) := server.allocate config key job.data.length job.fresh
    ({ server with memPool := pool }, .received (buffer.store job.offset job.data) size reused)

/-- The second look and what follows, under `memory_protect`. -/
def commit (job : WriteJob) (server : DataServer) (buffer : Memory) (size : Nat) (reused : Bool) :
    DataServer :=
  match server.get key with
  | none =>
      { (if reused then server else server.increaseMemoryOccupied config size) with
        store := server.store.hierarchicalMapPut Block.isDirectory key ⟨buffer, size⟩
          (isBlockZero key) }
  | some block =>
      { server with
        store := server.store.update key { block with
          data := block.data.store job.offset (buffer.load job.offset job.data.length) } }

/-- The update of a block that the first look has found, under the same lock. -/
def overwrite (job : WriteJob) (server : DataServer) : DataServer :=
  match server.get key with
  | none => server
  | some block =>
      if job.data = [] then
        if isBlockZero key then
          { server with store := server.store.hierarchicalMapPopFromGarbageCollector key }
        else server
      else server.writeExisting key block job.offset job.data job.fresh

/-- One step of the thread. -/
def step (job : WriteJob) (server : DataServer) : WritePhase → DataServer × WritePhase
  | .start => (server, if (server.get key).isSome then .found else .absent)
  | .absent => job.receive config key server
  | .received buffer size reused => (job.commit config key server buffer size reused, .done)
  | .found => (job.overwrite key server, .done)
  | .done => (server, .done)

end WriteJob

/-- The steps that a thread has left at most. -/
def WritePhase.rank : WritePhase → Nat
  | .start => 3
  | .absent => 2
  | .received .. => 1
  | .found => 1
  | .done => 0

@[simp]
theorem WritePhase.rank_eq_zero {phase : WritePhase} : phase.rank = 0 ↔ phase = .done := by
  cases phase <;> simp [rank]

/-! ## What a step does -/

namespace WriteJob

variable {config : ServerConfig} {key key' : CString} {job : WriteJob} {server : DataServer}
  {buffer : Memory} {size : Nat} {reused : Bool} {block : Block}

theorem rank_step (job : WriteJob) (server : DataServer) (phase : WritePhase) :
    (job.step config key server phase).2.rank ≤ phase.rank - 1 := by
  cases phase with
  | start =>
      rw [step]
      split
      · exact Nat.le_succ 1
      · exact Nat.le_refl 2
  | absent =>
      rw [step, receive]
      split
      · exact Nat.zero_le 1
      · exact Nat.le_refl 1
  | received buffer size reused => exact Nat.le_refl 0
  | found => exact Nat.le_refl 0
  | done => exact Nat.le_refl 0

@[simp]
theorem get_receive (config : ServerConfig) (job : WriteJob) (server : DataServer)
    (key' : CString) :
    (job.receive config key server).1.get key' = server.get key' := by
  rw [receive]
  split <;> rfl

theorem receive_of_data (hdata : job.data ≠ []) :
    ∃ buffer size reused, (job.receive config key server).2 = .received buffer size reused ∧
      buffer.load job.offset job.data.length = job.data := by
  rw [receive, if_neg hdata]
  exact ⟨_, _, _, rfl, Memory.load_store_self _ _ _⟩

theorem get_commit_none (hnone : server.get key = none) (job : WriteJob) (buffer : Memory)
    (size : Nat) (reused : Bool) :
    (job.commit config key server buffer size reused).get key = some ⟨buffer, size⟩ := by
  rw [commit, hnone]
  exact HierarchicalRecords.hierarchicalMapGet_put_self Block.isDirectory hnone _ _

theorem get_commit_some (hsome : server.get key = some block) (job : WriteJob) (buffer : Memory)
    (size : Nat) (reused : Bool) :
    (job.commit config key server buffer size reused).get key =
      some { block with
        data := block.data.store job.offset (buffer.load job.offset job.data.length) } := by
  rw [commit, hsome]
  exact HierarchicalRecords.hierarchicalMapGet_update_self (Option.isSome_of_eq_some hsome) _

theorem overwrite_of_some (hsome : server.get key = some block) (hdata : job.data ≠ []) :
    job.overwrite key server = server.writeExisting key block job.offset job.data job.fresh := by
  rw [overwrite, hsome]
  exact if_neg hdata

/-! ## Threads that have come to their end -/

variable {ι : Type u} [DecidableEq ι] {jobs : ι → WriteJob} {i : ι}

/-- Three steps of a thread are enough. -/
theorem done_of_count {schedule : List ι} (hcount : 3 ≤ schedule.count i) :
    (interleave (fun i => (jobs i).step config key) schedule ⟨server, fun _ => .start⟩).phase i =
      .done := by
  have hstep : ∀ i s p, ((jobs i).step config key s p).2.rank ≤ p.rank - 1 :=
    fun i => (jobs i).rank_step
  have hrank := rank_interleave_le hstep schedule ⟨server, fun _ => .start⟩ i
  have hstart : WritePhase.start.rank = 3 := rfl
  rw [hstart] at hrank
  rw [← WritePhase.rank_eq_zero]
  omega

/-! ## A thread that is left alone -/

/-- The three steps of a request, one after the other. -/
theorem step_step_step (job : WriteJob) (server : DataServer) :
    let first := job.step config key server .start
    let second := job.step config key first.1 first.2
    (job.step config key second.1 second.2).1 =
      (server.write config key job.offset job.data job.fresh).2 := by
  cases hget : server.get key with
  | none =>
      by_cases hdata : job.data = []
      · simp [step, receive, hget, hdata, DataServer.write]
      · have hlater : ∀ pool : List Memory,
            DataServer.get { server with memPool := pool } key = none := fun _ => hget
        simp only [step, receive, hget, hdata, DataServer.write, Option.isSome_none,
          Bool.false_eq_true, if_false, commit, hlater]
        rw [DataServer.writeNew]
        rcases server.allocate config key job.data.length job.fresh with
          ⟨buffer, size, reused, pool⟩
        cases reused with
        | true => rfl
        | false =>
            simp only [Bool.false_eq_true, if_false, DataServer.increaseMemoryOccupied]
            split <;> rfl
  | some block =>
      by_cases hdata : job.data = []
      · simp only [step, hget, DataServer.write, Option.isSome_some, if_true, overwrite, hdata]
        split <;> rfl
      · simp only [step, hget, DataServer.write, Option.isSome_some, if_true, overwrite, hdata,
          if_false]

/-- A thread that takes its three steps without the others does what the handler does. -/
theorem run_alone {phase : ι → WritePhase} (hstart : phase i = .start) (server : DataServer) :
    (interleave (fun i => (jobs i).step config key) [i, i, i] ⟨server, phase⟩).shared =
      (server.write config key (jobs i).offset (jobs i).data (jobs i).fresh).2 := by
  simp only [interleave_cons, interleave_nil, shared_next, phase_next_self, hstart]
  exact step_step_step (jobs i) server

end WriteJob

end Hercules
