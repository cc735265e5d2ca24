/-
# Concurrent writes to one block

Any number of threads write to pairwise disjoint parts of one data block, in any order of
their steps. A thread that loses the race for the insertion copies its bytes to the block
of the winner, so in the end the block has the bytes of every thread, and the bytes that
no thread writes to are those from before.

The argument is about data blocks. The server decides by the text of the key whether a
block is a block 0, so the blocks of a file with a `$0` in its name are merged like the
record of a file instead of being overwritten, and what they hold is changed.
-/

import Hercules.Server.NameExact
import Hercules.Server.Threads

namespace Hercules

open Lib Lib.Text Lib.Threads

/-! ## Writes to disjoint ranges -/

/-- The position is one of those that the request writes to. -/
def WriteJob.Covers (job : WriteJob) (p : Nat) : Prop :=
  job.offset ≤ p ∧ p < job.offset + job.data.length

/-- The block shows the bytes of the request. -/
def WriteJob.Shown (job : WriteJob) (block : Block) : Prop :=
  block.data.load job.offset job.data.length = job.data

/-- Requests of `n` threads to pairwise disjoint ranges of one block. -/
structure DisjointJobs (config : ServerConfig) (n : Nat) where
  job : Fin n → WriteJob
  disjoint : ∀ i j, i ≠ j → (job i).offset + (job i).data.length ≤ (job j).offset ∨
    (job j).offset + (job j).data.length ≤ (job i).offset
  inside : ∀ i, (job i).offset + (job i).data.length ≤ config.blockSize

namespace DisjointJobs

variable {config : ServerConfig} {n : Nat} (jobs : DisjointJobs config n) (key : CString)

/-- The server and its threads after some steps. -/
def after (server : DataServer) (schedule : List (Fin n)) : State (Fin n) DataServer WritePhase :=
  interleave (fun i => (jobs.job i).step config key) schedule ⟨server, fun _ => .start⟩

/-- What the bytes of the block are when all threads are done: each range shows its request, and the
bytes outside all ranges are the old ones. -/
structure Kept (old : Option Block) (final : State (Fin n) DataServer WritePhase) : Prop where
  written : ∀ i, (jobs.job i).data ≠ [] → ∃ block, final.shared.get key = some block ∧
    (jobs.job i).Shown block
  unwritten : ∀ before, old = some before → ∃ block, final.shared.get key = some block ∧
    ∀ p, (∀ i, ¬ (jobs.job i).Covers p) → block.data p = before.data p

end DisjointJobs

/-- Every set of threads and every interleaving of their steps keeps the bytes. -/
def BytesKept (key : CString) : Prop :=
  ∀ (config : ServerConfig) (server : DataServer) (n : Nat) (jobs : DisjointJobs config n)
    (schedule : List (Fin n)),
    (∀ i, (jobs.after key server schedule).phase i = .done) →
      jobs.Kept key (server.get key) (jobs.after key server schedule)

/-! ## The invariant -/

namespace DisjointJobs

variable {config : ServerConfig} {n : Nat} {jobs : DisjointJobs config n} {key : CString}
  {old : Option Block} {state : State (Fin n) DataServer WritePhase} {i j : Fin n}
  {server : DataServer} {phase : WritePhase} {block : Block}

variable (jobs key) in
/-- Buffers of threads have the bytes of their requests; as long as there is no block, nobody has
found or stored anything; and a block shows what the threads that are done have written, over the
old bytes. -/
structure Inv (old : Option Block) (state : State (Fin n) DataServer WritePhase) : Prop where
  received : ∀ i buffer size reused, state.phase i = .received buffer size reused →
    buffer.load (jobs.job i).offset (jobs.job i).data.length = (jobs.job i).data
  absent : state.shared.get key = none → old = none ∧ ∀ i, state.phase i ≠ .found ∧
    (state.phase i = .done → (jobs.job i).data = [])
  stored : ∀ block, state.shared.get key = some block →
    (∀ i, state.phase i = .done → (jobs.job i).Shown block) ∧
      ∀ before, old = some before → ∀ p, (∀ i, ¬ (jobs.job i).Covers p) →
        block.data p = before.data p

/-- A store to the range of one thread. -/
theorem shown_store (block : Block) (i : Fin n) :
    (jobs.job i).Shown { block with
      data := block.data.store (jobs.job i).offset (jobs.job i).data } :=
  Memory.load_store_self _ _ _

theorem shown_store_of_ne (hne : j ≠ i) (hshown : (jobs.job j).Shown block) :
    (jobs.job j).Shown { block with
      data := block.data.store (jobs.job i).offset (jobs.job i).data } := by
  rw [WriteJob.Shown] at hshown ⊢
  conv_rhs => rw [← hshown]
  apply Memory.load_congr
  intro k hk
  rcases jobs.disjoint j i hne with hbefore | hbehind
  · exact Memory.store_of_lt (by omega)
  · exact Memory.store_of_ge (by omega)

theorem store_of_not_covers {p : Nat} (h : ¬ (jobs.job i).Covers p) (m : Memory) :
    m.store (jobs.job i).offset (jobs.job i).data p = m p := by
  rw [WriteJob.Covers, not_and_or, not_le, not_lt] at h
  rcases h with hbefore | hbehind
  · exact Memory.store_of_lt hbefore
  · exact Memory.store_of_ge hbehind

/-- A step that leaves the block alone. -/
theorem Inv.quiet (hinv : jobs.Inv key old state) (hget : server.get key = state.shared.get key)
    (hreceived : ∀ buffer size reused, phase = .received buffer size reused →
      buffer.load (jobs.job i).offset (jobs.job i).data.length = (jobs.job i).data)
    (hfound : phase = .found → (state.shared.get key).isSome)
    (hdone : phase = .done → state.phase i = .done ∨ (jobs.job i).data = []) :
    jobs.Inv key old ⟨server, Function.update state.phase i phase⟩ := by
  refine ⟨?_, ?_, ?_⟩
  · intro j buffer size reused hphase
    rcases eq_or_ne j i with rfl | hne
    · exact hreceived buffer size reused ((Function.update_self j _ _).symm.trans hphase)
    · exact hinv.received j buffer size reused ((Function.update_of_ne hne _ _).symm.trans hphase)
  · intro hnone
    rw [hget] at hnone
    obtain ⟨hold, hothers⟩ := hinv.absent hnone
    refine ⟨hold, fun j => ?_⟩
    rcases eq_or_ne j i with rfl | hne
    · change Function.update _ _ _ j ≠ _ ∧ (Function.update _ _ _ j = _ → _)
      rw [Function.update_self]
      constructor
      · intro heq
        have hsome := hfound heq
        rw [hnone] at hsome
        cases hsome
      · intro heq
        exact (hdone heq).elim (hothers j).2 id
    · change Function.update _ _ _ j ≠ _ ∧ (Function.update _ _ _ j = _ → _)
      rw [Function.update_of_ne hne]
      exact hothers j
  · intro block hblock
    rw [hget] at hblock
    obtain ⟨hshown, hunwritten⟩ := hinv.stored block hblock
    refine ⟨fun j hj => ?_, hunwritten⟩
    rcases eq_or_ne j i with rfl | hne
    · rcases hdone ((Function.update_self j _ _).symm.trans hj) with hbefore | hempty
      · exact hshown j hbefore
      · rw [WriteJob.Shown, hempty]
        rfl
    · exact hshown j ((Function.update_of_ne hne _ _).symm.trans hj)

theorem Inv.received_done (hinv : jobs.Inv key old state) :
    ∀ j buffer size reused,
      Function.update state.phase i .done j = .received buffer size reused →
        buffer.load (jobs.job j).offset (jobs.job j).data.length = (jobs.job j).data := by
  intro j buffer size reused hphase
  rcases eq_or_ne j i with rfl | hne
  · rw [Function.update_self] at hphase
    cases hphase
  · rw [Function.update_of_ne hne] at hphase
    exact hinv.received j buffer size reused hphase

/-- A step that stores the bytes of a thread in the block. -/
theorem Inv.store (hinv : jobs.Inv key old state) (hsome : state.shared.get key = some block)
    (hget : server.get key = some { block with
      data := block.data.store (jobs.job i).offset (jobs.job i).data }) :
    jobs.Inv key old ⟨server, Function.update state.phase i .done⟩ := by
  obtain ⟨hshown, hunwritten⟩ := hinv.stored block hsome
  refine ⟨hinv.received_done, ?_, ?_⟩
  · intro hnone
    rw [hget] at hnone
    cases hnone
  · intro block' hblock'
    obtain rfl := Option.some.inj (hget.symm.trans hblock')
    constructor
    · intro j hj
      rcases eq_or_ne j i with rfl | hne
      · exact shown_store block j
      · exact shown_store_of_ne hne (hshown j ((Function.update_of_ne hne _ _).symm.trans hj))
    · intro before hbefore p hoff
      exact (store_of_not_covers (hoff i) block.data).trans (hunwritten before hbefore p hoff)

/-- The insertion of the block. -/
theorem Inv.insert (hinv : jobs.Inv key old state) (hnone : state.shared.get key = none)
    (hget : server.get key = some block) (hshown : (jobs.job i).Shown block) :
    jobs.Inv key old ⟨server, Function.update state.phase i .done⟩ := by
  obtain ⟨hold, hothers⟩ := hinv.absent hnone
  refine ⟨hinv.received_done, ?_, ?_⟩
  · intro hnone'
    rw [hget] at hnone'
    cases hnone'
  · intro block' hblock'
    obtain rfl := Option.some.inj (hget.symm.trans hblock')
    constructor
    · intro j hj
      rcases eq_or_ne j i with rfl | hne
      · exact hshown
      · have hempty := (hothers j).2 ((Function.update_of_ne hne _ _).symm.trans hj)
        rw [WriteJob.Shown, hempty]
        rfl
    · intro before hbefore
      rw [hold] at hbefore
      cases hbefore

/-- One step of one thread, for the key of a data block. -/
theorem Inv.next (hzero : isBlockZero key = false) (hinv : jobs.Inv key old state) (i : Fin n) :
    jobs.Inv key old (Threads.next (fun i => (jobs.job i).step config key) state i) := by
  rw [Threads.next]
  cases hphase : state.phase i with
  | start =>
      apply hinv.quiet rfl
      · intro buffer size reused heq
        rw [WriteJob.step] at heq
        split at heq <;> cases heq
      · intro heq
        rw [WriteJob.step] at heq
        split at heq
        next hsome => exact hsome
        next => cases heq
      · intro heq
        rw [WriteJob.step] at heq
        split at heq <;> cases heq
  | absent =>
      apply hinv.quiet (WriteJob.get_receive config (jobs.job i) state.shared key)
      · intro buffer size reused heq
        by_cases hdata : (jobs.job i).data = []
        · rw [hdata]
          rfl
        · obtain ⟨buffer', size', reused', hreceived, hload⟩ := WriteJob.receive_of_data hdata
          have hsame := hreceived.symm.trans heq
          cases hsame
          exact hload
      · intro heq
        rw [WriteJob.step, WriteJob.receive] at heq
        split at heq <;> cases heq
      · intro heq
        rw [WriteJob.step, WriteJob.receive] at heq
        split at heq
        next hdata => exact Or.inr hdata
        next => cases heq
  | received buffer size reused =>
      have hload := hinv.received i buffer size reused hphase
      cases hget : state.shared.get key with
      | none =>
          exact hinv.insert hget (WriteJob.get_commit_none hget
            (jobs.job i) buffer size reused) hload
      | some block =>
          apply hinv.store hget
          rw [WriteJob.step, WriteJob.get_commit_some hget, hload]
  | found =>
      cases hget : state.shared.get key with
      | none => exact absurd hphase ((hinv.absent hget).2 i).1
      | some block =>
          by_cases hdata : (jobs.job i).data = []
          · have hsame : (jobs.job i).overwrite key state.shared = state.shared := by
              rw [WriteJob.overwrite, hget]
              simp only [if_pos hdata, hzero, Bool.false_eq_true, if_false]
            apply hinv.quiet (by rw [WriteJob.step, hsame])
            · intro buffer size reused heq
              cases heq
            · intro heq
              cases heq
            · intro _
              exact Or.inr hdata
          · apply hinv.store hget
            rw [WriteJob.step, WriteJob.overwrite_of_some hget hdata,
              DataServer.get_writeExisting hget hzero]
  | done =>
      apply hinv.quiet rfl
      · intro buffer size reused heq
        cases heq
      · intro heq
        cases heq
      · intro _
        exact Or.inl hphase

theorem Inv.start (server : DataServer) :
    jobs.Inv key (server.get key) ⟨server, fun _ => .start⟩ := by
  refine ⟨?_, ?_, ?_⟩
  · intro i buffer size reused hphase
    cases hphase
  · intro hnone
    refine ⟨hnone, fun i => ⟨?_, ?_⟩⟩
    · intro hphase
      cases hphase
    · intro hphase
      cases hphase
  · intro block hblock
    constructor
    · intro i hphase
      cases hphase
    · intro before hbefore p _
      rw [Option.some.inj (hblock.symm.trans hbefore)]

/-- When all threads are done, the invariant says what the block holds. -/
theorem Inv.kept (hinv : jobs.Inv key old state) (hdone : ∀ i, state.phase i = .done) :
    jobs.Kept key old state := by
  refine ⟨?_, ?_⟩
  · intro i hdata
    cases hget : state.shared.get key with
    | none => exact absurd (((hinv.absent hget).2 i).2 (hdone i)) hdata
    | some block => exact ⟨block, rfl, (hinv.stored block hget).1 i (hdone i)⟩
  · intro before hbefore
    cases hget : state.shared.get key with
    | none =>
        rw [(hinv.absent hget).1] at hbefore
        cases hbefore
    | some block => exact ⟨block, rfl, (hinv.stored block hget).2 before hbefore⟩

end DisjointJobs

/-- Concurrent writes to a block that the server takes for a data block. -/
theorem bytesKept_of_data {key : CString} (hzero : isBlockZero key = false) : BytesKept key := by
  intro config server n jobs schedule hdone
  have hinv : jobs.Inv key (server.get key) (jobs.after key server schedule) :=
    interleave_invariant (fun _ i hinv => hinv.next hzero i) schedule
      (DisjointJobs.Inv.start server)
  exact hinv.kept hdone

/-! ## Blocks that are taken for block 0 -/

/-- A server that has received a whole block of fives. -/
def serverOfFives (key : CString) : DataServer :=
  (DataServer.init imssRoot).writeNew ⟨128, 2 ^ 20⟩ key 0 (List.replicate 128 5) fun _ => 0

/-- One thread that writes 56 zeros. -/
def zerosJob : DisjointJobs ⟨128, 2 ^ 20⟩ 1 where
  job _ := ⟨64, List.replicate 56 0, fun _ => 0⟩
  disjoint i j hne := absurd (Subsingleton.elim i j) hne
  inside _ := by decide

theorem get_serverOfFives {key : CString} (hzero : isBlockZero key = true) :
    (serverOfFives key).get key =
      some ⟨Memory.store (fun _ => 0) 0 (List.replicate 128 5), 128⟩ := by
  have hnone : (DataServer.init imssRoot).get key = none :=
    HierarchicalRecords.hierarchicalMapGet_init imssRoot key
  rw [serverOfFives, DataServer.get_writeNew hnone, DataServer.allocate, if_pos hzero]
  rfl

theorem done_after_zeros (key : CString) (i : Fin 1) :
    (zerosJob.after key (serverOfFives key) [0, 0, 0]).phase i = .done := by
  apply WriteJob.done_of_count
  rw [Subsingleton.elim i 0]
  exact Nat.le_refl 3

/-- The fives at the place of `st_size` go to the block instead of the zeros. -/
theorem get_after_zeros {key : CString} (hzero : isBlockZero key = true) :
    ∃ block, (zerosJob.after key (serverOfFives key) [0, 0, 0]).shared.get key = some block ∧
      block.data.load 64 56 ≠ List.replicate 56 0 := by
  have hdata : List.replicate 56 (0 : UInt8) ≠ [] := by decide
  have hshared : (zerosJob.after key (serverOfFives key) [0, 0, 0]).shared =
      ((serverOfFives key).write ⟨128, 2 ^ 20⟩ key 64 (List.replicate 56 0) fun _ => 0).2 :=
    WriteJob.run_alone rfl (serverOfFives key)
  rw [hshared, DataServer.write_of_some hdata (get_serverOfFives hzero),
    DataServer.get_writeExisting_zero (get_serverOfFives hzero) hzero]
  refine ⟨_, rfl, ?_⟩
  decide +kernel

theorem not_bytesKept_of_zero {key : CString} (hzero : isBlockZero key = true) :
    ¬ BytesKept key := by
  intro hkept
  obtain ⟨block, hblock, hshown⟩ :=
    (hkept _ (serverOfFives key) 1 zerosJob [0, 0, 0] (done_after_zeros key)).written 0 (by decide)
  obtain ⟨block', hblock', hne⟩ := get_after_zeros hzero
  rw [Option.some.inj (hblock'.symm.trans hblock)] at hne
  exact hne hshown

/-- Concurrent writes to the data blocks of a file keep their bytes if and only if there is no `$0`
in the name of the file. -/
theorem bytesKept_iff (uri : CString) (block : { b : Int // b ≠ 0 }) :
    BytesKept (blockKey uri block.1) ↔ ¬ ['$', '0'] <:+: uri := by
  have hkey : isBlockZero (blockKey uri block.1) = true ↔ ['$', '0'] <:+: uri := by
    rw [isBlockZero_blockKey_iff]
    exact or_iff_right block.2
  constructor
  · intro hkept hname
    exact not_bytesKept_of_zero (hkey.mpr hname) hkept
  · intro hname
    apply bytesKept_of_data
    rw [Bool.eq_false_iff]
    exact fun hzero => hname (hkey.mp hzero)

/-- Block 1 of `imss://f$0` after a write of 56 zeros at 64: the eight bytes at 112 are still
fives. -/
theorem not_bytesKept :
    (∀ i, (zerosJob.after (blockKey dollarFile.1 1) (serverOfFives (blockKey dollarFile.1 1))
      [0, 0, 0]).phase i = .done) ∧
    ((zerosJob.after (blockKey dollarFile.1 1) (serverOfFives (blockKey dollarFile.1 1))
      [0, 0, 0]).shared.get (blockKey dollarFile.1 1)).map (fun block => block.data.load 64 56) =
        some (List.replicate 48 0 ++ List.replicate 8 5) ∧
    ¬ BytesKept (blockKey dollarFile.1 1) := by
  refine ⟨done_after_zeros _, ?_, ?_⟩
  · decide +kernel
  · exact not_bytesKept_of_zero (by decide)

end Hercules
