/-
# The size of a file under concurrent updates

Clients send their records of one file, each with the size it knows, and the threads of
the server that handle them take their steps in any order. A thread that finds block 0
keeps the larger of the stored size and the size it brings. So the size of a file whose
block 0 is stored only grows, up to the largest size sent.

A thread that finds no block 0 and then loses the race for the insertion copies its
record to that of the winner without a look at the size. If two of the first records have
different sizes, some order of the steps leaves the smaller one.
-/

import Mathlib.Order.Bounds.Basic
import Hercules.Server.Threads

namespace Hercules

open Lib Lib.Text Lib.Threads

/-- A record that a client sends; `fresh` is what `malloc` leaves in the buffer for it. -/
structure StatUpdate where
  stat : Memory
  fresh : Memory

namespace StatUpdate

/-- The size in the record. -/
def size (update : StatUpdate) : Int :=
  stSize update.stat

/-- The request for the record, as block 0. -/
def job (update : StatUpdate) : WriteJob :=
  ⟨0, update.stat.load 0 sizeofStat, update.fresh⟩

theorem data_ne_nil (update : StatUpdate) : update.job.data ≠ [] :=
  List.ne_nil_of_length_pos (by simp [job, sizeofStat])

theorem length_data (update : StatUpdate) : update.job.data.length = sizeofStat :=
  Memory.length_load

variable {n : Nat} (config : ServerConfig) (uri : CString) (server : DataServer)
  (updates : Fin n → StatUpdate)

/-- The server and its threads after some steps. -/
def after (schedule : List (Fin n)) : State (Fin n) DataServer WritePhase :=
  interleave (fun i => (updates i).job.step config (blockKey uri 0)) schedule
    ⟨server, fun _ => .start⟩

/-- The sizes sent, and the size stored before. -/
def sizes : Set Int :=
  { s | (∃ i, (updates i).size = s) ∨
    ∃ block, server.get (blockKey uri 0) = some block ∧ stSize block.data = s }

/-- Whatever the order of the steps, the largest of the sizes is stored in the end. -/
def LargestStored : Prop :=
  ∀ schedule, (∀ i, (after config uri server updates schedule).phase i = .done) →
    (sizes uri server updates).Nonempty →
      ∃ block, (after config uri server updates schedule).shared.get (blockKey uri 0) = some block ∧
        IsGreatest (sizes uri server updates) (stSize block.data)

/-! ## Sizes that only grow -/

/-- A block 0 stays, and its size does not become smaller. -/
def Grows (before later : Option Block) : Prop :=
  ∀ block, before = some block → ∃ block', later = some block' ∧
    stSize block.data ≤ stSize block'.data

theorem Grows.refl (block : Option Block) : Grows block block :=
  fun block h => ⟨block, h, le_refl _⟩

theorem Grows.trans {first second third : Option Block} (h : Grows first second)
    (h' : Grows second third) : Grows first third := by
  intro block hblock
  obtain ⟨block', hblock', hle⟩ := h block hblock
  obtain ⟨block'', hblock'', hle'⟩ := h' block' hblock'
  exact ⟨block'', hblock'', hle.trans hle'⟩

/-- What is known of a thread in each phase, where `old` is the block 0 before all steps and
`current` is the one that is stored now. -/
def Ok (update : StatUpdate) (old current : Option Block) : WritePhase → Prop
  | .start => True
  | .absent => old = none
  | .received buffer _ _ => old = none ∧ stSize buffer = update.size
  | .found => current.isSome
  | .done => ∃ block, current = some block ∧ update.size ≤ stSize block.data

theorem Ok.mono {update : StatUpdate} {old current later : Option Block} {phase : WritePhase}
    (hok : update.Ok old current phase) (hgrows : Grows current later) :
    update.Ok old later phase := by
  cases phase with
  | start => exact hok
  | absent => exact hok
  | received buffer size reused => exact hok
  | found =>
      obtain ⟨block, hblock⟩ := Option.isSome_iff_exists.mp hok
      obtain ⟨block', hblock', _⟩ := hgrows block hblock
      exact Option.isSome_of_eq_some hblock'
  | done =>
      obtain ⟨block, hblock, hle⟩ := hok
      obtain ⟨block', hblock', hle'⟩ := hgrows block hblock
      exact ⟨block', hblock', hle.trans hle'⟩

/-- What is known between the steps. -/
structure Inv (state : State (Fin n) DataServer WritePhase) : Prop where
  phases : ∀ i, (updates i).Ok (server.get (blockKey uri 0)) (state.shared.get (blockKey uri 0))
    (state.phase i)
  grown : Grows (server.get (blockKey uri 0)) (state.shared.get (blockKey uri 0))
  sent : ∀ block, state.shared.get (blockKey uri 0) = some block →
    stSize block.data ∈ sizes uri server updates

variable {config uri server updates} {state : State (Fin n) DataServer WritePhase} {i j : Fin n}
  {block : Block} {later : DataServer} {phase : WritePhase}

/-- A step of one thread that lets the size grow. -/
theorem Inv.step (hinv : Inv uri server updates state)
    (hgrows : Grows (state.shared.get (blockKey uri 0)) (later.get (blockKey uri 0)))
    (hok : (updates i).Ok (server.get (blockKey uri 0)) (later.get (blockKey uri 0)) phase)
    (hsent : ∀ block, later.get (blockKey uri 0) = some block →
      stSize block.data ∈ sizes uri server updates) :
    Inv uri server updates ⟨later, Function.update state.phase i phase⟩ := by
  refine ⟨?_, hinv.grown.trans hgrows, hsent⟩
  intro j
  change (updates j).Ok _ _ (Function.update state.phase i phase j)
  rcases eq_or_ne j i with rfl | hne
  · rw [Function.update_self]
    exact hok
  · rw [Function.update_of_ne hne]
    exact (hinv.phases j).mono hgrows

/-- A step of one thread that leaves block 0 alone. -/
theorem Inv.quiet (hinv : Inv uri server updates state)
    (hget : later.get (blockKey uri 0) = state.shared.get (blockKey uri 0))
    (hok : (updates i).Ok (server.get (blockKey uri 0)) (state.shared.get (blockKey uri 0)) phase) :
    Inv uri server updates ⟨later, Function.update state.phase i phase⟩ := by
  apply hinv.step
  · rw [hget]
    exact Grows.refl _
  · rw [hget]
    exact hok
  · rw [hget]
    exact hinv.sent

/-- A step that stores a block 0 which has at least the size of the thread and the size from
before. -/
theorem Inv.store (hinv : Inv uri server updates state)
    (hget : later.get (blockKey uri 0) = some block)
    (hgrows : ∀ before, state.shared.get (blockKey uri 0) = some before →
      stSize before.data ≤ stSize block.data)
    (hle : (updates i).size ≤ stSize block.data)
    (hsent : stSize block.data ∈ sizes uri server updates) :
    Inv uri server updates ⟨later, Function.update state.phase i .done⟩ := by
  apply hinv.step
  · intro before hbefore
    exact ⟨block, hget, hgrows before hbefore⟩
  · exact ⟨block, hget, hle⟩
  · intro block' hblock'
    rw [Option.some.inj (hblock'.symm.trans hget)]
    exact hsent

theorem size_mem_sizes (i : Fin n) : (updates i).size ∈ sizes uri server updates :=
  Or.inl ⟨i, rfl⟩

/-- The first records of a file that all have one size. -/
theorem eq_size_of_mem_sizes (hnone : server.get (blockKey uri 0) = none)
    (hequal : ∀ i j, (updates i).size = (updates j).size) {s : Int}
    (hs : s ∈ sizes uri server updates) (i : Fin n) : s = (updates i).size := by
  rcases hs with ⟨j, rfl⟩ | ⟨block, hblock, _⟩
  · exact hequal j i
  · rw [hnone] at hblock
    cases hblock

/-! ## What the steps do to the size -/

/-- The buffer of a thread has the size that was sent. -/
theorem stSize_receive (update : StatUpdate) (config : ServerConfig) (key : CString)
    (server : DataServer) :
    ∃ buffer size reused, (update.job.receive config key server).2 = .received buffer size reused ∧
      stSize buffer = update.size := by
  obtain ⟨buffer, size, reused, hreceived, hload⟩ :
      ∃ buffer size reused,
        (update.job.receive config key server).2 = .received buffer size reused ∧
        buffer.load 0 update.job.data.length = update.job.data :=
    WriteJob.receive_of_data update.data_ne_nil
  refine ⟨buffer, size, reused, hreceived, ?_⟩
  rw [update.length_data] at hload
  have hsame : buffer.load 0 sizeofStat = update.stat.load 0 sizeofStat := hload
  rw [← stSize_store_load buffer buffer, hsame, stSize_store_load]
  rfl

/-- The second look stores the size of the buffer, whether or not there is a block 0 by then. -/
theorem stSize_commit (update : StatUpdate) (config : ServerConfig) (key : CString)
    (server : DataServer) (buffer : Memory) (size : Nat) (reused : Bool) :
    ∃ block, (update.job.commit config key server buffer size reused).get key = some block ∧
      stSize block.data = stSize buffer := by
  cases hget : server.get key with
  | none => exact ⟨_, WriteJob.get_commit_none hget update.job buffer size reused, rfl⟩
  | some block =>
      refine ⟨_, WriteJob.get_commit_some hget update.job buffer size reused, ?_⟩
      rw [update.length_data]
      exact stSize_store_load block.data buffer

theorem stSize_overwrite (update : StatUpdate) (hsome : server.get (blockKey uri 0) = some block) :
    ∃ block', (update.job.overwrite (blockKey uri 0) server).get (blockKey uri 0) = some block' ∧
      stSize block'.data = max update.size (stSize block.data) := by
  rw [WriteJob.overwrite_of_some hsome update.data_ne_nil]
  exact DataServer.get_writeExisting_stat hsome (isBlockZero_zero uri) update.stat update.fresh

/-- One step of one thread, if the file was stored or the sizes agree. -/
theorem Inv.next
    (hcond : (server.get (blockKey uri 0)).isSome ∨ ∀ i j, (updates i).size = (updates j).size)
    (hinv : Inv uri server updates state) (i : Fin n) :
    Inv uri server updates
      (Threads.next (fun i => (updates i).job.step config (blockKey uri 0)) state i) := by
  have hok := hinv.phases i
  rw [Threads.next]
  cases hphase : state.phase i with
  | start =>
      apply hinv.quiet rfl
      rw [WriteJob.step]
      split
      next hsome => exact hsome
      next hnone =>
        -- a block 0 from before would still be there
        by_contra hold
        obtain ⟨block, hblock⟩ := Option.ne_none_iff_exists'.mp hold
        obtain ⟨block', hblock', _⟩ := hinv.grown block hblock
        exact hnone (Option.isSome_of_eq_some hblock')
  | absent =>
      rw [hphase] at hok
      obtain ⟨buffer, size, reused, hreceived, hsize⟩ :=
        stSize_receive (updates i) config (blockKey uri 0) state.shared
      apply hinv.quiet (WriteJob.get_receive config (updates i).job state.shared _)
      rw [WriteJob.step, hreceived]
      exact ⟨hok, hsize⟩
  | received buffer size reused =>
      rw [hphase] at hok
      obtain ⟨hold, hsize⟩ := hok
      obtain ⟨block, hblock, hstored⟩ :=
        stSize_commit (updates i) config (blockKey uri 0) state.shared buffer size reused
      rw [hsize] at hstored
      have hequal : ∀ i j, (updates i).size = (updates j).size := by
        rcases hcond with hsome | hequal
        · rw [hold] at hsome
          cases hsome
        · exact hequal
      apply hinv.store hblock
      · intro before hbefore
        rw [hstored]
        exact (eq_size_of_mem_sizes hold hequal (hinv.sent before hbefore) i).le
      · exact hstored.ge
      · rw [hstored]
        exact size_mem_sizes i
  | found =>
      rw [hphase] at hok
      obtain ⟨block, hblock⟩ := Option.isSome_iff_exists.mp hok
      obtain ⟨block', hblock', hstored⟩ := stSize_overwrite (updates i) hblock
      apply hinv.store hblock'
      · intro before hbefore
        rw [hstored, Option.some.inj (hbefore.symm.trans hblock)]
        exact le_max_right _ _
      · rw [hstored]
        exact le_max_left _ _
      · rw [hstored]
        rcases max_choice (updates i).size (stSize block.data) with hmax | hmax
        · rw [hmax]
          exact size_mem_sizes i
        · rw [hmax]
          exact hinv.sent block hblock
  | done =>
      rw [hphase] at hok
      exact hinv.quiet rfl hok

theorem Inv.start (uri : CString) (server : DataServer) (updates : Fin n → StatUpdate) :
    Inv uri server updates ⟨server, fun _ => .start⟩ := by
  refine ⟨fun _ => trivial, Grows.refl _, ?_⟩
  intro block hblock
  exact Or.inr ⟨block, hblock, rfl⟩

/-- When all threads are done, the stored size is the largest one. -/
theorem Inv.largest (hinv : Inv uri server updates state) (hdone : ∀ i, state.phase i = .done)
    (hsizes : (sizes uri server updates).Nonempty) :
    ∃ block, state.shared.get (blockKey uri 0) = some block ∧
      IsGreatest (sizes uri server updates) (stSize block.data) := by
  have hok : ∀ i, ∃ block, state.shared.get (blockKey uri 0) = some block ∧
      (updates i).size ≤ stSize block.data := by
    intro i
    have hphase := hinv.phases i
    rw [hdone i] at hphase
    exact hphase
  -- the block is at least as large as any one of the sizes
  have hbound : ∀ s ∈ sizes uri server updates, ∃ block,
      state.shared.get (blockKey uri 0) = some block ∧ s ≤ stSize block.data := by
    rintro s (⟨i, rfl⟩ | ⟨old, hold, rfl⟩)
    · exact hok i
    · exact hinv.grown old hold
  obtain ⟨s, hs⟩ := hsizes
  obtain ⟨block, hblock, _⟩ := hbound s hs
  refine ⟨block, hblock, hinv.sent block hblock, ?_⟩
  intro s' hs'
  obtain ⟨block', hblock', hle⟩ := hbound s' hs'
  rwa [Option.some.inj (hblock'.symm.trans hblock)] at hle

/-! ## A race for the first record -/

/-- A thread looks and receives first, the others handle their requests, and then it stores. -/
def slowest (j : Fin n) : List (Fin n) :=
  let others := (List.finRange n).filter (· ≠ j)
  [j, j] ++ ((others ++ others ++ others) ++ [j])

theorem done_slowest (config : ServerConfig) (uri : CString) (server : DataServer)
    (updates : Fin n → StatUpdate) (j k : Fin n) :
    (after config uri server updates (slowest j)).phase k = .done := by
  apply WriteJob.done_of_count
  simp only [slowest, List.count_append]
  by_cases hk : k = j
  · subst hk
    have hends : List.count k [k, k] = 2 ∧ List.count k [k] = 1 := by simp
    omega
  · have hother : 0 < List.count k ((List.finRange n).filter (· ≠ j)) := by
      rw [List.count_pos_iff]
      simpa using hk
    omega

/-- The thread that was overtaken stores its own size. -/
theorem stSize_slowest (hnone : server.get (blockKey uri 0) = none) (config : ServerConfig)
    (updates : Fin n → StatUpdate) (j : Fin n) :
    ∃ block, (after config uri server updates (slowest j)).shared.get (blockKey uri 0) =
      some block ∧ stSize block.data = (updates j).size := by
  obtain ⟨buffer, size, reused, hreceived, hsize⟩ :=
    stSize_receive (updates j) config (blockKey uri 0) server
  rw [after, slowest, interleave_append, interleave_append]
  set step := fun i => (updates i).job.step config (blockKey uri 0) with hstep
  have hphase : (interleave step [j, j] ⟨server, fun _ => .start⟩).phase j =
      .received buffer size reused := by
    rw [← hreceived]
    simp only [interleave_cons, interleave_nil, shared_next, phase_next_self, hstep, WriteJob.step,
      hnone, Option.isSome_none, Bool.false_eq_true, if_false]
  -- the others leave the phase of the thread as it is
  set last := interleave step _ (interleave step [j, j] _) with hlast
  have hphase' : last.phase j = .received buffer size reused := by
    rw [hlast, phase_interleave_of_notMem (by simp), hphase]
  obtain ⟨block, hblock, hstored⟩ :=
    stSize_commit (updates j) config (blockKey uri 0) last.shared buffer size reused
  refine ⟨block, ?_, hstored.trans hsize⟩
  rw [interleave_cons, interleave_nil, shared_next, hphase']
  exact hblock

theorem not_largestStored {i j : Fin n} (hnone : server.get (blockKey uri 0) = none)
    (hlt : (updates j).size < (updates i).size) : ¬ LargestStored config uri server updates := by
  intro hlargest
  obtain ⟨block, hblock, hsize⟩ := stSize_slowest hnone config updates j
  obtain ⟨block', hblock', _, hgreatest⟩ :=
    hlargest (slowest j) (done_slowest config uri server updates j) ⟨_, size_mem_sizes i⟩
  obtain rfl := Option.some.inj (hblock.symm.trans hblock')
  rw [hsize] at hgreatest
  exact absurd (hgreatest (size_mem_sizes i)) hlt.not_ge

variable (config uri server updates) in
/-- The largest size is stored in every order of the steps if and only if the file was stored before
or all sizes are equal. -/
theorem largestStored_iff :
    LargestStored config uri server updates ↔
      (server.get (blockKey uri 0)).isSome ∨ ∀ i j, (updates i).size = (updates j).size := by
  constructor
  · intro hlargest
    by_contra hcond
    rw [not_or, Bool.not_eq_true, Option.isSome_eq_false_iff, Option.isNone_iff_eq_none] at hcond
    obtain ⟨hnone, hequal⟩ := hcond
    apply hequal
    intro i j
    rcases lt_trichotomy (updates i).size (updates j).size with hlt | heq | hgt
    · exact absurd hlargest (not_largestStored hnone hlt)
    · exact heq
    · exact absurd hlargest (not_largestStored hnone hgt)
  · intro hcond schedule hdone hsizes
    have hinv : Inv uri server updates (after config uri server updates schedule) :=
      interleave_invariant (fun _ i hinv => hinv.next hcond i) schedule
        (Inv.start uri server updates)
    exact hinv.largest hdone hsizes

end StatUpdate

/-! ## Two clients -/

/-- Two clients that have written 1 and 2 bytes to a new file. -/
def firstRecords : Fin 2 → StatUpdate :=
  fun i => ⟨setStSize (fun _ => 0) (i.val + 1), fun _ => 0⟩

/-- The client with the smaller size looks first and stores last: 1 is stored instead of 2. -/
theorem not_largestStored_firstRecords :
    (∀ i, (StatUpdate.after ⟨4096, 2 ^ 20⟩ exampleFile.1 (DataServer.init imssRoot) firstRecords
      [0, 0, 1, 1, 1, 0]).phase i = .done) ∧
    ((StatUpdate.after ⟨4096, 2 ^ 20⟩ exampleFile.1 (DataServer.init imssRoot) firstRecords
      [0, 0, 1, 1, 1, 0]).shared.get (blockKey exampleFile.1 0)).map
        (fun block => stSize block.data) = some 1 ∧
    (firstRecords 0).size = 1 ∧ (firstRecords 1).size = 2 ∧
    ¬ StatUpdate.LargestStored ⟨4096, 2 ^ 20⟩ exampleFile.1 (DataServer.init imssRoot)
      firstRecords := by
  have hsizes : (firstRecords 0).size = 1 ∧ (firstRecords 1).size = 2 := by decide +kernel
  refine ⟨?_, by decide +kernel, hsizes.1, hsizes.2, ?_⟩
  · rw [Fin.forall_fin_two]
    exact ⟨WriteJob.done_of_count (Nat.le_refl 3), WriteJob.done_of_count (Nat.le_refl 3)⟩
  · have hnone : (DataServer.init imssRoot).get (blockKey exampleFile.1 0) = none :=
      HierarchicalRecords.hierarchicalMapGet_init imssRoot _
    have hlt : (firstRecords 0).size < (firstRecords 1).size := by
      rw [hsizes.1, hsizes.2]
      decide
    exact StatUpdate.not_largestStored hnone hlt

end Hercules
