/-
# The count of occupied memory

A data server counts the bytes of its block buffers. The threads that store blocks, the
deletions and the passes of the garbage collector are taken in any order. A thread that
inserts a block holds `memory_protect` from its second look to the insertion; the count is
raised before the insertion, and a pass does not take the lock, so it may come in between.

A buffer counts from the moment its insertion is certain until it is freed, also while it
is in the pool or has been taken from it. The count goes wrong when a thread that has
taken a buffer from the pool loses the race for the insertion (the buffer is freed and
still counts), when a block is inserted above the maximum (it does not count, but its
bytes are subtracted later), and when a pass frees 2 GiB or more of one directory.
-/

import Mathlib.Data.Fintype.Basic
import Hercules.Lib.Family
import Hercules.Lib.Run
import Hercules.Server.Held
import Hercules.Server.Threads

namespace Hercules

open Lib Lib.Text

universe u

/-- The settings of a server whose storage is at most the memory of a machine. -/
structure MachineConfig extends ServerConfig where
  fits : maxStorageSize < 2 ^ 63

/-- The key, the request and the progress of a thread that has a block to store. -/
abbrev StoreThread := Option (CString × WriteJob × WritePhase)

/-- A server and its threads; `inserting` is the thread that holds `memory_protect` to insert a
block that is not in the map yet, with its key and block. -/
structure Serving (ι : Type u) where
  server : DataServer
  thread : ι → StoreThread
  inserting : Option (ι × CString × Block)

/-- What happens on the server. -/
inductive ServingAction (ι : Type u)
  | request (i : ι) (key : CString) (job : WriteJob)
  | advance (i : ι)
  | insert
  | delete (uri : CString)
  | unlink (key : CString) (numOpened : Nat)
  | clean

namespace Serving

variable {ι : Type u} [DecidableEq ι]

/-- A server after its start. -/
def start (root : CString) : Serving ι :=
  ⟨DataServer.init root, fun _ => none, none⟩

/-- A thread goes on to its next phase. -/
def move (s : Serving ι) (i : ι) (key : CString) (job : WriteJob)
    (moved : DataServer × WritePhase) :
    Serving ι :=
  { s with server := moved.1, thread := Function.update s.thread i (some (key, job, moved.2)) }

variable (config : ServerConfig)

/-- The second look: for a key that is still unknown, the buffer is counted and the insertion
begins, otherwise the bytes are copied and the buffer is freed. -/
def look (s : Serving ι) (i : ι) (key : CString) (job : WriteJob) (buffer : Memory) (size : Nat)
    (reused : Bool) : Serving ι :=
  match s.server.get key with
  | none =>
      { s.move i key job
          (if reused then s.server else s.server.increaseMemoryOccupied config size, .done) with
        inserting := some (i, key, ⟨buffer, size⟩) }
  | some _ => s.move i key job (job.commit config key s.server buffer size reused, .done)

/-- The next step of a thread; nothing happens while it waits for `memory_protect`. -/
def advance (s : Serving ι) (i : ι) (key : CString) (job : WriteJob) :
    WritePhase → Option (Serving ι)
  | .start => some (s.move i key job (job.step config key s.server .start))
  | .absent => some (s.move i key job (job.step config key s.server .absent))
  | .received buffer size reused =>
      if s.inserting.isSome then none else some (s.look config i key job buffer size reused)
  | .found =>
      if s.inserting.isSome then none
      else some (s.move i key job (job.step config key s.server .found))
  | .done =>
      if s.inserting.map Prod.fst = some i then none
      else some { s with thread := Function.update s.thread i none }

/-- One action, if it is possible. -/
def step (s : Serving ι) : ServingAction ι → Option (Serving ι)
  | .request i key job =>
      match s.thread i with
      | none => some { s with thread := Function.update s.thread i (some (key, job, .start)) }
      | some _ => none
  | .advance i => (s.thread i).bind fun (key, job, phase) => s.advance config i key job phase
  | .insert =>
      s.inserting.map fun (_, key, block) =>
        { s with
          server := { s.server with
            store := s.server.store.hierarchicalMapPut Block.isDirectory key block
              (isBlockZero key) }
          inserting := none }
  | .delete uri => some { s with server := (s.server.delete uri).2 }
  | .unlink key numOpened =>
      (s.server.unlink key numOpened).map fun answered => { s with server := answered.2 }
  | .clean => some { s with server := s.server.cleanGarbageCollector config }

/-- The second look of a thread does no harm to the count: a new buffer that is counted stays below
the maximum, and a thread that loses the race has not taken its buffer from the pool. -/
def CarefulThread (server : DataServer) : StoreThread → Prop
  | some (key, _, .received _ size reused) =>
      if (server.get key).isSome then reused = false
      else reused = true ∨ server.quantityOccupied + size ≤ config.maxStorageSize
  | _ => True

/-- Nothing goes wrong with the count at this step: second looks do no harm, and a pass frees fewer
than 2 GiB of each directory. -/
def Careful (s : Serving ι) : ServingAction ι → Prop
  | .advance i => CarefulThread config s.server (s.thread i)
  | .clean => s.server.PassFits config
  | _ => True

instance (server : DataServer) : (thread : StoreThread) →
    Decidable (CarefulThread config server thread)
  | some (key, _, .received _ size reused) =>
      inferInstanceAs (Decidable (if (server.get key).isSome then reused = false
        else reused = true ∨ server.quantityOccupied + size ≤ config.maxStorageSize))
  | none | some (_, _, .start) | some (_, _, .absent) | some (_, _, .found)
  | some (_, _, .done) => isTrue trivial

instance (s : Serving ι) : (action : ServingAction ι) → Decidable (s.Careful config action)
  | .advance i => inferInstanceAs (Decidable (CarefulThread config s.server (s.thread i)))
  | .clean => inferInstanceAs (Decidable (s.server.PassFits config))
  | .request .. | .insert | .delete _ | .unlink .. => isTrue trivial

/-- The bytes of a buffer from the pool that a thread has in its hands. -/
def inHand (thread : StoreThread) : Nat :=
  match thread with
  | some (_, _, .received _ size true) => size
  | _ => 0

/-- The bytes that count and are neither in a map nor in the pool. -/
def handBytes [Fintype ι] (s : Serving ι) : Nat :=
  (∑ i, inHand (s.thread i)) + weightOf (fun entry => entry.2.2.size) s.inserting

/-- No thread is at work. -/
structure Settled (s : Serving ι) : Prop where
  threads : ∀ i, s.thread i = none
  inserting : s.inserting = none

/-- The count is the size of the buffers in the maps, in the pool and on their way between the two,
and is not above the maximum. -/
structure Accounted [Fintype ι] (s : Serving ι) : Prop where
  occupied_eq : s.server.quantityOccupied = s.server.heldBytes config + s.handBytes
  settled_eq : s.Settled → s.server.quantityOccupied = s.server.heldBytes config
  occupied_le : s.server.quantityOccupied ≤ config.maxStorageSize

end Serving

/-! ## What the handlers do to the bytes -/

namespace DataServer

variable {config : ServerConfig} {server : DataServer} {key : CString} {block : Block}

/-- A block whose bytes change keeps its size. -/
theorem held_update_data (hsome : server.get key = some block) (data : Memory) :
    (server.store.update key { block with data := data }).held Block.size =
      server.store.held Block.size := by
  have hsum := HierarchicalRecords.held_update Block.size hsome { block with data := data }
  simp only at hsum
  omega

theorem get_popFromGarbageCollector (hsome : server.get key = some block) (key' : CString) :
    (server.store.hierarchicalMapPopFromGarbageCollector key').hierarchicalMapGet key =
      some block := by
  rw [HierarchicalRecords.hierarchicalMapGet_popFromGarbageCollector]
  exact hsome

theorem heldBytes_writeExisting (hsome : server.get key = some block) (blockOffset : Nat)
    (data : List UInt8) (fresh : Memory) :
    (server.writeExisting key block blockOffset data fresh).heldBytes config =
      server.heldBytes config := by
  rw [writeExisting]
  split
  · have hsum := HierarchicalRecords.held_update Block.size
      (get_popFromGarbageCollector hsome key)
      { block with
        data := block.data.store blockOffset
          ((mergeStat block.data (fresh.store 0 data)).load 0 data.length) }
    rw [HierarchicalRecords.held_popFromGarbageCollector] at hsum
    simp only [heldBytes] at hsum ⊢
    omega
  · rw [heldBytes, held_update_data hsome, heldBytes]

theorem heldBytes_unlink (config : ServerConfig) {numOpened : Nat} {answered : Reply × DataServer}
    (hunlink : server.unlink key numOpened = some answered) :
    answered.2.heldBytes config = server.heldBytes config ∧
      answered.2.quantityOccupied = server.quantityOccupied := by
  rw [unlink] at hunlink
  cases hget : server.get key with
  | none =>
      rw [hget] at hunlink
      cases hunlink
  | some block =>
      rw [hget] at hunlink
      simp only at hunlink
      split at hunlink
      · cases hunlink
        refine ⟨?_, rfl⟩
        rw [heldBytes, HierarchicalRecords.held_putInGarbageCollector, held_update_data hget,
          heldBytes]
      · cases hunlink
        refine ⟨?_, rfl⟩
        rw [heldBytes, held_update_data hget, heldBytes]

theorem get_unlink_of_none {numOpened : Nat} {answered : Reply × DataServer} {key' : CString}
    (hunlink : server.unlink key numOpened = some answered) (hnone : server.get key' = none) :
    answered.2.get key' = none := by
  obtain ⟨block, links, hsome, hstore⟩ := unlink_cases hunlink
  have hne : key ≠ key' := by
    rintro rfl
    rw [hnone] at hsome
    cases hsome
  rcases hstore with hstore | hstore
  · rw [get, hstore, HierarchicalRecords.hierarchicalMapGet_update_of_ne _ hne]
    exact hnone
  · rw [get, hstore, HierarchicalRecords.hierarchicalMapGet_putInGarbageCollector,
      HierarchicalRecords.hierarchicalMapGet_update_of_ne _ hne]
    exact hnone

end DataServer

namespace WriteJob

variable {config : ServerConfig} {key : CString} {server : DataServer} {block : Block}

/-- A buffer that comes from the pool is in the hand of the thread. -/
theorem heldBytes_receive (config : ServerConfig) (key : CString) (job : WriteJob)
    (server : DataServer) :
    (job.receive config key server).1.heldBytes config +
        Serving.inHand (some (key, job, (job.receive config key server).2)) =
      server.heldBytes config ∧
    (job.receive config key server).1.quantityOccupied = server.quantityOccupied := by
  by_cases hdata : job.data = []
  · rw [receive, if_pos hdata]
    exact ⟨rfl, rfl⟩
  · rw [receive, if_neg hdata]
    refine ⟨?_, rfl⟩
    rw [DataServer.allocate]
    cases isBlockZero key with
    | true => rfl
    | false =>
        cases hpool : server.memPool with
        | nil =>
            simp only [Bool.false_eq_true, if_false, Serving.inHand, DataServer.heldBytes, hpool,
              Nat.add_zero]
        | cons buffer pool =>
            simp only [Bool.false_eq_true, if_false, Serving.inHand, DataServer.heldBytes, hpool,
              List.length_cons, Nat.mul_succ]
            omega

theorem heldBytes_commit_some (config : ServerConfig) (hsome : server.get key = some block)
    (job : WriteJob) (buffer : Memory) (size : Nat) (reused : Bool) :
    (job.commit config key server buffer size reused).heldBytes config = server.heldBytes config ∧
      (job.commit config key server buffer size reused).quantityOccupied =
        server.quantityOccupied := by
  rw [commit, hsome]
  refine ⟨?_, rfl⟩
  rw [DataServer.heldBytes, DataServer.held_update_data hsome, DataServer.heldBytes]

theorem heldBytes_overwrite (config : ServerConfig) (key : CString) (job : WriteJob)
    (server : DataServer) :
    (job.overwrite key server).heldBytes config = server.heldBytes config ∧
      (job.overwrite key server).quantityOccupied = server.quantityOccupied := by
  cases hget : server.get key with
  | none =>
      rw [overwrite, hget]
      exact ⟨rfl, rfl⟩
  | some block =>
      by_cases hdata : job.data = []
      · rw [overwrite, hget]
        simp only [if_pos hdata]
        split
        · refine ⟨?_, rfl⟩
          rw [DataServer.heldBytes, HierarchicalRecords.held_popFromGarbageCollector,
            DataServer.heldBytes]
        · exact ⟨rfl, rfl⟩
      · rw [overwrite_of_some hget hdata]
        refine ⟨DataServer.heldBytes_writeExisting hget _ _ _, ?_⟩
        rw [DataServer.writeExisting]
        split <;> rfl

end WriteJob

/-! ## The count along a run -/

namespace Serving

variable {ι : Type u} [Fintype ι] {config : ServerConfig} {s s' : Serving ι} {i : ι}
  {key : CString} {job : WriteJob}

variable (config) in
/-- The count is right, and the block that is being inserted is not in the map yet. -/
structure Inv (s : Serving ι) : Prop where
  occupied_eq : s.server.quantityOccupied = s.server.heldBytes config + s.handBytes
  occupied_le : s.server.quantityOccupied ≤ config.maxStorageSize
  inserting_new : ∀ i key block, s.inserting = some (i, key, block) → s.server.get key = none

theorem Inv.start (config : ServerConfig) (root : CString) :
    (start root : Serving ι).Inv config := by
  refine ⟨?_, ?_, ?_⟩
  · have hheld : (DataServer.init root).heldBytes config = 0 :=
      HierarchicalRecords.held_init Block.size root
    have hhand : (Serving.start root : Serving ι).handBytes = 0 := by
      have hidle : ∀ i ∈ Finset.univ, inHand ((Serving.start root : Serving ι).thread i) = 0 :=
        fun _ _ => rfl
      rw [handBytes, Finset.sum_eq_zero hidle]
      rfl
    rw [hhand]
    change (0 : Int) = ((DataServer.init root).heldBytes config : Int) + (0 : Nat)
    rw [hheld]
    rfl
  · exact Int.natCast_nonneg _
  · intro i key block hinserting
    cases hinserting

/-- A server that keeps its bytes and its count. -/
theorem Inv.of_server {server : DataServer} (hinv : s.Inv config)
    (hbytes : server.heldBytes config = s.server.heldBytes config)
    (hcount : server.quantityOccupied = s.server.quantityOccupied)
    (hnew : ∀ key, s.server.get key = none → server.get key = none) :
    Inv config { s with server := server } := by
  refine ⟨?_, ?_, ?_⟩
  · rw [hcount, hbytes]
    exact hinv.occupied_eq
  · rw [hcount]
    exact hinv.occupied_le
  · intro i key block hinserting
    exact hnew key (hinv.inserting_new i key block hinserting)

/-- The insertion of a block that counts already. -/
theorem Inv.insert {block : Block} (hinv : s.Inv config)
    (hinserting : s.inserting = some (i, key, block)) :
    Inv config { s with
      server := { s.server with
        store := s.server.store.hierarchicalMapPut Block.isDirectory key block (isBlockZero key) }
      inserting := none } := by
  have hnew := hinv.inserting_new i key block hinserting
  have hheld := HierarchicalRecords.held_put Block.size Block.isDirectory hnew block
    (isBlockZero key)
  have hoccupied := hinv.occupied_eq
  rw [handBytes, hinserting, weightOf_some] at hoccupied
  refine ⟨?_, hinv.occupied_le, ?_⟩
  · simp only [handBytes, weightOf_none, DataServer.heldBytes, hheld] at hoccupied ⊢
    omega
  · intro j key' block' hnone
    cases hnone

/-- A careful pass. -/
theorem Inv.clean (hinv : s.Inv config) (hmax : config.maxStorageSize < 2 ^ 63)
    (hfits : s.server.PassFits config) :
    Inv config { s with server := s.server.cleanGarbageCollector config } := by
  have hoccupied := hinv.occupied_eq
  have hle := hinv.occupied_le
  have hbytes : s.server.heldBytes config < 2 ^ 63 := Nat.lt_of_le_of_lt (by omega) hmax
  obtain ⟨hpass, hless⟩ := DataServer.heldBytes_cleanGarbageCollector hfits hbytes (by omega)
  refine ⟨?_, ?_, ?_⟩
  · simp only [handBytes] at hoccupied ⊢
    omega
  · simp only
    omega
  · intro i key block hinserting
    simp only [DataServer.get_cleanGarbageCollector, hinv.inserting_new i key block hinserting,
      ite_self]

theorem Inv.accounted (hinv : s.Inv config) : s.Accounted config := by
  refine ⟨hinv.occupied_eq, ?_, hinv.occupied_le⟩
  rintro ⟨hthreads, hinserting⟩
  have hidle : ∀ i ∈ Finset.univ, inHand (s.thread i) = 0 := by
    intro i _
    rw [hthreads i]
    rfl
  have hhand : s.handBytes = 0 := by
    rw [handBytes, Finset.sum_eq_zero hidle, hinserting, weightOf_none]
  rw [hinv.occupied_eq, hhand]
  exact Int.add_zero _

variable [DecidableEq ι]

theorem inHand_update (s : Serving ι) (i : ι) (thread : StoreThread) :
    (∑ j, inHand (Function.update s.thread i thread j)) + inHand (s.thread i) =
      (∑ j, inHand (s.thread j)) + inHand thread :=
  Family.sum_update inHand s.thread i thread

/-- A thread that moves bytes between the pool and its hand. -/
theorem Inv.of_thread {server : DataServer} {thread : StoreThread} (hinv : s.Inv config)
    (hbytes : server.heldBytes config + inHand thread =
      s.server.heldBytes config + inHand (s.thread i))
    (hcount : server.quantityOccupied = s.server.quantityOccupied)
    (hnew : s.inserting = none ∨ ∀ key, server.get key = s.server.get key) :
    Inv config { s with server := server, thread := Function.update s.thread i thread } := by
  have hsum := inHand_update s i thread
  have hoccupied := hinv.occupied_eq
  refine ⟨?_, ?_, ?_⟩
  · rw [handBytes] at hoccupied ⊢
    simp only
    omega
  · rw [hcount]
    exact hinv.occupied_le
  · intro j key block hinserting
    rcases hnew with hnone | hsame
    · rw [hnone] at hinserting
      cases hinserting
    · rw [hsame]
      exact hinv.inserting_new j key block hinserting

/-- The second look, if it is careful. -/
theorem Inv.look {buffer : Memory} {size : Nat} {reused : Bool} (hinv : s.Inv config)
    (hthread : s.thread i = some (key, job, .received buffer size reused))
    (hcareful : s.Careful config (.advance i)) (hfree : s.inserting = none) :
    (s.look config i key job buffer size reused).Inv config := by
  have hsum := inHand_update s i (some (key, job, .done))
  have hdone : inHand (some (key, job, .done)) = 0 := rfl
  have hoccupied := hinv.occupied_eq
  rw [Careful, hthread, CarefulThread] at hcareful
  rw [Serving.look]
  cases hget : s.server.get key with
  | none =>
      rw [handBytes, hfree, weightOf_none] at hoccupied
      simp only [hget, Option.isSome_none, Bool.false_eq_true, if_false] at hcareful
      cases reused with
      | true =>
          have hhand : inHand (s.thread i) = size := by rw [hthread]; rfl
          refine ⟨?_, hinv.occupied_le, ?_⟩
          · simp only [move, if_true, handBytes, weightOf_some]
            omega
          · rintro j key' block hinserting
            cases hinserting
            exact hget
      | false =>
          have hhand : inHand (s.thread i) = 0 := by rw [hthread]; rfl
          have hbelow : s.server.quantityOccupied + size ≤ config.maxStorageSize := by
            rcases hcareful with hreused | hbelow
            · cases hreused
            · exact hbelow
          simp only [move, Bool.false_eq_true, if_false, DataServer.increaseMemoryOccupied,
            if_neg (not_lt.mpr hbelow)]
          refine ⟨?_, hbelow, ?_⟩
          · simp only [handBytes, weightOf_some, DataServer.heldBytes] at hoccupied ⊢
            omega
          · rintro j key' block hinserting
            cases hinserting
            exact hget
  | some block =>
      simp only [hget, Option.isSome_some, if_true] at hcareful
      subst hcareful
      obtain ⟨hbytes, hcount⟩ := WriteJob.heldBytes_commit_some config hget job buffer size false
      apply hinv.of_thread
      · rw [hbytes, hthread]
        rfl
      · exact hcount
      · exact Or.inl hfree

/-- A careful step of a thread. -/
theorem Inv.advance {phase : WritePhase} (hinv : s.Inv config)
    (hthread : s.thread i = some (key, job, phase)) (hcareful : s.Careful config (.advance i))
    (hadvance : s.advance config i key job phase = some s') : s'.Inv config := by
  cases phase with
  | start =>
      cases hadvance
      apply hinv.of_thread
      · rw [hthread, WriteJob.step]
        split <;> rfl
      · rfl
      · exact Or.inr fun _ => rfl
  | absent =>
      cases hadvance
      obtain ⟨hbytes, hcount⟩ := WriteJob.heldBytes_receive config key job s.server
      apply hinv.of_thread
      · rw [hthread]
        exact hbytes
      · exact hcount
      · exact Or.inr fun key' => WriteJob.get_receive config job s.server key'
  | received buffer size reused =>
      rw [Serving.advance] at hadvance
      split at hadvance
      next => cases hadvance
      next hfree =>
        cases hadvance
        rw [Bool.not_eq_true, Option.isSome_eq_false_iff, Option.isNone_iff_eq_none] at hfree
        exact hinv.look hthread hcareful hfree
  | found =>
      rw [Serving.advance] at hadvance
      split at hadvance
      next => cases hadvance
      next hfree =>
        cases hadvance
        rw [Bool.not_eq_true, Option.isSome_eq_false_iff, Option.isNone_iff_eq_none] at hfree
        obtain ⟨hbytes, hcount⟩ := WriteJob.heldBytes_overwrite config key job s.server
        apply hinv.of_thread
        · rw [hthread]
          exact hbytes
        · exact hcount
        · exact Or.inl hfree
  | done =>
      rw [Serving.advance] at hadvance
      split at hadvance
      next => cases hadvance
      next =>
        cases hadvance
        apply hinv.of_thread
        · rw [hthread]
          rfl
        · rfl
        · exact Or.inr fun _ => rfl

/-- Every careful step keeps the count right. -/
theorem Inv.step {action : ServingAction ι} (hmax : config.maxStorageSize < 2 ^ 63)
    (hinv : s.Inv config) (hcareful : s.Careful config action)
    (hstep : s.step config action = some s') : s'.Inv config := by
  cases action with
  | request i key job =>
      rw [Serving.step] at hstep
      split at hstep
      next hidle =>
        cases hstep
        apply hinv.of_thread
        · rw [hidle]
          rfl
        · rfl
        · exact Or.inr fun _ => rfl
      next => cases hstep
  | advance i =>
      rw [Serving.step, Option.bind_eq_some_iff] at hstep
      obtain ⟨⟨key, job, phase⟩, hthread, hadvance⟩ := hstep
      exact hinv.advance hthread hcareful hadvance
  | insert =>
      rw [Serving.step, Option.map_eq_some_iff] at hstep
      obtain ⟨⟨i, key, block⟩, hinserting, rfl⟩ := hstep
      exact hinv.insert hinserting
  | delete uri =>
      cases hstep
      apply hinv.of_server
      · rw [DataServer.heldBytes, DataServer.delete, HierarchicalRecords.held_putInGarbageCollector,
          DataServer.heldBytes]
      · rfl
      · intro key hnone
        rw [DataServer.get_delete]
        exact hnone
  | unlink key numOpened =>
      rw [Serving.step, Option.map_eq_some_iff] at hstep
      obtain ⟨answered, hunlink, rfl⟩ := hstep
      obtain ⟨hbytes, hcount⟩ := DataServer.heldBytes_unlink config hunlink
      apply hinv.of_server hbytes hcount
      intro key' hnone
      exact DataServer.get_unlink_of_none hunlink hnone
  | clean =>
      cases hstep
      exact hinv.clean hmax hcareful

end Serving

/-- In every run of a server with any number of threads whose steps are careful, the count is the
size of the buffers that are allocated and not freed, and is not above the maximum. -/
theorem occupied_accounted {ι : Type u} [DecidableEq ι] [Fintype ι] (config : MachineConfig)
    (root : CString) (actions : List (ServingAction ι)) (s : Serving ι)
    (hcareful : Along (Serving.step config.toServerConfig) (Serving.Careful config.toServerConfig)
      actions (Serving.start root))
    (hrun : run (Serving.step config.toServerConfig) actions (Serving.start root) = some s) :
    s.Accounted config.toServerConfig := by
  have hinv : s.Inv config.toServerConfig :=
    Along.invariant (fun _ _ _ hinv hcareful hstep => hinv.step config.fits hcareful hstep) hcareful
      (Serving.Inv.start config.toServerConfig root) hrun
  exact hinv.accounted

/-- A thread stores a block from its first look to its reply, with nothing in between. -/
def storeActions {ι : Type u} (i : ι) (key : CString) : List (ServingAction ι) :=
  [.request i key ⟨0, [1], fun _ => 0⟩, .advance i, .advance i, .advance i, .insert, .advance i]

/-- A block is stored, updated, deleted and collected; its buffer is in the pool then. -/
def oneBlockActions : List (ServingAction (Fin 1)) :=
  storeActions 0 (blockKey exampleFile.1 1) ++
    [.request 0 (blockKey exampleFile.1 1) ⟨0, [2], fun _ => 0⟩, .advance 0, .advance 0, .advance 0,
      .delete exampleFile.1, .clean]

/-- The settings with blocks of 4 bytes and a maximum of 100. -/
def smallConfig : MachineConfig :=
  ⟨⟨4, 100⟩, by decide⟩

theorem occupied_accounted_oneBlock :
    ∃ s, run (Serving.step smallConfig.toServerConfig) oneBlockActions (Serving.start imssRoot) =
      some s ∧ s.Accounted smallConfig.toServerConfig := by
  have hrun : (run (Serving.step smallConfig.toServerConfig) oneBlockActions
      (Serving.start imssRoot)).isSome := by decide +kernel
  obtain ⟨s, hs⟩ := Option.isSome_iff_exists.mp hrun
  have hcareful : Along (Serving.step smallConfig.toServerConfig)
      (Serving.Careful smallConfig.toServerConfig) oneBlockActions (Serving.start imssRoot) := by
    decide +kernel
  exact ⟨s, hs, occupied_accounted smallConfig imssRoot oneBlockActions s hcareful hs⟩

/-- The buffer of a collected block is taken from the pool by a thread that then loses the race for
another block. -/
def lostRaceActions {ι : Type u} (slow fast : ι) : List (ServingAction ι) :=
  storeActions slow (blockKey exampleFile.1 1) ++ [.delete exampleFile.1, .clean,
    .request slow (blockKey exampleFile.1 2) ⟨0, [1], fun _ => 0⟩, .advance slow, .advance slow] ++
    storeActions fast (blockKey exampleFile.1 2) ++ [.advance slow]

/-- A block of 4 bytes above a maximum of 3 does not count; after a lost race the freed buffer of 4
bytes still does. -/
theorem not_occupied_accounted :
    (∃ s, run (Serving.step ⟨4, 3⟩) (storeActions (0 : Fin 1) (blockKey exampleFile.1 1))
      (Serving.start imssRoot) = some s ∧ s.server.quantityOccupied = 0 ∧
        s.server.heldBytes ⟨4, 3⟩ = 4 ∧ ¬ s.Accounted ⟨4, 3⟩) ∧
    ∃ s, run (Serving.step ⟨4, 100⟩) (lostRaceActions (0 : Fin 2) 1)
      (Serving.start imssRoot) = some s ∧
      s.server.quantityOccupied = 8 ∧ s.server.heldBytes ⟨4, 100⟩ = 4 ∧ s.handBytes = 0 ∧
        ¬ s.Accounted ⟨4, 100⟩ := by
  have habove : (run (Serving.step ⟨4, 3⟩) (storeActions (0 : Fin 1) (blockKey exampleFile.1 1))
      (Serving.start imssRoot)).map (fun s => (s.server.quantityOccupied,
        s.server.heldBytes ⟨4, 3⟩)) = some (0, 4) := by decide +kernel
  have hlost : (run (Serving.step ⟨4, 100⟩) (lostRaceActions (0 : Fin 2) 1)
      (Serving.start imssRoot)).map
      (fun s => (s.server.quantityOccupied, s.server.heldBytes ⟨4, 100⟩, s.handBytes)) =
        some (8, 4, 0) := by decide +kernel
  obtain ⟨s, hs, hvalues⟩ := Option.map_eq_some_iff.mp habove
  obtain ⟨s', hs', hvalues'⟩ := Option.map_eq_some_iff.mp hlost
  obtain ⟨hcount, hheld⟩ := Prod.mk.inj hvalues
  obtain ⟨hcount', hrest⟩ := Prod.mk.inj hvalues'
  obtain ⟨hheld', hhand⟩ := Prod.mk.inj hrest
  refine ⟨⟨s, hs, hcount, hheld, ?_⟩, ⟨s', hs', hcount', hheld', hhand, ?_⟩⟩
  · intro haccounted
    have hocc := haccounted.occupied_eq
    omega
  · intro haccounted
    have hocc := haccounted.occupied_eq
    omega

end Hercules
