/-
# Placement while servers are added

A client places the blocks of a dataset on the data servers it knows of, and that
number grows. `get_data_location` uses the number recorded for the block's interval
if there is one, and the present number otherwise. The functions that go on from
there to the other copies do not all use the same number.
-/

import Hercules.Intervals
import Hercules.Lib.Run
import Hercules.Policies

namespace Hercules

open Lib Lib.Text

/-- The fields of a client's `dataset_info` that the placement of its blocks depends
on. -/
structure ElasticDataset where
  originalName : CString
  policy : Policy
  replFactor : Nat
  intervals : List IntervalEntry
  firstBlockId : Int
  lastBlockId : Int

namespace ElasticDataset

/-- The number of servers with which `get_data_location` looks for a block;
`numStorages` is the present number. -/
def numStoragesFor (dataset : ElasticDataset) (numStorages : Nat) (dataId : Int) : Nat :=
  (getValueFromInterval dataset.intervals dataId).getD numStorages

/-- `get_data_location`; `stack` is what the CRC policies hash. -/
def getDataLocation (dataset : ElasticDataset) (stack : CString) (numStorages : Nat)
    (dataId : Int) : Option Nat :=
  findServer stack (dataset.numStoragesFor numStorages dataId) dataId dataset.originalName
    dataset.policy

/-- The servers that a function addresses: it counts the copies from the location
of the block among `count` servers, and does nothing without a location. -/
def copies (dataset : ElasticDataset) (location : Option Nat) (count : Nat) : List Nat :=
  match location with
  | none => []
  | some first => replicaServers count dataset.replFactor first

/-- The servers to which `set_data` writes a block. -/
def setTargets (dataset : ElasticDataset) (stack : CString) (numStorages : Nat) (dataId : Int) :
    List Nat :=
  dataset.copies (dataset.getDataLocation stack numStorages dataId) numStorages

/-- The servers that `get_ndata` may ask: it counts with the number for the block. -/
def getTargets (dataset : ElasticDataset) (stack : CString) (numStorages : Nat) (dataId : Int) :
    List Nat :=
  dataset.copies (dataset.getDataLocation stack numStorages dataId)
    (dataset.numStoragesFor numStorages dataId)

/-- The next entry of `repl_servers`: the local server changes places with the first
one. -/
def pushServer (localConn : Int) (servers : List Nat) (server : Nat) : List Nat :=
  match servers with
  | [] => [server]
  | first :: rest =>
      if (server : Int) = localConn then server :: rest ++ [first] else servers ++ [server]

/-- `repl_servers` as a request is sent to its entries. -/
def localFirst (localConn : Int) (servers : List Nat) : List Nat :=
  servers.foldl (pushServer localConn) []

/-- The servers to which `rename_dataset_srv_worker` sends a request. -/
def renameTargets (dataset : ElasticDataset) (localConn : Int) (stack : CString)
    (numStorages : Nat) (dataId : Int) : List Nat :=
  localFirst localConn
    (dataset.copies (dataset.getDataLocation stack numStorages dataId) numStorages)

/-- The servers to which `delete_dataset_srv_worker` sends a request. -/
def deleteTargets (dataset : ElasticDataset) (localConn : Int) (stack : CString)
    (numStorages : Nat) (dataId : Int) : List Nat :=
  localFirst localConn
    (dataset.copies (dataset.getDataLocation stack numStorages dataId) numStorages)

/-- The four functions address the same servers. -/
def ReplicasAgree (dataset : ElasticDataset) (localConn : Int) (stack : CString)
    (numStorages : Nat) (dataId : Int) : Prop :=
  ∀ server,
    (server ∈ dataset.setTargets stack numStorages dataId ↔
      server ∈ dataset.getTargets stack numStorages dataId) ∧
    (server ∈ dataset.setTargets stack numStorages dataId ↔
      server ∈ dataset.renameTargets localConn stack numStorages dataId) ∧
    (server ∈ dataset.setTargets stack numStorages dataId ↔
      server ∈ dataset.deleteTargets localConn stack numStorages dataId)

end ElasticDataset

/-! ## Copies among two numbers of servers -/

section Copies

variable {count count' replFactor first : Nat}

/-- Without the last step the copies stay within one turn. -/
theorem mul_div_lt {i : Nat} (hcount : 0 < count) (hi : i < replFactor) :
    i * (count / replFactor) < count := by
  have hturn := Nat.mul_div_le count replFactor
  have hnext : (i + 1) * (count / replFactor) ≤ replFactor * (count / replFactor) :=
    Nat.mul_le_mul_right _ hi
  rw [Nat.succ_mul] at hnext
  rcases Nat.eq_zero_or_pos (count / replFactor) with hzero | hpos
  · rwa [hzero, Nat.mul_zero]
  · omega

/-- A copy is counted over the last server at most once. -/
theorem replicaServer_eq {i : Nat} (hfirst : first < count) (hi : i < replFactor) :
    replicaServer count replFactor first i =
      if first + i * (count / replFactor) < count then first + i * (count / replFactor)
      else first + i * (count / replFactor) - count := by
  have hstep := mul_div_lt (by omega : 0 < count) hi
  rw [replicaServer]
  split
  next hlt => exact Nat.mod_eq_of_lt hlt
  next hge => rw [Nat.mod_eq_sub_mod (by omega), Nat.mod_eq_of_lt (by omega)]

theorem mem_replicaServers_self (hfirst : first < count) (hrepl : 1 ≤ replFactor) :
    first ∈ replicaServers count replFactor first := by
  refine mem_replicaServers.mpr ⟨0, hrepl, ?_⟩
  rw [replicaServer, Nat.zero_mul, Nat.add_zero, Nat.mod_eq_of_lt hfirst]

/-- The copies after the first one that are not counted over the last server. -/
theorem mem_replicaServers_above (hfirst : first < count) {server : Nat} (hs : first < server) :
    server ∈ replicaServers count replFactor first ↔
      ∃ i < replFactor, first + i * (count / replFactor) < count ∧
        server = first + i * (count / replFactor) := by
  rw [mem_replicaServers]
  refine exists_congr fun i => and_congr_right fun hi => ?_
  have hstep := mul_div_lt (by omega : 0 < count) hi
  rw [replicaServer_eq hfirst hi]
  split <;> omega

/-- The copies that are counted over the last server. -/
theorem mem_replicaServers_below (hfirst : first < count) {server : Nat} (hs : server < first) :
    server ∈ replicaServers count replFactor first ↔
      ∃ i < replFactor, count ≤ first + i * (count / replFactor) ∧
        server + count = first + i * (count / replFactor) := by
  rw [mem_replicaServers]
  refine exists_congr fun i => and_congr_right fun hi => ?_
  rw [replicaServer_eq hfirst hi]
  split <;> omega

/-- The copies among `count` and among `count'` servers, counted from the same
server, are on the same servers: there is one copy, or the steps are equal and no
copy is counted over the last server, or both second copies of two are, by the same
distance. -/
def SameCopies (count count' replFactor first : Nat) : Prop :=
  count = count' ∨
    first < count' ∧
      (replFactor = 1 ∨
        count / replFactor = count' / replFactor ∧
          first + (replFactor - 1) * (count / replFactor) < min count count' ∨
        replFactor = 2 ∧ count - count / 2 = count' - count' / 2 ∧
          count ≤ first + count / 2 ∧ count' ≤ first + count' / 2)

theorem mem_replicaServers_of_sameCopies (hfirst : first < count)
    (h : SameCopies count count' replFactor first) (server : Nat) :
    server ∈ replicaServers count replFactor first ↔
      server ∈ replicaServers count' replFactor first := by
  rcases h with rfl | ⟨hfirst', h⟩
  · rfl
  rw [mem_replicaServers, mem_replicaServers]
  refine exists_congr fun i => and_congr_right fun hi => ?_
  rw [replicaServer_eq hfirst hi, replicaServer_eq hfirst' hi]
  rcases h with hone | ⟨hstep, hlast⟩ | ⟨rfl, hdistance, hover, hover'⟩
  · obtain rfl : i = 0 := by omega
    simp [hfirst, hfirst']
  · have hle : i * (count / replFactor) ≤ (replFactor - 1) * (count / replFactor) :=
      Nat.mul_le_mul_right _ (by omega)
    rw [← hstep, if_pos (by omega), if_pos (by omega)]
  · obtain rfl | rfl : i = 0 ∨ i = 1 := by omega
    · simp [hfirst, hfirst']
    · rw [Nat.one_mul, Nat.one_mul, if_neg (by omega), if_neg (by omega)]
      omega

section Converse

variable (hfirst : first < count) (hfirst' : first < count')
  (h : ∀ server, server ∈ replicaServers count replFactor first ↔
    server ∈ replicaServers count' replFactor first)

include hfirst hfirst' h

/-- The nearest copy above the first one gives the step. -/
theorem step_le_of_above (hrepl : 2 ≤ replFactor) (hpos : 0 < count / replFactor)
    (habove : first + count / replFactor < count) :
    count' / replFactor ≤ count / replFactor ∧ first + count' / replFactor < count' := by
  have hmem : first + count / replFactor ∈ replicaServers count replFactor first :=
    (mem_replicaServers_above hfirst (by omega)).mpr ⟨1, hrepl, by omega, by omega⟩
  obtain ⟨j, hj, hlt, heq⟩ := (mem_replicaServers_above hfirst' (by omega)).mp ((h _).mp hmem)
  have hj0 : j ≠ 0 := by
    rintro rfl
    omega
  have hle : count' / replFactor ≤ j * (count' / replFactor) :=
    Nat.le_mul_of_pos_left _ (Nat.pos_of_ne_zero hj0)
  omega

/-- With equal steps, fewer servers leave no room for a turn. -/
theorem last_lt_of_lt (hrepl : 1 ≤ replFactor) (hstep : count / replFactor = count' / replFactor)
    (hlt : count < count') : first + (replFactor - 1) * (count / replFactor) < count := by
  by_contra hover
  have hturn := mul_div_lt (by omega : 0 < count) (by omega : replFactor - 1 < replFactor)
  obtain ⟨last, hlast⟩ : ∃ last, last = (replFactor - 1) * (count / replFactor) := ⟨_, rfl⟩
  rw [← hlast] at hover hturn
  rcases Nat.lt_or_ge (first + last) count' with hin | hout
  · -- the last copy among more servers is a server that the others do not have
    have hmem : first + last ∈ replicaServers count' replFactor first :=
      (mem_replicaServers_above hfirst' (by omega)).mpr
        ⟨replFactor - 1, by omega, by rwa [← hstep, ← hlast], by rw [← hstep, ← hlast]⟩
    obtain ⟨i, -, hi, heq⟩ := (mem_replicaServers_above hfirst (by omega)).mp ((h _).mpr hmem)
    omega
  · -- both last copies are counted over, and by different distances
    have hmem : first + last - count ∈ replicaServers count replFactor first :=
      (mem_replicaServers_below hfirst (by omega)).mpr
        ⟨replFactor - 1, by omega, by omega, by omega⟩
    obtain ⟨j, hj, -, heq⟩ := (mem_replicaServers_below hfirst' (by omega)).mp ((h _).mp hmem)
    have hle : j * (count' / replFactor) ≤ (replFactor - 1) * (count' / replFactor) :=
      Nat.mul_le_mul_right _ (by omega)
    rw [← hstep, ← hlast] at hle
    rw [← hstep] at heq
    omega

/-- If already the second copy is counted over, the nearest and the farthest of the
copies below the first one bound the distances. -/
theorem turn_le_of_below (hrepl : 2 ≤ replFactor)
    (hbelow : count ≤ first + count / replFactor) :
    count + count' / replFactor ≤ count' + count / replFactor ∧
      count' + (replFactor - 1) * (count / replFactor) ≤
        count + (replFactor - 1) * (count' / replFactor) := by
  have hstep := mul_div_lt (by omega : 0 < count) (by omega : 1 < replFactor)
  have hturn := mul_div_lt (by omega : 0 < count) (by omega : replFactor - 1 < replFactor)
  have hsteps : 1 * (count / replFactor) ≤ (replFactor - 1) * (count / replFactor) :=
    Nat.mul_le_mul_right _ (by omega)
  obtain ⟨last, hlast⟩ : ∃ last, last = (replFactor - 1) * (count / replFactor) := ⟨_, rfl⟩
  rw [← hlast] at hturn hsteps ⊢
  constructor
  · have hmem : first + count / replFactor - count ∈ replicaServers count replFactor first :=
      (mem_replicaServers_below hfirst (by omega)).mpr ⟨1, hrepl, by omega, by omega⟩
    obtain ⟨j, -, hover, heq⟩ := (mem_replicaServers_below hfirst' (by omega)).mp ((h _).mp hmem)
    have hj0 : j ≠ 0 := by
      rintro rfl
      omega
    have hle : count' / replFactor ≤ j * (count' / replFactor) :=
      Nat.le_mul_of_pos_left _ (Nat.pos_of_ne_zero hj0)
    omega
  · have hmem : first + last - count ∈ replicaServers count replFactor first :=
      (mem_replicaServers_below hfirst (by omega)).mpr
        ⟨replFactor - 1, by omega, by omega, by omega⟩
    obtain ⟨j, hj, -, heq⟩ := (mem_replicaServers_below hfirst' (by omega)).mp ((h _).mp hmem)
    have hle : j * (count' / replFactor) ≤ (replFactor - 1) * (count' / replFactor) :=
      Nat.mul_le_mul_right _ (by omega)
    omega

end Converse

/-- Conversely the copies agree in no other case. -/
theorem sameCopies_of_mem (hfirst : first < count) (hrepl : 1 ≤ replFactor)
    (hle : replFactor ≤ count')
    (h : ∀ server, server ∈ replicaServers count replFactor first ↔
      server ∈ replicaServers count' replFactor first) :
    SameCopies count count' replFactor first := by
  by_cases hcount : count = count'
  · exact Or.inl hcount
  obtain ⟨i, -, hi⟩ := mem_replicaServers.mp ((h first).mp (mem_replicaServers_self hfirst hrepl))
  have hfirst' : first < count' := by
    rw [← hi]
    exact Nat.mod_lt _ (by omega)
  refine Or.inr ⟨hfirst', ?_⟩
  by_cases hone : replFactor = 1
  · exact Or.inl hone
  have hpos' : 0 < count' / replFactor := Nat.div_pos hle (by omega)
  have hturn' := mul_div_lt (by omega : 0 < count') (by omega : 1 < replFactor)
  -- all copies on one server would leave the second of the others out
  have hpos : 0 < count / replFactor := by
    by_contra hzero
    have hall : ∀ server ∈ replicaServers count replFactor first, server = first := by
      intro server hmem
      obtain ⟨i, -, rfl⟩ := mem_replicaServers.mp hmem
      rw [replicaServer, Nat.eq_zero_of_not_pos hzero, Nat.mul_zero, Nat.add_zero,
        Nat.mod_eq_of_lt hfirst]
    have hsecond := hall _ ((h _).mpr (mem_replicaServers.mpr ⟨1, by omega, rfl⟩))
    rw [replicaServer_eq hfirst' (by omega)] at hsecond
    split at hsecond <;> omega
  have h' := fun server => (h server).symm
  rcases Nat.lt_or_ge (first + count / replFactor) count with habove | hbelow
  · obtain ⟨hge, habove'⟩ := step_le_of_above hfirst hfirst' h (by omega) hpos habove
    obtain ⟨hge', -⟩ := step_le_of_above hfirst' hfirst h' (by omega) hpos' habove'
    have hstep : count / replFactor = count' / replFactor := by omega
    refine Or.inr (Or.inl ⟨hstep, ?_⟩)
    rcases Nat.lt_or_gt_of_ne hcount with hlt | hgt
    · have hlast := last_lt_of_lt hfirst hfirst' h hrepl hstep hlt
      omega
    · have hlast := last_lt_of_lt hfirst' hfirst h' hrepl hstep.symm hgt
      rw [← hstep] at hlast
      omega
  · have hbelow' : count' ≤ first + count' / replFactor := by
      by_contra habove'
      have hback := step_le_of_above hfirst' hfirst h' (by omega) hpos' (by omega)
      omega
    obtain ⟨hnear, hfar⟩ := turn_le_of_below hfirst hfirst' h (by omega) hbelow
    obtain ⟨hnear', hfar'⟩ := turn_le_of_below hfirst' hfirst h' (by omega) hbelow'
    obtain ⟨k, rfl⟩ : ∃ k, replFactor = k + 2 := ⟨replFactor - 2, by omega⟩
    rcases Nat.eq_zero_or_pos k with rfl | hk
    · refine Or.inr (Or.inr ⟨rfl, ?_, hbelow, hbelow'⟩)
      omega
    · exfalso
      rw [show k + 2 - 1 = k + 1 from rfl, Nat.succ_mul, Nat.succ_mul] at hfar hfar'
      have hsteps : count / (k + 2) = count' / (k + 2) :=
        Nat.eq_of_mul_eq_mul_left hk (by omega)
      omega

end Copies

/-! ## Agreement -/

namespace ElasticDataset

theorem mem_localFirst (localConn : Int) (servers : List Nat) (server : Nat) :
    server ∈ localFirst localConn servers ↔ server ∈ servers := by
  have hpush : ∀ (sent : List Nat) (next : Nat),
      (server ∈ pushServer localConn sent next ↔ server ∈ sent ∨ server = next) := by
    intro sent next
    cases sent with
    | nil => simp [pushServer]
    | cons first rest =>
        rw [pushServer]
        split
        · simp only [List.cons_append, List.mem_cons, List.mem_append, List.not_mem_nil, or_false]
          tauto
        · simp
          tauto
  have hfold : ∀ sent : List Nat,
      (server ∈ servers.foldl (pushServer localConn) sent ↔ server ∈ sent ∨ server ∈ servers) := by
    induction servers with
    | nil => simp
    | cons next servers ih =>
        intro sent
        rw [List.foldl_cons, ih, hpush, List.mem_cons, or_assoc]
  rw [localFirst, hfold]
  simp

/-- For every dataset, number of servers and block the four functions address the
same servers exactly if no interval holds the block, or its number of servers gives
the same copies as the present one. -/
theorem replicasAgree_iff (dataset : ElasticDataset) (localConn : Int) (stack : CString)
    (numStorages : Nat) (dataId : Int) (hrepl : 1 ≤ dataset.replFactor)
    (hle : dataset.replFactor ≤ numStorages) :
    dataset.ReplicasAgree localConn stack numStorages dataId ↔
      ∀ count first, getValueFromInterval dataset.intervals dataId = some count →
        findServer stack count dataId dataset.originalName dataset.policy = some first →
          SameCopies count numStorages dataset.replFactor first := by
  have hagree : dataset.ReplicasAgree localConn stack numStorages dataId ↔
      ∀ server, server ∈ dataset.setTargets stack numStorages dataId ↔
        server ∈ dataset.getTargets stack numStorages dataId := by
    refine forall_congr' fun server => and_iff_left ⟨?_, ?_⟩
    · exact (mem_localFirst localConn _ server).symm
    · exact (mem_localFirst localConn _ server).symm
  rw [hagree]
  simp only [setTargets, getTargets, copies, getDataLocation, numStoragesFor]
  cases hvalue : getValueFromInterval dataset.intervals dataId with
  | none => simp
  | some count =>
      cases hlocation : findServer stack count dataId dataset.originalName dataset.policy with
      | none =>
          refine iff_of_true (by simp [hlocation]) fun count' first hcount hfirst => ?_
          cases hcount
          rw [hlocation] at hfirst
          cases hfirst
      | some first =>
          have hfirst := findServer_lt hlocation
          simp only [Option.getD_some, hlocation]
          constructor
          · rintro hsame count' first' hcount hfirst'
            cases hcount
            rw [hlocation] at hfirst'
            cases hfirst'
            exact sameCopies_of_mem hfirst hrepl hle fun server => (hsame server).symm
          · intro hsame server
            exact (mem_replicaServers_of_sameCopies hfirst (hsame count first rfl hlocation)
              server).symm

/-- The file `imss://f`, whose blocks 1 to 4 were placed on two servers. -/
def placedOnTwo (replFactor : Nat) : ElasticDataset :=
  ⟨exampleFile.1, .roundRobin, replFactor, [⟨2, 1, 4⟩], 1, 4⟩

/-- Single copies agree also after two servers were added. -/
theorem replicasAgree_single_copy : (placedOnTwo 1).ReplicasAgree 0 [] 4 1 := by
  refine (replicasAgree_iff _ _ _ _ _ (by decide) (by decide)).mpr
    fun count first hcount hfirst => ?_
  have htwo : count = 2 := by
    have heval : getValueFromInterval (placedOnTwo 1).intervals 1 = some 2 := by decide
    exact Option.some.inj (hcount.symm.trans heval)
  have hlt := findServer_lt hfirst
  exact Or.inr ⟨by omega, Or.inl rfl⟩

/-- With two copies, block 1 is written to servers 1 and 3 and read from 1 and 0. -/
theorem not_replicasAgree_two_copies : ¬ (placedOnTwo 2).ReplicasAgree 0 [] 4 1 := by
  intro hagree
  have hread : 0 ∈ (placedOnTwo 2).getTargets [] 4 1 := by decide +kernel
  have hwrite : 0 ∉ (placedOnTwo 2).setTargets [] 4 1 := by decide +kernel
  exact hwrite ((hagree 0).1.mpr hread)

end ElasticDataset

/-! ## Runs of one client

The metadata server has its own copy of the intervals. A client takes it over when it
opens a dataset that it does not have; if it has the dataset, `create_dataset` clears
the intervals and `open_local_dataset` leaves them alone.

`set_data` and `update_dataset` record blocks and intervals if `MALLEABILITY_ON` is set. But the
variable is `static` in a header, so that each file has its own, and `getConfiguration` sets the one
of its own file. -/

/-- The files that test or set a `MALLEABILITY_ON`. -/
inductive MalleabilityFile
  | hercules
  | imss
  | imssPosixApi

/-- `MALLEABILITY_ON` in each file after `getConfiguration`, for the setting `MALLEABILITY`. -/
def malleabilityOn (malleability : Bool) : MalleabilityFile → Nat
  | .hercules => if malleability then 1 else 0
  | .imss | .imssPosixApi => 0

/-- What one client knows, with the copy of the intervals on the metadata server.
`received` is the history: the first server to which the last write of a block went. -/
structure ElasticClient where
  dataset : ElasticDataset
  numStorages : Nat
  remote : List IntervalEntry
  received : Int → Option Nat

/-- The steps of a client. `addServers` are calls of `AddIPS` and `AddBackEndServer2Imss`. -/
inductive ElasticAction
  | setData (stack : CString) (dataId : Int)
  | updateDataset
  | openLocalDataset
  | createDataset
  | openDataset
  | addServers (added : Nat)

namespace ElasticClient

variable (malleability : Bool)

/-- `first_block_id` and `last_block_id` after a write. -/
def noteBlock (dataset : ElasticDataset) (dataId : Int) : ElasticDataset :=
  { dataset with
    firstBlockId :=
      if dataset.firstBlockId = -1 ∧ dataId ≠ 0 ∧ malleabilityOn malleability .imss = 1 then dataId
      else dataset.firstBlockId
    lastBlockId :=
      if dataset.lastBlockId < dataId ∧ dataId ≠ 0 ∧ malleabilityOn malleability .imss = 1 then
        dataId
      else dataset.lastBlockId }

/-- The intervals of `update_dataset`: one for block 0 and one for the blocks written
so far, unless there are intervals already. -/
def updatedIntervals (dataset : ElasticDataset) (numStorages : Nat) : List IntervalEntry :=
  if dataset.intervals = [] ∧ malleabilityOn malleability .imss = 1 then
    setInterval (setInterval [] numStorages 0 0) numStorages dataset.firstBlockId
      dataset.lastBlockId
  else dataset.intervals

/-- One step; the client ends at a block without location. -/
def step (client : ElasticClient) : ElasticAction → Option ElasticClient
  | .setData stack dataId =>
      (client.dataset.getDataLocation stack client.numStorages dataId).map fun first =>
        { client with
          dataset := noteBlock malleability client.dataset dataId
          received := Function.update client.received dataId (some (first % client.numStorages)) }
  | .updateDataset =>
      let intervals := updatedIntervals malleability client.dataset client.numStorages
      some { client with
        dataset := { client.dataset with intervals := intervals }
        remote := mergeIntervals client.remote intervals }
  | .openLocalDataset => some client
  | .createDataset => some { client with dataset := { client.dataset with intervals := [] } }
  | .openDataset =>
      some { client with
        dataset := { client.dataset with
          intervals := client.remote
          firstBlockId := -1
          lastBlockId := -1 } }
  | .addServers added => some { client with numStorages := client.numStorages + added }

/-- The first server that `get_ndata` asks for a block. -/
def readPrimary (client : ElasticClient) (stack : CString) (dataId : Int) : Option Nat :=
  (client.dataset.getDataLocation stack client.numStorages dataId).map
    (· % client.dataset.numStoragesFor client.numStorages dataId)

/-- A read goes to the server that has the last write. -/
def Stable (client : ElasticClient) : Prop :=
  ∀ dataId server, client.received dataId = some server →
    ∀ stack, client.readPrimary stack dataId = some server

/-- The steps that keep placements: servers are added only when all written blocks
lie in intervals, a dataset is created again only while these record the present
number of servers, and the metadata server's copy is taken over only if it is the same. -/
def Keeps (client : ElasticClient) : ElasticAction → Prop
  | .createDataset => ∀ dataId, (client.received dataId).isSome →
      client.dataset.numStoragesFor client.numStorages dataId = client.numStorages
  | .openDataset => client.remote = client.dataset.intervals
  | .addServers _ => ∀ dataId, (client.received dataId).isSome →
      (getValueFromInterval client.dataset.intervals dataId).isSome
  | _ => True

/-- What a run keeps: the placement does not depend on unfilled memory, no interval
records more servers than there are, and written blocks are found. -/
structure Placed (client : ElasticClient) : Prop where
  policy : client.dataset.policy.Placed
  bounded : ∀ entry ∈ client.dataset.intervals, entry.value ≤ client.numStorages
  stable : client.Stable

variable {malleability : Bool} {client client' : ElasticClient}

/-- No write is recorded. -/
@[simp]
theorem noteBlock_eq (dataset : ElasticDataset) (dataId : Int) :
    noteBlock malleability dataset dataId = dataset := by
  simp [noteBlock, malleabilityOn]

/-- No interval is added. -/
@[simp]
theorem updatedIntervals_eq (dataset : ElasticDataset) (numStorages : Nat) :
    updatedIntervals malleability dataset numStorages = dataset.intervals := by
  simp [updatedIntervals, malleabilityOn]

theorem numStoragesFor_le
    (hbounded : ∀ entry ∈ client.dataset.intervals, entry.value ≤ client.numStorages)
    (dataId : Int) :
    client.dataset.numStoragesFor client.numStorages dataId ≤ client.numStorages := by
  rw [ElasticDataset.numStoragesFor]
  cases hvalue : getValueFromInterval client.dataset.intervals dataId with
  | none => exact Nat.le_refl _
  | some value =>
      obtain ⟨entry, hentry, rfl⟩ := exists_mem_of_getValueFromInterval hvalue
      exact hbounded entry hentry

/-- A step after which written blocks are looked for among as many servers as before. -/
theorem Stable.of_count (hstable : client.Stable)
    (hname : client'.dataset.originalName = client.dataset.originalName)
    (hpolicy : client'.dataset.policy = client.dataset.policy)
    (hreceived : client'.received = client.received)
    (hcount : ∀ dataId, (client.received dataId).isSome →
      client'.dataset.numStoragesFor client'.numStorages dataId =
        client.dataset.numStoragesFor client.numStorages dataId) : client'.Stable := by
  intro dataId server hserver stack
  rw [hreceived] at hserver
  have hsame := hcount dataId (by rw [hserver]; rfl)
  have hread := hstable dataId server hserver stack
  rwa [readPrimary, ElasticDataset.getDataLocation, hsame, hname, hpolicy]

/-- After a write the block is found where it went. -/
theorem Placed.setData (hplaced : client.Placed) {stack : CString} {dataId : Int} {first : Nat}
    (hfirst : client.dataset.getDataLocation stack client.numStorages dataId = some first) :
    Stable { client with
      received :=
        Function.update client.received dataId (some (first % client.numStorages)) } := by
  intro other server hserver stack'
  by_cases hother : other = dataId
  · subst hother
    have hlt := findServer_lt hfirst
    have hle := numStoragesFor_le hplaced.bounded other
    have hlocation : client.dataset.getDataLocation stack' client.numStorages other = some first :=
      (findServer_placed hplaced.policy stack' stack _ _ _).trans hfirst
    simp only [Function.update_self, Option.some.injEq] at hserver
    show (client.dataset.getDataLocation stack' client.numStorages other).map
      (· % client.dataset.numStoragesFor client.numStorages other) = some server
    rw [hlocation, Option.map_some, Nat.mod_eq_of_lt hlt, ← hserver, Nat.mod_eq_of_lt (by omega)]
  · simp only [Function.update_of_ne hother] at hserver
    exact hplaced.stable other server hserver stack'

/-- One step. -/
theorem Placed.step (hplaced : client.Placed) {action : ElasticAction}
    (hkeeps : client.Keeps action) (hstep : client.step malleability action = some client') :
    client'.Placed := by
  cases action with
  | setData stack dataId =>
      obtain ⟨first, hfirst, rfl⟩ := Option.map_eq_some_iff.mp hstep
      rw [noteBlock_eq]
      exact ⟨hplaced.policy, hplaced.bounded, hplaced.setData hfirst⟩
  | updateDataset =>
      cases hstep
      simp only [updatedIntervals_eq]
      exact ⟨hplaced.policy, hplaced.bounded, hplaced.stable⟩
  | openLocalDataset =>
      cases hstep
      exact hplaced
  | createDataset =>
      cases hstep
      refine ⟨hplaced.policy, by simp, hplaced.stable.of_count rfl rfl rfl fun dataId h => ?_⟩
      exact (hkeeps dataId h).symm
  | openDataset =>
      cases hstep
      have hremote : client.remote = client.dataset.intervals := hkeeps
      refine ⟨hplaced.policy, ?_, hplaced.stable.of_count rfl rfl rfl fun dataId _ => ?_⟩
      · simp only [hremote]
        exact hplaced.bounded
      · simp only [ElasticDataset.numStoragesFor, hremote]
  | addServers added =>
      cases hstep
      refine ⟨hplaced.policy, fun entry hentry => ?_,
        hplaced.stable.of_count rfl rfl rfl fun dataId h => ?_⟩
      · exact (hplaced.bounded entry hentry).trans (Nat.le_add_right _ _)
      · obtain ⟨value, hvalue⟩ := Option.isSome_iff_exists.mp (hkeeps dataId h)
        simp only [ElasticDataset.numStoragesFor, hvalue, Option.getD_some]

/-- Neither the client nor the metadata server has an interval. -/
def Unrecorded (client : ElasticClient) : Prop :=
  client.dataset.intervals = [] ∧ client.remote = []

/-- No step records the first interval. -/
theorem Unrecorded.step (hunrecorded : client.Unrecorded) {action : ElasticAction}
    (hstep : client.step malleability action = some client') : client'.Unrecorded := by
  obtain ⟨hintervals, hremote⟩ := hunrecorded
  cases action with
  | setData stack dataId =>
      obtain ⟨first, -, rfl⟩ := Option.map_eq_some_iff.mp hstep
      rw [noteBlock_eq]
      exact ⟨hintervals, hremote⟩
  | updateDataset =>
      cases hstep
      simp only [updatedIntervals_eq, hintervals, hremote]
      exact ⟨rfl, rfl⟩
  | openLocalDataset =>
      cases hstep
      exact ⟨hintervals, hremote⟩
  | createDataset =>
      cases hstep
      exact ⟨rfl, hremote⟩
  | openDataset =>
      cases hstep
      exact ⟨hremote, hremote⟩
  | addServers added =>
      cases hstep
      exact ⟨hintervals, hremote⟩

/-- Servers are added before the first write only. -/
def AddsEarly (client : ElasticClient) : ElasticAction → Prop
  | .addServers _ => ∀ dataId, client.received dataId = none
  | _ => True

/-- Without intervals the steps that keep placements are those that add no server late. -/
theorem Unrecorded.keeps_iff (hunrecorded : client.Unrecorded) (action : ElasticAction) :
    client.AddsEarly action ↔ client.Keeps action := by
  obtain ⟨hintervals, hremote⟩ := hunrecorded
  have hvalue (dataId : Int) : getValueFromInterval client.dataset.intervals dataId = none := by
    rw [hintervals]
    rfl
  cases action with
  | createDataset => simp [AddsEarly, Keeps, ElasticDataset.numStoragesFor, hvalue]
  | openDataset => simp [AddsEarly, Keeps, hintervals, hremote]
  | addServers added => simp [AddsEarly, Keeps, hvalue]
  | _ => exact Iff.rfl

/-- A client that starts without intervals keeps the placements over a run exactly if no server is
added after the first write. -/
theorem Unrecorded.along_iff (hunrecorded : client.Unrecorded) (actions : List ElasticAction) :
    Along (ElasticClient.step malleability) AddsEarly actions client ↔
      Along (ElasticClient.step malleability) Keeps actions client :=
  Along.iff_of_invariant (fun _ action h => h.keeps_iff action)
    (fun _ _ _ h _ hstep => h.step hstep) hunrecorded

/-- The file `imss://f` as it is created on one server. -/
def created : ElasticClient :=
  ⟨⟨exampleFile.1, .roundRobin, 1, [], -1, -1⟩, 1, [], fun _ => none⟩

/-- A server is added before the first write. -/
def addedBefore : List ElasticAction :=
  [.addServers 1, .setData [] 2, .setData [] 3, .updateDataset, .openDataset, .setData [] 3,
    .createDataset]

end ElasticClient

end Hercules
