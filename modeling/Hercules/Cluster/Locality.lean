/-
# Shared memory on the client's node

Under the policies `LOCAL` and `ZCOPY` a client may hand a block to a server through a shared memory
segment instead of the network. `open_imss` notes the last server whose host name agrees with the
client's. `get_ndata` compares that number with the number of the server it asks, `set_data` with
the number of the copy it writes. Which server really runs on the client's node is a fact about the
deployment, independent of the names.

The copies of a block are at equal distances from its location on, so the number of the copy on a
server follows from the number of the server. Whether the two comparisons are right is a matter of
these numbers alone.
-/

import Hercules.Cluster.Elastic
import Hercules.Cluster.ReplicaRead

namespace Hercules

open Lib Lib.Text

/-- `client_node` and `client_ip`. -/
structure ClientNode where
  name : CString
  ip : CString

/-- The two `strncmp` of `open_imss`: the host name starts with that of the client, or is the
beginning of its address. -/
def ClientNode.agrees (client : ClientNode) (host : CString) : Bool :=
  client.name.isPrefixOf host || host.isPrefixOf client.ip

/-- The loop of `open_imss` from server `i` on. -/
def ClientNode.matchingFrom (client : ClientNode) (i : Nat) (matching : Option Nat) :
    List CString → Option Nat
  | [] => matching
  | host :: ips =>
      client.matchingFrom (i + 1) (if client.agrees host then some i else matching) ips

/-- `matching_server_id` after `open_imss`. -/
def ClientNode.matchingServerId (client : ClientNode) (ips : List CString) : Option Nat :=
  client.matchingFrom 0 none ips

/-- A request for one copy of a block, and whether the block goes through shared memory. -/
structure CopyRequest where
  server : Nat
  shared : Bool
  deriving DecidableEq

namespace ElasticDataset

/-- The dataset has one of the two policies. -/
def Shareable (dataset : ElasticDataset) : Prop :=
  dataset.policy = .local ∨ dataset.policy = .zcopy

instance (dataset : ElasticDataset) : Decidable dataset.Shareable :=
  inferInstanceAs (Decidable (_ ∨ _))

/-- The requests of `set_data`, where `server_id` is the number of the copy. -/
def setRequests (dataset : ElasticDataset) (matching : Option Nat) (stack : CString)
    (numStorages : Nat) (dataId : Int) : List CopyRequest :=
  (dataset.setTargets stack numStorages dataId).zipIdx.map fun target =>
    ⟨target.1, decide (dataset.Shareable ∧ matching = some target.2)⟩

/-- The requests of `get_ndata`, as long as no copy is found. -/
def getRequests (dataset : ElasticDataset) (matching : Option Nat) (stack : CString)
    (numStorages : Nat) (dataId : Int) : List CopyRequest :=
  (dataset.getTargets stack numStorages dataId).map fun server =>
    ⟨server, decide (dataset.Shareable ∧ matching = some server)⟩

/-- The requests of a read are made with the test of the reader's model. -/
theorem shared_getRequests {nStorages : Nat} (reader : BlockReader nStorages)
    {dataset : ElasticDataset} (hpolicy : dataset.policy = reader.dataset.policy) (stack : CString)
    (numStorages : Nat) (dataId : Int) :
    ∀ request ∈ dataset.getRequests reader.matchingServerId stack numStorages dataId,
      request.shared = reader.useLocal request.server := by
  intro request hrequest
  obtain ⟨server, -, rfl⟩ := List.mem_map.mp hrequest
  simp only [BlockReader.useLocal, Shareable, hpolicy]

/-- Shared memory is used exactly for the server on the client's own node. -/
def SharedLocally (requests : List CopyRequest) (own : Option Nat) : Prop :=
  ∀ request ∈ requests, request.shared = true ↔ own = some request.server

/-! ## The number of a copy -/

/-- The number of the copy on a server, for `replFactor` copies that are counted among `count`
servers from `first` on. -/
def copyNumber (count replFactor first server : Nat) : Option Nat :=
  let distance := (server + count - first % count) % count
  let number := distance / (count / replFactor)
  if server < count ∧ number * (count / replFactor) = distance ∧ number < replFactor then
    some number
  else none

/-- Going round from `first` and going back. -/
theorem add_mod_eq_iff {count first server distance : Nat} (hserver : server < count)
    (hdistance : distance < count) :
    (first + distance) % count = server ↔
      (server + count - first % count) % count = distance := by
  have hfirst := Nat.mod_lt first (by omega : 0 < count)
  have hback : (first + (server + count - first % count)) % count = server := by
    rw [← Nat.mod_add_mod, show first % count + (server + count - first % count) = server + count by
      omega, Nat.add_mod_right, Nat.mod_eq_of_lt hserver]
  constructor
  · intro hgo
    have hmod : first + distance ≡ first + (server + count - first % count) [MOD count] :=
      hgo.trans hback.symm
    have hcancel := Nat.ModEq.add_left_cancel' first hmod
    rw [← hcancel, Nat.mod_eq_of_lt hdistance]
  · intro hdist
    rw [← hdist, Nat.add_mod_mod, hback]

section

variable {count replFactor first : Nat}

/-- The number names the copy that goes to the server. -/
theorem copyNumber_eq_some_iff (hrepl : replFactor ≤ count) {server i : Nat} :
    copyNumber count replFactor first server = some i ↔
      i < replFactor ∧ replicaServer count replFactor first i = server := by
  simp only [copyNumber, replicaServer]
  constructor
  · intro hnumber
    split at hnumber
    next hcopy =>
      obtain ⟨hserver, hdistance, hlt⟩ := hcopy
      cases hnumber
      refine ⟨hlt, ?_⟩
      rw [add_mod_eq_iff hserver (by rw [hdistance]; exact Nat.mod_lt _ (by omega)), hdistance]
    next => cases hnumber
  · rintro ⟨hi, hserver⟩
    have hstep : 0 < count / replFactor := Nat.div_pos hrepl (by omega)
    have hlt : server < count := hserver ▸ Nat.mod_lt _ (by omega)
    rw [add_mod_eq_iff hlt (mul_div_lt (by omega) hi)] at hserver
    rw [hserver, Nat.mul_div_cancel _ hstep]
    simp [hlt, hi]

theorem isSome_copyNumber_iff (hrepl : replFactor ≤ count) {server : Nat} :
    (copyNumber count replFactor first server).isSome ↔
      server ∈ replicaServers count replFactor first := by
  rw [mem_replicaServers, Option.isSome_iff_exists]
  exact exists_congr fun i => copyNumber_eq_some_iff hrepl

end

/-! ## The two comparisons -/

/-- When both comparisons are right, for a block whose copies are counted among `written` servers in
a write and among `read` servers in a read. In a write the noted number, where it is that of a copy,
is the number of the copy on the client's node. In a read it is the server on that node, or neither
of the two has a copy. -/
structure LocalityCondition (written read replFactor first : Nat) (matching own : Option Nat) :
    Prop where
  writes : (matching.filter fun i => i < replFactor) =
    own.bind (copyNumber written replFactor first)
  reads : matching = own ∨ matching.bind (copyNumber read replFactor first) = none ∧
    own.bind (copyNumber read replFactor first) = none

section

variable {dataset : ElasticDataset} {matching own : Option Nat} {stack : CString}
  {numStorages first : Nat} {dataId : Int}

/-- The requests of a write. -/
theorem sharedLocally_setRequests_iff (hpolicy : dataset.Shareable)
    (hlocation : dataset.getDataLocation stack numStorages dataId = some first)
    (hrepl : dataset.replFactor ≤ numStorages) :
    SharedLocally (dataset.setRequests matching stack numStorages dataId) own ↔
      (matching.filter fun i => i < dataset.replFactor) =
        own.bind (copyNumber numStorages dataset.replFactor first) := by
  have hrequests : SharedLocally (dataset.setRequests matching stack numStorages dataId) own ↔
      ∀ i < dataset.replFactor, matching = some i ↔
        own = some (replicaServer numStorages dataset.replFactor first i) := by
    simp only [SharedLocally, setRequests, setTargets, copies, hlocation, List.forall_mem_map,
      Prod.forall, List.mem_zipIdx_iff_getElem?, hpolicy, true_and, decide_eq_true_eq]
    constructor
    · intro h i hi
      exact h _ i (by simp [replicaServers, hi])
    · intro h server i hserver
      obtain ⟨hi, rfl⟩ : i < dataset.replFactor ∧
          replicaServer numStorages dataset.replFactor first i = server := by
        simpa [replicaServers, List.getElem?_eq_some_iff] using hserver
      exact h i hi
  have hcopy : ∀ i, own.bind (copyNumber numStorages dataset.replFactor first) = some i ↔
      i < dataset.replFactor ∧
        own = some (replicaServer numStorages dataset.replFactor first i) := by
    intro i
    simp only [Option.bind_eq_some_iff, copyNumber_eq_some_iff hrepl]
    constructor
    · rintro ⟨server, hown, hi, rfl⟩
      exact ⟨hi, hown⟩
    · rintro ⟨hi, hown⟩
      exact ⟨_, hown, hi, rfl⟩
  rw [hrequests, Option.ext_iff]
  refine forall_congr' fun i => ?_
  rw [hcopy, Option.filter_eq_some_iff, decide_eq_true_eq, and_comm (a := matching = some i)]
  exact (and_congr_right_iff).symm

/-- The requests of a read. -/
theorem sharedLocally_getRequests_iff (hpolicy : dataset.Shareable)
    (hlocation : dataset.getDataLocation stack numStorages dataId = some first)
    (hrepl : dataset.replFactor ≤ dataset.numStoragesFor numStorages dataId) :
    SharedLocally (dataset.getRequests matching stack numStorages dataId) own ↔
      matching = own ∨
        matching.bind (copyNumber (dataset.numStoragesFor numStorages dataId)
          dataset.replFactor first) = none ∧
        own.bind (copyNumber (dataset.numStoragesFor numStorages dataId)
          dataset.replFactor first) = none := by
  have hnone : ∀ noted : Option Nat, noted.bind (copyNumber
      (dataset.numStoragesFor numStorages dataId) dataset.replFactor first) = none ↔
        ∀ server ∈ replicaServers (dataset.numStoragesFor numStorages dataId) dataset.replFactor
          first, noted ≠ some server := by
    intro noted
    rw [Option.bind_eq_none_iff]
    constructor
    · intro h server hserver hnoted
      rw [← isSome_copyNumber_iff hrepl, h server hnoted] at hserver
      cases hserver
    · intro h server hnoted
      rw [← Option.not_isSome_iff_eq_none, isSome_copyNumber_iff hrepl]
      exact fun hserver => h server hserver hnoted
  simp only [SharedLocally, getRequests, getTargets, copies, hlocation, List.forall_mem_map,
    hpolicy, true_and, decide_eq_true_eq, hnone]
  constructor
  · intro hiff
    by_cases hfound : ∃ server ∈ replicaServers (dataset.numStoragesFor numStorages dataId)
        dataset.replFactor first, matching = some server
    · obtain ⟨server, hserver, hmatching⟩ := hfound
      exact Or.inl (hmatching.trans ((hiff server hserver).mp hmatching).symm)
    · have hmatching : ∀ server ∈ replicaServers (dataset.numStoragesFor numStorages dataId)
          dataset.replFactor first, matching ≠ some server :=
        fun server hserver heq => hfound ⟨server, hserver, heq⟩
      exact Or.inr ⟨hmatching, fun server hserver hown =>
        hmatching server hserver ((hiff server hserver).mpr hown)⟩
  · rintro (rfl | ⟨hmatching, hown⟩) server hserver
    · exact Iff.rfl
    · exact iff_of_false (hmatching server hserver) (hown server hserver)

end

/-- A client uses shared memory exactly with the server on its own node, in writes and in reads, if
and only if the number that it has noted, the server on its node and the location of the block
meet `LocalityCondition`. -/
theorem sharedLocally_iff {dataset : ElasticDataset}
    (hpolicy : dataset.policy = .local ∨ dataset.policy = .zcopy) (client : ClientNode)
    (ips : List CString) (own : Option Nat) (stack : CString) {dataId : Int} {first : Nat}
    (hlocation : dataset.getDataLocation stack ips.length dataId = some first)
    (hwritten : dataset.replFactor ≤ ips.length)
    (hread : dataset.replFactor ≤ dataset.numStoragesFor ips.length dataId) :
    SharedLocally (dataset.setRequests (client.matchingServerId ips) stack ips.length dataId) own ∧
        SharedLocally (dataset.getRequests (client.matchingServerId ips) stack ips.length dataId)
          own ↔
      LocalityCondition ips.length (dataset.numStoragesFor ips.length dataId) dataset.replFactor
        first (client.matchingServerId ips) own := by
  rw [sharedLocally_setRequests_iff hpolicy hlocation hwritten,
    sharedLocally_getRequests_iff hpolicy hlocation hread]
  exact ⟨fun h => ⟨h.1, h.2⟩, fun h => ⟨h.writes, h.reads⟩⟩

/-- A file with the policy `LOCAL`, one copy of each block and no intervals. -/
def localFile (name : CString) : ElasticDataset :=
  ⟨name, .local, 1, [], -1, 0⟩

/-- Of two copies among four servers, the copy with number 1 is on server 1, where the client
runs. -/
theorem sharedLocally_second_copy :
    let dataset : ElasticDataset := ⟨"imss://f".toList, .local, 2, [], -1, 0⟩
    let client : ClientNode := ⟨"node1".toList, "10.0.0.2".toList⟩
    let ips := ["node0".toList, "node1".toList, "node2".toList, "node3".toList]
    dataset.setRequests (client.matchingServerId ips) [] 4 3 = [⟨3, false⟩, ⟨1, true⟩] ∧
      SharedLocally (dataset.setRequests (client.matchingServerId ips) [] 4 3) (some 1) ∧
      SharedLocally (dataset.getRequests (client.matchingServerId ips) [] 4 3) (some 1) := by
  intro dataset client ips
  have hlocation : dataset.getDataLocation [] ips.length 3 = some 3 := by decide +kernel
  exact ⟨by decide +kernel, (sharedLocally_iff (Or.inl rfl) client ips _ [] hlocation (by decide)
    (by decide)).mpr ⟨by decide, by decide⟩⟩

/-- Block 1 is on the second of two servers. A client on the first node writes it through a segment
that is not on the server's node; a client on the second node reads it through shared memory and
writes it over the network. On `node1` of `node1` and `node10` the second server is taken for the
one on the node. -/
theorem not_sharedLocally :
    ClientNode.matchingServerId ⟨"node0".toList, "10.0.0.1".toList⟩
        ["node0".toList, "node1".toList] = some 0 ∧
      (localFile "imss://f".toList).setRequests (some 0) [] 2 1 = [⟨1, true⟩] ∧
      ¬ SharedLocally [⟨1, true⟩] (some 0) ∧
      ClientNode.matchingServerId ⟨"node1".toList, "10.0.0.2".toList⟩
        ["node0".toList, "node1".toList] = some 1 ∧
      (localFile "imss://f".toList).setRequests (some 1) [] 2 1 = [⟨1, false⟩] ∧
      (localFile "imss://f".toList).getRequests (some 1) [] 2 1 = [⟨1, true⟩] ∧
      ¬ SharedLocally [⟨1, false⟩] (some 1) ∧
      ClientNode.matchingServerId ⟨"node1".toList, "10.0.0.1".toList⟩
        ["node1".toList, "node10".toList] = some 1 := by
  refine ⟨by decide, by decide +kernel, ?_, by decide, by decide +kernel, by decide +kernel, ?_,
    by decide⟩
  · intro hshared
    exact absurd ((hshared ⟨1, true⟩ (by decide)).mp rfl) (by decide)
  · intro hshared
    exact absurd ((hshared ⟨1, false⟩ (by decide)).mpr rfl) (by decide)

end ElasticDataset

end Hercules
