/-
# The commissioning of data servers

Clients report how fast the data servers are. The metadata server keeps a history of
these reports, and each report starts a thread that may decide to launch one more data
server: on a host of the host file that no registered server uses, with the next server
id. A launched server registers itself with `SETSERVER`.

The history is changed under a lock. The flag that says that a launch is under way, the
host that was chosen and the list of the registered servers are globals that the threads
read and write between their locked sections. A step below is what a thread does without
giving the others a chance to see an intermediate state; the scan of the hosts takes a
step for each host.
-/

import Mathlib.Algebra.Ring.Nat
import Mathlib.Data.Fintype.Basic
import Mathlib.Data.List.Infix
import Hercules.Lib.Threads
import Hercules.Names

namespace Hercules

open Std Lib Lib.Threads

universe u v

/-- The copy of a line that `AddIPS` appends to a list of hosts. -/
def withoutNewline (line : CString) : CString :=
  if line.getLast? = some '\n' then line.dropLast else line

/-- `AddIPS`. -/
def addIPS (ips : List CString) (line : CString) : List CString :=
  ips ++ [withoutNewline line]

/-- `ReadHostfile`, from the lines of the file. -/
def readHostfile (lines : List CString) : List CString :=
  lines.foldl addIPS []

/-- One entry of a performance report. -/
structure ElasticityMetric (F : Type u) where
  serverHostname : CString
  writePerformance : F
  readPerformance : F
  deriving DecidableEq

/-- The settings of the metadata server; `nearZero` is `double_are_equal` with `0.0`. -/
structure ScalingSettings (F : Type u) where
  malleability : Int
  malleabilityWindowsSize : Int
  malleabilityPerformanceThreshold : F
  malleabilityTolerance : Int
  allocDataHostfile : List CString
  nearZero : F → Bool

/-- The hosts on which data servers may run, `imss_copy`. -/
def ScalingSettings.hosts {F : Type u} (settings : ScalingSettings F) : List CString :=
  readHostfile settings.allocDataHostfile

/-- A data server that was launched: its id and its host. -/
abbrev LaunchedServer := Int × Option CString

/-- The globals of the metadata server. `registered` has the `ips` of the instance, each with the id
in the request that added it, and `awaiting` the servers that were launched and have not been
registered since. -/
structure Scaling (F : Type u) where
  elasticityRecordsHistory : ExtTreeMap CString (List F)
  consecutiveScaleUpSignals : Int
  comissioningOn : Bool
  nodeToUse : Option CString
  numberActiveStorageServers : Int
  idServerToModify : Int
  malleabilityOn : Int
  acksReceived : Nat
  registered : List (Int × CString)
  awaiting : List LaunchedServer

/-- How far a thread has come with its request. The first phase of a report, of a `SETSERVER`
request and of an acknowledgement is `report`, `connect` and `acknowledge`. -/
inductive ScalingPhase (F : Type u)
  | report (entries : List (ElasticityMetric F)) (metricRecorded : Nat)
  | check
  | decide
  | signal (toAddServer : Bool)
  | scan (hosts : List CString)
  | test
  | setUp
  | launch
  | connect (id : Int) (host : CString) (connects : Bool)
  | reset (id : Int) (host : CString)
  | add (id : Int) (host : CString)
  | acknowledge (expectedAcks : Nat)
  | done
  deriving DecidableEq

/-- The requests of this protocol. A `SETSERVER` request may fail to connect to the server that sent
it. -/
inductive ScalingRequest (F : Type u)
  | setPerformance (entries : List (ElasticityMetric F))
  | setServer (id : Int) (host : CString) (connects : Bool)
  | decommissioned (expectedAcks : Nat)

/-- Where the handler of a request starts. -/
def ScalingRequest.phase {F : Type u} : ScalingRequest F → ScalingPhase F
  | .setPerformance entries => .report entries 0
  | .setServer id host connects => .connect id host connects
  | .decommissioned expectedAcks => .acknowledge expectedAcks

namespace Scaling

variable {F : Type u}

/-- The globals when the server starts. -/
def init : Scaling F where
  elasticityRecordsHistory := ∅
  consecutiveScaleUpSignals := 0
  comissioningOn := false
  nodeToUse := none
  numberActiveStorageServers := 0
  idServerToModify := -1
  malleabilityOn := 0
  acksReceived := 0
  registered := []
  awaiting := []

/-- The hosts of the registered servers. -/
def ips (scaling : Scaling F) : List CString :=
  scaling.registered.map Prod.snd

/-- The ids of the registered servers. -/
def ids (scaling : Scaling F) : List Int :=
  scaling.registered.map Prod.fst

section Decision

variable [Zero F] [Add F] [Div F] [NatCast F] [LT F] [DecidableLT F]

/-- The sums over all servers of the records in the window. -/
def aggregatePerformance (history : ExtTreeMap CString (List F)) (first size : Nat) : List F :=
  (List.range' first size).filterMap fun i =>
    match history.toList.filterMap fun entry => entry.2[i]? with
    | [] => none
    | values => some (values.foldl (· + ·) 0)

/-- `make_scaling_decision`. The size of the window is compared as an unsigned number. -/
def makeScalingDecision (history : ExtTreeMap CString (List F)) (analysisWindowSize : Int)
    (minimumPerformanceThreshold : F) : Bool :=
  match history.toList with
  | [] => false
  | (_, records) :: _ =>
      let window := (UInt64.ofInt analysisWindowSize).toNat
      if records.length < window then false
      else
        let performance := aggregatePerformance history (records.length - window) window
        if performance = [] then false
        else Decidable.decide
          (performance.foldl (· + ·) 0 / (performance.length : F) < minimumPerformanceThreshold)

/-- The record of one entry of a report. The counter is not set to zero between the entries. -/
def receive (settings : ScalingSettings F) (scaling : Scaling F) (entry : ElasticityMetric F)
    (metricRecorded : Nat) : Scaling F × Nat :=
  let metricRecorded := metricRecorded +
    (if settings.nearZero entry.readPerformance then 0 else 1) +
    (if settings.nearZero entry.writePerformance then 0 else 1)
  let overall := (entry.readPerformance + entry.writePerformance) / (metricRecorded : F)
  let history := scaling.elasticityRecordsHistory
  ({ scaling with elasticityRecordsHistory :=
      history.insert entry.serverHostname (history.getD entry.serverHostname [] ++ [overall]) },
    metricRecorded)

end Decision

/-- The count of the decisions in a row, and whether there have been enough of them. -/
def countSignal (settings : ScalingSettings F) (scaling : Scaling F) (toAddServer : Bool) :
    Scaling F × Bool :=
  let signals := if toAddServer then scaling.consecutiveScaleUpSignals + 1 else 0
  if settings.malleabilityTolerance ≤ signals then
    ({ scaling with consecutiveScaleUpSignals := 0 }, true)
  else ({ scaling with consecutiveScaleUpSignals := signals }, false)

/-- The locked section before a launch. The call of `AddIPS` in it is commented out. -/
def prepare (scaling : Scaling F) : Scaling F :=
  { scaling with
    numberActiveStorageServers := scaling.registered.length
    comissioningOn := true
    idServerToModify := scaling.registered.length - 1 }

/-- The command that starts a server, with the globals as they are when it is put together. -/
def start (scaling : Scaling F) : Scaling F :=
  { scaling with awaiting := scaling.awaiting ++ [(scaling.idServerToModify, scaling.nodeToUse)] }

/-- The registration of a server, by `AddIPS`. -/
def register (scaling : Scaling F) (id : Int) (host : CString) : Scaling F :=
  { scaling with
    registered := scaling.registered ++ [(id, withoutNewline host)]
    awaiting := scaling.awaiting.erase (id, some host) }

/-- `AttendPendingRequests`; the answers to the requests are left out. -/
def attendPendingRequests (scaling : Scaling F) : Scaling F :=
  if scaling.malleabilityOn ≤ 0 then scaling
  else if scaling.idServerToModify < 0 then scaling
  else { scaling with nodeToUse := none }

/-- A message that a data server has moved its blocks. -/
def acknowledge (scaling : Scaling F) (expectedAcks : Nat) : Scaling F :=
  if expectedAcks ≤ scaling.acksReceived + 1 then
    { scaling.attendPendingRequests with malleabilityOn := 0, acksReceived := 0 }
  else { scaling with acksReceived := scaling.acksReceived + 1 }

variable [Zero F] [Add F] [Div F] [NatCast F] [LT F] [DecidableLT F]

/-- One step of a thread: `Malleability` with `CommissioningStage`, the handler of `SETSERVER`, and
that of the acknowledgements. -/
def step (settings : ScalingSettings F) (scaling : Scaling F) :
    ScalingPhase F → Scaling F × ScalingPhase F
  | .report [] _ => (scaling, .check)
  | .report (entry :: entries) metricRecorded =>
      let received := scaling.receive settings entry metricRecorded
      (received.1, .report entries received.2)
  | .check =>
      (scaling,
        if settings.malleability ≠ 0 ∧ scaling.comissioningOn = false then .decide else .done)
  | .decide =>
      (scaling, .signal (makeScalingDecision scaling.elasticityRecordsHistory
        settings.malleabilityWindowsSize settings.malleabilityPerformanceThreshold))
  | .signal toAddServer =>
      let counted := scaling.countSignal settings toAddServer
      (counted.1, if counted.2 then .scan settings.hosts else .done)
  | .scan [] => (scaling, .test)
  | .scan (host :: hosts) =>
      if scaling.ips.contains host then (scaling, .scan hosts)
      else ({ scaling with nodeToUse := some host }, .test)
  | .test => (scaling, if scaling.nodeToUse = none then .done else .setUp)
  | .setUp => (scaling.prepare, .launch)
  | .launch => (scaling.start, .done)
  | .connect id host connects => (scaling, if connects then .reset id host else .done)
  | .reset id host => ({ scaling with comissioningOn := false }, .add id host)
  | .add id host => (scaling.register id host, .done)
  | .acknowledge expectedAcks => (scaling.acknowledge expectedAcks, .done)
  | .done => (scaling, .done)

end Scaling

/-- The metadata server and the threads that handle its requests. -/
abbrev ScalingState (ι : Type v) (F : Type u) := State ι (Scaling F) (ScalingPhase F)

/-- The start of the server; each thread has a request. -/
def ScalingState.start {ι : Type v} {F : Type u} (requests : ι → ScalingRequest F) :
    ScalingState ι F :=
  ⟨Scaling.init, fun i => (requests i).phase⟩

/-! ## What commissioning has to guarantee -/

/-- A launch in this state uses a host and an id that no registered server has; there is a host
that is not in use. -/
structure Scaling.LaunchesFresh {F : Type u} (hosts : List CString) (scaling : Scaling F) :
    Prop where
  host : ∃ host, scaling.nodeToUse = some host ∧ host ∉ scaling.ips
  id : scaling.idServerToModify ∉ scaling.ids
  available : ∃ host ∈ hosts, host ∉ scaling.ips

section Runs

variable {ι : Type v} [DecidableEq ι] {F : Type u}
  [Zero F] [Add F] [Div F] [NatCast F] [LT F] [DecidableLT F]

/-- The state after the steps of a schedule. -/
def ScalingState.after (settings : ScalingSettings F) (requests : ι → ScalingRequest F)
    (schedule : List ι) : ScalingState ι F :=
  interleave (fun _ => Scaling.step settings) schedule (ScalingState.start requests)

/-- In every state of the run at most one launched server awaits its registration, and each launch
of the run uses a fresh host and a fresh id. -/
structure Commissions (settings : ScalingSettings F) (requests : ι → ScalingRequest F)
    (schedule : List ι) : Prop where
  awaiting : ∀ before, before <+: schedule →
    (ScalingState.after settings requests before).shared.awaiting.length ≤ 1
  launches : ∀ before i, before ++ [i] <+: schedule →
    (ScalingState.after settings requests before).phase i = .launch →
    (ScalingState.after settings requests before).shared.LaunchesFresh settings.hosts

end Runs

/-! ## Steps that do not get in each other's way -/

namespace ScalingPhase

variable {F : Type u}

/-- The thread is between the test of the flag and the launch, or between the connection to a new
server and its registration. -/
def Busy : ScalingPhase F → Prop
  | .decide | .signal _ | .scan _ | .test | .setUp | .launch => True
  | .reset _ _ | .add _ _ => True
  | _ => False

/-- The next step takes the thread past its first test. -/
def Enters (settings : ScalingSettings F) (scaling : Scaling F) : ScalingPhase F → Prop
  | .check => settings.malleability ≠ 0 ∧ scaling.comissioningOn = false
  | .connect _ _ connects => connects = true
  | _ => False

/-- A scan that finds all hosts in use finds no host of an earlier launch in `node_to_use`. The id
that a launch is going to use is free. A server that registers is the one that was launched, if
there is one. -/
def Fits (scaling : Scaling F) : ScalingPhase F → Prop
  | .scan [] => scaling.nodeToUse = none
  | .setUp => (scaling.registered.length : Int) - 1 ∉ scaling.ids
  | .connect id host _ => scaling.awaiting = [] ∨ scaling.awaiting = [(id, some host)]
  | _ => True

instance decidableBusy : ∀ phase : ScalingPhase F, Decidable phase.Busy
  | .decide | .signal _ | .scan _ | .test | .setUp | .launch => isTrue trivial
  | .reset _ _ | .add _ _ => isTrue trivial
  | .report _ _ | .check | .connect _ _ _ | .acknowledge _ | .done => isFalse id

instance decidableEnters (settings : ScalingSettings F) (scaling : Scaling F) :
    ∀ phase : ScalingPhase F, Decidable (phase.Enters settings scaling)
  | .check => inferInstanceAs (Decidable (_ ∧ _))
  | .connect _ _ connects => inferInstanceAs (Decidable (connects = true))
  | .decide | .signal _ | .scan _ | .test | .setUp | .launch => isFalse id
  | .report _ _ | .reset _ _ | .add _ _ | .acknowledge _ | .done => isFalse id

instance decidableFits (scaling : Scaling F) :
    ∀ phase : ScalingPhase F, Decidable (phase.Fits scaling)
  | .scan [] => inferInstanceAs (Decidable (scaling.nodeToUse = none))
  | .setUp => inferInstanceAs (Decidable (_ ∉ scaling.ids))
  | .connect _ _ _ => inferInstanceAs (Decidable (_ ∨ _))
  | .decide | .signal _ | .scan (_ :: _) | .test | .launch => isTrue trivial
  | .report _ _ | .check | .reset _ _ | .add _ _ | .acknowledge _ | .done => isTrue trivial

end ScalingPhase

/-- The next step of a thread fits the state, and it does not take the thread to its work while
another one is in the middle of its own. -/
structure InTurn {ι : Type v} {F : Type u} (settings : ScalingSettings F) (state : ScalingState ι F)
    (i : ι) : Prop where
  alone : (state.phase i).Enters settings state.shared → ∀ j, ¬ (state.phase j).Busy
  fits : (state.phase i).Fits state.shared

instance {ι : Type v} [Fintype ι] {F : Type u} (settings : ScalingSettings F)
    (state : ScalingState ι F) (i : ι) : Decidable (InTurn settings state i) :=
  decidable_of_iff (((state.phase i).Enters settings state.shared →
      ∀ j, ¬ (state.phase j).Busy) ∧ (state.phase i).Fits state.shared)
    ⟨fun h => ⟨h.1, h.2⟩, fun h => ⟨h.alone, h.fits⟩⟩

namespace ScalingPhase

variable {F : Type u} {settings : ScalingSettings F} {hosts : List CString} {phase : ScalingPhase F}
  {scaling scaling' : Scaling F}

/-- What a thread may rely on, phase by phase, when the steps are taken in turn. -/
def Ok (hosts : List CString) (scaling : Scaling F) : ScalingPhase F → Prop
  | .decide | .signal _ => scaling.awaiting = []
  | .scan left => scaling.awaiting = [] ∧ left ⊆ hosts
  | .test => scaling.awaiting = [] ∧
      ∀ host, scaling.nodeToUse = some host → host ∈ hosts ∧ host ∉ scaling.ips
  | .setUp => scaling.awaiting = [] ∧
      ∃ host, scaling.nodeToUse = some host ∧ host ∈ hosts ∧ host ∉ scaling.ips
  | .launch => scaling.awaiting = [] ∧ scaling.comissioningOn = true ∧
      scaling.idServerToModify ∉ scaling.ids ∧
      ∃ host, scaling.nodeToUse = some host ∧ host ∈ hosts ∧ host ∉ scaling.ips
  | .reset id host | .add id host => scaling.awaiting = [] ∨ scaling.awaiting = [(id, some host)]
  | _ => True

theorem Ok.of_not_busy (h : ¬ phase.Busy) : phase.Ok hosts scaling := by
  cases phase with
  | report _ _ => trivial
  | check => trivial
  | connect _ _ _ => trivial
  | acknowledge _ => trivial
  | done => trivial
  | _ => exact absurd trivial h

end ScalingPhase

namespace Scaling

variable {F : Type u} {settings : ScalingSettings F} {phase : ScalingPhase F}
  {scaling scaling' : Scaling F}

/-- Two states that agree in all that the phases rely on. -/
structure Same (scaling scaling' : Scaling F) : Prop where
  comissioningOn : scaling'.comissioningOn = scaling.comissioningOn
  nodeToUse : scaling'.nodeToUse = scaling.nodeToUse
  idServerToModify : scaling'.idServerToModify = scaling.idServerToModify
  registered : scaling'.registered = scaling.registered
  awaiting : scaling'.awaiting = scaling.awaiting

theorem Same.ok {hosts : List CString} (hsame : Same scaling scaling')
    (hok : phase.Ok hosts scaling) : phase.Ok hosts scaling' := by
  obtain ⟨hflag, hnode, hid, hregistered, hawaiting⟩ := hsame
  rw [ScalingPhase.Ok.eq_def] at hok ⊢
  simp only [ips, ids, hflag, hnode, hid, hregistered, hawaiting]
  exact hok

theorem Same.acknowledge (hoff : scaling.malleabilityOn ≤ 0) (expectedAcks : Nat) :
    Same scaling (scaling.acknowledge expectedAcks) ∧
      (scaling.acknowledge expectedAcks).malleabilityOn ≤ 0 := by
  rw [Scaling.acknowledge, attendPendingRequests, if_pos hoff]
  split
  · exact ⟨⟨rfl, rfl, rfl, rfl, rfl⟩, Int.le_refl 0⟩
  · exact ⟨⟨rfl, rfl, rfl, rfl, rfl⟩, hoff⟩

theorem Same.countSignal (settings : ScalingSettings F) (scaling : Scaling F) (toAddServer : Bool) :
    Same scaling (scaling.countSignal settings toAddServer).1 ∧
      (scaling.countSignal settings toAddServer).1.malleabilityOn = scaling.malleabilityOn := by
  rw [Scaling.countSignal]
  generalize (if toAddServer = true then scaling.consecutiveScaleUpSignals + 1 else 0) = signals
  split
  · exact ⟨⟨rfl, rfl, rfl, rfl, rfl⟩, rfl⟩
  · exact ⟨⟨rfl, rfl, rfl, rfl, rfl⟩, rfl⟩

variable [Zero F] [Add F] [Div F] [NatCast F] [LT F] [DecidableLT F]

/-- The steps of a thread before its first test and after its last change. -/
theorem Same.step (settings : ScalingSettings F) (hoff : scaling.malleabilityOn ≤ 0)
    (hbusy : ¬ phase.Busy) :
    Same scaling (scaling.step settings phase).1 ∧
      (scaling.step settings phase).1.malleabilityOn ≤ 0 := by
  cases phase with
  | report entries metricRecorded =>
      cases entries with
      | nil => exact ⟨⟨rfl, rfl, rfl, rfl, rfl⟩, hoff⟩
      | cons entry entries => exact ⟨⟨rfl, rfl, rfl, rfl, rfl⟩, hoff⟩
  | check => exact ⟨⟨rfl, rfl, rfl, rfl, rfl⟩, hoff⟩
  | connect id host connects => exact ⟨⟨rfl, rfl, rfl, rfl, rfl⟩, hoff⟩
  | acknowledge expectedAcks => exact Same.acknowledge hoff expectedAcks
  | done => exact ⟨⟨rfl, rfl, rfl, rfl, rfl⟩, hoff⟩
  | _ => exact absurd trivial hbusy

/-- A thread starts its work by one of two steps. -/
theorem step_busy_cases (hbusy : ¬ phase.Busy) (hnext : (scaling.step settings phase).2.Busy) :
    phase.Enters settings scaling ∧
      ((phase = .check ∧ (scaling.step settings phase).2 = .decide) ∨
        ∃ id host, phase = .connect id host true ∧
          (scaling.step settings phase).2 = .reset id host) := by
  cases phase with
  | report entries metricRecorded =>
      cases entries with
      | nil => exact hnext.elim
      | cons entry entries => exact hnext.elim
  | check =>
      by_cases hpass : settings.malleability ≠ 0 ∧ scaling.comissioningOn = false
      · exact ⟨hpass, Or.inl ⟨rfl, if_pos hpass⟩⟩
      · rw [Scaling.step, if_neg hpass] at hnext
        exact hnext.elim
  | connect id host connects =>
      cases connects with
      | false => exact hnext.elim
      | true => exact ⟨rfl, Or.inr ⟨id, host, rfl, rfl⟩⟩
  | acknowledge expectedAcks => exact hnext.elim
  | done => exact hnext.elim
  | _ => exact absurd trivial hbusy

end Scaling

/-- What holds in every state when the steps are taken in turn. -/
structure ScalingInv {ι : Type v} {F : Type u} (settings : ScalingSettings F)
    (state : ScalingState ι F) : Prop where
  off : state.shared.malleabilityOn ≤ 0
  alone : ∀ i j, (state.phase i).Busy → (state.phase j).Busy → i = j
  ok : ∀ i, (state.phase i).Ok settings.hosts state.shared
  awaiting : state.shared.awaiting.length ≤ 1
  flag : state.shared.comissioningOn = false → state.shared.awaiting ≠ [] →
    ∃ i id host, state.phase i = .add id host

namespace ScalingInv

variable {ι : Type v} [DecidableEq ι] {F : Type u} {settings : ScalingSettings F}
  {state : ScalingState ι F} {i : ι} {scaling : Scaling F} {phase : ScalingPhase F}

omit [DecidableEq ι] in
theorem start (requests : ι → ScalingRequest F) :
    ScalingInv settings (ScalingState.start requests) := by
  have hidle : ∀ i, ¬ ((ScalingState.start requests).phase i).Busy := by
    intro i hbusy
    change ((requests i).phase).Busy at hbusy
    cases hrequest : requests i <;> rw [hrequest] at hbusy <;> exact hbusy
  refine ⟨Int.le_refl 0, ?_, ?_, Nat.zero_le 1, ?_⟩
  · intro i j hi
    exact absurd hi (hidle i)
  · intro i
    exact .of_not_busy (hidle i)
  · intro _ hne
    exact absurd rfl hne

/-- A step of the thread that is at work: no other thread relies on anything. -/
theorem work (hinv : ScalingInv settings state) (hbusy : (state.phase i).Busy)
    (hoff : scaling.malleabilityOn ≤ 0) (hok : phase.Ok settings.hosts scaling)
    (hawaiting : scaling.awaiting.length ≤ 1)
    (hflag : scaling.comissioningOn = false → scaling.awaiting ≠ [] →
      ∃ id host, phase = .add id host) :
    ScalingInv settings ⟨scaling, Function.update state.phase i phase⟩ := by
  have hidle : ∀ j, j ≠ i → ¬ (Function.update state.phase i phase j).Busy := by
    intro j hne hj
    rw [Function.update_of_ne hne] at hj
    exact hne (hinv.alone j i hj hbusy)
  refine ⟨hoff, ?_, ?_, hawaiting, ?_⟩
  · intro j k hj hk
    have hji := of_not_not fun hne => hidle j hne hj
    have hki := of_not_not fun hne => hidle k hne hk
    exact hji.trans hki.symm
  · intro j
    rcases eq_or_ne j i with rfl | hne
    · dsimp only
      rw [Function.update_self]
      exact hok
    · exact .of_not_busy (hidle j hne)
  · intro hoff' hne
    obtain ⟨id, host, hadd⟩ := hflag hoff' hne
    exact ⟨i, id, host, (Function.update_self i _ _).trans hadd⟩

omit [DecidableEq ι] in
/-- Nothing is awaited while no launch is under way and no thread is at work. -/
theorem awaiting_eq_nil (hinv : ScalingInv settings state) (hidle : ∀ j, ¬ (state.phase j).Busy)
    (hflag : state.shared.comissioningOn = false) : state.shared.awaiting = [] := by
  by_contra hne
  obtain ⟨j, id, host, hadd⟩ := hinv.flag hflag hne
  exact hidle j (hadd ▸ trivial)

variable [Zero F] [Add F] [Div F] [NatCast F] [LT F] [DecidableLT F]

/-- A step of a thread that is not at work. -/
theorem quiet (hinv : ScalingInv settings state) (hturn : InTurn settings state i)
    (hbusy : ¬ (state.phase i).Busy) :
    ScalingInv settings (Threads.next (fun _ => Scaling.step settings) state i) := by
  obtain ⟨hsame, hoff⟩ := Scaling.Same.step settings hinv.off hbusy
  have henters : (state.shared.step settings (state.phase i)).2.Busy →
      ∀ j, ¬ (state.phase j).Busy := fun hnext =>
    hturn.alone (Scaling.step_busy_cases hbusy hnext).1
  refine ⟨hoff, ?_, ?_, hsame.awaiting.symm ▸ hinv.awaiting, ?_⟩
  · intro j k hj hk
    rcases eq_or_ne j i with rfl | hji
    · rcases eq_or_ne k j with rfl | hkj
      · rfl
      · rw [phase_next_self] at hj
        rw [phase_next_of_ne hkj] at hk
        exact absurd hk (henters hj k)
    · rw [phase_next_of_ne hji] at hj
      rcases eq_or_ne k i with rfl | hki
      · rw [phase_next_self] at hk
        exact absurd hj (henters hk j)
      · rw [phase_next_of_ne hki] at hk
        exact hinv.alone j k hj hk
  · intro j
    rcases eq_or_ne j i with rfl | hne
    · rw [phase_next_self, shared_next]
      by_cases hnext : (state.shared.step settings (state.phase j)).2.Busy
      · obtain ⟨henter, ⟨hcheck, hdecide⟩ | ⟨id, host, hconnect, hreset⟩⟩ :=
          Scaling.step_busy_cases hbusy hnext
        · rw [hcheck] at henter
          rw [hdecide]
          exact hsame.awaiting.trans (hinv.awaiting_eq_nil (henters hnext) henter.2)
        · have hfits := hturn.fits
          rw [hconnect] at hfits
          rw [hreset]
          exact hsame.ok (hfits : (ScalingPhase.reset id host).Ok _ _)
      · exact .of_not_busy hnext
    · rw [phase_next_of_ne hne]
      exact hsame.ok (hinv.ok j)
  · intro hflag hne
    obtain ⟨j, id, host, hadd⟩ :=
      hinv.flag (hsame.comissioningOn.symm.trans hflag) (hsame.awaiting ▸ hne)
    have hji : j ≠ i := fun heq => hbusy (heq ▸ hadd ▸ trivial)
    exact ⟨j, id, host, (phase_next_of_ne hji).trans hadd⟩

/-- One step of one thread. -/
theorem next (hinv : ScalingInv settings state) (hturn : InTurn settings state i) :
    ScalingInv settings (Threads.next (fun _ => Scaling.step settings) state i) := by
  by_cases hbusy : (state.phase i).Busy
  swap
  · exact hinv.quiet hturn hbusy
  have hok := hinv.ok i
  rw [Threads.next]
  cases hphase : state.phase i with
  | decide =>
      rw [hphase] at hok
      refine hinv.work hbusy hinv.off hok hinv.awaiting fun _ hne => absurd hok hne
  | signal toAddServer =>
      rw [hphase] at hok
      have hsame := Scaling.Same.countSignal settings state.shared toAddServer
      have hnil := hsame.1.awaiting.trans hok
      have hlength := hsame.1.awaiting.symm ▸ hinv.awaiting
      simp only [Scaling.step]
      refine hinv.work hbusy (hsame.2.symm ▸ hinv.off) ?_ hlength fun _ hne => absurd hnil hne
      split
      · exact ⟨hnil, List.Subset.refl _⟩
      · trivial
  | scan left =>
      rw [hphase] at hok
      obtain ⟨hnil, hsub⟩ := hok
      cases left with
      | nil =>
          refine hinv.work hbusy hinv.off ⟨hnil, ?_⟩ hinv.awaiting fun _ hne => absurd hnil hne
          intro host hhost
          have hfits := hturn.fits
          rw [hphase] at hfits
          cases hfits.symm.trans hhost
      | cons host left =>
          rw [Scaling.step]
          split
          next hmem =>
            exact hinv.work hbusy hinv.off ⟨hnil, fun _ h => hsub (List.mem_cons_of_mem _ h)⟩
              hinv.awaiting fun _ hne => absurd hnil hne
          next hmem =>
            refine hinv.work hbusy hinv.off ⟨hnil, ?_⟩ hinv.awaiting fun _ hne => absurd hnil hne
            intro host' hhost'
            obtain rfl := Option.some.inj hhost'
            refine ⟨hsub List.mem_cons_self, ?_⟩
            rw [List.contains_iff_mem] at hmem
            exact hmem
  | test =>
      rw [hphase] at hok
      obtain ⟨hnil, hchosen⟩ := hok
      simp only [Scaling.step]
      refine hinv.work hbusy hinv.off ?_ hinv.awaiting fun _ hne => absurd hnil hne
      split
      next => trivial
      next hsome =>
        obtain ⟨host, hhost⟩ := Option.ne_none_iff_exists'.mp hsome
        exact ⟨hnil, host, hhost, hchosen host hhost⟩
  | setUp =>
      rw [hphase] at hok
      obtain ⟨hnil, hchosen⟩ := hok
      have hfits := hturn.fits
      rw [hphase] at hfits
      refine hinv.work hbusy hinv.off ⟨hnil, rfl, hfits, hchosen⟩ hinv.awaiting ?_
      intro hflag
      cases hflag
  | launch =>
      rw [hphase] at hok
      obtain ⟨hnil, hflag, -, -⟩ := hok
      refine hinv.work hbusy hinv.off trivial ?_ ?_
      · rw [Scaling.step, Scaling.start, hnil]
        exact Nat.le_refl 1
      · intro hflag'
        exact absurd (hflag.symm.trans hflag') (by decide)
  | reset id host =>
      rw [hphase] at hok
      exact hinv.work hbusy hinv.off hok hinv.awaiting fun _ _ => ⟨id, host, rfl⟩
  | add id host =>
      rw [hphase] at hok
      have hnil : (state.shared.register id host).awaiting = [] := by
        rw [Scaling.register]
        rcases hok with hok | hok
        · rw [hok]
          rfl
        · rw [hok]
          exact List.erase_cons_head _ _
      exact hinv.work hbusy hinv.off trivial (hnil ▸ Nat.zero_le 1) fun _ hne => absurd hnil hne
  | _ => exact absurd hbusy (hphase ▸ id)

omit [DecidableEq ι] [Zero F] [Add F] [Div F] [NatCast F] [LT F] [DecidableLT F] in
/-- The invariant says of a thread that is going to launch a server what is required of it. -/
theorem launchesFresh (hinv : ScalingInv settings state) (hphase : state.phase i = .launch) :
    state.shared.LaunchesFresh settings.hosts := by
  have hok := hinv.ok i
  rw [hphase] at hok
  obtain ⟨-, -, hid, host, hnode, hmem, hfresh⟩ := hok
  exact ⟨⟨host, hnode, hfresh⟩, hid, ⟨host, hmem, hfresh⟩⟩

end ScalingInv

section Runs

variable {ι : Type v} [DecidableEq ι] {F : Type u}
  [Zero F] [Add F] [Div F] [NatCast F] [LT F] [DecidableLT F]

/-- Every step of the run is taken in turn. -/
def TakenInTurn (settings : ScalingSettings F) (requests : ι → ScalingRequest F)
    (schedule : List ι) : Prop :=
  Along (fun state i => some (Threads.next (fun _ => Scaling.step settings) state i))
    (InTurn settings) schedule (ScalingState.start requests)

instance [Fintype ι] (settings : ScalingSettings F) (requests : ι → ScalingRequest F)
    (schedule : List ι) : Decidable (TakenInTurn settings requests schedule) :=
  inferInstanceAs (Decidable (Along _ _ _ _))

theorem TakenInTurn.inv {settings : ScalingSettings F} {requests : ι → ScalingRequest F}
    {before schedule : List ι} (hturn : TakenInTurn settings requests schedule)
    (hbefore : before <+: schedule) :
    ScalingInv settings (ScalingState.after settings requests before) := by
  obtain ⟨after, rfl⟩ := hbefore
  refine hturn.of_append.invariant ?_ (ScalingInv.start requests) (run_next before _)
  intro state i state' hinv hstep hnext
  obtain rfl := Option.some.inj hnext
  exact hinv.next hstep

/-- Commissioning over every interleaving of any number of requests, when the steps are taken in
turn. -/
theorem commissions_of_takenInTurn (settings : ScalingSettings F) (requests : ι → ScalingRequest F)
    (schedule : List ι) (hturn : TakenInTurn settings requests schedule) :
    Commissions settings requests schedule := by
  refine ⟨?_, ?_⟩
  · intro before hbefore
    exact (hturn.inv hbefore).awaiting
  · intro before i hbefore hphase
    have hinv := hturn.inv ((List.prefix_append before [i]).trans hbefore)
    exact hinv.launchesFresh hphase

end Runs

/-- Hosts `a` and `b`, and one slow report is enough for a launch. -/
def twoHosts : ScalingSettings Nat where
  malleability := 1
  malleabilityWindowsSize := 1
  malleabilityPerformanceThreshold := 10
  malleabilityTolerance := 1
  allocDataHostfile := [['a', '\n'], ['b', '\n']]
  nearZero value := value == 0

/-- The report of a slow server on host `a`. -/
def slowReport : ScalingRequest Nat :=
  .setPerformance [⟨['a'], 1, 1⟩]

/-- A server registers on `a`, two clients send a report, and a server registers on `b`. -/
def fourRequests (id : Int) (i : Fin 4) : ScalingRequest Nat :=
  if i.1 = 0 then .setServer id ['a'] true
  else if i.1 = 3 then .setServer 0 ['b'] true
  else slowReport

/-- The server that is launched on `b` after a report gets the id 0. The condition is met only
because the one server that is registered has the id 1; the servers of a deployment count from 0,
and then it is not. -/
theorem commissions_of_takenInTurn_fourRequests :
    let schedule := List.replicate 3 0 ++ List.replicate 10 1 ++ List.replicate 3 3
    Commissions twoHosts (fourRequests 1) schedule ∧
      (ScalingState.after twoHosts (fourRequests 1) schedule).shared.registered =
        [(1, ['a']), (0, ['b'])] :=
  ⟨commissions_of_takenInTurn _ _ _ (by decide +kernel), by decide +kernel⟩

/-- Server 0 is registered on `a`. (1) The server that is launched on `b` gets the id 0. (2) Two
threads that pass the test of the flag launch a server each. (3) When the server on `b` is
registered too and no host is left, the next report launches one more server on `b`. -/
theorem not_commissions :
    (¬ Commissions twoHosts (fourRequests 0) (List.replicate 3 0 ++ List.replicate 10 1)) ∧
    (ScalingState.after twoHosts (fourRequests 0) (List.replicate 3 0 ++ List.replicate 3 1 ++
      List.replicate 10 2 ++ List.replicate 7 1)).shared.awaiting =
        [(0, some ['b']), (0, some ['b'])] ∧
    (ScalingState.after twoHosts (fourRequests 0) (List.replicate 3 0 ++ List.replicate 10 1 ++
      List.replicate 3 3)).shared.ips = twoHosts.hosts ∧
    (ScalingState.after twoHosts (fourRequests 0) (List.replicate 3 0 ++ List.replicate 10 1 ++
      List.replicate 3 3 ++ List.replicate 11 2)).shared.awaiting = [(1, some ['b'])] := by
  refine ⟨?_, by decide +kernel, by decide +kernel, by decide +kernel⟩
  intro hcommissions
  have hlaunch := hcommissions.launches (List.replicate 3 0 ++ List.replicate 9 1) 1
    (by decide) (by decide +kernel)
  exact hlaunch.id (by decide +kernel)

end Hercules
