/-
# Three ways to locate a block

`get_data_location` asks `find_server` with the name under which the dataset was created, the
dataset's own policy and the number of servers that the interval table has for the block.
`get_dataloc` takes the current name and the policy number of the record as it is. Before that it
looks for the instance under the name of the dataset up to its last slash, in an array without a
terminator: for `imss://b` this is `imss:/` and what stands behind the array.
`move_blocks_2_server` takes the name and the block number out of the key of the block, and the
policy of the instance. All three are compared for the same number of servers.
-/

import Mathlib.Data.ZMod.Basic
import Mathlib.Tactic.LinearCombination
import Hercules.Cluster.Elastic

namespace Hercules

open Lib.Text

/-- The `case` labels of `find_server`. -/
def policyOfNumber : Int → Option Policy
  | 0 => some .roundRobin
  | 1 => some .buckets
  | 2 => some .hashed
  | 3 => some .crc16
  | 4 => some .crc64
  | 5 => some .local
  | 6 => some .zcopy
  | _ => none

/-- The fields of `dataset_info` that the placement of blocks depends on. -/
structure LocatedDataset where
  uri : CString
  originalName : CString
  policy : CString
  sessionPlcy : Int
  intervals : List (IntervalEntry Int)
  /-- The values are those of an `int`. -/
  value_lt : ∀ entry ∈ intervals, entry.value < 2 ^ 31

namespace LocatedDataset

/-- `get_data_location`, which sets the policy from its name first. Without a positive number of
servers `find_server` ends the process. -/
def getDataLocation (dataset : LocatedDataset) (stack : CString) (numStorages : Nat)
    (dataId : Int) : Option Nat :=
  (getPolicyNumber dataset.policy).bind fun policy =>
    let entryValue := valueFor dataset.intervals dataId
    let count : Int := if entryValue = -1 then numStorages else entryValue
    if count ≤ 0 then none else findServer stack count.toNat dataId dataset.originalName policy

/-- `imss_name` of `get_dataloc`; `behind` is the text in the memory behind the array. -/
def imssName (dataset : LocatedDataset) (behind : CString) : CString :=
  (beforeLastSlash dataset.uri).getD [] ++ behind

/-- `find_imss` finds the instance under that name. -/
def InstanceFound (dataset : LocatedDataset) (imssUri behind : CString) : Prop :=
  (dataset.imssName behind).take 256 = imssUri.take 256

instance (dataset : LocatedDataset) (imssUri behind : CString) :
    Decidable (dataset.InstanceFound imssUri behind) :=
  inferInstanceAs (Decidable (_ = _))

/-- `get_dataloc` in a client of the instance `imssUri`. There is no server if the metadata server
has to be asked: it has no other instance, and a dataset of that name is no instance. -/
def getDataloc (dataset : LocatedDataset) (imssUri behind stack : CString) (numStorages : Nat)
    (dataId : Int) : Option Nat :=
  if dataset.InstanceFound imssUri behind then
    (policyOfNumber dataset.sessionPlcy).bind fun policy =>
      findServer stack numStorages dataId dataset.uri policy
  else none

end LocatedDataset

/-- The text from which `move_blocks_2_server` reads the block number: what follows the first `$`,
or the whole key. -/
def blockText (innerKey : CString) : CString :=
  match fromOn '$' innerKey with
  | [] => innerKey
  | _ :: block => block

/-- The server to which `move_blocks_2_server` sends the block of a key. -/
def moveBlocks2Server (instancePlcy : Int) (stack : CString) (numActive : Nat)
    (innerKey : CString) : Option Nat :=
  (stoi (blockText innerKey)).bind fun blockNumber =>
    (policyOfNumber instancePlcy).bind fun policy =>
      findServer stack numActive blockNumber (upTo '$' innerKey) policy

/-! ## The number of a block -/

/-- One round of the loop of `Hashed`: the multiplier and the hash. -/
def hashedStep (state : Nat × Nat) (c : Char) : Nat × Nat :=
  (state.1 * 378551 % 2 ^ 32, (state.2 * state.1 + signExtend c) % 2 ^ 32)

/-- The multiplier and the hash after a name. -/
def hashedState (fname : CString) : Nat × Nat :=
  fname.foldl hashedStep (63689, 0)

theorem hashedLoop_eq_foldl (key : CString) (a hash : Nat) :
    hashedLoop key a hash = (key.foldl hashedStep (a, hash)).2 := by
  induction key generalizing a hash with
  | nil => rfl
  | cons c key ih =>
      rw [hashedLoop, ih]
      rfl

/-- The hash of a block goes on from that of the name. -/
theorem placeNumber_hashed (fname : CString) (block : Nat) :
    Policy.hashed.placeNumber fname block =
      (('$' :: decimal block).foldl hashedStep (hashedState fname)).2 := by
  rw [Policy.placeNumber, hashedLoop_eq_foldl, blockKey, List.foldl_append]
  rfl

theorem cast_inj_of_lt {x y : Nat} (hx : x < 2 ^ 32) (hy : y < 2 ^ 32)
    (h : (x : ZMod (2 ^ 32)) = y) : x = y := by
  have hmod := (ZMod.natCast_eq_natCast_iff' x y (2 ^ 32)).mp h
  rwa [Nat.mod_eq_of_lt hx, Nat.mod_eq_of_lt hy] at hmod

theorem cast_hashedStep_fst (state : Nat × Nat) (c : Char) :
    ((hashedStep state c).1 : ZMod (2 ^ 32)) = state.1 * 378551 := by
  rw [hashedStep, ZMod.natCast_mod, Nat.cast_mul]
  rfl

theorem cast_hashedStep_snd (state : Nat × Nat) (c : Char) :
    ((hashedStep state c).2 : ZMod (2 ^ 32)) = state.2 * state.1 + signExtend c := by
  rw [hashedStep, ZMod.natCast_mod, Nat.cast_add, Nat.cast_mul]

theorem isUnit_factor : IsUnit (378551 : ZMod (2 ^ 32)) :=
  (ZMod.isUnit_iff_coprime 378551 (2 ^ 32)).mpr (by decide)

/-- The multiplier stays odd. -/
theorem isUnit_foldl_hashedStep (key : CString) {state : Nat × Nat}
    (h : IsUnit (state.1 : ZMod (2 ^ 32))) :
    IsUnit ((key.foldl hashedStep state).1 : ZMod (2 ^ 32)) := by
  induction key generalizing state with
  | nil => exact h
  | cons c key ih =>
      apply ih
      rw [cast_hashedStep_fst]
      exact h.mul isUnit_factor

theorem isUnit_hashedState (fname : CString) :
    IsUnit ((hashedState fname).1 : ZMod (2 ^ 32)) :=
  isUnit_foldl_hashedStep fname ((ZMod.isUnit_iff_coprime 63689 (2 ^ 32)).mpr (by decide))

theorem foldl_hashedStep_lt (key : CString) {state : Nat × Nat}
    (h : state.1 < 2 ^ 32 ∧ state.2 < 2 ^ 32) :
    (key.foldl hashedStep state).1 < 2 ^ 32 ∧ (key.foldl hashedStep state).2 < 2 ^ 32 := by
  induction key generalizing state with
  | nil => exact h
  | cons c key ih =>
      apply ih
      exact ⟨Nat.mod_lt _ (by norm_num), Nat.mod_lt _ (by norm_num)⟩

theorem hashedState_lt (fname : CString) :
    (hashedState fname).1 < 2 ^ 32 ∧ (hashedState fname).2 < 2 ^ 32 :=
  foldl_hashedStep_lt fname (by norm_num)

/-- The hash of `fname$`, with the multiplier for the first digit applied. -/
def hashBase (fname : CString) : ZMod (2 ^ 32) :=
  ((hashedState fname).2 * (hashedState fname).1 + signExtend '$') *
    ((hashedState fname).1 * 378551)

/-- The multiplier for the second digit. -/
def secondMultiplier (fname : CString) : ZMod (2 ^ 32) :=
  (hashedState fname).1 * 378551 * 378551

theorem isUnit_secondMultiplier (fname : CString) : IsUnit (secondMultiplier fname) :=
  ((isUnit_hashedState fname).mul isUnit_factor).mul isUnit_factor

theorem cast_placeNumber_digit {block : Nat} {x : Char} (hdecimal : decimal block = [x])
    (fname : CString) :
    (Policy.hashed.placeNumber fname block : ZMod (2 ^ 32)) = hashBase fname + signExtend x := by
  simp only [placeNumber_hashed, hdecimal, List.foldl_cons, List.foldl_nil, cast_hashedStep_fst,
    cast_hashedStep_snd, hashBase]

theorem cast_placeNumber_digits {block : Nat} {x y : Char} (hdecimal : decimal block = [x, y])
    (fname : CString) :
    (Policy.hashed.placeNumber fname block : ZMod (2 ^ 32)) =
      (hashBase fname + signExtend x) * secondMultiplier fname + signExtend y := by
  simp only [placeNumber_hashed, hdecimal, List.foldl_cons, List.foldl_nil, cast_hashedStep_fst,
    cast_hashedStep_snd, hashBase, secondMultiplier]

/-- The two values that the hashes of blocks depend on are those of one state. -/
theorem hashedState_eq_of_base {fname fname' : CString}
    (hbase : hashBase fname = hashBase fname')
    (hsecond : secondMultiplier fname = secondMultiplier fname') :
    hashedState fname = hashedState fname' := by
  have hfst : ((hashedState fname).1 : ZMod (2 ^ 32)) = (hashedState fname').1 :=
    isUnit_factor.mul_right_cancel (isUnit_factor.mul_right_cancel hsecond)
  have hsnd : ((hashedState fname).2 : ZMod (2 ^ 32)) = (hashedState fname').2 := by
    rw [hashBase, hashBase, hfst] at hbase
    have hsum := ((isUnit_hashedState fname').mul isUnit_factor).mul_right_cancel hbase
    exact (isUnit_hashedState fname').mul_right_cancel (add_right_cancel hsum)
  apply Prod.ext
  · exact cast_inj_of_lt (hashedState_lt fname).1 (hashedState_lt fname').1 hfst
  · exact cast_inj_of_lt (hashedState_lt fname).2 (hashedState_lt fname').2 hsnd

theorem crc16Entry_lt (byte : Nat) : crc16Entry byte < 2 ^ 16 := by
  rw [crc16Entry, List.range_succ, List.foldl_append, List.foldl_cons, List.foldl_nil]
  split
  · exact Nat.lt_of_le_of_lt Nat.and_le_right (by norm_num)
  · exact Nat.lt_of_le_of_lt Nat.and_le_right (by norm_num)

theorem crc16_lt (fname : CString) : crc16 fname < 2 ^ 16 := by
  have hloop : ∀ (buf : CString) (crc : Nat), crc < 2 ^ 16 →
      buf.foldl (fun crc c =>
        ((crc <<< 8) &&& 0xFFFF) ^^^ crc16Entry (((crc >>> 8) ^^^ c.toNat) &&& 0xFF)) crc <
          2 ^ 16 := by
    intro buf
    induction buf with
    | nil => exact fun crc h => h
    | cons c buf ih =>
        intro crc _
        apply ih
        apply Nat.xor_lt_two_pow
        · exact Nat.lt_of_le_of_lt Nat.and_le_right (by norm_num)
        · exact crc16Entry_lt _
  exact hloop fname 0 (by norm_num)

/-- The numbers of the blocks that are looked at below are those of `uint32_t`. -/
theorem placeNumber_lt (policy : Policy) (fname : CString) {block : Nat} (hblock : block ≤ 21) :
    policy.placeNumber fname block < 2 ^ 32 := by
  have hcrc := crc16_lt fname
  cases policy
  case hashed =>
    rw [placeNumber_hashed]
    exact (foldl_hashedStep_lt _ (hashedState_lt fname)).2
  all_goals
    simp only [Policy.placeNumber]
    omega

/-- Two policies give the blocks of two names the same numbers. -/
def SamePlacement (policy policy' : Policy) (fname fname' : CString) : Prop :=
  policy.Turns ∧ policy'.Turns ∧ crc16 fname = crc16 fname' ∨
    policy = .hashed ∧ policy' = .hashed ∧ hashedState fname = hashedState fname'

variable {policy policy' : Policy} {fname fname' : CString}

theorem SamePlacement.placed (h : SamePlacement policy policy' fname fname') : policy.Placed := by
  rcases h with ⟨hturns, -, -⟩ | ⟨rfl, -, -⟩
  · exact hturns.placed
  · exact Or.inr (Or.inl rfl)

theorem SamePlacement.placed' (h : SamePlacement policy policy' fname fname') : policy'.Placed := by
  rcases h with ⟨-, hturns, -⟩ | ⟨-, rfl, -⟩
  · exact hturns.placed
  · exact Or.inr (Or.inl rfl)

theorem SamePlacement.placeNumber_eq (h : SamePlacement policy policy' fname fname')
    (block : Nat) : policy.placeNumber fname block = policy'.placeNumber fname' block := by
  rcases h with ⟨hturns, hturns', hcrc⟩ | ⟨rfl, rfl, hstate⟩
  · rw [hturns.placeNumber, hturns'.placeNumber, hcrc]
  · rw [placeNumber_hashed, placeNumber_hashed, hstate]

/-- The number of the next block is one more, before the blocks 1, 11 and 21. -/
theorem cast_placeNumber_succ (hplaced : policy.Placed) (fname : CString) {block : Nat}
    (hblock : block = 0 ∨ block = 10 ∨ block = 20) :
    (policy.placeNumber fname (block + 1) : ZMod (2 ^ 32)) =
      policy.placeNumber fname block + 1 := by
  have hdigit : ((signExtend '1' : Nat) : ZMod (2 ^ 32)) = signExtend '0' + 1 := by
    decide
  rcases hplaced.turns_or_hashed with hturns | rfl
  · rw [hturns.placeNumber, hturns.placeNumber, ← Nat.add_assoc, Nat.cast_add_one]
  rcases hblock with rfl | rfl | rfl
  · rw [cast_placeNumber_digit (x := '1') rfl, cast_placeNumber_digit (x := '0') rfl, hdigit,
      add_assoc]
  · rw [cast_placeNumber_digits (x := '1') (y := '1') rfl,
      cast_placeNumber_digits (x := '1') (y := '0') rfl, hdigit, add_assoc]
  · rw [cast_placeNumber_digits (x := '2') (y := '1') rfl,
      cast_placeNumber_digits (x := '2') (y := '0') rfl, hdigit, add_assoc]

/-- Round robin and hashing differ on one of the blocks 0, 10 and 20: the numbers of round robin
grow by 10, those of the hash by an odd multiplier. -/
theorem not_turns_hashed (hturns : policy.Turns)
    (hnumber : ∀ block, block = 0 ∨ block = 10 ∨ block = 20 →
      (policy.placeNumber fname block : ZMod (2 ^ 32)) = Policy.hashed.placeNumber fname' block) :
    False := by
  have hzero := hnumber 0 (Or.inl rfl)
  have hten := hnumber 10 (Or.inr (Or.inl rfl))
  have htwenty := hnumber 20 (Or.inr (Or.inr rfl))
  rw [hturns.placeNumber, cast_placeNumber_digit (x := '0') rfl, Nat.cast_add] at hzero
  rw [hturns.placeNumber, cast_placeNumber_digits (x := '1') (y := '0') rfl, Nat.cast_add] at hten
  rw [hturns.placeNumber, cast_placeNumber_digits (x := '2') (y := '0') rfl, Nat.cast_add]
    at htwenty
  have hdigit : ((signExtend '2' : Nat) : ZMod (2 ^ 32)) = signExtend '1' + 1 := by
    decide
  have hten' : secondMultiplier fname' = (10 : Nat) := by
    rw [hdigit] at htwenty
    have h20 : ((20 : Nat) : ZMod (2 ^ 32)) = (10 : Nat) + (10 : Nat) := by
      decide
    rw [h20] at htwenty
    linear_combination hten - htwenty
  have hunit := isUnit_secondMultiplier fname'
  rw [hten', ZMod.isUnit_iff_coprime] at hunit
  exact absurd hunit (by decide)

/-- The numbers of the blocks 0, 10 and 20 tell which placement it is. -/
theorem samePlacement_of_placeNumber (hplaced : policy.Placed) (hplaced' : policy'.Placed)
    (hnumber : ∀ block, block = 0 ∨ block = 10 ∨ block = 20 →
      (policy.placeNumber fname block : ZMod (2 ^ 32)) = policy'.placeNumber fname' block) :
    SamePlacement policy policy' fname fname' := by
  rcases hplaced.turns_or_hashed with hturns | rfl
  · rcases hplaced'.turns_or_hashed with hturns' | rfl
    · have hzero := hnumber 0 (Or.inl rfl)
      have hcrc := cast_inj_of_lt (placeNumber_lt policy fname (Nat.zero_le _))
        (placeNumber_lt policy' fname' (Nat.zero_le _)) hzero
      rw [hturns.placeNumber, hturns'.placeNumber] at hcrc
      exact Or.inl ⟨hturns, hturns', hcrc⟩
    · exact (not_turns_hashed hturns hnumber).elim
  · rcases hplaced'.turns_or_hashed with hturns' | rfl
    · exact (not_turns_hashed hturns' fun block hblock => (hnumber block hblock).symm).elim
    · have hzero := hnumber 0 (Or.inl rfl)
      have hten := hnumber 10 (Or.inr (Or.inl rfl))
      have htwenty := hnumber 20 (Or.inr (Or.inr rfl))
      rw [cast_placeNumber_digit (x := '0') rfl, cast_placeNumber_digit (x := '0') rfl] at hzero
      rw [cast_placeNumber_digits (x := '1') (y := '0') rfl,
        cast_placeNumber_digits (x := '1') (y := '0') rfl] at hten
      rw [cast_placeNumber_digits (x := '2') (y := '0') rfl,
        cast_placeNumber_digits (x := '2') (y := '0') rfl] at htwenty
      have hbase : hashBase fname = hashBase fname' := add_right_cancel hzero
      have hdigit : ((signExtend '2' : Nat) : ZMod (2 ^ 32)) = signExtend '1' + 1 := by
        decide
      have hsecond : secondMultiplier fname = secondMultiplier fname' := by
        rw [hbase] at hten htwenty
        rw [hdigit] at htwenty
        linear_combination htwenty - hten
      exact Or.inr ⟨rfl, rfl, hashedState_eq_of_base hbase hsecond⟩

/-! ## Agreement -/

namespace LocatedDataset

/-- All three choose one server, for every block and every number of servers whose sum an `int`
holds, and whatever the array of the CRC policies contains. -/
def LocationsAgree (dataset : LocatedDataset) (instancePlcy : Int) (imssUri behind : CString) :
    Prop :=
  ∀ numServers block : Nat, 0 < numServers → block + numServers < 2 ^ 31 →
    ∃ server, ∀ stack, dataset.getDataLocation stack numServers block = some server ∧
      dataset.getDataloc imssUri behind stack numServers block = some server ∧
      moveBlocks2Server instancePlcy stack numServers (blockKey dataset.uri block) = some server

/-- The block is on server 0 if `value` servers are counted. -/
def OnFirst (policy : Policy) (fname : CString) (value block : Nat) : Prop :=
  if policy = .hashed then value ∣ policy.placeNumber fname block
  else (value : Int) ∣ int32 ((crc16 fname % value : Nat) + (block : Int))

/-- The instance is found, the name has no separator, the three policies and the two names give the
same placement, and a block with an interval is on server 0 however many servers there are. -/
structure LocatedAlike (dataset : LocatedDataset) (instancePlcy : Int) (imssUri behind : CString)
    (policy sessionPolicy instancePolicy : Policy) : Prop where
  instance_found : dataset.InstanceFound imssUri behind
  policy_eq : getPolicyNumber dataset.policy = some policy
  session_eq : policyOfNumber dataset.sessionPlcy = some sessionPolicy
  instance_eq : policyOfNumber instancePlcy = some instancePolicy
  separator : '$' ∉ dataset.uri
  original : SamePlacement policy sessionPolicy dataset.originalName dataset.uri
  moved : SamePlacement sessionPolicy instancePolicy dataset.uri dataset.uri
  interval : ∀ block : Nat, block + 1 < 2 ^ 31 → valueFor dataset.intervals block ≠ -1 →
    0 < valueFor dataset.intervals block ∧
      OnFirst policy dataset.originalName (valueFor dataset.intervals block).toNat block ∧
      ∀ numServers, 0 < numServers → block + numServers < 2 ^ 31 →
        numServers ∣ policy.placeNumber dataset.originalName block

theorem getDataLocation_of_none {dataset : LocatedDataset} {stack : CString}
    {numServers block : Nat}
    (hpolicy : getPolicyNumber dataset.policy = some policy) (hpos : 0 < numServers)
    (hnone : valueFor dataset.intervals block = -1) :
    dataset.getDataLocation stack numServers block =
      findServer stack numServers block dataset.originalName policy := by
  have hcount : ¬ (numServers : Int) ≤ 0 := by omega
  simp only [getDataLocation, hpolicy, Option.bind_some, hnone, if_pos, if_neg hcount]
  rfl

theorem getDataLocation_of_value {dataset : LocatedDataset} {stack : CString}
    {numServers block : Nat} (hpolicy : getPolicyNumber dataset.policy = some policy)
    (hvalue : valueFor dataset.intervals block ≠ -1) (hpos : 0 < valueFor dataset.intervals block) :
    dataset.getDataLocation stack numServers block =
      findServer stack (valueFor dataset.intervals block).toNat block dataset.originalName
        policy := by
  simp only [getDataLocation, hpolicy, Option.bind_some, if_neg hvalue,
    if_neg (Int.not_le.mpr hpos)]

/-- With an interval the number of servers does not matter. -/
theorem getDataLocation_congr {dataset : LocatedDataset} {block : Nat}
    (hvalue : valueFor dataset.intervals block ≠ -1) (stack : CString)
    (numServers numServers' : Nat) :
    dataset.getDataLocation stack numServers block =
      dataset.getDataLocation stack numServers' block := by
  simp only [getDataLocation, if_neg hvalue]

/-- Only the number that is read matters. -/
theorem stoi_eq (text : CString) :
    stoi text = ((scanInt text).map Prod.fst).bind fun value =>
      if int32 value = value then some value else none := by
  rw [stoi, Option.bind_map]
  rfl

/-- Without a separator in the name, the key is taken apart into the name and the block. -/
theorem moveBlocks2Server_of_notMem {uri : CString} (huri : '$' ∉ uri) (instancePlcy : Int)
    (stack : CString) (numServers : Nat) {block : Nat} (hblock : block < 2 ^ 31) :
    moveBlocks2Server instancePlcy stack numServers (blockKey uri block) =
      (policyOfNumber instancePlcy).bind fun policy =>
        findServer stack numServers block uri policy := by
  have hint : int32 block = block := int32_of_fits (by omega) (by omega)
  rw [moveBlocks2Server, blockText, blockKey, fromOn_append_cons huri, upTo_append_cons huri]
  simp only [stoi_decimal, hint, if_true, Option.bind_some]

/-- With a separator in the name, all blocks are sent to the same server. -/
theorem moveBlocks2Server_of_mem {uri : CString} (huri : '$' ∈ uri) (instancePlcy : Int)
    (stack : CString) (numServers : Nat) (block block' : Int) :
    moveBlocks2Server instancePlcy stack numServers (blockKey uri block) =
      moveBlocks2Server instancePlcy stack numServers (blockKey uri block') := by
  obtain ⟨tail, htail⟩ := exists_eq_upTo_append_cons huri
  have hstem := notMem_upTo '$' uri
  generalize upTo '$' uri = stem at htail hstem
  subst htail
  have hkey : ∀ block : Int, blockKey (stem ++ '$' :: tail) block =
      stem ++ '$' :: (tail ++ '$' :: decimal block) := by
    intro block
    rw [blockKey, List.append_assoc, List.cons_append]
  have hstoi : ∀ block : Int, stoi (tail ++ '$' :: decimal block) = stoi tail := by
    intro block
    have hscan := scanInt_append_cons (c := '$') (by decide) (by decide) (by decide) (by decide)
      tail (decimal block)
    rw [stoi_eq, stoi_eq, hscan]
  simp only [moveBlocks2Server, blockText, hkey, fromOn_append_cons hstem, upTo_append_cons hstem,
    hstoi]

theorem toNat_valueFor_lt (dataset : LocatedDataset) (block : Nat) :
    (valueFor dataset.intervals block).toNat < 2 ^ 31 := by
  rw [valueFor]
  cases hget : getValueFromInterval dataset.intervals block with
  | none => decide
  | some value =>
      obtain ⟨entry, hentry, rfl⟩ := exists_mem_of_getValueFromInterval hget
      have hlt := dataset.value_lt entry hentry
      rw [Option.getD_some]
      omega

/-- A policy whose result with two servers depends on the arguments alone is a placed one. -/
theorem placed_of_determined {block : Nat} (hblock : block ≤ 1)
    (h : Determined 2 block fname policy) : policy.Placed := by
  have hpolicy := (determined_iff (by decide) (by omega) fname).mp h
  exact policy.placed_iff.mpr ⟨hpolicy.1, hpolicy.2.resolve_left (by decide)⟩

theorem onFirst_iff (hplaced : policy.Placed) (stack : CString) {value : Nat} (block : Nat)
    (hpos : 0 < value) (hlt : value < 2 ^ 31) :
    findServer stack value block fname policy = some 0 ↔ OnFirst policy fname value block := by
  rcases hplaced.turns_or_hashed with hturns | rfl
  · have hnot : policy ≠ .hashed := by
      rcases hturns with rfl | rfl | rfl <;> decide
    have hnext : nextServer stack value block fname policy = roundRobin value block fname := by
      rcases hturns with rfl | rfl | rfl <;> rfl
    rw [OnFirst, if_neg hnot, findServer, hnext, roundRobin]
    generalize int32 ((crc16 fname % value : Nat) + (block : Int)) = sum
    rw [Int.dvd_iff_tmod_eq_zero]
    constructor
    · intro hsome
      split at hsome
      · exact absurd hsome (by simp)
      · have hzero := Option.some.inj hsome
        omega
    · intro hzero
      simp only [hzero]
      rw [if_neg (by omega)]
      rfl
  · rw [OnFirst, if_pos rfl, findServer_hashed stack fname block hpos (Nat.le_of_lt hlt),
      Option.some.injEq, Nat.dvd_iff_mod_eq_zero]
    rfl

/-- Where the condition holds, the three agree. -/
theorem LocatedAlike.locationsAgree {dataset : LocatedDataset} {instancePlcy : Int}
    {imssUri behind : CString} {sessionPolicy instancePolicy : Policy}
    (halike : dataset.LocatedAlike instancePlcy imssUri behind policy sessionPolicy
      instancePolicy) :
    dataset.LocationsAgree instancePlcy imssUri behind := by
  intro numServers block hpos hfits
  refine ⟨policy.placeNumber dataset.originalName block % numServers, fun stack => ⟨?_, ?_, ?_⟩⟩
  · by_cases hvalue : valueFor dataset.intervals block = -1
    · rw [getDataLocation_of_none halike.policy_eq hpos hvalue]
      exact findServer_placeNumber halike.original.placed stack _ hpos (Nat.le_of_lt hfits)
    · obtain ⟨hvaluePos, hfirst, hdvd⟩ := halike.interval block (by omega) hvalue
      rw [getDataLocation_of_value halike.policy_eq hvalue hvaluePos,
        Nat.mod_eq_zero_of_dvd (hdvd numServers hpos hfits)]
      exact (onFirst_iff halike.original.placed stack block (by omega)
        (dataset.toNat_valueFor_lt block)).mpr hfirst
  · rw [getDataloc, if_pos halike.instance_found, halike.session_eq, Option.bind_some,
      halike.original.placeNumber_eq]
    exact findServer_placeNumber halike.moved.placed stack _ hpos (Nat.le_of_lt hfits)
  · rw [moveBlocks2Server_of_notMem halike.separator _ _ _ (by omega), halike.instance_eq,
      Option.bind_some, halike.original.placeNumber_eq, halike.moved.placeNumber_eq]
    exact findServer_placeNumber halike.moved.placed' stack _ hpos (Nat.le_of_lt hfits)

/-! What agreement says about each function. -/

section Agreeing

variable {dataset : LocatedDataset} {instancePlcy : Int} {imssUri behind : CString}
  {sessionPolicy : Policy}

/-- `get_dataloc` finds the instance. -/
theorem LocationsAgree.instance_found
    (hagree : dataset.LocationsAgree instancePlcy imssUri behind) :
    dataset.InstanceFound imssUri behind := by
  obtain ⟨server, hserver⟩ := hagree 2 0 (by decide) (by decide)
  have hloc := (hserver []).2.1
  by_contra hnot
  rw [getDataloc, if_neg hnot] at hloc
  cases hloc

/-- The policy number of the record is one of a placed policy. -/
theorem LocationsAgree.session (hagree : dataset.LocationsAgree instancePlcy imssUri behind) :
    ∃ sessionPolicy, policyOfNumber dataset.sessionPlcy = some sessionPolicy ∧
      sessionPolicy.Placed := by
  obtain ⟨server, hserver⟩ := hagree 2 0 (by decide) (by decide)
  have hloc := fun stack => (hserver stack).2.1
  simp only [getDataloc, if_pos hagree.instance_found] at hloc
  obtain ⟨sessionPolicy, hsession, hfind⟩ := Option.bind_eq_some_iff.mp (hloc [])
  refine ⟨sessionPolicy, hsession, ?_⟩
  simp only [hsession, Option.bind_some] at hloc
  exact placed_of_determined (Nat.zero_le 1) ⟨server, findServer_lt hfind, hloc⟩

/-- The server of each block is that of `get_dataloc`. -/
theorem LocationsAgree.server (hagree : dataset.LocationsAgree instancePlcy imssUri behind)
    (hsession : policyOfNumber dataset.sessionPlcy = some sessionPolicy)
    (hplaced : sessionPolicy.Placed) {numServers block : Nat} (hpos : 0 < numServers)
    (hfits : block + numServers < 2 ^ 31) (stack : CString) :
    dataset.getDataLocation stack numServers block =
        some (sessionPolicy.placeNumber dataset.uri block % numServers) ∧
      moveBlocks2Server instancePlcy stack numServers (blockKey dataset.uri block) =
        some (sessionPolicy.placeNumber dataset.uri block % numServers) := by
  obtain ⟨server, hserver⟩ := hagree numServers block hpos hfits
  obtain ⟨hlocation, hloc, hmove⟩ := hserver stack
  rw [getDataloc, if_pos hagree.instance_found, hsession, Option.bind_some,
    findServer_placeNumber hplaced stack _ hpos (Nat.le_of_lt hfits)] at hloc
  rw [hloc]
  exact ⟨hlocation, hmove⟩

/-- A block with an interval is on server 0. -/
theorem LocationsAgree.interval (hagree : dataset.LocationsAgree instancePlcy imssUri behind)
    (hsession : policyOfNumber dataset.sessionPlcy = some sessionPolicy)
    (hplaced : sessionPolicy.Placed) {numServers block : Nat} (hpos : 0 < numServers)
    (hfits : block + numServers < 2 ^ 31) (hvalue : valueFor dataset.intervals block ≠ -1) :
    sessionPolicy.placeNumber dataset.uri block % numServers = 0 := by
  have hone : dataset.getDataLocation [] 1 block =
      some (sessionPolicy.placeNumber dataset.uri block % 1) :=
    (hagree.server hsession hplaced (by decide) (by omega) []).1
  have hsome := (hagree.server hsession hplaced hpos hfits []).1
  rw [getDataLocation_congr hvalue [] 1 numServers, hsome, Nat.mod_one] at hone
  exact Option.some.inj hone

/-- Numbers of `uint32_t` with the same remainders are the same. -/
theorem eq_of_mod_eq {x y : Nat} (hx : x < 2 ^ 32) (hy : y < 2 ^ 32)
    (h : ∀ numServers, 0 < numServers → 21 + numServers < 2 ^ 31 →
      x % numServers = y % numServers) : x = y := by
  have hcoprime : Nat.Coprime (2 ^ 30) (2 ^ 30 + 1) := by decide
  have hmod : x ≡ y [MOD 2 ^ 30 * (2 ^ 30 + 1)] :=
    (Nat.modEq_and_modEq_iff_modEq_mul hcoprime).mp
      ⟨h (2 ^ 30) (by norm_num) (by norm_num), h (2 ^ 30 + 1) (by norm_num) (by norm_num)⟩
  exact hmod.eq_of_lt_of_lt (hx.trans (by norm_num)) (hy.trans (by norm_num))

/-- One of two blocks in a row has no interval. -/
theorem LocationsAgree.exists_without_interval
    (hagree : dataset.LocationsAgree instancePlcy imssUri behind)
    (hsession : policyOfNumber dataset.sessionPlcy = some sessionPolicy)
    (hplaced : sessionPolicy.Placed) {block : Nat}
    (hblock : block = 0 ∨ block = 10 ∨ block = 20) :
    valueFor dataset.intervals block = -1 ∨
      valueFor dataset.intervals (block + 1 : Nat) = -1 := by
  have hzero : ∀ block : Nat, block ≤ 21 → valueFor dataset.intervals block ≠ -1 →
      sessionPolicy.placeNumber dataset.uri block = 0 := by
    intro block hle hvalue
    refine eq_of_mod_eq (placeNumber_lt sessionPolicy dataset.uri hle) (by norm_num) ?_
    intro numServers hpos hfits
    rw [hagree.interval hsession hplaced hpos (by omega) hvalue, Nat.zero_mod]
  by_contra hboth
  rw [not_or] at hboth
  have hsucc := cast_placeNumber_succ hplaced dataset.uri hblock
  rw [hzero block (by omega) hboth.1, hzero (block + 1) (by omega) hboth.2, Nat.cast_zero,
    zero_add] at hsucc
  exact absurd hsucc (by decide)

/-- The policy of the dataset is a placed one: the result of the others would depend on the memory
for a block without an interval. -/
theorem LocationsAgree.exists_policy (hagree : dataset.LocationsAgree instancePlcy imssUri behind)
    (hsession : policyOfNumber dataset.sessionPlcy = some sessionPolicy)
    (hplaced : sessionPolicy.Placed) :
    ∃ policy, getPolicyNumber dataset.policy = some policy ∧ policy.Placed := by
  have hlocation : ∀ stack, ∀ block ≤ 1, dataset.getDataLocation stack 2 (block : Nat) =
      some (sessionPolicy.placeNumber dataset.uri block % 2) := by
    intro stack block hblock
    exact (hagree.server hsession hplaced (by decide) (by omega) stack).1
  obtain ⟨policy, hpolicy, -⟩ := Option.bind_eq_some_iff.mp (hlocation [] 0 (by decide))
  refine ⟨policy, hpolicy, ?_⟩
  have hdetermined : ∀ block ≤ 1, valueFor dataset.intervals (block : Nat) = -1 →
      Determined 2 block dataset.originalName policy := by
    intro block hblock hvalue
    refine ⟨sessionPolicy.placeNumber dataset.uri block % 2, Nat.mod_lt _ (by decide), ?_⟩
    intro stack
    rw [← getDataLocation_of_none hpolicy (by decide) hvalue]
    exact hlocation stack block hblock
  rcases hagree.exists_without_interval hsession hplaced (Or.inl rfl) with hvalue | hvalue
  · exact placed_of_determined (Nat.zero_le 1) (hdetermined 0 (by decide) hvalue)
  · exact placed_of_determined (Nat.le_refl 1) (hdetermined 1 (by decide) hvalue)

/-- A separator in the name would send all blocks to one server. -/
theorem LocationsAgree.separator (hagree : dataset.LocationsAgree instancePlcy imssUri behind)
    (hsession : policyOfNumber dataset.sessionPlcy = some sessionPolicy)
    (hplaced : sessionPolicy.Placed) : '$' ∉ dataset.uri := by
  intro hmem
  have hmove : ∀ block ≤ 1,
      moveBlocks2Server instancePlcy [] 2 (blockKey dataset.uri (block : Nat)) =
        some (sessionPolicy.placeNumber dataset.uri block % 2) := by
    intro block hblock
    exact (hagree.server hsession hplaced (by decide) (by omega) []).2
  have hsame := moveBlocks2Server_of_mem hmem instancePlcy [] 2 (0 : Nat) (1 : Nat)
  rw [hmove 0 (by decide), hmove 1 (by decide)] at hsame
  have hparity := Option.some.inj hsame
  have hsucc : (sessionPolicy.placeNumber dataset.uri 1 : ZMod (2 ^ 32)) =
      sessionPolicy.placeNumber dataset.uri 0 + 1 :=
    cast_placeNumber_succ hplaced dataset.uri (Or.inl rfl)
  rw [← Nat.cast_add_one, ZMod.natCast_eq_natCast_iff'] at hsucc
  omega

/-- The policy of the instance places blocks like that of the record. -/
theorem LocationsAgree.moved (hagree : dataset.LocationsAgree instancePlcy imssUri behind)
    (hsession : policyOfNumber dataset.sessionPlcy = some sessionPolicy)
    (hplaced : sessionPolicy.Placed) :
    ∃ instancePolicy, policyOfNumber instancePlcy = some instancePolicy ∧
      SamePlacement sessionPolicy instancePolicy dataset.uri dataset.uri := by
  have hmove : ∀ (stack : CString) (numServers block : Nat), 0 < numServers →
      block + numServers < 2 ^ 31 →
        ((policyOfNumber instancePlcy).bind fun policy =>
          findServer stack numServers block dataset.uri policy) =
            some (sessionPolicy.placeNumber dataset.uri block % numServers) := by
    intro stack numServers block hpos hfits
    rw [← moveBlocks2Server_of_notMem (hagree.separator hsession hplaced) _ _ _ (by omega)]
    exact (hagree.server hsession hplaced hpos hfits stack).2
  obtain ⟨instancePolicy, hinstance, -⟩ :=
    Option.bind_eq_some_iff.mp (hmove [] 2 0 (by decide) (by decide))
  simp only [hinstance, Option.bind_some] at hmove
  have hplaced' : instancePolicy.Placed :=
    placed_of_determined (Nat.zero_le 1) ⟨_, Nat.mod_lt _ (by decide), fun stack =>
      hmove stack 2 0 (by decide) (by decide)⟩
  refine ⟨instancePolicy, hinstance, samePlacement_of_placeNumber hplaced hplaced' ?_⟩
  intro block hblock
  congr 1
  refine eq_of_mod_eq (placeNumber_lt _ _ (by omega)) (placeNumber_lt _ _ (by omega)) ?_
  intro numServers hpos hfits
  have hsome := hmove [] numServers block hpos (by omega)
  rw [findServer_placeNumber hplaced' [] _ hpos (by omega)] at hsome
  exact (Option.some.inj hsome).symm

/-- The policy of the dataset with its first name places blocks like that of the record with its
current name. -/
theorem LocationsAgree.original (hagree : dataset.LocationsAgree instancePlcy imssUri behind)
    (hsession : policyOfNumber dataset.sessionPlcy = some sessionPolicy)
    (hplaced : sessionPolicy.Placed) (hpolicy : getPolicyNumber dataset.policy = some policy)
    (hplaced' : policy.Placed) :
    SamePlacement policy sessionPolicy dataset.originalName dataset.uri := by
  have hnumber : ∀ block : Nat, block ≤ 21 → valueFor dataset.intervals block = -1 →
      policy.placeNumber dataset.originalName block =
        sessionPolicy.placeNumber dataset.uri block := by
    intro block hblock hvalue
    refine eq_of_mod_eq (placeNumber_lt _ _ hblock) (placeNumber_lt _ _ hblock) ?_
    intro numServers hpos hfits
    have hsome := (hagree.server hsession hplaced hpos
      (show block + numServers < 2 ^ 31 by omega) []).1
    rw [getDataLocation_of_none hpolicy hpos hvalue,
      findServer_placeNumber hplaced' [] _ hpos (by omega)] at hsome
    exact Option.some.inj hsome
  refine samePlacement_of_placeNumber hplaced' hplaced ?_
  intro block hblock
  rcases hagree.exists_without_interval hsession hplaced hblock with hvalue | hvalue
  · rw [hnumber block (by omega) hvalue]
  · have hsucc := cast_placeNumber_succ hplaced' dataset.originalName hblock
    rw [hnumber (block + 1) (by omega) hvalue, cast_placeNumber_succ hplaced dataset.uri hblock]
      at hsucc
    exact (add_right_cancel hsucc).symm

end Agreeing

/-- `get_data_location`, `get_dataloc` and `move_blocks_2_server` agree exactly for the datasets of
`LocatedAlike`. -/
theorem locationsAgree_iff (dataset : LocatedDataset) (instancePlcy : Int)
    (imssUri behind : CString) :
    dataset.LocationsAgree instancePlcy imssUri behind ↔
      ∃ policy sessionPolicy instancePolicy,
        dataset.LocatedAlike instancePlcy imssUri behind policy sessionPolicy instancePolicy := by
  constructor
  · intro hagree
    obtain ⟨sessionPolicy, hsession, hplaced⟩ := hagree.session
    obtain ⟨policy, hpolicy, hplaced'⟩ := hagree.exists_policy hsession hplaced
    obtain ⟨instancePolicy, hinstance, hmoved⟩ := hagree.moved hsession hplaced
    have horiginal := hagree.original hsession hplaced hpolicy hplaced'
    refine ⟨policy, sessionPolicy, instancePolicy, hagree.instance_found, hpolicy, hsession,
      hinstance, hagree.separator hsession hplaced, horiginal, hmoved, ?_⟩
    intro block hblock hvalue
    have hzero : ∀ numServers, 0 < numServers → block + numServers < 2 ^ 31 →
        policy.placeNumber dataset.originalName block % numServers = 0 := by
      intro numServers hpos hfits
      rw [horiginal.placeNumber_eq]
      exact hagree.interval hsession hplaced hpos hfits hvalue
    have hlocation := (hagree.server hsession hplaced (by decide) hblock []).1
    rw [Nat.mod_one] at hlocation
    have hpos : 0 < valueFor dataset.intervals block := by
      by_contra hnot
      simp only [getDataLocation, hpolicy, Option.bind_some, if_neg hvalue,
        if_pos (Int.not_lt.mp hnot)] at hlocation
      exact absurd hlocation (by simp)
    rw [getDataLocation_of_value hpolicy hvalue hpos] at hlocation
    refine ⟨hpos, ?_, fun numServers hpos hfits => ?_⟩
    · exact (onFirst_iff hplaced' [] block (by omega)
        (dataset.toNat_valueFor_lt block)).mp hlocation
    · exact Nat.dvd_of_mod_eq_zero (hzero numServers hpos hfits)
  · rintro ⟨policy, sessionPolicy, instancePolicy, halike⟩
    exact halike.locationsAgree

/-- Two different servers for one block. -/
theorem not_agree_of_ne {dataset : LocatedDataset} {instancePlcy : Int} {imssUri behind : CString}
    (numServers block server : Nat) (hpos : 0 < numServers)
    (hfits : block + numServers < 2 ^ 31)
    (hlocation : dataset.getDataLocation [] numServers block = some server)
    (hne : dataset.getDataloc imssUri behind [] numServers block ≠ some server ∨
      moveBlocks2Server instancePlcy [] numServers (blockKey dataset.uri block) ≠ some server) :
    ¬ dataset.LocationsAgree instancePlcy imssUri behind := by
  intro hagree
  obtain ⟨server', hserver⟩ := hagree numServers block hpos hfits
  obtain ⟨hlocation', hloc, hmove⟩ := hserver []
  obtain rfl := Option.some.inj (hlocation.symm.trans hlocation')
  exact hne.elim (fun h => h hloc) (fun h => h hmove)

theorem value_lt_one : ∀ entry ∈ [(⟨1, 1, 1⟩ : IntervalEntry Int)], entry.value < 2 ^ 31 := by
  simp

/-- The three differ for a file `imss://b` if a zero stands behind the array. If the missing slash
stands there, they differ for a file that was `imss://a` and is `imss://b` now; for a file with the
policy `HASH` in an instance with `RR`; and for a block that was written when there was one
server. -/
theorem not_locationsAgree :
    ¬ LocationsAgree
        ⟨"imss://b".toList, "imss://b".toList, "RR".toList, 0, [], List.forall_mem_nil _⟩ 0
        imssRoot [] ∧
      ¬ LocationsAgree
        ⟨"imss://b".toList, "imss://a".toList, "RR".toList, 0, [], List.forall_mem_nil _⟩ 0
        imssRoot ['/'] ∧
      ¬ LocationsAgree
        ⟨"imss://c".toList, "imss://c".toList, "HASH".toList, 2, [], List.forall_mem_nil _⟩ 0
        imssRoot ['/'] ∧
      ¬ LocationsAgree
        ⟨"imss://b".toList, "imss://b".toList, "RR".toList, 0, [⟨1, 1, 1⟩], value_lt_one⟩ 0
        imssRoot ['/'] := by
  refine ⟨?_, ?_, ?_, ?_⟩
  · exact not_agree_of_ne 2 0 0 (by decide) (by decide) (by decide +kernel)
      (Or.inl (by decide +kernel))
  · exact not_agree_of_ne 2 0 1 (by decide) (by decide) (by decide +kernel)
      (Or.inl (by decide +kernel))
  · exact not_agree_of_ne 3 0 1 (by decide) (by decide) (by decide +kernel)
      (Or.inr (by decide +kernel))
  · exact not_agree_of_ne 2 1 0 (by decide) (by decide) (by decide +kernel)
      (Or.inl (by decide +kernel))

end LocatedDataset

end Hercules
