/-
# Placement policies

`find_server` maps a block number and the name under which a dataset was created
to the data server that holds the block's first copy. Round robin starts at the
CRC-16 of the name; `LOCAL` and `ZCOPY` fall through to round robin on the UCX
path. The two CRC policies hash a local array that is never filled; the text that
happens to stand there is a parameter. A result outside `[0, n)` ends the client
process, which is `none` here.

Round robin visits the servers in turn, and the copies of a block follow at equal
distances, less than one turn in all.
-/

import Mathlib.Data.Int.ModEq
import Mathlib.Data.List.Nodup
import Mathlib.Data.Nat.Bitwise
import Mathlib.Tactic.NormNum
import Hercules.Names

namespace Hercules

open Lib.Text

/-- Conversion to `int32_t`: wrap around modulo `2 ^ 32`. -/
def int32 (x : Int) : Int :=
  x.bmod (2 ^ 32)

@[simp]
theorem int32_of_fits {x : Int} (hlower : -2 ^ 31 ≤ x) (hupper : x < 2 ^ 31) : int32 x = x := by
  rw [int32, Int.bmod_eq_of_le]
  · norm_num
    omega
  · norm_num
    omega

/-- The wrapped value is a 32-bit integer. -/
theorem int32_lt (x : Int) : int32 x < 2 ^ 31 := by
  have hlt := Int.bmod_lt (x := x) (m := 2 ^ 32) (by norm_num)
  norm_num at hlt
  exact hlt

theorem le_int32 (x : Int) : -2 ^ 31 ≤ int32 x := by
  have hle := Int.le_bmod (x := x) (m := 2 ^ 32) (by norm_num)
  norm_num at hle
  exact hle

/-- `stoi`; it throws for a text without a number and for one that is no `int`. -/
def stoi (text : CString) : Option Int :=
  (scanInt text).bind fun result => if int32 result.1 = result.1 then some result.1 else none

theorem stoi_decimal (n : Int) : stoi (decimal n) = if int32 n = n then some n else none := by
  rw [stoi, scanInt_decimal, Option.bind_some]

/-- The policies of `policies.h`, in the order of their numbers. -/
inductive Policy
  | roundRobin
  | buckets
  | hashed
  | crc16
  | crc64
  | local
  | zcopy
  deriving DecidableEq

/-- An entry of `crc16tab`: the CCITT remainder of one byte. -/
def crc16Entry (byte : Nat) : Nat :=
  (List.range 8).foldl
    (fun crc _ =>
      if crc &&& 0x8000 = 0 then (crc <<< 1) &&& 0xFFFF
      else ((crc <<< 1) ^^^ 0x1021) &&& 0xFFFF)
    (byte <<< 8)

/-- `crc16` over the bytes of a string. -/
def crc16 (buf : CString) : Nat :=
  buf.foldl
    (fun crc c => ((crc <<< 8) &&& 0xFFFF) ^^^ crc16Entry (((crc >>> 8) ^^^ c.toNat) &&& 0xFF)) 0

/-- A `char` promoted to `uint32_t`; bytes from 128 on are negative. -/
def signExtend (c : Char) : Nat :=
  if c.toNat % 256 < 128 then c.toNat % 256 else c.toNat % 256 + (2 ^ 32 - 256)

/-- `RoundRobin`: the sum and the remainder are those of `int32_t`. -/
def roundRobin (nServers : Nat) (nMsg : Int) (fname : CString) : Int :=
  (int32 ((crc16 fname % nServers : Nat) + nMsg)).tmod nServers

/-- The loop of `Hashed` over `fname$n_msg`, with its running multiplier `a`. -/
def hashedLoop : CString → Nat → Nat → Nat
  | [], _, hash => hash
  | c :: key, a, hash =>
      hashedLoop key (a * 378551 % 2 ^ 32) ((hash * a + signExtend c) % 2 ^ 32)

/-- `Hashed`. -/
def hashed (nServers : Nat) (nMsg : Int) (fname : CString) : Int :=
  int32 (hashedLoop (blockKey fname nMsg) 63689 0 % nServers : Nat)

/-- An entry of `crc64_tab`: the reflected remainder of one byte. -/
def crc64Entry (byte : Nat) : Nat :=
  (List.range 8).foldl
    (fun crc _ => if crc % 2 = 0 then crc >>> 1 else (crc >>> 1) ^^^ 0x95AC9329AC4BC9B5) byte

/-- `crc64` over the bytes of a string. -/
def crc64 (s : CString) : Nat :=
  s.foldl (fun crc c => crc64Entry (crc % 256 ^^^ c.toNat % 256) ^^^ (crc >>> 8)) 0

/-- The switch of `find_server`. `stack` is what the unfilled array of `CRC`
holds; no case remains for `BUCKETS`. -/
def nextServer (stack : CString) (nServers : Nat) (nMsg : Int) (fname : CString) : Policy → Int
  | .roundRobin => roundRobin nServers nMsg fname
  | .buckets => -1
  | .hashed => hashed nServers nMsg fname
  | .crc16 => (crc16 stack % nServers : Nat)
  | .crc64 => int32 (crc64 stack % nServers : Nat)
  | .local => roundRobin nServers nMsg fname
  | .zcopy => roundRobin nServers nMsg fname

/-- `find_server`: a number that names no server ends the process. -/
def findServer (stack : CString) (nServers : Nat) (nMsg : Int) (fname : CString)
    (policy : Policy) : Option Nat :=
  let next := nextServer stack nServers nMsg fname policy
  if next < 0 ∨ (nServers : Int) ≤ next then none else some next.toNat

/-- The result names one of the servers. -/
theorem findServer_lt {stack : CString} {nServers : Nat} {nMsg : Int} {fname : CString}
    {policy : Policy} {server : Nat}
    (h : findServer stack nServers nMsg fname policy = some server) : server < nServers := by
  simp only [findServer] at h
  split at h
  · simp at h
  next hrange =>
    have hserver := Option.some.inj h
    omega

/-- The policies whose result depends on the name and the block number alone. -/
def Policy.Placed (policy : Policy) : Prop :=
  policy = .roundRobin ∨ policy = .hashed ∨ policy = .local ∨ policy = .zcopy

/-- Such a policy does not look at the unfilled array. -/
theorem findServer_placed {policy : Policy} (hpolicy : policy.Placed) (stack stack' : CString)
    (nServers : Nat) (nMsg : Int) (fname : CString) :
    findServer stack nServers nMsg fname policy = findServer stack' nServers nMsg fname policy := by
  rcases hpolicy with rfl | rfl | rfl | rfl <;> rfl

/-- A number below that of the servers is returned. -/
theorem findServer_of_nextServer {stack : CString} {nServers next : Nat} {nMsg : Int}
    {fname : CString} {policy : Policy}
    (hnext : nextServer stack nServers nMsg fname policy = (next : Int)) (hlt : next < nServers) :
    findServer stack nServers nMsg fname policy = some next := by
  simp only [findServer, hnext]
  rw [if_neg (by omega)]
  rfl

/-- A sum within 32 bits is not wrapped, and its remainder is that of natural numbers. -/
theorem tmod_int32_add {m n : Nat} (nServers : Nat) (hfits : m + n < 2 ^ 31) :
    (int32 ((m : Int) + n)).tmod nServers = ((m + n) % nServers : Nat) := by
  have hsum : int32 ((m : Int) + n) = ((m + n : Nat) : Int) := by
    rw [← Int.natCast_add]
    exact int32_of_fits (by omega) (by exact_mod_cast hfits)
  rw [hsum]
  rfl

theorem roundRobin_eq_mod {nServers block : Nat} {fname : CString}
    (hfits : crc16 fname % nServers + block < 2 ^ 31) :
    roundRobin nServers block fname = ((crc16 fname % nServers + block) % nServers : Nat) :=
  tmod_int32_add nServers hfits

/-- `BUCKETS` names no server. -/
theorem findServer_buckets (stack : CString) (nServers : Nat) (nMsg : Int) (fname : CString) :
    findServer stack nServers nMsg fname .buckets = none :=
  rfl

/-- Round robin succeeds while the sum stays within 32 bits. -/
theorem findServer_roundRobin {stack : CString} {nServers block : Nat} {fname : CString}
    {policy : Policy} (hpolicy : policy = .roundRobin ∨ policy = .local ∨ policy = .zcopy)
    (hpos : 0 < nServers) (hfits : crc16 fname % nServers + block < 2 ^ 31) :
    findServer stack nServers block fname policy =
      some ((crc16 fname % nServers + block) % nServers) := by
  have hnext : nextServer stack nServers block fname policy =
      ((crc16 fname % nServers + block) % nServers : Nat) := by
    rcases hpolicy with rfl | rfl | rfl <;> exact roundRobin_eq_mod hfits
  exact findServer_of_nextServer hnext (Nat.mod_lt _ hpos)

/-- The policies that place blocks by `RoundRobin`. -/
def Policy.Turns (policy : Policy) : Prop :=
  policy = .roundRobin ∨ policy = .local ∨ policy = .zcopy

/-- The number whose remainder names the server of a block under a placed policy. -/
def Policy.placeNumber (policy : Policy) (fname : CString) (block : Nat) : Nat :=
  match policy with
  | .hashed => hashedLoop (blockKey fname block) 63689 0
  | _ => Hercules.crc16 fname + block

theorem Policy.placed_iff (policy : Policy) :
    policy.Placed ↔ policy ≠ .buckets ∧ policy ≠ .crc16 ∧ policy ≠ .crc64 := by
  cases policy <;> simp [Policy.Placed]

theorem Policy.Placed.turns_or_hashed {policy : Policy} (hplaced : policy.Placed) :
    policy.Turns ∨ policy = .hashed := by
  rcases hplaced with rfl | rfl | rfl | rfl
  · exact Or.inl (Or.inl rfl)
  · exact Or.inr rfl
  · exact Or.inl (Or.inr (Or.inl rfl))
  · exact Or.inl (Or.inr (Or.inr rfl))

theorem Policy.Turns.placed {policy : Policy} (hturns : policy.Turns) : policy.Placed := by
  rcases hturns with rfl | rfl | rfl
  · exact Or.inl rfl
  · exact Or.inr (Or.inr (Or.inl rfl))
  · exact Or.inr (Or.inr (Or.inr rfl))

theorem Policy.Turns.placeNumber {policy : Policy} (hturns : policy.Turns) (fname : CString)
    (block : Nat) : policy.placeNumber fname block = Hercules.crc16 fname + block := by
  rcases hturns with rfl | rfl | rfl <;> rfl

/-- A number of servers within 32 bits does not change the hash's remainder. -/
theorem findServer_hashed (stack fname : CString) {nServers : Nat} (nMsg : Int)
    (hpos : 0 < nServers) (hfits : nServers ≤ 2 ^ 31) :
    findServer stack nServers nMsg fname .hashed =
      some (hashedLoop (blockKey fname nMsg) 63689 0 % nServers) := by
  have hlt := Nat.mod_lt (hashedLoop (blockKey fname nMsg) 63689 0) hpos
  have hnext : nextServer stack nServers nMsg fname .hashed =
      (hashedLoop (blockKey fname nMsg) 63689 0 % nServers : Nat) := by
    rw [nextServer, hashed]
    exact int32_of_fits (by omega) (by omega)
  exact findServer_of_nextServer hnext hlt

/-- A placed policy takes the remainder of the block's number. -/
theorem findServer_placeNumber {policy : Policy} (hplaced : policy.Placed) (stack fname : CString)
    {nServers block : Nat} (hpos : 0 < nServers) (hfits : block + nServers ≤ 2 ^ 31) :
    findServer stack nServers block fname policy =
      some (policy.placeNumber fname block % nServers) := by
  rcases hplaced.turns_or_hashed with hturns | rfl
  · have hlt := Nat.mod_lt (crc16 fname) hpos
    rw [findServer_roundRobin hturns hpos (by omega), hturns.placeNumber, Nat.mod_add_mod]
  · exact findServer_hashed stack fname block hpos (by omega)

/-! ## Policy names -/

/-- `get_policy_number`; `none` is -1. -/
def getPolicyNumber (policyString : CString) : Option Policy :=
  if policyString = "RR".toList then some .roundRobin
  else if policyString = "BUCKETS".toList then some .buckets
  else if policyString = "HASH".toList then some .hashed
  else if policyString = "CRC16b".toList then some .crc16
  else if policyString = "CRC64b".toList then some .crc64
  else if policyString = "LOCAL".toList then some .local
  else if policyString = "ZCOPY".toList then some .zcopy
  else none

/-- The name of each policy. -/
def Policy.name : Policy → CString
  | .roundRobin => "RR".toList
  | .buckets => "BUCKETS".toList
  | .hashed => "HASH".toList
  | .crc16 => "CRC16b".toList
  | .crc64 => "CRC64b".toList
  | .local => "LOCAL".toList
  | .zcopy => "ZCOPY".toList

theorem getPolicyNumber_name (policy : Policy) : getPolicyNumber policy.name = some policy := by
  cases policy <;> decide

/-- A name that is accepted is that of its policy. -/
theorem name_of_getPolicyNumber {policyString : CString} {policy : Policy}
    (h : getPolicyNumber policyString = some policy) : policyString = policy.name := by
  rw [getPolicyNumber] at h
  split_ifs at h with hname hname hname hname hname hname hname <;>
    (obtain rfl := Option.some.inj h; exact hname)

/-- The server does not depend on what the unfilled array of `CRC` holds. -/
def Determined (nServers : Nat) (nMsg : Int) (fname : CString) (policy : Policy) : Prop :=
  ∃ server < nServers, ∀ stack, findServer stack nServers nMsg fname policy = some server

theorem findServer_crc16 (stack fname : CString) {nServers : Nat} (nMsg : Int)
    (hpos : 0 < nServers) :
    findServer stack nServers nMsg fname .crc16 = some (crc16 stack % nServers) :=
  findServer_of_nextServer rfl (Nat.mod_lt _ hpos)

theorem findServer_crc64 (stack fname : CString) {nServers : Nat} (nMsg : Int)
    (hpos : 0 < nServers) (hfits : nServers ≤ 2 ^ 31) :
    findServer stack nServers nMsg fname .crc64 = some (crc64 stack % nServers) := by
  have hlt := Nat.mod_lt (crc64 stack) hpos
  have hnext : nextServer stack nServers nMsg fname .crc64 = (crc64 stack % nServers : Nat) :=
    int32_of_fits (by omega) (by omega)
  exact findServer_of_nextServer hnext hlt

/-- A remainder that is the same for every text is that of one server: the texts `a` and `b` have
coprime sums, and the empty text has the sum 0. -/
theorem eq_one_of_mod_eq (sum : CString → Nat) {nServers : Nat} (server : Nat) (hnil : sum [] = 0)
    (hcoprime : Nat.gcd (sum ['a']) (sum ['b']) = 1)
    (h : ∀ stack, sum stack % nServers = server) : nServers = 1 := by
  have hserver : server = 0 := by
    rw [← h [], hnil, Nat.zero_mod]
  have hdvd : ∀ stack, nServers ∣ sum stack := by
    intro stack
    exact Nat.dvd_of_mod_eq_zero ((h stack).trans hserver)
  have hone := Nat.dvd_gcd (hdvd ['a']) (hdvd ['b'])
  rw [hcoprime] at hone
  exact Nat.dvd_one.mp hone

/-- `BUCKETS` ends the process; the two CRC policies depend on the array. -/
theorem determined_iff {policy : Policy} {nServers block : Nat} (hpos : 0 < nServers)
    (hfits : block + nServers ≤ 2 ^ 31) (fname : CString) :
    Determined nServers block fname policy ↔
      policy ≠ .buckets ∧ (nServers = 1 ∨ policy ≠ .crc16 ∧ policy ≠ .crc64) := by
  constructor
  · rintro ⟨server, -, hserver⟩
    cases policy with
    | roundRobin => simp
    | buckets =>
        have hnone := hserver []
        rw [findServer_buckets] at hnone
        cases hnone
    | hashed => simp
    | crc16 =>
        refine ⟨by simp, Or.inl ?_⟩
        refine eq_one_of_mod_eq crc16 server (by decide) (by decide +kernel) ?_
        intro stack
        exact Option.some.inj ((findServer_crc16 stack fname block hpos).symm.trans (hserver stack))
    | crc64 =>
        refine ⟨by simp, Or.inl ?_⟩
        refine eq_one_of_mod_eq crc64 server (by decide) (by decide +kernel) ?_
        intro stack
        exact Option.some.inj
          ((findServer_crc64 stack fname block hpos (by omega)).symm.trans (hserver stack))
    | «local» => simp
    | zcopy => simp
  · rintro ⟨hbuckets, hcrc⟩
    by_cases hplaced : policy.Placed
    · refine ⟨policy.placeNumber fname block % nServers, Nat.mod_lt _ hpos, fun stack => ?_⟩
      exact findServer_placeNumber hplaced stack fname hpos hfits
    · -- only the two CRC policies remain, with a single server
      have hcrcs : policy = .crc16 ∨ policy = .crc64 := by
        rw [policy.placed_iff] at hplaced
        by_contra hneither
        rw [not_or] at hneither
        exact hplaced ⟨hbuckets, hneither⟩
      have hone : nServers = 1 := by
        rcases hcrc with hone | ⟨h16, h64⟩
        · exact hone
        · exact absurd hcrcs (by simp [h16, h64])
      subst hone
      refine ⟨0, Nat.one_pos, fun stack => ?_⟩
      rcases hcrcs with rfl | rfl
      · rw [findServer_crc16 stack fname block hpos, Nat.mod_one]
      · rw [findServer_crc64 stack fname block hpos (by omega), Nat.mod_one]

/-- With an accepted name `find_server` returns one server in every state of the memory, except for
`BUCKETS` and, with more than one server, for the two CRC policies. -/
theorem findServer_determined_iff {policyString : CString} {policy : Policy}
    (haccepted : getPolicyNumber policyString = some policy) {nServers block : Nat}
    (hpos : 0 < nServers) (hfits : block + nServers < 2 ^ 31) (fname : CString) :
    (∃ server < nServers, ∀ stack,
        findServer stack nServers block fname policy = some server) ↔
      policyString ≠ "BUCKETS".toList ∧
        (nServers = 1 ∨ policyString ≠ "CRC16b".toList ∧ policyString ≠ "CRC64b".toList) := by
  have hname : ∀ other : Policy, policyString = other.name ↔ policy = other := by
    intro other
    constructor
    · intro heq
      rw [heq, getPolicyNumber_name] at haccepted
      exact (Option.some.inj haccepted).symm
    · rintro rfl
      exact name_of_getPolicyNumber haccepted
  have hbuckets : policyString = "BUCKETS".toList ↔ policy = .buckets := hname .buckets
  have hcrc16 : policyString = "CRC16b".toList ↔ policy = .crc16 := hname .crc16
  have hcrc64 : policyString = "CRC64b".toList ↔ policy = .crc64 := hname .crc64
  rw [Ne, Ne, Ne, hbuckets, hcrc16, hcrc64]
  exact determined_iff hpos (Nat.le_of_lt hfits) fname

/-- Three servers under round robin. -/
theorem findServer_determined_roundRobin :
    ∃ server < 3, ∀ stack,
      findServer stack 3 (5 : Nat) "imss://f".toList .roundRobin = some server :=
  (findServer_determined_iff (getPolicyNumber_name .roundRobin) (by decide) (by decide) _).mpr
    ⟨by decide, Or.inr ⟨by decide, by decide⟩⟩

/-- `BUCKETS` is accepted and ends the process; under `CRC16b` two states of the array give two
servers. -/
theorem not_findServer_determined :
    getPolicyNumber "BUCKETS".toList = some .buckets ∧
      (∀ stack, findServer stack 2 0 "imss://f".toList .buckets = none) ∧
      getPolicyNumber "CRC16b".toList = some .crc16 ∧
      findServer ['a'] 2 0 "imss://f".toList .crc16 = some 1 ∧
      findServer ['b'] 2 0 "imss://f".toList .crc16 = some 0 := by
  refine ⟨by decide, fun stack => ?_, by decide, by decide +kernel, by decide +kernel⟩
  exact findServer_buckets stack 2 0 _

/-! ## Replicas -/

/-- The server of copy `i`, as `set_data`, `get_ndata` and the rename and delete
requests compute it. -/
def replicaServer (nServers replFactor first i : Nat) : Nat :=
  (first + i * (nServers / replFactor)) % nServers

/-- The servers a request for one block goes to, in order. -/
def replicaServers (nServers replFactor first : Nat) : List Nat :=
  (List.range replFactor).map (replicaServer nServers replFactor first)

@[simp]
theorem mem_replicaServers {nServers replFactor first server : Nat} :
    server ∈ replicaServers nServers replFactor first ↔
      ∃ i < replFactor, replicaServer nServers replFactor first i = server := by
  simp [replicaServers]

/-- The copies of a block are on different servers. -/
theorem nodup_replicaServers {nServers replFactor : Nat} (h : replFactor ≤ nServers)
    (first : Nat) : (replicaServers nServers replFactor first).Nodup := by
  refine List.Nodup.map_on ?_ List.nodup_range
  intro i hi j hj heq
  rw [List.mem_range] at hi hj
  have hpos : 0 < nServers / replFactor := Nat.div_pos h (by omega)
  -- all steps are shorter than one turn, so no two of them meet
  have hturn : ∀ k < replFactor, k * (nServers / replFactor) < nServers := by
    intro k hk
    calc k * (nServers / replFactor) < replFactor * (nServers / replFactor) :=
          Nat.mul_lt_mul_of_pos_right hk hpos
      _ ≤ nServers := Nat.mul_div_le nServers replFactor
  have hmod : i * (nServers / replFactor) ≡ j * (nServers / replFactor) [MOD nServers] :=
    Nat.ModEq.add_left_cancel' first heq
  have hmul := hmod.eq_of_lt_of_lt (hturn i hi) (hturn j hj)
  exact Nat.eq_of_mul_eq_mul_right hpos hmul

/-- The server of copy `i` in the integers of `set_data`: the sum is an `int32_t`, and the
remainder is converted to `uint32_t`. -/
def setDataServer (nServers replFactor first i : Nat) : Int :=
  (int32 ((first : Int) + (i * (nServers / replFactor) : Nat))).tmod nServers % 2 ^ 32

theorem setDataServer_eq {nServers replFactor first i : Nat} (hpos : 0 < nServers)
    (hfirst : first + nServers ≤ 2 ^ 31) (hi : i < replFactor) :
    setDataServer nServers replFactor first i = replicaServer nServers replFactor first i := by
  have hfits : first + i * (nServers / replFactor) < 2 ^ 31 := by
    rcases Nat.eq_zero_or_pos (nServers / replFactor) with hzero | hstep
    · rw [hzero, Nat.mul_zero]
      omega
    · have hlt : i * (nServers / replFactor) < replFactor * (nServers / replFactor) :=
        Nat.mul_lt_mul_of_pos_right hi hstep
      have hle := Nat.mul_div_le nServers replFactor
      omega
  have hlt := Nat.mod_lt (first + i * (nServers / replFactor)) hpos
  rw [setDataServer, tmod_int32_add nServers hfits, replicaServer]
  exact Int.emod_eq_of_lt (by omega) (by omega)

/-! ## Balance -/

/-- Under round robin two blocks meet on a server exactly if their numbers have the same
remainder. -/
theorem roundRobin_eq_iff {nServers block block' : Nat} (hpos : 0 < nServers) (fname : CString)
    (hfits : block + nServers ≤ 2 ^ 31) (hfits' : block' + nServers ≤ 2 ^ 31) :
    roundRobin nServers block fname = roundRobin nServers block' fname ↔
      block ≡ block' [MOD nServers] := by
  have hlt := Nat.mod_lt (crc16 fname) hpos
  rw [roundRobin_eq_mod (by omega), roundRobin_eq_mod (by omega), Int.natCast_inj]
  constructor
  · intro heq
    exact Nat.ModEq.add_left_cancel' _ heq
  · intro hmod
    exact hmod.add_left _

/-- As many consecutive blocks as there are servers go to different servers. -/
theorem nodup_roundRobin {nServers block : Nat} (hpos : 0 < nServers) (fname : CString)
    (hfits : block + (nServers - 1) + nServers ≤ 2 ^ 31) :
    ((List.range nServers).map fun i => roundRobin nServers (block + i : Nat) fname).Nodup := by
  refine List.Nodup.map_on ?_ List.nodup_range
  intro i hi j hj heq
  rw [List.mem_range] at hi hj
  rw [roundRobin_eq_iff hpos fname (by omega) (by omega)] at heq
  exact (Nat.ModEq.add_left_cancel' block heq).eq_of_lt_of_lt hi hj

/-- Round robin spreads blocks evenly, and the copies of a block are on different servers. -/
theorem roundRobin_balanced {nServers : Nat} (hpos : 0 < nServers) (fname : CString) :
    (∀ block : Nat, block + nServers < 2 ^ 31 →
      0 ≤ roundRobin nServers block fname ∧ roundRobin nServers block fname < nServers) ∧
    (∀ block : Nat, block + (nServers - 1) + nServers < 2 ^ 31 →
      ((List.range nServers).map fun i => roundRobin nServers (block + i : Nat) fname).Nodup) ∧
    (∀ block block' : Nat, block + nServers < 2 ^ 31 → block' + nServers < 2 ^ 31 →
      (roundRobin nServers block fname = roundRobin nServers block' fname ↔
        block ≡ block' [MOD nServers])) ∧
    (∀ replFactor, 1 ≤ replFactor → replFactor ≤ nServers → ∀ first < nServers,
      (replicaServers nServers replFactor first).Nodup ∧
        (first + nServers ≤ 2 ^ 31 → ∀ i < replFactor,
          setDataServer nServers replFactor first i =
            replicaServer nServers replFactor first i)) := by
  refine ⟨?_, ?_, ?_, ?_⟩
  · intro block hfits
    have hlt := Nat.mod_lt (crc16 fname) hpos
    have hserver := Nat.mod_lt (crc16 fname % nServers + block) hpos
    rw [roundRobin_eq_mod (by omega)]
    omega
  · intro block hfits
    exact nodup_roundRobin hpos fname hfits.le
  · intro block block' hfits hfits'
    exact roundRobin_eq_iff hpos fname hfits.le hfits'.le
  · intro replFactor _ hle first _
    exact ⟨nodup_replicaServers hle first, fun hfirst i hi => setDataServer_eq hpos hfirst hi⟩

/-- Five servers, and three copies, whose number does not divide that of the servers. -/
theorem roundRobin_balanced_five :
    0 < 5 ∧ roundRobin 5 (7 : Nat) "imss://f".toList = roundRobin 5 (12 : Nat) "imss://f".toList ∧
      (replicaServers 5 3 4).Nodup := by
  have hbalanced := roundRobin_balanced (show 0 < 5 by decide) "imss://f".toList
  refine ⟨by decide, ?_, ?_⟩
  · exact (hbalanced.2.2.1 7 12 (by decide) (by decide)).mpr (by decide)
  · exact (hbalanced.2.2.2 3 (by decide) (by decide) 4 (by decide)).1

end Hercules
