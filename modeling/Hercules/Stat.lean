/-
# The stat record in block 0

Block 0 of a dataset holds a `struct stat` as the C library lays it out on
x86-64 Linux. The servers read and write single fields of it in place.
-/

import Mathlib.Tactic.NormNum
import Hercules.Lib.Memory

namespace Hercules

open Lib

/-- `sizeof(struct stat)`. -/
def sizeofStat : Nat := 144

/-- `st_nlink`, an unsigned 64-bit field. -/
def stNlink (stat : Memory) : Nat :=
  stat.loadNat 16 8

/-- `st_mode`, an unsigned 32-bit field. -/
def stMode (stat : Memory) : Nat :=
  stat.loadNat 24 4

/-- Conversion to `int64_t`: wrap around modulo `2 ^ 64`. -/
def int64 (x : Int) : Int :=
  x.bmod (2 ^ 64)

/-- `st_size`, a signed 64-bit field. -/
def stSize (stat : Memory) : Int :=
  int64 (stat.loadNat 48 8)

/-- `S_ISDIR(st_mode)`. -/
def isDir (stat : Memory) : Bool :=
  stMode stat / 4096 % 16 == 4

/-- A store to `st_mode`. -/
def setStMode (stat : Memory) (mode : Nat) : Memory :=
  stat.store 24 (Memory.natBytes 4 mode)

/-- A store to `st_nlink`. -/
def setStNlink (stat : Memory) (n : Nat) : Memory :=
  stat.store 16 (Memory.natBytes 8 n)

/-- A store to `st_size`. -/
def setStSize (stat : Memory) (size : Int) : Memory :=
  stat.store 48 (Memory.natBytes 8 (size % (2 ^ 64 : Nat)).toNat)

/-- `st_size` depends on its eight bytes only. -/
theorem stSize_congr {stat stat' : Memory} (h : ∀ i, 48 ≤ i → i < 56 → stat i = stat' i) :
    stSize stat = stSize stat' := by
  have hload : stat.loadNat 48 8 = stat'.loadNat 48 8 :=
    Memory.loadNat_congr fun i hlower hupper => h i hlower (by omega)
  simp only [stSize, hload]

/-- The file type depends on the bytes of `st_mode` only. -/
theorem isDir_congr {stat stat' : Memory} (h : ∀ i, 24 ≤ i → i < 28 → stat i = stat' i) :
    isDir stat = isDir stat' := by
  have hload : stat.loadNat 24 4 = stat'.loadNat 24 4 :=
    Memory.loadNat_congr fun i hlower hupper => h i hlower (by omega)
  simp only [isDir, stMode, hload]

/-- A copied record has the size of its source. -/
theorem stSize_store_load (stat source : Memory) :
    stSize (stat.store 0 (source.load 0 sizeofStat)) = stSize source := by
  apply stSize_congr
  intro i _ hupper
  rw [Memory.store_load_of_mem (Nat.zero_le i) (by rw [sizeofStat]; omega)]
  congr 1
  omega

theorem int64_bounds (x : Int) : -2 ^ 63 ≤ int64 x ∧ int64 x < 2 ^ 63 := by
  have hlower := Int.le_bmod (x := x) (m := 2 ^ 64) (by norm_num)
  have hupper := Int.bmod_lt (x := x) (m := 2 ^ 64) (by norm_num)
  norm_num at hlower hupper
  exact ⟨hlower, hupper⟩

theorem int64_of_fits {x : Int} (hlower : -2 ^ 63 ≤ x) (hupper : x < 2 ^ 63) : int64 x = x := by
  rw [int64, Int.bmod_eq_of_le]
  · norm_num
    omega
  · norm_num
    omega

/-- Wrapping forgets multiples of `2 ^ 64` only. -/
theorem int64_emod {x : Int} (hlower : -2 ^ 63 ≤ x) (hupper : x < 2 ^ 63) :
    int64 (x % (2 ^ 64 : Nat)) = x := by
  rw [int64, Int.emod_bmod]
  exact int64_of_fits hlower hupper

/-- A size that fits the field is read back. -/
theorem stSize_setStSize (stat : Memory) {size : Int} (hlower : -2 ^ 63 ≤ size)
    (hupper : size < 2 ^ 63) : stSize (setStSize stat size) = size := by
  have hnonneg : 0 ≤ size % (2 ^ 64 : Nat) := Int.emod_nonneg size (by norm_num)
  have hlt : size % (2 ^ 64 : Nat) < (2 ^ 64 : Nat) := Int.emod_lt_of_pos size (by norm_num)
  have hfits : (size % (2 ^ 64 : Nat)).toNat % 256 ^ 8 = (size % (2 ^ 64 : Nat)).toNat := by
    apply Nat.mod_eq_of_lt
    norm_num at hlt hnonneg ⊢
    omega
  rw [stSize, setStSize, Memory.loadNat_store_natBytes, hfits, Int.toNat_of_nonneg hnonneg,
    int64_emod hlower hupper]

/-- A change of the link count does not touch the size. -/
theorem stSize_setStNlink (stat : Memory) (n : Nat) :
    stSize (setStNlink stat n) = stSize stat := by
  apply stSize_congr
  intro i hlower hupper
  apply Memory.store_of_ge
  rw [Memory.length_natBytes]
  omega

/-- A change of the size does not touch the file type. -/
theorem isDir_setStSize (stat : Memory) (size : Int) :
    isDir (setStSize stat size) = isDir stat := by
  apply isDir_congr
  intro i _ hupper
  exact Memory.store_of_lt (by omega)

/-- A change of the link count does not touch the file type. -/
theorem isDir_setStNlink (stat : Memory) (n : Nat) : isDir (setStNlink stat n) = isDir stat := by
  apply isDir_congr
  intro i hlower _
  apply Memory.store_of_ge
  rw [Memory.length_natBytes]
  omega

end Hercules
