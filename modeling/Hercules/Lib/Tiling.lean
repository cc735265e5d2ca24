/-
# Consecutive intervals

A list of intervals that start where the previous one ends covers the range from
its first start to its last end, every point once. The blocks of equal size are
the case in which quotient and remainder give the interval and the place in it.
-/

import Mathlib.Data.List.Basic
import Mathlib.Tactic.SplitIfs

namespace Hercules.Lib

universe u

variable {ρ : Type u} (start : ρ → Int) (len : ρ → Nat)

/-- The intervals `[start r, start r + len r)` follow each other from `p` to
`q`. -/
def Tiles : Int → List ρ → Int → Prop
  | p, [], q => p = q
  | p, r :: rs, q => start r = p ∧ Tiles (p + len r) rs q

namespace Tiles

variable {start len} {p q x : Int} {rs : List ρ}

theorem le (h : Tiles start len p rs q) : p ≤ q := by
  induction rs generalizing p with
  | nil => exact Int.le_of_eq h
  | cons r rs ih =>
      have htail := ih h.2
      omega

/-- Every point of the range is covered by one interval, every other point by
none. -/
theorem countP_eq (h : Tiles start len p rs q) :
    rs.countP (fun r => start r ≤ x ∧ x < start r + len r) = if p ≤ x ∧ x < q then 1 else 0 := by
  induction rs generalizing p with
  | nil =>
      have hempty : p = q := h
      rw [List.countP_nil, if_neg (by omega)]
  | cons r rs ih =>
      obtain ⟨hstart, htail⟩ := h
      have hle := htail.le
      rw [List.countP_cons, ih htail, hstart]
      simp only [decide_eq_true_eq]
      split_ifs <;> omega

end Tiles

/-! ## Blocks of equal size -/

section Blocks

variable {size b i pos n : Nat}

theorem div_block (h : i < size) : (b * size + i) / size = b := by
  rw [Nat.mul_comm, Nat.mul_add_div (by omega), Nat.div_eq_of_lt h, Nat.add_zero]

theorem mod_block (h : i < size) : (b * size + i) % size = i := by
  rw [Nat.mul_comm, Nat.mul_add_mod, Nat.mod_eq_of_lt h]

/-- A point of another block is outside an interval of this one. -/
theorem outside_block (hsize : 0 < size) (hinside : pos + n ≤ size) (h : i / size ≠ b) :
    i < b * size + pos ∨ b * size + pos + n ≤ i := by
  have hsplit := Nat.div_add_mod' i size
  have hmod := Nat.mod_lt i hsize
  rcases Nat.lt_or_gt_of_ne h with hlt | hgt
  · left
    have hmul := Nat.mul_le_mul_right size (Nat.succ_le_of_lt hlt)
    rw [Nat.succ_mul] at hmul
    omega
  · right
    have hmul := Nat.mul_le_mul_right size (Nat.succ_le_of_lt hgt)
    rw [Nat.succ_mul] at hmul
    omega

end Blocks

end Hercules.Lib
