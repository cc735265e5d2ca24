/-
# Ceilings of binary64 quotients

`ceil((double)x / y)` over unsigned integers, the way an IEEE 754 machine
computes it: both operands are rounded to 53 significant bits, their quotient is
rounded to 53 bits once more, and only the last step, the ceiling, is exact.
Operands below `2 ^ 64` keep every intermediate value in the normal range, so
neither subnormal results nor overflow appear. The main fact is that a dividend
below `2 ^ 53` gives the true ceiling for every divisor.
-/

import Mathlib.Algebra.Order.Floor.Div
import Mathlib.Tactic.Linarith
import Mathlib.Tactic.Ring

namespace Hercules.Lib.Binary64

/-! ## Rounding to the nearest integer -/

/-- The integer nearest to `a / b`; a tie goes to the even neighbour. -/
def roundHalfEven (a b : Nat) : Nat :=
  if 2 * (a % b) < b ∨ 2 * (a % b) = b ∧ (a / b) % 2 = 0 then a / b else a / b + 1

/-- Rounding never jumps over an integer from below. -/
theorem roundHalfEven_le {a b n : Nat} (hb : 0 < b) (h : a ≤ n * b) :
    roundHalfEven a b ≤ n := by
  have hdiv : a / b ≤ n := Nat.div_le_of_le_mul (by rwa [Nat.mul_comm])
  by_cases hn : a / b = n
  · -- the quotient already is `n`, hence the remainder is zero
    have hmod : a % b = 0 := by
      have hsplit := Nat.div_add_mod a b
      rw [hn, Nat.mul_comm] at hsplit
      omega
    simp [roundHalfEven, hmod, hb, hn]
  · unfold roundHalfEven
    split <;> omega

/-- Beyond the midpoint above `n` the rounded value exceeds `n`. -/
theorem lt_roundHalfEven {a b n : Nat} (hb : 0 < b) (h : 2 * (n * b) + b < 2 * a) :
    n < roundHalfEven a b := by
  have hsplit := Nat.div_add_mod a b
  have hmod := Nat.mod_lt a hb
  by_cases hq : n < a / b
  · unfold roundHalfEven
    split <;> omega
  · have hle : b * (a / b) ≤ b * n := Nat.mul_le_mul_left b (by omega)
    have hn : a / b = n := by
      by_contra hne
      have hstep : b * (a / b) + b ≤ b * n := by
        rw [← Nat.mul_succ]
        exact Nat.mul_le_mul_left b (by omega)
      rw [Nat.mul_comm b n] at hstep
      omega
    rw [hn, Nat.mul_comm b n] at hsplit
    unfold roundHalfEven
    rw [if_neg (by omega)]
    omega

@[simp]
theorem roundHalfEven_one (a : Nat) : roundHalfEven a 1 = a := by
  simp [roundHalfEven, Nat.mod_one]

/-- Rounding keeps at least the integer part. -/
theorem div_le_roundHalfEven (a b : Nat) : a / b ≤ roundHalfEven a b := by
  unfold roundHalfEven
  split <;> omega

/-! ## Conversion and division -/

/-- `(double)x` for an unsigned `x`: the bits below the 53 leading ones are
rounded away. The result is again an integer. -/
def ofNat (x : Nat) : Nat :=
  roundHalfEven x (2 ^ (x.log2 - 52)) * 2 ^ (x.log2 - 52)

/-- The weight of the last bit kept in the quotient `x / y`, as a power of two:
the leading bits give it up to one, and a comparison decides. -/
def quotExp (x y : Nat) : Int :=
  let e : Int := (x.log2 : Int) - y.log2 - 52
  if x * 2 ^ (-e).toNat < 2 ^ 52 * (y * 2 ^ e.toNat) then e - 1 else e

/-- The ceiling of the quotient of two doubles, given as integers. -/
def ceilQuot (x y : Nat) : Nat :=
  let e := quotExp x y
  let m := roundHalfEven (x * 2 ^ (-e).toNat) (y * 2 ^ e.toNat)
  if 0 ≤ e then m * 2 ^ e.toNat else (m + 2 ^ (-e).toNat - 1) / 2 ^ (-e).toNat

/-- `ceil((double)x / y)` for unsigned operands. -/
def ceilDiv (x y : Nat) : Nat :=
  ceilQuot (ofNat x) (ofNat y)

/-! ## Exactness below `2 ^ 53` -/

/-- Integers of at most 53 bits are doubles. -/
theorem ofNat_of_lt {x : Nat} (hx : x < 2 ^ 53) : ofNat x = x := by
  have hlog : x.log2 - 52 = 0 := by
    by_cases h : x = 0
    · simp [h]
    · have hlt := (Nat.log2_lt h).mpr hx
      omega
  simp [ofNat, hlog]

/-- Conversion does not lead back below `2 ^ 53`. -/
theorem le_ofNat {y : Nat} (hy : 2 ^ 53 ≤ y) : 2 ^ 53 ≤ ofNat y := by
  have hne : y ≠ 0 := by
    rintro rfl
    simp at hy
  have hlog : 53 ≤ y.log2 := (Nat.le_log2 hne).mpr hy
  have hlead : 2 ^ 52 ≤ y / 2 ^ (y.log2 - 52) := by
    rw [Nat.le_div_iff_mul_le (by positivity), ← Nat.pow_add]
    have hsum : 52 + (y.log2 - 52) = y.log2 := by omega
    rw [hsum]
    exact Nat.log2_self_le hne
  calc 2 ^ 53 = 2 ^ 52 * 2 ^ 1 := by norm_num
    _ ≤ roundHalfEven y (2 ^ (y.log2 - 52)) * 2 ^ (y.log2 - 52) :=
        Nat.mul_le_mul (hlead.trans (div_le_roundHalfEven _ _))
          (Nat.pow_le_pow_right (by decide) (by omega))

/-- The leading bits place the scaled quotient above `2 ^ 51`. -/
private theorem estimate_le {x y : Nat} (hx : x ≠ 0) {e : Int}
    (he : e = (x.log2 : Int) - y.log2 - 52) :
    2 ^ 51 * (y * 2 ^ e.toNat) ≤ x * 2 ^ (-e).toNat := by
  have hxlog : 2 ^ x.log2 ≤ x := Nat.log2_self_le hx
  have hylog : y ≤ 2 ^ (y.log2 + 1) := Nat.le_of_lt Nat.lt_log2_self
  have hexp : 51 + (y.log2 + 1 + e.toNat) = x.log2 + (-e).toNat := by omega
  calc 2 ^ 51 * (y * 2 ^ e.toNat)
      ≤ 2 ^ 51 * (2 ^ (y.log2 + 1) * 2 ^ e.toNat) := by gcongr
    _ = 2 ^ x.log2 * 2 ^ (-e).toNat := by rw [← Nat.pow_add, ← Nat.pow_add, hexp, Nat.pow_add]
    _ ≤ x * 2 ^ (-e).toNat := by gcongr

/-- The chosen weight leaves at least 53 bits in the scaled quotient. -/
theorem quotExp_spec {x y : Nat} (hx : x ≠ 0) :
    2 ^ 52 * (y * 2 ^ (quotExp x y).toNat) ≤ x * 2 ^ (-quotExp x y).toNat := by
  obtain ⟨e, he⟩ : ∃ e : Int, e = (x.log2 : Int) - y.log2 - 52 := ⟨_, rfl⟩
  have hest := estimate_le hx he
  unfold quotExp
  simp only [← he]
  split
  · -- one more bit is kept: either the divisor halves or the dividend doubles
    rcases lt_or_ge 0 e with hpos | hneg
    · obtain ⟨k, hk⟩ : ∃ k, e.toNat = k + 1 := ⟨e.toNat - 1, by omega⟩
      have hdown : (e - 1).toNat = k := by omega
      have hup : (-(e - 1)).toNat = 0 := by omega
      have hup' : (-e).toNat = 0 := by omega
      rw [hk, hup', pow_succ 2 k] at hest
      rw [hdown, hup]
      linarith
    · have hdown : (e - 1).toNat = 0 := by omega
      have hup : (-(e - 1)).toNat = (-e).toNat + 1 := by omega
      have hdown' : e.toNat = 0 := by omega
      rw [hdown'] at hest
      rw [hdown, hup, pow_succ 2 (-e).toNat]
      linarith
  · omega

/-- Rounding on a grid of step `1 / k` keeps the ceiling of `x / y` as long as
the grid is finer than what the divisor can resolve. -/
theorem ceil_roundHalfEven_scaled {x y k : Nat} (hx : 0 < x) (hy : 0 < y) (hfine : y < 2 * k) :
    (roundHalfEven (x * k) y + k - 1) / k = (x + y - 1) / y := by
  have hkpos : 0 < k := by omega
  obtain ⟨n, hn⟩ : ∃ n, (x + y - 1) / y = n + 1 := by
    have hpos : 0 < (x + y - 1) / y := Nat.div_pos (by omega) hy
    exact ⟨(x + y - 1) / y - 1, by omega⟩
  -- `n * y < x ≤ (n + 1) * y`
  have hbounds := (Nat.div_eq_iff hy).mp hn
  rw [Nat.add_mul, Nat.one_mul] at hbounds
  have hupper : roundHalfEven (x * k) y ≤ (n + 1) * k := by
    apply roundHalfEven_le hy
    have hxle : x ≤ (n + 1) * y := by
      rw [Nat.add_mul, Nat.one_mul]
      omega
    calc x * k ≤ (n + 1) * y * k := Nat.mul_le_mul_right k hxle
      _ = (n + 1) * k * y := by ring
  have hlower : n * k < roundHalfEven (x * k) y := by
    apply lt_roundHalfEven hy
    have hxk : (n * y + 1) * k ≤ x * k := Nat.mul_le_mul_right k (by omega)
    have hexpand : (n * y + 1) * k = n * k * y + k := by ring
    omega
  rw [hn, Nat.div_eq_iff hkpos]
  rw [Nat.add_mul, Nat.one_mul] at hupper ⊢
  omega

@[simp]
theorem ceilQuot_zero {y : Nat} (hy : 0 < y) : ceilQuot 0 y = 0 := by
  have hround : ∀ b, 0 < b → roundHalfEven 0 b = 0 := fun b hb => by simp [roundHalfEven, hb]
  simp only [ceilQuot, Nat.zero_mul]
  rw [hround _ (by positivity)]
  have hpow := Nat.two_pow_pos (-quotExp 0 y).toNat
  split
  · exact Nat.zero_mul _
  · exact Nat.div_eq_of_lt (by omega)

/-- A dividend of at most 53 bits has an exact ceiling. -/
theorem ceilQuot_eq {x y : Nat} (hx : x < 2 ^ 53) (hy : 0 < y) :
    ceilQuot x y = (x + y - 1) / y := by
  by_cases hzero : x = 0
  · rw [hzero, ceilQuot_zero hy, Nat.div_eq_of_lt (by omega)]
  have hspec := quotExp_spec (y := y) hzero
  unfold ceilQuot
  obtain ⟨e, he⟩ : ∃ e, e = quotExp x y := ⟨_, rfl⟩
  simp only [← he] at hspec ⊢
  by_cases hpos : 0 ≤ e
  · -- fifty-three bits before the point leave room for the divisor 1 only
    have hup : (-e).toNat = 0 := by omega
    rw [hup, Nat.pow_zero, Nat.mul_one] at hspec
    have hprod : 0 < y * 2 ^ e.toNat := by positivity
    have hone : y * 2 ^ e.toNat = 1 := by omega
    have hy1 : y = 1 := Nat.eq_one_of_mul_eq_one_right hone
    have hpow : 2 ^ e.toNat = 1 := Nat.eq_one_of_mul_eq_one_left hone
    simp [hpos, hup, hpow, hy1]
  · have hdown : e.toNat = 0 := by omega
    rw [hdown, Nat.pow_zero, Nat.mul_one] at hspec
    simp only [hpos, if_false, hdown, Nat.pow_zero, Nat.mul_one]
    apply ceil_roundHalfEven_scaled (by omega) hy
    -- otherwise the scaled quotient would need more than the 53 bits of `x`
    by_contra hcoarse
    have hscaled : x * 2 ^ (-e).toNat < 2 ^ 53 * 2 ^ (-e).toNat :=
      Nat.mul_lt_mul_of_pos_right hx (by positivity)
    omega

/-- Below `2 ^ 53` the computed number of blocks is the true one, for every
divisor. -/
theorem ceilDiv_eq {x y : Nat} (hx : x < 2 ^ 53) (hy : 0 < y) :
    ceilDiv x y = (x + y - 1) / y := by
  unfold ceilDiv
  rw [ofNat_of_lt hx]
  by_cases hlarge : y < 2 ^ 53
  · rw [ofNat_of_lt hlarge, ceilQuot_eq hx hy]
  · have hge : 2 ^ 53 ≤ ofNat y := le_ofNat (by omega)
    rw [ceilQuot_eq hx (by omega)]
    by_cases hzero : x = 0
    · rw [Nat.div_eq_of_lt (by omega), Nat.div_eq_of_lt (by omega)]
    · rw [Nat.div_eq_of_lt_le (k := 1) (by omega) (by omega),
        Nat.div_eq_of_lt_le (k := 1) (by omega) (by omega)]

/-- The computed quotient `q` of a positive `x` satisfies
`(q - 1) * y < x ≤ q * y`. -/
theorem ceilDiv_bounds {x y : Nat} (hpos : 0 < x) (hx : x < 2 ^ 53) (hy : 0 < y) :
    (ceilDiv x y - 1) * y < x ∧ x ≤ ceilDiv x y * y := by
  rw [ceilDiv_eq hx hy, Nat.sub_mul]
  have hsplit := Nat.div_add_mod (x + y - 1) y
  have hmod := Nat.mod_lt (x + y - 1) hy
  rw [Nat.mul_comm] at hsplit
  omega

/-- The first odd integer a double cannot hold is rounded, and so is the
ceiling: the true value is `2 ^ 53 + 1`. -/
example : ceilDiv (2 ^ 53 + 1) 1 = 2 ^ 53 := by decide +kernel

end Hercules.Lib.Binary64
