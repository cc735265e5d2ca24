/-
# Byte memory

A buffer is a function from positions to bytes: no length is attached, so a
write beyond the end of an allocation is visible as a write at a position that
the allocation does not own. `store` overwrites a range, `load` reads one.
-/

import Mathlib.Algebra.Group.Nat.Defs
import Mathlib.Data.List.Basic
import Mathlib.Data.List.GetD

namespace Hercules.Lib

/-- The bytes from some base address on. -/
abbrev Memory := Nat → UInt8

namespace Memory

/-- Copy `data` to the positions from `pos` on. -/
def store (m : Memory) (pos : Nat) (data : List UInt8) : Memory :=
  fun i => if i < pos then m i else data.getD (i - pos) (m i)

/-- The `len` bytes from `pos` on. -/
def load (m : Memory) (pos len : Nat) : List UInt8 :=
  (List.range len).map fun i => m (pos + i)

variable {m src : Memory} {pos from_ len i : Nat} {data : List UInt8}

theorem store_of_lt (h : i < pos) : m.store pos data i = m i :=
  if_pos h

theorem store_of_ge (h : pos + data.length ≤ i) : m.store pos data i = m i := by
  rw [store, if_neg (by omega), List.getD_eq_default _ _ (by omega)]

theorem store_of_le (h : pos ≤ i) : m.store pos data i = data.getD (i - pos) (m i) :=
  if_neg (by omega)

@[simp]
theorem length_load : (m.load pos len).length = len := by
  simp [load]

theorem getD_load (h : i < len) (default : UInt8) :
    (m.load pos len).getD i default = m (pos + i) := by
  simp [load, List.getD_eq_getElem?_getD, h]

@[simp]
theorem store_nil (m : Memory) (pos : Nat) : m.store pos [] = m := by
  funext i
  simp [store]

/-- Two writes that follow each other are one. -/
theorem store_append (m : Memory) (pos : Nat) (data data' : List UInt8) :
    m.store pos (data ++ data') = (m.store pos data).store (pos + data.length) data' := by
  funext i
  by_cases hfirst : i < pos + data.length
  · rw [store_of_lt hfirst]
    by_cases hlower : i < pos
    · rw [store_of_lt hlower, store_of_lt hlower]
    · rw [store_of_le (by omega), store_of_le (by omega), List.getD_append _ _ _ _ (by omega)]
  · rw [store_of_le (by omega), store_of_le (by omega), store_of_ge (by omega),
      List.getD_append_right _ _ _ _ (by omega), Nat.sub_sub]

/-- Copying a range of `src` shows the bytes of `src` inside it. -/
theorem store_load_of_mem (hlower : pos ≤ i) (hupper : i < pos + len) :
    m.store pos (src.load from_ len) i = src (from_ + (i - pos)) := by
  rw [store_of_le hlower, getD_load (by omega)]

/-- Outside the copied range nothing changes. -/
theorem store_load_of_notMem (h : i < pos ∨ pos + len ≤ i) :
    m.store pos (src.load from_ len) i = m i := by
  rcases h with hlower | hupper
  · exact store_of_lt hlower
  · exact store_of_ge (by rwa [length_load])

@[simp]
theorem load_zero (m : Memory) (pos : Nat) : m.load pos 0 = [] := rfl

theorem load_add (m : Memory) (pos len len' : Nat) :
    m.load pos (len + len') = m.load pos len ++ m.load (pos + len) len' := by
  simp [load, List.range_add, Nat.add_assoc]

/-! ## Ranges that agree -/

variable {m' : Memory}

theorem load_congr (h : ∀ i < len, m (pos + i) = m' (pos + i)) :
    m.load pos len = m'.load pos len := by
  apply List.map_congr_left
  intro i hi
  exact h i (List.mem_range.mp hi)

theorem apply_of_load (h : m.load pos len = m'.load pos len) (hi : i < len) :
    m (pos + i) = m' (pos + i) := by
  have hbyte : (m.load pos len).getD i 0 = (m'.load pos len).getD i 0 := by rw [h]
  rwa [getD_load hi, getD_load hi] at hbyte

/-- What was stored is loaded. -/
theorem load_store_self (m : Memory) (pos : Nat) (data : List UInt8) :
    (m.store pos data).load pos data.length = data := by
  apply List.ext_getElem
  · rw [length_load]
  · intro i _ hi
    rw [← List.getD_eq_getElem _ 0, getD_load hi, store_of_le (Nat.le_add_right pos i),
      Nat.add_sub_cancel_left, List.getD_eq_getElem _ _ hi]

/-- A range after a store depends on the range before it. -/
theorem load_store_congr (h : m.load pos len = m'.load pos len) (data : List UInt8) :
    (m.store pos data).load pos len = (m'.store pos data).load pos len := by
  apply load_congr
  intro i hi
  rw [store_of_le (Nat.le_add_right pos i), store_of_le (Nat.le_add_right pos i),
    apply_of_load h hi]

/-- If a store once gave a text, the same store to a buffer with that text gives it again. -/
theorem load_store_of_load {text : List UInt8} (hstored : (m.store pos data).load pos len = text)
    (h : m'.load pos len = text) : (m'.store pos data).load pos len = text := by
  rw [← hstored]
  apply load_congr
  intro i hi
  by_cases hdata : i < data.length
  · rw [store_of_le (Nat.le_add_right pos i), store_of_le (Nat.le_add_right pos i),
      Nat.add_sub_cancel_left, List.getD_eq_getElem _ _ hdata, List.getD_eq_getElem _ _ hdata]
  · rw [store_of_ge (by omega)]
    exact apply_of_load (h.trans hstored.symm) hi

/-! ## Known bytes -/

/-- The bytes that are known once `data` was written from `pos` on. -/
def overlay (known : Nat → Option UInt8) (pos : Nat) (data : List UInt8) : Nat → Option UInt8 :=
  fun i => if i < pos then known i else (data[i - pos]?).or (known i)

variable {known : Nat → Option UInt8} {value : UInt8}

theorem overlay_of_notMem (h : i < pos ∨ pos + data.length ≤ i) :
    overlay known pos data i = known i := by
  rw [overlay]
  split
  · rfl
  · rw [List.getElem?_eq_none (by omega), Option.none_or]

theorem overlay_of_mem (hlower : pos ≤ i) (hupper : i - pos < data.length) :
    overlay known pos data i = some data[i - pos] := by
  rw [overlay, if_neg (by omega), List.getElem?_eq_getElem hupper, Option.some_or]

@[simp]
theorem overlay_nil : overlay known pos [] = known := by
  funext i
  simp [overlay]

/-- Two writes that follow each other are one. -/
theorem overlay_append (known : Nat → Option UInt8) (pos : Nat) (data data' : List UInt8) :
    overlay known pos (data ++ data') =
      overlay (overlay known pos data) (pos + data.length) data' := by
  funext i
  by_cases hfirst : i < pos + data.length
  · rw [overlay_of_notMem (Or.inl hfirst)]
    by_cases hlower : i < pos
    · rw [overlay_of_notMem (Or.inl hlower), overlay_of_notMem (Or.inl hlower)]
    · rw [overlay, overlay, if_neg hlower, if_neg hlower, List.getElem?_append_left (by omega)]
  · rw [overlay, overlay, overlay_of_notMem (Or.inr (by omega)), if_neg (by omega), if_neg hfirst,
      List.getElem?_append_right (by omega), Nat.sub_sub]

/-- The known bytes from `base` on. -/
theorem overlay_add (known : Nat → Option UInt8) (base pos : Nat) (data : List UInt8) (i : Nat) :
    overlay known (base + pos) data (base + i) =
      overlay (fun j => known (base + j)) pos data i := by
  simp only [overlay, Nat.add_lt_add_iff_left, Nat.add_sub_add_left]

/-- A buffer that has the known bytes has them after the same write. -/
theorem store_of_overlay (hknown : ∀ value, known i = some value → m i = value)
    (h : overlay known pos data i = some value) : m.store pos data i = value := by
  by_cases hout : i < pos ∨ pos + data.length ≤ i
  · rw [overlay_of_notMem hout] at h
    rcases hout with hlower | hupper
    · rw [store_of_lt hlower, hknown value h]
    · rw [store_of_ge hupper, hknown value h]
  · rw [overlay_of_mem (by omega) (by omega), Option.some.injEq] at h
    rw [store_of_le (by omega), List.getD_eq_getElem _ _ (by omega), h]

/-! ## Little-endian numbers -/

/-- The `width` low bytes of a number, lowest first. -/
def natBytes : Nat → Nat → List UInt8
  | 0, _ => []
  | width + 1, n => UInt8.ofNat (n % 256) :: natBytes width (n / 256)

/-- The number that `width` bytes from `pos` on represent. -/
def loadNat (m : Memory) (pos : Nat) : Nat → Nat
  | 0 => 0
  | width + 1 => (m pos).toNat + 256 * loadNat m (pos + 1) width

@[simp]
theorem length_natBytes (width n : Nat) : (natBytes width n).length = width := by
  induction width generalizing n with
  | zero => rfl
  | succ width ih => simp [natBytes, ih]

theorem loadNat_congr {m m' : Memory} {pos width : Nat}
    (h : ∀ i, pos ≤ i → i < pos + width → m i = m' i) :
    m.loadNat pos width = m'.loadNat pos width := by
  induction width generalizing pos with
  | zero => rfl
  | succ width ih =>
      rw [loadNat, loadNat, h pos (Nat.le_refl pos) (by omega)]
      rw [ih fun i hlower hupper => h i (by omega) (by omega)]

/-- A stored number is read back, up to its width. -/
theorem loadNat_store_natBytes (m : Memory) (pos width n : Nat) :
    (m.store pos (natBytes width n)).loadNat pos width = n % 256 ^ width := by
  induction width generalizing m pos n with
  | zero => simp [loadNat, Nat.mod_one]
  | succ width ih =>
      have hfirst : m.store pos (natBytes (width + 1) n) pos = UInt8.ofNat (n % 256) := by
        rw [store_of_le (Nat.le_refl pos)]
        simp [natBytes]
      have hrest : (m.store pos (natBytes (width + 1) n)).loadNat (pos + 1) width =
          (m.store (pos + 1) (natBytes width (n / 256))).loadNat (pos + 1) width := by
        apply loadNat_congr
        intro i hlower hupper
        rw [store_of_le (by omega), store_of_le hlower]
        obtain ⟨k, rfl⟩ := Nat.exists_eq_add_of_le hlower
        rw [show pos + 1 + k - pos = k + 1 by omega, show pos + 1 + k - (pos + 1) = k by omega]
        simp [natBytes]
      rw [loadNat, hfirst, hrest, ih, Nat.pow_succ, Nat.mul_comm (256 ^ width) 256,
        Nat.mod_mul]
      simp

/-- The number is read from the bytes alone. -/
theorem loadNat_of_load {m : Memory} {pos width n : Nat} (h : m.load pos width = natBytes width n) :
    m.loadNat pos width = n % 256 ^ width := by
  rw [← loadNat_store_natBytes m pos width n, ← h]
  apply loadNat_congr
  intro i hlower hupper
  rw [store_load_of_mem hlower hupper, Nat.add_sub_cancel' hlower]

end Memory

end Hercules.Lib
