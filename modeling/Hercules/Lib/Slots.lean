/-
# Texts in slots of a fixed size

A list of texts is sent as one buffer in which every text has a slot of its own. The
writer copies the texts one after the other into a buffer of blanks; it copies as many
characters as the text has, also if these are more than the slot holds. The reader takes
from each slot what stands before the first blank.
-/

import Mathlib.Data.List.GetD
import Mathlib.Data.List.TakeWhile

namespace Hercules.Lib.Slots

universe u

variable {α : Type u}

/-- Copy a text to the positions from `pos` on. -/
def copyTo (buffer : Nat → α) (pos : Nat) (text : List α) : Nat → α :=
  fun i => if i < pos then buffer i else text.getD (i - pos) (buffer i)

/-- Copy the texts to the slots from number `slot` on. -/
def writeFrom (size : Nat) : Nat → List (List α) → (Nat → α) → Nat → α
  | _, [], buffer => buffer
  | slot, text :: texts, buffer =>
      writeFrom size (slot + 1) texts (copyTo buffer (slot * size) text)

/-- The buffer for a list of texts. -/
def writeSlots (size : Nat) (blank : α) (texts : List (List α)) : Nat → α :=
  writeFrom size 0 texts fun _ => blank

variable [DecidableEq α]

/-- The text in a slot. -/
def readSlot (size : Nat) (blank : α) (buffer : Nat → α) (slot : Nat) : List α :=
  ((List.range size).map fun i => buffer (slot * size + i)).takeWhile (· ≠ blank)

/-- The texts in the first `count` slots. -/
def readSlots (size : Nat) (blank : α) (count : Nat) (buffer : Nat → α) : List (List α) :=
  (List.range count).map (readSlot size blank buffer)

variable {size slot i : Nat} {blank : α} {buffer : Nat → α} {text : List α} {texts : List (List α)}

omit [DecidableEq α] in
theorem copyTo_of_lt {pos : Nat} (h : i < pos) : copyTo buffer pos text i = buffer i :=
  if_pos h

omit [DecidableEq α] in
theorem copyTo_of_ge {pos : Nat} (h : pos + text.length ≤ i) :
    copyTo buffer pos text i = buffer i := by
  rw [copyTo, if_neg (by omega), List.getD_eq_default _ _ (by omega)]

omit [DecidableEq α] in
/-- Later texts do not touch earlier slots. -/
theorem writeFrom_of_lt (h : i < slot * size) : writeFrom size slot texts buffer i = buffer i := by
  induction texts generalizing slot buffer with
  | nil => rfl
  | cons text texts ih =>
      have hnext : i < (slot + 1) * size := by
        rw [Nat.add_mul]
        omega
      rw [writeFrom, ih hnext, copyTo_of_lt h]

omit [DecidableEq α] in
/-- The buffer starts with the first text. -/
theorem writeSlots_zero {a : α} (hsize : 0 < size) :
    writeSlots size blank ((a :: text) :: texts) 0 = a := by
  have hearlier : 0 < (0 + 1) * size := by omega
  rw [writeSlots, writeFrom, writeFrom_of_lt hearlier, Nat.zero_mul]
  rfl

theorem length_readSlot_le (size : Nat) (blank : α) (buffer : Nat → α) (slot : Nat) :
    (readSlot size blank buffer slot).length ≤ size := by
  rw [readSlot]
  refine (List.takeWhile_sublist _).length_le.trans ?_
  rw [List.length_map, List.length_range]

/-- No text that is read is longer than a slot. -/
theorem length_le_of_mem_readSlots {count : Nat} (h : text ∈ readSlots size blank count buffer) :
    text.length ≤ size := by
  obtain ⟨slot, -, rfl⟩ := List.mem_map.mp h
  exact length_readSlot_le size blank buffer slot

/-- A text that fits and is followed by blanks is read back. -/
theorem readSlot_copyTo (hfits : text.length ≤ size) (hblank : blank ∉ text)
    (hfree : ∀ i, slot * size ≤ i → buffer i = blank) :
    readSlot size blank (copyTo buffer (slot * size) text) slot = text := by
  have hslot : ((List.range size).map fun i => copyTo buffer (slot * size) text (slot * size + i)) =
      text ++ List.replicate (size - text.length) blank := by
    apply List.ext_getElem
    · rw [List.length_map, List.length_range, List.length_append, List.length_replicate]
      omega
    · intro i hi _
      rw [List.length_map, List.length_range] at hi
      rw [List.getElem_map, List.getElem_range, copyTo, if_neg (by omega), Nat.add_sub_cancel_left]
      by_cases hin : i < text.length
      · rw [List.getElem_append_left hin, List.getD_eq_getElem _ _ hin]
      · rw [List.getElem_append_right (by omega), List.getElem_replicate,
          List.getD_eq_default _ _ (by omega), hfree _ (by omega)]
  rw [readSlot, hslot, List.takeWhile_append_of_pos]
  · cases size - text.length with
    | zero => simp
    | succ rest => simp [List.replicate_succ]
  · intro a ha
    have hne : a ≠ blank := by
      rintro rfl
      exact hblank ha
    simpa using hne

theorem readSlot_writeFrom (hfits : text.length ≤ size) (hblank : blank ∉ text)
    (hfree : ∀ i, slot * size ≤ i → buffer i = blank) :
    readSlot size blank (writeFrom size slot (text :: texts) buffer) slot = text := by
  have hsame : ((List.range size).map fun i =>
      writeFrom size slot (text :: texts) buffer (slot * size + i)) =
        (List.range size).map fun i => copyTo buffer (slot * size) text (slot * size + i) := by
    apply List.map_congr_left
    intro i hi
    rw [List.mem_range] at hi
    have hearlier : slot * size + i < (slot + 1) * size := by
      rw [Nat.add_mul]
      omega
    rw [writeFrom, writeFrom_of_lt hearlier]
  have hread := readSlot_copyTo hfits hblank hfree
  rw [readSlot] at hread ⊢
  rw [hsame, hread]

/-- Texts that fit are read back slot by slot. -/
theorem map_readSlot_writeFrom (hfits : ∀ text ∈ texts, text.length ≤ size)
    (hblank : ∀ text ∈ texts, blank ∉ text) (hfree : ∀ i, slot * size ≤ i → buffer i = blank) :
    (List.range' slot texts.length).map
      (readSlot size blank (writeFrom size slot texts buffer)) = texts := by
  induction texts generalizing slot buffer with
  | nil => rfl
  | cons text texts ih =>
      rw [List.forall_mem_cons] at hfits hblank
      have hnext : ∀ i, (slot + 1) * size ≤ i → copyTo buffer (slot * size) text i = blank := by
        intro i hi
        rw [Nat.add_mul, Nat.one_mul] at hi
        have hlen := hfits.1
        rw [copyTo_of_ge (by omega), hfree i (by omega)]
      rw [List.length_cons, List.range'_succ, List.map_cons,
        readSlot_writeFrom hfits.1 hblank.1 hfree]
      exact congrArg (text :: ·) (ih hfits.2 hblank.2 hnext)

theorem readSlots_writeSlots (hfits : ∀ text ∈ texts, text.length ≤ size)
    (hblank : ∀ text ∈ texts, blank ∉ text) :
    readSlots size blank texts.length (writeSlots size blank texts) = texts := by
  have hread : (List.range' 0 texts.length).map
      (readSlot size blank (writeSlots size blank texts)) =
      texts := map_readSlot_writeFrom hfits hblank fun _ _ => rfl
  rwa [← List.range_eq_range'] at hread

end Hercules.Lib.Slots
