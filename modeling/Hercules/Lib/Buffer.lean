/-
# Arrays and the texts in them

An array has a fixed number of cells. A text in it begins at some cell and ends before
the first cell with a terminator; the cells behind that can be anything. The functions
follow those of the C library. A cell outside of the array is neither read nor written:
there is no result then.

Most of these functions write at one place, and what the array holds afterwards is the
text before that place, continued by what was written. `exists_write_holds` says this
once.
-/

import Mathlib.Data.List.Infix
import Mathlib.Data.List.TakeWhile

namespace Hercules.Lib

universe u

/-- An array. -/
structure Buffer (α : Type u) (size : Nat) where
  cells : List α
  length_cells : cells.length = size

namespace Buffer

variable {α : Type u} {size size' : Nat}

/-! ## Cells -/

/-- One cell. -/
def get (b : Buffer α size) (i : Nat) : Option α :=
  b.cells[i]?

/-- The cells from `pos` on. -/
def read (b : Buffer α size) (pos count : Nat) : Option (List α) :=
  if pos + count ≤ size then some ((b.cells.drop pos).take count) else none

/-- Replace the cells from `pos` on. -/
def write (b : Buffer α size) (pos : Nat) (data : List α) : Option (Buffer α size) :=
  if h : pos + data.length ≤ size then
    some ⟨b.cells.take pos ++ data ++ b.cells.drop (pos + data.length), by
      simp only [List.length_append, List.length_take, List.length_drop, b.length_cells]
      omega⟩
  else none

/-- `memcpy(dst, src, count)`. -/
def memcpy (dst : Buffer α size) (src : Buffer α size') (count : Nat) : Option (Buffer α size) :=
  (src.read 0 count).bind (dst.write 0)

/-- `memmove(b, b + pos, count)`. -/
def memmove (b : Buffer α size) (pos count : Nat) : Option (Buffer α size) :=
  (b.read pos count).bind (b.write 0)

theorem read_eq (b : Buffer α size) {pos count : Nat} (h : pos + count ≤ size) :
    b.read pos count = some ((b.cells.drop pos).take count) :=
  if_pos h

theorem exists_write (b : Buffer α size) {pos : Nat} {data : List α}
    (h : pos + data.length ≤ size) :
    ∃ b', b.write pos data = some b' ∧
      b'.cells = b.cells.take pos ++ data ++ b.cells.drop (pos + data.length) := by
  rw [write, dif_pos h]
  exact ⟨_, rfl, rfl⟩

/-- Two writes that follow each other are one. -/
theorem write_append {b b' : Buffer α size} {pos : Nat} {data : List α}
    (h : b.write pos data = some b') (more : List α) :
    b'.write (pos + data.length) more = b.write pos (data ++ more) := by
  rw [write] at h
  split at h
  next hfits =>
    cases h
    have hpos : pos ≤ b.cells.length := by
      rw [b.length_cells]
      omega
    have hfront : (b.cells.take pos ++ data).length = pos + data.length := by
      rw [List.length_append, List.length_take, Nat.min_eq_left hpos]
    by_cases hmore : pos + data.length + more.length ≤ size
    · have hboth : pos + (data ++ more).length ≤ size := by
        rw [List.length_append]
        omega
      rw [write, write, dif_pos hmore, dif_pos hboth]
      congr 2
      rw [List.take_left' hfront, List.drop_append, hfront, List.drop_eq_nil_of_le (by omega),
        List.drop_drop, List.length_append]
      simp only [List.append_assoc, List.nil_append]
      congr 4
      omega
    · have hboth : ¬ pos + (data ++ more).length ≤ size := by
        rw [List.length_append]
        omega
      rw [write, write, dif_neg hmore, dif_neg hboth]
  next => cases h

/-! ## Writing a text -/

/-- The array begins with this text. -/
structure Holds (nul : α) (b : Buffer α size) (text : List α) : Prop where
  free : nul ∉ text
  starts : text ++ [nul] <+: b.cells

/-- `strcpy(b, text)`. -/
def strcpy (nul : α) (b : Buffer α size) (text : List α) : Option (Buffer α size) :=
  b.write 0 (text ++ [nul])

/-- `strncpy(b, text, count)`. A shorter text is filled up with terminators. -/
def strncpy (nul : α) (b : Buffer α size) (text : List α) (count : Nat) : Option (Buffer α size) :=
  b.write 0 ((text ++ List.replicate count nul).take count)

variable {nul : α} {b : Buffer α size} {front text more data : List α}

theorem Holds.prefix_cells (h : b.Holds nul text) : text <+: b.cells :=
  (List.prefix_append text [nul]).trans h.starts

theorem Holds.length_lt (h : b.Holds nul text) : text.length < size := by
  have hle := h.starts.length_le
  rw [b.length_cells, List.length_append, List.length_singleton] at hle
  exact hle

theorem Holds.get (h : b.Holds nul text) {i : Nat} (hi : i ≤ text.length) :
    b.get i = (text ++ [nul])[i]? := by
  obtain ⟨rest, hrest⟩ := h.starts
  rw [Buffer.get, ← hrest, List.getElem?_append_left]
  rw [List.length_append, List.length_singleton]
  omega

/-- After a write at the end of `front`, the array holds `front` and what was written up to its
first terminator. -/
theorem exists_write_holds (hfront : front <+: b.cells) (hfree : nul ∉ front ++ text)
    (hdata : text ++ [nul] <+: data) (hfits : front.length + data.length ≤ size) :
    ∃ b', b.write front.length data = some b' ∧ b'.Holds nul (front ++ text) := by
  obtain ⟨b', hwrite, hcells⟩ := b.exists_write hfits
  refine ⟨b', hwrite, hfree, ?_⟩
  rw [hcells, ← List.prefix_iff_eq_take.mp hfront, List.append_assoc, List.append_assoc]
  exact (List.prefix_append_right_inj front).mpr (hdata.trans (List.prefix_append data _))

theorem exists_write_zero_holds (b : Buffer α size) (hfree : nul ∉ text)
    (hdata : text ++ [nul] <+: data) (hfits : data.length ≤ size) :
    ∃ b', b.write 0 data = some b' ∧ b'.Holds nul text := by
  have hfits' : ([] : List α).length + data.length ≤ size := by
    rw [List.length_nil]
    omega
  exact exists_write_holds List.nil_prefix hfree hdata hfits'

theorem exists_strcpy (b : Buffer α size) (hfree : nul ∉ text) (hfits : text.length < size) :
    ∃ b', b.strcpy nul text = some b' ∧ b'.Holds nul text := by
  refine b.exists_write_zero_holds hfree List.prefix_rfl ?_
  rw [List.length_append, List.length_singleton]
  exact hfits

theorem exists_strncpy (b : Buffer α size) (hfree : nul ∉ text) (hfits : text.length < size) :
    ∃ b', b.strncpy nul text size = some b' ∧ b'.Holds nul text := by
  refine b.exists_write_zero_holds hfree ?_ ?_
  · have hshort : (text ++ [nul]).length ≤ size := by
      rw [List.length_append, List.length_singleton]
      exact hfits
    have hsize : size = size - 1 + 1 := by omega
    refine List.prefix_take_iff.mpr ⟨?_, hshort⟩
    rw [hsize, List.replicate_succ]
    exact (List.prefix_append_right_inj text).mpr ⟨_, rfl⟩
  · exact List.length_take_le _ _

/-- A terminator inside of a text ends it there. -/
theorem Holds.exists_cut (h : b.Holds nul (front ++ text)) :
    ∃ b', b.write front.length [nul] = some b' ∧ b'.Holds nul front := by
  have hfree : nul ∉ front ++ [] := by
    rw [List.append_nil]
    exact fun hmem => h.free (List.mem_append_left text hmem)
  have hfits : front.length + [nul].length ≤ size := by
    have hlen := h.length_lt
    rw [List.length_append] at hlen
    rw [List.length_singleton]
    omega
  have hfront := (List.prefix_append front text).trans h.prefix_cells
  have hwrite := exists_write_holds hfront hfree List.prefix_rfl hfits
  rwa [List.append_nil] at hwrite

/-- A character is put in the place of the terminator, and a new terminator behind it. -/
theorem Holds.exists_push (h : b.Holds nul text) {a : α} (ha : nul ≠ a)
    (hfits : text.length + 1 < size) :
    ∃ unended ended, b.write text.length [a] = some unended ∧
      unended.write (text.length + 1) [nul] = some ended ∧ ended.Holds nul (text ++ [a]) := by
  have hone : text.length + [a].length ≤ size := by
    rw [List.length_singleton]
    omega
  have htwo : text.length + ([a] ++ [nul]).length ≤ size := by
    rw [List.length_append, List.length_singleton, List.length_singleton]
    omega
  have hfree : nul ∉ text ++ [a] := by
    rw [List.mem_append, List.mem_singleton, not_or]
    exact ⟨h.free, ha⟩
  obtain ⟨unended, hopen, -⟩ := b.exists_write hone
  obtain ⟨ended, hended, hholds⟩ :=
    exists_write_holds h.prefix_cells hfree List.prefix_rfl htwo
  have happend := write_append hopen [nul]
  rw [List.length_singleton] at happend
  exact ⟨unended, ended, hopen, happend.trans hended, hholds⟩

/-- Cells are copied from an array that holds a text, and a terminator is put behind them. The
cells may be fewer or more than the text has. -/
theorem Holds.exists_memcpy {src : Buffer α size'} (h : src.Holds nul text)
    (dst : Buffer α size) {count : Nat} (hread : count ≤ size') (hfits : count < size) :
    ∃ copied ended, dst.memcpy src count = some copied ∧ copied.write count [nul] = some ended ∧
      ended.Holds nul (text.take count) := by
  have hlength : (src.cells.take count).length = count := by
    rw [List.length_take, src.length_cells]
    omega
  have hcopy : dst.memcpy src count = dst.write 0 (src.cells.take count) := by
    rw [memcpy, src.read_eq (by omega)]
    rfl
  have hwritten : 0 + (src.cells.take count).length ≤ size := by omega
  obtain ⟨copied, hcopied, -⟩ := dst.exists_write hwritten
  have hfree : nul ∉ text.take count := fun hmem => h.free (List.mem_of_mem_take hmem)
  have hdata : text.take count ++ [nul] <+: src.cells.take count ++ [nul] := by
    by_cases hinside : count ≤ text.length
    · obtain ⟨rest, hrest⟩ := h.prefix_cells
      rw [← hrest, List.take_append_of_le_length hinside]
    · rw [List.take_of_length_le (by omega)]
      have hwhole : text ++ [nul] <+: src.cells.take count := by
        refine List.prefix_take_iff.mpr ⟨h.starts, ?_⟩
        rw [List.length_append, List.length_singleton]
        omega
      exact hwhole.trans (List.prefix_append _ _)
  have hroom : (src.cells.take count ++ [nul]).length ≤ size := by
    rw [List.length_append, List.length_singleton, hlength]
    exact hfits
  obtain ⟨ended, hended, hholds⟩ := dst.exists_write_zero_holds hfree hdata hroom
  have happend := write_append hcopied [nul]
  rw [hlength, Nat.zero_add] at happend
  exact ⟨copied, ended, hcopy.trans hcopied, happend.trans hended, hholds⟩

/-- The rest of a text is moved to the start of the array, together with its terminator. -/
theorem Holds.exists_memmove (h : b.Holds nul (front ++ text)) {count : Nat}
    (hcount : text.length < count) (hfits : front.length + count ≤ size) :
    ∃ b', b.memmove front.length count = some b' ∧ b'.Holds nul text := by
  obtain ⟨rest, hrest⟩ := h.starts
  have hdrop : b.cells.drop front.length = text ++ [nul] ++ rest := by
    rw [← hrest, List.append_assoc, List.append_assoc, List.drop_left, List.append_assoc]
  have hmove : b.memmove front.length count =
      b.write 0 ((b.cells.drop front.length).take count) := by
    rw [memmove, b.read_eq hfits]
    rfl
  rw [hmove, hdrop]
  refine b.exists_write_zero_holds (fun hmem => h.free (List.mem_append_right front hmem)) ?_ ?_
  · refine List.prefix_take_iff.mpr ⟨List.prefix_append _ _, ?_⟩
    rw [List.length_append, List.length_singleton]
    exact hcount
  · exact (List.length_take_le _ _).trans (by omega)

/-! ## Reading a text -/

section Reading

variable [DecidableEq α]

/-- The text that begins at `pos`. -/
def cstring (nul : α) (b : Buffer α size) (pos : Nat) : Option (List α) :=
  if nul ∈ b.cells.drop pos then some ((b.cells.drop pos).takeWhile (· ≠ nul)) else none

/-- `strlen(b)`. -/
def strlen (nul : α) (b : Buffer α size) : Option Nat :=
  (b.cstring nul 0).map List.length

/-- `strchr(b, a)`; no position is `NULL`. -/
def strchr (nul : α) (b : Buffer α size) (a : α) : Option (Option Nat) :=
  (b.cstring nul 0).map fun text => text.idxOf? a

/-- `strrchr(b, a)`. -/
def strrchr (nul : α) (b : Buffer α size) (a : α) : Option (Option Nat) :=
  (b.cstring nul 0).map fun text => (text.reverse.idxOf? a).map fun i => text.length - 1 - i

/-- `strncat(b, text, count)`. -/
def strncat (nul : α) (b : Buffer α size) (text : List α) (count : Nat) :
    Option (Buffer α size) :=
  (b.cstring nul 0).bind fun front => b.write front.length (text.take count ++ [nul])

theorem Holds.cstring_append (h : b.Holds nul (front ++ text)) :
    b.cstring nul front.length = some text := by
  obtain ⟨rest, hrest⟩ := h.starts
  have hdrop : b.cells.drop front.length = text ++ nul :: rest := by
    rw [← hrest]
    simp
  have hfree : ∀ a ∈ text, decide (a ≠ nul) = true := by
    intro a ha
    rw [decide_eq_true_iff]
    rintro rfl
    exact h.free (List.mem_append_right front ha)
  rw [cstring, hdrop, if_pos (by simp), List.takeWhile_append_of_pos hfree]
  simp

theorem Holds.cstring_zero (h : b.Holds nul text) : b.cstring nul 0 = some text := by
  have hnil : b.Holds nul ([] ++ text) := h
  exact hnil.cstring_append

theorem Holds.strlen (h : b.Holds nul text) : b.strlen nul = some text.length := by
  rw [Buffer.strlen, h.cstring_zero]
  rfl

theorem idxOf?_append_cons {a : α} (ha : a ∉ front) :
    (front ++ a :: text).idxOf? a = some front.length := by
  induction front with
  | nil => simp [List.idxOf?_cons]
  | cons c front ih =>
      rw [List.mem_cons, not_or] at ha
      have hc : ¬ (c == a) = true := by
        rw [beq_iff_eq]
        exact Ne.symm ha.1
      rw [List.cons_append, List.idxOf?_cons, if_neg hc, ih ha.2]
      rfl

theorem Holds.strchr_of_notMem (h : b.Holds nul text) {a : α} (ha : a ∉ text) :
    b.strchr nul a = some none := by
  rw [strchr, h.cstring_zero, Option.map_some, List.idxOf?_eq_none_iff.mpr ha]

theorem Holds.strchr_append {a : α} (h : b.Holds nul (front ++ a :: text)) (ha : a ∉ front) :
    b.strchr nul a = some (some front.length) := by
  rw [strchr, h.cstring_zero, Option.map_some, idxOf?_append_cons ha]

theorem Holds.strrchr_append {a : α} (h : b.Holds nul (front ++ a :: text)) (ha : a ∉ text) :
    b.strrchr nul a = some (some front.length) := by
  have hreverse : (front ++ a :: text).reverse = text.reverse ++ a :: front.reverse := by
    simp
  have ha' : a ∉ text.reverse := by
    rwa [List.mem_reverse]
  rw [strrchr, h.cstring_zero, Option.map_some, hreverse, idxOf?_append_cons ha', Option.map_some]
  congr 2
  rw [List.length_append, List.length_cons, List.length_reverse]
  omega

theorem Holds.exists_strncat (h : b.Holds nul text) (hfree : nul ∉ more) {count : Nat}
    (hcount : more.length ≤ count) (hfits : text.length + more.length < size) :
    ∃ b', b.strncat nul more count = some b' ∧ b'.Holds nul (text ++ more) := by
  rw [strncat, h.cstring_zero, Option.bind_some, List.take_of_length_le hcount]
  refine exists_write_holds h.prefix_cells ?_ List.prefix_rfl ?_
  · rw [List.mem_append, not_or]
    exact ⟨h.free, hfree⟩
  · rw [List.length_append, List.length_singleton]
    omega

end Reading

end Buffer

end Hercules.Lib
