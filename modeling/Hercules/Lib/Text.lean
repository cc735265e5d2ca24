/-
# Separators, numerals and blank-separated fields

Text records are often built by printing fields one after the other and taken
apart again by cutting at a separator or by scanning blank-separated words. The
definitions follow `std::string::find`/`substr` and `sscanf`; the lemmas say when
cutting or scanning gives back the fields that were printed.
-/

import Mathlib.Data.List.TakeWhile

namespace Hercules.Lib.Text

/-! ## Cutting at the first separator -/

/-- `s.substr(0, s.find(c))`: all of `s` when `c` does not occur. -/
def upTo (c : Char) (s : List Char) : List Char :=
  s.takeWhile (· != c)

/-- The rest of `s` from the first `c` on, that character included. -/
def fromOn (c : Char) (s : List Char) : List Char :=
  s.dropWhile (· != c)

variable {c : Char}

theorem upTo_append_fromOn (c : Char) (s : List Char) : upTo c s ++ fromOn c s = s :=
  List.takeWhile_append_dropWhile

theorem notMem_upTo (c : Char) (s : List Char) : c ∉ upTo c s := by
  intro hmem
  simpa using List.mem_takeWhile_imp hmem

/-- Cutting a word that is free of the separator changes nothing. -/
theorem upTo_of_notMem {s : List Char} (h : c ∉ s) : upTo c s = s := by
  rw [upTo, List.takeWhile_eq_self_iff]
  intro x hx
  simp only [bne_iff_ne, ne_eq]
  rintro rfl
  exact h hx

/-- The first separator of `stem ++ c :: tail` is the one printed there. -/
@[simp]
theorem upTo_append_cons {stem : List Char} (h : c ∉ stem) (tail : List Char) :
    upTo c (stem ++ c :: tail) = stem := by
  induction stem with
  | nil => simp [upTo]
  | cons x xs ih =>
      simp only [List.mem_cons, not_or] at h
      simpa [upTo, Ne.symm h.1] using ih h.2

@[simp]
theorem fromOn_append_cons {stem : List Char} (h : c ∉ stem) (tail : List Char) :
    fromOn c (stem ++ c :: tail) = c :: tail := by
  have hsplit := upTo_append_fromOn c (stem ++ c :: tail)
  rw [upTo_append_cons h] at hsplit
  exact List.append_cancel_left hsplit

/-- A text that contains the separator is its first part, the separator and a
tail. -/
theorem exists_eq_upTo_append_cons {s : List Char} (h : c ∈ s) :
    ∃ tail, s = upTo c s ++ c :: tail := by
  obtain ⟨stem, tail, rfl, hstem⟩ := List.eq_append_cons_of_mem h
  exact ⟨tail, by rw [upTo_append_cons hstem]⟩

/-- A separator that the tails do not contain can be found from the right, so
stem and tail are both determined. -/
theorem append_cons_inj {stem stem' tail tail' : List Char} (h : c ∉ tail) (h' : c ∉ tail')
    (heq : stem ++ c :: tail = stem' ++ c :: tail') : stem = stem' ∧ tail = tail' := by
  have hrev := congrArg List.reverse heq
  simp only [List.reverse_append, List.reverse_cons, List.append_assoc, List.singleton_append]
    at hrev
  have htail : tail = tail' := by
    have hcut := congrArg (upTo c) hrev
    rw [upTo_append_cons (by simpa using h), upTo_append_cons (by simpa using h')] at hcut
    exact List.reverse_inj.mp hcut
  subst htail
  exact ⟨List.append_cancel_right heq, rfl⟩

/-! ## Decimal numerals -/

/-- `%d`, `%ld` and, on naturals, `%u` and `%lu`. -/
def decimal : Int → List Char
  | .ofNat n => Nat.toDigits 10 n
  | .negSucc n => '-' :: Nat.toDigits 10 (n + 1)

/-- The integer denoted by a text of decimal digits with an optional minus. -/
def ofDecimal : List Char → Int
  | '-' :: ds => -(Nat.ofDigitChars 10 ds 0 : Int)
  | ds => Nat.ofDigitChars 10 ds 0

theorem isDigit_of_mem_toDigits {n : Nat} (h : c ∈ Nat.toDigits 10 n) : c.isDigit :=
  Nat.isDigit_of_mem_toDigits (by decide) (by decide) h

theorem notMem_toDigits (h : c.isDigit = false) (n : Nat) : c ∉ Nat.toDigits 10 n := by
  intro hmem
  simp [isDigit_of_mem_toDigits hmem] at h

/-- A numeral consists of digits and possibly a minus. -/
theorem notMem_decimal (h : c.isDigit = false) (hminus : c ≠ '-') (n : Int) : c ∉ decimal n := by
  cases n with
  | ofNat n => exact notMem_toDigits h n
  | negSucc n => simp [decimal, hminus, notMem_toDigits h]

private theorem ofDecimal_toDigits (n : Nat) : ofDecimal (Nat.toDigits 10 n) = n := by
  unfold ofDecimal
  split
  next ds hds =>
    have hminus : '-' ∈ Nat.toDigits 10 n := by simp [hds]
    exact absurd hminus (notMem_toDigits (by decide) n)
  next => rw [Nat.ofDigitChars_ten_toDigits]

@[simp]
theorem ofDecimal_decimal (n : Int) : ofDecimal (decimal n) = n := by
  cases n with
  | ofNat n => exact ofDecimal_toDigits n
  | negSucc n => simp [decimal, ofDecimal, Int.negSucc_eq]

theorem decimal_injective : Function.Injective decimal :=
  Function.LeftInverse.injective ofDecimal_decimal

theorem decimal_ne_nil (n : Int) : decimal n ≠ [] := by
  cases n with
  | ofNat n => exact Nat.toDigits_ne_nil
  | negSucc n => simp [decimal]

/-! ## Blank-separated fields -/

/-- The blanks that `sscanf` skips before a field and that end a word. -/
def isSpace (c : Char) : Bool :=
  c == ' ' || c == '\t' || c == '\n' || c == '\x0b' || c == '\x0c' || c == '\x0d'

/-- A text without blanks. -/
def IsWord (w : List Char) : Prop :=
  ∀ x ∈ w, isSpace x = false

instance (w : List Char) : Decidable (IsWord w) :=
  decidable_of_iff (w.all (!isSpace ·) = true) (by simp [IsWord])

/-- `%s`: the next word and the text after it. -/
def scanWord (s : List Char) : Option (List Char × List Char) :=
  let s := s.dropWhile isSpace
  match s.takeWhile (!isSpace ·) with
  | [] => none
  | w => some (w, s.dropWhile (!isSpace ·))

/-- The longest run of digits at the front, as a number. -/
def scanDigits (s : List Char) : Option (Nat × List Char) :=
  match s.takeWhile Char.isDigit with
  | [] => none
  | ds => some (Nat.ofDigitChars 10 ds 0, s.dropWhile Char.isDigit)

/-- `%u`, `%lu` and `%d` before the value is reduced to its type: an optional
sign, then as many digits as there are. -/
def scanInt (s : List Char) : Option (Int × List Char) :=
  match s.dropWhile isSpace with
  | '-' :: s => (scanDigits s).map fun r => (-(r.1 : Int), r.2)
  | '+' :: s => (scanDigits s).map fun r => ((r.1 : Int), r.2)
  | s => (scanDigits s).map fun r => ((r.1 : Int), r.2)

/-- The text after a printed field: nothing, or a blank and more. -/
def EndsField (rest : List Char) : Prop :=
  ∀ x ∈ rest.head?, isSpace x

@[simp]
theorem endsField_nil : EndsField [] := by
  simp [EndsField]

@[simp]
theorem endsField_space (rest : List Char) : EndsField (' ' :: rest) := by
  simp [EndsField, isSpace]

private theorem takeWhile_append_of_all {p : Char → Bool} {w rest : List Char}
    (hw : ∀ x ∈ w, p x) (hrest : ∀ x ∈ rest.head?, p x = false) :
    (w ++ rest).takeWhile p = w ∧ (w ++ rest).dropWhile p = rest := by
  rw [List.takeWhile_append_of_pos hw, List.dropWhile_append_of_pos hw]
  cases rest with
  | nil => simp
  | cons x rest => simp [hrest x rfl]

@[simp]
theorem scanWord_space (s : List Char) : scanWord (' ' :: s) = scanWord s := by
  simp [scanWord, isSpace]

@[simp]
theorem scanInt_space (s : List Char) : scanInt (' ' :: s) = scanInt s := by
  simp [scanInt, isSpace]

/-- A printed word is scanned back. -/
theorem scanWord_append {w rest : List Char} (hne : w ≠ []) (hw : IsWord w)
    (hrest : EndsField rest) : scanWord (w ++ rest) = some (w, rest) := by
  obtain ⟨x, w', rfl⟩ := List.exists_cons_of_ne_nil hne
  have hskip : (x :: w' ++ rest).dropWhile isSpace = x :: w' ++ rest := by
    simp [hw x (by simp)]
  obtain ⟨htake, hdrop⟩ : (x :: w' ++ rest).takeWhile (!isSpace ·) = x :: w' ∧
      (x :: w' ++ rest).dropWhile (!isSpace ·) = rest :=
    takeWhile_append_of_all (fun y hy => by simp [hw y hy]) (fun y hy => by simp [hrest y hy])
  simp only [scanWord, hskip, htake, hdrop]

private theorem isSpace_of_isDigit {x : Char} (h : x.isDigit) : isSpace x = false := by
  have hvalue : '0'.toNat ≤ x.toNat := by
    simp only [Char.isDigit, Bool.and_eq_true, decide_eq_true_eq] at h
    exact h.1
  simp only [isSpace, Bool.or_eq_false_iff, beq_eq_false_iff_ne]
  refine ⟨⟨⟨⟨⟨?_, ?_⟩, ?_⟩, ?_⟩, ?_⟩, ?_⟩ <;> rintro rfl <;> simp at hvalue

private theorem isDigit_of_isSpace {x : Char} (h : isSpace x) : x.isDigit = false := by
  cases hdigit : x.isDigit with
  | false => rfl
  | true => simp [isSpace_of_isDigit hdigit] at h

private theorem scanDigits_append (n : Nat) {rest : List Char} (hrest : EndsField rest) :
    scanDigits (Nat.toDigits 10 n ++ rest) = some (n, rest) := by
  obtain ⟨htake, hdrop⟩ : (Nat.toDigits 10 n ++ rest).takeWhile Char.isDigit = Nat.toDigits 10 n ∧
      (Nat.toDigits 10 n ++ rest).dropWhile Char.isDigit = rest :=
    takeWhile_append_of_all (fun _ hx => isDigit_of_mem_toDigits hx)
      (fun x hx => isDigit_of_isSpace (hrest x hx))
  unfold scanDigits
  rw [htake, hdrop]
  split
  next hnil => exact absurd hnil Nat.toDigits_ne_nil
  next => rw [Nat.ofDigitChars_ten_toDigits]

/-- A printed number is scanned back. -/
theorem scanInt_append (n : Int) {rest : List Char} (hrest : EndsField rest) :
    scanInt (decimal n ++ rest) = some (n, rest) := by
  cases n with
  | ofNat n =>
      obtain ⟨d, ds, hds⟩ := List.exists_cons_of_ne_nil (Nat.toDigits_ne_nil (b := 10) (n := n))
      have hdigit : d.isDigit := isDigit_of_mem_toDigits (n := n) (by simp [hds])
      have hskip : (Nat.toDigits 10 n ++ rest).dropWhile isSpace = Nat.toDigits 10 n ++ rest := by
        simp [hds, isSpace_of_isDigit hdigit]
      simp only [decimal, scanInt, hskip]
      split
      -- a numeral does not start with a sign
      next s hs =>
        rw [hds, List.cons_append, List.cons.injEq] at hs
        rw [hs.1] at hdigit
        simp at hdigit
      next s hs =>
        rw [hds, List.cons_append, List.cons.injEq] at hs
        rw [hs.1] at hdigit
        simp at hdigit
      next => simp [scanDigits_append n hrest]
  | negSucc n =>
      have hskip : ('-' :: (Nat.toDigits 10 (n + 1) ++ rest)).dropWhile isSpace =
          '-' :: (Nat.toDigits 10 (n + 1) ++ rest) := by
        simp [isSpace]
      simp [decimal, scanInt, hskip, scanDigits_append (n + 1) hrest, Int.negSucc_eq]

theorem scanInt_decimal (n : Int) : scanInt (decimal n) = some (n, []) := by
  have hscan := scanInt_append n endsField_nil
  rwa [List.append_nil] at hscan

/-- Scanning a run of `p` stops at a character that is not in it. -/
theorem takeWhile_append_cons {p : Char → Bool} (h : p c = false) (s rest : List Char) :
    (s ++ c :: rest).takeWhile p = s.takeWhile p := by
  induction s with
  | nil => simp [h]
  | cons x xs ih =>
      simp only [List.cons_append, List.takeWhile_cons, ih]

theorem dropWhile_append_cons {p : Char → Bool} (h : p c = false) (s rest : List Char) :
    (s ++ c :: rest).dropWhile p = s.dropWhile p ++ c :: rest := by
  induction s with
  | nil => simp [h]
  | cons x xs ih =>
      simp only [List.cons_append, List.dropWhile_cons, ih]
      split <;> rfl

private theorem scanDigits_append_cons (h : c.isDigit = false) (s rest : List Char) :
    (scanDigits (s ++ c :: rest)).map Prod.fst = (scanDigits s).map Prod.fst := by
  simp only [scanDigits, takeWhile_append_cons h]
  split <;> rfl

/-- What follows a character that belongs to no number does not change the number that is read. -/
theorem scanInt_append_cons (hdigit : c.isDigit = false) (hspace : isSpace c = false)
    (hminus : c ≠ '-') (hplus : c ≠ '+') (s rest : List Char) :
    (scanInt (s ++ c :: rest)).map Prod.fst = (scanInt s).map Prod.fst := by
  have hdigits := scanDigits_append_cons hdigit
  simp only [scanInt, dropWhile_append_cons hspace]
  generalize s.dropWhile isSpace = s'
  cases s' with
  | nil =>
      have hnil := hdigits [] rest
      rw [List.nil_append] at hnil ⊢
      split
      next heq => exact absurd (List.cons.inj heq).1 hminus
      next heq => exact absurd (List.cons.inj heq).1 hplus
      next => simpa [Option.map_map, Function.comp_def, scanDigits] using hnil
  | cons x xs =>
      simp only [List.cons_append]
      split
      next heq =>
        obtain ⟨rfl, rfl⟩ := List.cons.inj heq
        have hxs := congrArg (Option.map fun n : Nat => -(n : Int)) (hdigits xs rest)
        simpa [Option.map_map, Function.comp_def] using hxs
      next heq =>
        obtain ⟨rfl, rfl⟩ := List.cons.inj heq
        have hxs := congrArg (Option.map fun n : Nat => (n : Int)) (hdigits xs rest)
        simpa [Option.map_map, Function.comp_def] using hxs
      next hnot hnot' =>
        have hxs := congrArg (Option.map fun n : Nat => (n : Int)) (hdigits (x :: xs) rest)
        split
        next heq =>
          obtain ⟨rfl, rfl⟩ := List.cons.inj heq
          exact absurd rfl (hnot _)
        next heq =>
          obtain ⟨rfl, rfl⟩ := List.cons.inj heq
          exact absurd rfl (hnot' _)
        next => simpa [Option.map_map, Function.comp_def] using hxs

theorem IsWord.append {w w' : List Char} (hw : IsWord w) (hw' : IsWord w') : IsWord (w ++ w') := by
  intro x hx
  rcases List.mem_append.mp hx with hmem | hmem
  · exact hw x hmem
  · exact hw' x hmem

theorem isWord_append_iff {w w' : List Char} : IsWord (w ++ w') ↔ IsWord w ∧ IsWord w' :=
  ⟨fun h => ⟨fun x hx => h x (List.mem_append_left w' hx),
    fun x hx => h x (List.mem_append_right w hx)⟩, fun h => h.1.append h.2⟩

/-- What is scanned as a word is one. -/
theorem isWord_of_scanWord {s w rest : List Char} (h : scanWord s = some (w, rest)) : IsWord w := by
  simp only [scanWord] at h
  split at h
  · cases h
  · obtain ⟨rfl, -⟩ := Prod.mk.inj (Option.some.inj h)
    intro x hx
    simpa using List.mem_takeWhile_imp hx

/-- Numerals are words. -/
theorem isWord_decimal (n : Int) : IsWord (decimal n) := by
  intro x hx
  cases n with
  | ofNat n => exact isSpace_of_isDigit (isDigit_of_mem_toDigits hx)
  | negSucc n =>
      rcases List.mem_cons.mp hx with rfl | hmem
      · decide
      · exact isSpace_of_isDigit (isDigit_of_mem_toDigits hmem)

/-- There is no blank to skip before a numeral. -/
@[simp]
theorem dropWhile_decimal (n : Int) : (decimal n).dropWhile isSpace = decimal n := by
  cases hdecimal : decimal n with
  | nil => rfl
  | cons x ds => simp [isWord_decimal n x (by simp [hdecimal])]

end Hercules.Lib.Text
