/-
# Lists of names in a text

A list of names is printed with a separator between them and taken apart again with
`strtok`, which skips empty names.
-/

import Mathlib.Data.List.Basic
import Hercules.Lib.Text

namespace Hercules.Lib.Text

variable {c : Char} {names : List (List Char)}

/-- The names one after the other, with the separator between them. -/
def join (c : Char) (names : List (List Char)) : List Char :=
  [c].intercalate names

/-- The results of `strtok`, up to the last one. -/
def tokens (c : Char) (s : List Char) : List (List Char) :=
  (s.splitOn c).filter (· ≠ [])

@[simp]
theorem join_singleton (c : Char) (name : List Char) : join c [name] = name := by
  simp [join, List.intercalate]

theorem join_cons_cons (c : Char) (name name' : List Char) (names : List (List Char)) :
    join c (name :: name' :: names) = name ++ c :: join c (name' :: names) := by
  rw [join, List.intercalate_cons_cons, List.append_assoc]
  rfl

/-- A printed list is taken apart again into its names. -/
theorem tokens_join (hfree : ∀ name ∈ names, c ∉ name) (hne : ∀ name ∈ names, name ≠ []) :
    tokens c (join c names) = names := by
  cases names with
  | nil => rfl
  | cons name names =>
      rw [tokens, join, List.splitOn_intercalate c hfree (List.cons_ne_nil name names)]
      exact List.filter_eq_self.mpr fun name' hname' => decide_eq_true (hne name' hname')

/-- Words joined by a character that is no blank are a word. -/
theorem isWord_join (hc : isSpace c = false) (hwords : ∀ name ∈ names, IsWord name) :
    IsWord (join c names) := by
  induction names with
  | nil => exact fun x hx => absurd hx (List.not_mem_nil)
  | cons name names ih =>
      rw [List.forall_mem_cons] at hwords
      cases names with
      | nil =>
          rw [join_singleton]
          exact hwords.1
      | cons name' names =>
          rw [join_cons_cons]
          refine hwords.1.append fun x hx => ?_
          rcases List.mem_cons.mp hx with rfl | hmem
          · exact hc
          · exact ih hwords.2 x hmem

theorem join_ne_nil (hne : ∀ name ∈ names, name ≠ []) (hnames : names ≠ []) :
    join c names ≠ [] := by
  cases names with
  | nil => exact absurd rfl hnames
  | cons name names =>
      cases names with
      | nil =>
          rw [join_singleton]
          exact hne name List.mem_cons_self
      | cons name' names =>
          rw [join_cons_cons]
          exact List.append_ne_nil_of_right_ne_nil _ (List.cons_ne_nil _ _)

theorem mem_join_of_mem {name : List Char} {x : Char} (hname : name ∈ names) (hx : x ∈ name) :
    x ∈ join c names := by
  induction names with
  | nil => exact absurd hname List.not_mem_nil
  | cons first names ih =>
      cases names with
      | nil =>
          rw [List.mem_singleton] at hname
          rwa [join_singleton, ← hname]
      | cons second names =>
          rw [join_cons_cons, List.mem_append]
          rcases List.mem_cons.mp hname with rfl | hmem
          · exact Or.inl hx
          · exact Or.inr (List.mem_cons_of_mem c (ih hmem))

/-- What `strtok` returns are parts of the text. -/
theorem mem_of_mem_tokens {s token : List Char} {x : Char} (htoken : token ∈ tokens c s)
    (hx : x ∈ token) : x ∈ s := by
  have hmem : token ∈ s.splitOn c := (List.mem_filter.mp htoken).1
  have hjoin : join c (s.splitOn c) = s := List.intercalate_splitOn c
  rw [← hjoin]
  exact mem_join_of_mem hmem hx

end Hercules.Lib.Text
