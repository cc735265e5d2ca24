/-
# Slash-separated paths

A file is named by the list of the names on the way to it. A path is a text that is
read component by component: an empty component and `.` stay where they are, `..` goes
up, and everything else goes down. Different texts can name the same file, and the
lemmas below say which list a text stands for and which texts a list is printed as.

The last part is about deleting a text wherever it occurs in another one. What is left
is measured by counting letters.
-/

import Mathlib.Algebra.Ring.Nat
import Mathlib.Data.List.Infix

namespace Hercules.Lib.Path

/-! ## Names -/

/-- A component that names something. -/
def IsName (component : List Char) : Prop :=
  component ≠ [] ∧ '/' ∉ component ∧ component ≠ ['.'] ∧ component ≠ ['.', '.']

instance (component : List Char) : Decidable (IsName component) :=
  inferInstanceAs (Decidable (_ ∧ _ ∧ _ ∧ _))

/-- A name on the way to a file. -/
abbrev Name := { component : List Char // IsName component }

/-- The components of a path. -/
def components (path : List Char) : List (List Char) :=
  path.splitOn '/'

/-- One component of a path, read at a file. -/
def enter (names : List Name) (component : List Char) : List Name :=
  if h : IsName component then names ++ [⟨component, h⟩]
  else if component = ['.', '.'] then names.dropLast
  else names

/-- The file that a path leads to from `start`. -/
def normalise (start : List Name) (path : List Char) : List Name :=
  (components path).foldl enter start

/-- The absolute text of a file; nothing for the root. -/
def render (names : List Name) : List Char :=
  names.flatMap fun name => '/' :: name.1

/-- The text of a file relative to the root. -/
def relative (names : List Name) : List Char :=
  (render names).tail

variable {names : List Name} {name : Name} {s t : List Char}

@[simp]
theorem render_nil : render [] = [] := rfl

@[simp]
theorem render_cons (name : Name) (names : List Name) :
    render (name :: names) = '/' :: (name.1 ++ render names) := by
  simp [render]

@[simp]
theorem render_append (names names' : List Name) :
    render (names ++ names') = render names ++ render names' := by
  simp [render]

@[simp]
theorem relative_nil : relative [] = [] := rfl

@[simp]
theorem relative_cons (name : Name) (names : List Name) :
    relative (name :: names) = name.1 ++ render names := by
  simp [relative]

theorem render_eq_cons (hne : names ≠ []) : render names = '/' :: relative names := by
  obtain ⟨name, names, rfl⟩ := List.exists_cons_of_ne_nil hne
  simp

/-! ## Components -/

theorem components_ne_nil (s : List Char) : components s ≠ [] :=
  List.splitOn_ne_nil '/' s

theorem components_append_slash (s t : List Char) :
    components (s ++ '/' :: t) = components s ++ components t :=
  List.splitOnP_append_cons s t (by simp)

theorem components_slash (t : List Char) : components ('/' :: t) = [] :: components t := by
  have happend := components_append_slash [] t
  rw [List.nil_append] at happend
  rw [happend]
  rfl

theorem components_of_notMem (h : '/' ∉ s) : components s = [s] := by
  refine List.splitOnP_eq_singleton fun c hc => ?_
  rw [beq_eq_false_iff_ne]
  rintro rfl
  exact h hc

/-- A path is a single component, or a component, a slash and a path. -/
theorem components_induction {motive : List Char → Prop} (single : ∀ s, '/' ∉ s → motive s)
    (slash : ∀ s t, '/' ∉ s → motive t → motive (s ++ '/' :: t)) (path : List Char) :
    motive path := by
  induction hlen : path.length using Nat.strong_induction_on generalizing path with
  | _ n ih =>
      by_cases hslash : '/' ∈ path
      · obtain ⟨before, after, rfl, hbefore⟩ := List.eq_append_cons_of_mem hslash
        exact slash before after hbefore (ih after.length (by simp [← hlen]; omega) after rfl)
      · exact single path hslash

theorem components_cons (hs : '/' ∉ s) (t : List Char) :
    components (s ++ '/' :: t) = s :: components t := by
  rw [components_append_slash, components_of_notMem hs]
  rfl

theorem slash_notMem_of_mem_components (h : t ∈ components s) : '/' ∉ t := by
  induction s using components_induction with
  | single s hs =>
      rw [components_of_notMem hs, List.mem_singleton] at h
      rwa [h]
  | slash s rest hs ih =>
      rw [components_cons hs, List.mem_cons] at h
      rcases h with rfl | hrest
      · exact hs
      · exact ih hrest

/-- The characters of a path are those of its components and the slashes between them. -/
theorem sum_length_components (s : List Char) :
    ((components s).map fun component => component.length + 1).sum = s.length + 1 := by
  induction s using components_induction with
  | single s hs => simp [components_of_notMem hs]
  | slash s t hs ih =>
      rw [components_cons hs, List.map_cons, List.sum_cons, ih, List.length_append,
        List.length_cons]
      omega

theorem components_relative (hne : names ≠ []) :
    components (relative names) = names.map Subtype.val := by
  induction names with
  | nil => exact absurd rfl hne
  | cons name names ih =>
      cases names with
      | nil => simpa using components_of_notMem name.2.2.1
      | cons next names =>
          rw [relative_cons, render_eq_cons (by simp), components_append_slash,
            components_of_notMem name.2.2.1, ih (by simp)]
          rfl

theorem components_render (hne : names ≠ []) :
    components (render names) = [] :: names.map Subtype.val := by
  rw [render_eq_cons hne, components_slash, components_relative hne]

theorem components_render_slash (names : List Name) :
    components (render names ++ ['/']) = [] :: (names.map Subtype.val ++ [[]]) := by
  by_cases hne : names = []
  · rw [hne]
    rfl
  · rw [components_append_slash, components_render hne]
    rfl

theorem isName_of_getLast?_render {component : List Char} (hne : names ≠ [])
    (hlast : component ∈ (components (render names)).getLast?) : IsName component := by
  rcases List.eq_nil_or_concat names with hnil | ⟨before, last, rfl⟩
  · exact absurd hnil hne
  · rw [components_render hne, List.concat_eq_append, List.map_append, ← List.cons_append] at hlast
    rw [List.map_singleton, List.getLast?_concat, Option.mem_some_iff] at hlast
    rw [← hlast]
    exact last.2

theorem getLast?_components_slash (names : List Name) :
    (components (render names ++ ['/'])).getLast? = some [] := by
  rw [components_render_slash, ← List.cons_append, List.getLast?_concat]

theorem filter_names (names : List Name) :
    (names.map Subtype.val).filter (· ≠ []) = names.map Subtype.val := by
  refine List.filter_eq_self.mpr fun component hmem => ?_
  obtain ⟨name, -, rfl⟩ := List.mem_map.mp hmem
  exact decide_eq_true name.2.1

/-! ## Where a path leads -/

@[simp]
theorem enter_name (names : List Name) (name : Name) : enter names name.1 = names ++ [name] := by
  rw [enter, dif_pos name.2]

@[simp]
theorem enter_nil (names : List Name) : enter names [] = names := by
  simp [enter, IsName]

theorem foldl_enter_names (start names : List Name) :
    (names.map Subtype.val).foldl enter start = start ++ names := by
  induction names generalizing start with
  | nil => simp
  | cons name names ih =>
      rw [List.map_cons, List.foldl_cons, enter_name, ih]
      simp

theorem normalise_append_slash (start : List Name) (s t : List Char) :
    normalise start (s ++ '/' :: t) = normalise (normalise start s) t := by
  rw [normalise, components_append_slash, List.foldl_append]
  rfl

theorem normalise_slash (start : List Name) (t : List Char) :
    normalise start ('/' :: t) = normalise start t := by
  rw [normalise, components_slash, List.foldl_cons, enter_nil]
  rfl

@[simp]
theorem normalise_nil (start : List Name) : normalise start [] = start := by
  rw [normalise, components_of_notMem (by simp)]
  simp

theorem normalise_slash_end (start : List Name) (s : List Char) :
    normalise start (s ++ ['/']) = normalise start s := by
  rw [normalise_append_slash, normalise_nil]

theorem normalise_relative (start names : List Name) :
    normalise start (relative names) = start ++ names := by
  by_cases hne : names = []
  · simp [hne]
  · rw [normalise, components_relative hne, foldl_enter_names]

theorem normalise_render (start names : List Name) :
    normalise start (render names) = start ++ names := by
  by_cases hne : names = []
  · simp [hne]
  · rw [render_eq_cons hne, normalise_slash, normalise_relative]

/-- A component, with what is left of the names before the path and the names that the path
has entered. -/
def walk (state : List Name × List Name) (component : List Char) : List Name × List Name :=
  if h : IsName component then (state.1, state.2 ++ [⟨component, h⟩])
  else if component = ['.', '.'] then
    if state.2 = [] then (state.1.dropLast, []) else (state.1, state.2.dropLast)
  else state

/-- The names of `start` that a path does not leave. -/
def kept (start : List Name) (path : List Char) : List Name :=
  ((components path).foldl walk (start, [])).1

theorem walk_append (state : List Name × List Name) (component : List Char) :
    (walk state component).1 ++ (walk state component).2 =
      enter (state.1 ++ state.2) component := by
  rw [walk, enter]
  split
  · simp
  · split
    · split
      next hnil => simp [hnil]
      next hne => exact (List.dropLast_append_of_ne_nil hne).symm
    · rfl

theorem walk_snd (state : List Name × List Name) (component : List Char) :
    (walk state component).2 = enter state.2 component := by
  rw [walk, enter]
  split
  · rfl
  · split
    · split
      next hnil => simp [hnil]
      next => rfl
    · rfl

theorem foldl_walk (tokens : List (List Char)) (state : List Name × List Name) :
    (tokens.foldl walk state).1 ++ (tokens.foldl walk state).2 =
        tokens.foldl enter (state.1 ++ state.2) ∧
      (tokens.foldl walk state).2 = tokens.foldl enter state.2 := by
  induction tokens generalizing state with
  | nil => exact ⟨rfl, rfl⟩
  | cons token tokens ih =>
      have hstep := ih (walk state token)
      rwa [walk_append, walk_snd] at hstep

/-- A path keeps some of the names it starts from and enters those it would enter at the
root. -/
theorem kept_append_normalise (start : List Name) (path : List Char) :
    kept start path ++ normalise [] path = normalise start path := by
  obtain ⟨happend, hentered⟩ := foldl_walk (components path) (start, [])
  rw [hentered, List.append_nil] at happend
  exact happend

/-! ## Deleting a text -/

section Delete

variable {α : Type*} [DecidableEq α] {pattern text : List α}

/-- The text without the occurrences of the pattern, from left to right; `skip` elements
belong to the last occurrence. -/
def deleteFrom (pattern : List α) : Nat → List α → List α
  | _, [] => []
  | skip + 1, _ :: text => deleteFrom pattern skip text
  | 0, a :: text =>
      if pattern <+: a :: text then deleteFrom pattern (pattern.length - 1) text
      else a :: deleteFrom pattern 0 text

/-- The text without the occurrences of a pattern that is not empty. -/
def deleteAll (pattern text : List α) : List α :=
  deleteFrom pattern 0 text

theorem deleteFrom_eq_drop (skip : Nat) (text : List α) :
    deleteFrom pattern skip text = deleteAll pattern (text.drop skip) := by
  induction text generalizing skip with
  | nil => cases skip <;> rfl
  | cons a text ih =>
      cases skip with
      | zero => rfl
      | succ skip => exact ih skip

@[simp]
theorem deleteAll_nil (pattern : List α) : deleteAll pattern [] = [] := rfl

/-- An occurrence at the start is deleted. -/
theorem deleteAll_of_starts (hne : pattern ≠ []) (hstart : pattern <+: text) :
    deleteAll pattern text = deleteAll pattern (text.drop pattern.length) := by
  have hpos : 0 < pattern.length := List.length_pos_iff.mpr hne
  cases text with
  | nil => exact absurd (List.prefix_nil.mp hstart) hne
  | cons a text =>
      rw [deleteAll, deleteFrom, if_pos hstart, deleteFrom_eq_drop]
      obtain ⟨n, hn⟩ := Nat.exists_eq_succ_of_ne_zero hpos.ne'
      rw [hn]
      rfl

theorem deleteAll_cons {a : α} (hstart : ¬ pattern <+: a :: text) :
    deleteAll pattern (a :: text) = a :: deleteAll pattern text := by
  rw [deleteAll, deleteFrom, if_neg hstart]
  rfl

/-- A text without occurrences stays as it is. -/
theorem deleteAll_of_absent (hnone : ¬ pattern <:+: text) : deleteAll pattern text = text := by
  induction text with
  | nil => rfl
  | cons a text ih =>
      rw [deleteAll_cons fun hstart => hnone hstart.isInfix]
      rw [ih fun hin => hnone (hin.trans (List.suffix_cons a text).isInfix)]

variable (p : α → Bool)

/-- Deleting occurrences leaves no more letters than there were. -/
theorem countP_deleteAll_le (hne : pattern ≠ []) (text : List α) :
    (deleteAll pattern text).countP p ≤ text.countP p := by
  induction hlen : text.length using Nat.strong_induction_on generalizing text with
  | _ n ih =>
      have hpos : 0 < pattern.length := List.length_pos_iff.mpr hne
      cases text with
      | nil => simp
      | cons a text =>
          rw [List.length_cons] at hlen
          by_cases hstart : pattern <+: a :: text
          · rw [deleteAll_of_starts hne hstart]
            refine (ih _ ?_ _ rfl).trans ((List.drop_sublist _ _).countP_le)
            rw [List.length_drop, List.length_cons]
            omega
          · rw [deleteAll_cons hstart, List.countP_cons, List.countP_cons]
            exact Nat.add_le_add_right (ih text.length (by omega) text rfl) _

/-- An occurrence takes its letters with it. -/
theorem countP_deleteAll_add_le (hne : pattern ≠ []) (hin : pattern <:+: text) :
    (deleteAll pattern text).countP p + pattern.countP p ≤ text.countP p := by
  induction text with
  | nil => exact absurd (List.infix_nil.mp hin) hne
  | cons a text ih =>
      by_cases hstart : pattern <+: a :: text
      · have hle := countP_deleteAll_le p hne ((a :: text).drop pattern.length)
        rw [deleteAll_of_starts hne hstart]
        obtain ⟨rest, hrest⟩ := hstart
        rw [← hrest, List.drop_left] at hle ⊢
        rw [List.countP_append]
        omega
      · have htail := ih ((List.infix_cons_iff.mp hin).resolve_left hstart)
        rw [deleteAll_cons hstart, List.countP_cons, List.countP_cons]
        omega

end Delete

/-! ## Letters -/

/-- The number of characters that are not slashes. -/
def letters (s : List Char) : Nat :=
  s.countP (· != '/')

@[simp]
theorem letters_append (s t : List Char) : letters (s ++ t) = letters s + letters t :=
  List.countP_append

@[simp]
theorem letters_slash (s : List Char) : letters ('/' :: s) = letters s := by
  simp [letters]

@[simp]
theorem letters_nil : letters [] = 0 := rfl

theorem letters_name_pos (name : Name) : 0 < letters name.1 := by
  refine List.countP_pos_iff.mpr ?_
  obtain ⟨c, hc⟩ := List.exists_mem_of_ne_nil _ name.2.1
  refine ⟨c, hc, ?_⟩
  rw [bne_iff_ne]
  rintro rfl
  exact name.2.2.1 hc

theorem letters_relative (names : List Name) :
    letters (relative names) = letters (render names) := by
  by_cases hne : names = []
  · rw [hne]
    rfl
  · rw [render_eq_cons hne, letters_slash]

theorem letters_render_eq_zero (h : letters (render names) = 0) : names = [] := by
  cases names with
  | nil => rfl
  | cons name names =>
      rw [render_cons, letters_slash, letters_append] at h
      have hpos := letters_name_pos name
      omega

end Hercules.Lib.Path
