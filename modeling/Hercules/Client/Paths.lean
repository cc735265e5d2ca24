/-
# Paths that the client library takes for itself

The library stands in front of the C library and decides for every path whether it lies
below the mount point. The decision compares texts: the path, or the variable `PWD`, with
the text of the mount point without its last character. A path that passes is made
absolute, the text of the mount point is deleted wherever it occurs in it, and the rest is
the name of the dataset.

What a path means is given by the names on the way to its file, from the root or from the
working directory. The library does not keep the working directory in one place: below the
mount point `chdir` writes its argument to `PWD`, elsewhere it moves the process and leaves
`PWD` as it was. So the working directory, `PWD` and the directory of the process are three
things here. The results agree with the meaning for the spellings that `Direct` describes, and
for no others.
-/

import Hercules.Lib.Path
import Hercules.Names

namespace Hercules

open Lib.Path

/-! ## The functions of the library -/

/-- `!strncmp(s, t, n)`. -/
def strncmpEq (n : Nat) (s t : CString) : Bool :=
  s.take n = t.take n

/-- `MOUNT_POINT`, the variable `PWD`, the result of the real `getcwd`, and `PATH_MAX`. The
mount point is not empty. -/
structure PathEnv where
  mountPoint : CString
  pwd : CString
  cwd : Option CString
  pathMax : Nat

/-- The slashes at the start of a path and one at its end are removed. -/
def trimSlashes (path : CString) : CString :=
  removeLastSlash (path.dropWhile (· == '/'))

namespace PathEnv

variable (env : PathEnv)

/-- `compare_len`. -/
def compareLen (pathname : CString) : Nat :=
  if env.mountPoint.length ≤ pathname.length then
    if pathname.getLast? = some '/' then pathname.length - 1 else pathname.length
  else if env.mountPoint.getLast? = some '/' then env.mountPoint.length - 1
  else env.mountPoint.length

/-- The comparison by which a path is the root. -/
def isRoot (pathname : CString) : Bool :=
  strncmpEq (env.compareLen pathname) pathname env.mountPoint

/-- The comparison by which a path is below the root. -/
def isPart (pathname : CString) : Bool :=
  strncmpEq (env.mountPoint.length - 1) pathname env.mountPoint ||
    (pathname.head? != some '/' && strncmpEq (env.mountPoint.length - 1) env.pwd env.mountPoint)

/-- The `getcwd` of the library for a buffer of zeros. Below the mount point it copies
`strlen(buf)` characters of `PWD`, which is none. -/
def getcwd : Option CString :=
  if strncmpEq env.mountPoint.length env.pwd env.mountPoint then some [] else env.cwd

/-- One round of the loop of `ResolvePath`. In an empty buffer `resolved[resolved_len - 1]` is
the byte before it, which is taken not to be a slash. -/
def resolveToken (resolved nextToken : CString) : Option CString :=
  (if resolved.getLast? = some '/' then some resolved
    else if env.pathMax ≤ resolved.length + 1 then none
    else some (resolved ++ ['/'])).bind fun resolved =>
  if nextToken = [] ∨ nextToken = ['.'] then some resolved
  else if nextToken = ['.', '.'] then
    some (if 1 < resolved.length then
        ((beforeLastSlash resolved.dropLast).map (· ++ ['/'])).getD resolved
      else resolved)
  else if env.pathMax ≤ (resolved ++ nextToken).length then none
  else some (resolved ++ nextToken)

/-- The loop of `ResolvePath` over the components of `left`. -/
def resolveLeft (resolved left : CString) : Option CString :=
  if env.pathMax ≤ left.length ∨ env.pathMax ≤ resolved.length then none
  else if left = [] then some resolved
  else (components left).foldlM env.resolveToken resolved

/-- `ResolvePath`; no result is the return value -1. -/
def resolvePath (path : CString) : Option CString :=
  if path = ['/'] then some ['/']
  else if path.head? = some '/' then env.resolveLeft ['/'] path.tail
  else env.getcwd.bind fun resolved => env.resolveLeft resolved path

/-- `convert_path`. -/
def convertPath (name : CString) : CString :=
  imssRoot ++ trimSlashes (if env.mountPoint = [] then name else deleteAll env.mountPoint name)

/-- `checkHerculesPath`; no result is `NULL`. -/
def checkHerculesPath (pathname : CString) : Option CString :=
  if env.isRoot pathname then some imssRoot
  else if env.isPart pathname then
    if strncmpEq pathname.length pathname ['.'] then some (env.convertPath env.pwd)
    else if strncmpEq 2 pathname ['.', '/'] then some (env.convertPath (pathname.drop 2))
    else
      match env.resolvePath pathname with
      | some (c :: absolute) => some (env.convertPath (c :: absolute))
      | _ => some (env.convertPath pathname)
  else none

end PathEnv

/-! ## What the result should be -/

/-- A mount point is a directory; its text may end in a slash. -/
structure MountPoint where
  names : List Name
  slash : Bool
  valid : names = [] → slash = true

/-- The text of a mount point. -/
def MountPoint.text (mount : MountPoint) : CString :=
  render mount.names ++ if mount.slash then ['/'] else []

/-- The text of a directory. -/
def directoryText (names : List Name) : CString :=
  if names = [] then ['/'] else render names

/-- The variable `PWD` and the directory that the process is in, unless it has been removed. -/
structure ProcessDir where
  pwd : CString
  cwd : Option (List Name)

/-- A process with a mount point. -/
def MountPoint.env (mount : MountPoint) (process : ProcessDir) (pathMax : Nat) : PathEnv where
  mountPoint := mount.text
  pwd := process.pwd
  cwd := process.cwd.map directoryText
  pathMax := pathMax

/-- `chdir` to a directory that exists. -/
def MountPoint.chdir (mount : MountPoint) (pathMax : Nat) (process : ProcessDir)
    (pathname : CString) : ProcessDir :=
  match (mount.env process pathMax).checkHerculesPath pathname with
  | some _ => { process with pwd := pathname }
  | none =>
      { process with
        cwd := if pathname.head? = some '/' then some (normalise [] pathname)
          else process.cwd.map fun cwd => normalise cwd pathname }

/-- The file that a path means. -/
def fileOf (workdir : List Name) (path : CString) : List Name :=
  normalise (if path.head? = some '/' then [] else workdir) path

/-- A text, up to a slash at its end. -/
def UpToSlash (s t : CString) : Prop :=
  s = t ∨ s = t ++ ['/']

/-- A path is intercepted exactly if its file is the mount point or below it, and the
dataset has the name that the file has below the mount point. -/
def Lawful (mount : MountPoint) (process : ProcessDir) (workdir : List Name) (pathMax : Nat)
    (path : CString) : Prop :=
  match (mount.env process pathMax).checkHerculesPath path with
  | none => ¬ mount.names <+: fileOf workdir path
  | some uri =>
      mount.names <+: fileOf workdir path ∧
        UpToSlash uri
          (imssRoot ++ relative ((fileOf workdir path).drop mount.names.length))

/-! ## The spellings for which it is -/

namespace MountPoint

variable (mount : MountPoint)

/-- An absolute text `render names ++ trail` that stands for the file `above ++ names`. If names
are missing, then they are those of the mount point, whose text does not occur. If none are
missing, then the text of the mount point is at the start and does not occur again. -/
def Reaches (above names : List Name) (trail : CString) : Prop :=
  if mount.names = [] then above = [] ∧ names.length ≤ 1
  else
    (above = mount.names ∧ ¬ mount.text <:+: render names ++ trail) ∨
      (above = [] ∧ mount.names <+: names ∧ mount.text <+: render names ++ trail ∧
        ¬ mount.text <:+: (render names ++ trail).drop mount.text.length)

/-- A text that is read from `start` and is not made absolute. The names of `start` get lost,
so they have to be those of the mount point, and the text has to be free of `.`, `..` and
empty components. If the text of the mount point occurs in it, then the rest is right only by
coincidence. -/
def ReachesRaw (start : List Name) (path : CString) : Prop :=
  if mount.text <:+: path then
    mount.names <+: normalise start path ∧
      UpToSlash (trimSlashes (deleteAll mount.text path))
        (relative ((normalise start path).drop mount.names.length))
  else start = mount.names ∧ ∃ names, UpToSlash (trimSlashes path) (relative names)

/-- A text that does not come from the path, but from `PWD` or from the directory of the process.
Without the text of the mount point, or after it if it is only at the start, it has to spell the
name that the file has below the mount point. If the text of the mount point occurs elsewhere,
then the rest is right only by coincidence. -/
def NamedBy (file : List Name) (text : CString) : Prop :=
  if mount.text <:+: text then
    if mount.text <+: text ∧ ¬ mount.text <:+: text.drop mount.text.length then
      ∃ names, file = mount.names ++ names ∧
        UpToSlash (trimSlashes (text.drop mount.text.length)) (relative names)
    else
      ∃ names, file = mount.names ++ names ∧
        UpToSlash (trimSlashes (deleteAll mount.text text)) (relative names)
  else ∃ names, file = mount.names ++ names ∧ UpToSlash (trimSlashes text) (relative names)

/-- The slash that `ResolvePath` leaves after a path whose last component is no name. -/
def trailOf (path : CString) : CString :=
  if ∀ token ∈ (components path).getLast?, IsName token then [] else ['/']

/-- The paths for which the result is right. -/
def Direct (process : ProcessDir) (workdir : List Name) (pathMax : Nat) (path : CString) : Prop :=
  if (mount.env process pathMax).isRoot path then
    path = render mount.names ∧ (path = [] → workdir = []) ∨
      path = render mount.names ++ ['/'] ∨ mount.slash = true ∧ path = mount.text ++ ['/']
  else if (mount.env process pathMax).isPart path then
    if path = [] ∨ path = ['.'] then mount.NamedBy workdir process.pwd
    else if ['.', '/'] <+: path then mount.ReachesRaw workdir (path.drop 2)
    else if ((mount.env process pathMax).resolvePath path).isSome then
      if path.head? = some '/' then mount.Reaches [] (normalise [] path) (trailOf path)
      else if mount.text <+: process.pwd then
        mount.Reaches (kept workdir path) (normalise [] path) (trailOf path)
      else
        ∃ cwd ∈ process.cwd, mount.NamedBy (normalise workdir path)
          (render (normalise cwd path) ++ trailOf path)
    else mount.ReachesRaw (if path.head? = some '/' then [] else workdir) path
  else ¬ mount.names <+: fileOf workdir path

end MountPoint

/-! ## Texts of files -/

variable {names : List Name} {s t trail : CString}

theorem getLast?_render_ne (names : List Name) : (render names).getLast? ≠ some '/' := by
  induction names with
  | nil => simp
  | cons name names ih =>
      rw [render_cons, ← List.cons_append, List.getLast?_append]
      intro hlast
      cases hrest : (render names).getLast? with
      | some c =>
          rw [hrest] at hlast ih
          exact ih hlast
      | none =>
          rw [hrest, Option.none_or, List.getLast?_cons] at hlast
          have hmem : '/' ∈ name.1 := by
            cases hname : name.1.getLast? with
            | none => exact absurd (List.getLast?_eq_none_iff.mp hname) name.2.1
            | some c =>
                rw [hname] at hlast
                cases hlast
                exact List.mem_of_getLast? hname
          exact name.2.2.1 hmem

theorem trimSlashes_slash (s : CString) : trimSlashes ('/' :: s) = trimSlashes s := by
  simp [trimSlashes]

theorem trimSlashes_relative (htrail : trail = [] ∨ trail = ['/']) (names : List Name) :
    trimSlashes (relative names ++ trail) = relative names := by
  cases names with
  | nil => rcases htrail with rfl | rfl <;> rfl
  | cons name names =>
      obtain ⟨c, rest, hname⟩ := List.exists_cons_of_ne_nil name.2.1
      have hc : (c == '/') = false := by
        rw [beq_eq_false_iff_ne]
        rintro rfl
        exact name.2.2.1 (by simp [hname])
      have hlast : (relative (name :: names)).getLast? ≠ some '/' := by
        have hrender := getLast?_render_ne (name :: names)
        rw [render_eq_cons (by simp), List.getLast?_cons, relative_cons, hname] at hrender
        rw [relative_cons, hname]
        simpa [List.getLast?_cons] using hrender
      have hkept : (relative (name :: names) ++ trail).dropWhile (· == '/') =
          relative (name :: names) ++ trail := by
        rw [relative_cons, hname, List.cons_append, List.cons_append, List.dropWhile_cons, hc]
        rfl
      rw [trimSlashes, hkept]
      rcases htrail with rfl | rfl
      · rw [List.append_nil, removeLastSlash, if_neg hlast]
      · exact removeLastSlash_append_slash _

theorem trimSlashes_render (htrail : trail = [] ∨ trail = ['/']) (names : List Name) :
    trimSlashes (render names ++ trail) = relative names := by
  by_cases hne : names = []
  · subst hne
    rcases htrail with rfl | rfl <;> rfl
  · rw [render_eq_cons hne, List.cons_append, trimSlashes_slash, trimSlashes_relative htrail]

theorem letters_removeLastSlash (s : CString) : letters (removeLastSlash s) = letters s := by
  rw [removeLastSlash]
  split
  next hlast =>
    obtain ⟨before, rfl⟩ := List.getLast?_eq_some_iff.mp hlast
    simp
  next => rfl

theorem letters_trimSlashes (s : CString) : letters (trimSlashes s) = letters s := by
  induction s with
  | nil => rfl
  | cons c s ih =>
      by_cases hc : c = '/'
      · rw [hc, trimSlashes_slash, ih, letters_slash]
      · have hkept : (c :: s).dropWhile (· == '/') = c :: s := by simp [hc]
        rw [trimSlashes, hkept, letters_removeLastSlash]

theorem normalise_removeLastSlash (start : List Name) (s : CString) :
    normalise start (removeLastSlash s) = normalise start s := by
  rw [removeLastSlash]
  split
  next hlast =>
    obtain ⟨before, rfl⟩ := List.getLast?_eq_some_iff.mp hlast
    rw [List.dropLast_concat, normalise_slash_end]
  next => rfl

/-- The slashes around a path do not matter. -/
theorem normalise_trimSlashes (start : List Name) (s : CString) :
    normalise start (trimSlashes s) = normalise start s := by
  induction s with
  | nil => rfl
  | cons c s ih =>
      by_cases hc : c = '/'
      · rw [hc, trimSlashes_slash, ih, normalise_slash]
      · have hkept : (c :: s).dropWhile (· == '/') = c :: s := by simp [hc]
        rw [trimSlashes, hkept, normalise_removeLastSlash]

theorem normalise_of_upToSlash (start : List Name) (h : UpToSlash s (relative names)) :
    normalise start s = start ++ names := by
  rcases h with rfl | rfl
  · exact normalise_relative start names
  · rw [normalise_slash_end, normalise_relative]

theorem letters_of_upToSlash (h : UpToSlash s t) : letters s = letters t := by
  rcases h with rfl | rfl
  · rfl
  · simp

theorem upToSlash_append_iff (root s t : CString) :
    UpToSlash (root ++ s) (root ++ t) ↔ UpToSlash s t := by
  rw [UpToSlash, UpToSlash, List.append_assoc, List.append_cancel_left_eq,
    List.append_cancel_left_eq]

/-! ## Deleting the mount point -/

namespace MountPoint

variable {mount : MountPoint} {above : List Name}

theorem text_ne_nil (mount : MountPoint) : mount.text ≠ [] := by
  rw [text]
  by_cases hnames : mount.names = []
  · simp [mount.valid hnames]
  · simp [render_eq_cons hnames]

theorem letters_text (mount : MountPoint) : letters mount.text = letters (render mount.names) := by
  rw [text]
  split <;> simp

theorem letters_text_pos (hne : mount.names ≠ []) : 0 < letters mount.text := by
  rw [letters_text, Nat.pos_iff_ne_zero]
  exact fun hzero => hne (letters_render_eq_zero hzero)

/-- The text of a file, made into the name of a dataset, is the name below the mount point. -/
def Converts (mount : MountPoint) (file : List Name) (name : CString) : Prop :=
  mount.names <+: file ∧
    UpToSlash (trimSlashes (deleteAll mount.text name)) (relative (file.drop mount.names.length))

theorem letters_deleteAll_le (mount : MountPoint) (s : CString) :
    letters (deleteAll mount.text s) ≤ letters s :=
  countP_deleteAll_le _ mount.text_ne_nil s

theorem letters_deleteAll_add_le (hin : mount.text <:+: s) :
    letters (deleteAll mount.text s) + letters (render mount.names) ≤ letters s := by
  rw [← letters_text]
  exact countP_deleteAll_add_le _ mount.text_ne_nil hin

theorem Converts.letters_eq {file : List Name} (h : mount.Converts file s) :
    letters (deleteAll mount.text s) = letters (render (file.drop mount.names.length)) := by
  rw [← letters_trimSlashes, letters_of_upToSlash h.2, letters_relative]

/-- The mount point `/`: all slashes are deleted. -/
theorem deleteAll_slash (s : CString) : deleteAll ['/'] s = s.filter (· != '/') := by
  induction s with
  | nil => rfl
  | cons c s ih =>
      by_cases hc : c = '/'
      · subst hc
        rw [deleteAll_of_starts (by simp) (by simp)]
        simpa using ih
      · rw [deleteAll_cons (by simpa using Ne.symm hc), ih]
        simp [hc]

theorem slash_notMem_filter (s : CString) : '/' ∉ s.filter (· != '/') := by
  simp

theorem converts_iff_of_root (htrail : trail = [] ∨ trail = ['/']) (hroot : mount.names = []) :
    mount.Converts (above ++ names) (render names ++ trail) ↔ above = [] ∧ names.length ≤ 1 := by
  have htext : mount.text = ['/'] := by
    rw [text, hroot, mount.valid hroot]
    rfl
  constructor
  · intro hconv
    have hletters := hconv.letters_eq
    have hle := mount.letters_deleteAll_le (render names ++ trail)
    have htrailLetters : letters trail = 0 := by rcases htrail with rfl | rfl <;> rfl
    rw [hletters, hroot, List.length_nil, List.drop_zero, render_append, letters_append,
      letters_append, htrailLetters] at hle
    have habove : above = [] := letters_render_eq_zero (by omega)
    refine ⟨habove, ?_⟩
    by_contra hlong
    obtain ⟨first, names, rfl⟩ := List.exists_cons_of_length_pos (show 0 < names.length by omega)
    rw [List.length_cons] at hlong
    obtain ⟨second, rest, rfl⟩ := List.exists_cons_of_length_pos (show 0 < names.length by omega)
    have hslash : '/' ∈ relative (first :: second :: rest) := by simp
    have hdeleted : '/' ∈ trimSlashes (deleteAll mount.text (render (first :: second :: rest) ++
        trail)) := by
      have hsame := hconv.2
      rw [habove, hroot, List.nil_append, List.length_nil, List.drop_zero] at hsame
      rcases hsame with heq | heq
      · rwa [heq]
      · rw [heq]
        exact List.mem_append_left _ hslash
    have hsub : ∀ t : CString, '/' ∈ trimSlashes t → '/' ∈ t := by
      intro t hmem
      refine (List.dropWhile_sublist _).subset ((removeLastSlash_prefix_self _).subset hmem)
    have hmem := hsub _ hdeleted
    rw [htext, deleteAll_slash] at hmem
    exact slash_notMem_filter _ hmem
  · rintro ⟨rfl, hshort⟩
    refine ⟨by simp [hroot], .inl ?_⟩
    rw [htext, deleteAll_slash, hroot, List.length_nil, List.drop_zero, List.nil_append]
    match names, hshort with
    | [], _ => rcases htrail with rfl | rfl <;> rfl
    | [name], _ =>
        have hfilter : (render [name] ++ trail).filter (· != '/') = name.1 := by
          have hname : name.1.filter (· != '/') = name.1 := by
            rw [List.filter_eq_self]
            intro c hc
            rw [bne_iff_ne]
            rintro rfl
            exact name.2.2.1 hc
          rcases htrail with rfl | rfl <;> simp [hname]
        have htrim := trimSlashes_relative (.inl rfl) [name]
        rw [List.append_nil] at htrim
        rw [hfilter]
        simpa using htrim

/-- The text of the mount point occurs in that of a file below it only if it is its start. -/
theorem text_starts_of_occurs {rest : List Name} (htrail : trail = [] ∨ trail = ['/'])
    (hin : mount.text <:+: render (mount.names ++ rest) ++ trail) :
    mount.text <+: render (mount.names ++ rest) ++ trail := by
  rw [render_append, List.append_assoc] at hin ⊢
  rw [text] at hin ⊢
  rw [List.prefix_append_right_inj]
  cases hslash : mount.slash with
  | false => simp
  | true =>
      by_cases hrest : rest = []
      · subst hrest
        rcases htrail with rfl | rfl
        · have hlen := hin.length_le
          simp only [hslash, if_true, render_nil, List.append_nil, List.length_append,
            List.length_singleton] at hlen
          omega
        · simp
      · rw [render_eq_cons hrest]
        simp

theorem trimSlashes_drop_text {rest : List Name} (htrail : trail = [] ∨ trail = ['/']) :
    trimSlashes ((render (mount.names ++ rest) ++ trail).drop mount.text.length) =
      relative rest := by
  rw [render_append, List.append_assoc, text, List.length_append, List.drop_append]
  rw [List.drop_eq_nil_of_le (Nat.le_add_right _ _), List.nil_append, Nat.add_sub_cancel_left]
  cases mount.slash with
  | false => exact trimSlashes_render htrail rest
  | true =>
      by_cases hrest : rest = []
      · subst hrest
        rcases htrail with rfl | rfl <;> rfl
      · rw [render_eq_cons hrest]
        exact trimSlashes_relative htrail rest

theorem Reaches.converts (htrail : trail = [] ∨ trail = ['/']) (hne : mount.names ≠ [])
    (hreaches : mount.Reaches above names trail) :
    mount.Converts (above ++ names) (render names ++ trail) := by
  rw [Reaches, if_neg hne] at hreaches
  rcases hreaches with ⟨rfl, hnone⟩ | ⟨rfl, ⟨rest, rfl⟩, hstart, hnone⟩
  · refine ⟨List.prefix_append _ _, .inl ?_⟩
    rw [deleteAll_of_absent hnone, List.drop_left, trimSlashes_render htrail]
  · refine ⟨List.prefix_append _ _, .inl ?_⟩
    rw [deleteAll_of_starts mount.text_ne_nil hstart, deleteAll_of_absent hnone,
      trimSlashes_drop_text htrail, List.nil_append, List.drop_left]

theorem Converts.reaches (htrail : trail = [] ∨ trail = ['/']) (hne : mount.names ≠ [])
    (hconv : mount.Converts (above ++ names) (render names ++ trail)) :
    mount.Reaches above names trail := by
  have hwhole : letters (render names ++ trail) = letters (render names) := by
    rcases htrail with rfl | rfl <;> simp
  have hpos : 0 < letters (render mount.names) := by
    rw [← letters_text]
    exact letters_text_pos hne
  have hletters := hconv.letters_eq
  obtain ⟨rest, hfile⟩ := hconv.1
  rw [← hfile, List.drop_left] at hletters
  rw [Reaches, if_neg hne]
  by_cases hin : mount.text <:+: render names ++ trail
  · have hadd := letters_deleteAll_add_le hin
    rw [hletters, hwhole] at hadd
    rcases List.append_eq_append_iff.mp hfile with ⟨missing, rfl, rfl⟩ | ⟨extra, hmount, rfl⟩
    · rw [render_append, letters_append] at hadd
      omega
    · -- the text of the mount point has letters enough for all of its names
      rw [hmount, render_append, render_append, letters_append, letters_append] at hadd
      have habove : above = [] := letters_render_eq_zero (by omega)
      subst habove
      rw [List.nil_append] at hmount
      subst hmount
      have hstart := text_starts_of_occurs htrail hin
      refine .inr ⟨rfl, List.prefix_append _ _, hstart, fun hagain => ?_⟩
      have hless := letters_deleteAll_add_le hagain
      rw [← deleteAll_of_starts mount.text_ne_nil hstart, hletters,
        ← letters_trimSlashes (List.drop _ _), trimSlashes_drop_text htrail,
          letters_relative] at hless
      omega
  · rw [deleteAll_of_absent hin, hwhole] at hletters
    rcases List.append_eq_append_iff.mp hfile with ⟨missing, rfl, rfl⟩ | ⟨extra, hmount, rfl⟩
    · rw [render_append, letters_append] at hletters
      have hmissing : missing = [] := letters_render_eq_zero (by omega)
      subst hmissing
      exact .inl ⟨List.append_nil _, hin⟩
    · rw [render_append, letters_append] at hletters
      have hextra : extra = [] := letters_render_eq_zero (by omega)
      subst hextra
      rw [List.append_nil] at hmount
      exact .inl ⟨hmount.symm, hin⟩

/-- What `convert_path` makes of an absolute text, for every mount point. -/
theorem converts_iff_reaches (mount : MountPoint) (above names : List Name)
    (htrail : trail = [] ∨ trail = ['/']) :
    mount.Converts (above ++ names) (render names ++ trail) ↔ mount.Reaches above names trail := by
  by_cases hroot : mount.names = []
  · rw [converts_iff_of_root htrail hroot, Reaches, if_pos hroot]
  · exact ⟨fun hconv => hconv.reaches htrail hroot, fun hreaches => hreaches.converts htrail hroot⟩

theorem below_iff {file : List Name} :
    mount.names <+: file ∧ UpToSlash s (relative (file.drop mount.names.length)) ↔
      ∃ names, file = mount.names ++ names ∧ UpToSlash s (relative names) := by
  constructor
  · rintro ⟨⟨names, rfl⟩, hsame⟩
    rw [List.drop_left] at hsame
    exact ⟨names, rfl, hsame⟩
  · rintro ⟨names, rfl, hsame⟩
    rw [List.drop_left]
    exact ⟨List.prefix_append _ _, hsame⟩

/-- What `convert_path` makes of any text. -/
theorem converts_iff_namedBy (mount : MountPoint) (file : List Name) (text : CString) :
    mount.Converts file text ↔ mount.NamedBy file text := by
  rw [NamedBy, Converts, below_iff]
  split
  · split
    next honce => rw [deleteAll_of_starts mount.text_ne_nil honce.1, deleteAll_of_absent honce.2]
    next => rfl
  next hnone => rw [deleteAll_of_absent hnone]

/-- What `convert_path` makes of a text that is not made absolute. -/
theorem converts_iff_reachesRaw (mount : MountPoint) (start : List Name) (path : CString) :
    mount.Converts (normalise start path) path ↔ mount.ReachesRaw start path := by
  rw [ReachesRaw]
  split
  · rfl
  next hnone =>
    rw [Converts, deleteAll_of_absent hnone]
    constructor
    · rintro ⟨⟨rest, hfile⟩, hsame⟩
      rw [← hfile, List.drop_left] at hsame
      refine ⟨?_, rest, hsame⟩
      have hread := normalise_of_upToSlash start hsame
      rw [normalise_trimSlashes, ← hfile] at hread
      exact (List.append_cancel_right hread).symm
    · rintro ⟨rfl, rest, hsame⟩
      have hread := normalise_of_upToSlash mount.names hsame
      rw [normalise_trimSlashes] at hread
      rw [hread, List.drop_left]
      exact ⟨List.prefix_append _ _, hsame⟩

end MountPoint

/-! ## The loop of `ResolvePath` -/

theorem beforeLastSlash_append_name (s : CString) {name : CString} (hname : '/' ∉ name) :
    beforeLastSlash (s ++ '/' :: name) = some s := by
  have hslash : beforeLastSlash (['/'] ++ name) = some [] := beforeLastSlash_append hname
  simpa using beforeLastSlash_append_of_some hslash s

namespace PathEnv

variable {env : PathEnv} {resolved result token : CString}

/-- A text for a file, with or without a slash at its end. -/
def Spells (resolved : CString) (names : List Name) : Prop :=
  resolved = render names ∨ resolved = render names ++ ['/']

/-- The slash before the next component. -/
theorem opened_spells {opened : CString} (hspells : Spells resolved names)
    (hopened : (if resolved.getLast? = some '/' then some resolved
      else if env.pathMax ≤ resolved.length + 1 then none else some (resolved ++ ['/'])) =
        some opened) :
    opened = render names ++ ['/'] := by
  rcases hspells with rfl | rfl
  · rw [if_neg (getLast?_render_ne names)] at hopened
    split at hopened
    · cases hopened
    · exact (Option.some.inj hopened).symm
  · rw [if_pos (by simp)] at hopened
    exact (Option.some.inj hopened).symm

/-- One round reads one component. -/
theorem resolveToken_spells (hspells : Spells resolved names) (htoken : '/' ∉ token)
    (hresult : env.resolveToken resolved token = some result) :
    result = render (enter names token) ++ if IsName token then [] else ['/'] := by
  obtain ⟨opened, hopened, hresult⟩ := Option.bind_eq_some_iff.mp hresult
  obtain rfl := opened_spells hspells hopened
  by_cases hstay : token = [] ∨ token = ['.']
  · rw [if_pos hstay] at hresult
    cases hresult
    rcases hstay with rfl | rfl <;> simp [enter, IsName]
  · rw [if_neg hstay] at hresult
    rw [not_or] at hstay
    by_cases hup : token = ['.', '.']
    · subst hup
      rw [if_pos rfl] at hresult
      cases hresult
      have hnoname : ¬ IsName ['.', '.'] := by decide
      rw [enter, dif_neg hnoname, if_pos rfl, if_neg hnoname]
      rcases List.eq_nil_or_concat names with rfl | ⟨before, last, rfl⟩
      · rfl
      · have hrender : render (before.concat last) = render before ++ '/' :: last.1 := by simp
        have hlong : 1 < (render (before.concat last) ++ ['/']).length := by
          simp only [hrender, List.length_append, List.length_cons, List.length_nil]
          omega
        rw [if_pos hlong, List.dropLast_concat, hrender,
          beforeLastSlash_append_name _ last.2.2.1]
        simp
    · rw [if_neg hup] at hresult
      have hname : IsName token := ⟨hstay.1, htoken, hstay.2, hup⟩
      split at hresult
      · cases hresult
      · cases hresult
        rw [enter, dif_pos hname, if_pos hname]
        simp

theorem Spells.resolveToken (hspells : Spells resolved names) (htoken : '/' ∉ token)
    (hresult : env.resolveToken resolved token = some result) :
    Spells result (enter names token) := by
  rw [resolveToken_spells hspells htoken hresult]
  split
  · exact .inl (List.append_nil _)
  · exact .inr rfl

/-- The loop reads the components one after the other; the last one decides about the slash
at the end. -/
theorem foldlM_resolveToken {tokens : List CString} (hspells : Spells resolved names)
    (htokens : ∀ token ∈ tokens, '/' ∉ token) (last : CString)
    (hresult : (tokens ++ [last]).foldlM env.resolveToken resolved = some result)
    (hlast : '/' ∉ last) :
    result = render ((tokens ++ [last]).foldl enter names) ++
      if IsName last then [] else ['/'] := by
  induction tokens generalizing resolved names with
  | nil =>
      rw [List.nil_append, List.foldlM_cons] at hresult
      obtain ⟨mid, hmid, hend⟩ := Option.bind_eq_some_iff.mp hresult
      cases hend
      exact resolveToken_spells hspells hlast hmid
  | cons token tokens ih =>
      rw [List.cons_append, List.foldlM_cons] at hresult
      obtain ⟨mid, hmid, hend⟩ := Option.bind_eq_some_iff.mp hresult
      rw [List.forall_mem_cons] at htokens
      exact ih (hspells.resolveToken htokens.1 hmid) htokens.2 hend

end PathEnv

theorem MountPoint.trailOf_cases (path : CString) : trailOf path = [] ∨ trailOf path = ['/'] := by
  rw [trailOf]
  split
  · exact .inl rfl
  · exact .inr rfl

theorem PathEnv.resolveLeft_eq {env : PathEnv} {resolved result left : CString}
    (hspells : Spells resolved names) (hne : left ≠ [])
    (hresult : env.resolveLeft resolved left = some result) :
    result = render (normalise names left) ++ MountPoint.trailOf left := by
  rw [resolveLeft, if_neg hne] at hresult
  split at hresult
  · cases hresult
  · rcases List.eq_nil_or_concat (components left) with hnil | ⟨tokens, last, hlast⟩
    · exact absurd hnil (components_ne_nil left)
    · have hall : ∀ token ∈ tokens ++ [last], '/' ∉ token := by
        intro token hmem
        rw [← List.concat_eq_append, ← hlast] at hmem
        exact slash_notMem_of_mem_components hmem
      rw [normalise, MountPoint.trailOf, hlast, List.concat_eq_append]
      rw [hlast, List.concat_eq_append] at hresult
      rw [foldlM_resolveToken hspells (fun token hmem => hall token (by simp [hmem])) last hresult
        (hall last (by simp))]
      simp

/-! ## The comparisons -/

theorem strncmpEq_iff (n : Nat) (s t : CString) : strncmpEq n s t = true ↔ s.take n = t.take n := by
  simp [strncmpEq]

/-- `!strncmp(s, t, strlen(t))`. -/
theorem strncmpEq_length_iff (s t : CString) : strncmpEq t.length s t = true ↔ t <+: s := by
  rw [strncmpEq_iff, List.take_length, List.prefix_iff_eq_take, eq_comm]

/-- `!strncmp(s, t, strlen(s))` for a text `t` of one character. -/
theorem strncmpEq_dot_iff (s : CString) :
    strncmpEq s.length s ['.'] = true ↔ s = [] ∨ s = ['.'] := by
  rw [strncmpEq_iff, List.take_length]
  cases s with
  | nil => simp
  | cons c s => simp

namespace MountPoint

variable {mount : MountPoint} {process : ProcessDir} {workdir : List Name} {pathMax : Nat}
  {path : CString}

/-- The texts that are taken for the mount point. The last one is the mount point with a slash
in the place of its last character. -/
theorem isRoot_cases (hroot : (mount.env process pathMax).isRoot path = true) :
    path = render mount.names ∨ path = render mount.names ++ ['/'] ∨
      (mount.slash = true ∧ path = mount.text ++ ['/']) ∨
      (mount.slash = false ∧ path = (render mount.names).dropLast ++ ['/']) := by
  rw [PathEnv.isRoot, strncmpEq_iff] at hroot
  change path.take ((mount.env process pathMax).compareLen path) =
    mount.text.take ((mount.env process pathMax).compareLen path) at hroot
  have hlen : (mount.env process pathMax).compareLen path =
      if mount.text.length ≤ path.length then
        if path.getLast? = some '/' then path.length - 1 else path.length
      else if mount.text.getLast? = some '/' then mount.text.length - 1
      else mount.text.length := rfl
  rw [hlen] at hroot
  by_cases hlong : mount.text.length ≤ path.length
  · rw [if_pos hlong] at hroot
    by_cases hlast : path.getLast? = some '/'
    · rw [if_pos hlast] at hroot
      obtain ⟨before, rfl⟩ := List.getLast?_eq_some_iff.mp hlast
      rw [List.length_append, List.length_singleton, Nat.add_sub_cancel, List.take_left] at hroot
      rw [List.length_append, List.length_singleton] at hlong
      by_cases hfits : mount.text.length ≤ before.length
      · rw [List.take_of_length_le hfits] at hroot
        rw [hroot]
        cases hslash : mount.slash with
        | true => exact .inr (.inr (.inl ⟨rfl, rfl⟩))
        | false =>
            right
            left
            simp [text, hslash]
      · have hinit : before = mount.text.dropLast := by
          rw [hroot, List.dropLast_eq_take]
          congr 1
          omega
        rw [hinit]
        cases hslash : mount.slash with
        | true =>
            right
            left
            simp [text, hslash]
        | false =>
            right
            right
            right
            exact ⟨rfl, by simp [text, hslash]⟩
    · rw [if_neg hlast, List.take_length, List.take_of_length_le hlong] at hroot
      left
      cases hslash : mount.slash with
      | true => exact absurd (by simp [hroot, text, hslash]) hlast
      | false => simp [hroot, text, hslash]
  · rw [if_neg hlong] at hroot
    cases hslash : mount.slash with
    | true =>
        have htext : mount.text = render mount.names ++ ['/'] := by simp [text, hslash]
        rw [htext, List.length_append, List.length_singleton] at hlong
        rw [if_pos (by simp [htext]), htext, List.length_append, List.length_singleton,
          Nat.add_sub_cancel, List.take_left, List.take_of_length_le (by omega)] at hroot
        exact .inl hroot
    | false =>
        have htext : mount.text = render mount.names := by simp [text, hslash]
        rw [if_neg (by rw [htext]; exact getLast?_render_ne _), List.take_length,
          List.take_of_length_le (by omega)] at hroot
        exact absurd (hroot ▸ le_refl _) hlong

theorem fileOf_slash (workdir : List Name) (s : CString) :
    fileOf workdir ('/' :: s) = normalise [] s := by
  rw [fileOf, List.head?_cons, if_pos rfl, normalise_slash]

theorem fileOf_render_append (workdir : List Name) (tail : CString) :
    fileOf workdir (render mount.names ++ '/' :: tail) = normalise mount.names tail := by
  have hhead : (render mount.names ++ '/' :: tail).head? = some '/' := by
    by_cases hnames : mount.names = []
    · simp [hnames]
    · simp [render_eq_cons hnames]
  rw [fileOf, if_pos hhead, normalise_append_slash, normalise_render, List.nil_append]

/-- The mount point without the last character of its last name is something else. -/
theorem fileOf_dropLast_ne (hslash : mount.slash = false) :
    fileOf workdir ((render mount.names).dropLast ++ ['/']) ≠ mount.names := by
  rcases List.eq_nil_or_concat mount.names with hnil | ⟨before, last, hnames⟩
  · rw [mount.valid hnil] at hslash
    cases hslash
  · rw [hnames, List.concat_eq_append]
    have hdrop : (render (before ++ [last])).dropLast ++ ['/'] =
        render before ++ '/' :: (last.1.dropLast ++ ['/']) := by
      rw [render_append, List.dropLast_append_of_ne_nil (by simp)]
      obtain ⟨c, rest, hlast⟩ := List.exists_cons_of_ne_nil last.2.1
      simp [hlast]
    have hhead : (render before ++ '/' :: (last.1.dropLast ++ ['/'])).head? = some '/' := by
      by_cases hbefore : before = []
      · simp [hbefore]
      · simp [render_eq_cons hbefore]
    have hfree : '/' ∉ last.1.dropLast := fun hmem =>
      last.2.2.1 ((List.dropLast_sublist _).subset hmem)
    rw [hdrop, fileOf, if_pos hhead, normalise_append_slash, normalise_render, List.nil_append,
      normalise_slash_end, normalise, components_of_notMem hfree, List.foldl_cons, List.foldl_nil,
      enter]
    intro heq
    split at heq
    · have hname := congrArg Subtype.val (List.singleton_inj.mp (List.append_cancel_left heq))
      have hshort := congrArg List.length hname
      rw [List.length_dropLast] at hshort
      have hpos := List.length_pos_iff.mpr last.2.1
      omega
    · have hlen := congrArg List.length heq
      rw [List.length_append, List.length_singleton] at hlen
      split at hlen
      · rw [List.length_dropLast] at hlen
        omega
      · omega

/-- A path that is taken for the mount point is one of its spellings, or something else. -/
theorem fileOf_eq_iff_of_isRoot (hroot : (mount.env process pathMax).isRoot path = true) :
    fileOf workdir path = mount.names ↔
      path = render mount.names ∧ (path = [] → workdir = []) ∨
        path = render mount.names ++ ['/'] ∨ mount.slash = true ∧ path = mount.text ++ ['/'] := by
  have hslashes : fileOf workdir (render mount.names ++ ['/']) = mount.names := by
    rw [fileOf_render_append, normalise_nil]
  rcases isRoot_cases hroot with rfl | rfl | ⟨hslash, rfl⟩ | ⟨hslash, rfl⟩
  · have hne : render mount.names ≠ render mount.names ++ ['/'] := by simp
    have hne' : render mount.names ≠ mount.text ++ ['/'] := by
      rw [text, List.append_assoc]
      simp
    simp only [true_and, hne, hne', and_false, or_false]
    by_cases hnames : mount.names = []
    · rw [hnames]
      simp [fileOf]
    · have hfile : fileOf workdir (render mount.names) = mount.names := by
        rw [render_eq_cons hnames, fileOf_slash, normalise_relative, List.nil_append]
      have hne : render mount.names ≠ [] := by
        rw [render_eq_cons hnames]
        simp
      simp [hfile, hne]
  · simp [hslashes]
  · have hfile : fileOf workdir (mount.text ++ ['/']) = mount.names := by
      have htext : mount.text ++ ['/'] = render mount.names ++ '/' :: ['/'] := by
        simp [text, hslash]
      rw [htext, fileOf_render_append, normalise_slash, normalise_nil]
    simp [hfile, hslash]
  · have hne : (render mount.names).dropLast ++ ['/'] ≠ render mount.names := by
      intro heq
      exact getLast?_render_ne mount.names (by rw [← heq]; simp)
    have hne' : (render mount.names).dropLast ++ ['/'] ≠ render mount.names ++ ['/'] := by
      intro heq
      have hlen := congrArg List.length (List.append_cancel_right heq)
      have hnames : mount.names ≠ [] := by
        intro hnil
        rw [mount.valid hnil] at hslash
        cases hslash
      rw [render_eq_cons hnames, List.length_dropLast, List.length_cons] at hlen
      omega
    simp [fileOf_dropLast_ne hslash, hne, hne', hslash]

/-! ## The result of `ResolvePath` -/

theorem directoryText_eq (names : List Name) :
    directoryText names = render names ++ if names = [] then ['/'] else [] := by
  rw [directoryText]
  split
  next hnil => simp [hnil]
  next => simp

theorem spells_directoryText (names : List Name) : PathEnv.Spells (directoryText names) names := by
  rw [directoryText_eq]
  split
  · exact .inr rfl
  · exact .inl (List.append_nil _)

theorem trailOf_slash (s : CString) : trailOf ('/' :: s) = trailOf s := by
  obtain ⟨first, rest, hcomponents⟩ := List.exists_cons_of_ne_nil (components_ne_nil s)
  rw [trailOf, trailOf, components_slash, hcomponents, List.getLast?_cons_cons]

/-- The text of a file that a path leads to is not empty. -/
theorem render_append_trailOf_ne_nil (start : List Name) (path : CString) :
    render (normalise start path) ++ trailOf path ≠ [] := by
  rcases List.eq_nil_or_concat (components path) with hnil | ⟨tokens, last, hlast⟩
  · exact absurd hnil (components_ne_nil path)
  · rw [normalise, trailOf, hlast, List.concat_eq_append, List.foldl_append, List.getLast?_concat]
    by_cases hname : IsName last
    · simp [enter, hname]
    · simp [hname]

/-- The names that `ResolvePath` starts from. -/
def resolveStart (mount : MountPoint) (process : ProcessDir) (path : CString) :
    Option (List Name) :=
  if path.head? = some '/' ∨ mount.text <+: process.pwd then some [] else process.cwd

theorem getcwd_env (mount : MountPoint) (process : ProcessDir) (pathMax : Nat) :
    (mount.env process pathMax).getcwd =
      if mount.text <+: process.pwd then some [] else process.cwd.map directoryText := by
  rw [PathEnv.getcwd]
  change (if strncmpEq mount.text.length process.pwd mount.text = true then some []
    else process.cwd.map directoryText) = _
  simp only [strncmpEq_length_iff]

theorem resolvePath_eq {resolved : CString} (hne : path ≠ [])
    (hresolved : (mount.env process pathMax).resolvePath path = some resolved) :
    ∃ start ∈ mount.resolveStart process path,
      resolved = render (normalise start path) ++ trailOf path := by
  rw [PathEnv.resolvePath] at hresolved
  split at hresolved
  next hroot =>
    cases hresolved
    subst hroot
    refine ⟨[], ?_, by decide⟩
    rw [resolveStart, List.head?_cons, if_pos (.inl rfl), Option.mem_some_iff]
  next hroot =>
    by_cases habs : path.head? = some '/'
    · obtain ⟨rest, rfl⟩ := List.head?_eq_some_iff.mp habs
      have hrest : rest ≠ [] := by
        rintro rfl
        exact hroot rfl
      rw [if_pos habs, List.tail_cons] at hresolved
      rw [resolveStart, if_pos (.inl habs)]
      refine ⟨[], rfl, ?_⟩
      rw [normalise_slash, trailOf_slash]
      have hspells : PathEnv.Spells ['/'] [] := .inr rfl
      exact PathEnv.resolveLeft_eq hspells hrest hresolved
    · rw [if_neg habs, getcwd_env] at hresolved
      rw [resolveStart]
      simp only [habs, false_or]
      split at hresolved
      next hbelow =>
        rw [if_pos hbelow]
        have hspells : PathEnv.Spells [] [] := .inl rfl
        exact ⟨[], rfl, PathEnv.resolveLeft_eq hspells hne hresolved⟩
      next hbelow =>
        obtain ⟨text, htext, hresolved⟩ := Option.bind_eq_some_iff.mp hresolved
        obtain ⟨cwd, hcwd, rfl⟩ := Option.map_eq_some_iff.mp htext
        rw [if_neg hbelow]
        exact ⟨cwd, hcwd, PathEnv.resolveLeft_eq (spells_directoryText cwd) hne hresolved⟩

end MountPoint

/-! ## Which paths are treated right -/

section Main

variable {mount : MountPoint} {process : ProcessDir} {workdir : List Name} {pathMax : Nat}
  {path name : CString}

theorem convertPath_env (mount : MountPoint) (process : ProcessDir) (pathMax : Nat)
    (name : CString) :
    (mount.env process pathMax).convertPath name =
      imssRoot ++ trimSlashes (deleteAll mount.text name) := by
  rw [PathEnv.convertPath]
  change imssRoot ++ trimSlashes (if mount.text = [] then name else deleteAll mount.text name) = _
  rw [if_neg mount.text_ne_nil]

theorem lawful_iff_converts
    (hcheck : (mount.env process pathMax).checkHerculesPath path =
      some ((mount.env process pathMax).convertPath name)) :
    Lawful mount process workdir pathMax path ↔ mount.Converts (fileOf workdir path) name := by
  rw [Lawful, hcheck, convertPath_env]
  exact and_congr_right fun _ => upToSlash_append_iff imssRoot _ _

theorem lawful_iff_of_isRoot (hroot : (mount.env process pathMax).isRoot path = true) :
    Lawful mount process workdir pathMax path ↔ mount.Direct process workdir pathMax path := by
  rw [Lawful, PathEnv.checkHerculesPath, if_pos hroot, MountPoint.Direct, if_pos hroot,
    ← MountPoint.fileOf_eq_iff_of_isRoot hroot]
  constructor
  · rintro ⟨⟨rest, hfile⟩, hsame⟩
    rw [← hfile, List.drop_left] at hsame
    have hletters := letters_of_upToSlash hsame
    rw [letters_append, letters_relative] at hletters
    have hrest : rest = [] := letters_render_eq_zero (by omega)
    rw [← hfile, hrest, List.append_nil]
  · intro hfile
    rw [hfile, List.drop_length]
    exact ⟨List.prefix_rfl, .inl rfl⟩

theorem fileOf_dot (workdir : List Name) (s : CString) :
    fileOf workdir ('.' :: '/' :: s) = normalise workdir s := by
  have hdot : normalise workdir ['.'] = workdir := by
    rw [normalise, components_of_notMem (by simp)]
    simp [enter, IsName]
  have happend := normalise_append_slash workdir ['.'] s
  rw [hdot] at happend
  rw [fileOf, if_neg (by simp)]
  exact happend

/-- The paths that `ResolvePath` makes absolute. -/
theorem lawful_iff_of_resolved (hroot : ¬ (mount.env process pathMax).isRoot path = true)
    (hpart : (mount.env process pathMax).isPart path = true)
    (hdot : ¬ (path = [] ∨ path = ['.'])) (hdots : ¬ ['.', '/'] <+: path) :
    Lawful mount process workdir pathMax path ↔ mount.Direct process workdir pathMax path := by
  have hne : path ≠ [] := fun hnil => hdot (.inl hnil)
  have hdotCmp : ¬ strncmpEq path.length path ['.'] = true := by rwa [strncmpEq_dot_iff]
  have hdotsCmp : ¬ strncmpEq 2 path ['.', '/'] = true := by
    have hiff := strncmpEq_length_iff path ['.', '/']
    rwa [← hiff] at hdots
  rw [MountPoint.Direct, if_neg hroot, if_pos hpart, if_neg hdot, if_neg hdots]
  cases hresolved : (mount.env process pathMax).resolvePath path with
  | none =>
      have hcheck : (mount.env process pathMax).checkHerculesPath path =
          some ((mount.env process pathMax).convertPath path) := by
        rw [PathEnv.checkHerculesPath, if_neg hroot, if_pos hpart, if_neg hdotCmp, if_neg hdotsCmp,
          hresolved]
      rw [lawful_iff_converts hcheck, if_neg (by simp)]
      exact mount.converts_iff_reachesRaw _ path
  | some resolved =>
      obtain ⟨start, hstart, hspelled⟩ := MountPoint.resolvePath_eq hne hresolved
      have hcheck : (mount.env process pathMax).checkHerculesPath path =
          some ((mount.env process pathMax).convertPath resolved) := by
        rw [PathEnv.checkHerculesPath, if_neg hroot, if_pos hpart, if_neg hdotCmp, if_neg hdotsCmp,
          hresolved]
        cases hcases : resolved with
        | nil =>
            exact absurd (hspelled.symm.trans hcases) (MountPoint.render_append_trailOf_ne_nil _ _)
        | cons c rest => rfl
      have htrail := MountPoint.trailOf_cases path
      rw [lawful_iff_converts hcheck, hspelled, if_pos (by simp), fileOf]
      rw [MountPoint.resolveStart] at hstart
      by_cases habs : path.head? = some '/'
      · rw [if_pos (.inl habs), Option.mem_some_iff] at hstart
        rw [← hstart, if_pos habs, if_pos habs]
        exact mount.converts_iff_reaches [] _ htrail
      rw [if_neg habs, if_neg habs]
      split
      next hlost =>
        -- the working directory is lost, and what the path keeps of it is missing
        rw [if_pos (.inr hlost), Option.mem_some_iff] at hstart
        rw [← hstart, ← kept_append_normalise workdir path]
        exact mount.converts_iff_reaches _ _ htrail
      next hkept =>
        rw [if_neg (not_or.mpr ⟨habs, hkept⟩)] at hstart
        rw [mount.converts_iff_namedBy]
        constructor
        · exact fun hnamed => ⟨start, hstart, hnamed⟩
        · rintro ⟨cwd, hcwd, hnamed⟩
          rwa [Option.mem_unique hstart hcwd]

theorem lawful_iff_direct (mount : MountPoint) (process : ProcessDir) (workdir : List Name)
    (pathMax : Nat) (path : CString) :
    Lawful mount process workdir pathMax path ↔ mount.Direct process workdir pathMax path := by
  by_cases hroot : (mount.env process pathMax).isRoot path = true
  · exact lawful_iff_of_isRoot hroot
  by_cases hpart : (mount.env process pathMax).isPart path = true
  · by_cases hdot : path = [] ∨ path = ['.']
    · have hcheck : (mount.env process pathMax).checkHerculesPath path =
          some ((mount.env process pathMax).convertPath process.pwd) := by
        rw [PathEnv.checkHerculesPath, if_neg hroot, if_pos hpart,
          if_pos ((strncmpEq_dot_iff path).mpr hdot)]
        rfl
      have hfile : fileOf workdir path = workdir := by
        rcases hdot with rfl | rfl
        · exact normalise_nil workdir
        · rw [fileOf, if_neg (by simp), normalise, components_of_notMem (by simp)]
          simp [enter, IsName]
      rw [lawful_iff_converts hcheck, MountPoint.Direct, if_neg hroot, if_pos hpart, if_pos hdot,
        hfile]
      exact mount.converts_iff_namedBy workdir process.pwd
    · by_cases hdots : ['.', '/'] <+: path
      · obtain ⟨rest, rfl⟩ := hdots
        have hcheck : (mount.env process pathMax).checkHerculesPath (['.', '/'] ++ rest) =
            some ((mount.env process pathMax).convertPath rest) := by
          rw [PathEnv.checkHerculesPath, if_neg hroot, if_pos hpart,
            if_neg (by rwa [strncmpEq_dot_iff]), if_pos (by simp [strncmpEq])]
          rfl
        rw [lawful_iff_converts hcheck, MountPoint.Direct, if_neg hroot, if_pos hpart, if_neg hdot,
          if_pos (List.prefix_append _ _), List.cons_append, List.cons_append, List.nil_append,
          fileOf_dot]
        exact mount.converts_iff_reachesRaw workdir rest
      · exact lawful_iff_of_resolved hroot hpart hdot hdots
  · rw [Lawful, PathEnv.checkHerculesPath, if_neg hroot, if_neg hpart, MountPoint.Direct,
      if_neg hroot, if_neg hpart]

/-- Two intercepted paths that are treated right have the same URI exactly if they mean the same
file. -/
theorem fileOf_eq_iff_sameUri {path' uri uri' : CString}
    (hlawful : Lawful mount process workdir pathMax path)
    (hlawful' : Lawful mount process workdir pathMax path')
    (huri : (mount.env process pathMax).checkHerculesPath path = some uri)
    (huri' : (mount.env process pathMax).checkHerculesPath path' = some uri') :
    fileOf workdir path = fileOf workdir path' ↔ UpToSlash uri uri' ∨ UpToSlash uri' uri := by
  rw [Lawful, huri] at hlawful
  rw [Lawful, huri'] at hlawful'
  obtain ⟨⟨rest, hfile⟩, hsame⟩ := hlawful
  obtain ⟨⟨rest', hfile'⟩, hsame'⟩ := hlawful'
  rw [← hfile, List.drop_left] at hsame
  rw [← hfile', List.drop_left] at hsame'
  rw [← hfile, ← hfile']
  constructor
  · intro heq
    have hrest : rest = rest' := List.append_cancel_left heq
    subst hrest
    rcases hsame with rfl | rfl
    · rcases hsame' with rfl | rfl
      · exact .inl (.inl rfl)
      · exact .inr (.inr rfl)
    · rcases hsame' with rfl | rfl
      · exact .inl (.inr rfl)
      · exact .inl (.inl rfl)
  · -- a slash at the end does not change what is read
    have hread : ∀ {uri : CString} {rest : List Name}, UpToSlash uri (imssRoot ++ relative rest) →
        normalise [] uri = normalise [] imssRoot ++ rest := by
      intro uri rest hsame
      have happend : normalise [] (imssRoot ++ relative rest) = normalise [] imssRoot ++ rest := by
        rw [show imssRoot ++ relative rest = ['i', 'm', 's', 's', ':', '/'] ++ '/' :: relative rest
          from rfl, normalise_append_slash, normalise_relative]
        rfl
      rcases hsame with rfl | rfl
      · exact happend
      · rw [normalise_slash_end, happend]
    have hends : ∀ {s t : CString}, UpToSlash s t → normalise [] s = normalise [] t := by
      rintro s t (rfl | rfl)
      · rfl
      · exact normalise_slash_end [] t
    intro huris
    have heq : normalise [] uri = normalise [] uri' := by
      rcases huris with huris | huris
      · exact hends huris
      · exact (hends huris).symm
    rw [hread hsame, hread hsame'] at heq
    rw [List.append_cancel_left heq]

end Main

/-- `/mnt/hercules/`, as in the sample configuration. -/
def exampleMount : MountPoint where
  names := [⟨"mnt".toList, by decide⟩, ⟨"hercules".toList, by decide⟩]
  slash := true
  valid := by decide

/-- `/mnt/hercules/d`. -/
def exampleWorkdir : List Name :=
  exampleMount.names ++ [⟨"d".toList, by decide⟩]

/-- A process that was started in `/home/u`. -/
def exampleProcess : ProcessDir where
  pwd := "/home/u".toList
  cwd := some [⟨"home".toList, by decide⟩, ⟨"u".toList, by decide⟩]

/-- The same process after `chdir`. -/
def exampleChdir (directory : String) : ProcessDir :=
  exampleMount.chdir 4096 exampleProcess directory.toList

/-- What becomes of a path then. -/
def exampleCheck (directory path : String) : Option String :=
  ((exampleMount.env (exampleChdir directory) 4096).checkHerculesPath path.toList).map
    String.ofList

instance (mount : MountPoint) (above names : List Name) (trail : CString) :
    Decidable (mount.Reaches above names trail) :=
  inferInstanceAs (Decidable (if mount.names = [] then above = [] ∧ names.length ≤ 1
    else (above = mount.names ∧ ¬ mount.text <:+: render names ++ trail) ∨
      (above = [] ∧ mount.names <+: names ∧ mount.text <+: render names ++ trail ∧
        ¬ mount.text <:+: (render names ++ trail).drop mount.text.length)))

instance (s t : CString) : Decidable (UpToSlash s t) :=
  inferInstanceAs (Decidable (_ ∨ _))

instance (mount : MountPoint) (process : ProcessDir) (workdir : List Name) (pathMax : Nat)
    (path : CString) : Decidable (Lawful mount process workdir pathMax path) :=
  match hcheck : (mount.env process pathMax).checkHerculesPath path with
  | none => decidable_of_iff (¬ mount.names <+: fileOf workdir path) (by rw [Lawful, hcheck])
  | some uri =>
      decidable_of_iff (mount.names <+: fileOf workdir path ∧
        UpToSlash uri (imssRoot ++ relative ((fileOf workdir path).drop mount.names.length)))
        (by rw [Lawful, hcheck])

/-- The same mount point without a slash at its end. -/
def exampleMountBare : MountPoint where
  names := exampleMount.names
  slash := false
  valid := by decide

end Hercules
