/-
# Names, block keys and parent directories

Every dataset has a URI below the root `imss://`. A data server stores block `b`
of a dataset under the key `uri$b`; block 0 is the dataset's `struct stat`. Both
server kinds file a key in the map of its parent directory, which
`find_last_parent_dir` computes from the text of the key.
-/

import Mathlib.Data.List.Infix
import Hercules.Lib.Text

namespace Hercules

open Lib.Text

/-- A C string or `std::string`: its characters, without the terminating NUL. -/
abbrev CString := List Char

/-- The terminating character. -/
def nul : Char := '\x00'

/-- `IMSS_ROOT`, with the URI scheme that the client library assumes. -/
def imssRoot : CString := ['i', 'm', 's', 's', ':', '/', '/']

/-- `RemoveLastSlash`: drops one trailing slash. -/
def removeLastSlash (pathname : CString) : CString :=
  if pathname.getLast? = some '/' then pathname.dropLast else pathname

/-- The part of a path before its last slash, if it has one. -/
def beforeLastSlash : CString → Option CString
  | [] => none
  | c :: path =>
      match beforeLastSlash path with
      | some parent => some (c :: parent)
      | none => if c = '/' then some [] else none

/-- `find_last_parent_dir`: a trailing slash is ignored, and a path without a
further slash belongs to the root. -/
def findLastParentDir (datasetUri : CString) : CString :=
  match beforeLastSlash (removeLastSlash (datasetUri.drop imssRoot.length)) with
  | some parent => datasetUri.take imssRoot.length ++ parent
  | none => imssRoot

/-- The offset that `find_last_parent_dir` returns is positive. -/
def belowDirectory (uri : CString) : Bool :=
  (beforeLastSlash (removeLastSlash (uri.drop imssRoot.length))).isSome

/-- The key `uri$block` that client requests carry. -/
def blockKey (uri : CString) (block : Int) : CString :=
  uri ++ '$' :: decimal block

/-- `key.find("$0") != npos`, the test by which a data server recognises block 0. -/
def isBlockZero (key : CString) : Bool :=
  decide (['$', '0'] <:+: key)

/-! ## Keys determine file and block -/

theorem dollar_notMem_decimal (block : Int) : '$' ∉ decimal block :=
  notMem_decimal (by decide) (by decide) block

@[simp]
theorem blockKey_inj {uri uri' : CString} {block block' : Int} :
    blockKey uri block = blockKey uri' block' ↔ uri = uri' ∧ block = block' := by
  constructor
  · intro heq
    obtain ⟨huri, hblock⟩ :=
      append_cons_inj (dollar_notMem_decimal block) (dollar_notMem_decimal block') heq
    exact ⟨huri, decimal_injective hblock⟩
  · rintro ⟨rfl, rfl⟩
    rfl

/-- A name free of the separator is recovered by cutting its keys. -/
@[simp]
theorem upTo_blockKey {uri : CString} (h : '$' ∉ uri) (block : Int) :
    upTo '$' (blockKey uri block) = uri :=
  upTo_append_cons h _

/-- Cutting a key cuts the name. -/
theorem upTo_blockKey_eq (uri : CString) (block : Int) :
    upTo '$' (blockKey uri block) = upTo '$' uri := by
  by_cases h : '$' ∈ uri
  · obtain ⟨tail, htail⟩ := exists_eq_upTo_append_cons h
    conv_lhs => rw [htail]
    rw [blockKey, List.append_assoc, List.cons_append, upTo_append_cons (notMem_upTo '$' uri)]
  · rw [upTo_blockKey h, upTo_of_notMem h]

theorem dollar_mem_blockKey (uri : CString) (block : Int) : '$' ∈ blockKey uri block := by
  simp [blockKey]

/-! ## Block 0 -/

theorem blockKey_zero (uri : CString) : blockKey uri 0 = uri ++ ['$', '0'] := by
  simp [blockKey, decimal, Nat.toDigits_zero]

private theorem head_toDigits_ne_zero {n : Nat} (hn : 0 < n) (ds : List Char) :
    Nat.toDigits 10 n ≠ '0' :: ds := by
  induction n using Nat.strongRecOn generalizing ds with
  | ind n ih =>
      intro heq
      rw [Nat.toDigits_eq_if (by decide)] at heq
      split at heq
      next hsmall =>
        simp only [List.cons.injEq, Nat.digitChar_eq_zero] at heq
        omega
      next hlarge =>
        -- the leading digit is the leading digit of `n / 10`
        obtain ⟨d, ds', hds⟩ := List.exists_cons_of_ne_nil
          (Nat.toDigits_ne_nil (b := 10) (n := n / 10))
        rw [hds, List.cons_append, List.cons.injEq] at heq
        rw [heq.1] at hds
        exact ih (n / 10) (by omega) (by omega) ds' hds

theorem eq_zero_of_decimal {block : Int} {back : List Char} (h : decimal block = '0' :: back) :
    block = 0 := by
  cases block with
  | ofNat n =>
      by_contra hne
      exact head_toDigits_ne_zero (Nat.pos_of_ne_zero fun h0 => hne (by simp [h0])) back h
  | negSucc n => simp [decimal] at h

/-- The test finds block 0, and every block of a file whose name has the text itself. -/
theorem isBlockZero_blockKey_iff (uri : CString) (block : Int) :
    isBlockZero (blockKey uri block) = true ↔ block = 0 ∨ ['$', '0'] <:+: uri := by
  rw [isBlockZero, decide_eq_true_iff]
  constructor
  · rintro ⟨front, back, heq⟩
    rw [blockKey, List.append_assoc, List.append_eq_append_iff] at heq
    -- the text begins in the name, or behind it
    rcases heq with ⟨mid, huri, hmid⟩ | ⟨mid, -, hmid⟩
    · cases mid with
      | nil => exact Or.inl (eq_zero_of_decimal (List.cons.inj hmid).2.symm)
      | cons c mid =>
          obtain ⟨rfl, hrest⟩ := List.cons.inj hmid
          cases mid with
          | nil => exact absurd (List.cons.inj hrest).1 (by decide)
          | cons d mid =>
              obtain ⟨rfl, -⟩ := List.cons.inj hrest
              exact Or.inr ⟨front, mid, by simp [huri]⟩
    · cases mid with
      | nil => exact Or.inl (eq_zero_of_decimal (List.cons.inj hmid).2)
      | cons c mid =>
          have hdecimal := (List.cons.inj hmid).2
          exact absurd (by simp [hdecimal]) (dollar_notMem_decimal block)
  · rintro (rfl | ⟨front, back, huri⟩)
    · exact ⟨uri, [], by simp [blockKey_zero]⟩
    · exact ⟨front, back ++ '$' :: decimal block, by simp [blockKey, ← huri]⟩

theorem isBlockZero_zero (uri : CString) : isBlockZero (blockKey uri 0) = true :=
  (isBlockZero_blockKey_iff uri 0).mpr (Or.inl rfl)

/-- For a name free of the separator the test finds exactly block 0. -/
@[simp]
theorem isBlockZero_blockKey {uri : CString} (h : '$' ∉ uri) (block : Int) :
    isBlockZero (blockKey uri block) = decide (block = 0) := by
  have htext : ¬ ['$', '0'] <:+: uri := fun hfound => h (hfound.subset List.mem_cons_self)
  rw [Bool.eq_iff_iff, isBlockZero_blockKey_iff, decide_eq_true_iff]
  exact or_iff_left htext

/-! ## The directory of a block key -/

theorem beforeLastSlash_append {path tail : CString} (h : '/' ∉ tail) :
    beforeLastSlash (path ++ tail) = beforeLastSlash path := by
  induction path with
  | nil =>
      induction tail with
      | nil => rfl
      | cons c tail ih =>
          simp only [List.mem_cons, not_or] at h
          simp only [List.nil_append, beforeLastSlash] at ih ⊢
          rw [ih h.2]
          simp [Ne.symm h.1]
  | cons c path ih =>
      simp only [List.cons_append, beforeLastSlash, ih]

theorem removeLastSlash_of_ne {path : CString} (h : path.getLast? ≠ some '/') :
    removeLastSlash path = path :=
  if_neg h

theorem removeLastSlash_append_slash (s : CString) : removeLastSlash (s ++ ['/']) = s := by
  simp [removeLastSlash]

theorem slash_notMem_decimal (block : Int) : '/' ∉ decimal block :=
  notMem_decimal (by decide) (by decide) block

/-- The name of a dataset: below the root and without a trailing slash. -/
structure IsFileUri (uri : CString) : Prop where
  below_root : imssRoot <+: uri
  no_trailing_slash : uri.getLast? ≠ some '/'

/-- A URI that `IsFileUri` admits. -/
abbrev FileUri := { uri : CString // IsFileUri uri }

theorem removeLastSlash_append (path : CString) {tail : CString} (h : tail ≠ []) :
    removeLastSlash (path ++ tail) = path ++ removeLastSlash tail := by
  obtain ⟨c, tail, rfl⟩ := List.exists_cons_of_ne_nil h
  rw [removeLastSlash, removeLastSlash, List.getLast?_append_cons]
  split
  · rw [List.dropLast_append_of_ne_nil (List.cons_ne_nil c tail)]
  · rfl

theorem removeLastSlash_dollar (tail : CString) :
    removeLastSlash ('$' :: tail) = '$' :: removeLastSlash tail := by
  cases tail with
  | nil => rfl
  | cons c tail => exact removeLastSlash_append ['$'] (List.cons_ne_nil c tail)

theorem beforeLastSlash_of_mem {path : CString} (h : '/' ∈ path) :
    ∃ parent, beforeLastSlash path = some parent := by
  induction path with
  | nil => simp at h
  | cons c path ih =>
      rw [beforeLastSlash]
      cases hparent : beforeLastSlash path with
      | some parent => exact ⟨c :: parent, rfl⟩
      | none =>
          rcases List.mem_cons.mp h with hc | hpath
          · exact ⟨[], by simp [← hc]⟩
          · obtain ⟨parent, hsome⟩ := ih hpath
            simp [hparent] at hsome

theorem beforeLastSlash_append_of_some {tail parent : CString}
    (h : beforeLastSlash tail = some parent) (path : CString) :
    beforeLastSlash (path ++ tail) = some (path ++ parent) := by
  induction path with
  | nil => exact h
  | cons c path ih => simp [beforeLastSlash, ih]

theorem eq_append_of_beforeLastSlash {path parent : CString}
    (h : beforeLastSlash path = some parent) :
    ∃ name, '/' ∉ name ∧ path = parent ++ '/' :: name := by
  induction path generalizing parent with
  | nil => simp [beforeLastSlash] at h
  | cons c path ih =>
      rw [beforeLastSlash] at h
      cases hparent : beforeLastSlash path with
      | some parent' =>
          obtain ⟨name, hname, hpath⟩ := ih hparent
          simp only [hparent, Option.some.injEq] at h
          exact ⟨name, hname, by rw [← h, hpath, List.cons_append]⟩
      | none =>
          have hpath : '/' ∉ path := by
            intro hmem
            obtain ⟨parent', hsome⟩ := beforeLastSlash_of_mem hmem
            simp [hparent] at hsome
          by_cases hc : c = '/'
          · simp only [hparent, hc, if_true, Option.some.injEq] at h
            exact ⟨path, hpath, by simp [← h, hc]⟩
          · simp [hparent, hc] at h

theorem length_lt_of_beforeLastSlash {path parent : CString}
    (h : beforeLastSlash path = some parent) : parent.length < path.length := by
  obtain ⟨name, -, rfl⟩ := eq_append_of_beforeLastSlash h
  rw [List.length_append, List.length_cons]
  omega

/-- A key that continues a file's name with the separator is filed beside that
file exactly when no directory follows. -/
theorem findLastParentDir_append_dollar {uri : CString} (huri : IsFileUri uri) (tail : CString) :
    findLastParentDir (uri ++ '$' :: tail) = findLastParentDir uri ↔
      '/' ∉ removeLastSlash ('$' :: tail) := by
  obtain ⟨⟨path, rfl⟩, hend⟩ := huri
  have hslash : path.getLast? ≠ some '/' := by
    cases path with
    | nil => simp
    | cons c path => rwa [List.getLast?_append_cons] at hend
  unfold findLastParentDir
  rw [List.append_assoc, List.drop_left, List.drop_left, List.take_left, List.take_left,
    removeLastSlash_append path (List.cons_ne_nil '$' tail), removeLastSlash_of_ne hslash]
  constructor
  · intro heq hmem
    obtain ⟨parent, hparent⟩ := beforeLastSlash_of_mem hmem
    rw [beforeLastSlash_append_of_some hparent] at heq
    -- the directory of the longer key contains the whole name
    have hne : parent ≠ [] := by
      rintro rfl
      rw [removeLastSlash_dollar, beforeLastSlash] at hparent
      split at hparent <;> simp at hparent
    have hpos := List.length_pos_of_ne_nil hne
    cases hpath : beforeLastSlash path with
    | none => simp_all
    | some parent' =>
        have hlt := length_lt_of_beforeLastSlash hpath
        have hlen := congrArg List.length heq
        simp only [hpath, List.length_append] at hlen
        omega
  · intro hnot
    rw [beforeLastSlash_append hnot]

/-- The blocks of a file are filed in the same directory as its name. -/
theorem findLastParentDir_blockKey {uri : CString} (huri : IsFileUri uri) (block : Int) :
    findLastParentDir (blockKey uri block) = findLastParentDir uri := by
  refine (findLastParentDir_append_dollar huri _).mpr fun hmem => ?_
  have htail : '/' ∈ '$' :: decimal block := by
    rw [removeLastSlash] at hmem
    split at hmem
    · exact List.mem_of_mem_dropLast hmem
    · exact hmem
  simp [slash_notMem_decimal] at htail

theorem slash_notMem_dollar_decimal (block : Int) : '/' ∉ '$' :: decimal block := by
  simp [slash_notMem_decimal]

/-- The directory of a key is cut off before the number of the block. -/
theorem findLastParentDir_blockKey_eq (base : CString) (block : Int) :
    findLastParentDir (blockKey base block) =
      match beforeLastSlash (base.drop imssRoot.length) with
      | some parent => base.take imssRoot.length ++ parent
      | none => imssRoot := by
  have hnot := slash_notMem_dollar_decimal block
  have hdrop : (blockKey base block).drop imssRoot.length =
      base.drop imssRoot.length ++
        ('$' :: decimal block).drop (imssRoot.length - base.length) := by
    rw [blockKey, List.drop_append]
  have htail : '/' ∉ ('$' :: decimal block).drop (imssRoot.length - base.length) :=
    fun hmem => hnot (List.mem_of_mem_drop hmem)
  have hlast : ((blockKey base block).drop imssRoot.length).getLast? ≠ some '/' := by
    intro hslash
    have hends : (blockKey base block).getLast? = some '/' := by
      rw [List.getLast?_drop] at hslash
      split at hslash
      · cases hslash
      · exact hslash
    rw [blockKey, List.getLast?_append_cons] at hends
    exact hnot (List.mem_of_getLast? hends)
  rw [findLastParentDir, removeLastSlash_of_ne hlast, hdrop, beforeLastSlash_append htail]
  cases hparent : beforeLastSlash (base.drop imssRoot.length) with
  | none => rfl
  | some parent =>
      -- the base has a slash behind the root, so it is longer than the root
      have hlt := length_lt_of_beforeLastSlash hparent
      rw [List.length_drop] at hlt
      dsimp only
      rw [blockKey, List.take_append_of_le_length (by omega)]

/-! ## The keys of a directory -/

/-- A key filed in a directory is the directory's name, a slash and a name. -/
theorem eq_append_of_findLastParentDir {dir key : CString} (hdir : IsFileUri dir)
    (h : findLastParentDir key = dir) :
    ∃ name, '/' ∉ name ∧ removeLastSlash key = dir ++ '/' :: name := by
  rw [findLastParentDir] at h
  cases hparent : beforeLastSlash (removeLastSlash (key.drop imssRoot.length)) with
  | none =>
      simp only [hparent] at h
      exact absurd (show dir.getLast? = some '/' by rw [← h]; decide) hdir.no_trailing_slash
  | some parent =>
      simp only [hparent] at h
      obtain ⟨name, hname, hpath⟩ := eq_append_of_beforeLastSlash hparent
      refine ⟨name, hname, ?_⟩
      have hdrop : key.drop imssRoot.length ≠ [] := by
        intro hnil
        rw [hnil] at hpath
        have hlen := congrArg List.length hpath
        simp [removeLastSlash] at hlen
      conv_lhs => rw [← List.take_append_drop imssRoot.length key]
      rw [removeLastSlash_append _ hdrop, hpath, ← List.append_assoc, h]

theorem removeLastSlash_prefix_self (path : CString) : removeLastSlash path <+: path := by
  rw [removeLastSlash]
  split
  · exact List.dropLast_prefix path
  · exact List.prefix_rfl

theorem slash_prefix_of_filed {dir key : CString} (hdir : IsFileUri dir)
    (h : findLastParentDir key = dir) : dir ++ ['/'] <+: key := by
  obtain ⟨name, -, hkey⟩ := eq_append_of_findLastParentDir hdir h
  refine List.IsPrefix.trans ?_ (removeLastSlash_prefix_self key)
  rw [hkey]
  exact ⟨name, by simp⟩

/-- A slash at the end of a prefix does not lie in a slash-free tail. -/
theorem slash_prefix_append_iff {dir uri tail : CString} (htail : '/' ∉ tail) :
    dir ++ ['/'] <+: uri ++ tail ↔ dir ++ ['/'] <+: uri := by
  induction tail using List.reverseRecOn with
  | nil => rw [List.append_nil]
  | append_singleton tail c ih =>
      rw [List.mem_append, not_or, List.mem_singleton] at htail
      rw [← List.append_assoc, List.prefix_concat_iff, ih htail.1]
      refine or_iff_right fun heq => ?_
      have hlast := congrArg List.getLast? heq
      simp at hlast
      exact htail.2 hlast

theorem slash_prefix_blockKey_iff {dir uri : CString} {block : Int} :
    dir ++ ['/'] <+: blockKey uri block ↔ dir ++ ['/'] <+: uri :=
  slash_prefix_append_iff (by simp [slash_notMem_decimal])

/-- No directory is its own parent. -/
theorem findLastParentDir_ne_self {dir : CString} (hdir : IsFileUri dir) :
    findLastParentDir dir ≠ dir := by
  intro h
  have hlen := (slash_prefix_of_filed hdir h).length_le
  rw [List.length_append, List.length_singleton] at hlen
  omega

/-- Only the root is its own parent. -/
theorem eq_imssRoot_of_findLastParentDir {name : CString} (h : findLastParentDir name = name) :
    name = imssRoot := by
  rw [findLastParentDir] at h
  cases hparent : beforeLastSlash (removeLastSlash (name.drop imssRoot.length)) with
  | none =>
      rw [hparent] at h
      exact h.symm
  | some parent =>
      have hlt := length_lt_of_beforeLastSlash hparent
      have hle := (removeLastSlash_prefix_self (name.drop imssRoot.length)).length_le
      have hlength := congrArg List.length h
      rw [hparent] at hlength
      simp only [List.length_append, List.length_take, List.length_drop] at hlt hle hlength
      omega

/-- A name, with or without a trailing slash, is filed in its directory. -/
theorem findLastParentDir_child {dir name : CString} (hdir : imssRoot <+: dir) (hne : name ≠ [])
    (hslash : '/' ∉ removeLastSlash name) : findLastParentDir (dir ++ '/' :: name) = dir := by
  obtain ⟨path, rfl⟩ := hdir
  have hlast : beforeLastSlash ('/' :: removeLastSlash name) = some [] := by
    have hnone : beforeLastSlash (removeLastSlash name) = none := by
      exact (beforeLastSlash_append hslash : beforeLastSlash ([] ++ removeLastSlash name) = _)
    simp [beforeLastSlash, hnone]
  rw [findLastParentDir, List.append_assoc, List.drop_left, List.take_left,
    removeLastSlash_append path (List.cons_ne_nil '/' name),
    show removeLastSlash ('/' :: name) = '/' :: removeLastSlash name from
      removeLastSlash_append ['/'] hne,
    beforeLastSlash_append_of_some hlast, List.append_nil]

/-- What is filed directly in one directory is filed so in any other. -/
theorem findLastParentDir_slash {dir dir' tail : CString} (hdir : IsFileUri dir)
    (hdir' : IsFileUri dir') (h : findLastParentDir (dir ++ '/' :: tail) = dir) :
    findLastParentDir (dir' ++ '/' :: tail) = dir' := by
  obtain ⟨name, hname, hkey⟩ := eq_append_of_findLastParentDir hdir h
  rw [removeLastSlash_append dir (List.cons_ne_nil '/' tail), List.append_cancel_left_eq] at hkey
  cases tail with
  | nil => simp [removeLastSlash] at hkey
  | cons c tail =>
      rw [show removeLastSlash ('/' :: c :: tail) = '/' :: removeLastSlash (c :: tail) from
        removeLastSlash_append ['/'] (List.cons_ne_nil c tail), List.cons.injEq] at hkey
      exact findLastParentDir_child hdir'.below_root (List.cons_ne_nil c tail) (hkey.2 ▸ hname)

theorem isFileUri_f : IsFileUri "imss://f".toList :=
  ⟨by decide, by decide⟩

theorem isFileUri_g : IsFileUri "imss://g".toList :=
  ⟨by decide, by decide⟩

/-- Two files of the same directory. -/
def exampleFile : FileUri :=
  ⟨"imss://f".toList, isFileUri_f⟩

def exampleOther : FileUri :=
  ⟨"imss://g".toList, isFileUri_g⟩

end Hercules
