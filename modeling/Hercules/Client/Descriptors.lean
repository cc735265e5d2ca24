/-
# The descriptors of a process

`map_fd` has an entry for each descriptor of a Hercules file: its path and its position.
The number of a descriptor is that of a real one, opened on `/dev/null`, so the kernel
takes care that it is free. What the kernel and the functions below the wrappers answer is
part of each call; only numbers that are free are possible answers of the kernel.

Calls on a descriptor change its own entry and no other. But `generalOpen` looks for the
path first, and if there is a descriptor for it, this one is returned once more.
-/

import Hercules.Client.Position

namespace Hercules

open Std Lib Lib.Text

namespace Client

/-- The URI that stands for a path below the mount point. -/
abbrev HerculesPath := { uri : CString // imssRoot <+: uri }

/-- The flags of `open` that `generalOpen` looks at: `O_CREAT` and `O_TRUNC`. -/
structure OpenFlags where
  create : Bool
  trunc : Bool

/-- What the functions that `generalOpen` calls return: `imss_create`, `imss_open`, whether the file
is a symbolic link to a file outside, `real_open` of that file and of `/dev/null`, and
`imss_getattr`. -/
structure OpenAnswers where
  create : Int
  opened : Int
  isLink : Bool
  linkFd : Int
  nullFd : Int
  getattr : Int

/-- The process: `map_fd`, and the descriptors that are open in the kernel. -/
structure Process where
  mapFd : ExtTreeMap Int (CString × Int)
  opened : List Int

/-- The calls, with what the functions below answer; `openReal` is an `open` of another file. -/
inductive DescriptorCall
  | open (path : HerculesPath) (flags : OpenFlags) (answers : OpenAnswers)
  | openReal (fd : Int)
  | close (fd : Int)
  | read (fd : Int) (size : Nat) (sread : Int)
  | write (fd : Int) (size : Nat) (stSize : Option Int) (written : Int)
  | lseek (fd offset : Int) (whence : Whence) (getattr stSize : Int)
  | dup (fd newFd : Int)

namespace Process

/-! ## The table -/

/-- `map_fd_put`. -/
def mapFdPut (p : Process) (path : CString) (fd offset : Int) : Process :=
  { p with mapFd := p.mapFd.insertIfNew fd (path, offset) }

/-- `map_fd_update_value`. -/
def mapFdUpdateValue (p : Process) (path : CString) (fd offset : Int) : Process :=
  if p.mapFd.contains fd then { p with mapFd := p.mapFd.insert fd (path, offset) } else p

/-- `map_fd_erase`. -/
def mapFdErase (p : Process) (fd : Int) : Process :=
  { p with mapFd := p.mapFd.erase fd }

/-- `map_fd_search`; the offset is 0 without an entry. -/
def mapFdSearch (p : Process) (fd : Int) : Int :=
  (p.mapFd[fd]?).elim 0 Prod.snd

/-- `map_fd_search_by_val`. -/
def mapFdSearchByVal (p : Process) (fd : Int) : CString :=
  (p.mapFd[fd]?).elim [] Prod.fst

/-- `map_fd_search_by_pathname`: the first descriptor with the path, and its position. -/
def mapFdSearchByPathname (p : Process) (path : CString) : Option (Int × Int) :=
  (p.mapFd.toList.find? fun entry => entry.2.1 == path).map fun entry => (entry.1, entry.2.2)

/-! ## The kernel -/

/-- `real_open` with this answer: -1, or a descriptor that is free. -/
def realOpen (p : Process) (fd : Int) : Option Process :=
  if fd = -1 then some p
  else if 0 ≤ fd ∧ ¬ p.opened.contains fd then some { p with opened := fd :: p.opened }
  else none

/-- `real_close`. -/
def realClose (p : Process) (fd : Int) : Int × Process :=
  if p.opened.contains fd then (0, { p with opened := p.opened.filter (· ≠ fd) }) else (-1, p)

/-! ## The wrappers -/

/-- The value of `EEXIST`. -/
def eexist : Int := 17

/-- The descriptor for a file that has been opened. -/
def openNull (p : Process) (path : CString) (nullFd : Int) : Option (Int × Process) :=
  (p.realOpen nullFd).map fun opened => (nullFd, opened.mapFdPut path nullFd 0)

/-- `generalOpen` without a descriptor of the caller. -/
def generalOpen (p : Process) (path : CString) (flags : OpenFlags) (answers : OpenAnswers) :
    Option (Int × Process) :=
  if path = imssRoot then p.openNull path answers.nullFd
  else
    match p.mapFdSearchByPathname path with
    | none =>
        if flags.create then
          if answers.create < 0 ∧ answers.create ≠ -eexist then some (-1, p)
          else p.openNull path answers.nullFd
        else if answers.isLink then
          (p.realOpen answers.linkFd).bind fun opened =>
            let linked := opened.mapFdPut path answers.linkFd 0
            if answers.linkFd < 0 then some (answers.linkFd, linked)
            else linked.openNull path answers.nullFd
        else if answers.opened < 0 then some (-1, p)
        else p.openNull path answers.nullFd
    | some (fd, _) =>
        if flags.trunc then
          some (if answers.getattr < 0 then -1 else fd, p.mapFdUpdateValue path fd 0)
        else some (fd, p)

/-- `close`. -/
def close (mountPoint : CString) (p : Process) (fd : Int) : Int × Process :=
  let path := p.mapFdSearchByVal fd
  if path = [] then p.realClose fd
  else if path = mountPoint then (0, p.mapFdErase fd)
  else (0, ((p.mapFdErase fd).realClose fd).2)

/-- `read`. -/
def read (p : Process) (fd : Int) (size : Nat) (sread : Int) : Int × Process :=
  let path := p.mapFdSearchByVal fd
  if path = [] then (sread, p)
  else if size = 0 then (0, p)
  else if fd < 0 then (-1, p)
  else (if sread = -2 then -1 else sread,
    if 0 < sread then p.mapFdUpdateValue path fd (int64 (p.mapFdSearch fd + sread)) else p)

/-- `write`; `stSize` is the size in the client's record of the file, if there is one. -/
def write (p : Process) (fd : Int) (size : Nat) (stSize : Option Int) (written : Int) :
    Int × Process :=
  let path := p.mapFdSearchByVal fd
  if path = [] then (written, p)
  else
    match stSize with
    | none => (-1, p)
    | some oldSize =>
        if written < 0 then (-1, p)
        else (written,
          if oldSize % 2 ^ 64 < (oldSize + size) % 2 ^ 64 then
            p.mapFdUpdateValue path fd (int64 (oldSize + size))
          else p)

/-- `lseek`. -/
def lseek (p : Process) (fd offset : Int) (whence : Whence) (getattr stSize : Int) :
    Int × Process :=
  let path := p.mapFdSearchByVal fd
  if path = [] then (offset, p)
  else
    match whence with
    | .seekSet => (offset, p.mapFdUpdateValue path fd offset)
    | .seekCur =>
        let ret := int64 (p.mapFdSearch fd + offset)
        (ret, p.mapFdUpdateValue path fd ret)
    | .seekEnd =>
        if getattr < 0 then (-1, p)
        else
          let ret := int64 (offset + stSize)
          (ret, p.mapFdUpdateValue path fd ret)

/-- `dup`; the new descriptor begins at 0. -/
def dup (p : Process) (fd newFd : Int) : Option (Int × Process) :=
  let path := p.mapFdSearchByVal fd
  if path = [] ∧ ¬ p.opened.contains fd then some (-1, p)
  else
    (p.realOpen newFd).map fun opened =>
      if path = [] ∨ newFd = -1 then (newFd, opened)
      else if opened.mapFd.contains newFd then (-1, opened)
      else (newFd, opened.mapFdPut path newFd 0)

/-- One call, with its return value. -/
def call (mountPoint : CString) (p : Process) : DescriptorCall → Option (Int × Process)
  | .open path flags answers => p.generalOpen path.1 flags answers
  | .openReal fd => (p.realOpen fd).map fun opened => (fd, opened)
  | .close fd => some (p.close mountPoint fd)
  | .read fd size sread => some (p.read fd size sread)
  | .write fd size stSize written => some (p.write fd size stSize written)
  | .lseek fd offset whence getattr stSize => some (p.lseek fd offset whence getattr stSize)
  | .dup fd newFd => p.dup fd newFd

/-- One call as a step of the process. -/
def step (mountPoint : CString) (p : Process) (c : DescriptorCall) : Option Process :=
  (p.call mountPoint c).map Prod.snd

/-! ## Independence -/

/-- The descriptor keeps its path and its position, and stays open. -/
def Kept (p p' : Process) (fd : Int) : Prop :=
  ∀ entry, p.mapFd[fd]? = some entry →
    p'.mapFd[fd]? = some entry ∧ (fd ∈ p.opened → fd ∈ p'.opened)

/-- A call leaves the descriptors alone that it is not for; an `open` that succeeds returns one that
was free, at position 0. -/
def Independent (mountPoint : CString) (p : Process) (c : DescriptorCall) : Prop :=
  ∀ ret p', p.call mountPoint c = some (ret, p') →
    match c with
    | .open path _ _ =>
        (0 ≤ ret → ret ∉ p.opened ∧ p'.mapFd[ret]? = some (path.1, 0)) ∧
          ∀ fd, 0 ≤ fd → p.Kept p' fd
    | .openReal _ => ∀ fd, 0 ≤ fd → p.Kept p' fd
    | .close fd | .read fd _ _ | .write fd _ _ _ | .lseek fd _ _ _ _ | .dup fd _ =>
        ∀ fd', 0 ≤ fd' → fd' ≠ fd → p.Kept p' fd'

/-- No descriptor has the path that is opened. (It does no harm if the first one with the path is
-1, left behind when the kernel had no descriptor, or if the call fails in `imss_getattr` and that
descriptor was at position 0 anyway.) -/
def Careful (p : Process) : DescriptorCall → Prop
  | .open path flags answers =>
      path.1 ≠ imssRoot → ∀ fd offset, p.mapFdSearchByPathname path.1 = some (fd, offset) →
        fd < 0 ∨ (flags.trunc = true ∧ answers.getattr < 0 ∧ offset = 0)
  | _ => True

/-! ## The table after an operation -/

variable {mountPoint path : CString} {p p' p'' : Process} {fd fd' offset ret : Int}

theorem getElem?_mapFdPut (p : Process) (path : CString) (fd offset fd' : Int) :
    (p.mapFdPut path fd offset).mapFd[fd']? =
      if fd = fd' ∧ p.mapFd[fd]? = none then some (path, offset) else p.mapFd[fd']? := by
  rw [mapFdPut, ExtTreeMap.getElem?_insertIfNew]
  apply if_congr _ rfl rfl
  apply and_congr
  · exact ⟨LawfulEqCmp.eq_of_compare, fun heq => heq ▸ ReflCmp.compare_self⟩
  · rw [← ExtTreeMap.isSome_getElem?_iff_mem, Bool.not_eq_true, Option.isSome_eq_false_iff,
      Option.isNone_iff_eq_none]

theorem getElem?_mapFdUpdateValue_of_ne (hne : fd' ≠ fd) :
    (p.mapFdUpdateValue path fd offset).mapFd[fd']? = p.mapFd[fd']? := by
  rw [mapFdUpdateValue]
  split
  · rw [ExtTreeMap.getElem?_insert, if_neg fun heq => hne (LawfulEqCmp.eq_of_compare heq).symm]
  · rfl

theorem getElem?_mapFdUpdateValue_self {entry : CString × Int}
    (hentry : p.mapFd[fd]? = some entry) :
    (p.mapFdUpdateValue path fd offset).mapFd[fd]? = some (path, offset) := by
  have hmem : p.mapFd.contains fd = true := by
    rw [ExtTreeMap.contains_eq_isSome_getElem?, hentry]
    rfl
  rw [mapFdUpdateValue, if_pos hmem, ExtTreeMap.getElem?_insert_self]

@[simp]
theorem opened_mapFdUpdateValue : (p.mapFdUpdateValue path fd offset).opened = p.opened := by
  rw [mapFdUpdateValue]
  split <;> rfl

theorem realOpen_eq_some (h : p.realOpen fd = some p') :
    fd = -1 ∧ p' = p ∨ 0 ≤ fd ∧ fd ∉ p.opened ∧ p' = { p with opened := fd :: p.opened } := by
  rw [realOpen] at h
  split at h
  next hfailed => exact Or.inl ⟨hfailed, (Option.some.inj h).symm⟩
  next =>
    split at h
    next hfree =>
      rw [List.contains_iff_mem] at hfree
      exact Or.inr ⟨hfree.1, hfree.2, (Option.some.inj h).symm⟩
    next => cases h

theorem getElem?_of_search (h : p.mapFdSearchByPathname path = some (fd, offset)) :
    p.mapFd[fd]? = some (path, offset) := by
  rw [mapFdSearchByPathname, Option.map_eq_some_iff] at h
  obtain ⟨⟨fd', path', offset'⟩, hfind, heq⟩ := h
  obtain ⟨rfl, rfl⟩ := Prod.mk.inj heq
  have hpath : path' = path := by simpa using List.find?_some hfind
  rw [← hpath]
  exact ExtTreeMap.mem_toList_iff_getElem?_eq_some.mp (List.mem_of_find?_eq_some hfind)

/-! ## Descriptors that are kept -/

theorem Kept.refl (p : Process) (fd : Int) : p.Kept p fd :=
  fun _ hentry => ⟨hentry, id⟩

theorem Kept.trans (h : p.Kept p' fd) (h' : p'.Kept p'' fd) : p.Kept p'' fd := by
  intro entry hentry
  obtain ⟨hentry', hopened⟩ := h entry hentry
  obtain ⟨hentry'', hopened'⟩ := h' entry hentry'
  exact ⟨hentry'', fun hfd => hopened' (hopened hfd)⟩

theorem kept_mapFdPut (p : Process) (path : CString) (fd offset fd' : Int) :
    p.Kept (p.mapFdPut path fd offset) fd' := by
  intro entry hentry
  refine ⟨?_, id⟩
  rw [getElem?_mapFdPut, if_neg, hentry]
  rintro ⟨rfl, hnone⟩
  rw [hnone] at hentry
  cases hentry

theorem kept_realOpen (h : p.realOpen fd = some p') (fd' : Int) : p.Kept p' fd' := by
  rcases realOpen_eq_some h with ⟨_, rfl⟩ | ⟨_, _, rfl⟩
  · exact Kept.refl p' fd'
  · exact fun _ hentry => ⟨hentry, List.mem_cons_of_mem fd⟩

theorem kept_mapFdUpdateValue (hne : fd' ≠ fd) :
    p.Kept (p.mapFdUpdateValue path fd offset) fd' := by
  intro entry hentry
  rw [getElem?_mapFdUpdateValue_of_ne hne, opened_mapFdUpdateValue]
  exact ⟨hentry, id⟩

theorem kept_mapFdErase (hne : fd' ≠ fd) : p.Kept (p.mapFdErase fd) fd' := by
  intro entry hentry
  refine ⟨?_, id⟩
  rw [mapFdErase, ExtTreeMap.getElem?_erase,
    if_neg fun heq => hne (LawfulEqCmp.eq_of_compare heq).symm]
  exact hentry

theorem kept_realClose (hne : fd' ≠ fd) : p.Kept (p.realClose fd).2 fd' := by
  intro entry hentry
  rw [realClose]
  split
  · refine ⟨hentry, fun hfd => ?_⟩
    simp only [List.mem_filter, decide_eq_true_eq]
    exact ⟨hfd, hne⟩
  · exact ⟨hentry, id⟩

/-! ## Tables that agree with the kernel -/

/-- Every descriptor in the table is open, and has a path. -/
structure Consistent (p : Process) : Prop where
  opened : ∀ (fd : Int) (entry : CString × Int), p.mapFd[fd]? = some entry → 0 ≤ fd → fd ∈ p.opened
  path_ne : ∀ (fd : Int) (entry : CString × Int), p.mapFd[fd]? = some entry → entry.1 ≠ []

theorem Consistent.mapFdPut (h : p.Consistent) (hfd : 0 ≤ fd → fd ∈ p.opened) (hpath : path ≠ []) :
    (p.mapFdPut path fd offset).Consistent := by
  have hcases : ∀ fd' entry, (p.mapFdPut path fd offset).mapFd[fd']? = some entry →
      fd = fd' ∧ entry = (path, offset) ∨ p.mapFd[fd']? = some entry := by
    intro fd' entry hentry
    rw [getElem?_mapFdPut] at hentry
    split at hentry
    next hnew => exact Or.inl ⟨hnew.1, (Option.some.inj hentry).symm⟩
    next => exact Or.inr hentry
  refine ⟨?_, ?_⟩
  · intro fd' entry hentry hnonneg
    rcases hcases fd' entry hentry with ⟨rfl, _⟩ | hold
    · exact hfd hnonneg
    · exact h.opened fd' entry hold hnonneg
  · intro fd' entry hentry
    rcases hcases fd' entry hentry with ⟨_, rfl⟩ | hold
    · exact hpath
    · exact h.path_ne fd' entry hold

theorem Consistent.realOpen (h : p.Consistent) (hopen : p.realOpen fd = some p') :
    p'.Consistent ∧ (0 ≤ fd → fd ∈ p'.opened) := by
  rcases realOpen_eq_some hopen with ⟨rfl, rfl⟩ | ⟨_, _, rfl⟩
  · exact ⟨h, fun hnonneg => absurd hnonneg (by decide)⟩
  · refine ⟨⟨?_, h.path_ne⟩, fun _ => List.mem_cons_self⟩
    intro fd' entry hentry hnonneg
    exact List.mem_cons_of_mem _ (h.opened fd' entry hentry hnonneg)

theorem Consistent.mapFdUpdateValue (h : p.Consistent) (hpath : path ≠ []) :
    (p.mapFdUpdateValue path fd offset).Consistent := by
  rw [Process.mapFdUpdateValue]
  split
  next hmem =>
    rw [ExtTreeMap.contains_eq_isSome_getElem?, Option.isSome_iff_exists] at hmem
    obtain ⟨old, hold⟩ := hmem
    refine ⟨?_, ?_⟩
    · intro fd' entry hentry hnonneg
      rw [ExtTreeMap.getElem?_insert] at hentry
      split at hentry
      next heq =>
        rw [← LawfulEqCmp.eq_of_compare heq] at hnonneg ⊢
        exact h.opened fd old hold hnonneg
      next => exact h.opened fd' entry hentry hnonneg
    · intro fd' entry hentry
      rw [ExtTreeMap.getElem?_insert] at hentry
      split at hentry
      next =>
        rw [← Option.some.inj hentry]
        exact hpath
      next => exact h.path_ne fd' entry hentry
  next => exact h

theorem Consistent.mapFdErase (h : p.Consistent) (fd : Int) : (p.mapFdErase fd).Consistent := by
  have hold : ∀ (fd' : Int) (entry : CString × Int),
      (p.mapFdErase fd).mapFd[fd']? = some entry → p.mapFd[fd']? = some entry := by
    intro fd' entry hentry
    rw [Process.mapFdErase, ExtTreeMap.getElem?_erase] at hentry
    split at hentry
    · cases hentry
    · exact hentry
  exact ⟨fun fd' entry hentry => h.opened fd' entry (hold fd' entry hentry),
    fun fd' entry hentry => h.path_ne fd' entry (hold fd' entry hentry)⟩

/-- A real close of a descriptor that is not in the table. -/
theorem Consistent.realClose (h : p.Consistent) (hfd : p.mapFd[fd]? = none) :
    (p.realClose fd).2.Consistent := by
  rw [Process.realClose]
  split
  · refine ⟨?_, h.path_ne⟩
    intro fd' entry hentry hnonneg
    simp only [List.mem_filter, decide_eq_true_eq]
    refine ⟨h.opened fd' entry hentry hnonneg, ?_⟩
    rintro rfl
    rw [hfd] at hentry
    cases hentry
  · exact h

theorem Consistent.getElem?_eq_none (h : p.Consistent) (hpath : p.mapFdSearchByVal fd = []) :
    p.mapFd[fd]? = none := by
  rw [mapFdSearchByVal] at hpath
  cases hentry : p.mapFd[fd]? with
  | none => rfl
  | some entry =>
      rw [hentry] at hpath
      exact absurd hpath (h.path_ne fd entry hentry)

/-! ## One call -/

/-- A new descriptor for a path. -/
theorem openNull_spec (h : p.Consistent) (hpath : path ≠ []) {nullFd : Int}
    (hopen : p.openNull path nullFd = some (ret, p')) :
    p'.Consistent ∧ (0 ≤ ret → ret ∉ p.opened ∧ p'.mapFd[ret]? = some (path, 0)) ∧
      ∀ fd, p.Kept p' fd := by
  rw [openNull, Option.map_eq_some_iff] at hopen
  obtain ⟨opened, hreal, heq⟩ := hopen
  obtain ⟨rfl, rfl⟩ := Prod.mk.inj heq
  obtain ⟨hopened, hmem⟩ := h.realOpen hreal
  refine ⟨hopened.mapFdPut hmem hpath, ?_, ?_⟩
  · intro hnonneg
    rcases realOpen_eq_some hreal with ⟨rfl, _⟩ | ⟨_, hfree, rfl⟩
    · exact absurd hnonneg (by decide)
    · refine ⟨hfree, ?_⟩
      rw [getElem?_mapFdPut, if_pos]
      refine ⟨rfl, ?_⟩
      cases hentry : p.mapFd[nullFd]? with
      | none => rfl
      | some entry => exact absurd (h.opened nullFd entry hentry hnonneg) hfree
  · intro fd
    exact (kept_realOpen hreal fd).trans (kept_mapFdPut opened path nullFd 0 fd)

/-- An `open` of a path that is not in the table. -/
theorem generalOpen_spec (h : p.Consistent) (hpath : path ≠ []) {flags : OpenFlags}
    {answers : OpenAnswers}
    (hnew : path = imssRoot ∨ p.mapFdSearchByPathname path = none)
    (hopen : p.generalOpen path flags answers = some (ret, p')) :
    p'.Consistent ∧ (0 ≤ ret → ret ∉ p.opened ∧ p'.mapFd[ret]? = some (path, 0)) ∧
      ∀ fd, p.Kept p' fd := by
  have hfailed : some (-1, p) = some (ret, p') → p'.Consistent ∧
      (0 ≤ ret → ret ∉ p.opened ∧ p'.mapFd[ret]? = some (path, 0)) ∧ ∀ fd, p.Kept p' fd := by
    intro heq
    obtain ⟨rfl, rfl⟩ := Prod.mk.inj (Option.some.inj heq)
    exact ⟨h, fun hnonneg => absurd hnonneg (by decide), Kept.refl p⟩
  rw [generalOpen] at hopen
  split at hopen
  next => exact openNull_spec h hpath hopen
  next hroot =>
    rw [hnew.resolve_left hroot] at hopen
    simp only at hopen
    split at hopen
    next =>
      split at hopen
      next => exact hfailed hopen
      next => exact openNull_spec h hpath hopen
    next =>
      split at hopen
      next =>
        -- a link to a file outside leaves the descriptor of that file in the table
        obtain ⟨opened, hreal, hrest⟩ := Option.bind_eq_some_iff.mp hopen
        obtain ⟨hopened, hmem⟩ := h.realOpen hreal
        have hlinked : (opened.mapFdPut path answers.linkFd 0).Consistent :=
          hopened.mapFdPut hmem hpath
        have hkept : ∀ fd, p.Kept (opened.mapFdPut path answers.linkFd 0) fd := fun fd =>
          (kept_realOpen hreal fd).trans (kept_mapFdPut opened path answers.linkFd 0 fd)
        split at hrest
        next hnegative =>
          obtain ⟨rfl, rfl⟩ := Prod.mk.inj (Option.some.inj hrest)
          exact ⟨hlinked, fun hnonneg => absurd hnonneg (by omega), hkept⟩
        next =>
          obtain ⟨hcons, hret, hkept'⟩ := openNull_spec hlinked hpath hrest
          refine ⟨hcons, ?_, fun fd => (hkept fd).trans (hkept' fd)⟩
          intro hnonneg
          refine ⟨?_, (hret hnonneg).2⟩
          intro hfd
          rcases realOpen_eq_some hreal with ⟨_, rfl⟩ | ⟨_, _, rfl⟩
          · exact (hret hnonneg).1 hfd
          · exact (hret hnonneg).1 (List.mem_cons_of_mem _ hfd)
      next =>
        split at hopen
        next => exact hfailed hopen
        next => exact openNull_spec h hpath hopen

/-- A call on a descriptor sets its position, or does nothing. -/
def Moves (p p' : Process) (fd : Int) : Prop :=
  p' = p ∨ p.mapFdSearchByVal fd ≠ [] ∧
    ∃ offset, p' = p.mapFdUpdateValue (p.mapFdSearchByVal fd) fd offset

theorem moves_ite {offset : Int} {c : Prop} [Decidable c] (hpath : p.mapFdSearchByVal fd ≠ []) :
    p.Moves (if c then p.mapFdUpdateValue (p.mapFdSearchByVal fd) fd offset else p) fd := by
  split
  · exact Or.inr ⟨hpath, offset, rfl⟩
  · exact Or.inl rfl

theorem moves_read (p : Process) (fd : Int) (size : Nat) (sread : Int) :
    p.Moves (p.read fd size sread).2 fd := by
  simp only [read]
  split
  · exact Or.inl rfl
  next hpath =>
    split
    · exact Or.inl rfl
    · split
      · exact Or.inl rfl
      · exact moves_ite hpath

theorem moves_write (p : Process) (fd : Int) (size : Nat) (stSize : Option Int) (written : Int) :
    p.Moves (p.write fd size stSize written).2 fd := by
  simp only [write]
  split
  · exact Or.inl rfl
  next hpath =>
    split
    · exact Or.inl rfl
    · split
      · exact Or.inl rfl
      · exact moves_ite hpath

theorem moves_lseek (p : Process) (fd offset : Int) (whence : Whence) (getattr stSize : Int) :
    p.Moves (p.lseek fd offset whence getattr stSize).2 fd := by
  simp only [lseek]
  split
  · exact Or.inl rfl
  next hpath =>
    split
    · exact Or.inr ⟨hpath, _, rfl⟩
    · exact Or.inr ⟨hpath, _, rfl⟩
    · split
      · exact Or.inl rfl
      · exact Or.inr ⟨hpath, _, rfl⟩

theorem Moves.kept (h : p.Moves p' fd) (hne : fd' ≠ fd) : p.Kept p' fd' := by
  rcases h with rfl | ⟨_, offset, rfl⟩
  · exact Kept.refl p' fd'
  · exact kept_mapFdUpdateValue hne

theorem Moves.consistent (h : p.Moves p' fd) (hcons : p.Consistent) : p'.Consistent := by
  rcases h with rfl | ⟨hpath, offset, rfl⟩
  · exact hcons
  · exact hcons.mapFdUpdateValue hpath

theorem kept_close (hne : fd' ≠ fd) : p.Kept (p.close mountPoint fd).2 fd' := by
  simp only [close]
  split
  · exact kept_realClose hne
  · split
    · exact kept_mapFdErase hne
    · exact (kept_mapFdErase hne).trans (kept_realClose hne)

theorem Consistent.close (h : p.Consistent) (mountPoint : CString) (fd : Int) :
    (p.close mountPoint fd).2.Consistent := by
  simp only [Process.close]
  split
  next hpath => exact h.realClose (h.getElem?_eq_none hpath)
  next =>
    split
    · exact h.mapFdErase fd
    · apply (h.mapFdErase fd).realClose
      rw [Process.mapFdErase, ExtTreeMap.getElem?_erase_self]

/-- A `dup` does nothing, opens a descriptor, or also enters it in the table. -/
theorem dup_cases {newFd : Int} (hdup : p.dup fd newFd = some (ret, p')) :
    p' = p ∨ ∃ opened, p.realOpen newFd = some opened ∧
      (p' = opened ∨ p.mapFdSearchByVal fd ≠ [] ∧
        p' = opened.mapFdPut (p.mapFdSearchByVal fd) newFd 0) := by
  simp only [dup] at hdup
  split at hdup
  next =>
    obtain ⟨_, rfl⟩ := Prod.mk.inj (Option.some.inj hdup)
    exact Or.inl rfl
  next =>
    obtain ⟨opened, hreal, heq⟩ := Option.map_eq_some_iff.mp hdup
    refine Or.inr ⟨opened, hreal, ?_⟩
    split at heq
    next => exact Or.inl (Prod.mk.inj heq).2.symm
    next hpath =>
      split at heq
      next => exact Or.inl (Prod.mk.inj heq).2.symm
      next => exact Or.inr ⟨fun hempty => hpath (Or.inl hempty), (Prod.mk.inj heq).2.symm⟩

theorem kept_dup {newFd : Int} (hdup : p.dup fd newFd = some (ret, p')) (fd' : Int) :
    p.Kept p' fd' := by
  rcases dup_cases hdup with rfl | ⟨opened, hreal, rfl | ⟨-, rfl⟩⟩
  · exact Kept.refl p' fd'
  · exact kept_realOpen hreal fd'
  · exact (kept_realOpen hreal fd').trans (kept_mapFdPut opened _ newFd 0 fd')

theorem Consistent.dup (h : p.Consistent) {newFd : Int} (hdup : p.dup fd newFd = some (ret, p')) :
    p'.Consistent := by
  rcases dup_cases hdup with rfl | ⟨opened, hreal, rfl | ⟨hpath, rfl⟩⟩
  · exact h
  · exact (h.realOpen hreal).1
  · obtain ⟨hopened, hmem⟩ := h.realOpen hreal
    exact hopened.mapFdPut hmem hpath

/-- An `open` of a path that a descriptor has. -/
theorem generalOpen_of_search {flags : OpenFlags} {answers : OpenAnswers} (hroot : path ≠ imssRoot)
    (hsearch : p.mapFdSearchByPathname path = some (fd, offset)) :
    p.generalOpen path flags answers =
      some (if flags.trunc ∧ answers.getattr < 0 then -1 else fd,
        if flags.trunc then p.mapFdUpdateValue path fd 0 else p) := by
  rw [generalOpen, if_neg hroot, hsearch]
  cases flags.trunc with
  | true => simp only [if_true, true_and]
  | false => simp only [Bool.false_eq_true, if_false, false_and]

theorem herculesPath_ne_nil (path : HerculesPath) : path.1 ≠ [] := by
  intro hnil
  have hroot := path.2
  rw [hnil, List.prefix_nil] at hroot
  exact absurd hroot (by decide)

/-- Every call leaves a table that agrees with the kernel. -/
theorem Consistent.call (h : p.Consistent) {c : DescriptorCall}
    (hcall : p.call mountPoint c = some (ret, p')) : p'.Consistent := by
  cases c with
  | «open» path flags answers =>
      by_cases hnew : path.1 = imssRoot ∨ p.mapFdSearchByPathname path.1 = none
      · exact (generalOpen_spec h (herculesPath_ne_nil path) hnew hcall).1
      · rw [not_or] at hnew
        obtain ⟨⟨fd, offset⟩, hsearch⟩ := Option.ne_none_iff_exists'.mp hnew.2
        rw [Process.call, generalOpen_of_search hnew.1 hsearch] at hcall
        obtain ⟨_, rfl⟩ := Prod.mk.inj (Option.some.inj hcall)
        split
        · exact h.mapFdUpdateValue (herculesPath_ne_nil path)
        · exact h
  | openReal fd =>
      rw [Process.call, Option.map_eq_some_iff] at hcall
      obtain ⟨opened, hreal, heq⟩ := hcall
      obtain ⟨_, rfl⟩ := Prod.mk.inj heq
      exact (h.realOpen hreal).1
  | close fd =>
      obtain rfl : (p.close mountPoint fd).2 = p' := congrArg Prod.snd (Option.some.inj hcall)
      exact h.close mountPoint fd
  | read fd size sread =>
      obtain rfl : (p.read fd size sread).2 = p' := congrArg Prod.snd (Option.some.inj hcall)
      exact (moves_read p fd size sread).consistent h
  | write fd size stSize written =>
      obtain rfl : (p.write fd size stSize written).2 = p' :=
        congrArg Prod.snd (Option.some.inj hcall)
      exact (moves_write p fd size stSize written).consistent h
  | lseek fd offset whence getattr stSize =>
      obtain rfl : (p.lseek fd offset whence getattr stSize).2 = p' :=
        congrArg Prod.snd (Option.some.inj hcall)
      exact (moves_lseek p fd offset whence getattr stSize).consistent h
  | dup fd newFd => exact h.dup hcall

/-- An `open` is independent of the other descriptors if and only if it is careful. -/
theorem independent_open_iff (h : p.Consistent) (path : HerculesPath) (flags : OpenFlags)
    (answers : OpenAnswers) :
    p.Independent mountPoint (.open path flags answers) ↔ p.Careful (.open path flags answers) := by
  by_cases hnew : path.1 = imssRoot ∨ p.mapFdSearchByPathname path.1 = none
  · refine iff_of_true ?_ ?_
    · intro ret p' hcall
      obtain ⟨_, hret, hkept⟩ := generalOpen_spec h (herculesPath_ne_nil path) hnew hcall
      exact ⟨hret, fun fd _ => hkept fd⟩
    · intro hroot fd offset hsearch
      rw [hnew.resolve_left hroot] at hsearch
      cases hsearch
  · rw [not_or] at hnew
    obtain ⟨⟨fd, offset⟩, hsearch⟩ := Option.ne_none_iff_exists'.mp hnew.2
    have hentry := getElem?_of_search hsearch
    have hcall : p.call mountPoint (.open path flags answers) = _ :=
      generalOpen_of_search hnew.1 hsearch
    constructor
    · intro hindependent _ fd' offset' hsearch'
      obtain ⟨rfl, rfl⟩ := Prod.mk.inj (Option.some.inj (hsearch'.symm.trans hsearch))
      obtain ⟨hret, hkept⟩ := hindependent _ _ hcall
      by_contra hharm
      rw [not_or, Int.not_lt] at hharm
      obtain ⟨hnonneg, hharm⟩ := hharm
      by_cases hfailed : flags.trunc = true ∧ answers.getattr < 0
      · have hsame := (hkept fd' hnonneg (path.1, offset') hentry).1
        rw [if_pos hfailed.1, getElem?_mapFdUpdateValue_self hentry] at hsame
        exact hharm ⟨hfailed.1, hfailed.2, (Prod.mk.inj (Option.some.inj hsame)).2.symm⟩
      · rw [if_neg hfailed] at hret
        exact (hret hnonneg).1 (h.opened fd' (path.1, offset') hentry hnonneg)
    · intro hcareful ret p' hcall'
      obtain ⟨rfl, rfl⟩ := Prod.mk.inj (Option.some.inj (hcall.symm.trans hcall'))
      have hothers : ∀ fd', fd' ≠ fd →
          p.Kept (if flags.trunc then p.mapFdUpdateValue path.1 fd 0 else p) fd' := by
        intro fd' hne
        split
        · exact kept_mapFdUpdateValue hne
        · exact Kept.refl p fd'
      rcases hcareful hnew.1 fd offset hsearch with hnegative | ⟨htrunc, hgetattr, rfl⟩
      · refine ⟨?_, ?_⟩
        · intro hnonneg
          split at hnonneg
          · exact absurd hnonneg (by decide)
          · omega
        · intro fd' hnonneg
          exact hothers fd' (by omega)
      · rw [if_pos ⟨htrunc, hgetattr⟩]
        refine ⟨fun hnonneg => absurd hnonneg (by decide), ?_⟩
        intro fd' _
        by_cases hne : fd' = fd
        · subst hne
          intro entry hentry'
          rw [if_pos htrunc, getElem?_mapFdUpdateValue_self hentry, opened_mapFdUpdateValue]
          exact ⟨hentry.symm.trans hentry', id⟩
        · exact hothers fd' hne

theorem mapFdSearchByVal_of_entry (hentry : p.mapFd[fd]? = some (path, offset)) :
    p.mapFdSearchByVal fd = path := by
  rw [mapFdSearchByVal, hentry]
  rfl

/-! ## Whole runs -/

/-- What makes a call independent of the other descriptors. -/
theorem independent_iff_careful (h : p.Consistent) (c : DescriptorCall) :
    p.Independent mountPoint c ↔ p.Careful c := by
  cases c with
  | «open» path flags answers => exact independent_open_iff h path flags answers
  | openReal fd =>
      refine iff_of_true ?_ trivial
      intro ret p' hcall
      rw [call, Option.map_eq_some_iff] at hcall
      obtain ⟨opened, hreal, heq⟩ := hcall
      obtain ⟨_, rfl⟩ := Prod.mk.inj heq
      exact fun fd' _ => kept_realOpen hreal fd'
  | close fd =>
      refine iff_of_true ?_ trivial
      intro ret p' hcall
      obtain rfl : (p.close mountPoint fd).2 = p' := congrArg Prod.snd (Option.some.inj hcall)
      exact fun fd' _ hne => kept_close hne
  | read fd size sread =>
      refine iff_of_true ?_ trivial
      intro ret p' hcall
      obtain rfl : (p.read fd size sread).2 = p' := congrArg Prod.snd (Option.some.inj hcall)
      exact fun fd' _ hne => (moves_read p fd size sread).kept hne
  | write fd size stSize written =>
      refine iff_of_true ?_ trivial
      intro ret p' hcall
      obtain rfl : (p.write fd size stSize written).2 = p' :=
        congrArg Prod.snd (Option.some.inj hcall)
      exact fun fd' _ hne => (moves_write p fd size stSize written).kept hne
  | lseek fd offset whence getattr stSize =>
      refine iff_of_true ?_ trivial
      intro ret p' hcall
      obtain rfl : (p.lseek fd offset whence getattr stSize).2 = p' :=
        congrArg Prod.snd (Option.some.inj hcall)
      exact fun fd' _ hne => (moves_lseek p fd offset whence getattr stSize).kept hne
  | dup fd newFd =>
      refine iff_of_true ?_ trivial
      intro ret p' hcall
      exact fun fd' _ _ => kept_dup hcall fd'

theorem Consistent.step (h : p.Consistent) {c : DescriptorCall}
    (hstep : p.step mountPoint c = some p') : p'.Consistent := by
  rw [Process.step, Option.map_eq_some_iff] at hstep
  obtain ⟨⟨ret, p''⟩, hcall, rfl⟩ := hstep
  exact h.call hcall

/-- A process that has opened no Hercules file yet. -/
def start (opened : List Int) : Process :=
  ⟨∅, opened⟩

theorem Consistent.start (opened : List Int) : (start opened).Consistent := by
  refine ⟨?_, ?_⟩
  · intro fd entry hentry
    rw [Process.start, ExtTreeMap.getElem?_empty] at hentry
    cases hentry
  · intro fd entry hentry
    rw [Process.start, ExtTreeMap.getElem?_empty] at hentry
    cases hentry

end Process

/-- An `open` of `imss://f` that succeeds; the kernel gives descriptor `nullFd`. -/
def openF (nullFd : Int) : DescriptorCall :=
  .open ⟨exampleFile.1, exampleFile.2.below_root⟩ ⟨false, false⟩ ⟨0, 0, false, -1, nullFd, 0⟩

end Client

end Hercules
