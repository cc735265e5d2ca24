/-
# Directory streams

`opendir` opens a real stream on `/tmp`, whose position counts the entries, and files its descriptor
in `map_fd`. `readdir` gets the listing of a directory when the flag `to_read` says so and keeps it
in global variables until the stream that is read ends or any stream is closed. Which stream the
listing was got for is not noted.

Apart from this the streams should be independent: each is a directory and a count. That is the
abstract machine below, and the calls follow it as long as a stream does not meet the listing of
another directory.
-/

import Hercules.Client.Descriptors
import Hercules.Cluster.Listing

namespace Hercules

open Std Lib Lib.Text

namespace Client

/-! ## Directories -/

/-- What `get_dir` finds in a directory: the names below it, with a slash at the end for some
directories. Their number fits the `uint32_t` of the code. -/
structure DirContent where
  tokens : List CString
  length_lt : tokens.length + 2 < 2 ^ 32

/-- The directories of the file system, by the path that is asked for. -/
abbrev Directories := CString → Option DirContent

/-- The items of `get_dir`: the path itself and the URIs of what is below it. -/
def DirContent.items (content : DirContent) (path : CString) : List CString :=
  path :: content.tokens.map (dirRequestUri path ++ ·)

/-- The URI of what is in a directory begins with that of the directory. -/
theorem prefix_of_isChild {ns : Namespace} {path : DirPath} {key : CString}
    (hchild : ns.IsChild path.uri key) : dirRequestUri path.text <+: key := by
  obtain ⟨s, hs, hsome, hne, hparent⟩ := hchild
  rw [dirRequestUri_text]
  split
  next => exact (Namespace.isDatasetKey hs hsome).below_root
  next hroot =>
    have huri := path.valid.resolve_left hroot
    obtain ⟨name, -, hkey⟩ := eq_append_of_findLastParentDir huri hparent
    have hslash : path.uri ++ ['/'] <+: removeLastSlash key := ⟨name, by rw [hkey]; simp⟩
    exact hslash.trans (removeLastSlash_prefix_self key)

/-- A directory that is listed right has items of this form, with a token for each child. -/
theorem items_of_listedRight {ns : Namespace} {stack : CString} {statIds : Nat → Nat}
    {path : DirPath} (hlisted : ns.ListedRight stack statIds path) :
    ∃ (tokens : List CString) (result : DirResult),
      getDir ns.servers stack statIds ns.cluster path.text = some result ∧
      result.items = some (path.text :: tokens.map (dirRequestUri path.text ++ ·)) ∧
      ∀ key, key ∈ tokens.map (dirRequestUri path.text ++ ·) ↔ ns.IsChild path.uri key := by
  obtain ⟨children, result, hresult, hitems, -, hchildren, -⟩ := hlisted
  have htokens : (children.map (List.drop (dirRequestUri path.text).length)).map
      (dirRequestUri path.text ++ ·) = children := by
    rw [List.map_map]
    refine (List.map_congr_left fun key hkey => ?_).trans (List.map_id children)
    obtain ⟨token, rfl⟩ := prefix_of_isChild ((hchildren key).mp hkey)
    simp only [Function.comp_apply, List.drop_left, id_eq]
  refine ⟨children.map (List.drop (dirRequestUri path.text).length), result, hresult, ?_, ?_⟩
  · rw [htokens, hitems]
  · rw [htokens]
    exact hchildren

/-- `DT_DIR` and `DT_REG`. -/
inductive DirentType
  | directory
  | regular
  deriving DecidableEq

/-- `d_name` and `d_type`. -/
structure Dirent where
  name : CString
  type : DirentType
  deriving DecidableEq

/-- The entry for a token: its slash is left out. -/
def dirent (token : CString) : Dirent :=
  if token.isPrefixOf ['.'] || token.isPrefixOf ['.', '.'] then ⟨token, .directory⟩
  else if token.getLast? = some '/' then ⟨token.dropLast, .directory⟩
  else ⟨token, .regular⟩

/-- The entries of a directory. There are none if it does not exist. -/
def entries (dirs : Directories) (path : CString) : List Dirent :=
  match dirs path with
  | none => []
  | some content => (['.'] :: ['.', '.'] :: content.tokens).map dirent

/-! ## The calls -/

/-- The calls; `fd` is the descriptor of the stream. `opendirReal` is an `opendir` of a directory
outside the mount point. -/
inductive DirCall
  | opendir (path : HerculesPath) (fd : Int)
  | opendirReal (fd : Int)
  | readdir (fd : Int)
  | closedir (fd : Int)

/-- What a call returns; `real` is the answer of the real function. -/
inductive DirOutput
  | stream (fd : Int)
  | entry (result : Option Dirent)
  | closed (ret : Int)
  | real
  deriving DecidableEq

/-- The process: its descriptors, the real streams with their positions, and the global variables of
`readdir`. -/
structure DirProcess where
  process : Process
  telldir : Int → Option Nat
  toRead : Bool
  oriBuf : List CString
  nEnt : Nat
  imssPathLen : Nat

namespace DirProcess

/-- Before the first `readdir`. -/
def start (process : Process) : DirProcess :=
  ⟨process, fun _ => none, true, [], 0, 0⟩

/-- `seekdir`. -/
def seekdir (s : DirProcess) (fd : Int) (pos : Nat) : DirProcess :=
  { s with telldir := Function.update s.telldir fd (some pos) }

/-- `imss_readdir`, if a listing is to be read. An error is -1 as a `uint32_t`. -/
def load (dirs : Directories) (s : DirProcess) (path : CString) : DirProcess :=
  if s.toRead then
    let loaded : DirProcess :=
      { s with
        toRead := false
        imssPathLen := if path.getLast? = some '/' then path.length else path.length + 1 }
    match dirs path with
    | none => { loaded with nEnt := 2 ^ 32 - 1 }
    | some content =>
        { loaded with oriBuf := content.items path, nEnt := (content.items path).length }
  else s

/-- `readdir` at a position once the listing is there. Nothing is defined outside of the array. -/
def readEntry (s : DirProcess) (fd : Int) (pos : Nat) : Option (Option Dirent × DirProcess) :=
  if pos < (s.nEnt + 1) % 2 ^ 32 then
    if pos = 0 then some (some (dirent ['.']), s.seekdir fd (pos + 1))
    else if pos = 1 then some (some (dirent ['.', '.']), s.seekdir fd (pos + 1))
    else (s.oriBuf[pos - 1]?).map fun item =>
      (some (dirent (item.drop s.imssPathLen)), s.seekdir fd (pos + 1))
  else some (none, { s with toRead := true, oriBuf := [] })

/-- One call with its result. There is none for a stream that is not open, or a descriptor that the
kernel cannot give. -/
def call (dirs : Directories) (s : DirProcess) : DirCall → Option (DirOutput × DirProcess)
  | .opendir path fd =>
      if fd = -1 then none
      else (s.process.realOpen fd).map fun process =>
        (.stream fd, { s.seekdir fd 0 with process := process.mapFdPut path.1 fd 0 })
  | .opendirReal fd =>
      if fd = -1 then none
      else (s.process.realOpen fd).map fun process =>
        (.stream fd, { s.seekdir fd 0 with process := process })
  | .readdir fd =>
      (s.telldir fd).bind fun pos =>
        let path := s.process.mapFdSearchByVal fd
        if path = [] then some (.real, s)
        else ((s.load dirs path).readEntry fd pos).map fun result => (.entry result.1, result.2)
  | .closedir fd =>
      (s.telldir fd).bind fun _ =>
        let path := s.process.mapFdSearchByVal fd
        let closed := { s with telldir := Function.update s.telldir fd none }
        if path = [] then some (.real, { closed with process := (s.process.realClose fd).2 })
        else some (.closed 0,
          { closed with
            process := ((s.process.mapFdErase fd).realClose fd).2
            toRead := true
            nEnt := 0 })

/-- One call as a step. -/
def step (dirs : Directories) (s : DirProcess) (c : DirCall) : Option DirProcess :=
  (s.call dirs c).map Prod.snd

/-- If the stream is one of the mount point, a listing that is kept is that of its directory; the
first item of a listing is the path. -/
def Unmixed (s : DirProcess) : DirCall → Prop
  | .readdir fd =>
      s.process.mapFdSearchByVal fd = [] ∨ s.toRead = true ∨
        s.oriBuf.head? = some (s.process.mapFdSearchByVal fd)
  | _ => True

end DirProcess

/-! ## Independent streams -/

/-- A stream: the directory, unless it is one outside the mount point, and how often it was read. -/
structure DirStream where
  path : Option CString
  count : Nat

/-- The open streams by their descriptors. -/
abbrev DirStreams := Int → Option DirStream

namespace DirStreams

/-- What a call returns if the streams are independent. -/
def output (dirs : Directories) (streams : DirStreams) : DirCall → DirOutput
  | .opendir _ fd => .stream fd
  | .opendirReal fd => .stream fd
  | .readdir fd =>
      match streams fd with
      | some ⟨some path, count⟩ => .entry (entries dirs path)[count]?
      | _ => .real
  | .closedir fd =>
      match streams fd with
      | some ⟨some _, _⟩ => .closed 0
      | _ => .real

/-- The streams after a call. -/
def next (streams : DirStreams) : DirCall → DirStreams
  | .opendir path fd => Function.update streams fd (some ⟨some path.1, 0⟩)
  | .opendirReal fd => Function.update streams fd (some ⟨none, 0⟩)
  | .readdir fd =>
      Function.update streams fd
        ((streams fd).map fun stream => { stream with count := stream.count + 1 })
  | .closedir fd => Function.update streams fd none

end DirStreams

/-! ## The calls follow the streams -/

namespace DirProcess

variable {dirs : Directories} {s s' : DirProcess} {streams : DirStreams} {fd : Int}
  {path : CString} {content : DirContent} {count : Nat}

/-- A stream has its directory in the table, and its position is the count up to the end. -/
def StreamAt (dirs : Directories) (s : DirProcess) (fd : Int) : Option DirStream → Prop
  | none => s.telldir fd = none
  | some ⟨none, _⟩ =>
      (s.telldir fd).isSome = true ∧ s.process.mapFd[fd]? = none ∧ fd ∈ s.process.opened
  | some ⟨some path, count⟩ =>
      s.telldir fd = some (min count (entries dirs path).length) ∧
        s.process.mapFd[fd]? = some (path, 0) ∧ fd ∈ s.process.opened

/-- The listing that is kept is that of the directory. -/
structure Holds (s : DirProcess) (path : CString) (content : DirContent) : Prop where
  toRead : s.toRead = false
  oriBuf : s.oriBuf = content.items path
  nEnt : s.nEnt = (content.items path).length
  imssPathLen : s.imssPathLen = (dirRequestUri path).length

/-- The table agrees with the kernel, the streams are there, and a listing that is kept is that of
some directory. -/
structure Follows (dirs : Directories) (s : DirProcess) (streams : DirStreams) : Prop where
  consistent : s.process.Consistent
  stream : ∀ fd, s.StreamAt dirs fd (streams fd)
  listing : s.toRead = true ∨ ∃ path content, dirs path = some content ∧ s.Holds path content

theorem follows_start {process : Process} (h : process.Consistent) :
    Follows dirs (start process) fun _ => none :=
  ⟨h, fun _ => rfl, Or.inl rfl⟩

/-- Only the position and the entry of a stream matter. -/
theorem StreamAt.congr {stream : Option DirStream} (h : s.StreamAt dirs fd stream)
    (htelldir : s'.telldir fd = s.telldir fd)
    (hentry : s'.process.mapFd[fd]? = s.process.mapFd[fd]?)
    (hopened : fd ∈ s.process.opened → fd ∈ s'.process.opened) : s'.StreamAt dirs fd stream := by
  match stream with
  | none => exact htelldir.trans h
  | some ⟨none, _⟩ => exact ⟨htelldir ▸ h.1, hentry.trans h.2.1, hopened h.2.2⟩
  | some ⟨some _, _⟩ => exact ⟨htelldir.trans h.1, hentry.trans h.2.1, hopened h.2.2⟩

/-! ### Listings -/

theorem length_entries (hdir : dirs path = some content) :
    (entries dirs path).length = content.tokens.length + 2 := by
  simp [entries, hdir]

theorem length_items (content : DirContent) (path : CString) :
    (content.items path).length = content.tokens.length + 1 := by
  simp [DirContent.items]

theorem pathLen_eq (path : CString) :
    (if path.getLast? = some '/' then path.length else path.length + 1) =
      (dirRequestUri path).length := by
  rw [dirRequestUri]
  split
  · rfl
  · simp

theorem load_process (dirs : Directories) (s : DirProcess) (path : CString) :
    (s.load dirs path).process = s.process ∧ (s.load dirs path).telldir = s.telldir := by
  rw [load]
  split
  · cases dirs path <;> exact ⟨rfl, rfl⟩
  · exact ⟨rfl, rfl⟩

/-- Where streams are not mixed, the listing is that of the directory, or it is read now. -/
theorem holds_load (hfollows : Follows dirs s streams) (hdir : dirs path = some content)
    (hunmixed : s.toRead = true ∨ s.oriBuf.head? = some path) :
    (s.load dirs path).Holds path content := by
  by_cases htoRead : s.toRead = true
  · rw [load, if_pos htoRead, hdir]
    exact ⟨rfl, rfl, rfl, pathLen_eq path⟩
  · obtain ⟨path', content', hdir', hholds⟩ := hfollows.listing.resolve_left htoRead
    have hhead := hunmixed.resolve_left htoRead
    rw [hholds.oriBuf] at hhead
    obtain rfl : path' = path := Option.some.inj hhead
    obtain rfl := Option.some.inj (hdir.symm.trans hdir')
    rwa [load, if_neg htoRead]

/-- A directory that does not exist has the number -1. -/
theorem nEnt_load (hfollows : Follows dirs s streams) (hdir : dirs path = none)
    (hunmixed : s.toRead = true ∨ s.oriBuf.head? = some path) :
    (s.load dirs path).nEnt = 2 ^ 32 - 1 := by
  by_cases htoRead : s.toRead = true
  · rw [load, if_pos htoRead, hdir]
  · obtain ⟨path', content', hdir', hholds⟩ := hfollows.listing.resolve_left htoRead
    have hhead := hunmixed.resolve_left htoRead
    rw [hholds.oriBuf] at hhead
    obtain rfl : path' = path := Option.some.inj hhead
    rw [hdir] at hdir'
    cases hdir'

/-- The entry at a position of the listing. -/
theorem readEntry_of_holds (hdir : dirs path = some content) (hholds : s.Holds path content)
    (hcount : count < (entries dirs path).length) :
    s.readEntry fd count = some ((entries dirs path)[count]?, s.seekdir fd (count + 1)) := by
  have hlength := length_entries hdir
  have hnEnt : (s.nEnt + 1) % 2 ^ 32 = (entries dirs path).length := by
    rw [hholds.nEnt, length_items, hlength]
    exact Nat.mod_eq_of_lt content.length_lt
  rw [readEntry, hnEnt, if_pos hcount]
  match count with
  | 0 => simp [entries, hdir]
  | 1 => simp [entries, hdir]
  | count + 2 =>
      have htoken : count < content.tokens.length := by omega
      have hitem : s.oriBuf[count + 1]? = some (dirRequestUri path ++ content.tokens[count]) := by
        rw [hholds.oriBuf, DirContent.items, List.getElem?_cons_succ, List.getElem?_map,
          List.getElem?_eq_getElem htoken, Option.map_some]
      have hentry : (entries dirs path)[count + 2]? = some (dirent content.tokens[count]) := by
        simp [entries, hdir, htoken]
      rw [if_neg (by omega), if_neg (by omega), show count + 2 - 1 = count + 1 from rfl, hitem,
        Option.map_some, hholds.imssPathLen, List.drop_left, hentry]

/-- The end marker. -/
theorem readEntry_of_le {pos : Nat} (hpos : (s.nEnt + 1) % 2 ^ 32 ≤ pos) :
    s.readEntry fd pos = some (none, { s with toRead := true, oriBuf := [] }) := by
  rw [readEntry, if_neg (Nat.not_lt.mpr hpos)]

/-! ### One call -/

theorem follows_update {stream : Option DirStream} (hconsistent : s'.process.Consistent)
    (hfollows : Follows dirs s streams) (hstream : s'.StreamAt dirs fd stream)
    (hframe : ∀ fd', fd' ≠ fd → s'.telldir fd' = s.telldir fd' ∧
      s'.process.mapFd[fd']? = s.process.mapFd[fd']? ∧
        (fd' ∈ s.process.opened → fd' ∈ s'.process.opened))
    (hlisting : s'.toRead = true ∨ ∃ path content, dirs path = some content ∧
      s'.Holds path content) :
    Follows dirs s' (Function.update streams fd stream) := by
  refine ⟨hconsistent, fun fd' => ?_, hlisting⟩
  rcases eq_or_ne fd' fd with rfl | hne
  · rwa [Function.update_self]
  · rw [Function.update_of_ne hne]
    obtain ⟨htelldir, hentry, hopened⟩ := hframe fd' hne
    exact (hfollows.stream fd').congr htelldir hentry hopened

/-- The listing is still there after a step forward in a stream, which is then one further on. -/
theorem follows_seekdir (hfollows : Follows dirs s streams)
    (hstream : streams fd = some ⟨some path, count⟩) {loaded : DirProcess}
    (hprocess : loaded.process = s.process) (htelldir : loaded.telldir = s.telldir)
    (hdir : dirs path = some content) (hholds : loaded.Holds path content) {pos : Nat}
    (hpos : pos = min (count + 1) (entries dirs path).length) :
    Follows dirs (loaded.seekdir fd pos)
      (Function.update streams fd (some ⟨some path, count + 1⟩)) := by
  have hold := hfollows.stream fd
  rw [hstream] at hold
  refine follows_update ?_ hfollows ?_ ?_ (Or.inr ⟨path, content, hdir, ?_⟩)
  · rw [seekdir, hprocess]
    exact hfollows.consistent
  · refine ⟨?_, ?_, ?_⟩
    · simp only [seekdir, Function.update_self, hpos]
    · rw [seekdir, hprocess]
      exact hold.2.1
    · rw [seekdir, hprocess]
      exact hold.2.2
  · intro fd' hne
    simp only [seekdir, hprocess, htelldir, Function.update_of_ne hne]
    exact ⟨trivial, trivial, id⟩
  · exact ⟨hholds.toRead, hholds.oriBuf, hholds.nEnt, hholds.imssPathLen⟩

/-- At the end the position stays where it is and the listing is given up. -/
theorem follows_end (hfollows : Follows dirs s streams)
    (hstream : streams fd = some ⟨some path, count⟩) {loaded : DirProcess}
    (hprocess : loaded.process = s.process) (htelldir : loaded.telldir = s.telldir)
    (hcount : (entries dirs path).length ≤ count) :
    Follows dirs { loaded with toRead := true, oriBuf := [] }
      (Function.update streams fd (some ⟨some path, count + 1⟩)) := by
  have hold := hfollows.stream fd
  rw [hstream] at hold
  refine follows_update ?_ hfollows ?_ ?_ (Or.inl rfl)
  · simp only [hprocess]
    exact hfollows.consistent
  · refine ⟨?_, ?_, ?_⟩
    · simp only [htelldir, hold.1]
      rw [Nat.min_eq_right hcount, Nat.min_eq_right (Nat.le_succ_of_le hcount)]
    · simp only [hprocess]
      exact hold.2.1
    · simp only [hprocess]
      exact hold.2.2
  · intro fd' _
    simp only [hprocess, htelldir]
    exact ⟨trivial, trivial, id⟩

/-- `readdir` on a stream of the mount point. -/
theorem readdir_spec (hfollows : Follows dirs s streams)
    (hstream : streams fd = some ⟨some path, count⟩)
    (hunmixed : s.toRead = true ∨ s.oriBuf.head? = some path) :
    ∃ s', (s.load dirs path).readEntry fd (min count (entries dirs path).length) =
        some ((entries dirs path)[count]?, s') ∧
      Follows dirs s' (Function.update streams fd (some ⟨some path, count + 1⟩)) := by
  obtain ⟨hprocess, htelldir⟩ := load_process dirs s path
  cases hdir : dirs path with
  | none =>
      have hentries : entries dirs path = [] := by rw [entries, hdir]
      have hend : ((s.load dirs path).nEnt + 1) % 2 ^ 32 ≤
          min count (entries dirs path).length := by
        rw [nEnt_load hfollows hdir hunmixed]
        exact Nat.zero_le _
      refine ⟨_, (readEntry_of_le hend).trans ?_, follows_end hfollows hstream hprocess htelldir ?_⟩
      · rw [hentries, List.getElem?_nil]
      · rw [hentries]
        exact Nat.zero_le count
  | some content =>
      have hholds := holds_load hfollows hdir hunmixed
      by_cases hcount : count < (entries dirs path).length
      · rw [Nat.min_eq_left hcount.le]
        exact ⟨_, readEntry_of_holds hdir hholds hcount,
          follows_seekdir hfollows hstream hprocess htelldir hdir hholds
            (Nat.min_eq_left hcount).symm⟩
      · rw [Nat.not_lt] at hcount
        have hend : ((s.load dirs path).nEnt + 1) % 2 ^ 32 ≤ (entries dirs path).length := by
          rw [hholds.nEnt, length_items, length_entries hdir]
          exact Nat.mod_le _ _
        rw [Nat.min_eq_right hcount, List.getElem?_eq_none hcount]
        exact ⟨_, readEntry_of_le hend, follows_end hfollows hstream hprocess htelldir hcount⟩

/-- The listing does not depend on the descriptors. -/
theorem Follows.listing_with (hfollows : Follows dirs s streams) (process : Process)
    (telldir : Int → Option Nat) :
    s.toRead = true ∨ ∃ path content, dirs path = some content ∧
      ({ s with process := process, telldir := telldir } : DirProcess).Holds path content := by
  rcases hfollows.listing with htoRead | ⟨path, content, hdir, hholds⟩
  · exact Or.inl htoRead
  · exact Or.inr ⟨path, content, hdir, hholds.toRead, hholds.oriBuf, hholds.nEnt,
      hholds.imssPathLen⟩

/-- A number that the kernel has not given out has no entry. -/
theorem mapFd_eq_none_of_free {p : Process} (hconsistent : p.Consistent) (hnonneg : 0 ≤ fd)
    (hfree : fd ∉ p.opened) : p.mapFd[fd]? = none := by
  rw [Option.eq_none_iff_forall_ne_some]
  intro entry hentry
  exact hfree (hconsistent.opened fd entry hentry hnonneg)

/-- A new stream on a descriptor that was free. -/
theorem follows_opendir (hfollows : Follows dirs s streams) {process : Process}
    (hopen : s.process.realOpen fd = some process) (hfd : fd ≠ -1) (path : HerculesPath) :
    Follows dirs { s.seekdir fd 0 with process := process.mapFdPut path.1 fd 0 }
      (Function.update streams fd (some ⟨some path.1, 0⟩)) := by
  have hconsistent := hfollows.consistent.realOpen hopen
  obtain ⟨hnonneg, hfree, rfl⟩ := (Process.realOpen_eq_some hopen).resolve_left fun h => hfd h.1
  have hpath : path.1 ≠ [] := by
    intro hnil
    have hprefix := path.2
    rw [hnil, List.prefix_nil] at hprefix
    cases hprefix
  have hnone := mapFd_eq_none_of_free hfollows.consistent hnonneg hfree
  refine follows_update ?_ hfollows ?_ ?_ (hfollows.listing_with _ _)
  · exact hconsistent.1.mapFdPut hconsistent.2 hpath
  · refine ⟨?_, ?_, List.mem_cons_self⟩
    · simp only [seekdir, Function.update_self, Nat.zero_min]
    · rw [Process.getElem?_mapFdPut, if_pos ⟨rfl, hnone⟩]
  · intro fd' hne
    refine ⟨Function.update_of_ne hne _ _, ?_, List.mem_cons_of_mem fd⟩
    rw [Process.getElem?_mapFdPut, if_neg fun h => hne h.1.symm]

theorem follows_opendirReal (hfollows : Follows dirs s streams) {process : Process}
    (hopen : s.process.realOpen fd = some process) (hfd : fd ≠ -1) :
    Follows dirs { s.seekdir fd 0 with process := process }
      (Function.update streams fd (some ⟨none, 0⟩)) := by
  have hconsistent := hfollows.consistent.realOpen hopen
  obtain ⟨hnonneg, hfree, rfl⟩ := (Process.realOpen_eq_some hopen).resolve_left fun h => hfd h.1
  have hnone := mapFd_eq_none_of_free hfollows.consistent hnonneg hfree
  refine follows_update hconsistent.1 hfollows ?_ ?_ (hfollows.listing_with _ _)
  · refine ⟨?_, hnone, List.mem_cons_self⟩
    simp only [seekdir, Function.update_self, Option.isSome_some]
  · intro fd' hne
    exact ⟨Function.update_of_ne hne _ _, rfl, List.mem_cons_of_mem fd⟩

theorem mapFd_realClose (p : Process) (fd : Int) : (p.realClose fd).2.mapFd = p.mapFd := by
  rw [Process.realClose]
  split <;> rfl

theorem mem_opened_realClose {p : Process} {fd fd' : Int} (hne : fd' ≠ fd) (hfd : fd' ∈ p.opened) :
    fd' ∈ (p.realClose fd).2.opened := by
  rw [Process.realClose]
  split
  · simp only [List.mem_filter, decide_eq_true_eq]
    exact ⟨hfd, hne⟩
  · exact hfd

theorem follows_closedir (hfollows : Follows dirs s streams) (nEnt : Nat) :
    Follows dirs
      { s with
        process := ((s.process.mapFdErase fd).realClose fd).2
        telldir := Function.update s.telldir fd none
        toRead := true
        nEnt := nEnt }
      (Function.update streams fd none) := by
  have herase : ∀ fd', (s.process.mapFdErase fd).mapFd[fd']? =
      if fd' = fd then none else s.process.mapFd[fd']? := by
    intro fd'
    rw [Process.mapFdErase, ExtTreeMap.getElem?_erase]
    refine if_congr ⟨fun heq => (LawfulEqCmp.eq_of_compare heq).symm, ?_⟩ rfl rfl
    rintro rfl
    exact ReflCmp.compare_self
  refine follows_update ?_ hfollows ?_ ?_ (Or.inl rfl)
  · exact (hfollows.consistent.mapFdErase fd).realClose (by rw [herase, if_pos rfl])
  · exact Function.update_self fd none s.telldir
  · intro fd' hne
    refine ⟨Function.update_of_ne hne _ _, ?_, fun hmem => mem_opened_realClose hne hmem⟩
    simp only [mapFd_realClose]
    rw [herase, if_neg hne]

theorem follows_closedirReal (hfollows : Follows dirs s streams)
    (hnone : s.process.mapFd[fd]? = none) :
    Follows dirs
      { s with
        process := (s.process.realClose fd).2
        telldir := Function.update s.telldir fd none }
      (Function.update streams fd none) := by
  refine follows_update (hfollows.consistent.realClose hnone) hfollows ?_ ?_
    (hfollows.listing_with _ _)
  · exact Function.update_self fd none s.telldir
  · intro fd' hne
    refine ⟨Function.update_of_ne hne _ _, ?_, fun hmem => mem_opened_realClose hne hmem⟩
    simp only [mapFd_realClose]

theorem searchByVal_of_none {p : Process} (hnone : p.mapFd[fd]? = none) :
    p.mapFdSearchByVal fd = [] := by
  rw [Process.mapFdSearchByVal, hnone]
  rfl

/-- A stream of the real library has a position and no path. -/
theorem Follows.of_real (hfollows : Follows dirs s streams)
    (hfd : streams fd = some ⟨none, count⟩) :
    (∃ pos, s.telldir fd = some pos) ∧ s.process.mapFdSearchByVal fd = [] := by
  have hstream := hfollows.stream fd
  rw [hfd] at hstream
  exact ⟨Option.isSome_iff_exists.mp hstream.1, searchByVal_of_none hstream.2.1⟩

/-- A stream of a directory has a position and its path. -/
theorem Follows.of_path (hfollows : Follows dirs s streams)
    (hfd : streams fd = some ⟨some path, count⟩) :
    s.telldir fd = some (min count (entries dirs path).length) ∧
      s.process.mapFdSearchByVal fd = path ∧ path ≠ [] := by
  have hstream := hfollows.stream fd
  rw [hfd] at hstream
  obtain ⟨htelldir, hentry, -⟩ := hstream
  exact ⟨htelldir, Process.mapFdSearchByVal_of_entry hentry,
    hfollows.consistent.path_ne fd _ hentry⟩

theorem Follows.of_none (hfollows : Follows dirs s streams) (hfd : streams fd = none) :
    s.telldir fd = none := by
  have hstream := hfollows.stream fd
  rwa [hfd] at hstream

theorem readdir_call_spec (hfollows : Follows dirs s streams) (hunmixed : s.Unmixed (.readdir fd))
    {output : DirOutput} (hcall : s.call dirs (.readdir fd) = some (output, s')) :
    output = streams.output dirs (.readdir fd) ∧ Follows dirs s' (streams.next (.readdir fd)) := by
  rw [call] at hcall
  simp only [DirStreams.output, DirStreams.next]
  match hfd : streams fd with
  | none =>
      rw [hfollows.of_none hfd] at hcall
      cases hcall
  | some ⟨none, count⟩ =>
      obtain ⟨⟨pos, hpos⟩, hsearch⟩ := hfollows.of_real hfd
      rw [hpos, Option.bind_some] at hcall
      simp only [hsearch, if_true] at hcall
      obtain ⟨rfl, rfl⟩ := Prod.mk.inj (Option.some.inj hcall)
      have hstream := hfollows.stream fd
      rw [hfd] at hstream
      exact ⟨rfl, follows_update hfollows.consistent hfollows hstream
        (fun fd' _ => ⟨rfl, rfl, id⟩) hfollows.listing⟩
  | some ⟨some path, count⟩ =>
      obtain ⟨hpos, hsearch, hne⟩ := hfollows.of_path hfd
      rw [DirProcess.Unmixed, hsearch] at hunmixed
      obtain ⟨next, hread, hnext⟩ := readdir_spec hfollows hfd (hunmixed.resolve_left hne)
      rw [hpos, Option.bind_some] at hcall
      simp only [hsearch, if_neg hne, hread, Option.map_some] at hcall
      obtain ⟨rfl, rfl⟩ := Prod.mk.inj (Option.some.inj hcall)
      exact ⟨rfl, hnext⟩

theorem closedir_call_spec (hfollows : Follows dirs s streams) {output : DirOutput}
    (hcall : s.call dirs (.closedir fd) = some (output, s')) :
    output = streams.output dirs (.closedir fd) ∧
      Follows dirs s' (streams.next (.closedir fd)) := by
  rw [call] at hcall
  simp only [DirStreams.output, DirStreams.next]
  match hfd : streams fd with
  | none =>
      rw [hfollows.of_none hfd] at hcall
      cases hcall
  | some ⟨none, count⟩ =>
      obtain ⟨⟨pos, hpos⟩, hsearch⟩ := hfollows.of_real hfd
      rw [hpos, Option.bind_some] at hcall
      simp only [hsearch, if_true] at hcall
      obtain ⟨rfl, rfl⟩ := Prod.mk.inj (Option.some.inj hcall)
      have hstream := hfollows.stream fd
      rw [hfd] at hstream
      exact ⟨rfl, follows_closedirReal hfollows hstream.2.1⟩
  | some ⟨some path, count⟩ =>
      obtain ⟨hpos, hsearch, hne⟩ := hfollows.of_path hfd
      rw [hpos, Option.bind_some] at hcall
      simp only [hsearch, if_neg hne] at hcall
      obtain ⟨rfl, rfl⟩ := Prod.mk.inj (Option.some.inj hcall)
      exact ⟨rfl, follows_closedir hfollows 0⟩

/-- The result of a call is that of independent streams, and the streams go on like these. -/
theorem call_spec (hfollows : Follows dirs s streams) {c : DirCall} (hunmixed : s.Unmixed c)
    {output : DirOutput} (hcall : s.call dirs c = some (output, s')) :
    output = streams.output dirs c ∧ Follows dirs s' (streams.next c) := by
  cases c with
  | opendir path fd =>
      rw [call] at hcall
      split at hcall
      next => cases hcall
      next hfd =>
        obtain ⟨process, hopen, heq⟩ := Option.map_eq_some_iff.mp hcall
        obtain ⟨rfl, rfl⟩ := Prod.mk.inj heq
        exact ⟨rfl, follows_opendir hfollows hopen hfd path⟩
  | opendirReal fd =>
      rw [call] at hcall
      split at hcall
      next => cases hcall
      next hfd =>
        obtain ⟨process, hopen, heq⟩ := Option.map_eq_some_iff.mp hcall
        obtain ⟨rfl, rfl⟩ := Prod.mk.inj heq
        exact ⟨rfl, follows_opendirReal hfollows hopen hfd⟩
  | readdir fd => exact readdir_call_spec hfollows hunmixed hcall
  | closedir fd => exact closedir_call_spec hfollows hcall

end DirProcess

/-- In a run in which no stream meets the listing of another directory, every call returns what it
returns if the streams are independent of each other. -/
theorem dirStreams_independent (dirs : Directories) {process : Process}
    (hconsistent : process.Consistent) {calls : List DirCall}
    (hunmixed : Along (DirProcess.step dirs) DirProcess.Unmixed calls (.start process))
    {before after : List DirCall} {c : DirCall} (hcalls : calls = before ++ c :: after)
    {s s' : DirProcess} {output : DirOutput}
    (hrun : run (DirProcess.step dirs) before (.start process) = some s)
    (hcall : s.call dirs c = some (output, s')) :
    output = (before.foldl DirStreams.next fun _ => none).output dirs c := by
  subst hcalls
  have hstep : ∀ (s : DirProcess) (c : DirCall) (s' : DirProcess) (streams : DirStreams),
      DirProcess.Follows dirs s streams → s.Unmixed c → s.step dirs c = some s' →
        DirProcess.Follows dirs s' (streams.next c) := by
    intro s c s' streams hfollows hunmixed hnext
    obtain ⟨⟨output, s''⟩, hcall, rfl⟩ := Option.map_eq_some_iff.mp hnext
    exact (DirProcess.call_spec hfollows hunmixed hcall).2
  have hfollows := Along.simulation hstep hunmixed.of_append
    (DirProcess.follows_start hconsistent) hrun
  exact (DirProcess.call_spec hfollows (hunmixed.apply hrun) hcall).1

instance (s : DirProcess) (c : DirCall) : Decidable (s.Unmixed c) :=
  match c with
  | .opendir _ _ => isTrue trivial
  | .opendirReal _ => isTrue trivial
  | .readdir _ => inferInstanceAs (Decidable (_ ∨ _ ∨ _))
  | .closedir _ => isTrue trivial

theorem single_length_lt (token : CString) : [token].length + 2 < 2 ^ 32 := by
  simp

/-- The directories `imss://a` and `imss://b` with one file in each. -/
def twoDirectories : Directories := fun path =>
  if path = "imss://a".toList then some ⟨[['x']], single_length_lt _⟩
  else if path = "imss://b".toList then some ⟨[['y']], single_length_lt _⟩
  else none

/-- A process with the three standard descriptors. -/
def freshProcess : Process :=
  ⟨∅, [0, 1, 2]⟩

theorem consistent_freshProcess : freshProcess.Consistent := by
  constructor <;> intro fd entry hentry <;>
    simp [freshProcess] at hentry

/-- `opendir` of a directory below the root. -/
def opendirOf (name : CString) (fd : Int) : DirCall :=
  .opendir ⟨imssRoot ++ name, List.prefix_append _ _⟩ fd

/-- Three streams: the first one is read to the end, with a stream outside the mount point read in
between, before the second one is read. -/
def callsInTurn : List DirCall :=
  [opendirOf ['a'] 3, opendirOf ['b'] 4, .opendirReal 5, .readdir 3, .readdir 5, .readdir 3,
    .readdir 3, .readdir 5, .readdir 3, .readdir 4, .readdir 4]

theorem dirStreams_independent_in_turn :
    ∃ s output s',
      run (DirProcess.step twoDirectories) callsInTurn (.start freshProcess) = some s ∧
        s.call twoDirectories (.readdir 4) = some (output, s') ∧
        output = .entry (some ⟨['y'], .regular⟩) := by
  have hcalled : ((run (DirProcess.step twoDirectories) callsInTurn (.start freshProcess)).bind
      fun s => s.call twoDirectories (.readdir 4)).isSome = true := by decide +kernel
  obtain ⟨⟨output, s'⟩, hbind⟩ := Option.isSome_iff_exists.mp hcalled
  obtain ⟨s, hrun, hcall⟩ := Option.bind_eq_some_iff.mp hbind
  refine ⟨s, output, s', hrun, hcall, ?_⟩
  have hunmixed : Along (DirProcess.step twoDirectories) DirProcess.Unmixed
      (callsInTurn ++ [.readdir 4]) (.start freshProcess) := by decide +kernel
  rw [dirStreams_independent twoDirectories consistent_freshProcess hunmixed rfl hrun hcall]
  decide

/-- Both streams are read in turn: the second one yields the file of the first directory. -/
theorem not_dirStreams_independent :
    ((run (DirProcess.step twoDirectories)
        [opendirOf ['a'] 3, opendirOf ['b'] 4, .readdir 3, .readdir 4, .readdir 4]
        (.start freshProcess)).bind fun s =>
          (s.call twoDirectories (.readdir 4)).map Prod.fst) =
        some (.entry (some ⟨['x'], .regular⟩)) ∧
      ([opendirOf ['a'] 3, opendirOf ['b'] 4, .readdir 3, .readdir 4, .readdir 4].foldl
          DirStreams.next fun _ => none).output twoDirectories (.readdir 4) =
        .entry (some ⟨['y'], .regular⟩) := by
  exact ⟨by decide +kernel, by decide⟩

end Client

end Hercules
