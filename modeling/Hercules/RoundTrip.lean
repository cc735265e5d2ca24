/-
# Requests and what the servers take them for

Every request is printed by one function and parsed by another. Here both sides are
put together: for each request of the clients it is said exactly when the server
gets back the fields that went into it. A blank in a name ends the name early, a
comma in the old name of a rename takes the place of the separator, a second `$`
does so in the requests that the server cuts at the first one, and some fields are
read from another place than they are printed to.
-/

import Hercules.Server.MetadataRequests

namespace Hercules

open Lib Lib.Text

/-! ## Metadata servers -/

namespace StatOp

/-- The requests that arrive as they were meant. -/
def Faithful : StatOp → Prop
  | .rename operation old new | .renameDirDir operation old new =>
      operation < 2 ^ 32 ∧ IsWord old ∧ IsWord new ∧ ',' ∉ old ∧
        (old ++ ',' :: new).length < 256
  | .set operation size uri none =>
      operation < 2 ^ 32 ∧ IsWord uri ∧ uri.length < 256 ∧ size < 2 ^ 31
  | .set operation size uri (some status) =>
      operation < 2 ^ 32 ∧ IsWord uri ∧ uri.length < 256 ∧ size < 10 ^ 15 ∧
        -2 ^ 31 ≤ status ∧ status < 2 ^ 31
  | .read operation uri | .getdir operation uri | .delete operation uri | .close operation uri
  | .openDataset operation uri | .performance operation uri =>
      operation < 2 ^ 32 ∧ IsWord uri ∧ uri.length < 256

end StatOp

theorem ne_nil_of_root {name : CString} (h : imssRoot <+: name) : name ≠ [] := by
  rintro rfl
  simp [imssRoot] at h

theorem isWord_names {old new : CString} (hold : IsWord old) (hnew : IsWord new) :
    IsWord (old ++ ',' :: new) :=
  hold.append (IsWord.append (w := [',']) (by decide) hnew)

theorem length_decimal_lt {number : Nat} : (decimal number).length < 16 ↔ number < 10 ^ 15 := by
  rw [Nat.lt_succ_iff]
  exact Nat.length_toDigits_le_iff (by decide) (by decide)

section Stat

variable {operation number : Nat} {mode uri rest : CString}

/-- A printed request with a name of one word is taken for what its fields say. -/
theorem parseStat_print (hmode : IsWord mode) (hmodeNe : mode ≠ []) (hmodeLt : mode.length < 24)
    (huri : IsWord uri) (huriNe : uri ≠ []) (hrest : EndsField rest) :
    parseStat (printStatRequest operation mode number uri rest) =
      if number < 10 ^ 15 ∧ uri.length < 256 then
        ScannedStatRequest.op ⟨operation % 2 ^ 32, mode, decimal number, uri,
          rest.dropWhile isSpace⟩
      else none := by
  rw [parseStat, scanStatRequest_print hmode hmodeNe huri huriNe hrest, Option.bind_some]
  simp only [ScannedStatRequest.Fits, hmodeLt, length_decimal_lt, true_and]

/-- The requests with one name and a fixed number. -/
theorem parseStat_single_iff {make : Nat → CString → StatOp} (hmode : IsWord mode)
    (hmodeNe : mode ≠ []) (hmodeLt : mode.length < 24) (hnumber : number < 10 ^ 15)
    (hop : ∀ operation uri, ScannedStatRequest.op ⟨operation, mode, decimal number, uri, []⟩ =
      some (make operation uri))
    (hinj : ∀ operation operation' uri, make operation uri = make operation' uri →
      operation = operation')
    (hnames : (make operation uri).names = [uri]) (huri : imssRoot <+: uri) :
    parseStat (printStatRequest operation mode number uri []) = some (make operation uri) ↔
      operation < 2 ^ 32 ∧ IsWord uri ∧ uri.length < 256 := by
  constructor
  · intro hparse
    have hword : IsWord uri := isWord_of_parseStat hparse uri (by simp [hnames])
    rw [parseStat_print hmode hmodeNe hmodeLt hword (ne_nil_of_root huri) endsField_nil] at hparse
    split at hparse
    next hfits =>
      rw [List.dropWhile_nil, hop, Option.some.injEq] at hparse
      exact ⟨(Nat.mod_eq_iff_lt (by decide)).mp (hinj _ _ _ hparse), hword, hfits.2⟩
    next => cases hparse
  · rintro ⟨hoperation, hword, hlength⟩
    rw [parseStat_print hmode hmodeNe hmodeLt hword (ne_nil_of_root huri) endsField_nil,
      if_pos ⟨hnumber, hlength⟩, List.dropWhile_nil, hop, Nat.mod_eq_of_lt hoperation]

/-- The requests with two names. -/
theorem parseStat_pair_iff {make : Nat → CString → CString → StatOp} {old new : CString}
    (hnumber : number < 10 ^ 15)
    (hop : ∀ operation uri, ScannedStatRequest.op ⟨operation, ['G', 'E', 'T'], decimal number, uri,
      []⟩ = (DataServer.splitNames uri).map fun names => make operation names.1 names.2)
    (hinj : ∀ operation operation' old' new', make operation' old' new' = make operation old new →
      operation' = operation ∧ old' = old)
    (hnames : (make operation old new).names = [old, new]) :
    parseStat (printStatRequest operation ['G', 'E', 'T'] number (old ++ ',' :: new) []) =
        some (make operation old new) ↔
      operation < 2 ^ 32 ∧ IsWord old ∧ IsWord new ∧ ',' ∉ old ∧
        (old ++ ',' :: new).length < 256 := by
  constructor
  · intro hparse
    have hwordOld : IsWord old := isWord_of_parseStat hparse old (by simp [hnames])
    have hwordNew : IsWord new := isWord_of_parseStat hparse new (by simp [hnames])
    rw [parseStat_print (by decide) (by decide) (by decide) (isWord_names hwordOld hwordNew)
      (by simp) endsField_nil] at hparse
    split at hparse
    next hfits =>
      rw [List.dropWhile_nil, hop, Option.map_eq_some_iff] at hparse
      obtain ⟨⟨old', new'⟩, hsplit, hmake⟩ := hparse
      obtain ⟨hoperation, rfl⟩ := hinj _ _ _ _ hmake
      exact ⟨(Nat.mod_eq_iff_lt (by decide)).mp hoperation, hwordOld, hwordNew,
        (DataServer.splitNames_eq_some hsplit).2, hfits.2⟩
    next => cases hparse
  · rintro ⟨hoperation, hwordOld, hwordNew, hcomma, hlength⟩
    rw [parseStat_print (by decide) (by decide) (by decide) (isWord_names hwordOld hwordNew)
      (by simp) endsField_nil, if_pos ⟨hnumber, hlength⟩, List.dropWhile_nil, hop,
      DataServer.splitNames_of_notMem hcomma, Nat.mod_eq_of_lt hoperation]
    rfl

end Stat

/-- A size that `atoi` reads from at most 15 digits. -/
theorem atoi_decimal_iff {size : Nat} (hsize : size < 10 ^ 15) :
    (atoi (decimal size) % 2 ^ 64).toNat = size ↔ size < 2 ^ 31 := by
  rw [atoi, atol_decimal]
  constructor
  · intro heq
    have hle := le_int32 size
    have hlt := int32_lt size
    omega
  · intro hlt
    rw [int32_of_fits (by omega) (by omega)]
    omega

theorem int32_eq_self_iff (n : Int) : int32 n = n ↔ -2 ^ 31 ≤ n ∧ n < 2 ^ 31 := by
  constructor
  · intro heq
    rw [← heq]
    exact ⟨le_int32 n, int32_lt n⟩
  · rintro ⟨hlower, hupper⟩
    exact int32_of_fits hlower hupper

theorem op_set {operation : Nat} {number uri rest : CString} :
    ScannedStatRequest.op ⟨operation, ['S', 'E', 'T'], number, uri, rest⟩ =
      some (ScannedStatRequest.setOp ⟨operation, ['S', 'E', 'T'], number, uri, rest⟩) := rfl

theorem parseStat_set {operation size : Nat} {uri : CString} (huri : IsWord uri)
    (hne : uri ≠ []) (status : Option Int) :
    parseStat (StatOp.set operation size uri status).print =
      if size < 10 ^ 15 ∧ uri.length < 256 then
        match status with
        | none => some (.set (operation % 2 ^ 32) (atoi (decimal size) % 2 ^ 64).toNat uri none)
        | some status => some (.set (operation % 2 ^ 32) ((size : Int) % 2 ^ 64).toNat uri
            (some (int32 status)))
      else none := by
  cases status with
  | none =>
      rw [StatOp.print, parseStat_print (by decide) (by decide) (by decide) huri hne endsField_nil,
        op_set, ScannedStatRequest.setOp, List.dropWhile_nil, if_pos rfl]
  | some status =>
      have hrest : (' ' :: decimal status).dropWhile isSpace = decimal status := by
        rw [List.dropWhile_cons_of_pos (by decide), dropWhile_decimal]
      rw [StatOp.print, parseStat_print (by decide) (by decide) (by decide) huri hne
        (endsField_space _), hrest, op_set, ScannedStatRequest.setOp,
        if_neg (decimal_ne_nil status), atol_decimal, atoi, atol_decimal]

theorem parseStat_set_iff {operation size : Nat} {uri : CString} (huri : imssRoot <+: uri)
    (status : Option Int) :
    parseStat (StatOp.set operation size uri status).print = some (.set operation size uri status) ↔
      (StatOp.set operation size uri status).Faithful := by
  have hne := ne_nil_of_root huri
  by_cases hword : IsWord uri
  · rw [parseStat_set hword hne]
    by_cases hfits : size < 10 ^ 15 ∧ uri.length < 256
    · rw [if_pos hfits]
      cases status with
      | none =>
          simp only [Option.some.injEq, StatOp.set.injEq, and_true, StatOp.Faithful,
            Nat.mod_eq_iff_lt (show 2 ^ 32 ≠ 0 by decide), atoi_decimal_iff hfits.1, hword, hfits.2,
            true_and]
      | some status =>
          have hsize : ((size : Int) % 2 ^ 64).toNat = size := by
            obtain ⟨hlt, -⟩ := hfits
            omega
          simp only [Option.some.injEq, StatOp.set.injEq, StatOp.Faithful,
            Nat.mod_eq_iff_lt (show 2 ^ 32 ≠ 0 by decide), hsize, int32_eq_self_iff, hword, hfits,
            true_and]
    · rw [if_neg hfits]
      refine iff_of_false (by simp) fun hfaithful => hfits ?_
      cases status with
      | none =>
          obtain ⟨-, -, hlength, hsize⟩ := hfaithful
          exact ⟨by omega, hlength⟩
      | some status =>
          obtain ⟨-, -, hlength, hsize, -⟩ := hfaithful
          exact ⟨hsize, hlength⟩
  · refine iff_of_false (fun hparse => hword ?_) fun hfaithful => hword ?_
    · exact isWord_of_parseStat hparse uri (by simp [StatOp.names])
    · cases status <;> exact hfaithful.2.1

/-- When a metadata server takes a request for what it was meant to be. -/
theorem parseStat_print_iff (op : StatOp) (hnames : ∀ name ∈ op.names, imssRoot <+: name) :
    parseStat op.print = some op ↔ op.Faithful := by
  cases op with
  | read operation uri =>
      exact parseStat_single_iff (by decide) (by decide) (by decide) (by decide) (fun _ _ => rfl)
        (fun _ _ _ h => (StatOp.read.inj h).1) rfl (hnames uri (List.mem_singleton_self uri))
  | getdir operation uri =>
      exact parseStat_single_iff (by decide) (by decide) (by decide) (by decide) (fun _ _ => rfl)
        (fun _ _ _ h => (StatOp.getdir.inj h).1) rfl (hnames uri (List.mem_singleton_self uri))
  | delete operation uri =>
      exact parseStat_single_iff (by decide) (by decide) (by decide) (by decide) (fun _ _ => rfl)
        (fun _ _ _ h => (StatOp.delete.inj h).1) rfl (hnames uri (List.mem_singleton_self uri))
  | close operation uri =>
      exact parseStat_single_iff (by decide) (by decide) (by decide) (by decide) (fun _ _ => rfl)
        (fun _ _ _ h => (StatOp.close.inj h).1) rfl (hnames uri (List.mem_singleton_self uri))
  | openDataset operation uri =>
      exact parseStat_single_iff (by decide) (by decide) (by decide) (by decide) (fun _ _ => rfl)
        (fun _ _ _ h => (StatOp.openDataset.inj h).1) rfl (hnames uri (List.mem_singleton_self uri))
  | performance operation uri =>
      exact parseStat_single_iff (by decide) (by decide) (by decide) (by decide) (fun _ _ => rfl)
        (fun _ _ _ h => (StatOp.performance.inj h).1) rfl (hnames uri (List.mem_singleton_self uri))
  | rename operation old new =>
      exact parseStat_pair_iff (by decide) (fun _ _ => rfl)
        (fun _ _ _ _ h => ⟨(StatOp.rename.inj h).1, (StatOp.rename.inj h).2.1⟩) rfl
  | renameDirDir operation old new =>
      exact parseStat_pair_iff (by decide) (fun _ _ => rfl)
        (fun _ _ _ _ h => ⟨(StatOp.renameDirDir.inj h).1, (StatOp.renameDirDir.inj h).2.1⟩) rfl
  | set operation size uri status =>
      exact parseStat_set_iff (hnames uri (List.mem_singleton_self uri)) status

/-! ## Data servers -/

/-- A request to a data server. A `key` is a URI with a block number; the split
operations name a path and send the block numbers in a message of their own. -/
inductive DataOp
  | set (size offset : Nat) (key : CString)
  | localSet (size offset : Nat) (shmId : Int) (key : CString)
  | read (offset : Nat) (key : CString) (toRead : Nat)
  | localRead (offset : Nat) (shmId : Int) (key : CString) (toRead : Nat)
  | delete (uri : CString)
  | rename (old new : CString)
  | renameDirDir (old new : CString)
  | unlink (key : CString) (numOpened : Int)
  | prefetch (shared : Bool) (uri : CString) (block : Int) (size : Nat)
  | readv (uri : CString) (currBlock endBlock blockSize startOffset size : Int)
  | splitReadv (path : CString) (blockSize startOffset statsSize msgLength : Int)
  | splitWritev (entitySize : Nat) (path : CString) (blockSize startOffset statsSize : Int)
      (msg : CString)
  deriving DecidableEq

/-- The variables filled by the scan of a request for shared memory. -/
structure ScannedLocalRequest extends ScannedRequest where
  shmKey : Int

/-- The `sscanf` of `srv_worker_helper` for `LOCALGETBLOCK` and `LOCALSETBLOCK`. -/
def scanLocalRequest (req : CString) : Option ScannedLocalRequest := do
  let (mode, req) ← scanWord req
  let (blockSizeRecv, req) ← scanInt req
  let (blockOffset, req) ← scanInt req
  let (shmKey, req) ← scanInt req
  let (uri, req) ← scanWord req
  let toRead := ((scanInt req).map Prod.fst).getD 0
  return ⟨⟨mode, (blockSizeRecv % 2 ^ 32).toNat, (blockOffset % 2 ^ 32).toNat, uri,
    (toRead % 2 ^ 64).toNat⟩, int32 shmKey⟩

namespace ScannedRequest

/-- The words fit `mode[MODE_SIZE]` and `uri_[URI_]`. -/
def Fits (scanned : ScannedRequest) : Prop :=
  scanned.mode.length < 24 ∧ scanned.uri.length < 256

instance (scanned : ScannedRequest) : Decidable scanned.Fits :=
  inferInstanceAs (Decidable (_ ∧ _))

/-- `READV`. The server cuts the key at blanks to get the other numbers, but the scan
has ended the key at the first blank: `find` gives `npos`, `npos + 1` is 0, and every
number is read from the same place. -/
def readv (scanned : ScannedRequest) : Option DataOp :=
  match fromOn '$' scanned.uri with
  | [] => none
  | _ :: rest => (stoi rest).map fun n => .readv (upTo '$' scanned.uri) n n n n n

/-- `READV2_OP`; `stoul` gives a `uint32_t`. -/
def prefetch (scanned : ScannedRequest) (shared : Bool) : Option DataOp :=
  match fromOn '$' scanned.uri with
  | [] => none
  | _ :: rest => (scanInt rest).map fun result =>
      .prefetch shared (upTo '$' scanned.uri) (result.1 % 2 ^ 32) scanned.toRead

/-- The request that the server takes the fields for. `SPLIT_READV` does nothing with
a key that has no blank. -/
def op (scanned : ScannedRequest) : Option DataOp :=
  if scanned.mode = ['S', 'E', 'T'] then
    some (.set scanned.blockSizeRecv scanned.blockOffset scanned.uri)
  else if scanned.mode = ['G', 'E', 'T'] then
    match scanned.blockSizeRecv with
    | 0 => some (.read scanned.blockOffset scanned.uri scanned.toRead)
    | 4 => some (.delete scanned.uri)
    | 5 => (DataServer.splitNames scanned.uri).map fun names => .rename names.1 names.2
    | 6 => (DataServer.splitNames scanned.uri).map fun names => .renameDirDir names.1 names.2
    | 8 => scanned.readv
    | 11 => scanned.prefetch false
    | 12 => some (.unlink scanned.uri (int32 scanned.blockOffset))
    | _ => none
  else if scanned.mode = "LOCALGET".toList ∧ scanned.blockSizeRecv = 11 then scanned.prefetch true
  else none

end ScannedRequest

/-- `LOCALSETBLOCK` and `LOCALGETBLOCK`. -/
def ScannedLocalRequest.op (scanned : ScannedLocalRequest) : Option DataOp :=
  if scanned.mode = "LOCALSETBLOCK".toList then
    some (.localSet scanned.blockSizeRecv scanned.blockOffset scanned.shmKey scanned.uri)
  else if scanned.blockSizeRecv = 0 then
    some (.localRead scanned.blockOffset scanned.shmKey scanned.uri scanned.toRead)
  else none

/-- The modes that are scanned with a shared memory identifier. -/
def isLocalMode (mode : CString) : Bool :=
  mode = "LOCALSETBLOCK".toList || mode = "LOCALGETBLOCK".toList

/-- What a data server takes a text for. -/
def parseData (req : CString) : Option DataOp :=
  (scanWord req).bind fun word =>
    if isLocalMode word.1 then
      (scanLocalRequest req).bind fun scanned => if scanned.Fits then scanned.op else none
    else (scanRequest req).bind fun scanned => if scanned.Fits then scanned.op else none

/-- The layout of the requests for shared memory. -/
def printLocalRequest (mode : CString) (number offset : Nat) (shmId : Int) (key rest : CString) :
    CString :=
  mode ++ ' ' :: (decimal number ++ ' ' :: (decimal offset ++ ' ' :: (decimal shmId ++
    ' ' :: (key ++ rest))))

namespace DataOp

/-- The text of a request: `set_data`, `get_ndata`, `delete_dataset_srv_worker`,
`rename_dataset_srv_worker`, `rename_dataset_srv_worker_dir_dir`, `unlink_dataset`,
`get_ndata_prefetch`, `readv_multiple`, `split_readv` and `split_writev`. -/
def print : DataOp → CString
  | .set size offset key => printRequest ['S', 'E', 'T'] size offset key []
  | .localSet size offset shmId key =>
      printLocalRequest "LOCALSETBLOCK".toList size offset shmId key []
  | .read offset key toRead =>
      printRequest ['G', 'E', 'T'] 0 offset key (' ' :: decimal toRead)
  | .localRead offset shmId key toRead =>
      printLocalRequest "LOCALGETBLOCK".toList 0 offset shmId key (' ' :: decimal toRead)
  | .delete uri => printRequest ['G', 'E', 'T'] 4 0 uri []
  | .rename old new => printRequest ['G', 'E', 'T'] 5 0 (old ++ ',' :: new) []
  | .renameDirDir old new => printRequest ['G', 'E', 'T'] 6 0 (old ++ ',' :: new) []
  | .unlink key numOpened => printRequest ['G', 'E', 'T'] 12 0 key (' ' :: decimal numOpened)
  | .prefetch shared uri block size =>
      printRequest (if shared then "LOCALGET".toList else ['G', 'E', 'T']) 11 0
        (blockKey uri block) (' ' :: decimal size)
  | .readv uri currBlock endBlock blockSize startOffset size =>
      printRequest ['G', 'E', 'T'] 8 0 (blockKey uri currBlock) (' ' :: (decimal endBlock ++
        ' ' :: (decimal blockSize ++ ' ' :: (decimal startOffset ++ ' ' :: decimal size))))
  | .splitReadv path blockSize startOffset statsSize msgLength =>
      printRequest ['G', 'E', 'T'] 9 0 path (' ' :: (decimal blockSize ++
        ' ' :: (decimal startOffset ++ ' ' :: (decimal statsSize ++ ' ' :: decimal msgLength))))
  | .splitWritev entitySize path blockSize startOffset statsSize msg =>
      printRequest ['S', 'E', 'T'] entitySize 0 "[OP]=2".toList (' ' :: (path ++
        ' ' :: (decimal blockSize ++ ' ' :: (decimal startOffset ++ ' ' :: (decimal statsSize ++
          ' ' :: msg)))))

/-- The names in a request. -/
def names : DataOp → List CString
  | .rename old new | .renameDirDir old new => [old, new]
  | .set _ _ key | .localSet _ _ _ key | .read _ key _ | .localRead _ _ key _ | .unlink key _ =>
      [key]
  | .delete uri | .prefetch _ uri _ _ | .readv uri _ _ _ _ _ => [uri]
  | .splitReadv path _ _ _ _ | .splitWritev _ path _ _ _ _ => [path]

/-- The requests that arrive as they were meant. -/
def Faithful : DataOp → Prop
  | .set size offset key =>
      IsWord key ∧ key.length < 256 ∧ size < 2 ^ 32 ∧ offset < 2 ^ 32
  | .localSet size offset shmId key =>
      IsWord key ∧ key.length < 256 ∧ size < 2 ^ 32 ∧ offset < 2 ^ 32 ∧
        -2 ^ 31 ≤ shmId ∧ shmId < 2 ^ 31
  | .read offset key toRead =>
      IsWord key ∧ key.length < 256 ∧ offset < 2 ^ 32 ∧ toRead < 2 ^ 64
  | .localRead offset shmId key toRead =>
      IsWord key ∧ key.length < 256 ∧ offset < 2 ^ 32 ∧ -2 ^ 31 ≤ shmId ∧ shmId < 2 ^ 31 ∧
        toRead < 2 ^ 64
  | .delete uri => IsWord uri ∧ uri.length < 256
  | .rename old new | .renameDirDir old new =>
      IsWord old ∧ IsWord new ∧ ',' ∉ old ∧ (old ++ ',' :: new).length < 256
  | .unlink key numOpened => IsWord key ∧ key.length < 256 ∧ numOpened = 0
  | .prefetch _ uri block size =>
      IsWord uri ∧ '$' ∉ uri ∧ (blockKey uri block).length < 256 ∧ 0 ≤ block ∧ block < 2 ^ 32 ∧
        size < 2 ^ 64
  | .readv uri currBlock endBlock blockSize startOffset size =>
      IsWord uri ∧ '$' ∉ uri ∧ (blockKey uri currBlock).length < 256 ∧
        (-2 ^ 31 ≤ currBlock ∧ currBlock < 2 ^ 31) ∧ endBlock = currBlock ∧
          blockSize = currBlock ∧ startOffset = currBlock ∧ size = currBlock
  | .splitReadv _ _ _ _ _ | .splitWritev _ _ _ _ _ _ => False

end DataOp

/-! ## Scanning what was printed -/

theorem isWord_upTo {text : CString} (h : IsWord text) (c : Char) : IsWord (upTo c text) := by
  rw [← upTo_append_fromOn c text, isWord_append_iff] at h
  exact h.1

theorem isWord_of_splitNames {key : CString} (h : IsWord key) {old new : CString}
    (hsplit : DataServer.splitNames key = some (old, new)) :
    ∀ name ∈ [old, new], IsWord name := by
  obtain ⟨rfl, -⟩ := DataServer.splitNames_eq_some hsplit
  rw [isWord_append_iff, ← List.singleton_append, isWord_append_iff] at h
  simp [h.1, h.2.2]

theorem ScannedRequest.isWord_of_op {scanned : ScannedRequest} (hword : IsWord scanned.uri)
    {op : DataOp} (h : scanned.op = some op) : ∀ name ∈ op.names, IsWord name := by
  have hprefetch : ∀ shared, scanned.prefetch shared = some op →
      ∀ name ∈ op.names, IsWord name := by
    intro shared hop
    rw [ScannedRequest.prefetch] at hop
    split at hop
    · cases hop
    · obtain ⟨n, -, rfl⟩ := Option.map_eq_some_iff.mp hop
      simpa [DataOp.names] using isWord_upTo hword '$'
  rw [ScannedRequest.op] at h
  split at h
  · cases h
    simpa [DataOp.names] using hword
  split at h
  · split at h
    · cases h
      simpa [DataOp.names] using hword
    · cases h
      simpa [DataOp.names] using hword
    · obtain ⟨⟨old, new⟩, hnames, rfl⟩ := Option.map_eq_some_iff.mp h
      exact isWord_of_splitNames hword hnames
    · obtain ⟨⟨old, new⟩, hnames, rfl⟩ := Option.map_eq_some_iff.mp h
      exact isWord_of_splitNames hword hnames
    · rw [ScannedRequest.readv] at h
      split at h
      · cases h
      · obtain ⟨n, -, rfl⟩ := Option.map_eq_some_iff.mp h
        simpa [DataOp.names] using isWord_upTo hword '$'
    · exact hprefetch false h
    · cases h
      simpa [DataOp.names] using hword
    · cases h
  split at h
  · exact hprefetch true h
  · cases h

theorem isWord_of_scanRequest {req : CString} {scanned : ScannedRequest}
    (h : scanRequest req = some scanned) : IsWord scanned.uri := by
  simp only [scanRequest, Option.bind_eq_bind, Option.bind_eq_some_iff, Option.pure_def,
    Option.some.injEq] at h
  obtain ⟨_, -, _, -, _, -, ⟨uri, rest⟩, huri, rfl⟩ := h
  exact isWord_of_scanWord huri

theorem isWord_of_scanLocalRequest {req : CString} {scanned : ScannedLocalRequest}
    (h : scanLocalRequest req = some scanned) : IsWord scanned.uri := by
  simp only [scanLocalRequest, Option.bind_eq_bind, Option.bind_eq_some_iff, Option.pure_def,
    Option.some.injEq] at h
  obtain ⟨_, -, _, -, _, -, _, -, ⟨uri, rest⟩, huri, rfl⟩ := h
  exact isWord_of_scanWord huri

/-- The names of a request that was parsed are words. -/
theorem isWord_of_parseData {req : CString} {op : DataOp} (h : parseData req = some op) :
    ∀ name ∈ op.names, IsWord name := by
  obtain ⟨word, -, hop⟩ := Option.bind_eq_some_iff.mp h
  split at hop
  · obtain ⟨scanned, hscan, hop⟩ := Option.bind_eq_some_iff.mp hop
    have hword := isWord_of_scanLocalRequest hscan
    split at hop
    next =>
      rw [ScannedLocalRequest.op] at hop
      split at hop
      · cases hop
        simpa [DataOp.names] using hword
      split at hop
      · cases hop
        simpa [DataOp.names] using hword
      · cases hop
    next => cases hop
  · obtain ⟨scanned, hscan, hop⟩ := Option.bind_eq_some_iff.mp hop
    split at hop
    next => exact ScannedRequest.isWord_of_op (isWord_of_scanRequest hscan) hop
    next => cases hop

section Data

variable {mode key rest : CString} {number offset : Nat} {op : DataOp}

/-- What is scanned from a printed request whose key is a word. -/
def scannedPrint (mode : CString) (number offset : Nat) (key rest : CString) : ScannedRequest :=
  ⟨mode, number % 2 ^ 32, offset % 2 ^ 32, key,
    (((scanInt rest).map Prod.fst).getD 0 % 2 ^ 64).toNat⟩

/-- A request that is read to the end if its key is a word that fits. -/
theorem parseData_eq_some_iff {text : CString} {scanned : Option DataOp}
    (hback : (∀ name ∈ op.names, IsWord name) → IsWord key)
    (hparse : IsWord key → parseData text = if key.length < 256 then scanned else none) :
    parseData text = some op ↔ IsWord key ∧ key.length < 256 ∧ scanned = some op := by
  constructor
  · intro hop
    have hword := hback (isWord_of_parseData hop)
    rw [hparse hword] at hop
    split at hop
    next hlength => exact ⟨hword, hlength, hop⟩
    next => cases hop
  · rintro ⟨hword, hlength, hop⟩
    rw [hparse hword, if_pos hlength, hop]

/-- A request of the common layout is parsed to `op` if its key is a word that fits and
the fields say so. -/
theorem parseData_key_iff (hmode : IsWord mode) (hmodeNe : mode ≠ []) (hmodeLt : mode.length < 24)
    (hmodeLocal : isLocalMode mode = false) (hkey : key ≠ []) (hrest : EndsField rest)
    (hback : (∀ name ∈ op.names, IsWord name) → IsWord key) :
    parseData (printRequest mode number offset key rest) = some op ↔
      IsWord key ∧ key.length < 256 ∧ (scannedPrint mode number offset key rest).op = some op := by
  have hparse : IsWord key → parseData (printRequest mode number offset key rest) =
      if key.length < 256 then (scannedPrint mode number offset key rest).op else none := by
    intro hword
    have hfirst : scanWord (printRequest mode number offset key rest) =
        some (mode, ' ' :: (decimal number ++ ' ' :: (decimal offset ++ ' ' :: (key ++ rest)))) :=
      scanWord_append hmodeNe hmode (endsField_space _)
    rw [parseData, hfirst, Option.bind_some, hmodeLocal, if_neg Bool.false_ne_true,
      scanRequest_print hmode hmodeNe hword hkey hrest, Option.bind_some]
    simp only [ScannedRequest.Fits, hmodeLt, true_and, scannedPrint]
  exact parseData_eq_some_iff hback hparse

theorem scanLocalRequest_print (hmode : IsWord mode) (hmodeNe : mode ≠ []) (hkey : IsWord key)
    (hkeyNe : key ≠ []) (hrest : EndsField rest) (shmId : Int) :
    scanLocalRequest (printLocalRequest mode number offset shmId key rest) =
      some ⟨scannedPrint mode number offset key rest, int32 shmId⟩ := by
  have hscanMode := scanWord_append hmodeNe hmode (endsField_space
    (decimal number ++ ' ' :: (decimal offset ++ ' ' :: (decimal shmId ++ ' ' :: (key ++ rest)))))
  have hscanNumber := scanInt_append number (endsField_space
    (decimal offset ++ ' ' :: (decimal shmId ++ ' ' :: (key ++ rest))))
  have hscanOffset := scanInt_append offset (endsField_space
    (decimal shmId ++ ' ' :: (key ++ rest)))
  have hscanShm := scanInt_append shmId (endsField_space (key ++ rest))
  have hscanKey := scanWord_append hkeyNe hkey hrest
  simp only [scanLocalRequest, printLocalRequest, hscanMode, Option.bind_eq_bind, Option.bind_some,
    scanInt_space, scanWord_space, hscanNumber, hscanOffset, hscanShm, hscanKey]
  rfl

/-- The same for the layout with a shared memory identifier. -/
theorem parseData_local_iff {shmId : Int} (hmode : IsWord mode) (hmodeNe : mode ≠ [])
    (hmodeLt : mode.length < 24) (hmodeLocal : isLocalMode mode = true) (hkey : key ≠ [])
    (hrest : EndsField rest) (hback : (∀ name ∈ op.names, IsWord name) → IsWord key) :
    parseData (printLocalRequest mode number offset shmId key rest) = some op ↔
      IsWord key ∧ key.length < 256 ∧
        ScannedLocalRequest.op ⟨scannedPrint mode number offset key rest, int32 shmId⟩ =
          some op := by
  have hparse : IsWord key → parseData (printLocalRequest mode number offset shmId key rest) =
      if key.length < 256 then
        ScannedLocalRequest.op ⟨scannedPrint mode number offset key rest, int32 shmId⟩
      else none := by
    intro hword
    have hfirst := scanWord_append hmodeNe hmode (endsField_space (decimal number ++
      ' ' :: (decimal offset ++ ' ' :: (decimal shmId ++ ' ' :: (key ++ rest)))))
    rw [parseData, scanLocalRequest_print hmode hmodeNe hword hkey hrest, printLocalRequest, hfirst,
      Option.bind_some, if_pos hmodeLocal, Option.bind_some]
    simp only [ScannedRequest.Fits, hmodeLt, true_and, scannedPrint]
  exact parseData_eq_some_iff hback hparse

end Data

/-! ## Each request to a data server -/

theorem toNat_emod_eq_iff {n w : Nat} (hw : 0 < w) : ((n : Int) % (w : Int)).toNat = n ↔ n < w := by
  rw [← Int.natCast_mod, Int.toNat_natCast, Nat.mod_eq_iff_lt hw.ne']

theorem emod_eq_self_iff {n w : Int} (hw : 0 < w) : n % w = n ↔ 0 ≤ n ∧ n < w := by
  constructor
  · intro h
    exact h ▸ ⟨Int.emod_nonneg n hw.ne', Int.emod_lt_of_pos n hw⟩
  · rintro ⟨hnonneg, hlt⟩
    exact Int.emod_eq_of_lt hnonneg hlt

theorem fromOn_blockKey {uri : CString} (h : '$' ∉ uri) (block : Int) :
    fromOn '$' (blockKey uri block) = '$' :: decimal block :=
  fromOn_append_cons h _

/-- The requests with two names. -/
theorem parseData_pair_iff {make : CString → CString → DataOp} {number : Nat} {old new : CString}
    (hop : ∀ uri, (scannedPrint ['G', 'E', 'T'] number 0 uri []).op =
      (DataServer.splitNames uri).map fun names => make names.1 names.2)
    (hinj : ∀ old' new', make old' new' = make old new → old' = old)
    (hnames : (make old new).names = [old, new]) :
    parseData (printRequest ['G', 'E', 'T'] number 0 (old ++ ',' :: new) []) =
        some (make old new) ↔
      IsWord old ∧ IsWord new ∧ ',' ∉ old ∧ (old ++ ',' :: new).length < 256 := by
  have hback : (∀ name ∈ (make old new).names, IsWord name) → IsWord (old ++ ',' :: new) := by
    intro h
    exact isWord_names (h old (by simp [hnames])) (h new (by simp [hnames]))
  rw [parseData_key_iff (by decide) (by decide) (by decide) (by decide) (by simp) endsField_nil
    hback, hop]
  constructor
  · rintro ⟨hword, hlength, hmap⟩
    obtain ⟨⟨old', new'⟩, hsplit, hmake⟩ := Option.map_eq_some_iff.mp hmap
    obtain rfl := hinj _ _ hmake
    have hwords := isWord_of_splitNames hword hsplit
    obtain ⟨heq, hcomma⟩ := DataServer.splitNames_eq_some hsplit
    obtain rfl : new = new' := by simpa using heq
    exact ⟨hwords old' (by simp), hwords new (by simp), hcomma, hlength⟩
  · rintro ⟨hold, hnew, hcomma, hlength⟩
    refine ⟨isWord_names hold hnew, hlength, ?_⟩
    rw [DataServer.splitNames_of_notMem hcomma]
    rfl

/-- A name that is cut off in front of its block number has no `$`. -/
theorem dollar_notMem_of_upTo {uri : CString} {block : Int}
    (h : upTo '$' (blockKey uri block) = uri) : '$' ∉ uri :=
  h ▸ notMem_upTo '$' (blockKey uri block)

/-- The block number of a key is read after its first `$`. -/
theorem prefetch_print_iff {mode uri : CString} {number offset : Nat} {shared : Bool} {block : Int}
    {size : Nat} :
    (scannedPrint mode number offset (blockKey uri block) (' ' :: decimal size)).prefetch shared =
        some (.prefetch shared uri block size) ↔
      '$' ∉ uri ∧ (0 ≤ block ∧ block < 2 ^ 32) ∧ size < 2 ^ 64 := by
  rw [ScannedRequest.prefetch, scannedPrint, scanInt_space, scanInt_decimal]
  by_cases hdollar : '$' ∈ uri
  · refine iff_of_false (fun hop => ?_) fun h => h.1 hdollar
    split at hop
    · cases hop
    · obtain ⟨n, -, hn⟩ := Option.map_eq_some_iff.mp hop
      exact dollar_notMem_of_upTo (DataOp.prefetch.inj hn).2.1 hdollar
  · rw [fromOn_blockKey hdollar]
    simp only [scanInt_decimal, Option.map_some, upTo_blockKey hdollar, Option.some.injEq,
      DataOp.prefetch.injEq, true_and, Option.getD_some, hdollar, not_false_eq_true]
    exact and_congr (emod_eq_self_iff (by decide)) (toNat_emod_eq_iff (w := 2 ^ 64) (by decide))

/-- Every number of a vectored read is taken from the key. -/
theorem readv_print_iff {mode uri rest : CString} {number offset : Nat}
    {currBlock endBlock blockSize startOffset size : Int} :
    (scannedPrint mode number offset (blockKey uri currBlock) rest).readv =
        some (.readv uri currBlock endBlock blockSize startOffset size) ↔
      '$' ∉ uri ∧ (-2 ^ 31 ≤ currBlock ∧ currBlock < 2 ^ 31) ∧ endBlock = currBlock ∧
        blockSize = currBlock ∧ startOffset = currBlock ∧ size = currBlock := by
  rw [ScannedRequest.readv, scannedPrint, ← int32_eq_self_iff]
  by_cases hdollar : '$' ∈ uri
  · refine iff_of_false (fun hop => ?_) fun h => h.1 hdollar
    split at hop
    · cases hop
    · obtain ⟨n, -, hn⟩ := Option.map_eq_some_iff.mp hop
      exact dollar_notMem_of_upTo (DataOp.readv.inj hn).1 hdollar
  · rw [fromOn_blockKey hdollar]
    by_cases hint : int32 currBlock = currBlock
    · simp [stoi_decimal, hint, upTo_blockKey hdollar, hdollar, eq_comm]
    · simp [stoi_decimal, hint]

/-- The requests with the key of a block and its URI for their name. -/
theorem parseData_block_iff {mode uri rest : CString} {number : Nat} {block : Int} {op : DataOp}
    (hmode : IsWord mode) (hmodeNe : mode ≠ []) (hmodeLt : mode.length < 24)
    (hmodeLocal : isLocalMode mode = false) (hrest : EndsField rest) (hnames : op.names = [uri]) :
    parseData (printRequest mode number 0 (blockKey uri block) rest) = some op ↔
      IsWord uri ∧ (blockKey uri block).length < 256 ∧
        (scannedPrint mode number 0 (blockKey uri block) rest).op = some op := by
  have hback : (∀ name ∈ op.names, IsWord name) → IsWord (blockKey uri block) :=
    fun h => isWord_blockKey (h uri (by simp [hnames])) block
  rw [parseData_key_iff hmode hmodeNe hmodeLt hmodeLocal (by simp [blockKey]) hrest hback,
    show IsWord (blockKey uri block) ↔ IsWord uri from
      ⟨fun h => (isWord_append_iff.mp h).1, fun h => isWord_blockKey h block⟩]

/-- When a data server takes a request for what it was meant to be. -/
theorem parseData_print_iff (op : DataOp) (hnames : ∀ name ∈ op.names, imssRoot <+: name) :
    parseData op.print = some op ↔ op.Faithful := by
  have hnil : ∀ name ∈ op.names, name ≠ [] := fun name hname => ne_nil_of_root (hnames name hname)
  cases op with
  | set size offset key =>
      refine (parseData_key_iff (by decide) (by decide) (by decide) (by decide)
        (hnil key (by simp [DataOp.names])) endsField_nil
          fun h => h key (by simp [DataOp.names])).trans
        (and_congr_right fun _ => and_congr_right fun _ => ?_)
      simp [ScannedRequest.op, scannedPrint]
  | localSet size offset shmId key =>
      refine (parseData_local_iff (by decide) (by decide) (by decide) (by decide)
        (hnil key (by simp [DataOp.names])) endsField_nil
          fun h => h key (by simp [DataOp.names])).trans
        (and_congr_right fun _ => and_congr_right fun _ => ?_)
      simp [ScannedLocalRequest.op, scannedPrint, int32_eq_self_iff]
  | read offset key toRead =>
      refine (parseData_key_iff (by decide) (by decide) (by decide) (by decide)
        (hnil key (by simp [DataOp.names])) (endsField_space _)
        fun h => h key (by simp [DataOp.names])).trans
        (and_congr_right fun _ => and_congr_right fun _ => ?_)
      have hread := toNat_emod_eq_iff (n := toRead) (w := 2 ^ 64) (by decide)
      push_cast at hread
      simp [ScannedRequest.op, scannedPrint, scanInt_decimal, hread]
  | localRead offset shmId key toRead =>
      refine (parseData_local_iff (by decide) (by decide) (by decide) (by decide)
        (hnil key (by simp [DataOp.names])) (endsField_space _)
        fun h => h key (by simp [DataOp.names])).trans
        (and_congr_right fun _ => and_congr_right fun _ => ?_)
      have hread := toNat_emod_eq_iff (n := toRead) (w := 2 ^ 64) (by decide)
      push_cast at hread
      simp [ScannedLocalRequest.op, scannedPrint, scanInt_decimal, hread,
        int32_eq_self_iff, and_assoc]
  | delete uri =>
      refine (parseData_key_iff (by decide) (by decide) (by decide) (by decide)
        (hnil uri (by simp [DataOp.names])) endsField_nil
          fun h => h uri (by simp [DataOp.names])).trans
        (and_congr_right fun _ => ?_)
      simp [ScannedRequest.op, scannedPrint]
  | rename old new =>
      exact parseData_pair_iff (fun _ => rfl) (fun _ _ h => (DataOp.rename.inj h).1) rfl
  | renameDirDir old new =>
      exact parseData_pair_iff (fun _ => rfl) (fun _ _ h => (DataOp.renameDirDir.inj h).1) rfl
  | unlink key numOpened =>
      refine (parseData_key_iff (by decide) (by decide) (by decide) (by decide)
        (hnil key (by simp [DataOp.names])) (endsField_space _)
        fun h => h key (by simp [DataOp.names])).trans
        (and_congr_right fun _ => and_congr_right fun _ => ?_)
      simp [ScannedRequest.op, scannedPrint, int32, eq_comm]
  | prefetch shared uri block size =>
      cases shared with
      | false =>
          refine (parseData_block_iff (by decide) (by decide) (by decide) (by decide)
            (endsField_space _) rfl).trans (and_congr_right fun _ => ?_)
          refine (and_congr_right fun _ => prefetch_print_iff).trans ?_
          rw [and_left_comm, and_assoc]
      | true =>
          refine (parseData_block_iff (by decide) (by decide) (by decide) (by decide)
            (endsField_space _) rfl).trans (and_congr_right fun _ => ?_)
          refine (and_congr_right fun _ => prefetch_print_iff).trans ?_
          rw [and_left_comm, and_assoc]
  | readv uri currBlock endBlock blockSize startOffset size =>
      refine (parseData_block_iff (by decide) (by decide) (by decide) (by decide)
        (endsField_space _) rfl).trans (and_congr_right fun _ => ?_)
      refine (and_congr_right fun _ => readv_print_iff).trans ?_
      rw [and_left_comm]
  | splitReadv path blockSize startOffset statsSize msgLength =>
      refine (parseData_key_iff (by decide) (by decide) (by decide) (by decide)
        (hnil path (by simp [DataOp.names])) (endsField_space _)
        fun h => h path (by simp [DataOp.names])).trans ?_
      simp [ScannedRequest.op, scannedPrint, DataOp.Faithful]
  | splitWritev entitySize path blockSize startOffset statsSize msg =>
      refine (parseData_key_iff (by decide) (by decide) (by decide) (by decide) (by decide)
        (endsField_space _) fun _ => by decide).trans ?_
      simp [ScannedRequest.op, scannedPrint, DataOp.Faithful]

/-! ## The requests of both kinds of servers -/

/-- A request to a data server or to a metadata server. -/
inductive ServerRequest
  | data (op : DataOp)
  | stat (op : StatOp)

namespace ServerRequest

/-- The names in a request. -/
def names : ServerRequest → List CString
  | .data op => op.names
  | .stat op => op.names

/-- The server parses from the text what the client formatted. -/
def RoundTrips : ServerRequest → Prop
  | .data op => parseData op.print = some op
  | .stat op => parseStat op.print = some op

/-- The requests that arrive as they were meant. -/
def Faithful : ServerRequest → Prop
  | .data op => op.Faithful
  | .stat op => op.Faithful

/-- The requests for URIs of the store that arrive as they were meant. -/
theorem roundTrips_iff (request : ServerRequest)
    (hnames : ∀ name ∈ request.names, imssRoot <+: name) :
    request.RoundTrips ↔ request.Faithful := by
  cases request with
  | data op => exact parseData_print_iff op hnames
  | stat op => exact parseStat_print_iff op hnames

/-- A write of block 1 of a file. -/
theorem roundTrips_set :
    (ServerRequest.data (.set 4096 0 "imss://f$1".toList)).RoundTrips :=
  (roundTrips_iff (.data (.set 4096 0 "imss://f$1".toList)) (by decide)).mpr
    ⟨by decide, by decide, by decide, by decide⟩

/-- A name with a blank is cut there, the old name of a rename ends at its first comma,
the name of a prefetch at its first `$`, and the open count of an unlink is read from the
field before the key. -/
theorem not_roundTrips :
    parseStat (StatOp.delete 1 "imss://a b".toList).print =
        some (.delete 1 "imss://a".toList) ∧
      parseStat (StatOp.rename 1 "imss://a,b".toList "imss://c".toList).print =
        some (.rename 1 "imss://a".toList "b,imss://c".toList) ∧
      parseData (DataOp.prefetch false "imss://a$2".toList 1 4096).print =
        some (.prefetch false "imss://a".toList 2 4096) ∧
      parseData (DataOp.unlink "imss://a$0".toList 1).print =
        some (.unlink "imss://a$0".toList 0) ∧
      ¬ (ServerRequest.stat (.delete 1 "imss://a b".toList)).RoundTrips ∧
      ¬ (ServerRequest.stat (.rename 1 "imss://a,b".toList "imss://c".toList)).RoundTrips ∧
      ¬ (ServerRequest.data (.prefetch false "imss://a$2".toList 1 4096)).RoundTrips ∧
      ¬ (ServerRequest.data (.unlink "imss://a$0".toList 1)).RoundTrips := by
  refine ⟨by decide +kernel, by decide +kernel, by decide +kernel, by decide +kernel,
    ?_, ?_, ?_, ?_⟩
  all_goals
    rw [RoundTrips]
    decide +kernel

end ServerRequest

end Hercules
