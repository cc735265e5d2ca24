/-
# Requests to a metadata server as text

`stat_worker_helper` scans a request with `"%u %s %s %s %n"`: a number whose meaning
depends on the request, the mode, the operation of a `GET` or the size of a `SET`, and
a URI or two URIs with a comma between them. What follows the URI of a `SET` is taken
for the status of a server. The words go into buffers of fixed sizes, and nothing
defined happens if one does not fit.
-/

import Hercules.Policies
import Hercules.Server.Requests

namespace Hercules

open Lib Lib.Text

/-- A request to a metadata server, with the number in front of the mode. The names of
a directory rename are those in the text, with a slash at the end. -/
inductive StatOp
  | read (operation : Nat) (uri : CString)
  | getdir (operation : Nat) (uri : CString)
  | delete (operation : Nat) (uri : CString)
  | rename (operation : Nat) (old new : CString)
  | renameDirDir (operation : Nat) (old new : CString)
  | close (operation : Nat) (uri : CString)
  | openDataset (operation : Nat) (uri : CString)
  | set (operation : Nat) (size : Nat) (uri : CString) (status : Option Int)
  | performance (operation : Nat) (uri : CString)
  deriving DecidableEq

/-! ## The server's side -/

/-- The variables that the scan fills: `operation`, `mode`, `number` and `uri_`, and
the text from `num_characters_read` on. -/
structure ScannedStatRequest where
  operation : Nat
  mode : CString
  number : CString
  uri : CString
  rest : CString

/-- The `sscanf` of `stat_worker_helper`, for requests with all four fields. -/
def scanStatRequest (req : CString) : Option ScannedStatRequest := do
  let (operation, req) ← scanInt req
  let (mode, req) ← scanWord req
  let (number, req) ← scanWord req
  let (uri, req) ← scanWord req
  return ⟨(operation % 2 ^ 32).toNat, mode, number, uri, req.dropWhile isSpace⟩

/-- The number at the front of a text, or 0. -/
def atol (text : CString) : Int :=
  ((scanInt text).map Prod.fst).getD 0

/-- `atoi`. -/
def atoi (text : CString) : Int :=
  int32 (atol text)

namespace ScannedStatRequest

/-- The words fit `mode[MODE_SIZE]`, `number[16]` and `uri_[URI_]`, with the
terminating NUL. -/
def Fits (scanned : ScannedStatRequest) : Prop :=
  scanned.mode.length < 24 ∧ scanned.number.length < 16 ∧ scanned.uri.length < 256

instance (scanned : ScannedStatRequest) : Decidable scanned.Fits :=
  inferInstanceAs (Decidable (_ ∧ _ ∧ _))

/-- A `SET` request: what follows the URI is a status, and then `number` is read as a
`long`. -/
def setOp (scanned : ScannedStatRequest) : StatOp :=
  if scanned.rest = [] then
    .set scanned.operation (atoi scanned.number % 2 ^ 64).toNat scanned.uri none
  else
    .set scanned.operation (atol scanned.number % 2 ^ 64).toNat scanned.uri
      (some (atoi scanned.rest))

/-- The request that the server takes the fields for. -/
def op (scanned : ScannedStatRequest) : Option StatOp :=
  if scanned.mode = ['G', 'E', 'T'] then
    match atoi scanned.number with
    | 0 => some (.read scanned.operation scanned.uri)
    | 1 => some (.getdir scanned.operation scanned.uri)
    | 4 => some (.delete scanned.operation scanned.uri)
    | 5 => (DataServer.splitNames scanned.uri).map fun names =>
        .rename scanned.operation names.1 names.2
    | 6 => (DataServer.splitNames scanned.uri).map fun names =>
        .renameDirDir scanned.operation names.1 names.2
    | 7 => some (.close scanned.operation scanned.uri)
    | 8 => some (.openDataset scanned.operation scanned.uri)
    | _ => none
  else if scanned.mode = ['S', 'E', 'T'] then some scanned.setOp
  else if scanned.mode = ['S', 'E', 'T', 'P', 'E', 'R', 'F', 'O', 'R', 'M', 'A', 'N', 'C', 'E'] then
    some (.performance scanned.operation scanned.uri)
  else none

end ScannedStatRequest

/-- What the server takes a text for. -/
def parseStat (req : CString) : Option StatOp :=
  (scanStatRequest req).bind fun scanned => if scanned.Fits then scanned.op else none

/-! ## The client's side -/

/-- The common layout of the requests. -/
def printStatRequest (operation : Nat) (mode : CString) (number : Nat) (uri rest : CString) :
    CString :=
  decimal operation ++ ' ' :: (mode ++ ' ' :: (decimal number ++ ' ' :: (uri ++ rest)))

namespace StatOp

/-- The text of a request: `stat_dataset`, `get_dir`, `delete_dataset`,
`rename_dataset_metadata`, `rename_dataset_metadata_dir_dir`, `close_dataset`,
`open_local_dataset`, `create_dataset` and `update_dataset`. A status was sent by the data
servers. -/
def print : StatOp → CString
  | .read operation uri => printStatRequest operation ['G', 'E', 'T'] 0 uri []
  | .getdir operation uri => printStatRequest operation ['G', 'E', 'T'] 1 uri []
  | .delete operation uri => printStatRequest operation ['G', 'E', 'T'] 4 uri []
  | .rename operation old new => printStatRequest operation ['G', 'E', 'T'] 5 (old ++ ',' :: new) []
  | .renameDirDir operation old new =>
      printStatRequest operation ['G', 'E', 'T'] 6 (old ++ ',' :: new) []
  | .close operation uri => printStatRequest operation ['G', 'E', 'T'] 7 uri []
  | .openDataset operation uri => printStatRequest operation ['G', 'E', 'T'] 8 uri []
  | .set operation size uri status => printStatRequest operation ['S', 'E', 'T'] size uri
      (match status with
        | none => []
        | some status => ' ' :: decimal status)
  | .performance operation uri => printStatRequest operation
      ['S', 'E', 'T', 'P', 'E', 'R', 'F', 'O', 'R', 'M', 'A', 'N', 'C', 'E'] 10 uri []

/-- The names in a request. -/
def names : StatOp → List CString
  | .rename _ old new | .renameDirDir _ old new => [old, new]
  | .read _ uri | .getdir _ uri | .delete _ uri | .close _ uri | .openDataset _ uri
  | .set _ _ uri _ | .performance _ uri => [uri]

end StatOp

/-! ## Scanning what was printed -/

/-- A printed request is scanned back. -/
theorem scanStatRequest_print {mode uri : CString} (hmode : IsWord mode) (hmodeNe : mode ≠ [])
    (huri : IsWord uri) (huriNe : uri ≠ []) {rest : CString} (hrest : EndsField rest)
    (operation number : Nat) :
    scanStatRequest (printStatRequest operation mode number uri rest) =
      some ⟨operation % 2 ^ 32, mode, decimal number, uri, rest.dropWhile isSpace⟩ := by
  have hscanOperation := scanInt_append operation (endsField_space
    (mode ++ ' ' :: (decimal number ++ ' ' :: (uri ++ rest))))
  have hscanMode := scanWord_append hmodeNe hmode (endsField_space
    (decimal number ++ ' ' :: (uri ++ rest)))
  have hscanNumber := scanWord_append (decimal_ne_nil number) (isWord_decimal number)
    (endsField_space (uri ++ rest))
  have hscanUri := scanWord_append huriNe huri hrest
  simp only [scanStatRequest, printStatRequest, hscanOperation, Option.bind_eq_bind,
    Option.bind_some, scanWord_space, hscanMode, hscanNumber, hscanUri]
  rfl

@[simp]
theorem atol_decimal (n : Int) : atol (decimal n) = n := by
  have hscan := scanInt_append n endsField_nil
  rw [List.append_nil] at hscan
  rw [atol, hscan]
  rfl

/-- The names of a request that was parsed are words. -/
theorem isWord_of_parseStat {req : CString} {op : StatOp} (h : parseStat req = some op) :
    ∀ name ∈ op.names, IsWord name := by
  obtain ⟨scanned, hscan, hop⟩ := Option.bind_eq_some_iff.mp h
  have hword : IsWord scanned.uri := by
    simp only [scanStatRequest, Option.bind_eq_bind, Option.bind_eq_some_iff, Option.pure_def,
      Option.some.injEq] at hscan
    obtain ⟨_, -, _, -, _, -, ⟨uri, rest⟩, huri, rfl⟩ := hscan
    exact isWord_of_scanWord huri
  have hsplit : ∀ old new, DataServer.splitNames scanned.uri = some (old, new) →
      ∀ name ∈ [old, new], IsWord name := by
    intro old new hnames
    obtain ⟨huri, -⟩ := DataServer.splitNames_eq_some hnames
    rw [huri, isWord_append_iff, ← List.singleton_append, isWord_append_iff] at hword
    simp [hword.1, hword.2.2]
  split at hop
  next =>
    rw [ScannedStatRequest.op] at hop
    split at hop
    · split at hop
      all_goals
        first
          | (cases hop; simpa [StatOp.names] using hword)
          | (obtain ⟨⟨old, new⟩, hnames, rfl⟩ := Option.map_eq_some_iff.mp hop
             exact hsplit old new hnames)
          | cases hop
    split at hop
    · rw [ScannedStatRequest.setOp] at hop
      split at hop <;> cases hop <;> simpa [StatOp.names] using hword
    split at hop
    · cases hop
      simpa [StatOp.names] using hword
    · cases hop
  next => cases hop

end Hercules
