/-
# Listing a directory

`get_dir` asks one metadata server if the URI has a slash after `imss://`, and all of
them otherwise. The answers are kept in arrays with one place for each server that is
asked; the place is chosen by the number of the server. The servers that do not know the
directory answer with an error, and one error ends the call.

So a directory is listed right if it is the root, if it is on server 0 and that is seen
from a slash, or if every server knows it.
-/

import Hercules.Server.ListDir
import Hercules.Cluster.Routing

namespace Hercules

open Std Lib Lib.Text Lib.Slots

/-! ## The reply of a server -/

/-- A message with its length. -/
structure DirMessage where
  length : Nat
  content : Nat → Char

/-- `err_code`. -/
def errCode : CString := "$ERRIMSS_NO_KEY_AVAIL$".toList

/-- `MSG_EMPTY_DIRECTORY`. -/
def msgEmptyDirectory : CString := "EMPTY_DIRECTORY".toList

namespace DirMessage

/-- A message of one text. -/
def ofText (text : CString) : DirMessage :=
  ⟨text.length + 1, fun i => text.getD i nul⟩

/-- `!strncmp(text, message, strlen(text))`. -/
def startsWith (message : DirMessage) (text : CString) : Bool :=
  (List.range text.length).map message.content = text

/-- What `get_dir` takes a message for; no result is the error. -/
def names (message : DirMessage) : Option (List CString) :=
  if message.startsWith errCode then none
  else if message.startsWith msgEmptyDirectory then some []
  else some (readSlots uriSize nul (message.length / uriSize) message.content)

end DirMessage

namespace MetadataServer

/-- `GETDIR`. -/
def getdir (server : MetadataServer) (uri : CString) : DirMessage :=
  let listing := server.store.listDirBuffer (server.key uri)
  if listing.1 = -1 then .ofText errCode
  else if listing.1 = 0 then .ofText msgEmptyDirectory
  else ⟨listing.1.toNat * uriSize, listing.2⟩

/-- The reply to a request. -/
def serveGetdir (server : MetadataServer) (req : CString) : Option DirMessage :=
  match parseStat req with
  | some (.getdir _ uri) => some (server.getdir uri)
  | _ => none

/-- The server has a map for the directory. -/
def Knows (server : MetadataServer) (dir : CString) : Prop :=
  (server.store.getDirUnsafe dir).isSome = true

instance (server : MetadataServer) (dir : CString) : Decidable (server.Knows dir) :=
  inferInstanceAs (Decidable (_ = true))

end MetadataServer

/-! ## `get_dir` -/

/-- The result of `get_dir`: the items, or -1; the numbers by which the arrays were indexed, and
the size of the arrays. -/
structure DirResult where
  items : Option (List CString)
  indices : List Nat
  size : Nat

/-- The URI in the request: a directory has a slash at its end. -/
def dirRequestUri (requested : CString) : CString :=
  if requested.getLast? = some '/' then requested else requested ++ ['/']

/-- The servers that are asked: the first number and how many. -/
def StatServers.asked (servers : StatServers) (stack requested : CString) : Option (Nat × Nat) :=
  if '/' ∈ requested.drop imssRoot.length then
    (servers.find stack requested).map fun mSrv => (mSrv, 1)
  else some (0, servers.nStatServers)

/-- The replies of the servers in turn. There is no result if a server does nothing defined, and
an error ends the loop. -/
def collectDir (cluster : MetadataCluster) (statIds : Nat → Nat) (requested : CString) :
    List Nat → Option (Option (List CString))
  | [] => some (some [])
  | i :: numbers =>
      match (cluster i).serveGetdir (StatOp.getdir (statIds i) (dirRequestUri requested)).print with
      | none => none
      | some message =>
          match message.names with
          | none => some none
          | some names => (collectDir cluster statIds requested numbers).map fun rest =>
              rest.map (names ++ ·)

/-- `get_dir`. -/
def getDir (servers : StatServers) (stack : CString) (statIds : Nat → Nat)
    (cluster : MetadataCluster) (requested : CString) : Option DirResult :=
  (servers.asked stack requested).bind fun asked =>
    let numbers := (List.range asked.2).map (asked.1 + ·)
    (collectDir cluster statIds requested numbers).map fun names =>
      ⟨names.map fun names => readSlot uriSize nul (writeSlots uriSize nul [requested]) 0 :: names,
        numbers, asked.2⟩

/-! ## Namespaces and directories -/

/-- A word below the root that fits a `uri_` field. -/
structure IsDatasetKey (key : CString) : Prop where
  below_root : imssRoot <+: key
  word : IsWord key
  nul_free : nul ∉ key
  fits : key.length < uriSize

/-- What is stored on the metadata servers: every key is in the map of its directory. -/
structure Namespace where
  servers : StatServers
  cluster : MetadataCluster
  pos : 0 < servers.nStatServers
  imssUri : ∀ s < servers.nStatServers, (cluster s).imssUri = imssRoot
  root : ∀ s < servers.nStatServers, (cluster s).Knows imssRoot
  filed : ∀ s < servers.nStatServers, (cluster s).store.Filed
  keys : ∀ s < servers.nStatServers, (cluster s).store.EveryKey fun _ key => IsDatasetKey key

/-- A directory, given with or without a slash at its end. -/
structure DirPath where
  uri : CString
  slash : Bool
  valid : uri = imssRoot ∨ IsFileUri uri
  word : IsWord uri
  nul_free : nul ∉ uri

/-- The text of a directory; the root has one. -/
def DirPath.text (path : DirPath) : CString :=
  if path.uri = imssRoot then imssRoot else path.uri ++ if path.slash then ['/'] else []

namespace Namespace

variable (ns : Namespace)

/-- A dataset that a server has directly below a directory. -/
def HasChild (s : Nat) (dir key : CString) : Prop :=
  ((ns.cluster s).get key).isSome ∧ key ≠ dir ∧ findLastParentDir key = dir

/-- A dataset that is stored somewhere directly below a directory. -/
def IsChild (dir key : CString) : Prop :=
  ∃ s < ns.servers.nStatServers, ns.HasChild s dir key

/-- The requested directory is followed by exactly its children, each once, and the arrays are
indexed within their bounds. -/
def ListedRight (stack : CString) (statIds : Nat → Nat) (path : DirPath) : Prop :=
  ∃ children result, getDir ns.servers stack statIds ns.cluster path.text = some result ∧
    result.items = some (path.text :: children) ∧ children.Nodup ∧
    (∀ key, key ∈ children ↔ ns.IsChild path.uri key) ∧ ∀ i ∈ result.indices, i < result.size

/-- The request fits the buffer of the server, and either server 0 is the only one that is asked,
knows the directory and has all of its children, or all servers are asked, know it, and have
different children. -/
def Listable (stack : CString) (path : DirPath) : Prop :=
  (dirRequestUri path.text).length < uriSize ∧
    if '/' ∈ path.text.drop imssRoot.length then
      ns.servers.find stack path.text = some 0 ∧ (ns.cluster 0).Knows path.uri ∧
        ∀ s < ns.servers.nStatServers, ∀ key, ns.HasChild s path.uri key →
          ns.HasChild 0 path.uri key
    else (∀ s < ns.servers.nStatServers, (ns.cluster s).Knows path.uri) ∧
      ∀ s < ns.servers.nStatServers, ∀ s' < ns.servers.nStatServers, ∀ key,
        ns.HasChild s path.uri key → ns.HasChild s' path.uri key → s = s'

end Namespace

/-! ### Requests keep a namespace -/

namespace Namespace

/-- The servers after their start. -/
def start (servers : StatServers) (pos : 0 < servers.nStatServers) : Namespace where
  servers := servers
  cluster _ := MetadataServer.init imssRoot
  pos := pos
  imssUri _ _ := rfl
  root _ _ := by
    rw [MetadataServer.Knows, MetadataServer.init, HierarchicalRecords.init,
      HierarchicalRecords.getDirUnsafe, ExtTreeMap.getElem?_insert_self]
    rfl
  filed _ _ := HierarchicalRecords.everyKey_init _ _
  keys _ _ := HierarchicalRecords.everyKey_init _ _

/-- A request to one server for a URI that it can store. Directory renames are not among the
requests: they leave an entry that moves to another parent in the map of the old one, so the
namespaces that they leave are outside. -/
def ask (ns : Namespace) (s : Nat) (request : MetadataRequest)
    (hkey : IsDatasetKey ((ns.cluster s).key request.uri)) : Namespace where
  servers := ns.servers
  cluster := Function.update ns.cluster s ((ns.cluster s).handle request).2
  pos := ns.pos
  imssUri s' hs' := by
    rcases eq_or_ne s' s with rfl | hne
    · rw [Function.update_self, MetadataServer.imssUri_handle, ns.imssUri s' hs']
    · rw [Function.update_of_ne hne, ns.imssUri s' hs']
  root s' hs' := by
    rcases eq_or_ne s' s with rfl | hne
    · rw [Function.update_self]
      exact MetadataServer.isSome_getDirUnsafe_handle (ns.root s' hs')
    · rw [Function.update_of_ne hne]
      exact ns.root s' hs'
  filed s' hs' := by
    rcases eq_or_ne s' s with rfl | hne
    · rw [Function.update_self]
      exact MetadataServer.everyKey_handle rfl (ns.filed s' hs')
    · rw [Function.update_of_ne hne]
      exact ns.filed s' hs'
  keys s' hs' := by
    rcases eq_or_ne s' s with rfl | hne
    · rw [Function.update_self]
      exact MetadataServer.everyKey_handle hkey (ns.keys s' hs')
    · rw [Function.update_of_ne hne]
      exact ns.keys s' hs'

end Namespace

/-! ## The request -/

variable {path : DirPath} {server : MetadataServer}

theorem dirRequestUri_text (path : DirPath) :
    dirRequestUri path.text = if path.uri = imssRoot then imssRoot else path.uri ++ ['/'] := by
  rw [DirPath.text]
  split
  next => rfl
  next hroot =>
    have hlast := (path.valid.resolve_left hroot).no_trailing_slash
    cases path.slash with
    | true => simp [dirRequestUri]
    | false => simp [dirRequestUri, hlast]

/-- The server looks for the directory without the slash. -/
theorem key_dirRequestUri (himss : server.imssUri = imssRoot) (path : DirPath) :
    server.key (dirRequestUri path.text) = path.uri := by
  rw [dirRequestUri_text, MetadataServer.key, himss]
  split
  next hroot => rw [if_pos rfl, hroot]
  next hroot =>
    have hne : path.uri ++ ['/'] ≠ imssRoot := by
      intro heq
      have hlen := (path.valid.resolve_left hroot).below_root.length_le
      rw [← heq, List.length_append, List.length_singleton] at hlen
      omega
    rw [if_neg hne, removeLastSlash]
    simp

theorem isWord_dirRequestUri (path : DirPath) : IsWord (dirRequestUri path.text) := by
  rw [dirRequestUri_text]
  split
  · decide
  · exact path.word.append (by decide)

theorem imssRoot_prefix_dirRequestUri (path : DirPath) :
    imssRoot <+: dirRequestUri path.text := by
  rw [dirRequestUri_text]
  split
  · exact List.prefix_rfl
  next hroot =>
    exact (path.valid.resolve_left hroot).below_root.trans (List.prefix_append _ _)

/-- The server gets the request as long as it fits the buffer. -/
theorem serveGetdir_print (path : DirPath) (server : MetadataServer) (id : Nat) :
    server.serveGetdir (StatOp.getdir id (dirRequestUri path.text)).print =
      if (dirRequestUri path.text).length < uriSize then
        some (server.getdir (dirRequestUri path.text))
      else none := by
  have hword : firstWord (dirRequestUri path.text) = dirRequestUri path.text := by
    rw [firstWord, List.takeWhile_eq_self_iff]
    intro c hc
    simp [isWord_dirRequestUri path c hc]
  rw [MetadataServer.serveGetdir, StatOp.print,
    parseStat_get (imssRoot_prefix_dirRequestUri path) (by decide), hword]
  change (match if (dirRequestUri path.text).length < uriSize then _ else none with
    | some (StatOp.getdir _ uri) => some (server.getdir uri)
    | _ => none) = _
  by_cases hfits : (dirRequestUri path.text).length < uriSize
  · rw [if_pos hfits, if_pos hfits]
    rfl
  · rw [if_neg hfits, if_neg hfits]

/-! ## The reply -/

namespace DirMessage

theorem startsWith_ofText (text : CString) : (ofText text).startsWith text = true := by
  rw [startsWith, decide_eq_true_iff]
  apply List.ext_getElem
  · simp
  · intro i _ hi
    simp [ofText, hi]

theorem names_errCode : (ofText errCode).names = none := by
  rw [names, if_pos (startsWith_ofText _)]

theorem names_msgEmptyDirectory : (ofText msgEmptyDirectory).names = some [] := by
  have herr : (ofText msgEmptyDirectory).startsWith errCode = false := by decide +kernel
  rw [names, herr, if_neg (by decide), if_pos (startsWith_ofText _)]

theorem startsWith_eq_false {message : DirMessage} {text : CString} (hne : text ≠ [])
    (h : text.head? ≠ some (message.content 0)) : message.startsWith text = false := by
  obtain ⟨c, rest, rfl⟩ := List.exists_cons_of_ne_nil hne
  rw [startsWith, decide_eq_false_iff_not, List.length_cons, List.range_succ_eq_map, List.map_cons]
  intro heq
  exact h (congrArg some (List.cons.inj heq).1.symm)

/-- A buffer of keys is not taken for one of the two texts, since every key begins with `imss`. -/
theorem names_keys {keys : List CString} (hne : keys ≠ [])
    (hkeys : ∀ key ∈ keys, IsDatasetKey key) :
    (mk (keys.length * uriSize) (writeSlots uriSize nul keys)).names = some keys := by
  have hread : readSlots uriSize nul keys.length (writeSlots uriSize nul keys) = keys := by
    apply readSlots_writeSlots
    · intro key hkey
      exact (hkeys key hkey).fits.le
    · intro key hkey
      exact (hkeys key hkey).nul_free
  have hletter : writeSlots uriSize nul keys 0 = 'i' := by
    obtain ⟨first, rest, rfl⟩ := List.exists_cons_of_ne_nil hne
    obtain ⟨tail, rfl⟩ := (hkeys first List.mem_cons_self).below_root
    exact writeSlots_zero (by decide)
  have hstart : ∀ text : CString, text ≠ [] → text.head? ≠ some 'i' →
      (mk (keys.length * uriSize) (writeSlots uriSize nul keys)).startsWith text = false := by
    intro text htext hhead
    apply startsWith_eq_false htext
    change text.head? ≠ some (writeSlots uriSize nul keys 0)
    rwa [hletter]
  have herr := hstart errCode (by decide) (by decide)
  have hempty := hstart msgEmptyDirectory (by decide) (by decide)
  rw [names, herr, hempty, if_neg (by decide), if_neg (by decide),
    Nat.mul_div_cancel _ (by decide), hread]

end DirMessage

namespace Namespace

variable {ns : Namespace} {s : Nat}

/-- A server stands for the flat map of its records. -/
theorem refines (hs : s < ns.servers.nStatServers) :
    Refines (ns.cluster s).store (ns.cluster s).get where
  get _ := rfl
  filed := ns.filed s hs
  nul_free dir records key hdir hsome := (ns.keys s hs dir records key hdir hsome).nul_free

theorem isDatasetKey (hs : s < ns.servers.nStatServers) {key : CString}
    (hsome : ((ns.cluster s).get key).isSome) : IsDatasetKey key := by
  rw [MetadataServer.get, HierarchicalRecords.hierarchicalMapGet_eq] at hsome
  cases hdir : (ns.cluster s).store.getDirUnsafe (findLastParentDir key) with
  | none => simp [hdir] at hsome
  | some records =>
      rw [hdir] at hsome
      exact ns.keys s hs _ records key hdir hsome

/-- The keys of a directory on one server. -/
def childrenOn (ns : Namespace) (s : Nat) (dir : CString) : List CString :=
  ((ns.cluster s).store.hierarchicalMapListDir dir).getD []

theorem mem_childrenOn (hs : s < ns.servers.nStatServers) (dir key : CString) :
    key ∈ ns.childrenOn s dir ↔ ns.HasChild s dir key := by
  rw [childrenOn]
  cases hnames : (ns.cluster s).store.hierarchicalMapListDir dir with
  | some names => exact (refines hs).mem_listDir hnames key
  | none =>
      have hdir : (ns.cluster s).store.getDirUnsafe dir = none := Option.map_eq_none_iff.mp hnames
      constructor
      · intro hmem
        cases hmem
      · rintro ⟨hsome, -, hparent⟩
        rw [MetadataServer.get, HierarchicalRecords.hierarchicalMapGet_eq, hparent, hdir] at hsome
        cases hsome

theorem nodup_childrenOn (ns : Namespace) (s : Nat) (dir : CString) :
    (ns.childrenOn s dir).Nodup := by
  rw [childrenOn]
  cases hnames : (ns.cluster s).store.hierarchicalMapListDir dir with
  | some names => exact nodup_listDir hnames
  | none => exact List.nodup_nil

/-- What `get_dir` takes the reply of one server for. -/
theorem names_getdir (hs : s < ns.servers.nStatServers) (path : DirPath) :
    ((ns.cluster s).getdir (dirRequestUri path.text)).names =
      if (ns.cluster s).Knows path.uri then some (ns.childrenOn s path.uri) else none := by
  have hkeys : ∀ key ∈ ns.childrenOn s path.uri, IsDatasetKey key := by
    intro key hmem
    exact isDatasetKey hs ((mem_childrenOn hs path.uri key).mp hmem).1
  rw [MetadataServer.getdir, key_dirRequestUri (ns.imssUri s hs)]
  by_cases hknows : (ns.cluster s).Knows path.uri
  · obtain ⟨records, hdir⟩ := Option.isSome_iff_exists.mp hknows
    obtain ⟨names, hnames⟩ : ∃ names, (ns.cluster s).store.hierarchicalMapListDir path.uri =
        some names :=
      ⟨_, Option.map_eq_some_iff.mpr ⟨records, hdir, rfl⟩⟩
    have hlisted : ns.childrenOn s path.uri = names := by
      rw [childrenOn, hnames, Option.getD_some]
    have hcount : ¬ (names.length : Int) = -1 := by omega
    rw [hlisted] at hkeys
    rw [if_pos hknows, hlisted, HierarchicalRecords.listDirBuffer, hnames]
    simp only [if_neg hcount]
    by_cases hempty : names = []
    · subst hempty
      exact DirMessage.names_msgEmptyDirectory
    · have hlength : ¬ (names.length : Int) = 0 := by
        intro hzero
        exact hempty (List.length_eq_zero_iff.mp (Int.natCast_eq_zero.mp hzero))
      rw [if_neg hlength, Int.toNat_natCast]
      exact DirMessage.names_keys hempty hkeys
  · have hnames : (ns.cluster s).store.hierarchicalMapListDir path.uri = none := by
      rw [MetadataServer.Knows, Option.not_isSome_iff_eq_none] at hknows
      exact Option.map_eq_none_iff.mpr hknows
    rw [if_neg hknows, HierarchicalRecords.listDirBuffer, hnames]
    exact DirMessage.names_errCode

/-! ## The loop over the servers -/

/-- Servers that all know the directory: their listings, one after the other. -/
theorem collectDir_of_knows {numbers : List Nat} {path : DirPath} (statIds : Nat → Nat)
    (hfits : (dirRequestUri path.text).length < uriSize)
    (hnumbers : ∀ s ∈ numbers, s < ns.servers.nStatServers)
    (hknows : ∀ s ∈ numbers, (ns.cluster s).Knows path.uri) :
    collectDir ns.cluster statIds path.text numbers =
      some (some (numbers.flatMap fun s => ns.childrenOn s path.uri)) := by
  induction numbers with
  | nil => rfl
  | cons s numbers ih =>
      have hs := hnumbers s List.mem_cons_self
      have hnames := names_getdir hs path
      rw [if_pos (hknows s List.mem_cons_self)] at hnames
      have hrest := ih (fun s' hmem => hnumbers s' (List.mem_cons_of_mem s hmem))
        fun s' hmem => hknows s' (List.mem_cons_of_mem s hmem)
      rw [collectDir, serveGetdir_print, if_pos hfits]
      simp only [hnames, hrest]
      rfl

/-- Names are collected only if every server gets the request and knows the directory. -/
theorem knows_of_collectDir {numbers : List Nat} {statIds : Nat → Nat} {path : DirPath}
    {names : List CString} (hnumbers : ∀ s ∈ numbers, s < ns.servers.nStatServers)
    (h : collectDir ns.cluster statIds path.text numbers = some (some names)) :
    ∀ s ∈ numbers, (dirRequestUri path.text).length < uriSize ∧ (ns.cluster s).Knows path.uri := by
  induction numbers generalizing names with
  | nil =>
      intro s hs
      cases hs
  | cons s numbers ih =>
      have hs := hnumbers s List.mem_cons_self
      rw [collectDir, serveGetdir_print] at h
      by_cases hfits : (dirRequestUri path.text).length < uriSize
      · rw [if_pos hfits] at h
        simp only [names_getdir hs path] at h
        by_cases hknows : (ns.cluster s).Knows path.uri
        · simp only [if_pos hknows] at h
          obtain ⟨rest, hrest, hmap⟩ := Option.map_eq_some_iff.mp h
          obtain ⟨tail, rfl, -⟩ := Option.map_eq_some_iff.mp hmap
          have htail := ih (fun s' hmem => hnumbers s' (List.mem_cons_of_mem s hmem)) hrest
          intro s' hmem
          rcases List.mem_cons.mp hmem with rfl | hmem
          · exact ⟨hfits, hknows⟩
          · exact htail s' hmem
        · simp only [if_neg hknows] at h
          cases h
      · rw [if_neg hfits] at h
        cases h

/-! ## What is listed -/

/-- The first item is the requested text if that fits. -/
theorem readSlot_text (hfits : (dirRequestUri path.text).length < uriSize) :
    readSlot uriSize nul (writeSlots uriSize nul [path.text]) 0 = path.text := by
  have hlength : path.text.length ≤ uriSize := by
    rw [dirRequestUri] at hfits
    split at hfits
    · omega
    · rw [List.length_append] at hfits
      omega
  have hnul : nul ∉ path.text := by
    rw [DirPath.text]
    split
    · decide
    · have hslash : nul ∉ if path.slash then ['/'] else [] := by
        cases path.slash <;> decide
      simp [path.nul_free, hslash]
  have hread : readSlots uriSize nul [path.text].length (writeSlots uriSize nul [path.text]) =
      [path.text] := by
    apply readSlots_writeSlots
    · simpa using hlength
    · simpa using hnul
  exact (List.cons.inj hread).1

/-- A listing, said by the servers that are asked. -/
theorem listedRight_iff {stack : CString} {first count : Nat} (statIds : Nat → Nat)
    (hasked : ns.servers.asked stack path.text = some (first, count)) (hcount : 0 < count)
    (hbound : first + count ≤ ns.servers.nStatServers) :
    ns.ListedRight stack statIds path ↔
      (dirRequestUri path.text).length < uriSize ∧
        (∀ i < count, (ns.cluster (first + i)).Knows path.uri) ∧
        ((List.range count).flatMap fun i => ns.childrenOn (first + i) path.uri).Nodup ∧
        (∀ key, (∃ i < count, ns.HasChild (first + i) path.uri key) ↔ ns.IsChild path.uri key) ∧
        first = 0 := by
  have hnumbers : ∀ s ∈ (List.range count).map (first + ·), s < ns.servers.nStatServers := by
    intro s hs
    obtain ⟨i, hi, rfl⟩ := List.mem_map.mp hs
    rw [List.mem_range] at hi
    omega
  have hmem : ∀ key,
      (key ∈ (List.range count).flatMap fun i => ns.childrenOn (first + i) path.uri) ↔
      ∃ i < count, ns.HasChild (first + i) path.uri key := by
    intro key
    rw [List.mem_flatMap]
    refine exists_congr fun i => ?_
    rw [List.mem_range]
    refine and_congr_right fun hi => ?_
    exact mem_childrenOn (by omega) path.uri key
  have hflat : (((List.range count).map (first + ·)).flatMap fun s => ns.childrenOn s path.uri) =
      (List.range count).flatMap fun i => ns.childrenOn (first + i) path.uri :=
    List.flatMap_map _ _ _
  constructor
  · rintro ⟨children, result, hresult, hitems, hnodup, hchildren, hindices⟩
    rw [getDir, hasked, Option.bind_some] at hresult
    obtain ⟨names, hcollect, rfl⟩ := Option.map_eq_some_iff.mp hresult
    obtain ⟨names, rfl, hnames⟩ := Option.map_eq_some_iff.mp hitems
    obtain rfl := (List.cons.inj hnames).2
    have hknows := knows_of_collectDir hnumbers hcollect
    have hplace : ∀ i < count, first + i ∈ (List.range count).map (first + ·) := by
      intro i hi
      exact List.mem_map.mpr ⟨i, List.mem_range.mpr hi, rfl⟩
    have hfits := (hknows _ (hplace 0 hcount)).1
    have hlisted := collectDir_of_knows statIds hfits hnumbers fun s hs => (hknows s hs).2
    rw [hlisted, Option.some_inj, Option.some_inj, hflat] at hcollect
    subst hcollect
    refine ⟨hfits, fun i hi => (hknows _ (hplace i hi)).2, hnodup, fun key => ?_, ?_⟩
    · rw [← hmem key]
      exact hchildren key
    · have hlast := hindices _ (hplace (count - 1) (by omega))
      simp only at hlast
      omega
  · rintro ⟨hfits, hknows, hnodup, hchildren, rfl⟩
    have hall : ∀ s ∈ (List.range count).map (0 + ·), (ns.cluster s).Knows path.uri := by
      intro s hs
      obtain ⟨i, hi, rfl⟩ := List.mem_map.mp hs
      exact hknows i (List.mem_range.mp hi)
    have hlisted := collectDir_of_knows statIds hfits hnumbers hall
    have hresult : getDir ns.servers stack statIds ns.cluster path.text =
        some ⟨some (path.text ::
          (List.range count).flatMap fun i => ns.childrenOn (0 + i) path.uri),
          (List.range count).map (0 + ·), count⟩ := by
      rw [getDir, hasked, Option.bind_some]
      simp only [hlisted, hflat, Option.map_some, readSlot_text hfits]
    refine ⟨_, _, hresult, rfl, hnodup, fun key => (hmem key).trans (hchildren key), ?_⟩
    intro i hi
    simpa using hi

/-- All listings together show no key twice if no two servers have the same child. -/
theorem nodup_flatMap_childrenOn (ns : Namespace) (dir : CString) :
    ((List.range ns.servers.nStatServers).flatMap fun s => ns.childrenOn s dir).Nodup ↔
      ∀ s < ns.servers.nStatServers, ∀ s' < ns.servers.nStatServers, ∀ key,
        ns.HasChild s dir key → ns.HasChild s' dir key → s = s' := by
  rw [List.nodup_flatMap]
  constructor
  · rintro ⟨-, hpairwise⟩ s hs s' hs' key hchild hchild'
    rw [← mem_childrenOn hs] at hchild
    rw [← mem_childrenOn hs'] at hchild'
    rw [List.pairwise_iff_getElem] at hpairwise
    rcases Nat.lt_trichotomy s s' with hlt | heq | hlt
    · have hdisjoint := hpairwise s s' (by simpa using hs) (by simpa using hs') hlt
      simp only [List.getElem_range] at hdisjoint
      exact absurd hchild' (hdisjoint hchild)
    · exact heq
    · have hdisjoint := hpairwise s' s (by simpa using hs') (by simpa using hs) hlt
      simp only [List.getElem_range] at hdisjoint
      exact absurd hchild (hdisjoint hchild')
  · intro hunique
    refine ⟨fun s _ => nodup_childrenOn ns s dir, ?_⟩
    refine List.Pairwise.imp_of_mem ?_ List.nodup_range
    intro s s' hs hs' hne key hchild hchild'
    rw [List.mem_range] at hs hs'
    rw [mem_childrenOn hs] at hchild
    rw [mem_childrenOn hs'] at hchild'
    exact hne (hunique s hs s' hs' key hchild hchild')

/-- A directory is listed right under exactly these conditions. -/
theorem listedRight_iff_listable (ns : Namespace) (stack : CString) (statIds : Nat → Nat)
    (path : DirPath) : ns.ListedRight stack statIds path ↔ ns.Listable stack path := by
  rw [Listable]
  by_cases hslash : '/' ∈ path.text.drop imssRoot.length
  · rw [if_pos hslash]
    cases hfind : ns.servers.find stack path.text with
    | none =>
        have hnone : getDir ns.servers stack statIds ns.cluster path.text = none := by
          rw [getDir, StatServers.asked, if_pos hslash, hfind]
          rfl
        constructor
        · rintro ⟨_, result, hresult, -⟩
          rw [hnone] at hresult
          cases hresult
        · rintro ⟨-, hsome, -⟩
          cases hsome
    | some mSrv =>
        have hasked : ns.servers.asked stack path.text = some (mSrv, 1) := by
          rw [StatServers.asked, if_pos hslash, hfind]
          rfl
        have hbound : mSrv < ns.servers.nStatServers := findServer_lt hfind
        rw [listedRight_iff statIds hasked (by decide) hbound, and_congr_right_iff]
        intro _
        constructor
        · rintro ⟨hknows, -, hchildren, rfl⟩
          refine ⟨rfl, hknows 0 (by decide), fun s hs key hchild => ?_⟩
          obtain ⟨i, hi, hzero⟩ := (hchildren key).mpr ⟨s, hs, hchild⟩
          obtain rfl : i = 0 := by omega
          exact hzero
        · rintro ⟨hsrv, hknows, hchildren⟩
          obtain rfl := Option.some.inj hsrv
          refine ⟨fun i hi => ?_, ?_, fun key => ⟨?_, ?_⟩, rfl⟩
          · obtain rfl : i = 0 := by omega
            exact hknows
          · simpa using nodup_childrenOn ns 0 path.uri
          · rintro ⟨i, hi, hchild⟩
            exact ⟨0 + i, by omega, hchild⟩
          · rintro ⟨s, hs, hchild⟩
            exact ⟨0, by decide, hchildren s hs key hchild⟩
  · rw [if_neg hslash]
    have hasked : ns.servers.asked stack path.text = some (0, ns.servers.nStatServers) := by
      rw [StatServers.asked, if_neg hslash]
    rw [listedRight_iff statIds hasked ns.pos (by omega), and_congr_right_iff]
    intro _
    simp only [Nat.zero_add]
    rw [nodup_flatMap_childrenOn, and_congr_right_iff]
    intro _
    exact ⟨fun h => h.1, fun hunique => ⟨hunique, fun key => Iff.rfl, trivial⟩⟩

end Namespace

/-- The directory `imss://a`. -/
def listedPath (slash : Bool) : DirPath where
  uri := "imss://a".toList
  slash := slash
  valid := .inr ⟨by decide, by decide⟩
  word := by decide
  nul_free := by decide

/-- Two metadata servers; a directory `imss://a` is created on the server where it is looked for,
which is server 1. -/
def spreadNamespace : Namespace :=
  (Namespace.start ⟨2, .roundRobin⟩ (by decide)).ask 1
    (.setOp "imss://a".toList ⟨⟨"imss://a/".toList, .directory⟩, 0, .attach, []⟩)
    ⟨by decide, by decide, by decide, by decide⟩

/-- The empty directory exists. Without a slash the call fails, since server 0 does not know it;
with a slash the reply of server 1 is put at index 1 of arrays with one place. -/
theorem not_listedRight :
    spreadNamespace.servers.find [] "imss://a".toList = some 1 ∧
      (spreadNamespace.cluster 1).Knows "imss://a".toList ∧
      ¬ spreadNamespace.ListedRight [] (fun _ => 0) (listedPath false) ∧
      ¬ spreadNamespace.ListedRight [] (fun _ => 0) (listedPath true) := by
  refine ⟨by decide +kernel, by decide +kernel, ?_, ?_⟩
  · rintro ⟨children, result, hresult, hitems, -⟩
    have hfails : (getDir spreadNamespace.servers [] (fun _ => 0) spreadNamespace.cluster
        (listedPath false).text).map (·.items) = some none := by decide +kernel
    rw [hresult, Option.map_some, hitems] at hfails
    cases hfails
  · rintro ⟨children, result, hresult, -, -, -, hindices⟩
    have houtside : (getDir spreadNamespace.servers [] (fun _ => 0) spreadNamespace.cluster
        (listedPath true).text).map (fun result => (result.indices, result.size)) =
          some ([1], 1) := by decide +kernel
    rw [hresult, Option.map_some] at houtside
    obtain ⟨hone, hsize⟩ := Prod.mk.inj (Option.some.inj houtside)
    rw [hone, hsize] at hindices
    exact absurd (hindices 1 List.mem_cons_self) (by decide)

end Hercules
