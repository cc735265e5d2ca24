/-
# One metadata server for a subtree

A client asks the metadata server that `find_server` returns for the first component of
a path, so that a directory and everything below it should be looked for on one server,
however the path is spelled. The first component itself does not depend on what follows
it. What `find_server` makes of it is a matter of the session's policy: two of the
policies hash memory that was never filled, and one has no case in the switch.

A dataset's own directory is cut off at the last slash, and neither a trailing slash nor
the number of a block hides it.
-/

import Hercules.Cluster.Routing

namespace Hercules

open Lib.Text

/-- A component of a URI. -/
abbrev Component := { text : CString // text ≠ [] ∧ '/' ∉ text }

/-- The URI of `first`, a component below the root, and of the components after it. -/
def componentUri (first : Component) (more : List Component) : CString :=
  imssRoot ++ first.1 ++ more.flatMap fun component => '/' :: component.1

/-- A URI is spelled with or without a slash at its end. -/
def spelled (uri : CString) (slash : Bool) : CString :=
  if slash then uri ++ ['/'] else uri

/-- What may follow the name of a dataset: nothing, a slash or the number of a block. -/
inductive KeyEnding
  | plain
  | slash
  | block (number : Int)

def KeyEnding.text : KeyEnding → CString
  | .plain => []
  | .slash => ['/']
  | .block number => '$' :: decimal number

variable (first : Component) (more : List Component)

theorem imssRoot_prefix_componentUri : imssRoot <+: componentUri first more := by
  rw [componentUri, List.append_assoc]
  exact List.prefix_append _ _

/-- Whatever follows the first component begins with a slash. -/
theorem findFirstParentDir_of_slash (tail : CString) :
    findFirstParentDir (imssRoot ++ first.1 ++ '/' :: tail) = imssRoot ++ first.1 := by
  rw [findFirstParentDir, List.append_assoc, List.take_left, List.drop_left,
    upTo_append_cons first.2.2]

theorem findFirstParentDir_alone :
    findFirstParentDir (imssRoot ++ first.1) = imssRoot ++ first.1 := by
  rw [findFirstParentDir, List.take_left, List.drop_left, upTo_of_notMem first.2.2]

/-- The first parent directory of a URI is that of its first component. -/
theorem findFirstParentDir_spelled (slash : Bool) :
    findFirstParentDir (spelled (componentUri first more) slash) = imssRoot ++ first.1 := by
  cases more with
  | nil =>
      cases slash with
      | false =>
          rw [spelled, componentUri]
          simpa using findFirstParentDir_alone first
      | true =>
          rw [spelled, componentUri]
          simpa using findFirstParentDir_of_slash first []
  | cons component more =>
      obtain ⟨tail, htail⟩ : ∃ tail, spelled (componentUri first (component :: more)) slash =
          imssRoot ++ first.1 ++ '/' :: tail := by
        cases slash with
        | false => exact ⟨_, rfl⟩
        | true =>
            refine ⟨component.1 ++ (more.flatMap fun component => '/' :: component.1) ++ ['/'], ?_⟩
            simp [spelled, componentUri]
      rw [htail]
      exact findFirstParentDir_of_slash first tail

/-- A dataset is filed in its directory under each of its endings. -/
theorem findLastParentDir_ending {dir : CString} (hdir : imssRoot <+: dir) (name : Component)
    (ending : KeyEnding) : findLastParentDir (dir ++ '/' :: name.1 ++ ending.text) = dir := by
  rw [List.append_assoc, List.cons_append]
  have hne : name.1 ++ ending.text ≠ [] := by
    simp [name.2.1]
  apply findLastParentDir_child hdir hne
  cases ending with
  | plain =>
      intro hslash
      have hmem := (removeLastSlash_prefix_self _).subset hslash
      simp [KeyEnding.text, name.2.2] at hmem
  | slash => simp [KeyEnding.text, removeLastSlash, name.2.2]
  | block number =>
      intro hslash
      have hmem := (removeLastSlash_prefix_self _).subset hslash
      simp [KeyEnding.text, name.2.2, slash_notMem_decimal] at hmem

/-- Every spelling of a URI and of what is below it has one first parent directory and one
metadata server, and what is filed in it is filed so under each of its endings. -/
def Colocated (servers : StatServers) (first : Component) (more : List Component) : Prop :=
  (∀ further slash, findFirstParentDir (spelled (componentUri first (more ++ further)) slash) =
      findFirstParentDir (componentUri first more)) ∧
    (∃ server < servers.nStatServers, ∀ stack further slash,
      servers.find stack (spelled (componentUri first (more ++ further)) slash) = some server) ∧
    (∀ (name : Component) (ending : KeyEnding),
      findLastParentDir (componentUri first more ++ '/' :: name.1 ++ ending.text) =
        componentUri first more)

/-- The metadata server of a URI is that of its first component. -/
theorem find_spelled (servers : StatServers) (stack : CString) (slash : Bool) :
    servers.find stack (spelled (componentUri first more) slash) =
      findServer stack servers.nStatServers 0 (imssRoot ++ first.1) servers.sessionPlcy := by
  rw [StatServers.find, findFirstParentDir_spelled]

/-- A subtree is on one metadata server unless the policy is `BUCKETS` or, with several
servers, one of the two CRC policies. -/
theorem colocated_iff (servers : StatServers) (hpos : 0 < servers.nStatServers)
    (hfits : servers.nStatServers < 2 ^ 31) (first : Component) (more : List Component) :
    Colocated servers first more ↔
      servers.sessionPlcy ≠ .buckets ∧ (servers.nStatServers = 1 ∨
        servers.sessionPlcy ≠ .crc16 ∧ servers.sessionPlcy ≠ .crc64) := by
  have hdetermined : Determined servers.nStatServers (0 : Nat) (imssRoot ++ first.1)
      servers.sessionPlcy ↔ _ :=
    determined_iff hpos (by omega) _
  rw [← hdetermined]
  constructor
  · rintro ⟨-, ⟨server, hserver, hfind⟩, -⟩
    refine ⟨server, hserver, fun stack => ?_⟩
    have hself := hfind stack [] false
    rwa [find_spelled] at hself
  · rintro ⟨server, hserver, hfind⟩
    refine ⟨fun further slash => ?_, ⟨server, hserver, fun stack further slash => ?_⟩, ?_⟩
    · have hself := findFirstParentDir_spelled first more false
      rw [findFirstParentDir_spelled]
      exact hself.symm
    · rw [find_spelled]
      exact hfind stack
    · intro name ending
      exact findLastParentDir_ending (imssRoot_prefix_componentUri first more) name ending

theorem component_d : ['d'] ≠ [] ∧ '/' ∉ ['d'] := by
  decide

theorem component_f : ['f'] ≠ [] ∧ '/' ∉ ['f'] := by
  decide

/-- Three servers under round robin. -/
theorem colocated_roundRobin : Colocated ⟨3, .roundRobin⟩ ⟨['d'], component_d⟩ [] :=
  (colocated_iff ⟨3, .roundRobin⟩ (by decide) (by decide) _ _).mpr (by decide)

/-- Under `CRC16b` a directory and a file in it have one first parent directory, and are looked
for on two servers. -/
theorem not_colocated :
    let servers : StatServers := ⟨2, .crc16⟩
    let dir := componentUri ⟨['d'], component_d⟩ []
    let file := componentUri ⟨['d'], component_d⟩ [⟨['f'], component_f⟩]
    findFirstParentDir dir = findFirstParentDir file ∧
      servers.find ['a'] dir = some 1 ∧ servers.find ['b'] file = some 0 ∧
      ¬ Colocated servers ⟨['d'], component_d⟩ [] := by
  refine ⟨by decide +kernel, by decide +kernel, by decide +kernel, ?_⟩
  rintro ⟨-, ⟨server, -, hfind⟩, -⟩
  have ha := hfind ['a'] [] false
  have hb := hfind ['b'] [] false
  have hservers : StatServers.find ⟨2, .crc16⟩ ['a']
        (spelled (componentUri ⟨['d'], component_d⟩ []) false) ≠
      StatServers.find ⟨2, .crc16⟩ ['b']
        (spelled (componentUri ⟨['d'], component_d⟩ []) false) := by
    decide +kernel
  exact hservers (ha.trans hb.symm)

end Hercules
