/-
# Which data server has which number

A data server registers with every metadata server, and each of them appends the host of
the server to its list. The number of a data server is its place in that list: it is the
order in which the registrations arrive, not the id that the server was started with. A
client copies the list of one metadata server when it opens the instance. Later it learns
of new servers from the notices that answer its performance reports, and appends the hosts
it does not know.

The replies of the metadata servers wait for a client in the order in which they come, and
a call takes the next one, whatever it is the answer to. So a notice may be old when it is
read, it may be read by a call that has no use for it, and another reply may be read in its
place. A connection to a server may fail; the place in the list is taken all the same, but the
second copy of the instance has lost its arrays.

`close_dataset` reads a notice only under a switch that is off in this build (`malleabilityOn`);
the step is what the code does when it is on. Nothing is said about servers that leave.
-/

import Hercules.Lib.Growing
import Hercules.Lib.Lines
import Hercules.Lib.Run
import Hercules.Cluster.Locality
import Hercules.Server.Commissioning

namespace Hercules

open Lib Lib.Text

universe u v

/-! ## The notice -/

/-- `PATH_MAX`, the size of the arrays in which a notice is put together. -/
def noticeSize : Nat := 4096

/-- `MSG_MALLEABILITY_DATASERVERS`. -/
def msgMalleabilityDataservers : CString :=
  ['D', 'A', 'T', 'A', 'S', 'E', 'R', 'V', 'E', 'R', 'S']

/-- The text of a notice: its name, the number of active servers, the id of the server that was
changed, and the hosts. -/
def dataServersText (numberActive idServerToModify : Int) (ips : List CString) : CString :=
  msgMalleabilityDataservers ++ ' ' :: (decimal numberActive ++ ' ' ::
    (decimal idServerToModify ++ ' ' :: join ',' ips))

/-- The notice that `CommissioningStage` sends. There is none if it does not fit the array. -/
def dataServersNotice (numberActive idServerToModify : Int) (ips : List CString) :
    Option CString :=
  let response := dataServersText numberActive idServerToModify ips
  if response.length < noticeSize then some response else none

/-- The `sscanf` of `close_dataset`: the fourth field of a message, empty if there is none. -/
def listOfActiveNodes (message : CString) : CString :=
  (do
    let (_, rest) ← scanWord message
    let (_, rest) ← scanInt rest
    let (_, rest) ← scanInt rest
    let (list, _) ← scanWord rest
    pure list).getD []

/-- The hosts that `close_dataset` finds in a message. -/
def noticeHosts (message : CString) : List CString :=
  tokens ',' (listOfActiveNodes message)

/-- A host name as it comes out of a `SETSERVER` request, without a comma. -/
structure PlainHost (host : CString) : Prop where
  ne_nil : host ≠ []
  word : IsWord host
  comma : ',' ∉ host

instance (host : CString) : Decidable (PlainHost host) :=
  decidable_of_iff (host ≠ [] ∧ IsWord host ∧ ',' ∉ host)
    ⟨fun h => ⟨h.1, h.2.1, h.2.2⟩, fun h => ⟨h.ne_nil, h.word, h.comma⟩⟩

section Notice

variable {ips : List CString} {message token : CString}

/-- The hosts in a notice are those of the list it was made from. -/
theorem noticeHosts_dataServersText (hplain : ∀ host ∈ ips, PlainHost host)
    (numberActive idServerToModify : Int) :
    noticeHosts (dataServersText numberActive idServerToModify ips) = ips := by
  have hlist : listOfActiveNodes (dataServersText numberActive idServerToModify ips) =
      join ',' ips := by
    rw [listOfActiveNodes, dataServersText,
      scanWord_append (by decide) (by decide) (endsField_space _)]
    simp only [Option.bind_eq_bind, Option.bind_some, scanInt_space,
      scanInt_append _ (endsField_space _), scanWord_space]
    by_cases hips : ips = []
    · subst hips
      rfl
    · have hne := join_ne_nil (c := ',') (fun host hhost => (hplain host hhost).ne_nil) hips
      have hword := isWord_join (c := ',') (by decide) fun host hhost => (hplain host hhost).word
      have hscan := scanWord_append hne hword endsField_nil
      rw [List.append_nil] at hscan
      rw [hscan]
      rfl
  rw [noticeHosts, hlist]
  exact tokens_join (fun host hhost => (hplain host hhost).comma)
    fun host hhost => (hplain host hhost).ne_nil

theorem isWord_listOfActiveNodes (message : CString) : IsWord (listOfActiveNodes message) := by
  rw [listOfActiveNodes]
  generalize hfields : (do
    let (_, rest) ← scanWord message
    let (_, rest) ← scanInt rest
    let (_, rest) ← scanInt rest
    let (list, _) ← scanWord rest
    pure list : Option CString) = fields
  cases fields with
  | none => exact fun _ hx => absurd hx List.not_mem_nil
  | some list =>
      simp only [Option.bind_eq_bind, Option.bind_eq_some_iff, Option.pure_def] at hfields
      obtain ⟨_, -, _, -, _, -, ⟨_, _⟩, hlist, hsome⟩ := hfields
      obtain rfl := Option.some.inj hsome
      exact isWord_of_scanWord hlist

/-- There is no blank in what `strtok` finds in a word. -/
theorem isWord_of_mem_noticeHosts (htoken : token ∈ noticeHosts message) : IsWord token :=
  fun _ hx => isWord_listOfActiveNodes message _ (mem_of_mem_tokens htoken hx)

theorem withoutNewline_of_isWord (hword : IsWord token) : withoutNewline token = token := by
  rw [withoutNewline]
  split
  next hlast =>
    have hspace := hword '\n' (List.mem_of_getLast? hlast)
    exact absurd hspace (by decide)
  next => rfl

end Notice

/-! ## The instance of a client -/

/-- The hosts of an instance and its arrays of connections. An element that nothing has been
assigned to is `none`; the address of the worker on a host and the endpoint to it stand for the
host. -/
structure ImssInstance where
  ips : List CString
  peerAddr : List (Option CString)
  eps : List (Option CString)
  id : List (Option Nat)
  matchingServer : Option Nat
  deriving DecidableEq

namespace ImssInstance

/-- What `open_imss` and `AddBackEndServer2Imss` do for one server: the server is asked for its
address, and an endpoint is created. There is no result if it cannot be reached. -/
def connect (node : ClientNode) (up : CString → Bool) (imss : ImssInstance)
    (server : CString × Nat) : Option ImssInstance :=
  let (host, i) := server
  if up host then
    some { imss with
      peerAddr := imss.peerAddr.set i (some host)
      id := imss.id.set i (some i)
      matchingServer := if node.agrees host then some i else imss.matchingServer
      eps := imss.eps.set i (some host) }
  else none

/-- The instance with its arrays before the loop of `open_imss`. -/
def allocated (ips : List CString) : ImssInstance where
  ips := ips
  peerAddr := List.replicate ips.length none
  eps := List.replicate ips.length none
  id := List.replicate ips.length none
  matchingServer := none

/-- `open_imss`, from the list of the metadata server on. -/
def openImss (node : ClientNode) (up : CString → Bool) (ips : List CString) :
    Option ImssInstance :=
  ips.zipIdx.foldlM (connect node up) (allocated ips)

/-- `realloc` of an array to `n` elements. -/
def resize {α : Type} (n : Nat) (array : List (Option α)) : List (Option α) :=
  array.take n ++ List.replicate (n - array.length) none

/-- The arrays of an instance are given the length of its list of hosts. -/
def realloc (imss : ImssInstance) : ImssInstance :=
  { imss with
    peerAddr := resize imss.ips.length imss.peerAddr
    eps := resize imss.ips.length imss.eps
    id := resize imss.ips.length imss.id }

end ImssInstance

/-- The two copies of the instance in a client: `curr_imss` and the element of `imssd`. Both point
to the same arrays, and `realloc` moves them: after it the element of `imssd` has none, until it is
replaced. -/
structure ImssClient where
  currImss : ImssInstance
  imssd : Option ImssInstance
  deriving DecidableEq

namespace ImssClient

/-- `AddBackEndServer2Imss`, for the last host of the list. The copy in `imssd` is replaced only if
the server can be reached; the result is not looked at by the caller. -/
def addBackEndServer (node : ClientNode) (up : CString → Bool) (client : ImssClient) :
    ImssClient :=
  let grown := client.currImss.realloc
  match grown.ips.getLast? with
  | none => client
  | some host =>
      match grown.connect node up (host, grown.ips.length - 1) with
      | some connected => ⟨connected, some connected⟩
      | none => ⟨grown, none⟩

/-- One round of the loop of `close_dataset` over the hosts of a notice. -/
def learn (node : ClientNode) (up : CString → Bool) (client : ImssClient) (token : CString) :
    ImssClient :=
  if client.currImss.ips.contains token then client
  else
    addBackEndServer node up
      { client with currImss := { client.currImss with ips := addIPS client.currImss.ips token } }

/-- What `close_dataset` does with the message it takes for a notice. -/
def receive (node : ClientNode) (up : CString → Bool) (client : ImssClient) (message : CString) :
    ImssClient :=
  (noticeHosts message).foldl (learn node up) client

end ImssClient

/-! ## The system -/

/-- The metadata servers `σ` with their lists, and the clients `κ` with the replies that wait for
them. -/
structure Membership (σ : Type u) (κ : Type v) where
  ips : σ → List CString
  mailbox : κ → List CString
  client : κ → Option ImssClient

/-- What may happen. The numbers in a notice are globals of the metadata server, and `up` says which
servers can be reached at the time. -/
inductive MembershipAction (σ : Type u) (κ : Type v)
  | setServer (server : σ) (host : CString)
  | notify (server : σ) (client : κ) (numberActive idServerToModify : Int)
  | reply (client : κ) (message : CString)
  | openImss (server : σ) (client : κ) (up : CString → Bool)
  | takeReply (client : κ)
  | takeNotice (client : κ) (up : CString → Bool)
  | getDataLocation (client : κ)

namespace Membership

variable {σ : Type u} {κ : Type v} [DecidableEq σ] [DecidableEq κ]

/-- The metadata servers have the instance, without any server, and no client has opened it. -/
def start : Membership σ κ :=
  ⟨fun _ => [], fun _ => [], fun _ => none⟩

/-- A message is on its way to a client. -/
def deliver (state : Membership σ κ) (c : κ) (message : CString) : Membership σ κ :=
  { state with mailbox := Function.update state.mailbox c (state.mailbox c ++ [message]) }

/-- One step. It is not possible if a call waits for a reply that has not been sent, and it has no
defined result if a call goes back to a copy that has lost its arrays. -/
def step (node : κ → ClientNode) (state : Membership σ κ) :
    MembershipAction σ κ → Option (Membership σ κ)
  | .setServer s host =>
      some { state with ips := Function.update state.ips s (addIPS (state.ips s) host) }
  | .notify s c numberActive idServerToModify =>
      (dataServersNotice numberActive idServerToModify (state.ips s)).map (state.deliver c)
  | .reply c message => some (state.deliver c message)
  | .openImss s c up =>
      match state.client c, ImssInstance.openImss (node c) up (state.ips s) with
      | none, some imss =>
          some { state with client := Function.update state.client c (some ⟨imss, some imss⟩) }
      | _, _ => some state
  | .takeReply c =>
      match state.mailbox c with
      | [] => none
      | _ :: messages => some { state with mailbox := Function.update state.mailbox c messages }
  | .takeNotice c up =>
      match state.client c, state.mailbox c with
      | some client, message :: messages =>
          some { state with
            mailbox := Function.update state.mailbox c messages
            client := Function.update state.client c (some (client.receive (node c) up message)) }
      | _, _ => none
  | .getDataLocation c =>
      match state.client c with
      | none => some state
      | some ⟨_, some imss⟩ =>
          some { state with client := Function.update state.client c (some ⟨imss, some imss⟩) }
      | some ⟨_, none⟩ => none

end Membership

/-! ## The connections of a client -/

theorem ImssInstance.resize_add_one {α : Type} (array : List (Option α)) :
    resize (array.length + 1) array = array ++ [none] := by
  rw [resize, List.take_of_length_le (Nat.le_succ _), Nat.add_sub_cancel_left]
  rfl

/-- Every element that has been assigned is the value at its place. -/
structure FilledFrom {α : Type} (array : List (Option α)) (values : List α) : Prop where
  length_eq : array.length = values.length
  value : ∀ (i : Nat) (x : α), array[i]? = some (some x) → values[i]? = some x

namespace FilledFrom

variable {α : Type} {array : List (Option α)} {values : List α}

theorem replicate_none (values : List α) :
    FilledFrom (List.replicate values.length none) values := by
  refine ⟨List.length_replicate, ?_⟩
  intro i x hx
  rw [List.getElem?_replicate] at hx
  split at hx
  · cases hx
  · cases hx

theorem set (hfilled : FilledFrom array values) {i : Nat} {x : α} (hx : values[i]? = some x) :
    FilledFrom (array.set i (some x)) values := by
  refine ⟨(List.length_set).trans hfilled.length_eq, ?_⟩
  intro j y hy
  rcases eq_or_ne i j with rfl | hne
  · rw [List.getElem?_set_self'] at hy
    obtain ⟨_, -, heq⟩ := Option.map_eq_some_iff.mp hy
    obtain rfl := Option.some.inj heq
    exact hx
  · rw [List.getElem?_set_ne hne] at hy
    exact hfilled.value j y hy

/-- One more element, not assigned yet. -/
theorem resize (hfilled : FilledFrom array values) (x : α) :
    FilledFrom (ImssInstance.resize (values ++ [x]).length array) (values ++ [x]) := by
  have hlength := hfilled.length_eq
  rw [List.length_append, List.length_singleton, ← hlength, ImssInstance.resize_add_one]
  refine ⟨by simp [hlength], ?_⟩
  intro i y hy
  rw [List.getElem?_append] at hy
  split at hy
  next hi =>
    rw [List.getElem?_append_left (by omega)]
    exact hfilled.value i y hy
  next hi =>
    rw [List.getElem?_singleton] at hy
    split at hy
    · cases hy
    · cases hy

end FilledFrom

/-- The endpoint of every server number leads to the host with this number. -/
structure ImssInstance.Wired (imss : ImssInstance) : Prop where
  peerAddr : FilledFrom imss.peerAddr imss.ips
  eps : FilledFrom imss.eps imss.ips
  id : FilledFrom imss.id (List.range imss.ips.length)

namespace ImssInstance

variable {node : ClientNode} {up : CString → Bool} {imss imss' : ImssInstance} {host : CString}
  {i : Nat}

theorem ips_connect (hconnect : imss.connect node up (host, i) = some imss') :
    imss'.ips = imss.ips := by
  rw [connect] at hconnect
  split at hconnect
  · obtain rfl := Option.some.inj hconnect
    rfl
  · cases hconnect

theorem Wired.connect (hwired : imss.Wired) (hhost : imss.ips[i]? = some host)
    (hconnect : imss.connect node up (host, i) = some imss') : imss'.Wired := by
  rw [ImssInstance.connect] at hconnect
  split at hconnect
  · obtain rfl := Option.some.inj hconnect
    have hi : i < imss.ips.length := (List.getElem?_eq_some_iff.mp hhost).1
    exact ⟨hwired.peerAddr.set hhost, hwired.eps.set hhost,
      hwired.id.set (by rw [List.getElem?_range hi])⟩
  · cases hconnect

theorem Wired.allocated (ips : List CString) : (allocated ips).Wired := by
  have hid := FilledFrom.replicate_none (List.range ips.length)
  rw [List.length_range] at hid
  exact ⟨FilledFrom.replicate_none ips, FilledFrom.replicate_none ips, hid⟩

/-- A loop over servers of the list. -/
theorem Wired.foldlM (hwired : imss.Wired) {servers : List (CString × Nat)}
    (hservers : ∀ server ∈ servers, imss.ips[server.2]? = some server.1)
    (hloop : servers.foldlM (ImssInstance.connect node up) imss = some imss') :
    imss'.Wired ∧ imss'.ips = imss.ips := by
  induction servers generalizing imss with
  | nil =>
      obtain rfl := Option.some.inj hloop
      exact ⟨hwired, rfl⟩
  | cons server servers ih =>
      rw [List.foldlM_cons] at hloop
      obtain ⟨next, hnext, hrest⟩ := Option.bind_eq_some_iff.mp hloop
      rw [List.forall_mem_cons] at hservers
      have hips := ips_connect hnext
      rw [← hips] at hservers ⊢
      exact ih (hwired.connect (hips ▸ hservers.1) hnext) hservers.2 hrest

theorem Wired.openImss {ips : List CString} (hopen : openImss node up ips = some imss) :
    imss.Wired ∧ imss.ips = ips := by
  refine Wired.foldlM (Wired.allocated ips) ?_ hopen
  intro server hserver
  exact List.mem_zipIdx_iff_getElem?.mp hserver

/-- The arrays grow with the list of hosts. -/
theorem Wired.realloc (hwired : imss.Wired) (host : CString) :
    ({ imss with ips := imss.ips ++ [host] } : ImssInstance).realloc.Wired := by
  have hid := hwired.id.resize imss.ips.length
  rw [← List.range_succ, List.length_range] at hid
  refine ⟨hwired.peerAddr.resize host, hwired.eps.resize host, ?_⟩
  simpa only [ImssInstance.realloc, List.length_append, List.length_singleton] using hid

end ImssInstance

namespace ImssClient

variable {node : ClientNode} {up : CString → Bool} {client : ImssClient} {token : CString}

/-- What a round of the loop may do to the two copies. -/
theorem learn_cases (client : ImssClient) (node : ClientNode) (up : CString → Bool)
    (hword : IsWord token) :
    (token ∈ client.currImss.ips ∧ client.learn node up token = client) ∨
      (token ∉ client.currImss.ips ∧
        ∃ grown, grown = ImssInstance.realloc
            { client.currImss with ips := client.currImss.ips ++ [token] } ∧
          ((up token = false ∧ client.learn node up token = ⟨grown, none⟩) ∨
            ∃ imss, grown.connect node up (token, client.currImss.ips.length) = some imss ∧
              client.learn node up token = ⟨imss, some imss⟩)) := by
  by_cases hmem : token ∈ client.currImss.ips
  · exact Or.inl ⟨hmem, if_pos (List.contains_iff_mem.mpr hmem)⟩
  · refine Or.inr ⟨hmem, _, rfl, ?_⟩
    have hlearn : client.learn node up token = addBackEndServer node up { client with
        currImss := { client.currImss with ips := client.currImss.ips ++ [token] } } := by
      rw [learn, if_neg (mt List.contains_iff_mem.mp hmem), addIPS, withoutNewline_of_isWord hword]
    rw [hlearn, addBackEndServer]
    simp only [ImssInstance.realloc, List.getLast?_append, List.getLast?_singleton,
      Option.some_or, List.length_append, List.length_singleton, Nat.add_sub_cancel]
    cases hup : up token with
    | false =>
        left
        simp [ImssInstance.connect, hup]
    | true =>
        right
        simp [ImssInstance.connect, hup]

theorem ips_learn (hword : IsWord token) :
    (client.learn node up token).currImss.ips = appendNew client.currImss.ips [token] := by
  obtain ⟨hmem, hlearn⟩ | ⟨hmem, grown, rfl, ⟨-, hlearn⟩ | ⟨imss, hconnect, hlearn⟩⟩ :=
    client.learn_cases node up hword
  · rw [hlearn, appendNew_of_mem hmem]
  · rw [hlearn, appendNew_of_notMem hmem]
    rfl
  · rw [hlearn, appendNew_of_notMem hmem]
    exact ImssInstance.ips_connect hconnect

/-- The list after a message: the unknown hosts of the message are appended. -/
theorem ips_receive (message : CString) :
    (client.receive node up message).currImss.ips =
      appendNew client.currImss.ips (noticeHosts message) := by
  have hwords : ∀ token ∈ noticeHosts message, IsWord token := fun _ => isWord_of_mem_noticeHosts
  rw [receive]
  generalize noticeHosts message = hosts at hwords
  induction hosts generalizing client with
  | nil => rfl
  | cons token hosts ih =>
      rw [List.forall_mem_cons] at hwords
      rw [List.foldl_cons, ih hwords.2, ips_learn hwords.1, ← appendNew_append]
      rfl

/-- The instance is wired, and the copy in `imssd` is the same unless it has lost its arrays. -/
structure Sound (client : ImssClient) : Prop where
  currImss : client.currImss.Wired
  imssd : ∀ imss ∈ client.imssd, imss = client.currImss

theorem Sound.learn (hsound : client.Sound) (hword : IsWord token) :
    (client.learn node up token).Sound := by
  obtain ⟨-, hlearn⟩ | ⟨hmem, grown, hgrown, hcases⟩ :=
    client.learn_cases node up hword
  · rw [hlearn]
    exact hsound
  · have hwired : grown.Wired := hgrown ▸ hsound.currImss.realloc token
    have hips : grown.ips = client.currImss.ips ++ [token] := hgrown ▸ rfl
    obtain ⟨-, hlearn⟩ | ⟨imss, hconnect, hlearn⟩ := hcases
    · rw [hlearn]
      exact ⟨hwired, fun imss himss => absurd himss (Option.not_mem_none imss)⟩
    · have hhost : grown.ips[client.currImss.ips.length]? = some token := by
        rw [hips, List.getElem?_concat_length]
      have hconnected := hwired.connect hhost hconnect
      rw [hlearn]
      exact ⟨hconnected, fun _ himss => (Option.mem_some_iff.mp himss).symm⟩

theorem Sound.receive (hsound : client.Sound) (message : CString) :
    (client.receive node up message).Sound :=
  List.foldlRecOn (noticeHosts message) (ImssClient.learn node up) hsound
    fun _ hsound _ hmem => hsound.learn (isWord_of_mem_noticeHosts hmem)

end ImssClient

/-! ## Agreement on the numbers of the servers -/

/-- The hosts that register have plain names, and no other reply looks like a notice with hosts. -/
def MembershipAction.Plain {σ : Type u} {κ : Type v} : MembershipAction σ κ → Prop
  | .setServer _ host => PlainHost host
  | .reply _ message => noticeHosts message = []
  | _ => True

instance {σ : Type u} {κ : Type v} (action : MembershipAction σ κ) : Decidable action.Plain :=
  match action with
  | .setServer _ host => inferInstanceAs (Decidable (PlainHost host))
  | .reply _ message => inferInstanceAs (Decidable (noticeHosts message = []))
  | .notify .. | .openImss .. | .takeReply _ | .takeNotice .. | .getDataLocation _ =>
      isTrue trivial

namespace Membership

variable {σ : Type u} {κ : Type v} [DecidableEq σ] [DecidableEq κ] {node : κ → ClientNode}
  {state state' : Membership σ κ} {action : MembershipAction σ κ} {order : List CString}

/-- What holds in every state, as long as the lists of the metadata servers are beginnings of one
list. -/
structure Inv (order : List CString) (state : Membership σ κ) : Prop where
  plain : ∀ s, ∀ host ∈ state.ips s, PlainHost host
  mailbox : ∀ c, ∀ message ∈ state.mailbox c, noticeHosts message <+: order
  known : ∀ c client, state.client c = some client → client.currImss.ips <+: order
  sound : ∀ c client, state.client c = some client → client.Sound

omit [DecidableEq σ] [DecidableEq κ] in
theorem Inv.start : Inv order (start : Membership σ κ) := by
  refine ⟨?_, ?_, ?_, ?_⟩
  · intro s host hhost
    exact absurd hhost List.not_mem_nil
  · intro c message hmessage
    exact absurd hmessage List.not_mem_nil
  · intro c client hclient
    cases hclient
  · intro c client hclient
    cases hclient

/-- What one step does to the list of a metadata server. -/
theorem ips_step (hstep : state.step node action = some state') (s : σ) :
    state'.ips s = state.ips s ∨
      ∃ host, action = .setServer s host ∧ state'.ips s = addIPS (state.ips s) host := by
  cases action with
  | setServer t host =>
      obtain rfl := Option.some.inj hstep
      rcases eq_or_ne s t with rfl | hne
      · exact Or.inr ⟨host, rfl, Function.update_self s _ _⟩
      · exact Or.inl (Function.update_of_ne hne _ _)
  | notify t c numberActive idServerToModify =>
      obtain ⟨message, -, rfl⟩ := Option.map_eq_some_iff.mp hstep
      exact Or.inl rfl
  | reply c message =>
      obtain rfl := Option.some.inj hstep
      exact Or.inl rfl
  | openImss t c up =>
      rw [Membership.step] at hstep
      split at hstep <;> (obtain rfl := Option.some.inj hstep; exact Or.inl rfl)
  | takeReply c =>
      rw [Membership.step] at hstep
      split at hstep
      · cases hstep
      · obtain rfl := Option.some.inj hstep
        exact Or.inl rfl
  | takeNotice c up =>
      rw [Membership.step] at hstep
      split at hstep
      · obtain rfl := Option.some.inj hstep
        exact Or.inl rfl
      · cases hstep
  | getDataLocation c =>
      rw [Membership.step] at hstep
      split at hstep
      · obtain rfl := Option.some.inj hstep
        exact Or.inl rfl
      · obtain rfl := Option.some.inj hstep
        exact Or.inl rfl
      · cases hstep

omit [DecidableEq σ] in
theorem mem_mailbox_deliver {c d : κ} {message sent : CString}
    (hmem : message ∈ (state.deliver d sent).mailbox c) :
    message ∈ state.mailbox c ∨ c = d ∧ message = sent := by
  rcases eq_or_ne c d with rfl | hne
  · have hmem' : message ∈ state.mailbox c ++ [sent] :=
      (Function.update_self c (state.mailbox c ++ [sent]) state.mailbox) ▸ hmem
    rcases List.mem_append.mp hmem' with hold | hnew
    · exact Or.inl hold
    · exact Or.inr ⟨rfl, List.mem_singleton.mp hnew⟩
  · exact Or.inl ((Function.update_of_ne hne _ state.mailbox) ▸ hmem)

theorem mem_of_mem_update_tail {c d : κ} {message first : CString} {messages : List CString}
    {mailbox : κ → List CString} (hmailbox : mailbox d = first :: messages)
    (hmem : message ∈ Function.update mailbox d messages c) : message ∈ mailbox c := by
  rcases eq_or_ne c d with rfl | hne
  · rw [Function.update_self] at hmem
    exact hmailbox ▸ List.mem_cons_of_mem first hmem
  · rwa [Function.update_of_ne hne] at hmem

/-- Where the messages of a client come from. -/
theorem mailbox_step (hstep : state.step node action = some state') {c : κ} {message : CString}
    (hmem : message ∈ state'.mailbox c) :
    message ∈ state.mailbox c ∨ action = .reply c message ∨
      ∃ s numberActive idServerToModify,
        message = dataServersText numberActive idServerToModify (state.ips s) := by
  cases action with
  | setServer t host =>
      obtain rfl := Option.some.inj hstep
      exact Or.inl hmem
  | notify s d numberActive idServerToModify =>
      obtain ⟨sent, hsent, rfl⟩ := Option.map_eq_some_iff.mp hstep
      rw [dataServersNotice] at hsent
      split at hsent
      · obtain rfl := Option.some.inj hsent
        rcases mem_mailbox_deliver hmem with hold | ⟨-, rfl⟩
        · exact Or.inl hold
        · exact Or.inr (Or.inr ⟨s, numberActive, idServerToModify, rfl⟩)
      · cases hsent
  | reply d sent =>
      obtain rfl := Option.some.inj hstep
      rcases mem_mailbox_deliver hmem with hold | ⟨rfl, rfl⟩
      · exact Or.inl hold
      · exact Or.inr (Or.inl rfl)
  | openImss t d up =>
      rw [Membership.step] at hstep
      split at hstep <;> (obtain rfl := Option.some.inj hstep; exact Or.inl hmem)
  | takeReply d =>
      rw [Membership.step] at hstep
      split at hstep
      next => cases hstep
      next first messages hmailbox =>
        obtain rfl := Option.some.inj hstep
        exact Or.inl (mem_of_mem_update_tail hmailbox hmem)
  | takeNotice d up =>
      rw [Membership.step] at hstep
      split at hstep
      next client first messages hclient hmailbox =>
        obtain rfl := Option.some.inj hstep
        exact Or.inl (mem_of_mem_update_tail hmailbox hmem)
      next => cases hstep
  | getDataLocation d =>
      rw [Membership.step] at hstep
      split at hstep
      · obtain rfl := Option.some.inj hstep
        exact Or.inl hmem
      · obtain rfl := Option.some.inj hstep
        exact Or.inl hmem
      · cases hstep

/-- What one step does to a client: nothing, or what a call of this client does. -/
theorem client_step (hstep : state.step node action = some state') (c : κ) :
    state'.client c = state.client c ∨
      (∃ s up imss, action = .openImss s c up ∧
        ImssInstance.openImss (node c) up (state.ips s) = some imss ∧
        state'.client c = some ⟨imss, some imss⟩) ∨
      (∃ up client message, action = .takeNotice c up ∧ state.client c = some client ∧
        message ∈ state.mailbox c ∧
        state'.client c = some (client.receive (node c) up message)) ∨
      ∃ client imss, state.client c = some client ∧ client.imssd = some imss ∧
        state'.client c = some ⟨imss, some imss⟩ := by
  cases action with
  | setServer t host =>
      obtain rfl := Option.some.inj hstep
      exact Or.inl rfl
  | notify s d numberActive idServerToModify =>
      obtain ⟨message, -, rfl⟩ := Option.map_eq_some_iff.mp hstep
      exact Or.inl rfl
  | reply d message =>
      obtain rfl := Option.some.inj hstep
      exact Or.inl rfl
  | openImss s d up =>
      rw [Membership.step] at hstep
      split at hstep
      next imss hnone hopen =>
        obtain rfl := Option.some.inj hstep
        rcases eq_or_ne c d with rfl | hne
        · exact Or.inr (Or.inl ⟨s, up, imss, rfl, hopen, Function.update_self c _ _⟩)
        · exact Or.inl (Function.update_of_ne hne _ _)
      next =>
        obtain rfl := Option.some.inj hstep
        exact Or.inl rfl
  | takeReply d =>
      rw [Membership.step] at hstep
      split at hstep
      · cases hstep
      · obtain rfl := Option.some.inj hstep
        exact Or.inl rfl
  | takeNotice d up =>
      rw [Membership.step] at hstep
      split at hstep
      next client message messages hclient hmailbox =>
        obtain rfl := Option.some.inj hstep
        rcases eq_or_ne c d with rfl | hne
        · exact Or.inr (Or.inr (Or.inl ⟨up, client, message, rfl, hclient,
            hmailbox ▸ List.mem_cons_self, Function.update_self c _ _⟩))
        · exact Or.inl (Function.update_of_ne hne _ _)
      next => cases hstep
  | getDataLocation d =>
      rw [Membership.step] at hstep
      split at hstep
      next =>
        obtain rfl := Option.some.inj hstep
        exact Or.inl rfl
      next currImss imss hclient =>
        obtain rfl := Option.some.inj hstep
        rcases eq_or_ne c d with rfl | hne
        · exact Or.inr (Or.inr (Or.inr ⟨_, imss, hclient, rfl, Function.update_self c _ _⟩))
        · exact Or.inl (Function.update_of_ne hne _ _)
      next => cases hstep

/-- The list of a metadata server only grows. -/
theorem prefix_ips_step (hstep : state.step node action = some state') (s : σ) :
    state.ips s <+: state'.ips s := by
  rcases ips_step hstep s with heq | ⟨host, -, heq⟩
  · rw [heq]
  · rw [heq]
    exact List.prefix_append _ _

theorem Inv.step (hnodup : order.Nodup) (hinv : Inv order state)
    (hips : ∀ s, state.ips s <+: order) (hplain : action.Plain)
    (hstep : state.step node action = some state') : Inv order state' := by
  have hclient : ∀ c client, state'.client c = some client →
      client.currImss.ips <+: order ∧ client.Sound := by
    intro c client' hclient'
    obtain heq | ⟨s, up, imss, -, hopen, heq⟩ | ⟨up, client, message, -, hclient, hmem, heq⟩ |
      ⟨client, imss, hclient, himss, heq⟩ := client_step hstep c
    · rw [heq] at hclient'
      exact ⟨hinv.known c client' hclient', hinv.sound c client' hclient'⟩
    · obtain rfl := Option.some.inj (heq.symm.trans hclient')
      obtain ⟨hwired, hlist⟩ := ImssInstance.Wired.openImss hopen
      exact ⟨hlist ▸ hips s, hwired, fun _ himss => (Option.mem_some_iff.mp himss).symm⟩
    · obtain rfl := Option.some.inj (heq.symm.trans hclient')
      refine ⟨?_, (hinv.sound c client hclient).receive message⟩
      rw [ImssClient.ips_receive]
      exact appendNew_beginning hnodup (hinv.known c client hclient) (hinv.mailbox c message hmem)
    · obtain rfl := Option.some.inj (heq.symm.trans hclient')
      have hsound := hinv.sound c client hclient
      obtain rfl := hsound.imssd imss himss
      exact ⟨hinv.known c client hclient, hsound.currImss,
        fun _ himss => (Option.mem_some_iff.mp himss).symm⟩
  refine ⟨?_, ?_, fun c client h => (hclient c client h).1,
    fun c client h => (hclient c client h).2⟩
  · intro s host hhost
    obtain heq | ⟨added, rfl, heq⟩ := ips_step hstep s
    · exact hinv.plain s host (heq ▸ hhost)
    · rw [heq, addIPS, withoutNewline_of_isWord (PlainHost.word hplain), List.mem_append,
        List.mem_singleton] at hhost
      rcases hhost with hold | rfl
      · exact hinv.plain s host hold
      · exact hplain
  · intro c message hmem
    obtain hold | rfl | ⟨s, numberActive, idServerToModify, rfl⟩ := mailbox_step hstep hmem
    · exact hinv.mailbox c message hold
    · rw [(hplain : noticeHosts message = [])]
      exact List.nil_prefix
    · rw [noticeHosts_dataServersText (hinv.plain s)]
      exact hips s

/-- The lists of an earlier state are beginnings of what the last ones are beginnings of. -/
theorem along_beginning {actions : List (MembershipAction σ κ)}
    (hrun : run (step node) actions state = some state') (horder : ∀ s, state'.ips s <+: order) :
    (∀ s, state.ips s <+: order) ∧
      Along (step node) (fun state _ => ∀ s, state.ips s <+: order) actions state := by
  induction actions generalizing state with
  | nil =>
      obtain rfl := Option.some.inj hrun
      exact ⟨horder, trivial⟩
  | cons action actions ih =>
      obtain ⟨next, hnext, hrest⟩ := Option.bind_eq_some_iff.mp hrun
      obtain ⟨hips, halong⟩ := ih hrest
      have hips' : ∀ s, state.ips s <+: order := fun s =>
        (prefix_ips_step hnext s).trans (hips s)
      refine ⟨hips', hips', ?_⟩
      intro next' hnext'
      obtain rfl := Option.some.inj (hnext.symm.trans hnext')
      exact halong

/-- Over every run, whatever the order of registrations, notices and calls: if the data servers
register with all metadata servers in one order, and none of them twice, every client numbers the
servers in this order, and two clients that both have an endpoint for a number reach the same host
with it. -/
theorem clients_agree (node : κ → ClientNode) (actions : List (MembershipAction σ κ))
    (hplain : ∀ action ∈ actions, action.Plain)
    (hrun : run (step node) actions start = some state) (hnodup : order.Nodup)
    (horder : ∀ s, state.ips s <+: order) :
    (∀ c client, state.client c = some client → client.currImss.ips <+: order) ∧
      ∀ c d first second, state.client c = some first → state.client d = some second →
        ∀ (i : Nat) (host host' : CString), first.currImss.eps[i]? = some (some host) →
          second.currImss.eps[i]? = some (some host') → host = host' ∧ order[i]? = some host := by
  obtain ⟨-, halong⟩ := along_beginning hrun horder
  have hinv : Inv order state := (halong.and_forall hplain).invariant
    (fun _ _ _ hinv hcond hstep => hinv.step hnodup hcond.1 hcond.2 hstep) Inv.start hrun
  have hhost : ∀ c client, state.client c = some client → ∀ (i : Nat) (host : CString),
      client.currImss.eps[i]? = some (some host) → order[i]? = some host := by
    intro c client hclient i host heps
    have hips := (hinv.sound c client hclient).currImss.eps.value i host heps
    obtain ⟨rest, rfl⟩ := hinv.known c client hclient
    rw [List.getElem?_append_left (List.getElem?_eq_some_iff.mp hips).1]
    exact hips
  refine ⟨hinv.known, ?_⟩
  intro c d first second hfirst hsecond i host host' heps heps'
  have horder' := hhost c first hfirst i host heps
  exact ⟨Option.some.inj (horder'.symm.trans (hhost d second hsecond i host' heps')), horder'⟩

/-- Two metadata servers, on which the hosts `a`, `b` and `c` register in this order; the second one
lags behind. The first client opens the instance early, takes the reply to another request for a
notice, and then an old notice and a new one, from different servers. It goes back to its copy of
the instance after the first of them; at the last one it cannot reach `c`, and has no copy to go
back to. The second client opens the instance late. -/
def lateNotices : List (MembershipAction Bool Bool) :=
  [.setServer true ['a'], .openImss true false fun _ => true, .setServer false ['a'],
    .setServer true ['b'], .reply false ['O', 'K'], .notify false false 1 0, .setServer true ['c'],
    .notify true false 3 2, .takeNotice false fun _ => true, .takeNotice false fun _ => true,
    .getDataLocation false, .setServer false ['b'], .takeNotice false fun host => host != ['c'],
    .openImss true true fun _ => true]

theorem clients_agree_lateNotices :
    ∃ state, run (step fun _ => ⟨['n'], ['1']⟩) lateNotices start = some state ∧
      (state.client false).map (fun client => (client.currImss.eps, client.imssd)) =
        some ([some ['a'], some ['b'], none], none) ∧
      (state.client true).map (fun client => client.currImss.eps) =
        some [some ['a'], some ['b'], some ['c']] ∧
      ∀ client, state.client false = some client →
        client.currImss.ips <+: [['a'], ['b'], ['c']] := by
  refine ⟨(run (step fun _ => ⟨['n'], ['1']⟩) lateNotices start).get (by decide +kernel),
    Option.eq_some_of_isSome _, by decide +kernel, by decide +kernel, ?_⟩
  exact (clients_agree _ _ (by decide +kernel) (Option.eq_some_of_isSome _) (by decide)
    (by decide +kernel)).1 false

end Membership

/-! ## An instance that grows is the instance that would be opened now -/

namespace ImssInstance

variable {node : ClientNode} {up : CString → Bool}

/-- The instance with a connection to every host of the list. -/
def connected (node : ClientNode) (ips : List CString) : ImssInstance where
  ips := ips
  peerAddr := ips.map some
  eps := ips.map some
  id := (List.range ips.length).map some
  matchingServer := node.matchingServerId ips

theorem set_length_append_replicate {α : Type} (array : List (Option α)) (x : α) (n : Nat) :
    (array ++ List.replicate (n + 1) none).set array.length (some x) =
      array ++ [some x] ++ List.replicate n none := by
  rw [List.set_append_right _ _ (Nat.le_refl _), Nat.sub_self, List.replicate_succ,
    List.set_cons_zero, List.append_assoc]
  rfl

/-- The loop of `open_imss` when the hosts before have been connected to. -/
theorem foldlM_connect (before after : List CString) (matching : Option Nat)
    (hup : ∀ host ∈ after, up host = true) :
    (after.zipIdx before.length).foldlM (connect node up)
        ⟨before ++ after, before.map some ++ List.replicate after.length none,
          before.map some ++ List.replicate after.length none,
          (List.range before.length).map some ++ List.replicate after.length none, matching⟩ =
      some ⟨before ++ after, (before ++ after).map some, (before ++ after).map some,
        (List.range (before ++ after).length).map some,
        node.matchingFrom before.length matching after⟩ := by
  induction after generalizing before matching with
  | nil => simp [ClientNode.matchingFrom]
  | cons host after ih =>
      rw [List.forall_mem_cons] at hup
      have hnext := ih (before ++ [host])
        (if node.agrees host then some before.length else matching) hup.2
      have hhosts := set_length_append_replicate (before.map some) host after.length
      have hids := set_length_append_replicate ((List.range before.length).map some)
        before.length after.length
      rw [List.length_map] at hhosts
      rw [List.length_map, List.length_range] at hids
      rw [List.zipIdx_cons, List.foldlM_cons, connect, if_pos hup.1, List.length_cons, hhosts,
        hids]
      simpa [List.range_succ, ClientNode.matchingFrom] using hnext

theorem openImss_eq_connected {ips : List CString} (hup : ∀ host ∈ ips, up host = true) :
    openImss node up ips = some (connected node ips) :=
  foldlM_connect [] ips none hup

theorem matchingFrom_append_singleton (node : ClientNode) (i : Nat) (matching : Option Nat)
    (ips : List CString) (host : CString) :
    node.matchingFrom i matching (ips ++ [host]) =
      if node.agrees host then some (i + ips.length) else node.matchingFrom i matching ips := by
  induction ips generalizing i matching with
  | nil => rfl
  | cons first ips ih =>
      rw [List.cons_append, ClientNode.matchingFrom, ih, ClientNode.matchingFrom, List.length_cons,
        Nat.add_assoc, Nat.add_comm 1]

/-- One more host is connected to. -/
theorem connect_realloc_connected (node : ClientNode) (ips : List CString) {host : CString}
    (hup : up host = true) :
    ({ connected node ips with ips := ips ++ [host] } : ImssInstance).realloc.connect node up
        (host, ips.length) = some (connected node (ips ++ [host])) := by
  have hhosts := set_length_append_replicate (ips.map some) host 0
  have hids := set_length_append_replicate ((List.range ips.length).map some) ips.length 0
  have hsize := resize_add_one (ips.map some)
  have hsize' := resize_add_one ((List.range ips.length).map some)
  rw [List.length_map] at hhosts hsize
  rw [List.length_map, List.length_range] at hids hsize'
  have hmatching := matchingFrom_append_singleton node 0 none ips host
  rw [Nat.zero_add] at hmatching
  rw [connect, if_pos hup]
  simp only [realloc, connected, ClientNode.matchingServerId, List.length_append,
    List.length_singleton, hsize, hsize', hmatching, List.map_append, List.range_succ]
  simp only [List.replicate_zero, List.append_nil, Nat.zero_add, List.replicate_one] at hhosts hids
  rw [hhosts, hids]
  rfl

end ImssInstance

namespace ImssClient

variable {node : ClientNode} {up : CString → Bool} {client : ImssClient} {token : CString}

/-- Both copies are the instance with a connection to every host of the list. -/
def Connected (node : ClientNode) (client : ImssClient) : Prop :=
  ∃ ips, client = ⟨.connected node ips, some (.connected node ips)⟩

theorem Connected.learn (hconnected : client.Connected node) (hup : ∀ host, up host = true)
    (hword : IsWord token) : (client.learn node up token).Connected node := by
  obtain ⟨ips, rfl⟩ := hconnected
  obtain ⟨-, hlearn⟩ | ⟨-, grown, rfl, ⟨hdown, -⟩ | ⟨imss, hconnect, hlearn⟩⟩ :=
    learn_cases ⟨.connected node ips, some (.connected node ips)⟩ node up hword
  · exact ⟨ips, hlearn⟩
  · rw [hup token] at hdown
    cases hdown
  · have hnext := ImssInstance.connect_realloc_connected node ips (hup token)
    obtain rfl := Option.some.inj (hconnect.symm.trans hnext)
    exact ⟨ips ++ [token], hlearn⟩

theorem Connected.receive (hconnected : client.Connected node) (hup : ∀ host, up host = true)
    (message : CString) : (client.receive node up message).Connected node :=
  List.foldlRecOn (noticeHosts message) (ImssClient.learn node up) hconnected
    fun _ hconnected _ hmem => hconnected.learn hup (isWord_of_mem_noticeHosts hmem)

end ImssClient

/-- The servers that are asked for their address can be reached. -/
def MembershipAction.Reaches {σ : Type u} {κ : Type v} : MembershipAction σ κ → Prop
  | .openImss _ _ up | .takeNotice _ up => ∀ host, up host = true
  | _ => True

namespace Membership

variable {σ : Type u} {κ : Type v} [DecidableEq σ] [DecidableEq κ] {node : κ → ClientNode}
  {state state' : Membership σ κ} {action : MembershipAction σ κ}

/-- Every client that has opened the instance is connected to all hosts it knows. -/
def AllConnected (node : κ → ClientNode) (state : Membership σ κ) : Prop :=
  ∀ c client, state.client c = some client → client.Connected (node c)

omit [DecidableEq σ] [DecidableEq κ] in
theorem AllConnected.start (node : κ → ClientNode) :
    AllConnected node (start : Membership σ κ) := by
  intro c client hclient
  cases hclient

theorem AllConnected.step (hconnected : AllConnected node state) (hreaches : action.Reaches)
    (hstep : state.step node action = some state') : AllConnected node state' := by
  intro c client' hclient'
  obtain heq | ⟨s, up, imss, rfl, hopen, heq⟩ | ⟨up, client, message, rfl, hclient, -, heq⟩ |
    ⟨client, imss, hclient, himss, heq⟩ := client_step hstep c
  · exact hconnected c client' (heq ▸ hclient')
  · obtain rfl := Option.some.inj (heq.symm.trans hclient')
    rw [ImssInstance.openImss_eq_connected fun host _ => hreaches host] at hopen
    obtain rfl := Option.some.inj hopen
    exact ⟨state.ips s, rfl⟩
  · obtain rfl := Option.some.inj (heq.symm.trans hclient')
    exact (hconnected c client hclient).receive hreaches message
  · obtain rfl := Option.some.inj (heq.symm.trans hclient')
    obtain ⟨ips, rfl⟩ := hconnected c client hclient
    obtain rfl := Option.some.inj himss
    exact ⟨ips, rfl⟩

/-- Over every run in which the servers can be reached, the instance of a client that has grown with
the notices is in every part the one that `open_imss` would build from the present list: hosts,
addresses, endpoints, ids and the matching server. Both copies of it are the same. -/
theorem instance_eq_openImss (node : κ → ClientNode) (actions : List (MembershipAction σ κ))
    (hreaches : ∀ action ∈ actions, action.Reaches)
    (hrun : run (step node) actions start = some state) (c : κ) (client : ImssClient)
    (hclient : state.client c = some client) :
    ImssInstance.openImss (node c) (fun _ => true) client.currImss.ips = some client.currImss ∧
      client.imssd = some client.currImss := by
  have hconnected : AllConnected node state := (Along.of_forall hreaches).invariant
    (fun _ _ _ hinv hcond hstep => hinv.step hcond hstep) (.start node) hrun
  obtain ⟨ips, rfl⟩ := hconnected c client hclient
  exact ⟨ImssInstance.openImss_eq_connected fun _ _ => rfl, rfl⟩

/-- A client on the node `b` opens the instance before the server on its own node registers. -/
def ownServerLater : List (MembershipAction Unit Unit) :=
  [.setServer () ['a'], .openImss () () fun _ => true, .setServer () ['b'], .setServer () ['c'],
    .notify () () 3 2, .takeNotice () fun _ => true]

theorem instance_eq_openImss_ownServerLater :
    ∃ client : ImssClient, client.currImss.ips = [['a'], ['b'], ['c']] ∧
      client.currImss.matchingServer = some 1 ∧
      ImssInstance.openImss ⟨['b'], ['9']⟩ (fun _ => true) client.currImss.ips =
        some client.currImss := by
  have hreaches : ∀ action ∈ ownServerLater, action.Reaches := by
    simp [ownServerLater, MembershipAction.Reaches]
  refine ⟨((run (step fun _ => ⟨['b'], ['9']⟩) ownServerLater start).get
    (by decide +kernel)).client () |>.get (by decide +kernel), by decide +kernel,
    by decide +kernel, ?_⟩
  exact (instance_eq_openImss _ _ hreaches (Option.eq_some_of_isSome _) () _
    (Option.eq_some_of_isSome _)).1

end Membership

end Hercules
