/-
# Requests and replies on shared channels

A client sends requests to a service and takes replies from channels that preserve
the order of messages. Nothing in a reply says which request it answers: the client
takes as many messages as it expects, whatever they are. Here each message carries the
number of the request it was sent for, which the client does not see, so that one can
say whether the replies it takes are the right ones.

A surplus message stays in its channel and is taken after a later request; if a message
is missing, the client waits. If every request is balanced, neither happens in a whole
run.
-/

import Mathlib.Data.List.TakeWhile
import Mathlib.Logic.Function.Basic

namespace Hercules.Lib

universe u v w x y z

/-- A program that sends requests and goes on with the replies it takes. -/
inductive Program (Req : Type u) (Rep : Type v) (α : Type w)
  | done (value : α)
  | ask (req : Req) (next : List Rep → Program Req Rep α)

namespace Program

variable {Req : Type u} {Rep : Type v} {α β : Type w}

/-- One program after the other. -/
def bind : Program Req Rep α → (α → Program Req Rep β) → Program Req Rep β
  | done value, rest => rest value
  | ask req next, rest => ask req fun replies => (next replies).bind rest

instance : Monad (Program Req Rep) where
  pure := done
  bind := bind

end Program

/-- The program of a single request. -/
def request {Req : Type u} {Rep : Type v} (req : Req) : Program Req Rep (List Rep) :=
  .ask req .done

/-- A service, and what its clients do after a request: the channel they look at, how
many messages they take from it, and which messages they do not take. A client that
finds such a message gives up waiting. -/
structure Service (S : Type u) (Req : Type v) (Rep : Type w) (Ch : Type x) where
  serve : S → Req → List Rep × S
  channel : Req → Ch
  awaits : Req → Nat
  accepts : Rep → Bool

/-- The service, the messages that wait in each channel with the numbers of the requests
they were sent for, and the number of the next request. -/
structure Link (S : Type u) (Rep : Type w) (Ch : Type x) where
  server : S
  queue : Ch → List (Nat × Rep)
  count : Nat

/-- A request that was sent: its number, the state of the service that it met, and the
messages that the client took. -/
structure Event (S : Type u) (Req : Type v) (Rep : Type w) where
  number : Nat
  before : S
  req : Req
  taken : List (Nat × Rep)

namespace Service

variable {S : Type u} {Req : Type v} {Rep : Type w} {Ch : Type x} {α : Type y}
  (service : Service S Req Rep Ch)

/-- The messages in the channel of a request once the service has answered. -/
def arrived (link : Link S Rep Ch) (req : Req) : List (Nat × Rep) :=
  link.queue (service.channel req) ++ (service.serve link.server req).1.map (Prod.mk link.count)

/-- The messages that the client takes then. -/
def taken (link : Link S Rep Ch) (req : Req) : List (Nat × Rep) :=
  ((service.arrived link req).take (service.awaits req)).takeWhile fun message =>
    service.accepts message.2

/-- The client waits for a message that is not there. -/
def Waits (link : Link S Rep Ch) (req : Req) : Prop :=
  (service.taken link req).length < service.awaits req ∧
    (service.arrived link req).length = (service.taken link req).length

instance (link : Link S Rep Ch) (req : Req) : Decidable (service.Waits link req) :=
  inferInstanceAs (Decidable (_ ∧ _))

/-- What is left after a request. -/
def after [DecidableEq Ch] (link : Link S Rep Ch) (req : Req) : Link S Rep Ch where
  server := (service.serve link.server req).2
  queue := Function.update link.queue (service.channel req)
    ((service.arrived link req).drop (service.taken link req).length)
  count := link.count + 1

/-- The requests of a program, and its result unless it waits forever. -/
def trace [DecidableEq Ch] :
    Program Req Rep α → Link S Rep Ch → List (Event S Req Rep) × Option (α × Link S Rep Ch)
  | .done value, link => ([], some (value, link))
  | .ask req next, link =>
      let event : Event S Req Rep := ⟨link.count, link.server, req, service.taken link req⟩
      if service.Waits link req then ([event], none)
      else
        let rest := trace (next ((service.taken link req).map Prod.snd)) (service.after link req)
        (event :: rest.1, rest.2)

/-- The service sends what its client takes. -/
def Balanced (s : S) (req : Req) : Prop :=
  (service.serve s req).1.length = service.awaits req ∧
    ∀ reply ∈ (service.serve s req).1, service.accepts reply = true

/-- The number of replies that are sent, that of the messages that are taken and that of
the messages that are expected are the same, and each message taken was sent for the
request. -/
def Aligned (event : Event S Req Rep) : Prop :=
  (service.serve event.before event.req).1.length = event.taken.length ∧
    event.taken.length = service.awaits event.req ∧
      ∀ message ∈ event.taken, message.1 = event.number

instance (event : Event S Req Rep) : Decidable (service.Aligned event) :=
  inferInstanceAs (Decidable (_ ∧ _ ∧ _))

/-- No message waits. -/
def Quiet (link : Link S Rep Ch) : Prop :=
  ∀ channel, link.queue channel = []

variable {service} {link : Link S Rep Ch} {req : Req}

theorem arrived_of_quiet (hquiet : Quiet link) :
    service.arrived link req =
      (service.serve link.server req).1.map (Prod.mk link.count) := by
  rw [arrived, hquiet, List.nil_append]

/-- If nothing waits, the replies to a balanced request are what the client takes. -/
theorem taken_of_balanced (hquiet : Quiet link) (hbalanced : service.Balanced link.server req) :
    service.taken link req =
      (service.serve link.server req).1.map (Prod.mk link.count) := by
  rw [taken, arrived_of_quiet hquiet, List.take_of_length_le, List.takeWhile_eq_self_iff]
  · intro message hmem
    obtain ⟨reply, hreply, rfl⟩ := List.mem_map.mp hmem
    exact hbalanced.2 reply hreply
  · rw [List.length_map, hbalanced.1]

/-- After a balanced request nothing waits again. -/
theorem quiet_after [DecidableEq Ch] (hquiet : Quiet link)
    (hbalanced : service.Balanced link.server req) :
    Quiet (service.after link req) := by
  intro channel
  simp only [after]
  by_cases hchannel : channel = service.channel req
  · subst hchannel
    rw [Function.update_self, arrived_of_quiet hquiet, taken_of_balanced hquiet hbalanced,
      List.drop_length]
  · rw [Function.update_of_ne hchannel, hquiet]

theorem not_waits_of_balanced (hquiet : Quiet link)
    (hbalanced : service.Balanced link.server req) : ¬ service.Waits link req := by
  rw [Waits, taken_of_balanced hquiet hbalanced, List.length_map, hbalanced.1]
  omega

/-- For a single request that meets empty channels, balanced is aligned. -/
theorem aligned_iff_balanced (hquiet : Quiet link) :
    service.Aligned ⟨link.count, link.server, req, service.taken link req⟩ ↔
      service.Balanced link.server req := by
  constructor
  · rintro ⟨hsent, htaken, -⟩
    simp only at hsent htaken
    refine ⟨hsent.trans htaken, fun reply hreply => ?_⟩
    -- as many messages are taken as have arrived, so none of them was refused
    have hprefix : service.taken link req <+: service.arrived link req :=
      (List.takeWhile_prefix _).trans (List.take_prefix _ _)
    have hall : service.taken link req = service.arrived link req :=
      hprefix.eq_of_length (by rw [arrived_of_quiet hquiet, List.length_map, hsent])
    have hmem : (link.count, reply) ∈ service.taken link req := by
      rw [hall, arrived_of_quiet hquiet]
      exact List.mem_map_of_mem hreply
    rw [taken] at hmem
    have haccepted := List.mem_takeWhile_imp hmem
    exact haccepted
  · intro hbalanced
    rw [Aligned]
    simp only [taken_of_balanced hquiet hbalanced, List.length_map]
    refine ⟨trivial, hbalanced.1, fun message hmem => ?_⟩
    obtain ⟨reply, -, rfl⟩ := List.mem_map.mp hmem
    rfl

/-- A program whose requests are all balanced ends, with the right reply to each request
and nothing left over. -/
theorem aligned_of_balanced [DecidableEq Ch] (program : Program Req Rep α) (hquiet : Quiet link)
    (hbalanced : ∀ event ∈ (service.trace program link).1,
      service.Balanced event.before event.req) :
    (∀ event ∈ (service.trace program link).1, service.Aligned event) ∧
      ∃ value link', (service.trace program link).2 = some (value, link') ∧ Quiet link' := by
  induction program generalizing link with
  | done value => exact ⟨by simp [trace], value, link, rfl, hquiet⟩
  | ask req next ih =>
      have hfirst : service.Balanced link.server req := by
        refine hbalanced ⟨link.count, link.server, req, service.taken link req⟩ ?_
        simp only [trace]
        split <;> exact List.mem_cons_self
      have hwaits := not_waits_of_balanced hquiet hfirst
      simp only [trace, if_neg hwaits, List.forall_mem_cons] at hbalanced ⊢
      obtain ⟨hrest, hend⟩ := ih _ (quiet_after hquiet hfirst) hbalanced.2
      exact ⟨⟨(aligned_iff_balanced hquiet).mpr hfirst, hrest⟩, hend⟩

/-- In a run from empty channels all requests are aligned exactly if all are balanced. -/
theorem forall_aligned_iff [DecidableEq Ch] (program : Program Req Rep α) (hquiet : Quiet link) :
    (∀ event ∈ (service.trace program link).1, service.Aligned event) ↔
      ∀ event ∈ (service.trace program link).1, service.Balanced event.before event.req := by
  refine ⟨fun haligned => ?_, fun hbalanced => (aligned_of_balanced program hquiet hbalanced).1⟩
  induction program generalizing link with
  | done value => simp [trace]
  | ask req next ih =>
      have hfirst : service.Balanced link.server req := by
        refine (aligned_iff_balanced hquiet).mp (haligned _ ?_)
        simp only [trace]
        split <;> exact List.mem_cons_self
      have hwaits := not_waits_of_balanced hquiet hfirst
      simp only [trace, if_neg hwaits, List.forall_mem_cons] at haligned ⊢
      exact ⟨hfirst, ih _ (quiet_after hquiet hfirst) haligned.2⟩

end Service

end Hercules.Lib
