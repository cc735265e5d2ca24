/-
# Clients of one service

Each client runs a program that sends requests to a shared service and goes on with the
replies. Between two requests of one program the requests of others may come, and the
service may do something on its own. What an answer depends on besides the service comes
from outside. The service may also stop at a request, and then there is no next state.

A client's log has what its program has asked and been answered since the call began. No
program reads it: it says what the client knows, which the service may have forgotten. `Traced`
is the triple of a program over logs. A request is sent at a log that meets the precondition
its program guarantees; an invariant of the service may use that, together with what a run
assumes about requests.
-/

import Hercules.Lib.Exchange
import Hercules.Lib.Run

namespace Hercules.Lib

/-! ## Programs and their logs -/

/-- What was asked and answered. -/
abbrev Log (Req Rep : Type) := List (Req × List Rep)

namespace Program

variable {Req Rep α β : Type} {P : Log Req Rep → Req → Prop} {R : Req → Prop} {log : Log Req Rep}

/-- After the log, every request meets `P` and every result meets `Q`, whatever the replies. -/
def Traced (P : Log Req Rep → Req → Prop) (Q : Log Req Rep → α → Prop) :
    Program Req Rep α → Log Req Rep → Prop
  | .done value, log => Q log value
  | .ask req next, log =>
      P log req ∧ ∀ replies, (next replies).Traced P Q (log ++ [(req, replies)])

theorem traced_done {Q : Log Req Rep → α → Prop} {value : α} :
    (done value).Traced P Q log ↔ Q log value :=
  Iff.rfl

theorem Traced.mono {Q Q' : Log Req Rep → α → Prop}
    (hpost : ∀ log value, Q log value → Q' log value) {program : Program Req Rep α}
    (h : program.Traced P Q log) : program.Traced P Q' log := by
  induction program generalizing log with
  | done value => exact hpost log value h
  | ask req next ih => exact ⟨h.1, fun replies => ih replies (h.2 replies)⟩

/-- One program after the other: the second begins with the log of the first. -/
theorem traced_bind {Q : Log Req Rep → β → Prop} {program : Program Req Rep α}
    {rest : α → Program Req Rep β} :
    (program >>= rest).Traced P Q log ↔
      program.Traced P (fun log value => (rest value).Traced P Q log) log := by
  induction program generalizing log with
  | done value => exact Iff.rfl
  | ask req next ih => exact and_congr_right fun _ => forall_congr' fun replies => ih replies

/-- Every request is in `R`. -/
def Asks (R : Req → Prop) : Program Req Rep α → Prop
  | .done _ => True
  | .ask req next => R req ∧ ∀ replies, (next replies).Asks R

theorem Asks.bind {program : Program Req Rep α} {rest : α → Program Req Rep β}
    (h : program.Asks R) (hrest : ∀ value, (rest value).Asks R) : (program >>= rest).Asks R := by
  induction program with
  | done value => exact hrest value
  | ask req next ih => exact ⟨h.1, fun replies => ih replies (h.2 replies)⟩

theorem asks_request {req : Req} (h : R req) :
    (request req : Program Req Rep (List Rep)).Asks R :=
  ⟨h, fun _ => trivial⟩

/-- What the requests in `R` keep of the log holds at the end. -/
theorem Asks.traced {I : Log Req Rep → Prop} {program : Program Req Rep α} (h : program.Asks R)
    (hpre : ∀ log req, R req → I log → P log req)
    (hkeeps : ∀ log req replies, R req → I log → I (log ++ [(req, replies)])) (hlog : I log) :
    program.Traced P (fun log _ => I log) log := by
  induction program generalizing log with
  | done value => exact hlog
  | ask req next ih =>
      refine ⟨hpre log req h.1 hlog, fun replies => ?_⟩
      exact ih replies (h.2 replies) (hkeeps log req replies h.1 hlog)

/-- Requests that are always in place. -/
theorem Asks.traced_true {program : Program Req Rep α}
    (h : program.Asks fun req => ∀ log, P log req) :
    program.Traced P (fun _ _ => True) log :=
  h.traced (fun log _ hreq _ => hreq log) (fun _ _ _ _ _ => trivial) trivial

end Program

/-! ## Clients -/

variable {ι S Req Rep α Call E : Type}

/-- The program of a call, with what the client keeps between its calls, how the service
answers a request, and what it does on its own. -/
structure Protocol (S Req Rep α Call E : Type) where
  start : Call → α → Program Req Rep α
  serve : S → Req → E → Option (List Rep × S)
  work : S → S

/-- A client in a call: what it began with, what it has asked since, and what it still has to
do. -/
structure Caller (Req Rep α : Type) where
  value : α
  log : Log Req Rep
  program : Program Req Rep α

/-- The service and the clients. A client whose program is done can start a call. -/
structure Clients (ι S Req Rep α : Type) where
  server : S
  client : ι → Caller Req Rep α

/-- A client starts a call or sends its next request, or the service works on its own. -/
inductive ClientsAction (ι Call E : Type)
  | start (c : ι) (call : Call)
  | advance (c : ι) (outside : E)
  | work

/-- All clients begin with the same. -/
def Clients.init (server : S) (value : α) : Clients ι S Req Rep α :=
  ⟨server, fun _ => ⟨value, [], .done value⟩⟩

namespace Protocol

variable (protocol : Protocol S Req Rep α Call E)

/-- One step. -/
def step [DecidableEq ι] (state : Clients ι S Req Rep α) :
    ClientsAction ι Call E → Option (Clients ι S Req Rep α)
  | .start c call =>
      match (state.client c).program with
      | .done value =>
          some { state with
            client := Function.update state.client c ⟨value, [], protocol.start call value⟩ }
      | .ask _ _ => none
  | .advance c outside =>
      match (state.client c).program with
      | .done _ => none
      | .ask req next =>
          (protocol.serve state.server req outside).map fun answer =>
            ⟨answer.2, Function.update state.client c ⟨(state.client c).value,
              (state.client c).log ++ [(req, answer.1)], next answer.1⟩⟩
  | .work => some { state with server := protocol.work state.server }

/-- What a step asks of the service meets the condition for requests, which may depend on what the
client knows, or that for work. -/
def Meets (onRequest : S → α → Log Req Rep → Req → Prop) (onWork : S → Prop)
    (state : Clients ι S Req Rep α) : ClientsAction ι Call E → Prop
  | .start _ _ => True
  | .advance c _ =>
      match (state.client c).program with
      | .done _ => True
      | .ask req _ => onRequest state.server (state.client c).value (state.client c).log req
  | .work => onWork state.server

instance {onRequest : S → α → Log Req Rep → Req → Prop} {onWork : S → Prop}
    [∀ server value log req, Decidable (onRequest server value log req)]
    [∀ server, Decidable (onWork server)] (state : Clients ι S Req Rep α) :
    ∀ action : ClientsAction ι Call E, Decidable (Meets onRequest onWork state action)
  | .start _ _ => isTrue trivial
  | .advance c _ =>
      match h : (state.client c).program with
      | .done _ => isTrue (by simp only [Meets, h])
      | .ask req _ =>
          decidable_of_iff
            (onRequest state.server (state.client c).value (state.client c).log req)
            (by simp only [Meets, h])
  | .work => inferInstanceAs (Decidable (onWork state.server))

variable {protocol} [DecidableEq ι] {P : α → Log Req Rep → Req → Prop}
  {onRequest : S → α → Log Req Rep → Req → Prop} {onWork : S → Prop} {Inv : S → Prop}

/-- The service meets the invariant, and what the clients still have to do meets `P`. -/
def Sound (P : α → Log Req Rep → Req → Prop) (Inv : S → Prop) (state : Clients ι S Req Rep α) :
    Prop :=
  Inv state.server ∧ ∀ c, (state.client c).program.Traced (P (state.client c).value)
    (fun _ _ => True) (state.client c).log

/-- What every answer and all work keep of the service holds after each step. -/
theorem Sound.step
    (hstart : ∀ call value, (protocol.start call value).Traced (P value) (fun _ _ => True) [])
    (hserve : ∀ server value log req outside answer, Inv server → P value log req →
      onRequest server value log req → protocol.serve server req outside = some answer →
        Inv answer.2)
    (hwork : ∀ server, Inv server → onWork server → Inv (protocol.work server))
    (state : Clients ι S Req Rep α) (action : ClientsAction ι Call E)
    (state' : Clients ι S Req Rep α) (hsound : Sound P Inv state)
    (hmeets : Meets onRequest onWork state action)
    (hstep : protocol.step state action = some state') : Sound P Inv state' := by
  obtain ⟨hinv, htraced⟩ := hsound
  cases action with
  | start c call =>
      simp only [Protocol.step] at hstep
      split at hstep
      next value hdone =>
        cases hstep
        refine ⟨hinv, fun c' => ?_⟩
        rcases eq_or_ne c' c with rfl | hne
        · simp only [Function.update_self]
          exact hstart call value
        · simp only [Function.update_of_ne hne]
          exact htraced c'
      next => cases hstep
  | advance c outside =>
      simp only [Protocol.step] at hstep
      split at hstep
      next => cases hstep
      next req next hask =>
        obtain ⟨answer, hanswer, rfl⟩ := Option.map_eq_some_iff.mp hstep
        have hnow := htraced c
        rw [hask] at hnow
        simp only [Meets, hask] at hmeets
        refine ⟨hserve _ _ _ req outside answer hinv hnow.1 hmeets hanswer, fun c' => ?_⟩
        rcases eq_or_ne c' c with rfl | hne
        · simp only [Function.update_self]
          exact hnow.2 answer.1
        · simp only [Function.update_of_ne hne]
          exact htraced c'
  | work =>
      cases hstep
      exact ⟨hwork state.server hinv hmeets, htraced⟩

/-- The same for a whole run. -/
theorem invariant_run
    (hstart : ∀ call value, (protocol.start call value).Traced (P value) (fun _ _ => True) [])
    (hserve : ∀ server value log req outside answer, Inv server → P value log req →
      onRequest server value log req → protocol.serve server req outside = some answer →
        Inv answer.2)
    (hwork : ∀ server, Inv server → onWork server → Inv (protocol.work server))
    {actions : List (ClientsAction ι Call E)} {server : S} {value : α}
    {state' : Clients ι S Req Rep α}
    (halong : Along protocol.step (Meets onRequest onWork) actions (.init server value))
    (hinv : Inv server) (hrun : run protocol.step actions (.init server value) = some state') :
    Inv state'.server := by
  have hinit : Sound P Inv (.init server value : Clients ι S Req Rep α) :=
    ⟨hinv, fun _ => trivial⟩
  exact (Along.invariant (S := Clients ι S Req Rep α) (Sound.step hstart hserve hwork) halong
    hinit hrun).1

end Protocol

end Hercules.Lib
