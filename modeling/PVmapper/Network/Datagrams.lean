import PVmapper.Dispatcher.Connections
import PVmapper.Lib.Simulation
import PVmapper.Listener.Rules
import PVmapper.Model.Network

/-!
# PVmapper — datagrams as runs of the dispatcher

What arrives at a socket is a run of the dispatcher: a client's datagram one
search for each request that the rules permit, with one reply for each answer,
and an IOC's datagram one response for each of its entries.

* `run_of_client`, `run_of_ioc` — datagrams as runs, message by message.
* `step_cases`                  — what a step of the system is.
* `run_of_step`, `exists_blocks` — steps and runs are runs of the dispatcher.
-/

namespace PVmapper

namespace Network

open Runs (Run)
open Dispatcher (caPvSearchedCb caPvFoundCb searcherAt putSearcher)

variable {ρ : Type*} {regexMatch : ρ → Bytes → Bool} {listeners : List (Listener ρ)}
  {d d' d₀ : Dispatcher}

-- ---------------------------------------------------------------------------
-- A client's datagram
-- ---------------------------------------------------------------------------

/-- The search for a request of a datagram. -/
def searchFor (p : Datagram) (request : UInt32 × Bytes) : Dispatcher.Event :=
  .clientSearched (p.clock request.2) request.2

/-- The step is the search for a request. -/
def IsSearch (p : Datagram) (x : Dispatcher.Event × Dispatcher.Output) (request : UInt32 × Bytes) :
    Prop :=
  ∃ response, x = (searchFor p request, .reply response)

/-- The message is the reply to a search in the trace, for this request. -/
def RepliesTo (p : Datagram) (tr : List (Dispatcher.Event × Dispatcher.Output))
    (request : UInt32 × Bytes) (msg : Bytes) : Prop :=
  ∃ pre response post, tr = pre ++ (searchFor p request, .reply response) :: post ∧ response ≠ [] ∧
    msg = (ChannelAccess.updateSearchReplyId response request.1).1

theorem RepliesTo.cons {p : Datagram} {tr : List (Dispatcher.Event × Dispatcher.Output)}
    {request : UInt32 × Bytes} {msg : Bytes} (h : RepliesTo p tr request msg)
    (x : Dispatcher.Event × Dispatcher.Output) : RepliesTo p (x :: tr) request msg := by
  obtain ⟨pre, response, post, rfl, hMsg⟩ := h
  exact ⟨x :: pre, response, post, rfl, hMsg⟩

/-- The messages are replies to some of the requests, in their order. -/
def Answers (p : Datagram) (tr : List (Dispatcher.Event × Dispatcher.Output))
    (requests : List (UInt32 × Bytes)) (sent : List Bytes) : Prop :=
  ∃ answered, answered.Sublist requests ∧ List.Forall₂ (RepliesTo p tr) answered sent

theorem run_of_calls (p : Datagram) {requests : List (UInt32 × Bytes)} {before sent : List Bytes}
    (h : requests.foldlM (Listener.call (caPvSearchedCb p.clock) p.remote p.port) (d, before) =
      some (d', sent)) :
    ∃ tr new, Run Dispatcher.step d tr d' ∧ List.Forall₂ (IsSearch p) tr requests ∧
      sent = before ++ new ∧ Answers p tr requests new := by
  -- by induction on the requests, from any state and any replies sent before
  induction requests generalizing d before with
  | nil =>
    rw [List.foldlM_nil, Option.pure_def, Option.some.injEq, Prod.mk.injEq] at h
    obtain ⟨rfl, rfl⟩ := h
    exact ⟨[], [], Run.nil d, List.Forall₂.nil, (List.append_nil _).symm, [],
      List.nil_sublist _, List.Forall₂.nil⟩
  | cons request requests ih =>
    rw [List.foldlM_cons, Option.bind_eq_bind, Option.bind_eq_some_iff] at h
    obtain ⟨w, hCall, hRest⟩ := h
    obtain ⟨⟨d₁, response⟩, hSearched, rfl⟩ := Option.map_eq_some_iff.mp hCall
    obtain ⟨tr, new, hRun, hEvents, hSent, answered, hSub, hReplies⟩ := ih hRest
    have hStep : d.step (searchFor p request) = some (d₁, .reply response) :=
      Option.map_eq_some_iff.mpr ⟨(d₁, response), hSearched, rfl⟩
    have hLater := hReplies.imp fun _ _ hReply =>
      RepliesTo.cons hReply (searchFor p request, .reply response)
    refine ⟨_, Listener.replies request.1 response ++ new, Run.cons hStep hRun,
      List.Forall₂.cons ⟨response, rfl⟩ hEvents, by rw [hSent, List.append_assoc], ?_⟩
    unfold Listener.replies
    split
    · -- this request is answered too
      next hne =>
      exact ⟨request :: answered, hSub.cons_cons request,
        List.Forall₂.cons ⟨[], response, tr, rfl, hne, rfl⟩ hLater⟩
    · exact ⟨answered, hSub.cons request, hLater⟩

/-- **A client's datagram is a run** of one search for each permitted request,
and the replies answer some of them, in order. -/
theorem run_of_client (l : Listener ρ) (p : Datagram) {sent : List Bytes}
    (h : l.processIncoming regexMatch (caPvSearchedCb p.clock) p.remote p.port p.buffer d =
      some (d', sent)) :
    ∃ tr, Run Dispatcher.step d tr d' ∧
      List.Forall₂ (IsSearch p) tr (l.permitted regexMatch p.remote p.buffer) ∧
      Answers p tr (l.permitted regexMatch p.remote p.buffer) sent := by
  rw [Listener.processIncoming_calls] at h
  obtain ⟨tr, new, hRun, hEvents, hSent, hAnswers⟩ := run_of_calls p h
  rw [List.nil_append] at hSent
  exact ⟨tr, hRun, hEvents, hSent ▸ hAnswers⟩

-- ---------------------------------------------------------------------------
-- An IOC's datagram
-- ---------------------------------------------------------------------------

/-- Where a datagram of search responses says its server is: the sender's
address and the port of the first response. -/
def serverOf (p : Datagram) : Address :=
  (inetNtop p.remote, (ChannelAccess.parseIocAddr (inetNtop p.remote) p.buffer).2)

/-- The step is the handling of an entry of a datagram. -/
def IsResponse (k : ℕ) (p : Datagram) (x : Dispatcher.Event × Dispatcher.Output)
    (response : UInt32 × Bytes) : Prop :=
  ∃ opening now f, x = (.response k (serverOf p).1 (serverOf p).2 response opening now, .found f)

theorem found_of_step {k : ℕ} {iocIp : Bytes} {iocPort : UInt16} {response : UInt32 × Bytes}
    {opening : Opening} {now : Int} {o : Dispatcher.Output}
    (hStep : d.step (.response k iocIp iocPort response opening now) = some (d', o)) :
    ∃ f, o = .found f := by
  rcases Dispatcher.step_response hStep with ⟨-, rfl⟩ | ⟨_, _, _, -, -, f, g, -, rfl, -⟩
  · exact ⟨none, rfl⟩
  · exact ⟨some (f, g), rfl⟩

/-- **An IOC's datagram is a run** of one response for each of its entries. -/
theorem run_of_ioc {k : ℕ} (hk : k < d.caSearchers.length) (missing : Searcher) (p : Datagram) :
    ∃ tr, Run Dispatcher.step d tr (Searcher.processIncoming (searcherAt missing k) (putSearcher k)
        (caPvFoundCb p.opening p.openedAt) p.remote p.buffer d) ∧
      List.Forall₂ (IsResponse k p) tr (ChannelAccess.parseSearchResponse p.buffer) := by
  unfold Searcher.processIncoming IsResponse serverOf
  dsimp only
  generalize ChannelAccess.parseSearchResponse p.buffer = responses
  generalize (ChannelAccess.parseIocAddr (inetNtop p.remote) p.buffer).2 = iocPort
  induction responses generalizing d with
  | nil => exact ⟨[], Run.nil d, List.Forall₂.nil⟩
  | cons response responses ih =>
    obtain ⟨answer, time, o, hStep⟩ :=
      Dispatcher.step_of_handleResponse p.opening p.openedAt hk missing (inetNtop p.remote) iocPort
        response
    have hk' := hk
    rw [← Dispatcher.length_caSearchers_step hStep] at hk'
    obtain ⟨tr, hRun, hEvents⟩ := ih hk'
    obtain ⟨f, rfl⟩ := found_of_step hStep
    exact ⟨_, Run.cons hStep hRun, List.Forall₂.cons ⟨answer, time, f, rfl⟩ hEvents⟩

-- ---------------------------------------------------------------------------
-- Steps
-- ---------------------------------------------------------------------------

/-- A step is a client's datagram, an IOC's, or a call. -/
theorem step_cases {e : Event} {o : Output} (h : step regexMatch listeners d e = some (d', o)) :
    (∃ k p l sent, e = .clientDatagram k p ∧ o = .replies sent ∧ listeners[k]? = some l ∧
        l.processIncoming regexMatch (caPvSearchedCb p.clock) p.remote p.port p.buffer d =
          some (d', sent)) ∨
      (∃ k p s, e = .iocDatagram k p ∧ o = .received ∧ d.caSearchers[k]? = some s ∧
        d' = Searcher.processIncoming (searcherAt s k) (putSearcher k)
          (caPvFoundCb p.opening p.openedAt) p.remote p.buffer d) ∨
      ∃ e' o', e = .call e' ∧ o = .called o' ∧ isCall e' = true ∧ d.step e' = some (d', o') := by
  cases e with
  | clientDatagram k p =>
    dsimp only [step] at h
    split at h
    · exact absurd h (by simp)
    · next l hGet =>
      obtain ⟨⟨d₁, sent⟩, hIncoming, hEq⟩ := Option.map_eq_some_iff.mp h
      obtain ⟨rfl, rfl⟩ := Prod.mk.inj hEq
      exact Or.inl ⟨k, p, l, sent, rfl, rfl, hGet, hIncoming⟩
  | iocDatagram k p =>
    dsimp only [step] at h
    split at h
    · exact absurd h (by simp)
    · next s hGet =>
      obtain ⟨rfl, rfl⟩ := Prod.mk.inj (Option.some.inj h)
      exact Or.inr (Or.inl ⟨k, p, s, rfl, rfl, hGet, rfl⟩)
  | call e =>
    obtain ⟨hCall, hMap⟩ := Option.ite_none_right_eq_some.mp h
    obtain ⟨⟨d₁, o'⟩, hStep, hEq⟩ := Option.map_eq_some_iff.mp hMap
    obtain ⟨rfl, rfl⟩ := Prod.mk.inj hEq
    exact Or.inr (Or.inr ⟨e, o', rfl, rfl, hCall, hStep⟩)

/-- What a step of the system is for the dispatcher. -/
inductive Explains (regexMatch : ρ → Bytes → Bool) (listeners : List (Listener ρ)) :
    Event × Output → List (Dispatcher.Event × Dispatcher.Output) → Prop
  | client {k : ℕ} {p : Datagram} {l : Listener ρ} {sent : List Bytes}
      {block : List (Dispatcher.Event × Dispatcher.Output)} (hGet : listeners[k]? = some l)
      (hEvents : List.Forall₂ (IsSearch p) block (l.permitted regexMatch p.remote p.buffer))
      (hSent : Answers p block (l.permitted regexMatch p.remote p.buffer) sent) :
      Explains regexMatch listeners (.clientDatagram k p, .replies sent) block
  | ioc {k : ℕ} {p : Datagram} {block : List (Dispatcher.Event × Dispatcher.Output)}
      (hEvents : List.Forall₂ (IsResponse k p) block
        (ChannelAccess.parseSearchResponse p.buffer)) :
      Explains regexMatch listeners (.iocDatagram k p, .received) block
  | call {e : Dispatcher.Event} {o : Dispatcher.Output} (hCall : isCall e = true) :
      Explains regexMatch listeners (.call e, .called o) [(e, o)]

/-- Every step of the system is a run of the dispatcher. -/
theorem run_of_step {e : Event} {o : Output} (h : step regexMatch listeners d e = some (d', o)) :
    ∃ block, Run Dispatcher.step d block d' ∧ Explains regexMatch listeners (e, o) block := by
  rcases step_cases h with ⟨k, p, l, sent, rfl, rfl, hGet, hIncoming⟩ |
    ⟨k, p, s, rfl, rfl, hGet, rfl⟩ | ⟨e', o', rfl, rfl, hCall, hStep⟩
  · obtain ⟨block, hRun, hEvents, hSent⟩ := run_of_client l p hIncoming
    exact ⟨block, hRun, Explains.client hGet hEvents hSent⟩
  · obtain ⟨block, hRun, hEvents⟩ := run_of_ioc (List.getElem?_eq_some_iff.mp hGet).1 s p
    exact ⟨block, hRun, Explains.ioc hEvents⟩
  · exact ⟨_, Run.single hStep, Explains.call hCall⟩

/-- Every run of the system is a run of the dispatcher, datagram by datagram. -/
theorem exists_blocks {tr : List (Event × Output)}
    (hRun : Run (step regexMatch listeners) d tr d') :
    ∃ blocks, List.Forall₂ (Explains regexMatch listeners) tr blocks ∧
      Run Dispatcher.step d blocks.flatten d' :=
  hRun.expand fun _ _ _ _ => run_of_step

end Network

end PVmapper
