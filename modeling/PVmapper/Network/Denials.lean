import PVmapper.Network.Provenance

/-!
# PVmapper — what the rules keep out

A request that the rules deny is as good as never sent. If two courses of events
differ only in denied requests, in datagrams with permitted ones or of their
own, then one is a run if and only if the other is: the same packets go out,
the same replies come back, and PVmapper ends in the same state.

* `client_step`   — a client's datagram counts with its permitted requests alone.
* `denied_unseen` — the runs.
-/

namespace PVmapper

namespace Network

open Runs (Run)

variable {ρ : Type*} {regexMatch : ρ → Bytes → Bool} {listeners : List (Listener ρ)}
  {d d' : Dispatcher}

/-- What a client's datagram does, from its permitted requests. -/
def serve (clock : Bytes → ℕ → Int) (requests : List (UInt32 × Bytes)) (d : Dispatcher) :
    Option (Dispatcher × List Bytes) :=
  requests.foldlM (fun w request => (w.1.caPvSearched (clock request.2) request.2).map fun r =>
    (r.1, w.2 ++ Listener.replies request.1 r.2)) (d, [])

/-- **A client's datagram counts with its permitted requests alone.** -/
theorem client_step {k : ℕ} (hk : k < listeners.length) (p : Datagram) :
    step regexMatch listeners d (.clientDatagram k p) =
      (serve p.clock (requested regexMatch listeners (.clientDatagram k p)) d).map fun r =>
        (r.1, .replies r.2) := by
  have hGet : listeners[k]? = some listeners[k] := List.getElem?_eq_getElem hk
  rw [requested_client hGet]
  simp only [step, hGet]
  rw [Listener.processIncoming_calls]
  rfl

/-- Nothing that a client asks for is permitted. -/
def Denied (regexMatch : ρ → Bytes → Bool) (listeners : List (Listener ρ)) : Event → Prop
  | .clientDatagram k p =>
    k < listeners.length ∧ requested regexMatch listeners (.clientDatagram k p) = []
  | _ => False

/-- The first trace without some of the denied requests: datagrams of them are
left out, and others hold the same permitted requests. -/
inductive WithoutDenied (regexMatch : ρ → Bytes → Bool) (listeners : List (Listener ρ)) :
    List (Event × Output) → List (Event × Output) → Prop
  | nil : WithoutDenied regexMatch listeners [] []
  | keep (x : Event × Output) {tr tr' : List (Event × Output)} :
      WithoutDenied regexMatch listeners tr tr' →
      WithoutDenied regexMatch listeners (x :: tr) (x :: tr')
  | thin {k : ℕ} {p p' : Datagram} {o : Output} {tr tr' : List (Event × Output)} :
      requested regexMatch listeners (.clientDatagram k p) =
        requested regexMatch listeners (.clientDatagram k p') → p.clock = p'.clock →
      WithoutDenied regexMatch listeners tr tr' →
      WithoutDenied regexMatch listeners ((.clientDatagram k p, o) :: tr)
        ((.clientDatagram k p', o) :: tr')
  | drop {e : Event} {tr tr' : List (Event × Output)} :
      Denied regexMatch listeners e → WithoutDenied regexMatch listeners tr tr' →
      WithoutDenied regexMatch listeners ((e, .replies []) :: tr) tr'

/-- A denied datagram is answered with silence. -/
theorem denied_step {e : Event} (h : Denied regexMatch listeners e) :
    step regexMatch listeners d e = some (d, .replies []) := by
  cases e with
  | clientDatagram k p =>
    rw [client_step h.1, h.2]
    rfl
  | iocDatagram k p => exact h.elim
  | call e => exact h.elim

/-- A datagram at a listener that there is not. -/
theorem step_no_listener {k : ℕ} (hk : ¬ k < listeners.length) (p : Datagram) :
    step regexMatch listeners d (.clientDatagram k p) = none := by
  simp only [step, List.getElem?_eq_none (not_lt.mp hk)]

/-- **What is denied is never seen.** A trace is a run if and only if it is one
without its denied requests, to the same end and with the same packets and
replies for everybody else. -/
theorem denied_unseen {tr tr' : List (Event × Output)}
    (h : WithoutDenied regexMatch listeners tr tr') (d d' : Dispatcher) :
    Run (step regexMatch listeners) d tr d' ↔ Run (step regexMatch listeners) d tr' d' := by
  induction h generalizing d with
  | nil => exact Iff.rfl
  | keep x _ ih =>
    rw [Runs.run_cons_iff, Runs.run_cons_iff]
    exact exists_congr fun d₁ => and_congr_right fun _ => ih d₁
  | @thin k p p' o tr tr' hRequests hClock _ ih =>
    have hStep : step regexMatch listeners d (.clientDatagram k p) =
        step regexMatch listeners d (.clientDatagram k p') := by
      by_cases hk : k < listeners.length
      · rw [client_step hk, client_step hk, hRequests, hClock]
      · rw [step_no_listener hk, step_no_listener hk]
    rw [Runs.run_cons_iff, Runs.run_cons_iff, hStep]
    exact exists_congr fun d₁ => and_congr_right fun _ => ih d₁
  | @drop e tr tr' hDenied _ ih =>
    rw [Runs.run_cons_iff, ← ih d]
    constructor
    · rintro ⟨d₁, hStep, hRest⟩
      rw [denied_step hDenied, Option.some.injEq, Prod.mk.injEq] at hStep
      exact hStep.1 ▸ hRest
    · exact fun hRest => ⟨d, denied_step hDenied, hRest⟩

/-- A listener that answers one client alone. -/
def oneClient : Listener Bytes where
  sock := 3
  addr := ([], 5064)
  accessControl := ⟨[], [⟨.allow, inetNtop ⟨10, 0, 0, 2⟩⟩, ⟨.deny, inetNtop ⟨10, 0, 0, 9⟩⟩]⟩

/-- Another client asks for the same PV. -/
def askedByOther : Datagram :=
  datagram ⟨10, 0, 0, 9⟩ (ask 77 1000000000).buffer 1000000000 (ask 77 1000000000).size

/-- The searcher learns nothing of it. -/
theorem denied_unseen_client :
    ∃ d, Run (step (fun (r s : Bytes) => r == s) [oneClient]) Dispatcher.oneSearcher
        [(.clientDatagram 0 askedByOther, .replies []),
          (.clientDatagram 0 (ask 42 1000000000), .replies [])] d ∧
      Run (step (fun (r s : Bytes) => r == s) [oneClient]) Dispatcher.oneSearcher
        [(.clientDatagram 0 (ask 42 1000000000), .replies [])] d := by
  have hExec : (Runs.exec (step (fun (r s : Bytes) => r == s) [oneClient]) Dispatcher.oneSearcher
      [.clientDatagram 0 askedByOther, .clientDatagram 0 (ask 42 1000000000)]).map
        (fun r => r.1.map Prod.snd) = some [.replies [], .replies []] := by
    decide +kernel
  obtain ⟨d, hRun⟩ := Runs.exists_run_of_outputs _ hExec
  have hDenied : Denied (fun (r s : Bytes) => r == s) [oneClient]
      (.clientDatagram 0 askedByOther) :=
    ⟨by decide, by decide +kernel⟩
  exact ⟨d, hRun, (denied_unseen (.drop hDenied (.keep _ .nil)) _ d).mp hRun⟩

end Network

end PVmapper
