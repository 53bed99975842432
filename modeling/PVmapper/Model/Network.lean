import PVmapper.Model.ConnectionsManager

/-!
# PVmapper — the system seen from its sockets

The dispatcher with its listeners, searchers and guards as one transition
system of which the steps are what arrives: a datagram from a client or from an
IOC, handled with all the callbacks it leads to, or a call without a datagram,
as the event loop makes it for every connection in every turn. They come in any
order here; the event loop takes them in one.
-/

namespace PVmapper

namespace Network

/-- What can happen at the sockets. -/
inductive Event
  /-- a client's datagram arrives at the `k`-th listener -/
  | clientDatagram (k : ℕ) (p : Datagram)
  /-- a datagram arrives at the `k`-th searcher -/
  | iocDatagram (k : ℕ) (p : Datagram)
  /-- a call without a datagram: a tick, a call of a guard, a look at a
  connection to drop it, or the maintenance -/
  | call (e : Dispatcher.Event)

/-- What is sent in return. -/
inductive Output
  | replies (sent : List Bytes)
  | received
  | called (o : Dispatcher.Output)
deriving DecidableEq, Repr

/-- No message is handled. -/
def isCall : Dispatcher.Event → Bool
  | .clientSearched .. => false
  | .response .. => false
  | _ => true

section Step

variable {ρ : Type*} (regexMatch : ρ → Bytes → Bool) (listeners : List (Listener ρ))

def step (d : Dispatcher) : Event → Option (Dispatcher × Output)
  | .clientDatagram k p =>
    match listeners[k]? with
    | none => none
    | some l =>
      (l.processIncoming regexMatch (Dispatcher.caPvSearchedCb p.clock) p.remote p.port p.buffer
        d).map fun r => (r.1, .replies r.2)
  | .iocDatagram k p =>
    match d.caSearchers[k]? with
    | none => none
    | some s =>
      some (Searcher.processIncoming (Dispatcher.searcherAt s k) (Dispatcher.putSearcher k)
        (Dispatcher.caPvFoundCb p.opening p.openedAt) p.remote p.buffer d, .received)
  | .call e => if isCall e then (d.step e).map fun r => (r.1, .called r.2) else none

end Step

end Network

end PVmapper
