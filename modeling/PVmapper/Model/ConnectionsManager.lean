import PVmapper.Lib.Loops
import PVmapper.Model.Dispatcher
import PVmapper.Model.Listener

/-!
# PVmapper — the event loop (`connmgr.cpp`)

`ConnectionsManager::run` polls the sockets of all connections, calls
`processIncoming` of the readable ones, then `processOutgoing` of all, and
drops those that closed. The two methods are virtual: which one is called
depends on what the connection is, and those of a listener and of a searcher
call back into the dispatcher.

What the system answers during one turn of the loop is an argument: `Turn`.
Each call is recorded with the socket its connection had, and with what it did
on the network.
-/

namespace PVmapper

/-- A datagram that `recvfrom` puts into the receive buffer, with what the
system answers while its messages are handled. -/
structure Datagram where
  remote : InAddr
  port : UInt16
  buffer : Bytes
  size : 0 < buffer.length ∧ buffer.length ≤ 4096
  clock : Bytes → ℕ → Int
  opening : FoundPv → Opening
  openedAt : FoundPv → Int

/-- What the system answers to one call of `processIncoming`: to a listener or
a searcher the datagrams until there are no more, to a guard the result of
`recv` and the clock. -/
structure Received where
  datagrams : List Datagram
  recvd : Int
  now : Int

/-- What the system answers during one turn of the loop: the result of `poll`
and which sockets of `fds` are readable; then for the `i`-th connection, and
for the `t`-th call of the second loop. -/
structure Turn where
  poll : List Int → Int × (ℕ → Bool)
  received : ℕ → Received
  clock : ℕ → Int
  answers : ℕ → Answers

/-- What a call did on the network. -/
inductive Traffic
  | replies (sent : List Bytes)
  | requests (packets : List Packet)
  | guard (acts : List GuardAction)
deriving DecidableEq, Repr

/-- A call of a connection, and the socket it was made on. -/
structure Served where
  connection : Connection
  sock : Int
  traffic : Traffic
deriving DecidableEq, Repr

namespace Dispatcher

/-! ## Callbacks of the connections -/

/-- The `k`-th searcher; there is one in every use. -/
def searcherAt (missing : Searcher) (k : ℕ) (d : Dispatcher) : Searcher :=
  d.caSearchers.getD k missing

/-- The dispatcher with the `k`-th searcher changed. -/
def putSearcher (k : ℕ) (d : Dispatcher) (s : Searcher) : Dispatcher :=
  { d with caSearchers := d.caSearchers.set k s }

/-- `caPvFound` as the found callback of a searcher, with what the system
answers for each PV. -/
def caPvFoundCb (opening : FoundPv → Opening) (now : FoundPv → Int) (f : FoundPv)
    (d : Dispatcher) : Dispatcher :=
  (d.caPvFound (opening f) (now f) f).1

/-- `caPvSearched` as the search callback of a listener; the client's address
is only logged. -/
def caPvSearchedCb (clock : Bytes → ℕ → Int) (pvname _clientIp : Bytes) (_clientPort : UInt16)
    (d : Dispatcher) : Option (Dispatcher × Bytes) :=
  d.caPvSearched (clock pvname) pvname

/-! ## Connections -/

section Connections

variable {ρ : Type*} (regexMatch : ρ → Bytes → Bool) (listeners : List (Listener ρ))

/-- `Connection::getSocket` -/
def getSocket (d : Dispatcher) : Connection → Int
  | .listener k => (listeners[k]?).elim (-1) Listener.sock
  | .searcher k => (d.caSearchers[k]?).elim (-1) Searcher.sock
  | .guard g => (d.guards[g]?).elim (-1) IocGuard.sock

/-- `processIncoming` of a listener: the loop over `recvfrom`. -/
def listenerIncoming (l : Listener ρ) (datagrams : List Datagram) (d : Dispatcher) :
    Option (Dispatcher × List Bytes) :=
  datagrams.foldlM (fun w p =>
    (l.processIncoming regexMatch (caPvSearchedCb p.clock) p.remote p.port p.buffer w.1).map
      fun r => (r.1, w.2 ++ r.2))
    (d, [])

/-- `processIncoming` of the `k`-th searcher: the loop over `recvfrom`. -/
def searcherIncoming (missing : Searcher) (k : ℕ) (datagrams : List Datagram) (d : Dispatcher) :
    Dispatcher :=
  datagrams.foldl (fun d p =>
    Searcher.processIncoming (searcherAt missing k) (putSearcher k) (caPvFoundCb p.opening p.openedAt)
      p.remote p.buffer d)
    d

/-- `processIncoming` of a connection. -/
def processIncoming (d : Dispatcher) (received : Received) :
    Connection → Option (Dispatcher × Traffic)
  | .listener k =>
    match listeners[k]? with
    | none => none
    | some l =>
      (listenerIncoming regexMatch l received.datagrams d).map fun r => (r.1, .replies r.2)
  | .searcher k =>
    match d.caSearchers[k]? with
    | none => none
    | some s => some (searcherIncoming s k received.datagrams d, .requests [])
  | .guard g =>
    (d.callGuard g (·.processIncoming received.recvd received.now)).map fun r => (r.1, .guard r.2)

/-- `processOutgoing` of a connection. A listener has the one of `Connection`,
which does nothing. -/
def processOutgoing (d : Dispatcher) (now : Int) (answers : Answers) :
    Connection → Option (Dispatcher × Traffic)
  | .listener _ => some (d, .replies [])
  | .searcher k =>
    match d.caSearchers[k]? with
    | none => none
    | some s =>
      (s.processOutgoing now).map fun r =>
        ({ d with caSearchers := d.caSearchers.set k r.1 }, .requests r.2)
  | .guard g => (d.callGuard g (·.processOutgoing answers)).map fun r => (r.1, .guard r.2)

end Connections

end Dispatcher

namespace ConnectionsManager

section Run

variable {ρ : Type*} (regexMatch : ρ → Bytes → Bool) (listeners : List (Listener ρ)) (turn : Turn)

/-- `g_connmgr.m_connections` -/
def connections : Loops.Vec Dispatcher Connection where
  get d := d.connections
  put l d := { d with connections := l }
  get_put _ _ := rfl

/-- The body of the first loop. -/
def incoming (i : ℕ) (c : Connection) (d : Dispatcher) : Option (Dispatcher × Served) :=
  (d.processIncoming regexMatch listeners (turn.received i) c).map fun r =>
    (r.1, ⟨c, d.getSocket listeners c, r.2⟩)

/-- The body of the second loop. -/
def outgoing (t : ℕ) (c : Connection) (d : Dispatcher) : Option (Dispatcher × Served) :=
  (d.processOutgoing (turn.clock t) (turn.answers t) c).map fun r =>
    (r.1, ⟨c, d.getSocket listeners c, r.2⟩)

/-- `fds`, the sockets that are polled. -/
def fds (d : Dispatcher) : List Int := d.connections.map (d.getSocket listeners)

/-- The use of `poll` to process all connections with incoming packets. -/
def pollIncoming (d : Dispatcher) : Except Loops.Fault (Dispatcher × List Served) :=
  let (polled, readable) := turn.poll (fds listeners d)
  if polled > 0 then
    Loops.visit connections readable (incoming regexMatch listeners turn) 0 d.connections.length d
  else .ok (d, [])

/-- `ConnectionsManager::run`, and the calls of its two loops. -/
def run (d : Dispatcher) : Except Loops.Fault (Dispatcher × List Served × List Served) :=
  match pollIncoming regexMatch listeners turn d with
  | .error fault => .error fault
  | .ok (d, delivered) =>
    -- Trigger each connection to send out any packets
    -- And drop closed connections
    (Loops.sweep connections (outgoing listeners turn) Dispatcher.isOpen 0 0 d).map fun r =>
      (r.1, delivered, r.2)

end Run

end ConnectionsManager

namespace Dispatcher

/-- What the system answers during a call of `Dispatcher::run`: a turn of the
event loop, the clock before the purge, for each PV, and after it. -/
structure Round where
  turn : Turn
  checkedAt : Int
  clock : ℕ → SearchedPV → Int
  purgedAt : Int

section Run

variable {ρ : Type*} (regexMatch : ρ → Bytes → Bool) (listeners : List (Listener ρ))

/-- `Dispatcher::run` -/
def run (d : Dispatcher) (round : Round) : Except Loops.Fault Dispatcher :=
  match ConnectionsManager.run regexMatch listeners round.turn d with
  | .error fault => .error fault
  | .ok (d, _, _) =>
    match d.step (.maintain round.checkedAt round.clock round.purgedAt) with
    | none => .error .body
    | some (d, _) => .ok d

/-- The loop in `main`, for so many rounds. -/
def mainLoop (d : Dispatcher) (rounds : List Round) : Except Loops.Fault Dispatcher :=
  rounds.foldlM (run regexMatch listeners) d

end Run

end Dispatcher

end PVmapper
