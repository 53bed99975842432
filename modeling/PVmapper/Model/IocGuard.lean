import PVmapper.Lib.Runs
import PVmapper.Model.ProtoCa

/-!
# PVmapper — the IOC guard (`iocguard.cpp`)

An `IocGuard` keeps one TCP connection to an IOC. Its methods are given what
the system calls return and what the clock reads, and answer with what they
did on the connection: a receive, a poll, a send, or a call of the disconnect
callback, which always follows `close` and `m_sock = -1`. The last section
makes a transition system of one guard.
-/

namespace PVmapper

/-- The state of an `IocGuard`. `m_heartbeatInterval` is in seconds. -/
structure IocGuard where
  sock : Int
  ip : Bytes
  port : UInt16
  started : Int
  lastRequest : Int
  lastResponse : Int
  heartbeatInterval : ℕ
  connected : Bool
  initialized : Bool
deriving DecidableEq, Repr

/-- What a guard does on its connection. -/
inductive GuardAction
  | recv
  | poll
  | send (msg : Bytes)
  | disconnectCb
deriving DecidableEq, Repr

/-- What the system answers to the constructor: the socket, whether it can be
made non-blocking, and whether `connect` succeeds or is in progress. -/
structure Opening where
  sock : Int
  nonBlocking : Bool
  connecting : Bool
deriving DecidableEq, Repr

/-- What the system answers to a call of `processOutgoing`, as far as it gets:
the result of `poll` and the clock if it is not positive, or the clock once it
is; the clock before the heartbeat; the result of `send` and the clock after. -/
structure Answers where
  pollret : Int
  polledAt : Int
  checkedAt : Int
  sendret : Int
  sentAt : Int
deriving DecidableEq, Repr

namespace IocGuard

/-- `Connection::isConnected` -/
def isConnected (g : IocGuard) : Bool := g.sock != -1

/-- `IocGuard::getIocAddr` -/
def getIocAddr (g : IocGuard) : Address := (g.ip, g.port)

/-- `IocGuard::IocGuard`; `none` is a thrown `SocketException`. -/
def create (opening : Opening) (addr : Address) (now : Int) : Option IocGuard :=
  if opening.sock < 0 ∨ inetAton addr.1 = none ∨ opening.nonBlocking = false ∨
      opening.connecting = false then none
  else some {
    sock := opening.sock
    ip := addr.1
    port := addr.2
    started := now
    lastRequest := 0
    lastResponse := 0
    heartbeatInterval := 10
    connected := false
    initialized := false }

/-- `IocGuard::processIncoming` -/
def processIncoming (g : IocGuard) (recvd now : Int) : IocGuard × List GuardAction :=
  if g.sock ≠ -1 then
    if recvd > 0 then ({ g with lastResponse := now, initialized := true }, [.recv])
    else ({ g with sock := -1 }, [.recv, .disconnectCb])
  else (g, [])

/-- `IocGuard::checkConnection` -/
def checkConnection (g : IocGuard) (pollret now : Int) : Bool × IocGuard × List GuardAction :=
  if g.connected = false then
    if pollret ≤ 0 then
      if seconds (now - g.started) > 5 then (false, { g with sock := -1 }, [.poll, .disconnectCb])
      else (false, g, [.poll])
    -- poll() returned succesfully, we must be connected
    else (true, { g with connected := true, lastResponse := now }, [.poll])
  else (true, g, [])

/-- `IocGuard::sendHeartBeat` -/
def sendHeartBeat (g : IocGuard) (sendret now : Int) : IocGuard × List GuardAction :=
  if g.lastRequest < g.lastResponse then
    let msg := ChannelAccess.createEchoRequest (!g.initialized)
    if sendret > 0 then ({ g with lastRequest := now }, [.send msg])
    else ({ g with sock := -1 }, [.send msg, .disconnectCb])
  else ({ g with sock := -1 }, [.disconnectCb])

/-- `IocGuard::processOutgoing` -/
def processOutgoing (g : IocGuard) (answers : Answers) : IocGuard × List GuardAction :=
  if g.sock ≠ -1 then
    match g.checkConnection answers.pollret answers.polledAt with
    | (false, g, acts) => (g, acts)
    | (true, g, acts) =>
      if seconds (answers.checkedAt - g.lastRequest) > g.heartbeatInterval then
        let (g, acts') := g.sendHeartBeat answers.sendret answers.sentAt
        (g, acts ++ acts')
      else (g, acts)
  else (g, [])

/-! ## One guard as a transition system -/

/-- The calls a guard gets from the main loop. -/
inductive Event
  | incoming (recvd now : Int)
  | outgoing (answers : Answers)
deriving DecidableEq, Repr

/-- What a call did on the connection, and what it read from the clock. -/
structure Output where
  acts : List GuardAction
  readings : List Int
deriving DecidableEq, Repr

/-- The readings of the clock a call takes, in order. -/
def readings (g : IocGuard) : Event → List Int
  | .incoming recvd now => if g.sock ≠ -1 ∧ recvd > 0 then [now] else []
  | .outgoing answers =>
    if g.sock ≠ -1 then
      let polled := if g.connected = false then [answers.polledAt] else []
      match g.checkConnection answers.pollret answers.polledAt with
      | (false, _, _) => polled
      | (true, g, _) =>
        polled ++ answers.checkedAt ::
          if seconds (answers.checkedAt - g.lastRequest) > g.heartbeatInterval ∧
              g.lastRequest < g.lastResponse ∧ answers.sendret > 0 then [answers.sentAt]
          else []
    else []

def step (g : IocGuard) (e : Event) : Option (IocGuard × Output) :=
  match e with
  | .incoming recvd now =>
    let (g', acts) := g.processIncoming recvd now
    some (g', ⟨acts, g.readings e⟩)
  | .outgoing answers =>
    let (g', acts) := g.processOutgoing answers
    some (g', ⟨acts, g.readings e⟩)

/-- A freshly constructed guard. -/
def Init (g : IocGuard) : Prop := ∃ opening addr now, create opening addr now = some g

end IocGuard

end PVmapper
