import PVmapper.Model.IocGuard
import PVmapper.Model.Searcher

/-!
# PVmapper — the dispatcher and its connections (`dispatcher.cpp`, `connmgr.cpp`)

The `Dispatcher` owns the searchers, the cache of connected PVs and the map
of IOC guards; the `ConnectionsManager` has the list of connections the main
loop serves. Guards are shared pointers there: a `GuardId` is the identity of
a guard, its index in the list of all guards ever made.

Between two callbacks the main loop may serve connections, and a connection
its packets, in many orders. The transition system at the end takes them in
any order: one step is one client search, one search response, one call of a
guard, one tick of a searcher, one look at a connection to drop it, or the
maintenance at the end of `Dispatcher::run`.
-/

namespace PVmapper

/-- `std::map` -/
abbrev Map (κ α : Type*) := AList fun _ : κ => α

/-- The identity of an `IocGuard`. -/
abbrev GuardId := ℕ

/-- `Dispatcher::PvInfo` -/
structure PvInfo where
  ioc : Option GuardId
  response : Bytes
deriving DecidableEq, Repr

/-- An element of `ConnectionsManager::m_connections`. -/
inductive Connection
  | listener (k : ℕ)
  | searcher (k : ℕ)
  | guard (g : GuardId)
deriving DecidableEq, Repr

/-- The state of the `Dispatcher`, of the `ConnectionsManager` and of the
guards. -/
structure Dispatcher where
  purgeDelay : ℕ
  lastPurge : Int
  guards : List IocGuard
  iocs : Map Address GuardId
  caSearchers : List Searcher
  connectedPVs : Map Bytes PvInfo
  connections : List Connection
deriving DecidableEq

namespace Dispatcher

/-! ## Callbacks -/

/-- `ioc && ioc->isConnected()` -/
def isConnected (d : Dispatcher) (g : GuardId) : Bool := (d.guards[g]?).any IocGuard.isConnected

/-- `Dispatcher::iocDisconnected` -/
def iocDisconnected (d : Dispatcher) (addr : Address) : Dispatcher :=
  { d with iocs := d.iocs.erase addr }

/-- The guard of an IOC, made and registered if there is none; `none` when the
constructor throws. -/
def iocGuard (d : Dispatcher) (opening : Opening) (now : Int) (addr : Address) :
    Option (Dispatcher × GuardId) :=
  match d.iocs.lookup addr with
  | some g => some (d, g)
  | none =>
    (IocGuard.create opening addr now).map fun guard =>
      ({ d with
        guards := d.guards ++ [guard]
        iocs := d.iocs.insert addr d.guards.length
        connections := d.connections ++ [.guard d.guards.length] }, d.guards.length)

/-- `Dispatcher::caPvFound`, and the guard it recorded. -/
def caPvFound (d : Dispatcher) (opening : Opening) (now : Int) (f : FoundPv) :
    Dispatcher × Option GuardId :=
  match d.iocGuard opening now (f.iocIp, f.iocPort) with
  | none => (d, none)
  | some (d, g) =>
    ({ d with
      caSearchers := d.caSearchers.map (·.removePV f.pvname)
      connectedPVs := d.connectedPVs.insert f.pvname ⟨some g, f.response⟩ }, some g)

/-- A loop over the searchers that changes each; `clock k` are the readings
the `k`-th one takes. -/
def forSearchers (d : Dispatcher) (f : ℕ → Searcher → Option Searcher) : Option Dispatcher :=
  ((d.caSearchers.mapIdx f).mapM id).map fun searchers => { d with caSearchers := searchers }

/-- The loop in `caPvSearched`. -/
def addToSearchers (d : Dispatcher) (clock : ℕ → Int) (pvname : Bytes) : Option Dispatcher :=
  d.forSearchers fun k searcher => (searcher.addPV (clock k) pvname).map Prod.fst

/-- `Dispatcher::caPvSearched` -/
def caPvSearched (d : Dispatcher) (clock : ℕ → Int) (pvname : Bytes) :
    Option (Dispatcher × Bytes) :=
  match d.connectedPVs.lookup pvname with
  | some pv =>
    if pv.ioc.any d.isConnected then some (d, pv.response)
    -- The IOC must got disconnected
    else (({ d with connectedPVs := d.connectedPVs.erase pvname }).addToSearchers clock pvname).map
      (·, [])
  | none => (d.addToSearchers clock pvname).map (·, [])

/-! ## Steps -/

/-- A call of a guard, and of `iocDisconnected` if the guard calls back. -/
def callGuard (d : Dispatcher) (g : GuardId) (call : IocGuard → IocGuard × List GuardAction) :
    Option (Dispatcher × List GuardAction) :=
  match d.guards[g]? with
  | none => none
  | some guard =>
    let (guard', acts) := call guard
    let d' := { d with guards := d.guards.set g guard' }
    some (if .disconnectCb ∈ acts then d'.iocDisconnected guard.getIocAddr else d', acts)

/-- `(*it)->isConnected()`. A listener's socket stays what its constructor
made it. -/
def isOpen (d : Dispatcher) : Connection → Bool
  | .listener _ => true
  | .searcher k => (d.caSearchers[k]?).any fun searcher => searcher.sock != -1
  | .guard g => d.isConnected g

/-- The purge at the end of `Dispatcher::run`, once it is time. -/
def purge (d : Dispatcher) (clock : ℕ → SearchedPV → Int) (now : Int) : Option Dispatcher :=
  (d.forSearchers fun k searcher => (searcher.purgePVs (clock k) d.purgeDelay).map Prod.fst).map
    ({ · with lastPurge := now })

/-- What can happen. -/
inductive Event
  /-- a listener passes a client's search on -/
  | clientSearched (clock : ℕ → Int) (pvname : Bytes)
  /-- the `k`-th searcher handles one search response of a datagram -/
  | response (k : ℕ) (iocIp : Bytes) (iocPort : UInt16) (response : UInt32 × Bytes)
      (opening : Opening) (now : Int)
  /-- the main loop calls `processOutgoing` of the `k`-th searcher -/
  | searcherOutgoing (k : ℕ) (now : Int)
  /-- the main loop calls `processIncoming` of a guard -/
  | guardIncoming (g : GuardId) (recvd now : Int)
  /-- the main loop calls `processOutgoing` of a guard -/
  | guardOutgoing (g : GuardId) (answers : Answers)
  /-- the main loop looks whether the `i`-th connection is to be dropped -/
  | drop (i : ℕ)
  /-- the end of `Dispatcher::run` -/
  | maintain (checkedAt : Int) (clock : ℕ → SearchedPV → Int) (now : Int)

/-- What is observed of a step. -/
inductive Output
  | reply (response : Bytes)
  /-- what was found, and the guard it was recorded with -/
  | found (f : Option (FoundPv × Option GuardId))
  | sent (k : ℕ) (packets : List Packet)
  | guard (g : GuardId) (acts : List GuardAction)
  | done
deriving DecidableEq, Repr

def step (d : Dispatcher) : Event → Option (Dispatcher × Output)
  | .clientSearched clock pvname =>
    (d.caPvSearched clock pvname).map fun r => (r.1, .reply r.2)
  | .response k iocIp iocPort response opening now =>
    match d.caSearchers[k]? with
    | none => none
    | some searcher =>
      match searcher.takeFound response.1 with
      | none => some (d, .found none)
      | some (pv, searcher') =>
        let f : FoundPv := ⟨pv.pvname, iocIp, iocPort,
          (ChannelAccess.updateSearchReplyAddr response.2 iocIp iocPort).1⟩
        let r := { d with caSearchers := d.caSearchers.set k searcher' }.caPvFound opening now f
        some (r.1, .found (some (f, r.2)))
  | .searcherOutgoing k now =>
    match d.caSearchers[k]? with
    | none => none
    | some searcher =>
      (searcher.processOutgoing now).map fun r =>
        ({ d with caSearchers := d.caSearchers.set k r.1 }, .sent k r.2)
  | .guardIncoming g recvd now =>
    if .guard g ∈ d.connections then
      (d.callGuard g (·.processIncoming recvd now)).map fun r => (r.1, .guard g r.2)
    else none
  | .guardOutgoing g answers =>
    if .guard g ∈ d.connections then
      (d.callGuard g (·.processOutgoing answers)).map fun r => (r.1, .guard g r.2)
    else none
  | .drop i =>
    (d.connections[i]?).map fun connection =>
      (if d.isOpen connection then d else { d with connections := d.connections.eraseIdx i }, .done)
  | .maintain checkedAt clock now =>
    if seconds (checkedAt - d.lastPurge) > d.purgeDelay then
      (d.purge clock now).map (·, .done)
    else some (d, .done)

/-- The state after the constructor: its listeners and searchers are
registered, and nothing is known of any PV or IOC. -/
def Init (searchIntervals : List UInt32) (d : Dispatcher) : Prop :=
  (∀ searcher ∈ d.caSearchers, Searcher.Init searchIntervals searcher) ∧
    (∃ listeners, d.connections = (List.range listeners).map .listener ++
      (List.range d.caSearchers.length).map .searcher) ∧
    d.guards = [] ∧ d.iocs = ∅ ∧ d.connectedPVs = ∅

end Dispatcher

end PVmapper
