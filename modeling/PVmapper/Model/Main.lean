import PVmapper.Model.ConfigFile
import PVmapper.Model.ConnectionsManager

/-!
# PVmapper — from the configuration to the main loop (`dispatcher.cpp`, `main.cpp`)

`main` reads the configuration, constructs a `Dispatcher` from it and calls
its `run` for ever. The constructor opens a socket for every address to listen
on and then for every address to search on; it returns at the first one that
cannot be opened, with what it has so far.

A file that cannot be opened is read as one without lines. The arguments of
the program, its signals and its logging are left out.
-/

namespace PVmapper

/-- What the system answers to the constructor of a `Listener` or a `Searcher`:
the socket, whether its options can be set, whether it can be made
non-blocking, and whether it can be bound. -/
structure UdpOpening where
  sock : Int
  options : Bool
  nonBlocking : Bool
  bound : Bool
deriving DecidableEq, Repr

/-- `Listener::Listener`; `none` is a thrown `SocketException`. An empty
address is any address. -/
def Listener.create {ρ : Type*} (opening : UdpOpening) (addr : Address)
    (accessControl : AccessControl ρ) : Option (Listener ρ) :=
  if opening.sock < 0 ∨ opening.nonBlocking = false ∨ (addr.1 ≠ [] ∧ inetAton addr.1 = none) ∨
      opening.bound = false then none
  else some { sock := opening.sock, addr := addr, accessControl := accessControl }

namespace Dispatcher

/-- What the system answers while the constructor runs: the clock at its start,
and to the `i`-th listener and the `i`-th searcher. -/
structure Boot where
  startedAt : Int
  listener : ℕ → UdpOpening
  searcher : ℕ → UdpOpening
  searcherAt : ℕ → Int

section Construction

variable {ρ σ : Type*}

/-- `Dispatcher::addListener`, on the dispatcher and its listeners. -/
def addListener (accessControl : AccessControl ρ) (opening : ℕ → UdpOpening) (i : ℕ)
    (addr : Address) (w : Dispatcher × List (Listener ρ)) :
    Option (Dispatcher × List (Listener ρ)) :=
  (Listener.create (opening i) addr accessControl).map fun listener =>
    ({ w.1 with connections := w.1.connections ++ [.listener w.2.length] }, w.2 ++ [listener])

/-- `Dispatcher::addSearcher` -/
def addSearcher (searchIntervals : List UInt32) (opening : ℕ → UdpOpening) (now : ℕ → Int) (i : ℕ)
    (addr : Address) (d : Dispatcher) : Option Dispatcher :=
  let sock := if (opening i).options ∧ (opening i).nonBlocking then (opening i).sock else -1
  (Searcher.create sock addr searchIntervals (now i)).map fun searcher =>
    { d with
      caSearchers := d.caSearchers ++ [searcher]
      connections := d.connections ++ [.searcher d.caSearchers.length] }

/-- A loop of the constructor over addresses: it returns at the first one for
which `add` throws. What is there then, and whether there was none. -/
def addAll (add : ℕ → Address → σ → Option σ) : ℕ → List Address → σ → σ × Bool
  | _, [], w => (w, true)
  | i, addr :: addrs, w =>
    match add i addr w with
    | none => (w, false)
    | some w' => addAll add (i + 1) addrs w'

/-- `Dispatcher::Dispatcher`, and the listeners it made. -/
def construct (config : Config.Options) (boot : Boot) : Dispatcher × List (Listener Bytes) :=
  let d : Dispatcher := {
    purgeDelay := config.purgeDelay.toNat
    lastPurge := boot.startedAt
    guards := []
    iocs := ∅
    caSearchers := []
    connectedPVs := ∅
    connections := [] }
  match addAll (addListener config.accessControl boot.listener) 0 config.caListenAddresses
      (d, []) with
  | (w, false) => w
  | (w, true) =>
    ((addAll (addSearcher config.searchIntervals boot.searcher boot.searcherAt) 0
      config.caSearchAddresses w.1).1, w.2)

end Construction

end Dispatcher

/-- `main` on a configuration file with this text, for so many rounds; `none`
is an exception that nothing catches. -/
def main (validRegex : Bytes → Bool) (regexMatch : Bytes → Bytes → Bool) (text : Bytes)
    (boot : Dispatcher.Boot) (rounds : List Dispatcher.Round) :
    Option (Except Loops.Fault Dispatcher) :=
  (Config.parseFile validRegex {} text).map fun r =>
    let w := Dispatcher.construct r.1 boot
    Dispatcher.mainLoop regexMatch w.2 w.1 rounds

end PVmapper
