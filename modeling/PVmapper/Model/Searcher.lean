import PVmapper.Lib.Runs
import PVmapper.Lib.Slots
import PVmapper.Model.ProtoCa

/-!
# PVmapper — the searcher (`searcher.cpp`)

A `Searcher` keeps the PVs it searches for in `m_searchedPvs`, one list (bin)
for each tenth of a second of the longest search interval. Every tick sends
the PVs of bin `m_currentBin`, moves each of them ahead by its next interval
and advances `m_currentBin`.

Operations that would read or write outside a container answer `none`. The
clock is an argument of every operation that reads it. The last section makes
a transition system of one searcher, with the responses of a datagram handled
one after the other.
-/

namespace PVmapper

/-- `Searcher::SearchedPV` -/
structure SearchedPV where
  chanId : UInt32
  pvname : Bytes
  lastSearched : Int
  intervals : List UInt32
deriving DecidableEq, Repr

/-- The state of a `Searcher`; `addr` is where it sends its requests. -/
structure Searcher where
  sock : Int
  addr : Address
  searchIntervals : List UInt32
  chanId : UInt32
  searchedPvs : List (List SearchedPV)
  currentBin : ℕ
  lastSearch : Int
deriving DecidableEq, Repr

/-- The arguments of the found callback. -/
structure FoundPv where
  pvname : Bytes
  iocIp : Bytes
  iocPort : UInt16
  response : Bytes
deriving DecidableEq, Repr

/-- A datagram handed to `sendto`, with the PVs it was reported to search for. -/
structure Packet where
  msg : Bytes
  pvs : List (UInt32 × Bytes)
deriving DecidableEq, Repr

namespace Searcher

/-! ## Construction -/

/-- `m_searchIntervals` after the constructor: the configured intervals in
ticks of 0.1 s, as 32-bit products, behind the two quick retries. -/
def scheduleIntervals (searchIntervals : List UInt32) : List UInt32 :=
  1 :: 2 :: searchIntervals.map (· * 10)

theorem scheduleIntervals_ne (searchIntervals : List UInt32) :
    scheduleIntervals searchIntervals ≠ [] := by
  simp [scheduleIntervals]

/-- `auto maxInterval = m_searchIntervals.back()` -/
def maxInterval (searchIntervals : List UInt32) : UInt32 :=
  (scheduleIntervals searchIntervals).getLast (scheduleIntervals_ne searchIntervals)

/-- The members as a successful constructor leaves them. -/
def fresh (sock : Int) (addr : Address) (searchIntervals : List UInt32) (now : Int) :
    Searcher where
  sock := sock
  addr := addr
  searchIntervals := scheduleIntervals searchIntervals
  chanId := 0
  searchedPvs := List.replicate (maxInterval searchIntervals).toNat []
  currentBin := 0
  lastSearch := now

/-- `Searcher::Searcher`. `sock` is the configured socket, negative when the
system refused it; `none` is a thrown `SocketException`. -/
def create (sock : Int) (addr : Address) (searchIntervals : List UInt32) (now : Int) :
    Option Searcher :=
  if sock < 0 ∨ inetAton addr.1 = none then none
  else some (fresh sock addr searchIntervals now)

/-! ## Adding and removing -/

/-- `Searcher::addPV`; `none` when `m_searchedPvs[m_currentBin]` does not exist. -/
def addPV (s : Searcher) (now : Int) (pvname : Bytes) : Option (Searcher × Bool) :=
  match Slots.updateFirst (·.pvname == pvname) (fun pv => { pv with lastSearched := now })
      s.searchedPvs with
  | some bins =>
    -- We're already searching for this PV
    some ({ s with searchedPvs := bins }, false)
  | none =>
    if s.currentBin < s.searchedPvs.length then
      let pv : SearchedPV := ⟨s.chanId, pvname, now, s.searchIntervals⟩
      some ({ s with
        chanId := s.chanId + 1
        searchedPvs := s.searchedPvs.modify s.currentBin (pv :: ·) }, true)
    else none

/-- `Searcher::removePV` -/
def removePV (s : Searcher) (pvname : Bytes) : Searcher :=
  { s with searchedPvs := Slots.eraseFirst (·.pvname == pvname) s.searchedPvs }

/-! ## Responses -/

/-- `m_searchedPvs[b]` -/
def bin (s : Searcher) (b : ℕ) : List SearchedPV := s.searchedPvs.getD b []

/-- `(m_currentBin+i-1)%m_searchedPvs.size()`, computed in 64-bit unsigned
arithmetic. -/
def scanIndex (s : Searcher) (i : ℕ) : ℕ :=
  (s.currentBin + i + (2 ^ 64 - 1)) % 2 ^ 64 % s.searchedPvs.length

/-- The bins in the order `processIncoming` looks into them. -/
def scanOrder (s : Searcher) : List ℕ := (List.range s.searchedPvs.length).map s.scanIndex

/-- The search for a response's PV: the first PV with this id, in scan order,
and its bin. -/
def findPv (s : Searcher) (chanId : UInt32) : Option (ℕ × SearchedPV) :=
  s.scanOrder.findSome? fun b => ((s.bin b).find? (·.chanId == chanId)).map (b, ·)

/-- The PV a response is for, and the searcher after `bin.erase(it)`. -/
def takeFound (s : Searcher) (chanId : UInt32) : Option (SearchedPV × Searcher) :=
  match s.findPv chanId with
  | none => none
  | some (b, pv) =>
    some (pv, { s with searchedPvs := s.searchedPvs.modify b (List.eraseP (·.chanId == chanId)) })

section Incoming

variable {σ : Type*} (self : σ → Searcher) (put : σ → Searcher → σ) (foundPvCb : FoundPv → σ → σ)

/-- One iteration of the loop over `responses`. The callback may change
anything in the surrounding state `σ`, this searcher (read by `self`, written
by `put`) included; the scan stops right after it. -/
def handleResponse (iocIp : Bytes) (iocPort : UInt16) (w : σ) (response : UInt32 × Bytes) : σ :=
  let rsp := (ChannelAccess.updateSearchReplyAddr response.2 iocIp iocPort).1
  match (self w).takeFound response.1 with
  | none => w
  | some (pv, s) => foundPvCb ⟨pv.pvname, iocIp, iocPort, rsp⟩ (put w s)

/-- `Searcher::processIncoming`, for one datagram. -/
def processIncoming (remote : InAddr) (buffer : Bytes) (w : σ) : σ :=
  let iocIp := inetNtop remote
  let iocPort := (ChannelAccess.parseIocAddr iocIp buffer).2
  (ChannelAccess.parseSearchResponse buffer).foldl (handleResponse self put foundPvCb iocIp iocPort) w

end Incoming

/-! ## Ticks -/

/-- The loop over the due bin `cur`. `rest` are the elements from the
iterator on, `bins[cur]` the ones before it: an element that stays goes behind
those, a spliced one to the front of its new bin, which may be the same. -/
def dueLoop (cur : ℕ) : List SearchedPV → List (List SearchedPV) → List (List SearchedPV)
  | [], bins => bins
  | pv :: rest, bins =>
    match pv.intervals with
    | d :: d' :: ds =>
      let newBinIdx := (cur + d.toNat) % 2 ^ 64 % bins.length
      dueLoop cur rest (bins.modify newBinIdx ({ pv with intervals := d' :: ds } :: ·))
    | _ => dueLoop cur rest (bins.modify cur (· ++ [pv]))

/-- The loop that sends `pvs`, packet by packet; `none` when a packet cannot
be built or, at the end of the fuel, when the loop does not get on. -/
def sendLoop : ℕ → List (UInt32 × Bytes) → Option (List Packet)
  | _, [] => some []
  | 0, _ :: _ => none
  | fuel + 1, pv :: pvs =>
    match ChannelAccess.createSearchRequest (pv :: pvs) with
    | none => none
    | some (msg, nPvs) =>
      (sendLoop fuel ((pv :: pvs).drop nPvs)).map (⟨msg, (pv :: pvs).take nPvs⟩ :: ·)

/-- The 10 Hz guard: the call returns early. -/
def tooEarly (s : Searcher) (now : Int) : Prop := milliseconds (now - s.lastSearch) < 99

instance (s : Searcher) (now : Int) : Decidable (s.tooEarly now) := by
  unfold tooEarly
  infer_instance

/-- What `processOutgoing` does past the guard. -/
def tick (s : Searcher) : Option (Searcher × List Packet) :=
  match s.searchedPvs[s.currentBin]? with
  | none => none
  | some due =>
    let bins := dueLoop s.currentBin due (s.searchedPvs.set s.currentBin [])
    let pvs := due.map fun pv => (pv.chanId, pv.pvname)
    (sendLoop pvs.length pvs).map fun packets =>
      ({ s with
        searchedPvs := bins
        currentBin := (s.currentBin + 1) % s.searchedPvs.length }, packets)

/-- `Searcher::processOutgoing` -/
def processOutgoing (s : Searcher) (now : Int) : Option (Searcher × List Packet) :=
  if s.tooEarly now then some (s, []) else s.tick

/-! ## Purging -/

/-- `duration > maxtime` -/
def isStale (maxtime : ℕ) (now : Int) (pv : SearchedPV) : Bool :=
  (maxtime : Int) < seconds (now - pv.lastSearched)

/-- The loop that deals `pvs` to the bins from index `i` on, and what is left
over. -/
def dealLoop (pvsPerBin : ℕ) (bins : List (List SearchedPV)) (pvs : List SearchedPV) (i : ℕ) :
    List (List SearchedPV) × List SearchedPV :=
  if i < bins.length ∧ pvs ≠ [] then
    let nPvs := min pvsPerBin pvs.length
    if nPvs < 10 then
      dealLoop pvsPerBin (bins.modify i (pvs.take (min pvs.length 10) ++ ·))
        (pvs.drop (min pvs.length 10)) (i + (10 - nPvs - 1) + 1)
    else
      dealLoop pvsPerBin (bins.modify i (pvs.take nPvs ++ ·)) (pvs.drop nPvs) (i + 1)
  else (bins, pvs)
termination_by bins.length - i
decreasing_by
  all_goals
    rw [List.length_modify]
    omega

/-- `Searcher::purgePVs`. `clock pv` is the reading taken when `pv` is
examined. Without bins the average number of PVs per bin is not a number and
the call is undefined. -/
def purgePVs (s : Searcher) (clock : SearchedPV → Int) (maxtime : ℕ) :
    Option (Searcher × UInt32 × UInt32) :=
  if s.searchedPvs.length = 0 then none
  else
    let kept := s.searchedPvs.map (List.filter fun pv => !isStale maxtime (clock pv) pv)
    let pvs := kept.flatten
    let nBins := s.searchedPvs.length
    let pvsPerBin := (pvs.length + nBins - 1) / nBins
    let (bins, left) := dealLoop pvsPerBin (List.replicate nBins []) pvs 0
    some ({ s with
      -- any PVs that remain go to the last bin
      searchedPvs := bins.modify (nBins - 1) (· ++ left)
      currentBin := 0 },
      UInt32.ofNat (s.searchedPvs.flatten.length - pvs.length), UInt32.ofNat pvs.length)

/-! ## One searcher as a transition system -/

/-- What can happen to a searcher. In `response`, `accepted` says whether the
found callback re-enters `removePV` (it does unless the IOC's guard cannot be
created). -/
inductive Event
  | addPV (now : Int) (pvname : Bytes)
  | removePV (pvname : Bytes)
  | response (chanId : UInt32) (accepted : Bool)
  | outgoing (now : Int)
  | purge (clock : SearchedPV → Int) (maxtime : ℕ)

/-- What a searcher answers; `ticked` tells a tick from an early return. -/
inductive Output
  | added (isNew : Bool)
  | removed
  | found (pvname : Option Bytes)
  | sent (ticked : Bool) (packets : List Packet)
  | purged (nPurged nSearching : UInt32)
deriving DecidableEq, Repr

def step (s : Searcher) : Event → Option (Searcher × Output)
  | .addPV now pvname => (s.addPV now pvname).map fun r => (r.1, .added r.2)
  | .removePV pvname => some (s.removePV pvname, .removed)
  | .response chanId accepted =>
    match s.takeFound chanId with
    | none => some (s, .found none)
    | some (pv, s') =>
      some (if accepted then s'.removePV pv.pvname else s', .found (some pv.pvname))
  | .outgoing now => (s.processOutgoing now).map fun r => (r.1, .sent (¬ s.tooEarly now) r.2)
  | .purge clock maxtime => (s.purgePVs clock maxtime).map fun r => (r.1, .purged r.2.1 r.2.2)

/-- A freshly constructed searcher. -/
def Init (searchIntervals : List UInt32) (s : Searcher) : Prop :=
  ∃ sock addr now, create sock addr searchIntervals now = some s

/-- The states a searcher constructed with these intervals gets into. -/
def Reachable (searchIntervals : List UInt32) (s : Searcher) : Prop :=
  Runs.Reachable (Init searchIntervals) step s

end Searcher

end PVmapper
