import PVmapper.Dispatcher.Origins
import PVmapper.Network.Datagrams

/-!
# PVmapper — where requests and replies come from

The system between its clients and its IOCs makes nothing up. In every run,
whatever the clients and the IOCs send, every name a searcher asks for was
asked for by a client that the rules permit, and every reply a client gets is
an entry of a datagram an IOC sent before, with only the address and the
channel id written in, from an IOC that is connected now.

* `searched_was_requested` — the names on the wire.
* `replies_were_received`  — the replies.
-/

namespace PVmapper

namespace Network

open Runs (Run)
open Dispatcher (exists_of_mem_forall₂)

variable {ρ : Type*} {regexMatch : ρ → Bytes → Bool} {listeners : List (Listener ρ)}
  {d d' d₀ : Dispatcher} {searchIntervals : List UInt32} {tr : List (Event × Output)}

-- ---------------------------------------------------------------------------
-- What passes the sockets
-- ---------------------------------------------------------------------------

/-- The permitted requests of what arrives. -/
def requested (regexMatch : ρ → Bytes → Bool) (listeners : List (Listener ρ)) :
    Event → List (UInt32 × Bytes)
  | .clientDatagram k p =>
    (listeners[k]?).elim [] fun l => l.permitted regexMatch p.remote p.buffer
  | _ => []

/-- How many permitted requests arrived. -/
def requestCount (regexMatch : ρ → Bytes → Bool) (listeners : List (Listener ρ))
    (tr : List (Event × Output)) : ℕ :=
  (tr.flatMap fun x => requested regexMatch listeners x.1).length

/-- The packets the `k`-th searcher sends in a step. -/
def packetsOf (k : ℕ) : Output → List Packet
  | .called (.sent k' packets) => if k' = k then packets else []
  | _ => []

/-- The packets the `k`-th searcher has sent. -/
def packetsSent (k : ℕ) (tr : List (Event × Output)) : List Packet :=
  tr.flatMap fun x => packetsOf k x.2

theorem packetsOf_sent (k k' : ℕ) (packets : List Packet) :
    packetsOf k (.called (.sent k' packets)) = if k' = k then packets else [] := rfl

theorem requested_client {k : ℕ} {l : Listener ρ} (hGet : listeners[k]? = some l) (p : Datagram) :
    requested regexMatch listeners (.clientDatagram k p) =
      l.permitted regexMatch p.remote p.buffer := by
  rw [requested, hGet, Option.elim_some]

-- ---------------------------------------------------------------------------
-- The same in the dispatcher's trace
-- ---------------------------------------------------------------------------

variable {x : Event × Output} {block : List (Dispatcher.Event × Dispatcher.Output)}
  {blocks : List (List (Dispatcher.Event × Dispatcher.Output))}

/-- What is sent in a block is what is sent in its step. -/
theorem sentBy_block (h : Explains regexMatch listeners x block) (k : ℕ) :
    Dispatcher.sentBy k block = (packetsOf k x.2).flatMap Packet.pvs := by
  cases h with
  | client hGet hEvents hSent =>
    refine List.flatMap_eq_nil_iff.mpr fun y hy => ?_
    obtain ⟨request, -, response, rfl⟩ := exists_of_mem_forall₂ hEvents.flip hy
    rfl
  | ioc hEvents =>
    refine List.flatMap_eq_nil_iff.mpr fun y hy => ?_
    obtain ⟨response, -, opening, now, f, rfl⟩ := exists_of_mem_forall₂ hEvents.flip hy
    rfl
  | @call e o hCall =>
    show [(e, o)].flatMap (fun y => Dispatcher.requestsOf k y.2) = _
    rw [List.flatMap_singleton]
    cases o with
    | sent k' packets =>
      rw [Dispatcher.requestsOf_sent, packetsOf_sent]
      split <;> rfl
    | _ => rfl

/-- Clients search in a block as often as requests arrive in its step. -/
theorem searchCount_block (h : Explains regexMatch listeners x block) :
    Dispatcher.searchCount block = (requested regexMatch listeners x.1).length := by
  cases h with
  | @client k p l sent block hGet hEvents hSent =>
    rw [requested_client hGet, ← hEvents.length_eq, Dispatcher.searchCount, List.countP_eq_length]
    intro y hy
    obtain ⟨request, -, response, rfl⟩ := exists_of_mem_forall₂ hEvents.flip hy
    rfl
  | ioc hEvents =>
    refine List.countP_eq_zero.mpr fun y hy => ?_
    obtain ⟨response, -, opening, now, f, rfl⟩ := exists_of_mem_forall₂ hEvents.flip hy
    exact Bool.false_ne_true
  | @call e o hCall =>
    cases e with
    | clientSearched clock pvname => exact absurd hCall Bool.false_ne_true
    | _ => rfl

theorem sentBy_flatten (h : List.Forall₂ (Explains regexMatch listeners) tr blocks) (k : ℕ) :
    Dispatcher.sentBy k blocks.flatten = (packetsSent k tr).flatMap Packet.pvs := by
  induction h with
  | nil => rfl
  | @cons x block tr blocks hExplains _ ih =>
    have hSplit : Dispatcher.sentBy k (block ++ blocks.flatten) =
        Dispatcher.sentBy k block ++ Dispatcher.sentBy k blocks.flatten := List.flatMap_append
    rw [List.flatten_cons, hSplit, sentBy_block hExplains, ih, packetsSent, packetsSent,
      List.flatMap_cons, List.flatMap_append]

theorem searchCount_flatten (h : List.Forall₂ (Explains regexMatch listeners) tr blocks) :
    Dispatcher.searchCount blocks.flatten = requestCount regexMatch listeners tr := by
  induction h with
  | nil => rfl
  | @cons x block tr blocks hExplains _ ih =>
    have hSplit : Dispatcher.searchCount (block ++ blocks.flatten) =
        Dispatcher.searchCount block + Dispatcher.searchCount blocks.flatten := List.countP_append
    rw [List.flatten_cons, hSplit, searchCount_block hExplains, ih, requestCount, requestCount,
      List.flatMap_cons, List.length_append]

/-- A search is for a request that arrived. -/
theorem requested_of_asked (h : List.Forall₂ (Explains regexMatch listeners) tr blocks)
    {pvname : Bytes} (hAsked : Dispatcher.AskedIn blocks.flatten pvname) :
    ∃ x ∈ tr, ∃ request ∈ requested regexMatch listeners x.1, request.2 = pvname := by
  obtain ⟨clock, o, hMem⟩ := hAsked
  obtain ⟨block, hBlock, hHere⟩ := List.mem_flatten.mp hMem
  obtain ⟨x, hx, hExplains⟩ := exists_of_mem_forall₂ h hBlock
  refine ⟨x, hx, ?_⟩
  cases hExplains with
  | @client k p l sent block hGet hEvents hSent =>
    obtain ⟨request, hRequest, response, hEq⟩ := exists_of_mem_forall₂ hEvents.flip hHere
    obtain ⟨⟨-, hName⟩, -⟩ : (_ ∧ pvname = request.2) ∧ _ := by
      simpa [searchFor] using hEq
    exact ⟨request, requested_client hGet p ▸ hRequest, hName.symm⟩
  | ioc hEvents =>
    obtain ⟨response, -, opening, now, f, hEq⟩ := exists_of_mem_forall₂ hEvents.flip hHere
    exact absurd hEq (by simp)
  | call hCall =>
    obtain ⟨rfl, -⟩ := Prod.mk.inj (List.mem_singleton.mp hHere)
    exact absurd hCall Bool.false_ne_true

/-- An entry that found a name lies in a datagram that was received; what was
sent before it was sent before the datagram. -/
theorem received_of_found (h : List.Forall₂ (Explains regexMatch listeners) tr blocks)
    {before : List (Dispatcher.Event × Dispatcher.Output)} {k : ℕ} {pvname : Bytes}
    {addr : Address} {entry : UInt32 × Bytes}
    (hFound : Dispatcher.FoundAfter before blocks.flatten k pvname addr entry) :
    ∃ pre q post preBlocks u, tr = pre ++ (.iocDatagram k q, .received) :: post ∧
      entry ∈ ChannelAccess.parseSearchResponse q.buffer ∧ addr = serverOf q ∧
      List.Forall₂ (Explains regexMatch listeners) pre preBlocks ∧
      before = preBlocks.flatten ++ u ∧ Dispatcher.searchCount u = 0 ∧
      ∀ j, Dispatcher.sentBy j u = [] := by
  obtain ⟨opening, now, g, post, hEq⟩ := hFound
  obtain ⟨pre, x, post', preBlocks, u, v, rfl, hAll, hExplains, hBefore⟩ :=
    Runs.exists_of_flatten h hEq
  generalize hBlock : u ++ _ :: v = block at hExplains
  have hMem := hBlock ▸ List.mem_append_right u List.mem_cons_self
  have hBefore' : ∀ y ∈ u, y ∈ block := fun y hy => hBlock ▸ List.mem_append_left _ hy
  cases hExplains with
  | client hGet hEvents hSent =>
    obtain ⟨request, -, response, hEq⟩ := exists_of_mem_forall₂ hEvents.flip hMem
    exact absurd hEq (by simp [searchFor])
  | @ioc k' q block hEvents =>
    obtain ⟨entry', hEntry, opening', now', f, hEq⟩ := exists_of_mem_forall₂ hEvents.flip hMem
    simp only [Prod.mk.injEq, Dispatcher.Event.response.injEq] at hEq
    obtain ⟨⟨rfl, hIp, hPort, rfl, -⟩, -⟩ := hEq
    have hOthers : ∀ y ∈ u, ∃ entry, IsResponse k q y entry := fun y hy => by
      obtain ⟨entry, -, hResponse⟩ := exists_of_mem_forall₂ hEvents.flip (hBefore' y hy)
      exact ⟨entry, hResponse⟩
    refine ⟨pre, q, post', preBlocks, u, rfl, hEntry, Prod.ext hIp hPort, hAll, hBefore, ?_, ?_⟩
    · refine List.countP_eq_zero.mpr fun y hy => ?_
      obtain ⟨entry, opening, now, f, rfl⟩ := hOthers y hy
      exact Bool.false_ne_true
    · refine fun j => List.flatMap_eq_nil_iff.mpr fun y hy => ?_
      obtain ⟨entry, opening, now, f, rfl⟩ := hOthers y hy
      rfl
  | call hCall =>
    obtain ⟨hEvent, -⟩ := Prod.mk.inj (List.mem_singleton.mp hMem)
    rw [← hEvent] at hCall
    exact absurd hCall Bool.false_ne_true

-- ---------------------------------------------------------------------------
-- Requests
-- ---------------------------------------------------------------------------

/-- A permitted name is no longer than its datagram. -/
theorem length_requested_le {e : Event} {request : UInt32 × Bytes}
    (h : request ∈ requested regexMatch listeners e) : request.2.length ≤ 4096 := by
  cases e with
  | clientDatagram k p =>
    rw [requested] at h
    cases hGet : listeners[k]? with
    | none =>
      rw [hGet] at h
      exact absurd h List.not_mem_nil
    | some l =>
      rw [hGet, Option.elim_some, Listener.permitted, Listener.requests_eq] at h
      obtain ⟨pv, hpv, rfl⟩ := List.mem_map.mp (List.mem_of_mem_filter h)
      exact (Dispatcher.length_searched_le hpv).trans p.size.2
  | iocDatagram k p => exact absurd h List.not_mem_nil
  | call e => exact absurd h List.not_mem_nil

/-- What a searcher sends in a step was asked for before. -/
theorem requested_of_sent (hInit : Dispatcher.Init searchIntervals d₀)
    (hRun : Run (step regexMatch listeners) d₀ tr d) {e : Event} {o : Output}
    (hStep : step regexMatch listeners d e = some (d', o)) {k : ℕ} {packet : Packet}
    (hPacket : packet ∈ packetsOf k o) {r : UInt32 × Bytes} (hr : r ∈ packet.pvs) :
    ∃ x ∈ tr, ∃ request ∈ requested regexMatch listeners x.1, request.2 = r.2 := by
  obtain ⟨blocks, hAll, hRun'⟩ := exists_blocks hRun
  rcases step_cases hStep with ⟨_, _, _, _, -, rfl, -⟩ | ⟨_, _, _, -, rfl, -⟩ |
    ⟨e', o', -, rfl, -, hStep'⟩
  · exact absurd hPacket List.not_mem_nil
  · exact absurd hPacket List.not_mem_nil
  · refine requested_of_asked hAll (Dispatcher.asked_of_sent hInit hRun' hStep' (k := k) ?_)
    cases o' with
    | sent k' packets =>
      rw [packetsOf_sent] at hPacket
      rw [Dispatcher.requestsOf_sent]
      split at hPacket
      · next hk =>
        rw [if_pos hk]
        exact List.mem_flatMap.mpr ⟨packet, hPacket, hr⟩
      · exact absurd hPacket List.not_mem_nil
    | _ => exact absurd hPacket List.not_mem_nil

/-- A packet fits a datagram, and is one message for each request it lists. -/
theorem carried_of_packet (hInit : Dispatcher.Init searchIntervals d₀)
    (hRun : Run (step regexMatch listeners) d₀ tr d) {e : Event} {o : Output}
    (hStep : step regexMatch listeners d e = some (d', o)) {k : ℕ} {packet : Packet}
    (hPacket : packet ∈ packetsOf k o) :
    packet.msg.length ≤ 5120 ∧ ∃ ms, ChannelAccess.Carried packet ms := by
  obtain ⟨blocks, hAll, hRun'⟩ := exists_blocks hRun
  rcases step_cases hStep with ⟨_, _, _, _, -, rfl, -⟩ | ⟨_, _, _, -, rfl, -⟩ |
    ⟨e', o', -, rfl, -, hStep'⟩
  · exact absurd hPacket List.not_mem_nil
  · exact absurd hPacket List.not_mem_nil
  · cases o' with
    | sent k' packets =>
      have hAsked : ∀ pvname, Dispatcher.AskedIn blocks.flatten pvname → pvname.length ≤ 4096 := by
        intro pvname hName
        obtain ⟨x, -, request, hRequest, rfl⟩ := requested_of_asked hAll hName
        exact length_requested_le hRequest
      rw [packetsOf_sent] at hPacket
      split at hPacket
      · exact Dispatcher.carried_of_sent hInit hRun' hStep' (by decide) hAsked packet hPacket
      · exact absurd hPacket List.not_mem_nil
    | _ => exact absurd hPacket List.not_mem_nil

/-- **What goes out was asked for.** In every run, every packet a searcher
sends fits a datagram, and is one SEARCH message for each request it lists,
each for a name that a permitted client asked for before. PVmapper's own parser
reads these requests back if no name ends in a NUL, a reader in C if no name
has a NUL in it, and otherwise they do not. -/
theorem searched_was_requested (hInit : Dispatcher.Init searchIntervals d₀)
    (hRun : Run (step regexMatch listeners) d₀ tr d) {e : Event} {o : Output}
    (hStep : step regexMatch listeners d e = some (d', o)) {k : ℕ} {packet : Packet}
    (hPacket : packet ∈ packetsOf k o) :
    packet.msg.length ≤ 5120 ∧
      (∃ ms, ChannelAccess.Carried packet ms ∧
        (ms.map Message.cRequest = packet.pvs ↔ ∀ r ∈ packet.pvs, 0 ∉ r.2)) ∧
      ChannelAccess.parseSearchRequest packet.msg = packet.pvs.map ChannelAccess.readBack ∧
      (ChannelAccess.parseSearchRequest packet.msg = packet.pvs ↔
        ∀ r ∈ packet.pvs, r.2.getLast? ≠ some 0) ∧
      ∀ r ∈ packet.pvs, ∃ x ∈ tr, ∃ request ∈ requested regexMatch listeners x.1,
        request.2 = r.2 := by
  obtain ⟨hLen, ms, hCarried⟩ := carried_of_packet hInit hRun hStep hPacket
  refine ⟨hLen, ⟨ms, hCarried, ChannelAccess.cRequests_eq_pvs_iff hCarried⟩,
    ChannelAccess.parse_of_carried hCarried, ChannelAccess.parse_eq_pvs_iff hCarried, ?_⟩
  intro r hr
  exact requested_of_sent hInit hRun hStep hPacket hr

-- ---------------------------------------------------------------------------
-- Replies
-- ---------------------------------------------------------------------------

/-- An IOC's response as it is passed on to a client: the IOC's address is
written in, and then the client's channel id. -/
def relayed (response : Bytes) (addr : Address) (chanId : UInt32) : Bytes :=
  (ChannelAccess.updateSearchReplyId
    (ChannelAccess.updateSearchReplyAddr response addr.1 addr.2).1 chanId).1

/-- The reply to a request is an entry of a datagram that the `j`-th searcher
received after `pre`. -/
structure Received (tr pre : List (Event × Output)) (j : ℕ) (q : Datagram)
    (entry request : UInt32 × Bytes) (msg : Bytes) : Prop where
  before : ∃ post, tr = pre ++ (.iocDatagram j q, .received) :: post
  holds : entry ∈ ChannelAccess.parseSearchResponse q.buffer
  msg : msg = relayed entry.2 (serverOf q) request.1

/-- The IOC that sent the datagram is connected. -/
def ServerOpen (d : Dispatcher) (q : Datagram) : Prop :=
  ∃ (g : GuardId) (guard : IocGuard), d.guards[g]? = some guard ∧ guard.isConnected = true ∧
    guard.getIocAddr = serverOf q

/-- The entry's id was not sent out for another name than the one asked for. -/
def Attributed (pre : List (Event × Output)) (j : ℕ) (entry request : UInt32 × Bytes) : Prop :=
  ∀ sent, (entry.1, sent) ∈ (packetsSent j pre).flatMap Packet.pvs → request.2 = sent

theorem explains_client {k : ℕ} {p : Datagram} {sent : List Bytes}
    (h : Explains regexMatch listeners (.clientDatagram k p, .replies sent) block) :
    List.Forall₂ (IsSearch p) block (requested regexMatch listeners (.clientDatagram k p)) ∧
      Answers p block (requested regexMatch listeners (.clientDatagram k p)) sent := by
  cases h with
  | client hGet hEvents hSent =>
    rw [requested_client hGet]
    exact ⟨hEvents, hSent⟩

/-- The searches for a client leave the guards alone. -/
theorem guards_of_searches (hRun : Run Dispatcher.step d block d')
    (h : ∀ y ∈ block, ∃ clock pvname, y.1 = .clientSearched clock pvname) :
    d'.guards = d.guards := by
  refine hRun.invariant_of_mem (I := fun d₁ => d₁.guards = d.guards) ?_ rfl
  rintro d₁ e d₂ o hMem hSame hStep
  obtain ⟨clock, pvname, rfl⟩ := h _ hMem
  exact (Dispatcher.guards_clientSearched hStep).trans hSame

/-- Where a reply comes from, and which name it is about: `block` is what a
client's datagram is for the dispatcher, in the state `d` a run ends in. -/
theorem received_of_reply (hInit : Dispatcher.Init searchIntervals d₀)
    (hRun : Run (step regexMatch listeners) d₀ tr d) (hBlock : Run Dispatcher.step d block d')
    {p : Datagram} {requests : List (UInt32 × Bytes)}
    (hSearches : List.Forall₂ (IsSearch p) block requests) {request : UInt32 × Bytes} {msg : Bytes}
    (hReplies : RepliesTo p block request msg) :
    ∃ pre j q entry, Received tr pre j q entry request msg ∧ ServerOpen d q ∧
      (requestCount regexMatch listeners tr ≤ 2 ^ 32 → Attributed pre j entry request) := by
  obtain ⟨blocks, hAll, hRun₁⟩ := exists_blocks hRun
  obtain ⟨before, response, after, rfl, hne, rfl⟩ := hReplies
  -- the state the search is made in, and the run up to it
  obtain ⟨d₁, hBefore, hRest⟩ := hBlock.split
  obtain ⟨d₂, hSearch, -⟩ := Runs.run_cons_iff.mp hRest
  have hEarlier : ∀ y ∈ before, ∃ r response, y = (searchFor p r, .reply response) := fun y hy => by
    obtain ⟨r, -, response', rfl⟩ :=
      exists_of_mem_forall₂ hSearches.flip (List.mem_append_left _ hy)
    exact ⟨r, response', rfl⟩
  have hGuards : d₁.guards = d.guards := by
    refine guards_of_searches hBefore fun y hy => ?_
    obtain ⟨r, response', rfl⟩ := hEarlier y hy
    exact ⟨_, _, rfl⟩
  obtain ⟨g, guard, hGuard, hOpen, before', j, entry, hFound, rfl⟩ :=
    Dispatcher.heard_of_reply hInit (hRun₁.append hBefore) hSearch hne
  -- the entry was found before this datagram, so it lies in one before it
  have hFound := hFound.of_append fun y hy f => by
    obtain ⟨r, response', rfl⟩ := hEarlier y hy
    exact Dispatcher.Output.noConfusion
  obtain ⟨pre, q, post, preBlocks, u, rfl, hEntry, hAddr, hPre, rfl, hCount, hNone⟩ :=
    received_of_found hAll hFound
  refine ⟨pre, j, q, entry, ⟨⟨post, rfl⟩, hEntry, ?_⟩, ⟨g, guard, hGuards ▸ hGuard, hOpen, hAddr⟩,
    fun hFew sent hSent => hFound.attributed hInit hRun₁ ?_ ?_⟩
  · rw [relayed, ← hAddr]
  · have hSplit : Dispatcher.searchCount (preBlocks.flatten ++ u) =
        Dispatcher.searchCount preBlocks.flatten + Dispatcher.searchCount u := List.countP_append
    rw [hSplit, hCount, searchCount_flatten hPre, Nat.add_zero]
    refine le_trans ?_ hFew
    rw [requestCount, requestCount, List.flatMap_append, List.length_append]
    exact Nat.le_add_right _ _
  · have hSplit : Dispatcher.sentBy j (preBlocks.flatten ++ u) =
        Dispatcher.sentBy j preBlocks.flatten ++ Dispatcher.sentBy j u := List.flatMap_append
    rw [hSplit, hNone, sentBy_flatten hPre, List.append_nil]
    exact hSent

/-- **What comes back was heard.** In every run, whatever IOCs and clients
send, the replies a client gets are for some of its permitted requests, in
their order, at most one for each. Each is an entry of a datagram that an IOC
sent before, with that IOC's address and the client's channel id written in;
that IOC is connected; and the entry's id was not sent out for another name. -/
theorem replies_were_received (hInit : Dispatcher.Init searchIntervals d₀)
    (hRun : Run (step regexMatch listeners) d₀ tr d) {k : ℕ} {p : Datagram} {sent : List Bytes}
    (hStep : step regexMatch listeners d (.clientDatagram k p) = some (d', .replies sent)) :
    ∃ answered, answered.Sublist (requested regexMatch listeners (.clientDatagram k p)) ∧
      List.Forall₂ (fun request msg => ∃ pre j q entry, Received tr pre j q entry request msg ∧
        ServerOpen d q ∧
        (requestCount regexMatch listeners tr ≤ 2 ^ 32 → Attributed pre j entry request))
        answered sent := by
  obtain ⟨block, hBlock, hExplains⟩ := run_of_step hStep
  obtain ⟨hSearches, answered, hSub, hReplies⟩ := explains_client hExplains
  exact ⟨answered, hSub, hReplies.imp fun request msg hReply =>
    received_of_reply hInit hRun hBlock hSearches hReply⟩

-- ---------------------------------------------------------------------------
-- A discovery
-- ---------------------------------------------------------------------------

/-- A listener that lets everybody search for everything. -/
def openListener : Listener Empty := ⟨3, ([], 5064), ⟨[], []⟩⟩

/-- A datagram handled while the clock stands still. -/
def datagram (remote : InAddr) (buffer : Bytes) (now : Int)
    (size : 0 < buffer.length ∧ buffer.length ≤ 4096) : Datagram :=
  ⟨remote, 40000, buffer, size, fun _ _ => now, fun _ => ⟨7, true, true⟩, fun _ => now⟩

/-- A client asks for a PV on the given channel. -/
def ask (chanId : UInt32) (now : Int) : Datagram :=
  datagram ⟨10, 0, 0, 2⟩ (Header.version.encode ++
    Header.encode ⟨cmdSearch, 8, 5, 13, chanId, chanId⟩ ++ [chr 'A', 0, 0, 0, 0, 0, 0, 0]) now
    (by simp [Header.size])

/-- The response to the first request. -/
def firstResponse : Bytes := ChannelAccess.ordinaryResponse 0

/-- An IOC answers the first request. -/
def answer (now : Int) : Datagram :=
  datagram ⟨10, 0, 0, 7⟩ firstResponse now (by decide +kernel)

/-- A client asks for a PV, a searcher sends the request, an IOC answers, and
the client asks again. -/
def discovery : List Event :=
  [.clientDatagram 0 (ask 42 1000000000), .call (.searcherOutgoing 0 1100000000),
    .iocDatagram 0 (answer 1200000000), .clientDatagram 0 (ask 43 1300000000)]

/-- No rule matches: there is none. -/
def noMatch : Empty → Bytes → Bool := nofun

/-- The request on the wire. -/
def requestPacket : Packet :=
  ⟨Header.version.encode ++ Header.encode ⟨cmdSearch, 8, 5, 13, 0, 0⟩ ++
    [chr 'A', 0, 0, 0, 0, 0, 0, 0], [(0, [chr 'A'])]⟩

/-- The reply: the IOC's address and the client's channel are in. -/
def reply : Bytes :=
  Header.version.encode ++ Header.encode ⟨cmdSearch, 8, 5064, 0, 0x0A000007, 43⟩ ++
    [0, 13, 0, 0, 0, 0, 0, 0]

def discoveryTrace : List (Event × Output) :=
  discovery.zip [.replies [], .called (.sent 0 [requestPacket]), .received, .replies [reply]]

/-- The discovery, cut before one of its events. -/
theorem run_discovery (n : ℕ) :
    ∃ d d', Run (step noMatch [openListener]) Dispatcher.oneSearcher (discoveryTrace.take n) d ∧
      Run (step noMatch [openListener]) d (discoveryTrace.drop n) d' := by
  have hRun : ∃ d', Run (step noMatch [openListener]) Dispatcher.oneSearcher discoveryTrace d' :=
    Runs.exists_run_of_outputs discovery (by decide +kernel)
  obtain ⟨d', hRun⟩ := hRun
  rw [← List.take_append_drop n discoveryTrace] at hRun
  obtain ⟨d, hBefore, hAfter⟩ := hRun.split
  exact ⟨d, d', hBefore, hAfter⟩

/-- The request goes out as it was asked for, and is read back so. -/
theorem searched_was_requested_discovery :
    requestPacket.msg.length ≤ 5120 ∧
      (∃ ms, ChannelAccess.Carried requestPacket ms ∧
        ms.map Message.cRequest = requestPacket.pvs) ∧
      ChannelAccess.parseSearchRequest requestPacket.msg = requestPacket.pvs ∧
      ∀ r ∈ requestPacket.pvs, ∃ x ∈ discoveryTrace.take 1,
        ∃ request ∈ requested noMatch [openListener] x.1, request.2 = r.2 := by
  obtain ⟨d₁, d₃, hAsked, hRest⟩ := run_discovery 1
  obtain ⟨d₂, hStep, -⟩ := Runs.run_cons_iff.mp hRest
  obtain ⟨hLen, ⟨ms, hCarried, hC⟩, -, hRead, hFrom⟩ :=
    searched_was_requested Dispatcher.init_oneSearcher hAsked hStep (k := 0) List.mem_cons_self
  exact ⟨hLen, ⟨ms, hCarried, hC.mpr (by decide)⟩, hRead.mpr (by decide), hFrom⟩

/-- The second request is answered with what the IOC sent. -/
theorem replies_were_received_discovery :
    ∃ d answered, Run (step noMatch [openListener]) Dispatcher.oneSearcher
        (discoveryTrace.take 3) d ∧
      answered.Sublist (requested noMatch [openListener]
        (.clientDatagram 0 (ask 43 1300000000))) ∧
      List.Forall₂ (fun request msg => ∃ pre j q entry,
        Received (discoveryTrace.take 3) pre j q entry request msg ∧ ServerOpen d q ∧
        (requestCount noMatch [openListener] (discoveryTrace.take 3) ≤ 2 ^ 32 →
          Attributed pre j entry request)) answered [reply] := by
  obtain ⟨d, d', hFound, hRest⟩ := run_discovery 3
  obtain ⟨d₂, hStep, -⟩ := Runs.run_cons_iff.mp hRest
  obtain ⟨answered, hSub, hReplies⟩ :=
    replies_were_received Dispatcher.init_oneSearcher hFound hStep
  exact ⟨d, answered, hFound, hSub, hReplies⟩

end Network

end PVmapper
