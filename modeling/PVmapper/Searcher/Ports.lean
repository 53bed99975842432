import PVmapper.ProtoCa.Replies
import PVmapper.Searcher.Lookup

/-!
# PVmapper — the port a found PV is recorded at

`processIncoming` asks `parseIocAddr` for the port once, before it goes through
the responses of a datagram. What it gets is the port in the first of them
(`parseIocAddr_eq`), and it hands that one to the callback with every response,
after it has written it into the reply. A datagram of a gateway, with responses
for several servers, has all its PVs recorded at the first one's port.

* `log_processIncoming` — the callbacks made for a datagram, response by
  response.
* `foundPort_iff`       — exactly which of them get the port of their own
  response.
* `port_of_first`       — a reachable searcher that hands over another
  response's port.
-/

namespace PVmapper

namespace Searcher

open ChannelAccess (responseOffsets responseEntry versionBefore)

section Calls

variable {σ : Type*} (self : σ → Searcher) (put : σ → Searcher → σ) (foundPvCb : FoundPv → σ → σ)

/-- The callback, and a log of its arguments. -/
def logged (f : FoundPv) (w : σ × List FoundPv) : σ × List FoundPv :=
  (foundPvCb f w.1, w.2 ++ [f])

/-- The callback's arguments for the response at `o`, if it is for PV `pv`. -/
def foundPv (remote : InAddr) (buffer : Bytes) (o : ℕ) (pv : SearchedPV) : FoundPv :=
  let iocIp := inetNtop remote
  let iocPort := (ChannelAccess.parseIocAddr iocIp buffer).2
  let rsp := (responseEntry buffer (versionBefore buffer o) o).2
  ⟨pv.pvname, iocIp, iocPort, (ChannelAccess.updateSearchReplyAddr rsp iocIp iocPort).1⟩

/-- The callbacks made for the responses at these offsets, each with its
response's offset. -/
def calls (remote : InAddr) (buffer : Bytes) : List ℕ → σ → List (ℕ × FoundPv)
  | [], _ => []
  | o :: offsets, w =>
    match (self w).takeFound (Header.readAt buffer o).param2 with
    | none => calls remote buffer offsets w
    | some (pv, s) =>
      let f := foundPv remote buffer o pv
      (o, f) :: calls remote buffer offsets (foundPvCb f (put w s))

/-- The log of a datagram is that of its calls. -/
theorem log_processIncoming (remote : InAddr) (buffer : Bytes) (w : σ) :
    (processIncoming (self ∘ Prod.fst) (fun w s => (put w.1 s, w.2)) (logged foundPvCb) remote buffer
        (w, [])).2 =
      (calls self put foundPvCb remote buffer (responseOffsets buffer) w).map Prod.snd := by
  unfold processIncoming
  rw [ChannelAccess.parseSearchResponse_eq, List.foldl_map]
  generalize responseOffsets buffer = offsets
  -- the log so far is a parameter of the induction over the responses
  suffices hLog : ∀ (log : List FoundPv) (w : σ),
      (offsets.foldl (fun w o => handleResponse (self ∘ Prod.fst) (fun w s => (put w.1 s, w.2))
          (logged foundPvCb) (inetNtop remote) (ChannelAccess.parseIocAddr (inetNtop remote) buffer).2
          w (responseEntry buffer (versionBefore buffer o) o)) (w, log)).2 =
        log ++ (calls self put foundPvCb remote buffer offsets w).map Prod.snd by
    exact hLog [] w
  induction offsets with
  | nil =>
    intro log w
    exact (List.append_nil log).symm
  | cons o offsets ih =>
    intro log w
    rw [List.foldl_cons, calls, handleResponse]
    simp only [Function.comp_apply, responseEntry]
    cases (self w).takeFound (Header.readAt buffer o).param2 with
    | none => exact ih log w
    | some found =>
      obtain ⟨pv, s⟩ := found
      refine (ih _ _).trans ?_
      simp only [foundPv, responseEntry, List.map_cons, List.append_assoc,
        List.singleton_append]

theorem of_mem_calls {remote : InAddr} {buffer : Bytes} {offsets : List ℕ} {w : σ}
    {c : ℕ × FoundPv} (h : c ∈ calls self put foundPvCb remote buffer offsets w) :
    c.1 ∈ offsets ∧ ∃ pv, c.2 = foundPv remote buffer c.1 pv := by
  induction offsets generalizing w with
  | nil => exact absurd h List.not_mem_nil
  | cons o offsets ih =>
    rw [calls] at h
    split at h
    · obtain ⟨hMem, hFound⟩ := ih h
      exact ⟨List.mem_cons_of_mem _ hMem, hFound⟩
    · next pv s _ =>
      rcases List.mem_cons.mp h with rfl | h
      · exact ⟨List.mem_cons_self .., pv, rfl⟩
      · obtain ⟨hMem, hFound⟩ := ih h
        exact ⟨List.mem_cons_of_mem _ hMem, hFound⟩

end Calls

-- ---------------------------------------------------------------------------
-- Ports
-- ---------------------------------------------------------------------------

/-- The server port in the SEARCH header at an offset. -/
def portAt (buffer : Bytes) (o : ℕ) : UInt16 := (Header.readAt buffer o).dataType

/-- The callback for the response at `o` gets that response's port, and a reply
that carries it. -/
def OwnPort (buffer : Bytes) (o : ℕ) (f : FoundPv) : Prop :=
  f.iocPort = portAt buffer o ∧
    portAt f.response (f.response.length - (Header.size + 8)) = portAt buffer o

instance (buffer : Bytes) (o : ℕ) (f : FoundPv) : Decidable (OwnPort buffer o f) :=
  inferInstanceAs (Decidable (_ ∧ _))

theorem ownPort_foundPv_iff {buffer : Bytes} {o : ℕ} (ho : o ∈ responseOffsets buffer)
    (remote : InAddr) (pv : SearchedPV) :
    OwnPort buffer o (foundPv remote buffer o pv) ↔
      (responseOffsets buffer).head?.map (portAt buffer) = some (portAt buffer o) := by
  obtain ⟨o₁, hFirst⟩ : ∃ o₁, (responseOffsets buffer).head? = some o₁ := by
    cases hOffsets : responseOffsets buffer with
    | nil =>
      rw [hOffsets] at ho
      exact absurd ho List.not_mem_nil
    | cons o₁ offsets => exact ⟨o₁, rfl⟩
  have hPort : (foundPv remote buffer o pv).iocPort = portAt buffer o₁ := by
    show (ChannelAccess.parseIocAddr (inetNtop remote) buffer).2 = _
    rw [ChannelAccess.parseIocAddr_eq, hFirst]
    rfl
  rw [hFirst, Option.map_some, Option.some.injEq]
  unfold OwnPort
  rw [hPort]
  refine ⟨fun hBoth => hBoth.1, fun hSame => ⟨hSame, ?_⟩⟩
  -- whether the update wrote the port or not, the reply has this one
  have hRsp : (foundPv remote buffer o pv).response =
      (ChannelAccess.updateSearchReplyAddr (responseEntry buffer (versionBefore buffer o) o).2
        (inetNtop remote) (foundPv remote buffer o pv).iocPort).1 := rfl
  rcases ChannelAccess.port_updateSearchReplyAddr ho _ _ hRsp with hWritten | hKept
  · exact hWritten.trans (hPort.trans hSame)
  · exact hKept

/-- **A found PV is recorded at its own response's port, exactly when** that is
the port of the datagram's first search response. -/
theorem foundPort_iff {σ : Type*} (self : σ → Searcher) (put : σ → Searcher → σ)
    (foundPvCb : FoundPv → σ → σ) (remote : InAddr) (buffer : Bytes) (w : σ) :
    (processIncoming (self ∘ Prod.fst) (fun w s => (put w.1 s, w.2)) (logged foundPvCb) remote buffer
        (w, [])).2 =
      (calls self put foundPvCb remote buffer (responseOffsets buffer) w).map Prod.snd ∧
    ∀ c ∈ calls self put foundPvCb remote buffer (responseOffsets buffer) w,
      (OwnPort buffer c.1 c.2 ↔
        (responseOffsets buffer).head?.map (portAt buffer) = some (portAt buffer c.1)) := by
  refine ⟨log_processIncoming self put foundPvCb remote buffer w, ?_⟩
  intro c hCall
  obtain ⟨ho, pv, hFound⟩ := of_mem_calls self put foundPvCb hCall
  rw [hFound]
  exact ownPort_foundPv_iff ho remote pv

/-- Two responses, for the PVs with ids 0 and 1, of servers at ports 5064 and
5070. -/
def twoServers : Bytes :=
  Header.version.encode ++
    Header.encode ⟨cmdSearch, 8, 5064, 0, 0xFFFFFFFF, 0⟩ ++ [0, 13, 0, 0, 0, 0, 0, 0] ++
    Header.encode ⟨cmdSearch, 8, 5070, 0, 0xFFFFFFFF, 1⟩ ++ [0, 13, 0, 0, 0, 0, 0, 0]

/-- A searcher that has sent a request for each of two PVs. -/
def twoSearched : Searcher :=
  { tenBins with
    chanId := 2
    searchedPvs := tenBins.searchedPvs.set 1
      [⟨0, [chr 'A'], 0, [2, 10]⟩, ⟨1, [chr 'B'], 0, [2, 10]⟩]
    currentBin := 1 }

/-- The second PV is recorded at the first one's port. -/
theorem port_of_first :
    Reachable [1] twoSearched ∧
      ∃ c ∈ calls id (fun _ s => s) (fun f s => s.removePV f.pvname) ⟨10, 0, 0, 7⟩ twoServers
          (responseOffsets twoServers) twoSearched,
        c.2.pvname = [chr 'B'] ∧ portAt twoServers c.1 = 5070 ∧ c.2.iocPort = 5064 ∧
          ¬ OwnPort twoServers c.1 c.2 := by
  refine ⟨tenBins_reachable.exec [.addPV 0 [chr 'A'], .addPV 0 [chr 'B'], .outgoing 1000000000]
    (by decide +kernel), ?_⟩
  decide +kernel

end Searcher

end PVmapper
