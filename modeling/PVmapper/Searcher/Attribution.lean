import PVmapper.Searcher.Entries

/-!
# PVmapper — which name a response is attributed to

A searcher with its network. Requests it has sent may be answered any number
of times, by any number of IOCs; answers in flight may be delivered in any
order, after any delay, or lost. An answer carries nothing but the id of the
request it answers, so by the time it arrives the PV may have been purged,
removed or found, and added again under a new id.

`Link` carries three histories next to the searcher: the insertions made by
`addPV`, the requests sent, and the callbacks made. `Attributed` is the
invariant that ties them to the bins; it needs no bound on the number of
insertions.

* `step_deliver`, `run_searcher` — a delivery is the searcher's own handling of
  a response, and a link's searcher makes a run of its own system.
* `attributed_step`, `attributed_run` — every step and every run keeps it.
* `callbacks_attributed` — while ids have not wrapped around, a callback gets
  the name of the request its response answers, and no insertion gets more
  than one.
-/

namespace PVmapper

open Searcher

/-- A request: the id and the name searched for. -/
abbrev Request := UInt32 × Bytes

/-- A searcher, the answers in flight to it and the histories of its run. A
callback is recorded with the request its response answers. -/
structure Link where
  searcher : Searcher
  flight : Multiset Request
  inserted : List Request
  sent : List Request
  callbacks : List (Request × Bytes)
deriving DecidableEq

namespace Link

/-- What can happen on the link. -/
inductive Event
  | addPV (now : Int) (pvname : Bytes)
  | removePV (pvname : Bytes)
  | outgoing (now : Int)
  | purge (clock : SearchedPV → Int) (maxtime : ℕ)
  /-- an IOC answers a request -/
  | answer (request : Request)
  /-- an answer is lost -/
  | lose (request : Request)
  /-- an answer arrives; `accepted` as in `Searcher.Event.response` -/
  | deliver (request : Request) (accepted : Bool)

def step (l : Link) : Event → Option (Link × Unit)
  | .addPV now pvname =>
    (l.searcher.addPV now pvname).map fun r =>
      ({ l with
        searcher := r.1
        inserted := if r.2 then l.inserted ++ [(l.searcher.chanId, pvname)] else l.inserted }, ())
  | .removePV pvname => some ({ l with searcher := l.searcher.removePV pvname }, ())
  | .outgoing now =>
    (l.searcher.processOutgoing now).map fun r =>
      ({ l with
        searcher := r.1
        sent := l.sent ++ r.2.flatMap Packet.pvs }, ())
  | .purge clock maxtime =>
    (l.searcher.purgePVs clock maxtime).map fun r => ({ l with searcher := r.1 }, ())
  | .answer request =>
    if request ∈ l.sent then some ({ l with flight := request ::ₘ l.flight }, ()) else none
  | .lose request => some ({ l with flight := l.flight.erase request }, ())
  | .deliver request accepted =>
    if request ∈ l.flight then
      let l := { l with flight := l.flight.erase request }
      match l.searcher.takeFound request.1 with
      | none => some (l, ())
      | some (pv, s) =>
        some ({ l with
          searcher := if accepted then s.removePV pv.pvname else s
          callbacks := l.callbacks ++ [(request, pv.pvname)] }, ())
    else none

/-- The found callback on a link: the dispatcher's, which re-enters `removePV`
unless it rejects the finding, and a record of it. -/
def recordCb (request : Request) (accepted : Bool) (found : FoundPv) (l : Link) : Link :=
  { l with
    searcher := if accepted then l.searcher.removePV found.pvname else l.searcher
    callbacks := l.callbacks ++ [(request, found.pvname)] }

/-- A delivery is one iteration of the loop over a datagram's responses, with
the callback that records. The IOC's address and the bytes of the response go
to the callback only. -/
theorem step_deliver {l : Link} {request : Request} (hFlight : request ∈ l.flight)
    (accepted : Bool) (iocIp : Bytes) (iocPort : UInt16) (response : Bytes) :
    l.step (.deliver request accepted) =
      some (handleResponse Link.searcher (fun l s => { l with searcher := s })
        (recordCb request accepted) iocIp iocPort { l with flight := l.flight.erase request }
        (request.1, response), ()) := by
  show (if request ∈ l.flight then _ else none) = _
  rw [if_pos hFlight]
  unfold handleResponse
  dsimp only
  cases l.searcher.takeFound request.1 with
  | none => rfl
  | some found => rfl

/-- A step of a link is at most one step of its searcher. -/
theorem step_searcher {l l' : Link} {e : Event} {o : Unit} (hStep : l.step e = some (l', o)) :
    l'.searcher = l.searcher ∨ ∃ e' o', l.searcher.step e' = some (l'.searcher, o') := by
  cases e with
  | addPV now pvname =>
    obtain ⟨⟨s, isNew⟩, hAdd, hEq⟩ := Option.map_eq_some_iff.mp hStep
    obtain ⟨rfl, -⟩ := Prod.mk.inj hEq
    exact Or.inr ⟨.addPV now pvname, .added isNew, Option.map_eq_some_iff.mpr ⟨_, hAdd, rfl⟩⟩
  | removePV pvname =>
    obtain ⟨rfl, -⟩ := Prod.mk.inj (Option.some.inj hStep)
    exact Or.inr ⟨.removePV pvname, .removed, rfl⟩
  | outgoing now =>
    obtain ⟨⟨s, packets⟩, hOut, hEq⟩ := Option.map_eq_some_iff.mp hStep
    obtain ⟨rfl, -⟩ := Prod.mk.inj hEq
    exact Or.inr ⟨.outgoing now, _, Option.map_eq_some_iff.mpr ⟨_, hOut, rfl⟩⟩
  | purge clock maxtime =>
    obtain ⟨⟨s, counts⟩, hPurge, hEq⟩ := Option.map_eq_some_iff.mp hStep
    obtain ⟨rfl, -⟩ := Prod.mk.inj hEq
    exact Or.inr ⟨.purge clock maxtime, _, Option.map_eq_some_iff.mpr ⟨_, hPurge, rfl⟩⟩
  | answer request =>
    obtain ⟨-, hEq⟩ := Option.ite_none_right_eq_some.mp hStep
    obtain ⟨rfl, -⟩ := Prod.mk.inj (Option.some.inj hEq)
    exact Or.inl rfl
  | lose request =>
    obtain ⟨rfl, -⟩ := Prod.mk.inj (Option.some.inj hStep)
    exact Or.inl rfl
  | deliver request accepted =>
    obtain ⟨-, hEq⟩ := Option.ite_none_right_eq_some.mp hStep
    dsimp only at hEq
    cases hTake : l.searcher.takeFound request.1 with
    | none =>
      rw [hTake] at hEq
      obtain ⟨rfl, -⟩ := Prod.mk.inj (Option.some.inj hEq)
      exact Or.inl rfl
    | some found =>
      rw [hTake] at hEq
      obtain ⟨rfl, -⟩ := Prod.mk.inj (Option.some.inj hEq)
      refine Or.inr ⟨.response request.1 accepted, .found (some found.1.pvname), ?_⟩
      unfold Searcher.step
      dsimp only
      rw [hTake]

/-- What happens to the searcher of a link is a run of a searcher on its own. -/
theorem run_searcher {l l' : Link} {tr : List (Event × Unit)} (hRun : Runs.Run step l tr l') :
    ∃ str, Runs.Run Searcher.step l.searcher str l'.searcher := by
  induction hRun with
  | nil l => exact ⟨[], Runs.Run.nil _⟩
  | cons hStep _ ih =>
    obtain ⟨str, hTail⟩ := ih
    rcases step_searcher hStep with hSame | ⟨e', o', hHere⟩
    · exact ⟨str, hSame ▸ hTail⟩
    · exact ⟨(e', o') :: str, Runs.Run.cons hHere hTail⟩

/-- A fresh searcher, and nothing has happened yet. -/
def Init (l : Link) : Prop :=
  ∃ searchIntervals, Searcher.Init searchIntervals l.searcher ∧
    l.flight = 0 ∧ l.inserted = [] ∧ l.sent = [] ∧ l.callbacks = []

-- ---------------------------------------------------------------------------
-- The invariant
-- ---------------------------------------------------------------------------

/-- The (id, name) pairs of the PVs in the bins. -/
def placed (s : Searcher) : Multiset Request := s.content.map fun q => (q.2.chanId, q.2.pvname)

/-- The (id, name) pairs of the callbacks made. -/
def called (l : Link) : Multiset Request := l.callbacks.map fun c => (c.1.1, c.2)

/-- Bins and histories agree: ids were given out in order, every insertion
went to at most one place (a bin or a callback), and what was sent or answered
had been inserted. -/
structure Attributed (l : Link) : Prop where
  inv : Searcher.Inv l.searcher
  counter : l.searcher.chanId = UInt32.ofNat l.inserted.length
  ids : l.inserted.map Prod.fst = (List.range l.inserted.length).map UInt32.ofNat
  places : placed l.searcher + called l ≤ (l.inserted : Multiset Request)
  sent : ∀ r ∈ l.sent, r ∈ l.inserted
  flight : ∀ r ∈ l.flight, r ∈ l.inserted
  callbacks : ∀ c ∈ l.callbacks, c.1 ∈ l.inserted

variable {l l' : Link} {s : Searcher}

/-- A step that changes only the searcher, and there drops PVs or moves them. -/
theorem Attributed.of_placed_le (h : Attributed l) (hInv : Searcher.Inv s)
    (hCounter : s.chanId = l.searcher.chanId) (hPlaced : placed s ≤ placed l.searcher) :
    Attributed { l with searcher := s } where
  inv := hInv
  counter := hCounter.trans h.counter
  ids := h.ids
  places := le_trans (add_le_add hPlaced le_rfl) h.places
  sent := h.sent
  flight := h.flight
  callbacks := h.callbacks

theorem placed_eq (s : Searcher) : placed s = s.searches.map fun r => (r.1, r.2.1) := by
  unfold placed searches
  rw [Multiset.map_map]
  rfl

theorem placed_removePV_le (hInv : Searcher.Inv s) (pvname : Bytes) :
    placed (s.removePV pvname) ≤ placed s :=
  Multiset.map_le_map (removePV_le hInv pvname)

theorem placed_touch {s' : Searcher} {now : Int} {pvname : Bytes}
    (hContent : s'.content = s.content.map (touch now pvname)) : placed s' = placed s := by
  rw [placed_eq, placed_eq, searches_touch hContent, map_retouch]

theorem placed_takeFound {s' : Searcher} {chanId : UInt32} {pv : SearchedPV}
    (hTake : s.takeFound chanId = some (pv, s')) :
    placed s = (chanId, pv.pvname) ::ₘ placed s' := by
  obtain ⟨hId, -, -, b, hContent⟩ := takeFound_eq_some hTake
  unfold placed
  rw [hContent, Multiset.map_cons, ← hId]

theorem placed_tick {s' : Searcher} {packets : List Packet} (hTick : s.tick = some (s', packets)) :
    placed s' = placed s := by
  rw [placed_eq, placed_eq, searches_tick hTick]

theorem placed_purge_le {s' : Searcher} {clock : SearchedPV → Int}
    {maxtime : ℕ} {nPurged nSearching : UInt32}
    (hPurge : s.purgePVs clock maxtime = some (s', nPurged, nSearching)) : placed s' ≤ placed s := by
  rw [placed_eq, placed_eq]
  exact Multiset.map_le_map (searches_purge_le hPurge)

theorem attributed_addPV (h : Attributed l) {now : Int} {pvname : Bytes} {isNew : Bool}
    (hAdd : l.searcher.addPV now pvname = some (s, isNew)) :
    Attributed { l with
      searcher := s
      inserted := if isNew then l.inserted ++ [(l.searcher.chanId, pvname)] else l.inserted } := by
  have hInv := inv_addPV h.inv hAdd
  rcases addPV_eq_some h.inv.names hAdd with ⟨rfl, -, -, hs, hContent⟩ | ⟨rfl, -, hs, -, hContent⟩
  · -- the counter's value becomes the id of the new insertion
    have hMore : ∀ r ∈ l.inserted, r ∈ l.inserted ++ [(l.searcher.chanId, pvname)] :=
      fun r hr => List.mem_append_left _ hr
    refine ⟨hInv, ?_, ?_, ?_, fun r hr => hMore r (h.sent r hr),
      fun r hr => hMore r (h.flight r hr), fun c hc => hMore _ (h.callbacks c hc)⟩
    · rw [hs]
      simp only [if_true, List.length_append, List.length_singleton, h.counter]
      apply UInt32.toNat_inj.mp
      simp
    · simp [h.ids, h.counter, List.range_succ]
    · have hPlaced : placed s = (l.searcher.chanId, pvname) ::ₘ placed l.searcher := by
        unfold placed
        rw [hContent, Multiset.map_cons]
        rfl
      show placed s + called l ≤ _
      rw [hPlaced, Multiset.cons_add, if_pos rfl, ← Multiset.coe_add, Multiset.coe_singleton,
        add_comm _ {_}, Multiset.singleton_add]
      exact Multiset.cons_le_cons _ h.places
  · exact h.of_placed_le hInv (by rw [hs]) (le_of_eq (placed_touch hContent))

theorem attributed_outgoing (h : Attributed l) {now : Int} {packets : List Packet}
    (hOut : l.searcher.processOutgoing now = some (s, packets)) :
    Attributed { l with
      searcher := s
      sent := l.sent ++ packets.flatMap Packet.pvs } := by
  have hSent : ∀ r ∈ packets.flatMap Packet.pvs,
      ∃ q ∈ l.searcher.content, (q.2.chanId, q.2.pvname) = r := fun r hr => by
    obtain ⟨q, hq, hEq⟩ := exists_content_of_sent hOut hr
    exact ⟨q, hq, hEq.symm⟩
  unfold processOutgoing at hOut
  split at hOut
  · simp only [Option.some.injEq, Prod.mk.injEq] at hOut
    obtain ⟨rfl, rfl⟩ := hOut
    simpa using h
  · obtain ⟨-, hs, -⟩ := tick_eq_some hOut
    have hAll := h.of_placed_le (inv_tick h.inv hOut) (by rw [hs]) (le_of_eq (placed_tick hOut))
    refine ⟨hAll.inv, hAll.counter, hAll.ids, hAll.places, fun r hr => ?_, hAll.flight,
      hAll.callbacks⟩
    rcases List.mem_append.mp hr with hr | hr
    · exact h.sent r hr
    · -- what a tick sends is in the bins, and so was inserted
      have hIn : r ∈ placed l.searcher := Multiset.mem_map.mpr (hSent r hr)
      have := Multiset.mem_of_le h.places (Multiset.mem_add.mpr (Or.inl hIn))
      exact Multiset.mem_coe.mp this

/-- A callback moves its PV from the bins to the callbacks. -/
theorem attributed_takeFound (h : Attributed l) {request : Request} {pv : SearchedPV}
    (hTake : l.searcher.takeFound request.1 = some (pv, s)) (hRequest : request ∈ l.inserted) :
    Attributed { l with
      searcher := s
      callbacks := l.callbacks ++ [(request, pv.pvname)] } := by
  obtain ⟨-, hs, -, -⟩ := takeFound_eq_some hTake
  refine ⟨inv_takeFound h.inv hTake, by rw [hs]; exact h.counter, h.ids, ?_, h.sent, h.flight, ?_⟩
  · have hCalled : called { l with
        searcher := s
        callbacks := l.callbacks ++ [(request, pv.pvname)] } =
          (request.1, pv.pvname) ::ₘ called l := by
      unfold called
      rw [List.map_append, ← Multiset.coe_add, add_comm]
      rfl
    -- the pair leaves the bins and joins the callbacks: the sum is the same
    have hPlaces := h.places
    rw [placed_takeFound hTake, Multiset.cons_add] at hPlaces
    rw [hCalled, Multiset.add_cons]
    exact hPlaces
  · intro c hc
    rcases List.mem_append.mp hc with hc | hc
    · exact h.callbacks c hc
    · rw [List.mem_singleton] at hc
      rw [hc]
      exact hRequest

-- ---------------------------------------------------------------------------
-- Runs
-- ---------------------------------------------------------------------------

theorem attributed_of_init (h : Init l) : Attributed l := by
  obtain ⟨searchIntervals, hInit, hFlight, hInserted, hSent, hCallbacks⟩ := h
  have hInv := inv_of_init hInit
  have hEmpty := content_of_init hInit
  obtain ⟨sock, addr, now, hCreate⟩ := hInit
  have hs := (create_eq_some hCreate).2
  refine ⟨hInv, by rw [hs, hInserted]; rfl, by simp [hInserted], ?_, by simp [hSent],
    by simp [hFlight], by simp [hCallbacks]⟩
  unfold placed called
  rw [hEmpty, hCallbacks]
  exact Multiset.zero_le _

/-- Every step keeps the invariant. -/
theorem attributed_step (h : Attributed l) {e : Event} {o : Unit} (hStep : l.step e = some (l', o)) :
    Attributed l' := by
  cases e with
  | addPV now pvname =>
    obtain ⟨⟨s, isNew⟩, hAdd, hEq⟩ := Option.map_eq_some_iff.mp hStep
    rw [Prod.mk.injEq] at hEq
    exact hEq.1 ▸ attributed_addPV h hAdd
  | removePV pvname =>
    simp only [step, Option.some.injEq, Prod.mk.injEq] at hStep
    exact hStep.1 ▸ h.of_placed_le (inv_removePV h.inv pvname) rfl
      (placed_removePV_le h.inv pvname)
  | outgoing now =>
    obtain ⟨⟨s, packets⟩, hOut, hEq⟩ := Option.map_eq_some_iff.mp hStep
    rw [Prod.mk.injEq] at hEq
    exact hEq.1 ▸ attributed_outgoing h hOut
  | purge clock maxtime =>
    obtain ⟨⟨s, nPurged, nSearching⟩, hPurge, hEq⟩ := Option.map_eq_some_iff.mp hStep
    rw [Prod.mk.injEq] at hEq
    obtain ⟨-, hs, -, -⟩ := purgePVs_eq_some hPurge
    exact hEq.1 ▸ h.of_placed_le (inv_purgePVs h.inv hPurge) (by rw [hs]) (placed_purge_le hPurge)
  | answer request =>
    unfold step at hStep
    dsimp only at hStep
    split at hStep
    · next hSent =>
      simp only [Option.some.injEq, Prod.mk.injEq] at hStep
      rw [← hStep.1]
      refine ⟨h.inv, h.counter, h.ids, h.places, h.sent, fun r hr => ?_, h.callbacks⟩
      -- an answer is to a request sent, and so to an insertion
      rcases Multiset.mem_cons.mp hr with rfl | hr
      · exact h.sent r hSent
      · exact h.flight r hr
    · exact absurd hStep (by simp)
  | lose request =>
    simp only [step, Option.some.injEq, Prod.mk.injEq] at hStep
    rw [← hStep.1]
    exact ⟨h.inv, h.counter, h.ids, h.places, h.sent,
      fun r hr => h.flight r (Multiset.mem_of_mem_erase hr), h.callbacks⟩
  | deliver request accepted =>
    unfold step at hStep
    dsimp only at hStep
    split at hStep
    · next hFlight =>
      have hLess : Attributed { l with flight := l.flight.erase request } :=
        ⟨h.inv, h.counter, h.ids, h.places, h.sent,
          fun r hr => h.flight r (Multiset.mem_of_mem_erase hr), h.callbacks⟩
      split at hStep
      · simp only [Option.some.injEq, Prod.mk.injEq] at hStep
        exact hStep.1 ▸ hLess
      · next pv s hTake =>
        simp only [Option.some.injEq, Prod.mk.injEq] at hStep
        have hTaken := attributed_takeFound hLess hTake (h.flight request hFlight)
        rw [← hStep.1]
        split
        · exact hTaken.of_placed_le (inv_removePV hTaken.inv pv.pvname) rfl
            (placed_removePV_le hTaken.inv pv.pvname)
        · exact hTaken
    · exact absurd hStep (by simp)

/-- Every run keeps the invariant. -/
theorem attributed_run {tr : List (Event × Unit)} (hRun : Runs.Run step l tr l')
    (h : Attributed l) : Attributed l' :=
  hRun.invariant (fun _ _ _ _ hAttr => attributed_step hAttr) h

/-- Up to 2^32 insertions, an id stands for one of them. -/
theorem Attributed.ids_nodup (h : Attributed l) (hFew : l.inserted.length ≤ 2 ^ 32) :
    (l.inserted.map Prod.fst).Nodup := by
  rw [h.ids]
  refine List.Nodup.map_on ?_ List.nodup_range
  intro i hi j hj hEq
  rw [List.mem_range] at hi hj
  have hToNat := congrArg UInt32.toNat hEq
  rwa [UInt32.toNat_ofNat', UInt32.toNat_ofNat', Nat.mod_eq_of_lt (by omega),
    Nat.mod_eq_of_lt (by omega)] at hToNat

/-- **No mis-attribution, no double discovery.** In a run with fewer than 2^32
insertions every callback got the name of the request its response answers,
and each insertion got at most one callback. -/
theorem callbacks_attributed {l₀ : Link} {tr : List (Event × Unit)} (hInit : Init l₀)
    (hRun : Runs.Run step l₀ tr l) (hFew : l.inserted.length < 2 ^ 32) :
    (∀ c ∈ l.callbacks, c.2 = c.1.2) ∧
      (l.callbacks.map fun c => (c.1.1, c.2)).Subperm l.inserted ∧ l.inserted.Nodup := by
  have h := attributed_run hRun (attributed_of_init hInit)
  have hNodup := h.ids_nodup (by omega)
  -- every callback used up an insertion of its own
  have hCalled : called l ≤ (l.inserted : Multiset Request) :=
    le_trans (Multiset.le_add_left _ _) h.places
  refine ⟨?_, Multiset.coe_le.mp hCalled, hNodup.of_map⟩
  rintro ⟨request, pvname⟩ hc
  -- the callback's pair and the request are insertions with the same id
  have hMine : (request.1, pvname) ∈ l.inserted :=
    Multiset.mem_coe.mp (Multiset.mem_of_le hCalled
      (Multiset.mem_coe.mpr (List.mem_map.mpr ⟨_, hc, rfl⟩)))
  have hTheirs := h.callbacks _ hc
  have hSame := List.inj_on_of_nodup_map hNodup hMine hTheirs rfl
  rw [← hSame]

/-- A link to a searcher with ten bins. -/
def idle : Link := ⟨tenBins, 0, [], [], []⟩

/-- A PV is added, searched for and answered twice, and added again between
the two answers. -/
def answeredTwice : Link where
  searcher := { tenBins with
    chanId := 2
    searchedPvs := tenBins.searchedPvs.set 1 [⟨1, [chr 'A'], 0, [1, 2, 10]⟩]
    currentBin := 1 }
  flight := 0
  inserted := [(0, [chr 'A']), (1, [chr 'A'])]
  sent := [(0, [chr 'A'])]
  callbacks := [((0, [chr 'A']), [chr 'A'])]

/-- The second answer finds no PV: the one added in between has another id. -/
theorem callbacks_answeredTwice :
    (∀ c ∈ answeredTwice.callbacks, c.2 = c.1.2) ∧
      (answeredTwice.callbacks.map fun c => (c.1.1, c.2)).Subperm answeredTwice.inserted ∧
      answeredTwice.inserted.Nodup := by
  have hInit : Init idle := ⟨[1], init_tenBins, rfl, rfl, rfl, rfl⟩
  have hExec : (Runs.exec step idle [.addPV 0 [chr 'A'], .outgoing 1000000000,
      .answer (0, [chr 'A']), .answer (0, [chr 'A']), .deliver (0, [chr 'A']) true,
      .addPV 0 [chr 'A'], .deliver (0, [chr 'A']) true]).map Prod.snd = some answeredTwice := by
    decide +kernel
  obtain ⟨tr, hRun, -⟩ := Runs.exists_run_of_exec _ hExec
  exact callbacks_attributed hInit hRun (by decide)

end Link

end PVmapper
