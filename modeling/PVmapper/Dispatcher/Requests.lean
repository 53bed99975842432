import PVmapper.Dispatcher.Status
import PVmapper.Searcher.Tick

/-!
# PVmapper — which request a response answers

All searchers of a dispatcher are asked for the same names, and each gives out
ids of its own. Along a run, the ids of one searcher are the numbers of the
names put into it, in order, modulo 2^32. So as long as clients have asked for
fewer names than that, an id has stood for one name only, and a response with
an id that was sent out is a response for the name that was sent with it.

* `step_changes`     — what one step does to each searcher.
* `numbers_run`      — ids, bins and sent requests of one searcher over a run.
* `found_of_request` — what is found is what was asked for.
-/

namespace PVmapper

namespace Dispatcher

open Runs (Run)

variable {d d' d₀ : Dispatcher} {searchIntervals : List UInt32} {tr : List (Event × Output)}
  {e : Event} {o : Output}

-- ---------------------------------------------------------------------------
-- What a step does to a searcher
-- ---------------------------------------------------------------------------

theorem Status.invs (h : Status searchIntervals d) : ∀ s ∈ d.caSearchers, s.Inv :=
  fun s hs => (h.searchers s hs).inv

/-- A client's search adds its name; any other step only drops or moves PVs. -/
def Changes (e : Event) (s s' : Searcher) : Prop :=
  (∃ clock pvname now isNew, e = .clientSearched clock pvname ∧
      s.addPV now pvname = some (s', isNew)) ∨
    s'.chanId = s.chanId ∧ s'.searches ≤ s.searches

theorem Changes.refl (e : Event) (s : Searcher) : Changes e s s := Or.inr ⟨rfl, le_rfl⟩

/-- A step of a searcher that is not an `addPV`. -/
theorem changes_of_step {s s' : Searcher} (h : s.Inv) {event : Searcher.Event}
    {output : Searcher.Output} (hStep : s.step event = some (s', output))
    (hOther : ∀ now pvname, event ≠ .addPV now pvname) (e : Event) : Changes e s s' := by
  rcases Searcher.step_searches h hStep with ⟨now, pvname, hEq, -⟩ | ⟨now, pvname, hEq, -⟩ |
    ⟨-, -, hCounter, hSearches⟩
  · exact absurd hEq (hOther now pvname)
  · exact absurd hEq (hOther now pvname)
  · exact Or.inr ⟨hCounter, hSearches⟩

/-- A PV that is removed takes its id along. -/
theorem changes_removePV {s : Searcher} (h : s.Inv) (pvname : Bytes) (e : Event) :
    Changes e s (s.removePV pvname) :=
  have hStep : s.step (.removePV pvname) = some (s.removePV pvname, .removed) := rfl
  changes_of_step h hStep (by simp) e

/-- So does one that is found. -/
theorem changes_takeFound {s s' : Searcher} (h : s.Inv) {chanId : UInt32} {pv : SearchedPV}
    (hTake : s.takeFound chanId = some (pv, s')) (e : Event) : Changes e s s' :=
  changes_of_step h (Searcher.step_of_takeFound hTake) (by simp) e

/-- The PV that was found is removed from its own searcher once more. -/
theorem changes_found {s s' : Searcher} (h : s.Inv) {chanId : UInt32} {pv : SearchedPV}
    (hTake : s.takeFound chanId = some (pv, s')) (pvname : Bytes) {k : ℕ} {iocIp : Bytes}
    {iocPort : UInt16} {response : UInt32 × Bytes} {opening : Opening} {now : Int} :
    Changes (.response k iocIp iocPort response opening now) s (s'.removePV pvname) := by
  rcases changes_takeFound h hTake (.response k iocIp iocPort response opening now) with
    ⟨_, _, _, _, hEq, -⟩ | ⟨hCounter, hSearches⟩
  · exact absurd hEq (by simp)
  · rcases changes_removePV (Searcher.inv_takeFound h hTake) pvname
      (.response k iocIp iocPort response opening now) with
    ⟨_, _, _, _, hEq, -⟩ | ⟨hCounter', hSearches'⟩
    · exact absurd hEq (by simp)
    · exact Or.inr ⟨hCounter'.trans hCounter, hSearches'.trans hSearches⟩

/-- A step changes each searcher in one of these ways. -/
theorem step_changes (h : ∀ s ∈ d.caSearchers, s.Inv) (hStep : d.step e = some (d', o)) :
    List.Forall₂ (Changes e) d.caSearchers d'.caSearchers := by
  have hSame : ∀ {d₁ : Dispatcher}, d₁.caSearchers = d.caSearchers →
      List.Forall₂ (Changes e) d.caSearchers d₁.caSearchers := by
    intro d₁ hEq
    rw [hEq, List.forall₂_same]
    exact fun s _ => Changes.refl e s
  have hSet : ∀ {k : ℕ} {s s' : Searcher}, d.caSearchers[k]? = some s → Changes e s s' →
      List.Forall₂ (Changes e) d.caSearchers (d.caSearchers.set k s') := by
    intro k s s' hGet hChanges
    have := forall₂_set (f := id) (Changes.refl e) hGet hChanges
    rwa [List.map_id] at this
  cases e with
  | clientSearched clock pvname =>
    obtain ⟨response, hSearched, -⟩ := step_clientSearched hStep
    rcases caPvSearched_cases hSearched with ⟨-, -, -, -, -, rfl, -⟩ | ⟨-, -, -, -, -, hEach⟩
    · exact hSame rfl
    · refine hEach.imp ?_
      rintro s s' ⟨now, isNew, hAdd⟩
      exact Or.inl ⟨clock, pvname, now, isNew, rfl, hAdd⟩
  | response k iocIp iocPort response opening now =>
    rcases step_response hStep with ⟨rfl, -⟩ | ⟨s, pv, s', hGet, hTake, f, g, hName, -, hFound⟩
    · exact hSame rfl
    · have hInv := h s (List.mem_of_getElem? hGet)
      rcases caPvFound_cases { d with caSearchers := d.caSearchers.set k s' } opening now f with
        hNone | ⟨d₁, g', -, hSome⟩
      · rw [hNone, Prod.mk.injEq] at hFound
        rw [← hFound.1]
        exact hSet hGet (changes_takeFound hInv hTake _)
      · rw [hSome, Prod.mk.injEq] at hFound
        rw [← hFound.1]
        dsimp only
        rw [List.map_set]
        have hEach := forall₂_set (f := fun s : Searcher => s.removePV f.pvname)
          (R := fun s s' : Searcher => s.Inv →
            Changes (.response k iocIp iocPort response opening now) s s')
          (fun s hs => changes_removePV hs f.pvname _) hGet
          fun _ => changes_found hInv hTake f.pvname
        exact ((List.forall₂_and_left _ _).mpr ⟨h, hEach⟩).imp fun s s' hChanges =>
          hChanges.2 hChanges.1
  | searcherOutgoing k now =>
    obtain ⟨s, s', packets, hGet, hOut, rfl, -⟩ := step_searcherOutgoing hStep
    exact hSet hGet (changes_of_step (h s (List.mem_of_getElem? hGet))
      (Searcher.step_of_processOutgoing hOut) (by simp) _)
  | guardIncoming g recvd now =>
    obtain ⟨_, _, _, _, _, _, _, hD⟩ := step_guardIncoming hStep
    exact hSame (by rw [hD])
  | guardOutgoing g answers =>
    obtain ⟨_, _, _, _, _, _, _, hD⟩ := step_guardOutgoing hStep
    exact hSame (by rw [hD])
  | drop i =>
    obtain ⟨-, -, -, ⟨-, rfl⟩ | ⟨-, rfl⟩⟩ := step_drop hStep
    · exact hSame rfl
    · exact hSame rfl
  | maintain checkedAt clock now =>
    obtain ⟨-, rfl | ⟨-, hEach⟩⟩ := step_maintain hStep
    · exact hSame rfl
    · refine ((List.forall₂_and_left _ _).mpr ⟨h, hEach⟩).imp ?_
      rintro s s' ⟨hs, clock, nPurged, nSearching, hPurge⟩
      exact changes_of_step hs (Searcher.step_of_purgePVs hPurge) (by simp) _

/-- The searcher at an index, before and after. -/
theorem getElem?_of_forall₂ {α β : Type*} {R : α → β → Prop} {l : List α} {l' : List β}
    (h : List.Forall₂ R l l') {k : ℕ} {y : β} (hy : l'[k]? = some y) :
    ∃ x, l[k]? = some x ∧ R x y := by
  obtain ⟨hk, rfl⟩ := List.getElem?_eq_some_iff.mp hy
  have hk' : k < l.length := h.length_eq ▸ hk
  exact ⟨l[k], List.getElem?_eq_getElem hk', (List.forall₂_iff_get.mp h).2 k hk' hk⟩

-- ---------------------------------------------------------------------------
-- Ids and requests of one searcher
-- ---------------------------------------------------------------------------

/-- The requests of the `k`-th searcher in a step. -/
def requestsOf (k : ℕ) : Output → List (UInt32 × Bytes)
  | .sent k' packets => if k' = k then packets.flatMap Packet.pvs else []
  | _ => []

theorem requestsOf_sent (k k' : ℕ) (packets : List Packet) :
    requestsOf k (.sent k' packets) = if k' = k then packets.flatMap Packet.pvs else [] := rfl

/-- The requests the `k`-th searcher has sent. -/
def sentBy (k : ℕ) (tr : List (Event × Output)) : List (UInt32 × Bytes) :=
  tr.flatMap fun x => requestsOf k x.2

/-- A step sends what its output says. -/
theorem sentBy_concat (k : ℕ) (tr : List (Event × Output)) (x : Event × Output) :
    sentBy k (tr ++ [x]) = sentBy k tr ++ requestsOf k x.2 := by
  simp [sentBy]

/-- How often clients searched. -/
def searchCount (tr : List (Event × Output)) : ℕ :=
  tr.countP fun x => x.1 matches .clientSearched _ _

/-- The id is the number of a name in the list, modulo 2^32. -/
def Issued (names : List Bytes) (chanId : UInt32) (pvname : Bytes) : Prop :=
  ∃ i : ℕ, names[i]? = some pvname ∧ chanId = UInt32.ofNat i

theorem Issued.concat {names : List Bytes} {chanId : UInt32} {pvname : Bytes}
    (h : Issued names chanId pvname) (name : Bytes) : Issued (names ++ [name]) chanId pvname := by
  obtain ⟨i, hGet, hId⟩ := h
  refine ⟨i, ?_, hId⟩
  rw [List.getElem?_append_left (List.getElem?_eq_some_iff.mp hGet).1]
  exact hGet

/-- With fewer names than ids, an id stands for one name. -/
theorem Issued.unique {names : List Bytes} (hFew : names.length ≤ 2 ^ 32) {chanId : UInt32}
    {pvname pvname' : Bytes} (h : Issued names chanId pvname) (h' : Issued names chanId pvname') :
    pvname = pvname' := by
  obtain ⟨i, hGet, hId⟩ := h
  obtain ⟨j, hGet', hId'⟩ := h'
  have hi := (List.getElem?_eq_some_iff.mp hGet).1
  have hj := (List.getElem?_eq_some_iff.mp hGet').1
  have hNat := congrArg UInt32.toNat (hId.symm.trans hId')
  rw [UInt32.toNat_ofNat', UInt32.toNat_ofNat', Nat.mod_eq_of_lt (by omega),
    Nat.mod_eq_of_lt (by omega)] at hNat
  rw [hNat, hGet', Option.some.injEq] at hGet
  exact hGet.symm

/-- `names` are the names put into the `k`-th searcher so far. -/
structure Numbers (k : ℕ) (tr : List (Event × Output)) (names : List Bytes) (d : Dispatcher) :
    Prop where
  counter : ∀ s, d.caSearchers[k]? = some s → s.chanId = UInt32.ofNat names.length
  bins : ∀ s, d.caSearchers[k]? = some s → ∀ r ∈ s.searches, Issued names r.1 r.2.1
  sent : ∀ r ∈ sentBy k tr, Issued names r.1 r.2

theorem mem_searches_of_content {s : Searcher} {q : ℕ × SearchedPV} (h : q ∈ s.content) :
    (q.2.chanId, q.2.pvname, q.2.lastSearched) ∈ s.searches :=
  Multiset.mem_map_of_mem (fun q : ℕ × SearchedPV => Searcher.search q.2) h

/-- What sends packets is a call of a searcher. -/
theorem outgoing_of_sent {k : ℕ} {packets : List Packet}
    (hStep : d.step e = some (d', .sent k packets)) : ∃ now, e = .searcherOutgoing k now := by
  cases e with
  | searcherOutgoing k' now =>
    obtain ⟨_, _, _, -, -, -, hEq⟩ := step_searcherOutgoing hStep
    obtain ⟨rfl, -⟩ := Output.sent.inj hEq
    exact ⟨now, rfl⟩
  | clientSearched clock pvname => exact absurd (step_clientSearched hStep) (by simp)
  | response k' iocIp iocPort response opening now => exact absurd (step_response hStep) (by simp)
  | guardIncoming g recvd now => exact absurd (step_guardIncoming hStep) (by simp [IsCall])
  | guardOutgoing g answers => exact absurd (step_guardOutgoing hStep) (by simp [IsCall])
  | drop i => exact absurd (step_drop hStep) (by simp)
  | maintain checkedAt clock now => exact absurd (step_maintain hStep) (by simp)

/-- What a searcher sends is in its bins. -/
theorem exists_content_of_requestsOf (hStep : d.step e = some (d', o)) {k : ℕ}
    {r : UInt32 × Bytes} (hr : r ∈ requestsOf k o) :
    ∃ s, d.caSearchers[k]? = some s ∧ ∃ q ∈ s.content, r = (q.2.chanId, q.2.pvname) := by
  cases e with
  | searcherOutgoing k' now =>
    obtain ⟨s, s', packets, hGet, hOut, -, rfl⟩ := step_searcherOutgoing hStep
    rw [requestsOf_sent] at hr
    split at hr
    · next hEq =>
      exact ⟨s, hEq ▸ hGet, Searcher.exists_content_of_sent hOut hr⟩
    · simp at hr
  | clientSearched clock pvname =>
    obtain ⟨_, -, rfl⟩ := step_clientSearched hStep
    simp [requestsOf] at hr
  | response k iocIp iocPort response opening now =>
    rcases step_response hStep with ⟨-, rfl⟩ | ⟨_, _, _, -, -, _, _, -, rfl, -⟩
    · simp [requestsOf] at hr
    · simp [requestsOf] at hr
  | guardIncoming g recvd now =>
    obtain ⟨_, _, _, _, rfl, _⟩ := step_guardIncoming hStep
    simp [requestsOf] at hr
  | guardOutgoing g answers =>
    obtain ⟨_, _, _, _, rfl, _⟩ := step_guardOutgoing hStep
    simp [requestsOf] at hr
  | drop i =>
    obtain ⟨_, _, rfl, _⟩ := step_drop hStep
    simp [requestsOf] at hr
  | maintain checkedAt clock now =>
    obtain ⟨rfl, _⟩ := step_maintain hStep
    simp [requestsOf] at hr

/-- What is sent next was issued. -/
theorem Numbers.concat {k : ℕ} {names : List Bytes} (h : Numbers k tr names d)
    (hStep : d.step e = some (d', o)) {r : UInt32 × Bytes} (hr : r ∈ sentBy k (tr ++ [(e, o)])) :
    Issued names r.1 r.2 := by
  rw [sentBy_concat, List.mem_append] at hr
  rcases hr with hr | hr
  · exact h.sent r hr
  · obtain ⟨s, hGet, q, hq, rfl⟩ := exists_content_of_requestsOf hStep hr
    exact h.bins s hGet _ (mem_searches_of_content hq)

/-- A name put into the searcher gets the next number; otherwise the names stay. -/
theorem numbers_step {k : ℕ} {names : List Bytes} (hInv : ∀ s ∈ d.caSearchers, s.Inv)
    (h : Numbers k tr names d) (hStep : d.step e = some (d', o)) :
    ∃ names', names'.length ≤ names.length + searchCount [(e, o)] ∧
      Numbers k (tr ++ [(e, o)]) names' d' := by
  have hEach := step_changes hInv hStep
  have hSent : ∀ r ∈ sentBy k (tr ++ [(e, o)]), Issued names r.1 r.2 := fun r => h.concat hStep
  -- what the new state's searcher was before
  have hBefore := fun s' (hGet' : d'.caSearchers[k]? = some s') => getElem?_of_forall₂ hEach hGet'
  cases hGet' : d'.caSearchers[k]? with
  | none =>
    refine ⟨names, Nat.le_add_right _ _, ?_, ?_, hSent⟩
    all_goals
      intro s hGet
      rw [hGet'] at hGet
      exact absurd hGet (by simp)
  | some s' =>
    obtain ⟨s, hGet, hChanges⟩ := hBefore s' hGet'
    have hInvS := hInv s (List.mem_of_getElem? hGet)
    have hOnly : ∀ s₁, d'.caSearchers[k]? = some s₁ → s₁ = s' := fun s₁ hs₁ => by
      rw [hGet', Option.some.injEq] at hs₁
      exact hs₁.symm
    rcases hChanges with ⟨clock, pvname, now, isNew, rfl, hAdd⟩ | ⟨hCounter, hSearches⟩
    · rcases Searcher.step_searches hInvS (Searcher.step_of_addPV hAdd) with
        ⟨now', p, hEq, -, hCounter, -, hNext⟩ | ⟨now', p, hEq, -, hCounter, hNext⟩ | ⟨hOther, -⟩
      · -- a new name
        refine ⟨names ++ [pvname], ?_, ?_, ?_, fun r hr => (hSent r hr).concat pvname⟩
        · rw [List.length_append]
          exact Nat.add_le_add_left (by simp [searchCount]) _
        · intro s₁ hs₁
          rw [hOnly s₁ hs₁, hCounter, h.counter s hGet, List.length_append, List.length_singleton,
            UInt32.ofNat_add]
          rfl
        · intro s₁ hs₁ r hr
          rw [hOnly s₁ hs₁, hNext] at hr
          rcases Multiset.mem_cons.mp hr with rfl | hr
          · rw [Searcher.Event.addPV.injEq] at hEq
            exact ⟨names.length, by simp [hEq.2], h.counter s hGet⟩
          · exact (h.bins s hGet r hr).concat pvname
      · -- a name that was there
        refine ⟨names, Nat.le_add_right _ _, ?_, ?_, hSent⟩
        · intro s₁ hs₁
          rw [hOnly s₁ hs₁, hCounter, h.counter s hGet]
        · intro s₁ hs₁ r hr
          rw [hOnly s₁ hs₁, hNext] at hr
          obtain ⟨r', hr', rfl⟩ := Multiset.mem_map.mp hr
          have hIssued := h.bins s hGet r' hr'
          unfold Searcher.retouch
          split
          · exact hIssued
          · exact hIssued
      · exact absurd rfl (hOther now pvname)
    · refine ⟨names, Nat.le_add_right _ _, ?_, ?_, hSent⟩
      · intro s₁ hs₁
        rw [hOnly s₁ hs₁, hCounter, h.counter s hGet]
      · intro s₁ hs₁ r hr
        rw [hOnly s₁ hs₁] at hr
        exact h.bins s hGet r (Multiset.mem_of_le hSearches hr)

/-- In every state of a run the ids of a searcher are the numbers of the names
put into it. -/
theorem numbers_run (hInit : Init searchIntervals d₀) (hRun : Run step d₀ tr d) (k : ℕ) :
    ∃ names, names.length ≤ searchCount tr ∧ Numbers k tr names d := by
  have hStart : Status searchIntervals d₀ ∧
      ∃ names, names.length ≤ searchCount [] ∧ Numbers k [] names d₀ := by
    refine ⟨status_of_init hInit, [], le_rfl, ?_, ?_, by simp [sentBy]⟩
    · intro s hGet
      obtain ⟨sock, addr, now, hCreate⟩ := hInit.1 s (List.mem_of_getElem? hGet)
      rw [(Searcher.create_eq_some hCreate).2]
      rfl
    · intro s hGet r hr
      rw [Searcher.searches, Searcher.content_of_init (hInit.1 s (List.mem_of_getElem? hGet))] at hr
      exact absurd hr (Multiset.notMem_zero r)
  refine (hRun.history (I := fun tr d => Status searchIntervals d ∧
    ∃ names, names.length ≤ searchCount tr ∧ Numbers k tr names d) ?_ hStart).2
  rintro pre d₁ e d₂ o ⟨hStatus, names, hLen, hNumbers⟩ hStep
  obtain ⟨names', hLen', hNumbers'⟩ := numbers_step hStatus.invs hNumbers hStep
  refine ⟨status_step hStatus hStep, names', ?_, hNumbers'⟩
  unfold searchCount at *
  rw [List.countP_append]
  omega

/-- **What is found is what was asked for.** As long as clients have searched
no more than 2^32 times, a response with an id the searcher has sent out finds
the name it was sent out with. -/
theorem found_of_request (hInit : Init searchIntervals d₀) (hRun : Run step d₀ tr d)
    (hFew : searchCount tr ≤ 2 ^ 32) {k : ℕ} {iocIp : Bytes} {iocPort : UInt16}
    {response : UInt32 × Bytes} {opening : Opening} {now : Int} {f : FoundPv} {g : Option GuardId}
    (hStep : d.step (.response k iocIp iocPort response opening now) =
      some (d', .found (some (f, g))))
    {pvname : Bytes} (hSent : (response.1, pvname) ∈ sentBy k tr) : f.pvname = pvname := by
  obtain ⟨names, hLen, hNumbers⟩ := numbers_run hInit hRun k
  rcases step_response hStep with ⟨-, ho⟩ | ⟨s, pv, s', hGet, hTake, f', g', hName, ho, -⟩
  · exact absurd ho (by simp)
  · obtain ⟨rfl, rfl⟩ : f = f' ∧ g = g' := by simpa using ho
    obtain ⟨hId, -, -, b, hContent⟩ := Searcher.takeFound_eq_some hTake
    have hMem : (b, pv) ∈ s.content := by
      rw [hContent]
      exact Multiset.mem_cons_self _ _
    have hHere := hNumbers.bins s hGet _ (mem_searches_of_content hMem)
    rw [hName]
    exact (hId ▸ hHere).unique (hLen.trans hFew) (hNumbers.sent _ hSent)

end Dispatcher

end PVmapper
