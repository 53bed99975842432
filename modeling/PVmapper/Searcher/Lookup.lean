import PVmapper.Lib.Dial
import PVmapper.Searcher.Entries

/-!
# PVmapper — looking up the PV a response is for

`processIncoming` scans the bins from the one sent last, `m_currentBin - 1`,
forward. The index `(m_currentBin+i-1) % nBins` is computed in 64-bit
unsigned arithmetic, so at `m_currentBin = 0` the first bin visited is
`(2^64 - 1) % nBins`. That is the last bin only if `nBins` divides `2^64`;
otherwise the last bin is never visited.

* `mem_scanOrder`           — which bins a scan visits.
* `response_resolved_iff`   — exactly when a response does what it should.
* `missed_response`         — a reachable searcher that ignores the answer to
  the request it has just sent.
* `processIncoming_run`     — handling a datagram is handling its responses
  one after the other.
-/

namespace PVmapper

namespace Searcher

variable {s s' : Searcher}

-- ---------------------------------------------------------------------------
-- The bins a scan visits
-- ---------------------------------------------------------------------------

theorem scanIndex_of_pos {i : ℕ} (hBins : s.searchedPvs.length < 2 ^ 32)
    (hCur : s.currentBin < s.searchedPvs.length) (hi : i < s.searchedPvs.length)
    (hPos : 1 ≤ s.currentBin + i) :
    s.scanIndex i = (s.currentBin + i - 1) % s.searchedPvs.length := by
  have hWrap : (s.currentBin + i + (2 ^ 64 - 1)) % 2 ^ 64 = s.currentBin + i - 1 := by omega
  rw [scanIndex, hWrap]

/-- A scan visits every bin, except the last one when it starts at bin 0 and
the number of bins does not divide `2^64`. -/
theorem mem_scanOrder (hBins : s.searchedPvs.length < 2 ^ 32)
    (hCur : s.currentBin < s.searchedPvs.length) {b : ℕ} :
    b ∈ s.scanOrder ↔ b < s.searchedPvs.length ∧
      (s.currentBin = 0 → ¬ s.searchedPvs.length ∣ 2 ^ 64 → b ≠ s.searchedPvs.length - 1) := by
  unfold scanOrder
  simp only [List.mem_map, List.mem_range]
  have hn : 0 < s.searchedPvs.length := by omega
  constructor
  · intro hVisited
    obtain ⟨i, hi, rfl⟩ := hVisited
    -- an index visited is a bin; at `m_currentBin` 0, which one is the first?
    refine ⟨Nat.mod_lt _ hn, fun h0 hDvd hLast => ?_⟩
    by_cases hi0 : i = 0
    · -- the wrapped index: it is the last bin only when `nBins` divides `2^64`
      subst hi0
      apply hDvd
      have hWrap : s.scanIndex 0 = (2 ^ 64 - 1) % s.searchedPvs.length := by
        unfold scanIndex
        rw [h0]
        rfl
      rw [hWrap] at hLast
      have hSucc := Nat.add_mod (2 ^ 64 - 1) 1 s.searchedPvs.length
      rw [hLast] at hSucc
      apply Nat.dvd_of_mod_eq_zero
      rw [show (2 ^ 64 : ℕ) = 2 ^ 64 - 1 + 1 from rfl, hSucc]
      by_cases h1 : s.searchedPvs.length = 1
      · rw [h1]
      · rw [Nat.mod_eq_of_lt (show 1 < s.searchedPvs.length by omega),
          Nat.sub_add_cancel (by omega), Nat.mod_self]
    · rw [scanIndex_of_pos hBins hCur hi (by omega), h0, Nat.zero_add,
        Nat.mod_eq_of_lt (by omega)] at hLast
      omega
  · intro hBin
    obtain ⟨hb, hSkip⟩ := hBin
    by_cases h0 : s.currentBin = 0
    · by_cases hLast : b = s.searchedPvs.length - 1
      · have hDvd : s.searchedPvs.length ∣ 2 ^ 64 := by
          by_contra hDvd
          exact hSkip h0 hDvd hLast
        -- the wrapped first index is the last bin
        refine ⟨0, hn, ?_⟩
        unfold scanIndex
        rw [h0, hLast]
        obtain ⟨k, hk⟩ := hDvd
        have hkPos : 0 < k := by
          rcases Nat.eq_zero_or_pos k with rfl | hPos
          · omega
          · exact hPos
        obtain ⟨k, rfl⟩ : ∃ k', k = k' + 1 := ⟨k - 1, by omega⟩
        rw [Nat.mul_add, Nat.mul_one] at hk
        rw [show (0 + 0 + (2 ^ 64 - 1)) % 2 ^ 64 =
          s.searchedPvs.length - 1 + s.searchedPvs.length * k by omega, Nat.add_mul_mod_self_left,
          Nat.mod_eq_of_lt (by omega)]
      -- from bin 0 on, bin `b` is the one at step `b + 1`
      · refine ⟨b + 1, by omega, ?_⟩
        rw [scanIndex_of_pos hBins hCur (by omega) (by omega), h0, Nat.zero_add, Nat.add_sub_cancel,
          Nat.mod_eq_of_lt hb]
    · -- the hand is at `m_currentBin - 1`; bin `b` is visited when it gets there
      have hHand : s.currentBin - 1 < s.searchedPvs.length := by omega
      refine ⟨Dial.dist s.searchedPvs.length (s.currentBin - 1) b, Dial.dist_lt hn, ?_⟩
      rw [scanIndex_of_pos hBins hCur (Dial.dist_lt hn) (by omega), Dial.dist_of_lt hHand hb]
      split
      · rw [show s.currentBin + (b - (s.currentBin - 1)) - 1 = b by omega, Nat.mod_eq_of_lt hb]
      · rw [show s.currentBin + (b + s.searchedPvs.length - (s.currentBin - 1)) - 1 =
          b + s.searchedPvs.length by omega, Nat.add_mod_right, Nat.mod_eq_of_lt hb]

/-- With its bin among those visited, a PV with the response's id is found. -/
theorem findPv_ne_none {chanId : UInt32} {b : ℕ} {pv : SearchedPV} (hVisit : b ∈ s.scanOrder)
    (hMem : (b, pv) ∈ s.content) (hId : pv.chanId = chanId) : s.findPv chanId ≠ none := by
  unfold findPv
  rw [Ne, List.findSome?_eq_none_iff]
  intro hNone
  have hBin := hNone b hVisit
  rw [Option.map_eq_none_iff, List.find?_eq_none] at hBin
  obtain ⟨bin', hGet, hPv⟩ := mem_content.mp hMem
  have hEq : s.bin b = bin' := by
    rw [bin, List.getD_eq_getElem?_getD, hGet]
    rfl
  exact hBin pv (hEq ▸ hPv) (by simpa using hId)

theorem findPv_mem {chanId : UInt32} {b : ℕ} {pv : SearchedPV}
    (h : s.findPv chanId = some (b, pv)) :
    b ∈ s.scanOrder ∧ (b, pv) ∈ s.content ∧ pv.chanId = chanId := by
  have hFind := findPv_eq_some h
  have hMem := List.mem_of_find?_eq_some hFind
  refine ⟨?_, mem_content.mpr ⟨_, getElem?_of_mem_bin hMem, hMem⟩, by
    simpa using List.find?_some hFind⟩
  unfold findPv at h
  obtain ⟨b', hVisit, hb'⟩ := List.exists_of_findSome?_eq_some h
  obtain ⟨pv', -, hEq⟩ := Option.map_eq_some_iff.mp hb'
  rw [Prod.mk.injEq] at hEq
  exact hEq.1 ▸ hVisit

/-- The PVs with this id are all in the one bin the scan leaves out. -/
structure Overlooked (s : Searcher) (chanId : UInt32) : Prop where
  atStart : s.currentBin = 0
  wraps : ¬ s.searchedPvs.length ∣ 2 ^ 64
  last : ∀ q ∈ s.content, q.2.chanId = chanId → q.1 = s.searchedPvs.length - 1

/-- A response for a searched PV takes nothing exactly when the PV is
overlooked. -/
theorem takeFound_eq_none_iff (h : Inv s) {chanId : UInt32}
    (hPv : ∃ q ∈ s.content, q.2.chanId = chanId) :
    s.takeFound chanId = none ↔ s.Overlooked chanId := by
  obtain ⟨⟨b, pv⟩, hMem, hId⟩ := hPv
  have hCur : s.currentBin < s.searchedPvs.length := by
    have hb := lt_of_mem_content hMem
    exact h.bin_lt (by omega)
  have hTake : s.takeFound chanId = none ↔ s.findPv chanId = none := by
    unfold takeFound
    split
    · next hFind => simp [hFind]
    · next hFind => simp [hFind]
  rw [hTake]
  constructor
  · intro hNone
    -- a PV in a visited bin would have been found
    have hMissed : ∀ q ∈ s.content, q.2.chanId = chanId →
        s.currentBin = 0 ∧ ¬ s.searchedPvs.length ∣ 2 ^ 64 ∧ q.1 = s.searchedPvs.length - 1 := by
      rintro ⟨b', pv'⟩ hMem' hId'
      have hNot : b' ∉ s.scanOrder := fun hVisit => findPv_ne_none hVisit hMem' hId' hNone
      rw [mem_scanOrder h.bins_lt hCur] at hNot
      have hb' := lt_of_mem_content hMem'
      by_contra hOther
      exact hNot ⟨hb', fun h0 hDvd hLast => hOther ⟨h0, hDvd, hLast⟩⟩
    obtain ⟨h0, hDvd, -⟩ := hMissed _ hMem hId
    exact ⟨h0, hDvd, fun q hq hq' => (hMissed q hq hq').2.2⟩
  · intro hOverlooked
    by_contra hFind
    obtain ⟨⟨b', pv'⟩, hFind⟩ := Option.ne_none_iff_exists'.mp hFind
    obtain ⟨hVisit, hMem', hId'⟩ := findPv_mem hFind
    have hSkip := ((mem_scanOrder h.bins_lt hCur).mp hVisit).2
    exact hSkip hOverlooked.atStart hOverlooked.wraps (hOverlooked.last _ hMem' hId')

-- ---------------------------------------------------------------------------
-- What a response should do
-- ---------------------------------------------------------------------------

/-- The found callback as the dispatcher binds it, seen from one searcher: it
re-enters `removePV` unless it rejects the finding, and it is logged. -/
def foundPvCb (accept : FoundPv → Bool) (f : FoundPv) (w : Searcher × List FoundPv) :
    Searcher × List FoundPv :=
  (if accept f then w.1.removePV f.pvname else w.1, w.2 ++ [f])

/-- One response of a datagram from `iocIp`, handled by searcher `s`: the
searcher afterwards and the callbacks made. -/
def respond (accept : FoundPv → Bool) (iocIp : Bytes) (iocPort : UInt16) (s : Searcher)
    (response : UInt32 × Bytes) : Searcher × List FoundPv :=
  handleResponse Prod.fst (fun w s => (s, w.2)) (foundPvCb accept) iocIp iocPort (s, []) response

/-- The searcher without one PV. -/
def without (s : Searcher) (pv : SearchedPV) : Searcher :=
  { s with searchedPvs := s.searchedPvs.map (List.filter (· ≠ pv)) }

/-- A response is resolved: the PV with its id, in whatever bin, is removed,
nothing else changes, and the callback is made once, with the PV's name; and a
response with an id no PV has changes nothing and makes no callback. -/
def Resolved (accept : FoundPv → Bool) (iocIp : Bytes) (iocPort : UInt16) (s : Searcher)
    (response : UInt32 × Bytes) : Prop :=
  (∀ b pv, (b, pv) ∈ s.content → pv.chanId = response.1 →
    respond accept iocIp iocPort s response =
      (s.without pv, [⟨pv.pvname, iocIp, iocPort,
        (ChannelAccess.updateSearchReplyAddr response.2 iocIp iocPort).1⟩])) ∧
  ((∀ q ∈ s.content, q.2.chanId ≠ response.1) → respond accept iocIp iocPort s response = (s, []))

theorem respond_of_none {accept : FoundPv → Bool} {iocIp : Bytes} {iocPort : UInt16}
    {response : UInt32 × Bytes} (h : s.findPv response.1 = none) :
    respond accept iocIp iocPort s response = (s, []) := by
  simp [respond, handleResponse, takeFound, h]

theorem respond_of_some {accept : FoundPv → Bool} {iocIp : Bytes} {iocPort : UInt16}
    {response : UInt32 × Bytes} {pv : SearchedPV} (h : s.takeFound response.1 = some (pv, s')) :
    respond accept iocIp iocPort s response =
      foundPvCb accept ⟨pv.pvname, iocIp, iocPort,
        (ChannelAccess.updateSearchReplyAddr response.2 iocIp iocPort).1⟩ (s', []) := by
  simp [respond, handleResponse, h]

/-- Erasing the first PV with an id, when only `pv` has it, removes `pv`. -/
theorem modify_eraseP_eq_without (hNames : (s.content.map (·.2.pvname)).Nodup) {chanId : UInt32}
    {b : ℕ} {pv : SearchedPV} (hMem : (b, pv) ∈ s.content) (hId : pv.chanId = chanId)
    (hUnique : ∀ q ∈ s.content, q.2.chanId = chanId → q = (b, pv)) :
    s.searchedPvs.modify b (List.eraseP (·.chanId == chanId)) =
      s.searchedPvs.map (List.filter (· ≠ pv)) := by
  refine List.ext_getElem? fun j => ?_
  rw [List.getElem?_modify, List.getElem?_map]
  cases hGet : s.searchedPvs[j]? with
  | none => rfl
  | some bin =>
    have hIn : ∀ x ∈ bin, (j, x) ∈ s.content := fun x hx => mem_content.mpr ⟨bin, hGet, hx⟩
    by_cases hj : b = j
    · subst hj
      simp only [if_true, Option.map_eq_map, Option.map_some, Option.some.injEq]
      -- `pv` occurs once in its bin, since its name does
      have hNodup : bin.Nodup := by
        have hLe := Multiset.map_le_map (f := fun q : ℕ × SearchedPV => q.2.pvname)
          (Slots.map_le_content hGet)
        have hBin := Multiset.nodup_of_le hLe hNames
        rw [Multiset.map_coe, List.map_map, Multiset.coe_nodup] at hBin
        exact List.Nodup.of_map _ hBin
      have hMatch : ∀ x ∈ bin, (x.chanId == chanId) = decide (x = pv) := by
        intro x hx
        rw [Bool.eq_iff_iff, beq_iff_eq, decide_eq_true_eq]
        constructor
        · intro hx'
          have := hUnique (b, x) (hIn x hx) hx'
          rw [Prod.mk.injEq] at this
          exact this.2
        · rintro rfl
          exact hId
      have hCount : bin.countP (·.chanId == chanId) ≤ 1 := by
        rw [List.countP_congr (q := fun x => x == pv) fun x hx => by rw [hMatch x hx]; simp]
        exact List.nodup_iff_count_le_one.mp hNodup pv
      rw [Slots.eraseP_eq_filter hCount]
      refine List.filter_congr fun x hx => ?_
      rw [hMatch x hx]
      simp
    -- another bin: neither side changes it, since `pv` is not in it
    · simp only [if_neg hj, Option.map_eq_map, Option.map_some, Option.some.injEq]
      symm
      rw [List.filter_eq_self]
      intro x hx
      rw [decide_eq_true_eq]
      rintro rfl
      have := eq_of_pvname_eq hNames hMem (hIn x hx) rfl
      rw [Prod.mk.injEq] at this
      exact hj this.1

/-- With its bin visited and its id its own, the PV is found and removed. -/
theorem respond_of_visited (hInv : Inv s) (accept : FoundPv → Bool) (iocIp : Bytes)
    (iocPort : UInt16) {response : UInt32 × Bytes} {b : ℕ} {pv : SearchedPV}
    (hVisit : b ∈ s.scanOrder) (hMem : (b, pv) ∈ s.content) (hId : pv.chanId = response.1)
    (hUnique : ∀ q ∈ s.content, q.2.chanId = response.1 → q = (b, pv)) :
    respond accept iocIp iocPort s response =
      (s.without pv, [⟨pv.pvname, iocIp, iocPort,
        (ChannelAccess.updateSearchReplyAddr response.2 iocIp iocPort).1⟩]) := by
  obtain ⟨⟨b', pv'⟩, hFind⟩ := Option.ne_none_iff_exists'.mp (findPv_ne_none hVisit hMem hId)
  obtain ⟨-, hMem', hId'⟩ := findPv_mem hFind
  -- whatever the scan finds is this PV
  have hSame := hUnique _ hMem' hId'
  rw [Prod.mk.injEq] at hSame
  obtain ⟨rfl, rfl⟩ := hSame
  have hErase := modify_eraseP_eq_without hInv.names hMem hId hUnique
  have hTake : s.takeFound response.1 = some (pv', s.without pv') := by
    unfold takeFound without
    rw [hFind]
    simp only [hErase]
  -- the re-entered `removePV` finds the name gone
  have hRemove := removePV_of_not_searched (not_searched_takeFound hInv hTake)
  rw [respond_of_some hTake]
  unfold foundPvCb
  simp only [hRemove, ite_self, List.nil_append]

theorem respond_of_absent (accept : FoundPv → Bool) (iocIp : Bytes) (iocPort : UInt16)
    {response : UInt32 × Bytes} (hNone : ∀ q ∈ s.content, q.2.chanId ≠ response.1) :
    respond accept iocIp iocPort s response = (s, []) := by
  refine respond_of_none ?_
  by_contra hFind
  obtain ⟨⟨b, pv⟩, hFind⟩ := Option.ne_none_iff_exists'.mp hFind
  obtain ⟨-, hMem, hId⟩ := findPv_mem hFind
  exact hNone _ hMem hId

/-- A PV whose callback is made sits in a bin the scan visits. -/
theorem visited_of_respond (hInv : Inv s) {accept : FoundPv → Bool} {iocIp : Bytes}
    {iocPort : UInt16} {response : UInt32 × Bytes} {b : ℕ} {pv : SearchedPV}
    (hMem : (b, pv) ∈ s.content)
    (h : (respond accept iocIp iocPort s response).2.map FoundPv.pvname = [pv.pvname]) :
    b ∈ s.scanOrder := by
  cases hFind : s.findPv response.1 with
  | none =>
    rw [respond_of_none hFind] at h
    exact absurd h (by simp)
  | some found =>
    obtain ⟨b', pv'⟩ := found
    obtain ⟨hVisit, hMem', -⟩ := findPv_mem hFind
    obtain ⟨s₁, hTake⟩ : ∃ s₁, s.takeFound response.1 = some (pv', s₁) := by
      unfold takeFound
      rw [hFind]
      exact ⟨_, rfl⟩
    rw [respond_of_some hTake] at h
    -- the PV found has the same name, so it is the same PV in the same bin
    have hName : pv'.pvname = pv.pvname := by simpa [foundPvCb] using h
    have hSame := eq_of_pvname_eq hInv.names hMem' hMem hName
    rw [Prod.mk.injEq] at hSame
    exact hSame.1 ▸ hVisit

/-- **A response is resolved, exactly when** no two PVs have its id, and the
PV that has it is not in the last bin while `m_currentBin` is 0 and the number
of bins does not divide `2^64`. -/
theorem response_resolved_iff {searchIntervals : List UInt32} (h : Reachable searchIntervals s)
    (accept : FoundPv → Bool) (iocIp : Bytes) (iocPort : UInt16) (response : UInt32 × Bytes) :
    Resolved accept iocIp iocPort s response ↔
      (∀ q ∈ s.content, ∀ q' ∈ s.content,
        q.2.chanId = response.1 → q'.2.chanId = response.1 → q = q') ∧
      (s.currentBin = 0 → ¬ s.searchedPvs.length ∣ 2 ^ 64 →
        ∀ q ∈ s.content, q.1 = s.searchedPvs.length - 1 → q.2.chanId ≠ response.1) := by
  have hInv := h.inv
  -- bins exist as soon as one has a PV
  have hCur : ∀ q ∈ s.content, s.currentBin < s.searchedPvs.length := by
    intro q hq
    have := lt_of_mem_content hq
    exact hInv.bin_lt (by omega)
  constructor
  · intro hResolved
    obtain ⟨hHit, -⟩ := hResolved
    refine ⟨?_, ?_⟩
    · -- two PVs with the id would both be the one called back with
      rintro ⟨b, pv⟩ hq ⟨b', pv'⟩ hq' hId hId'
      have hEq := (hHit b pv hq hId).symm.trans (hHit b' pv' hq' hId')
      rw [Prod.mk.injEq, List.cons.injEq, FoundPv.mk.injEq] at hEq
      exact eq_of_pvname_eq hInv.names hq hq' hEq.2.1.1
    · rintro h0 hDvd ⟨b, pv⟩ hq hLast hId
      have hNames : (respond accept iocIp iocPort s response).2.map FoundPv.pvname =
          [pv.pvname] := by
        rw [hHit b pv hq hId]
        rfl
      have hVisit := visited_of_respond hInv hq hNames
      exact ((mem_scanOrder hInv.bins_lt (hCur _ hq)).mp hVisit).2 h0 hDvd hLast
  · intro hCond
    obtain ⟨hUnique, hLast⟩ := hCond
    refine ⟨?_, fun hNone => respond_of_absent accept iocIp iocPort hNone⟩
    intro b pv hMem hId
    have hVisit : b ∈ s.scanOrder := by
      rw [mem_scanOrder hInv.bins_lt (hCur _ hMem)]
      exact ⟨lt_of_mem_content hMem, fun h0 hDvd hEq => hLast h0 hDvd (b, pv) hMem hEq hId⟩
    exact respond_of_visited hInv accept iocIp iocPort hVisit hMem hId fun q hq hq' =>
      hUnique q hq _ hMem hq' hId

/-- `tenBins` with one PV in bin `b`, sent last in the tick before `cur`. -/
def oneSearched (cur b : ℕ) (intervals : List UInt32) : Searcher :=
  { tenBins with
    chanId := 1
    searchedPvs := tenBins.searchedPvs.set b [⟨0, [chr 'A'], 0, intervals⟩]
    currentBin := cur }

/-- A PV added and sent once is found. -/
theorem resolved_after_first_tick :
    Resolved (fun _ => true) (inetNtop ⟨10, 0, 0, 7⟩) 5064 (oneSearched 1 1 [2, 10])
      (0, ChannelAccess.ordinaryResponse 0) :=
  (response_resolved_iff
    (tenBins_reachable.exec [.addPV 0 [chr 'A'], .outgoing 1000000000] (by decide +kernel))
    _ _ _ _).mpr ⟨by decide +kernel, by decide +kernel⟩

/-- The PV sent in the tick that brought `m_currentBin` back to 0 is in the
last of ten bins: the response to it is ignored. -/
theorem missed_response :
    Reachable [1] (oneSearched 0 9 [10]) ∧
      ¬ Resolved (fun _ => true) (inetNtop ⟨10, 0, 0, 7⟩) 5064 (oneSearched 0 9 [10])
        (0, ChannelAccess.ordinaryResponse 0) := by
  refine ⟨tenBins_reachable.exec (List.replicate 6 (.outgoing 1000000000) ++
    .addPV 0 [chr 'A'] :: List.replicate 4 (.outgoing 1000000000)) (by decide +kernel), ?_⟩
  intro hResolved
  obtain ⟨hHit, -⟩ := hResolved
  have hFound := hHit 9 ⟨0, [chr 'A'], 0, [10]⟩ (by decide +kernel) rfl
  have hIgnored : (respond (fun _ => true) (inetNtop ⟨10, 0, 0, 7⟩) 5064
      (oneSearched 0 9 [10]) (0, ChannelAccess.ordinaryResponse 0)).2 = [] := by
    decide +kernel
  rw [hFound] at hIgnored
  exact absurd hIgnored (by simp)

-- ---------------------------------------------------------------------------
-- Whole datagrams
-- ---------------------------------------------------------------------------

theorem handleResponse_eq (accept : FoundPv → Bool) (iocIp : Bytes) (iocPort : UInt16)
    (log : List FoundPv) (response : UInt32 × Bytes) :
    handleResponse Prod.fst (fun w s => (s, w.2)) (foundPvCb accept) iocIp iocPort (s, log) response =
      ((respond accept iocIp iocPort s response).1,
        log ++ (respond accept iocIp iocPort s response).2) := by
  unfold respond handleResponse
  cases hTake : s.takeFound response.1 with
  | none => simp
  | some found =>
    obtain ⟨pv, s₁⟩ := found
    simp [foundPvCb]

/-- A response handled is a `response` step, and the names it reports are the
step's. -/
theorem step_respond (accept : FoundPv → Bool) (iocIp : Bytes) (iocPort : UInt16)
    (response : UInt32 × Bytes) :
    ∃ accepted name, s.step (.response response.1 accepted) =
        some ((respond accept iocIp iocPort s response).1, .found name) ∧
      (respond accept iocIp iocPort s response).2.map FoundPv.pvname = name.toList := by
  unfold step
  cases hTake : s.takeFound response.1 with
  | none =>
    have hFind : s.findPv response.1 = none := by
      unfold takeFound at hTake
      split at hTake
      · assumption
      · exact absurd hTake (by simp)
    rw [respond_of_none hFind]
    exact ⟨true, none, by simp [hTake]⟩
  | some found =>
    obtain ⟨pv, s₁⟩ := found
    rw [respond_of_some hTake]
    refine ⟨accept ⟨pv.pvname, iocIp, iocPort,
      (ChannelAccess.updateSearchReplyAddr response.2 iocIp iocPort).1⟩, some pv.pvname, ?_⟩
    simp [hTake, foundPvCb]

/-- The names reported by the steps of a trace. -/
def foundNames (tr : List (Event × Output)) : List Bytes :=
  tr.flatMap fun x =>
    match x.2 with
    | .found name => name.toList
    | _ => []

/-- **Whole datagrams.** Handling one is a run of `response` steps, one for
each response in it, that reports the same names. -/
theorem processIncoming_run (accept : FoundPv → Bool) (remote : InAddr) (buffer : Bytes)
    (s : Searcher) :
    ∃ tr, Runs.Run step s tr
        (processIncoming Prod.fst (fun w s => (s, w.2)) (foundPvCb accept) remote buffer (s, [])).1 ∧
      (processIncoming Prod.fst (fun w s => (s, w.2)) (foundPvCb accept) remote buffer
        (s, [])).2.map FoundPv.pvname = foundNames tr ∧
      List.Forall₂ (fun x response => ∃ accepted, x.1 = Event.response response.1 accepted)
        tr (ChannelAccess.parseSearchResponse buffer) := by
  unfold processIncoming
  dsimp only
  generalize ChannelAccess.parseSearchResponse buffer = responses
  generalize (ChannelAccess.parseIocAddr (inetNtop remote) buffer).2 = iocPort
  -- the log so far is a parameter of the induction over the responses
  suffices hLog : ∀ (log : List FoundPv) (s : Searcher), ∃ tr, Runs.Run step s tr
      (responses.foldl (handleResponse Prod.fst (fun w s => (s, w.2)) (foundPvCb accept)
        (inetNtop remote) iocPort) (s, log)).1 ∧
      (responses.foldl (handleResponse Prod.fst (fun w s => (s, w.2)) (foundPvCb accept)
        (inetNtop remote) iocPort) (s, log)).2.map FoundPv.pvname =
          log.map FoundPv.pvname ++ foundNames tr ∧
      List.Forall₂ (fun x response => ∃ accepted, x.1 = Event.response response.1 accepted)
        tr responses by
    exact hLog [] s
  induction responses with
  | nil =>
    intro log s
    exact ⟨[], Runs.Run.nil s, by simp [foundNames], List.Forall₂.nil⟩
  | cons response responses ih =>
    intro log s
    rw [List.foldl_cons, handleResponse_eq]
    obtain ⟨accepted, name, hStep, hName⟩ :=
      @step_respond s accept (inetNtop remote) iocPort response
    obtain ⟨tr, hRun, hFound, hIds⟩ :=
      ih (log ++ (respond accept (inetNtop remote) iocPort s response).2)
        (respond accept (inetNtop remote) iocPort s response).1
    refine ⟨(.response response.1 accepted, .found name) :: tr, Runs.Run.cons hStep hRun, ?_,
      List.Forall₂.cons ⟨accepted, rfl⟩ hIds⟩
    rw [hFound, List.map_append, hName]
    simp [foundNames]

end Searcher

end PVmapper
