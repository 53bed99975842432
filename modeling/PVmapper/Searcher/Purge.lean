import PVmapper.Lib.Deal
import PVmapper.Searcher.Entries

/-!
# PVmapper — what a purge removes, and how it deals the rest

`purgePVs` drops the PVs no client has asked for lately, piles up the others
and deals them to the bins again. The loop gives a bin the average number of
PVs, `⌈n/B⌉`; where that is below ten it gives ten and then skips
`9 - ⌈n/B⌉` bins. The skip is too long unless the average is 1: with an
average between 2 and 8 the bins can run out before the PVs do, and what is
left over is put into the last bin.

* `dealLoop_eq`         — the loop deals in chunks of `max 10 ⌈n/B⌉` to every
  `max 1 (10 - ⌈n/B⌉)`-th bin.
* `purge_stale`         — a purge removes exactly the stale PVs; a PV that is
  asked for often enough is never purged.
* `purge_balanced_iff`  — exactly when no bin is overfull after a purge.
* `purge_overfull`      — a reachable searcher that puts a third of its PVs
  into one bin.
-/

namespace PVmapper

namespace Searcher

open Runs (Run)

variable {s s' s₀ : Searcher} {tr : List (Event × Output)} {pvname : Bytes}

-- ---------------------------------------------------------------------------
-- Dealing
-- ---------------------------------------------------------------------------

/-- How many PVs the loop gives to a bin. -/
def chunk (pvsPerBin : ℕ) : ℕ := max 10 pvsPerBin

/-- How far the loop goes on after a full bin. -/
def stride (pvsPerBin : ℕ) : ℕ := max 1 (10 - pvsPerBin)

theorem dealLoop_done (pvsPerBin : ℕ) (bins : List (List SearchedPV)) (i : ℕ) :
    dealLoop pvsPerBin bins [] i = (bins, []) := by
  rw [dealLoop]
  simp

/-- One iteration. A bin that gets fewer PVs than the chunk gets the last ones,
and then it does not matter where the loop goes on. -/
theorem dealLoop_step {pvsPerBin : ℕ} {bins : List (List SearchedPV)} {pvs : List SearchedPV}
    {i : ℕ} (hi : i < bins.length) (hMore : pvs ≠ []) :
    dealLoop pvsPerBin bins pvs i =
      dealLoop pvsPerBin (bins.modify i (pvs.take (chunk pvsPerBin) ++ ·))
        (pvs.drop (chunk pvsPerBin)) (i + stride pvsPerBin) := by
  have hLength : 0 < pvs.length := List.length_pos_iff.mpr hMore
  -- taking all of the pile and taking a chunk that is no smaller
  have hTake : ∀ k, pvs.length ≤ k → pvs.take k = pvs ∧ pvs.drop k = [] := fun k hk =>
    ⟨List.take_of_length_le hk, List.drop_of_length_le hk⟩
  rw [dealLoop, if_pos ⟨hi, hMore⟩]
  dsimp only
  by_cases hLast : pvs.length ≤ chunk pvsPerBin
  · obtain ⟨hAll, hNone⟩ := hTake _ hLast
    rw [hAll, hNone]
    unfold chunk at hLast
    split
    · obtain ⟨hAll', hNone'⟩ := hTake (min pvs.length 10) (by omega)
      rw [hAll', hNone', dealLoop_done, dealLoop_done]
    · obtain ⟨hAll', hNone'⟩ := hTake (min pvsPerBin pvs.length) (by omega)
      rw [hAll', hNone', dealLoop_done, dealLoop_done]
  · unfold chunk at hLast
    split
    · have hChunk : min pvs.length 10 = chunk pvsPerBin := by
        unfold chunk
        omega
      have hStride : i + (10 - min pvsPerBin pvs.length - 1) + 1 = i + stride pvsPerBin := by
        unfold stride
        omega
      rw [hChunk, hStride]
    · have hChunk : min pvsPerBin pvs.length = chunk pvsPerBin := by
        unfold chunk
        omega
      have hStride : i + 1 = i + stride pvsPerBin := by
        unfold stride
        omega
      rw [hChunk, hStride]

/-- The loop deals a chunk to every `stride`-th bin. -/
theorem dealLoop_eq (pvsPerBin : ℕ) (bins : List (List SearchedPV)) (pvs : List SearchedPV)
    (i : ℕ) :
    dealLoop pvsPerBin bins pvs i =
      (Deal.dealt (chunk pvsPerBin) (stride pvsPerBin) i pvs bins,
        Deal.left (chunk pvsPerBin) (stride pvsPerBin) (bins.length - i) pvs) := by
  have hStride : 0 < stride pvsPerBin := by
    unfold stride
    omega
  induction hBins : bins.length - i using Nat.strong_induction_on generalizing bins pvs i with
  | _ n ih =>
    by_cases hMore : pvs = []
    · rw [hMore, dealLoop_done, Deal.dealt_nil, Deal.left_nil]
    by_cases hi : i < bins.length
    · -- the bins from slot `i + stride` on are fewer
      rw [dealLoop_step hi hMore,
        ih (n - stride pvsPerBin) (by omega) _ _ _ (by rw [List.length_modify]; omega),
        Deal.dealt_step _ hStride, Deal.left_step _ hStride (by omega)]
    · rw [dealLoop, if_neg fun h => hi h.1, Deal.dealt_of_length_le _ _ _ (by omega),
        show n = 0 by omega, Deal.left_zero _ _ _ hStride]

-- ---------------------------------------------------------------------------
-- A purge
-- ---------------------------------------------------------------------------

/-- The PVs that survive a purge, in the order they are piled up. -/
def survivors (s : Searcher) (clock : SearchedPV → Int) (maxtime : ℕ) : List SearchedPV :=
  (s.searchedPvs.map (List.filter fun pv => !isStale maxtime (clock pv) pv)).flatten

/-- The bins after `n` survivors were dealt. -/
def rebalanced (nBins : ℕ) (pvs : List SearchedPV) : List (List SearchedPV) :=
  let dealt := dealLoop ((pvs.length + nBins - 1) / nBins) (List.replicate nBins []) pvs 0
  dealt.1.modify (nBins - 1) (· ++ dealt.2)

theorem purgePVs_of_bins (hBins : s.searchedPvs ≠ []) (clock : SearchedPV → Int) (maxtime : ℕ) :
    s.purgePVs clock maxtime =
      some ({ s with
        searchedPvs := rebalanced s.searchedPvs.length (s.survivors clock maxtime)
        currentBin := 0 },
        UInt32.ofNat (s.searchedPvs.flatten.length - (s.survivors clock maxtime).length),
        UInt32.ofNat (s.survivors clock maxtime).length) := by
  have hLength : s.searchedPvs.length ≠ 0 := by simpa using hBins
  unfold purgePVs
  rw [if_neg hLength]
  rfl

theorem survivors_coe (s : Searcher) (clock : SearchedPV → Int) (maxtime : ℕ) :
    (s.survivors clock maxtime : Multiset SearchedPV) =
      (s.content.map Prod.snd).filter (fun pv => isStale maxtime (clock pv) pv = false) := by
  unfold survivors
  rw [content, Slots.content_map_snd, Multiset.filter_coe, ← List.filter_flatten]
  simp

/-- How many PVs survive a purge. -/
def nKept (s : Searcher) (clock : SearchedPV → Int) (maxtime : ℕ) : ℕ :=
  s.content.countP fun q => isStale maxtime (clock q.2) q.2 = false

theorem length_survivors (s : Searcher) (clock : SearchedPV → Int) (maxtime : ℕ) :
    (s.survivors clock maxtime).length = s.nKept clock maxtime ∧
      s.searchedPvs.flatten.length - (s.survivors clock maxtime).length =
        s.content.countP (fun q => isStale maxtime (clock q.2) q.2 = true) := by
  have hKept : (s.survivors clock maxtime).length = s.nKept clock maxtime := by
    unfold nKept
    have hCard := congrArg Multiset.card (survivors_coe s clock maxtime)
    rw [Multiset.coe_card, ← Multiset.countP_eq_card_filter, Multiset.countP_map] at hCard
    rw [hCard, Multiset.countP_eq_card_filter]
  have hAll : s.searchedPvs.flatten.length = s.content.card := by
    rw [content, ← Multiset.card_map Prod.snd, Slots.content_map_snd, Multiset.coe_card]
  refine ⟨hKept, ?_⟩
  rw [hKept, hAll, nKept, Multiset.card_eq_countP_add_countP
    (fun q : ℕ × SearchedPV => isStale maxtime (clock q.2) q.2 = false)]
  simp

/-- What a purge at `now` should do: it drops the PVs last asked for more than
`maxtime` whole seconds ago, keeps every other one as it is in one bin, counts
both, and starts over at bin 0. -/
structure Purged (now : Int) (maxtime : ℕ) (s s' : Searcher) (counts : UInt32 × UInt32) :
    Prop where
  kept : s'.content.map Prod.snd =
    (s.content.map Prod.snd).filter fun pv => ¬ maxtime < seconds (now - pv.lastSearched)
  nPurged : counts.1 =
    UInt32.ofNat (s.content.countP fun q => maxtime < seconds (now - q.2.lastSearched))
  nSearching : counts.2 =
    UInt32.ofNat (s.content.countP fun q => ¬ maxtime < seconds (now - q.2.lastSearched))
  length : s'.searchedPvs.length = s.searchedPvs.length
  frame : s' = { s with searchedPvs := s'.searchedPvs, currentBin := 0 }

theorem exists_purged (hBins : s.searchedPvs ≠ []) (now : Int) (maxtime : ℕ) :
    ∃ s' counts, s.purgePVs (fun _ => now) maxtime = some (s', counts) ∧
      Purged now maxtime s s' counts := by
  have hPurge := purgePVs_of_bins hBins (fun _ => now) maxtime
  obtain ⟨-, -, hLen, hContent⟩ := purgePVs_eq_some hPurge
  obtain ⟨hKept, hDropped⟩ := length_survivors s (fun _ => now) maxtime
  refine ⟨_, _, hPurge, ?_, ?_, ?_, hLen, rfl⟩
  · simpa [isStale] using hContent
  · rw [hDropped]
    simp [isStale]
  · rw [hKept]
    simp [nKept, isStale]

theorem card_of_purge {clock : SearchedPV → Int} {maxtime : ℕ} {counts : UInt32 × UInt32}
    (hPurge : s.purgePVs clock maxtime = some (s', counts)) :
    s'.content.card = s.nKept clock maxtime := by
  obtain ⟨-, -, -, hContent⟩ := purgePVs_eq_some hPurge
  rw [← Multiset.card_map Prod.snd, hContent, ← survivors_coe, Multiset.coe_card,
    (length_survivors s clock maxtime).1]

-- ---------------------------------------------------------------------------
-- Crowds
-- ---------------------------------------------------------------------------

/-- Clients can make a searcher search for any number of PVs. -/
theorem exists_searching {searchIntervals : List UInt32} (hInit : Init searchIntervals s₀)
    (hBins : s₀.searchedPvs ≠ []) (n : ℕ) :
    ∃ s, Reachable searchIntervals s ∧ s.searchedPvs.length = s₀.searchedPvs.length ∧
      s.content.card = n ∧ ∀ q ∈ s.content, q.2.lastSearched = 0 := by
  induction n with
  | zero =>
    refine ⟨s₀, Runs.Reachable.of_init hInit, rfl, ?_⟩
    rw [content_of_init hInit]
    simp
  | succ n ih =>
    obtain ⟨s, hReach, hLength, hCard, hTimes⟩ := ih
    have hInv := hReach.inv
    -- one more name, none of those in the bins
    obtain ⟨pvname, hNew⟩ := Infinite.exists_notMem_finset (s.content.map (·.2.pvname)).toFinset
    rw [Multiset.mem_toFinset, Multiset.mem_map] at hNew
    have hCur : s.currentBin < s.searchedPvs.length := by
      refine hInv.bin_lt ?_
      rw [hLength]
      simpa using hBins
    obtain ⟨⟨s', isNew⟩, hAdd⟩ := exists_addPV hCur 0 pvname
    have hStep : s.step (.addPV 0 pvname) = some (s', .added isNew) := by
      rw [step, hAdd]
      rfl
    rcases addPV_eq_some hInv.names hAdd with ⟨-, -, -, hs', hContent⟩ | ⟨-, hOld, -⟩
    · refine ⟨s', hReach.next hStep, ?_, ?_, ?_⟩
      · rw [hs', List.length_modify, hLength]
      · rw [hContent, Multiset.card_cons, hCard]
      · rw [hContent]
        intro q hq
        rcases Multiset.mem_cons.mp hq with rfl | hq
        · rfl
        · exact hTimes q hq
    · exact absurd hOld hNew

/-- A purge right after the requests keeps all the PVs. -/
theorem exists_crowd {searchIntervals : List UInt32} (hInit : Init searchIntervals s₀)
    (hBins : s₀.searchedPvs ≠ []) (n : ℕ) :
    ∃ s, Reachable searchIntervals s ∧ s.searchedPvs.length = s₀.searchedPvs.length ∧
      s.searchedPvs ≠ [] ∧ ∀ maxtime, s.nKept (fun _ => 0) maxtime = n := by
  obtain ⟨s, hReach, hLength, hCard, hTimes⟩ := exists_searching hInit hBins n
  refine ⟨s, hReach, hLength, ?_, fun maxtime => ?_⟩
  · rw [← List.length_pos_iff] at hBins ⊢
    omega
  · rw [nKept, Multiset.countP_eq_card.mpr fun q hq => ?_, hCard]
    rw [isStale, hTimes q hq]
    simp [seconds]

-- ---------------------------------------------------------------------------
-- Requests
-- ---------------------------------------------------------------------------

/-- When a name was last asked for in a run. -/
def lastRequest (pvname : Bytes) (tr : List (Event × Output)) : Option Int :=
  tr.reverse.findSome? fun x =>
    match x.1 with
    | .addPV now name => if name = pvname then some now else none
    | _ => none

theorem lastRequest_self (pvname : Bytes) (tr : List (Event × Output)) (now : Int) (o : Output) :
    lastRequest pvname (tr ++ [(.addPV now pvname, o)]) = some now := by
  simp [lastRequest]

theorem lastRequest_other {name : Bytes} (h : name ≠ pvname) (tr : List (Event × Output))
    (now : Int) (o : Output) :
    lastRequest pvname (tr ++ [(.addPV now name, o)]) = lastRequest pvname tr := by
  simp [lastRequest, h]

theorem lastRequest_of_ne {e : Event} (h : ∀ now name, e ≠ .addPV now name)
    (tr : List (Event × Output)) (o : Output) :
    lastRequest pvname (tr ++ [(e, o)]) = lastRequest pvname tr := by
  unfold lastRequest
  rw [List.reverse_append, List.reverse_singleton, List.singleton_append, List.findSome?_cons]
  cases e with
  | addPV now name => exact absurd rfl (h now name)
  | _ => rfl

/-- `lastSearched` is the time of the last request. -/
structure Requested (tr : List (Event × Output)) (s : Searcher) : Prop where
  inv : Inv s
  last : ∀ r ∈ s.searches, lastRequest r.2.1 tr = some r.2.2

theorem requested_step (h : Requested tr s) {e : Event} {o : Output}
    (hStep : s.step e = some (s', o)) : Requested (tr ++ [(e, o)]) s' := by
  refine ⟨inv_step h.inv hStep, fun r hr => ?_⟩
  rcases step_searches h.inv hStep with ⟨now, name, rfl, -, -, hFresh, hNext⟩ |
    ⟨now, name, rfl, -, -, hNext⟩ | ⟨hOther, -, -, hNext⟩
  · rw [hNext] at hr
    rcases Multiset.mem_cons.mp hr with rfl | hr
    · exact lastRequest_self name tr now o
    · have hName : name ≠ r.2.1 := fun hEq => hFresh (searched_iff.mpr ⟨r, hr, hEq.symm⟩)
      rw [lastRequest_other hName]
      exact h.last r hr
  · rw [hNext] at hr
    obtain ⟨r', hr', rfl⟩ := Multiset.mem_map.mp hr
    unfold retouch
    split
    · next hName =>
      rw [hName]
      exact lastRequest_self name tr now o
    · next hName =>
      rw [lastRequest_other (Ne.symm hName)]
      exact h.last r' hr'
  · rw [lastRequest_of_ne hOther]
    exact h.last r (Multiset.mem_of_le hNext hr)

theorem requested_run {searchIntervals : List UInt32} (hInit : Init searchIntervals s₀)
    (hRun : Run step s₀ tr s) : Requested tr s := by
  refine hRun.history (fun _ _ _ _ _ h hStep => requested_step h hStep) ⟨inv_of_init hInit, ?_⟩
  rw [searches, content_of_init hInit]
  simp

/-- At every purge of a run the last request for a name is at most `maxtime`
seconds old. -/
def AskedFor (pvname : Bytes) (tr : List (Event × Output)) : Prop :=
  ∀ pre clock (maxtime : ℕ) o post t, tr = pre ++ (.purge clock maxtime, o) :: post →
    lastRequest pvname pre = some t → ∀ pv, clock pv - t ≤ maxtime * 1000000000

/-- A name asked for in time survives a purge as it is. -/
theorem Requested.survives (h : Requested tr s) {clock : SearchedPV → Int} {maxtime : ℕ}
    {o : Output} (hStep : s.step (.purge clock maxtime) = some (s', o))
    (hAsked : ∀ t, lastRequest pvname tr = some t → ∀ pv, clock pv - t ≤ maxtime * 1000000000) :
    (s'.content.map Prod.snd).filter (·.pvname = pvname) =
      (s.content.map Prod.snd).filter (·.pvname = pvname) := by
  obtain ⟨nPurged, nSearching, hPurge, -⟩ := step_purge hStep
  obtain ⟨-, -, -, hContent⟩ := purgePVs_eq_some hPurge
  rw [hContent, Multiset.filter_filter]
  refine Multiset.filter_congr fun pv hPv => ?_
  refine ⟨fun hBoth => hBoth.1, fun hName => ⟨hName, ?_⟩⟩
  obtain ⟨q, hq, rfl⟩ := Multiset.mem_map.mp hPv
  have hLast := h.last (search q.2) (Multiset.mem_map_of_mem _ hq)
  have hRecent := hAsked q.2.lastSearched (hName ▸ hLast) q.2
  -- less than one more whole second than `maxtime`
  unfold isStale
  rw [decide_eq_false_iff_not, lt_seconds_iff]
  omega

/-- **A purge removes exactly the stale PVs** and loses nothing else. A PV
asked for at least every `maxtime` seconds is never purged. -/
theorem purge_stale :
    (∀ (s : Searcher) (now : Int) (maxtime : ℕ), s.searchedPvs ≠ [] →
      ∃ s' counts, s.purgePVs (fun _ => now) maxtime = some (s', counts) ∧
        Purged now maxtime s s' counts) ∧
      ∀ (searchIntervals : List UInt32) (s₀ s : Searcher) (tr : List (Event × Output))
        (pvname : Bytes), Init searchIntervals s₀ → Run step s₀ tr s → AskedFor pvname tr →
        ∀ pre clock maxtime o post s₁ s₂, tr = pre ++ (.purge clock maxtime, o) :: post →
          Run step s₀ pre s₁ → s₁.step (.purge clock maxtime) = some (s₂, o) →
          (s₂.content.map Prod.snd).filter (·.pvname = pvname) =
            (s₁.content.map Prod.snd).filter (·.pvname = pvname) := by
  refine ⟨fun s now maxtime hBins => exists_purged hBins now maxtime, ?_⟩
  intro searchIntervals s₀ s tr pvname hInit _ hAsked pre clock maxtime o post s₁ s₂ hEq hPre hStep
  exact (requested_run hInit hPre).survives hStep fun t => hAsked pre clock maxtime o post t hEq

/-- At a purge that is the first one of the run, only the last request
counts. -/
theorem askedFor_concat {clock : SearchedPV → Int} {maxtime : ℕ} {o : Output}
    (hFirst : ∀ x ∈ tr, ∀ clock maxtime, x.1 ≠ .purge clock maxtime)
    (hLast : ∀ t, lastRequest pvname tr = some t → ∀ pv, clock pv - t ≤ maxtime * 1000000000) :
    AskedFor pvname (tr ++ [(.purge clock maxtime, o)]) := by
  intro pre clock' maxtime' o' post t hEq hRequest
  rcases List.eq_nil_or_concat post with rfl | ⟨front, x, rfl⟩
  · obtain ⟨rfl, hSame⟩ := List.append_inj' hEq rfl
    obtain ⟨hEvent, -⟩ := Prod.mk.inj (List.singleton_inj.mp hSame)
    obtain ⟨rfl, rfl⟩ := Event.purge.inj hEvent
    exact hLast t hRequest
  · -- an earlier purge would be in the run before this one
    rw [List.concat_eq_append, ← List.cons_append, ← List.append_assoc] at hEq
    obtain ⟨rfl, -⟩ := List.append_inj' hEq rfl
    exact absurd rfl (hFirst _ (List.mem_append_right _ (List.mem_cons_self ..)) clock' maxtime')

/-- A searcher that was asked for two names, and for one of them again 5 s
later. -/
def askedAgain : Searcher :=
  { tenBins with
    chanId := 2
    searchedPvs := tenBins.searchedPvs.set 0
      [⟨1, [chr 'B'], 0, [1, 2, 10]⟩, ⟨0, [chr 'A'], 5000000000, [1, 2, 10]⟩] }

/-- And 2 s after that, without what nobody has asked for in 3 s. -/
def oneKept : Searcher :=
  { askedAgain with
    searchedPvs := tenBins.searchedPvs.set 0 [⟨0, [chr 'A'], 5000000000, [1, 2, 10]⟩] }

/-- The requests up to then. -/
def threeRequests : List (Event × Output) :=
  [(.addPV 0 [chr 'A'], .added true), (.addPV 0 [chr 'B'], .added true),
    (.addPV 5000000000 [chr 'A'], .added false)]

/-- The purge drops one of the two PVs and keeps the other. -/
theorem purge_askedAgain :
    Run step tenBins threeRequests askedAgain ∧
      AskedFor [chr 'A'] (threeRequests ++ [(.purge (fun _ => 7000000000) 3, .purged 1 1)]) ∧
      askedAgain.step (.purge (fun _ => 7000000000) 3) = some (oneKept, .purged 1 1) ∧
      Purged 7000000000 3 askedAgain oneKept (1, 1) ∧
      (oneKept.content.map Prod.snd).filter (·.pvname = [chr 'A']) =
        (askedAgain.content.map Prod.snd).filter (·.pvname = [chr 'A']) := by
  obtain ⟨hAny, hRuns⟩ := purge_stale
  have hRun : Run step tenBins threeRequests askedAgain := Runs.run_of_exec
    [.addPV 0 [chr 'A'], .addPV 0 [chr 'B'], .addPV 5000000000 [chr 'A']] rfl
  have hPurge : askedAgain.purgePVs (fun _ => 7000000000) 3 = some (oneKept, 1, 1) := by
    decide +kernel
  have hStep := step_of_purgePVs hPurge
  have hAsked : AskedFor [chr 'A']
      (threeRequests ++ [(.purge (fun _ => 7000000000) 3, .purged 1 1)]) := by
    refine askedFor_concat (by simp [threeRequests]) fun t hLast pv => ?_
    obtain rfl : 5000000000 = t := Option.some.inj hLast
    decide
  refine ⟨hRun, hAsked, hStep, ?_, ?_⟩
  · obtain ⟨s', counts, hPurge', hPurged⟩ := hAny askedAgain 7000000000 3 (by decide)
    obtain ⟨rfl, rfl⟩ := Prod.mk.inj (Option.some.inj (hPurge.symm.trans hPurge'))
    exact hPurged
  · exact hRuns [1] tenBins oneKept _ [chr 'A'] init_tenBins (hRun.append (Run.single hStep)) hAsked
      _ _ _ _ [] _ _ rfl hRun hStep

/-- With 2^32 PVs, all of them kept, the second count is 0. -/
theorem purgeCount_wraps :
    ∃ s, Reachable [1] s ∧ s.searchedPvs ≠ [] ∧
      ∃ s' counts, s.purgePVs (fun _ => 0) 600 = some (s', counts) ∧
        s'.content.card = 2 ^ 32 ∧ counts.2.toNat = 0 := by
  obtain ⟨s, hReach, -, hBins, hKept⟩ := exists_crowd init_tenBins (by decide) (2 ^ 32)
  have hPurge := purgePVs_of_bins hBins (fun _ => 0) 600
  have hCount := (length_survivors s (fun _ => 0) 600).1.trans (hKept 600)
  refine ⟨s, hReach, hBins, _, _, hPurge, ?_, ?_⟩
  · rw [card_of_purge hPurge, hKept]
  · dsimp only
    rw [hCount]
    decide

-- ---------------------------------------------------------------------------
-- Balance
-- ---------------------------------------------------------------------------

/-- How the bins `n` PVs are dealt to suffice: `rounds` of them get a chunk
each, and what is left over goes into the last bin. -/
def Fits (n nBins : ℕ) : Prop :=
  let pvsPerBin := (n + nBins - 1) / nBins
  let rounds := (nBins + stride pvsPerBin - 1) / stride pvsPerBin
  n ≤ chunk pvsPerBin * rounds ∨
    ¬ stride pvsPerBin ∣ nBins - 1 ∧ n ≤ chunk pvsPerBin * (rounds + 1)

instance (n nBins : ℕ) : Decidable (Fits n nBins) := inferInstanceAs (Decidable (_ ∨ _))

/-- With an average of one PV for a bin, or of nine and more, the bins
suffice. -/
theorem fits_of_average {n nBins : ℕ} (hBins : 0 < nBins)
    (h : (n + nBins - 1) / nBins ≤ 1 ∨ 9 ≤ (n + nBins - 1) / nBins) : Fits n nBins := by
  left
  have hAverage := Nat.lt_mul_div_succ (n + nBins - 1) hBins
  generalize (n + nBins - 1) / nBins = pvsPerBin at *
  unfold chunk stride
  rcases h with hFew | hMany
  · obtain rfl | rfl : pvsPerBin = 0 ∨ pvsPerBin = 1 := by omega
    · show n ≤ 10 * ((nBins + 10 - 1) / 10)
      omega
    · -- one bin in nine gets ten PVs
      show n ≤ 10 * ((nBins + 9 - 1) / 9)
      omega
  · rw [show max 1 (10 - pvsPerBin) = 1 by omega, Nat.add_sub_cancel, Nat.div_one]
    have hAll : n ≤ pvsPerBin * nBins := by
      rw [Nat.mul_succ, Nat.mul_comm] at hAverage
      omega
    exact le_trans hAll (Nat.mul_le_mul_right nBins (le_max_right 10 pvsPerBin))

theorem rebalanced_eq (nBins : ℕ) (pvs : List SearchedPV) :
    rebalanced nBins pvs =
      (Deal.dealt (chunk ((pvs.length + nBins - 1) / nBins))
        (stride ((pvs.length + nBins - 1) / nBins)) 0 pvs (List.replicate nBins [])).modify (nBins - 1)
        (· ++ Deal.left (chunk ((pvs.length + nBins - 1) / nBins))
          (stride ((pvs.length + nBins - 1) / nBins)) nBins pvs) := by
  unfold rebalanced
  rw [dealLoop_eq, List.length_replicate, Nat.sub_zero]

/-- The last bin holds its chunk, if it got one, and the leftovers. -/
theorem length_lastBin {nBins : ℕ} (hBins : 0 < nBins) (pvs : List SearchedPV) :
    ((rebalanced nBins pvs)[nBins - 1]?.map List.length) =
      some (Deal.lastLoad (chunk ((pvs.length + nBins - 1) / nBins))
        (stride ((pvs.length + nBins - 1) / nBins)) nBins pvs.length) := by
  rw [rebalanced_eq, List.getElem?_modify, Deal.dealt_replicate _ _ _ (by omega)]
  simp only [if_true, Option.map_eq_map, Option.map_some, List.length_append, Deal.left,
    List.length_drop, Deal.lastLoad]
  congr 2
  split
  · simp
  · rfl

/-- No bin is overfull, exactly when the last one is not. -/
theorem rebalanced_le_iff {nBins : ℕ} (hBins : 0 < nBins) (pvs : List SearchedPV) :
    (∀ bin ∈ rebalanced nBins pvs, bin.length ≤ chunk ((pvs.length + nBins - 1) / nBins)) ↔
      Fits pvs.length nBins := by
  have hChunk : 0 < chunk ((pvs.length + nBins - 1) / nBins) := by
    unfold chunk
    omega
  have hStride : 0 < stride ((pvs.length + nBins - 1) / nBins) := by
    unfold stride
    omega
  refine Iff.trans ?_ (Deal.lastLoad_le_iff hChunk hStride hBins pvs.length)
  obtain ⟨last, hLast, hLength⟩ := Option.map_eq_some_iff.mp (length_lastBin hBins pvs)
  rw [← hLength]
  constructor
  · intro hAll
    exact hAll last (List.mem_of_getElem? hLast)
  · intro hLe bin hBin
    obtain ⟨j, hGet⟩ := List.mem_iff_getElem?.mp hBin
    by_cases hj : nBins - 1 = j
    · rw [← hj, hLast, Option.some.injEq] at hGet
      exact hGet ▸ hLe
    · -- the other bins are as they were dealt
      rw [rebalanced_eq, List.getElem?_modify] at hGet
      simp only [if_neg hj, Option.map_eq_map, Option.map_id_fun', id_eq] at hGet
      exact Deal.length_le_of_mem_dealt (List.mem_of_getElem? hGet)

/-- **A purge leaves no bin overfull, exactly when** the bins it deals to
suffice for the PVs it keeps. -/
theorem purge_balanced_iff (hBins : s.searchedPvs ≠ []) (clock : SearchedPV → Int) (maxtime : ℕ) :
    (∃ s' counts, s.purgePVs clock maxtime = some (s', counts) ∧
        ∀ bin ∈ s'.searchedPvs, bin.length ≤
          max 10 ((s.nKept clock maxtime + s.searchedPvs.length - 1) / s.searchedPvs.length)) ↔
      Fits (s.nKept clock maxtime) s.searchedPvs.length := by
  have hKept := (length_survivors s clock maxtime).1
  rw [← hKept, ← rebalanced_le_iff (List.length_pos_iff.mpr hBins), purgePVs_of_bins hBins]
  constructor
  · rintro ⟨s', counts, hPurge, hAll⟩
    rw [Option.some.injEq, Prod.mk.injEq] at hPurge
    rw [← hPurge.1] at hAll
    exact hAll
  · intro hAll
    exact ⟨_, _, rfl, hAll⟩

/-- Eleven PVs in ten bins: ten and one. -/
theorem purge_balanced_eleven :
    ∃ s, Reachable [1] s ∧ s.nKept (fun _ => 0) 600 = 11 ∧
      ∃ s' counts, s.purgePVs (fun _ => 0) 600 = some (s', counts) ∧
        ∀ bin ∈ s'.searchedPvs, bin.length ≤ 10 := by
  obtain ⟨s, hReach, hLength, hBins, hKept⟩ := exists_crowd init_tenBins (by decide) 11
  have hTen : s.searchedPvs.length = 10 := hLength
  have hIff := purge_balanced_iff hBins (fun _ => 0) 600
  rw [hKept, hTen] at hIff
  exact ⟨s, hReach, hKept 600, hIff.mpr (by decide)⟩

/-- With thirty bins and sixty PVs, two for a bin, four bins get ten each and
the last one the other twenty. -/
theorem purge_overfull :
    ∃ s, Reachable [3] s ∧ s.searchedPvs.length = 30 ∧ s.nKept (fun _ => 0) 600 = 60 ∧
      ∃ s' counts, s.purgePVs (fun _ => 0) 600 = some (s', counts) ∧
        ∃ bin ∈ s'.searchedPvs, bin.length = 20 := by
  have hInit : Init [3] (fresh 3 (inetNtop ⟨10, 0, 0, 255⟩, 5064) [3] 0) :=
    ⟨3, (inetNtop ⟨10, 0, 0, 255⟩, 5064), 0, by decide +kernel⟩
  obtain ⟨s, hReach, hLength, hBins, hKept⟩ := exists_crowd hInit (by decide) 60
  have hThirty : s.searchedPvs.length = 30 := hLength
  have hLast := length_lastBin (show 0 < 30 by decide) (s.survivors (fun _ => 0) 600)
  rw [(length_survivors s (fun _ => 0) 600).1, hKept] at hLast
  obtain ⟨bin, hGet, hBin⟩ := Option.map_eq_some_iff.mp hLast
  refine ⟨s, hReach, hThirty, hKept 600, _, _, purgePVs_of_bins hBins (fun _ => 0) 600, bin, ?_,
    hBin.trans (by decide)⟩
  rw [hThirty]
  exact List.mem_of_getElem? hGet

end Searcher

end PVmapper
