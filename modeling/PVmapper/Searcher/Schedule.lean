import PVmapper.Lib.Dial
import PVmapper.Searcher.Invariant

/-!
# PVmapper — the search schedule

A delay is kept nowhere as a number: it is the distance on the dial of bins
from `m_currentBin` to the bin a PV sits in. `At` follows one name through a
run (which bin, which intervals left), and `OnSchedule` relates the dial to
the ticks counted since the PV was added:

    ticks so far + distance to the PV's bin = the tick of its next send

The invariant survives splicing within the bin being walked because a
position `nBins` ahead of the hand is the hand's own position, a full round
away (`Dial.dist_ahead`, `Dial.dist_stay`).

* `sendTick`        — the configured schedule, in ticks.
* `at_step_of_quiet`, `at_tick` — what one step does to one name.
* `sent_exactly_on_schedule` — the ticks that send a PV are the configured
  ones.
-/

namespace PVmapper

namespace Searcher

variable {s s' : Searcher} {pvname : Bytes}

-- ---------------------------------------------------------------------------
-- The schedule
-- ---------------------------------------------------------------------------

/-- Intervals that make a backoff: each at least one second, the last one the
longest, and all of them representable in ticks. -/
structure Backoff (searchIntervals : List UInt32) : Prop where
  ne : searchIntervals ≠ []
  pos : ∀ d ∈ searchIntervals, 1 ≤ d
  le_last : ∀ d ∈ searchIntervals, d ≤ searchIntervals.getLast ne
  last_lt : 10 * (searchIntervals.getLast ne).toNat < 2 ^ 32

/-- Ticks from the `j`-th send of a PV, counted from 0, to the next one. -/
def gap (searchIntervals : List UInt32) : ℕ → ℕ
  | 0 => 1
  | 1 => 2
  | j + 2 => 10 * (searchIntervals.getD j (searchIntervals.getLastD 0)).toNat

/-- The tick, counted from 0 since the PV was added, of its `j`-th send. -/
def sendTick (searchIntervals : List UInt32) : ℕ → ℕ
  | 0 => 0
  | j + 1 => sendTick searchIntervals j + gap searchIntervals j

/-- The names each tick of a trace sends requests for, as its packets list them;
`Searcher/Packets` reads them out of the bytes. -/
def ticks (tr : List (Event × Output)) : List (List Bytes) :=
  tr.filterMap fun x =>
    match x.2 with
    | .sent true packets => some ((packets.flatMap Packet.pvs).map Prod.snd)
    | _ => none

theorem ticks_cons_tick (e : Event) (packets : List Packet) (tr : List (Event × Output)) :
    ticks ((e, .sent true packets) :: tr) =
      (packets.flatMap Packet.pvs).map Prod.snd :: ticks tr := rfl

theorem ticks_cons_quiet {e : Event} {o : Output} {tr : List (Event × Output)}
    (h : ∀ packets, o ≠ .sent true packets) : ticks ((e, o) :: tr) = ticks tr := by
  unfold ticks
  rw [List.filterMap_cons_none]
  dsimp only
  split
  · next packets => exact absurd rfl (h packets)
  · rfl

/-- The step is a purge. -/
def Event.isPurge : Event → Bool
  | .purge _ _ => true
  | _ => false

/-- The step neither removes the PV nor finds it. -/
def Keeps (pvname : Bytes) (x : Event × Output) : Prop :=
  x.1 ≠ .removePV pvname ∧ x.2 ≠ .found (some pvname)

-- ---------------------------------------------------------------------------
-- Following one name
-- ---------------------------------------------------------------------------

/-- The PV sits in bin `b` with these intervals left. -/
def At (s : Searcher) (pvname : Bytes) (b : ℕ) (intervals : List UInt32) : Prop :=
  ∃ pv, (b, pv) ∈ s.content ∧ pv.pvname = pvname ∧ pv.intervals = intervals

theorem At.lt {b : ℕ} {intervals : List UInt32} (h : At s pvname b intervals) :
    b < s.searchedPvs.length := by
  obtain ⟨pv, hMem, -, -⟩ := h
  exact lt_of_mem_content hMem

theorem at_removePV (hInv : Inv s) {other : Bytes} (hOther : other ≠ pvname) {b : ℕ}
    {intervals : List UInt32} (h : At s pvname b intervals) :
    At (s.removePV other) pvname b intervals := by
  obtain ⟨pv, hMem, hName, hIntervals⟩ := h
  refine ⟨pv, ?_, hName, hIntervals⟩
  rw [content_removePV hInv.names]
  exact Multiset.mem_filter.mpr ⟨hMem, fun hEq => hOther (hEq.symm.trans hName)⟩

/-- A step that is no tick, no purge and does not end the search for the PV
leaves it where it is, and the hand too. -/
theorem at_step_of_quiet (hInv : Inv s) {e : Event} {o : Output} (hStep : s.step e = some (s', o))
    (hPurge : e.isPurge = false) (hKeeps : Keeps pvname (e, o))
    (hTick : ∀ packets, o ≠ .sent true packets) {b : ℕ} {intervals : List UInt32}
    (h : At s pvname b intervals) :
    s'.currentBin = s.currentBin ∧ At s' pvname b intervals := by
  cases e with
  | addPV now other =>
    obtain ⟨isNew, hAdd, -⟩ := step_addPV hStep
    obtain ⟨pv, hMem, hName, hIntervals⟩ := h
    rcases addPV_eq_some hInv.names hAdd with ⟨-, -, -, hs', hContent⟩ | ⟨-, -, hs', -, hContent⟩
    · refine ⟨by rw [hs'], pv, ?_, hName, hIntervals⟩
      rw [hContent]
      exact Multiset.mem_cons_of_mem hMem
    · -- a repeated `addPV` at most touches `lastSearched`
      refine ⟨by rw [hs'], (touch now other (b, pv)).2, ?_, by simpa using hName, by
        simpa using hIntervals⟩
      rw [hContent]
      refine Multiset.mem_map.mpr ⟨(b, pv), hMem, ?_⟩
      unfold touch
      split <;> rfl
  | removePV other =>
    obtain ⟨rfl, -⟩ := step_removePV hStep
    refine ⟨rfl, at_removePV hInv ?_ h⟩
    rintro rfl
    exact hKeeps.1 rfl
  | response chanId accepted =>
    rcases step_response hStep with ⟨-, rfl, -⟩ | ⟨found, s₁, hTake, rfl, ho⟩
    · exact ⟨rfl, h⟩
    · have hOther : found.pvname ≠ pvname := by
        rintro rfl
        exact hKeeps.2 ho
      have h₁ := inv_takeFound hInv hTake
      obtain ⟨-, hs₁, -, b', hContent⟩ := takeFound_eq_some hTake
      -- the PV taken has another name
      have hAt : At s₁ pvname b intervals := by
        obtain ⟨pv, hMem, hName, hIntervals⟩ := h
        refine ⟨pv, ?_, hName, hIntervals⟩
        rw [hContent] at hMem
        rcases Multiset.mem_cons.mp hMem with hEq | hMem
        · rw [Prod.mk.injEq] at hEq
          exact absurd (hEq.2 ▸ hName) hOther
        · exact hMem
      have hCur : s₁.currentBin = s.currentBin := by rw [hs₁]
      split
      · exact ⟨hCur, at_removePV h₁ hOther hAt⟩
      · exact ⟨hCur, hAt⟩
  | outgoing now =>
    rcases step_outgoing hStep with ⟨-, rfl, -⟩ | ⟨-, packets, -, ho⟩
    · exact ⟨rfl, h⟩
    · exact absurd ho (hTick packets)
  | purge clock maxtime => exact absurd hPurge (by simp [Event.isPurge])

/-- What a tick does to one PV: not due, it stays; due, it moves ahead by its
first interval, or stays when that is the last. -/
theorem at_tick {packets : List Packet} (hTick : s.tick = some (s', packets)) {b : ℕ}
    {d : UInt32} {ds : List UInt32} (h : At s pvname b (d :: ds)) :
    (b ≠ s.currentBin → At s' pvname b (d :: ds)) ∧
      (b = s.currentBin → ds ≠ [] →
        At s' pvname ((s.currentBin + d.toNat) % 2 ^ 64 % s.searchedPvs.length) ds) ∧
      (b = s.currentBin → ds = [] → At s' pvname b [d]) := by
  obtain ⟨-, -, -, hContent, -⟩ := tick_eq_some hTick
  obtain ⟨pv, hMem, hName, hIntervals⟩ := h
  have hMem' : advance s.searchedPvs.length s.currentBin (b, pv) ∈ s'.content := by
    rw [hContent]
    exact Multiset.mem_map_of_mem _ hMem
  unfold advance at hMem'
  refine ⟨fun hb => ?_, fun hb hds => ?_, fun hb hds => ?_⟩
  · rw [if_neg hb] at hMem'
    exact ⟨pv, hMem', hName, hIntervals⟩
  · obtain ⟨d', ds', rfl⟩ := List.exists_cons_of_ne_nil hds
    rw [if_pos hb, reschedule_of_more hIntervals] at hMem'
    exact ⟨_, hMem', hName, rfl⟩
  · subst hds
    rw [if_pos hb, reschedule_of_last (by simp [hIntervals])] at hMem'
    exact ⟨pv, hb ▸ hMem', hName, hIntervals⟩

/-- A tick sends a PV once if it is due, and not at all otherwise. -/
theorem count_sent (hInv : Inv s) {packets : List Packet} (hTick : s.tick = some (s', packets))
    {b : ℕ} {intervals : List UInt32} (h : At s pvname b intervals) :
    ((packets.flatMap Packet.pvs).map Prod.snd).count pvname =
      if b = s.currentBin then 1 else 0 := by
  obtain ⟨hCur, -, -, -, hSent⟩ := tick_eq_some hTick
  obtain ⟨pv, hMem, hName, -⟩ := h
  have hNames : (packets.flatMap Packet.pvs).map Prod.snd =
      (s.bin s.currentBin).map SearchedPV.pvname := by
    rw [hSent, due, List.map_map]
    rfl
  -- a tick sends the names of the due bin
  rw [hNames]
  have hIn : ∀ pv' ∈ s.bin s.currentBin, (s.currentBin, pv') ∈ s.content := fun pv' hpv' =>
    mem_content.mpr ⟨_, getElem?_of_mem_bin hpv', hpv'⟩
  split
  · next hb =>
    have hDue : pvname ∈ (s.bin s.currentBin).map SearchedPV.pvname := by
      obtain ⟨bin', hGet, hpv⟩ := mem_content.mp hMem
      have hBin : s.bin s.currentBin = bin' := by
        rw [bin, List.getD_eq_getElem?_getD, ← hb, hGet]
        rfl
      exact List.mem_map.mpr ⟨pv, hBin ▸ hpv, hName⟩
    -- names are unique, so also within the bin
    have hNodup : ((s.bin s.currentBin).map SearchedPV.pvname).Nodup := by
      have hGet : s.searchedPvs[s.currentBin]? = some (s.bin s.currentBin) := by
        rw [bin, List.getD_eq_getElem?_getD, List.getElem?_eq_getElem hCur]
        rfl
      have hLe := Multiset.map_le_map (f := fun q : ℕ × SearchedPV => q.2.pvname)
        (Slots.map_le_content hGet)
      have hBin := Multiset.nodup_of_le hLe hInv.names
      rwa [Multiset.map_coe, List.map_map, Multiset.coe_nodup] at hBin
    exact List.count_eq_one_of_mem hNodup hDue
  -- a PV of that name in the due bin would be this one
  · next hb =>
    refine List.count_eq_zero.mpr fun hDue => hb ?_
    obtain ⟨pv', hpv', hName'⟩ := List.mem_map.mp hDue
    have hSame := eq_of_pvname_eq hInv.names hMem (hIn pv' hpv') (hName.trans hName'.symm)
    rw [Prod.mk.injEq] at hSame
    exact hSame.1

-- ---------------------------------------------------------------------------
-- The intervals left and the gaps ahead
-- ---------------------------------------------------------------------------

theorem maxInterval_of_ne {searchIntervals : List UInt32} (hne : searchIntervals ≠ []) :
    maxInterval searchIntervals = searchIntervals.getLast hne * 10 := by
  unfold maxInterval scheduleIntervals
  rw [List.getLast_cons (by simp), List.getLast_cons (by simpa using hne), List.getLast_map]

theorem toNat_mul_ten {d : UInt32} (h : 10 * d.toNat < 2 ^ 32) : (d * 10).toNat = 10 * d.toNat := by
  rw [UInt32.toNat_mul, Nat.mul_comm]
  exact Nat.mod_eq_of_lt h

section Backoff

variable {searchIntervals : List UInt32}

theorem Backoff.toNat_le (h : Backoff searchIntervals) {d : UInt32} (hd : d ∈ searchIntervals) :
    1 ≤ d.toNat ∧ d.toNat ≤ (searchIntervals.getLast h.ne).toNat :=
  ⟨UInt32.le_iff_toNat_le.mp (h.pos d hd), UInt32.le_iff_toNat_le.mp (h.le_last d hd)⟩

theorem Backoff.toNat_maxInterval (h : Backoff searchIntervals) :
    (maxInterval searchIntervals).toNat = 10 * (searchIntervals.getLast h.ne).toNat := by
  rw [maxInterval_of_ne h.ne, toNat_mul_ten h.last_lt]

/-- Every delay is at least one tick and at most a full round. -/
theorem Backoff.gap_bounds (h : Backoff searchIntervals) (j : ℕ) :
    1 ≤ gap searchIntervals j ∧ gap searchIntervals j ≤ (maxInterval searchIntervals).toNat := by
  have hLast := h.toNat_le (List.getLast_mem h.ne)
  rw [h.toNat_maxInterval]
  unfold gap
  split
  · omega
  · omega
  · next j =>
    have hMem : searchIntervals.getD j (searchIntervals.getLastD 0) ∈ searchIntervals := by
      rw [List.getD_eq_getElem?_getD]
      by_cases hj : j < searchIntervals.length
      · rw [List.getElem?_eq_getElem hj]
        exact List.getElem_mem hj
      · rw [List.getElem?_eq_none (by omega), Option.getD_none, List.getLastD_eq_getLast?,
          List.getLast?_eq_some_getLast h.ne]
        exact List.getLast_mem h.ne
    have := h.toNat_le hMem
    omega

theorem Backoff.sendTick_strictMono (h : Backoff searchIntervals) :
    StrictMono (sendTick searchIntervals) := by
  refine strictMono_nat_of_lt_succ fun j => ?_
  have := (h.gap_bounds j).1
  rw [sendTick]
  omega

/-- The intervals a PV has left before its `j`-th send. -/
def intervalsLeft (searchIntervals : List UInt32) (j : ℕ) : List UInt32 :=
  (scheduleIntervals searchIntervals).drop (min j (searchIntervals.length + 1))

/-- What the intervals left say: the first one is the gap ahead. Behind it are
the ones left before the next send; or there are none, and the gap is a full
round, now and for all later sends. -/
theorem Backoff.intervalsLeft_eq (h : Backoff searchIntervals) (j : ℕ) :
    ∃ d ds, intervalsLeft searchIntervals j = d :: ds ∧ d.toNat = gap searchIntervals j ∧
      (ds ≠ [] → intervalsLeft searchIntervals (j + 1) = ds) ∧
      (ds = [] → intervalsLeft searchIntervals (j + 1) = [d] ∧
        gap searchIntervals j = (maxInterval searchIntervals).toNat) := by
  have hLen : (scheduleIntervals searchIntervals).length = searchIntervals.length + 2 := by
    simp [scheduleIntervals]
  have hPos : 0 < searchIntervals.length := List.length_pos_of_ne_nil h.ne
  by_cases hj : j < searchIntervals.length + 1
  · -- more intervals behind the first one
    have hDrop := List.drop_eq_getElem_cons (l := scheduleIntervals searchIntervals) (i := j)
      (by omega)
    refine ⟨_, _, by rw [intervalsLeft, Nat.min_eq_left (by omega), hDrop], ?_, ?_, ?_⟩
    -- the two quick retries, and then the configured intervals
    · rcases j with _ | _ | i
      · rfl
      · rfl
      · have hi : i < searchIntervals.length := by omega
        have hd := h.toNat_le (List.getElem_mem hi)
        have hGet : (scheduleIntervals searchIntervals)[i + 2] = searchIntervals[i] * 10 := by
          simp [scheduleIntervals]
        have hGap : gap searchIntervals (i + 2) = 10 * (searchIntervals[i]).toNat := by
          show 10 * (searchIntervals.getD i _).toNat = _
          rw [List.getD_eq_getElem?_getD, List.getElem?_eq_getElem hi]
          rfl
        show ((scheduleIntervals searchIntervals)[i + 2]).toNat = gap searchIntervals (i + 2)
        rw [hGet, hGap, toNat_mul_ten]
        exact lt_of_le_of_lt (Nat.mul_le_mul_left 10 hd.2) h.last_lt
    · intro _
      rw [intervalsLeft, Nat.min_eq_left (by omega)]
    · intro hNil
      rw [List.drop_eq_nil_iff] at hNil
      omega
  · -- the last interval, reused from here on
    obtain ⟨i, rfl⟩ : ∃ i, j = i + 2 := ⟨j - 2, by omega⟩
    have hLeft : ∀ j', searchIntervals.length + 1 ≤ j' →
        intervalsLeft searchIntervals j' = [maxInterval searchIntervals] := by
      intro j' hj'
      rw [intervalsLeft, Nat.min_eq_right hj', List.drop_eq_getElem_cons (by omega),
        List.drop_of_length_le (by omega), maxInterval, List.getLast_eq_getElem]
      congr 2
      omega
    have hGap : gap searchIntervals (i + 2) = (maxInterval searchIntervals).toNat := by
      rw [h.toNat_maxInterval]
      show 10 * (searchIntervals.getD i _).toNat = _
      rw [List.getD_eq_getElem?_getD]
      by_cases hi : i < searchIntervals.length
      · have hEq : i = searchIntervals.length - 1 := by omega
        subst hEq
        rw [List.getElem?_eq_getElem hi, Option.getD_some, List.getLast_eq_getElem]
      -- past the end of the list `gap` reads the last interval too
      · rw [List.getElem?_eq_none (by omega), Option.getD_none, List.getLastD_eq_getLast?,
          List.getLast?_eq_some_getLast h.ne, Option.getD_some]
    refine ⟨_, _, hLeft _ (by omega), hGap.symm, fun hne => absurd rfl hne, fun _ => ⟨?_, hGap⟩⟩
    exact hLeft _ (by omega)

-- ---------------------------------------------------------------------------
-- On schedule
-- ---------------------------------------------------------------------------

/-- `k` ticks after it was added, the PV waits for its `j`-th send: the ticks
before it are behind, and the tick itself is as far ahead as the PV's bin. -/
def OnSchedule (searchIntervals : List UInt32) (pvname : Bytes) (k : ℕ) (s : Searcher) : Prop :=
  ∃ j b, At s pvname b (intervalsLeft searchIntervals j) ∧
    k + Dial.dist s.searchedPvs.length s.currentBin b = sendTick searchIntervals j ∧
    ∀ i < j, sendTick searchIntervals i < k

/-- A tick `k` ticks after the PV was added sends it at most once, and sends
it exactly when the schedule says so. -/
theorem sent_onSchedule (hBackoff : Backoff searchIntervals) (hInv : Inv s)
    {packets : List Packet} (hTick : s.tick = some (s', packets)) {k : ℕ}
    (h : OnSchedule searchIntervals pvname k s) :
    ((packets.flatMap Packet.pvs).map Prod.snd).count pvname ≤ 1 ∧
      (pvname ∈ (packets.flatMap Packet.pvs).map Prod.snd ↔ ∃ j, sendTick searchIntervals j = k) := by
  obtain ⟨j, b, hAt, hDist, hPast⟩ := h
  obtain ⟨hCur, -⟩ := tick_eq_some hTick
  have hCount := count_sent hInv hTick hAt
  have hMono := hBackoff.sendTick_strictMono
  have hZero := Dial.dist_eq_zero_iff hCur hAt.lt
  refine ⟨by rw [hCount]; split <;> omega, ?_⟩
  rw [← List.count_pos_iff, hCount]
  -- sent means due, and due means at distance 0 from the hand
  constructor
  · intro hPos
    refine ⟨j, ?_⟩
    have hb : b = s.currentBin := by
      by_contra hb
      rw [if_neg hb] at hPos
      omega
    rw [← hDist, hZero.mpr hb]
    rfl
  · intro hScheduled
    obtain ⟨i, hi⟩ := hScheduled
    -- the `j`-th send is the only one that can be due at tick `k`
    have hij : i = j := by
      rcases Nat.lt_trichotomy i j with hlt | rfl | hgt
      · have := hPast i hlt
        omega
      · rfl
      · have := hMono hgt
        omega
    subst hij
    have hb : b = s.currentBin := hZero.mp (by omega)
    rw [if_pos hb]
    exact Nat.one_pos

/-- The PV stays on schedule: sent, it waits for its next send; otherwise it is
a tick closer. -/
theorem onSchedule_succ (hBackoff : Backoff searchIntervals) (hInv : Inv s)
    (hBins : s.searchedPvs.length = (maxInterval searchIntervals).toNat)
    {packets : List Packet} (hTick : s.tick = some (s', packets)) {k : ℕ}
    (h : OnSchedule searchIntervals pvname k s) : OnSchedule searchIntervals pvname (k + 1) s' := by
  obtain ⟨j, b, hAt, hDist, hPast⟩ := h
  obtain ⟨hCur, hs', hLen, -, -⟩ := tick_eq_some hTick
  have hCur' : s'.currentBin = (s.currentBin + 1) % s.searchedPvs.length := by rw [hs']
  have hGap := hBackoff.gap_bounds j
  have hZero := Dial.dist_eq_zero_iff hCur hAt.lt
  obtain ⟨d, ds, hLeft, hd, hMore, hLast⟩ := hBackoff.intervalsLeft_eq j
  have hAt' := hAt
  rw [hLeft] at hAt'
  obtain ⟨hStays, hMoves, hReused⟩ := at_tick hTick hAt'
  by_cases hb : b = s.currentBin
  · have hk : k = sendTick searchIntervals j := by
      have := hZero.mpr hb
      omega
    have hNext : sendTick searchIntervals (j + 1) = k + gap searchIntervals j := by
      rw [sendTick, hk]
    have hPast' : ∀ i < j + 1, sendTick searchIntervals i < k + 1 := by
      intro i hi
      rcases Nat.lt_succ_iff_lt_or_eq.mp hi with hlt | rfl
      · have := hPast i hlt
        omega
      · omega
    by_cases hds : ds = []
    · -- the last interval: the PV stays, a full round away
      obtain ⟨hSame, hRound⟩ := hLast hds
      refine ⟨j + 1, b, hSame ▸ hReused hb hds, ?_, hPast'⟩
      have := Dial.dist_stay hCur
      rw [hNext, hLen, hCur', hb]
      omega
    -- otherwise it is moved ahead by the interval, which is the gap
    · refine ⟨j + 1, _, hMore hds ▸ hMoves hb hds, ?_, hPast'⟩
      have hSmall : (s.currentBin + d.toNat) % 2 ^ 64 = s.currentBin + d.toNat := by
        have := hInv.bins_lt
        omega
      have := Dial.dist_ahead (d := d.toNat) hCur (by omega) (by omega)
      rw [hNext, hLen, hCur', hSmall]
      omega
  · refine ⟨j, b, hLeft ▸ hStays hb, ?_, ?_⟩
    · have := Dial.dist_advance hCur hAt.lt hb
      rw [hLen, hCur']
      omega
    · intro i hi
      have := hPast i hi
      omega

/-- The run lemma: on schedule at tick `k`, a PV is sent in the ticks of the
run exactly as the schedule says. -/
theorem sent_of_onSchedule (hBackoff : Backoff searchIntervals) {tr : List (Event × Output)}
    (hRun : Runs.Run step s tr s') (hInv : Inv s)
    (hBins : s.searchedPvs.length = (maxInterval searchIntervals).toNat)
    (hQuiet : ∀ x ∈ tr, x.1.isPurge = false ∧ Keeps pvname x) {k : ℕ}
    (h : OnSchedule searchIntervals pvname k s) {i : ℕ} {names : List Bytes}
    (hNames : (ticks tr)[i]? = some names) :
    names.count pvname ≤ 1 ∧ (pvname ∈ names ↔ ∃ j, sendTick searchIntervals j = k + i) := by
  induction hRun generalizing k i with
  | nil => simp [ticks] at hNames
  | @cons s s₁ s₂ e o tr hStep _ ih =>
    obtain ⟨hPurge, hKeeps⟩ := hQuiet (e, o) (List.mem_cons_self ..)
    have hQuiet' : ∀ x ∈ tr, x.1.isPurge = false ∧ Keeps pvname x :=
      fun x hx => hQuiet x (List.mem_cons_of_mem _ hx)
    have hInv' := inv_step hInv hStep
    have hBins' := (sameFrame_step hInv hStep).length.trans hBins
    -- only a tick takes the PV a step along its schedule
    by_cases hIsTick : ∃ packets, o = .sent true packets
    · obtain ⟨packets, rfl⟩ := hIsTick
      have hTick := tick_of_step hStep
      rw [ticks_cons_tick] at hNames
      cases i with
      | zero =>
        rw [List.getElem?_cons_zero, Option.some.injEq] at hNames
        exact hNames ▸ sent_onSchedule hBackoff hInv hTick h
      | succ i =>
        rw [List.getElem?_cons_succ] at hNames
        have hNext := onSchedule_succ hBackoff hInv hBins hTick h
        have := ih hInv' hBins' hQuiet' hNext hNames
        rwa [Nat.add_right_comm] at this
    · have hNoTick : ∀ packets, o ≠ .sent true packets := fun packets ho => hIsTick ⟨packets, ho⟩
      obtain ⟨j, b, hAt, hDist, hPast⟩ := h
      obtain ⟨hCur, hAt'⟩ := at_step_of_quiet hInv hStep hPurge hKeeps hNoTick hAt
      have hLen := (sameFrame_step hInv hStep).length
      rw [ticks_cons_quiet hNoTick] at hNames
      exact ih hInv' hBins' hQuiet' ⟨j, b, hAt', by rw [hLen, hCur]; exact hDist, hPast⟩ hNames

/-- **The search schedule.** In the ticks after a PV was added it is sent in
the very next one and then after 1, 2, 10·s₁, …, 10·sₖ, 10·sₖ, … further
ticks, in no other tick, and at most once in each. -/
theorem sent_exactly_on_schedule (hBackoff : Backoff searchIntervals)
    (hReach : Reachable searchIntervals s) {s₁ : Searcher} {now : Int}
    (hAdd : s.addPV now pvname = some (s₁, true)) {tr : List (Event × Output)}
    (hRun : Runs.Run step s₁ tr s') (hQuiet : ∀ x ∈ tr, x.1.isPurge = false ∧ Keeps pvname x)
    {k : ℕ} {names : List Bytes} (hNames : (ticks tr)[k]? = some names) :
    names.count pvname ≤ 1 ∧ (pvname ∈ names ↔ ∃ j, sendTick searchIntervals j = k) := by
  have hInv := hReach.inv
  obtain ⟨hList, hBins⟩ := hReach.frame
  have hStep : s.step (.addPV now pvname) = some (s₁, .added true) := step_of_addPV hAdd
  -- a new PV is in the current bin, with all its intervals ahead
  have hStart : OnSchedule searchIntervals pvname 0 s₁ := by
    rcases addPV_eq_some hInv.names hAdd with ⟨-, -, hCur, hs₁, hContent⟩ | ⟨hFalse, -⟩
    · refine ⟨0, s.currentBin, ⟨s.newPv now pvname, ?_, rfl, ?_⟩, ?_, by simp⟩
      · rw [hContent]
        exact Multiset.mem_cons_self _ _
      · exact hList
      · have hLen := (sameFrame_step hInv hStep).length
        rw [hLen, hs₁, (Dial.dist_eq_zero_iff hCur hCur).mpr rfl]
        rfl
    · exact absurd hFalse (by simp)
  have := sent_of_onSchedule hBackoff hRun (inv_step hInv hStep)
    ((sameFrame_step hInv hStep).length.trans hBins) hQuiet hStart hNames
  rwa [Nat.zero_add] at this

/-- The packet that searches for the first PV of `tenBins`. -/
def firstPacket : Packet where
  msg := Header.version.encode ++ Header.encode ⟨cmdSearch, 8, 5, 13, 0, 0⟩ ++
    chr 'A' :: List.replicate 7 0
  pvs := [(0, [chr 'A'])]

/-- The four ticks after the first PV of `tenBins` was added. -/
def firstTicks : List (Event × Output) :=
  [(.outgoing 1000000000, .sent true [firstPacket]), (.outgoing 1100000000, .sent true [firstPacket]),
    (.outgoing 1200000000, .sent true []), (.outgoing 1300000000, .sent true [firstPacket])]

/-- The second tick sends the PV, the third does not. -/
theorem sent_in_firstTicks :
    ((ticks firstTicks)[1]? = some [[chr 'A']] ∧ ∃ j, sendTick [1] j = 1) ∧
      ((ticks firstTicks)[2]? = some [] ∧ ¬ ∃ j, sendTick [1] j = 2) := by
  have hBackoff : Backoff [1] := ⟨by decide, by simp, by simp, by simp⟩
  have hAdd : tenBins.addPV 0 [chr 'A'] = some (_, true) := rfl
  have hQuiet : ∀ x ∈ firstTicks, x.1.isPurge = false ∧ Keeps [chr 'A'] x := by
    intro x hx
    fin_cases hx <;> exact ⟨rfl, by rintro ⟨⟩, by rintro ⟨⟩⟩
  have hSent : ∀ {k : ℕ} {names : List Bytes}, (ticks firstTicks)[k]? = some names →
      names.count [chr 'A'] ≤ 1 ∧ ([chr 'A'] ∈ names ↔ ∃ j, sendTick [1] j = k) := fun hNames =>
    sent_exactly_on_schedule hBackoff tenBins_reachable hAdd
      (Runs.run_of_exec (firstTicks.map Prod.fst) rfl) hQuiet hNames
  have hSecond : (ticks firstTicks)[1]? = some [[chr 'A']] := rfl
  have hThird : (ticks firstTicks)[2]? = some [] := rfl
  exact ⟨⟨hSecond, (hSent hSecond).2.mp (by simp)⟩, hThird, fun h => by
    simpa using (hSent hThird).2.mpr h⟩

end Backoff

end Searcher

end PVmapper
