import PVmapper.Model.Config
import PVmapper.Searcher.Schedule

/-!
# PVmapper — which SEARCH_INTERVALS make a schedule

The bins of a searcher are one for each tick of its last interval, and an
interval is the distance, modulo the bins, a PV is moved ahead. So the last
interval has to be the longest, none may be 0, and ten times the last one has
to fit into 32 bits. `parseListUnsigned` checks none of this: it rejects only
tokens whose number, as a 32-bit value, is 0 and that are not `0` themselves.

* `wellFormedSchedule_iff_backoff` — a schedule is well formed exactly when
  its intervals are a `Backoff`.
* `searchIntervals_of_rejected`, `searchIntervals_of_accepted` — what a value
  is turned into.
* `wellFormedSchedule_iff`         — which values make a well-formed schedule.
-/

namespace PVmapper

open Searcher

/-- What every user of a schedule relies on: there are bins, nothing wraps,
every interval is on the dial, `m_currentBin` is a bin in every reachable
state, and a PV moved ahead by an interval comes up exactly that many ticks
later. -/
structure WellFormedSchedule (searchIntervals : List UInt32) : Prop where
  bins : 1 ≤ (maxInterval searchIntervals).toNat
  scaled : ∀ d ∈ searchIntervals, (d * 10).toNat = 10 * d.toNat
  onDial : ∀ d ∈ scheduleIntervals searchIntervals,
    1 ≤ d.toNat ∧ d.toNat ≤ (maxInterval searchIntervals).toNat
  inRange : ∀ s, Searcher.Reachable searchIntervals s → s.currentBin < s.searchedPvs.length
  exact : ∀ d ∈ scheduleIntervals searchIntervals, ∀ cur < (maxInterval searchIntervals).toNat,
    Dial.dist (maxInterval searchIntervals).toNat
      ((cur + 1) % (maxInterval searchIntervals).toNat)
      ((cur + d.toNat) % 2 ^ 64 % (maxInterval searchIntervals).toNat) + 1 = d.toNat

section Schedule

variable {searchIntervals : List UInt32}

theorem Searcher.Backoff.onDial (h : Backoff searchIntervals) {d : UInt32}
    (hd : d ∈ scheduleIntervals searchIntervals) :
    1 ≤ d.toNat ∧ d.toNat ≤ (maxInterval searchIntervals).toNat := by
  have hLast := h.toNat_le (List.getLast_mem h.ne)
  rw [h.toNat_maxInterval]
  simp only [scheduleIntervals, List.mem_cons, List.mem_map] at hd
  rcases hd with rfl | rfl | ⟨d, hd, rfl⟩
  · rw [show UInt32.toNat 1 = 1 from rfl]
    omega
  · rw [show UInt32.toNat 2 = 2 from rfl]
    omega
  · have := h.toNat_le hd
    have hLt := h.last_lt
    rw [toNat_mul_ten (by omega)]
    omega

/-- Well formed means a backoff. -/
theorem wellFormedSchedule_iff_backoff (hne : searchIntervals ≠ []) :
    WellFormedSchedule searchIntervals ↔ Backoff searchIntervals := by
  constructor
  · intro h
    have hMem : ∀ d ∈ searchIntervals, d * 10 ∈ scheduleIntervals searchIntervals := by
      intro d hd
      simp only [scheduleIntervals, List.mem_cons, List.mem_map]
      exact Or.inr (Or.inr ⟨d, hd, rfl⟩)
    have hLast := h.scaled _ (List.getLast_mem hne)
    -- without wrap-around the scaled bounds are ten times the configured ones
    refine ⟨hne, fun d hd => ?_, fun d hd => ?_, ?_⟩
    · rw [UInt32.le_iff_toNat_le]
      have := (h.onDial _ (hMem d hd)).1
      rw [h.scaled d hd] at this
      show 1 ≤ d.toNat
      omega
    · rw [UInt32.le_iff_toNat_le]
      have := (h.onDial _ (hMem d hd)).2
      rw [maxInterval_of_ne hne, h.scaled d hd, hLast] at this
      omega
    · rw [← hLast]
      exact UInt32.toNat_lt _
  · intro h
    have hLast := h.toNat_le (List.getLast_mem h.ne)
    refine ⟨?_, fun d hd => ?_, fun d hd => h.onDial hd, fun s hs => ?_, fun d hd cur hCur => ?_⟩
    · rw [h.toNat_maxInterval]
      omega
    · have := h.toNat_le hd
      have hLt := h.last_lt
      exact toNat_mul_ten (by omega)
    -- `m_currentBin` is in range because there are bins
    · refine hs.inv.bin_lt ?_
      rw [hs.frame.2, h.toNat_maxInterval]
      omega
    · have hBounds := h.onDial hd
      have hLt := UInt32.toNat_lt (maxInterval searchIntervals)
      -- the sum is far below 2^64, so only the modulo by the bins is left
      rw [Nat.mod_eq_of_lt (show cur + d.toNat < 2 ^ 64 by omega)]
      exact Dial.dist_ahead hCur hBounds.1 hBounds.2

end Schedule

namespace Config

-- ---------------------------------------------------------------------------
-- From the text to the list
-- ---------------------------------------------------------------------------

/-- The tokens of a value, as `parseListUnsigned` looks at them. -/
def tokens (value : Bytes) : List Bytes := (value.splitOn (chr ',')).map strip

theorem tokens_ne (value : Bytes) : tokens value ≠ [] := by
  unfold tokens
  simp

/-- A token that makes `parseListUnsigned` reject the list. -/
def Rejected (tmp : Bytes) : Prop := tokenNumber tmp = 0 ∧ tmp ≠ [chr '0']

instance (tmp : Bytes) : Decidable (Rejected tmp) := by
  unfold Rejected
  infer_instance

theorem mapM_parseToken (toks : List Bytes) :
    toks.mapM parseToken =
      if ∃ tmp ∈ toks.map strip, Rejected tmp then none
      else some ((toks.map strip).map tokenNumber) := by
  induction toks with
  | nil => simp
  | cons tok toks ih =>
    rw [List.mapM_cons, ih]
    by_cases hTok : Rejected (strip tok)
    · have hNone : parseToken tok = none := if_pos hTok
      have hIn : ∃ tmp ∈ (tok :: toks).map strip, Rejected tmp := ⟨strip tok, by simp, hTok⟩
      rw [hNone, if_pos hIn]
      rfl
    · have hSome : parseToken tok = some (tokenNumber (strip tok)) := if_neg hTok
      have hIff : (∃ tmp ∈ (tok :: toks).map strip, Rejected tmp) ↔
          ∃ tmp ∈ toks.map strip, Rejected tmp := by
        rw [List.map_cons]
        simp only [List.exists_mem_cons_iff, hTok, false_or]
      simp only [hSome, hIff]
      split <;> rfl

/-- One rejected token, and the default list is used. -/
theorem searchIntervals_of_rejected {value : Bytes} (h : ∃ tmp ∈ tokens value, Rejected tmp) :
    searchIntervals value = defaultIntervals := by
  have hParse : parseListUnsigned value = [] := by
    unfold parseListUnsigned
    rw [mapM_parseToken, if_pos (show ∃ tmp ∈ List.map strip _, Rejected tmp from h)]
  unfold searchIntervals
  rw [if_pos hParse]

/-- Otherwise the list is the tokens' numbers, whatever these are. -/
theorem searchIntervals_of_accepted {value : Bytes} (h : ¬ ∃ tmp ∈ tokens value, Rejected tmp) :
    searchIntervals value = (tokens value).map tokenNumber := by
  have hParse : parseListUnsigned value = (tokens value).map tokenNumber := by
    unfold parseListUnsigned
    rw [mapM_parseToken, if_neg (show ¬ ∃ tmp ∈ List.map strip _, Rejected tmp from h)]
    rfl
  unfold searchIntervals
  rw [hParse, if_neg (by simpa using tokens_ne value)]

theorem searchIntervals_ne (value : Bytes) : searchIntervals value ≠ [] := by
  by_cases h : ∃ tmp ∈ tokens value, Rejected tmp
  · rw [searchIntervals_of_rejected h]
    decide
  · rw [searchIntervals_of_accepted h]
    simpa using tokens_ne value

theorem backoff_defaultIntervals : Backoff defaultIntervals :=
  ⟨by simp [defaultIntervals], by simp [defaultIntervals], by simp [defaultIntervals], by
    simp [defaultIntervals]⟩

/-- **Which values make a well-formed schedule:** those with a rejected token,
which are replaced by the default, and those whose numbers, as 32-bit values,
are all between 1 and the last one, with ten times the last below 2^32. -/
theorem wellFormedSchedule_iff (value : Bytes) :
    WellFormedSchedule (searchIntervals value) ↔
      (∃ tmp ∈ tokens value, Rejected tmp) ∨
        (∀ tmp ∈ tokens value, 1 ≤ tokenNumber tmp ∧
          tokenNumber tmp ≤ tokenNumber ((tokens value).getLast (tokens_ne value))) ∧
        10 * (tokenNumber ((tokens value).getLast (tokens_ne value))).toNat < 2 ^ 32 := by
  rw [wellFormedSchedule_iff_backoff (searchIntervals_ne value)]
  by_cases hRej : ∃ tmp ∈ tokens value, Rejected tmp
  · rw [searchIntervals_of_rejected hRej]
    exact ⟨fun _ => Or.inl hRej, fun _ => backoff_defaultIntervals⟩
  · have hList := searchIntervals_of_accepted hRej
    -- the list is the tokens' numbers, so are its last element and its bounds
    have hGetLast : (searchIntervals value).getLast (searchIntervals_ne value) =
        tokenNumber ((tokens value).getLast (tokens_ne value)) := by
      simp only [hList, List.getLast_map]
    have hAll : ∀ P : UInt32 → Prop,
        (∀ d ∈ searchIntervals value, P d) ↔ ∀ tmp ∈ tokens value, P (tokenNumber tmp) := by
      intro P
      rw [hList]
      simp
    constructor
    · intro h
      have hLt := h.last_lt
      have hLe := h.le_last
      rw [hGetLast] at hLt
      simp only [hGetLast] at hLe
      refine Or.inr ⟨fun tmp hTmp => ⟨?_, ?_⟩, hLt⟩
      · exact (hAll _).mp h.pos tmp hTmp
      · exact (hAll _).mp hLe tmp hTmp
    · rintro (h | ⟨hBounds, hLt⟩)
      · exact absurd h hRej
      · refine ⟨searchIntervals_ne value, (hAll _).mpr fun tmp hTmp => (hBounds tmp hTmp).1, ?_, ?_⟩
        · simp only [hGetLast]
          exact (hAll (· ≤ _)).mpr fun tmp hTmp => (hBounds tmp hTmp).2
        · rw [hGetLast]
          exact hLt

/-- `SEARCH_INTERVALS=0` is accepted and makes a searcher without bins, and
`SEARCH_INTERVALS=10,1` one whose first delay is longer than its dial. -/
theorem not_wellFormedSchedule :
    ¬ WellFormedSchedule (searchIntervals [chr '0']) ∧
      ¬ WellFormedSchedule (searchIntervals [chr '1', chr '0', chr ',', chr '1']) := by
  have hZero : searchIntervals [chr '0'] = [0] := by decide +kernel
  have hTen : searchIntervals [chr '1', chr '0', chr ',', chr '1'] = [10, 1] := by decide +kernel
  rw [hZero, hTen]
  refine ⟨fun h => ?_, fun h => ?_⟩
  · have hBins : (maxInterval [0]).toNat = 0 := by decide +kernel
    have := h.bins
    omega
  · have hBins : (maxInterval [10, 1]).toNat = 10 := by decide +kernel
    have := (h.onDial 100 (by decide +kernel)).2
    rw [hBins] at this
    exact absurd this (by decide)

end Config

end PVmapper
