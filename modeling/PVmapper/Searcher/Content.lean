import PVmapper.Model.Searcher
import PVmapper.ProtoCa.Requests

/-!
# PVmapper — what each searcher operation does to the placed PVs

Everything the searcher proofs need about an operation is stated here once,
in terms of `Searcher.content`: the multiset of pairs (bin, PV) that the bins
hold. Order within a bin is forgotten; it only decides the order of names
inside a packet.

* `addPV_eq_some`   — a new name is placed once, in the current bin; a known
  name is only touched.
* `content_removePV`, `takeFound_eq_some` — removal by name and by id.
* `tick_eq_some`    — a tick moves the PVs of the current bin (`advance`) and
  sends exactly those.
* `purgePVs_eq_some` — a purge keeps the PVs that are not stale, anywhere.

`Inv` is the representation invariant that makes the scans by name mean what
they say: names are unique.
-/

namespace PVmapper

namespace Searcher

/-- The searched PVs, each with the index of its bin. -/
def content (s : Searcher) : Multiset (ℕ × SearchedPV) := Slots.content s.searchedPvs

/-- The representation invariant of a searcher. -/
structure Inv (s : Searcher) : Prop where
  bins_lt : s.searchedPvs.length < 2 ^ 32
  bin_lt : s.searchedPvs.length ≠ 0 → s.currentBin < s.searchedPvs.length
  names : (s.content.map (·.2.pvname)).Nodup
  intervals : ∀ q ∈ s.content, q.2.intervals ≠ [] ∧ q.2.intervals <:+ s.searchIntervals
  intervals_ne : s.searchIntervals ≠ []

variable {s s' : Searcher}

/-- What is in the bins, bin by bin. -/
theorem mem_content {b : ℕ} {pv : SearchedPV} :
    (b, pv) ∈ s.content ↔ ∃ bin, s.searchedPvs[b]? = some bin ∧ pv ∈ bin :=
  Slots.mem_content

/-- What is in the bins is in one of them. -/
theorem lt_of_mem_content {q : ℕ × SearchedPV} (h : q ∈ s.content) :
    q.1 < s.searchedPvs.length :=
  Slots.lt_length_of_mem_content h

/-- Two placed PVs with one name are the same PV in the same bin. -/
theorem eq_of_pvname_eq (hNames : (s.content.map (·.2.pvname)).Nodup) {q q' : ℕ × SearchedPV}
    (hq : q ∈ s.content) (hq' : q' ∈ s.content) (hName : q.2.pvname = q'.2.pvname) : q = q' :=
  Multiset.inj_on_of_nodup_map hNames q hq q' hq' hName

/-- A name is in the bins at most once. -/
theorem card_filter_pvname_le_one (hNames : (s.content.map (·.2.pvname)).Nodup) (pvname : Bytes) :
    (s.content.filter (fun q => (q.2.pvname == pvname) = true)).card ≤ 1 := by
  have h := Slots.card_filter_key_le_one hNames pvname
  simpa using h

-- ---------------------------------------------------------------------------
-- Adding and removing
-- ---------------------------------------------------------------------------

/-- A client asks again for a PV that is being searched for. -/
def touch (now : Int) (pvname : Bytes) (q : ℕ × SearchedPV) : ℕ × SearchedPV :=
  if q.2.pvname = pvname then (q.1, { q.2 with lastSearched := now }) else q

/-- The PV `addPV` creates. -/
def newPv (s : Searcher) (now : Int) (pvname : Bytes) : SearchedPV :=
  ⟨s.chanId, pvname, now, s.searchIntervals⟩

/-- What `addPV` can do. -/
theorem addPV_eq_some (hNames : (s.content.map (·.2.pvname)).Nodup) {now : Int} {pvname : Bytes}
    {isNew : Bool} (h : s.addPV now pvname = some (s', isNew)) :
    (isNew = true ∧ (∀ q ∈ s.content, q.2.pvname ≠ pvname) ∧
        s.currentBin < s.searchedPvs.length ∧
        s' = { s with
          chanId := s.chanId + 1
          searchedPvs := s.searchedPvs.modify s.currentBin (s.newPv now pvname :: ·) } ∧
        s'.content = (s.currentBin, s.newPv now pvname) ::ₘ s.content) ∨
      (isNew = false ∧ (∃ q ∈ s.content, q.2.pvname = pvname) ∧
        s' = { s with searchedPvs := s'.searchedPvs } ∧
        s'.searchedPvs.length = s.searchedPvs.length ∧
        s'.content = s.content.map (touch now pvname)) := by
  unfold addPV at h
  split at h
  · -- the scan met the name
    next bins hUpdate =>
    simp only [Option.some.injEq, Prod.mk.injEq] at h
    obtain ⟨rfl, rfl⟩ := h
    refine Or.inr ⟨rfl, ?_, rfl, Slots.length_updateFirst hUpdate, ?_⟩
    · obtain ⟨b, pv, rest, hName, hOld, -⟩ := Slots.contentFrom_updateFirst (k := 0) hUpdate
      refine ⟨(b, pv), ?_, by simpa using hName⟩
      show (b, pv) ∈ Slots.contentFrom 0 s.searchedPvs
      rw [hOld]
      exact Multiset.mem_cons_self _ _
    · have hUnique := card_filter_pvname_le_one hNames pvname
      refine (Slots.content_updateFirst_of_unique hUpdate hUnique).trans ?_
      refine Multiset.map_congr rfl fun q _ => ?_
      simp [touch]
  · next hUpdate =>
    split at h
    · next hBin =>
      simp only [Option.some.injEq, Prod.mk.injEq] at h
      obtain ⟨rfl, rfl⟩ := h
      refine Or.inl ⟨rfl, ?_, hBin, rfl, Slots.content_push _ hBin⟩
      rintro ⟨b, pv⟩ hMem hName
      obtain ⟨bin, hGet, hPv⟩ := mem_content.mp hMem
      have hDiffers := Slots.updateFirst_eq_none.mp hUpdate bin (List.mem_of_getElem? hGet) pv hPv
      rw [beq_eq_false_iff_ne] at hDiffers
      exact hDiffers hName
    · exact absurd h (by simp)

/-- With a current bin to put it in, `addPV` always answers. -/
theorem exists_addPV (hBin : s.currentBin < s.searchedPvs.length) (now : Int) (pvname : Bytes) :
    ∃ r, s.addPV now pvname = some r := by
  unfold addPV
  split
  · exact ⟨_, rfl⟩
  · rw [if_pos hBin]
    exact ⟨_, rfl⟩

/-- Removing a PV removes it, wherever it is. -/
theorem content_removePV (hNames : (s.content.map (·.2.pvname)).Nodup) (pvname : Bytes) :
    (s.removePV pvname).content = s.content.filter (fun q => q.2.pvname ≠ pvname) := by
  have hUnique := card_filter_pvname_le_one hNames pvname
  refine (Slots.content_eraseFirst_of_unique hUnique).trans ?_
  exact Multiset.filter_congr fun q _ => by simp

@[simp] theorem length_removePV (s : Searcher) (pvname : Bytes) :
    (s.removePV pvname).searchedPvs.length = s.searchedPvs.length :=
  Slots.length_eraseFirst _ _

-- ---------------------------------------------------------------------------
-- Responses
-- ---------------------------------------------------------------------------

/-- The PV found is the first one with its id in its bin. -/
theorem findPv_eq_some {chanId : UInt32} {b : ℕ} {pv : SearchedPV}
    (h : s.findPv chanId = some (b, pv)) :
    (s.bin b).find? (·.chanId == chanId) = some pv := by
  unfold findPv at h
  obtain ⟨b', -, hb'⟩ := List.exists_of_findSome?_eq_some h
  obtain ⟨pv', hFind, hEq⟩ := Option.map_eq_some_iff.mp hb'
  rw [Prod.mk.injEq] at hEq
  obtain ⟨rfl, rfl⟩ := hEq
  exact hFind

theorem getElem?_of_mem_bin {b : ℕ} {pv : SearchedPV} (h : pv ∈ s.bin b) :
    s.searchedPvs[b]? = some (s.bin b) := by
  unfold bin at *
  rw [List.getD_eq_getElem?_getD] at *
  cases hGet : s.searchedPvs[b]? with
  | none => simp [hGet] at h
  | some bin => rfl

/-- What a response that is for a searched PV takes out of the bins. -/
theorem takeFound_eq_some {chanId : UInt32} {pv : SearchedPV}
    (h : s.takeFound chanId = some (pv, s')) :
    pv.chanId = chanId ∧ s' = { s with searchedPvs := s'.searchedPvs } ∧
      s'.searchedPvs.length = s.searchedPvs.length ∧
      ∃ b, s.content = (b, pv) ::ₘ s'.content := by
  unfold takeFound at h
  split at h
  · exact absurd h (by simp)
  · next b pv' hFind =>
    simp only [Option.some.injEq, Prod.mk.injEq] at h
    obtain ⟨rfl, rfl⟩ := h
    have hPv := findPv_eq_some hFind
    have hGet := getElem?_of_mem_bin (List.mem_of_find?_eq_some hPv)
    refine ⟨by simpa using List.find?_some hPv, rfl, List.length_modify .., b, ?_⟩
    exact Slots.content_erase hGet hPv

-- ---------------------------------------------------------------------------
-- Ticks
-- ---------------------------------------------------------------------------

/-- Where a tick that finds `pv` in bin `cur` of `n` bins puts it. -/
def reschedule (n cur : ℕ) (pv : SearchedPV) : ℕ × SearchedPV :=
  match pv.intervals with
  | d :: d' :: ds => ((cur + d.toNat) % 2 ^ 64 % n, { pv with intervals := d' :: ds })
  | _ => (cur, pv)

/-- What a tick at bin `cur` does to a placed PV. -/
def advance (n cur : ℕ) (q : ℕ × SearchedPV) : ℕ × SearchedPV :=
  if q.1 = cur then reschedule n cur q.2 else q

/-- With another interval behind it, the first interval decides the new bin. -/
theorem reschedule_of_more {n cur : ℕ} {pv : SearchedPV} {d d' : UInt32} {ds : List UInt32}
    (h : pv.intervals = d :: d' :: ds) :
    reschedule n cur pv = ((cur + d.toNat) % 2 ^ 64 % n, { pv with intervals := d' :: ds }) := by
  unfold reschedule
  rw [h]

/-- In its last interval a PV stays where it is. -/
theorem reschedule_of_last {n cur : ℕ} {pv : SearchedPV}
    (h : ∀ d d' ds, pv.intervals ≠ d :: d' :: ds) : reschedule n cur pv = (cur, pv) := by
  unfold reschedule
  split
  · next d d' ds hEq => exact absurd hEq (h d d' ds)
  · rfl

@[simp] theorem reschedule_pvname (n cur : ℕ) (pv : SearchedPV) :
    (reschedule n cur pv).2.pvname = pv.pvname := by
  unfold reschedule
  split <;> rfl

@[simp] theorem reschedule_chanId (n cur : ℕ) (pv : SearchedPV) :
    (reschedule n cur pv).2.chanId = pv.chanId := by
  unfold reschedule
  split <;> rfl

@[simp] theorem reschedule_lastSearched (n cur : ℕ) (pv : SearchedPV) :
    (reschedule n cur pv).2.lastSearched = pv.lastSearched := by
  unfold reschedule
  split <;> rfl

@[simp] theorem advance_pvname (n cur : ℕ) (q : ℕ × SearchedPV) :
    (advance n cur q).2.pvname = q.2.pvname := by
  unfold advance
  split <;> simp

@[simp] theorem advance_chanId (n cur : ℕ) (q : ℕ × SearchedPV) :
    (advance n cur q).2.chanId = q.2.chanId := by
  unfold advance
  split <;> simp

@[simp] theorem advance_lastSearched (n cur : ℕ) (q : ℕ × SearchedPV) :
    (advance n cur q).2.lastSearched = q.2.lastSearched := by
  unfold advance
  split <;> simp

@[simp] theorem length_dueLoop (cur : ℕ) (due : List SearchedPV) (bins : List (List SearchedPV)) :
    (dueLoop cur due bins).length = bins.length := by
  induction due generalizing bins with
  | nil => rfl
  | cons pv rest ih =>
    unfold dueLoop
    split <;> simp [ih]

/-- The loop over the due bin places every element of it where `reschedule`
says, whatever the bins hold by then. -/
theorem content_dueLoop {cur : ℕ} (due : List SearchedPV) {bins : List (List SearchedPV)}
    (hCur : cur < bins.length) :
    Slots.content (dueLoop cur due bins) =
      Slots.content bins + (due.map (reschedule bins.length cur) : Multiset (ℕ × SearchedPV)) := by
  induction due generalizing bins with
  | nil => simp [dueLoop]
  | cons pv rest ih =>
    -- each element goes where `reschedule` says; the loop goes on with the rest
    rw [List.map_cons, ← Multiset.cons_coe, Multiset.add_cons, ← Multiset.cons_add]
    unfold dueLoop
    split
    · next d d' ds hIntervals =>
      have hNew : (cur + d.toNat) % 2 ^ 64 % bins.length < bins.length :=
        Nat.mod_lt _ (by omega)
      rw [ih (by simpa using hCur), List.length_modify, Slots.content_push _ hNew,
        reschedule_of_more hIntervals]
    · next hLast =>
      rw [ih (by simpa using hCur), List.length_modify, Slots.content_pushBack _ hCur,
        reschedule_of_last hLast]

/-- The packets of a tick cover the due PVs, in order. -/
theorem sendLoop_pvs {fuel : ℕ} {pvs : List (UInt32 × Bytes)} {packets : List Packet}
    (h : sendLoop fuel pvs = some packets) : packets.flatMap Packet.pvs = pvs := by
  induction fuel generalizing pvs packets with
  | zero =>
    cases pvs with
    | nil =>
      simp only [sendLoop, Option.some.injEq] at h
      subst h
      rfl
    | cons pv pvs => simp [sendLoop] at h
  | succ fuel ih =>
    cases pvs with
    | nil =>
      simp only [sendLoop, Option.some.injEq] at h
      subst h
      rfl
    | cons pv pvs =>
      unfold sendLoop at h
      split at h
      · exact absurd h (by simp)
      · next msg nPvs _ =>
        obtain ⟨rest, hRest, rfl⟩ := Option.map_eq_some_iff.mp h
        -- a packet's PVs and those behind it
        rw [List.flatMap_cons, ih hRest]
        exact List.take_append_drop nPvs (pv :: pvs)

/-- The (id, name) pairs of the PVs a tick finds due. -/
def due (s : Searcher) : List (UInt32 × Bytes) :=
  (s.bin s.currentBin).map fun pv => (pv.chanId, pv.pvname)

/-- What a tick does. -/
theorem tick_eq_some {packets : List Packet} (h : s.tick = some (s', packets)) :
    s.currentBin < s.searchedPvs.length ∧
      s' = { s with
        searchedPvs := s'.searchedPvs
        currentBin := (s.currentBin + 1) % s.searchedPvs.length } ∧
      s'.searchedPvs.length = s.searchedPvs.length ∧
      s'.content = s.content.map (advance s.searchedPvs.length s.currentBin) ∧
      packets.flatMap Packet.pvs = s.due := by
  unfold tick at h
  split at h
  · exact absurd h (by simp)
  · next dueBin hGet =>
    obtain ⟨packets', hSend, hEq⟩ := Option.map_eq_some_iff.mp h
    rw [Prod.mk.injEq] at hEq
    obtain ⟨rfl, rfl⟩ := hEq
    have hCur : s.currentBin < s.searchedPvs.length := (List.getElem?_eq_some_iff.mp hGet).1
    have hBin : s.bin s.currentBin = dueBin := by
      rw [bin, List.getD_eq_getElem?_getD, hGet]
      rfl
    refine ⟨hCur, rfl, by simp, ?_, ?_⟩
    · -- the due elements are rescheduled, the rest of the content stays
      have hCur' : s.currentBin < (s.searchedPvs.set s.currentBin []).length := by simpa using hCur
      have hLoop := content_dueLoop dueBin hCur'
      have hClear : Slots.content s.searchedPvs = _ := Slots.content_clear hGet
      rw [List.length_set] at hLoop
      refine hLoop.trans ?_
      show _ = (Slots.content s.searchedPvs).map _
      rw [hClear, Multiset.map_add]
      congr 1
      -- what is left is in other bins, where a tick changes nothing
      · conv_lhs => rw [← Multiset.map_id (Slots.content _)]
        refine Multiset.map_congr rfl fun q hq => ?_
        have hne : q.1 ≠ s.currentBin := by
          intro hEq
          obtain ⟨bin, hBin', hMem⟩ := Slots.mem_content.mp hq
          rw [hEq, List.getElem?_set_self hCur, Option.some.injEq] at hBin'
          rw [← hBin'] at hMem
          exact absurd hMem (List.not_mem_nil)
        simp [advance, hne]
      · rw [Multiset.map_coe, List.map_map]
        congr 1
        refine List.map_congr_left fun pv _ => ?_
        simp [advance]
    · rw [due, hBin]
      exact sendLoop_pvs hSend

-- ---------------------------------------------------------------------------
-- Purging
-- ---------------------------------------------------------------------------

/-- Dealing makes no bins. -/
theorem length_dealLoop (pvsPerBin : ℕ) (bins : List (List SearchedPV)) (pvs : List SearchedPV)
    (i : ℕ) : (dealLoop pvsPerBin bins pvs i).1.length = bins.length := by
  fun_induction dealLoop pvsPerBin bins pvs i with
  | case1 bins pvs i _ nPvs _ ih => rw [ih, List.length_modify]
  | case2 bins pvs i _ nPvs _ ih => rw [ih, List.length_modify]
  | case3 bins pvs i _ => rfl

/-- Dealing a chunk to a bin moves it from the pile to the bins. -/
theorem flatten_modify_take {bins : List (List SearchedPV)} {i : ℕ} (hi : i < bins.length)
    (pvs : List SearchedPV) (k : ℕ) :
    ((bins.modify i (pvs.take k ++ ·)).flatten ++ pvs.drop k).Perm (bins.flatten ++ pvs) := by
  rw [List.modify_eq_take_cons_drop hi]
  conv_rhs => rw [← List.take_append_drop k pvs]
  conv_rhs => rw [← List.take_append_drop i bins, List.drop_eq_getElem_cons hi]
  simp only [List.flatten_append, List.flatten_cons, List.append_assoc]
  refine List.Perm.append_left _ ?_
  rw [← List.append_assoc, ← List.append_assoc, ← List.append_assoc, ← List.append_assoc]
  refine List.Perm.append_right _ ?_
  rw [List.append_assoc]
  exact List.perm_append_comm.trans (by rw [List.append_assoc])

/-- The dealing loop loses and invents nothing. -/
theorem dealLoop_perm (pvsPerBin : ℕ) (bins : List (List SearchedPV)) (pvs : List SearchedPV)
    (i : ℕ) :
    ((dealLoop pvsPerBin bins pvs i).1.flatten ++ (dealLoop pvsPerBin bins pvs i).2).Perm
      (bins.flatten ++ pvs) := by
  fun_induction dealLoop pvsPerBin bins pvs i with
  | case1 bins pvs i hMore nPvs _ ih => exact ih.trans (flatten_modify_take hMore.1 pvs _)
  | case2 bins pvs i hMore nPvs _ ih => exact ih.trans (flatten_modify_take hMore.1 pvs _)
  | case3 bins pvs i _ => exact List.Perm.refl _

/-- What a purge does: the PVs that are not stale stay, in whatever bins. -/
theorem purgePVs_eq_some {clock : SearchedPV → Int} {maxtime : ℕ} {nPurged nSearching : UInt32}
    (h : s.purgePVs clock maxtime = some (s', nPurged, nSearching)) :
    s.searchedPvs.length ≠ 0 ∧
      s' = { s with searchedPvs := s'.searchedPvs, currentBin := 0 } ∧
      s'.searchedPvs.length = s.searchedPvs.length ∧
      s'.content.map Prod.snd =
        (s.content.map Prod.snd).filter (fun pv => isStale maxtime (clock pv) pv = false) := by
  unfold purgePVs at h
  split at h
  · exact absurd h (by simp)
  · next hBins =>
    simp only [Option.some.injEq, Prod.mk.injEq] at h
    obtain ⟨rfl, -, -⟩ := h
    refine ⟨hBins, rfl, by simp [length_dealLoop], ?_⟩
    set kept := (s.searchedPvs.map (List.filter fun pv => !isStale maxtime (clock pv) pv)).flatten
      with hKept
    set n := s.searchedPvs.length with hn
    set dealt := dealLoop ((kept.length + n - 1) / n) (List.replicate n []) kept 0 with hDealt
    have hPerm : (dealt.1.flatten ++ dealt.2).Perm kept := by
      have := dealLoop_perm ((kept.length + n - 1) / n) (List.replicate n []) kept 0
      simpa using this
    have hLen : dealt.1.length = n := by rw [hDealt, length_dealLoop, List.length_replicate]
    -- the leftovers go behind the last bin
    have hLast : ((dealt.1.modify (n - 1) (· ++ dealt.2)).flatten).Perm kept := by
      refine List.Perm.trans ?_ hPerm
      have hi : n - 1 < dealt.1.length := by omega
      rw [List.modify_eq_take_cons_drop hi]
      conv_rhs => rw [← List.take_append_drop (n - 1) dealt.1, List.drop_eq_getElem_cons hi]
      simp only [List.flatten_append, List.flatten_cons, List.append_assoc]
      exact List.Perm.append_left _ (List.Perm.append_left _ List.perm_append_comm)
    have hFilter : (s.content.map Prod.snd).filter
        (fun pv => isStale maxtime (clock pv) pv = false) = (kept : Multiset SearchedPV) := by
      rw [content, Slots.content_map_snd, Multiset.filter_coe, hKept, ← List.filter_flatten]
      simp
    rw [hFilter, content, Slots.content_map_snd]
    exact Multiset.coe_eq_coe.mpr hLast

-- ---------------------------------------------------------------------------
-- Steps
-- ---------------------------------------------------------------------------

/-- What an `outgoing` step can do: return early, or tick. -/
theorem step_outgoing {now : Int} {o : Output} (h : s.step (.outgoing now) = some (s', o)) :
    (s.tooEarly now ∧ s' = s ∧ o = .sent false []) ∨
      (¬ s.tooEarly now ∧ ∃ packets, s.tick = some (s', packets) ∧ o = .sent true packets) := by
  obtain ⟨⟨s₁, packets⟩, hOut, hEq⟩ := Option.map_eq_some_iff.mp h
  rw [Prod.mk.injEq] at hEq
  obtain ⟨rfl, rfl⟩ := hEq
  unfold processOutgoing at hOut
  split at hOut
  · next hEarly =>
    simp only [Option.some.injEq, Prod.mk.injEq] at hOut
    obtain ⟨rfl, rfl⟩ := hOut
    exact Or.inl ⟨hEarly, rfl, by simp [hEarly]⟩
  · next hEarly => exact Or.inr ⟨hEarly, packets, hOut, by simp [hEarly]⟩

/-- What a `response` step can do: nothing, or take the PV it is for. -/
theorem step_response {chanId : UInt32} {accepted : Bool} {o : Output}
    (h : s.step (.response chanId accepted) = some (s', o)) :
    (s.takeFound chanId = none ∧ s' = s ∧ o = .found none) ∨
      ∃ pv s₁, s.takeFound chanId = some (pv, s₁) ∧
        s' = (if accepted then s₁.removePV pv.pvname else s₁) ∧ o = .found (some pv.pvname) := by
  unfold step at h
  dsimp only at h
  split at h
  · next hTake =>
    simp only [Option.some.injEq, Prod.mk.injEq] at h
    exact Or.inl ⟨hTake, h.1.symm, h.2.symm⟩
  · next pv s₁ hTake =>
    simp only [Option.some.injEq, Prod.mk.injEq] at h
    exact Or.inr ⟨pv, s₁, hTake, h.1.symm, h.2.symm⟩

/-- What an `addPV` step does. -/
theorem step_addPV {now : Int} {pvname : Bytes} {o : Output}
    (h : s.step (.addPV now pvname) = some (s', o)) :
    ∃ isNew, s.addPV now pvname = some (s', isNew) ∧ o = .added isNew := by
  obtain ⟨⟨s₁, isNew⟩, hAdd, hEq⟩ := Option.map_eq_some_iff.mp h
  rw [Prod.mk.injEq] at hEq
  obtain ⟨rfl, rfl⟩ := hEq
  exact ⟨isNew, hAdd, rfl⟩

/-- What a `removePV` step does. -/
theorem step_removePV {pvname : Bytes} {o : Output}
    (h : s.step (.removePV pvname) = some (s', o)) : s' = s.removePV pvname ∧ o = .removed := by
  simp only [step, Option.some.injEq, Prod.mk.injEq] at h
  exact ⟨h.1.symm, h.2.symm⟩

/-- What a `purge` step does. -/
theorem step_purge {clock : SearchedPV → Int} {maxtime : ℕ} {o : Output}
    (h : s.step (.purge clock maxtime) = some (s', o)) :
    ∃ nPurged nSearching, s.purgePVs clock maxtime = some (s', nPurged, nSearching) ∧
      o = .purged nPurged nSearching := by
  obtain ⟨⟨s₁, nPurged, nSearching⟩, hPurge, hEq⟩ := Option.map_eq_some_iff.mp h
  rw [Prod.mk.injEq] at hEq
  obtain ⟨rfl, rfl⟩ := hEq
  exact ⟨nPurged, nSearching, hPurge, rfl⟩

/-- An `addPV` that answers is a step. -/
theorem step_of_addPV {now : Int} {pvname : Bytes} {isNew : Bool}
    (h : s.addPV now pvname = some (s', isNew)) :
    s.step (.addPV now pvname) = some (s', .added isNew) :=
  Option.map_eq_some_iff.mpr ⟨_, h, rfl⟩

/-- A call of `processOutgoing` that answers is a step. -/
theorem step_of_processOutgoing {now : Int} {packets : List Packet}
    (h : s.processOutgoing now = some (s', packets)) :
    s.step (.outgoing now) = some (s', .sent (¬ s.tooEarly now) packets) :=
  Option.map_eq_some_iff.mpr ⟨_, h, rfl⟩

/-- A purge that answers is a step. -/
theorem step_of_purgePVs {clock : SearchedPV → Int} {maxtime : ℕ} {nPurged nSearching : UInt32}
    (h : s.purgePVs clock maxtime = some (s', nPurged, nSearching)) :
    s.step (.purge clock maxtime) = some (s', .purged nPurged nSearching) :=
  Option.map_eq_some_iff.mpr ⟨_, h, rfl⟩

/-- A PV that is taken and not accepted is a step of its own. -/
theorem step_of_takeFound {chanId : UInt32} {pv : SearchedPV}
    (h : s.takeFound chanId = some (pv, s')) :
    s.step (.response chanId false) = some (s', .found (some pv.pvname)) := by
  unfold step
  dsimp only
  rw [h]
  rfl

/-- Only an `outgoing` step sends. -/
theorem outgoing_of_step {e : Event} {ticked : Bool} {packets : List Packet}
    (h : s.step e = some (s', .sent ticked packets)) :
    ∃ now, e = .outgoing now ∧ s.processOutgoing now = some (s', packets) := by
  cases e with
  | addPV now pvname =>
    obtain ⟨_, _, ho⟩ := step_addPV h
    simp at ho
  | removePV pvname =>
    have ho := (step_removePV h).2
    simp at ho
  | response chanId accepted =>
    rcases step_response h with ⟨-, -, ho⟩ | ⟨_, _, _, _, ho⟩ <;> simp at ho
  | outgoing now =>
    obtain ⟨⟨s₁, sent⟩, hOut, hEq⟩ := Option.map_eq_some_iff.mp h
    rw [Prod.mk.injEq, Output.sent.injEq] at hEq
    obtain ⟨rfl, -, rfl⟩ := hEq
    exact ⟨now, rfl, hOut⟩
  | purge clock maxtime =>
    obtain ⟨_, _, _, ho⟩ := step_purge h
    simp at ho

/-- Only an `outgoing` step ticks. -/
theorem tick_of_step {e : Event} {packets : List Packet}
    (h : s.step e = some (s', .sent true packets)) : s.tick = some (s', packets) := by
  obtain ⟨now, rfl, -⟩ := outgoing_of_step h
  rcases step_outgoing h with ⟨-, -, ho⟩ | ⟨-, packets', hTick, ho⟩
  · simp at ho
  · rw [Output.sent.injEq] at ho
    exact ho.2 ▸ hTick

/-- What a call sends is in the bins. -/
theorem exists_content_of_sent {now : Int} {packets : List Packet}
    (h : s.processOutgoing now = some (s', packets)) {r : UInt32 × Bytes}
    (hr : r ∈ packets.flatMap Packet.pvs) :
    ∃ q ∈ s.content, r = (q.2.chanId, q.2.pvname) := by
  unfold processOutgoing at h
  split at h
  · obtain ⟨-, rfl⟩ := Prod.mk.inj (Option.some.inj h)
    exact absurd hr List.not_mem_nil
  · -- a tick sends what is due
    obtain ⟨-, -, -, -, hSent⟩ := tick_eq_some h
    rw [hSent, due, List.mem_map] at hr
    obtain ⟨pv, hPv, rfl⟩ := hr
    exact ⟨(s.currentBin, pv), mem_content.mpr ⟨_, getElem?_of_mem_bin hPv, hPv⟩, rfl⟩

end Searcher

end PVmapper
