import PVmapper.Searcher.Entries

/-!
# PVmapper — the ids of the searched PVs

`addPV` takes the id of a new PV from the counter `m_chanId`, which wraps
around after 2^32 insertions. Nothing looks whether the PV that had the id
before is still searched for: the renumbering in `getNextChanId` is never
called. A PV that clients keep asking for can outlive the wrap.

* `numbered_run`        — a PV's id is the counter's value less the insertions
  since its own.
* `uniqueIds_iff`       — exactly which runs keep the ids distinct.
* `duplicate_afterWrap` — a reachable searcher with two PVs of one id.
-/

namespace PVmapper

namespace Searcher

open Runs (Run)

variable {s s' s₀ : Searcher} {tr : List (Event × Output)}

/-- No two PVs in the bins have the same id. -/
def UniqueIds (s : Searcher) : Prop := (s.content.map (·.2.chanId)).Nodup

instance (s : Searcher) : Decidable (UniqueIds s) :=
  inferInstanceAs (Decidable (s.content.map (·.2.chanId)).Nodup)

/-- The names inserted in a run, in order. -/
def insertions (tr : List (Event × Output)) : List Bytes :=
  tr.flatMap fun x =>
    match x with
    | (.addPV _ pvname, .added true) => [pvname]
    | _ => []

/-- How many insertions came after the last one of a name. -/
def later (pvname : Bytes) (names : List Bytes) : ℕ := names.reverse.idxOf pvname

theorem later_self (pvname : Bytes) (names : List Bytes) : later pvname (names ++ [pvname]) = 0 := by
  simp [later]

theorem later_other {pvname name : Bytes} (h : pvname ≠ name) (names : List Bytes) :
    later pvname (names ++ [name]) = later pvname names + 1 := by
  simp [later, List.idxOf_cons_ne _ (Ne.symm h)]

-- ---------------------------------------------------------------------------
-- One step
-- ---------------------------------------------------------------------------

/-- Ids are unique in the bins if they are among the searches. -/
theorem uniqueIds_eq (s : Searcher) : UniqueIds s ↔ (s.searches.map Prod.fst).Nodup := by
  unfold UniqueIds searches
  rw [Multiset.map_map]
  rfl

/-- A step that inserts no name keeps the ids distinct; one that does keeps
them so exactly when no PV has the counter's value. -/
theorem uniqueIds_step (h : Inv s) {e : Event} {o : Output} (hStep : s.step e = some (s', o))
    (hIds : UniqueIds s) :
    (o ≠ .added true → UniqueIds s') ∧
      (o = .added true → (UniqueIds s' ↔ ∀ r ∈ s.searches, r.1 ≠ s.chanId)) := by
  rw [uniqueIds_eq] at hIds
  rcases step_searches h hStep with ⟨now, pvname, -, rfl, -, -, hNext⟩ |
    ⟨now, pvname, -, rfl, -, hNext⟩ | ⟨-, hOther, -, hNext⟩
  · refine ⟨fun hOther => absurd rfl hOther, fun _ => ?_⟩
    rw [uniqueIds_eq, hNext, Multiset.map_cons, Multiset.nodup_cons]
    constructor
    · rintro ⟨hFresh, -⟩ r hr hEq
      exact hFresh (Multiset.mem_map.mpr ⟨r, hr, hEq⟩)
    · intro hFresh
      refine ⟨fun hMem => ?_, hIds⟩
      obtain ⟨r, hr, hEq⟩ := Multiset.mem_map.mp hMem
      exact hFresh r hr hEq
  · refine ⟨fun _ => ?_, by simp⟩
    have hSame : (s.searches.map (retouch now pvname)).map Prod.fst = s.searches.map Prod.fst := by
      have hPairs := congrArg (Multiset.map Prod.fst) (map_retouch now pvname s.searches)
      simpa only [Multiset.map_map, Function.comp_def] using hPairs
    rw [uniqueIds_eq, hNext, hSame]
    exact hIds
  · refine ⟨fun _ => ?_, fun hAdded => absurd hAdded hOther⟩
    rw [uniqueIds_eq]
    exact Multiset.nodup_of_le (Multiset.map_le_map hNext) hIds

-- ---------------------------------------------------------------------------
-- Whole runs
-- ---------------------------------------------------------------------------

theorem insertions_added (tr : List (Event × Output)) (now : Int) (pvname : Bytes) :
    insertions (tr ++ [(.addPV now pvname, .added true)]) = insertions tr ++ [pvname] := by
  simp [insertions]

theorem insertions_other (tr : List (Event × Output)) {e : Event} {o : Output}
    (h : o ≠ .added true) : insertions (tr ++ [(e, o)]) = insertions tr := by
  unfold insertions
  rw [List.flatMap_append, List.flatMap_singleton]
  split
  · next hEq =>
    rw [Prod.mk.injEq] at hEq
    exact absurd hEq.2 h
  · exact List.append_nil _

/-- An insertion takes a step. -/
theorem insertions_le (tr : List (Event × Output)) : (insertions tr).length ≤ tr.length := by
  induction tr with
  | nil => exact le_rfl
  | cons x tr ih =>
    unfold insertions at *
    rw [List.flatMap_cons, List.length_append, List.length_cons]
    split <;> simp only [List.length_cons, List.length_nil] <;> omega

/-- Every PV got its id when the counter stood where it stood then. -/
structure Numbered (tr : List (Event × Output)) (s : Searcher) : Prop where
  inv : Inv s
  ids : ∀ r ∈ s.searches, s.chanId = r.1 + UInt32.ofNat (later r.2.1 (insertions tr) + 1)

/-- The next insertion gets the next number. -/
theorem numbered_step (h : Numbered tr s) {e : Event} {o : Output}
    (hStep : s.step e = some (s', o)) : Numbered (tr ++ [(e, o)]) s' := by
  refine ⟨inv_step h.inv hStep, fun r hr => ?_⟩
  rcases step_searches h.inv hStep with ⟨now, pvname, rfl, rfl, hCounter, hFresh, hNext⟩ |
    ⟨now, pvname, -, rfl, hCounter, hNext⟩ | ⟨-, hOther, hCounter, hNext⟩
  · rw [insertions_added, hCounter]
    rw [hNext] at hr
    rcases Multiset.mem_cons.mp hr with rfl | hr
    · rw [later_self]
      rfl
    · -- one more insertion lies behind the older PVs
      have hName : r.2.1 ≠ pvname := fun hEq => hFresh (searched_iff.mpr ⟨r, hr, hEq⟩)
      rw [later_other hName, h.ids r hr, UInt32.add_assoc]
      congr 1
      exact (UInt32.ofNat_add _ 1).symm
  · rw [insertions_other tr (by simp), hCounter]
    rw [hNext] at hr
    obtain ⟨r', hr', rfl⟩ := Multiset.mem_map.mp hr
    unfold retouch
    split <;> exact h.ids r' hr'
  · rw [insertions_other tr hOther, hCounter]
    exact h.ids r (Multiset.mem_of_le hNext hr)

/-- In every state of a run the counter is ahead of each PV's id by the
insertions since that PV's own. -/
theorem numbered_run {searchIntervals : List UInt32} (hInit : Init searchIntervals s₀)
    (hRun : Runs.Run step s₀ tr s) : Numbered tr s := by
  refine hRun.history (fun _ _ _ _ _ h hStep => numbered_step h hStep) ⟨inv_of_init hInit, ?_⟩
  rw [searches, content_of_init hInit]
  simp

/-- The counter meets a PV's id after a multiple of 2^32 insertions. -/
theorem Numbered.id_eq_iff (h : Numbered tr s) {r : UInt32 × Bytes × Int} (hr : r ∈ s.searches) :
    r.1 = s.chanId ↔ 2 ^ 32 ∣ later r.2.1 (insertions tr) + 1 := by
  rw [h.ids r hr, Nat.dvd_iff_mod_eq_zero, ← UInt32.toNat_ofNat' (n := later _ _ + 1)]
  constructor
  · intro hEq
    have hZero : UInt32.ofNat (later r.2.1 (insertions tr) + 1) = 0 := by
      simpa using hEq
    rw [hZero]
    rfl
  · intro hZero
    rw [UInt32.toNat_inj.mp (hZero.trans UInt32.toNat_zero.symm)]
    simp

/-- **The ids stay distinct all through a run, exactly when** no name is
inserted while a PV is searched for that was inserted a multiple of 2^32
insertions before. -/
theorem uniqueIds_iff {searchIntervals : List UInt32} (hInit : Init searchIntervals s₀)
    (hRun : Runs.Run step s₀ tr s) :
    (∀ pre post s₁, tr = pre ++ post → Runs.Run step s₀ pre s₁ → UniqueIds s₁) ↔
      ∀ pre e post s₁, tr = pre ++ (e, .added true) :: post → Runs.Run step s₀ pre s₁ →
        ∀ q ∈ s₁.content, ¬ 2 ^ 32 ∣ later q.2.pvname (insertions pre) + 1 := by
  constructor
  · intro hUnique pre e post s₁ hEq hPre q hq hWrap
    -- the state behind the insertion
    obtain ⟨s₁', hPre', hRest⟩ := Run.split (hEq ▸ hRun)
    obtain rfl := hPre.unique hPre'
    obtain ⟨s₂, hStep, -⟩ := Runs.run_cons_iff.mp hRest
    have hNumbered := numbered_run hInit hPre
    have hBefore := hUnique pre _ s₁ hEq hPre
    have hAfter := hUnique (pre ++ [(e, .added true)]) post s₂ (by simpa using hEq)
      (hPre.append (Run.single hStep))
    have hFresh := ((uniqueIds_step hNumbered.inv hStep hBefore).2 rfl).mp hAfter
    have hMem : search q.2 ∈ s₁.searches := Multiset.mem_map_of_mem _ hq
    exact hFresh _ hMem ((hNumbered.id_eq_iff hMem).mpr hWrap)
  · intro hNoWrap pre
    induction pre using List.reverseRecOn with
    | nil =>
      intro post s₁ _ hPre
      cases hPre
      rw [UniqueIds, content_of_init hInit]
      exact Multiset.nodup_zero
    | append_singleton pre x ih =>
      intro post s₁ hEq hPre
      obtain ⟨e, o⟩ := x
      obtain ⟨s', hPre', hLast⟩ := hPre.split
      obtain ⟨s₁', hStep, hNil⟩ := Runs.run_cons_iff.mp hLast
      cases hNil
      rw [List.append_assoc, List.singleton_append] at hEq
      have hNumbered := numbered_run hInit hPre'
      have hBefore := ih _ s' hEq hPre'
      have hNext := uniqueIds_step hNumbered.inv hStep hBefore
      by_cases hAdded : o = .added true
      · -- the new PV's id is none of the others'
        refine (hNext.2 hAdded).mpr fun r hr => ?_
        obtain ⟨q, hq, rfl⟩ := Multiset.mem_map.mp hr
        subst hAdded
        rw [Ne, hNumbered.id_eq_iff hr]
        exact hNoWrap pre e post s' hEq hPre' q hq
      · exact hNext.1 hAdded

/-- Two names in a row: the ids stay distinct. -/
theorem uniqueIds_twoNames : ∃ tr s, Runs.Run step tenBins tr s ∧ s.content.card = 2 ∧
    ∀ pre post s₁, tr = pre ++ post → Runs.Run step tenBins pre s₁ → UniqueIds s₁ := by
  have hExec : Runs.exec step tenBins [.addPV 0 [chr 'A'], .addPV 0 [chr 'B']] =
      some ([(.addPV 0 [chr 'A'], .added true), (.addPV 0 [chr 'B'], .added true)],
        { tenBins with
          chanId := 2
          searchedPvs := tenBins.searchedPvs.set 0
            [⟨1, [chr 'B'], 0, [1, 2, 10]⟩, ⟨0, [chr 'A'], 0, [1, 2, 10]⟩] }) := rfl
  have hRun := Runs.run_of_exec _ hExec
  refine ⟨_, _, hRun, by decide, (uniqueIds_iff init_tenBins hRun).mpr ?_⟩
  intro pre e post s₁ hEq _ q _
  -- far fewer than 2^32 insertions
  have hShort := congrArg List.length hEq
  have hLater : later q.2.pvname (insertions pre) ≤ (insertions pre).length :=
    le_of_le_of_eq List.idxOf_le_length (List.length_reverse ..)
  have hLe := insertions_le pre
  rw [List.length_append, List.length_cons] at hShort
  simp only [List.length_cons, List.length_nil] at hShort
  exact Nat.not_dvd_of_pos_of_lt (Nat.succ_pos _) (by omega)

-- ---------------------------------------------------------------------------
-- Around the wrap
-- ---------------------------------------------------------------------------

/-- A PV that was there from the start, when the counter is at `chanId`. -/
def outliving (chanId : UInt32) : Searcher :=
  { tenBins with
    chanId := chanId
    searchedPvs := tenBins.searchedPvs.set 0 [⟨0, [chr 'A'], 0, [1, 2, 10]⟩] }

/-- Another PV comes and goes: the counter is one further. -/
theorem comeAndGo (chanId : UInt32) :
    (Runs.exec step (outliving chanId) [.addPV 0 [chr 'B'], .removePV [chr 'B']]).map Prod.snd =
      some (outliving (chanId + 1)) := rfl

/-- Any number of names may come and go while one stays. -/
theorem reachable_outliving (n : ℕ) : Reachable [1] (outliving (UInt32.ofNat (n + 1))) := by
  induction n with
  | zero =>
    have hAdd : (Runs.exec step tenBins [.addPV 0 [chr 'A']]).map Prod.snd =
        some (outliving (UInt32.ofNat 1)) := rfl
    exact tenBins_reachable.exec _ hAdd
  | succ n ih =>
    rw [UInt32.ofNat_add (n + 1) 1]
    exact ih.exec _ (comeAndGo _)

/-- After 2^32 - 1 more insertions the next name gets the id of the first. -/
theorem duplicate_afterWrap : ∃ s, Reachable [1] s ∧ ¬ UniqueIds s := by
  have hZero : UInt32.ofNat (2 ^ 32 - 1 + 1) = 0 := by decide
  have hWrapped : Reachable [1] (outliving 0) := hZero ▸ reachable_outliving (2 ^ 32 - 1)
  refine ⟨{ outliving 0 with
    chanId := 1
    searchedPvs := tenBins.searchedPvs.set 0
      [⟨0, [chr 'C'], 0, [1, 2, 10]⟩, ⟨0, [chr 'A'], 0, [1, 2, 10]⟩] }, ?_, ?_⟩
  · exact hWrapped.exec [.addPV 0 [chr 'C']] rfl
  · decide

end Searcher

end PVmapper
