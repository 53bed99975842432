import PVmapper.Lib.Simulation

/-!
# A name server

What PVmapper is for, without how it does it. Clients ask for names, sources
answer for them, and sources get lost. A name is idle, searched for, or
resolved: a source that is not lost has answered for it. Whoever asks for a
name gets the answer if it is resolved, and starts the search for it if not.
An answer is taken for a name that is searched for only, and is forgotten
with its source. A search may be given up.

`Served` says what this amounts to for those who only see what is asked,
answered and lost: a reply is a function of that.

* `tracks_step`, `tracks_run` — what is shown decides the status of a name.
* `served_run`                — every run serves its clients.
-/

namespace NameServer

open Runs (Run observed)

variable {ν ι α : Type*}

/-- The status of a name. -/
inductive Status (ι α : Type*)
  | idle
  | searching
  | resolved (source : ι) (answer : α)

/-- The source and the answer, if there are any. -/
def Status.entry : Status ι α → Option (ι × α)
  | .resolved source answer => some (source, answer)
  | _ => none

@[simp] theorem Status.entry_idle : (Status.idle : Status ι α).entry = none := rfl

@[simp] theorem Status.entry_searching : (Status.searching : Status ι α).entry = none := rfl

@[simp] theorem Status.entry_resolved (source : ι) (answer : α) :
    (Status.resolved source answer).entry = some (source, answer) := rfl

/-- The status of every name, and the sources that are lost. -/
structure State (ν ι α : Type*) where
  status : ν → Status ι α
  lost : Set ι

/-- What can happen. -/
inductive Event (ν ι α : Type*)
  | ask (name : ν)
  | resolve (name : ν) (source : ι) (answer : α)
  | lose (source : ι)
  | giveUp (names : Set ν)

/-- What is shown of it. -/
inductive Shown (ν ι α : Type*)
  | asked (name : ν) (reply : α)
  | resolved (name : ν) (source : ι) (answer : α)
  | lost (source : ι)

open Classical in
/-- A name gets another status. -/
noncomputable def State.set (s : State ν ι α) (name : ν) (status : Status ι α) : State ν ι α :=
  { s with status := Function.update s.status name status }

theorem State.status_set_self (s : State ν ι α) (name : ν) (status : Status ι α) :
    (s.set name status).status name = status := by
  classical exact Function.update_self name status s.status

theorem State.status_set_ne (s : State ν ι α) {name n : ν} (status : Status ι α) (h : n ≠ name) :
    (s.set name status).status n = s.status n := by
  classical exact Function.update_of_ne h status s.status

@[simp] theorem State.lost_set (s : State ν ι α) (name : ν) (status : Status ι α) :
    (s.set name status).lost = s.lost := rfl

open Classical in
/-- The names resolved by a source become idle. -/
noncomputable def Status.without (source : ι) : Status ι α → Status ι α
  | .resolved s answer => if s = source then .idle else .resolved s answer
  | status => status

open Classical in
/-- `silence` is the reply to who asks for a name that is not resolved. -/
noncomputable def step (silence : α) (s : State ν ι α) :
    Event ν ι α → Option (State ν ι α × List (Shown ν ι α))
  | .ask name =>
    match s.status name with
    | .resolved _ answer => some (s, [.asked name answer])
    | _ => some (s.set name .searching, [.asked name silence])
  | .resolve name source answer =>
    if s.status name = .searching ∧ source ∉ s.lost then
      some (s.set name (.resolved source answer), [.resolved name source answer])
    else none
  | .lose source =>
    if source ∈ s.lost then none
    else some (⟨fun name => (s.status name).without source, insert source s.lost⟩, [.lost source])
  | .giveUp names =>
    some ({ s with
      status := fun name =>
        if name ∈ names ∧ s.status name = .searching then .idle else s.status name }, [])

/-- Nothing is asked for, and nothing is lost. -/
def start : State ν ι α := ⟨fun _ => .idle, ∅⟩

-- ---------------------------------------------------------------------------
-- What is known by what was shown
-- ---------------------------------------------------------------------------

open Classical in
/-- What is known of a name, and what comes next. -/
noncomputable def learn (name : ν) (k : Option (ι × α)) : Shown ν ι α → Option (ι × α)
  | .asked _ _ => k
  | .resolved n source answer => if n = name then some (source, answer) else k
  | .lost source => k.filter fun entry => entry.1 ≠ source

/-- The last answer for a name, unless its source is lost. -/
noncomputable def known (name : ν) (l : List (Shown ν ι α)) : Option (ι × α) :=
  l.foldl (learn name) none

@[simp] theorem known_nil (name : ν) : known name ([] : List (Shown ν ι α)) = none := rfl

/-- What is shown last is learned last. -/
@[simp] theorem known_concat (name : ν) (l : List (Shown ν ι α)) (x : Shown ν ι α) :
    known name (l ++ [x]) = learn name (known name l) x := by
  unfold known
  rw [List.foldl_append, List.foldl_cons, List.foldl_nil]

/-- The name was asked for in vain, and no answer was taken for it since. -/
def Wanted (silence : α) (name : ν) (l : List (Shown ν ι α)) : Prop :=
  ∃ before after, l = before ++ .asked name silence :: after ∧
    ∀ source answer, .resolved name source answer ∉ after

/-- A name stays wanted until an answer for it is taken. -/
theorem Wanted.concat {silence : α} {name : ν} {l : List (Shown ν ι α)} (h : Wanted silence name l)
    {x : Shown ν ι α} (hx : ∀ source answer, x ≠ .resolved name source answer) :
    Wanted silence name (l ++ [x]) := by
  obtain ⟨before, after, rfl, hAfter⟩ := h
  refine ⟨before, after ++ [x], by simp, fun source answer hMem => ?_⟩
  rcases List.mem_append.mp hMem with hMem | hMem
  · exact hAfter source answer hMem
  · exact hx source answer (List.mem_singleton.mp hMem).symm

/-- What those see who see what is asked, answered and lost: a reply is the
answer known by then, or silence; an answer is taken for a wanted name only,
and from a source that is not lost; and a source is lost once. -/
structure Served (silence : α) (l : List (Shown ν ι α)) : Prop where
  reply : ∀ pre name reply post, l = pre ++ .asked name reply :: post →
    reply = ((known name pre).map Prod.snd).getD silence
  wanted : ∀ pre name source answer post, l = pre ++ .resolved name source answer :: post →
    known name pre = none ∧ .lost source ∉ pre ∧ Wanted silence name pre
  lost : ∀ pre source post, l = pre ++ .lost source :: post → .lost source ∉ pre

/-- Where nothing is shown, everyone is served. -/
theorem served_nil (silence : α) : Served silence ([] : List (Shown ν ι α)) where
  reply pre name reply post h := absurd h.symm (by simp)
  wanted pre name source answer post h := absurd h.symm (by simp)
  lost pre source post h := absurd h.symm (by simp)

/-- A split of `l ++ [x]` is one of `l`, or at its end. -/
theorem split_concat {l pre post : List (Shown ν ι α)} {x y : Shown ν ι α}
    (h : l ++ [x] = pre ++ y :: post) : (∃ post', l = pre ++ y :: post') ∨ l = pre ∧ x = y := by
  induction post using List.reverseRecOn with
  | nil => exact Or.inr (by simpa using List.append_inj' h rfl)
  | append_singleton post z _ =>
    refine Or.inl ⟨post, ?_⟩
    rw [← List.cons_append, ← List.append_assoc] at h
    exact (List.append_inj' h rfl).1

/-- Who was served stays served, if what is shown next is right. -/
theorem Served.concat {silence : α} {l : List (Shown ν ι α)} (h : Served silence l)
    {x : Shown ν ι α}
    (hReply : ∀ name reply, x = .asked name reply →
      reply = ((known name l).map Prod.snd).getD silence)
    (hWanted : ∀ name source answer, x = .resolved name source answer →
      known name l = none ∧ .lost source ∉ l ∧ Wanted silence name l)
    (hLost : ∀ source, x = .lost source → .lost source ∉ l) : Served silence (l ++ [x]) where
  reply pre name reply post hSplit := by
    rcases split_concat hSplit with ⟨post', hl⟩ | ⟨rfl, hx⟩
    · exact h.reply pre name reply post' hl
    · exact hReply name reply hx
  wanted pre name source answer post hSplit := by
    rcases split_concat hSplit with ⟨post', hl⟩ | ⟨rfl, hx⟩
    · exact h.wanted pre name source answer post' hl
    · exact hWanted name source answer hx
  lost pre source post hSplit := by
    rcases split_concat hSplit with ⟨post', hl⟩ | ⟨rfl, hx⟩
    · exact h.lost pre source post' hl
    · exact hLost source hx

-- ---------------------------------------------------------------------------
-- Runs
-- ---------------------------------------------------------------------------

variable {silence : α} {s s' : State ν ι α} {l : List (Shown ν ι α)}

/-- What was shown decides what is resolved and lost; what is searched for is
wanted. -/
structure Tracks (silence : α) (l : List (Shown ν ι α)) (s : State ν ι α) : Prop where
  entry : ∀ name, (s.status name).entry = known name l
  wanted : ∀ name, s.status name = .searching → Wanted silence name l
  lost : ∀ source, source ∈ s.lost ↔ .lost source ∈ l
  served : Served silence l

/-- At the start nothing is known, and every name is idle. -/
theorem tracks_start (silence : α) : Tracks silence [] (start : State ν ι α) where
  entry name := rfl
  wanted name h := absurd h (by simp [start])
  lost source := by simp [start]
  served := served_nil silence

/-- Whoever asks gets what is known, and starts a search if that is nothing. -/
theorem tracks_ask (h : Tracks silence l s) {name : ν} {shown : List (Shown ν ι α)}
    (hStep : step silence s (.ask name) = some (s', shown)) : Tracks silence (l ++ shown) s' := by
  have hEntry := h.entry name
  unfold step at hStep
  dsimp only at hStep
  split at hStep
  · next source answer hStatus =>
    obtain ⟨rfl, rfl⟩ := Prod.mk.inj (Option.some.inj hStep)
    rw [hStatus, Status.entry_resolved] at hEntry
    refine ⟨fun n => ?_, fun n hn => (h.wanted n hn).concat (by simp), by simp [h.lost],
      h.served.concat ?_ (by simp) (by simp)⟩
    · rw [known_concat]
      exact h.entry n
    · rintro n reply ⟨⟩
      rw [← hEntry]
      rfl
  · next hStatus =>
    obtain ⟨rfl, rfl⟩ := Prod.mk.inj (Option.some.inj hStep)
    have hNone : known name l = none := by
      rw [← hEntry]
      cases hHere : s.status name with
      | resolved source answer => exact absurd hHere (hStatus source answer)
      | _ => rfl
    refine ⟨fun n => ?_, fun n hn => ?_, by simp [h.lost], h.served.concat ?_ (by simp) (by simp)⟩
    · rw [known_concat]
      by_cases hName : n = name
      · subst hName
        rw [State.status_set_self]
        exact hNone.symm
      · rw [State.status_set_ne _ _ hName]
        exact h.entry n
    · by_cases hName : n = name
      · subst hName
        exact ⟨l, [], rfl, by simp⟩
      · rw [State.status_set_ne _ _ hName] at hn
        exact (h.wanted n hn).concat (by simp)
    · rintro n reply ⟨⟩
      rw [hNone]
      rfl

/-- An answer that is taken becomes what is known. -/
theorem tracks_resolve (h : Tracks silence l s) {name : ν} {source : ι} {answer : α}
    {shown : List (Shown ν ι α)}
    (hStep : step silence s (.resolve name source answer) = some (s', shown)) :
    Tracks silence (l ++ shown) s' := by
  obtain ⟨⟨hSearching, hAlive⟩, hEq⟩ := Option.ite_none_right_eq_some.mp hStep
  obtain ⟨rfl, rfl⟩ := Prod.mk.inj (Option.some.inj hEq)
  have hEntry := h.entry name
  rw [hSearching, Status.entry_searching] at hEntry
  refine ⟨fun n => ?_, fun n hn => ?_, by simp [h.lost], h.served.concat (by simp) ?_ (by simp)⟩
  · rw [known_concat]
    by_cases hName : n = name
    · subst hName
      rw [State.status_set_self, learn, if_pos rfl]
      rfl
    · rw [State.status_set_ne _ _ hName, learn, if_neg (Ne.symm hName)]
      exact h.entry n
  · by_cases hName : n = name
    · subst hName
      rw [State.status_set_self] at hn
      exact absurd hn (by simp)
    · rw [State.status_set_ne _ _ hName] at hn
      refine (h.wanted n hn).concat fun source' answer' hEq => hName ?_
      rw [Shown.resolved.injEq] at hEq
      exact hEq.1.symm
  · rintro n source' answer' ⟨⟩
    exact ⟨hEntry.symm, fun hMem => hAlive ((h.lost source).mpr hMem), h.wanted name hSearching⟩

open Classical in
/-- Without a source, a name has no entry of it. -/
theorem Status.entry_without (source : ι) (status : Status ι α) :
    (status.without source).entry = status.entry.filter fun entry => entry.1 ≠ source := by
  cases status with
  | resolved s answer =>
    rw [Status.entry_resolved, Option.filter_some, Status.without]
    by_cases hs : s = source
    · simp [hs]
    · simp [hs]
  | _ => rfl

/-- Losing a source neither starts nor ends a search. -/
theorem Status.without_eq_searching {source : ι} {status : Status ι α} :
    status.without source = .searching ↔ status = .searching := by
  cases status with
  | resolved s answer =>
    by_cases hs : s = source
    · simp [Status.without, hs]
    · simp [Status.without, hs]
  | _ => simp [Status.without]

/-- What is known from a lost source is forgotten on both sides. -/
theorem tracks_lose (h : Tracks silence l s) {source : ι} {shown : List (Shown ν ι α)}
    (hStep : step silence s (.lose source) = some (s', shown)) :
    Tracks silence (l ++ shown) s' := by
  obtain ⟨hAlive, hEq⟩ := Option.ite_none_left_eq_some.mp hStep
  obtain ⟨rfl, rfl⟩ := Prod.mk.inj (Option.some.inj hEq)
  refine ⟨fun n => ?_, fun n hn => ?_, fun source' => ?_, h.served.concat (by simp) (by simp) ?_⟩
  · rw [known_concat, Status.entry_without, h.entry n]
    rfl
  · exact (h.wanted n (Status.without_eq_searching.mp hn)).concat (by simp)
  · rw [Set.mem_insert_iff, h.lost source', List.mem_append, List.mem_singleton, Shown.lost.injEq,
      or_comm]
  · rintro source' ⟨⟩
    exact fun hMem => hAlive ((h.lost source).mpr hMem)

/-- Giving up shows nothing, and nothing was known of what was searched for. -/
theorem tracks_giveUp (h : Tracks silence l s) {names : Set ν} {shown : List (Shown ν ι α)}
    (hStep : step silence s (.giveUp names) = some (s', shown)) :
    Tracks silence (l ++ shown) s' := by
  obtain ⟨rfl, rfl⟩ := Prod.mk.inj (Option.some.inj hStep)
  rw [List.append_nil]
  refine ⟨fun n => ?_, fun n hn => ?_, h.lost, h.served⟩
  · rw [← h.entry n]
    dsimp only
    split
    · next hGivenUp => rw [hGivenUp.2, Status.entry_idle, Status.entry_searching]
    · rfl
  · dsimp only at hn
    split at hn
    · exact absurd hn (by simp)
    · exact h.wanted n hn

/-- What is shown by a step says what becomes of each name. -/
theorem tracks_step (h : Tracks silence l s) {e : Event ν ι α} {shown : List (Shown ν ι α)}
    (hStep : step silence s e = some (s', shown)) : Tracks silence (l ++ shown) s' := by
  cases e with
  | ask name => exact tracks_ask h hStep
  | resolve name source answer => exact tracks_resolve h hStep
  | lose source => exact tracks_lose h hStep
  | giveUp names => exact tracks_giveUp h hStep

/-- And so does what is shown by a run. -/
theorem tracks_run {tr : List (Event ν ι α × List (Shown ν ι α))}
    (hRun : Run (step silence) start tr s) : Tracks silence (observed Prod.snd tr) s := by
  refine hRun.history (I := fun tr s => Tracks silence (observed Prod.snd tr) s) ?_
    (tracks_start silence)
  intro pre s e s' shown h hStep
  rw [Runs.observed_append, Runs.observed_singleton]
  exact tracks_step h hStep

/-- **Every run of a name server serves its clients.** -/
theorem served_run {tr : List (Event ν ι α × List (Shown ν ι α))}
    (hRun : Run (step silence) start tr s) : Served silence (observed Prod.snd tr) :=
  (tracks_run hRun).served

end NameServer
