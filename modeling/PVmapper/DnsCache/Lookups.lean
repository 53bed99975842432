import PVmapper.Config.Numbers
import PVmapper.Dispatcher.Steps
import PVmapper.Lib.Expiring
import PVmapper.Lib.Simulation
import PVmapper.Model.DnsCache

/-!
# PVmapper — how often the system is asked for a host

`DnsCache::resolveIP` is a cache of entries that expire: what it returns is
what the system answered for the same IP, now or before, and no longer ago than
that answer is valid. The system is asked about an IP again only when its last
answer has expired; as that takes 600 s at least, the main loop waits for it at
most once in 600 s for each IP.

* `step_expiring`       — it is such a cache.
* `resolved_within_ttl` — what is returned.
* `lookups_apart`       — how far apart the system is asked about an IP.
* `reverseIp_injective` — it is asked about the IP that is meant.
-/

namespace PVmapper

namespace DnsCache

open Config (bytes)
open Runs (Run)

variable {cache cache' : Map Bytes DnsEntry} {call : Call} {ret : Returned}
  {tr : List (Call × Returned)}

-- ---------------------------------------------------------------------------
-- The cache
-- ---------------------------------------------------------------------------

/-- The entry the system's answer makes. -/
def Call.answer (call : Call) : DnsEntry where
  host := if getHost call.resolver call.ip = [] then call.ip else getHost call.resolver call.ip
  expires := call.now + (getTtl call.resolver call.ip).toNat * 1000000000

/-- The call as a request to a cache whose entries expire. -/
def Call.request (call : Call) : Expiring.Request Bytes DnsEntry Int where
  key := call.ip
  now := call.now
  fresh := call.answer

/-- What the call returns of the cache's answer. -/
def returned (a : Expiring.Answer DnsEntry) : Returned := ⟨a.entry.host, a.asked⟩

theorem insert_erase (cache : Map Bytes DnsEntry) (ip : Bytes) (entry : DnsEntry) :
    (cache.erase ip).insert ip entry = cache.insert ip entry := by
  have hGone : ip ∉ cache.erase ip := by simp
  apply AList.ext
  rw [AList.entries_insert_of_notMem hGone, AList.entries_insert]
  rfl

/-- `resolveIP` is a cache whose entries expire. -/
theorem step_expiring (cache : Map Bytes DnsEntry) (call : Call) :
    step cache call =
      (Expiring.step DnsEntry.expires cache call.request).map fun r => (r.1, returned r.2) := by
  unfold step resolveIP Expiring.step Expiring.valid
  cases hLookup : cache.lookup call.ip with
  | none =>
    simp only [Call.request, hLookup, Option.filter_none, Option.map_some]
    rfl
  | some entry =>
    by_cases hTime : call.now ≤ entry.expires
    · simp only [Call.request, hLookup, Option.filter_some, hTime, decide_true, if_true,
        Option.map_some]
      rfl
    · simp only [Call.request, hLookup, Option.filter_some, hTime, decide_false, if_false,
        Bool.false_eq_true, Option.map_some, refresh, insert_erase]
      rfl

/-- **What is returned is not out of date.** In every run from an empty cache,
a call returns what the system answers now, or what it answered in an earlier
call for the same IP, no longer ago than the TTL of that answer. -/
theorem resolved_within_ttl (hRun : Run step (∅ : Map Bytes DnsEntry) tr cache)
    (hStep : step cache call = some (cache', ret)) :
    ret = ⟨call.answer.host, true⟩ ∨
      ret.asked = false ∧ ∃ earlier, (earlier, ⟨ret.host, true⟩) ∈ tr ∧ earlier.ip = call.ip ∧
        ret.host = earlier.answer.host ∧
        call.now ≤ earlier.now + (getTtl earlier.resolver earlier.ip).toNat * 1000000000 := by
  obtain ⟨ftr, hRun', hAll⟩ := hRun.rename step_expiring
  rw [step_expiring] at hStep
  obtain ⟨⟨cache₁, a⟩, hStep', hEq⟩ := Option.map_eq_some_iff.mp hStep
  obtain ⟨-, rfl⟩ := Prod.mk.inj hEq
  rcases Expiring.answered_from hRun' hStep' with rfl | ⟨hAsked, ⟨r, hMem, hKey, hFresh⟩, hTime⟩
  · exact Or.inl rfl
  · -- the request that asked for it is an earlier call
    obtain ⟨⟨earlier, ret'⟩, hMem', hRequest, hReturned⟩ :=
      Dispatcher.exists_of_mem_forall₂ hAll hMem
    dsimp only at hRequest hReturned
    subst hRequest hReturned
    refine Or.inr ⟨hAsked, earlier, hMem', hKey, ?_, ?_⟩
    · exact congrArg DnsEntry.host hFresh.symm
    · rw [← hFresh] at hTime
      exact hTime

/-- A system that knows every address by one name, for `ttl` seconds. -/
def oneHost (ttl : UInt32) : Resolver where
  getnameinfo _ := some (bytes "ioc7")
  query _ := some [none, some ⟨1, 30⟩, some ⟨nsTPtr, ttl⟩]

/-- A lookup after so many seconds. -/
def lookupAt (seconds : Int) (ttl : UInt32) : Call where
  ip := bytes "10.0.0.7"
  now := seconds * 1000000000
  resolver := oneHost ttl

/-- A TTL of a minute keeps the host for ten. -/
theorem resolved_within_tenMinutes :
    ∃ cache cache', Run step (∅ : Map Bytes DnsEntry)
        [(lookupAt 0 60, ⟨bytes "ioc7", true⟩)] cache ∧
      step cache (lookupAt 600 60) = some (cache', ⟨bytes "ioc7", false⟩) ∧
      (600000000000 : Int) ≤ (getTtl (oneHost 60) (bytes "10.0.0.7")).toNat * 1000000000 := by
  have hExec : (Runs.exec step (∅ : Map Bytes DnsEntry) [lookupAt 0 60]).map
      (fun r => (r.1.map Prod.snd, (step r.2 (lookupAt 600 60)).map Prod.snd)) =
        some ([⟨bytes "ioc7", true⟩], some ⟨bytes "ioc7", false⟩) := by
    decide +kernel
  obtain ⟨cache, hRun, hNext⟩ := Runs.exists_run_of_view
    (fun cache => (step cache (lookupAt 600 60)).map Prod.snd) _ hExec
  obtain ⟨⟨cache', ret⟩, hStep, rfl⟩ := Option.map_eq_some_iff.mp hNext
  refine ⟨cache, cache', hRun, hStep, ?_⟩
  rcases resolved_within_ttl hRun hStep with hAsked | ⟨-, earlier, hMem, -, -, hTime⟩
  · exact absurd (congrArg Returned.asked hAsked) (by decide)
  · obtain ⟨rfl, -⟩ := Prod.mk.inj (List.mem_singleton.mp hMem)
    simpa [lookupAt] using hTime

-- ---------------------------------------------------------------------------
-- How often the system is asked
-- ---------------------------------------------------------------------------

theorem le_ptrTtl {ttl : UInt32} (h : 600 ≤ ttl.toNat) (records : List (Option ResourceRecord)) :
    600 ≤ (ptrTtl ttl records).toNat := by
  induction records with
  | nil => exact h
  | cons record records ih =>
    cases record with
    | none => exact ih
    | some rr =>
      unfold ptrTtl
      split
      · split
        · exact le_rfl
        · next hLong => exact not_lt.mp fun hShort => hLong (UInt32.lt_iff_toNat_lt.mpr hShort)
      · exact ih

/-- Every answer is valid for 600 s at least. -/
theorem le_getTtl (resolver : Resolver) (ip : Bytes) : 600 ≤ (getTtl resolver ip).toNat := by
  have hDefault : 600 ≤ (86400 : UInt32).toNat := by decide
  unfold getTtl
  split
  · exact hDefault
  · exact le_ptrTtl hDefault _

theorem pairwise_of_forall₂ {α β : Type*} {R : α → β → Prop} {S : β → β → Prop} {T : α → α → Prop}
    (hImp : ∀ x x' y y', R x x' → R y y' → S x' y' → T x y) {l : List α} {l' : List β}
    (hAll : List.Forall₂ R l l') (h : l'.Pairwise S) : l.Pairwise T := by
  induction hAll with
  | nil => exact List.Pairwise.nil
  | cons hHead hTail ih =>
    obtain ⟨hFirst, hRest⟩ := List.pairwise_cons.mp h
    refine List.Pairwise.cons ?_ (ih hRest)
    intro y hy
    obtain ⟨y', hy', hR⟩ := Dispatcher.exists_of_mem_forall₂ hTail.flip hy
    exact hImp _ _ _ _ hHead hR (hFirst y' hy')

/-- **The system is asked at most once in 600 s for each IP.** In every run, any
two lookups of one IP that ask it are more than 600 s apart, whatever IPs are
resolved in between and whatever the system answers. -/
theorem lookups_apart (hRun : Run step cache tr cache') :
    tr.Pairwise fun x y => x.1.ip = y.1.ip → x.2.asked = true → y.2.asked = true →
      x.1.now + 600000000000 < y.1.now := by
  have hLasts (call : Call) : call.now + 600000000000 ≤ call.answer.expires := by
    have hTtl := le_getTtl call.resolver call.ip
    simp only [Call.answer]
    omega
  obtain ⟨ftr, hRun', hAll⟩ := hRun.rename step_expiring
  have hApart := Expiring.asked_apart hRun' fun x hx => by
    obtain ⟨y, -, hRequest, -⟩ := Dispatcher.exists_of_mem_forall₂ hAll hx
    rw [hRequest]
    have hNow : y.1.now + 600000000000 ≤ y.1.answer.expires := hLasts y.1
    show y.1.now ≤ y.1.answer.expires
    omega
  refine pairwise_of_forall₂ ?_ hAll hApart
  rintro x x' y y' ⟨hx, hx'⟩ ⟨hy, hy'⟩ hBetween hIp hAsked hAsked'
  rw [hx, hy] at hBetween
  rw [hx'] at hAsked
  rw [hy'] at hAsked'
  exact (hLasts x.1).trans_lt (hBetween hIp hAsked hAsked')

/-- Of four lookups in 20 minutes, the first and the third ask the system. -/
theorem lookups_twentyMinutes :
    ∃ cache, Run step (∅ : Map Bytes DnsEntry)
        [(lookupAt 0 60, ⟨bytes "ioc7", true⟩), (lookupAt 300 0, ⟨bytes "ioc7", false⟩),
          (lookupAt 601 60, ⟨bytes "ioc7", true⟩), (lookupAt 1200 0, ⟨bytes "ioc7", false⟩)] cache ∧
      (lookupAt 0 60).now + 600000000000 < (lookupAt 601 60).now := by
  have hExec : (Runs.exec step (∅ : Map Bytes DnsEntry)
      [lookupAt 0 60, lookupAt 300 0, lookupAt 601 60, lookupAt 1200 0]).map
        (fun r => r.1.map Prod.snd) =
      some [⟨bytes "ioc7", true⟩, ⟨bytes "ioc7", false⟩, ⟨bytes "ioc7", true⟩,
        ⟨bytes "ioc7", false⟩] := by
    decide +kernel
  obtain ⟨cache, hRun⟩ := Runs.exists_run_of_outputs _ hExec
  refine ⟨cache, hRun, ?_⟩
  obtain ⟨hFirst, -⟩ := List.pairwise_cons.mp (lookups_apart hRun)
  have hThird : (lookupAt 601 60, (⟨bytes "ioc7", true⟩ : Returned)) ∈
      [(lookupAt 300 0, ⟨bytes "ioc7", false⟩), (lookupAt 601 60, ⟨bytes "ioc7", true⟩),
        (lookupAt 1200 0, ⟨bytes "ioc7", false⟩)] :=
    List.mem_cons_of_mem _ List.mem_cons_self
  exact hFirst _ hThird rfl rfl rfl

-- ---------------------------------------------------------------------------
-- What it is asked
-- ---------------------------------------------------------------------------

theorem flatten_append_intercalate (x : UInt8) (tokens : List Bytes) {rest : List Bytes}
    (hRest : rest ≠ []) :
    (tokens.map (· ++ [x])).flatten ++ [x].intercalate rest = [x].intercalate (tokens ++ rest) := by
  induction tokens with
  | nil => rfl
  | cons token tokens ih =>
    rw [List.cons_append, List.intercalate_cons_of_ne_nil (by simp [hRest]), ← ih]
    simp

/-- The labels of the name that is asked for are those of the IP, backwards. -/
theorem splitOn_reverseIp (ip : Bytes) :
    (reverseIp ip).splitOn (chr '.') =
      (ip.splitOn (chr '.')).reverse ++ [bytes "in-addr", bytes "arpa"] := by
  have hDomain : bytes "in-addr.arpa" = [chr '.'].intercalate [bytes "in-addr", bytes "arpa"] := by
    decide +kernel
  have hLabels : ∀ label ∈ [bytes "in-addr", bytes "arpa"], chr '.' ∉ label := by decide +kernel
  unfold reverseIp
  dsimp only
  rw [hDomain, flatten_append_intercalate _ _ (by simp), List.splitOn_intercalate _ _ (by simp)]
  intro label hLabel
  rcases List.mem_append.mp hLabel with hToken | hLabel
  · exact fun hDot => (Config.of_mem_splitOn (List.mem_reverse.mp hToken) _ hDot).2 rfl
  · exact hLabels label hLabel

/-- **Different IPs are asked for under different names.** -/
theorem reverseIp_injective : Function.Injective reverseIp := by
  intro ip ip' hEq
  have hLabels := congrArg (List.splitOn (chr '.')) hEq
  rw [splitOn_reverseIp, splitOn_reverseIp, List.append_cancel_right_eq,
    List.reverse_inj] at hLabels
  calc ip = [chr '.'].intercalate (ip.splitOn (chr '.')) := (List.intercalate_splitOn _).symm
    _ = [chr '.'].intercalate (ip'.splitOn (chr '.')) := by rw [hLabels]
    _ = ip' := List.intercalate_splitOn _

end DnsCache

end PVmapper
