import PVmapper.Config.Intervals

/-!
# PVmapper — which lists of numbers are accepted

`parseListUnsigned` takes 0 as the sign of a token that is not a number: `num`
is 0, but the token is not `0`. `atol` gives 0 for an empty token, and for one
whose number is a multiple of 2^32 once the cast has cut it to 32 bits. It
gives 0 for `00` too, and something else for most of what is not a number
below 2^32.

* `tokenNumber_eq`      — what a token is read as.
* `parsesExactly_iff`   — exactly which values are parsed as lists of numbers.
* `not_parsesExactly`   — three that are not.
-/

namespace PVmapper

namespace Config

variable {t tok value : Bytes}

/-- A decimal digit. -/
def IsDigit (c : UInt8) : Prop := chr '0' ≤ c ∧ c ≤ chr '9'

instance (c : UInt8) : Decidable (IsDigit c) := by
  unfold IsDigit
  infer_instance

/-- The number a run of digits denotes. -/
def decimal (t : Bytes) : ℕ := Nat.ofDigits 10 (t.reverse.map fun c => c.toNat - 48)

/-- A token without the white space around it. -/
def stripped (tok : Bytes) : Bytes := (tok.dropWhile isSpace).rdropWhile isSpace

/-- The tokens between the commas of a value. -/
def strippedTokens (value : Bytes) : List Bytes := (value.splitOn (chr ',')).map stripped

/-- A token that denotes a number below 2^32. -/
def Number (t : Bytes) : Prop := t ≠ [] ∧ (∀ c ∈ t, IsDigit c) ∧ decimal t < 2 ^ 32

instance (t : Bytes) : Decidable (Number t) := by
  unfold Number
  infer_instance

/-- What `parseListUnsigned` is for: it returns a list exactly if every token
denotes a number below 2^32, and then these numbers. -/
structure ParsesExactly (value : Bytes) : Prop where
  accepted : parseListUnsigned value ≠ [] ↔ ∀ t ∈ strippedTokens value, Number t
  numbers : (∀ t ∈ strippedTokens value, Number t) →
    (parseListUnsigned value).map UInt32.toNat = (strippedTokens value).map decimal

-- ---------------------------------------------------------------------------
-- Tokens
-- ---------------------------------------------------------------------------

/-- What a token of digits and blanks is made of. -/
structure Token (t : Bytes) : Prop where
  chars : ∀ c ∈ t, IsDigit c ∨ c = chr ' '
  head : ∀ c cs, t = c :: cs → IsDigit c

/-- A token has the characters of the value, without the separator. -/
theorem of_mem_splitOn {sep : UInt8} (h : tok ∈ value.splitOn sep) :
    ∀ c ∈ tok, c ∈ value ∧ c ≠ sep := by
  induction value generalizing tok with
  | nil =>
    rw [List.splitOn_nil, List.mem_singleton] at h
    simp [h]
  | cons x value ih =>
    obtain ⟨first, rest, hSplit⟩ := List.exists_cons_of_ne_nil (List.splitOn_ne_nil sep value)
    rw [List.splitOn_cons_eq_if_modifyHead, hSplit] at h
    have hFirst := ih (hSplit ▸ List.mem_cons_self ..)
    have hRest : ∀ tok ∈ rest, ∀ c ∈ tok, c ∈ value ∧ c ≠ sep := fun tok hTok =>
      ih (hSplit ▸ List.mem_cons_of_mem _ hTok)
    intro c hc
    split at h
    · -- a separator starts a new token
      rcases List.mem_cons.mp h with rfl | h
      · exact absurd hc List.not_mem_nil
      · rcases List.mem_cons.mp h with rfl | h
        · exact ⟨List.mem_cons_of_mem _ (hFirst c hc).1, (hFirst c hc).2⟩
        · exact ⟨List.mem_cons_of_mem _ (hRest tok h c hc).1, (hRest tok h c hc).2⟩
    · next hx =>
      rw [List.modifyHead_cons] at h
      rcases List.mem_cons.mp h with rfl | h
      · rcases List.mem_cons.mp hc with rfl | hc
        · exact ⟨List.mem_cons_self .., by simpa using hx⟩
        · exact ⟨List.mem_cons_of_mem _ (hFirst c hc).1, (hFirst c hc).2⟩
      · exact ⟨List.mem_cons_of_mem _ (hRest tok h c hc).1, (hRest tok h c hc).2⟩

/-- Stripped of blanks at both ends, a run of digits and blanks starts and ends
with a digit. -/
theorem token_stripped (h : ∀ c ∈ tok, IsDigit c ∨ c = chr ' ') : Token (stripped tok) := by
  have hPrefix : stripped tok <+: tok.dropWhile isSpace := List.rdropWhile_prefix _ _
  have hChars : ∀ c ∈ stripped tok, IsDigit c ∨ c = chr ' ' := fun c hc =>
    h c ((List.dropWhile_sublist _).subset (hPrefix.subset hc))
  refine ⟨hChars, fun c cs hEq => ?_⟩
  -- what is left of the front starts with no white space
  obtain ⟨back, hBack⟩ := hPrefix
  rw [hEq] at hBack
  have hHead : isSpace c = false := by
    have := List.head?_dropWhile_not isSpace tok
    rw [← hBack] at this
    simpa using this
  rcases hChars c (hEq ▸ List.mem_cons_self ..) with hDigit | rfl
  · exact hDigit
  · exact absurd hHead (by decide)

/-- The pattern of the option lets only digits, commas and blanks through, so
every token is one. -/
theorem token_of_mem (hValue : ∀ c ∈ value, IsDigit c ∨ c = chr ',' ∨ c = chr ' ')
    (h : t ∈ strippedTokens value) : Token t := by
  obtain ⟨tok, hTok, rfl⟩ := List.mem_map.mp h
  refine token_stripped fun c hc => ?_
  obtain ⟨hMem, hne⟩ := of_mem_splitOn hTok c hc
  rcases hValue c hMem with hDigit | hComma | hBlank
  · exact Or.inl hDigit
  · exact absurd hComma hne
  · exact Or.inr hBlank

/-- `strip` strips every token that has something else than white space in it. -/
theorem strip_eq_stripped (h : ¬ tok.all isSpace) : strip tok = stripped tok := if_neg h

/-- Of a blank token nothing is left. -/
theorem stripped_of_blank (h : tok.all isSpace) : stripped tok = [] := by
  have hDrop : tok.dropWhile isSpace = [] := by
    rw [List.dropWhile_eq_nil_iff]
    exact List.all_eq_true.mp h
  rw [stripped, hDrop]
  rfl

/-- The empty token is rejected. -/
theorem rejected_nil : Rejected [] := ⟨by decide, by decide⟩

/-- The code leaves a token of white space as it is, but rejects it all the
same. -/
theorem rejected_strip_iff (tok : Bytes) : Rejected (strip tok) ↔ Rejected (stripped tok) := by
  by_cases hBlank : tok.all isSpace = true
  · have hStrip : strip tok = tok := if_pos hBlank
    have hDrop : tok.dropWhile isSpace = [] := by
      rw [List.dropWhile_eq_nil_iff]
      exact List.all_eq_true.mp hBlank
    have hNumber : tokenNumber tok = 0 := by
      rw [tokenNumber, atol, hDrop]
      rfl
    have hNotZero : tok ≠ [chr '0'] := by
      rintro rfl
      exact absurd hBlank (by decide)
    rw [hStrip, stripped_of_blank hBlank]
    exact ⟨fun _ => rejected_nil, fun _ => ⟨hNumber, hNotZero⟩⟩
  · rw [strip_eq_stripped hBlank]

theorem exists_rejected_iff (value : Bytes) :
    (∃ t ∈ tokens value, Rejected t) ↔ ∃ t ∈ strippedTokens value, Rejected t := by
  unfold tokens strippedTokens
  simp [rejected_strip_iff]

/-- One rejected token empties the list. -/
theorem parseListUnsigned_of_rejected (h : ∃ t ∈ strippedTokens value, Rejected t) :
    parseListUnsigned value = [] := by
  have hTokens := (exists_rejected_iff value).mpr h
  unfold parseListUnsigned
  rw [mapM_parseToken, if_pos (show ∃ t ∈ List.map strip _, Rejected t from hTokens)]

/-- Without a rejected token, the list has a number for every token. -/
theorem parseListUnsigned_of_accepted (h : ¬ ∃ t ∈ strippedTokens value, Rejected t) :
    parseListUnsigned value = (strippedTokens value).map tokenNumber := by
  have hTokens := mt (exists_rejected_iff value).mp h
  unfold parseListUnsigned
  rw [mapM_parseToken, if_neg (show ¬ ∃ t ∈ List.map strip _, Rejected t from hTokens)]
  dsimp only
  rw [strippedTokens, List.map_map, List.map_map]
  refine List.map_congr_left fun tok hTok => ?_
  -- a blank token would have been rejected
  have hBlank : ¬ tok.all isSpace := fun hBlank =>
    h ⟨stripped tok, List.mem_map_of_mem hTok, stripped_of_blank hBlank ▸ rejected_nil⟩
  rw [Function.comp_apply, Function.comp_apply, strip_eq_stripped hBlank]

-- ---------------------------------------------------------------------------
-- What a token is read as
-- ---------------------------------------------------------------------------

/-- The number is a multiple of 2^32 that a `long` can hold: the cast makes it
0. -/
def Vanishes (t : Bytes) : Prop := leadingDigits t < 2 ^ 63 ∧ 2 ^ 32 ∣ leadingDigits t

instance (t : Bytes) : Decidable (Vanishes t) := by
  unfold Vanishes
  infer_instance

/-- `atol` reads the digits up to the first blank. -/
theorem atol_eq (h : Token t) : atol t = min (2 ^ 63 - 1) (leadingDigits t : Int) := by
  unfold atol
  cases t with
  | nil => decide
  | cons c cs =>
    have hDigit := h.head c cs rfl
    have hSpace : isSpace c = false := by
      have hLow : 48 ≤ c.toNat := UInt8.le_iff_toNat_le.mp hDigit.1
      have hNotBlank : c ≠ 32 := by
        rintro rfl
        exact absurd hLow (by decide)
      have hNotBreak : ¬ c ≤ 13 := fun hLe => by
        have : c.toNat ≤ 13 := UInt8.le_iff_toNat_le.mp hLe
        omega
      simp [isSpace, hNotBlank, hNotBreak]
    rw [List.dropWhile_cons_of_neg (by simp [hSpace])]
    dsimp only
    rw [if_neg, if_neg]
    · rintro rfl
      exact absurd hDigit (by decide)
    · rintro rfl
      exact absurd hDigit (by decide)

/-- The cast keeps the lowest 32 bits of what `atol` reads. -/
theorem tokenNumber_eq (h : Token t) :
    (tokenNumber t).toNat = min (2 ^ 63 - 1) (leadingDigits t) % 2 ^ 32 := by
  have hLong : atol t = ((min (2 ^ 63 - 1) (leadingDigits t) : ℕ) : Int) := by
    rw [atol_eq h]
    omega
  unfold tokenNumber UInt32.ofInt
  rw [hLong, UInt32.toNat_ofNat']
  omega

/-- The cast leaves 0 exactly of what vanishes in it. -/
theorem tokenNumber_eq_zero_iff (h : Token t) : tokenNumber t = 0 ↔ Vanishes t := by
  rw [← UInt32.toNat_inj, tokenNumber_eq h]
  unfold Vanishes
  rw [show (0 : UInt32).toNat = 0 from rfl]
  omega

theorem takeWhile_digits (h : ∀ c ∈ t, IsDigit c) :
    (t.takeWhile fun c => chr '0' ≤ c && c ≤ chr '9') = t := by
  rw [List.takeWhile_eq_self_iff]
  intro c hc
  obtain ⟨hLow, hHigh⟩ := h c hc
  simp [hLow, hHigh]

/-- The leading digits of a run of digits are its number. -/
theorem leadingDigits_eq_decimal (h : ∀ c ∈ t, IsDigit c) : leadingDigits t = decimal t := by
  unfold leadingDigits decimal
  rw [takeWhile_digits h, Nat.ofDigits_eq_foldr, List.foldr_map, List.foldr_reverse]
  refine congrArg (fun f => List.foldl f 0 t) (funext fun n => funext fun c => ?_)
  simp only [Nat.cast_id]
  ring

-- ---------------------------------------------------------------------------
-- Kinds of tokens
-- ---------------------------------------------------------------------------

/-- No number, and refused: nothing at all, or what is read as a multiple of
2^32. -/
def Refused (t : Bytes) : Prop :=
  t = [] ∨ (chr ' ' ∈ t ∨ 2 ^ 32 ≤ leadingDigits t) ∧ Vanishes t

/-- No number below 2^32, because of a blank between digits or because it is too
large, but read as one. -/
def Slipped (t : Bytes) : Prop :=
  (chr ' ' ∈ t ∨ 2 ^ 32 ≤ leadingDigits t) ∧ ¬ Vanishes t

/-- Two zeros or more: a number, but refused. -/
def ZeroRun (t : Bytes) : Prop := 2 ≤ t.length ∧ ∀ c ∈ t, c = chr '0'

instance (t : Bytes) : Decidable (Refused t) := by
  unfold Refused
  infer_instance

instance (t : Bytes) : Decidable (Slipped t) := by
  unfold Slipped
  infer_instance

instance (t : Bytes) : Decidable (ZeroRun t) := by
  unfold ZeroRun
  infer_instance

/-- A token without a blank is a run of digits. -/
theorem Token.digits (h : Token t) (hBlank : chr ' ' ∉ t) : ∀ c ∈ t, IsDigit c := by
  intro c hc
  rcases h.chars c hc with hDigit | rfl
  · exact hDigit
  · exact absurd hc hBlank

/-- What is no number below 2^32 is either refused or slips through. -/
theorem not_number_iff (h : Token t) : ¬ Number t ↔ Refused t ∨ Slipped t := by
  have hMalformed : ¬ Number t ↔ t = [] ∨ chr ' ' ∈ t ∨ 2 ^ 32 ≤ leadingDigits t := by
    unfold Number
    by_cases hBlank : chr ' ' ∈ t
    · have hNot : ¬ ∀ c ∈ t, IsDigit c := fun hDigits => absurd (hDigits _ hBlank) (by decide)
      simp [hNot, hBlank]
    · have hDigits := h.digits hBlank
      rw [← leadingDigits_eq_decimal hDigits, iff_true_intro hDigits]
      simp [hBlank, imp_iff_not_or]
  rw [hMalformed]
  unfold Refused Slipped
  tauto

/-- Only zeros denote 0. -/
theorem zeros_iff (hDigits : ∀ c ∈ t, IsDigit c) :
    leadingDigits t = 0 ↔ ∀ c ∈ t, c = chr '0' := by
  rw [leadingDigits_eq_decimal hDigits]
  unfold decimal
  constructor
  · intro hZero c hc
    have hDigit := Nat.digits_zero_of_eq_zero (by decide) hZero (c.toNat - 48)
      (List.mem_map_of_mem (List.mem_reverse.mpr hc))
    have hLow : 48 ≤ c.toNat := UInt8.le_iff_toNat_le.mp (hDigits c hc).1
    rw [← UInt8.toNat_inj, show (chr '0').toNat = 48 from rfl]
    omega
  · intro hZeros
    have hMap : (t.reverse.map fun c => c.toNat - 48) = List.replicate t.length 0 := by
      rw [List.eq_replicate_iff]
      refine ⟨by simp, fun n hn => ?_⟩
      obtain ⟨c, hc, rfl⟩ := List.mem_map.mp hn
      rw [hZeros c (List.mem_reverse.mp hc)]
      rfl
    rw [hMap]
    exact Nat.ofDigits_replicate_zero ..

/-- Rejected are the tokens that are no number and read as 0, and runs of zeros. -/
theorem rejected_iff (h : Token t) : Rejected t ↔ Refused t ∨ ZeroRun t := by
  unfold Rejected
  rw [tokenNumber_eq_zero_iff h]
  constructor
  · rintro ⟨hVanishes, hNotZero⟩
    by_cases hBlank : chr ' ' ∈ t
    · exact Or.inl (Or.inr ⟨Or.inl hBlank, hVanishes⟩)
    · by_cases hLarge : 2 ^ 32 ≤ leadingDigits t
      · exact Or.inl (Or.inr ⟨Or.inr hLarge, hVanishes⟩)
      · -- a multiple of 2^32 below 2^32
        have hZero : leadingDigits t = 0 := by
          have := hVanishes.2
          omega
        have hZeros := (zeros_iff (h.digits hBlank)).mp hZero
        cases t with
        | nil => exact Or.inl (Or.inl rfl)
        | cons c cs =>
          refine Or.inr ⟨?_, hZeros⟩
          cases cs with
          | nil => exact absurd (by rw [hZeros c (List.mem_cons_self ..)]) hNotZero
          | cons c' cs => simp
  · rintro ((rfl | ⟨hMalformed, hVanishes⟩) | ⟨hLength, hZeros⟩)
    · exact ⟨by decide, by decide⟩
    · refine ⟨hVanishes, ?_⟩
      rintro rfl
      exact absurd hMalformed (by decide)
    · have hDigits : ∀ c ∈ t, IsDigit c := fun c hc => hZeros c hc ▸ by decide
      refine ⟨?_, ?_⟩
      · unfold Vanishes
        rw [(zeros_iff hDigits).mpr hZeros]
        decide
      · rintro rfl
        exact absurd hLength (by decide)

-- ---------------------------------------------------------------------------
-- Lists
-- ---------------------------------------------------------------------------

/-- A value is parsed exactly if a token is rejected whenever one is no number
below 2^32, and only then. -/
theorem parsesExactly_iff_rejected (hTokens : ∀ t ∈ strippedTokens value, Token t) :
    ParsesExactly value ↔
      ((∃ t ∈ strippedTokens value, Rejected t) ↔ ∃ t ∈ strippedTokens value, ¬ Number t) := by
  have hParse : parseListUnsigned value = [] ↔ ∃ t ∈ strippedTokens value, Rejected t := by
    constructor
    · intro hNil
      by_contra hAccepted
      rw [parseListUnsigned_of_accepted hAccepted] at hNil
      simp [strippedTokens] at hNil
    · exact parseListUnsigned_of_rejected
  have hAll : (∀ t ∈ strippedTokens value, Number t) ↔ ¬ ∃ t ∈ strippedTokens value, ¬ Number t := by
    simp
  constructor
  · intro h
    rw [← hParse, ← not_iff_not, ← hAll]
    exact h.accepted
  · intro h
    have hAccepted : parseListUnsigned value ≠ [] ↔ ∀ t ∈ strippedTokens value, Number t := by
      rw [hAll, ← h, ← hParse]
    refine ⟨hAccepted, fun hNumbers => ?_⟩
    rw [parseListUnsigned_of_accepted (mt hParse.mpr (hAccepted.mpr hNumbers)), List.map_map]
    refine List.map_congr_left fun t ht => ?_
    -- nothing saturates or wraps below 2^32
    obtain ⟨-, hDigits, hLt⟩ := hNumbers t ht
    rw [Function.comp_apply, tokenNumber_eq (hTokens t ht), leadingDigits_eq_decimal hDigits]
    omega

/-- **A list is parsed exactly, exactly when** a token is refused that is no
number, or tokens that slip through and runs of zeros both occur, or neither. -/
theorem parsesExactly_iff (hValue : ∀ c ∈ value, IsDigit c ∨ c = chr ',' ∨ c = chr ' ') :
    ParsesExactly value ↔
      (∃ t ∈ strippedTokens value, Refused t) ∨
        ((∃ t ∈ strippedTokens value, Slipped t) ↔ ∃ t ∈ strippedTokens value, ZeroRun t) := by
  have hTokens : ∀ t ∈ strippedTokens value, Token t := fun t ht => token_of_mem hValue ht
  have hRejected : (∃ t ∈ strippedTokens value, Rejected t) ↔
      (∃ t ∈ strippedTokens value, Refused t) ∨ ∃ t ∈ strippedTokens value, ZeroRun t := by
    rw [← exists_or]
    refine exists_congr fun t => ?_
    rw [← and_or_left]
    exact and_congr_right fun ht => rejected_iff (hTokens t ht)
  have hMalformed : (∃ t ∈ strippedTokens value, ¬ Number t) ↔
      (∃ t ∈ strippedTokens value, Refused t) ∨ ∃ t ∈ strippedTokens value, Slipped t := by
    rw [← exists_or]
    refine exists_congr fun t => ?_
    rw [← and_or_left]
    exact and_congr_right fun ht => not_number_iff (hTokens t ht)
  rw [parsesExactly_iff_rejected hTokens, hRejected, hMalformed]
  by_cases hRefused : ∃ t ∈ strippedTokens value, Refused t
  · simp only [hRefused, true_or]
  · simp only [hRefused, false_or]
    exact iff_comm

/-- `1, 60` is parsed exactly. -/
theorem parsesExactly_ordinary : ParsesExactly [49, 44, 32, 54, 48] :=
  (parsesExactly_iff (by decide +kernel)).mpr (Or.inr (by decide +kernel))

/-- `1 2` and `4294967297` are read as 1, and `00` is refused. -/
theorem not_parsesExactly :
    ¬ ParsesExactly [49, 32, 50] ∧ ¬ ParsesExactly [52, 50, 57, 52, 57, 54, 55, 50, 57, 55] ∧
      ¬ ParsesExactly [48, 48] := by
  have hBlank : parseListUnsigned [49, 32, 50] = [1] := by decide +kernel
  have hLarge : parseListUnsigned [52, 50, 57, 52, 57, 54, 55, 50, 57, 55] = [1] := by decide +kernel
  have hZeros : parseListUnsigned [48, 48] = [] := by decide +kernel
  refine ⟨fun h => ?_, fun h => ?_, fun h => ?_⟩
  · have hNumbers := h.accepted.mp (by rw [hBlank]; decide)
    exact absurd hNumbers (by decide +kernel)
  · have hNumbers := h.accepted.mp (by rw [hLarge]; decide)
    exact absurd hNumbers (by decide +kernel)
  · have hNonempty := h.accepted.mpr (by decide +kernel)
    exact hNonempty hZeros

end Config

end PVmapper
