import PVmapper.Model.ConfigFile
import PVmapper.Config.Numbers

/-!
# PVmapper — what the patterns of the configuration file match

The lines are of the form `KEY=VALUE`, with blanks behind the value, and what
`stripLine` leaves of them still has its tabs.

* `match_other`          — a line of one key is not matched by the pattern of another.
* `match_rule`           — a rule is captured with the tabs right behind it.
* `match_address`        — an address and its port are captured.
* `match_address_blank`  — but not with a blank at the end of the line.
-/

namespace PVmapper

namespace Config

open Pattern

variable {key key' s t w : Bytes} {rest : Pattern UInt8}

theorem isDigit_iff (c : UInt8) : isDigit c = true ↔ IsDigit c := by
  unfold isDigit IsDigit
  rw [Bool.and_eq_true, decide_eq_true_iff, decide_eq_true_iff]

-- ---------------------------------------------------------------------------
-- Keys
-- ---------------------------------------------------------------------------

/-- The pattern of a key skips blanks, and none of the key with them. -/
def Visible (key : Bytes) : Prop := key ≠ [] ∧ key.dropWhile isBlank = key

instance (key : Bytes) : Decidable (Visible key) := by
  unfold Visible
  infer_instance

theorem Visible.exists_cons (h : Visible key) : ∃ c cs, key = c :: cs ∧ isBlank c = false := by
  obtain ⟨hne, hDrop⟩ := h
  cases key with
  | nil => exact absurd rfl hne
  | cons c cs =>
    refine ⟨c, cs, rfl, ?_⟩
    have hHead := List.head?_dropWhile_not isBlank (c :: cs)
    rw [hDrop] at hHead
    simpa using hHead

/-- A line of one key is not a line of the other. -/
def Apart (key key' : Bytes) : Prop :=
  ¬ key <+: key' ++ [chr '='] ∧ ¬ key' ++ [chr '='] <+: key

instance (key key' : Bytes) : Decidable (Apart key key') := by
  unfold Apart
  infer_instance

/-- Blanks denote blanks. -/
theorem denotes_blanks (h : Denotes blanks s) : ∀ c ∈ s, isBlank c = true :=
  Over.of_denotes (P := fun c => isBlank c = true) (fun _ hc => hc) h

/-- A keyed line has its key behind blanks, and what the rest denotes behind that. -/
theorem denotes_keyed (h : Denotes (keyed key rest) s) :
    ∃ u v, s = u ++ (key ++ v) ∧ (∀ c ∈ u, isBlank c = true) ∧ Denotes rest v := by
  obtain ⟨u, _, rfl, hu, _, v, rfl, hKey, hv⟩ := h
  exact ⟨u, v, by rw [denotes_lit hKey], denotes_blanks hu, hv⟩

theorem dropWhile_blanks (hu : ∀ c ∈ t, isBlank c = true) (hKey : Visible key) :
    (t ++ (key ++ s)).dropWhile isBlank = key ++ s := by
  obtain ⟨c, cs, rfl, hc⟩ := hKey.exists_cons
  rw [List.dropWhile_append_of_pos hu, List.cons_append, List.dropWhile_cons_of_neg (by simp [hc])]

/-- Nothing is matched that does not begin with the key. -/
theorem match_none (hKey : Visible key) (h : ¬ key <+: s.dropWhile isBlank) :
    fullMatch (keyed key rest) s = none := by
  refine fullMatch_eq_none fun hDenotes => ?_
  obtain ⟨u, v, rfl, hu, -⟩ := denotes_keyed hDenotes
  rw [dropWhile_blanks hu hKey] at h
  exact h (List.prefix_append key v)

/-- A line with another key is not taken. -/
theorem match_other (hKey : Visible key) (hKey' : Visible key') (hApart : Apart key key')
    (s : Bytes) : fullMatch (keyed key rest) (key' ++ chr '=' :: s) = none := by
  refine match_none hKey fun hPrefix => ?_
  have hDrop : (key' ++ chr '=' :: s).dropWhile isBlank = (key' ++ [chr '=']) ++ s := by
    have := dropWhile_blanks (t := []) (s := chr '=' :: s) (by simp) hKey'
    rw [List.nil_append] at this
    rw [this, List.append_assoc]
    rfl
  rw [hDrop] at hPrefix
  rcases List.prefix_or_prefix_of_prefix hPrefix (List.prefix_append _ s) with h | h
  · exact hApart.1 h
  · exact hApart.2 h

/-- Nor is a blank line. -/
theorem match_blank (hKey : Visible key) (hs : ∀ c ∈ s, isBlank c = true) :
    fullMatch (keyed key rest) s = none := by
  refine match_none hKey fun hPrefix => ?_
  rw [List.dropWhile_eq_nil_iff.mpr hs, List.prefix_nil] at hPrefix
  exact hKey.1 hPrefix

/-- A key at the start leads to what is behind it. -/
theorem leads_keyed {captures : Captures UInt8} (hKey : Visible key)
    (h : Leads (run rest) s captures w) : Leads (run (keyed key rest)) (key ++ s) captures w := by
  obtain ⟨c, cs, rfl, hc⟩ := hKey.exists_cons
  have hNoBlanks : Leads (run blanks) ([] ++ (c :: cs ++ s)) [] (c :: cs ++ s) :=
    leads_many (by simp) (by simp) (by simp) (Or.inr fun d ds hEq => by
      rw [← (List.cons.inj hEq).1, hc])
  exact leads_seq hNoBlanks (leads_seq (leads_lit _ _) h)

-- ---------------------------------------------------------------------------
-- Rules
-- ---------------------------------------------------------------------------

/-- Blanks, and the end. -/
theorem leads_ending (hw : ∀ c ∈ w, isBlank c = true) : Leads (run ending) w [] [] := by
  have hBlanks : Leads (run blanks) (w ++ []) [] [] :=
    leads_many hw (by simp) (by simp) (by simp)
  rw [List.append_nil] at hBlanks
  exact leads_seq hBlanks (leads_absent rfl)

/-- What is captured of a line with this value, and these blanks behind it. -/
def capturedRule (t w : Bytes) : Bytes := t ++ if t = [] then [] else w.takeWhile (· == chr '\t')

theorem head_dropWhile_tabs (hw : ∀ c ∈ w, isBlank c = true) :
    ∀ c cs, w.dropWhile (· == chr '\t') = c :: cs → c = chr ' ' := by
  intro c cs hEq
  have hBlank : isBlank c = true :=
    hw c ((List.dropWhile_sublist _).subset (hEq ▸ List.mem_cons_self ..))
  have hNot := List.head?_dropWhile_not (· == chr '\t') w
  rw [hEq] at hNot
  simp only [List.head?_cons] at hNot
  unfold isBlank at hBlank
  simp only [Bool.or_eq_true, beq_iff_eq] at hBlank
  rcases hBlank with hSpace | hTab
  · exact hSpace
  · rw [hTab] at hNot
    exact absurd hNot (by decide)

/-- The separators are skipped. -/
theorem leads_separators {captures : Captures UInt8} (hne : t ≠ [])
    (ht : ∀ c ∈ t, isSeparator c = true) (hs : ∀ c cs, s = c :: cs → isSeparator c = false) (h : Leads (run rest) s captures w) :
    Leads (run (.seq (.rep (.one isSeparator) 1 none) rest)) (t ++ s) captures w := by
  have hSeparators : Leads (run (.rep (.one isSeparator) 1 none)) (t ++ s) [] s :=
    leads_many ht (List.length_pos_iff.mpr hne) (by simp) (Or.inr hs)
  exact leads_seq hSeparators h

theorem sign_separator : ∀ c ∈ [chr '='], isSeparator c = true := by
  intro c hc
  rw [List.mem_singleton.mp hc]
  decide

/-- A value without spaces, and the blanks behind it. -/
theorem leads_value (ht : ∀ c ∈ t, c ≠ chr '#' ∧ c ≠ chr ' ') (hw : ∀ c ∈ w, isBlank c = true)
    (hHead : ∀ c cs, w = c :: cs → c = chr ' ') :
    Leads (run (.seq (.group 1 (.rep (.one fun c => c != chr '#' && c != chr ' ') 0 none)) ending))
      (t ++ w) [(1, t)] [] := by
  have hValue : Leads (run (.rep (.one fun c => c != chr '#' && c != chr ' ') 0 none))
      (t ++ w) [] w :=
    leads_many (fun c hc => by simpa using ht c hc) (by simp) (by simp)
      (Or.inr fun c cs hEq => by rw [hHead c cs hEq]; decide)
  exact leads_seq (leads_group 1 hValue) (leads_ending hw)

/-- **Rules.** The pattern of a rule also takes the tabs right behind it. -/
theorem match_rule (hKey : Visible key)
    (hText : ∀ c ∈ t, isBlank c = false ∧ c ≠ chr '#') (hSign : t.head? ≠ some (chr '='))
    (hw : ∀ c ∈ w, isBlank c = true) :
    fullMatch (reRule key) (key ++ chr '=' :: (t ++ w)) = some [(1, capturedRule t w)] := by
  refine fullMatch_of_leads (leads_keyed hKey ?_)
  by_cases hEmpty : t = []
  · -- the separators take all the blanks
    rw [hEmpty, List.nil_append, ← List.append_nil (chr '=' :: w)]
    refine leads_separators (List.cons_ne_nil _ _) ?_ (by simp)
      (leads_value (t := []) (w := []) (by simp) (by simp) (by simp))
    intro c hc
    rcases List.mem_cons.mp hc with rfl | hc
    · decide
    · rw [isSeparator, hw c hc, Bool.or_true]
  · have hSplit : chr '=' :: (t ++ w) =
        [chr '='] ++ ((t ++ w.takeWhile (· == chr '\t')) ++ w.dropWhile (· == chr '\t')) := by
      rw [List.append_assoc, List.takeWhile_append_dropWhile]
      rfl
    rw [hSplit, capturedRule, if_neg hEmpty]
    refine leads_separators (List.cons_ne_nil _ _) sign_separator ?_
      (leads_value ?_ ?_ (head_dropWhile_tabs hw))
    · intro c cs hEq
      obtain ⟨d, ds, rfl⟩ := List.exists_cons_of_ne_nil hEmpty
      have hBlank := (hText d (List.mem_cons_self ..)).1
      rw [← (List.cons.inj hEq).1, isSeparator, hBlank, Bool.or_false, beq_eq_false_iff_ne]
      rintro rfl
      exact hSign rfl
    · intro c hc
      rcases List.mem_append.mp hc with hc | hc
      · refine ⟨(hText c hc).2, ?_⟩
        rintro rfl
        exact absurd (hText _ hc).1 (by decide)
      · have hTab : c = chr '\t' := by simpa using List.mem_takeWhile_imp hc
        rw [hTab]
        decide
    · exact fun c hc => hw c ((List.dropWhile_sublist _).subset hc)

-- ---------------------------------------------------------------------------
-- Addresses
-- ---------------------------------------------------------------------------

/-- A number of at most so many digits. -/
structure Digits (hi : ℕ) where
  text : Bytes
  digits : ∀ c ∈ text, IsDigit c
  nonempty : text ≠ []
  length_le : text.length ≤ hi

/-- An address, and a port that is not 0. -/
structure Endpoint where
  a : Digits 3
  b : Digits 3
  c : Digits 3
  d : Digits 3
  port : Digits 5
  port_pos : 0 < decimal port.text
  port_le : decimal port.text ≤ 65535

namespace Endpoint

/-- The four numbers of the address, with dots. -/
def ip (e : Endpoint) : Bytes :=
  e.a.text ++ chr '.' :: (e.b.text ++ chr '.' :: (e.c.text ++ chr '.' :: e.d.text))

/-- How it is written. -/
def text (e : Endpoint) : Bytes := e.ip ++ chr ':' :: e.port.text

/-- What it stands for. -/
def address (e : Endpoint) : Address := (e.ip, UInt16.ofNat (decimal e.port.text))

end Endpoint

/-- A number is captured to its last digit. -/
theorem Digits.leads {hi : ℕ} (d : Digits hi) (hs : ∀ c cs, s = c :: cs → isDigit c = false) :
    Leads (run (.rep (.one isDigit) 1 (some hi))) (d.text ++ s) [] s := by
  refine leads_many (fun c hc => (isDigit_iff c).mpr (d.digits c hc))
    (List.length_pos_iff.mpr d.nonempty) (fun n hn => ?_) (Or.inr hs)
  rw [← Option.some.inj hn]
  exact d.length_le

/-- `\.[0-9]{1,3}`, once. -/
theorem Digits.leads_dotted (d : Digits 3) (hs : ∀ c cs, s = c :: cs → isDigit c = false) :
    Leads (run (.group 2 (.seq (.one (· == chr '.')) (.rep (.one isDigit) 1 (some 3)))))
      (chr '.' :: d.text ++ s) [(2, chr '.' :: d.text)] s := by
  have hDotted : Leads (run (.seq (.one (· == chr '.')) (.rep (.one isDigit) 1 (some 3))))
      (chr '.' :: d.text ++ s) [] s :=
    leads_seq (leads_one (by decide) _) (d.leads hs)
  exact leads_group 2 hDotted

theorem digit_not_separator {c : UInt8} (h : IsDigit c) : isSeparator c = false := by
  simp only [isSeparator, isBlank, Bool.or_eq_false_iff, beq_eq_false_iff_ne]
  refine ⟨?_, ?_, ?_⟩ <;>
  · rintro rfl
    exact absurd h (by decide)

theorem dot_not_digit (t : Bytes) : ∀ c cs, chr '.' :: t = c :: cs → isDigit c = false := by
  intro c cs hEq
  rw [← (List.cons.inj hEq).1]
  decide

/-- `[0-9]{1,3}(\.[0-9]{1,3}){3}` -/
theorem Endpoint.leads_ip (e : Endpoint) (hs : ∀ c cs, s = c :: cs → isDigit c = false) :
    ∃ captures, Leads (run (.seq (.rep (.one isDigit) 1 (some 3))
      (.rep (.group 2 (.seq (.one (· == chr '.')) (.rep (.one isDigit) 1 (some 3)))) 3 (some 3))))
      (e.ip ++ s) captures s := by
  have hText : e.ip ++ s = e.a.text ++ (chr '.' :: e.b.text ++ (chr '.' :: e.c.text ++
      (chr '.' :: e.d.text ++ s))) := by
    simp [ip]
  rw [hText]
  exact ⟨_, leads_seq (e.a.leads (dot_not_digit _)) (leads_exactly
    (leads_times_succ (e.b.leads_dotted (dot_not_digit _))
      (leads_times_succ (e.c.leads_dotted (dot_not_digit _))
        (leads_times_succ (e.d.leads_dotted hs) (leads_times_zero _ s)))))⟩

/-- **Addresses.** The first group is the address, the fourth is the port. -/
theorem match_address (hKey : Visible key) (e : Endpoint) :
    ∃ tokens, fullMatch (reAddress key) (key ++ chr '=' :: e.text) = some tokens ∧
      captured 1 tokens = e.ip ∧ captured 4 tokens = e.port.text := by
  have hColon : ∀ c cs, chr ':' :: e.port.text = c :: cs → isDigit c = false := by
    intro c cs hEq
    rw [← (List.cons.inj hEq).1]
    decide
  obtain ⟨octets, hIp⟩ := e.leads_ip hColon
  have hDigits : Leads (run (.group 4 (.rep (.one isDigit) 1 (some 5)))) (e.port.text ++ [])
      [(4, e.port.text)] [] := leads_group 4 (e.port.leads (by simp))
  have hAfter : Leads (run (.seq (.one (· == chr ':')) (.group 4 (.rep (.one isDigit) 1 (some 5)))))
      (chr ':' :: e.port.text ++ []) [(4, e.port.text)] [] :=
    leads_seq (leads_one (by decide) _) hDigits
  have hPort := leads_group 3 hAfter
  rw [List.append_nil] at hPort
  have hValue := leads_seq (leads_group 1 hIp) (leads_optional hPort (by simp))
  have hHead : ∀ c cs, e.text = c :: cs → isSeparator c = false := by
    intro c cs hEq
    obtain ⟨d, ds, hText⟩ := List.exists_cons_of_ne_nil e.a.nonempty
    have hDigit := e.a.digits d (hText ▸ List.mem_cons_self ..)
    rw [Endpoint.text, Endpoint.ip, hText] at hEq
    rw [← (List.cons.inj hEq).1]
    exact digit_not_separator hDigit
  refine ⟨_, fullMatch_of_leads (leads_keyed hKey (leads_separators (t := [chr '='])
    (List.cons_ne_nil _ _) sign_separator hHead hValue)), ?_, ?_⟩
  · simp [captured, List.lookup_cons]
  · simp [captured, List.lookup_cons]

/-- No address is matched if the line ends in a tab. -/
theorem match_address_blank (hs : s.getLast? = some (chr '\t')) :
    fullMatch (reAddress key) s = none := by
  refine fullMatch_eq_none fun hDenotes => ?_
  obtain ⟨u, v, rfl, -, t, address, rfl, -, hAddress⟩ := denotes_keyed hDenotes
  have hLong : 0 < address.length := lt_of_lt_of_le (by decide) (minLength_le hAddress)
  obtain ⟨front, c, rfl⟩ :=
    (List.eq_nil_or_concat address).resolve_left (List.ne_nil_of_length_pos hLong)
  have hTab : c = chr '\t' := by simpa [← List.append_assoc] using hs
  -- it is made of digits, dots and a colon
  have hNot : ∀ p : UInt8 → Bool, p (chr '\t') = false → ∀ c, p c = true → c ≠ chr '\t' := by
    rintro p hp c hc rfl
    rw [hp] at hc
    exact absurd hc (by decide)
  have hNoTab : c ≠ chr '\t' := by
    refine Over.of_denotes (P := (· ≠ chr '\t')) ?_ hAddress c (by simp)
    have hDigit := hNot isDigit (by decide)
    exact ⟨⟨hDigit, hNot _ (by decide), hDigit⟩, hNot _ (by decide), hDigit⟩
  exact hNoTab hTab

end Config

end PVmapper
