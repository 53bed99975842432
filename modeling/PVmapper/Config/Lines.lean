import PVmapper.Config.Patterns

/-!
# PVmapper — one line of the configuration file

What may stand on a line: a rule for PVs or clients, an address to listen or
to search on, or nothing, followed by blanks and a comment. And what
`parseLine` makes of it, once the comment and the last spaces are stripped off.

* `stripLine_setting`   — a value keeps the blanks behind it up to the last tab.
* `capturedRule_eq_iff` — which rules are read as they are written.
* `Endpoint.Kept`       — which addresses are read at all.
* `parseLine_text`      — what is read from a line.
-/

namespace PVmapper

namespace Config

open Pattern

/-- A character that may stand in a value: no blank, no `#`, no line break. -/
def Plain (c : UInt8) : Prop := isBlank c = false ∧ c ≠ chr '#' ∧ c ≠ chr '\n'

instance (c : UInt8) : Decidable (Plain c) := by
  unfold Plain
  infer_instance

/-- The pattern of a rule, as the file can hold it. -/
structure RulePattern where
  text : Bytes
  plain : ∀ c ∈ text, Plain c
  noSign : text.head? ≠ some (chr '=')

/-- The key of a rule for PVs. -/
def pvKey : Action → Bytes
  | .allow => bytes "ALLOW_PV"
  | .deny => bytes "DENY_PV"

/-- The key of a rule for clients. -/
def clientKey : Action → Bytes
  | .allow => bytes "ALLOW_CLIENT"
  | .deny => bytes "DENY_CLIENT"

/-- The key of a listen address. -/
def listenKey : Bytes := bytes "CA_LISTEN_ADDRESS"

/-- The key of a search address. -/
def searchKey : Bytes := bytes "CA_SEARCH_ADDRESS"

/-- What a line sets, if anything. -/
inductive Item
  | pvRule (action : Action) (pattern : RulePattern)
  | clientRule (action : Action) (pattern : RulePattern)
  | listenAddress (endpoint : Endpoint)
  | searchAddress (endpoint : Endpoint)
  | nothing

/-- `KEY=VALUE` -/
def Item.text : Item → Bytes
  | .pvRule action pattern => pvKey action ++ chr '=' :: pattern.text
  | .clientRule action pattern => clientKey action ++ chr '=' :: pattern.text
  | .listenAddress endpoint => listenKey ++ chr '=' :: endpoint.text
  | .searchAddress endpoint => searchKey ++ chr '=' :: endpoint.text
  | .nothing => []

/-- A line of the file: the blanks behind what it sets, and the text behind `#`
if there is a comment. -/
structure Line where
  item : Item
  trailing : Bytes
  blank : ∀ c ∈ trailing, isBlank c = true
  comment : Option Bytes
  unbroken : ∀ text ∈ comment, chr '\n' ∉ text

/-- `#` and the text behind it. -/
def commentText (comment : Option Bytes) : Bytes := comment.elim [] (chr '#' :: ·)

/-- The line, without the line break behind it. -/
def Line.text (l : Line) : Bytes := l.item.text ++ (l.trailing ++ commentText l.comment)

-- ---------------------------------------------------------------------------
-- Characters
-- ---------------------------------------------------------------------------

theorem IsDigit.plain {c : UInt8} (h : IsDigit c) : Plain c := by
  have hSeparator := digit_not_separator h
  rw [isSeparator, Bool.or_eq_false_iff] at hSeparator
  refine ⟨hSeparator.2, ?_, ?_⟩ <;>
  · rintro rfl
    exact absurd h (by decide)

/-- An address has digits, dots and a colon in it. -/
theorem Endpoint.plain (e : Endpoint) : ∀ c ∈ e.text, Plain c := by
  have hDot : Plain (chr '.') := by decide
  have hColon : Plain (chr ':') := by decide
  intro c hc
  simp only [text, ip, List.mem_append, List.mem_cons] at hc
  rcases hc with (h | rfl | h | rfl | h | rfl | h) | rfl | h
  · exact (e.a.digits c h).plain
  · exact hDot
  · exact (e.b.digits c h).plain
  · exact hDot
  · exact (e.c.digits c h).plain
  · exact hDot
  · exact (e.d.digits c h).plain
  · exact hColon
  · exact (e.port.digits c h).plain

/-- A setting is plain if its key and its value are. -/
theorem plain_setting {key value : Bytes} (hKey : ∀ c ∈ key, Plain c)
    (hValue : ∀ c ∈ value, Plain c) : ∀ c ∈ key ++ chr '=' :: value, Plain c := by
  intro c hc
  rcases List.mem_append.mp hc with hc | hc
  · exact hKey c hc
  · rcases List.mem_cons.mp hc with rfl | hc
    · decide
    · exact hValue c hc

/-- What is set has no blank, no `#` and no line break in it. -/
theorem Item.plain (i : Item) : ∀ c ∈ i.text, Plain c := by
  cases i with
  | pvRule action pattern => exact plain_setting (by cases action <;> decide +kernel) pattern.plain
  | clientRule action pattern =>
    exact plain_setting (by cases action <;> decide +kernel) pattern.plain
  | listenAddress endpoint => exact plain_setting (by decide +kernel) endpoint.plain
  | searchAddress endpoint => exact plain_setting (by decide +kernel) endpoint.plain
  | nothing => simp [Item.text]

theorem blank_not_hash {c : UInt8} (h : isBlank c = true) : c ≠ chr '#' := by
  rintro rfl
  exact absurd h (by decide)

/-- A line is one line of the file. -/
theorem Line.text_unbroken (l : Line) : chr '\n' ∉ l.text := by
  intro h
  rcases List.mem_append.mp h with h | h
  · exact (l.item.plain _ h).2.2 rfl
  rcases List.mem_append.mp h with h | h
  · exact absurd (l.blank _ h) (by decide)
  · cases hComment : l.comment with
    | none => simp [commentText, hComment] at h
    | some text =>
      rw [hComment] at h
      rcases List.mem_cons.mp h with h | h
      · exact absurd h (by decide)
      · exact l.unbroken text hComment h

-- ---------------------------------------------------------------------------
-- Stripping
-- ---------------------------------------------------------------------------

/-- What `stripLine` leaves of the blanks behind a value. -/
def kept (w : Bytes) : Bytes := w.rdropWhile (· == chr ' ')

section Strip

variable {t w : Bytes}

theorem kept_blank (hw : ∀ c ∈ w, isBlank c = true) : ∀ c ∈ kept w, isBlank c = true :=
  fun c hc => hw c ((List.rdropWhile_prefix _ w).subset hc)

/-- What is left ends in a tab. -/
theorem getLast_kept (hw : ∀ c ∈ w, isBlank c = true) (hKept : kept w ≠ []) :
    (kept w).getLast? = some (chr '\t') := by
  have hNot := List.rdropWhile_last_not (· == chr ' ') w hKept
  have hBlank := kept_blank hw _ (List.getLast_mem hKept)
  rw [List.getLast?_eq_some_getLast hKept, Option.some.injEq]
  rw [isBlank, Bool.or_eq_true, beq_iff_eq, beq_iff_eq] at hBlank
  exact hBlank.resolve_left fun hSpace => hNot (beq_iff_eq.mpr hSpace)

/-- Nothing is kept of trailing blanks, unless there is a tab among them. -/
theorem kept_eq_nil_iff (hw : ∀ c ∈ w, isBlank c = true) : kept w = [] ↔ chr '\t' ∉ w := by
  constructor
  · intro hKept hTab
    rw [kept, List.rdropWhile_eq_nil_iff] at hKept
    exact absurd (hKept _ hTab) (by decide)
  · intro hTab
    by_contra hKept
    have hMem := List.mem_of_getLast? (getLast_kept hw hKept)
    exact hTab ((List.rdropWhile_prefix _ w).subset hMem)

/-- The comment is cut off, and nothing before it. -/
theorem takeWhile_comment (ht : ∀ c ∈ t, c ≠ chr '#') (comment : Option Bytes) :
    (t ++ commentText comment).takeWhile (· != chr '#') = t := by
  rw [List.takeWhile_append_of_pos fun c hc => by simpa using ht c hc]
  cases comment with
  | none => exact List.append_nil t
  | some text =>
    rw [commentText, Option.elim_some, List.takeWhile_cons_of_neg (by decide), List.append_nil]

theorem rdropWhile_append {p : UInt8 → Bool} (ht : ∀ c ∈ t, p c = false) :
    (t ++ w).rdropWhile p = t ++ w.rdropWhile p := by
  induction w using List.reverseRecOn with
  | nil =>
    rw [List.append_nil, List.rdropWhile_nil, List.append_nil, List.rdropWhile_eq_self_iff]
    intro hne
    simp [ht _ (List.getLast_mem hne)]
  | append_singleton w c ih =>
    rw [← List.append_assoc, List.rdropWhile_concat, List.rdropWhile_concat, ih]
    split <;> simp

/-- A value keeps the blanks behind it up to the last tab. -/
theorem stripLine_setting (hne : t ≠ []) (ht : ∀ c ∈ t, Plain c) (hw : ∀ c ∈ w, isBlank c = true)
    (comment : Option Bytes) : stripLine (t ++ (w ++ commentText comment)) = t ++ kept w := by
  have hHash : ∀ c ∈ t ++ w, c ≠ chr '#' := by
    intro c hc
    rcases List.mem_append.mp hc with hc | hc
    · exact (ht c hc).2.1
    · exact blank_not_hash (hw c hc)
  have hNoSpace : ∀ c ∈ t, (c == chr ' ') = false := by
    intro c hc
    rw [beq_eq_false_iff_ne]
    rintro rfl
    exact absurd (ht _ hc).1 (by decide)
  have hVisible : ¬ (t ++ w).all (· == chr ' ') = true := by
    obtain ⟨c, cs, rfl⟩ := List.exists_cons_of_ne_nil hne
    simp [hNoSpace c (List.mem_cons_self ..)]
  unfold stripLine
  dsimp only
  rw [← List.append_assoc, takeWhile_comment hHash comment, if_neg hVisible,
    rdropWhile_append hNoSpace]
  rfl

/-- A line with nothing on it stays blank. -/
theorem stripLine_blank (hw : ∀ c ∈ w, isBlank c = true) (comment : Option Bytes) :
    ∀ c ∈ stripLine (w ++ commentText comment), isBlank c = true := by
  unfold stripLine
  dsimp only
  rw [takeWhile_comment (fun c hc => blank_not_hash (hw c hc)) comment]
  split
  · exact hw
  · exact kept_blank hw

end Strip

-- ---------------------------------------------------------------------------
-- Values
-- ---------------------------------------------------------------------------

/-- A rule is read without a stray tab. -/
theorem capturedRule_eq_iff (t : Bytes) {w : Bytes} (hw : ∀ c ∈ w, isBlank c = true) :
    capturedRule t (kept w) = t ↔ t = [] ∨ w.head? ≠ some (chr '\t') := by
  by_cases hEmpty : t = []
  · simp [capturedRule, hEmpty]
  rw [capturedRule, if_neg hEmpty, List.append_right_eq_self, or_iff_right hEmpty]
  constructor
  · intro hNone hHead
    obtain ⟨ds, rfl⟩ := List.head?_eq_some_iff.mp hHead
    -- the first tab is not stripped off
    have hKept : kept (chr '\t' :: ds) = [chr '\t'] ++ kept ds := by
      refine rdropWhile_append (t := [chr '\t']) fun c hc => ?_
      rw [List.mem_singleton.mp hc]
      decide
    rw [hKept] at hNone
    exact absurd hNone (List.cons_ne_nil _ _)
  · intro hHead
    cases hKept : kept w with
    | nil => rfl
    | cons c cs =>
      obtain ⟨back, hBack⟩ := List.rdropWhile_prefix (· == chr ' ') w
      have hFirst : w.head? = some c := by
        rw [← hBack, show w.rdropWhile (· == chr ' ') = c :: cs from hKept]
        rfl
      rw [hFirst, ne_eq, Option.some.injEq] at hHead
      rw [List.takeWhile_cons_of_neg (by simpa using hHead)]

/-- The last port is not accepted. -/
theorem Endpoint.parsePort_eq (e : Endpoint) :
    parsePort e.port.text =
      if decimal e.port.text = 65535 then none else some (UInt16.ofNat (decimal e.port.text)) := by
  have hToken : Token e.port.text :=
    ⟨fun c hc => Or.inl (e.port.digits c hc),
      fun c _ hEq => e.port.digits c (hEq ▸ List.mem_cons_self ..)⟩
  have hNul : cStr e.port.text = e.port.text := by
    refine List.takeWhile_eq_self_iff.mpr fun c hc => ?_
    rw [bne_iff_ne]
    rintro rfl
    exact absurd (e.port.digits 0 hc) (by decide)
  have hNumber : atol e.port.text = (decimal e.port.text : Int) := by
    have hLe := e.port_le
    rw [atol_eq hToken, leadingDigits_eq_decimal e.port.digits]
    omega
  have hPos := e.port_pos
  have hLe := e.port_le
  unfold parsePort
  dsimp only
  rw [hNul, hNumber]
  split
  · next hRange =>
    have hInt : ((decimal e.port.text : Int) % 2 ^ 16).toNat = decimal e.port.text := by omega
    rw [if_neg (by omega), UInt16.ofInt, hInt]
  · next hRange => rw [if_pos (by omega)]

/-- The line of an address is read. -/
def Endpoint.Kept (e : Endpoint) (w : Bytes) : Prop := chr '\t' ∉ w ∧ decimal e.port.text ≠ 65535

instance (e : Endpoint) (w : Bytes) : Decidable (e.Kept w) := by
  unfold Endpoint.Kept
  infer_instance

-- ---------------------------------------------------------------------------
-- Lines
-- ---------------------------------------------------------------------------

section Parse

variable (validRegex : Bytes → Bool) (o : Options) {w : Bytes}

theorem pvKey_visible (action : Action) : Visible (pvKey action) := by
  cases action <;> decide

theorem clientKey_visible (action : Action) : Visible (clientKey action) := by
  cases action <;> decide

/-- The match of a rule is with its own pattern. -/
theorem match_rulePattern {key : Bytes} (hKey : Visible key) (pattern : RulePattern)
    (hw : ∀ c ∈ w, isBlank c = true) :
    fullMatch (reRule key) (key ++ chr '=' :: (pattern.text ++ w)) =
      some [(1, capturedRule pattern.text w)] :=
  match_rule hKey (fun c hc => ⟨(pattern.plain c hc).1, (pattern.plain c hc).2.1⟩) pattern.noSign hw

theorem setting_append (key value w : Bytes) :
    (key ++ chr '=' :: value) ++ w = key ++ chr '=' :: (value ++ w) := by
  rw [List.append_assoc]
  rfl

/-- A line with a PV rule adds it, with the blanks that the pattern captures. -/
theorem parseLine_pvRule (action : Action) (pattern : RulePattern)
    (hw : ∀ c ∈ w, isBlank c = true) :
    parseLine validRegex o ((Item.pvRule action pattern).text ++ w) =
      (addPvRule validRegex o action (capturedRule pattern.text w)).map (·, []) := by
  have hMatch := match_rulePattern (pvKey_visible action) pattern hw
  rw [Item.text, setting_append]
  cases action with
  | allow =>
    rw [pvKey] at hMatch ⊢
    rw [parseLine, reAllowPvs, hMatch]
    rfl
  | deny =>
    rw [pvKey] at hMatch ⊢
    rw [parseLine, reDenyPvs, hMatch]
    simp (disch := decide) only [reAllowPvs, reRule, match_other]
    rfl

/-- A line with a client rule adds it, with the blanks that the pattern captures. -/
theorem parseLine_clientRule (action : Action) (pattern : RulePattern)
    (hw : ∀ c ∈ w, isBlank c = true) :
    parseLine validRegex o ((Item.clientRule action pattern).text ++ w) =
      (addClientRule validRegex o action (capturedRule pattern.text w)).map (·, []) := by
  have hMatch := match_rulePattern (clientKey_visible action) pattern hw
  rw [Item.text, setting_append]
  cases action with
  | allow =>
    rw [clientKey] at hMatch ⊢
    rw [parseLine, reAllowClients, hMatch]
    simp (disch := decide) only [reAllowPvs, reDenyPvs, reRule, match_other]
    rfl
  | deny =>
    rw [clientKey] at hMatch ⊢
    rw [parseLine, reDenyClients, hMatch]
    simp (disch := decide) only [reAllowPvs, reDenyPvs, reAllowClients, reRule, match_other]
    rfl

/-- The patterns of addresses are tried last. -/
theorem parseLine_listen (value : Bytes) :
    parseLine validRegex o (listenKey ++ chr '=' :: value) =
      some ((fullMatch (reAddress listenKey) (listenKey ++ chr '=' :: value)).elim o fun tokens =>
        addListenAddress o (captured 1 tokens) (captured 4 tokens), []) := by
  cases hMatch : fullMatch (reAddress listenKey) (listenKey ++ chr '=' :: value)
  all_goals
    rw [parseLine, reCaListenAddr, ← listenKey, hMatch]
    simp (disch := decide) only [reAllowPvs, reDenyPvs, reAllowClients, reDenyClients, reLogLevel,
      reLogFacility, reLogId, reSearchInt, rePurgeDelay, reCaSearchAddr, reRule, reText, reAddress,
      match_other, Option.elim_none, Option.elim_some]

/-- A line that starts like a search address is tried as one and as nothing else. -/
theorem parseLine_search (value : Bytes) :
    parseLine validRegex o (searchKey ++ chr '=' :: value) =
      some ((fullMatch (reAddress searchKey) (searchKey ++ chr '=' :: value)).elim o fun tokens =>
        addSearchAddress o (captured 1 tokens) (captured 4 tokens), []) := by
  cases hMatch : fullMatch (reAddress searchKey) (searchKey ++ chr '=' :: value)
  all_goals
    rw [parseLine, reCaSearchAddr, ← searchKey, hMatch]
    simp (disch := decide) only [reAllowPvs, reDenyPvs, reAllowClients, reDenyClients, reLogLevel,
      reLogFacility, reLogId, reSearchInt, rePurgeDelay, reCaListenAddr, reRule, reText, reAddress,
      match_other, Option.elim_none, Option.elim_some]

/-- With a tab behind the address the line is not matched. -/
theorem elim_match_address {key : Bytes} (hKey : Visible key) (e : Endpoint)
    (hw : ∀ c ∈ w, isBlank c = true) (add : Bytes → Bytes → Options) :
    (fullMatch (reAddress key) (key ++ chr '=' :: (e.text ++ kept w))).elim o
        (fun tokens => add (captured 1 tokens) (captured 4 tokens)) =
      if chr '\t' ∈ w then o else add e.ip e.port.text := by
  split
  · next hTab =>
    have hKept : kept w ≠ [] := fun hNil => (kept_eq_nil_iff hw).mp hNil hTab
    have hNone : fullMatch (reAddress key) (key ++ chr '=' :: (e.text ++ kept w)) = none := by
      refine match_address_blank ?_
      rw [← setting_append, List.getLast?_append_of_ne_nil _ hKept]
      exact getLast_kept hw hKept
    rw [hNone, Option.elim_none]
  · next hTab =>
    obtain ⟨tokens, hMatch, hIp, hPort⟩ := match_address hKey e
    rw [(kept_eq_nil_iff hw).mpr hTab, List.append_nil, hMatch, Option.elim_some, hIp, hPort]

/-- A listen address is added, except for port 65535. -/
theorem addListenAddress_port (e : Endpoint) :
    addListenAddress o e.ip e.port.text =
      if decimal e.port.text = 65535 then o
      else { o with caListenAddresses := o.caListenAddresses ++ [e.address] } := by
  rw [addListenAddress, e.parsePort_eq]
  by_cases hLast : decimal e.port.text = 65535
  · rw [if_pos hLast, if_pos hLast]
  · rw [if_neg hLast, if_neg hLast]
    rfl

/-- A search address is added, except for port 65535. -/
theorem addSearchAddress_port (e : Endpoint) :
    addSearchAddress o e.ip e.port.text =
      if decimal e.port.text = 65535 then o
      else { o with caSearchAddresses := o.caSearchAddresses ++ [e.address] } := by
  rw [addSearchAddress, e.parsePort_eq]
  by_cases hLast : decimal e.port.text = 65535
  · rw [if_pos hLast, if_pos hLast]
  · rw [if_neg hLast, if_neg hLast]
    rfl

theorem ite_kept {α : Type*} (e : Endpoint) (w : Bytes) (read dropped : α) :
    (if chr '\t' ∈ w then dropped else if decimal e.port.text = 65535 then dropped else read) =
      if e.Kept w then read else dropped := by
  by_cases hKept : e.Kept w
  · rw [if_neg hKept.1, if_neg hKept.2, if_pos hKept]
  · rw [if_neg hKept]
    unfold Endpoint.Kept at hKept
    split
    · rfl
    · next hTab =>
      rw [if_pos]
      by_contra hPort
      exact hKept ⟨hTab, hPort⟩

/-- An address is appended if its line is read. -/
theorem parseLine_listenAddress (e : Endpoint) (hw : ∀ c ∈ w, isBlank c = true) :
    parseLine validRegex o ((Item.listenAddress e).text ++ kept w) =
      some (if e.Kept w then { o with caListenAddresses := o.caListenAddresses ++ [e.address] }
        else o, []) := by
  rw [Item.text, setting_append, parseLine_listen,
    elim_match_address o (by decide) e hw (addListenAddress o), addListenAddress_port, ite_kept]

/-- A line with a search address adds it, unless a tab follows or the port is 65535. -/
theorem parseLine_searchAddress (e : Endpoint) (hw : ∀ c ∈ w, isBlank c = true) :
    parseLine validRegex o ((Item.searchAddress e).text ++ kept w) =
      some (if e.Kept w then { o with caSearchAddresses := o.caSearchAddresses ++ [e.address] }
        else o, []) := by
  rw [Item.text, setting_append, parseLine_search,
    elim_match_address o (by decide) e hw (addSearchAddress o), addSearchAddress_port, ite_kept]

/-- No pattern matches a blank line. -/
theorem parseLine_blank (hw : ∀ c ∈ w, isBlank c = true) :
    parseLine validRegex o w = some (o, []) := by
  rw [parseLine]
  simp (disch := first | decide | assumption) only [reAllowPvs, reDenyPvs, reAllowClients,
    reDenyClients, reLogLevel, reLogFacility, reLogId, reSearchInt, rePurgeDelay, reCaListenAddr,
    reCaSearchAddr, reRule, reText, reAddress, match_blank]

/-- What is read from a line. -/
def Line.read (l : Line) : Option Options :=
  match l.item with
  | .pvRule action pattern =>
    addPvRule validRegex o action (capturedRule pattern.text (kept l.trailing))
  | .clientRule action pattern =>
    addClientRule validRegex o action (capturedRule pattern.text (kept l.trailing))
  | .listenAddress e =>
    some (if e.Kept l.trailing then
      { o with caListenAddresses := o.caListenAddresses ++ [e.address] } else o)
  | .searchAddress e =>
    some (if e.Kept l.trailing then
      { o with caSearchAddresses := o.caSearchAddresses ++ [e.address] } else o)
  | .nothing => some o

theorem Item.text_ne_nil {i : Item} (h : i ≠ .nothing) : i.text ≠ [] := by
  cases i with
  | nothing => exact absurd rfl h
  | _ => exact List.append_ne_nil_of_right_ne_nil _ (List.cons_ne_nil _ _)

/-- What is left of a line is what it sets, with the blanks that are kept. -/
theorem stripLine_text (l : Line) (h : l.item ≠ .nothing) :
    stripLine l.text = l.item.text ++ kept l.trailing :=
  stripLine_setting (Item.text_ne_nil h) l.item.plain l.blank l.comment

/-- **Lines.** Nothing is printed for any of them. -/
theorem parseLine_text (l : Line) :
    parseLine validRegex o (stripLine l.text) = (l.read validRegex o).map (·, []) := by
  have hKept := kept_blank l.blank
  cases hItem : l.item with
  | pvRule action pattern =>
    rw [stripLine_text l (by rw [hItem]; nofun), hItem,
      parseLine_pvRule validRegex o action pattern hKept, Line.read, hItem]
  | clientRule action pattern =>
    rw [stripLine_text l (by rw [hItem]; nofun), hItem,
      parseLine_clientRule validRegex o action pattern hKept, Line.read, hItem]
  | listenAddress e =>
    rw [stripLine_text l (by rw [hItem]; nofun), hItem,
      parseLine_listenAddress validRegex o e l.blank, Line.read, hItem]
    rfl
  | searchAddress e =>
    rw [stripLine_text l (by rw [hItem]; nofun), hItem,
      parseLine_searchAddress validRegex o e l.blank, Line.read, hItem]
    rfl
  | nothing =>
    have hText : l.text = l.trailing ++ commentText l.comment := by
      rw [Line.text, hItem, Item.text, List.nil_append]
    rw [hText, parseLine_blank validRegex o (stripLine_blank l.blank l.comment), Line.read, hItem]
    rfl

end Parse

end Config

end PVmapper
