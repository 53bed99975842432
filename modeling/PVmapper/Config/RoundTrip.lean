import PVmapper.Config.Lines

/-!
# PVmapper — the configuration file, there and back

Rules and addresses are written to a file, one on a line, and read back by
`Config::parseFile`. Not all of them survive. A rule whose pattern is followed
by a tab is read with the tab, because `[^# ]*` does not exclude it. An address
is dropped with a tab behind it, because only spaces are stripped off and its
pattern ends with the port, and with port 65535, because the bound is `<`.

* `getlines_fileText` — the lines of the file are the lines that were written.
* `Reads.of_lines`    — what is read from them.
* `roundTrip_iff`     — exactly which files are read as they were written.
* `not_roundTrip`     — three that are not.
-/

namespace PVmapper

namespace Config

-- ---------------------------------------------------------------------------
-- Files
-- ---------------------------------------------------------------------------

/-- A file of these lines, and whether there is a line break behind the last. -/
def fileText (lines : List Line) (ended : Bool) : Bytes :=
  [chr '\n'].intercalate (lines.map Line.text ++ if ended then [[]] else [])

/-- The PV rule, if it is one. -/
def Item.pvEntry : Item → Option (AccessEntry Bytes)
  | .pvRule action pattern => some ⟨action, pattern.text⟩
  | _ => none

/-- The client rule, if it is one. -/
def Item.clientEntry : Item → Option (AccessEntry Bytes)
  | .clientRule action pattern => some ⟨action, pattern.text⟩
  | _ => none

/-- The listen address, if it is one. -/
def Item.listenEntry : Item → Option Address
  | .listenAddress e => some e.address
  | _ => none

/-- The search address, if it is one. -/
def Item.searchEntry : Item → Option Address
  | .searchAddress e => some e.address
  | _ => none

/-- What the lines of a file say of one kind, in order. -/
def given {β : Type*} (entry : Item → Option β) (lines : List Line) : List β :=
  lines.filterMap fun l => entry l.item

/-- The options say what the lines of the file say. -/
structure Agrees (lines : List Line) (o : Options) : Prop where
  pvs : o.accessControl.pvs = given Item.pvEntry lines
  clients : o.accessControl.clients = given Item.clientEntry lines
  listen : o.caListenAddresses =
    if given Item.listenEntry lines = [] then [defaultListenAddress]
    else given Item.listenEntry lines
  search : o.caSearchAddresses = given Item.searchEntry lines

section RoundTrip

variable (validRegex : Bytes → Bool) (lines : List Line) (ended : Bool)

/-- The file is accepted, and read as it was written. -/
def RoundTrip : Prop :=
  ∃ r, parseFile validRegex {} (fileText lines ended) = some r ∧ Agrees lines r.1

/-- The patterns of all rules are regular expressions. -/
def ValidRules : Prop :=
  ∀ l ∈ lines, ∀ action pattern,
    l.item = .pvRule action pattern ∨ l.item = .clientRule action pattern →
      validRegex pattern.text = true

end RoundTrip

namespace Line

/-- If the line is a rule, no tab follows its pattern. -/
def RuleIntact (l : Line) : Prop :=
  match l.item with
  | .pvRule _ pattern | .clientRule _ pattern =>
    pattern.text = [] ∨ l.trailing.head? ≠ some (chr '\t')
  | _ => True

/-- If the line is an address to listen on, it is read. -/
def ListenIntact (l : Line) : Prop :=
  match l.item with
  | .listenAddress e => e.Kept l.trailing
  | _ => True

/-- If the line is an address to search on, it is read. -/
def SearchIntact (l : Line) : Prop :=
  match l.item with
  | .searchAddress e => e.Kept l.trailing
  | _ => True

instance (l : Line) : Decidable l.RuleIntact := by
  unfold RuleIntact
  split <;> infer_instance

instance (l : Line) : Decidable l.ListenIntact := by
  unfold ListenIntact
  split <;> infer_instance

instance (l : Line) : Decidable l.SearchIntact := by
  unfold SearchIntact
  split <;> infer_instance

/-- The rule for PVs that is read from a line. -/
def readPv (l : Line) : Option (AccessEntry Bytes) :=
  match l.item with
  | .pvRule action pattern => some ⟨action, capturedRule pattern.text (kept l.trailing)⟩
  | _ => none

/-- The rule for clients that is read from a line. -/
def readClient (l : Line) : Option (AccessEntry Bytes) :=
  match l.item with
  | .clientRule action pattern => some ⟨action, capturedRule pattern.text (kept l.trailing)⟩
  | _ => none

/-- The address to listen on that is read from a line. -/
def readListen (l : Line) : Option Address := if l.ListenIntact then l.item.listenEntry else none

/-- The address to search on that is read from a line. -/
def readSearch (l : Line) : Option Address := if l.SearchIntact then l.item.searchEntry else none

end Line

variable {lines : List Line}

/-- The text of a file is cut at its line breaks; a blank last line may be
missed. -/
theorem getlines_fileText (lines : List Line) (ended : Bool) :
    getlines (fileText lines ended) = lines.map Line.text ∨
      getlines (fileText lines ended) ++ [[]] = lines.map Line.text := by
  have hUnbroken : ∀ t ∈ lines.map Line.text, chr '\n' ∉ t := by
    intro t ht
    obtain ⟨l, -, rfl⟩ := List.mem_map.mp ht
    exact l.text_unbroken
  cases ended with
  | true =>
    have hSplit : (fileText lines true).splitOn (chr '\n') = lines.map Line.text ++ [[]] := by
      refine List.splitOn_intercalate _ (fun t ht => ?_) (by simp)
      rcases List.mem_append.mp ht with ht | ht
      · exact hUnbroken t ht
      · rw [List.mem_singleton.mp ht]
        exact List.not_mem_nil
    left
    rw [getlines, hSplit, List.getLast?_append, List.dropLast_concat]
    rfl
  | false =>
    cases lines with
    | nil =>
      left
      rfl
    | cons l ls =>
      have hSplit : (fileText (l :: ls) false).splitOn (chr '\n') = (l :: ls).map Line.text := by
        have := List.splitOn_intercalate (chr '\n') hUnbroken (List.cons_ne_nil _ _)
        rw [fileText, if_neg (by decide), List.append_nil]
        exact this
      rw [getlines, hSplit]
      split
      · next hLast =>
        right
        exact List.dropLast_append_getLast? _ hLast
      · left
        rfl

-- ---------------------------------------------------------------------------
-- Reading
-- ---------------------------------------------------------------------------

section Read

variable (validRegex : Bytes → Bool) {o o' : Options}

/-- An empty line at the end sets nothing. -/
theorem parseLines_append_nil (texts : List Bytes) :
    parseLines validRegex o (texts ++ [[]]) = parseLines validRegex o texts := by
  have hBlank : ∀ o : Options, parseLine validRegex o (stripLine []) = some (o, []) := fun o =>
    parseLine_blank validRegex o fun _ hc => absurd hc List.not_mem_nil
  unfold parseLines
  rw [List.foldlM_append]
  simp only [List.foldlM_cons, List.foldlM_nil, hBlank, Option.map_some, List.append_nil]
  simp

/-- The file is read line by line, and nothing is printed. -/
theorem parseLines_text (o : Options) (lines : List Line) :
    parseLines validRegex o (lines.map Line.text) =
      (lines.foldlM (fun o (l : Line) => l.read validRegex o) o).map (·, []) := by
  unfold parseLines
  induction lines generalizing o with
  | nil => rfl
  | cons l ls ih =>
    rw [List.map_cons, List.foldlM_cons, List.foldlM_cons, parseLine_text]
    cases hRead : l.read validRegex o with
    | none => rfl
    | some o' => exact ih o'

/-- What is read is appended to what there is. -/
structure Reads (lines : List Line) (o o' : Options) : Prop where
  pvs : o'.accessControl.pvs = o.accessControl.pvs ++ lines.filterMap Line.readPv
  clients : o'.accessControl.clients = o.accessControl.clients ++ lines.filterMap Line.readClient
  listen : o'.caListenAddresses = o.caListenAddresses ++ lines.filterMap Line.readListen
  search : o'.caSearchAddresses = o.caSearchAddresses ++ lines.filterMap Line.readSearch

theorem Reads.nil (o : Options) : Reads [] o o := by constructor <;> simp

/-- Lines are read one after the other. -/
theorem Reads.append {ls ls' : List Line} {o₁ o₂ o₃ : Options} (h : Reads ls o₁ o₂)
    (h' : Reads ls' o₂ o₃) : Reads (ls ++ ls') o₁ o₃ where
  pvs := by rw [h'.pvs, h.pvs, List.filterMap_append, List.append_assoc]
  clients := by rw [h'.clients, h.clients, List.filterMap_append, List.append_assoc]
  listen := by rw [h'.listen, h.listen, List.filterMap_append, List.append_assoc]
  search := by rw [h'.search, h.search, List.filterMap_append, List.append_assoc]

theorem entry_eq_some {action : Action} {pattern : Bytes} {e : AccessEntry Bytes}
    (h : entry validRegex action pattern = some e) : e = ⟨action, pattern⟩ := by
  obtain ⟨-, hEntry⟩ := Option.ite_none_right_eq_some.mp h
  exact (Option.some.inj hEntry).symm

/-- One line is read as it should be. -/
theorem Reads.of_line {l : Line} (h : l.read validRegex o = some o') : Reads [l] o o' := by
  unfold Line.read at h
  cases hItem : l.item with
  | pvRule action pattern =>
    rw [hItem] at h
    obtain ⟨e, hEntry, rfl⟩ := Option.map_eq_some_iff.mp h
    obtain rfl := entry_eq_some validRegex hEntry
    constructor <;> simp [hItem, Line.readPv, Line.readClient, Line.readListen, Line.readSearch,
      Item.listenEntry, Item.searchEntry]
  | clientRule action pattern =>
    rw [hItem] at h
    obtain ⟨e, hEntry, rfl⟩ := Option.map_eq_some_iff.mp h
    obtain rfl := entry_eq_some validRegex hEntry
    constructor <;> simp [hItem, Line.readPv, Line.readClient, Line.readListen, Line.readSearch,
      Item.listenEntry, Item.searchEntry]
  | listenAddress e =>
    rw [hItem] at h
    obtain rfl := Option.some.inj h
    by_cases hKept : e.Kept l.trailing
    all_goals constructor <;> simp [hItem, hKept, Line.readPv, Line.readClient, Line.readListen,
      Line.readSearch, Item.listenEntry, Item.searchEntry, Line.ListenIntact]
  | searchAddress e =>
    rw [hItem] at h
    obtain rfl := Option.some.inj h
    by_cases hKept : e.Kept l.trailing
    all_goals constructor <;> simp [hItem, hKept, Line.readPv, Line.readClient, Line.readListen,
      Line.readSearch, Item.listenEntry, Item.searchEntry, Line.SearchIntact]
  | nothing =>
    rw [hItem] at h
    obtain rfl := Option.some.inj h
    constructor <;> simp [hItem, Line.readPv, Line.readClient, Line.readListen, Line.readSearch,
      Item.listenEntry, Item.searchEntry]

/-- And so are all lines of a file. -/
theorem Reads.of_lines (h : lines.foldlM (fun o (l : Line) => l.read validRegex o) o = some o') :
    Reads lines o o' := by
  induction lines generalizing o with
  | nil =>
    obtain rfl := Option.some.inj h
    exact Reads.nil o
  | cons l ls ih =>
    rw [List.foldlM_cons] at h
    obtain ⟨o₁, hLine, hLines⟩ := Option.bind_eq_some_iff.mp h
    exact (Reads.of_line validRegex hLine).append (ih hLines)

/-- Every rule is accepted if its own pattern is what is captured. -/
theorem exists_read (hValid : ValidRules validRegex lines) (hRules : ∀ l ∈ lines, l.RuleIntact)
    (o : Options) : ∃ o', lines.foldlM (fun o (l : Line) => l.read validRegex o) o = some o' := by
  induction lines generalizing o with
  | nil => exact ⟨o, rfl⟩
  | cons l ls ih =>
    have hLine : ∃ o', l.read validRegex o = some o' := by
      have hIntact := hRules l (List.mem_cons_self ..)
      have hRule := hValid l (List.mem_cons_self ..)
      unfold Line.RuleIntact at hIntact
      unfold Line.read
      cases hItem : l.item with
      | pvRule action pattern =>
        rw [hItem] at hIntact
        dsimp only
        rw [(capturedRule_eq_iff pattern.text l.blank).mpr hIntact, addPvRule, entry,
          if_pos (hRule action pattern (Or.inl hItem))]
        exact ⟨_, rfl⟩
      | clientRule action pattern =>
        rw [hItem] at hIntact
        dsimp only
        rw [(capturedRule_eq_iff pattern.text l.blank).mpr hIntact, addClientRule, entry,
          if_pos (hRule action pattern (Or.inr hItem))]
        exact ⟨_, rfl⟩
      | listenAddress e => exact ⟨_, rfl⟩
      | searchAddress e => exact ⟨_, rfl⟩
      | nothing => exact ⟨o, rfl⟩
    obtain ⟨o₁, hLine⟩ := hLine
    obtain ⟨o', hLines⟩ := ih (fun l hl => hValid l (List.mem_cons_of_mem _ hl))
      (fun l hl => hRules l (List.mem_cons_of_mem _ hl)) o₁
    exact ⟨o', by rw [List.foldlM_cons, hLine]; exact hLines⟩

/-- The options at the end of `parseFile`. -/
def withDefault (o : Options) : Options :=
  if o.caListenAddresses = [] then { o with caListenAddresses := [defaultListenAddress] } else o

@[simp] theorem withDefault_accessControl (o : Options) :
    (withDefault o).accessControl = o.accessControl := by
  unfold withDefault
  split <;> rfl

@[simp] theorem withDefault_caSearchAddresses (o : Options) :
    (withDefault o).caSearchAddresses = o.caSearchAddresses := by
  unfold withDefault
  split <;> rfl

@[simp] theorem withDefault_caListenAddresses (o : Options) :
    (withDefault o).caListenAddresses =
      if o.caListenAddresses = [] then [defaultListenAddress] else o.caListenAddresses := by
  unfold withDefault
  split <;> rfl

/-- A file is read from its lines. -/
theorem parseFile_eq (lines : List Line) (ended : Bool) :
    parseFile validRegex {} (fileText lines ended) =
      (lines.foldlM (fun o (l : Line) => l.read validRegex o) {}).map fun o =>
        (withDefault o, []) := by
  have hLines : parseLines validRegex {} (getlines (fileText lines ended)) =
      parseLines validRegex {} (lines.map Line.text) := by
    rcases getlines_fileText lines ended with hText | hText
    · rw [hText]
    · rw [← hText, parseLines_append_nil]
  rw [parseFile, hLines, parseLines_text, Option.map_map]
  congr 1
  funext o
  simp only [Function.comp_apply, withDefault]
  split <;> rfl

end Read

-- ---------------------------------------------------------------------------
-- Comparing
-- ---------------------------------------------------------------------------

section Compare

variable {α β : Type*} {f g : α → Option β} {l : List α}

theorem length_filterMap_le (h : ∀ a ∈ l, g a = none → f a = none) :
    (l.filterMap f).length ≤ (l.filterMap g).length := by
  rw [List.length_filterMap_eq_countP, List.length_filterMap_eq_countP]
  refine List.countP_mono_left fun a ha hSome => ?_
  cases hg : g a with
  | none => simp [h a ha hg] at hSome
  | some b => rfl

/-- If the one drops at least what the other drops, they are equal only if they
agree everywhere. -/
theorem filterMap_eq_iff (h : ∀ a ∈ l, g a = none → f a = none) :
    l.filterMap f = l.filterMap g ↔ ∀ a ∈ l, f a = g a := by
  constructor
  · intro hEq
    induction l with
    | nil => simp
    | cons a l ih =>
      have hTail : ∀ a ∈ l, g a = none → f a = none := fun a ha => h a (List.mem_cons_of_mem _ ha)
      have hHere := h a (List.mem_cons_self ..)
      rw [List.filterMap_cons, List.filterMap_cons] at hEq
      suffices hHead : f a = g a ∧ l.filterMap f = l.filterMap g by
        intro x hx
        rcases List.mem_cons.mp hx with rfl | hx
        · exact hHead.1
        · exact ih hTail hHead.2 x hx
      cases hg : g a with
      | none =>
        rw [hHere hg, hg] at hEq
        exact ⟨hHere hg, hEq⟩
      | some b =>
        cases hf : f a with
        | none =>
          -- one more on the right than there can be on the left
          rw [hf, hg] at hEq
          have hLe := length_filterMap_le hTail
          have hLen := congrArg List.length hEq
          simp only [List.length_cons] at hLen
          omega
        | some c =>
          rw [hf, hg] at hEq
          obtain ⟨rfl, hRest⟩ := List.cons.inj hEq
          exact ⟨rfl, hRest⟩
  · exact fun hAll => List.filterMap_congr hAll

end Compare

-- ---------------------------------------------------------------------------
-- There and back
-- ---------------------------------------------------------------------------

/-- A rule is read as it is written exactly if it is intact. -/
theorem readRules_eq_iff (l : Line) :
    l.readPv = l.item.pvEntry ∧ l.readClient = l.item.clientEntry ↔ l.RuleIntact := by
  unfold Line.readPv Line.readClient Line.RuleIntact
  cases l.item with
  | pvRule action pattern =>
    simp [Item.pvEntry, Item.clientEntry, capturedRule_eq_iff pattern.text l.blank]
  | clientRule action pattern =>
    simp [Item.pvEntry, Item.clientEntry, capturedRule_eq_iff pattern.text l.blank]
  | _ => simp [Item.pvEntry, Item.clientEntry]

theorem listenIntact_of_none {l : Line} (h : l.item.listenEntry = none) : l.ListenIntact := by
  unfold Line.ListenIntact
  cases hItem : l.item with
  | listenAddress e => simp [hItem, Item.listenEntry] at h
  | _ => trivial

theorem searchIntact_of_none {l : Line} (h : l.item.searchEntry = none) : l.SearchIntact := by
  unfold Line.SearchIntact
  cases hItem : l.item with
  | searchAddress e => simp [hItem, Item.searchEntry] at h
  | _ => trivial

/-- A listen address is read as it is written exactly if it is intact. -/
theorem readListen_eq_iff (l : Line) : l.readListen = l.item.listenEntry ↔ l.ListenIntact := by
  constructor
  · intro hEq
    by_contra hLost
    rw [Line.readListen, if_neg hLost] at hEq
    exact hLost (listenIntact_of_none hEq.symm)
  · intro hIntact
    rw [Line.readListen, if_pos hIntact]

/-- A search address is read as it is written exactly if it is intact. -/
theorem readSearch_eq_iff (l : Line) : l.readSearch = l.item.searchEntry ↔ l.SearchIntact := by
  constructor
  · intro hEq
    by_contra hLost
    rw [Line.readSearch, if_neg hLost] at hEq
    exact hLost (searchIntact_of_none hEq.symm)
  · intro hIntact
    rw [Line.readSearch, if_pos hIntact]

/-- An address that is dropped shows in the list, unless the default address
takes its place. -/
theorem listen_eq_iff (lines : List Line) :
    (if lines.filterMap Line.readListen = [] then [defaultListenAddress]
        else lines.filterMap Line.readListen) =
      (if given Item.listenEntry lines = [] then [defaultListenAddress]
        else given Item.listenEntry lines) ↔
      given Item.listenEntry lines = [defaultListenAddress] ∨ ∀ l ∈ lines, l.ListenIntact := by
  have hNone : ∀ l ∈ lines, l.item.listenEntry = none → l.readListen = none := by
    intro l _ hEntry
    rw [Line.readListen, hEntry, ite_self]
  have hIntact : lines.filterMap Line.readListen = given Item.listenEntry lines ↔
      ∀ l ∈ lines, l.ListenIntact := by
    rw [given, filterMap_eq_iff hNone]
    exact forall₂_congr fun l _ => readListen_eq_iff l
  have hLe : (lines.filterMap Line.readListen).length ≤ (given Item.listenEntry lines).length :=
    length_filterMap_le hNone
  have hSub : ∀ a ∈ lines.filterMap Line.readListen, a ∈ given Item.listenEntry lines := by
    intro a ha
    obtain ⟨l, hl, hRead⟩ := List.mem_filterMap.mp ha
    exact List.mem_filterMap.mpr ⟨l, hl, (Option.ite_none_right_eq_some.mp hRead).2⟩
  rw [← hIntact]
  constructor
  · intro hEq
    by_cases hGiven : given Item.listenEntry lines = []
    · right
      rw [hGiven] at hLe ⊢
      exact List.length_eq_zero_iff.mp (Nat.le_zero.mp hLe)
    · rw [if_neg hGiven] at hEq
      by_cases hRead : lines.filterMap Line.readListen = []
      · left
        rw [← hEq, if_pos hRead]
      · right
        rw [← hEq, if_neg hRead]
  · rintro (hDefault | hEq)
    · rw [hDefault, if_neg (List.cons_ne_nil _ _)]
      -- what is left of one address is none or this one
      rw [hDefault] at hLe hSub
      match hRead : lines.filterMap Line.readListen, hLe with
      | [], _ => rfl
      | [a], _ =>
        rw [hRead] at hSub
        rw [List.mem_singleton.mp (hSub a (List.mem_singleton.mpr rfl))]
        rfl
    · rw [hEq]

theorem pvs_eq_iff (lines : List Line) : lines.filterMap Line.readPv = given Item.pvEntry lines ↔
    ∀ l ∈ lines, l.readPv = l.item.pvEntry := by
  refine filterMap_eq_iff fun l _ hEntry => ?_
  unfold Line.readPv
  cases hItem : l.item with
  | pvRule action pattern => simp [hItem, Item.pvEntry] at hEntry
  | _ => rfl

theorem clients_eq_iff (lines : List Line) :
    lines.filterMap Line.readClient = given Item.clientEntry lines ↔
      ∀ l ∈ lines, l.readClient = l.item.clientEntry := by
  refine filterMap_eq_iff fun l _ hEntry => ?_
  unfold Line.readClient
  cases hItem : l.item with
  | clientRule action pattern => simp [hItem, Item.clientEntry] at hEntry
  | _ => rfl

theorem search_eq_iff (lines : List Line) :
    lines.filterMap Line.readSearch = given Item.searchEntry lines ↔
      ∀ l ∈ lines, l.SearchIntact := by
  rw [given, filterMap_eq_iff]
  · exact forall₂_congr fun l _ => readSearch_eq_iff l
  · intro l _ hEntry
    rw [Line.readSearch, hEntry, ite_self]

/-- What is read is what was written if nothing was lost on the way. -/
theorem agrees_iff {o : Options} (h : Reads lines {} o) :
    Agrees lines (withDefault o) ↔
      (∀ l ∈ lines, l.RuleIntact) ∧ (∀ l ∈ lines, l.SearchIntact) ∧
        (given Item.listenEntry lines = [defaultListenAddress] ∨ ∀ l ∈ lines, l.ListenIntact) := by
  have hPvs : o.accessControl.pvs = lines.filterMap Line.readPv := h.pvs
  have hClients : o.accessControl.clients = lines.filterMap Line.readClient := h.clients
  have hListen : o.caListenAddresses = lines.filterMap Line.readListen := h.listen
  have hSearch : o.caSearchAddresses = lines.filterMap Line.readSearch := h.search
  constructor
  · rintro ⟨h₁, h₂, h₃, h₄⟩
    rw [withDefault_accessControl, hPvs, pvs_eq_iff] at h₁
    rw [withDefault_accessControl, hClients, clients_eq_iff] at h₂
    rw [withDefault_caListenAddresses, hListen, listen_eq_iff] at h₃
    rw [withDefault_caSearchAddresses, hSearch, search_eq_iff] at h₄
    exact ⟨fun l hl => (readRules_eq_iff l).mp ⟨h₁ l hl, h₂ l hl⟩, h₄, h₃⟩
  · rintro ⟨hRules, hSearchIntact, hListenIntact⟩
    constructor
    · rw [withDefault_accessControl, hPvs, pvs_eq_iff]
      exact fun l hl => ((readRules_eq_iff l).mpr (hRules l hl)).1
    · rw [withDefault_accessControl, hClients, clients_eq_iff]
      exact fun l hl => ((readRules_eq_iff l).mpr (hRules l hl)).2
    · rw [withDefault_caListenAddresses, hListen, listen_eq_iff]
      exact hListenIntact
    · rw [withDefault_caSearchAddresses, hSearch, search_eq_iff]
      exact hSearchIntact

/-- **The round trip.** A file of valid rules and addresses is read back as it
was written if and only if no tab follows the pattern of a rule, and no tab
stands behind an address, and no port is 65535; but what happens to the only
address to listen on does not show if it is the default. -/
theorem roundTrip_iff (validRegex : Bytes → Bool) (lines : List Line) (ended : Bool)
    (hValid : ValidRules validRegex lines) :
    RoundTrip validRegex lines ended ↔
      (∀ l ∈ lines, l.RuleIntact) ∧ (∀ l ∈ lines, l.SearchIntact) ∧
        (given Item.listenEntry lines = [defaultListenAddress] ∨ ∀ l ∈ lines, l.ListenIntact) := by
  unfold RoundTrip
  rw [parseFile_eq]
  constructor
  · rintro ⟨r, hFile, hAgrees⟩
    obtain ⟨o, hRead, rfl⟩ := Option.map_eq_some_iff.mp hFile
    exact (agrees_iff (Reads.of_lines validRegex hRead)).mp hAgrees
  · intro hIntact
    obtain ⟨o, hRead⟩ := exists_read validRegex hValid hIntact.1 {}
    exact ⟨_, by rw [hRead]; rfl, (agrees_iff (Reads.of_lines validRegex hRead)).mpr hIntact⟩

/-- `192.168.1.255:5064` -/
def subnet : Endpoint where
  a := ⟨bytes "192", by decide +kernel, by decide, by decide⟩
  b := ⟨bytes "168", by decide +kernel, by decide, by decide⟩
  c := ⟨bytes "1", by decide +kernel, by decide, by decide⟩
  d := ⟨bytes "255", by decide +kernel, by decide, by decide⟩
  port := ⟨bytes "5064", by decide +kernel, by decide, by decide⟩
  port_pos := by decide +kernel
  port_le := by decide +kernel

/-- `# Rules are evaluated in order` -/
def commentLine : Line where
  item := .nothing
  trailing := []
  blank := nofun
  comment := some (bytes " Rules are evaluated in order")
  unbroken := by decide +kernel

/-- `ALLOW_PV=TEST.*  # Allow TEST` -/
def allowLine : Line where
  item := .pvRule .allow ⟨bytes "TEST.*", by decide +kernel, by decide⟩
  trailing := bytes "  "
  blank := by decide +kernel
  comment := some (bytes " Allow TEST")
  unbroken := by decide +kernel

/-- `CA_SEARCH_ADDRESS=192.168.1.255:5064` -/
def searchLine : Line where
  item := .searchAddress subnet
  trailing := []
  blank := nofun
  comment := none
  unbroken := nofun

/-- Lines of the sample configuration come through. -/
theorem roundTrip_sample :
    RoundTrip (fun _ => true) [commentLine, allowLine, searchLine] true :=
  (roundTrip_iff _ _ _ fun _ _ _ _ _ => rfl).mpr
    ⟨by decide +kernel, by decide +kernel, Or.inr (by decide +kernel)⟩

/-- `DENY_PV=TEST`, and a tab -/
def denyTabbed : Line where
  item := .pvRule .deny ⟨bytes "TEST", by decide +kernel, by decide⟩
  trailing := [chr '\t']
  blank := by decide +kernel
  comment := none
  unbroken := nofun

/-- `CA_SEARCH_ADDRESS=192.168.1.255:5064`, and a tab -/
def searchTabbed : Line := { searchLine with trailing := [chr '\t'], blank := by decide +kernel }

/-- `CA_SEARCH_ADDRESS=192.168.1.255:65535` -/
def searchLastPort : Line where
  item := .searchAddress { subnet with
    port := ⟨bytes "65535", by decide +kernel, by decide, by decide⟩
    port_pos := by decide +kernel
    port_le := by decide +kernel }
  trailing := []
  blank := nofun
  comment := none
  unbroken := nofun

/-- A rule with a tab behind it denies another name than it was written for,
and an address with a tab behind it, or with the last port, is dropped. -/
theorem not_roundTrip :
    ¬ RoundTrip (fun _ => true) [denyTabbed] true ∧
      ¬ RoundTrip (fun _ => true) [searchTabbed] true ∧
      ¬ RoundTrip (fun _ => true) [searchLastPort] true := by
  refine ⟨?_, ?_, ?_⟩
  · rintro ⟨r, hFile, hAgrees⟩
    have hRules : (parseFile (fun _ => true) {} (fileText [denyTabbed] true)).map
        (fun r => r.1.accessControl.pvs.map AccessEntry.regex) = some [bytes "TEST\t"] := by
      decide +kernel
    rw [hFile, Option.map_some, hAgrees.pvs] at hRules
    exact absurd hRules (by decide +kernel)
  · rintro ⟨r, hFile, hAgrees⟩
    have hDropped : (parseFile (fun _ => true) {} (fileText [searchTabbed] true)).map
        (fun r => r.1.caSearchAddresses) = some [] := by
      decide +kernel
    rw [hFile, Option.map_some, hAgrees.search] at hDropped
    exact absurd hDropped (by decide +kernel)
  · rintro ⟨r, hFile, hAgrees⟩
    have hDropped : (parseFile (fun _ => true) {} (fileText [searchLastPort] true)).map
        (fun r => r.1.caSearchAddresses) = some [] := by
      decide +kernel
    rw [hFile, Option.map_some, hAgrees.search] at hDropped
    exact absurd hDropped (by decide +kernel)

end Config

end PVmapper
