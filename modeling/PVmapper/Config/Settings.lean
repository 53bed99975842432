import PVmapper.Lib.Fields
import PVmapper.Model.ConfigFile

/-!
# PVmapper — the order of a configuration file

Each line of a configuration file is about one setting, or about none. Which
rule for PVs comes before which matters, and so it does for the addresses and
for a value that is set twice; but how the lines for one setting are mixed with
the lines for the others does not, nor do comments, blank lines and lines that
no pattern takes.

* `parseLine_rules`      — a line is tried on a table of patterns.
* `parseLine_changes`    — it changes the one setting it is about.
* `settings_independent` — the files.
-/

namespace PVmapper

namespace Config

open Pattern (fullMatch captured Captures)

/-- What a line can be about. -/
inductive Setting
  | pvRules
  | clientRules
  | logLevel
  | syslogFacility
  | syslogId
  | searchIntervals
  | purgeDelay
  | caListenAddresses
  | caSearchAddresses
deriving DecidableEq, Repr

namespace Setting

/-- What is kept of a setting. -/
def Value : Setting → Type
  | pvRules => List (AccessEntry Bytes)
  | clientRules => List (AccessEntry Bytes)
  | logLevel => Level
  | syslogFacility => Bytes
  | syslogId => Bytes
  | searchIntervals => List UInt32
  | purgeDelay => UInt32
  | caListenAddresses => List Address
  | caSearchAddresses => List Address

/-- The setting in the options. -/
def get : (k : Setting) → Options → k.Value
  | pvRules, o => o.accessControl.pvs
  | clientRules, o => o.accessControl.clients
  | logLevel, o => o.logLevel
  | syslogFacility, o => o.syslogFacility
  | syslogId, o => o.syslogId
  | searchIntervals, o => o.searchIntervals
  | purgeDelay, o => o.purgeDelay
  | caListenAddresses, o => o.caListenAddresses
  | caSearchAddresses, o => o.caSearchAddresses

/-- The options with another value of the setting. -/
def set : (k : Setting) → k.Value → Options → Options
  | pvRules, v, o => { o with accessControl := { o.accessControl with pvs := v } }
  | clientRules, v, o => { o with accessControl := { o.accessControl with clients := v } }
  | logLevel, v, o => { o with logLevel := v }
  | syslogFacility, v, o => { o with syslogFacility := v }
  | syslogId, v, o => { o with syslogId := v }
  | searchIntervals, v, o => { o with searchIntervals := v }
  | purgeDelay, v, o => { o with purgeDelay := v }
  | caListenAddresses, v, o => { o with caListenAddresses := v }
  | caSearchAddresses, v, o => { o with caSearchAddresses := v }

end Setting

/-- The options are the settings. -/
def settings : Fields Options Setting where
  Value := Setting.Value
  get := Setting.get
  set := Setting.set
  get_set_ne := by
    intro k k' v s h
    cases k <;> cases k' <;> first | rfl | exact absurd rfl h
  set_comm := by
    intro k k' v v' s h
    cases k <;> cases k' <;> first | rfl | exact absurd rfl h

-- ---------------------------------------------------------------------------
-- A line
-- ---------------------------------------------------------------------------

/-- A pattern, what it is about, and what is done with its captures. -/
structure LineRule where
  pattern : Pattern UInt8
  setting : Setting
  run : Captures UInt8 → Options → Option (Options × List Bytes)

/-- The first rule whose pattern takes the line is run. -/
def runFirst (o : Options) (line : Bytes) : List LineRule → Option (Options × List Bytes)
  | [] => some (o, [])
  | rule :: rules =>
    match fullMatch rule.pattern line with
    | some tokens => rule.run tokens o
    | none => runFirst o line rules

variable (validRegex : Bytes → Bool)

/-- The branches of `parseFile`. -/
def lineRules : List LineRule :=
  [⟨reAllowPvs, .pvRules, fun tokens o =>
      (addPvRule validRegex o .allow (captured 1 tokens)).map (·, [])⟩,
    ⟨reDenyPvs, .pvRules, fun tokens o =>
      (addPvRule validRegex o .deny (captured 1 tokens)).map (·, [])⟩,
    ⟨reAllowClients, .clientRules, fun tokens o =>
      (addClientRule validRegex o .allow (captured 1 tokens)).map (·, [])⟩,
    ⟨reDenyClients, .clientRules, fun tokens o =>
      (addClientRule validRegex o .deny (captured 1 tokens)).map (·, [])⟩,
    ⟨reLogLevel, .logLevel, fun tokens o => some (setLogLevel o (captured 1 tokens))⟩,
    ⟨reLogFacility, .syslogFacility, fun tokens o =>
      some ({ o with syslogFacility := captured 1 tokens }, [])⟩,
    ⟨reLogId, .syslogId, fun tokens o => some ({ o with syslogId := captured 1 tokens }, [])⟩,
    ⟨reSearchInt, .searchIntervals, fun tokens o =>
      some (setSearchIntervals o (captured 1 tokens))⟩,
    ⟨rePurgeDelay, .purgeDelay, fun tokens o => some (setPurgeDelay o (captured 1 tokens))⟩,
    ⟨reCaListenAddr, .caListenAddresses, fun tokens o =>
      some (addListenAddress o (captured 1 tokens) (captured 4 tokens), [])⟩,
    ⟨reCaSearchAddr, .caSearchAddresses, fun tokens o =>
      some (addSearchAddress o (captured 1 tokens) (captured 4 tokens), [])⟩]

/-- `parseLine` runs the first rule that takes the line. -/
theorem parseLine_rules (o : Options) (line : Bytes) :
    parseLine validRegex o line = runFirst o line (lineRules validRegex) := rfl

/-- The patterns, in the order they are tried, and what they are about. -/
def linePatterns : List (Pattern UInt8 × Setting) :=
  [(reAllowPvs, .pvRules), (reDenyPvs, .pvRules), (reAllowClients, .clientRules),
    (reDenyClients, .clientRules), (reLogLevel, .logLevel), (reLogFacility, .syslogFacility),
    (reLogId, .syslogId), (reSearchInt, .searchIntervals), (rePurgeDelay, .purgeDelay),
    (reCaListenAddr, .caListenAddresses), (reCaSearchAddr, .caSearchAddresses)]

/-- The setting a line is about. -/
def settingOf (line : Bytes) : Option Setting :=
  (linePatterns.find? fun p => (fullMatch p.1 line).isSome).map Prod.snd

/-- What a line is about is decided by the same rule. -/
theorem settingOf_rules (line : Bytes) :
    settingOf line =
      ((lineRules validRegex).find? fun rule => (fullMatch rule.pattern line).isSome).map
        LineRule.setting := by
  have hPatterns : linePatterns =
      (lineRules validRegex).map fun rule => (rule.pattern, rule.setting) := rfl
  rw [settingOf, hPatterns, List.find?_map, Option.map_map]
  rfl

/-- The action changes the setting, or fails, and what it prints does not
depend on the options. -/
def Sets (k : Setting) (g : Options → Option (Options × List Bytes)) : Prop :=
  ∃ printed f, settings.Changes k f ∧ ∀ o, g o = (f o).map (·, printed)

variable {validRegex}

/-- A PV rule changes the PV rules only. -/
theorem sets_pvRule (action : Action) (pattern : Bytes) :
    Sets .pvRules fun o => (addPvRule validRegex o action pattern).map (·, []) :=
  ⟨[], fun o => addPvRule validRegex o action pattern,
    ⟨fun (rules : List (AccessEntry Bytes)) =>
      (entry validRegex action pattern).map fun e => rules ++ [e], fun o => by
      unfold addPvRule
      rw [Option.map_map]
      rfl⟩,
    fun _ => rfl⟩

/-- A client rule changes the client rules only. -/
theorem sets_clientRule (action : Action) (pattern : Bytes) :
    Sets .clientRules fun o => (addClientRule validRegex o action pattern).map (·, []) :=
  ⟨[], fun o => addClientRule validRegex o action pattern,
    ⟨fun (rules : List (AccessEntry Bytes)) =>
      (entry validRegex action pattern).map fun e => rules ++ [e], fun o => by
      unfold addClientRule
      rw [Option.map_map]
      rfl⟩,
    fun _ => rfl⟩

/-- An action that does not fail. -/
theorem Sets.of_always {k : Setting} {g : Options → Options × List Bytes} (printed : List Bytes)
    (value : k.Value → k.Value) (h : ∀ o, g o = (k.set (value (k.get o)) o, printed)) :
    Sets k fun o => some (g o) :=
  ⟨printed, fun o => some (k.set (value (k.get o)) o), ⟨fun v => some (value v), fun _ => rfl⟩,
    fun o => congrArg some (h o)⟩

/-- A log level changes the log level only, whatever is printed. -/
theorem sets_logLevel (value : Bytes) : Sets .logLevel fun o => some (setLogLevel o value) := by
  unfold setLogLevel
  split_ifs
  · exact .of_always [] (fun _ => .info) fun _ => rfl
  · exact .of_always [] (fun _ => .verbose) fun _ => rfl
  · exact .of_always [] (fun _ => .debug) fun _ => rfl
  · exact .of_always [] (fun _ => .error) fun _ => rfl
  · exact .of_always _ id fun _ => rfl

/-- Search intervals change the search intervals only. -/
theorem sets_searchIntervals (value : Bytes) :
    Sets .searchIntervals fun o => some (setSearchIntervals o value) := by
  exact .of_always _ (fun _ => searchIntervals value) fun _ => rfl

/-- A purge delay changes the purge delay only. -/
theorem sets_purgeDelay (value : Bytes) :
    Sets .purgeDelay fun o => some (setPurgeDelay o value) := by
  unfold setPurgeDelay
  dsimp only
  split_ifs
  · exact .of_always [] (fun _ => UInt32.ofInt (atol (cStr value))) fun _ => rfl
  · exact .of_always _ id fun _ => rfl

/-- A listen address changes the listen addresses only. -/
theorem sets_listenAddress (addr port : Bytes) :
    Sets .caListenAddresses fun o => some (addListenAddress o addr port, []) := by
  unfold addListenAddress
  cases parsePort port with
  | none => exact .of_always [] id fun _ => rfl
  | some port =>
    exact .of_always [] (fun addrs : List Address => addrs ++ [(addr, port)]) fun _ => rfl

/-- A search address changes the search addresses only. -/
theorem sets_searchAddress (addr port : Bytes) :
    Sets .caSearchAddresses fun o => some (addSearchAddress o addr port, []) := by
  unfold addSearchAddress
  cases parsePort port with
  | none => exact .of_always [] id fun _ => rfl
  | some port =>
    exact .of_always [] (fun addrs : List Address => addrs ++ [(addr, port)]) fun _ => rfl

/-- Every branch changes the setting it is about. -/
theorem sets_of_mem {rule : LineRule} (h : rule ∈ lineRules validRegex)
    (tokens : Captures UInt8) : Sets rule.setting (rule.run tokens) := by
  simp only [lineRules, List.mem_cons, List.not_mem_nil, or_false] at h
  rcases h with rfl | rfl | rfl | rfl | rfl | rfl | rfl | rfl | rfl | rfl | rfl
  · exact sets_pvRule .allow _
  · exact sets_pvRule .deny _
  · exact sets_clientRule .allow _
  · exact sets_clientRule .deny _
  · exact sets_logLevel _
  · exact .of_always [] (fun _ => captured 1 tokens) fun _ => rfl
  · exact .of_always [] (fun _ => captured 1 tokens) fun _ => rfl
  · exact sets_searchIntervals _
  · exact sets_purgeDelay _
  · exact sets_listenAddress _ _
  · exact sets_searchAddress _ _

/-- **A line changes the one setting it is about**, and prints the same whatever
the options are. -/
theorem parseLine_changes (validRegex : Bytes → Bool) (line : Bytes) :
    ∃ printed f, (∀ o, parseLine validRegex o line = (f o).map (·, printed)) ∧
      (∀ k, settingOf line = some k → settings.Changes k f) ∧
      (settingOf line = none → printed = [] ∧ ∀ o, f o = some o) := by
  simp only [parseLine_rules, settingOf_rules validRegex]
  have hAll : ∀ rule ∈ lineRules validRegex, ∀ tokens, Sets rule.setting (rule.run tokens) :=
    fun _ => sets_of_mem
  generalize lineRules validRegex = rules at hAll
  induction rules with
  | nil => exact ⟨[], some, fun _ => rfl, by simp, by simp⟩
  | cons rule rules ih =>
    cases hMatch : fullMatch rule.pattern line with
    | none =>
      simp only [runFirst, hMatch]
      rw [List.find?_cons_of_neg (by simp [hMatch])]
      exact ih fun rule' h => hAll rule' (List.mem_cons_of_mem _ h)
    | some tokens =>
      obtain ⟨printed, f, hChanges, hRun⟩ := hAll rule (List.mem_cons_self ..) tokens
      simp only [runFirst, hMatch]
      rw [List.find?_cons_of_pos (by simp [hMatch])]
      refine ⟨printed, f, hRun, fun k hk => ?_, by simp⟩
      obtain rfl : rule.setting = k := by simpa using hk
      exact hChanges

-- ---------------------------------------------------------------------------
-- A file
-- ---------------------------------------------------------------------------

/-- The options and what is printed, apart. -/
theorem parseLines_apart {printed : Bytes → List Bytes} {f : Bytes → Options → Option Options}
    (h : ∀ line o, parseLine validRegex o line = (f line o).map (·, printed line))
    (lines : List Bytes) (o : Options) :
    parseLines validRegex o lines =
      ((lines.map stripLine).foldlM (fun o line => f line o) o).map
        (·, (lines.map stripLine).flatMap printed) := by
  suffices hFrom : ∀ before, lines.foldlM (fun r line =>
      (parseLine validRegex r.1 (stripLine line)).map fun r' => (r'.1, r.2 ++ r'.2)) (o, before) =
      ((lines.map stripLine).foldlM (fun o line => f line o) o).map
        (·, before ++ (lines.map stripLine).flatMap printed) from hFrom []
  intro before
  induction lines generalizing o before with
  | nil => simp
  | cons line lines ih =>
    rw [List.foldlM_cons, List.map_cons, List.foldlM_cons, h]
    cases f (stripLine line) o with
    | none => rfl
    | some o' =>
      simp only [Option.map_some, Option.bind_eq_bind, Option.bind_some, List.flatMap_cons]
      rw [ih, List.append_assoc]

theorem flatMap_filter_isSome {printed : Bytes → List Bytes}
    (h : ∀ line, settingOf line = none → printed line = []) (lines : List Bytes) :
    (lines.filter fun line => (settingOf line).isSome).flatMap printed =
      lines.flatMap printed := by
  induction lines with
  | nil => rfl
  | cons line lines ih =>
    cases hSetting : settingOf line with
    | none =>
      rw [List.filter_cons_of_neg (by simp [hSetting]), List.flatMap_cons, h line hSetting, ih,
        List.nil_append]
    | some k =>
      rw [List.filter_cons_of_pos (by simp [hSetting]), List.flatMap_cons, List.flatMap_cons, ih]

/-- **The order between settings does not matter.** Two files whose lines agree
setting by setting are both accepted, with the same options and the same
complaints in some order, or both rejected. -/
theorem settings_independent {text text' : Bytes}
    (h : Fields.Fieldwise settingOf ((getlines text).map stripLine)
      ((getlines text').map stripLine)) (o : Options) :
    Option.Rel (fun r r' => r.1 = r'.1 ∧ r.2.Perm r'.2) (parseFile validRegex o text)
      (parseFile validRegex o text') := by
  choose printed f hLine hChanges hIdle using parseLine_changes validRegex
  have hActs : settings.Acts settingOf fun o line => f line o :=
    ⟨fun line k hk => hChanges line k hk, fun line o hNone => (hIdle line hNone).2 o⟩
  have hPrinted : ((getlines text).map stripLine).flatMap printed |>.Perm
      (((getlines text').map stripLine).flatMap printed) := by
    have hPerm := (Fields.perm_of_fieldwise h).flatMap_right printed
    rwa [flatMap_filter_isSome fun line hNone => (hIdle line hNone).1,
      flatMap_filter_isSome fun line hNone => (hIdle line hNone).1] at hPerm
  unfold parseFile
  rw [parseLines_apart hLine, parseLines_apart hLine, hActs.foldlM_fieldwise h]
  cases ((getlines text').map stripLine).foldlM (fun o line => f line o) o with
  | none => exact .none
  | some o' =>
    simp only [Option.map_some]
    refine .some ?_
    split
    · exact ⟨rfl, hPrinted⟩
    · exact ⟨rfl, hPrinted⟩

/-- Rules for PVs with a value that is not accepted in between. -/
def mixedFile : Bytes := bytes "ALLOW_PV=A\nPURGE_DELAY=0\nDENY_PV=.*\nSYSLOG_ID=x\n"

/-- The same settings in another order, and a comment. -/
def sortedFile : Bytes := bytes "# rules\nSYSLOG_ID=x\nALLOW_PV=A \nDENY_PV=.*\nPURGE_DELAY=0"

/-- The lines of a file, sorted by setting, are read the same. -/
theorem settings_independent_sorted :
    Option.Rel (fun r r' => r.1 = r'.1 ∧ r.2.Perm r'.2)
      (parseFile (fun _ => true) {} mixedFile) (parseFile (fun _ => true) {} sortedFile) := by
  have hSame : Fields.Fieldwise settingOf ((getlines mixedFile).map stripLine)
      ((getlines sortedFile).map stripLine) := by
    intro k
    cases k <;> decide +kernel
  exact settings_independent hSame {}

end Config

end PVmapper
