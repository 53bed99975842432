import PVmapper.Lib.Pattern
import PVmapper.Model.Config
import PVmapper.Model.Listener

/-!
# PVmapper — the configuration file (`config.cpp`)

`Config::parseFile` takes the comment and the trailing blanks off each line,
and then tries eleven patterns, one after the other, on what is left. The
patterns are matched against the whole line, so that their `^` and `$` add
nothing and are left out. A `std::regex` made from a rule is its text;
`validRegex` says which texts `std::regex` accepts, and the others throw.
-/

namespace PVmapper

open Pattern (fullMatch captured lit)

/-- `Log::Level` -/
inductive Level
  | debug
  | verbose
  | info
  | error
deriving DecidableEq, Repr

namespace Config

/-- A string literal. -/
def bytes (s : String) : Bytes := s.toList.map chr

/-- The members of `Config`, with their defaults. -/
structure Options where
  accessControl : AccessControl Bytes := ⟨[], []⟩
  logLevel : Level := .error
  syslogFacility : Bytes := []
  syslogId : Bytes := bytes "PVmapper"
  searchIntervals : List UInt32 := defaultIntervals
  purgeDelay : UInt32 := 600
  caListenAddresses : List Address := []
  caSearchAddresses : List Address := []

/-! ## Patterns -/

/-- `[ \t]` -/
def isBlank (c : UInt8) : Bool := c == chr ' ' || c == chr '\t'

/-- `[= \t]` -/
def isSeparator (c : UInt8) : Bool := c == chr '=' || isBlank c

/-- `[0-9]` -/
def isDigit (c : UInt8) : Bool := chr '0' ≤ c && c ≤ chr '9'

/-- `.`, anything but a line terminator -/
def isAny (c : UInt8) : Bool := c != chr '\n' && c != chr '\r'

/-- `[ \t]*` -/
def blanks : Pattern UInt8 := .rep (.one isBlank) 0 none

/-- `^[ \t]*KEY`, and what follows -/
def keyed (key : Bytes) (rest : Pattern UInt8) : Pattern UInt8 :=
  .seq blanks (.seq (lit key) rest)

/-- `[ \t]*(#.*)?$` -/
def ending : Pattern UInt8 :=
  .seq blanks (.rep (.group 2 (.seq (.one (· == chr '#')) (.rep (.one isAny) 0 none))) 0 (some 1))

/-- `^[ \t]*KEY[= \t]+([^# ]*)[ \t]*(#.*)?$` -/
def reRule (key : Bytes) : Pattern UInt8 :=
  keyed key (.seq (.rep (.one isSeparator) 1 none)
    (.seq (.group 1 (.rep (.one fun c => c != chr '#' && c != chr ' ') 0 none)) ending))

/-- `^[ \t]*KEY[= \t]([^# \t]*)[ \t]*(#.*)?$` -/
def reText (key : Bytes) : Pattern UInt8 :=
  keyed key (.seq (.one isSeparator)
    (.seq (.group 1 (.rep (.one fun c => c != chr '#' && !isBlank c) 0 none)) ending))

/-- `^[ \t]*KEY[= \t]+([0-9]{1,3}(\.[0-9]{1,3}){3})(:([0-9]{1,5}))?` -/
def reAddress (key : Bytes) : Pattern UInt8 :=
  keyed key (.seq (.rep (.one isSeparator) 1 none)
    (.seq
      (.group 1 (.seq (.rep (.one isDigit) 1 (some 3))
        (.rep (.group 2 (.seq (.one (· == chr '.')) (.rep (.one isDigit) 1 (some 3)))) 3 (some 3))))
      (.rep (.group 3 (.seq (.one (· == chr ':')) (.group 4 (.rep (.one isDigit) 1 (some 5))))) 0
        (some 1))))

def reAllowPvs : Pattern UInt8 := reRule (bytes "ALLOW_PV")

def reDenyPvs : Pattern UInt8 := reRule (bytes "DENY_PV")

def reAllowClients : Pattern UInt8 := reRule (bytes "ALLOW_CLIENT")

def reDenyClients : Pattern UInt8 := reRule (bytes "DENY_CLIENT")

def reLogLevel : Pattern UInt8 := reText (bytes "LOG_LEVEL")

def reLogFacility : Pattern UInt8 := reText (bytes "SYSLOG_FACILITY")

def reLogId : Pattern UInt8 := reText (bytes "SYSLOG_ID")

/-- `^[ \t]*SEARCH_INTERVALS[= \t]+([0-9, ]+)[ \t]*(#.*)?$` -/
def reSearchInt : Pattern UInt8 :=
  keyed (bytes "SEARCH_INTERVALS") (.seq (.rep (.one isSeparator) 1 none)
    (.seq (.group 1 (.rep (.one fun c => isDigit c || c == chr ',' || c == chr ' ') 1 none)) ending))

/-- `^[ \t]*PURGE_DELAY[= \t]+([0-9]+)[ \t]*(#.*)?$` -/
def rePurgeDelay : Pattern UInt8 :=
  keyed (bytes "PURGE_DELAY") (.seq (.rep (.one isSeparator) 1 none)
    (.seq (.group 1 (.rep (.one isDigit) 1 none)) ending))

def reCaListenAddr : Pattern UInt8 := reAddress (bytes "CA_LISTEN_ADDRESS")

def reCaSearchAddr : Pattern UInt8 := reAddress (bytes "CA_SEARCH_ADDRESS")

/-! ## Lines -/

/-- The lambda `toLower`. -/
def toLower (s : Bytes) : Bytes := s.map fun c => if chr 'A' ≤ c ∧ c ≤ chr 'Z' then c + 32 else c

/-- What is printed to `stderr` for a value that is not accepted. -/
def invalidValue (key value : Bytes) : Bytes :=
  bytes "ERROR: Invalid config value " ++ key ++ bytes "=" ++ cStr value ++ bytes "\n"

/-- Strips off any comments, and the trailing spaces. -/
def stripLine (line : Bytes) : Bytes :=
  let line := line.takeWhile (· != chr '#')
  if line.all (· == chr ' ') then line else line.rdropWhile (· == chr ' ')

/-- A port, if it is in the range that is accepted. -/
def parsePort (text : Bytes) : Option UInt16 :=
  let tmp := atol (cStr text)
  if tmp > 0 ∧ tmp < 65535 then some (UInt16.ofInt tmp) else none

section Parse

variable (validRegex : Bytes → Bool)

/-- `{action, std::regex(pattern), line}`; `none` is a thrown `regex_error`. -/
def entry (action : Action) (pattern : Bytes) : Option (AccessEntry Bytes) :=
  if validRegex pattern then some ⟨action, pattern⟩ else none

/-- Appends a rule for PVs. -/
def addPvRule (o : Options) (action : Action) (pattern : Bytes) : Option Options :=
  (entry validRegex action pattern).map fun e =>
    { o with accessControl := { o.accessControl with pvs := o.accessControl.pvs ++ [e] } }

/-- Appends a rule for clients. -/
def addClientRule (o : Options) (action : Action) (pattern : Bytes) : Option Options :=
  (entry validRegex action pattern).map fun e =>
    { o with accessControl := { o.accessControl with clients := o.accessControl.clients ++ [e] } }

/-- `log_level` after a `LOG_LEVEL` line. -/
def setLogLevel (o : Options) (value : Bytes) : Options × List Bytes :=
  if toLower value = bytes "info" then ({ o with logLevel := .info }, [])
  else if toLower value = bytes "verbose" then ({ o with logLevel := .verbose }, [])
  else if toLower value = bytes "debug" then ({ o with logLevel := .debug }, [])
  else if toLower value = bytes "error" then ({ o with logLevel := .error }, [])
  else (o, [invalidValue (bytes "LOG_LEVEL") value])

/-- `search_intervals` after a `SEARCH_INTERVALS` line. -/
def setSearchIntervals (o : Options) (value : Bytes) : Options × List Bytes :=
  ({ o with searchIntervals := searchIntervals value },
    if parseListUnsigned value = [] then [invalidValue (bytes "SEARCH_INTERVALS") value] else [])

/-- `purge_delay` after a `PURGE_DELAY` line. -/
def setPurgeDelay (o : Options) (value : Bytes) : Options × List Bytes :=
  let tmp := atol (cStr value)
  if tmp > 0 then ({ o with purgeDelay := UInt32.ofInt tmp }, [])
  else (o, [invalidValue (bytes "PURGE_DELAY") value])

/-- Appends an address to listen on, if its port is accepted. -/
def addListenAddress (o : Options) (addr port : Bytes) : Options :=
  match parsePort port with
  | some port => { o with caListenAddresses := o.caListenAddresses ++ [(addr, port)] }
  | none => o

/-- Appends an address to search on, if its port is accepted. -/
def addSearchAddress (o : Options) (addr port : Bytes) : Options :=
  match parsePort port with
  | some port => { o with caSearchAddresses := o.caSearchAddresses ++ [(addr, port)] }
  | none => o

/-- The body of the loop in `parseFile`, for a stripped line: the options, and
what is printed. -/
def parseLine (o : Options) (line : Bytes) : Option (Options × List Bytes) :=
  match fullMatch reAllowPvs line with
  | some tokens => (addPvRule validRegex o .allow (captured 1 tokens)).map (·, [])
  | none =>
  match fullMatch reDenyPvs line with
  | some tokens => (addPvRule validRegex o .deny (captured 1 tokens)).map (·, [])
  | none =>
  match fullMatch reAllowClients line with
  | some tokens => (addClientRule validRegex o .allow (captured 1 tokens)).map (·, [])
  | none =>
  match fullMatch reDenyClients line with
  | some tokens => (addClientRule validRegex o .deny (captured 1 tokens)).map (·, [])
  | none =>
  match fullMatch reLogLevel line with
  | some tokens => some (setLogLevel o (captured 1 tokens))
  | none =>
  match fullMatch reLogFacility line with
  | some tokens => some ({ o with syslogFacility := captured 1 tokens }, [])
  | none =>
  match fullMatch reLogId line with
  | some tokens => some ({ o with syslogId := captured 1 tokens }, [])
  | none =>
  match fullMatch reSearchInt line with
  | some tokens => some (setSearchIntervals o (captured 1 tokens))
  | none =>
  match fullMatch rePurgeDelay line with
  | some tokens => some (setPurgeDelay o (captured 1 tokens))
  | none =>
  match fullMatch reCaListenAddr line with
  | some tokens => some (addListenAddress o (captured 1 tokens) (captured 4 tokens), [])
  | none =>
  match fullMatch reCaSearchAddr line with
  | some tokens => some (addSearchAddress o (captured 1 tokens) (captured 4 tokens), [])
  | none => some (o, [])

/-- The lines `std::getline` reads from a file: no empty one behind the last
line break. -/
def getlines (text : Bytes) : List Bytes :=
  let lines := text.splitOn (chr '\n')
  if lines.getLast? = some [] then lines.dropLast else lines

/-- The loop in `parseFile`. -/
def parseLines (o : Options) (lines : List Bytes) : Option (Options × List Bytes) :=
  lines.foldlM (fun r line =>
    (parseLine validRegex r.1 (stripLine line)).map fun r' => (r'.1, r.2 ++ r'.2)) (o, [])

/-- The address to listen on if none is given. -/
def defaultListenAddress : Address := (bytes "0.0.0.0", 5053)

/-- `Config::parseFile`, for a file with this text. -/
def parseFile (o : Options) (text : Bytes) : Option (Options × List Bytes) :=
  (parseLines validRegex o (getlines text)).map fun r =>
    if r.1.caListenAddresses = [] then
      ({ r.1 with caListenAddresses := [defaultListenAddress] }, r.2)
    else r

end Parse

end Config

end PVmapper
