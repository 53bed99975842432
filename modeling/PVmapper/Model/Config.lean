import PVmapper.Model.Net

/-!
# PVmapper — the SEARCH_INTERVALS option (`config.cpp`)

How `Config::parseFile` turns the value of a `SEARCH_INTERVALS` line into the
list handed to every `Searcher`. The value is what the pattern `[0-9, ]+` of
that line captured; nothing here depends on that.
-/

namespace PVmapper

namespace Config

/-- `strip`, whose `" \t\n\r\f\v"` are the characters of `isspace`. -/
def strip (str : Bytes) : Bytes :=
  if str.all isSpace then str -- String is all whitespace
  else (str.dropWhile isSpace).rdropWhile isSpace

/-- The value of the leading decimal digits. -/
def leadingDigits (s : Bytes) : ℕ :=
  (s.takeWhile fun c => chr '0' ≤ c && c ≤ chr '9').foldl (fun n c => n * 10 + (c.toNat - 48)) 0

/-- `atol`: an optional sign and digits after any white space; what follows is
ignored, and values outside the range of `long` saturate. -/
def atol (s : Bytes) : Int :=
  match s.dropWhile isSpace with
  | c :: cs =>
    if c = chr '-' then max (-(2 ^ 63)) (-(leadingDigits cs : Int))
    else if c = chr '+' then min (2 ^ 63 - 1) (leadingDigits cs : Int)
    else min (2 ^ 63 - 1) (leadingDigits (c :: cs) : Int)
  | [] => 0

/-- `(unsigned)atol(tmp.c_str())`, for a token `tmp` -/
def tokenNumber (tmp : Bytes) : UInt32 := UInt32.ofInt (atol tmp)

/-- One token of `parseListUnsigned`; `none` rejects the whole list. -/
def parseToken (token : Bytes) : Option UInt32 :=
  let tmp := strip token
  let num := tokenNumber tmp
  if num = 0 ∧ tmp ≠ [chr '0'] then none else some num

/-- `parseListUnsigned` -/
def parseListUnsigned (str : Bytes) : List UInt32 :=
  match (str.splitOn (chr ',')).mapM parseToken with
  | some tokens => tokens
  | none => []

/-- The default of `search_intervals`. -/
def defaultIntervals : List UInt32 := [1, 5, 10, 30, 60, 300]

/-- `search_intervals` after a `SEARCH_INTERVALS` line with this value. -/
def searchIntervals (value : Bytes) : List UInt32 :=
  if parseListUnsigned value = [] then defaultIntervals else parseListUnsigned value

example : searchIntervals [49, 44, 32, 53] = [1, 5] := by decide +kernel

end Config

end PVmapper
