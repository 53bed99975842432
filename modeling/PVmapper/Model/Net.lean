import Mathlib

/-!
# PVmapper — byte strings, clock readings and IPv4 addresses

The values every component exchanges. A `std::string` and a
`std::basic_string<unsigned char>` both hold arbitrary bytes, so both are
`Bytes`. A `steady_clock::time_point` is an `Int`, its count of nanoseconds
since the clock's epoch, and so is the difference of two; `duration_cast`
truncates toward zero.
-/

namespace PVmapper

/-- `std::string` and `Protocol::Bytes`. -/
abbrev Bytes := List UInt8

/-- The byte of a character literal. -/
def chr (c : Char) : UInt8 := UInt8.ofNat c.toNat

/-- A C string read from `s`: everything before the first NUL. -/
def cStr (s : Bytes) : Bytes := s.takeWhile (· != 0)

/-- `isspace`, in the C locale. -/
def isSpace (c : UInt8) : Bool := c == 32 || (9 ≤ c && c ≤ 13)

/-! ## Clock -/

/-- `duration_cast<std::chrono::milliseconds>(diff).count()` -/
def milliseconds (diff : Int) : Int := diff.tdiv 1000000

/-- `duration_cast<std::chrono::seconds>(diff).count()` -/
def seconds (diff : Int) : Int := diff.tdiv 1000000000

/-- Truncated to whole milliseconds below `n`, for `n > 0`: below `n` ms. -/
theorem milliseconds_lt_iff (diff : Int) {n : ℕ} (hn : 0 < n) :
    milliseconds diff < n ↔ diff < n * 1000000 := by
  rw [milliseconds, Int.tdiv_eq_ediv, show Int.sign 1000000 = 1 from rfl]
  split <;> omega

/-- Truncated to whole seconds above `n`: a full second more. -/
theorem lt_seconds_iff {diff : Int} {n : ℕ} :
    (n : Int) < seconds diff ↔ (n + 1) * 1000000000 ≤ diff := by
  rw [seconds, Int.tdiv_eq_ediv, show Int.sign 1000000000 = 1 from rfl]
  split <;> omega

/-! ## IPv4 addresses -/

/-- A `struct in_addr`, in network byte order. -/
structure InAddr where
  a : UInt8
  b : UInt8
  c : UInt8
  d : UInt8
deriving DecidableEq, Repr

/-- The memory image of an `in_addr`. -/
def InAddr.bytes (q : InAddr) : Bytes := [q.a, q.b, q.c, q.d]

@[simp] theorem InAddr.length_bytes (q : InAddr) : q.bytes.length = 4 := rfl

/-- (IP string, port), the key of `Dispatcher::m_iocs`. -/
abbrev Address := Bytes × UInt16

/-- The value of a digit in base 16 or less. -/
def digitValue (c : UInt8) : Option ℕ :=
  if chr '0' ≤ c ∧ c ≤ chr '9' then some (c.toNat - 48)
  else if chr 'a' ≤ c ∧ c ≤ chr 'f' then some (c.toNat - 87)
  else if chr 'A' ≤ c ∧ c ≤ chr 'F' then some (c.toNat - 55)
  else none

/-- A digit string in the given base, after the digits worth `acc`. -/
def readDigits (base : ℕ) : ℕ → Bytes → Option ℕ
  | acc, [] => some acc
  | acc, c :: cs =>
    match digitValue c with
    | some v => if v < base then readDigits base (acc * base + v) cs else none
    | none => none

/-- One part of an address: decimal, octal after `0`, hexadecimal after `0x`. -/
def readPart : Bytes → Option ℕ
  | [] => none
  | c :: cs =>
    if c = chr '0' then
      match cs with
      | x :: y :: ys => if x = chr 'x' ∨ x = chr 'X' then readDigits 16 0 (y :: ys) else readDigits 8 0 cs
      | _ => readDigits 8 0 cs
    else readDigits 10 0 (c :: cs)

/-- The address whose leading bytes are `hi` and whose remaining bytes hold
`last`; `none` if a part does not fit. -/
def assemble (hi : List ℕ) (last : ℕ) : Option InAddr :=
  if hi.length ≤ 3 ∧ (∀ p ∈ hi, p < 256) ∧ last < 256 ^ (4 - hi.length) then
    let n := hi.foldl (fun n p => n * 256 + p) 0 * 256 ^ (4 - hi.length) + last
    some ⟨UInt8.ofNat (n / 16777216), UInt8.ofNat (n / 65536), UInt8.ofNat (n / 256), UInt8.ofNat n⟩
  else none

/-- `inet_aton`: the forms `a.b.c.d`, `a.b.c`, `a.b` and `a`. White space ends
the address, and nothing behind it is read. -/
def inetAton (ip : Bytes) : Option InAddr :=
  match (((cStr ip).takeWhile fun c => !isSpace c).splitOn (chr '.')).mapM readPart with
  | some parts =>
    match parts.getLast? with
    | some last => assemble parts.dropLast last
    | none => none
  | none => none

/-- The decimal digits of an octet, without leading zeros. -/
def octetText (x : UInt8) : Bytes :=
  let digit := fun n : ℕ => UInt8.ofNat (48 + n % 10)
  if x < 10 then [digit x.toNat]
  else if x < 100 then [digit (x.toNat / 10), digit x.toNat]
  else [digit (x.toNat / 100), digit (x.toNat / 10), digit x.toNat]

/-- `inet_ntop(AF_INET, ..)`: dotted decimal. -/
def inetNtop (q : InAddr) : Bytes :=
  octetText q.a ++ chr '.' :: (octetText q.b ++ chr '.' :: (octetText q.c ++ chr '.' :: octetText q.d))

theorem readPart_octetText : ∀ x : UInt8, readPart (octetText x) = some x.toNat := by
  decide +kernel

theorem octetText_chars : ∀ x : UInt8, chr '.' ∉ octetText x ∧ 0 ∉ octetText x := by
  decide +kernel

theorem octetText_isSpace : ∀ x : UInt8, ((octetText x).all fun c => !isSpace c) = true := by
  decide +kernel

/-- A string without NUL bytes is its own C string. -/
theorem cStr_eq_self_iff {s : Bytes} : cStr s = s ↔ 0 ∉ s := by
  rw [cStr, List.takeWhile_eq_self_iff]
  constructor
  · intro h hMem
    simpa using h 0 hMem
  · intro h x hx
    simpa using fun h0 : x = 0 => h (h0 ▸ hx)

/-- An address is printed with dots and the digits of its octets. -/
theorem eq_or_mem_of_mem_inetNtop {q : InAddr} {c : UInt8} (h : c ∈ inetNtop q) :
    c = chr '.' ∨ ∃ x, c ∈ octetText x := by
  simp only [inetNtop, List.mem_append, List.mem_cons] at h
  rcases h with h | h | h | h | h | h | h
  · exact Or.inr ⟨q.a, h⟩
  · exact Or.inl h
  · exact Or.inr ⟨q.b, h⟩
  · exact Or.inl h
  · exact Or.inr ⟨q.c, h⟩
  · exact Or.inl h
  · exact Or.inr ⟨q.d, h⟩

/-- `inet_aton` reads back what `inet_ntop` prints. -/
theorem inetAton_inetNtop (q : InAddr) : inetAton (inetNtop q) = some q := by
  have hDot := fun x => (octetText_chars x).1
  have hNul := fun x => (octetText_chars x).2
  -- no octet prints a NUL, white space or a dot, so the string is read to its
  -- end and split at the dots put in
  have hC : cStr (inetNtop q) = inetNtop q := by
    rw [cStr_eq_self_iff]
    simp [inetNtop, hNul, chr]
  have hAll : ((inetNtop q).takeWhile fun c => !isSpace c) = inetNtop q := by
    rw [List.takeWhile_eq_self_iff]
    intro c hc
    rcases eq_or_mem_of_mem_inetNtop hc with rfl | ⟨x, hx⟩
    · decide
    · exact List.all_eq_true.mp (octetText_isSpace x) c hx
  have hSplit : (inetNtop q).splitOn (chr '.') =
      [octetText q.a, octetText q.b, octetText q.c, octetText q.d] := by
    rw [inetNtop, List.splitOn_append_cons_self_of_not_mem (hDot q.a),
      List.splitOn_append_cons_self_of_not_mem (hDot q.b),
      List.splitOn_append_cons_self_of_not_mem (hDot q.c), List.splitOn_eq_singleton (hDot q.d)]
  have ha := q.a.toNat_lt
  have hb := q.b.toNat_lt
  have hc := q.c.toNat_lt
  have hd := q.d.toNat_lt
  -- the parts fit, and their digits in base 256 are the octets
  have hAssemble : assemble [q.a.toNat, q.b.toNat, q.c.toNat] q.d.toNat = some q := by
    rw [assemble, if_pos (by simp; omega)]
    simp only [List.foldl_cons, List.foldl_nil, List.length_cons, List.length_nil, Option.some.injEq]
    have hByte : ∀ (n : ℕ) (x : UInt8), n % 256 = x.toNat → UInt8.ofNat n = x := by
      intro n x h
      apply UInt8.toNat_inj.mp
      rw [UInt8.toNat_ofNat', h]
    congr 1 <;> exact hByte _ _ (by omega)
  simp [inetAton, hC, hAll, hSplit, readPart_octetText, hAssemble]

end PVmapper
