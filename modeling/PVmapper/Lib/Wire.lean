import Mathlib

/-!
# Wire: byte buffers, big-endian fields and length-prefixed record chains

Network formats made of records, each a fixed-size header that holds the
length of the payload behind it, are walked by jumping from header to header.
This module has the buffer side of such formats:

* `u16`/`bytes16`, `u32`/`bytes32` and `get16`, `get32` — big-endian fields,
  with the round trips `u16_bytes16`, `u32_bytes32`.
* `patch`   — overwriting a run of elements in place, and what a read sees
  afterwards (`get16_patch_of_disjoint`, `get16_patch_self`, ...).
* `offsets` — the header offsets a walk visits, all of them in bounds
  (`bound_of_mem_offsets`) and in records that do not overlap
  (`pairwise_offsets`). They depend only on the lengths met (`offsets_congr`),
  and what lies before the walk only shifts them (`offsets_add`).
-/

namespace Wire

/-! ## Big-endian fields -/

/-- The 16-bit number with the given high and low byte. -/
def u16 (hi lo : UInt8) : UInt16 := UInt16.ofNat (hi.toNat * 256 + lo.toNat)

/-- The 32-bit number with the given bytes, most significant first. -/
def u32 (a b c d : UInt8) : UInt32 :=
  UInt32.ofNat (((a.toNat * 256 + b.toNat) * 256 + c.toNat) * 256 + d.toNat)

/-- The bytes of a 16-bit number, high byte first. -/
def bytes16 (x : UInt16) : List UInt8 :=
  [UInt8.ofNat (x.toNat / 256), UInt8.ofNat x.toNat]

/-- The bytes of a 32-bit number, most significant first. -/
def bytes32 (x : UInt32) : List UInt8 :=
  [UInt8.ofNat (x.toNat / 16777216), UInt8.ofNat (x.toNat / 65536),
    UInt8.ofNat (x.toNat / 256), UInt8.ofNat x.toNat]

/-- A 16-bit number is read back from its bytes. -/
theorem u16_bytes16 (x : UInt16) :
    u16 (UInt8.ofNat (x.toNat / 256)) (UInt8.ofNat x.toNat) = x := by
  apply UInt16.toNat_inj.mp
  have hx := x.toNat_lt
  simp only [u16, UInt16.toNat_ofNat', UInt8.toNat_ofNat']
  omega

/-- A 32-bit number is read back from its bytes. -/
theorem u32_bytes32 (x : UInt32) :
    u32 (UInt8.ofNat (x.toNat / 16777216)) (UInt8.ofNat (x.toNat / 65536))
      (UInt8.ofNat (x.toNat / 256)) (UInt8.ofNat x.toNat) = x := by
  apply UInt32.toNat_inj.mp
  have hx := x.toNat_lt
  simp only [u32, UInt32.toNat_ofNat', UInt8.toNat_ofNat']
  omega

@[simp] theorem length_bytes16 (x : UInt16) : (bytes16 x).length = 2 := rfl

@[simp] theorem length_bytes32 (x : UInt32) : (bytes32 x).length = 4 := rfl

/-- The big-endian 16-bit field at offset `o`. -/
def get16 (b : List UInt8) (o : ℕ) : UInt16 := u16 (b.getD o 0) (b.getD (o + 1) 0)

/-- The big-endian 32-bit field at offset `o`. -/
def get32 (b : List UInt8) (o : ℕ) : UInt32 :=
  u32 (b.getD o 0) (b.getD (o + 1) 0) (b.getD (o + 2) 0) (b.getD (o + 3) 0)

/-- Buffers that agree on a field's bytes agree on the field. -/
theorem get16_congr {b b' : List UInt8} {o o' : ℕ}
    (h : ∀ i < 2, b.getD (o + i) 0 = b'.getD (o' + i) 0) : get16 b o = get16 b' o' := by
  have h0 := h 0 (by omega)
  have h1 := h 1 (by omega)
  simp only [Nat.add_zero] at h0
  rw [get16, get16, h0, h1]

/-- And so do 32-bit fields. -/
theorem get32_congr {b b' : List UInt8} {o o' : ℕ}
    (h : ∀ i < 4, b.getD (o + i) 0 = b'.getD (o' + i) 0) : get32 b o = get32 b' o' := by
  have h0 := h 0 (by omega)
  have h1 := h 1 (by omega)
  have h2 := h 2 (by omega)
  have h3 := h 3 (by omega)
  simp only [Nat.add_zero] at h0
  rw [get32, get32, h0, h1, h2, h3]

/-! ## Overwriting in place -/

section Patch

variable {α : Type*}

/-- Overwrites the elements from offset `o` on with `xs`; what would fall
behind the end is not written. -/
def patch (b : List α) (o : ℕ) : List α → List α
  | [] => b
  | x :: xs => patch (b.set o x) (o + 1) xs

@[simp] theorem length_patch (b : List α) (o : ℕ) (xs : List α) :
    (patch b o xs).length = b.length := by
  induction xs generalizing b o with
  | nil => rfl
  | cons x xs ih => rw [patch, ih, List.length_set]

/-- Outside the written run the buffer is unchanged. -/
theorem getD_patch_of_disjoint {b : List α} {o i : ℕ} {xs : List α} (d : α)
    (h : i < o ∨ o + xs.length ≤ i) : (patch b o xs).getD i d = b.getD i d := by
  induction xs generalizing b o with
  | nil => rfl
  | cons x xs ih =>
    rw [List.length_cons] at h
    rw [patch, ih (by omega), List.getD_eq_getElem?_getD, List.getD_eq_getElem?_getD,
      List.getElem?_set_ne (by omega)]

/-- Inside the written run the buffer holds what was written. -/
theorem getD_patch_self {b : List α} {o i : ℕ} {xs : List α} (d : α)
    (hi : i < xs.length) (hb : o + xs.length ≤ b.length) :
    (patch b o xs).getD (o + i) d = xs.getD i d := by
  induction xs generalizing b o i with
  | nil => simp at hi
  | cons x xs ih =>
    rw [List.length_cons] at hi hb
    rw [patch]
    cases i with
    | zero =>
      -- later writes go behind the first element
      rw [getD_patch_of_disjoint d (by omega), List.getD_eq_getElem?_getD, Nat.add_zero,
        List.getElem?_set_self (by omega)]
      rfl
    | succ i =>
      rw [show o + (i + 1) = o + 1 + i by omega, ih (by omega) (by rw [List.length_set]; omega),
        List.getD_cons_succ]

end Patch

/-- Overwriting other bytes leaves a 16-bit field. -/
theorem get16_patch_of_disjoint {b xs : List UInt8} {o i : ℕ}
    (h : i + 2 ≤ o ∨ o + xs.length ≤ i) : get16 (patch b o xs) i = get16 b i :=
  get16_congr fun _ _ => getD_patch_of_disjoint 0 (by omega)

/-- Overwriting other bytes leaves a 32-bit field. -/
theorem get32_patch_of_disjoint {b xs : List UInt8} {o i : ℕ}
    (h : i + 4 ≤ o ∨ o + xs.length ≤ i) : get32 (patch b o xs) i = get32 b i :=
  get32_congr fun _ _ => getD_patch_of_disjoint 0 (by omega)

/-- What is written into a 16-bit field is read back. -/
theorem get16_patch_self {b : List UInt8} {o : ℕ} (x : UInt16) (h : o + 2 ≤ b.length) :
    get16 (patch b o (bytes16 x)) o = x := by
  have hAt : ∀ i < 2, (patch b o (bytes16 x)).getD (o + i) 0 = (bytes16 x).getD i 0 :=
    fun i hi => getD_patch_self 0 (by simpa using hi) (by simpa)
  have h0 := hAt 0 (by omega)
  rw [Nat.add_zero] at h0
  rw [get16, h0, hAt 1 (by omega)]
  exact u16_bytes16 x

/-- What is written into a 32-bit field is read back. -/
theorem get32_patch_self {b : List UInt8} {o : ℕ} (x : UInt32) (h : o + 4 ≤ b.length) :
    get32 (patch b o (bytes32 x)) o = x := by
  have hAt : ∀ i < 4, (patch b o (bytes32 x)).getD (o + i) 0 = (bytes32 x).getD i 0 :=
    fun i hi => getD_patch_self 0 (by simpa using hi) (by simpa)
  have h0 := hAt 0 (by omega)
  rw [Nat.add_zero] at h0
  rw [get32, h0, hAt 1 (by omega), hAt 2 (by omega), hAt 3 (by omega)]
  exact u32_bytes32 x

/-! ## Chains of length-prefixed records -/

section Chain

variable {h : ℕ} [NeZero h]

/-- The header offsets a walk visits from offset `o` in a buffer of `size`
elements: a header takes `h` elements, and `len o` elements of payload follow
the header at `o`. The walk ends at the first offset whose header does not
fit any more. -/
def offsets (h : ℕ) [NeZero h] (len : ℕ → ℕ) (size o : ℕ) : List ℕ :=
  if o + h ≤ size then o :: offsets h len size (o + h + len o) else []
termination_by size - o
decreasing_by
  have := NeZero.pos h
  omega

/-- A header that fits is visited, and the walk goes on behind its payload. -/
theorem offsets_of_le {len : ℕ → ℕ} {size o : ℕ} (hFit : o + h ≤ size) :
    offsets h len size o = o :: offsets h len size (o + h + len o) := by
  rw [offsets, if_pos hFit]

/-- Where no header fits, the walk ends. -/
theorem offsets_of_lt {len : ℕ → ℕ} {size o : ℕ} (hFit : size < o + h) :
    offsets h len size o = [] := by
  rw [offsets, if_neg (by omega)]

/-- A visited header lies inside the buffer. -/
theorem bound_of_mem_offsets {len : ℕ → ℕ} {size o q : ℕ} (hq : q ∈ offsets h len size o) :
    o ≤ q ∧ q + h ≤ size := by
  fun_induction offsets h len size o with
  | case1 o hFit ih =>
    rcases List.mem_cons.mp hq with rfl | hq
    · exact ⟨le_rfl, hFit⟩
    · obtain ⟨hle, hFit'⟩ := ih hq
      exact ⟨by omega, hFit'⟩
  | case2 o hFit => simp at hq

/-- A walk depends only on the lengths of the records it visits. -/
theorem offsets_congr {len len' : ℕ → ℕ} {size o : ℕ}
    (hLen : ∀ q ∈ offsets h len size o, len' q = len q) :
    offsets h len' size o = offsets h len size o := by
  fun_induction offsets h len size o with
  | case1 o hFit ih =>
    rw [offsets_of_le hFit, hLen o (List.mem_cons_self ..),
      ih fun q hq => hLen q (List.mem_cons_of_mem _ hq)]
  | case2 o hFit => rw [offsets_of_lt (by omega)]

/-- Records do not overlap: the next header lies behind a record's payload. -/
theorem pairwise_offsets (len : ℕ → ℕ) (size o : ℕ) :
    (offsets h len size o).Pairwise fun q r => q + h + len q ≤ r := by
  fun_induction offsets h len size o with
  | case1 o hFit ih =>
    rw [List.pairwise_cons]
    exact ⟨fun r hr => (bound_of_mem_offsets hr).1, ih⟩
  | case2 o hFit => exact List.Pairwise.nil

/-- A walk that starts behind `k` more elements visits the same records. -/
theorem offsets_add (k : ℕ) (len : ℕ → ℕ) (size o : ℕ) :
    offsets h len (k + size) (k + o) =
      (offsets h (fun q => len (k + q)) size o).map (k + ·) := by
  fun_induction offsets h (fun q => len (k + q)) size o with
  | case1 o hFit ih =>
    rw [offsets_of_le (by omega), List.map_cons, ← ih]
    simp only [Nat.add_assoc]
  | case2 o hFit => rw [offsets_of_lt (by omega), List.map_nil]

end Chain

end Wire
