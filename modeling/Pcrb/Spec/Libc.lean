import Pcrb.Lib.Bytes
import Pcrb.Lib.Decimal

/-!
# The library functions the firmware calls

The C and C++ library calls whose results the firmware uses, on a 32-bit
little-endian machine: `snprintf` into memory, `strtoul` out of memory,
`std::from_chars` on a string view, and `ntoh` (`server.h`).
-/

namespace Pcrb

/-- Bytes in the address space. No scan of memory is longer. -/
def addressSpace : ℕ := 2 ^ 32

def ulongMax : ℕ := 2 ^ 32 - 1

/-- `snprintf` of an already formatted text: at most `size - 1` characters and a
terminating zero. The length of the whole text is returned. -/
def snprintf (m : Bytes) (a size : ℕ) (formatted : List UInt8) : Bytes × ℕ :=
  (if size = 0 then m else m.write a (formatted.take (size - 1) ++ [0]), formatted.length)

/-- White space in the C locale. -/
def isspace (b : UInt8) : Bool := b == 32 || (9 ≤ b && b ≤ 13)

/-- The address of the first byte that is not white space. -/
def skipSpace (m : Bytes) : ℕ → ℕ → ℕ
  | 0, a => a
  | n + 1, a => if isspace (m a) then skipSpace m n (a + 1) else a

/-- The value of the digits from `a` on, after the value `acc`, and the address of
the byte that ends them. -/
def scanDigits (m : Bytes) : ℕ → ℕ → ℕ → ℕ × ℕ
  | 0, a, acc => (acc, a)
  | n + 1, a, acc =>
    if Decimal.isDigit (m a) then scanDigits m n (a + 1) (10 * acc + Decimal.digit (m a))
    else (acc, a)

/-- `strtoul` in base 10: its value, and the address at which the scan stopped. -/
def strtoul (m : Bytes) (a : ℕ) : ℕ × ℕ :=
  let s := skipSpace m addressSpace a
  -- an optional sign, 45 for minus and 43 for plus
  let neg := m s == 45
  let d := if m s == 45 || m s == 43 then s + 1 else s
  let r := scanDigits m addressSpace d 0
  -- out of range gives the maximum, and a minus negates modulo 2^32
  (if ulongMax < r.1 then ulongMax else if neg then (2 ^ 32 - r.1) % 2 ^ 32 else r.1, r.2)

/-- `std::from_chars` for an `unsigned long`. Without a digit, or when the number
does not fit, `value` keeps what it held. -/
def fromChars (chars : List UInt8) (value : UInt32) : UInt32 :=
  let ds := chars.takeWhile Decimal.isDigit
  if ds = [] then value
  else if Decimal.value ds ≤ ulongMax then UInt32.ofNat (Decimal.value ds)
  else value

/-- `memcpy` of a `uint16_t` out of a buffer. -/
def load16 (m : Bytes) (a : ℕ) : UInt16 := UInt16.ofNat (Bytes.ofLE (m.read a 2))

/-- `memcpy` of a `uint32_t` out of a buffer. -/
def load32 (m : Bytes) (a : ℕ) : UInt32 := UInt32.ofNat (Bytes.ofLE (m.read a 4))

/-- `ntoh<uint16_t>`: a byte swap, the machine being little-endian. -/
def ntoh16 (data : UInt16) : UInt16 := UInt16.ofNat (Bytes.swap 2 data.toNat)

/-- `ntoh<uint32_t>`. -/
def ntoh32 (data : UInt32) : UInt32 := UInt32.ofNat (Bytes.swap 4 data.toNat)

/-! ### What they compute -/

theorem load16_toNat (m : Bytes) (a : ℕ) : (load16 m a).toNat = Bytes.ofLE (m.read a 2) := by
  have h := Bytes.ofLE_lt (m.read a 2)
  rw [Bytes.length_read] at h
  rw [load16, UInt16.toNat_ofNat', Nat.mod_eq_of_lt (by simpa using h)]

theorem load32_toNat (m : Bytes) (a : ℕ) : (load32 m a).toNat = Bytes.ofLE (m.read a 4) := by
  have h := Bytes.ofLE_lt (m.read a 4)
  rw [Bytes.length_read] at h
  rw [load32, UInt32.toNat_ofNat', Nat.mod_eq_of_lt (by simpa using h)]

theorem ntoh16_load16 (m : Bytes) (a : ℕ) :
    (ntoh16 (load16 m a)).toNat = Bytes.ofBE (m.read a 2) := by
  have hb := Bytes.ofBE_lt (m.read a 2)
  have hs := Bytes.swap_ofLE (m.read a 2)
  rw [Bytes.length_read] at hb hs
  rw [ntoh16, load16_toNat, UInt16.toNat_ofNat', hs, Nat.mod_eq_of_lt (by simpa using hb)]

theorem ntoh32_load32 (m : Bytes) (a : ℕ) :
    (ntoh32 (load32 m a)).toNat = Bytes.ofBE (m.read a 4) := by
  have hb := Bytes.ofBE_lt (m.read a 4)
  have hs := Bytes.swap_ofLE (m.read a 4)
  rw [Bytes.length_read] at hb hs
  rw [ntoh32, load32_toNat, UInt32.toNat_ofNat', hs, Nat.mod_eq_of_lt (by simpa using hb)]

/-- **Network order.** A received word is `x` exactly when its bytes are those of
`x`, most significant first. -/
theorem ntoh32_load32_eq_iff {m : Bytes} {a : ℕ} {x : UInt32} :
    ntoh32 (load32 m a) = x ↔ m.read a 4 = Bytes.toBE 4 x.toNat := by
  rw [← UInt32.toNat_inj, ntoh32_load32]
  have h := @Bytes.ofBE_eq_iff (m.read a 4) x.toNat (by simpa using x.toNat_lt)
  rwa [Bytes.length_read] at h

theorem load32_congr {m m' : Bytes} {a : ℕ} (h : ∀ i, i < 4 → m (a + i) = m' (a + i)) :
    load32 m a = load32 m' a := by
  rw [load32, load32, Bytes.read_congr h]

theorem skipSpace_of_not {m : Bytes} {a n : ℕ} (h : isspace (m a) = false) :
    skipSpace m n a = a := by
  cases n with
  | zero => rfl
  | succ n => simp [skipSpace, h]

/-- White space is skipped up to the first other byte. -/
theorem skipSpace_spec (m : Bytes) (n a : ℕ) :
    a ≤ skipSpace m n a ∧ skipSpace m n a ≤ a + n ∧
      (∀ i, a ≤ i → i < skipSpace m n a → isspace (m i) = true) ∧
      (skipSpace m n a < a + n → isspace (m (skipSpace m n a)) = false) := by
  induction n generalizing a with
  | zero =>
    refine ⟨le_rfl, le_rfl, fun i h1 h2 => ?_, fun h => ?_⟩
    · simp only [skipSpace] at h2
      omega
    · simp only [skipSpace] at h
      omega
  | succ n ih =>
    rw [skipSpace]
    split
    · rename_i hspace
      obtain ⟨h1, h2, h3, h4⟩ := ih (a + 1)
      refine ⟨by omega, by omega, fun i hi hlt => ?_, fun h => h4 (by omega)⟩
      rcases Nat.eq_or_lt_of_le hi with heq | hgt
      · rw [← heq]
        exact hspace
      · exact h3 i hgt hlt
    · rename_i hspace
      refine ⟨le_rfl, by omega, fun i h1 h2 => by omega, fun _ => ?_⟩
      simpa using hspace

/-- Digits are scanned up to the first other byte. -/
theorem scanDigits_spec (m : Bytes) (n a c : ℕ) :
    a ≤ (scanDigits m n a c).2 ∧ (scanDigits m n a c).2 ≤ a + n ∧
      (∀ i, a ≤ i → i < (scanDigits m n a c).2 → Decimal.isDigit (m i) = true) ∧
      ((scanDigits m n a c).2 < a + n → Decimal.isDigit (m (scanDigits m n a c).2) = false) := by
  induction n generalizing a c with
  | zero =>
    refine ⟨le_rfl, le_rfl, fun i h1 h2 => ?_, fun h => ?_⟩
    · simp only [scanDigits] at h2
      omega
    · simp only [scanDigits] at h
      omega
  | succ n ih =>
    rw [scanDigits]
    split
    · rename_i hdigit
      obtain ⟨h1, h2, h3, h4⟩ := ih (a + 1) (10 * c + Decimal.digit (m a))
      refine ⟨by omega, by omega, fun i hi hlt => ?_, fun h => h4 (by omega)⟩
      rcases Nat.eq_or_lt_of_le hi with heq | hgt
      · rw [← heq]
        exact hdigit
      · exact h3 i hgt hlt
    · rename_i hdigit
      refine ⟨le_rfl, by omega, fun i h1 h2 => ?_, fun _ => ?_⟩
      · dsimp only at h2
        omega
      · simpa using hdigit

/-- **A digit string ended by another character** is scanned to its value, and no further. -/
theorem scanDigits_text {m : Bytes} {ds : List UInt8} (hds : ∀ b ∈ ds, Decimal.isDigit b = true) :
    ∀ {n a c : ℕ}, ds.length < n → m.read a ds.length = ds →
      Decimal.isDigit (m (a + ds.length)) = false →
      scanDigits m n a c = (Decimal.valueFrom c ds, a + ds.length) := by
  induction ds with
  | nil =>
    intro n a c hn _ hend
    obtain ⟨n, rfl⟩ : ∃ k, n = k + 1 := ⟨n - 1, by simp at hn; omega⟩
    simp at hend
    simp [scanDigits, hend]
  | cons b ds ih =>
    intro n a c hn hm hend
    rw [List.length_cons] at hn hm hend
    obtain ⟨n, rfl⟩ : ∃ k, n = k + 1 := ⟨n - 1, by omega⟩
    rw [Bytes.read_succ] at hm
    obtain ⟨hb, hrest⟩ := List.cons.inj hm
    rw [scanDigits, hb, if_pos (hds b List.mem_cons_self),
      ih (fun c hc => hds c (List.mem_cons_of_mem _ hc)) (by omega) hrest
        (by rw [← hend]; congr 2; omega), Decimal.valueFrom_cons, List.length_cons]
    congr 1
    omega

/-- A digit is neither white space nor a sign. -/
theorem not_isspace_of_isDigit {b : UInt8} (h : Decimal.isDigit b = true) :
    isspace b = false ∧ b ≠ 45 ∧ b ≠ 43 := by
  have hb := Decimal.isDigit_iff.1 h
  refine ⟨?_, fun hc => ?_, fun hc => ?_⟩
  · have h13 : (13 : UInt8).toNat = 13 := rfl
    have h32 : (32 : UInt8).toNat = 32 := rfl
    simp only [isspace, Bool.or_eq_false_iff, Bool.and_eq_false_iff, beq_eq_false_iff_ne,
      decide_eq_false_iff_not, UInt8.le_iff_toNat_le, ← UInt8.toNat_inj, ne_eq]
    omega
  · rw [hc] at hb; revert hb; decide
  · rw [hc] at hb; revert hb; decide

/-- **A rendered number in memory**, ended by another character, is what `strtoul` reads. -/
theorem strtoul_render {m : Bytes} {a n : ℕ} (hn : n ≤ ulongMax)
    (hm : m.read a (Decimal.render n).length = Decimal.render n)
    (hend : Decimal.isDigit (m (a + (Decimal.render n).length)) = false) :
    strtoul m a = (n, a + (Decimal.render n).length) := by
  have hpos := Decimal.length_render_pos n
  have hlen : (Decimal.render n).length ≤ 10 :=
    Decimal.length_render_le (by decide) (by unfold ulongMax at hn; omega)
  -- the first byte is a digit, so there is no white space and no sign
  have hdigit : Decimal.isDigit (m a) = true := by
    apply Decimal.isDigit_of_mem_render (n := n)
    rw [← hm, ← Nat.succ_pred_eq_of_pos hpos, Bytes.read_succ]
    exact List.mem_cons_self
  obtain ⟨hspace, hminus, hplus⟩ := not_isspace_of_isDigit hdigit
  have hscan := scanDigits_text (n := addressSpace) (a := a) (c := 0)
    (fun b hb => Decimal.isDigit_of_mem_render hb) (by unfold addressSpace; omega) hm hend
  rw [show Decimal.valueFrom 0 (Decimal.render n) = n from Decimal.value_render n] at hscan
  unfold strtoul
  simp only [skipSpace_of_not hspace, beq_eq_false_iff_ne.2 hminus, beq_eq_false_iff_ne.2 hplus,
    Bool.or_false, Bool.false_eq_true, if_false, hscan]
  rw [if_neg (by omega)]

end Pcrb
