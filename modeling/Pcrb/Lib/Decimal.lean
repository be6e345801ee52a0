import Mathlib.Data.Nat.Digits.Defs
import Mathlib.Data.Nat.Digits.Lemmas

/-!
# Decimal text

`render` writes a natural number as its ASCII decimal digits, `value` reads a
digit string. `value_render` is the round trip.
-/

namespace Decimal

/-- An ASCII decimal digit. -/
def isDigit (b : UInt8) : Bool := 48 ≤ b && b ≤ 57

/-- The number of an ASCII digit. -/
def digit (b : UInt8) : ℕ := b.toNat - 48

/-- The decimal digits of `n`, most significant first. -/
def render (n : ℕ) : List UInt8 :=
  if n = 0 then [48] else (Nat.digits 10 n).reverse.map fun d => UInt8.ofNat (48 + d)

/-- The value of a digit string read after the value `acc`. -/
def valueFrom (acc : ℕ) (ds : List UInt8) : ℕ := ds.foldl (fun v b => 10 * v + digit b) acc

/-- The value of a digit string. -/
def value (ds : List UInt8) : ℕ := valueFrom 0 ds

@[simp] theorem valueFrom_nil (acc : ℕ) : valueFrom acc [] = acc := rfl

@[simp] theorem valueFrom_cons (acc : ℕ) (b : UInt8) (ds : List UInt8) :
    valueFrom acc (b :: ds) = valueFrom (10 * acc + digit b) ds := by
  unfold valueFrom; rw [List.foldl_cons]

theorem toNat_ascii {d : ℕ} (h : d < 10) : (UInt8.ofNat (48 + d)).toNat = 48 + d := by
  rw [UInt8.toNat_ofNat']; omega

theorem isDigit_iff {b : UInt8} : isDigit b = true ↔ 48 ≤ b.toNat ∧ b.toNat ≤ 57 := by
  simp [isDigit, UInt8.le_iff_toNat_le]

theorem isDigit_ascii {d : ℕ} (h : d < 10) : isDigit (UInt8.ofNat (48 + d)) = true := by
  rw [isDigit_iff, toNat_ascii h]; omega

theorem digit_ascii {d : ℕ} (h : d < 10) : digit (UInt8.ofNat (48 + d)) = d := by
  unfold digit; rw [toNat_ascii h]; omega

theorem render_ne_nil (n : ℕ) : render n ≠ [] := by
  unfold render; split
  · simp
  · rename_i h; simpa using Nat.digits_ne_nil_iff_ne_zero.2 h

/-- Every character of a rendered number is a digit. -/
theorem isDigit_of_mem_render {n : ℕ} {b : UInt8} (h : b ∈ render n) : isDigit b = true := by
  unfold render at h
  split at h
  · simp at h; subst h; decide
  · obtain ⟨d, hd, rfl⟩ := List.mem_map.1 h
    exact isDigit_ascii (Nat.digits_lt_base (by decide) (List.mem_reverse.1 hd))

theorem valueFrom_digits (ds : List ℕ) (h : ∀ d ∈ ds, d < 10) (acc : ℕ) :
    valueFrom acc (ds.reverse.map fun d => UInt8.ofNat (48 + d)) =
      acc * 10 ^ ds.length + Nat.ofDigits 10 ds := by
  induction ds generalizing acc with
  | nil => simp
  | cons d ds ih =>
    have ih := ih (fun x hx => h x (List.mem_cons_of_mem _ hx)) acc
    unfold valueFrom at ih ⊢
    rw [List.reverse_cons, List.map_append, List.foldl_append, ih]
    simp only [List.map_cons, List.map_nil, List.foldl_cons, List.foldl_nil,
      digit_ascii (h d List.mem_cons_self), List.length_cons, pow_succ, Nat.ofDigits_cons]
    ring

/-- **Round trip.** Reading a rendered number gives it back. -/
theorem value_render (n : ℕ) : value (render n) = n := by
  unfold render value
  split
  · rename_i h; subst h; rfl
  · rw [valueFrom_digits _ fun d hd => Nat.digits_lt_base (by decide) hd, Nat.zero_mul,
      Nat.zero_add, Nat.ofDigits_digits]

theorem length_render_pos (n : ℕ) : 0 < (render n).length :=
  List.length_pos_iff.2 (render_ne_nil n)

/-- One digit is enough exactly below ten. -/
theorem length_render_le_one {n : ℕ} : (render n).length ≤ 1 ↔ n < 10 := by
  unfold render
  split
  · rename_i h; subst h; simp
  · rw [List.length_map, List.length_reverse, Nat.digits_length_le_iff (by decide), pow_one]

theorem length_render_le {n k : ℕ} (hk : 0 < k) (h : n < 10 ^ k) : (render n).length ≤ k := by
  unfold render
  split
  · simpa using Nat.succ_le_of_lt hk
  · rw [List.length_map, List.length_reverse]
    exact (Nat.digits_length_le_iff (by decide) _).2 h

end Decimal
