import Mathlib.Data.List.Induction
import Mathlib.Data.List.GetD
import Mathlib.Tactic.Common
import Mathlib.Tactic.Ring

/-!
# Byte memories and byte order

A memory is a function from addresses to bytes; `read` and `write` move lists of
bytes out of and into it. `ofLE`/`toLE` are the little-endian value of a byte
list and the bytes of a value; `swap` reverses the bytes of a value.

* `read_write`: what was written is read back; `write_outside`: elsewhere nothing
  changes; `write_append`: two adjacent writes are one.
* `swap_ofLE`: swapping a little-endian value gives the big-endian one.
* `foldl_overlay`: a memory driven by operations that each overlay some
  addresses holds, at every address, the latest byte stored there.
-/

/-- Memory contents, by address. -/
abbrev Bytes := ℕ → UInt8

/-- The bytes of an ASCII text. -/
def ascii (s : String) : List UInt8 := s.toList.map fun c => UInt8.ofNat c.toNat

namespace Bytes

/-- The `n` bytes from address `a` on. -/
def read (m : Bytes) (a n : ℕ) : List UInt8 := (List.range n).map fun i => m (a + i)

/-- Store a list of bytes from address `a` on. -/
def write (m : Bytes) (a : ℕ) (bs : List UInt8) : Bytes :=
  fun i => if a ≤ i ∧ i < a + bs.length then bs.getD (i - a) 0 else m i

@[simp] theorem length_read (m : Bytes) (a n : ℕ) : (m.read a n).length = n := by simp [read]

@[simp] theorem getElem_read (m : Bytes) (a n i : ℕ) (h : i < (m.read a n).length) :
    (m.read a n)[i] = m (a + i) := by simp [read]

theorem read_congr {m m' : Bytes} {a n : ℕ} (h : ∀ i, i < n → m (a + i) = m' (a + i)) :
    m.read a n = m'.read a n := by
  unfold read
  exact List.map_congr_left fun i hi => h i (List.mem_range.1 hi)

@[simp] theorem read_zero (m : Bytes) (a : ℕ) : m.read a 0 = [] := rfl

theorem read_add (m : Bytes) (a n k : ℕ) : m.read a (n + k) = m.read a n ++ m.read (a + n) k := by
  simp [read, List.range_add, Nat.add_assoc]

theorem read_succ (m : Bytes) (a n : ℕ) : m.read a (n + 1) = m a :: m.read (a + 1) n := by
  rw [Nat.add_comm, read_add]; rfl

/-- The bytes from `a` to `c`, parted at `b`. -/
theorem read_append {m : Bytes} {a b c : ℕ} (hab : a ≤ b) (hbc : b ≤ c) :
    m.read a (c - a) = m.read a (b - a) ++ m.read b (c - b) := by
  have hlen : c - a = (b - a) + (c - b) := by omega
  have hmid : a + (b - a) = b := by omega
  rw [hlen, read_add, hmid]

theorem take_read (m : Bytes) (a : ℕ) {n k : ℕ} (h : k ≤ n) : (m.read a n).take k = m.read a k := by
  obtain ⟨j, rfl⟩ := Nat.exists_eq_add_of_le h
  rw [read_add, List.take_left' (by simp)]

@[simp] theorem write_nil (m : Bytes) (a : ℕ) : m.write a [] = m := by
  funext i; simp [write]

theorem write_of_lt {m : Bytes} {a i : ℕ} {bs : List UInt8} (h : i < bs.length) :
    m.write a bs (a + i) = bs[i] := by
  simp [write, h]

theorem write_outside {m : Bytes} {a i : ℕ} {bs : List UInt8} (h : i < a ∨ a + bs.length ≤ i) :
    m.write a bs i = m i := by
  unfold write; rw [if_neg (by omega)]

/-- What is there may be written back. -/
theorem write_read (m : Bytes) (a n : ℕ) : m.write a (m.read a n) = m := by
  funext i
  by_cases h : i < a ∨ a + (m.read a n).length ≤ i
  · exact write_outside h
  · rw [not_or, not_lt, not_le] at h
    obtain ⟨j, rfl⟩ := Nat.exists_eq_add_of_le h.1
    rw [write_of_lt (by omega), getElem_read]

theorem write_apply (m : Bytes) (a : ℕ) (bs : List UInt8) (i : ℕ) :
    m.write a bs i = (if a ≤ i then bs[i - a]? else none).getD (m i) := by
  by_cases h1 : a ≤ i
  · rw [if_pos h1]
    by_cases h2 : i - a < bs.length
    · obtain ⟨j, rfl⟩ := Nat.exists_eq_add_of_le h1
      rw [Nat.add_sub_cancel_left] at h2 ⊢
      rw [write_of_lt h2, List.getElem?_eq_getElem h2, Option.getD_some]
    · rw [write_outside (by omega), List.getElem?_eq_none (by omega), Option.getD_none]
  · rw [if_neg h1, write_outside (by omega), Option.getD_none]

/-- **What was written is read back.** -/
theorem read_write (m : Bytes) (a : ℕ) (bs : List UInt8) : (m.write a bs).read a bs.length = bs := by
  apply List.ext_getElem (by simp)
  intro i h1 h2
  rw [getElem_read, write_of_lt h2]

theorem read_write_append (m : Bytes) (a : ℕ) (bs cs : List UInt8) :
    (m.write a (bs ++ cs)).read a bs.length = bs := by
  have h := read_write m a (bs ++ cs)
  rw [List.length_append, read_add] at h
  exact (List.append_inj h (by simp)).1

theorem read_write_within (m : Bytes) (a : ℕ) {bs : List UInt8} {i n : ℕ} (h : i + n ≤ bs.length) :
    (m.write a bs).read (a + i) n = (bs.drop i).take n := by
  apply List.ext_getElem (by rw [length_read, List.length_take, List.length_drop]; omega)
  intro j h1 h2
  rw [length_read] at h1
  rw [getElem_read, Nat.add_assoc, write_of_lt (by omega), List.getElem_take, List.getElem_drop]

theorem write_append (m : Bytes) (a : ℕ) (bs cs : List UInt8) :
    m.write a (bs ++ cs) = (m.write a bs).write (a + bs.length) cs := by
  funext i
  simp only [write, List.length_append]
  -- the address lies in the first part, in the second, or in neither
  by_cases h1 : a ≤ i ∧ i < a + bs.length
  · rw [if_pos (by omega), if_neg (by omega), if_pos h1, List.getD_append _ _ _ _ (by omega)]
  · by_cases h2 : a + bs.length ≤ i ∧ i < a + bs.length + cs.length
    · rw [if_pos (by omega), if_pos h2, List.getD_append_right _ _ _ _ (by omega), Nat.sub_add_eq]
    · rw [if_neg (by omega), if_neg h2, if_neg h1]

/-- A write changes nothing exactly if the bytes are there already. -/
theorem write_eq_self_iff {m : Bytes} {a : ℕ} {bs : List UInt8} :
    m.write a bs = m ↔ m.read a bs.length = bs := by
  constructor
  · intro h
    have hread := read_write m a bs
    rwa [h] at hread
  · intro h
    have hwrite := write_read m a bs.length
    rwa [h] at hwrite

/-! ### Byte order -/

/-- The value of a byte list, least significant byte first. -/
def ofLE : List UInt8 → ℕ
  | [] => 0
  | b :: bs => b.toNat + 256 * ofLE bs

/-- The `k` low bytes of a value, least significant first. -/
def toLE : ℕ → ℕ → List UInt8
  | 0, _ => []
  | k + 1, n => UInt8.ofNat (n % 256) :: toLE k (n / 256)

/-- The value of a byte list, most significant byte first. -/
def ofBE (bs : List UInt8) : ℕ := ofLE bs.reverse

/-- The `k` low bytes of a value, most significant first. -/
def toBE (k n : ℕ) : List UInt8 := (toLE k n).reverse

/-- Reverse the `k` bytes of a value. -/
def swap (k n : ℕ) : ℕ := ofLE (toLE k n).reverse

@[simp] theorem length_toLE (k n : ℕ) : (toLE k n).length = k := by
  induction k generalizing n with
  | zero => rfl
  | succ k ih => simp [toLE, ih]

@[simp] theorem length_toBE (k n : ℕ) : (toBE k n).length = k := by simp [toBE]

theorem ofLE_lt (bs : List UInt8) : ofLE bs < 256 ^ bs.length := by
  induction bs with
  | nil => simp [ofLE]
  | cons b bs ih =>
    have := b.toNat_lt
    rw [ofLE, List.length_cons, pow_succ]; omega

theorem ofBE_lt (bs : List UInt8) : ofBE bs < 256 ^ bs.length := by
  simpa [ofBE] using ofLE_lt bs.reverse

theorem toLE_ofLE (bs : List UInt8) : toLE bs.length (ofLE bs) = bs := by
  induction bs with
  | nil => rfl
  | cons b bs ih =>
    have := b.toNat_lt
    rw [List.length_cons, toLE, ofLE, show (b.toNat + 256 * ofLE bs) % 256 = b.toNat by omega,
      show (b.toNat + 256 * ofLE bs) / 256 = ofLE bs by omega, ih, UInt8.ofNat_toNat]

theorem ofLE_toLE {k n : ℕ} (h : n < 256 ^ k) : ofLE (toLE k n) = n := by
  induction k generalizing n with
  | zero => simp at h; simp [toLE, ofLE, h]
  | succ k ih =>
    have hd : n / 256 < 256 ^ k := by rw [pow_succ] at h; omega
    rw [toLE, ofLE, ih hd, UInt8.toNat_ofNat']
    omega

theorem ofBE_toBE {k n : ℕ} (h : n < 256 ^ k) : ofBE (toBE k n) = n := by
  rw [ofBE, toBE, List.reverse_reverse, ofLE_toLE h]

theorem toBE_inj {k n n' : ℕ} (hn : n < 256 ^ k) (hn' : n' < 256 ^ k) (h : toBE k n = toBE k n') :
    n = n' := by
  have hb := congrArg ofBE h
  rwa [ofBE_toBE hn, ofBE_toBE hn'] at hb

/-- **Swapping bytes** turns a little-endian value into the big-endian one. -/
theorem swap_ofLE (bs : List UInt8) : swap bs.length (ofLE bs) = ofBE bs := by
  rw [swap, toLE_ofLE, ofBE]

/-- A big-endian value determines its bytes. -/
theorem ofBE_eq_iff {bs : List UInt8} {n : ℕ} (h : n < 256 ^ bs.length) :
    ofBE bs = n ↔ bs = toBE bs.length n := by
  constructor
  · rintro rfl
    have := toLE_ofLE bs.reverse
    rw [List.length_reverse] at this
    rw [toBE, ofBE, this, List.reverse_reverse]
  · intro hb
    rw [hb, ofBE_toBE h]

/-! ### Memories driven by overlaying operations -/

section Overlay

variable {α : Type*} {V Op : Type*} (stores : Op → α → Option V)

/-- The latest value that a list of operations, oldest first, stored at `a`. -/
def latest (ops : List Op) (a : α) : Option V := ops.reverse.findSome? fun op => stores op a

theorem latest_append (ops : List Op) (op : Op) (a : α) :
    latest stores (ops ++ [op]) a = (stores op a).or (latest stores ops a) := by
  simp only [latest, List.reverse_append, List.reverse_singleton, List.singleton_append,
    List.findSome?_cons]
  cases stores op a <;> rfl

/-- An operation that stores nothing at `a` is not the latest to store there. -/
theorem latest_append_of_none {ops ops' : List Op} {a : α} (h : ∀ op ∈ ops', stores op a = none) :
    latest stores (ops ++ ops') a = latest stores ops a := by
  induction ops' using List.reverseRecOn with
  | nil => simp
  | append_singleton ops' op ih =>
    rw [← List.append_assoc, latest_append, h op (by simp), Option.none_or]
    exact ih fun o ho => h o (by simp [ho])

/-- **Overlays compose to the latest.** -/
theorem foldl_overlay {apply : (α → V) → Op → α → V} {ops : List Op} (m : α → V)
    (happly : ∀ op ∈ ops, ∀ m a, apply m op a = (stores op a).getD (m a)) (a : α) :
    ops.foldl apply m a = (latest stores ops a).getD (m a) := by
  induction ops using List.reverseRecOn with
  | nil => rfl
  | append_singleton ops op ih =>
    rw [List.foldl_append, List.foldl_cons, List.foldl_nil, happly op (by simp), latest_append,
      ih fun o ho => happly o (by simp [ho])]
    cases stores op a <;> rfl

end Overlay

end Bytes
