import Mathlib.Tactic.Common

/-!
# Buffers of a fixed size

A `Buffer α n` has `n` cells. `store` fills consecutive cells one after the other, and has
no result once it comes to a cell that is not there.

* `store_isSome_iff`: a store has a result exactly if all of it fits.
* `read_store`: what was stored is read back; `store_outside`: elsewhere nothing changes.
-/

/-- `n` cells. -/
abbrev Buffer (α : Type*) (n : ℕ) := Vector α n

namespace Buffer

variable {α : Type*} {n : ℕ}

/-- Store a list from cell `i` on. -/
def store (buf : Buffer α n) : ℕ → List α → Option (Buffer α n)
  | _, [] => some buf
  | i, x :: xs => if h : i < n then store (buf.set i x h) (i + 1) xs else none

/-- The `k` cells from `i` on. -/
def read (buf : Buffer α n) (i k : ℕ) : List α := (buf.toList.drop i).take k

variable {buf buf' : Buffer α n} {xs : List α} {i j k : ℕ}

@[simp] theorem store_nil : store buf i [] = some buf := rfl

theorem store_cons {x : α} (h : i < n) :
    store buf i (x :: xs) = store (buf.set i x h) (i + 1) xs := by
  rw [store, dif_pos h]

/-- **A store has a result exactly if all of it fits.** -/
theorem store_isSome_iff : (store buf i xs).isSome ↔ xs = [] ∨ i + xs.length ≤ n := by
  induction xs generalizing buf i with
  | nil => simp
  | cons x xs ih =>
    by_cases h : i < n
    · rw [store_cons h, ih, List.length_cons]
      constructor
      · rintro (rfl | hfit)
        · exact Or.inr h
        · exact Or.inr (by omega)
      · rintro (hnil | hfit)
        · exact absurd hnil (List.cons_ne_nil x xs)
        · exact Or.inr (by omega)
    · rw [store, dif_neg h, List.length_cons]
      constructor
      · intro hsome
        exact absurd hsome (by simp)
      · rintro (hnil | hfit)
        · exact absurd hnil (List.cons_ne_nil x xs)
        · omega

theorem exists_store (buf : Buffer α n) (h : i + xs.length ≤ n) :
    ∃ buf', store buf i xs = some buf' :=
  Option.isSome_iff_exists.1 (store_isSome_iff.2 (Or.inr h))

/-- Cells outside a store stay as they are. -/
theorem store_outside (h : store buf i xs = some buf') (hj : j < i ∨ i + xs.length ≤ j) :
    buf'[j]? = buf[j]? := by
  induction xs generalizing buf i with
  | nil =>
    obtain rfl : buf = buf' := by simpa using h
    rfl
  | cons x xs ih =>
    rw [List.length_cons] at hj
    by_cases hi : i < n
    · rw [store_cons hi] at h
      rw [ih h (by omega), Vector.getElem?_set_ne hi (by omega)]
    · rw [store, dif_neg hi] at h
      cases h

theorem getElem?_store (h : store buf i xs = some buf') (hk : k < xs.length) :
    buf'[i + k]? = some xs[k] := by
  induction xs generalizing buf i k with
  | nil => exact absurd hk (Nat.not_lt_zero k)
  | cons x xs ih =>
    by_cases hi : i < n
    · rw [store_cons hi] at h
      cases k with
      | zero =>
        rw [Nat.add_zero, store_outside h (Or.inl (Nat.lt_succ_self i)), Vector.getElem?_set_self hi]
        rfl
      | succ k =>
        have hnext := ih h (k := k) (by simpa using hk)
        rwa [Nat.add_assoc, Nat.add_comm 1 k] at hnext
    · rw [store, dif_neg hi] at h
      cases h

/-- **What was stored is read back.** -/
theorem read_store (h : store buf i xs = some buf') : read buf' i xs.length = xs := by
  unfold read
  apply List.ext_getElem?
  intro k
  by_cases hk : k < xs.length
  · rw [List.getElem?_take_of_lt hk, List.getElem?_drop, Vector.getElem?_toList,
      getElem?_store h hk, List.getElem?_eq_getElem hk]
  · rw [List.getElem?_eq_none (by rw [List.length_take]; omega), List.getElem?_eq_none (by omega)]

/-- A cell in front of what is read does not matter. -/
theorem read_set {x : α} (hi : i < n) (hj : i < j) : read (buf.set i x hi) j k = read buf j k := by
  unfold read
  rw [Vector.toList_set, List.drop_set_of_lt hj]

end Buffer
