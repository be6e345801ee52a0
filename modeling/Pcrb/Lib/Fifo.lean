import Mathlib.Tactic.Common

/-!
# Bounded first-in first-out queues

A `Fifo α cap` carries the proof that it never holds more than `cap` items.
Sending does not wait: `send` fails on a full queue and leaves it as it was.
-/

universe u

/-- A queue of at most `cap` items, oldest first. -/
structure Fifo (α : Type u) (cap : ℕ) where
  items : List α
  bound : items.length ≤ cap

namespace Fifo

variable {α : Type u} {cap : ℕ}

/-- The queue as it is created. -/
def empty : Fifo α cap := ⟨[], Nat.zero_le _⟩

/-- No room for another item. -/
def Full (q : Fifo α cap) : Prop := q.items.length = cap

instance (q : Fifo α cap) : Decidable q.Full := inferInstanceAs (Decidable (_ = _))

/-- Append an item, without waiting: the queue afterwards and whether the item went in. -/
def send (q : Fifo α cap) (x : α) : Fifo α cap × Bool :=
  if h : q.items.length < cap then
    (⟨q.items ++ [x], by simpa using Nat.succ_le_of_lt h⟩, true)
  else (q, false)

/-- Take the oldest item; `none` on an empty queue. -/
def receive (q : Fifo α cap) : Option (α × Fifo α cap) :=
  match h : q.items with
  | [] => none
  | x :: xs => some (x, ⟨xs, by have := q.bound; rw [h] at this; exact Nat.le_of_succ_le this⟩)

@[ext] theorem ext {q q' : Fifo α cap} (h : q.items = q'.items) : q = q' := by
  cases q; cases q'; simp_all

@[simp] theorem items_empty : (empty : Fifo α cap).items = [] := rfl

theorem full_iff {q : Fifo α cap} : q.Full ↔ ¬ q.items.length < cap := by
  have := q.bound; unfold Full; omega

/-- **Sending**: the item is appended exactly when the send reports success. -/
theorem send_items (q : Fifo α cap) (x : α) :
    (q.send x).1.items = q.items ++ if (q.send x).2 then [x] else [] := by
  unfold send; split <;> simp

/-- A send fails exactly on a full queue. -/
theorem send_eq_false_iff {q : Fifo α cap} {x : α} : (q.send x).2 = false ↔ q.Full := by
  rw [full_iff]; unfold send; split <;> simp_all

theorem receive_items {q q' : Fifo α cap} {x : α} (h : q.receive = some (x, q')) :
    q.items = x :: q'.items := by
  unfold receive at h
  split at h
  · cases h
  · rename_i hq
    simp only [Option.some.injEq, Prod.mk.injEq] at h
    obtain ⟨rfl, rfl⟩ := h
    exact hq

theorem receive_eq_none_iff {q : Fifo α cap} : q.receive = none ↔ q.items = [] := by
  unfold receive
  split
  · rename_i hq
    exact iff_of_true rfl hq
  · rename_i hq
    exact iff_of_false (by simp) (by simp [hq])

/-- The first item can be taken. -/
theorem exists_receive {q : Fifo α cap} {x : α} {xs : List α} (h : q.items = x :: xs) :
    ∃ q' : Fifo α cap, q.receive = some (x, q') ∧ q'.items = xs := by
  cases hr : q.receive with
  | none =>
    rw [receive_eq_none_iff.1 hr] at h
    cases h
  | some r =>
    obtain ⟨y, q'⟩ := r
    rw [receive_items hr] at h
    obtain ⟨rfl, hxs⟩ := List.cons.inj h
    exact ⟨q', rfl, hxs⟩

end Fifo
