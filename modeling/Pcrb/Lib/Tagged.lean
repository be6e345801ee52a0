import Mathlib.Tactic.Common

/-!
# Texts that start with a tag

A table has tags, each with a reader for what follows it. If no tag starts another one, a text
is read by the reader of its own tag, wherever that stands in the table.
-/

namespace Tagged

universe u v

variable {α : Type u} {β : Type v} [DecidableEq α]

/-- What follows a tag. -/
def strip : List α → List α → Option (List α)
  | [], text => some text
  | _ :: _, [] => none
  | a :: tag, b :: text => if a = b then strip tag text else none

/-- A tag, and the reader of what follows it. -/
structure Entry (α : Type u) (β : Type v) where
  tag : List α
  read : List α → Option β

/-- What a text says by a table: what the first entry reads that can read it. -/
def decode (table : List (Entry α β)) (text : List α) : Option β :=
  table.findSome? fun e => (strip e.tag text).bind e.read

/-- No tag starts another one. -/
def PrefixFree (tags : List (List α)) : Prop :=
  tags.Pairwise fun t t' => ¬ t <+: t' ∧ ¬ t' <+: t

instance (tags : List (List α)) : Decidable (PrefixFree tags) :=
  inferInstanceAs (Decidable (List.Pairwise _ _))

variable {tag tag' text rest : List α} {e : Entry α β} {table : List (Entry α β)}

theorem strip_eq_some_iff : strip tag text = some rest ↔ text = tag ++ rest := by
  induction tag generalizing text with
  | nil => simp [strip]
  | cons a tag ih =>
    cases text with
    | nil => simp [strip]
    | cons b text =>
      rw [strip, List.cons_append, List.cons.injEq]
      split
      · rename_i hab
        rw [ih, hab]
        exact (and_iff_right rfl).symm
      · rename_i hab
        exact iff_of_false (by simp) fun h => hab h.1.symm

@[simp] theorem strip_append (tag rest : List α) : strip tag (tag ++ rest) = some rest :=
  strip_eq_some_iff.2 rfl

/-- A text with another tag, neither of which starts the other. -/
theorem strip_of_other (h : ¬ tag <+: tag') (h' : ¬ tag' <+: tag) (rest : List α) :
    strip tag (tag' ++ rest) = none := by
  cases hs : strip tag (tag' ++ rest) with
  | none => rfl
  | some rest' =>
    have heq := strip_eq_some_iff.1 hs
    have hpre : tag <+: tag' ++ rest := ⟨rest', heq.symm⟩
    rcases List.prefix_or_prefix_of_prefix hpre (List.prefix_append tag' rest) with hle | hle
    · exact absurd hle h
    · exact absurd hle h'

/-- **A text is read by the reader of its tag.** -/
theorem decode_append (hfree : PrefixFree (table.map Entry.tag)) (he : e ∈ table) (rest : List α) :
    decode table (e.tag ++ rest) = e.read rest := by
  induction table with
  | nil => cases he
  | cons e' table ih =>
    obtain ⟨hhead, hfree⟩ := List.pairwise_cons.1 hfree
    rw [decode, List.findSome?_cons]
    rcases List.mem_cons.1 he with rfl | he
    · rw [strip_append, Option.bind_some]
      cases hread : e.read rest with
      | some x => rfl
      | none =>
        -- and no other entry reads it
        refine List.findSome?_eq_none_iff.2 fun e' he' => ?_
        obtain ⟨h, h'⟩ := hhead e'.tag (List.mem_map_of_mem he')
        rw [strip_of_other h' h]
        rfl
    · obtain ⟨h, h'⟩ := hhead e.tag (List.mem_map_of_mem he)
      rw [strip_of_other h h', Option.bind_none]
      exact ih hfree he

end Tagged
