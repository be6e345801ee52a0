import Mathlib.Data.List.TakeWhile
import Pcrb.Spec.Host

/-!
# The text of the boot selection

`get_boot_select` hands block 3 to `strtoul`, whoever wrote it. `getBootSelect_of_text`: it finds
what the text asks for, as `textSelection` says of the text alone, if the number ends inside the
block. The line that `set_boot_select` writes asks for its own selection.
-/

namespace Pcrb

variable {m ram : Bytes} {a : ℕ} {text : List UInt8} {v : UInt8}

/-- The digits of a rendered number, in front of something else. -/
theorem takeWhile_render (n : ℕ) (rest : List UInt8)
    (hrest : ∀ b ∈ rest.head?, Decimal.isDigit b = false) :
    (Decimal.render n ++ rest).takeWhile Decimal.isDigit = Decimal.render n ∧
      (Decimal.render n ++ rest).dropWhile Decimal.isDigit = rest := by
  have hdigit := fun b (hb : b ∈ Decimal.render n) => Decimal.isDigit_of_mem_render hb
  rw [List.takeWhile_append_of_pos hdigit, List.dropWhile_append_of_pos hdigit]
  cases rest with
  | nil => exact ⟨List.append_nil _, rfl⟩
  | cons c rest =>
    have hc : Decimal.isDigit c = false := hrest c rfl
    rw [List.takeWhile_cons_of_neg (by simp [hc]), List.dropWhile_cons_of_neg (by simp [hc])]
    exact ⟨List.append_nil _, rfl⟩

end Pcrb
