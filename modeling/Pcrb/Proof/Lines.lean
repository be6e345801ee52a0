import Mathlib.Data.List.TakeWhile
import Pcrb.Spec.Console

/-!
# The commands with an argument

`toggle` and `set_boot` cut their argument one character behind the keyword and hand it to
`std::from_chars`. `commandPass_toggle` and `commandPass_setBoot` are the whole effect of
such a line, and everything about the two commands is read off them.

* `command_safe_iff`: exactly which lines throw out of `command`.
* `malformed_unchanged_iff`: exactly which malformed lines change nothing.
-/

namespace Pcrb

variable {line : List UInt8} {info : StatusInfo} {dev : Device} {output : Bytes}

/-! ### Keywords -/

theorem startsWith_iff {keyword : String} :
    startsWith line keyword = true ↔ ∃ rest, line = ascii keyword ++ rest := by
  unfold startsWith
  rw [List.isPrefixOf_iff_prefix]
  constructor
  · rintro ⟨rest, rfl⟩
    exact ⟨rest, rfl⟩
  · rintro ⟨rest, rfl⟩
    exact ⟨rest, rfl⟩

/-- A line that begins with a keyword, and is no longer, is the keyword. -/
theorem eq_keyword_iff {keyword : String} (h : startsWith line keyword = true) :
    line.length < (ascii keyword).length + 1 ↔ line = ascii keyword := by
  obtain ⟨rest, rfl⟩ := startsWith_iff.1 h
  rw [List.length_append]
  constructor
  · intro hlen
    have hrest : rest = [] := List.eq_nil_of_length_eq_zero (by omega)
    rw [hrest, List.append_nil]
  · intro heq
    have hlen := congrArg List.length heq
    rw [List.length_append] at hlen
    omega

theorem length_lt_toggle_iff (h : startsWith line "toggle" = true) :
    line.length < 7 ↔ line = ascii "toggle" := by
  have hlen : (ascii "toggle").length + 1 = 7 := by decide
  rw [← hlen]
  exact eq_keyword_iff h

theorem length_lt_setBoot_iff (h : startsWith line "set_boot" = true) :
    line.length < 9 ↔ line = ascii "set_boot" := by
  have hlen : (ascii "set_boot").length + 1 = 9 := by decide
  rw [← hlen]
  exact eq_keyword_iff h

/-- Lines that begin differently are different lines. -/
theorem ne_of_take_ne {line' : List UInt8} (n : ℕ) (h : line.take n ≠ line'.take n) :
    line ≠ line' := fun heq => h (by rw [heq])

theorem take_of_startsWith {keyword : String} (h : startsWith line keyword = true) {n : ℕ}
    (hn : n ≤ (ascii keyword).length) : line.take n = (ascii keyword).take n := by
  obtain ⟨rest, rfl⟩ := startsWith_iff.1 h
  exact List.take_append_of_le_length hn

/-- A toggle line is none of the other commands. -/
theorem otherBranches_of_toggle (h : startsWith line "toggle" = true) : otherBranches line = [] := by
  have hhead : line.take 1 = [116] := by
    rw [take_of_startsWith h (by decide)]
    decide
  have hne : ∀ line' : List UInt8, line'.take 1 ≠ [116] → line ≠ line' := fun line' h' =>
    ne_of_take_ne 1 (by rw [hhead]; exact h'.symm)
  have hset : ¬ startsWith line "set_boot" = true := by
    intro hs
    rw [take_of_startsWith hs (by decide)] at hhead
    revert hhead
    decide
  unfold otherBranches commandBranch
  rw [if_neg (hne _ (by decide)), if_neg (hne _ (by decide)), if_neg hset,
    if_neg (hne _ (by decide)), if_neg (hne _ (by decide)), if_neg (hne _ (by decide))]
  rfl

theorem substr_of_lt {pos : ℕ} (h : line.length < pos) : substr line pos = none := if_pos h

theorem substr_of_le {pos : ℕ} (h : pos ≤ line.length) : substr line pos = some (line.drop pos) :=
  if_neg (by omega)

/-- The number that `toggle` reads out of a line. -/
def toggleMs (line : List UInt8) : UInt32 := fromChars (line.drop 7) 0

/-- The number that `set_boot` reads out of a line. -/
def bootSelection (line : List UInt8) : UInt32 := fromChars (line.drop 9) 0

/-- **What `command` does for a toggle line.** -/
theorem command_of_toggle (h : startsWith line "toggle" = true) :
    command line = if line.length < 7 then [.throw]
      else if toggleMs line = 0 then []
      else [.format (.toggling (toggleMs line)), .toggle (toggleMs line)] := by
  rw [command, otherBranches_of_toggle h, List.append_nil, toggleBranch, if_pos h]
  rcases Nat.lt_or_ge line.length 7 with hlt | hge
  · rw [substr_of_lt hlt, if_pos hlt]
  · rw [substr_of_le hge, if_neg (by omega)]
    by_cases hms : toggleMs line = 0
    · rw [if_pos hms]
      exact if_neg (not_not.2 hms)
    · rw [if_neg hms]
      exact if_pos hms

/-- **What `command` does for a line that selects a boot entry.** -/
theorem command_of_setBoot (h : startsWith line "set_boot" = true) :
    command line = if line.length < 9 then [.throw]
      else [.setBootSelect (bootSelection line).toUInt8,
        .formatSetBootSelect (bootSelection line)] := by
  have hhead : line.take 3 = [115, 101, 116] := by
    rw [take_of_startsWith h (by decide)]
    decide
  have hne : ∀ line' : List UInt8, line'.take 3 ≠ [115, 101, 116] → line ≠ line' :=
    fun line' h' => ne_of_take_ne 3 (by rw [hhead]; exact h'.symm)
  have htoggle : ¬ startsWith line "toggle" = true := by
    intro ht
    rw [take_of_startsWith ht (by decide)] at hhead
    revert hhead
    decide
  unfold command toggleBranch otherBranches commandBranch
  rw [if_neg htoggle, if_neg (hne _ (by decide)), if_neg (hne _ (by decide)), if_pos h,
    if_neg (hne _ (by decide)), if_neg (hne _ (by decide)), List.append_nil, List.append_nil,
    List.nil_append]
  rcases Nat.lt_or_ge line.length 9 with hlt | hge
  · rw [substr_of_lt hlt, if_pos hlt]
  · rw [substr_of_le hge, if_neg (by omega)]
    rfl

/-! ### Exceptions -/

/-- No other branch cuts the line. -/
theorem throw_not_mem_others (htoggle : ¬ startsWith line "toggle" = true)
    (hset : ¬ startsWith line "set_boot" = true) : CliAction.throw ∉ command line := by
  unfold command toggleBranch otherBranches commandBranch
  rw [if_neg htoggle, if_neg hset]
  intro hmem
  rw [List.nil_append, List.mem_append, List.mem_append] at hmem
  rcases hmem with (hmem | hmem) | hmem
  · split_ifs at hmem <;> simp [statusReport] at hmem
  · split_ifs at hmem <;> simp at hmem
  · split_ifs at hmem <;> simp at hmem

/-- **The lines that throw.** -/
theorem throw_mem_command_iff :
    CliAction.throw ∈ command line ↔ line = ascii "toggle" ∨ line = ascii "set_boot" := by
  by_cases htoggle : startsWith line "toggle" = true
  · have hne : line ≠ ascii "set_boot" := by
      rintro rfl
      exact absurd htoggle (by decide)
    rw [command_of_toggle htoggle, ← length_lt_toggle_iff htoggle]
    simp only [hne, or_false]
    split_ifs <;> simp_all
  · by_cases hset : startsWith line "set_boot" = true
    · have hne : line ≠ ascii "toggle" := by
        rintro rfl
        exact absurd hset (by decide)
      rw [command_of_setBoot hset, ← length_lt_setBoot_iff hset]
      simp only [hne, false_or]
      split_ifs <;> simp_all
    · constructor
      · intro hmem
        exact absurd hmem (throw_not_mem_others htoggle hset)
      · rintro (rfl | rfl)
        · exact absurd (by decide) htoggle
        · exact absurd (by decide) hset

/-- **`command` does not throw** exactly if the line is neither of the two keywords alone. -/
theorem command_safe_iff (line : List UInt8) :
    CliAction.throw ∉ command line ↔ line ≠ ascii "toggle" ∧ line ≠ ascii "set_boot" := by
  rw [throw_mem_command_iff, not_or]

/-- The keyword, without its argument. -/
theorem toggle_throws : CliAction.throw ∈ command (ascii "toggle") := by
  decide

/-! ### The effect of a line -/

/-- Block 3 begins with the line for `select` and its terminating zero. -/
def HoldsBootLine (ram : Bytes) (select : UInt8) : Prop :=
  ram.read (blockAddr 3 0) ((bootLine select).length + 1) = bootLine select ++ [0]

theorem setBootSelect_eq_self_iff {ram : Bytes} {select : UInt8} :
    setBootSelect ram select = ram ↔ HoldsBootLine ram select := by
  rw [setBootSelect_eq, Bytes.write_eq_self_iff, List.length_append, List.length_singleton]
  rfl

/-- **A toggle line**: an exception, nothing, or one send. -/
theorem commandPass_toggle (info : StatusInfo) (dev : Device) (output : Bytes)
    (h : startsWith line "toggle" = true) :
    commandPass info dev output line =
      if line.length < 7 then ⟨output, [], dev, true⟩
      else if toggleMs line = 0 then ⟨output, [], dev, false⟩
      else ⟨formatMessage info bufferSize output (.toggling (toggleMs line)), [toggleMs line],
        { dev with queue := (dev.queue.send (toggleMs line)).1 }, false⟩ := by
  rw [commandPass, command_of_toggle h]
  split_ifs <;> rfl

/-- **A line that selects a boot entry**: an exception, or one selection. -/
theorem commandPass_setBoot (info : StatusInfo) (dev : Device) (output : Bytes)
    (h : startsWith line "set_boot" = true) :
    commandPass info dev output line =
      if line.length < 9 then ⟨output, [], dev, true⟩
      else ⟨formatMessage info bufferSize output
          (.setBootSelect (bootSelection line) (bootSelection line).toUInt8), [],
        { dev with ram := setBootSelect dev.ram (bootSelection line).toUInt8 }, false⟩ := by
  rw [commandPass, command_of_setBoot h]
  split_ifs
  · rfl
  · simp only [List.foldl_cons, List.foldl_nil, CliAction.run, Pass.format,
      getBootSelect_setBootSelect, Bool.false_eq_true, if_false]

/-- The keyword, one space, and the decimal digits of `n`. -/
def CarriesNumber (keyword : String) (line : List UInt8) (n : UInt32) : Prop :=
  ∃ digits, line = ascii keyword ++ 32 :: digits ∧ digits ≠ [] ∧
    (∀ b ∈ digits, Decimal.isDigit b = true) ∧ Decimal.value digits = n.toNat

theorem CarriesNumber.startsWith {keyword : String} {n : UInt32}
    (h : CarriesNumber keyword line n) : startsWith line keyword = true := by
  obtain ⟨digits, rfl, -⟩ := h
  exact startsWith_iff.2 ⟨_, rfl⟩

/-- `std::from_chars` reads a string of digits as its value. -/
theorem fromChars_digits {digits : List UInt8} {n : UInt32} (value : UInt32) (hne : digits ≠ [])
    (hdigits : ∀ b ∈ digits, Decimal.isDigit b = true) (hn : Decimal.value digits = n.toNat) :
    fromChars digits value = n := by
  have hall : digits.takeWhile Decimal.isDigit = digits := List.takeWhile_eq_self_iff.2 hdigits
  have hle : Decimal.value digits ≤ ulongMax := by
    have hlt := n.toNat_lt
    rw [hn]
    unfold ulongMax
    omega
  unfold fromChars
  rw [hall]
  dsimp only
  rw [if_neg hne, if_pos hle, hn, UInt32.ofNat_toNat]

/-- What is cut one character behind the keyword is the digits. -/
theorem CarriesNumber.parsed {keyword : String} {n : UInt32} (h : CarriesNumber keyword line n) :
    (ascii keyword).length + 1 ≤ line.length ∧
      fromChars (line.drop ((ascii keyword).length + 1)) 0 = n := by
  obtain ⟨digits, rfl, hne, hdigits, hn⟩ := h
  constructor
  · rw [List.length_append, List.length_cons]
    omega
  · rw [← List.drop_drop, List.drop_left, List.drop_one, List.tail_cons]
    exact fromChars_digits 0 hne hdigits hn

theorem CarriesNumber.toggleMs_eq {n : UInt32} (h : CarriesNumber "toggle" line n) :
    7 ≤ line.length ∧ toggleMs line = n := by
  have hlen : (ascii "toggle").length + 1 = 7 := by decide
  have hparsed := h.parsed
  rw [hlen] at hparsed
  exact hparsed

theorem CarriesNumber.bootSelection_eq {n : UInt32} (h : CarriesNumber "set_boot" line n) :
    9 ≤ line.length ∧ bootSelection line = n := by
  have hlen : (ascii "set_boot").length + 1 = 9 := by decide
  have hparsed := h.parsed
  rw [hlen] at hparsed
  exact hparsed

/-- A line of one of the two commands whose argument is not a number of 32 bits. -/
def Malformed (line : List UInt8) : Prop :=
  (startsWith line "toggle" = true ∧ ∀ n, ¬ CarriesNumber "toggle" line n) ∨
    (startsWith line "set_boot" = true ∧ ∀ n, ¬ CarriesNumber "set_boot" line n)

/-- What a line must not do to the device, and what it must do. -/
def ArgumentsRespected (info : StatusInfo) (dev : Device) (output : Bytes) (line : List UInt8) :
    Prop :=
  (Malformed line → (commandPass info dev output line).device.queue = dev.queue ∧
    (commandPass info dev output line).device.ram = dev.ram) ∧
  ∀ n, n ≠ 0 → CarriesNumber "toggle" line n → (commandPass info dev output line).sends = [n]

theorem sends_of_carriesNumber (info : StatusInfo) (dev : Device) (output : Bytes) {n : UInt32}
    (hn : n ≠ 0) (h : CarriesNumber "toggle" line n) :
    (commandPass info dev output line).sends = [n] := by
  obtain ⟨hlen, hms⟩ := h.toggleMs_eq
  rw [commandPass_toggle info dev output h.startsWith, hms, if_neg (by omega), if_neg hn]

/-- A send leaves the queue alone exactly if it is full. -/
theorem send_eq_self_iff {α : Type*} {cap : ℕ} {q : Fifo α cap} {x : α} :
    (q.send x).1 = q ↔ q.Full := by
  constructor
  · intro h
    by_contra hfull
    have hsent : (q.send x).2 = true := by
      rw [← Bool.not_eq_false, Fifo.send_eq_false_iff]
      exact hfull
    have hitems := Fifo.send_items q x
    rw [h, if_pos hsent] at hitems
    have hlen := congrArg List.length hitems
    rw [List.length_append, List.length_singleton] at hlen
    omega
  · intro h
    unfold Fifo.send
    rw [dif_neg (Fifo.full_iff.1 h)]

/-- A toggle line leaves the queue alone exactly if it carries no number, or the queue is
full. -/
theorem toggle_unchanged_iff (info : StatusInfo) (dev : Device) (output : Bytes)
    (h : startsWith line "toggle" = true) :
    ((commandPass info dev output line).device.queue = dev.queue ∧
      (commandPass info dev output line).device.ram = dev.ram) ↔
      toggleMs line = 0 ∨ dev.queue.Full := by
  rw [commandPass_toggle info dev output h]
  split_ifs with hlen hms
  · -- nothing is left to read behind the keyword
    have hzero : toggleMs line = 0 := by
      unfold toggleMs
      rw [List.drop_eq_nil_of_le (by omega)]
      rfl
    simp [hzero]
  · simp [hms]
  · simp [hms, send_eq_self_iff]

/-- A line that selects a boot entry leaves the disk alone exactly if it is the keyword
alone, or block 3 already holds the selection. -/
theorem setBoot_unchanged_iff (info : StatusInfo) (dev : Device) (output : Bytes)
    (h : startsWith line "set_boot" = true) :
    ((commandPass info dev output line).device.queue = dev.queue ∧
      (commandPass info dev output line).device.ram = dev.ram) ↔
      line = ascii "set_boot" ∨ HoldsBootLine dev.ram (bootSelection line).toUInt8 := by
  rw [commandPass_setBoot info dev output h, ← length_lt_setBoot_iff h,
    ← setBootSelect_eq_self_iff]
  split_ifs with hlt
  · simp [hlt]
  · simp [hlt]

/-- **Malformed arguments change nothing**, and well-formed ones are sent on as they are,
exactly if the line is well formed, or is a toggle line that carries no number or finds the
queue full, or is `set_boot` alone or selects what block 3 already holds. -/
theorem malformed_unchanged_iff (info : StatusInfo) (dev : Device) (output : Bytes)
    (line : List UInt8) :
    ArgumentsRespected info dev output line ↔
      ¬ Malformed line ∨
      (startsWith line "toggle" = true ∧ (toggleMs line = 0 ∨ dev.queue.Full)) ∨
      (startsWith line "set_boot" = true ∧
        (line = ascii "set_boot" ∨ HoldsBootLine dev.ram (bootSelection line).toUInt8)) := by
  constructor
  · intro h
    by_cases hm : Malformed line
    · right
      rcases hm with ⟨hs, hno⟩ | ⟨hs, hno⟩
      · exact Or.inl ⟨hs, (toggle_unchanged_iff info dev output hs).1 (h.1 (Or.inl ⟨hs, hno⟩))⟩
      · exact Or.inr ⟨hs, (setBoot_unchanged_iff info dev output hs).1 (h.1 (Or.inr ⟨hs, hno⟩))⟩
    · exact Or.inl hm
  · intro h
    refine ⟨fun hm => ?_, fun n hn hline => sends_of_carriesNumber info dev output hn hline⟩
    rcases h with h | ⟨hs, h⟩ | ⟨hs, h⟩
    · exact absurd hm h
    · exact (toggle_unchanged_iff info dev output hs).2 h
    · exact (setBoot_unchanged_iff info dev output hs).2 h

theorem malformed_setBoot_letter : Malformed (ascii "set_boot x") := by
  refine Or.inr ⟨by decide, ?_⟩
  rintro n ⟨digits, hline, -, hdigits, -⟩
  have hsplit : ascii "set_boot x" = ascii "set_boot" ++ 32 :: [120] := by decide
  rw [hsplit] at hline
  have hx : [120] = digits := List.cons.inj (List.append_cancel_left hline) |>.2
  have hdigit := hdigits 120 (by rw [← hx]; exact List.mem_cons_self)
  revert hdigit
  decide

/-- A letter for the number selects entry 0. -/
theorem setBoot_letter_selects :
    ¬ ArgumentsRespected default ⟨Fifo.empty, fun _ => 0, true⟩ (fun _ => 0)
      (ascii "set_boot x") := by
  intro h
  have hsame := h.1 malformed_setBoot_letter
  rw [setBoot_unchanged_iff default _ _ (by decide)] at hsame
  have hzero : (bootSelection (ascii "set_boot x")).toUInt8 = 0 := by decide
  rw [hzero] at hsame
  rcases hsame with heq | hholds
  · revert heq
    decide
  · -- block 3 is empty
    have hfirst := congrArg List.head? hholds
    revert hfirst
    decide

end Pcrb
