import Pcrb.Proof.Reprint

/-!
# Runs print whole lines

Every message is a sequence of lines (`isLines_message`), and `run` prints the last one that
was formatted. So what a run prints ends its line (`runPrints_lines`), unless a status report
was cut off at the end of the buffer.
-/

namespace Pcrb

/-- A text without a zero, the last line of which is complete. -/
def IsLines (text : List UInt8) : Prop :=
  (0 : UInt8) ∉ text ∧ ∃ body, text = body ++ ascii "\r\n"

/-- The report fits in the buffer, and the library prints no zero for `%p`. -/
structure StatusInfo.Fits (info : StatusInfo) : Prop where
  instanceText : (0 : UInt8) ∉ info.defaultInstance
  room : textLength (statusTexts info) < bufferSize

variable {info : StatusInfo} {line : List UInt8}

/-! ### Lines -/

theorem isLines_of_body {body : List UInt8} (h : (0 : UInt8) ∉ body) :
    IsLines (body ++ ascii "\r\n") := by
  refine ⟨fun hmem => ?_, body, rfl⟩
  rcases List.mem_append.1 hmem with hmem | hmem
  · exact h hmem
  · exact absurd hmem (by decide)

/-- A label and what is printed behind it. -/
theorem isLines_label {label : String} {body : List UInt8} (hlabel : (0 : UInt8) ∉ ascii label)
    (hbody : (0 : UInt8) ∉ body) : IsLines (ascii label ++ body ++ ascii "\r\n") := by
  apply isLines_of_body
  rw [List.mem_append, not_or]
  exact ⟨hlabel, hbody⟩

theorem isLines_flatten {texts : List (List UInt8)} (hne : texts ≠ [])
    (h : ∀ text ∈ texts, IsLines text) : IsLines texts.flatten := by
  refine ⟨fun hmem => ?_, ?_⟩
  · obtain ⟨text, htext, hzero⟩ := List.mem_flatten.1 hmem
    exact (h text htext).1 hzero
  · obtain ⟨-, body, hbody⟩ := h _ (List.getLast_mem hne)
    refine ⟨texts.dropLast.flatten ++ body, ?_⟩
    rw [List.append_assoc, ← hbody]
    conv_lhs => rw [← List.dropLast_append_getLast hne]
    rw [List.flatten_append, List.flatten_singleton]

/-! ### What is printed behind a label -/

theorem zero_not_mem_cString (chars : List UInt8) : (0 : UInt8) ∉ cString chars := by
  intro hmem
  have hne := List.mem_takeWhile_imp hmem
  simp at hne

theorem zero_not_mem_render (n : ℕ) : (0 : UInt8) ∉ Decimal.render n := by
  intro hmem
  have hdigit := Decimal.isDigit_of_mem_render hmem
  revert hdigit
  decide

theorem zero_not_mem_renderInt (n : Int32) : (0 : UInt8) ∉ renderInt n := by
  unfold renderInt
  split
  · rw [List.mem_cons, not_or]
    exact ⟨by decide, zero_not_mem_render _⟩
  · exact zero_not_mem_render _

theorem hexDigit_ne_zero {d : ℕ} (h : d < 16) : hexDigit d ≠ 0 := by
  have hall : ∀ d, d < 16 → hexDigit d ≠ 0 := by decide
  exact hall d h

theorem zero_not_mem_renderHex (width n : ℕ) : (0 : UInt8) ∉ renderHex width n := by
  unfold renderHex
  intro hmem
  rcases List.mem_append.1 hmem with hmem | hmem
  · exact absurd (List.eq_of_mem_replicate hmem) (by decide)
  · obtain ⟨d, hd, hzero⟩ := List.mem_map.1 hmem
    have hlt := Nat.digits_lt_base (b := 16) (by decide) (List.mem_reverse.1 hd)
    exact hexDigit_ne_zero hlt hzero

/-! ### The messages -/

/-- The lines of the status report. -/
theorem isLines_statusTexts (h : (0 : UInt8) ∉ info.defaultInstance) :
    ∀ text ∈ statusTexts info, IsLines text := by
  have hyes : (0 : UInt8) ∉ ascii (if info.netifUp then "yes" else "no") := by
    split <;> decide
  intro text hmem
  simp only [statusTexts, headTexts, List.mem_append, List.mem_cons, List.not_mem_nil, or_false,
    List.mem_flatMap] at hmem
  rcases hmem with (((rfl | rfl | rfl | rfl | rfl | rfl | rfl | rfl | rfl | rfl) |
    ⟨status, -, hmem⟩) | rfl | rfl) | hmem
  · exact isLines_label (by decide) (zero_not_mem_cString _)
  · exact isLines_label (by decide) h
  · exact isLines_label (by decide) hyes
  · exact isLines_label (by decide) (zero_not_mem_renderHex _ _)
  · exact isLines_label (by decide) (zero_not_mem_renderInt _)
  · exact isLines_label (by decide) (zero_not_mem_renderInt _)
  · exact isLines_label (by decide) (zero_not_mem_renderHex _ _)
  · exact isLines_label (by decide) (zero_not_mem_render _)
  · exact isLines_label (by decide) (zero_not_mem_render _)
  · exact isLines_label (by decide) (zero_not_mem_render _)
  · -- a task
    simp only [taskTexts, List.mem_cons, List.not_mem_nil, or_false] at hmem
    rcases hmem with rfl | rfl | rfl | rfl
    · exact isLines_label (by decide) (zero_not_mem_cString _)
    · exact isLines_label (by decide) (zero_not_mem_render _)
    · exact isLines_label (by decide) (zero_not_mem_render _)
    · exact isLines_label (by decide) (zero_not_mem_render _)
  · exact isLines_label (by decide) (zero_not_mem_cString _)
  · exact isLines_label (by decide) (zero_not_mem_render _)
  · -- an entry of the log
    obtain ⟨i, hi, rfl⟩ := List.mem_mapIdx.1 hmem
    apply isLines_of_body
    simp only [List.mem_append, not_or]
    exact ⟨⟨⟨by decide, zero_not_mem_render _⟩, by decide⟩, zero_not_mem_cString _⟩

/-- Every other message is one line, of at most 60 characters. -/
theorem isLines_text {message : Message} (h : message ≠ .status) :
    IsLines (message.text []) ∧ (message.text []).length ≤ 60 := by
  have hrender : ∀ n : UInt32, (Decimal.render n.toNat).length ≤ 10 := fun n =>
    Decimal.length_render_le (by decide) (by have := n.toNat_lt; omega)
  have hrender' : ∀ n : UInt8, (Decimal.render n.toNat).length ≤ 3 := fun n =>
    Decimal.length_render_le (by decide) (by have := n.toNat_lt; omega)
  cases message with
  | status => exact absurd rfl h
  | toggling ms =>
    have hsplit : ascii " milliseconds\r\n" = ascii " milliseconds" ++ ascii "\r\n" := by decide
    have hlen : (ascii "Toggling switch for ").length = 20 := by decide
    have hlen' : (ascii " milliseconds" ++ ascii "\r\n").length = 15 := by decide
    have := hrender ms
    simp only [Message.text, hsplit]
    constructor
    · rw [← List.append_assoc]
      apply isLines_of_body
      simp only [List.mem_append, not_or]
      exact ⟨⟨by decide, zero_not_mem_render _⟩, by decide⟩
    · rw [List.length_append, List.length_append, hlen, hlen']
      omega
  | sense state =>
    refine ⟨isLines_label (by decide) (zero_not_mem_render _), ?_⟩
    cases state <;> decide
  | bootSelect select =>
    have hlen : (ascii "boot select: ").length = 13 := by decide
    have hlen' : (ascii "\r\n").length = 2 := by decide
    have := hrender' select
    refine ⟨isLines_label (by decide) (zero_not_mem_render _), ?_⟩
    simp only [Message.text, List.length_append, hlen, hlen']
    omega
  | setBootSelect select actual =>
    have hlen : (ascii "set boot select: ").length = 17 := by decide
    have hmid : (ascii ", actual ").length = 9 := by decide
    have hlen' : (ascii "\r\n").length = 2 := by decide
    have := hrender select
    have := hrender' actual
    constructor
    · apply isLines_of_body
      simp only [List.mem_append, not_or]
      exact ⟨⟨⟨by decide, zero_not_mem_render _⟩, by decide⟩, zero_not_mem_render _⟩
    · simp only [Message.text, List.length_append, hlen, hmid, hlen']
      omega
  | programming => exact ⟨⟨by decide, ascii "Rebooting into programming mode...", by decide⟩, by decide⟩
  | reboot => exact ⟨⟨by decide, ascii "Killing (hanging)...", by decide⟩, by decide⟩

theorem length_flatten (texts : List (List UInt8)) : texts.flatten.length = textLength texts :=
  List.length_flatten

/-- **What a message prints are whole lines.** -/
theorem isLines_message (h : info.Fits) (message : Message) (output : Bytes) :
    IsLines (bufferText (formatMessage info bufferSize output message)) := by
  have hlines : IsLines (message.texts info).flatten ∧
      textLength (message.texts info) < bufferSize := by
    by_cases hstatus : message = .status
    · rw [Message.texts, if_pos hstatus]
      exact ⟨isLines_flatten (statusTexts_ne_nil info) (isLines_statusTexts h.instanceText), h.room⟩
    · obtain ⟨hline, hlen⟩ := isLines_text hstatus
      rw [Message.texts, if_neg hstatus, List.flatten_singleton, textLength_cons]
      have hsum : textLength [] = 0 := rfl
      have hsize : bufferSize = 32768 := by decide
      exact ⟨hline, by omega⟩
  obtain ⟨hlines, hlen⟩ := hlines
  have hsize : bufferSize = 32768 := by decide
  have hfits : (message.texts info).flatten.length ≤ bufferSize - 1 := by
    rw [length_flatten]
    omega
  rw [bufferText_message info output (by omega), List.take_of_length_le hfits]
  rwa [cString_eq_self hlines.1]

/-! ### Lines after lines -/

/-- The buffer holds nothing, or whole lines. -/
def Whole (output : Bytes) : Prop := bufferText output = [] ∨ IsLines (bufferText output)

/-- One action of `command`. -/
theorem run_whole (h : info.Fits) (action : CliAction) {o : Pass} (ho : Whole o.output) :
    Whole (action.run info o).output := by
  have hformat : ∀ message, Whole (o.format info message).output := fun message =>
    Or.inr (isLines_message h message o.output)
  unfold CliAction.run
  split
  · exact ho
  · cases action with
    | format message => exact hformat _
    | formatSense => exact hformat _
    | formatBootSelect => exact hformat _
    | formatSetBootSelect select => exact hformat _
    | _ => exact ho

theorem commandPass_whole (h : info.Fits) (dev : Device) {output : Bytes} (ho : Whole output)
    (line : List UInt8) : Whole (commandPass info dev output line).output := by
  unfold commandPass
  generalize hstart : (⟨output, [], dev, false⟩ : Pass) = o
  have hwhole : Whole o.output := by
    rw [← hstart]
    exact ho
  clear hstart
  induction command line generalizing o with
  | nil => exact hwhole
  | cons action actions ih =>
    rw [List.foldl_cons]
    exact ih _ (run_whole h action hwhole)

theorem bufferAfter_whole {history : List Past} (h : ∀ p ∈ history, p.info.Fits) :
    Whole (bufferAfter history) := by
  induction history using List.reverseRecOn with
  | nil => exact Or.inl bufferText_zero
  | append_singleton history p ih =>
    have hstep : bufferAfter (history ++ [p]) =
        (commandPass p.info p.device (bufferAfter history) p.line).output := by
      unfold bufferAfter
      rw [List.foldl_append]
      rfl
    rw [hstep]
    exact commandPass_whole (h p (by simp)) _ (ih fun q hq => h q (by simp [hq])) _

/-- **A run prints nothing, or whole lines**, as long as no report is cut off. -/
theorem runPrints_lines {history : List Past} (hpast : ∀ p ∈ history, p.info.Fits)
    (h : info.Fits) (dev : Device) {answer : List UInt8}
    (hrun : runPrints info dev (bufferAfter history) line = some answer) :
    answer = [] ∨ ∃ body, answer = body ++ ascii "\r\n" := by
  unfold runPrints at hrun
  dsimp only at hrun
  split at hrun
  · cases hrun
  · have hwhole := commandPass_whole h dev (bufferAfter_whole hpast) line
    have hanswer := Option.some.inj hrun
    unfold Whole at hwhole
    rw [hanswer] at hwhole
    exact hwhole.imp_right fun hlines => hlines.2

end Pcrb
