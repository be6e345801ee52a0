import Pcrb.Proof.Lines
import Pcrb.Proof.Report

/-!
# What a line prints

`run` prints the buffer after every line, and every line has the same buffer. `AgreeUpTo`
relates the buffers of two runs that formatted the same texts over different old contents;
`appendText_agree` carries it through one `snprintf`.

* `bufferText_message`: what a message prints.
* `bufferText_formatMessage`: a message is printed the same over any old contents.
* `output_determined_iff`: exactly which lines print the same whatever came before.
-/

namespace Pcrb

variable {size : ℕ} {r r' : Report} {m m' : Bytes} {line : List UInt8}

/-! ### Two buffers -/

/-- Two reports of the same texts: the buffers agree on these, and on the zero behind them if
it is still inside. -/
structure Report.Agree (size : ℕ) (r r' : Report) : Prop where
  total : r.total = r'.total
  same : ∀ i, i < size → i ≤ r.total → r.output i = r'.output i
  ends : r.total < size → r.output r.total = 0

/-- The same bytes over two memories agree where they are, and elsewhere if these do. -/
theorem write_agree {a : ℕ} {bs : List UInt8} {i : ℕ}
    (h : m i = m' i ∨ (a ≤ i ∧ i < a + bs.length)) : m.write a bs i = m'.write a bs i := by
  simp only [Bytes.write]
  split
  · rfl
  · rcases h with h | h
    · exact h
    · contradiction

/-- **One `snprintf` of the report**, over two buffers that agree on the texts so far. -/
theorem appendText_agree (hsize : size < 2 ^ 32) (htotal : r.total = r'.total)
    (h : ∀ i, i < size → i < r.total → r.output i = r'.output i) (formatted : List UInt8) :
    Report.Agree size (r.appendText size formatted) (r'.appendText size formatted) := by
  have hamount : r'.amount = r.amount := by rw [Report.amount, Report.amount, htotal]
  have hroom : r'.room size = r.room size := by rw [Report.room, Report.room, hamount]
  refine ⟨?_, fun i hi hit => ?_, fun hend => ?_⟩
  · simp only [Report.appendText, snprintf]
    rw [htotal]
  · simp only [Report.appendText, snprintf, hamount, hroom] at hit ⊢
    rcases Nat.lt_or_ge r.total size with hlt | hge
    · -- the text goes in behind the others, with its zero
      rw [room_of_le hsize hlt.le, amount_of_le hsize hlt.le, if_neg (by omega), if_neg (by omega)]
      apply write_agree
      rcases Nat.lt_or_ge i r.total with hbefore | hbehind
      · exact Or.inl (h i hi hbefore)
      · right
        rw [List.length_append, List.length_take, List.length_singleton]
        omega
    · -- the buffer is full: what is written is written to both
      have hsame := h i hi (by omega)
      split
      · exact hsame
      · exact write_agree (Or.inl hsame)
  · simp only [Report.appendText, snprintf] at hend ⊢
    have hlt : r.total ≤ size := by omega
    have hlen : formatted.length ≤ size - r.total - 1 := by omega
    rw [room_of_le hsize hlt, amount_of_le hsize hlt, if_neg (by omega),
      List.take_of_length_le hlen, Bytes.write_of_lt (by simp)]
    simp

theorem foldl_appendText_agree (hsize : size < 2 ^ 32) (texts : List (List UInt8)) :
    ∀ {r r' : Report}, r.Agree size r' →
      Report.Agree size (texts.foldl (Report.appendText size) r)
        (texts.foldl (Report.appendText size) r') := by
  induction texts with
  | nil =>
    intro r r' h
    exact h
  | cons formatted texts ih =>
    intro r r' h
    rw [List.foldl_cons, List.foldl_cons]
    exact ih (appendText_agree hsize h.total (fun i hi hit => h.same i hi hit.le) formatted)

/-- **A report** leaves the same text in the buffer, whatever was there. -/
theorem afterTexts_agree (hsize : size < 2 ^ 32) (m m' : Bytes) {texts : List (List UInt8)}
    (hne : texts ≠ []) :
    Report.Agree size (Report.afterTexts size m texts) (Report.afterTexts size m' texts) := by
  obtain ⟨formatted, texts, rfl⟩ := List.exists_cons_of_ne_nil hne
  unfold Report.afterTexts
  rw [List.foldl_cons, List.foldl_cons]
  apply foldl_appendText_agree hsize
  exact @appendText_agree size ⟨m, 0⟩ ⟨m', 0⟩ hsize rfl
    (fun i _ hi => absurd hi (Nat.not_lt_zero i)) formatted

/-! ### What is printed -/

theorem cString_read_of_agree (h : r.Agree size r') :
    cString (r.output.read 0 size) = cString (r'.output.read 0 size) := by
  rcases Nat.lt_or_ge r.total size with hlt | hge
  · -- both texts end with the same zero
    have hprefix : r.output.read 0 r.total = r'.output.read 0 r.total := by
      apply Bytes.read_congr
      intro i hi
      rw [Nat.zero_add]
      exact h.same i (by omega) (by omega)
    have hends' : r'.output r.total = 0 := by
      rw [← h.same _ hlt le_rfl]
      exact h.ends hlt
    rw [cString_read_of_zero hlt (h.ends hlt), cString_read_of_zero hlt hends', hprefix]
  · congr 1
    apply Bytes.read_congr
    intro i hi
    rw [Nat.zero_add]
    exact h.same i hi (by omega)

/-- The texts of a message, one for each `snprintf`. -/
def Message.texts (info : StatusInfo) (message : Message) : List (List UInt8) :=
  if message = .status then statusTexts info else [message.text []]

theorem Message.texts_ne_nil (info : StatusInfo) (message : Message) : message.texts info ≠ [] := by
  unfold Message.texts
  split
  · exact statusTexts_ne_nil info
  · exact List.cons_ne_nil _ _

/-- A single `snprintf` to the start of the span is a report of one text. -/
theorem afterTexts_singleton (hsize : size < 2 ^ 32) (output : Bytes) (text : List UInt8) :
    (Report.afterTexts size output [text]).output = (snprintf output 0 size text).1 := by
  have hle : Report.total ⟨output, 0⟩ ≤ size := Nat.zero_le size
  simp only [Report.afterTexts, List.foldl_cons, List.foldl_nil, Report.appendText]
  rw [room_of_le hsize hle, amount_of_le hsize hle, Nat.sub_zero]

theorem formatMessage_eq (info : StatusInfo) (hsize : size < 2 ^ 32) (output : Bytes)
    (message : Message) :
    formatMessage info size output message =
      (Report.afterTexts size output (message.texts info)).output := by
  by_cases h : message = .status
  · rw [Message.texts, if_pos h, h, formatMessage]
  · rw [Message.texts, if_neg h, afterTexts_singleton hsize]
    cases message with
    | status => exact absurd rfl h
    | _ => simp only [formatMessage]

/-- **What a message prints**: its texts, cut at the end of the buffer. -/
theorem bufferText_message (info : StatusInfo) (output : Bytes) {message : Message}
    (hlen : textLength (message.texts info) < 2 ^ 32) :
    bufferText (formatMessage info bufferSize output message) =
      cString ((message.texts info).flatten.take (bufferSize - 1)) := by
  have hsize : bufferSize < 2 ^ 32 := by decide
  have hpos : 0 < bufferSize := by decide
  rw [formatMessage_eq info hsize]
  exact cString_afterTexts hsize hpos output (message.texts_ne_nil info) hlen

/-- **A message is printed the same** over any old contents of the buffer. -/
theorem bufferText_formatMessage (info : StatusInfo) (message : Message) (output output' : Bytes) :
    bufferText (formatMessage info bufferSize output message) =
      bufferText (formatMessage info bufferSize output' message) := by
  have hsize : bufferSize < 2 ^ 32 := by decide
  rw [formatMessage_eq info hsize, formatMessage_eq info hsize]
  exact cString_read_of_agree (afterTexts_agree hsize output output' (message.texts_ne_nil info))

/-! ### Lines after lines -/

/-- A line that was run before, and came to its end. -/
structure Past where
  info : StatusInfo
  device : Device
  line : List UInt8
  returns : CliAction.throw ∉ command line ∧ CliAction.reset ∉ command line

/-- The buffer as a history of lines leaves it; `cli_task` starts with zeros. -/
def bufferAfter (history : List Past) : Bytes :=
  history.foldl (fun output p => (commandPass p.info p.device output p.line).output) fun _ => 0

/-- What a line prints does not depend on the lines before it. -/
def OutputDetermined (line : List UInt8) : Prop :=
  ∀ (info : StatusInfo) (dev : Device) (history history' : List Past),
    runPrints info dev (bufferAfter history) line = runPrints info dev (bufferAfter history') line

/-- The lines that format a message, or that do not come back from `command`. -/
def Speaks (line : List UInt8) : Prop :=
  line = ascii "sense" ∨ line = ascii "get_boot" ∨ line = ascii "status" ∨
    line = ascii "programming" ∨ line = ascii "reboot" ∨ startsWith line "set_boot" = true ∨
    (startsWith line "toggle" = true ∧ (line = ascii "toggle" ∨ toggleMs line ≠ 0))

theorem runPrints_toggle (info : StatusInfo) (dev : Device) (output : Bytes)
    (h : startsWith line "toggle" = true) :
    runPrints info dev output line =
      if line.length < 7 then none
      else if toggleMs line = 0 then some (bufferText output)
      else some (bufferText
        (formatMessage info bufferSize output (.toggling (toggleMs line)))) := by
  unfold runPrints
  rw [commandPass_toggle info dev output h]
  split_ifs <;> simp_all

theorem runPrints_setBoot (info : StatusInfo) (dev : Device) (output : Bytes)
    (h : startsWith line "set_boot" = true) :
    runPrints info dev output line =
      if line.length < 9 then none
      else some (bufferText (formatMessage info bufferSize output
        (.setBootSelect (bootSelection line) (bootSelection line).toUInt8))) := by
  unfold runPrints
  rw [commandPass_setBoot info dev output h]
  split_ifs <;> simp_all

theorem commandPass_sense (info : StatusInfo) (dev : Device) (output : Bytes) :
    commandPass info dev output (ascii "sense") =
      ⟨formatMessage info bufferSize output (.sense dev.pcState), [], dev, false⟩ := by
  have hcommand : command (ascii "sense") = [.formatSense] := by decide
  rw [commandPass, hcommand]
  rfl

theorem commandPass_getBoot (info : StatusInfo) (dev : Device) (output : Bytes) :
    commandPass info dev output (ascii "get_boot") =
      ⟨formatMessage info bufferSize output (.bootSelect (getBootSelect dev.ram)), [], dev,
        false⟩ := by
  have hcommand : command (ascii "get_boot") = [.formatBootSelect] := by decide
  rw [commandPass, hcommand]
  rfl

theorem commandPass_status (info : StatusInfo) (dev : Device) (output : Bytes) :
    commandPass info dev output (ascii "status") =
      ⟨formatMessage info bufferSize output .status, [], dev, false⟩ := by
  have hcommand : command (ascii "status") = statusReport := by decide
  rw [commandPass, hcommand]
  rfl

/-- Where `command` has come back, the buffer is printed. -/
theorem runPrints_of_pass {info : StatusInfo} {dev dev' : Device} {output output' : Bytes}
    {sends : List UInt32} (h : commandPass info dev output line = ⟨output', sends, dev', false⟩) :
    runPrints info dev output line = some (bufferText output') := by
  unfold runPrints
  rw [h]
  rfl

/-- A line that ends in a reset prints nothing. -/
theorem runPrints_reset (info : StatusInfo) (dev : Device) (output : Bytes)
    {message : Message} (h : command line = [.format message, .reset]) :
    runPrints info dev output line = none := by
  unfold runPrints commandPass
  rw [h]
  rfl

/-- A line that speaks prints the same, or nothing, over any old contents. -/
theorem runPrints_of_speaks (h : Speaks line) (info : StatusInfo) (dev : Device)
    (output output' : Bytes) :
    runPrints info dev output line = runPrints info dev output' line := by
  have hsame := fun message => bufferText_formatMessage info message output output'
  rcases h with rfl | rfl | rfl | rfl | rfl | hset | ⟨htoggle, h⟩
  · rw [runPrints_of_pass (commandPass_sense info dev output),
      runPrints_of_pass (commandPass_sense info dev output'), hsame]
  · rw [runPrints_of_pass (commandPass_getBoot info dev output),
      runPrints_of_pass (commandPass_getBoot info dev output'), hsame]
  · rw [runPrints_of_pass (commandPass_status info dev output),
      runPrints_of_pass (commandPass_status info dev output'), hsame]
  · have hcommand : command (ascii "programming") = [.format .programming, .reset] := by decide
    rw [runPrints_reset info dev output hcommand, runPrints_reset info dev output' hcommand]
  · have hcommand : command (ascii "reboot") = [.format .reboot, .reset] := by decide
    rw [runPrints_reset info dev output hcommand, runPrints_reset info dev output' hcommand]
  · rw [runPrints_setBoot info dev output hset, runPrints_setBoot info dev output' hset, hsame]
  · rw [runPrints_toggle info dev output htoggle, runPrints_toggle info dev output' htoggle]
    rcases h with heq | hms
    · have hlt := (length_lt_toggle_iff htoggle).2 heq
      rw [if_pos hlt, if_pos hlt]
    · rw [if_neg hms, if_neg hms, hsame]

/-- **Any other line** leaves the buffer as it was, and prints it. -/
theorem runPrints_of_not_speaks (h : ¬ Speaks line) (info : StatusInfo) (dev : Device)
    (output : Bytes) : runPrints info dev output line = some (bufferText output) := by
  unfold Speaks at h
  simp only [not_or, not_and, ne_eq, not_not] at h
  obtain ⟨hsense, hget, hstatus, hprog, hreboot, hset, htoggle⟩ := h
  by_cases hs : startsWith line "toggle" = true
  · obtain ⟨hne, hms⟩ := htoggle hs
    rw [← length_lt_toggle_iff hs] at hne
    rw [runPrints_toggle info dev output hs, if_neg hne, if_pos hms]
  · have hnone : command line = [] := by
      unfold command toggleBranch otherBranches commandBranch
      rw [if_neg hs, if_neg hsense, if_neg hget, if_neg hset, if_neg hstatus, if_neg hprog,
        if_neg hreboot]
      rfl
    unfold runPrints commandPass
    rw [hnone]
    rfl

/-- One earlier line, `sense`. -/
def pastSense : Past where
  info := default
  device := ⟨Fifo.empty, fun _ => 0, true⟩
  line := ascii "sense"
  returns := by decide

theorem bufferText_zero : bufferText (bufferAfter []) = [] := by
  unfold bufferText
  rw [show bufferSize = 32767 + 1 by rfl, Bytes.read_succ]
  rfl

theorem bufferText_pastSense : bufferText (bufferAfter [pastSense]) = ascii "sense: 1\r\n" := by
  have hbuffer : bufferAfter [pastSense] =
      formatMessage default bufferSize (fun _ => 0) (.sense true) := by
    simp only [bufferAfter, List.foldl_cons, List.foldl_nil, pastSense]
    rw [commandPass_sense]
  have htexts : (Message.sense true).texts default = [ascii "sense: 1\r\n"] := by decide
  have hlen : (ascii "sense: 1\r\n").length ≤ bufferSize - 1 := by decide
  rw [hbuffer, bufferText_message default _ (by rw [htexts]; decide), htexts,
    List.flatten_singleton, List.take_of_length_le hlen]
  decide

/-- A line that does not speak prints what the line before it left. -/
theorem speaks_of_determined (h : OutputDetermined line) : Speaks line := by
  by_contra hspeaks
  have hsame := h default ⟨Fifo.empty, fun _ => 0, true⟩ [] [pastSense]
  rw [runPrints_of_not_speaks hspeaks, runPrints_of_not_speaks hspeaks, bufferText_zero,
    bufferText_pastSense] at hsame
  exact absurd hsame (by decide)

/-- **Output depends on the line and the device alone** exactly for the lines that format a
message or do not come back. -/
theorem output_determined_iff (line : List UInt8) : OutputDetermined line ↔ Speaks line := by
  constructor
  · exact speaks_of_determined
  · intro h info dev history history'
    exact runPrints_of_speaks h info dev _ _

/-- A line that is no command prints the last report again. -/
theorem unknown_line_reprints : ¬ OutputDetermined (ascii "help") := by
  intro h
  have hspeaks := speaks_of_determined h
  unfold Speaks at hspeaks
  revert hspeaks
  decide

end Pcrb
