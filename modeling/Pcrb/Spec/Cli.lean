import Pcrb.Spec.Disk

/-!
# The command line (`cli_task.cpp`)

`command` is the list of what `command` does for a line, in program order; where it
ends early (an exception out of `substr`, a reset) so does the list. The system
interleaves these actions with the other tasks.
-/

namespace Pcrb

/-- What is there only once the wifi chip has been initialised. -/
inductive Resource
  | netifDefault
  | netifList
  | cyw43
  | lwip
deriving DecidableEq

/-- What `command` formats into `output`. -/
inductive Message
  | toggling (ms : UInt32)
  | sense (state : Bool)
  | bootSelect (select : UInt8)
  | setBootSelect (select : UInt32) (actual : UInt8)
  | status
  | programming
  | reboot
deriving DecidableEq

/-- The text of a message; `report` is that of the status report. -/
def Message.text (report : List UInt8) : Message → List UInt8
  | .toggling ms =>
    ascii "Toggling switch for " ++ Decimal.render ms.toNat ++ ascii " milliseconds\r\n"
  | .sense state => ascii "sense: " ++ Decimal.render state.toNat ++ ascii "\r\n"
  | .bootSelect select => ascii "boot select: " ++ Decimal.render select.toNat ++ ascii "\r\n"
  | .setBootSelect select actual =>
    ascii "set boot select: " ++ Decimal.render select.toNat ++ ascii ", actual " ++
      Decimal.render actual.toNat ++ ascii "\r\n"
  | .status => report
  | .programming => ascii "Rebooting into programming mode...\r\n"
  | .reboot => ascii "Killing (hanging)...\r\n"

/-- The steps of `command`. Three messages are formatted from the device's state when
`command` gets there. -/
inductive CliAction
  | format (message : Message)
  | formatSense
  | formatBootSelect
  | formatSetBootSelect (select : UInt32)
  | setBootSelect (select : UInt8)
  | toggle (time : UInt32)
  | use (resource : Resource)
  | reset
  | throw
deriving DecidableEq

/-- `std::string_view::starts_with`. -/
def startsWith (line : List UInt8) (keyword : String) : Bool := (ascii keyword).isPrefixOf line

/-- `std::string_view::substr`, which throws beyond the end. -/
def substr (line : List UInt8) (pos : ℕ) : Option (List UInt8) :=
  if line.length < pos then none else some (line.drop pos)

/-- The `status` branch: what it dereferences and calls before the report is complete. -/
def statusReport : List CliAction :=
  [.use .netifList,
   .use .netifDefault, -- `netif_is_up`
   .use .netifDefault, -- its flags
   .use .cyw43,        -- `cyw43_wifi_link_status`
   .use .cyw43,        -- `cyw43_wifi_get_rssi`
   .use .cyw43,        -- `cyw43_wifi_get_pm`
   .format .status]

/-- The `toggle` branch, which stands on its own. -/
def toggleBranch (input : List UInt8) : List CliAction :=
  if startsWith input "toggle" then
    match substr input 7 with
    | none => [.throw]
    | some argument =>
      let ms := fromChars argument 0
      -- a malformed argument leaves 0
      if ms ≠ 0 then [.format (.toggling ms), .toggle ms] else []
  else []

/-- The chain of branches behind it. -/
def commandBranch (input : List UInt8) : List CliAction :=
  if input = ascii "sense" then [.formatSense]
  else if input = ascii "get_boot" then [.formatBootSelect]
  else if startsWith input "set_boot" then
    match substr input 9 with
    | none => [.throw]
    | some argument =>
      let select := fromChars argument 0
      -- the argument narrows to `uint8_t`
      [.setBootSelect select.toUInt8, .formatSetBootSelect select]
  else if input = ascii "status" then statusReport
  else []

/-- `command` behind the toggle branch. -/
def otherBranches (input : List UInt8) : List CliAction :=
  commandBranch input ++
  (if input = ascii "programming" then [.format .programming, .reset] else []) ++
  (if input = ascii "reboot" then [.format .reboot, .reset] else [])

/-- `command`. -/
def command (input : List UInt8) : List CliAction := toggleBranch input ++ otherBranches input

/-! ### The toggle line -/

/-- A line that asks for a pulse of `t` milliseconds. -/
def ToggleLine (line : List UInt8) (t : UInt32) : Prop :=
  startsWith line "toggle" = true ∧ (∃ argument, substr line 7 = some argument ∧
    fromChars argument 0 = t) ∧ t ≠ 0

theorem toggleBranch_cases (line : List UInt8) :
    (∃ t, ToggleLine line t ∧ toggleBranch line = [.format (.toggling t), .toggle t]) ∨
      toggleBranch line = [.throw] ∨ toggleBranch line = [] := by
  unfold toggleBranch
  by_cases hs : startsWith line "toggle" = true
  · rw [if_pos hs]
    cases harg : substr line 7 with
    | none => exact Or.inr (Or.inl rfl)
    | some argument =>
      by_cases hms : fromChars argument 0 = 0
      · simp [hms]
      · exact Or.inl ⟨_, ⟨hs, ⟨argument, harg, rfl⟩, hms⟩, by simp [hms]⟩
  · rw [if_neg hs]
    exact Or.inr (Or.inr rfl)

/-- An action of `command` that neither presses the button nor says so. -/
def CliAction.Quiet : CliAction → Prop
  | .format (.toggling _) => False
  | .toggle _ => False
  | _ => True

/-- An action that formats a message from the device's state. -/
def CliAction.Reports : CliAction → Prop
  | .formatSense => True
  | .formatBootSelect => True
  | .formatSetBootSelect _ => True
  | _ => False

theorem CliAction.Reports.quiet {a : CliAction} (h : a.Reports) : a.Quiet := by
  cases a <;> trivial

theorem commandBranch_quiet (line : List UInt8) : ∀ a ∈ commandBranch line, a.Quiet := by
  intro a ha
  unfold commandBranch at ha
  split_ifs at ha
  · rw [List.mem_singleton.1 ha]; trivial
  · rw [List.mem_singleton.1 ha]; trivial
  · cases harg : substr line 9 with
    | none => rw [harg] at ha; rw [List.mem_singleton.1 ha]; trivial
    | some argument =>
      rw [harg] at ha
      simp only [List.mem_cons, List.not_mem_nil, or_false] at ha
      rcases ha with rfl | rfl <;> trivial
  · simp only [statusReport, List.mem_cons, List.not_mem_nil, or_false] at ha
    rcases ha with rfl | rfl | rfl | rfl | rfl | rfl | rfl <;> trivial
  · cases ha

theorem otherBranches_quiet (line : List UInt8) : ∀ a ∈ otherBranches line, a.Quiet := by
  intro a ha
  rw [otherBranches, List.mem_append, List.mem_append] at ha
  rcases ha with (ha | ha) | ha
  · exact commandBranch_quiet line a ha
  · split_ifs at ha
    · simp only [List.mem_cons, List.not_mem_nil, or_false] at ha
      rcases ha with rfl | rfl <;> trivial
    · cases ha
  · split_ifs at ha
    · simp only [List.mem_cons, List.not_mem_nil, or_false] at ha
      rcases ha with rfl | rfl <;> trivial
    · cases ha

/-- **A line presses the button only in its toggle branch**, and only if it is a toggle line. -/
theorem command_cases (line : List UInt8) :
    ∃ rest, (∀ a ∈ rest, a.Quiet) ∧
      ((∃ t, ToggleLine line t ∧ command line = .format (.toggling t) :: .toggle t :: rest) ∨
        command line = rest) := by
  have hrest := otherBranches_quiet line
  rcases toggleBranch_cases line with ⟨t, ht, hb⟩ | hb | hb
  · exact ⟨otherBranches line, hrest, Or.inl ⟨t, ht, by rw [command, hb]; rfl⟩⟩
  · refine ⟨.throw :: otherBranches line, ?_, Or.inr (by rw [command, hb]; rfl)⟩
    intro a ha
    rcases List.mem_cons.1 ha with rfl | ha
    · trivial
    · exact hrest a ha
  · exact ⟨otherBranches line, hrest, Or.inr (by rw [command, hb]; rfl)⟩

end Pcrb
