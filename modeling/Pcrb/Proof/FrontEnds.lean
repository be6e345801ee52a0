import Pcrb.Proof.Grammar
import Pcrb.Proof.Lines

/-!
# The two front ends

Both the network and the command line take a number of 32 bits, and pass it to the switch
queue or to `set_boot_select`, which takes one of 8.

* `selection_stored_iff`: exactly which selections are stored as requested, or not at all.
* `toggle_frontEnds`: a line and a frame that carry the same time do the same to the queue,
  except that the line does not send 0.
-/

namespace Pcrb

/-! ### The boot selection, from request to disk -/

/-- The selection reads back as requested, or the disk is as before. -/
def StoredOrUnchanged (select : UInt32) (before after : Bytes) : Prop :=
  (getBootSelect after).toNat = select.toNat ∨ after = before

/-- The number survives the narrowing to `uint8_t`. -/
theorem toNat_toUInt8_eq_iff {select : UInt32} :
    select.toUInt8.toNat = select.toNat ↔ select.toNat < 256 := by
  rw [UInt32.toNat_toUInt8]
  omega

theorem storedOrUnchanged_iff (ram : Bytes) (select : UInt32) :
    StoredOrUnchanged select ram (setBootSelect ram select.toUInt8) ↔
      select.toNat < 256 ∨ HoldsBootLine ram select.toUInt8 := by
  rw [StoredOrUnchanged, getBootSelect_setBootSelect, toNat_toUInt8_eq_iff,
    setBootSelect_eq_self_iff]

theorem ram_networkPass_select (dev : Device) (stale : Bytes) (select : UInt32) :
    (networkPass dev (stale.write 0 (selectFrame select))
      (.ok (selectFrame select).length)).device.ram = setBootSelect dev.ram select.toUInt8 := by
  rw [networkPass_selectFrame]

theorem ram_commandPass_select (info : StatusInfo) (dev : Device) (output : Bytes)
    {line : List UInt8} {select : UInt32} (h : CarriesNumber "set_boot" line select) :
    (commandPass info dev output line).device.ram = setBootSelect dev.ram select.toUInt8 := by
  obtain ⟨hlen, hselect⟩ := h.bootSelection_eq
  rw [commandPass_setBoot info dev output h.startsWith, hselect, if_neg (by omega)]

/-- **A boot selection is stored as requested or not at all**, by a network request and by a
line alike, exactly if it is below 256, or block 3 already holds what it wraps to. -/
theorem selection_stored_iff (info : StatusInfo) (dev : Device) (output stale : Bytes)
    (select : UInt32) :
    (StoredOrUnchanged select dev.ram (networkPass dev (stale.write 0 (selectFrame select))
        (.ok (selectFrame select).length)).device.ram ↔
      select.toNat < 256 ∨ HoldsBootLine dev.ram select.toUInt8) ∧
    ∀ line, CarriesNumber "set_boot" line select →
      (StoredOrUnchanged select dev.ram (commandPass info dev output line).device.ram ↔
        select.toNat < 256 ∨ HoldsBootLine dev.ram select.toUInt8) := by
  constructor
  · rw [ram_networkPass_select]
    exact storedOrUnchanged_iff dev.ram select
  · intro line hline
    rw [ram_commandPass_select info dev output hline]
    exact storedOrUnchanged_iff dev.ram select

/-- The line `set_boot 7`, on an empty disk. -/
theorem selection_stored_seven :
    StoredOrUnchanged 7 (fun _ => 0)
      (commandPass default ⟨Fifo.empty, fun _ => 0, true⟩ (fun _ => 0)
        (ascii "set_boot 7")).device.ram := by
  have hdigits : ∀ b ∈ [(55 : UInt8)], Decimal.isDigit b = true := by
    intro b hb
    rw [List.mem_singleton.1 hb]
    decide
  have hline : CarriesNumber "set_boot" (ascii "set_boot 7") 7 :=
    ⟨[55], by decide, by decide, hdigits, by decide⟩
  exact ((selection_stored_iff default ⟨Fifo.empty, fun _ => 0, true⟩ (fun _ => 0) (fun _ => 0)
    7).2 _ hline).2 (Or.inl (by decide))

/-- Entry 256 becomes entry 0. -/
theorem selection_wraps :
    ¬ StoredOrUnchanged 256 (fun _ => 0)
      (networkPass ⟨Fifo.empty, fun _ => 0, true⟩ (Bytes.write (fun _ => 0) 0 (selectFrame 256))
        (.ok (selectFrame 256).length)).device.ram := by
  rw [ram_networkPass_select, storedOrUnchanged_iff]
  rintro (hsmall | hholds)
  · revert hsmall
    decide
  · -- block 3 is empty
    have hzero : (256 : UInt32).toUInt8 = 0 := by decide
    rw [hzero] at hholds
    have hfirst := congrArg List.head? hholds
    revert hfirst
    decide

/-! ### The toggle, from request to queue -/

/-- The line `toggle`, with the decimal digits of a time. -/
def toggleLine (time : UInt32) : List UInt8 := ascii "toggle " ++ Decimal.render time.toNat

theorem toggleLine_carries (time : UInt32) : CarriesNumber "toggle" (toggleLine time) time := by
  have hkeyword : ascii "toggle " = ascii "toggle" ++ [32] := by decide
  refine ⟨Decimal.render time.toNat, ?_, Decimal.render_ne_nil _, ?_, Decimal.value_render _⟩
  · rw [toggleLine, hkeyword, List.append_assoc, List.singleton_append]
  · intro b hb
    exact Decimal.isDigit_of_mem_render hb

variable {time : UInt32}

/-- A line that carries 0 is not sent on. -/
theorem commandPass_toggleLine_zero (info : StatusInfo) (dev : Device) (output : Bytes) :
    commandPass info dev output (toggleLine 0) = ⟨output, [], dev, false⟩ := by
  obtain ⟨hlen, hms⟩ := (toggleLine_carries 0).toggleMs_eq
  rw [commandPass_toggle info dev output (toggleLine_carries 0).startsWith, hms,
    if_neg (by omega), if_pos rfl]

/-- Any other is, once. -/
theorem commandPass_toggleLine (info : StatusInfo) (dev : Device) (output : Bytes)
    (h : time ≠ 0) :
    commandPass info dev output (toggleLine time) =
      ⟨formatMessage info bufferSize output (.toggling time), [time],
        { dev with queue := (dev.queue.send time).1 }, false⟩ := by
  obtain ⟨hlen, hms⟩ := (toggleLine_carries time).toggleMs_eq
  rw [commandPass_toggle info dev output (toggleLine_carries time).startsWith, hms,
    if_neg (by omega), if_neg h]

/-- The queue after a line and after a frame that carry the same time. -/
theorem queue_toggle_eq_iff (info : StatusInfo) (dev : Device) (output stale : Bytes)
    (time : UInt32) :
    (commandPass info dev output (toggleLine time)).device.queue =
        (networkPass dev (stale.write 0 (toggleFrame time))
          (.ok (toggleFrame time).length)).device.queue ↔
      time ≠ 0 ∨ dev.queue.Full := by
  rw [networkPass_toggleFrame]
  by_cases hzero : time = 0
  · rw [hzero, commandPass_toggleLine_zero]
    have hself : (dev.queue.send 0).1 = dev.queue ↔ dev.queue.Full := send_eq_self_iff
    rw [eq_comm, hself]
    constructor
    · exact Or.inr
    · rintro (hne | hfull)
      · exact absurd rfl hne
      · exact hfull
  · rw [commandPass_toggleLine info dev output hzero]
    exact iff_of_true rfl (Or.inl hzero)

/-- **The two front ends mean the same by a toggle**, but for 0: a line and a frame that carry
the same time try the same send and leave the queue the same if the time is not 0, and with
0 the line sends nothing while the frame sends 0. So they leave the queue the same exactly
if the time is not 0 or the queue is full. -/
theorem toggle_frontEnds (info : StatusInfo) (dev : Device) (output stale : Bytes)
    (time : UInt32) :
    let line := commandPass info dev output (toggleLine time)
    let frame := networkPass dev (stale.write 0 (toggleFrame time))
      (.ok (toggleFrame time).length)
    (time ≠ 0 → line.sends = frame.sends ∧ line.device.queue = frame.device.queue) ∧
    (time = 0 → line.sends = [] ∧ line.device.queue = dev.queue ∧ frame.sends = [0] ∧
      frame.device.queue = (dev.queue.send 0).1) ∧
    (line.device.queue = frame.device.queue ↔ time ≠ 0 ∨ dev.queue.Full) := by
  dsimp only
  refine ⟨?_, ?_, queue_toggle_eq_iff info dev output stale time⟩
  · intro hne
    rw [commandPass_toggleLine info dev output hne, networkPass_toggleFrame]
    exact ⟨rfl, rfl⟩
  · rintro rfl
    rw [commandPass_toggleLine_zero, networkPass_toggleFrame]
    exact ⟨rfl, rfl, rfl, rfl⟩

/-- The time 0, on an empty queue. -/
theorem toggle_zero_differs :
    (commandPass default ⟨Fifo.empty, fun _ => 0, true⟩ (fun _ => 0)
        (toggleLine 0)).device.queue ≠
      (networkPass ⟨Fifo.empty, fun _ => 0, true⟩ (Bytes.write (fun _ => 0) 0 (toggleFrame 0))
        (.ok (toggleFrame 0).length)).device.queue := by
  intro h
  rcases (queue_toggle_eq_iff _ _ _ _ _).1 h with hne | hfull
  · exact hne rfl
  · exact absurd hfull (by decide)

end Pcrb
