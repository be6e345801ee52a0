import Pcrb.Lib.Fifo
import Pcrb.Spec.Disk
import Pcrb.Spec.Request

/-!
# The network requests (`network_task.cpp`)

What `network_task` does with the result of `request_handler::read`: the list of
actions of that pass, in program order. `Action.replies` and `Action.store` say what
an action sends back and does to the disk; the send to `switch_comms` is left to the
system, where it is interleaved with the other tasks, and `Action.run` is the pass on
its own, with the queue at hand.
-/

namespace Pcrb

/-- The size of the `data` array that `network_task` reads into. -/
def dataSize : ℕ := 1024

def requestMagic : UInt32 := 0x416E614D

/-- lwIP's `EAGAIN`, which `recv` reports when the receive timeout passes. -/
def EAGAIN : ℤ := 11

/-- The explanations that are logged and sent to the client. -/
inductive Reply
  | badRequestSize (amount : ℕ)
  | badMagic (magic : UInt32)
  | badSize (amount : ℕ)
  | toggle (time : UInt32)
  | bootSelect (select : UInt8)
  | bootSelectRequest (select : UInt32)
  | pcState (state : Bool)
  | unknownCommand (request : UInt32)
  | failed (errno : ℤ)

/-- The text of an explanation. -/
def Reply.text (strerror : ℤ → List UInt8) : Reply → List UInt8
  | .badRequestSize amount => ascii "Received bad network request with size " ++ Decimal.render amount
  | .badMagic magic => ascii "Received bad network request, bad magic " ++ Decimal.render magic.toNat
  | .badSize amount => ascii "Received bad network request, bad size " ++ Decimal.render amount
  | .toggle time => ascii "Received network toggle request " ++ Decimal.render time.toNat
  | .bootSelect select => ascii "boot select: " ++ Decimal.render select.toNat
  | .bootSelectRequest select =>
    ascii "Received boot select request " ++ Decimal.render select.toNat ++ ascii ", "
  | .pcState state => ascii "PC 3.3V rail status: " ++ ascii (if state then "true" else "false")
  | .unknownCommand request =>
    ascii "Received bad network request, unknown command " ++ Decimal.render request.toNat
  | .failed errno =>
    ascii "failed to handle request: " ++ if errno = EAGAIN then ascii "timeout" else strerror errno

/-- The steps of a pass. Two replies are formatted from the device's state when the pass
gets there. -/
inductive Action
  | send (reply : Reply)
  | sendBootSelect
  | sendPcState
  | setBootSelect (select : UInt8)
  | xQueueSendToBack (time : UInt32)

/-- A received payload of `amount` bytes at the start of `data`. -/
def handlePayload (amount : ℕ) (data : Bytes) : List Action :=
  if amount < 8 then [.send (.badRequestSize amount)]
  else
    let magic := ntoh32 (load32 data 0)
    if magic ≠ requestMagic then [.send (.badMagic magic)]
    else
      let request := ntoh32 (load32 data 4)
      if request = 0 then
        if amount ≠ 12 then [.send (.badSize amount)]
        else
          let time := ntoh32 (load32 data 8)
          [.send (.toggle time), .xQueueSendToBack time]
      else if request = 1 then
        if amount ≠ 8 then [.send (.badSize amount)]
        else [.sendBootSelect]
      else if request = 2 then
        if amount ≠ 12 then [.send (.badSize amount)]
        else
          let select := ntoh32 (load32 data 8)
          -- the argument narrows to `uint8_t`
          [.send (.bootSelectRequest select), .setBootSelect select.toUInt8, .sendBootSelect]
      else if request = 3 then
        if amount ≠ 8 then [.send (.badSize amount)]
        else [.sendPcState]
      else [.send (.unknownCommand request)]

/-- What follows `handler.read`. -/
def handleRequest (data : Bytes) : Except ℤ ℕ → List Action
  | .ok amount => handlePayload amount data
  | .error errno => [.send (.failed errno)]

namespace Action

/-- What an action sends to the client. -/
def replies (ram : Bytes) (pcState : Bool) : Action → List Reply
  | .send reply => [reply]
  | .sendBootSelect => [.bootSelect (getBootSelect ram)]
  | .sendPcState => [.pcState pcState]
  | _ => []

/-- What an action does to the disk. -/
def store (ram : Bytes) : Action → Bytes
  | .setBootSelect select => Pcrb.setBootSelect ram select
  | _ => ram

end Action

/-- The state of the device that a pass reads and changes. -/
structure Device where
  queue : Fifo UInt32 1
  ram : Bytes
  pcState : Bool

/-- What a pass did: replies, attempted sends to `switch_comms`, calls of
`set_boot_select`, and the device afterwards. -/
structure Outcome where
  replies : List Reply
  sends : List UInt32
  selects : List UInt8
  device : Device

/-- One action of a pass. -/
def Action.run (o : Outcome) (a : Action) : Outcome where
  replies := o.replies ++ a.replies o.device.ram o.device.pcState
  sends := o.sends ++ match a with | .xQueueSendToBack time => [time] | _ => []
  selects := o.selects ++ match a with | .setBootSelect select => [select] | _ => []
  device := {
    queue := match a with
      | .xQueueSendToBack time => (o.device.queue.send time).1
      | _ => o.device.queue
    ram := a.store o.device.ram
    pcState := o.device.pcState }

/-- A pass of `network_task`'s handler after `read` returned. -/
def networkPass (dev : Device) (data : Bytes) (result : Except ℤ ℕ) : Outcome :=
  (handleRequest data result).foldl Action.run ⟨[], [], [], dev⟩

end Pcrb
