import Pcrb.Lib.Bytes
import Pcrb.Lib.Decimal
import Pcrb.Lib.Lts

/-!
# The reset interface (`usb_descriptors.cpp`)

The class driver that reboots the device on request. The USB stack calls it in any order,
so a step is one callback with whatever the host sent.
-/

namespace Pcrb

/-- The fields of `tusb_desc_interface_t` that the driver reads. -/
structure InterfaceDescriptor where
  bInterfaceNumber : UInt8
  bInterfaceClass : UInt8
  bInterfaceSubClass : UInt8
  bInterfaceProtocol : UInt8

/-- The fields of `tusb_control_request_t` that the driver reads. -/
structure ControlRequest where
  bRequest : UInt8
  wValue : UInt16
  wIndex : UInt16

/-- `TUSB_CLASS_VENDOR_SPECIFIC`. -/
def tusbClassVendorSpecific : UInt8 := 0xFF

/-- `RESET_INTERFACE_SUBCLASS`. -/
def resetInterfaceSubclass : UInt8 := 0

/-- `RESET_INTERFACE_PROTOCOL`. -/
def resetInterfaceProtocol : UInt8 := 1

/-- `drv_len`: the size of `tusb_desc_interface_t`. -/
def drvLen : UInt16 := 9

/-- `CONTROL_STAGE_SETUP`. -/
def controlStageSetup : UInt8 := 1

/-- `RESET_REQUEST_BOOTSEL`. -/
def resetRequestBootsel : UInt8 := 1

/-- `RESET_REQUEST_FLASH`. -/
def resetRequestFlash : UInt8 := 2

/-- What a callback does and returns. -/
inductive ResetEvent
  | printed (text : List UInt8)
  | bootselReset
  | flashReset
  | opened (length : UInt16)
  | handled (result : Bool)
deriving DecidableEq

/-- The callbacks of the driver that have a body. -/
inductive ResetCallback
  | reset
  | openInterface (itf : InterfaceDescriptor) (maxLen : UInt16)
  | controlXfer (stage : UInt8) (request : ControlRequest)

/-- The interface is one of class, subclass and protocol of the driver. -/
def InterfaceDescriptor.Matches (itf : InterfaceDescriptor) : Prop :=
  tusbClassVendorSpecific = itf.bInterfaceClass ∧
    resetInterfaceSubclass = itf.bInterfaceSubClass ∧
    resetInterfaceProtocol = itf.bInterfaceProtocol

instance (itf : InterfaceDescriptor) : Decidable itf.Matches :=
  inferInstanceAs (Decidable (_ ∧ _ ∧ _))

/-- `reset_open`: `reset_interface_number` afterwards, and the value returned. -/
def resetOpen (number : UInt32) (itf : InterfaceDescriptor) (maxLen : UInt16) : UInt32 × UInt16 :=
  if ¬ itf.Matches then (number, 0)
  -- the number is stored in front of the second check
  else if ¬ drvLen ≤ maxLen then (itf.bInterfaceNumber.toUInt32, 0)
  else (itf.bInterfaceNumber.toUInt32, drvLen)

/-- `reset_control_xfer_cb`: what it does, and last the value returned. -/
def resetControlXferCb (number : UInt32) (stage : UInt8) (request : ControlRequest) :
    List ResetEvent :=
  if stage ≠ controlStageSetup then [.handled true]
  else if request.wIndex.toUInt32 = number then
    if request.bRequest = resetRequestBootsel then
      [.printed (ascii "Rebooting to BOOTSEL " ++
          Decimal.render (request.wValue &&& 0x7f).toNat ++ ascii "...\r\n"),
        .bootselReset, .handled true]
    else if request.bRequest = resetRequestFlash then
      [.printed (ascii "Rebooting to application...\r\n"), .flashReset, .handled false]
    else [.handled false]
  else [.handled false]

/-- One callback, on `reset_interface_number`. -/
def resetStep (number : UInt32) : ResetCallback → UInt32 × List ResetEvent
  | .reset => (0, [])
  | .openInterface itf maxLen =>
    ((resetOpen number itf maxLen).1, [.opened (resetOpen number itf maxLen).2])
  | .controlXfer stage request => (number, resetControlXferCb number stage request)

/-- The driver, from its static initialization. -/
def resetDriver : Lts.System UInt32 ResetCallback ResetEvent where
  init number := number = 0
  step number callback := some (resetStep number callback)

end Pcrb
