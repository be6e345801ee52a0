import Pcrb.Spec.Firmware

/-!
# The firmware with a USB host

The host mounts the disk that `usb_descriptors.cpp` keeps in memory, and writes to it while the
tasks run. A call of `tud_msc_write10_cb` is one step, as is one of `get_boot_select` or
`set_boot_select`; `tud_msc_read10_cb` changes nothing.
-/

namespace Pcrb

/-- A transfer to a block of the disk stays inside the block. The endpoint buffer has the size
of a block, so this is how transfers of whole blocks arrive. -/
def Fits (lba offset bufsize : UInt32) : Prop :=
  lba.toNat < diskBlockNum → offset.toNat + bufsize.toNat ≤ diskBlockSize

instance (lba offset bufsize : UInt32) : Decidable (Fits lba offset bufsize) :=
  inferInstanceAs (Decidable (_ → _))

/-- A step of the firmware, or a call for the host. -/
inductive HostLabel
  | task (l : Label)
  | write10 (lba offset : UInt32) (buffer : Bytes) (bufsize : UInt32)

/-- The step of the firmware. -/
def HostLabel.task? : HostLabel → Option Label
  | .task l => some l
  | .write10 .. => none

/-- The call writes to block 3, which holds the boot selection. -/
def HostLabel.overwrites : HostLabel → Bool
  | .task _ => false
  | .write10 lba _ _ bufsize => decide (lba.toNat = 3 ∧ 0 < bufsize.toNat)

/-- A number without its sign. -/
def afterSign (number : List UInt8) : List UInt8 :=
  if number.head? = some 45 ∨ number.head? = some 43 then number.tail else number

/-- The selection that a text asks for: white space, a sign, and digits that end inside the
text. -/
def textSelection (text : List UInt8) : Option UInt8 :=
  let number := text.dropWhile isspace
  let digits := afterSign number
  let n := Decimal.value (digits.takeWhile Decimal.isDigit)
  if digits.dropWhile Decimal.isDigit = [] then none
  -- what does not fit gives the largest number, and a minus counts down from 0
  else if ulongMax < n then some 255
  else if number.head? = some 45 then some (-UInt8.ofNat n)
  else some (UInt8.ofNat n)

/-- The selection that a call leaves in block 3. A transfer of the whole block brings a text of
its own; one of a part of it leaves some of the text that was there. -/
def HostLabel.edits : HostLabel → Option UInt8
  | .task _ => none
  | .write10 _ offset buffer bufsize =>
    if offset.toNat = 0 ∧ bufsize.toNat = diskBlockSize then
      textSelection ((buffer.read 0 diskBlockSize).drop 13)
    else none

/-- The firmware, mounted by a host that keeps to the blocks. -/
def hosted : Lts.System State HostLabel Event where
  init := firmware.init
  step s
    | .task l => firmware.step s l
    | .write10 lba offset buffer bufsize =>
      if Fits lba offset bufsize then
        some ({ s with ram := (tudMscWrite10Cb s.ram lba offset buffer bufsize).2 }, [])
      else none

/-! ### What is known of the device -/

/-- The selection that a front end stores in its next step. -/
def CliPc.stores : CliPc → Option UInt8
  | .run (.setBootSelect select :: _) => some select
  | _ => none

def NetworkPc.stores : NetworkPc → Option UInt8
  | .handling (.setBootSelect select :: _) => some select
  | _ => none

/-- The selection that a step stores. -/
def State.stores (s : State) : HostLabel → Option UInt8
  | .task (.cli _) => s.cli.stores
  | .task (.network _) => s.network.stores
  | _ => none

/-- The level that a step samples. -/
def State.samples (s : State) : HostLabel → Option Bool
  | .task (.monitor level) => if s.monitor = .loop then some level else none
  | _ => none

abbrev HostTransition := Lts.Transition State HostLabel Event

/-- The selection stored last, or the one that the host has written over it. It is 0 at first. -/
def selectionKnown (tr : List HostTransition) : Option UInt8 :=
  tr.foldl (fun known tn =>
    if tn.label.overwrites then tn.label.edits else (tn.src.stores tn.label).or known) (some 0)

/-- The level sampled last. -/
def levelSampled (tr : List HostTransition) : Bool :=
  tr.foldl (fun level tn => (tn.src.samples tn.label).getD level) false

namespace Event

/-- The boot selection that an event reports: it is put into `output` for the command line, or sent
to a client. What the command line prints is what `output` holds, which may be an older report. -/
def selection : Event → Option UInt8
  | .formatted (.bootSelect select) => some select
  | .formatted (.setBootSelect _ actual) => some actual
  | .reply (.bootSelect select) => some select
  | _ => none

/-- The state of the PC that an event reports, in the same ways. -/
def pcState : Event → Option Bool
  | .formatted (.sense state) => some state
  | .reply (.pcState state) => some state
  | _ => none

end Event

/-- The message that has been put into `output` last. -/
def onFormat (message : Option Message) : Event → Option Message
  | .formatted m => some m
  | _ => message

def lastFormatted (hist : List Event) : Option Message := hist.foldl onFormat none

end Pcrb
