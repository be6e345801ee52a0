import Pcrb.Spec.Libc

/-!
# The RAM disk and the boot selection (`usb_descriptors.cpp`)

`block_data` is the disk the USB host mounts; the firmware keeps the boot
selection as the text of a file in its block 3. Memory is addressed from the
start of `block_data`, so the disk is the addresses below `diskSize` and the rest
is whatever the linker put behind it.
-/

namespace Pcrb

def diskBlockNum : ℕ := 16

def diskBlockSize : ℕ := 512

def diskSize : ℕ := diskBlockNum * diskBlockSize

/-- The address of `block_data[block][offset]`. -/
def blockAddr (block offset : ℕ) : ℕ := block * diskBlockSize + offset

/-- Block 0: the boot sector. -/
def bootSector : List UInt8 :=
  [0xEB, 0x3C, 0x90, 0x4D, 0x53, 0x44, 0x4F, 0x53, 0x35, 0x2E, 0x30, 0x00, 0x02, 0x01, 0x01, 0x00,
   0x01, 0x10, 0x00, 0x10, 0x00, 0xF8, 0x01, 0x00, 0x01, 0x00, 0x01, 0x00, 0x00, 0x00, 0x00, 0x00,
   0x00, 0x00, 0x00, 0x00, 0x80, 0x00, 0x29, 0xFE, 0xCA, 0x00, 0x00] ++ ascii "Grub " ++
  ascii "Boot  " ++ [0x46, 0x41, 0x54, 0x31, 0x32, 0x20, 0x20, 0x20, 0x00, 0x00] ++
  List.replicate 446 0x00 ++ [0x55, 0xAA]

/-- Block 1: the FAT12 table. -/
def fatTable : List UInt8 := [0xF8, 0xFF, 0xFF, 0xFF, 0x0F]

/-- Block 2: the root directory, with the volume label and the one file. -/
def rootDirectory : List UInt8 :=
  ascii "Grub Boot  " ++ [0x08, 0x00, 0x00, 0x00, 0x00,
   0x00, 0x00, 0x00, 0x00, 0x00, 0x00, 0x4F, 0x6D, 0x65, 0x43, 0x00, 0x00, 0x00, 0x00, 0x00, 0x00] ++
  ascii "boot    cfg" ++ [0x20, 0x00, 0xC6, 0x52, 0x6D,
   0x65, 0x43, 0x65, 0x43, 0x00, 0x00, 0x88, 0x6D, 0x65, 0x43, 0x02, 0x00,
   16, 0x00, 0x00, 0x00]

/-- Block 3: the file's only cluster. -/
def bootCfg : List UInt8 := ascii "set default=\"0\"\n"

/-- The initializer of `block_data`; the rest of each block, and the blocks not
listed, are zero. -/
def blockInit : List (List UInt8) := [bootSector, fatTable, rootDirectory, bootCfg]

/-- Memory as the firmware starts: `block_data`, then `after`. -/
def blockData (after : Bytes) : Bytes := fun a =>
  if a < diskSize then (blockInit.getD (a / diskBlockSize) []).getD (a % diskBlockSize) 0
  else after a

/-- `tud_msc_read10_cb`: its result and the caller's buffer afterwards. -/
def tudMscRead10Cb (ram : Bytes) (lba offset : UInt32) (buffer : Bytes) (bufsize : UInt32) :
    Int32 × Bytes :=
  if diskBlockNum ≤ lba.toNat then (-1, buffer)
  else (bufsize.toInt32,
    buffer.write 0 (ram.read (blockAddr lba.toNat offset.toNat) bufsize.toNat))

/-- `tud_msc_write10_cb`: its result and memory afterwards. -/
def tudMscWrite10Cb (ram : Bytes) (lba offset : UInt32) (buffer : Bytes) (bufsize : UInt32) :
    Int32 × Bytes :=
  if diskBlockNum ≤ lba.toNat then (-1, ram)
  else (bufsize.toInt32,
    ram.write (blockAddr lba.toNat offset.toNat) (buffer.read 0 bufsize.toNat))

/-- `get_boot_select`: the number at byte 13 of block 3, narrowed to `uint8_t`. -/
def getBootSelect (ram : Bytes) : UInt8 := UInt8.ofNat (strtoul ram (blockAddr 3 13)).1

/-- The text of the line that `set_boot_select` formats. -/
def bootLine (select : UInt8) : List UInt8 :=
  ascii "set default=\"" ++ Decimal.render select.toNat ++ ascii "\"\n"

/-- `set_boot_select`: the line, written over the start of block 3. -/
def setBootSelect (ram : Bytes) (select : UInt8) : Bytes :=
  (snprintf ram (blockAddr 3 0) diskBlockSize (bootLine select)).1

/-! ### The written line -/

theorem length_bootLine (select : UInt8) :
    (bootLine select).length = 15 + (Decimal.render select.toNat).length := by
  have h1 : (ascii "set default=\"").length = 13 := by decide
  have h2 : (ascii "\"\n").length = 2 := by decide
  simp only [bootLine, List.length_append, h1, h2]
  omega

/-- At most three digits, so the line is never cut by `snprintf`. -/
theorem length_bootLine_le (select : UInt8) : (bootLine select).length ≤ 18 := by
  have := Decimal.length_render_le (n := select.toNat) (k := 3) (by decide)
    (by have := select.toNat_lt; omega)
  rw [length_bootLine]; omega

theorem setBootSelect_eq (ram : Bytes) (select : UInt8) :
    setBootSelect ram select = ram.write (blockAddr 3 0) (bootLine select ++ [0]) := by
  have := length_bootLine_le select
  -- the block has room for the line and its terminating zero
  unfold setBootSelect snprintf
  rw [if_neg (by decide), List.take_of_length_le (by unfold diskBlockSize; omega)]

/-- The line, as read back from block 3. -/
theorem read_setBootSelect (ram : Bytes) (select : UInt8) :
    (setBootSelect ram select).read (blockAddr 3 0) (bootLine select).length = bootLine select := by
  rw [setBootSelect_eq, Bytes.read_write_append]

/-- The selection is read out of the line alone: the parse stops at the closing quote. -/
theorem getBootSelect_of_line {m : Bytes} {select : UInt8}
    (hline : m.read (blockAddr 3 0) (bootLine select).length = bootLine select) :
    getBootSelect m = select := by
  have hlt := select.toNat_lt
  -- the bytes from 13 on: the digits and the closing quote
  rw [length_bootLine, show 15 + (Decimal.render select.toNat).length =
    13 + ((Decimal.render select.toNat).length + 2) by omega, Bytes.read_add, bootLine,
    List.append_assoc] at hline
  have htail := (List.append_inj hline (by rw [Bytes.length_read]; decide)).2
  rw [Bytes.read_add] at htail
  obtain ⟨hdigits, hquote⟩ := List.append_inj htail (by simp)
  -- 34 is the quote, which ends the digits
  have hstop : m (blockAddr 3 0 + 13 + (Decimal.render select.toNat).length) = 34 := by
    rw [Bytes.read_succ, show ascii "\"\n" = [34, 10] by decide] at hquote
    exact (List.cons.inj hquote).1
  unfold getBootSelect
  rw [show blockAddr 3 13 = blockAddr 3 0 + 13 from rfl,
    strtoul_render (by unfold ulongMax; omega) hdigits (by rw [hstop]; decide), UInt8.ofNat_toNat]

/-- **Round trip of the boot selection**, whatever block 3 held before. -/
theorem getBootSelect_setBootSelect (ram : Bytes) (select : UInt8) :
    getBootSelect (setBootSelect ram select) = select :=
  getBootSelect_of_line (read_setBootSelect ram select)

end Pcrb
