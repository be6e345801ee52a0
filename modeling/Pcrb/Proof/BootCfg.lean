import Pcrb.Lib.Fat12
import Pcrb.Spec.Disk

/-!
# The boot.cfg file

The host reads the boot selection through the FAT12 volume, the firmware through
`get_boot_select`. The directory entry in block 2 gives the file a fixed size of
16 bytes (`bootCfgFile_eq`), which is the length of the line only for a one-digit
selection: the two readings agree exactly then (`bootCfg_agrees_iff`).
-/

namespace Pcrb

/-- The file `BOOT.CFG` as a reader of the volume sees it. -/
def bootCfgFile (ram : Bytes) : Option (List UInt8) := Fat12.readFile ram (ascii "BOOT    CFG")

/-- Memory after a sequence of `set_boot_select` calls. -/
def afterSelects (ram : Bytes) (selects : List UInt8) : Bytes := selects.foldl setBootSelect ram

/-- Selecting leaves blocks 0 to 2 alone. -/
theorem setBootSelect_below (ram : Bytes) (select : UInt8) {a : ℕ} (h : a < blockAddr 3 0) :
    setBootSelect ram select a = ram a := by
  rw [setBootSelect_eq, Bytes.write_outside (Or.inl h)]

theorem afterSelects_below (ram : Bytes) (selects : List UInt8) {a : ℕ} (h : a < blockAddr 3 0) :
    afterSelects ram selects a = ram a := by
  induction selects generalizing ram with
  | nil => rfl
  | cons s ss ih =>
    have := ih (setBootSelect ram s)
    rw [setBootSelect_below ram s h] at this
    exact this

/-- **Where the file lies.** As long as blocks 0 to 2 are those of the initializer, the
file is the first 16 bytes of block 3. -/
theorem bootCfgFile_eq {ram after : Bytes} (h : ∀ a, a < blockAddr 3 0 → ram a = blockData after a) :
    bootCfgFile ram = some (ram.read (blockAddr 3 0) 16) := by
  set init := blockData fun _ => 0 with hinit
  have hlow : ∀ a, a < blockAddr 3 0 → init a = ram a := by
    intro a ha
    rw [h a ha, hinit]
    have hdisk : a < diskSize := by
      unfold blockAddr diskBlockSize at ha
      unfold diskSize diskBlockNum diskBlockSize
      omega
    unfold blockData
    rw [if_pos hdisk, if_pos hdisk]
  -- what the directory and the table of the initializer say, by computation
  have hl : Fat12.layout init (ascii "BOOT    CFG") = some ([2], 16) := by decide
  have hds : (Fat12.geometry init).dataStart = blockAddr 3 0 := by decide
  obtain ⟨hgeo, hlay⟩ : Fat12.geometry ram = Fat12.geometry init ∧
      Fat12.layout ram (ascii "BOOT    CFG") = some ([2], 16) :=
    Fat12.layout_congr hl (by decide) (by decide) (by decide) (by rw [hds]; exact hlow)
  have hstart : (Fat12.geometry init).clusterStart 2 = blockAddr 3 0 := by decide
  have hsize : (Fat12.geometry init).clusterSize = 512 := by decide
  unfold bootCfgFile Fat12.readFile
  simp only [hlay, hgeo, Option.map_some, List.flatMap_singleton, hstart, hsize]
  rw [Bytes.take_read _ _ (by omega)]

theorem bootCfgFile_afterSelects (after : Bytes) (selects : List UInt8) :
    bootCfgFile (afterSelects (blockData after) selects) =
      some ((afterSelects (blockData after) selects).read (blockAddr 3 0) 16) :=
  bootCfgFile_eq fun _ ha => afterSelects_below _ selects ha

/-- As it starts, block 3 holds the line for selection 0. -/
theorem getBootSelect_blockData (after : Bytes) : getBootSelect (blockData after) = 0 := by
  have h : strtoul (blockData after) (blockAddr 3 13) = (0, blockAddr 3 13 + 1) :=
    strtoul_render (n := 0) (Nat.zero_le _) rfl rfl
  unfold getBootSelect
  rw [h]; rfl

/-- **Host and device agree on boot.cfg exactly for a one-digit selection.** -/
theorem bootCfg_agrees_iff (after : Bytes) (selects : List UInt8) :
    bootCfgFile (afterSelects (blockData after) selects) =
        some (bootLine (getBootSelect (afterSelects (blockData after) selects))) ↔
      ∀ select ∈ selects.getLast?, select < 10 := by
  rw [bootCfgFile_afterSelects]
  rcases List.eq_nil_or_concat selects with rfl | ⟨before, select, rfl⟩
  · -- nothing selected yet: the initial line has 16 bytes
    have h : (blockData after).read (blockAddr 3 0) 16 = bootLine 0 := rfl
    simp only [afterSelects, List.foldl_nil, getBootSelect_blockData, h, List.getLast?_nil]
    simp
  · rw [List.concat_eq_append, List.getLast?_concat]
    simp only [afterSelects, List.foldl_append, List.foldl_cons, List.foldl_nil, Option.mem_some_iff,
      forall_eq', getBootSelect_setBootSelect, Option.some.injEq]
    set ram := List.foldl setBootSelect (blockData after) before
    have hfull := read_setBootSelect ram select
    have hlen := length_bootLine select
    have hpos := Decimal.length_render_pos select.toNat
    -- the file is the first 16 bytes of the line
    have hcut : (setBootSelect ram select).read (blockAddr 3 0) 16 = (bootLine select).take 16 := by
      rw [← Bytes.take_read _ _ (show 16 ≤ (bootLine select).length by omega), hfull]
    -- it is the whole line exactly if the line has no more
    rw [hcut, List.take_eq_self_iff, hlen, UInt8.lt_iff_toNat_lt]
    have := @Decimal.length_render_le_one select.toNat
    have h10 : (10 : UInt8).toNat = 10 := rfl
    omega

/-- The failing selection: two digits, and the file ends before the newline. -/
theorem bootCfg_disagrees_ten :
    bootCfgFile (afterSelects (blockData fun _ => 0) [10]) ≠
      some (bootLine (getBootSelect (afterSelects (blockData fun _ => 0) [10]))) := by
  rw [bootCfgFile_afterSelects]
  simp only [afterSelects, List.foldl_cons, List.foldl_nil, getBootSelect_setBootSelect, ne_eq,
    Option.some.injEq]
  intro h
  have := congrArg List.length h
  rw [Bytes.length_read, length_bootLine] at this
  revert this
  decide

end Pcrb
