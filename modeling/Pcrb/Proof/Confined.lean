import Pcrb.Proof.RamDisk

/-!
# What lies behind the disk

`block_data` ends at `diskSize`, and block 3 at the start of block 4. A transfer that
begins on the disk may end behind it, and the scan for the boot selection may leave
its block.

* `transfers_confined_iff`: exactly which transfers keep to the disk.
* `strtoul_inside_iff`: exactly which texts end a scan.
* `bootScan_inside_iff`: exactly which contents of block 3 keep the scan in the block,
  over all that the host can write.
-/

namespace Pcrb

/-! ### Transfers -/

section Transfers

variable (lba offset bufsize : UInt32)

/-- The bytes of a transfer end on the disk. -/
def EndsOnDisk : Prop := lba.toNat * diskBlockSize + offset.toNat + bufsize.toNat ≤ diskSize

/-- A read is refused, or reads nothing but the disk. -/
def ReadConfined : Prop :=
  ∀ ram buffer, tudMscRead10Cb ram lba offset buffer bufsize = (-1, buffer) ∨
    EndsOnDisk lba offset bufsize ∧ ∀ ram', (∀ a, a < diskSize → ram' a = ram a) →
      tudMscRead10Cb ram' lba offset buffer bufsize = tudMscRead10Cb ram lba offset buffer bufsize

/-- A write is refused, or changes nothing but the disk. -/
def WriteConfined : Prop :=
  ∀ ram buffer, tudMscWrite10Cb ram lba offset buffer bufsize = (-1, ram) ∨
    EndsOnDisk lba offset bufsize ∧ ∀ a, diskSize ≤ a →
      (tudMscWrite10Cb ram lba offset buffer bufsize).2 a = ram a

instance : Decidable (EndsOnDisk lba offset bufsize) :=
  inferInstanceAs (Decidable (_ ≤ diskSize))

variable {lba offset bufsize}

theorem readConfined_of_endsOnDisk (h : EndsOnDisk lba offset bufsize) :
    ReadConfined lba offset bufsize := by
  intro ram buffer
  refine Or.inr ⟨h, fun ram' hram => ?_⟩
  unfold tudMscRead10Cb
  split
  · rfl
  · -- every byte read lies on the disk
    have hread : ram'.read (blockAddr lba.toNat offset.toNat) bufsize.toNat =
        ram.read (blockAddr lba.toNat offset.toNat) bufsize.toNat := by
      apply Bytes.read_congr
      intro i hi
      apply hram
      unfold EndsOnDisk at h
      unfold blockAddr
      omega
    rw [hread]

theorem writeConfined_of_endsOnDisk (h : EndsOnDisk lba offset bufsize) :
    WriteConfined lba offset bufsize := by
  intro ram buffer
  refine Or.inr ⟨h, fun a ha => ?_⟩
  unfold tudMscWrite10Cb
  split
  · rfl
  · dsimp only
    apply Bytes.write_outside
    rw [Bytes.length_read]
    unfold EndsOnDisk at h
    unfold blockAddr
    omega

/-- A read of a block of the disk is carried out: some call is not refused. -/
theorem read_carried_out (hlba : lba.toNat < diskBlockNum) :
    ∃ ram buffer, tudMscRead10Cb ram lba offset buffer bufsize ≠ (-1, buffer) := by
  refine ⟨fun _ => 1, fun _ => 0, fun heq => ?_⟩
  unfold tudMscRead10Cb at heq
  rw [if_neg (by omega)] at heq
  obtain ⟨hresult, hbuffer⟩ := Prod.mk.inj heq
  rcases Nat.eq_zero_or_pos bufsize.toNat with hzero | hpos
  · -- no byte at all is the result 0
    have hb : bufsize = 0 := UInt32.toNat_inj.1 hzero
    rw [hb] at hresult
    revert hresult
    decide
  · -- otherwise the first byte has been copied
    have h0 := congrFun hbuffer 0
    rw [Bytes.write_apply, if_pos le_rfl, List.getElem?_eq_getElem (by simpa using hpos),
      Option.getD_some, Bytes.getElem_read] at h0
    revert h0
    decide

/-- A transfer that ends behind the disk moves a byte that is not on it. -/
theorem transfers_behind (hlba : lba.toNat < diskBlockNum) (hsize : 0 < bufsize.toNat)
    (h : ¬ EndsOnDisk lba offset bufsize) :
    ∃ i, i < bufsize.toNat ∧ diskSize ≤ blockAddr lba.toNat offset.toNat + i ∧
      ∀ ram buffer,
        (tudMscRead10Cb ram lba offset buffer bufsize).2 i =
          ram (blockAddr lba.toNat offset.toNat + i) ∧
        (tudMscWrite10Cb ram lba offset buffer bufsize).2 (blockAddr lba.toNat offset.toNat + i) =
          buffer i := by
  have hlast : bufsize.toNat - 1 < bufsize.toNat := by omega
  refine ⟨bufsize.toNat - 1, hlast, ?_, fun ram buffer => ⟨?_, ?_⟩⟩
  · unfold EndsOnDisk at h
    unfold blockAddr
    omega
  · unfold tudMscRead10Cb
    rw [if_neg (by omega)]
    dsimp only
    rw [Bytes.write_apply, if_pos (Nat.zero_le _),
      List.getElem?_eq_getElem (by simpa using hlast), Option.getD_some, Bytes.getElem_read,
      Nat.sub_zero]
  · unfold tudMscWrite10Cb
    rw [if_neg (by omega)]
    dsimp only
    rw [Bytes.write_of_lt (by rw [Bytes.length_read]; exact hlast), Bytes.getElem_read,
      Nat.zero_add]

end Transfers

/-- **Transfers keep to the disk** exactly if the block does not exist, so that they are
refused, or if they end on the disk. The others, unless they are empty, read and overwrite
what lies behind it. -/
theorem transfers_confined_iff (lba offset bufsize : UInt32) :
    (ReadConfined lba offset bufsize ∧ WriteConfined lba offset bufsize ↔
      diskBlockNum ≤ lba.toNat ∨ EndsOnDisk lba offset bufsize) ∧
    (lba.toNat < diskBlockNum → 0 < bufsize.toNat → ¬ EndsOnDisk lba offset bufsize →
      ∃ i, i < bufsize.toNat ∧ diskSize ≤ blockAddr lba.toNat offset.toNat + i ∧
        ∀ ram buffer,
          (tudMscRead10Cb ram lba offset buffer bufsize).2 i =
            ram (blockAddr lba.toNat offset.toNat + i) ∧
          (tudMscWrite10Cb ram lba offset buffer bufsize).2
            (blockAddr lba.toNat offset.toNat + i) = buffer i) := by
  refine ⟨⟨fun h => ?_, fun h => ?_⟩, fun hlba hsize h => transfers_behind hlba hsize h⟩
  · by_cases hlba : diskBlockNum ≤ lba.toNat
    · exact Or.inl hlba
    · obtain ⟨ram, buffer, hne⟩ := @read_carried_out lba offset bufsize (by omega)
      exact Or.inr ((h.1 ram buffer).resolve_left hne).1
  · rcases h with hlba | hend
    · exact ⟨fun ram buffer => Or.inl (if_pos hlba), fun ram buffer => Or.inl (if_pos hlba)⟩
    · exact ⟨readConfined_of_endsOnDisk hend, writeConfined_of_endsOnDisk hend⟩

/-- The second half of a block of 1024 bytes, at the last block. -/
theorem transfer_behind_disk : ¬ (ReadConfined 15 512 512 ∧ WriteConfined 15 512 512) := by
  rintro ⟨-, hwrite⟩
  rcases hwrite (fun _ => 0) (fun _ => 1) with hrefused | ⟨hend, -⟩
  · have hresult := congrArg Prod.fst hrefused
    revert hresult
    decide
  · revert hend
    decide

/-! ### The scan for the boot selection -/

/-- A text that a scan for a number runs through: white space, at most one sign, digits. -/
def RunsThrough (text : List UInt8) : Prop :=
  ∃ space sign digits, text = space ++ (sign ++ digits) ∧ (∀ b ∈ space, isspace b = true) ∧
    (sign = [] ∨ sign = [45] ∨ sign = [43]) ∧ ∀ b ∈ digits, Decimal.isDigit b = true

section Scan

variable {m : Bytes} {a n : ℕ}

/-- The address behind an optional sign. -/
def skipSign (m : Bytes) (s : ℕ) : ℕ := if m s == 45 || m s == 43 then s + 1 else s

theorem strtoul_stop (m : Bytes) (a : ℕ) :
    (strtoul m a).2 =
      (scanDigits m addressSpace (skipSign m (skipSpace m addressSpace a)) 0).2 := rfl

theorem mem_read {i : ℕ} {b : UInt8} (h : b ∈ m.read a i) : ∃ j, j < i ∧ b = m (a + j) := by
  obtain ⟨j, hj, rfl⟩ := List.mem_map.1 h
  exact ⟨j, List.mem_range.1 hj, rfl⟩

/-- A part of a text in memory, by its place. -/
theorem getElem_append_read {pre text rest : List UInt8} (h : m.read a n = pre ++ (text ++ rest))
    {j : ℕ} (hj : j < text.length) : m (a + pre.length + j) = text[j] := by
  have hlen := congrArg List.length h
  rw [Bytes.length_read, List.length_append, List.length_append] at hlen
  have hget : (m.read a n)[pre.length + j]? = some text[j] := by
    rw [h, List.getElem?_append_right (by omega), Nat.add_sub_cancel_left,
      List.getElem?_append_left hj, List.getElem?_eq_getElem hj]
  rw [List.getElem?_eq_getElem (by rw [Bytes.length_read]; omega), Bytes.getElem_read] at hget
  rw [Nat.add_assoc]
  exact Option.some.inj hget

theorem le_skipSpace {b : ℕ} (hb : b ≤ a + n)
    (h : ∀ i, a ≤ i → i < b → isspace (m i) = true) : b ≤ skipSpace m n a := by
  obtain ⟨hstart, -, -, hstop⟩ := skipSpace_spec m n a
  by_contra hlt
  have hnot := hstop (by omega)
  rw [h _ hstart (by omega)] at hnot
  cases hnot

theorem le_scanDigits {b c : ℕ} (hb : b ≤ a + n)
    (h : ∀ i, a ≤ i → i < b → Decimal.isDigit (m i) = true) : b ≤ (scanDigits m n a c).2 := by
  obtain ⟨hstart, -, -, hstop⟩ := scanDigits_spec m n a c
  by_contra hlt
  have hnot := hstop (by omega)
  rw [h _ hstart (by omega)] at hnot
  cases hnot

theorem skipSign_cases (m : Bytes) (s : ℕ) :
    skipSign m s = s + 1 ∧ (m s = 45 ∨ m s = 43) ∨ skipSign m s = s ∧ m s ≠ 45 ∧ m s ≠ 43 := by
  unfold skipSign
  split
  · rename_i hsign
    rw [Bool.or_eq_true, beq_iff_eq, beq_iff_eq] at hsign
    exact Or.inl ⟨rfl, hsign⟩
  · rename_i hsign
    rw [Bool.or_eq_true, beq_iff_eq, beq_iff_eq, not_or] at hsign
    exact Or.inr ⟨rfl, hsign⟩

theorem le_skipSign (m : Bytes) (s : ℕ) : s ≤ skipSign m s := by
  rcases skipSign_cases m s with ⟨h, -⟩ | ⟨h, -⟩ <;> omega

/-- What is skipped is a sign, or nothing. -/
theorem read_skipSign (m : Bytes) (s : ℕ) :
    m.read s (skipSign m s - s) = [] ∨ m.read s (skipSign m s - s) = [45] ∨
      m.read s (skipSign m s - s) = [43] := by
  rcases skipSign_cases m s with ⟨h, hsign⟩ | ⟨h, -⟩
  · have hone : m.read s (s + 1 - s) = [m s] := by
      rw [Nat.add_sub_cancel_left]
      rfl
    rw [h, hone]
    rcases hsign with hsign | hsign
    · exact Or.inr (Or.inl (by rw [hsign]))
    · exact Or.inr (Or.inr (by rw [hsign]))
  · rw [h, Nat.sub_self]
    exact Or.inl rfl

/-- A scan that leaves the text has run through it. -/
theorem runsThrough_of_outside (h : a + n ≤ (strtoul m a).2) :
    RunsThrough (m.read a n) := by
  rw [strtoul_stop] at h
  obtain ⟨hs, -, hspace, -⟩ := skipSpace_spec m addressSpace a
  set s := skipSpace m addressSpace a
  obtain ⟨-, -, hdigits, -⟩ := scanDigits_spec m addressSpace (skipSign m s) 0
  have hn : a + n - a = n := Nat.add_sub_cancel_left a n
  rcases Nat.lt_or_ge s (a + n) with hlt | hge
  · -- the text goes on behind the white space
    have hsign := le_skipSign m s
    have hend : skipSign m s ≤ a + n := by
      rcases skipSign_cases m s with ⟨h', -⟩ | ⟨h', -⟩ <;> omega
    have htext : m.read a n = m.read a (s - a) ++ (m.read s (skipSign m s - s) ++
        m.read (skipSign m s) (a + n - skipSign m s)) := by
      rw [← Bytes.read_append hsign hend, ← Bytes.read_append hs hlt.le, hn]
    refine ⟨_, _, _, htext, fun b hb => ?_, read_skipSign m s, fun b hb => ?_⟩
    · obtain ⟨j, hj, rfl⟩ := mem_read hb
      exact hspace _ (by omega) (by omega)
    · obtain ⟨j, hj, rfl⟩ := mem_read hb
      exact hdigits _ (by omega) (by omega)
  · -- white space only
    refine ⟨m.read a n, [], [], by simp, fun b hb => ?_, Or.inl rfl, by simp⟩
    obtain ⟨j, hj, rfl⟩ := mem_read hb
    exact hspace _ (by omega) (by omega)

/-- A scan of such a text leaves it. -/
theorem outside_of_runsThrough (hn : n < addressSpace) (h : RunsThrough (m.read a n)) :
    a + n ≤ (strtoul m a).2 := by
  obtain ⟨space, sign, digits, htext, hspace, hsign, hdigits⟩ := h
  have hlen := congrArg List.length htext
  rw [Bytes.length_read, List.length_append, List.length_append] at hlen
  have hspaceAt : ∀ i, a ≤ i → i < a + space.length → isspace (m i) = true := by
    intro i hi hlt
    have hj : i - a < space.length := by omega
    have hb := @getElem_append_read m a n [] space (sign ++ digits) htext (i - a) hj
    rw [List.length_nil, Nat.add_zero, Nat.add_sub_cancel' hi] at hb
    rw [hb]
    exact hspace _ (List.getElem_mem hj)
  have hdigitsAt : ∀ i, a + (space ++ sign).length ≤ i → i < a + n →
      Decimal.isDigit (m i) = true := by
    intro i hi hlt
    have hj : i - (a + (space ++ sign).length) < digits.length := by
      rw [List.length_append] at hi ⊢
      omega
    have hb := @getElem_append_read m a n (space ++ sign) digits []
      (by rw [List.append_nil, List.append_assoc]; exact htext) _ hj
    rw [Nat.add_sub_cancel' hi] at hb
    rw [hb]
    exact hdigits _ (List.getElem_mem hj)
  rw [strtoul_stop]
  have hs : a + space.length ≤ skipSpace m addressSpace a := le_skipSpace (by omega) hspaceAt
  set s := skipSpace m addressSpace a
  have hskip := le_skipSign m s
  -- the sign is behind the scan too, so what is left are digits
  have hd : a + (space ++ sign).length ≤ skipSign m s := by
    rw [List.length_append]
    rcases hsign with hnil | hone
    · rw [hnil, List.length_nil]
      omega
    · have hlength : sign.length = 1 := by
        rcases hone with rfl | rfl <;> rfl
      rcases Nat.eq_or_lt_of_le hs with heq | hgt
      · have hhead := @getElem_append_read m a n space sign digits htext 0 (by omega)
        rw [Nat.add_zero, heq] at hhead
        have hm : m s = 45 ∨ m s = 43 := by
          rw [hhead]
          rcases hone with rfl | rfl
          · exact Or.inl rfl
          · exact Or.inr rfl
        rcases skipSign_cases m s with ⟨h', -⟩ | ⟨-, h45, h43⟩
        · omega
        · exact absurd hm (not_or.2 ⟨h45, h43⟩)
      · omega
  exact le_scanDigits (by omega) fun i hi hlt => hdigitsAt i (by omega) hlt

/-- **A scan ends inside a text** exactly if it does not run through it. -/
theorem strtoul_inside_iff (hn : n < addressSpace) :
    (strtoul m a).2 < a + n ↔ ¬ RunsThrough (m.read a n) := by
  constructor
  · intro h hrun
    have := outside_of_runsThrough hn hrun
    omega
  · intro h
    by_contra hlt
    exact h (runsThrough_of_outside (by omega))

/-- The scan looks at no byte behind the one that stops it. -/
theorem skipSpace_congr {m' : Bytes} :
    ∀ {n a : ℕ}, (∀ i, a ≤ i → i ≤ skipSpace m n a → m' i = m i) →
      skipSpace m' n a = skipSpace m n a := by
  intro n
  induction n with
  | zero => intro a _; rfl
  | succ n ih =>
    intro a h
    have ha : m' a = m a := h a le_rfl (skipSpace_spec m (n + 1) a).1
    rw [skipSpace] at h ⊢
    rw [skipSpace, ha]
    split
    · rename_i hspace
      rw [if_pos hspace] at h
      exact ih fun i hi hle => h i (by omega) hle
    · rfl

theorem scanDigits_congr {m' : Bytes} :
    ∀ {n a c : ℕ}, (∀ i, a ≤ i → i ≤ (scanDigits m n a c).2 → m' i = m i) →
      scanDigits m' n a c = scanDigits m n a c := by
  intro n
  induction n with
  | zero => intro a c _; rfl
  | succ n ih =>
    intro a c h
    have ha : m' a = m a := h a le_rfl (scanDigits_spec m (n + 1) a c).1
    rw [scanDigits] at h ⊢
    rw [scanDigits, ha]
    split
    · rename_i hdigit
      rw [if_pos hdigit] at h
      exact ih fun i hi hle => h i (by omega) hle
    · rfl

/-- **The number is read out of the bytes up to the stop alone.** -/
theorem strtoul_congr {m' : Bytes} (h : ∀ i, a ≤ i → i ≤ (strtoul m a).2 → m' i = m i) :
    strtoul m' a = strtoul m a := by
  rw [strtoul_stop] at h
  have hs1 := (skipSpace_spec m addressSpace a).1
  have hd1 := (scanDigits_spec m addressSpace (skipSign m (skipSpace m addressSpace a)) 0).1
  have hsd := le_skipSign m (skipSpace m addressSpace a)
  have hskip : skipSpace m' addressSpace a = skipSpace m addressSpace a :=
    skipSpace_congr fun i hi hle => h i hi (by omega)
  have hsign : m' (skipSpace m addressSpace a) = m (skipSpace m addressSpace a) :=
    h _ hs1 (by omega)
  have hscan : scanDigits m' addressSpace (skipSign m (skipSpace m addressSpace a)) 0 =
      scanDigits m addressSpace (skipSign m (skipSpace m addressSpace a)) 0 :=
    scanDigits_congr fun i hi hle => h i (by omega) hle
  unfold skipSign at hscan
  unfold strtoul
  simp only [hskip, hsign, hscan]

end Scan

/-- `get_boot_select` scans block 3 only: it stops inside the block, and no byte elsewhere
has a part in what it reads. -/
def ScanInside (ram : Bytes) : Prop :=
  (strtoul ram (blockAddr 3 13)).2 < blockAddr 4 0 ∧
    ∀ ram', (∀ a, blockAddr 3 0 ≤ a → a < blockAddr 4 0 → ram' a = ram a) →
      strtoul ram' (blockAddr 3 13) = strtoul ram (blockAddr 3 13)

/-- Block 3 from the place of the selection on. -/
def selectionText (ram : Bytes) : List UInt8 := ram.read (blockAddr 3 13) (diskBlockSize - 13)

theorem scanInside_iff (ram : Bytes) : ScanInside ram ↔ ¬ RunsThrough (selectionText ram) := by
  have hend : blockAddr 4 0 = blockAddr 3 13 + (diskBlockSize - 13) := by decide
  have hstart : blockAddr 3 0 ≤ blockAddr 3 13 := by decide
  have hiff := @strtoul_inside_iff ram (blockAddr 3 13) (diskBlockSize - 13)
    (by unfold diskBlockSize addressSpace; omega)
  rw [selectionText, ← hiff, ← hend]
  refine ⟨fun h => h.1, fun h => ⟨h, fun ram' hram => ?_⟩⟩
  apply strtoul_congr
  intro i hi hle
  exact hram i (by omega) (by omega)

/-- A write of the host to the disk. -/
structure HostWrite where
  lba : UInt32
  offset : UInt32
  buffer : Bytes
  bufsize : UInt32
  block : lba.toNat < diskBlockNum
  onDisk : EndsOnDisk lba offset bufsize

def HostWrite.call (w : HostWrite) : DiskCall := .write10 w.lba w.offset w.buffer w.bufsize

/-- Memory after the host's writes, with `after` behind the disk. -/
def hostDisk (after : Bytes) (writes : List HostWrite) : Bytes :=
  afterCalls (blockData after) (writes.map HostWrite.call)

/-- The whole disk in one write. -/
def HostWrite.whole (disk : Bytes) : HostWrite where
  lba := 0
  offset := 0
  buffer := disk
  bufsize := 8192
  block := by decide
  onDisk := by decide

theorem hostDisk_whole (after disk : Bytes) {a : ℕ} (ha : a < diskSize) :
    hostDisk after [HostWrite.whole disk] a = disk a := by
  have hstart : blockAddr (0 : UInt32).toNat (0 : UInt32).toNat = 0 := by decide
  have hsize : (8192 : UInt32).toNat = diskSize := by decide
  have hcond : (0 : UInt32).toNat < diskBlockNum ∧ 0 ≤ a ∧ a < 0 + diskSize :=
    ⟨by decide, Nat.zero_le a, by omega⟩
  simp only [hostDisk, afterCalls, List.map_cons, List.map_nil, List.foldl_cons, List.foldl_nil,
    HostWrite.call, HostWrite.whole]
  rw [apply_eq_stores]
  simp only [DiskCall.stores, hstart, hsize]
  rw [if_pos hcond, Option.getD_some, Nat.sub_zero]

/-- **The scan for the boot selection stays in block 3** exactly if the block does not hold,
from byte 13 to its end, a text that the scan runs through; and the host can write any
text there. -/
theorem bootScan_inside_iff (after : Bytes) :
    (∀ writes : List HostWrite, ScanInside (hostDisk after writes) ↔
      ¬ RunsThrough (selectionText (hostDisk after writes))) ∧
    ∀ disk : Bytes, ∃ writes : List HostWrite, ∀ a, a < diskSize →
      hostDisk after writes a = disk a := by
  refine ⟨fun writes => scanInside_iff _, fun disk => ⟨[HostWrite.whole disk], ?_⟩⟩
  intro a ha
  exact hostDisk_whole after disk ha

/-- A block 3 full of zeros, as characters. -/
def digitsWrite : HostWrite where
  lba := 3
  offset := 0
  buffer := fun _ => 48
  bufsize := 512
  block := by decide
  onDisk := by decide

/-- The scan runs on into block 4. -/
theorem bootScan_leaves_block : ¬ ScanInside (hostDisk (fun _ => 0) [digitsWrite]) := by
  rw [scanInside_iff, not_not]
  refine ⟨[], [], selectionText (hostDisk (fun _ => 0) [digitsWrite]), ?_, by simp, Or.inl rfl,
    fun b hb => ?_⟩
  · rw [List.nil_append, List.nil_append]
  obtain ⟨j, hj, rfl⟩ := mem_read hb
  have hstart : blockAddr (3 : UInt32).toNat (0 : UInt32).toNat = blockAddr 3 0 := by decide
  have hsize : (512 : UInt32).toNat = diskBlockSize := by decide
  have hcond : (3 : UInt32).toNat < diskBlockNum ∧ blockAddr 3 0 ≤ blockAddr 3 13 + j ∧
      blockAddr 3 13 + j < blockAddr 3 0 + diskBlockSize := by
    refine ⟨by decide, ?_, ?_⟩
    · unfold blockAddr
      omega
    · unfold blockAddr
      omega
  simp only [hostDisk, afterCalls, List.map_cons, List.map_nil, List.foldl_cons, List.foldl_nil,
    HostWrite.call, digitsWrite]
  rw [apply_eq_stores]
  simp only [DiskCall.stores, hstart, hsize]
  rw [if_pos hcond, Option.getD_some]
  decide

end Pcrb
