import Pcrb.Spec.Disk

/-!
# The RAM disk is a byte store

The host's sector transfers and the firmware's boot selection share `block_data`.
The reference is a store that remembers, for every byte, the latest call that
covered it (`DiskCall.stores`, `Bytes.latest`).

* `apply_eq_stores`: every call does to memory what the reference says.
* `ramDisk_faithful`: over any sequence of calls, reads see the latest stored
  bytes, transfers past the last block fail without effect, and the selection
  read back is the latest one that the host has not written over.
-/

namespace Pcrb

/-- A call that reads or changes the disk. -/
inductive DiskCall
  | read10 (lba offset : UInt32) (buffer : Bytes) (bufsize : UInt32)
  | write10 (lba offset : UInt32) (buffer : Bytes) (bufsize : UInt32)
  | setBootSelect (select : UInt8)
  | getBootSelect

namespace DiskCall

/-- Memory after a call. -/
def apply (ram : Bytes) : DiskCall → Bytes
  | .read10 .. => ram
  | .write10 lba offset buffer bufsize => (tudMscWrite10Cb ram lba offset buffer bufsize).2
  | .setBootSelect select => Pcrb.setBootSelect ram select
  | .getBootSelect => ram

/-- A transfer to a block of the disk stays inside the block. -/
def InRange : DiskCall → Prop
  | .read10 lba offset _ bufsize =>
    lba.toNat < diskBlockNum → offset.toNat + bufsize.toNat ≤ diskBlockSize
  | .write10 lba offset _ bufsize =>
    lba.toNat < diskBlockNum → offset.toNat + bufsize.toNat ≤ diskBlockSize
  | _ => True

/-- The byte that a call stores at an address, if it covers the address. -/
def stores : DiskCall → ℕ → Option UInt8
  | .write10 lba offset buffer bufsize, a =>
    let start := blockAddr lba.toNat offset.toNat
    if lba.toNat < diskBlockNum ∧ start ≤ a ∧ a < start + bufsize.toNat then
      some (buffer (a - start))
    else none
  | .setBootSelect select, a =>
    if blockAddr 3 0 ≤ a then (bootLine select ++ [0])[a - blockAddr 3 0]? else none
  | _, _ => none

/-- A call by which the host writes to block 3, or the firmware selects. -/
def TouchesBootCfg : DiskCall → Prop
  | .write10 lba _ _ bufsize => lba.toNat = 3 ∧ 0 < bufsize.toNat
  | .setBootSelect _ => True
  | _ => False

end DiskCall

/-- Memory after a sequence of calls. -/
def afterCalls (ram : Bytes) (calls : List DiskCall) : Bytes := calls.foldl DiskCall.apply ram

/-- **One call** does to memory what the reference says. -/
theorem apply_eq_stores (c : DiskCall) (ram : Bytes) (a : ℕ) :
    c.apply ram a = (c.stores a).getD (ram a) := by
  cases c with
  | read10 => rfl
  | getBootSelect => rfl
  | setBootSelect select => rw [DiskCall.apply, setBootSelect_eq, Bytes.write_apply]; rfl
  | write10 lba offset buffer bufsize =>
    simp only [DiskCall.apply, DiskCall.stores, tudMscWrite10Cb]
    -- past the last block, then outside and inside of the bytes transferred
    by_cases hlba : diskBlockNum ≤ lba.toNat
    · rw [if_pos hlba, if_neg (by omega), Option.getD_none]
    · rw [if_neg hlba]
      dsimp only
      rw [Bytes.write_apply]
      set start := blockAddr lba.toNat offset.toNat
      by_cases h1 : start ≤ a
      · rw [if_pos h1]
        by_cases h2 : a - start < bufsize.toNat
        · rw [if_pos (by omega), List.getElem?_eq_getElem (by simpa using h2), Bytes.getElem_read,
            Nat.zero_add]
        · rw [if_neg (by omega), List.getElem?_eq_none (by simpa using h2)]
      · rw [if_neg h1, if_neg (by omega)]

/-- **A whole run**: every byte holds the latest value stored there. -/
theorem afterCalls_eq_latest (ram : Bytes) (calls : List DiskCall) (a : ℕ) :
    afterCalls ram calls a = (Bytes.latest DiskCall.stores calls a).getD (ram a) :=
  Bytes.foldl_overlay DiskCall.stores ram (fun c _ m a => apply_eq_stores c m a) a

/-- A call that stays inside its block and does not touch block 3 stores nothing there. -/
theorem stores_block3 {c : DiskCall} (hin : c.InRange) (hc : ¬ c.TouchesBootCfg) {a : ℕ}
    (h1 : blockAddr 3 0 ≤ a) (h2 : a < blockAddr 4 0) : c.stores a = none := by
  cases c with
  | read10 => rfl
  | getBootSelect => rfl
  | setBootSelect => exact absurd trivial hc
  | write10 lba offset buffer bufsize =>
    simp only [DiskCall.TouchesBootCfg, not_and, Nat.not_lt, Nat.le_zero] at hc
    simp only [DiskCall.InRange] at hin
    simp only [DiskCall.stores]
    rw [if_neg]
    rintro ⟨hlba, h3, h4⟩
    have hin := hin hlba
    -- a write that stays inside another block does not come here
    unfold blockAddr diskBlockSize at *
    by_cases h : lba.toNat = 3
    · have := hc h; omega
    · omega

/-- Calls that do not touch block 3 leave its bytes as they were. -/
theorem afterCalls_block3 (ram : Bytes) {before since : List DiskCall} {a : ℕ}
    (hin : ∀ c ∈ since, c.InRange) (hc : ∀ c ∈ since, ¬ c.TouchesBootCfg)
    (h1 : blockAddr 3 0 ≤ a) (h2 : a < blockAddr 4 0) :
    afterCalls ram (before ++ since) a = afterCalls ram before a := by
  rw [afterCalls_eq_latest, afterCalls_eq_latest, Bytes.latest_append_of_none]
  exact fun c hm => stores_block3 (hin c hm) (hc c hm) h1 h2

/-- The size of a transfer inside a block is its result, as an `int32_t`. -/
theorem toInt_toInt32 {x : UInt32} (h : x.toNat ≤ diskBlockSize) : x.toInt32.toInt = x.toNat := by
  have hb : x.toInt32.toInt = x.toBitVec.toInt := rfl
  unfold diskBlockSize at h
  rw [hb, BitVec.toInt_eq_toNat_of_lt (by rw [UInt32.toNat_toBitVec]; omega), UInt32.toNat_toBitVec]

/-- **A read** returns the latest byte stored at each address it covers, and its size. -/
theorem read10_latest (ram : Bytes) (calls : List DiskCall) {lba offset : UInt32} (buffer : Bytes)
    {bufsize : UInt32} (hlba : lba.toNat < diskBlockNum)
    (hin : offset.toNat + bufsize.toNat ≤ diskBlockSize) :
    (tudMscRead10Cb (afterCalls ram calls) lba offset buffer bufsize).1.toInt = bufsize.toNat ∧
      ∀ i, (tudMscRead10Cb (afterCalls ram calls) lba offset buffer bufsize).2 i =
        if i < bufsize.toNat then
          (Bytes.latest DiskCall.stores calls (blockAddr lba.toNat offset.toNat + i)).getD
            (ram (blockAddr lba.toNat offset.toNat + i))
        else buffer i := by
  unfold tudMscRead10Cb
  rw [if_neg (by omega)]
  refine ⟨toInt_toInt32 (by omega), fun i => ?_⟩
  dsimp only
  rw [Bytes.write_apply, if_pos (Nat.zero_le i), Nat.sub_zero]
  by_cases hi : i < bufsize.toNat
  · rw [if_pos hi, List.getElem?_eq_getElem (by simpa using hi), Option.getD_some, Bytes.getElem_read,
      afterCalls_eq_latest]
  · rw [if_neg hi, List.getElem?_eq_none (by simpa using hi), Option.getD_none]

/-- **The latest selection** is read back, if the host has not written to block 3 since. -/
theorem getBootSelect_latest (ram : Bytes) {before since : List DiskCall} {select : UInt8}
    (hin : ∀ c ∈ since, c.InRange) (hc : ∀ c ∈ since, ¬ c.TouchesBootCfg) :
    getBootSelect (afterCalls ram (before ++ .setBootSelect select :: since)) = select := by
  have hlen := length_bootLine_le select
  -- it is enough that the line stands in block 3
  apply getBootSelect_of_line
  rw [← List.singleton_append, ← List.append_assoc]
  have hsame : ∀ i, i < (bootLine select).length →
      afterCalls ram (before ++ [.setBootSelect select] ++ since) (blockAddr 3 0 + i) =
        setBootSelect (afterCalls ram before) select (blockAddr 3 0 + i) := by
    intro i hi
    rw [afterCalls_block3 ram hin hc (by omega) (by unfold blockAddr diskBlockSize; omega)]
    simp only [afterCalls, List.foldl_append, List.foldl_cons, List.foldl_nil, DiskCall.apply]
  rw [Bytes.read_congr hsame]
  exact read_setBootSelect _ select

/-- **The RAM disk is a faithful block store.** After any sequence of calls whose
transfers stay inside their block: a read inside a block returns its size and, for
every byte, the latest value stored there (or the initial one); a transfer past the
last block returns -1 and changes nothing; and `get_boot_select` returns the latest
selection as long as the host has not written to block 3 since. -/
theorem ramDisk_faithful (ram : Bytes) (calls : List DiskCall) (hin : ∀ c ∈ calls, c.InRange) :
    (∀ lba offset buffer bufsize, lba.toNat < diskBlockNum →
      offset.toNat + bufsize.toNat ≤ diskBlockSize →
      (tudMscRead10Cb (afterCalls ram calls) lba offset buffer bufsize).1.toInt = bufsize.toNat ∧
        ∀ i, (tudMscRead10Cb (afterCalls ram calls) lba offset buffer bufsize).2 i =
          if i < bufsize.toNat then
            (Bytes.latest DiskCall.stores calls (blockAddr lba.toNat offset.toNat + i)).getD
              (ram (blockAddr lba.toNat offset.toNat + i))
          else buffer i) ∧
    (∀ lba offset buffer bufsize, diskBlockNum ≤ lba.toNat →
      tudMscRead10Cb (afterCalls ram calls) lba offset buffer bufsize = (-1, buffer) ∧
        tudMscWrite10Cb (afterCalls ram calls) lba offset buffer bufsize =
          (-1, afterCalls ram calls)) ∧
    (∀ before select since, calls = before ++ .setBootSelect select :: since →
      (∀ c ∈ since, ¬ c.TouchesBootCfg) → getBootSelect (afterCalls ram calls) = select) := by
  refine ⟨fun lba offset buffer bufsize hlba hr => read10_latest ram calls buffer hlba hr,
    fun lba offset buffer bufsize hlba => ⟨if_pos hlba, if_pos hlba⟩, ?_⟩
  rintro before select since rfl hc
  exact getBootSelect_latest ram
    (fun c hm => hin c (List.mem_append_right _ (List.mem_cons_of_mem _ hm))) hc

/-- The host writes two bytes to block 3 and the firmware then selects 7. -/
theorem ramDisk_faithful_select :
    getBootSelect (afterCalls (fun _ => 0)
      [.write10 3 14 (fun _ => 57) 2, .setBootSelect 7, .read10 3 0 (fun _ => 0) 512]) = 7 :=
  (ramDisk_faithful (fun _ => 0)
    [.write10 3 14 (fun _ => 57) 2, .setBootSelect 7, .read10 3 0 (fun _ => 0) 512]
    (by simp [DiskCall.InRange, diskBlockSize])).2.2 [.write10 3 14 (fun _ => 57) 2] 7
    [.read10 3 0 (fun _ => 0) 512] rfl (by simp [DiskCall.TouchesBootCfg])

end Pcrb
