import Mathlib.Algebra.Group.Action.Defs
import Mathlib.Algebra.Order.BigOperators.Group.List
import Pcrb.Spec.Status

/-!
# The status report and its buffer

The report is a sequence of `snprintf` calls with a running total; `total_afterTexts` is
what the total is, and `appendText_within` what one call needs to stay in the span.

* `report_within_iff`: every call of the report stays in the span exactly if all texts but
  the last fit in it.
* `cString_afterTexts`: what is printed of it, whether it stays in the span or not.
-/

namespace Pcrb

/-- The characters of a sequence of texts. -/
def textLength (texts : List (List UInt8)) : ℕ := (texts.map List.length).sum

/-- One `snprintf` of the report keeps to the span: the total is at most its size, so the
room left for the call does not wrap, and nothing behind the span changes. -/
structure CallWithin (size : ℕ) (r : Report) (formatted : List UInt8) : Prop where
  total_le : r.total ≤ size
  room_eq : r.room size = size - r.amount
  inside : ∀ a, size ≤ a → (r.appendText size formatted).output a = r.output a

/-- Every `snprintf` of the report keeps to the span. -/
def ReportWithin (info : StatusInfo) (size : ℕ) (output : Bytes) : Prop :=
  ∀ before formatted since, statusTexts info = before ++ formatted :: since →
    CallWithin size (Report.afterTexts size output before) formatted

variable {size : ℕ} {output : Bytes} {r : Report}

@[simp] theorem textLength_cons (formatted : List UInt8) (texts : List (List UInt8)) :
    textLength (formatted :: texts) = formatted.length + textLength texts := rfl

@[simp] theorem textLength_append (texts texts' : List (List UInt8)) :
    textLength (texts ++ texts') = textLength texts + textLength texts' := by
  simp [textLength]

theorem total_foldl (texts : List (List UInt8)) (r : Report) :
    (texts.foldl (Report.appendText size) r).total = r.total + textLength texts := by
  induction texts generalizing r with
  | nil => rfl
  | cons formatted texts ih =>
    rw [List.foldl_cons, ih, textLength_cons]
    simp only [Report.appendText, snprintf]
    omega

/-- **The running total** is the length of the texts so far, whatever was cut. -/
theorem total_afterTexts (size : ℕ) (output : Bytes) (texts : List (List UInt8)) :
    (Report.afterTexts size output texts).total = textLength texts := by
  rw [Report.afterTexts, total_foldl, Nat.zero_add]

theorem amount_of_le (hsize : size < 2 ^ 32) (h : r.total ≤ size) : r.amount = r.total :=
  Nat.mod_eq_of_lt (by omega)

theorem room_of_le (hsize : size < 2 ^ 32) (h : r.total ≤ size) : r.room size = size - r.total := by
  rw [Report.room, amount_of_le hsize h, Nat.add_comm, Nat.add_sub_assoc h, Nat.add_mod_left]
  exact Nat.mod_eq_of_lt (by omega)

/-- **One call** keeps to the span if the total has not passed its size. -/
theorem appendText_within (hsize : size < 2 ^ 32) (h : r.total ≤ size) (formatted : List UInt8) :
    CallWithin size r formatted := by
  have hamount := amount_of_le hsize h
  have hroom := room_of_le hsize h
  refine ⟨h, by rw [hroom, hamount], fun a ha => ?_⟩
  simp only [Report.appendText, snprintf]
  split
  · rfl
  · -- what is written ends with the terminating zero, at the latest at the end of the span
    rename_i hne
    apply Bytes.write_outside
    rw [List.length_append, List.length_take, List.length_singleton, hamount]
    rw [hroom] at hne ⊢
    omega

theorem textLength_dropLast_of_split {texts before since : List (List UInt8)}
    {formatted : List UInt8} (h : texts = before ++ formatted :: since) :
    textLength before ≤ textLength texts.dropLast := by
  have hne : formatted :: since ≠ [] := List.cons_ne_nil _ _
  rw [h, List.dropLast_append_of_ne_nil hne, textLength_append]
  omega

theorem headTexts_ne_nil (info : StatusInfo) : headTexts info ≠ [] := by
  unfold headTexts
  simp

theorem statusTexts_ne_nil (info : StatusInfo) : statusTexts info ≠ [] := by
  unfold statusTexts
  intro h
  exact headTexts_ne_nil info (List.append_eq_nil_iff.1 h).1

theorem reportWithin_iff (info : StatusInfo) (hsize : size < 2 ^ 32) (output : Bytes) :
    ReportWithin info size output ↔ textLength (statusTexts info).dropLast ≤ size := by
  constructor
  · intro h
    -- the last call comes after all the other texts
    have hlast := h (statusTexts info).dropLast _ []
      (List.dropLast_append_getLast (statusTexts_ne_nil info)).symm
    have htotal := hlast.total_le
    rwa [total_afterTexts] at htotal
  · intro h before formatted since hsplit
    apply appendText_within hsize
    rw [total_afterTexts]
    have := textLength_dropLast_of_split hsplit
    omega

/-- **The status report keeps to its span** exactly if its texts, without the last one, are
together no longer than the span. -/
theorem report_within_iff (info : StatusInfo) (size : UInt32) (output : Bytes) :
    ReportWithin info size.toNat output ↔
      textLength (statusTexts info).dropLast ≤ size.toNat :=
  reportWithin_iff info size.toNat_lt output

/-! ### What the buffer holds -/

/-- The buffer holds `text`, as far as it fits. -/
structure Report.Holds (size : ℕ) (r : Report) (text : List UInt8) : Prop where
  total : r.total = text.length
  read : r.output.read 0 (min text.length (size - 1)) = text.take (size - 1)

/-- While there is room, a text goes in behind the others, with its zero. -/
theorem appendText_of_room (hsize : size < 2 ^ 32) (h : r.total < size) (formatted : List UInt8) :
    (r.appendText size formatted).output =
      r.output.write r.total (formatted.take (size - r.total - 1) ++ [0]) := by
  simp only [Report.appendText, snprintf]
  rw [room_of_le hsize h.le, amount_of_le hsize h.le, if_neg (by omega)]

/-- Once the buffer is full, nothing in it changes. -/
theorem appendText_of_full (h : size ≤ r.total) (hlen : r.total < 2 ^ 32)
    (formatted : List UInt8) {a : ℕ} (ha : a < size) :
    (r.appendText size formatted).output a = r.output a := by
  have hamount : r.amount = r.total := Nat.mod_eq_of_lt hlen
  simp only [Report.appendText, snprintf, hamount]
  split
  · rfl
  · exact Bytes.write_outside (Or.inl (by omega))

/-- **One call appends its text**, and leaves a zero behind what fits. -/
theorem appendText_holds {text : List UInt8} (hsize : size < 2 ^ 32) (h : r.Holds size text)
    (hend : size ≤ text.length → r.output (size - 1) = 0) (hpos : 0 < size)
    (hlen : text.length < 2 ^ 32) (formatted : List UInt8) :
    Report.Holds size (r.appendText size formatted) (text ++ formatted) ∧
      (r.appendText size formatted).output (min (text ++ formatted).length (size - 1)) = 0 := by
  have htotal := h.total
  have hread := h.read
  have hsum : (r.appendText size formatted).total = (text ++ formatted).length := by
    rw [List.length_append, ← htotal]
    rfl
  rw [List.length_append] at hsum ⊢
  rcases Nat.lt_or_ge text.length size with hroom | hfull
  · have hout := appendText_of_room hsize (r := r) (by omega) formatted
    rw [htotal] at hout
    have hcut : min (text.length + formatted.length) (size - 1) =
        text.length + (formatted.take (size - text.length - 1)).length := by
      rw [List.length_take]
      omega
    have hle : text.length ≤ size - 1 := by omega
    rw [Nat.min_eq_left hle, List.take_of_length_le hle] at hread
    rw [hcut, hout]
    refine ⟨⟨by rw [hsum, List.length_append], ?_⟩, ?_⟩
    · have hkept : (r.output.write text.length (formatted.take (size - text.length - 1) ++ [0])).read
          0 text.length = r.output.read 0 text.length := by
        apply Bytes.read_congr
        intro i hi
        exact Bytes.write_outside (Or.inl (by omega))
      have htake : (text ++ formatted).take (size - 1) =
          text ++ formatted.take (size - text.length - 1) := by
        rw [List.take_append, List.take_of_length_le hle, Nat.sub_right_comm]
      rw [List.length_append, hcut, hout, Bytes.read_add, hkept, hread, Nat.zero_add,
        Bytes.read_write_append, htake]
    · rw [Bytes.write_of_lt (by simp)]
      simp
  · have hcut : min (text.length + formatted.length) (size - 1) = size - 1 := by omega
    rw [Nat.min_eq_right (by omega)] at hread
    have hsame : ∀ a, a < size → (r.appendText size formatted).output a = r.output a :=
      fun a ha => appendText_of_full (by omega) (by omega) formatted ha
    refine ⟨⟨by rw [hsum, List.length_append], ?_⟩, ?_⟩
    · rw [List.length_append, hcut, List.take_append_of_le_length (by omega), ← hread]
      apply Bytes.read_congr
      intro i hi
      exact hsame _ (by omega)
    · rw [hcut, hsame _ (by omega)]
      exact hend hfull

theorem foldl_appendText_holds (hsize : size < 2 ^ 32) (hpos : 0 < size)
    (texts : List (List UInt8)) :
    ∀ {r : Report} {text : List UInt8}, r.Holds size text →
      r.output (min text.length (size - 1)) = 0 → text.length + textLength texts < 2 ^ 32 →
      Report.Holds size (texts.foldl (Report.appendText size) r) (text ++ texts.flatten) ∧
        (texts.foldl (Report.appendText size) r).output
          (min (text ++ texts.flatten).length (size - 1)) = 0 := by
  induction texts with
  | nil =>
    intro r text h hend _
    rw [List.flatten_nil, List.append_nil]
    exact ⟨h, hend⟩
  | cons formatted texts ih =>
    intro r text h hend hlen
    rw [textLength_cons] at hlen
    have hfull : size ≤ text.length → r.output (size - 1) = 0 := by
      intro hle
      rwa [Nat.min_eq_right (by omega)] at hend
    obtain ⟨hholds, hzero⟩ := appendText_holds hsize h hfull hpos (by omega) formatted
    rw [List.foldl_cons, List.flatten_cons, ← List.append_assoc]
    exact ih hholds hzero (by rw [List.length_append]; omega)

theorem afterTexts_holds (hsize : size < 2 ^ 32) (hpos : 0 < size) (output : Bytes)
    {texts : List (List UInt8)} (hne : texts ≠ []) (hlen : textLength texts < 2 ^ 32) :
    Report.Holds size (Report.afterTexts size output texts) texts.flatten ∧
      (Report.afterTexts size output texts).output (min texts.flatten.length (size - 1)) = 0 := by
  obtain ⟨formatted, texts, rfl⟩ := List.exists_cons_of_ne_nil hne
  rw [textLength_cons] at hlen
  have hstart : Report.Holds size ⟨output, 0⟩ [] := by
    refine ⟨rfl, ?_⟩
    rw [List.length_nil, Nat.zero_min, Bytes.read_zero, List.take_nil]
  have hnone : size ≤ ([] : List UInt8).length → output (size - 1) = 0 := by
    intro hle
    rw [List.length_nil] at hle
    omega
  obtain ⟨hholds, hzero⟩ := appendText_holds hsize hstart hnone hpos (by simp) formatted
  rw [List.nil_append] at hholds hzero
  unfold Report.afterTexts
  rw [List.foldl_cons, List.flatten_cons]
  exact foldl_appendText_holds hsize hpos texts hholds hzero (by omega)

/-- **A buffer is printed** up to its first zero. -/
theorem cString_read_of_zero {m : Bytes} {t n : ℕ} (h : t < n) (hzero : m t = 0) :
    cString (m.read 0 n) = cString (m.read 0 t) := by
  have hn : n = t + (n - t - 1 + 1) := by omega
  rw [hn, Bytes.read_add, Bytes.read_succ, Nat.zero_add, hzero, cString_append_zero]

/-- **What a report prints**: its texts one behind the other, cut at the end of the buffer. -/
theorem cString_afterTexts (hsize : size < 2 ^ 32) (hpos : 0 < size) (output : Bytes)
    {texts : List (List UInt8)} (hne : texts ≠ []) (hlen : textLength texts < 2 ^ 32) :
    cString ((Report.afterTexts size output texts).output.read 0 size) =
      cString (texts.flatten.take (size - 1)) := by
  obtain ⟨hholds, hzero⟩ := afterTexts_holds hsize hpos output hne hlen
  rw [cString_read_of_zero (by omega) hzero, hholds.read]

/-! ### A long log -/

/-- A device with a long log: it has accepted 2000 connections. -/
def busyStatus : StatusInfo where
  ipAddress := ascii "192.168.1.7"
  defaultInstance := ascii "2000A0B0"
  netifUp := true
  netifFlags := 0x2F
  wifiState := 3
  rssi := -60
  pmState := 0xA11140
  ticks := 90000000
  freeHeap := 60000
  tasks := []
  uniqueId := ascii "E66138528361BA32"
  logSize := 2000
  log := List.replicate 2000 (ascii "new connection accepted")

theorem le_textLength {texts : List (List UInt8)} {n : ℕ} (h : ∀ text ∈ texts, n ≤ text.length) :
    texts.length * n ≤ textLength texts := by
  have hsum := List.card_nsmul_le_sum (texts.map List.length) n (by simpa using h)
  rwa [List.length_map, smul_eq_mul] at hsum

/-- Its report passes the end of the buffer. -/
theorem report_overruns : ¬ ReportWithin busyStatus bufferSize (fun _ => 0) := by
  rw [reportWithin_iff busyStatus (by decide) (fun _ => 0)]
  have hentries : ∀ text ∈ (busyStatus.log.mapIdx logText).dropLast, 23 ≤ text.length := by
    intro text htext
    obtain ⟨i, hi, rfl⟩ := List.mem_mapIdx.1 (List.mem_of_mem_dropLast htext)
    have hentry : busyStatus.log[i] = ascii "new connection accepted" :=
      List.eq_of_mem_replicate (List.getElem_mem hi)
    have hlen : (cString (ascii "new connection accepted")).length = 23 := by decide
    simp only [logText, List.length_append, hentry, hlen]
    omega
  have hlength : (busyStatus.log.mapIdx logText).dropLast.length = 1999 := by
    have hlog : busyStatus.log.length = 2000 := List.length_replicate
    rw [List.length_dropLast, List.length_mapIdx, hlog]
  have hsum := le_textLength hentries
  have hne : busyStatus.log.mapIdx logText ≠ [] := by
    intro h
    rw [h] at hlength
    cases hlength
  rw [hlength] at hsum
  rw [statusTexts, List.dropLast_append_of_ne_nil hne, textLength_append]
  unfold bufferSize
  omega

end Pcrb
