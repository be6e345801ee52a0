import Pcrb.Proof.Printed
import Pcrb.Proof.Strings

/-!
# The text of the board id

The serial number of the USB device and the line of the status report come from two
encoders. `pico_id` puts the low nibble of a byte in front of the high one
(`nibbleChar_zero`, `nibbleChar_one`); the SDK, and everyone else, has it the other way
round.

* `boardId_agrees_iff`: exactly which boards show the same text in both places.
-/

namespace Pcrb

open Lts

/-- The hexadecimal text of an id: uppercase, the bytes in order, and the most significant
nibble of a byte first. -/
def hexText (id : BoardId) : List UInt8 :=
  id.toList.flatMap fun byte => [hexDigit (byte.toNat / 16), hexDigit (byte.toNat % 16)]

/-- What the SDK documents of `pico_get_unique_board_id_string`: it writes the hexadecimal
text, and a zero behind it. -/
def WritesHex (uniqueBoardIdString : BoardId → List UInt8) : Prop :=
  ∀ id, uniqueBoardIdString id = hexText id ++ [0]

/-- The board id is shown as its hexadecimal text in both places: by the descriptor of the
serial number, asked for in the state `s`, and by its line of the status report. -/
def BoardIdAgrees (uniqueBoardIdString : BoardId → List UInt8) (id : BoardId) (info : StatusInfo)
    (s : Strings) (langid : UInt16) : Prop :=
  ∃ s' descriptor, s.tudDescriptorStringCb id 3 langid = some (s', some descriptor) ∧
    descriptor.read 1 (2 * 8) = (hexText id).map UInt8.toUInt16 ∧
    (statusTexts { info with uniqueId := uniqueBoardIdString id })[10 + 4 * info.tasks.length]? =
      some (ascii "unique id: " ++ hexText id ++ ascii "\r\n")

variable {id : BoardId} {info : StatusInfo} {s : Strings}

/-! ### The characters -/

theorem hexDigit_ofNat {d : ℕ} (h : d < 16) :
    (if UInt8.ofNat d < 10 then 48 + UInt8.ofNat d else 65 + (UInt8.ofNat d - 10)) =
      hexDigit d := by
  have hall : ∀ d, d < 16 →
      (if UInt8.ofNat d < 10 then 48 + UInt8.ofNat d else 65 + (UInt8.ofNat d - 10)) =
        hexDigit d := by decide
  exact hall d h

theorem hexDigit_inj {d d' : ℕ} (h : d < 16) (h' : d' < 16) :
    hexDigit d = hexDigit d' ↔ d = d' := by
  have hall : ∀ d, d < 16 → ∀ d', d' < 16 → hexDigit d = hexDigit d' → d = d' := by decide
  exact ⟨hall d h d' h', congrArg hexDigit⟩

/-- The mask leaves the value of a nibble. -/
theorem and_nibble (b : UInt8) : b &&& 0xF = UInt8.ofNat (b.toNat % 16) := by
  apply UInt8.toNat_inj.1
  have hmask : (0xF : UInt8).toNat = 2 ^ 4 - 1 := by decide
  rw [UInt8.toNat_and, hmask, Nat.and_two_pow_sub_one_eq_mod, UInt8.toNat_ofNat']
  omega

theorem nibbleChar_zero (byte : UInt8) : nibbleChar byte 0 = hexDigit (byte.toNat % 16) := by
  have hshift : byte >>> (4 * 0) = byte := by
    apply UInt8.toNat_inj.1
    rw [UInt8.toNat_shiftRight]
    rfl
  unfold nibbleChar
  rw [hshift, and_nibble]
  exact hexDigit_ofNat (by omega)

theorem nibbleChar_one (byte : UInt8) : nibbleChar byte 1 = hexDigit (byte.toNat / 16) := by
  have hlt := byte.toNat_lt
  have hshift : (byte >>> (4 * 1)).toNat = byte.toNat / 16 := by
    have hfour : (4 * 1 : UInt8).toNat % 8 = 4 := by decide
    rw [UInt8.toNat_shiftRight, hfour, Nat.shiftRight_eq_div_pow]
  have hsmall : byte.toNat / 16 % 16 = byte.toNat / 16 := by omega
  unfold nibbleChar
  rw [and_nibble, hshift, hsmall]
  exact hexDigit_ofNat (by omega)

/-! ### The two texts -/

theorem flatMap_pair_inj {α β : Type*} {f g f' g' : α → β} {l : List α} :
    (l.flatMap fun x => [f x, g x]) = (l.flatMap fun x => [f' x, g' x]) ↔
      ∀ x ∈ l, f x = f' x ∧ g x = g' x := by
  induction l with
  | nil => simp
  | cons x l ih => simp [ih, and_assoc]

/-- **The serial number is the hexadecimal text** exactly if the nibbles of each byte are
equal. -/
theorem picoId_eq_hexText_iff (id : BoardId) :
    picoId id = (hexText id).map UInt8.toUInt16 ↔
      ∀ byte ∈ id.toList, byte.toNat / 16 = byte.toNat % 16 := by
  unfold picoId hexText
  rw [List.map_flatMap]
  simp only [List.map_cons, List.map_nil, nibbleChar_zero, nibbleChar_one]
  rw [flatMap_pair_inj]
  constructor
  · intro h byte hbyte
    have hlt := byte.toNat_lt
    have hchar := UInt8.toUInt16_inj.1 (h byte hbyte).2
    exact (hexDigit_inj (by omega) (by omega)).1 hchar
  · intro h byte hbyte
    rw [h byte hbyte]
    exact ⟨rfl, rfl⟩

theorem zero_not_mem_hexText (id : BoardId) : (0 : UInt8) ∉ hexText id := by
  intro hmem
  obtain ⟨byte, -, hbyte⟩ := List.mem_flatMap.1 hmem
  have hlt := byte.toNat_lt
  rcases List.mem_cons.1 hbyte with hzero | hbyte
  · exact hexDigit_ne_zero (by omega) hzero.symm
  · exact hexDigit_ne_zero (by omega) (List.mem_singleton.1 hbyte).symm

theorem length_taskTexts (tasks : List TaskStatus) :
    (tasks.flatMap taskTexts).length = 4 * tasks.length := by
  induction tasks with
  | nil => rfl
  | cons task tasks ih =>
    have hfour : (taskTexts task).length = 4 := rfl
    rw [List.flatMap_cons, List.length_append, ih, hfour, List.length_cons]
    omega

/-- The line of the unique id stands behind the lines of the tasks. -/
theorem uniqueId_text (info : StatusInfo) :
    (statusTexts info)[10 + 4 * info.tasks.length]? =
      some (ascii "unique id: " ++ cString info.uniqueId ++ ascii "\r\n") := by
  have hlen := length_taskTexts info.tasks
  unfold statusTexts headTexts
  rw [List.append_assoc, List.append_assoc, List.getElem?_append_right (by simp),
    List.getElem?_append_right (by simp [hlen])]
  simp [hlen]

/-- What the status report shows is the hexadecimal text. -/
theorem uniqueId_hexText {uniqueBoardIdString : BoardId → List UInt8}
    (hwrites : WritesHex uniqueBoardIdString) (id : BoardId) (info : StatusInfo) :
    (statusTexts { info with uniqueId := uniqueBoardIdString id })[10 + 4 * info.tasks.length]? =
      some (ascii "unique id: " ++ hexText id ++ ascii "\r\n") := by
  have htext : cString (uniqueBoardIdString id) = hexText id := by
    rw [hwrites id, cString_append_zero, cString_eq_self (zero_not_mem_hexText id)]
  have hline := uniqueId_text { info with uniqueId := uniqueBoardIdString id }
  dsimp only at hline
  rw [hline, htext]

/-- The two texts, in any state that requests lead to. -/
theorem boardIdAgrees_iff_of_saved {uniqueBoardIdString : BoardId → List UInt8}
    (hwrites : WritesHex uniqueBoardIdString) (info : StatusInfo) (langid : UInt16)
    (hsaved : SavedId id s) :
    BoardIdAgrees uniqueBoardIdString id info s langid ↔
      ∀ byte ∈ id.toList, byte.toNat / 16 = byte.toNat % 16 := by
  have hserial : stringFor id 3 = some (picoId id) := if_pos rfl
  obtain ⟨s', descriptor, hcb, -, hd⟩ := served_of_stringFor langid hsaved hserial
  have hunits : descriptor.read 1 (2 * 8) = picoId id := by
    have hread := hd.units
    rwa [length_picoId] at hread
  rw [← picoId_eq_hexText_iff, ← hunits]
  constructor
  · rintro ⟨s₁, descriptor₁, hcb₁, htext, -⟩
    rw [hcb] at hcb₁
    obtain ⟨-, hsame⟩ := Prod.mk.inj (Option.some.inj hcb₁)
    rw [Option.some.inj hsame]
    exact htext
  · intro htext
    exact ⟨s', descriptor, hcb, htext, uniqueId_hexText hwrites id info⟩

/-- **The two renderings of the board id agree** exactly if the nibbles of each of its bytes
are equal, whatever was asked for before. -/
theorem boardId_agrees_iff {uniqueBoardIdString : BoardId → List UInt8}
    (hwrites : WritesHex uniqueBoardIdString) (id : BoardId) (info : StatusInfo) (langid : UInt16)
    {requests : List StringRequest} {tr : List (Transition Strings StringRequest StringReply)}
    {s : Strings}
    (hexec : (stringDescriptors id).exec Strings.initial requests = some (tr, s)) :
    BoardIdAgrees uniqueBoardIdString id info s langid ↔
      ∀ byte ∈ id.toList, byte.toNat / 16 = byte.toNat % 16 :=
  boardIdAgrees_iff_of_saved hwrites info langid (savedId_of_exec hexec)

theorem boardId_agrees_eleven :
    BoardIdAgrees (fun id => hexText id ++ [0]) (Vector.replicate 8 0x11) default
      Strings.initial 0x0409 := by
  refine (boardId_agrees_iff (fun _ => rfl) _ _ _ (System.exec_nil _)).2 ?_
  intro byte hbyte
  obtain rfl : byte = 0x11 := Vector.eq_of_mem_replicate (Vector.mem_toList_iff.1 hbyte)
  decide

/-- A board whose first byte is 0x12 has a serial number that starts with 21. -/
theorem boardId_swapped :
    ¬ BoardIdAgrees (fun id => hexText id ++ [0]) ((Vector.replicate 8 0).set 0 0x12) default
      Strings.initial 0x0409 := by
  rw [boardIdAgrees_iff_of_saved (fun _ => rfl) _ _ (savedId_initial _)]
  intro h
  have hfirst := h 0x12 (Vector.mem_toList_iff.2 (Vector.mem_set _))
  revert hfirst
  decide

end Pcrb
