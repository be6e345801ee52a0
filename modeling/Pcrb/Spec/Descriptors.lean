import Pcrb.Lib.Buffer
import Pcrb.Lib.Lts

/-!
# USB string descriptors (`usb_descriptors.cpp`)

One buffer holds the descriptor that was asked for last, and the text of the board id is
made when it is first asked for. A read past the table of strings, or a store past the
buffer, has no next state.
-/

namespace Pcrb

/-- `pico_unique_board_id_t`. -/
abbrev BoardId := Vector UInt8 8

/-- The code units of a literal, without the terminating zero. -/
def units (s : String) : List UInt16 := s.toList.map fun c => UInt16.ofNat c.toNat

/-- `string_desc_arr`. -/
def stringDescArr : List (List UInt16) :=
  [[0x0409],
   units "Gabriel Marcano",
   units "Wireless PC Power Switch",
   -- the serial number is made at run time
   units "",
   units "CDC",
   units "MSC",
   units "Reset"]

/-- `max_size`. -/
def maxSize (container : List (List UInt16)) : ℕ :=
  container.foldl (fun max elem => if max < elem.length then elem.length else max) 0

/-- `desc_max`. -/
def descMax : ℕ := 1 + max (maxSize stringDescArr) (2 * 8)

/-- The character for a nibble of `byte`: the low one for `j = 0`, the high one for `j = 1`. -/
def nibbleChar (byte : UInt8) (j : UInt8) : UInt8 :=
  let nibble := (byte >>> (4 * j)) &&& 0xF
  if nibble < 10 then 48 + nibble else 65 + (nibble - 10)

/-- The constructor of `pico_id`: its `data`. -/
def picoId (id : BoardId) : List UInt16 :=
  id.toList.flatMap fun byte => [(nibbleChar byte 0).toUInt16, (nibbleChar byte 1).toUInt16]

/-- `TUSB_DESC_STRING`. -/
def tusbDescString : ℕ := 3

/-- `pico_id::id_` and `_desc_str`. -/
structure Strings where
  id : Option (List UInt16)
  descStr : Buffer UInt16 descMax

/-- What a callback returns: null, or the buffer. -/
abbrev StringReply := Option (Buffer UInt16 descMax)

namespace Strings

/-- Before the first request. -/
def initial : Strings := ⟨none, Vector.replicate descMax 0⟩

/-- `pico_id::get`. -/
def get (s : Strings) (id : BoardId) : List UInt16 := s.id.getD (picoId id)

/-- The first code unit, then the return. -/
def reply (s : Strings) (chrCount : UInt8) : Strings × StringReply :=
  let header := UInt16.ofNat (tusbDescString <<< 8 ||| (2 * chrCount.toNat + 2))
  let descStr := s.descStr.set 0 header (by decide)
  ({ s with descStr := descStr }, some descStr)

/-- `tud_descriptor_string_cb`, on the board `id`. -/
def tudDescriptorStringCb (id : BoardId) (s : Strings) (index : UInt8) (_langid : UInt16) :
    Option (Strings × StringReply) :=
  if index = 3 then
    (s.descStr.store 1 (s.get id)).map fun descStr =>
      reply ⟨some (s.get id), descStr⟩ (UInt8.ofNat (s.get id).length)
  else if index.toNat > stringDescArr.length then some (s, none)
  else
    stringDescArr[index.toNat]?.bind fun str =>
      let chrCount := UInt8.ofNat str.length
      (s.descStr.store 1 (str.take chrCount.toNat)).map fun descStr =>
        reply ⟨s.id, descStr⟩ chrCount

end Strings

/-- A request for a string descriptor. -/
structure StringRequest where
  index : UInt8
  langid : UInt16

/-- The string descriptors of a board, one reply for each request. -/
def stringDescriptors (id : BoardId) : Lts.System Strings StringRequest StringReply where
  init s := s = Strings.initial
  step s request :=
    (s.tudDescriptorStringCb id request.index request.langid).map fun r => (r.1, [r.2])

end Pcrb
