import Pcrb.Spec.Firmware

/-!
# The network protocol, as a client sees it

A client sends a frame, a big-endian length of two bytes and a payload, and is answered by
what the frame asks for. `answers` is a table of the commands, over the bytes of the payload;
there is no buffer, no order of checks and no other task in it.

`Connection` is what passed between the client and the device since the last `accept`.
-/

namespace Pcrb

/-- What an answer to a client consists of. Two replies are about the device, and say what it is
like by then. -/
inductive Answer
  | reply (reply : Reply)
  | bootSelect
  | pcState
  | offer (time : UInt32)

/-- What comes of a request: a reply to the client, or a value offered to the queue. -/
inductive Output
  | reply (reply : Reply)
  | offer (time : UInt32)

/-- The output is what the answer asks for. -/
inductive Answer.Matches : Answer → Output → Prop
  | reply {r} : Matches (.reply r) (.reply r)
  | bootSelect {select} : Matches .bootSelect (.reply (.bootSelect select))
  | pcState {state} : Matches .pcState (.reply (.pcState state))
  | offer {t} : Matches (.offer t) (.offer t)

/-- The word of a payload at an offset, in network order. -/
def word (payload : List UInt8) (i : ℕ) : UInt32 :=
  UInt32.ofNat (Bytes.ofBE ((payload.drop i).take 4))

/-- The commands: the size of the payload, and the answer. -/
def commandTable (argument command : UInt32) : Option (ℕ × List Answer) :=
  if command = 0 then some (12, [.reply (.toggle argument), .offer argument])
  else if command = 1 then some (8, [.bootSelect])
  else if command = 2 then some (12, [.reply (.bootSelectRequest argument), .bootSelect])
  else if command = 3 then some (8, [.pcState])
  else none

/-- How a payload is answered. -/
def answers (payload : List UInt8) : List Answer :=
  if payload.length < 8 then [.reply (.badRequestSize payload.length)]
  else if word payload 0 ≠ requestMagic then [.reply (.badMagic (word payload 0))]
  else
    match commandTable (word payload 8) (word payload 4) with
    | some (size, as) => if payload.length = size then as else [.reply (.badSize payload.length)]
    | none => [.reply (.unknownCommand (word payload 4))]

/-- The payload of a frame, if it is complete. No payload is longer than `data`. -/
def framePayload : List UInt8 → Option (List UInt8)
  | high :: low :: rest =>
    let size := min (Bytes.ofBE [high, low]) dataSize
    if size ≤ rest.length then some (rest.take size) else none
  | _ => none

/-- What passed between a client and the device. -/
structure Connection where
  bytes : List UInt8
  error : Option ℤ
  outputs : List Output

namespace Connection

def opened : Connection := ⟨[], none, []⟩

/-- What an event adds. -/
def onEvent (c : Connection) : Event → Connection
  | .accepted => opened
  | .recv (.data bytes) => { c with bytes := c.bytes ++ bytes }
  | .recv (.error errno) => { c with error := some errno }
  | .reply r => { c with outputs := c.outputs ++ [.reply r] }
  | .sent .network _ t _ => { c with outputs := c.outputs ++ [.offer t] }
  | _ => c

/-- What the client is to be answered: nothing, as long as the frame is not complete. -/
def answers (c : Connection) : List Answer :=
  match c.error with
  | some errno => [.reply (.failed errno)]
  | none =>
    match framePayload c.bytes with
    | some payload => Pcrb.answers payload
    | none => []

/-- The client has been answered, once. -/
def Answered (c : Connection) : Prop := List.Forall₂ Answer.Matches c.answers c.outputs

/-- The client has been given a part of the answer, from its start. -/
def Answering (c : Connection) : Prop :=
  ∃ as, as <+: c.answers ∧ List.Forall₂ Answer.Matches as c.outputs

end Connection

/-- The last connection of a history. -/
def connection (hist : List Event) : Connection := hist.foldl Connection.onEvent .opened

end Pcrb
