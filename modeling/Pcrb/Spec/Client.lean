import Pcrb.Lib.Tagged
import Pcrb.Spec.Protocol

/-!
# What a client reads

The explanations are sent to the client as text, one behind the other and with nothing in between.
`replyTable` says how each of them starts, and how the rest of it is read.
-/

namespace Pcrb

/-- What a client hears: replies, or that its request failed and why. -/
inductive Heard
  | replies (rs : List Reply)
  | failed (why : List UInt8)

/-- A number, and nothing behind it. -/
def readNumber (reply : ℕ → Reply) (text : List UInt8) : Option Heard :=
  if text.dropWhile Decimal.isDigit = [] then
    some (.replies [reply (Decimal.value (text.takeWhile Decimal.isDigit))])
  else none

/-- The selection that was asked for, and the one that was found afterwards. -/
def readSelections (text : List UInt8) : Option Heard :=
  (Tagged.strip (ascii ", boot select: ") (text.dropWhile Decimal.isDigit)).bind fun rest =>
    if rest.dropWhile Decimal.isDigit = [] then
      some (.replies
        [.bootSelectRequest (UInt32.ofNat (Decimal.value (text.takeWhile Decimal.isDigit))),
          .bootSelect (UInt8.ofNat (Decimal.value (rest.takeWhile Decimal.isDigit)))])
    else none

def readState (text : List UInt8) : Option Heard :=
  if text = ascii "true" then some (.replies [.pcState true])
  else if text = ascii "false" then some (.replies [.pcState false])
  else none

/-- How the texts start. -/
def replyTable : List (Tagged.Entry UInt8 Heard) :=
  [⟨ascii "Received bad network request with size ", readNumber .badRequestSize⟩,
    ⟨ascii "Received bad network request, bad magic ",
      readNumber fun n => .badMagic (UInt32.ofNat n)⟩,
    ⟨ascii "Received bad network request, bad size ", readNumber .badSize⟩,
    ⟨ascii "Received bad network request, unknown command ",
      readNumber fun n => .unknownCommand (UInt32.ofNat n)⟩,
    ⟨ascii "Received network toggle request ", readNumber fun n => .toggle (UInt32.ofNat n)⟩,
    ⟨ascii "Received boot select request ", readSelections⟩,
    ⟨ascii "boot select: ", readNumber fun n => .bootSelect (UInt8.ofNat n)⟩,
    ⟨ascii "PC 3.3V rail status: ", readState⟩,
    ⟨ascii "failed to handle request: ", fun why => some (.failed why)⟩]

namespace Connection

/-- The replies to the client. -/
def replies (c : Connection) : List Reply :=
  c.outputs.filterMap fun
    | .reply r => some r
    | .offer _ => none

/-- What is passed to `send` for the client, and arrives if nothing is lost. The result of `send` is
not looked at. -/
def text (strerror : ℤ → List UInt8) (c : Connection) : List UInt8 :=
  c.replies.flatMap (Reply.text strerror)

/-- What the client is to hear from the whole of it. -/
def heard (strerror : ℤ → List UInt8) (c : Connection) : Heard :=
  match c.error with
  | some errno => .failed (if errno = EAGAIN then ascii "timeout" else strerror errno)
  | none => .replies c.replies

end Connection

end Pcrb
