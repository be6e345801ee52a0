import Pcrb.Lib.Fifo
import Pcrb.Lib.Simulation
import Pcrb.Spec.Firmware

/-!
# What the firmware is for

A button that takes requests and presses itself for them, one after the other: at most two
requests are pending, one that `switch_task` has taken and one that waits behind it. This
is a statement of the purpose of the queue and its three users, with none of their steps.

`Allowed` says the same of a sequence of events, without states: `mem_traces_button_iff`.
-/

namespace Pcrb

open Lts

/-- What a user of the button sees: a request through one of the front ends, with whether it
was taken, and the beginning of a press. -/
inductive ButtonEvent
  | request (by_ : Task) (time : UInt32) (ok : Bool)
  | press (time : UInt32)
deriving DecidableEq

/-- The front ends; `cli_task` does not ask for 0. -/
def MayRequest (time : UInt32) : Task → Prop
  | .network => True
  | .cli => time ≠ 0
  | _ => False

instance (time : UInt32) : (τ : Task) → Decidable (MayRequest time τ)
  | .network => inferInstanceAs (Decidable True)
  | .cli => inferInstanceAs (Decidable (time ≠ 0))
  | .init | .wifi | .switch | .monitor => inferInstanceAs (Decidable False)

/-- The button, with the requests pending. Which of them has been taken does not show, so
with one pending a request may find the way free or not. -/
def buttonStep (pending : Fifo UInt32 2) : ButtonEvent → Option (Fifo UInt32 2)
  | .request by_ time true =>
    if MayRequest time by_ ∧ ¬ pending.Full then some (pending.send time).1 else none
  | .request by_ time false =>
    if MayRequest time by_ ∧ pending.items ≠ [] then some pending else none
  | .press time =>
    match pending.receive with
    | some (first, rest) => if first = time then some rest else none
    | none => none

/-- The button, with nothing pending at first. -/
def button : System (Fifo UInt32 2) ButtonEvent ButtonEvent where
  init pending := pending = Fifo.empty
  step pending e := (buttonStep pending e).map fun pending => (pending, [e])

/-! ### The same of a sequence of events -/

namespace ButtonEvent

/-- A request that was taken. -/
@[simp] def taken : ButtonEvent → Option UInt32
  | .request _ t true => some t
  | _ => none

/-- A press. -/
@[simp] def pressed : ButtonEvent → Option UInt32
  | .press t => some t
  | _ => none

end ButtonEvent

/-- The requests taken that are still to be pressed for. -/
def pendingAfter (hist : List ButtonEvent) : List UInt32 :=
  (hist.filterMap ButtonEvent.taken).drop (hist.filterMap ButtonEvent.pressed).length

/-- An event that may come next: a press for the request that has been pending longest; a
request that is taken with fewer than two pending, or not taken with at least one. -/
def Allowed (hist : List ButtonEvent) : ButtonEvent → Prop
  | .request by_ time true => MayRequest time by_ ∧ (pendingAfter hist).length < 2
  | .request by_ time false => MayRequest time by_ ∧ 0 < (pendingAfter hist).length
  | .press time => (pendingAfter hist).head? = some time

instance (hist : List ButtonEvent) : (e : ButtonEvent) → Decidable (Allowed hist e)
  | .request by_ time true => inferInstanceAs (Decidable (MayRequest time by_ ∧ _))
  | .request by_ time false => inferInstanceAs (Decidable (MayRequest time by_ ∧ _))
  | .press _ => inferInstanceAs (Decidable (_ = _))

end Pcrb
