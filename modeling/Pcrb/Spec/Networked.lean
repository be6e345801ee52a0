import Pcrb.Spec.Firmware
import Pcrb.Spec.Socket

/-!
# The firmware with its sockets

`Spec.Firmware` has the steps of `network_task`, and `Spec.Socket` the calls that it makes on
objects of class `socket`. Here a step makes its calls, and cannot be taken where they cannot.
-/

namespace Pcrb

/-- The firmware, with the objects of class `socket`. -/
structure Networked where
  firmware : State
  sockets : Sockets

/-- What comes of `server::listen` or of `server::accept`, or a step as before. -/
inductive NetworkedLabel
  | listen (outcome : ListenOutcome)
  | acceptFailed
  | accepted (fd : ℤ) (data : Bytes)
  | task (l : Label)

/-- A descriptor that the operating system issues is not negative. -/
def ListenOutcome.issued : ListenOutcome → Bool
  | .noAddress | .noSocket => true
  | .notBound fd | .notListening fd | .listening fd => decide (0 ≤ fd)

/-- `network_task` only asks whether `listen` returns 0. -/
def ListenOutcome.input : ListenOutcome → NetworkInput
  | .listening _ => .ok
  | _ => .failed

/-- `recv` and `send` are given the descriptor of the handler. -/
def Event.socketCall : Event → Option SocketCall
  | .recv _ | .reply _ => some (.get handlerSocket)
  | _ => none

/-- The calls in a step on a request. At the end of the turn `handler` and `accept_result` go. -/
def NetworkPc.socketCalls : NetworkPc → List Event → List SocketCall
  | .handling [], _ => [.destroy handlerSocket, .destroy acceptResult]
  | _, es => es.filterMap Event.socketCall

/-- A step of the firmware and the calls in it. -/
def callStep (n : Networked) (l : Label) (calls : List Event → List SocketCall) :
    Option (Networked × List (Event ⊕ SocketEvent)) :=
  (firmware.step n.firmware l).bind fun r =>
    (sockets.exec n.sockets (calls r.2)).map fun r' =>
      (⟨r.1, r'.2⟩, r.2.map Sum.inl ++ (Lts.history r'.1).map Sum.inr)

/-- A step of `network_task`. -/
def networkCallStep (n : Networked) (input : NetworkInput) :
    Option (Networked × List (Event ⊕ SocketEvent)) :=
  match n.firmware.network with
  -- these two have labels of their own
  | .listen | .accept => none
  | pc => callStep n (.network input) pc.socketCalls

/-- `server_` is there from the beginning, with -1. -/
def networked : Lts.System Networked NetworkedLabel (Event ⊕ SocketEvent) where
  init n := firmware.init n.firmware ∧
    n.sockets = Sockets.initial.setObject serverSocket (some (-1))
  step n
    | .listen outcome =>
      match n.firmware.network with
      | .listen =>
        if outcome.issued then callStep n (.network outcome.input) fun _ => listen outcome
        else none
      | _ => none
    | .acceptFailed =>
      match n.firmware.network with
      | .accept => callStep n (.network .failed) fun _ => accept .failed
      | _ => none
    | .accepted fd data =>
      match n.firmware.network with
      | .accept =>
        if 0 ≤ fd then callStep n (.network (.accepted data)) fun _ =>
          accept (.accepted fd 0) ++ constructHandler
        else none
      | _ => none
    | .task (.network input) => networkCallStep n input
    | .task l => callStep n l fun _ => []

end Pcrb
