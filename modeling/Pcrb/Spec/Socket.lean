import Mathlib.Data.Int.Basic
import Mathlib.Logic.Function.Basic
import Pcrb.Lib.Lts

/-!
# Sockets (`server.h`, `server.cpp`)

The objects of class `socket`, by address, over the descriptors the operating system has
open. The operating system may issue any number that is not in use, also one it issued
before, so each descriptor it opens is a connection with a number of its own.
-/

namespace Pcrb

/-- The live `socket` objects with their `socket_`, and the open descriptors with the
connection each of them is. -/
structure Sockets where
  objects : ℕ → Option ℤ
  os : ℤ → Option ℕ
  next : ℕ

/-- The calls of the class; the first argument is the object itself. -/
inductive SocketCall
  | default (object : ℕ)
  | socket (object : ℕ) (fd : ℤ)
  | moveConstruct (object source : ℕ)
  | moveAssign (object source : ℕ)
  | get (object : ℕ)
  | shutdown (object : ℕ)
  | close (object : ℕ)
  | destroy (object : ℕ)

/-- What a call does at the operating system. -/
inductive SocketEvent
  | opened (connection : ℕ)
  | used (fd : ℤ)
  | shutdown (fd : ℤ)
  | closed (object : ℕ) (fd : ℤ) (connection : ℕ)
  | badClose (fd : ℤ)

/-- The connection that an event opens. -/
def SocketEvent.opens : SocketEvent → Option ℕ
  | .opened connection => some connection
  | _ => none

/-- The connection that an event closes. -/
def SocketEvent.closes : SocketEvent → Option ℕ
  | .closed _ _ connection => some connection
  | _ => none

namespace Sockets

/-- No object yet, and nothing open. -/
def initial : Sockets := ⟨fun _ => none, fun _ => none, 0⟩

/-- The object holds `fd`; `none` is an object that is gone. -/
def setObject (s : Sockets) (object : ℕ) (fd : Option ℤ) : Sockets :=
  { s with objects := Function.update s.objects object fd }

/-- The operating system opens `fd`. -/
def osOpen (s : Sockets) (fd : ℤ) : Sockets :=
  { s with os := Function.update s.os fd (some s.next), next := s.next + 1 }

/-- `::close`, which fails on a descriptor that is not open. -/
def osClose (s : Sockets) (object : ℕ) (fd : ℤ) : Sockets × List SocketEvent :=
  match s.os fd with
  | some connection =>
    ({ s with os := Function.update s.os fd none }, [.closed object fd connection])
  | none => (s, [.badClose fd])

/-- One call. An object is constructed where none is, and used where one is; `socket` is
given a descriptor that was just issued, or -1. -/
def step (s : Sockets) : SocketCall → Option (Sockets × List SocketEvent)
  | .default object =>
    match s.objects object with
    | none => some (s.setObject object (some (-1)), [])
    | some _ => none
  | .socket object fd =>
    match s.objects object with
    | none =>
      if fd = -1 then some (s.setObject object (some (-1)), [])
      else if 0 ≤ fd ∧ s.os fd = none then
        some ((s.osOpen fd).setObject object (some fd), [.opened s.next])
      else none
    | some _ => none
  | .moveConstruct object source =>
    match s.objects object, s.objects source with
    | none, some fd => some ((s.setObject object (some fd)).setObject source (some (-1)), [])
    | _, _ => none
  | .moveAssign object source =>
    match s.objects object, s.objects source with
    | some fd, some fd' =>
      some ((s.setObject object (some fd')).setObject source (some fd), [])
    | _, _ => none
  | .get object => (s.objects object).map fun fd => (s, [.used fd])
  | .shutdown object => (s.objects object).map fun fd => (s, [.shutdown fd])
  | .close object =>
    (s.objects object).map fun fd =>
      ((s.osClose object fd).1.setObject object (some (-1)), (s.osClose object fd).2)
  | .destroy object =>
    (s.objects object).map fun fd =>
      if fd = -1 then (s.setObject object none, [])
      else ((s.osClose object fd).1.setObject object none,
        .shutdown fd :: (s.osClose object fd).2)

end Sockets

/-- The objects of class `socket`, from none at all. -/
def sockets : Lts.System Sockets SocketCall SocketEvent where
  init s := s = Sockets.initial
  step := Sockets.step

/-! ### The sockets of `network_task` -/

/-- `socket_ipv4` of `server_`. -/
def serverSocket : ℕ := 0

/-- `sock` in `server::listen`. -/
def listenSocket : ℕ := 1

/-- The temporary in `return socket(sock)` of `server::accept`. -/
def acceptTemporary : ℕ := 2

/-- The value of `accept_result`. -/
def acceptResult : ℕ := 3

/-- The parameter of the constructor of `request_handler`. -/
def handlerParameter : ℕ := 4

/-- The member of `handler`. -/
def handlerSocket : ℕ := 5

/-- How far a call of `server::listen` comes: `getaddrinfo`, `::socket`, `bind` or `::listen`
fails, or none of them. -/
inductive ListenOutcome
  | noAddress
  | noSocket
  | notBound (fd : ℤ)
  | notListening (fd : ℤ)
  | listening (fd : ℤ)

/-- `server::listen`, as it treats sockets. -/
def listen : ListenOutcome → List SocketCall
  | .noAddress => []
  | .noSocket =>
    [.socket listenSocket (-1), .get listenSocket, .destroy listenSocket]
  | .notBound fd =>
    [.socket listenSocket fd, .get listenSocket, .get listenSocket, .destroy listenSocket]
  | .notListening fd =>
    [.socket listenSocket fd, .get listenSocket, .get listenSocket, .get listenSocket,
      .destroy listenSocket]
  | .listening fd =>
    [.socket listenSocket fd, .get listenSocket, .get listenSocket, .get listenSocket,
      .moveAssign serverSocket listenSocket, .destroy listenSocket]

/-- What comes of `server::accept` and of the request: an error, or a descriptor, on which
`request_handler` then makes some number of calls of `recv` and `send`. -/
inductive AcceptOutcome
  | failed
  | accepted (fd : ℤ) (calls : ℕ)

/-- `server::accept`, as it treats sockets. -/
def accept : AcceptOutcome → List SocketCall
  | .failed => [.get serverSocket]
  | .accepted fd _ =>
    [.get serverSocket, .socket acceptTemporary fd,
      .moveConstruct acceptResult acceptTemporary, .destroy acceptTemporary]

/-- The constructor of `request_handler`, given `*accept_result`. -/
def constructHandler : List SocketCall :=
  [.moveConstruct handlerParameter acceptResult, .moveConstruct handlerSocket handlerParameter,
    .destroy handlerParameter]

/-- The rest of a turn of the inner loop. However the request ends, `handler` and
`accept_result` go at the end of the turn. -/
def serveRequest : AcceptOutcome → List SocketCall
  | .failed => []
  | .accepted _ calls =>
    constructHandler ++ List.replicate calls (.get handlerSocket) ++
      [.destroy handlerSocket, .destroy acceptResult]

/-- One turn of the inner loop of `network_task`, as it treats sockets. -/
def networkTurn (outcome : AcceptOutcome) : List SocketCall := accept outcome ++ serveRequest outcome

/-- `network_task`, as it treats sockets, up to a call of `accept`. -/
def networkTask (listens : List ListenOutcome) (outcomes : List AcceptOutcome) :
    List SocketCall :=
  .default serverSocket :: listens.flatMap listen ++ outcomes.flatMap networkTurn

end Pcrb
