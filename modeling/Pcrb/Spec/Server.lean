import Pcrb.Spec.Socket

/-!
# Server start-up (`server.cpp`)

`server::listen` with both of its resources: the sockets, and what `getaddrinfo` allocates.
A dereference of `result` while it is null has no next state.
-/

namespace Pcrb

/-- The sockets, `result` of the call of `listen` that is running, and the number of the next
`addrinfo` to be allocated. -/
structure ServerState where
  sockets : Sockets
  result : Option ℕ
  nextInfo : ℕ

/-- The steps of `server::listen`: `deref` is `result->`, and `release` the destructor of
`result`. -/
inductive ListenAction
  | getaddrinfo (err : ℤ)
  | deref
  | call (call : SocketCall)
  | release

inductive ServerEvent
  | allocated (info : ℕ)
  | freed (info : ℕ)
  | socket (event : SocketEvent)

namespace ServerEvent

/-- The `addrinfo` that an event allocates. -/
def allocates : ServerEvent → Option ℕ
  | .allocated info => some info
  | _ => none

/-- The `addrinfo` that an event frees. -/
def frees : ServerEvent → Option ℕ
  | .freed info => some info
  | _ => none

/-- The connection that an event opens. -/
def opens : ServerEvent → Option ℕ
  | .socket event => event.opens
  | _ => none

/-- The connection that an event closes. -/
def closes : ServerEvent → Option ℕ
  | .socket event => event.closes
  | _ => none

end ServerEvent

/-- One step. `getaddrinfo` returns 0 and a result, or an error and none; the deleter is not
called on null. -/
def ServerState.step (s : ServerState) : ListenAction → Option (ServerState × List ServerEvent)
  | .getaddrinfo err =>
    if err = 0 then
      some ({ s with result := some s.nextInfo, nextInfo := s.nextInfo + 1 },
        [.allocated s.nextInfo])
    else some ({ s with result := none }, [])
  | .deref => if s.result.isSome then some (s, []) else none
  | .call call =>
    (s.sockets.step call).map fun r => ({ s with sockets := r.1 }, r.2.map .socket)
  | .release =>
    match s.result with
    | some info => some ({ s with result := none }, [.freed info])
    | none => some (s, [])

/-- `server::listen`, called any number of times. -/
def serverSystem : Lts.System ServerState ListenAction ServerEvent where
  init _ := True
  step := ServerState.step

/-- What the calls that `listen` makes return: an error code, a descriptor or -1, whether
`bind` and `::listen` succeed, and `errno` after the one that fails. -/
structure ListenAnswers where
  getaddrinfo : ℤ
  socket : ℤ
  bind : Bool
  listen : Bool
  errno : ℤ

/-- `server::listen`: its steps, and the code that it returns. -/
def serverListen (a : ListenAnswers) : List ListenAction × ℤ :=
  if a.getaddrinfo = -1 then ([.getaddrinfo a.getaddrinfo, .release], a.errno)
  else
    let acquire : List ListenAction :=
      [.getaddrinfo a.getaddrinfo, .deref, .call (.socket listenSocket a.socket),
        .call (.get listenSocket)]
    -- `sock` and `result` go at every return
    let release : List ListenAction := [.call (.destroy listenSocket), .release]
    if a.socket = -1 then (acquire ++ release, a.errno)
    else if a.bind = false then
      (acquire ++ [.call (.get listenSocket), .deref] ++ release, a.errno)
    else if a.listen = false then
      (acquire ++ [.call (.get listenSocket), .deref, .call (.get listenSocket)] ++ release,
        a.errno)
    else
      (acquire ++ [.call (.get listenSocket), .deref, .call (.get listenSocket),
        .call (.moveAssign serverSocket listenSocket)] ++ release, 0)

/-- The server as `network_task` constructs it: `socket_ipv4` holds -1, and nothing is open. -/
def ServerState.initial : ServerState :=
  ⟨Sockets.initial.setObject serverSocket (some (-1)), none, 0⟩

end Pcrb
