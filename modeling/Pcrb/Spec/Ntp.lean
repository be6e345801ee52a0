import Pcrb.Lib.Bytes

/-!
# The NTP client (`ntp.cpp`)

`ntp_client::request` with whatever the network answers. The calls that it makes are kept in
order; a use of an address list that is not there, because `getaddrinfo` gave none or because
it was freed, has no outcome.
-/

namespace Pcrb

/-- `NTP_MSG_LEN`. -/
def ntpMsgLen : Int32 := 48

/-- `NTP_DELTA`, as an `int` holds it. -/
def ntpDelta : Int32 := Int32.ofInt 2208988800

/-- `ntpEST_TIME`. -/
def ntpEstTime : UInt32 := 30 * 1000

/-- The fields of `addrinfo` that the client reads; `aiAddr` is what `ai_addr` points to. -/
structure AddrInfo where
  aiFamily : Int32
  aiSocktype : Int32
  aiProtocol : Int32
  aiAddr : List UInt8
  aiAddrlen : UInt32

/-- What `recv` stores, at most `NTP_MSG_LEN` bytes. -/
structure Received where
  bytes : List UInt8
  fits : bytes.length ≤ 48

/-- What the calls answer: the error and the list of `getaddrinfo`, a descriptor or -1, the
results of `connect` and `send`, what `recv` stores if it does not fail, and the time that
`make_timeout_time_ms` makes of a number of milliseconds. -/
structure NtpAnswers where
  getaddrinfo : Int32
  dnsResult : Option AddrInfo
  socket : Int32
  connect : Int32
  send : Int32
  recv : Option Received
  makeTimeoutTimeMs : UInt32 → UInt64

/-- What `request` does, in order; `response` is the `printf` of a valid response. -/
inductive NtpCall
  | getaddrinfo (err : Int32)
  | socket (family socktype protocol : Int32) (s : Int32)
  | setsockopt (s : Int32)
  | connect (s : Int32) (addr : List UInt8) (addrlen : UInt32) (err : Int32)
  | freeaddrinfo (info : AddrInfo)
  | send (s : Int32) (bytes : List UInt8) (amount : Int32)
  | recv (s : Int32) (amount : Int32)
  | close (s : Int32)
  | response (epoch : Int64)
  | invalidResponse

namespace NtpCall

/-- The address list that a call frees. -/
def frees : NtpCall → Option AddrInfo
  | .freeaddrinfo info => some info
  | _ => none

/-- The descriptor that a call closes; there is nothing to close behind -1. -/
def closes : NtpCall → Option Int32
  | .close s => if 0 ≤ s then some s else none
  | _ => none

/-- The time that a call reports. -/
def reports : NtpCall → Option Int64
  | .response epoch => some epoch
  | _ => none

end NtpCall

/-- `dns_result`: null, or what it points to is allocated or freed. -/
inductive DnsResult
  | null
  | allocated (info : AddrInfo)
  | freed

/-- `dns_result`, the member `ntp_timeout_time`, and the calls so far. -/
structure NtpState where
  dnsResult : DnsResult
  ntpTimeoutTime : UInt64
  calls : List NtpCall

/-- Before a call of `request`. -/
def NtpState.initial (timeout : UInt64) : NtpState := ⟨.null, timeout, []⟩

/-- A part of `request`; one without an outcome has used what is not there. -/
abbrev Ntp := StateT NtpState Option

namespace Ntp

def call (c : NtpCall) : Ntp Unit := fun st => some ((), { st with calls := st.calls ++ [c] })

def getaddrinfo (a : NtpAnswers) : Ntp Unit := fun st =>
  let dnsResult := match a.dnsResult with
    | some info => .allocated info
    | none => .null
  call (.getaddrinfo a.getaddrinfo) { st with dnsResult := dnsResult }

/-- `dns_result->`. -/
def deref : Ntp AddrInfo := fun st =>
  match st.dnsResult with
  | .allocated info => some (info, st)
  | .null | .freed => none

/-- `freeaddrinfo`, which ignores null. -/
def freeaddrinfo : Ntp Unit := fun st =>
  match st.dnsResult with
  | .allocated info => call (.freeaddrinfo info) { st with dnsResult := .freed }
  | .null => some ((), st)
  | .freed => none

def setTimeoutTime (time : UInt64) : Ntp Unit := fun st =>
  some ((), { st with ntpTimeoutTime := time })

end Ntp

/-- `request`, as it is sent. -/
def ntpMessage : Bytes := Bytes.write (fun _ => 0) 0 [0x1b]

/-- `recv` into `request`, with the amount returned; a failure leaves the buffer as it was. -/
def NtpAnswers.received (a : NtpAnswers) : Bytes × Int32 :=
  match a.recv with
  | some r => (ntpMessage.write 0 r.bytes, Int32.ofNat r.bytes.length)
  | none => (ntpMessage, -1)

/-- `seconds_since_1900`, of bytes that are promoted to `int` before they are shifted. -/
def secondsSince1900 (secondsBuf : Bytes) : UInt32 :=
  let int (i : ℕ) : Int32 := (secondsBuf i).toUInt32.toInt32
  (int 0 <<< 24 ||| int 1 <<< 16 ||| int 2 <<< 8 ||| int 3).toUInt32

/-- `epoch`: the subtraction is of `unsigned`, and `time_t` has 64 bits. -/
def ntpEpoch (request : Bytes) : Int64 :=
  let secondsBuf := Bytes.write (fun _ => 0) 0 (request.read 40 4)
  let secondsSince1970 := secondsSince1900 secondsBuf - ntpDelta.toUInt32
  secondsSince1970.toUInt64.toInt64

open Ntp in
/-- `ntp_client::request`. -/
def ntpRequest (a : NtpAnswers) : Ntp Int32 := do
  getaddrinfo a
  -- `printf` reads the three fields as well
  let _ ← deref
  let info ← deref
  call (.socket info.aiFamily info.aiSocktype info.aiProtocol a.socket)
  call (.setsockopt a.socket)
  let info ← deref
  call (.connect a.socket info.aiAddr info.aiAddrlen a.connect)
  freeaddrinfo
  call (.send a.socket (ntpMessage.read 0 48) a.send)
  let (request, amount) := a.received
  call (.recv a.socket amount)
  call (.close a.socket)
  let mode := request 0 &&& 0x7
  let stratum := request 1
  if amount = ntpMsgLen ∧ mode = 0x4 ∧ stratum ≠ 0 then
    call (.response (ntpEpoch request))
    setTimeoutTime (a.makeTimeoutTimeMs ntpEstTime)
    return 0
  else
    call .invalidResponse
    return -1

end Pcrb
