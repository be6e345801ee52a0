import Pcrb.Spec.Libc

/-!
# The receive loops (`request_handler.cpp`)

`request_handler::read` fills a length prefix and then a payload, each in a loop
around `recv`. A `ReadState` is where the function stands between two calls of
`recv`; `ReadState.recv` is what it does with the result of the next call.
-/

namespace Pcrb

/-- What a call of `recv` returns: a positive count of bytes, 0, or -1 with `errno`. -/
inductive RecvResult
  | data (bytes : List UInt8)
  | closed
  | error (errno : ℤ)
deriving DecidableEq

/-- A positive count is no larger than requested. -/
def RecvResult.Valid (requested : ℕ) : RecvResult → Prop
  | .data bytes => 0 < bytes.length ∧ bytes.length ≤ requested
  | _ => True

instance (n : ℕ) : (r : RecvResult) → Decidable (r.Valid n)
  | .data bytes => inferInstanceAs (Decidable (0 < bytes.length ∧ bytes.length ≤ n))
  | .closed => inferInstanceAs (Decidable True)
  | .error _ => inferInstanceAs (Decidable True)

inductive ReadState
  | length (size : Bytes) (received : ℕ) (data : Bytes)
  | payload (size received : ℕ) (data : Bytes)
  | done (result : Except ℤ ℕ) (data : Bytes)

namespace ReadState

/-- The test of the second loop. -/
def payloadLoop (size received : ℕ) (data : Bytes) : ReadState :=
  if received < size then .payload size received data else .done (.ok size) data

/-- The test of the first loop. When the prefix is complete it is swapped and clamped to
the size of the span, which `std::min<uint16_t>` takes modulo 2^16. -/
def lengthLoop (span : ℕ) (size : Bytes) (received : ℕ) (data : Bytes) : ReadState :=
  if received < 2 then .length size received data
  else payloadLoop (min (ntoh16 (load16 size 0)).toNat (span % 65536)) 0 data

/-- `read` as it is entered; `data` is what the span held. -/
def start (span : ℕ) (data : Bytes) : ReadState := lengthLoop span (fun _ => 0) 0 data

/-- The number of bytes the next `recv` asks for. -/
def requested : ReadState → ℕ
  | .length _ received _ => 2 - received
  | .payload size received _ => size - received
  | .done .. => 0

/-- The result of one `recv`. An orderly close is the amount 0. -/
def recv (span : ℕ) : ReadState → RecvResult → ReadState
  | .length size received data, .data bytes =>
    lengthLoop span (size.write received bytes) (received + bytes.length) data
  -- only -1 leaves the loop
  | .length size received data, .closed => lengthLoop span size received data
  | .length _ _ data, .error errno => .done (.error errno) data
  | .payload size received data, .data bytes =>
    payloadLoop size (received + bytes.length) (data.write received bytes)
  | .payload size received data, .closed => payloadLoop size received data
  | .payload _ _ data, .error errno => .done (.error errno) data
  | .done result data, _ => .done result data

end ReadState

/-- What a `recv` writes into: the local `size`, or the caller's span. -/
inductive RecvBuffer
  | size
  | data
deriving DecidableEq

/-- The bytes of a buffer, for a span of the given size. -/
def RecvBuffer.bytes (span : ℕ) : RecvBuffer → ℕ
  | .size => 2
  | .data => span

/-- What `read` passes to `recv`. -/
structure RecvRequest where
  buffer : RecvBuffer
  offset : ℕ
  length : ℕ

/-- The next call of `recv`. -/
def ReadState.request : ReadState → Option RecvRequest
  | .length _ received _ => some ⟨.size, received, 2 - received⟩
  | .payload size received _ => some ⟨.data, received, size - received⟩
  | .done .. => none

/-- A way for `recv` to split a stream: for each call, given what it asks for, a positive
count no larger than that, or -1 with `errno`. -/
structure Splitting where
  answer : (call requested : ℕ) → Except ℤ ℕ
  valid : ∀ call requested n, 0 < requested → answer call requested = .ok n → 0 < n ∧ n ≤ requested

/-- `recv`, with `rest` left of the stream. -/
def Splitting.recv (split : Splitting) (call requested : ℕ) (rest : List UInt8) :
    RecvResult × List UInt8 :=
  match split.answer call requested with
  | .ok n => (.data (rest.take n), rest.drop n)
  | .error errno => (.error errno, rest)

/-- `read` of a stream after `k` calls of `recv`, and what is left of the stream. -/
def readFrom (span : ℕ) (data : Bytes) (stream : List UInt8) (split : Splitting) :
    ℕ → ReadState × List UInt8
  | 0 => (ReadState.start span data, stream)
  | k + 1 =>
    let c := readFrom span data stream split k
    match c.1.request with
    | none => c
    | some request =>
      let r := split.recv k request.length c.2
      (c.1.recv span r.1, r.2)

/-- How a peer's connection ends: `recv` returns 0, or it returns -1, from then on. -/
inductive Ending
  | closed
  | error (errno : ℤ)

/-- A peer: the segments it still delivers, none of them empty, and how it ends. -/
structure Peer where
  segments : List (List UInt8)
  nonempty : ∀ s ∈ segments, s ≠ []
  ending : Ending

namespace Peer

/-- Everything the peer still delivers. -/
def bytes (p : Peer) : List UInt8 := p.segments.flatten

/-- `recv` of at most `n` bytes: from the next segment, or the end of the connection. -/
def recv (p : Peer) (n : ℕ) : RecvResult × Peer :=
  match h : p.segments with
  | [] => (match p.ending with | .closed => .closed | .error e => .error e, p)
  | s :: ss =>
    if hs : s.length ≤ n then
      -- the whole segment
      (.data s, ⟨ss, fun t ht => p.nonempty t (by rw [h]; exact List.mem_cons_of_mem _ ht), p.ending⟩)
    else
      -- the rest of the segment stays for the next call
      (.data (s.take n), ⟨s.drop n :: ss, fun t ht => by
        rcases List.mem_cons.1 ht with rfl | ht
        · simpa using hs
        · exact p.nonempty t (by rw [h]; exact List.mem_cons_of_mem _ ht), p.ending⟩)

end Peer

/-- One turn of a receive loop against a peer. -/
def readStep (span : ℕ) (c : ReadState × Peer) : ReadState × Peer :=
  match c.1 with
  | .done .. => c
  | _ => ((c.1.recv span (c.2.recv c.1.requested).1), (c.2.recv c.1.requested).2)

/-- `read` after `n` calls of `recv`. -/
def readAfter (span : ℕ) (data : Bytes) (peer : Peer) (n : ℕ) : ReadState × Peer :=
  (readStep span)^[n] (ReadState.start span data, peer)

/-- `request_handler::read` returns. -/
def ReadReturns (span : ℕ) (data : Bytes) (peer : Peer) : Prop :=
  ∃ n result data', (readAfter span data peer n).1 = .done result data'

end Pcrb
