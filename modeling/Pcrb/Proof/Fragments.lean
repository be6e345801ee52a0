import Pcrb.Proof.Framing

/-!
# Fragmentation

`recv` may split the stream of a connection in any way. `StreamInv` says what is left
of the stream while `read` takes its frame out of it; `readFrom_inv` carries it through
every call.

* `request_within`: no call asks for a byte outside the length variable or the span.
* `readFrom_frame`: if no call fails, `read` returns the frame, the same for all splittings.
* `read_framing`: both, and what a failing call does.
-/

namespace Pcrb

/-- The bytes that begin with the length `L`, and go on with `tail`. -/
def framed (L : UInt16) (tail : List UInt8) : List UInt8 := Bytes.toBE 2 L.toNat ++ tail

/-- The call number `k` of `recv` is made, and returns -1. -/
def FailsAt (span : ℕ) (data : Bytes) (stream : List UInt8) (split : Splitting) (k : ℕ)
    (errno : ℤ) : Prop :=
  ∃ request, (readFrom span data stream split k).1.request = some request ∧
    split.answer k request.length = .error errno

variable {span : ℕ} {stale : Bytes} {L : UInt16} {tail rx rest : List UInt8} {st : ReadState}
  {split : Splitting}

theorem length_framed (L : UInt16) (tail : List UInt8) :
    (framed L tail).length = 2 + tail.length := by
  rw [framed, List.length_append, Bytes.length_toBE]

theorem payloadSize_framed (span : ℕ) (L : UInt16) :
    payloadSize span (Bytes.toBE 2 L.toNat) = min L.toNat (span % 65536) := by
  rw [payloadSize, Bytes.ofBE_toBE L.toNat_lt]

/-- A prefix of the stream that is two bytes long is its length field. -/
theorem pre_of_framed {pre body : List UInt8} (hpre : pre.length = 2)
    (h : pre ++ body ++ rest = framed L tail) :
    pre = Bytes.toBE 2 L.toNat ∧ body ++ rest = tail := by
  rw [List.append_assoc] at h
  exact List.append_inj h (by rw [hpre, Bytes.length_toBE])

theorem request_length {request : RecvRequest} (h : st.request = some request) :
    request.length = st.requested := by
  cases st with
  | length => cases h; rfl
  | payload => cases h; rfl
  | done => cases h

/-! ### The invariant of a run -/

/-- Where `read` stands, and that what it received and what is left make up the stream. -/
def StreamInv (span : ℕ) (stale : Bytes) (stream : List UInt8) (c : ReadState × List UInt8) :
    Prop :=
  (∃ rx, ReadInv span stale rx c.1 ∧ rx ++ c.2 = stream) ∨ ∃ e data, c.1 = .done (.error e) data

/-- **A call asks for bytes of its own buffer, and there are as many in the stream.** -/
theorem request_bounds (h : ReadInv span stale rx st) (hstream : rx ++ rest = framed L tail)
    (htail : min L.toNat span ≤ tail.length) {request : RecvRequest}
    (hreq : st.request = some request) :
    request.offset + request.length ≤ request.buffer.bytes span ∧ 0 < request.length ∧
      request.length ≤ rest.length := by
  have hlen := congrArg List.length hstream
  rw [List.length_append, length_framed] at hlen
  cases st with
  | length size received data =>
    obtain ⟨hlt, rfl, -, -⟩ := h
    cases hreq
    simp only [RecvBuffer.bytes]
    omega
  | payload size received data =>
    obtain ⟨pre, body, rfl, hpre, rfl, rfl, hlt, -⟩ := h
    cases hreq
    have hfield := (pre_of_framed hpre hstream).1
    have hsize : payloadSize span pre ≤ min L.toNat span := by
      have hmod := Nat.mod_le span 65536
      rw [hfield, payloadSize_framed]
      omega
    rw [List.length_append] at hlen
    simp only [RecvBuffer.bytes]
    omega
  | done => cases hreq

/-- **One call of `recv`** keeps the invariant, however much it delivers. -/
theorem recv_streamInv (h : ReadInv span stale rx st) (hstream : rx ++ rest = framed L tail)
    (htail : min L.toNat span ≤ tail.length) {request : RecvRequest}
    (hreq : st.request = some request) (split : Splitting) (k : ℕ) :
    (∃ n, split.answer k request.length = .ok n ∧ 0 < n ∧
        ReadInv span stale (rx ++ rest.take n) (st.recv span (split.recv k request.length rest).1) ∧
        (rx ++ rest.take n) ++ (split.recv k request.length rest).2 = framed L tail ∧
        (rest.take n).length = n) ∨
      ∃ e data, split.answer k request.length = .error e ∧
        st.recv span (split.recv k request.length rest).1 = .done (.error e) data := by
  obtain ⟨-, hpos, hle⟩ := request_bounds h hstream htail hreq
  unfold Splitting.recv
  cases hans : split.answer k request.length with
  | ok n =>
    obtain ⟨hn, hnr⟩ := split.valid k request.length n hpos hans
    have hlen : (rest.take n).length = n := by rw [List.length_take]; omega
    have hvalid : (RecvResult.data (rest.take n)).Valid st.requested := by
      rw [RecvResult.Valid, hlen, ← request_length hreq]
      exact ⟨hn, hnr⟩
    refine Or.inl ⟨n, rfl, hn, recv_inv h hvalid, ?_, hlen⟩
    rw [List.append_assoc, List.take_append_drop, hstream]
  | error e =>
    right
    cases st with
    | length size received data => exact ⟨e, data, rfl, rfl⟩
    | payload size received data => exact ⟨e, data, rfl, rfl⟩
    | done => cases hreq

theorem readFrom_succ (span : ℕ) (data : Bytes) (stream : List UInt8) (split : Splitting) (k : ℕ) :
    readFrom span data stream split (k + 1) =
      match (readFrom span data stream split k).1.request with
      | none => readFrom span data stream split k
      | some request =>
        ((readFrom span data stream split k).1.recv span
            (split.recv k request.length (readFrom span data stream split k).2).1,
          (split.recv k request.length (readFrom span data stream split k).2).2) := rfl

/-- **The invariant holds after every call.** -/
theorem readFrom_inv (stale : Bytes) (split : Splitting) (htail : min L.toNat span ≤ tail.length)
    (k : ℕ) :
    StreamInv span stale (framed L tail) (readFrom span stale (framed L tail) split k) := by
  induction k with
  | zero => exact Or.inl ⟨[], start_inv, rfl⟩
  | succ k ih =>
    rw [readFrom_succ]
    cases hreq : (readFrom span stale (framed L tail) split k).1.request with
    | none => exact ih
    | some request =>
      rcases ih with ⟨rx, hinv, hstream⟩ | ⟨e, data, hdone⟩
      · rcases recv_streamInv hinv hstream htail hreq split k with
          ⟨n, -, -, hinv', hstream', -⟩ | ⟨e, data, -, hdone⟩
        · exact Or.inl ⟨_, hinv', hstream'⟩
        · exact Or.inr ⟨e, data, hdone⟩
      · -- a call that has returned makes no request
        rw [hdone] at hreq
        cases hreq

/-- **`read` stays inside its buffers**, whatever the length field says. -/
theorem request_within (htail : min L.toNat span ≤ tail.length) (k : ℕ) {request : RecvRequest}
    (hreq : (readFrom span stale (framed L tail) split k).1.request = some request) :
    request.offset + request.length ≤ request.buffer.bytes span := by
  rcases readFrom_inv stale split htail k with ⟨rx, hinv, hstream⟩ | ⟨e, data, hdone⟩
  · exact (request_bounds hinv hstream htail hreq).1
  · rw [hdone] at hreq
    cases hreq

/-! ### What `read` returns -/

/-- A failing call ends `read` with its `errno`. -/
theorem readFrom_failed {stream : List UInt8} {k : ℕ} {e : ℤ}
    (h : FailsAt span stale stream split k e) :
    ∃ data, (readFrom span stale stream split (k + 1)).1 = .done (.error e) data := by
  obtain ⟨request, hreq, hans⟩ := h
  rw [readFrom_succ, hreq]
  simp only [Splitting.recv, hans]
  cases hst : (readFrom span stale stream split k).1 with
  | length size received data => exact ⟨data, rfl⟩
  | payload size received data => exact ⟨data, rfl⟩
  | done result data =>
    rw [hst] at hreq
    cases hreq

/-- While no call has failed, each call has delivered something, or `read` has returned. -/
theorem readFrom_progress (htail : min L.toNat span ≤ tail.length)
    (hok : ∀ k e, ¬ FailsAt span stale (framed L tail) split k e) (k : ℕ) :
    ∃ rx, ReadInv span stale rx (readFrom span stale (framed L tail) split k).1 ∧
      rx ++ (readFrom span stale (framed L tail) split k).2 = framed L tail ∧
      (k ≤ rx.length ∨ (readFrom span stale (framed L tail) split k).1.request = none) ∧
      ∀ e data, (readFrom span stale (framed L tail) split k).1 ≠ .done (.error e) data := by
  induction k with
  | zero =>
    refine ⟨[], start_inv, rfl, Or.inl (Nat.zero_le _), fun e data h => ?_⟩
    simp [readFrom, ReadState.start, ReadState.lengthLoop] at h
  | succ k ih =>
    obtain ⟨rx, hinv, hstream, hprog, herr⟩ := ih
    rw [readFrom_succ]
    cases hreq : (readFrom span stale (framed L tail) split k).1.request with
    | none => exact ⟨rx, hinv, hstream, Or.inr hreq, herr⟩
    | some request =>
      rcases recv_streamInv hinv hstream htail hreq split k with
        ⟨n, hans, hn, hinv', hstream', hlen⟩ | ⟨e, data, hans, -⟩
      · have hk : k ≤ rx.length := by
          rcases hprog with hk | hnone
          · exact hk
          · rw [hnone] at hreq; cases hreq
        have hrunning : (readFrom span stale (framed L tail) split k).1.request ≠ none := by
          rw [hreq]
          simp
        refine ⟨_, hinv', hstream', Or.inl ?_, fun e data => ?_⟩
        · rw [List.length_append, hlen]
          omega
        · simp only [Splitting.recv, hans]
          exact recv_data_ne_error hrunning _ e data
      · exact absurd ⟨request, hreq, hans⟩ (hok k e)

/-- **A frame is read whole**, in at most as many calls as it has bytes. -/
theorem readFrom_frame (hspan : span < 65536) (htail : min L.toNat span ≤ tail.length)
    (hok : ∀ k e, ¬ FailsAt span stale (framed L tail) split k e) :
    readFrom span stale (framed L tail) split (2 + min L.toNat span) =
      (.done (.ok (min L.toNat span)) (stale.write 0 (tail.take (min L.toNat span))),
        tail.drop (min L.toNat span)) := by
  obtain ⟨rx, hinv, hstream, hprog, herr⟩ :=
    readFrom_progress htail hok (2 + min L.toNat span)
  have hmod : span % 65536 = span := Nat.mod_eq_of_lt hspan
  generalize hc : readFrom span stale (framed L tail) split (2 + min L.toNat span) = c at *
  obtain ⟨st, rest⟩ := c
  cases st with
  | length size received data =>
    -- two bytes have come by now, so the prefix is complete
    obtain ⟨hlt, -⟩ := hinv
    rcases hprog with hk | hnone
    · omega
    · cases hnone
  | payload size received data =>
    obtain ⟨pre, body, rfl, hpre, rfl, rfl, hlt, -⟩ := hinv
    have hfield := (pre_of_framed hpre hstream).1
    rw [hfield, payloadSize_framed, hmod] at hlt
    rcases hprog with hk | hnone
    · rw [List.length_append] at hk
      omega
    · cases hnone
  | done result data =>
    cases result with
    | error e => exact absurd rfl (herr e data)
    | ok n =>
      obtain ⟨pre, body, rfl, hpre, hn, hbody, rfl⟩ := hinv
      obtain ⟨hfield, htl⟩ := pre_of_framed hpre hstream
      rw [hfield, payloadSize_framed, hmod] at hn
      dsimp only at htl
      rw [← htl, ← hn, ← hbody, List.take_left, List.drop_left]

/-- **Framing is independent of fragmentation.** `read` stays inside its buffers; for a span
below 2^16 it takes the frame and nothing else out of the stream, whatever way `recv` splits
it; and the first call that fails ends it with its `errno`. -/
theorem read_framing (span : ℕ) (stale : Bytes) (L : UInt16) (tail : List UInt8)
    (split : Splitting) (htail : min L.toNat span ≤ tail.length) :
    (∀ k request, (readFrom span stale (framed L tail) split k).1.request = some request →
      request.offset + request.length ≤ request.buffer.bytes span) ∧
    (span < 65536 → (∀ k errno, ¬ FailsAt span stale (framed L tail) split k errno) →
      readFrom span stale (framed L tail) split (2 + min L.toNat span) =
        (.done (.ok (min L.toNat span)) (stale.write 0 (tail.take (min L.toNat span))),
          tail.drop (min L.toNat span))) ∧
    ∀ k errno, FailsAt span stale (framed L tail) split k errno →
      ∃ data, (readFrom span stale (framed L tail) split (k + 1)).1 =
        .done (.error errno) data := by
  refine ⟨fun k request hreq => request_within htail k hreq, fun hspan hok => ?_, ?_⟩
  · exact readFrom_frame hspan htail hok
  · intro k errno hfail
    exact readFrom_failed hfail

/-- One byte with each call. -/
def bytewise : Splitting where
  answer _ _ := .ok 1
  valid := by
    intro call requested n hpos hn
    cases hn
    omega

/-- A frame of two bytes, delivered byte by byte with a byte of the next one behind it. -/
theorem read_framing_bytewise :
    readFrom 4 (fun _ => 7) (framed 2 [1, 2, 9]) bytewise 4 =
      (.done (.ok 2) (Bytes.write (fun _ => 7) 0 [1, 2]), [9]) := by
  have hok : ∀ k errno, ¬ FailsAt 4 (fun _ => 7) (framed 2 [1, 2, 9]) bytewise k errno := by
    rintro k errno ⟨request, -, hans⟩
    cases hans
  exact (read_framing 4 (fun _ => 7) 2 [1, 2, 9] bytewise (by decide)).2.1 (by decide) hok

end Pcrb
