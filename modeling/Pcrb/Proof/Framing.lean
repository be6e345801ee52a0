import Pcrb.Spec.Request

/-!
# The receive loops

`ReadInv` is the invariant of both loops of `request_handler::read`: it relates
where the function stands to the bytes received so far, whatever way `recv` split
them. `recv_inv` is its step lemma.

`read_returns_iff`: against a peer that ends its connection, `read` returns exactly
if the peer ends it with an error or has delivered a whole frame by then. An orderly
close in front of that leaves the loop spinning: `recv` returns 0, and nothing moves.
-/

namespace Pcrb

/-- The length `read` takes from a prefix, for a span of the given size. -/
def payloadSize (span : ℕ) (pre : List UInt8) : ℕ := min (Bytes.ofBE pre) (span % 65536)

/-- Where `read` stands after receiving `rx` into a span that held `stale`. -/
def ReadInv (span : ℕ) (stale : Bytes) (rx : List UInt8) : ReadState → Prop
  | .length size received data =>
    rx.length < 2 ∧ received = rx.length ∧ size = Bytes.write (fun _ => 0) 0 rx ∧ data = stale
  | .payload size received data =>
    ∃ pre body, rx = pre ++ body ∧ pre.length = 2 ∧ size = payloadSize span pre ∧
      received = body.length ∧ received < size ∧ data = stale.write 0 body
  | .done (.ok n) data =>
    ∃ pre body, rx = pre ++ body ∧ pre.length = 2 ∧ n = payloadSize span pre ∧
      body.length = n ∧ data = stale.write 0 body
  | .done (.error _) _ => True

variable {span : ℕ} {stale : Bytes} {rx : List UInt8} {st : ReadState}

theorem payloadLoop_inv {pre body : List UInt8} (hpre : pre.length = 2)
    (hle : body.length ≤ payloadSize span pre) :
    ReadInv span stale (pre ++ body)
      (ReadState.payloadLoop (payloadSize span pre) body.length (stale.write 0 body)) := by
  unfold ReadState.payloadLoop
  split
  · rename_i h
    exact ⟨pre, body, rfl, hpre, rfl, rfl, h, rfl⟩
  · exact ⟨pre, body, rfl, hpre, rfl, by omega, rfl⟩

theorem lengthLoop_inv (hrx : rx.length ≤ 2) :
    ReadInv span stale rx
      (ReadState.lengthLoop span (Bytes.write (fun _ => 0) 0 rx) rx.length stale) := by
  unfold ReadState.lengthLoop
  split
  · rename_i h
    exact ⟨h, rfl, rfl, rfl⟩
  · have h2 : rx.length = 2 := by omega
    have hsize : (ntoh16 (load16 (Bytes.write (fun _ => 0) 0 rx) 0)).toNat = Bytes.ofBE rx := by
      rw [ntoh16_load16, ← h2, Bytes.read_write]
    rw [hsize]
    have h := @payloadLoop_inv span stale rx [] h2 (Nat.zero_le _)
    simpa [payloadSize] using h

/-- `read` enters its loops with nothing received. -/
theorem start_inv : ReadInv span stale [] (ReadState.start span stale) := by
  have h := @lengthLoop_inv span stale [] (by simp)
  simpa [ReadState.start] using h

/-- **One `recv` that delivers bytes** appends them to what was received. -/
theorem recv_inv (h : ReadInv span stale rx st) {bytes : List UInt8}
    (hv : (RecvResult.data bytes).Valid st.requested) :
    ReadInv span stale (rx ++ bytes) (st.recv span (.data bytes)) := by
  cases st with
  | length size received data =>
    obtain ⟨hlt, rfl, rfl, rfl⟩ := h
    obtain ⟨-, hle⟩ := hv
    simp only [ReadState.requested] at hle
    have hw : (Bytes.write (fun _ => 0) 0 rx).write rx.length bytes =
        Bytes.write (fun _ => 0) 0 (rx ++ bytes) := by
      rw [Bytes.write_append, Nat.zero_add]
    simp only [ReadState.recv]
    rw [hw, ← List.length_append]
    exact lengthLoop_inv (by rw [List.length_append]; omega)
  | payload size received data =>
    obtain ⟨pre, body, rfl, hpre, rfl, rfl, hlt, rfl⟩ := h
    obtain ⟨-, hle⟩ := hv
    simp only [ReadState.requested] at hle
    have hw : (stale.write 0 body).write body.length bytes = stale.write 0 (body ++ bytes) := by
      rw [Bytes.write_append, Nat.zero_add]
    simp only [ReadState.recv]
    rw [hw, ← List.length_append, List.append_assoc]
    exact payloadLoop_inv hpre (by rw [List.length_append]; omega)
  | done result data =>
    obtain ⟨hpos, hle⟩ := hv
    simp only [ReadState.requested] at hle
    omega

/-- **An orderly close moves nothing**: the loop is where it was. -/
theorem recv_closed (h : ReadInv span stale rx st) : st.recv span .closed = st := by
  cases st with
  | length size received data =>
    obtain ⟨hlt, rfl, -⟩ := h
    simp only [ReadState.recv, ReadState.lengthLoop]
    rw [if_pos hlt]
  | payload size received data =>
    obtain ⟨_, _, -, -, -, -, hlt, -⟩ := h
    simp only [ReadState.recv, ReadState.payloadLoop]
    rw [if_pos hlt]
  | done => rfl

/-- Bytes that arrive do not end the call with an error. -/
theorem recv_data_ne_error (hr : st.request ≠ none) (bytes : List UInt8) (e : ℤ) (data : Bytes) :
    st.recv span (.data bytes) ≠ .done (.error e) data := by
  cases st with
  | length size received data =>
    simp only [ReadState.recv, ReadState.lengthLoop, ReadState.payloadLoop]
    split_ifs <;> simp
  | payload size received data =>
    simp only [ReadState.recv, ReadState.payloadLoop]
    split_ifs <;> simp
  | done => exact absurd rfl hr

/-! ### Against a peer -/

/-- The bytes a peer delivers make a whole frame for a span of this size. -/
def FrameComplete (span : ℕ) (bs : List UInt8) : Prop :=
  2 ≤ bs.length ∧ 2 + payloadSize span (bs.take 2) ≤ bs.length

/-- `read` is between two calls of `recv`. -/
def ReadState.Running (st : ReadState) : Prop := ∀ result data, st ≠ .done result data

theorem request_ne_none (hr : st.Running) : st.request ≠ none := by
  cases st with
  | length => simp [ReadState.request]
  | payload => simp [ReadState.request]
  | done result data => exact absurd rfl (hr result data)

theorem requested_pos (h : ReadInv span stale rx st) (hr : st.Running) : 0 < st.requested := by
  cases st with
  | length => obtain ⟨hlt, rfl, -⟩ := h; simp only [ReadState.requested]; omega
  | payload => obtain ⟨_, _, -, -, -, -, hlt, -⟩ := h; simp only [ReadState.requested]; omega
  | done result data => exact absurd rfl (hr result data)

/-- What one `recv` of a peer returns, and what the peer has left. -/
theorem Peer.recv_cases (p : Peer) {n : ℕ} (hn : 0 < n) :
    (p.bytes = [] ∧ (p.recv n).2 = p ∧
      (p.recv n).1 = match p.ending with | .closed => .closed | .error e => .error e) ∨
    ∃ bs, (p.recv n).1 = .data bs ∧ (RecvResult.data bs).Valid n ∧
      p.bytes = bs ++ (p.recv n).2.bytes ∧ (p.recv n).2.ending = p.ending := by
  unfold Peer.recv
  split
  · rename_i h
    exact Or.inl ⟨by simp [Peer.bytes, h], rfl, rfl⟩
  · rename_i s ss h
    have hmem : s ∈ p.segments := by
      rw [h]
      exact List.mem_cons_self
    have hs : 0 < s.length := List.length_pos_iff.2 (p.nonempty s hmem)
    refine Or.inr ?_
    split
    · rename_i hle
      exact ⟨s, rfl, ⟨hs, hle⟩, by simp [Peer.bytes, h], rfl⟩
    · rename_i hle
      refine ⟨s.take n, rfl, ⟨?_, by simp⟩, ?_, rfl⟩
      · rw [List.length_take]; omega
      · simp only [Peer.bytes, h, List.flatten_cons]
        rw [← List.append_assoc, List.take_append_drop]

/-- A run of `read` against a peer that delivers `total` and then ends with `ending`. -/
structure PeerInv (span : ℕ) (stale : Bytes) (total : List UInt8) (ending : Ending)
    (c : ReadState × Peer) : Prop where
  inv : ∃ rx, ReadInv span stale rx c.1 ∧ rx ++ c.2.bytes = total
  ends : c.2.ending = ending
  failed : ∀ e data, c.1 = .done (.error e) data → ending = .error e

variable {total : List UInt8} {ending : Ending} {c : ReadState × Peer}

theorem readStep_running (hr : c.1.Running) :
    readStep span c = (c.1.recv span (c.2.recv c.1.requested).1, (c.2.recv c.1.requested).2) := by
  obtain ⟨st, p⟩ := c
  cases st with
  | length => rfl
  | payload => rfl
  | done result data => exact absurd rfl (hr result data)

/-- **One turn of the loop** keeps the invariant, and either consumes bytes, or the peer
has none left and the turn ends the call or changes nothing. -/
theorem readStep_inv (h : PeerInv span stale total ending c) (hr : c.1.Running) :
    PeerInv span stale total ending (readStep span c) ∧
      ((readStep span c).2.bytes.length < c.2.bytes.length ∨
        c.2.bytes = [] ∧ (ending = .closed ∧ readStep span c = c ∨
          ∃ e data, ending = .error e ∧ (readStep span c).1 = .done (.error e) data)) := by
  obtain ⟨rx, hinv, htot⟩ := h.inv
  rw [readStep_running hr]
  rcases c.2.recv_cases (requested_pos hinv hr) with ⟨hnil, hp, hres⟩ | ⟨bs, hres, hv, hbs, hend⟩
  · -- the peer has nothing left: the loop spins on a close and ends on an error
    rw [hp, hres, h.ends]
    cases ending with
    | closed =>
      have hsame : (c.1.recv span .closed, c.2) = c := by rw [recv_closed hinv]
      dsimp only
      rw [hsame]
      exact ⟨h, Or.inr ⟨hnil, Or.inl ⟨rfl, rfl⟩⟩⟩
    | error e =>
      have hdone : ∃ data, c.1.recv span (.error e) = .done (.error e) data := by
        cases hst : c.1 with
        | length _ _ data => exact ⟨data, rfl⟩
        | payload _ _ data => exact ⟨data, rfl⟩
        | done result data => exact absurd hst (hr result data)
      obtain ⟨data, hd⟩ := hdone
      simp only [hd]
      refine ⟨⟨⟨total, trivial, by simp [hnil]⟩, h.ends, ?_⟩,
        Or.inr ⟨hnil, Or.inr ⟨e, data, rfl, rfl⟩⟩⟩
      rintro e' data' heq
      cases heq; rfl
  · -- it delivers something, so the measure decreases
    rw [hres]
    refine ⟨⟨⟨rx ++ bs, recv_inv hinv hv, by rw [List.append_assoc, ← hbs, htot]⟩,
      hend.trans h.ends, ?_⟩, Or.inl ?_⟩
    · -- delivering bytes does not end the call with an error
      intro e data heq
      exact absurd heq (recv_data_ne_error (request_ne_none hr) bs e data)
    · dsimp only
      rw [hbs, List.length_append]
      have := hv.1
      omega

/-- While `read` is running the frame is not complete. -/
theorem not_complete_of_running (h : ReadInv span stale rx st) (hr : st.Running) :
    ¬ FrameComplete span rx := by
  rintro ⟨h2, hc⟩
  cases st with
  | length => obtain ⟨hlt, -⟩ := h; omega
  | payload =>
    obtain ⟨pre, body, rfl, hpre, rfl, rfl, hlt, -⟩ := h
    rw [List.take_left' hpre, List.length_append] at hc
    omega
  | done result data => exact hr result data rfl

/-- When `read` has returned a size, the frame is complete. -/
theorem complete_of_done {n : ℕ} {data : Bytes} (h : ReadInv span stale rx (.done (.ok n) data))
    (rest : List UInt8) : FrameComplete span (rx ++ rest) := by
  obtain ⟨pre, body, rfl, hpre, rfl, hlen, -⟩ := h
  rw [FrameComplete, List.append_assoc, List.take_left' hpre]
  simp only [List.length_append]
  omega

/-- **Termination.** The bytes left decrease until the call ends. -/
theorem read_terminates (hcond : (∃ e, ending = .error e) ∨ FrameComplete span total) :
    ∀ {k : ℕ} {c : ReadState × Peer}, c.2.bytes.length ≤ k → PeerInv span stale total ending c →
      ∃ n result data, ((readStep span)^[n] c).1 = .done result data := by
  -- by induction on a bound on the bytes left
  intro k
  induction k with
  | zero =>
    intro c hk h
    by_cases hr : c.1.Running
    · obtain ⟨-, hlt | ⟨hnil, ⟨hE, -⟩ | ⟨e, data, -, hd⟩⟩⟩ := readStep_inv h hr
      · omega
      · -- closed with nothing left, so the frame is what was received: not complete
        obtain ⟨rx, hinv, htot⟩ := h.inv
        rw [hnil, List.append_nil] at htot
        rcases hcond with ⟨e, he⟩ | hcomp
        · rw [hE] at he; cases he
        · exact absurd (htot ▸ hcomp) (not_complete_of_running hinv hr)
      · exact ⟨1, _, data, hd⟩
    · simp only [ReadState.Running, not_forall, ne_eq, not_not] at hr
      obtain ⟨result, data, hd⟩ := hr
      exact ⟨0, result, data, hd⟩
  | succ k ih =>
    intro c hk h
    by_cases hr : c.1.Running
    · obtain ⟨hinv', hlt | ⟨hnil, -⟩⟩ := readStep_inv h hr
      · obtain ⟨n, result, data, hd⟩ := ih (by omega) hinv'
        exact ⟨n + 1, result, data, by rw [Function.iterate_succ_apply]; exact hd⟩
      · exact ih (by rw [hnil]; exact Nat.zero_le _) h
    · simp only [ReadState.Running, not_forall, ne_eq, not_not] at hr
      obtain ⟨result, data, hd⟩ := hr
      exact ⟨0, result, data, hd⟩

/-- The invariant holds however long the loop has run. -/
theorem readAfter_inv (span : ℕ) (stale : Bytes) (peer : Peer) (n : ℕ) :
    PeerInv span stale peer.bytes peer.ending (readAfter span stale peer n) := by
  induction n with
  | zero =>
    refine ⟨⟨[], start_inv, rfl⟩, rfl, fun e data heq => ?_⟩
    simp only [readAfter, Function.iterate_zero, id_eq, ReadState.start, ReadState.lengthLoop] at heq
    cases heq
  | succ n ih =>
    unfold readAfter at ih ⊢
    rw [Function.iterate_succ_apply']
    by_cases hr : ((readStep span)^[n] (ReadState.start span stale, peer)).1.Running
    · exact (readStep_inv ih hr).1
    · simp only [ReadState.Running, not_forall, ne_eq, not_not] at hr
      obtain ⟨result, data, hd⟩ := hr
      have hsame : ∀ c : ReadState × Peer, c.1 = .done result data → readStep span c = c := by
        rintro ⟨st, p⟩ rfl
        rfl
      rw [hsame _ hd]
      exact ih

/-- **`read` returns** exactly if the peer ends the connection with an error, or delivers
a whole frame before it ends it. -/
theorem read_returns_iff (span : ℕ) (stale : Bytes) (peer : Peer) :
    ReadReturns span stale peer ↔
      (∃ e, peer.ending = .error e) ∨ FrameComplete span peer.bytes := by
  constructor
  · rintro ⟨n, result, data, hd⟩
    have h := readAfter_inv span stale peer n
    obtain ⟨rx, hinv, htot⟩ := h.inv
    rw [hd] at hinv
    cases result with
    | ok m => exact Or.inr (htot ▸ complete_of_done hinv _)
    | error e => exact Or.inl ⟨e, h.failed e data hd⟩
  · intro hcond
    -- the measure starts at all that the peer is going to deliver
    exact read_terminates hcond le_rfl (readAfter_inv span stale peer 0)

/-- A peer that closes its connection without sending anything. -/
def silentPeer : Peer := ⟨[], by simp, .closed⟩

/-- Against it, `read` never returns. -/
theorem read_silentPeer_hangs : ¬ ReadReturns 1024 (fun _ => 0) silentPeer := by
  rintro ⟨n, result, data, hd⟩
  have h := readAfter_inv 1024 (fun _ => 0) silentPeer n
  obtain ⟨rx, hinv, htot⟩ := h.inv
  rw [hd] at hinv
  cases result with
  | ok m =>
    obtain ⟨h2, -⟩ := htot ▸ complete_of_done hinv (readAfter 1024 (fun _ => 0) silentPeer n).2.bytes
    simp [silentPeer, Peer.bytes] at h2
  | error e => simpa [silentPeer] using h.failed e data hd

end Pcrb
