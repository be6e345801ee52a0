import Pcrb.Spec.Ntp

/-!
# The NTP request

`ntpRequest_of_info` is the whole of a request that gets an address, and
`ntpRequest_of_none` one that does not: the list is used without a look at it. The time
comes out right because every conversion on the way is modulo 2^32 (`toNat_sub_ntpDelta`).

* `ntp_safe_iff`: exactly which answers a request survives, whatever the other calls do.
* `ntp_epoch_exact`: a valid reply gives the time that it carries, in either era.
-/

namespace Pcrb

/-- Exactly 48 bytes are received, with mode 4 and a stratum other than 0. -/
def NtpAnswers.ValidReply (a : NtpAnswers) : Prop :=
  ∃ r, a.recv = some r ∧ r.bytes.length = 48 ∧ r.bytes.getD 0 0 &&& 0x7 = 4 ∧
    r.bytes.getD 1 0 ≠ 0

/-- A request comes back without using what is not there, has released what it obtained
once, and succeeds exactly on a valid reply. -/
def NtpSafe (a : NtpAnswers) (timeout : UInt64) : Prop :=
  ∃ code st, ntpRequest a (NtpState.initial timeout) = some (code, st) ∧
    st.calls.filterMap NtpCall.frees = a.dnsResult.toList ∧
    st.calls.filterMap NtpCall.closes = (if 0 ≤ a.socket then [a.socket] else []) ∧
    (a.ValidReply → code = 0 ∧ st.ntpTimeoutTime = a.makeTimeoutTimeMs ntpEstTime) ∧
    (¬ a.ValidReply → code = -1 ∧ st.ntpTimeoutTime = timeout)

variable {a : NtpAnswers} {info : AddrInfo} {timeout : UInt64}

/-! ### The buffer after `recv` -/

theorem write_getD (m : Bytes) {bs : List UInt8} {i : ℕ} (h : i < bs.length) :
    m.write 0 bs i = bs.getD i 0 := by
  have hwritten := Bytes.write_of_lt (m := m) (a := 0) h
  rw [Nat.zero_add] at hwritten
  rw [hwritten, List.getD_eq_getElem _ _ h]

theorem amount_eq_iff (r : Received) :
    Int32.ofNat r.bytes.length = ntpMsgLen ↔ r.bytes.length = 48 := by
  have hfits := r.fits
  have hlen : (Int32.ofNat r.bytes.length).toInt = r.bytes.length :=
    Int32.toInt_ofNat_of_lt (by omega)
  have hmsg : ntpMsgLen.toInt = 48 := by decide
  constructor
  · intro h
    rw [h, hmsg] at hlen
    omega
  · intro h
    rw [h]
    rfl

/-- What `request` checks is that the reply is valid. -/
theorem received_valid_iff (a : NtpAnswers) :
    (a.received.2 = ntpMsgLen ∧ a.received.1 0 &&& 0x7 = 0x4 ∧ a.received.1 1 ≠ 0) ↔
      a.ValidReply := by
  unfold NtpAnswers.received NtpAnswers.ValidReply
  cases hrecv : a.recv with
  | none =>
    have hfailed : ¬ (-1 : Int32) = ntpMsgLen := by decide
    simp [hfailed]
  | some r =>
    dsimp only
    rw [amount_eq_iff]
    constructor
    · rintro ⟨hlen, hmode, hstratum⟩
      rw [write_getD _ (by omega)] at hmode hstratum
      exact ⟨r, rfl, hlen, hmode, hstratum⟩
    · rintro ⟨_, ⟨⟩, hlen, hmode, hstratum⟩
      rw [write_getD _ (by omega), write_getD _ (by omega)]
      exact ⟨hlen, hmode, hstratum⟩

/-! ### The whole request -/

/-- The calls of a request that gets an address, up to the look at the reply. -/
def ntpCalls (a : NtpAnswers) (info : AddrInfo) : List NtpCall :=
  [.getaddrinfo a.getaddrinfo,
   .socket info.aiFamily info.aiSocktype info.aiProtocol a.socket,
   .setsockopt a.socket,
   .connect a.socket info.aiAddr info.aiAddrlen a.connect,
   .freeaddrinfo info,
   .send a.socket (ntpMessage.read 0 48) a.send,
   .recv a.socket a.received.2,
   .close a.socket]

/-- A request that gets an address comes to its end. -/
theorem ntpRequest_of_info (h : a.dnsResult = some info) (timeout : UInt64) :
    ntpRequest a (NtpState.initial timeout) =
      if a.received.2 = ntpMsgLen ∧ a.received.1 0 &&& 0x7 = 0x4 ∧ a.received.1 1 ≠ 0 then
        some (0, ⟨.freed, a.makeTimeoutTimeMs ntpEstTime,
          ntpCalls a info ++ [.response (ntpEpoch a.received.1)]⟩)
      else some (-1, ⟨.freed, timeout, ntpCalls a info ++ [.invalidResponse]⟩) := by
  simp only [ntpRequest, bind, StateT.bind, Ntp.getaddrinfo, Ntp.deref, Ntp.freeaddrinfo,
    Ntp.call, NtpState.initial, h, Option.bind_some, List.nil_append, List.cons_append]
  split_ifs <;> rfl

/-- A request that gets none uses the list all the same. -/
theorem ntpRequest_of_none (h : a.dnsResult = none) (timeout : UInt64) :
    ntpRequest a (NtpState.initial timeout) = none := by
  simp only [ntpRequest, bind, StateT.bind, Ntp.getaddrinfo, Ntp.deref, Ntp.call,
    NtpState.initial, h, Option.bind_some, Option.bind_none]

theorem ntpRequest_of_valid (h : a.dnsResult = some info) (hvalid : a.ValidReply)
    (timeout : UInt64) :
    ntpRequest a (NtpState.initial timeout) =
      some (0, ⟨.freed, a.makeTimeoutTimeMs ntpEstTime,
        ntpCalls a info ++ [.response (ntpEpoch a.received.1)]⟩) := by
  rw [ntpRequest_of_info h, if_pos ((received_valid_iff a).2 hvalid)]

theorem ntpRequest_of_invalid (h : a.dnsResult = some info) (hinvalid : ¬ a.ValidReply)
    (timeout : UInt64) :
    ntpRequest a (NtpState.initial timeout) =
      some (-1, ⟨.freed, timeout, ntpCalls a info ++ [.invalidResponse]⟩) := by
  rw [ntpRequest_of_info h, if_neg fun hchecks => hinvalid ((received_valid_iff a).1 hchecks)]

theorem frees_ntpCalls (a : NtpAnswers) (info : AddrInfo) :
    (ntpCalls a info).filterMap NtpCall.frees = [info] := rfl

theorem closes_ntpCalls (a : NtpAnswers) (info : AddrInfo) :
    (ntpCalls a info).filterMap NtpCall.closes = if 0 ≤ a.socket then [a.socket] else [] := by
  simp only [ntpCalls, List.filterMap_cons, NtpCall.closes, List.filterMap_nil]
  split_ifs <;> rfl

/-- **A request is safe on every failure** but one: exactly if `getaddrinfo` gives an
address. -/
theorem ntp_safe_iff (a : NtpAnswers) (timeout : UInt64) :
    NtpSafe a timeout ↔ a.dnsResult.isSome := by
  constructor
  · rintro ⟨code, st, hrequest, -⟩
    cases hdns : a.dnsResult with
    | none =>
      rw [ntpRequest_of_none hdns] at hrequest
      cases hrequest
    | some info => rfl
  · intro hsome
    obtain ⟨info, hdns⟩ := Option.isSome_iff_exists.1 hsome
    unfold NtpSafe
    rw [hdns]
    by_cases hvalid : a.ValidReply
    · have hrequest := ntpRequest_of_valid hdns hvalid timeout
      refine ⟨_, _, hrequest, ?_, ?_, fun _ => ⟨rfl, rfl⟩, fun h => absurd hvalid h⟩
      · rw [List.filterMap_append, frees_ntpCalls]
        rfl
      · rw [List.filterMap_append, closes_ntpCalls]
        exact List.append_nil _
    · have hrequest := ntpRequest_of_invalid hdns hvalid timeout
      refine ⟨_, _, hrequest, ?_, ?_, fun h => absurd h hvalid, fun _ => ⟨rfl, rfl⟩⟩
      · rw [List.filterMap_append, frees_ntpCalls]
        rfl
      · rw [List.filterMap_append, closes_ntpCalls]
        exact List.append_nil _

/-- What the calls answer while there is no network: the name is not resolved, and nothing
is received. -/
def noNetwork : NtpAnswers where
  getaddrinfo := 202
  dnsResult := none
  socket := -1
  connect := -1
  send := -1
  recv := none
  makeTimeoutTimeMs := fun ms => ms.toUInt64 * 1000

/-- A request while there is no network uses the list that it did not get. -/
theorem ntp_no_network : ¬ NtpSafe noNetwork 0 := by
  rintro ⟨code, st, hrequest, -⟩
  rw [ntpRequest_of_none rfl] at hrequest
  cases hrequest

/-! ### The time -/

/-- Bytes that are shifted apart are a number in network order. -/
theorem or_shifted_bytes {b₀ b₁ b₂ b₃ : ℕ} (h₁ : b₁ < 2 ^ 8) (h₂ : b₂ < 2 ^ 8) (h₃ : b₃ < 2 ^ 8) :
    b₀ <<< 24 ||| b₁ <<< 16 ||| b₂ <<< 8 ||| b₃ =
      b₀ * 2 ^ 24 + b₁ * 2 ^ 16 + b₂ * 2 ^ 8 + b₃ := by
  simp only [Nat.shiftLeft_eq]
  have hor₁ : b₀ * 2 ^ 24 ||| b₁ * 2 ^ 16 = 2 ^ 16 * (b₀ * 2 ^ 8 + b₁) := by
    have hor := Nat.two_pow_add_eq_or_of_lt (i := 24) (b := b₁ * 2 ^ 16) (by omega) b₀
    rw [Nat.mul_comm b₀, ← hor]
    omega
  have hor₂ : 2 ^ 16 * (b₀ * 2 ^ 8 + b₁) ||| b₂ * 2 ^ 8 =
      2 ^ 8 * ((b₀ * 2 ^ 8 + b₁) * 2 ^ 8 + b₂) := by
    rw [← Nat.two_pow_add_eq_or_of_lt (by omega)]
    omega
  rw [hor₁, hor₂, ← Nat.two_pow_add_eq_or_of_lt h₃]
  omega

/-- **The bytes are assembled in network order**, also where the shift reaches the sign bit
of the promoted `int`. -/
theorem toNat_secondsSince1900 (secondsBuf : Bytes) :
    (secondsSince1900 secondsBuf).toNat = Bytes.ofBE (secondsBuf.read 0 4) := by
  have hunsigned : secondsSince1900 secondsBuf =
      (secondsBuf 0).toUInt32 <<< 24 ||| (secondsBuf 1).toUInt32 <<< 16 |||
        (secondsBuf 2).toUInt32 <<< 8 ||| (secondsBuf 3).toUInt32 := rfl
  have hshift : ∀ (b : UInt8) (k : UInt32), k.toNat ≤ 24 →
      (b.toUInt32 <<< k).toNat = b.toNat <<< k.toNat := by
    intro b k hk
    have hb := b.toNat_lt
    have hpow : 2 ^ k.toNat ≤ 2 ^ 24 := Nat.pow_le_pow_right (by omega) hk
    have hmod : k.toNat % 32 = k.toNat := Nat.mod_eq_of_lt (by omega)
    have hlt : b.toNat <<< k.toNat < 2 ^ 32 := by
      rw [Nat.shiftLeft_eq]
      calc b.toNat * 2 ^ k.toNat ≤ 255 * 2 ^ 24 := Nat.mul_le_mul (by omega) hpow
        _ < 2 ^ 32 := by omega
    rw [UInt32.toNat_shiftLeft, UInt8.toNat_toUInt32, hmod, Nat.mod_eq_of_lt hlt]
  have h24 : (24 : UInt32).toNat = 24 := rfl
  have h16 : (16 : UInt32).toNat = 16 := rfl
  have h8 : (8 : UInt32).toNat = 8 := rfl
  rw [hunsigned, UInt32.toNat_or, UInt32.toNat_or, UInt32.toNat_or, hshift _ 24 (by omega),
    hshift _ 16 (by omega), hshift _ 8 (by omega), UInt8.toNat_toUInt32, h24, h16, h8,
    or_shifted_bytes (UInt8.toNat_lt _) (UInt8.toNat_lt _) (UInt8.toNat_lt _)]
  have hread : secondsBuf.read 0 4 = [secondsBuf 0, secondsBuf 1, secondsBuf 2, secondsBuf 3] := rfl
  rw [hread]
  simp only [Bytes.ofBE, List.reverse_cons, List.reverse_nil, List.nil_append, List.cons_append,
    Bytes.ofLE]
  omega

/-- The constant does not fit an `int`, but is the same modulo 2^32. -/
theorem toNat_ntpDelta : ntpDelta.toUInt32.toNat = 2208988800 := by decide

/-- **The subtraction takes the offset off again**, wrapping where it has wrapped. -/
theorem toNat_sub_ntpDelta {seconds : UInt32} {t : ℕ} (ht : t < 2 ^ 32)
    (h : seconds.toNat = (t + 2208988800) % 2 ^ 32) : (seconds - ntpDelta.toUInt32).toNat = t := by
  rw [UInt32.toNat_sub, toNat_ntpDelta, h]
  omega

/-- The widening to `time_t` keeps the value. -/
theorem toInt_toInt64 (seconds : UInt32) : seconds.toUInt64.toInt64.toInt = seconds.toNat := by
  have hlt := seconds.toNat_lt
  have hint : seconds.toUInt64.toInt64.toInt = seconds.toUInt64.toBitVec.toInt := rfl
  have hval : seconds.toUInt64.toBitVec.toNat = seconds.toNat := UInt32.toNat_toUInt64 seconds
  rw [hint, BitVec.toInt_eq_toNat_of_lt (by rw [hval]; omega), hval]

theorem toInt_ntpEpoch {request : Bytes} {t : ℕ} (ht : t < 2 ^ 32)
    (h : request.read 40 4 = Bytes.toBE 4 ((t + 2208988800) % 2 ^ 32)) :
    (ntpEpoch request).toInt = t := by
  have hseconds : (secondsSince1900 (Bytes.write (fun _ => 0) 0 (request.read 40 4))).toNat =
      (t + 2208988800) % 2 ^ 32 := by
    have hread := Bytes.read_write (fun _ => 0) 0 (request.read 40 4)
    rw [Bytes.length_read] at hread
    rw [toNat_secondsSince1900, hread, h, Bytes.ofBE_toBE (by omega)]
  unfold ntpEpoch
  dsimp only
  rw [toInt_toInt64, toNat_sub_ntpDelta ht hseconds]

/-- **The conversion is exact across the era rollover.** If a valid reply carries the seconds
since 1900 of the Unix time `t`, modulo 2^32, then `epoch` is `t`, and a request that gets an
address comes to its end and reports it. -/
theorem ntp_epoch_exact {r : Received} {t : ℕ} (hr : a.recv = some r) (hvalid : a.ValidReply)
    (ht : t < 2 ^ 32)
    (hbytes : (r.bytes.drop 40).take 4 = Bytes.toBE 4 ((t + 2208988800) % 2 ^ 32))
    (timeout : UInt64) :
    (ntpEpoch a.received.1).toInt = t ∧
      ∀ info, a.dnsResult = some info →
        ∃ st, ntpRequest a (NtpState.initial timeout) = some (0, st) ∧
          st.calls.filterMap NtpCall.reports = [ntpEpoch a.received.1] := by
  constructor
  · obtain ⟨r', hr', hlen, -, -⟩ := hvalid
    obtain rfl : r' = r := Option.some.inj (hr'.symm.trans hr)
    have hbuffer : a.received.1 = ntpMessage.write 0 r'.bytes := by
      rw [NtpAnswers.received, hr]
    have hread : (ntpMessage.write 0 r'.bytes).read (0 + 40) 4 = (r'.bytes.drop 40).take 4 :=
      Bytes.read_write_within ntpMessage 0 (by omega)
    rw [Nat.zero_add] at hread
    apply toInt_ntpEpoch ht
    rw [hbuffer, hread, hbytes]
  · intro info hdns
    exact ⟨_, ntpRequest_of_valid hdns hvalid timeout, rfl⟩

/-- A reply in the first second of the second era. -/
def rolloverReply : NtpAnswers :=
  { noNetwork with
    dnsResult := some ⟨2, 2, 17, [], 16⟩
    recv := some ⟨0x24 :: 1 :: List.replicate 46 0, by decide⟩ }

theorem ntp_epoch_rollover :
    (ntpEpoch rolloverReply.received.1).toInt = 2085978496 ∧
      ∀ info, rolloverReply.dnsResult = some info →
        ∃ st, ntpRequest rolloverReply (NtpState.initial 0) = some (0, st) ∧
          st.calls.filterMap NtpCall.reports = [ntpEpoch rolloverReply.received.1] :=
  ntp_epoch_exact rfl ⟨_, rfl, by decide, by decide, by decide⟩ (by decide) (by decide) 0

end Pcrb
