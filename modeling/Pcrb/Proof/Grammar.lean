import Pcrb.Spec.Network
import Pcrb.Proof.Framing

/-!
# The network protocol accepts exactly its grammar

A payload presses the button only if it is the twelve bytes of a `toggleFrame`, and
selects a boot entry only if it is those of a `selectFrame`; every other payload is
answered and changes nothing (`handlePayload_cases`). What was in the buffer behind
the payload plays no part (`handlePayload_congr`).
-/

namespace Pcrb

/-- A toggle request: the magic, command 0, and the time in network order. -/
def toggleFrame (time : UInt32) : List UInt8 :=
  [0x41, 0x6E, 0x61, 0x4D, 0, 0, 0, 0] ++ Bytes.toBE 4 time.toNat

/-- A boot select request: the magic, command 2, and the selection in network order. -/
def selectFrame (select : UInt32) : List UInt8 :=
  [0x41, 0x6E, 0x61, 0x4D, 0, 0, 0, 2] ++ Bytes.toBE 4 select.toNat

/-- An action that only answers. -/
def Action.Answers : Action → Prop
  | .send (.toggle _) => False
  | .send _ => True
  | .sendBootSelect => True
  | .sendPcState => True
  | _ => False

variable {payload : List UInt8} {stale stale' : Bytes}

/-- The three words of a twelve-byte payload. -/
theorem payload_words (stale : Bytes) (h : payload.length = 12) :
    payload = (stale.write 0 payload).read 0 4 ++ (stale.write 0 payload).read 4 4 ++
      (stale.write 0 payload).read 8 4 := by
  have hr := Bytes.read_write stale 0 payload
  rw [h, show 12 = 4 + 4 + 4 from rfl, Bytes.read_add, Bytes.read_add] at hr
  exact hr.symm

/-- A word inside the payload, in network order. -/
theorem payload_word (stale : Bytes) {i : ℕ} {x : UInt32} (h : i + 4 ≤ payload.length) :
    ntoh32 (load32 (stale.write 0 payload) i) = x ↔
      (payload.drop i).take 4 = Bytes.toBE 4 x.toNat := by
  have hr := Bytes.read_write_within stale 0 h
  rw [Nat.zero_add] at hr
  rw [ntoh32_load32_eq_iff, hr]

/-- **Only the received bytes matter.** -/
theorem handlePayload_congr {amount : ℕ} {data data' : Bytes}
    (h : ∀ i, i < amount → data i = data' i) :
    handlePayload amount data = handlePayload amount data' := by
  unfold handlePayload
  by_cases h8 : amount < 8
  · rw [if_pos h8, if_pos h8]
  · have h0 : load32 data 0 = load32 data' 0 := load32_congr fun i hi => h _ (by omega)
    have h4 : load32 data 4 = load32 data' 4 := load32_congr fun i hi => h _ (by omega)
    rw [if_neg h8, if_neg h8, h0, h4]
    -- the third word is only looked at in a payload of twelve bytes
    by_cases h12 : amount = 12
    · have h8' : load32 data 8 = load32 data' 8 := load32_congr fun i hi => h _ (by omega)
      rw [h8']
    · simp only [h12, ne_eq, not_false_eq_true, if_true]

/-- The buffer behind the payload plays no part. -/
theorem handlePayload_stale (payload : List UInt8) (stale stale' : Bytes) :
    handlePayload payload.length (stale.write 0 payload) =
      handlePayload payload.length (stale'.write 0 payload) := by
  apply handlePayload_congr
  intro i hi
  have h1 := Bytes.write_of_lt (m := stale) (a := 0) hi
  have h2 := Bytes.write_of_lt (m := stale') (a := 0) hi
  rw [Nat.zero_add] at h1 h2
  rw [h1, h2]

theorem handlePayload_toggleFrame (stale : Bytes) (t : UInt32) :
    handlePayload (toggleFrame t).length (stale.write 0 (toggleFrame t)) =
      [.send (.toggle t), .xQueueSendToBack t] := by
  have hlen : (toggleFrame t).length = 12 := by simp [toggleFrame]
  have h0 : ntoh32 (load32 (stale.write 0 (toggleFrame t)) 0) = requestMagic :=
    (payload_word stale (by omega)).2 rfl
  have h4 : ntoh32 (load32 (stale.write 0 (toggleFrame t)) 4) = 0 :=
    (payload_word stale (by omega)).2 rfl
  have h8 : ntoh32 (load32 (stale.write 0 (toggleFrame t)) 8) = t :=
    (payload_word stale (by omega)).2 (by simp [toggleFrame])
  unfold handlePayload
  simp [hlen, h0, h4, h8]

theorem handlePayload_selectFrame (stale : Bytes) (s : UInt32) :
    handlePayload (selectFrame s).length (stale.write 0 (selectFrame s)) =
      [.send (.bootSelectRequest s), .setBootSelect s.toUInt8, .sendBootSelect] := by
  have hlen : (selectFrame s).length = 12 := by simp [selectFrame]
  have h0 : ntoh32 (load32 (stale.write 0 (selectFrame s)) 0) = requestMagic :=
    (payload_word stale (by omega)).2 rfl
  have h4 : ntoh32 (load32 (stale.write 0 (selectFrame s)) 4) = 2 :=
    (payload_word stale (by omega)).2 rfl
  have h8 : ntoh32 (load32 (stale.write 0 (selectFrame s)) 8) = s :=
    (payload_word stale (by omega)).2 (by simp [selectFrame])
  unfold handlePayload
  simp [hlen, h0, h4, h8]

/-- **The grammar.** A payload is a toggle request, a boot select request, or is only
answered. -/
theorem handlePayload_cases (payload : List UInt8) (stale : Bytes) :
    (∃ t, payload = toggleFrame t ∧ handlePayload payload.length (stale.write 0 payload) =
      [.send (.toggle t), .xQueueSendToBack t]) ∨
    (∃ s, payload = selectFrame s ∧ handlePayload payload.length (stale.write 0 payload) =
      [.send (.bootSelectRequest s), .setBootSelect s.toUInt8, .sendBootSelect]) ∨
    (∃ a, a.Answers ∧ handlePayload payload.length (stale.write 0 payload) = [a]) := by
  -- a payload of twelve bytes with the magic is its command word and its argument
  have key : payload.length = 12 → ntoh32 (load32 (stale.write 0 payload) 0) = requestMagic →
      payload = [0x41, 0x6E, 0x61, 0x4D] ++
        Bytes.toBE 4 (ntoh32 (load32 (stale.write 0 payload) 4)).toNat ++
        Bytes.toBE 4 (ntoh32 (load32 (stale.write 0 payload) 8)).toNat := by
    intro hlen hmagic
    have hw := payload_words stale hlen
    rw [ntoh32_load32_eq_iff.1 hmagic, ntoh32_load32_eq_iff.1 (Eq.refl (ntoh32 (load32 _ 4))),
      ntoh32_load32_eq_iff.1 (Eq.refl (ntoh32 (load32 _ 8)))] at hw
    exact hw
  have answered : ∀ {a : Action}, a.Answers →
      (∃ t, payload = toggleFrame t ∧ [a] = [.send (.toggle t), .xQueueSendToBack t]) ∨
      (∃ s, payload = selectFrame s ∧
        [a] = [.send (.bootSelectRequest s), .setBootSelect s.toUInt8, .sendBootSelect]) ∨
      ∃ b : Action, b.Answers ∧ [a] = [b] := fun ha => Or.inr (Or.inr ⟨_, ha, rfl⟩)
  -- from here on, the checks in the order of the source
  unfold handlePayload
  by_cases h8 : payload.length < 8
  · rw [if_pos h8]; exact answered trivial
  rw [if_neg h8]
  by_cases hmagic : ntoh32 (load32 (stale.write 0 payload) 0) = requestMagic
  swap
  · dsimp only
    rw [if_pos hmagic]; exact answered trivial
  dsimp only
  rw [if_neg (not_not.2 hmagic)]
  by_cases hreq0 : ntoh32 (load32 (stale.write 0 payload) 4) = 0
  · rw [if_pos hreq0]
    by_cases hlen : payload.length = 12
    · rw [if_neg (not_not.2 hlen)]
      have h := key hlen hmagic
      rw [hreq0] at h
      exact Or.inl ⟨_, h, rfl⟩
    · rw [if_pos hlen]; exact answered trivial
  rw [if_neg hreq0]
  by_cases hreq1 : ntoh32 (load32 (stale.write 0 payload) 4) = 1
  · rw [if_pos hreq1]
    split <;> exact answered trivial
  rw [if_neg hreq1]
  by_cases hreq2 : ntoh32 (load32 (stale.write 0 payload) 4) = 2
  · rw [if_pos hreq2]
    by_cases hlen : payload.length = 12
    · rw [if_neg (not_not.2 hlen)]
      have h := key hlen hmagic
      rw [hreq2] at h
      exact Or.inr (Or.inl ⟨_, h, rfl⟩)
    · rw [if_pos hlen]; exact answered trivial
  rw [if_neg hreq2]
  by_cases hreq3 : ntoh32 (load32 (stale.write 0 payload) 4) = 3
  · rw [if_pos hreq3]
    split <;> exact answered trivial
  · rw [if_neg hreq3]; exact answered trivial

/-- An answering action replies and leaves the rest alone. -/
theorem Action.Answers.run {a : Action} (h : a.Answers) (dev : Device) :
    ∃ r, Action.run ⟨[], [], [], dev⟩ a = ⟨[r], [], [], dev⟩ := by
  cases a with
  | send reply => exact ⟨reply, rfl⟩
  | sendBootSelect => exact ⟨_, rfl⟩
  | sendPcState => exact ⟨_, rfl⟩
  | setBootSelect => exact absurd h id
  | xQueueSendToBack => exact absurd h id

theorem toggleFrame_inj {t t' : UInt32} (h : toggleFrame t = toggleFrame t') : t = t' := by
  have hb := Bytes.toBE_inj t.toNat_lt t'.toNat_lt (List.append_cancel_left h)
  exact UInt32.toNat_inj.1 hb

theorem selectFrame_inj {s s' : UInt32} (h : selectFrame s = selectFrame s') : s = s' := by
  have hb := Bytes.toBE_inj s.toNat_lt s'.toNat_lt (List.append_cancel_left h)
  exact UInt32.toNat_inj.1 hb

theorem toggleFrame_ne_selectFrame (t s : UInt32) : toggleFrame t ≠ selectFrame s := by
  intro h
  have h8 := congrArg (List.take 8) h
  simp [toggleFrame, selectFrame] at h8

/-- A pass over a toggle request: one reply, one attempted send. -/
theorem networkPass_toggleFrame (t : UInt32) (stale : Bytes) (dev : Device) :
    networkPass dev (stale.write 0 (toggleFrame t)) (.ok (toggleFrame t).length) =
      ⟨[.toggle t], [t], [], { dev with queue := (dev.queue.send t).1 }⟩ := by
  simp only [networkPass, handleRequest, handlePayload_toggleFrame]
  rfl

/-- A pass over a boot select request: two replies, one selection. -/
theorem networkPass_selectFrame (s : UInt32) (stale : Bytes) (dev : Device) :
    networkPass dev (stale.write 0 (selectFrame s)) (.ok (selectFrame s).length) =
      ⟨[.bootSelectRequest s, .bootSelect s.toUInt8], [], [s.toUInt8],
        { dev with ram := setBootSelect dev.ram s.toUInt8 }⟩ := by
  simp only [networkPass, handleRequest, handlePayload_selectFrame, List.foldl_cons, List.foldl_nil,
    Action.run, Action.replies, Action.store, getBootSelect_setBootSelect]
  rfl

/-- **The network protocol accepts exactly its grammar.** For a payload received over
whatever the buffer held: one send is attempted, of `t`, exactly for the toggle frame of
`t`, and none otherwise; `set_boot_select` is called exactly for a boot select frame;
every other payload leaves queue and disk alone; there is always a reply; and the old
contents of the buffer play no part. -/
theorem network_grammar (payload : List UInt8) (stale : Bytes) (dev : Device) :
    let o := networkPass dev (stale.write 0 payload) (.ok payload.length)
    (∀ t, o.sends = [t] ↔ payload = toggleFrame t) ∧
    ((∀ t, payload ≠ toggleFrame t) → o.sends = []) ∧
    (∀ t, payload = toggleFrame t → o.device = { dev with queue := (dev.queue.send t).1 }) ∧
    (o.selects ≠ [] ↔ ∃ s, payload = selectFrame s) ∧
    (∀ s, payload = selectFrame s → o.selects = [s.toUInt8] ∧
      o.device = { dev with ram := setBootSelect dev.ram s.toUInt8 }) ∧
    ((∀ t, payload ≠ toggleFrame t) → (∀ s, payload ≠ selectFrame s) → o.device = dev) ∧
    o.replies ≠ [] ∧
    ∀ stale' : Bytes, networkPass dev (stale'.write 0 payload) (.ok payload.length) = o := by
  have hstale : ∀ stale' : Bytes, networkPass dev (stale'.write 0 payload) (.ok payload.length) =
      networkPass dev (stale.write 0 payload) (.ok payload.length) := by
    intro stale'
    simp only [networkPass, handleRequest]
    rw [handlePayload_stale payload stale' stale]
  rcases handlePayload_cases payload stale with ⟨t, rfl, -⟩ | ⟨s, rfl, -⟩ | ⟨a, ha, hacts⟩
  · have hns : ∀ s, toggleFrame t ≠ selectFrame s := toggleFrame_ne_selectFrame t
    rw [networkPass_toggleFrame] at hstale ⊢
    refine ⟨?_, ?_, ?_, ?_, ?_, ?_, List.cons_ne_nil _ _, hstale⟩
    · intro t'
      constructor
      · intro h
        rw [(List.cons.inj h).1]
      · intro h
        rw [toggleFrame_inj h]
    · intro h
      exact absurd rfl (h t)
    · intro t' h
      rw [toggleFrame_inj h]
    · constructor
      · intro h
        exact absurd rfl h
      · rintro ⟨s, h⟩
        exact absurd h (hns s)
    · intro s h
      exact absurd h (hns s)
    · intro h
      exact absurd rfl (h t)
  · have hnt : ∀ t, selectFrame s ≠ toggleFrame t := by
      intro t h
      exact toggleFrame_ne_selectFrame t s h.symm
    rw [networkPass_selectFrame] at hstale ⊢
    refine ⟨?_, fun _ => rfl, ?_, ?_, ?_, ?_, List.cons_ne_nil _ _, hstale⟩
    · intro t
      constructor
      · intro h
        exact absurd h (List.cons_ne_nil _ _).symm
      · intro h
        exact absurd h (hnt t)
    · intro t h
      exact absurd h (hnt t)
    · exact ⟨fun _ => ⟨s, rfl⟩, fun _ => List.cons_ne_nil _ _⟩
    · intro s' h
      rw [selectFrame_inj h]
      exact ⟨rfl, rfl⟩
    · intro _ h
      exact absurd rfl (h s)
  · have hnt : ∀ t, payload ≠ toggleFrame t := by
      rintro t rfl
      rw [handlePayload_toggleFrame] at hacts
      cases hacts
    have hns : ∀ s, payload ≠ selectFrame s := by
      rintro s rfl
      rw [handlePayload_selectFrame] at hacts
      cases hacts
    obtain ⟨r, hr⟩ := ha.run dev
    have ho : networkPass dev (stale.write 0 payload) (.ok payload.length) = ⟨[r], [], [], dev⟩ := by
      simp only [networkPass, handleRequest, hacts, List.foldl_cons, List.foldl_nil, hr]
    rw [ho] at hstale ⊢
    refine ⟨?_, fun _ => rfl, ?_, ?_, ?_, fun _ _ => rfl, List.cons_ne_nil _ _, hstale⟩
    · intro t
      constructor
      · intro h
        exact absurd h (List.cons_ne_nil _ _).symm
      · intro h
        exact absurd h (hnt t)
    · intro t h
      exact absurd h (hnt t)
    · constructor
      · intro h
        exact absurd rfl h
      · rintro ⟨s, h⟩
        exact absurd h (hns s)
    · intro s h
      exact absurd h (hns s)

end Pcrb
