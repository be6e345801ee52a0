import Pcrb.Proof.Selection
import Pcrb.Spec.Client

/-!
# A client can tell what was done

`replies_decoded`: what is passed to `send` for a client, read by `replyTable`, is the replies
that the device made. No two of the texts can be mistaken for each other, and the two of a select
request, which run into one, can be told apart.
-/

namespace Pcrb

open Lts

variable {s₀ s : State} {tr : List HostTransition}

theorem readNumber_render (reply : ℕ → Reply) (n : ℕ) :
    readNumber reply (Decimal.render n) = some (.replies [reply n]) := by
  obtain ⟨htake, hdrop⟩ := takeWhile_render n [] (by simp)
  rw [List.append_nil] at htake hdrop
  rw [readNumber, htake, hdrop, if_pos rfl, Decimal.value_render]

theorem readSelections_render (select : UInt32) (actual : UInt8) :
    readSelections (Decimal.render select.toNat ++
      (ascii ", boot select: " ++ Decimal.render actual.toNat)) =
        some (.replies [.bootSelectRequest select, .bootSelect actual]) := by
  -- a comma ends the first number
  obtain ⟨htake, hdrop⟩ := takeWhile_render select.toNat
    (ascii ", boot select: " ++ Decimal.render actual.toNat) (by simp [ascii, Decimal.isDigit])
  obtain ⟨htake', hdrop'⟩ := takeWhile_render actual.toNat [] (by simp)
  rw [List.append_nil] at htake' hdrop'
  rw [readSelections, htake, hdrop, Tagged.strip_append, Option.bind_some, hdrop', if_pos rfl,
    htake', Decimal.value_render, Decimal.value_render, UInt32.ofNat_toNat, UInt8.ofNat_toNat]

/-- No text starts like another one. -/
theorem replyTable_prefixFree : Tagged.PrefixFree (replyTable.map Tagged.Entry.tag) := by
  decide +kernel

theorem decode_row {i : ℕ} (hi : i < replyTable.length) {words : List UInt8}
    {read : List UInt8 → Option Heard} (hrow : replyTable[i] = ⟨words, read⟩) (rest : List UInt8) :
    Tagged.decode replyTable (words ++ rest) = read rest := by
  have h := Tagged.decode_append replyTable_prefixFree (List.getElem_mem hi) rest
  rwa [hrow] at h

/-- A row that reads a number. -/
theorem decode_number {i : ℕ} (hi : i < replyTable.length) {words : List UInt8} {reply : ℕ → Reply}
    (hrow : replyTable[i] = ⟨words, readNumber reply⟩) (n : ℕ) :
    Tagged.decode replyTable (words ++ Decimal.render n) = some (.replies [reply n]) := by
  rw [decode_row hi hrow]
  exact readNumber_render reply n

/-- A reply that a client can get as the only one, other than that its request failed. -/
def Reply.Single : Reply → Prop
  | .bootSelectRequest _ | .failed _ => False
  | _ => True

/-- **One reply is read back.** -/
theorem decode_single (strerror : ℤ → List UInt8) {r : Reply} (hr : r.Single) :
    Tagged.decode replyTable (r.text strerror) = some (.replies [r]) := by
  cases r with
  | bootSelectRequest | failed => exact absurd hr id
  | badRequestSize n => exact decode_number (i := 0) (by decide) rfl n
  | badMagic magic =>
    have h := decode_number (i := 1) (by decide) rfl magic.toNat
    rwa [UInt32.ofNat_toNat] at h
  | badSize n => exact decode_number (i := 2) (by decide) rfl n
  | unknownCommand request =>
    have h := decode_number (i := 3) (by decide) rfl request.toNat
    rwa [UInt32.ofNat_toNat] at h
  | toggle time =>
    have h := decode_number (i := 4) (by decide) rfl time.toNat
    rwa [UInt32.ofNat_toNat] at h
  | bootSelect select =>
    have h := decode_number (i := 6) (by decide) rfl select.toNat
    rwa [UInt8.ofNat_toNat] at h
  | pcState state =>
    have h := decode_row (i := 7) (by decide) rfl (ascii (if state then "true" else "false"))
    cases state with
    | true => exact h
    | false => exact h

/-- **The two replies to a select request** are read back, out of one text. -/
theorem decode_selections (strerror : ℤ → List UInt8) (select : UInt32) (actual : UInt8) :
    Tagged.decode replyTable
        ((Reply.bootSelectRequest select).text strerror ++ (Reply.bootSelect actual).text strerror) =
      some (.replies [.bootSelectRequest select, .bootSelect actual]) := by
  have htext : (Reply.bootSelectRequest select).text strerror ++
      (Reply.bootSelect actual).text strerror =
        ascii "Received boot select request " ++ (Decimal.render select.toNat ++
          (ascii ", boot select: " ++ Decimal.render actual.toNat)) := by
    have hjoin : ascii ", boot select: " = ascii ", " ++ ascii "boot select: " := by decide
    simp only [Reply.text, hjoin, List.append_assoc]
  rw [htext]
  rw [decode_row (i := 5) (by decide) rfl]
  exact readSelections_render select actual

theorem decode_failed (strerror : ℤ → List UInt8) (errno : ℤ) :
    Tagged.decode replyTable ((Reply.failed errno).text strerror) =
      some (.failed (if errno = EAGAIN then ascii "timeout" else strerror errno)) :=
  decode_row (i := 8) (by decide) rfl _

/-! ### What makes up an answer -/

/-- **The shapes of an answer.** -/
theorem answers_cases (payload : List UInt8) :
    (∃ r : Reply, r.Single ∧ answers payload = [.reply r]) ∨
    (∃ t, answers payload = [.reply (.toggle t), .offer t]) ∨
    answers payload = [.bootSelect] ∨
    (∃ select, answers payload = [.reply (.bootSelectRequest select), .bootSelect]) ∨
    answers payload = [.pcState] := by
  unfold answers
  by_cases h8 : payload.length < 8
  · rw [if_pos h8]
    exact Or.inl ⟨.badRequestSize _, trivial, rfl⟩
  rw [if_neg h8]
  by_cases hmagic : word payload 0 = requestMagic
  · rw [if_neg (not_not.2 hmagic)]
    cases htable : commandTable (word payload 8) (word payload 4) with
    | none => exact Or.inl ⟨.unknownCommand _, trivial, rfl⟩
    | some row =>
      obtain ⟨size, as⟩ := row
      dsimp only
      by_cases hsize : payload.length = size
      · rw [if_pos hsize]
        unfold commandTable at htable
        split_ifs at htable <;> obtain ⟨-, rfl⟩ := Prod.mk.inj (Option.some.inj htable)
        · exact Or.inr (Or.inl ⟨_, rfl⟩)
        · exact Or.inr (Or.inr (Or.inl rfl))
        · exact Or.inr (Or.inr (Or.inr (Or.inl ⟨_, rfl⟩)))
        · exact Or.inr (Or.inr (Or.inr (Or.inr rfl)))
      · rw [if_neg hsize]
        exact Or.inl ⟨.badSize _, trivial, rfl⟩
  · rw [if_pos hmagic]
    exact Or.inl ⟨.badMagic _, trivial, rfl⟩

/-- An answer of one reply, and what came of it. -/
theorem outputs_singleton {a : Answer} {outputs : List Output}
    (h : List.Forall₂ Answer.Matches [a] outputs) : ∃ o, outputs = [o] ∧ a.Matches o := by
  cases h with
  | cons hmatch hrest =>
    cases hrest
    exact ⟨_, rfl, hmatch⟩

theorem outputs_pair {a b : Answer} {outputs : List Output}
    (h : List.Forall₂ Answer.Matches [a, b] outputs) :
    ∃ o o', outputs = [o, o'] ∧ a.Matches o ∧ b.Matches o' := by
  cases h with
  | cons hmatch hrest =>
    obtain ⟨o', rfl, hmatch'⟩ := outputs_singleton hrest
    exact ⟨_, o', rfl, hmatch, hmatch'⟩

/-- **A client that has been answered** can read what it is told. -/
theorem decode_answered (strerror : ℤ → List UInt8) {c : Connection} (h : c.Answered)
    (hne : c.outputs ≠ []) :
    Tagged.decode replyTable (c.text strerror) = some (c.heard strerror) := by
  obtain ⟨bytes, error, outputs⟩ := c
  unfold Connection.Answered Connection.answers at h
  cases error with
  | some errno =>
    obtain ⟨o, rfl, hmatch⟩ := outputs_singleton h
    cases hmatch
    simp only [Connection.text, Connection.replies, Connection.heard, List.filterMap_cons,
      List.filterMap_nil, List.flatMap_cons, List.flatMap_nil, List.append_nil]
    exact decode_failed strerror errno
  | none =>
    dsimp only at h hne
    cases hframe : framePayload bytes with
    | none =>
      rw [hframe] at h
      cases h
      exact absurd rfl hne
    | some payload =>
      rw [hframe] at h
      dsimp only at h
      rcases answers_cases payload with ⟨r, hr, ha⟩ | ⟨t, ha⟩ | ha | ⟨select, ha⟩ | ha <;>
        rw [ha] at h
      · obtain ⟨o, rfl, hmatch⟩ := outputs_singleton h
        cases hmatch
        simpa [Connection.text, Connection.replies, Connection.heard] using decode_single strerror hr
      · obtain ⟨o, o', rfl, hmatch, hmatch'⟩ := outputs_pair h
        cases hmatch
        cases hmatch'
        simpa [Connection.text, Connection.replies, Connection.heard] using
          decode_single strerror (r := .toggle t) trivial
      · obtain ⟨o, rfl, hmatch⟩ := outputs_singleton h
        cases hmatch
        simpa [Connection.text, Connection.replies, Connection.heard] using
          decode_single strerror (r := .bootSelect _) trivial
      · obtain ⟨o, o', rfl, hmatch, hmatch'⟩ := outputs_pair h
        cases hmatch
        cases hmatch'
        simpa [Connection.text, Connection.replies, Connection.heard] using
          decode_selections strerror select _
      · obtain ⟨o, rfl, hmatch⟩ := outputs_singleton h
        cases hmatch
        simpa [Connection.text, Connection.replies, Connection.heard] using
          decode_single strerror (r := .pcState _) trivial

/-- **A client can tell what was done**, if nothing is lost on the way. Whatever the clients send,
in whatever order the tasks step, with a host whose transfers stay inside a block: when
`network_task` is back at `accept`, the text that it has passed to `send` for the last client is
read, by how the texts start, as the replies that the device made, or as the failure of the
request and its reason. -/
theorem replies_decoded (strerror : ℤ → List UInt8) (h0 : hosted.init s₀)
    (hrun : hosted.Run s₀ tr s) (hpc : s.network = .accept)
    (hne : (connection (history tr)).outputs ≠ []) :
    Tagged.decode replyTable ((connection (history tr)).text strerror) =
      some ((connection (history tr)).heard strerror) := by
  have hprogress := progress_run h0 hrun
  rw [hpc] at hprogress
  exact decode_answered strerror hprogress hne

/-- A client selects 7, and reads two replies in one text. -/
theorem replies_decoded_seven : ∃ s₀ tr s, hosted.init s₀ ∧ hosted.Run s₀ tr s ∧
    (connection (history tr)).text (fun _ => []) =
      ascii "Received boot select request 7, boot select: 7" ∧
    Tagged.decode replyTable ((connection (history tr)).text fun _ => []) =
      some ((connection (history tr)).heard fun _ => []) := by
  obtain ⟨tr, s, hrun, hq⟩ := System.exists_run (M := hosted)
    (Q := fun tr s => s.network.accepting && decide ((connection (history tr)).outputs ≠ [] ∧
      (connection (history tr)).text (fun _ => []) =
        ascii "Received boot select request 7, boot select: 7"))
    (State.boot (blockData fun _ => 0)) ((startUp ++ networkSelect 7).map .task) (by decide +kernel)
  obtain ⟨haccept, hq⟩ := Bool.and_eq_true_iff.1 hq
  obtain ⟨hne, htext⟩ := of_decide_eq_true hq
  exact ⟨_, tr, s, ⟨_, rfl⟩, hrun, htext,
    replies_decoded _ ⟨_, rfl⟩ hrun (NetworkPc.eq_accept haccept) hne⟩

end Pcrb
