import Pcrb.Proof.Handle
import Pcrb.Proof.Pulses
import Pcrb.Spec.Button

/-!
# The firmware refines the button

`mem_traces_button_iff` says what the traces of the button are. `firmware_simulates` and
`button_simulates` are simulations between the firmware, in runs with one queue, and the
button; `firmware_traces` puts the three together.
-/

namespace Pcrb

open Lts

/-! ### The button alone -/

section Button

variable {q q' : Fifo UInt32 2} {hist w : List ButtonEvent} {e : ButtonEvent}

theorem pendingAfter_eq (h : hist.filterMap ButtonEvent.taken =
    hist.filterMap ButtonEvent.pressed ++ q.items) : pendingAfter hist = q.items := by
  rw [pendingAfter, h, List.drop_left]

theorem button_step (hs : buttonStep q e = some q') : button.step q e = some (q', [e]) :=
  Option.map_eq_some_iff.2 ⟨q', hs, rfl⟩

/-- **The button allows an event** exactly if the events before it do. -/
theorem buttonStep_iff (h : hist.filterMap ButtonEvent.taken =
    hist.filterMap ButtonEvent.pressed ++ q.items) :
    (∃ q', buttonStep q e = some q') ↔ Allowed hist e := by
  have hp := pendingAfter_eq h
  have hbound := q.bound
  cases e with
  | request by_ time ok =>
    cases ok with
    | true =>
      rw [Allowed, hp, buttonStep]
      by_cases hc : MayRequest time by_ ∧ ¬ q.Full
      · rw [if_pos hc]
        have hlt := Fifo.full_iff.not.1 hc.2
        exact iff_of_true ⟨_, rfl⟩ ⟨hc.1, by omega⟩
      · rw [if_neg hc]
        refine iff_of_false (by simp) fun ha => hc ⟨ha.1, ?_⟩
        rw [Fifo.full_iff]
        exact not_not.2 ha.2
    | false =>
      rw [Allowed, hp, buttonStep, List.length_pos_iff]
      by_cases hc : MayRequest time by_ ∧ q.items ≠ []
      · rw [if_pos hc]
        exact iff_of_true ⟨_, rfl⟩ hc
      · rw [if_neg hc]
        exact iff_of_false (by simp) hc
  | press time =>
    rw [Allowed, hp, buttonStep]
    cases hr : q.receive with
    | none =>
      have hnil : q.items = [] := Fifo.receive_eq_none_iff.1 hr
      rw [hnil]
      exact iff_of_false (by simp) (by simp)
    | some r =>
      obtain ⟨first, rest⟩ := r
      rw [Fifo.receive_items hr]
      by_cases hf : first = time
      · subst hf
        exact iff_of_true ⟨rest, by simp⟩ rfl
      · refine iff_of_false (by simp [hf]) fun ha => hf ?_
        exact Option.some.inj ha

/-- What the button holds after an event. -/
theorem buttonStep_split (hs : buttonStep q e = some q') :
    q.items ++ [e].filterMap ButtonEvent.taken =
      [e].filterMap ButtonEvent.pressed ++ q'.items := by
  cases e with
  | request by_ time ok =>
    cases ok with
    | true =>
      simp only [buttonStep, Option.ite_none_right_eq_some, Option.some.injEq] at hs
      obtain ⟨⟨-, hfull⟩, rfl⟩ := hs
      have hok : (q.send time).2 = true := by
        rw [← Bool.not_eq_false, Fifo.send_eq_false_iff]
        exact hfull
      rw [Fifo.send_items, hok]
      rfl
    | false =>
      simp only [buttonStep, Option.ite_none_right_eq_some, Option.some.injEq] at hs
      obtain ⟨-, rfl⟩ := hs
      simp [List.filterMap_cons]
  | press time =>
    simp only [buttonStep] at hs
    cases hr : q.receive with
    | none => simp [hr] at hs
    | some r =>
      obtain ⟨first, rest⟩ := r
      simp only [hr, Option.ite_none_right_eq_some, Option.some.injEq] at hs
      obtain ⟨rfl, rfl⟩ := hs
      simp [List.filterMap_cons, Fifo.receive_items hr]

/-- A request that is taken is the last one pending then. -/
theorem buttonStep_taken {τ : Task} {t : UInt32} (hmay : MayRequest t τ)
    (hq : q'.items = q.items ++ [t]) : buttonStep q (.request τ t true) = some q' := by
  have hbound := q'.bound
  rw [hq, List.length_append, List.length_singleton] at hbound
  have hfull : ¬ q.Full := by
    rw [Fifo.full_iff]
    omega
  have hok : (q.send t).2 = true := by
    rw [← Bool.not_eq_false, Fifo.send_eq_false_iff]
    exact hfull
  rw [buttonStep, if_pos ⟨hmay, hfull⟩, Option.some.injEq]
  apply Fifo.ext
  rw [hq, Fifo.send_items, hok]
  rfl

/-- A press is for the first request pending. -/
theorem buttonStep_press {t : UInt32} (hq : q.items = t :: q'.items) :
    buttonStep q (.press t) = some q' := by
  obtain ⟨rest, hr, hrest⟩ := Fifo.exists_receive hq
  rw [buttonStep, hr, Fifo.ext hrest]
  exact if_pos rfl

/-- What the button holds after a run, and that it allowed every event of it. -/
theorem button_run {q₀ : Fifo UInt32 2}
    {tr : List (Transition (Fifo UInt32 2) ButtonEvent ButtonEvent)} (h0 : button.init q₀)
    (hrun : button.Run q₀ tr q) :
    (history tr).filterMap ButtonEvent.taken =
        (history tr).filterMap ButtonEvent.pressed ++ q.items ∧ Each Allowed (history tr) := by
  obtain rfl : q₀ = Fifo.empty := h0
  refine hrun.invariant' (P := fun q hist => hist.filterMap ButtonEvent.taken =
    hist.filterMap ButtonEvent.pressed ++ q.items ∧ Each Allowed hist) ⟨rfl, each_nil⟩ ?_
  rintro q e q' es hist ⟨hsplit, hall⟩ hs
  obtain ⟨q₁, hq, he⟩ := Option.map_eq_some_iff.1 hs
  obtain ⟨rfl, rfl⟩ := Prod.mk.inj he
  constructor
  · rw [List.filterMap_append, List.filterMap_append, hsplit, List.append_assoc,
      buttonStep_split hq, List.append_assoc]
  · exact each_concat.2 ⟨hall, (buttonStep_iff hsplit).1 ⟨_, hq⟩⟩

/-- **The traces of the button**: every event is allowed by those before it. -/
theorem mem_traces_button_iff :
    w ∈ button.traces (fun _ _ => True) some ↔ Each Allowed w := by
  constructor
  · rintro ⟨q₀, tr, q, h0, hrun, -, rfl⟩
    rw [trace, List.filterMap_some]
    exact (button_run h0 hrun).2
  · intro hall
    -- one more event is one more step, from where the run so far ended
    have hrun : ∃ tr q, button.Run Fifo.empty tr q ∧ history tr = w := by
      induction w using List.reverseRecOn with
      | nil => exact ⟨[], _, .nil, rfl⟩
      | append_singleton w e ih =>
        obtain ⟨hw, he⟩ := each_concat.1 hall
        obtain ⟨tr, q, hrun, rfl⟩ := ih hw
        obtain ⟨q', hq⟩ := (buttonStep_iff (button_run rfl hrun).1).2 he
        exact ⟨_, q', hrun.snoc (button_step hq), by rw [history_append, history_singleton]⟩
    obtain ⟨tr, q, hrun, rfl⟩ := hrun
    exact ⟨_, tr, q, rfl, hrun, fun _ _ => trivial, List.filterMap_some⟩

end Button

/-! ### The firmware is a button -/

/-- What a user of the button sees of an event. -/
def Event.button : Event → Option ButtonEvent
  | .sent τ _ t ok => some (.request τ t ok)
  | .pulse t => some (.press t)
  | _ => none

theorem SwitchPc.inHand_le (pc : SwitchPc) : pc.inHand.length ≤ 1 := by
  cases pc <;> simp [SwitchPc.inHand]

theorem SwitchQueue.contents_le (c : SwitchQueue) (h : ℕ) : (c.contents h).length ≤ 1 := by
  unfold SwitchQueue.contents
  cases hq : c.queues[h]? with
  | none => simp
  | some q => exact q.bound

/-- A send succeeds only on an empty queue. -/
theorem SwitchQueue.contents_of_send_ok {c c' : SwitchQueue} {h : ℕ} {t : UInt32}
    (hs : c.xQueueSendToBack h t = some (c', true)) : c.contents h = [] := by
  have hsend := SwitchQueue.contents_send hs h
  have hle := c'.contents_le h
  rw [hsend] at hle
  simp only [and_self, if_true, List.length_append, List.length_singleton] at hle
  exact List.length_eq_zero_iff.1 (by omega)

/-- The requests pending: the one `switch_task` has in hand, and the one in the queue. -/
def State.pending (s : State) : Fifo UInt32 2 :=
  ⟨s.switch.inHand ++ s.comms.contents 0, by
    have h1 := s.switch.inHand_le
    have h2 := s.comms.contents_le 0
    rw [List.length_append]
    omega⟩

/-- **The invariant** of the runs with one queue: its handle is the only one about, and
`cli_task` is not going to send 0. -/
structure ButtonInv (s : State) : Prop where
  queue : OneQueue s
  handles : ∃ hist, HandlesGot s hist ∧ OneHandle 0 hist
  cli : ∀ t, s.cli.Wants t → t ≠ 0

variable {s s' : State} {es : List Event} {l : Label}

theorem boot_buttonInv (ram : Bytes) : ButtonInv (State.boot ram) where
  queue := boot_oneQueue ram
  handles := ⟨[], ⟨nofun, nofun, nofun, nofun⟩, nofun⟩
  cli := nofun

/-- What `cli_task` is going to send it was going to send, or has just read. -/
theorem cliStep_wants {line : List UInt8} {t : UInt32} (hc : CliStep s line s' es)
    (ht : s'.cli.Wants t) : s.cli.Wants t ∨ ToggleLine line t := by
  cases hc with
  | line _ => exact Or.inr (wants_of_command ht)
  | print _ => exact absurd ht id
  | format hpc _ | store hpc | use hpc =>
    left
    rw [hpc]
    exact List.mem_cons_of_mem _ ht
  | toggle hpc =>
    left
    rw [hpc]
    rcases ht with rfl | ht
    · exact List.mem_cons_self
    · exact List.mem_cons_of_mem _ ht
  | getNext hpc _ | getReturned hpc _ =>
    left
    rw [hpc]
    exact ht
  | send hpc _ =>
    left
    rw [hpc]
    exact Or.inr ht

theorem buttonInv_step (hat : GetAtomic s l) (h : ButtonInv s)
    (hs : firmware.step s l = some (s', es)) : ButtonInv s' := by
  have he := getEffect_of_step hs
  obtain ⟨hist, hg, hone⟩ := h.handles
  refine ⟨h.queue.step he hat, ⟨hist ++ es, handlesGot_step hg hs, ?_⟩, ?_⟩
  · intro σ q hmem
    rcases List.mem_append.1 hmem with hmem | hmem
    · exact hone σ q hmem
    · exact h.queue.got he σ q hmem
  · intro t ht
    rcases step_cases hs with hb | ⟨line, -, hc⟩ | ⟨-, hw⟩ | ⟨input, -, hn⟩
    · rw [hb.cli] at ht
      exact h.cli t ht
    · rcases cliStep_wants hc ht with ht | ht
      · exact h.cli t ht
      · exact ht.2.2
    · cases hw <;> exact h.cli t ht
    · cases hn <;> exact h.cli t ht

/-- The handle of a send or a receive is that of the one queue. -/
theorem ButtonInv.handle_eq (h : ButtonInv s) (hs : firmware.step s l = some (s', es)) {e : Event}
    (he : e ∈ es) {q : ℕ} (hq : e.handle = some q) : q = 0 := by
  obtain ⟨hist, hg, hone⟩ := h.handles
  obtain ⟨σ, hσ⟩ := (handlesGot_step hg hs).events e (List.mem_append_right _ he) q hq
  rcases List.mem_append.1 hσ with hσ | hσ
  · exact Option.some.inj (hone σ _ hσ)
  · exact Option.some.inj (h.queue.got (getEffect_of_step hs) σ _ hσ)

/-- What a step shows of the button: nothing, a request or a press. -/
inductive ButtonStep (s : State) : List Event → Prop
  | none {fs} : fs.filterMap Event.button = [] → fs.filterMap (Event.sentTo 0) = [] →
      fs.filterMap Event.pulsed = [] → ButtonStep s fs
  | request {τ t ok} : MayRequest t τ → (s.comms.contents 0 = [] ↔ ok = true) →
      ButtonStep s [.sent τ 0 t ok]
  | press {t} : ButtonStep s [.pulse t]

theorem ButtonStep.sent {τ : Task} {t : UInt32} {ok : Bool} {c : SwitchQueue}
    (hmay : MayRequest t τ) (hsend : s.comms.xQueueSendToBack 0 t = some (c, ok)) :
    ButtonStep s [.sent τ 0 t ok] := by
  refine .request hmay ?_
  cases ok with
  | true => exact iff_of_true (SwitchQueue.contents_of_send_ok hsend) rfl
  | false =>
    have hlen := SwitchQueue.contents_of_send_failed hsend
    refine iff_of_false (fun hnil => ?_) nofun
    rw [hnil] at hlen
    cases hlen

theorem ButtonInv.buttonStep (h : ButtonInv s) (hs : firmware.step s l = some (s', es)) :
    ButtonStep s es := by
  rcases step_cases hs with hb | ⟨line, -, hc⟩ | ⟨-, hw⟩ | ⟨input, -, hn⟩
  · exact .none (hb.filterMap fun _ => rfl) (hb.filterMap fun _ => rfl)
      (hb.filterMap fun _ => rfl)
  · cases hc with
    | send hpc hsend =>
      obtain rfl := h.handle_eq hs (List.mem_singleton_self _) rfl
      refine .sent (h.cli _ ?_) hsend
      rw [hpc]
      exact Or.inl rfl
    | _ => exact .none rfl rfl rfl
  · cases hw with
    | setHigh hpc => exact .press
    | _ => exact .none rfl rfl rfl
  · cases hn with
    | send hpc hsend =>
      obtain rfl := h.handle_eq hs (List.mem_singleton_self _) rfl
      exact .sent trivial hsend
    | act =>
      exact .none (filterMap_actionEvents_nil (fun _ => rfl) (fun _ => rfl) _)
        (filterMap_actionEvents_nil (fun _ => rfl) (fun _ => rfl) _)
        (filterMap_actionEvents_nil (fun _ => rfl) (fun _ => rfl) _)
    | _ => exact .none rfl rfl rfl

/-- **What is pending** changes by what goes into the queue and by what is pressed. -/
theorem ButtonInv.pending_step (h : ButtonInv s) (hs : firmware.step s l = some (s', es)) :
    s.pending.items ++ es.filterMap (Event.sentTo 0) =
      es.filterMap Event.pulsed ++ s'.pending.items := by
  have hreceived : es.filterMap Event.taken = es.filterMap (Event.receivedFrom 0) := by
    apply List.filterMap_congr
    intro e he
    cases e with
    | received q t =>
      obtain rfl := h.handle_eq hs he rfl
      simp
    | _ => rfl
  have hcontents := contents_step 0 hs
  have hhand := inHand_step hs
  change (s.switch.inHand ++ s.comms.contents 0) ++ _ = _ ++ (s'.switch.inHand ++ _)
  rw [List.append_assoc, hcontents, ← hreceived, ← List.append_assoc, hhand, List.append_assoc]

/-- **The firmware is a button**, as long as it has one queue. -/
theorem firmware_simulates : Simulation firmware GetAtomic Event.button button (fun _ _ => True)
    some fun s q => ButtonInv s ∧ q = s.pending where
  init := by
    rintro s ⟨after, rfl⟩
    exact ⟨Fifo.empty, [], Fifo.empty, rfl, .nil, by simp, rfl, boot_buttonInv _, Fifo.ext rfl⟩
  step := by
    rintro s l s' es _ hat ⟨h, rfl⟩ hs
    have hinv := buttonInv_step hat h hs
    have hpending := h.pending_step hs
    cases h.buttonStep hs with
    | none hsee hin hout =>
      rw [hin, hout, List.append_nil, List.nil_append] at hpending
      exact ⟨[], s.pending, .nil, by simp, by simp [hsee], hinv, Fifo.ext hpending⟩
    | @request τ t ok hmay hok =>
      have hstep : buttonStep s.pending (.request τ t ok) = some s'.pending := by
        cases ok with
        | true =>
          simp only [Event.sentTo, Event.pulsed, List.filterMap_cons, List.filterMap_nil, if_true,
            List.nil_append] at hpending
          exact buttonStep_taken hmay hpending.symm
        | false =>
          simp only [Event.sentTo, Event.pulsed, List.filterMap_cons, List.filterMap_nil,
            List.append_nil, List.nil_append] at hpending
          have hne : s.pending.items ≠ [] := by
            intro hnil
            exact absurd (hok.1 (List.append_eq_nil_iff.1 hnil).2) Bool.false_ne_true
          rw [buttonStep, if_pos ⟨hmay, hne⟩, Fifo.ext hpending]
      exact ⟨_, _, System.Run.nil.snoc (button_step hstep), fun _ _ => trivial,
        by simp [Event.button], hinv, rfl⟩
    | @press t =>
      have hstep : buttonStep s.pending (.press t) = some s'.pending := by
        simp only [Event.sentTo, Event.pulsed, List.filterMap_cons, List.filterMap_nil,
          List.append_nil] at hpending
        exact buttonStep_press hpending
      exact ⟨_, _, System.Run.nil.snoc (button_step hstep), fun _ _ => trivial,
        by simp [Event.button], hinv, rfl⟩

end Pcrb
