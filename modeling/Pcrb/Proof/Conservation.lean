import Pcrb.Proof.Steps

/-!
# The queue loses and invents nothing

Two conservation laws, each of one step and then of a run. What goes into a queue comes
out in the same order, or is still there (`contents_run`); what `switch_task` takes it
makes a pulse of, or still has in hand (`inHand_run`). If all tasks work with one handle,
which is then the handle of every send and receive (`handle_run`), the two add up:
`pulses_run`.
-/

namespace Pcrb

open Lts

namespace Event

/-- A value that went into the queue `h`. -/
@[simp] def sentTo (h : ℕ) : Event → Option UInt32
  | .sent _ h' t true => if h' = h then some t else none
  | _ => none

/-- A value that was taken from the queue `h`. -/
@[simp] def receivedFrom (h : ℕ) : Event → Option UInt32
  | .received h' t => if h' = h then some t else none
  | _ => none

/-- A value that went into any queue. -/
@[simp] def sentOk : Event → Option UInt32
  | .sent _ _ t true => some t
  | _ => none

/-- A value that `switch_task` took. -/
@[simp] def taken : Event → Option UInt32
  | .received _ t => some t
  | _ => none

/-- The duration of a pulse, as it begins. -/
@[simp] def pulsed : Event → Option UInt32
  | .pulse t => some t
  | _ => none

/-- The queue an event is about. -/
def handle : Event → Option ℕ
  | .sent _ h _ _ => some h
  | .received h _ => some h
  | _ => none

end Event

/-- The value `switch_task` has taken and not yet begun to press for. -/
def SwitchPc.inHand : SwitchPc → List UInt32
  | .ledOn t => [t]
  | .setHigh t => [t]
  | _ => []

variable {s₀ s s' : State} {es : List Event} {l : Label} {tr : List (Transition State Label Event)}

section Filter

variable {α : Type*} {f : Event → Option α}

theorem Background.filterMap (h : Background s s' es) (hf : ∀ r, f (.use r) = none) :
    es.filterMap f = [] := by
  rw [List.filterMap_eq_nil_iff]
  intro e he
  obtain ⟨r, rfl⟩ := h.events e he
  exact hf r

/-- The events of an action are its replies, between uses of the socket. -/
theorem filterMap_actionEvents (hf : ∀ r, f (.use r) = none) (a : Action) :
    (actionEvents s a).filterMap f =
      (a.replies s.ram s.pcState).filterMap fun reply => f (.reply reply) := by
  unfold actionEvents
  induction a.replies s.ram s.pcState with
  | nil => rfl
  | cons reply rest ih =>
    rw [List.flatMap_cons, List.filterMap_append, ih, List.filterMap_cons]
    cases h : f (.reply reply) <;> simp [hf, h]

theorem filterMap_actionEvents_nil (hf : ∀ r, f (.use r) = none) (hr : ∀ r, f (.reply r) = none)
    (a : Action) : (actionEvents s a).filterMap f = [] := by
  rw [filterMap_actionEvents hf, List.filterMap_eq_nil_iff]
  intro r _
  exact hr r

end Filter

theorem contents_of_get {c c' : SwitchQueue} {pc : GetPc} {r : GetResult} (hg : c.get pc = (c', r))
    (h : ℕ) : c'.contents h = c.contents h := by
  have := SwitchQueue.contents_get c pc h
  rwa [hg] at this

theorem contents_sent {c c' : SwitchQueue} {q : ℕ} {t : UInt32} {ok : Bool} (τ : Task)
    (hsend : c.xQueueSendToBack q t = some (c', ok)) (h : ℕ) :
    c.contents h ++ [Event.sent τ q t ok].filterMap (Event.sentTo h) = c'.contents h := by
  rw [SwitchQueue.contents_send hsend]
  -- a send to another queue, or one that fails, changes nothing on either side
  rcases eq_or_ne h q with rfl | hq
  · cases ok <;> simp [List.filterMap_cons]
  · cases ok <;> simp [List.filterMap_cons, hq, hq.symm]

theorem contents_received {c c' : SwitchQueue} {q : ℕ} {t : UInt32}
    (hreceive : c.xQueueReceive q = some (t, c')) (h : ℕ) :
    c.contents h = [Event.received q t].filterMap (Event.receivedFrom h) ++ c'.contents h := by
  rw [SwitchQueue.contents_receive hreceive]
  rcases eq_or_ne h q with rfl | hq
  · simp
  · simp [hq, hq.symm]

/-- **One step conserves a queue.** -/
theorem contents_step (h : ℕ) (hs : firmware.step s l = some (s', es)) :
    s.comms.contents h ++ es.filterMap (Event.sentTo h) =
      es.filterMap (Event.receivedFrom h) ++ s'.comms.contents h := by
  rcases step_cases hs with hb | ⟨line, -, hc⟩ | ⟨-, hw⟩ | ⟨input, -, hn⟩
  · rw [hb.comms, hb.filterMap fun _ => rfl, hb.filterMap fun _ => rfl, List.append_nil,
      List.nil_append]
  · cases hc with
    | getNext _ hget | getReturned _ hget =>
      simp [List.filterMap_cons, contents_of_get hget]
    | send _ hsend => rw [contents_sent _ hsend]; simp [List.filterMap_cons]
    | _ => simp [List.filterMap_cons]
  · cases hw with
    | getNext _ hget | getReturned _ hget =>
      simp [List.filterMap_cons, contents_of_get hget]
    | receive _ hreceive => rw [contents_received hreceive]; simp [List.filterMap_cons]
    | _ => simp [List.filterMap_cons, State.setPin]
  · cases hn with
    | getNext _ hget | getReturned _ hget =>
      simp [List.filterMap_cons, contents_of_get hget]
    | send _ hsend => rw [contents_sent _ hsend]; simp [List.filterMap_cons]
    | act =>
      rw [filterMap_actionEvents_nil (fun _ => rfl) (fun _ => rfl),
        filterMap_actionEvents_nil (fun _ => rfl) (fun _ => rfl), List.append_nil, List.nil_append]
    | _ => simp [List.filterMap_cons]

/-- **One step conserves what `switch_task` has in hand.** -/
theorem inHand_step (hs : firmware.step s l = some (s', es)) :
    s.switch.inHand ++ es.filterMap Event.taken =
      es.filterMap Event.pulsed ++ s'.switch.inHand := by
  rcases step_cases hs with hb | ⟨line, -, hc⟩ | ⟨-, hw⟩ | ⟨input, -, hn⟩
  · rw [hb.switch, hb.filterMap fun _ => rfl, hb.filterMap fun _ => rfl, List.append_nil,
      List.nil_append]
  · cases hc <;> simp [List.filterMap_cons]
  · cases hw with
    | receive hpc _ | ledOn hpc | setHigh hpc | ctorNext hpc _ | ctorDone hpc _ | getNext hpc _
    | getReturned hpc _ | delay hpc | ledOff hpc | setLow hpc =>
      simp [List.filterMap_cons, SwitchPc.inHand, hpc]
  · cases hn with
    | act =>
      rw [filterMap_actionEvents_nil (fun _ => rfl) (fun _ => rfl),
        filterMap_actionEvents_nil (fun _ => rfl) (fun _ => rfl), List.append_nil, List.nil_append]
    | _ => simp [List.filterMap_cons]

/-! ### Over a run -/

theorem contents_run (h0 : firmware.init s₀) (hrun : firmware.Run s₀ tr s) (h : ℕ) :
    (history tr).filterMap (Event.sentTo h) =
      (history tr).filterMap (Event.receivedFrom h) ++ s.comms.contents h := by
  obtain ⟨after, rfl⟩ := h0
  have hb := hrun.balance (fun s => s.comms.contents h) fun _ _ _ _ => contents_step h
  simpa [State.boot, SwitchQueue.initial, SwitchQueue.contents] using hb

theorem inHand_run (h0 : firmware.init s₀) (hrun : firmware.Run s₀ tr s) :
    (history tr).filterMap Event.taken =
      (history tr).filterMap Event.pulsed ++ s.switch.inHand := by
  obtain ⟨after, rfl⟩ := h0
  have hb := hrun.balance (fun s => s.switch.inHand) fun _ _ _ _ => inHand_step
  simpa [State.boot, SwitchPc.inHand] using hb

/-! ### With one handle -/

/-- Every call of `get` returned the handle `h`. -/
def OneHandle (h : ℕ) (hist : List Event) : Prop := ∀ τ h', .got τ h' ∈ hist → h' = some h

instance (h : ℕ) (hist : List Event) : Decidable (OneHandle h hist) :=
  decidable_of_iff (hist.all fun | .got _ h' => h' == some h | _ => true) <| by
    rw [List.all_eq_true]
    constructor
    · intro hall τ h' hmem
      simpa using hall _ hmem
    · intro hone e he
      cases e with
      | got τ h' => simpa using hone τ h' he
      | _ => rfl

/-- The handle a task has got and not yet used, or blocks on. -/
def CliPc.holds : CliPc → Option ℕ
  | .send h _ _ => h
  | _ => none

def SwitchPc.holds : SwitchPc → Option ℕ
  | .receive h => h
  | _ => none

def NetworkPc.holds : NetworkPc → Option ℕ
  | .send h _ _ => h
  | _ => none

/-- Every handle at work has come out of some call of `get`. -/
structure HandlesGot (s : State) (hist : List Event) : Prop where
  cli : ∀ h, s.cli.holds = some h → ∃ τ, .got τ (some h) ∈ hist
  switch : ∀ h, s.switch.holds = some h → ∃ τ, .got τ (some h) ∈ hist
  network : ∀ h, s.network.holds = some h → ∃ τ, .got τ (some h) ∈ hist
  events : ∀ e ∈ hist, ∀ h, e.handle = some h → ∃ τ, .got τ (some h) ∈ hist

/-- What a task holds after a step it held before, or got in the step, or it is nothing. -/
theorem HandlesGot.snoc {hist : List Event} (hg : HandlesGot s hist)
    (hcli : s'.cli.holds = s.cli.holds ∨ s'.cli.holds = none ∨ .got .cli s'.cli.holds ∈ es)
    (hswitch : s'.switch.holds = s.switch.holds ∨ s'.switch.holds = none ∨
      .got .switch s'.switch.holds ∈ es)
    (hnetwork : s'.network.holds = s.network.holds ∨ s'.network.holds = none ∨
      .got .network s'.network.holds ∈ es)
    (hes : ∀ e ∈ es, ∀ h, e.handle = some h →
      s.cli.holds = some h ∨ s.switch.holds = some h ∨ s.network.holds = some h) :
    HandlesGot s' (hist ++ es) := by
  have old : ∀ {h}, (∃ τ, .got τ (some h) ∈ hist) → ∃ τ, .got τ (some h) ∈ hist ++ es := by
    rintro h ⟨τ, hτ⟩
    exact ⟨τ, List.mem_append_left _ hτ⟩
  constructor
  · intro h hh
    rcases hcli with heq | hnone | hnew
    · exact old (hg.cli h (heq ▸ hh))
    · rw [hnone] at hh
      cases hh
    · exact ⟨.cli, List.mem_append_right _ (hh ▸ hnew)⟩
  · intro h hh
    rcases hswitch with heq | hnone | hnew
    · exact old (hg.switch h (heq ▸ hh))
    · rw [hnone] at hh
      cases hh
    · exact ⟨.switch, List.mem_append_right _ (hh ▸ hnew)⟩
  · intro h hh
    rcases hnetwork with heq | hnone | hnew
    · exact old (hg.network h (heq ▸ hh))
    · rw [hnone] at hh
      cases hh
    · exact ⟨.network, List.mem_append_right _ (hh ▸ hnew)⟩
  · intro e he h hh
    rcases List.mem_append.1 he with he | he
    · exact old (hg.events e he h hh)
    · -- a new event is about a handle that some task held before
      rcases hes e he h hh with hc | hs | hn
      · exact old (hg.cli h hc)
      · exact old (hg.switch h hs)
      · exact old (hg.network h hn)

theorem handlesGot_step {hist : List Event} (hg : HandlesGot s hist)
    (hs : firmware.step s l = some (s', es)) : HandlesGot s' (hist ++ es) := by
  rcases step_cases hs with hb | ⟨line, -, hc⟩ | ⟨-, hw⟩ | ⟨input, -, hn⟩
  · refine hg.snoc (Or.inl (by rw [hb.cli])) (Or.inl (by rw [hb.switch]))
      (Or.inl (by rw [hb.network])) fun e he h hh => ?_
    obtain ⟨r, rfl⟩ := hb.events e he
    cases hh
  · cases hc with
    | getReturned =>
      refine hg.snoc (Or.inr (Or.inr ?_)) (Or.inl rfl) (Or.inl rfl) (by simp [Event.handle])
      exact List.mem_singleton_self _
    | send hpc _ =>
      exact hg.snoc (Or.inr (Or.inl rfl)) (Or.inl rfl) (Or.inl rfl)
        (by simp [Event.handle, hpc, CliPc.holds])
    | _ =>
      exact hg.snoc (Or.inr (Or.inl rfl)) (Or.inl rfl) (Or.inl rfl) (by simp [Event.handle])
  · cases hw with
    | getReturned =>
      refine hg.snoc (Or.inl rfl) (Or.inr (Or.inr ?_)) (Or.inl rfl) (by simp [Event.handle])
      exact List.mem_singleton_self _
    | receive hpc _ =>
      exact hg.snoc (Or.inl rfl) (Or.inr (Or.inl rfl)) (Or.inl rfl)
        (by simp [Event.handle, hpc, SwitchPc.holds])
    | _ =>
      exact hg.snoc (Or.inl rfl) (Or.inr (Or.inl rfl)) (Or.inl rfl) (by simp [Event.handle])
  · cases hn with
    | getReturned =>
      refine hg.snoc (Or.inl rfl) (Or.inl rfl) (Or.inr (Or.inr ?_)) (by simp [Event.handle])
      exact List.mem_singleton_self _
    | send hpc _ =>
      exact hg.snoc (Or.inl rfl) (Or.inl rfl) (Or.inr (Or.inl rfl))
        (by simp [Event.handle, hpc, NetworkPc.holds])
    | act =>
      refine hg.snoc (Or.inl rfl) (Or.inl rfl) (Or.inr (Or.inl rfl)) fun e he h hh => ?_
      simp only [actionEvents, List.mem_flatMap, List.mem_cons, List.not_mem_nil, or_false] at he
      obtain ⟨r, -, rfl | rfl⟩ := he <;> cases hh
    | listenFailed | acceptFailed =>
      exact hg.snoc (Or.inl rfl) (Or.inl rfl) (Or.inl rfl) (by simp [Event.handle])
    | _ =>
      exact hg.snoc (Or.inl rfl) (Or.inl rfl) (Or.inr (Or.inl rfl)) (by simp [Event.handle])

/-- **The handle of every send and receive** has come out of a call of `get`. -/
theorem handle_run (h0 : firmware.init s₀) (hrun : firmware.Run s₀ tr s) :
    ∀ e ∈ history tr, ∀ h, e.handle = some h → ∃ τ, .got τ (some h) ∈ history tr := by
  obtain ⟨after, rfl⟩ := h0
  refine (hrun.invariant' (P := HandlesGot) ?_ fun _ _ _ _ _ hg hs => handlesGot_step hg hs).events
  exact ⟨nofun, nofun, nofun, nofun⟩

/-- **The values that went into the queue**, in order, are those of the pulses begun, then
the one in hand, then what the queue holds. -/
theorem pulses_run (h0 : firmware.init s₀) (hrun : firmware.Run s₀ tr s) {h : ℕ}
    (hone : OneHandle h (history tr)) :
    (history tr).filterMap Event.pulsed ++ s.switch.inHand ++ s.comms.contents h =
      (history tr).filterMap Event.sentOk := by
  -- all that is sent or received goes through the one queue
  have hall : ∀ e ∈ history tr, ∀ h', e.handle = some h' → h' = h := by
    intro e he h' hh
    obtain ⟨τ, hτ⟩ := handle_run h0 hrun e he h' hh
    exact Option.some.inj (hone τ _ hτ)
  have hsent : (history tr).filterMap Event.sentOk = (history tr).filterMap (Event.sentTo h) := by
    apply List.filterMap_congr
    intro e he
    cases e with
    | sent τ q t ok =>
      obtain rfl := hall _ he q rfl
      cases ok <;> simp
    | _ => rfl
  have htaken : (history tr).filterMap Event.taken =
      (history tr).filterMap (Event.receivedFrom h) := by
    apply List.filterMap_congr
    intro e he
    cases e with
    | received q t =>
      obtain rfl := hall _ he q rfl
      simp
    | _ => rfl
  rw [hsent, contents_run h0 hrun h, ← htaken, inHand_run h0 hrun]

end Pcrb
