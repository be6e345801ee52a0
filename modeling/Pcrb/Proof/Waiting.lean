import Pcrb.Lib.Liveness
import Pcrb.Proof.Handle

/-!
# Where a task waits

`Waits` lists the points at which a task cannot go on: `init_task` has deleted itself,
`switch_task` blocks on an empty queue, and `cli_task` does not come back from a reset or an
exception. Calls to the outside, for a key, a connection, the peer's bytes, the wifi or a delay,
are taken to return, with some answer. `waits_iff`: then at every other point that can be
reached, whatever order the tasks step in, a task can take its next step. It rests on
`QueuesUp`: even where two calls of `get` create a queue each, no call returns a null handle,
nor one of a queue that is not there.
-/

namespace Pcrb

open Lts

/-- A task blocks on a call with the handle `h`, or is about to. -/
def State.Holds (s : State) (h : Option ℕ) : Prop :=
  (∃ time todo, s.cli = .send h time todo) ∨ s.switch = .receive h ∨
    ∃ time todo, s.network = .send h time todo

/-- A handle that is the number of a queue. -/
def SwitchQueue.Valid (c : SwitchQueue) (h : Option ℕ) : Prop :=
  ∃ q, h = some q ∧ q < c.queues.length

/-- **The invariant**: the handle is in place once the flag is set, and in every call that has
created a queue; and the handles in use are of queues that are there. -/
structure QueuesUp (s : State) : Prop where
  set : s.comms.initialized = true → s.comms.Valid s.comms.handle
  stored : ∀ σ, s.getPc σ = some .set ∨ s.getPc σ = some .read → s.comms.Valid s.comms.handle
  held : ∀ h, s.Holds h → s.comms.Valid h

variable {s₀ s s' : State} {es : List Event} {l : Label} {τ : Task}
  {tr : List (Transition State Label Event)}

theorem SwitchQueue.Valid.mono {c c' : SwitchQueue} {h : Option ℕ} (hv : c.Valid h)
    (hle : c.queues.length ≤ c'.queues.length) : c'.Valid h := by
  obtain ⟨q, rfl, hq⟩ := hv
  exact ⟨q, rfl, by omega⟩

/-- No queue goes away. -/
theorem getEffect_queues (he : GetEffect s s' τ es) :
    s.comms.queues.length ≤ s'.comms.queues.length := by
  cases he with
  | quiet _ _ _ hq => rw [hq]
  | test _ hc | create _ hc | set _ hc | read _ hc => simp [hc]

/-- A handle that is in use was so before, or is what a call of `get` returned. -/
theorem holds_step (hs : firmware.step s l = some (s', es)) {h : Option ℕ} (hh : s'.Holds h) :
    s.Holds h ∨ ∃ σ, .got σ h ∈ es := by
  rcases step_cases hs with hb | ⟨line, -, hc⟩ | ⟨-, hw⟩ | ⟨input, -, hn⟩
  · left
    simpa only [State.Holds, hb.cli, hb.switch, hb.network] using hh
  · rcases hh with ⟨time, todo, hh⟩ | hh | hh
    · cases hc with
      | getReturned hpc _ =>
        cases hh
        exact Or.inr ⟨.cli, List.mem_singleton_self _⟩
      | _ => cases hh
    · left
      cases hc <;> exact Or.inr (Or.inl hh)
    · left
      cases hc <;> exact Or.inr (Or.inr hh)
  · rcases hh with hh | hh | hh
    · left
      cases hw <;> exact Or.inl hh
    · cases hw with
      | getReturned hpc _ =>
        cases hh
        exact Or.inr ⟨.switch, List.mem_singleton_self _⟩
      | _ => cases hh
    · left
      cases hw <;> exact Or.inr (Or.inr hh)
  · rcases hh with hh | hh | ⟨time, todo, hh⟩
    · left
      cases hn <;> exact Or.inl hh
    · left
      cases hn <;> exact Or.inr (Or.inl hh)
    · cases hn with
      | getReturned hpc _ =>
        cases hh
        exact Or.inr ⟨.network, List.mem_singleton_self _⟩
      | listenFailed hpc | acceptFailed hpc =>
        rw [hpc] at hh
        cases hh
      | _ => cases hh

/-- A call of `get` returns the handle of a queue that is there. -/
theorem QueuesUp.got (h : QueuesUp s) (he : GetEffect s s' τ es) {σ : Task} {q : Option ℕ}
    (hgot : .got σ q ∈ es) : s'.comms.Valid q := by
  have hle := getEffect_queues he
  cases he with
  | quiet _ _ _ _ _ hno => exact absurd hgot (hno σ q)
  | test | create | set => cases hgot
  | read hpc hc _ _ =>
    cases List.mem_singleton.1 hgot
    exact (h.stored _ (Or.inr hpc)).mono hle

/-- What the flag and the calls under way promise about the handle. -/
theorem QueuesUp.handle (h : QueuesUp s) (he : GetEffect s s' τ es)
    (hor : s'.comms.initialized = true ∨
      ∃ σ, s'.getPc σ = some .set ∨ s'.getPc σ = some .read) :
    s'.comms.Valid s'.comms.handle := by
  have hle := getEffect_queues he
  cases he with
  | quiet _ hi hh _ hpc _ =>
    rw [hh]
    refine SwitchQueue.Valid.mono ?_ hle
    rcases hor with hset | ⟨σ, hσ⟩
    · exact h.set (hi ▸ hset)
    · exact h.stored σ (hσ.imp (hpc σ .set (by decide)).1 (hpc σ .read (by decide)).1)
  | test hpc hc hpc' hother =>
    rw [hc]
    rcases hor with hset | ⟨σ, hσ⟩
    · exact h.set (hc ▸ hset)
    · rcases eq_or_ne σ τ with rfl | hne
      · -- only a call that has found the flag set goes on to read
        rw [hpc'] at hσ
        cases hinit : s.comms.initialized with
        | true => exact h.set hinit
        | false => simp [hinit] at hσ
      · rw [hother σ hne] at hσ
        exact h.stored σ hσ
  | create hpc hc _ _ =>
    rw [hc]
    exact ⟨s.comms.queues.length, rfl, by simp⟩
  | set hpc hc _ _ =>
    rw [hc]
    exact h.stored _ (Or.inl hpc)
  | read hpc hc _ _ =>
    rw [hc]
    exact h.stored _ (Or.inr hpc)

theorem queuesUp_step (h : QueuesUp s) (hs : firmware.step s l = some (s', es)) : QueuesUp s' := by
  have he := getEffect_of_step hs
  refine ⟨fun hset => h.handle he (Or.inl hset), fun σ hσ => h.handle he (Or.inr ⟨σ, hσ⟩), ?_⟩
  intro q hq
  rcases holds_step hs hq with hold | ⟨σ, hσ⟩
  · exact (h.held q hold).mono (getEffect_queues he)
  · exact h.got he hσ

theorem boot_queuesUp (ram : Bytes) : QueuesUp (State.boot ram) where
  set := nofun
  stored σ hσ := by rcases hσ with hσ | hσ <;> cases σ <;> cases hσ
  held h hh := by rcases hh with ⟨_, _, hh⟩ | hh | ⟨_, _, hh⟩ <;> cases hh

theorem queuesUp_run (h0 : firmware.init s₀) (hrun : firmware.Run s₀ tr s) : QueuesUp s := by
  obtain ⟨after, rfl⟩ := h0
  exact hrun.invariant' (P := fun s _ => QueuesUp s) (boot_queuesUp _)
    fun _ _ _ _ _ h hs => queuesUp_step h hs

/-! ### Every other point is left -/

/-- A step of the task itself, and not of a callback beside it. -/
def Own (τ : Task) (_ : State) (l : Label) : Prop := l.task = τ ∧ l ≠ .callback

/-- The task cannot go on. -/
def Waits (s : State) : Task → Prop
  | .init => s.init = .deleted
  | .cli => ∃ todo, s.cli = .run (.reset :: todo) ∨ s.cli = .run (.throw :: todo)
  | .switch => ∃ q, s.switch = .receive (some q) ∧ s.comms.contents q = []
  | _ => False

/-- A send returns, whether there is room or not. -/
theorem exists_send {c : SwitchQueue} {q : ℕ} (hq : q < c.queues.length) (t : UInt32) :
    ∃ r, c.xQueueSendToBack q t = some r := by
  unfold SwitchQueue.xQueueSendToBack
  rw [List.getElem?_eq_getElem hq]
  exact ⟨_, rfl⟩

/-- A receive returns exactly if there is something in the queue. -/
theorem xQueueReceive_eq_none_iff {c : SwitchQueue} {q : ℕ} :
    c.xQueueReceive q = none ↔ c.contents q = [] := by
  unfold SwitchQueue.xQueueReceive SwitchQueue.contents
  cases hq : c.queues[q]? with
  | none => simp
  | some f =>
    rw [Option.map_eq_none_iff]
    exact Fifo.receive_eq_none_iff

theorem cli_enabled (h : QueuesUp s) (hcr : s.init.created .cli = true) :
    firmware.Enabled (Own .cli) s ↔ ¬ Waits s .cli := by
  have hstep : ∀ line, firmware.step s (.cli line) = cliStep s line := fun _ => if_pos hcr
  constructor
  · rintro ⟨l, ⟨hl, -⟩, hsome⟩ ⟨todo, hwait⟩
    cases l <;> simp only [Label.task, reduceCtorEq] at hl
    rw [hstep] at hsome
    rcases hwait with hwait | hwait <;> simp [cliStep, hwait] at hsome
  · intro hno
    refine ⟨.cli [], ⟨rfl, by simp⟩, ?_⟩
    rw [hstep]
    cases hpc : s.cli with
    | prompt => simp [cliStep, hpc]
    | run todo =>
      cases todo with
      | nil => simp [cliStep, hpc]
      | cons action todo =>
        cases action with
        | reset => exact absurd ⟨todo, Or.inl hpc⟩ hno
        | throw => exact absurd ⟨todo, Or.inr hpc⟩ hno
        | _ => simp [cliStep, hpc, cliFormat]
    | get pc time todo =>
      cases hget : s.comms.get pc with
      | mk comms result => cases result <;> simp [cliStep, hpc, hget]
    | send handle time todo =>
      obtain ⟨q, rfl, hq⟩ := h.held handle (Or.inl ⟨time, todo, hpc⟩)
      obtain ⟨r, hr⟩ := exists_send hq time
      simp [cliStep, hpc, hr]

theorem switch_enabled (h : QueuesUp s) (hcr : s.init.created .switch = true) :
    firmware.Enabled (Own .switch) s ↔ ¬ Waits s .switch := by
  have hstep : firmware.step s .switch = switchStep s := if_pos hcr
  constructor
  · rintro ⟨l, ⟨hl, -⟩, hsome⟩ ⟨q, hpc, hempty⟩
    cases l <;> simp only [Label.task, reduceCtorEq] at hl
    rw [hstep] at hsome
    simp [switchStep, hpc, xQueueReceive_eq_none_iff.2 hempty] at hsome
  · intro hno
    refine ⟨.switch, ⟨rfl, by simp⟩, ?_⟩
    rw [hstep]
    cases hpc : s.switch with
    | ctor pc =>
      cases hctor : pcSwitch false (s.pins switchGpio) pc with
      | mk g next => cases next <;> simp [switchStep, hpc, hctor]
    | get pc =>
      cases hget : s.comms.get pc with
      | mk comms result => cases result <;> simp [switchStep, hpc, hget]
    | receive handle =>
      obtain ⟨q, rfl, -⟩ := h.held handle (Or.inr (Or.inl hpc))
      cases hr : s.comms.xQueueReceive q with
      | none => exact absurd ⟨q, hpc, xQueueReceive_eq_none_iff.1 hr⟩ hno
      | some r => simp [switchStep, hpc, hr]
    | ledOn | setHigh | delay | ledOff | setLow => simp [switchStep, hpc]

/-- What the library answers `network_task` where it asks for nothing in particular. -/
def NetworkPc.input : NetworkPc → NetworkInput
  | .reading _ => .recv .closed
  | .accept => .failed
  | _ => .ok

/-- `network_task` can always go on. -/
theorem network_enabled (h : QueuesUp s) (hcr : s.init.created .network = true) :
    (firmware.step s (.network s.network.input)).isSome = true := by
  have hstep : ∀ input, firmware.step s (.network input) = networkStep s input :=
    fun _ => if_pos hcr
  rw [hstep]
  unfold networkStep
  cases hpc : s.network with
  | listen | accept => simp [NetworkPc.input]
  | reading st => cases st <;> simp [NetworkPc.input, RecvResult.Valid]
  | handling todo =>
    cases todo with
    | nil => simp
    | cons action todo => cases action <;> simp
  | get pc time todo =>
    cases hget : s.comms.get pc with
    | mk comms result => cases result <;> simp [hget]
  | send handle time todo =>
    obtain ⟨q, rfl, hq⟩ := h.held handle (Or.inr (Or.inr ⟨time, todo, hpc⟩))
    obtain ⟨r, hr⟩ := exists_send hq time
    simp [hr]

/-- A task that can step has been created. -/
theorem created_of_enabled (h : firmware.Enabled (Own τ) s) : s.init.created τ = true := by
  obtain ⟨l, ⟨rfl, hne⟩, hl⟩ := h
  change (step s l).isSome = true at hl
  cases l with
  | init => cases s.init <;> rfl
  | callback => exact absurd rfl hne
  | cli _ | wifi _ | switch | network _ | monitor _ =>
    rw [step] at hl
    split_ifs at hl with hcr
    · exact hcr
    · cases hl

theorem init_enabled : firmware.Enabled (Own .init) s ↔ ¬ Waits s .init := by
  constructor
  · rintro ⟨l, ⟨hl, -⟩, hsome⟩ hwait
    cases l <;> simp only [Label.task, reduceCtorEq] at hl
    change (initStep s).isSome = true at hsome
    simp [initStep, show s.init = .deleted from hwait] at hsome
  · intro hno
    refine ⟨.init, ⟨rfl, nofun⟩, ?_⟩
    change (initStep s).isSome = true
    cases hpc : s.init with
    | deleted => exact absurd hpc hno
    | _ => simp [initStep, hpc]

/-- `wifi_management_task` and `monitor_task` never wait for another task. -/
theorem wifi_enabled (ok : Bool) (hcr : s.init.created .wifi = true) :
    (firmware.step s (.wifi ok)).isSome = true := by
  have hstep : firmware.step s (.wifi ok) = wifiStep s ok := if_pos hcr
  rw [hstep]
  cases hpc : s.wifi <;> simp [wifiStep, hpc]

theorem monitor_enabled (level : Bool) (hcr : s.init.created .monitor = true) :
    (firmware.step s (.monitor level)).isSome = true := by
  have hstep : firmware.step s (.monitor level) = monitorStep s level := if_pos hcr
  rw [hstep]
  cases hpc : s.monitor with
  | ctor pc =>
    cases hctor : pcSwitch false (s.pins switchGpio) pc with
    | mk g next => cases next <;> simp [monitorStep, hpc, hctor]
  | _ => simp [monitorStep, hpc]

/-- **Where the tasks wait** when calls to the outside return. In every state that can be reached,
every call of `get` so far has returned the handle of a queue that is there, and a task that has
been created can take a step, on some answer from outside, exactly unless it is `init_task`
behind its end, `switch_task` at an empty queue, or `cli_task` in a reset or an exception. -/
theorem waits_iff (h0 : firmware.init s₀) (hrun : firmware.Run s₀ tr s) :
    (∀ σ h, .got σ h ∈ history tr → s.comms.Valid h) ∧
    ∀ τ, s.init.created τ = true → (firmware.Enabled (Own τ) s ↔ ¬ Waits s τ) := by
  have hq := queuesUp_run h0 hrun
  constructor
  · obtain ⟨after, rfl⟩ := h0
    have hinv := hrun.invariant' (P := fun s hist => QueuesUp s ∧
      ∀ σ h, .got σ h ∈ hist → s.comms.Valid h) ⟨boot_queuesUp _, nofun⟩ ?_
    · exact hinv.2
    · rintro s l s' es hist ⟨h, hgot⟩ hs
      have he := getEffect_of_step hs
      refine ⟨queuesUp_step h hs, fun σ q hmem => ?_⟩
      rcases List.mem_append.1 hmem with hmem | hmem
      · exact (hgot σ q hmem).mono (getEffect_queues he)
      · exact h.got he hmem
  · intro τ hcr
    cases τ with
    | init => exact init_enabled
    | cli => exact cli_enabled hq hcr
    | wifi => exact iff_of_true ⟨.wifi true, ⟨rfl, nofun⟩, wifi_enabled true hcr⟩ id
    | switch => exact switch_enabled hq hcr
    | network =>
      exact iff_of_true ⟨.network s.network.input, ⟨rfl, nofun⟩, network_enabled hq hcr⟩ id
    | monitor => exact iff_of_true ⟨.monitor true, ⟨rfl, nofun⟩, monitor_enabled true hcr⟩ id

/-- With every task at work and nothing asked for, `switch_task` waits and `cli_task` does not. -/
theorem waits_iff_idle : ∃ s₀ tr s, firmware.init s₀ ∧ firmware.Run s₀ tr s ∧
    ¬ firmware.Enabled (Own .switch) s ∧ firmware.Enabled (Own .cli) s := by
  obtain ⟨tr, s, hrun, hq⟩ := System.exists_run (M := firmware)
    (Q := fun _ s => decide (s.init = .deleted ∧ s.switch = .receive (some 0) ∧
      s.comms.contents 0 = [] ∧ s.cli = .prompt))
    (State.boot (blockData fun _ => 0)) startUp (by decide +kernel)
  obtain ⟨hinit, hswitch, hempty, hcli⟩ := of_decide_eq_true hq
  have hwaits := (waits_iff ⟨_, rfl⟩ hrun).2
  refine ⟨_, tr, s, ⟨_, rfl⟩, hrun, ?_, ?_⟩
  · rw [hwaits .switch (by rw [hinit]; rfl), not_not]
    exact ⟨0, hswitch, hempty⟩
  · rw [hwaits .cli (by rw [hinit]; rfl)]
    rintro ⟨todo, h | h⟩ <;> rw [hcli] at h <;> cases h

end Pcrb
