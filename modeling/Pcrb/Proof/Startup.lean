import Pcrb.Proof.Steps

/-!
# Start-up

`Booted` is the chain of facts by which a task may use the wifi chip: it follows where
`wifi_management_task` stands, `wifi_initd` follows from it, and `init_task` waits for
that before it creates the tasks that need the chip. Only `cli_task` is created before,
and only its `status` report needs the chip.

`startup_iff`: nothing is used too early exactly if no report is started too early.
-/

namespace Pcrb

open Lts

/-- What is there to be used. -/
def State.Ready (s : State) : Resource → Prop
  | .netifDefault => s.netif = true
  | .netifList => s.netif = true
  | .cyw43 => s.cyw43 = true
  | .lwip => s.cyw43 = true

/-- A step uses only what is there. -/
def UsesReady (tn : Transition State Label Event) : Prop :=
  ∀ r, .use r ∈ tn.events → tn.src.Ready r

/-- `cli_task` does not start a status report while there is no network interface. -/
def StatusReady (s : State) : Label → Prop
  | .cli _ => s.cli = .run statusReport → s.netif = true
  | _ => True

/-- What is left of a line for `cli_task` to do. -/
def CliPc.todo : CliPc → List CliAction
  | .prompt => []
  | .run todo => todo
  | .get _ _ todo => todo
  | .send _ _ todo => todo

/-- **The invariant.** A later line of the start-up implies the ones before it. -/
structure Booted (s : State) : Prop where
  chip : s.wifi ≠ .archInit → s.cyw43 = true
  netif : s.wifi ≠ .archInit → s.wifi ≠ .enableSta → s.netif = true
  cyw43 : s.netif = true → s.cyw43 = true
  initd : s.wifiInitd = true → s.netif = true
  gate : s.init ≠ .createCli → s.init ≠ .createWifi → s.init ≠ .wait → s.wifiInitd = true
  cli : s.netif = true ∨ (∀ r, .use r ∉ s.cli.todo) ∨ s.cli = .run statusReport

variable {s₀ s s' : State} {es : List Event} {l : Label}
  {tr : List (Transition State Label Event)}

namespace Booted

theorem ready (h : Booted s) (hn : s.netif = true) (r : Resource) : s.Ready r := by
  cases r with
  | netifDefault | netifList => exact hn
  | cyw43 | lwip => exact h.cyw43 hn

/-- The tasks that `init_task` creates behind its wait find everything there. -/
theorem created_ready (h : Booted s)
    (hc : s.init.created .switch = true ∨ s.init.created .network = true) (r : Resource) :
    s.Ready r := by
  refine h.ready (h.initd (h.gate ?_ ?_ ?_)) r
  all_goals
    intro hi
    rw [hi] at hc
    rcases hc with hc | hc <;> cases hc

end Booted

/-- A line asks for the chip only if it is `status`. -/
theorem command_uses (line : List UInt8) :
    (∀ r, .use r ∉ command line) ∨ command line = statusReport := by
  by_cases hline : line = ascii "status"
  · right
    rw [hline]
    rfl
  · left
    intro r hmem
    rw [command, List.mem_append] at hmem
    rcases hmem with hmem | hmem
    · rcases toggleBranch_cases line with ⟨t, -, hb⟩ | hb | hb <;> rw [hb] at hmem <;> simp at hmem
    · rw [otherBranches, List.mem_append, List.mem_append] at hmem
      rcases hmem with (hmem | hmem) | hmem
      · unfold commandBranch at hmem
        split_ifs at hmem
        all_goals first
          | (split at hmem <;> simp at hmem)
          | simp at hmem
      · split_ifs at hmem <;> simp at hmem
      · split_ifs at hmem <;> simp at hmem

/-! ### One step -/

theorem initStep_booted (hs : initStep s = some (s', es)) (h : Booted s) :
    Booted s' ∧ ∀ r, .use r ∈ es → s.Ready r := by
  unfold initStep at hs
  cases hpc : s.init <;>
    simp only [hpc, Option.some.injEq, Prod.mk.injEq, reduceCtorEq] at hs <;>
    obtain ⟨rfl, rfl⟩ := hs
  case createCli =>
    exact ⟨⟨h.chip, h.netif, h.cyw43, h.initd, fun _ hw => absurd rfl hw, h.cli⟩, nofun⟩
  case createWifi =>
    exact ⟨⟨h.chip, h.netif, h.cyw43, h.initd, fun _ _ hw => absurd rfl hw, h.cli⟩, nofun⟩
  case wait =>
    refine ⟨⟨h.chip, h.netif, h.cyw43, h.initd, fun _ _ hw => ?_, h.cli⟩, nofun⟩
    -- the loop is left only when the flag is set
    by_contra hd
    simp only [hd] at hw
    exact absurd rfl hw
  case logIp =>
    have hd : s.wifiInitd = true := h.gate (by simp [hpc]) (by simp [hpc]) (by simp [hpc])
    exact ⟨⟨h.chip, h.netif, h.cyw43, h.initd, fun _ _ _ => hd, h.cli⟩,
      fun r _ => h.ready (h.initd hd) r⟩
  all_goals
    have hd : s.wifiInitd = true := h.gate (by simp [hpc]) (by simp [hpc]) (by simp [hpc])
    exact ⟨⟨h.chip, h.netif, h.cyw43, h.initd, fun _ _ _ => hd, h.cli⟩, nofun⟩

theorem wifiStep_booted {ok : Bool} (hs : wifiStep s ok = some (s', es)) (h : Booted s) :
    Booted s' ∧ ∀ r, .use r ∈ es → s.Ready r := by
  unfold wifiStep at hs
  cases hpc : s.wifi with
  | archInit =>
    simp only [hpc, Option.some.injEq, Prod.mk.injEq] at hs
    obtain ⟨rfl, rfl⟩ := hs
    cases ok with
    | false => exact ⟨h, nofun⟩
    | true =>
      exact ⟨⟨fun _ => rfl, fun _ hw => absurd rfl hw, fun _ => rfl, h.initd, h.gate, h.cli⟩, nofun⟩
  | enableSta =>
    simp only [hpc, Option.some.injEq, Prod.mk.injEq] at hs
    obtain ⟨rfl, rfl⟩ := hs
    have hc : s.cyw43 = true := h.chip (by simp [hpc])
    refine ⟨⟨fun _ => hc, fun _ _ => rfl, fun _ => hc, fun _ => rfl, h.gate, Or.inl rfl⟩, ?_⟩
    intro r hr
    cases List.mem_singleton.1 hr
    exact hc
  | setInitd =>
    simp only [hpc, Option.some.injEq, Prod.mk.injEq] at hs
    obtain ⟨rfl, rfl⟩ := hs
    have hn : s.netif = true := h.netif (by simp [hpc]) (by simp [hpc])
    exact ⟨⟨fun _ => h.cyw43 hn, fun _ _ => hn, h.cyw43, fun _ => hn, fun _ _ _ => rfl, Or.inl hn⟩,
      nofun⟩
  | pm | setStatusCallback | setLinkCallback | connect | connectFailed | linkStatus | poll | leave
  | reconnect =>
    simp only [hpc, Option.some.injEq, Prod.mk.injEq] at hs
    obtain ⟨rfl, rfl⟩ := hs
    have hn : s.netif = true := h.netif (by simp [hpc]) (by simp [hpc])
    exact ⟨⟨fun _ => h.cyw43 hn, fun _ _ => hn, h.cyw43, h.initd, h.gate, Or.inl hn⟩,
      fun r _ => h.ready hn r⟩

theorem cliStep_booted {line : List UInt8} (hs : CliStep s line s' es) (h : Booted s)
    (hstatus : s.cli = .run statusReport → s.netif = true) :
    Booted s' ∧ ∀ r, .use r ∈ es → s.Ready r := by
  -- the part of the invariant that is about `cli_task`, at the next point of its code
  have keep : ∀ {cli' : CliPc}, (∀ a ∈ cli'.todo, a ∈ s.cli.todo) →
      s.netif = true ∨ (∀ r, .use r ∉ cli'.todo) ∨ cli' = .run statusReport := by
    intro cli' hsub
    rcases h.cli with hn | hno | hrep
    · exact Or.inl hn
    · exact Or.inr (Or.inl fun r hr => hno r (hsub _ hr))
    · exact Or.inl (hstatus hrep)
  cases hs with
  | line hpc =>
    refine ⟨⟨h.chip, h.netif, h.cyw43, h.initd, h.gate, Or.inr ?_⟩, by simp⟩
    rcases command_uses line with hno | hrep
    · exact Or.inl hno
    · exact Or.inr (congrArg CliPc.run hrep)
  | @use r todo hpc =>
    -- a use is in the middle of a report, or at its beginning
    have hn : s.netif = true := by
      rcases h.cli with hn | hno | hrep
      · exact hn
      · rw [hpc] at hno
        exact absurd List.mem_cons_self (hno r)
      · exact hstatus hrep
    exact ⟨⟨h.chip, h.netif, h.cyw43, h.initd, h.gate, Or.inl hn⟩, fun r _ => h.ready hn r⟩
  | print hpc =>
    exact ⟨⟨h.chip, h.netif, h.cyw43, h.initd, h.gate, keep nofun⟩, by simp⟩
  | format hpc _ | store hpc | toggle hpc =>
    refine ⟨⟨h.chip, h.netif, h.cyw43, h.initd, h.gate, keep fun a ha => ?_⟩, by simp⟩
    rw [hpc]
    exact List.mem_cons_of_mem _ ha
  | getNext hpc _ | getReturned hpc _ | send hpc _ =>
    refine ⟨⟨h.chip, h.netif, h.cyw43, h.initd, h.gate, keep fun a ha => ?_⟩, by simp⟩
    rw [hpc]
    exact ha

/-- **One step** keeps the invariant and uses only what is there, unless it starts a
report too early. -/
theorem booted_step (hs : firmware.step s l = some (s', es)) (h : Booted s)
    (hstatus : StatusReady s l) : Booted s' ∧ ∀ r, .use r ∈ es → s.Ready r := by
  cases taskStep_of_eq hs with
  | init hi => exact initStep_booted hi h
  | cli _ hc => exact cliStep_booted hc h hstatus
  | wifi hw => exact wifiStep_booted hw h
  | callback hset =>
    have hc : s.cyw43 = true := h.chip (by intro hw; rw [hw] at hset; cases hset)
    refine ⟨h, fun r hr => ?_⟩
    simp only [List.mem_cons, Event.use.injEq, List.not_mem_nil, or_false, or_self] at hr
    rw [hr]
    exact hc
  | switch hcr hw =>
    refine ⟨?_, fun r _ => h.created_ready (Or.inl hcr) r⟩
    cases hw <;> exact ⟨h.chip, h.netif, h.cyw43, h.initd, h.gate, h.cli⟩
  | network hcr hn =>
    refine ⟨?_, fun r _ => h.created_ready (Or.inr hcr) r⟩
    cases hn <;> exact ⟨h.chip, h.netif, h.cyw43, h.initd, h.gate, h.cli⟩
  | monitor _ hm =>
    refine ⟨?_, nofun⟩
    cases hm <;> exact ⟨h.chip, h.netif, h.cyw43, h.initd, h.gate, h.cli⟩

theorem boot_booted (ram : Bytes) : Booted (State.boot ram) where
  chip hw := absurd rfl hw
  netif hw := absurd rfl hw
  cyw43 := nofun
  initd := nofun
  gate hc := absurd rfl hc
  cli := Or.inr (Or.inl nofun)

/-- A report started too early dereferences `netif_list` while it is null. -/
theorem statusReady_of_usesReady (hs : firmware.step s l = some (s', es))
    (huse : ∀ r, .use r ∈ es → s.Ready r) : StatusReady s l := by
  cases taskStep_of_eq hs with
  | cli _ hc =>
    intro hrep
    -- the first thing a report does is to follow `netif_list`
    have hlist : .use .netifList ∈ es := by
      cases hc with
      | use hpc =>
        rw [hpc] at hrep
        cases hrep
        exact List.mem_cons_self
      | format hpc hm =>
        rw [hpc] at hrep
        cases hrep
        rcases hm with hm | ⟨hm, -⟩ <;> cases hm
      | line hpc | print hpc | store hpc | toggle hpc | getNext hpc _ | getReturned hpc _
      | send hpc _ =>
        rw [hpc] at hrep
        cases hrep
    exact huse _ hlist
  | _ => trivial

/-- **Nothing of the wifi chip is used before it is there**, in a run, exactly if no status
report is started in it before the network interface is there. -/
theorem startup_iff (h0 : firmware.init s₀) (hrun : firmware.Run s₀ tr s) :
    (∀ tn ∈ tr, UsesReady tn) ↔ ∀ tn ∈ tr, StatusReady tn.src tn.label := by
  obtain ⟨after, rfl⟩ := h0
  constructor
  · intro huse tn htn
    obtain ⟨pre, -, -, hs⟩ := hrun.mem htn
    exact statusReady_of_usesReady hs (huse tn htn)
  · intro hstatus tn htn
    obtain ⟨hb, hs, -⟩ := hrun.invariant_mem (boot_booted _)
      (fun _ _ _ _ hst hb hs => (booted_step hs hb hst).1) hstatus tn htn
    exact (booted_step hs hb (hstatus tn htn)).2

/-- A report typed once everything is up. -/
theorem startup_iff_up : ∃ s₀ tr s, firmware.init s₀ ∧ firmware.Run s₀ tr s ∧
    s.cli = .run [.format .status] ∧
    ((∀ tn ∈ tr, UsesReady tn) ↔ ∀ tn ∈ tr, StatusReady tn.src tn.label) := by
  obtain ⟨tr, s, hrun, hq⟩ := System.exists_run (M := firmware)
    (Q := fun _ s => decide (s.cli = .run [.format .status]))
    (State.boot (blockData fun _ => 0))
    (startUp ++ List.replicate 7 (.cli (ascii "status"))) (by decide +kernel)
  exact ⟨_, tr, s, ⟨_, rfl⟩, hrun, of_decide_eq_true hq, startup_iff ⟨_, rfl⟩ hrun⟩

/-- **A report can be started too early**: the prompt is there before wifi is. -/
theorem status_before_wifi : ¬ ∀ s₀ tr s, firmware.init s₀ → firmware.Run s₀ tr s →
    ∀ tn ∈ tr, UsesReady tn := by
  intro hall
  have hrun : firmware.Run (State.boot (blockData fun _ => 0)) _ _ :=
    .snoc (l := .cli []) (.snoc (l := .cli (ascii "status")) (.snoc (l := .init) .nil rfl) rfl) rfl
  have huse := hall _ _ _ ⟨_, rfl⟩ hrun _ (List.mem_append_right _ (List.mem_singleton_self _))
  exact absurd (huse .netifList List.mem_cons_self) Bool.false_ne_true

end Pcrb
