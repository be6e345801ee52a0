import Pcrb.Proof.Acknowledge
import Pcrb.Proof.Response
import Pcrb.Proof.Service

/-!
# How soon the front ends come back

Ranks for `cli_task` and `network_task`: how many steps of its own each is away from the end
of what it is about, whatever the other tasks do meanwhile. For `network_task` a `recv` that
returns 0 is not counted, since it leaves the receive loop where it was.

* `line_done`: `cli_task` is done with a line within eight steps, back at the prompt or in a
  reset or an exception.
* `connection_served`: only a `recv` that returns 0 can keep `network_task` from being back at
  `accept` within 1035.
-/

namespace Pcrb

open Lts

variable {s₀ s s' : State} {es : List Event} {l : Label}
  {tr tr' : List (Transition State Label Event)}

/-- The steps left of a call of `get`, with the one that takes its result. -/
def GetPc.distance : GetPc → ℕ
  | .read => 2
  | .set => 3
  | .create => 4
  | .test => 5

/-- A step of `get` comes closer to its end. -/
theorem GetPc.distance_lt {c c' : SwitchQueue} {pc pc' : GetPc} (h : c.get pc = (c', .next pc')) :
    pc'.distance < pc.distance := by
  cases pc with
  | test =>
    obtain ⟨-, hn⟩ := Prod.mk.inj h
    rw [GetResult.next.injEq] at hn
    rw [← hn]
    cases c.initialized <;> simp [GetPc.distance]
  | create | set =>
    cases h
    simp [GetPc.distance]
  | read => cases h

theorem GetPc.two_le_distance (pc : GetPc) : 2 ≤ pc.distance := by
  cases pc <;> simp [GetPc.distance]

/-! ### `cli_task` -/

/-- The steps an action takes, at most. -/
def CliAction.cost : CliAction → ℕ
  | .toggle _ => 6
  | _ => 1

def CliAction.costs (todo : List CliAction) : ℕ := (todo.map CliAction.cost).sum

@[simp] theorem CliAction.costs_nil : CliAction.costs [] = 0 := rfl

@[simp] theorem CliAction.costs_cons (a : CliAction) (todo : List CliAction) :
    CliAction.costs (a :: todo) = a.cost + CliAction.costs todo := rfl

theorem CliAction.one_le_cost (a : CliAction) : 1 ≤ a.cost := by
  cases a <;> simp [CliAction.cost]

/-- How many steps `cli_task` is away from the print, at most. -/
def CliPc.distance : CliPc → ℕ
  | .prompt => 0
  | .run todo => CliAction.costs todo
  | .get pc _ todo => CliAction.costs todo + pc.distance
  | .send _ _ todo => CliAction.costs todo + 1

/-- No line costs more than a toggle or a status report. -/
theorem costs_command_le (line : List UInt8) : CliAction.costs (command line) ≤ 7 := by
  by_cases ht : startsWith line "toggle" = true
  · rw [command_of_toggle ht]
    split_ifs <;> simp [CliAction.cost]
  · have hbranch : command line = otherBranches line := by
      rw [command, toggleBranch, if_neg ht, List.nil_append]
    rw [hbranch]
    by_cases hp : line = ascii "programming"
    · rw [hp]
      decide
    by_cases hr : line = ascii "reboot"
    · rw [hr]
      decide
    rw [otherBranches, if_neg hp, if_neg hr, List.append_nil, List.append_nil]
    unfold commandBranch
    split_ifs
    · decide
    · decide
    · cases substr line 9 <;> simp [CliAction.cost]
    · decide
    · decide

theorem cli_frame (hl : ¬ Own .cli s l) (hs : firmware.step s l = some (s', es)) :
    s'.cli = s.cli := by
  cases taskStep_of_eq hs with
  | init h => exact (initStep_background h).cli
  | cli _ _ => exact absurd ⟨rfl, nofun⟩ hl
  | wifi h => exact (wifiStep_background h).cli
  | callback _ => rfl
  | switch _ h => cases h <;> rfl
  | network _ h => cases h <;> rfl
  | monitor _ h => exact (monitorStep_background h).cli

theorem cliStep_of_own (hl : Own .cli s l) (hs : firmware.step s l = some (s', es)) :
    ∃ line, CliStep s line s' es := by
  cases taskStep_of_eq hs with
  | cli _ h => exact ⟨_, h⟩
  | callback _ => exact absurd rfl hl.2
  | init _ | wifi _ | switch _ _ | network _ _ | monitor _ _ => cases hl.1

/-- `cli_task` is done with the line: back at the prompt, or not to come back. -/
def LineDone (tn : Transition State Label Event) : Prop :=
  tn.dst.cli = .prompt ∨ Waits tn.dst .cli

/-- **A step of `cli_task`** with a line in hand comes closer to the prompt, or gets there. -/
theorem cliStep_distance {line : List UInt8} (hc : CliStep s line s' es) (hne : s.cli ≠ .prompt) :
    s'.cli = .prompt ∨ s'.cli ≠ .prompt ∧ s'.cli.distance < s.cli.distance := by
  cases hc with
  | line hpc => exact absurd hpc hne
  | print hpc => exact Or.inl rfl
  | @format action todo _ hpc _ =>
    refine Or.inr ⟨nofun, ?_⟩
    have hcost := action.one_le_cost
    rw [hpc]
    simp only [CliPc.distance, CliAction.costs_cons]
    omega
  | store hpc | use hpc | toggle hpc =>
    refine Or.inr ⟨nofun, ?_⟩
    rw [hpc]
    simp only [CliPc.distance, CliAction.costs_cons, CliAction.cost, GetPc.distance]
    omega
  | getNext hpc hget =>
    refine Or.inr ⟨nofun, ?_⟩
    have hlt := GetPc.distance_lt hget
    rw [hpc]
    simp only [CliPc.distance]
    omega
  | @getReturned pc _ _ _ _ hpc hget =>
    refine Or.inr ⟨nofun, ?_⟩
    have hle := pc.two_le_distance
    rw [hpc]
    simp only [CliPc.distance]
    omega
  | send hpc _ =>
    refine Or.inr ⟨nofun, ?_⟩
    rw [hpc]
    simp only [CliPc.distance]
    omega

theorem cli_ranking : Ranking firmware (fun _ _ => True) (Own .cli)
    (fun s => QueuesUp s ∧ s.init.created .cli = true ∧ s.cli ≠ .prompt ∧ ¬ Waits s .cli) LineDone
    fun s => s.cli.distance where
  enabled s h := (cli_enabled h.1 h.2.1).2 h.2.2.2
  step := by
    rintro s l s' es - ⟨hup, hcr, hne, hno⟩ hs
    have hup' := queuesUp_step hup hs
    have hcr' := created_mono hs hcr
    by_cases hwait : Waits s' .cli
    · exact Or.inl (Or.inr hwait)
    by_cases hl : Own .cli s l
    · obtain ⟨line, hc⟩ := cliStep_of_own hl hs
      rcases cliStep_distance hc hne with hdone | ⟨hne', hlt⟩
      · exact Or.inl (Or.inl hdone)
      · exact Or.inr ⟨⟨hup', hcr', hne', hwait⟩, hlt.le, fun _ => hlt⟩
    · have hframe := cli_frame hl hs
      exact Or.inr ⟨⟨hup', hcr', hframe ▸ hne, hwait⟩, by rw [hframe], fun h => absurd h hl⟩

/-- **`cli_task` is done with every line.** Once a line has been handed to `command`, and whatever
the other tasks do, `cli_task` comes back to the prompt or ends in a reset or an exception;
until then it can step, and takes at most seven steps. -/
theorem line_done (h0 : firmware.init s₀) (hrun : firmware.Run s₀ tr s)
    (hcr : s.init.created .cli = true) {line : List UInt8} (hpc : s.cli = .run (command line))
    (hrun' : firmware.Run s tr' s') :
    Waits s .cli ∨ (∃ tn ∈ tr', LineDone tn) ∨ (firmware.Enabled (Own .cli) s' ∧
      tr'.countP (fun tn => decide (Own .cli tn.src tn.label)) ≤ 7) := by
  by_cases hwait : Waits s .cli
  · exact Or.inl hwait
  by_cases hdone : ∃ tn ∈ tr', LineDone tn
  · exact Or.inr (Or.inl hdone)
  · refine Or.inr (Or.inr ?_)
    have hstart := queuesUp_run h0 hrun
    obtain ⟨hend, hcount⟩ := cli_ranking.count_le hrun'
      ⟨hstart, hcr, by rw [hpc]; exact nofun, hwait⟩ (fun _ _ => trivial)
      fun tn htn hl => hdone ⟨tn, htn, hl⟩
    have hcost := costs_command_le line
    rw [hpc, CliPc.distance] at hcount
    exact ⟨cli_ranking.enabled _ hend, by omega⟩

/-- A toggle line, and four of the steps it takes. -/
theorem line_done_toggle : ∃ s₀ tr s tr' s', firmware.init s₀ ∧ firmware.Run s₀ tr s ∧
    firmware.Run s tr' s' ∧ s.cli = .run (command (ascii "toggle 70")) ∧
    (Waits s .cli ∨ (∃ tn ∈ tr', LineDone tn) ∨ (firmware.Enabled (Own .cli) s' ∧
      tr'.countP (fun tn => decide (Own .cli tn.src tn.label)) ≤ 7)) := by
  obtain ⟨tr, s, tr', s', hrun, hrun', hq⟩ := System.exists_runs (M := firmware)
    (Q := fun _ s _ _ => decide (s.init = .createWifi ∧
      s.cli = .run (command (ascii "toggle 70"))))
    (State.boot (blockData fun _ => 0)) [.init, .cli (ascii "toggle 70")]
    (List.replicate 4 (.cli [])) (by decide +kernel)
  obtain ⟨hinit, hcli⟩ := of_decide_eq_true hq
  exact ⟨_, tr, s, tr', s', ⟨_, rfl⟩, hrun, hrun', hcli,
    line_done ⟨_, rfl⟩ hrun (by rw [hinit]; rfl) hcli hrun'⟩

/-! ### `network_task` -/

/-- What a `recv` returned. -/
def Event.answer : Event → Option RecvResult
  | .recv r => some r
  | _ => none

/-- The steps an action takes, at most. -/
def Action.cost : Action → ℕ
  | .xQueueSendToBack _ => 6
  | _ => 1

def Action.costs (todo : List Action) : ℕ := (todo.map Action.cost).sum

@[simp] theorem Action.costs_nil : Action.costs [] = 0 := rfl

@[simp] theorem Action.costs_cons (a : Action) (todo : List Action) :
    Action.costs (a :: todo) = a.cost + Action.costs todo := rfl

/-- How many steps `network_task` is away from the end of a pass, at most, not counting a `recv`
that returns 0. -/
def NetworkPc.distance : NetworkPc → ℕ
  | .listen | .accept => 0
  | .reading (.length _ received _) => 8 + dataSize + (2 - received)
  | .reading (.payload size received _) => 8 + (size - received)
  | .reading (.done _ _) => 8
  | .handling todo => Action.costs todo
  | .get pc _ todo => Action.costs todo + pc.distance
  | .send _ _ todo => Action.costs todo + 1

/-- No pass costs more than a toggle. -/
theorem costs_handleRequest_le (data : Bytes) (result : Except ℤ ℕ) :
    Action.costs (handleRequest data result) ≤ 7 := by
  cases result with
  | error errno => simp [handleRequest, Action.cost]
  | ok amount =>
    have hcases := handlePayload_cases (data.read 0 amount) data
    rw [Bytes.length_read, Bytes.write_read] at hcases
    rw [handleRequest]
    rcases hcases with ⟨t, -, hacts⟩ | ⟨u, -, hacts⟩ | ⟨a, ha, hacts⟩
    · simp [hacts, Action.cost]
    · simp [hacts, Action.cost]
    · cases a <;> first | exact absurd ha id | simp [hacts, Action.cost]

/-- A step of `network_task`, other than a `recv` that returns 0. -/
def Serves (_ : State) (l : Label) : Prop := ∃ input, l = .network input ∧ input ≠ .recv .closed

instance (s : State) : DecidablePred (Serves s) := fun l =>
  decidable_of_iff ((match l with
    | .network (.recv .closed) => false
    | .network _ => true
    | _ => false) = true) <| by
    unfold Serves
    cases l with
    | network input =>
      cases input with
      | recv r => cases r <;> simp
      | _ => simp
    | _ => simp

/-- `network_task` has a connection to serve. -/
def NetworkPc.serving : NetworkPc → Bool
  | .listen | .accept => false
  | _ => true

theorem network_frame (hl : ¬ Own .network s l) (hs : firmware.step s l = some (s', es)) :
    s'.network = s.network := by
  cases taskStep_of_eq hs with
  | init h => exact (initStep_background h).network
  | cli _ h => cases h <;> rfl
  | wifi h => exact (wifiStep_background h).network
  | callback _ => rfl
  | switch _ h => cases h <;> rfl
  | network _ _ => exact absurd ⟨rfl, nofun⟩ hl
  | monitor _ h => exact (monitorStep_background h).network

theorem networkStep_of_step {input : NetworkInput} {r : State × List Event}
    (hs : firmware.step s (.network input) = some r) : networkStep s input = some r := by
  have hcr : s.init.created .network = true :=
    created_of_enabled ⟨.network input, ⟨rfl, nofun⟩, Option.isSome_iff_exists.2 ⟨r, hs⟩⟩
  rwa [show firmware.step s (.network input) = networkStep s input from if_pos hcr] at hs

/-- A `recv` does not take `network_task` away from the end, and brings it closer unless it
returns 0. -/
theorem recv_distance {stale : Bytes} {rx : List UInt8} {st : ReadState} {r : RecvResult}
    (h : ReadInv dataSize stale rx st) (hst : st.Running) (hr : r.Valid st.requested) :
    (NetworkPc.reading (st.recv dataSize r)).distance ≤ (NetworkPc.reading st).distance ∧
      (r ≠ .closed →
        (NetworkPc.reading (st.recv dataSize r)).distance < (NetworkPc.reading st).distance) := by
  cases r with
  | closed =>
    rw [recv_closed h]
    exact ⟨le_rfl, fun hne => absurd rfl hne⟩
  | error e =>
    have hlt : (NetworkPc.reading (st.recv dataSize (.error e))).distance <
        (NetworkPc.reading st).distance := by
      have hpos := requested_pos h hst
      cases st with
      | done result data => exact absurd rfl (hst result data)
      | length | payload =>
        simp only [ReadState.requested] at hpos
        simp only [ReadState.recv, NetworkPc.distance]
        omega
    exact ⟨hlt.le, fun _ => hlt⟩
  | data bytes =>
    have hlt : (NetworkPc.reading (st.recv dataSize (.data bytes))).distance <
        (NetworkPc.reading st).distance := by
      have hpos := requested_pos h hst
      obtain ⟨hbytes, hle⟩ := hr
      cases st with
      | done result data => exact absurd rfl (hst result data)
      | length size received data =>
        -- the payload is no longer than the span
        simp only [ReadState.requested] at hpos
        simp only [ReadState.recv, ReadState.lengthLoop, ReadState.payloadLoop]
        split_ifs <;> simp only [NetworkPc.distance] <;> omega
      | payload size received data =>
        simp only [ReadState.requested] at hpos
        simp only [ReadState.recv, ReadState.payloadLoop]
        split_ifs <;> simp only [NetworkPc.distance] <;> omega
    exact ⟨hlt.le, fun _ => hlt⟩

/-- The steps in `read`: its end, or the `recv` that the label answers. -/
theorem networkStep_of_reading {st : ReadState} {input : NetworkInput}
    (hpc : s.network = .reading st) (h : networkStep s input = some (s', es)) :
    (∃ result data, st = .done result data ∧
      s' = { s with network := .handling (handleRequest data result) }) ∨
    (st.Running ∧ ∃ r, input = .recv r ∧ r.Valid st.requested ∧
      s' = { s with network := .reading (st.recv dataSize r) }) := by
  unfold networkStep at h
  cases st with
  | done result data =>
    simp only [hpc, Option.some.injEq, Prod.mk.injEq] at h
    exact Or.inl ⟨result, data, rfl, h.1.symm⟩
  | length | payload =>
    right
    cases input <;> simp only [hpc, reduceCtorEq] at h
    split at h
    · simp only [Option.some.injEq, Prod.mk.injEq] at h
      exact ⟨by simp [ReadState.Running], _, rfl, ‹_›, h.1.symm⟩
    · cases h

/-- `network_task` serves a connection, with what it has received in place. -/
structure Serving (s : State) : Prop where
  up : QueuesUp s
  created : s.init.created .network = true
  serving : s.network.serving = true
  read : ∃ rx, s.network.Read rx

/-- The pass is over. -/
def BackAtAccept (tn : Transition State Label Event) : Prop := tn.dst.network = .accept

/-- **A step of `network_task`** that serves a connection comes closer to the end, or gets there. -/
theorem networkStep_distance {input : NetworkInput} (h : Serving s)
    (hs : networkStep s input = some (s', es)) :
    s'.network = .accept ∨ s'.network.serving = true ∧ (∃ rx, s'.network.Read rx) ∧
      s'.network.distance ≤ s.network.distance ∧
      (input ≠ .recv .closed → s'.network.distance < s.network.distance) := by
  have hserving := h.serving
  have closer : s'.network.serving = true → (∃ rx, s'.network.Read rx) →
      s'.network.distance < s.network.distance →
      s'.network = .accept ∨ s'.network.serving = true ∧ (∃ rx, s'.network.Read rx) ∧
        s'.network.distance ≤ s.network.distance ∧
        (input ≠ .recv .closed → s'.network.distance < s.network.distance) :=
    fun hpc hread hlt => Or.inr ⟨hpc, hread, hlt.le, fun _ => hlt⟩
  cases networkStep_of_eq hs with
  | listen hpc | listenFailed hpc | accepted hpc | acceptFailed hpc =>
    rw [hpc] at hserving
    cases hserving
  | @readDone result data hpc =>
    have hcost := costs_handleRequest_le data result
    refine closer rfl ⟨[], trivial⟩ ?_
    rw [hpc]
    simp only [NetworkPc.distance]
    omega
  | @recv st r hpc hr =>
    rcases networkStep_of_reading hpc hs with ⟨result, data, rfl, heq⟩ | ⟨hst, r', rfl, hr', heq⟩
    · have hcost := costs_handleRequest_le data result
      have hnet := congrArg State.network heq
      refine closer (by rw [hnet]; rfl) ⟨[], by rw [hnet]; trivial⟩ ?_
      rw [hnet, hpc]
      simp only [NetworkPc.distance]
      omega
    · obtain ⟨rx, hread⟩ := h.read
      rw [hpc] at hread
      obtain ⟨stale, hinv⟩ := hread
      have hdist := recv_distance hinv hst hr'
      rw [heq, hpc]
      exact Or.inr ⟨rfl, ⟨_, stale, recv_read hinv hr'⟩, hdist.1,
        fun hne => hdist.2 (by simpa using hne)⟩
  | handled hpc => exact Or.inl rfl
  | @act action todo hpc _ =>
    refine closer rfl ⟨[], trivial⟩ ?_
    rw [hpc]
    simp only [NetworkPc.distance, Action.costs_cons]
    cases action <;> simp only [Action.cost] <;> omega
  | toggle hpc =>
    refine closer rfl ⟨[], trivial⟩ ?_
    rw [hpc]
    simp only [NetworkPc.distance, Action.costs_cons, Action.cost, GetPc.distance]
    omega
  | getNext hpc hget =>
    have hlt := GetPc.distance_lt hget
    refine closer rfl ⟨[], trivial⟩ ?_
    rw [hpc]
    simp only [NetworkPc.distance]
    omega
  | @getReturned pc _ _ _ _ hpc hget =>
    have hle := pc.two_le_distance
    refine closer rfl ⟨[], trivial⟩ ?_
    rw [hpc]
    simp only [NetworkPc.distance]
    omega
  | send hpc _ =>
    refine closer rfl ⟨[], trivial⟩ ?_
    rw [hpc]
    simp only [NetworkPc.distance]
    omega

/-- Where `recv` may return 0, it may also fail. -/
theorem networkStep_failed (h : (networkStep s (.recv .closed)).isSome = true) :
    (networkStep s (.recv (.error 0))).isSome = true := by
  unfold networkStep at h ⊢
  cases hpc : s.network with
  | listen | accept => simp [hpc] at h
  | reading st => cases st <;> simp [RecvResult.Valid]
  | handling todo =>
    cases todo with
    | nil => rfl
    | cons action todo => cases action <;> rfl
  | get pc time todo =>
    rw [hpc] at h
    exact h
  | send handle time todo =>
    rw [hpc] at h
    cases handle <;> exact h

theorem network_ranking : Ranking firmware (fun _ _ => True) Serves Serving BackAtAccept
    fun s => s.network.distance where
  enabled := by
    intro s h
    have hsome := network_enabled h.up h.created
    have hstep : ∀ input, firmware.step s (.network input) = networkStep s input :=
      fun _ => if_pos h.created
    by_cases hclosed : s.network.input = .recv .closed
    · rw [hclosed, hstep] at hsome
      exact ⟨.network (.recv (.error 0)), ⟨_, rfl, by simp⟩,
        by rw [hstep]; exact networkStep_failed hsome⟩
    · exact ⟨.network s.network.input, ⟨_, rfl, hclosed⟩, hsome⟩
  step := by
    intro s l s' es _ h hs
    have hup' := queuesUp_step h.up hs
    have hcr' := created_mono hs h.created
    by_cases hl : Own .network s l
    · obtain ⟨hl, -⟩ := hl
      cases l <;> simp only [Label.task, reduceCtorEq] at hl
      rename_i input
      rw [show firmware.step s (.network input) = networkStep s input from if_pos h.created] at hs
      rcases networkStep_distance h hs with hdone | ⟨hserving, hread, hle, hlt⟩
      · exact Or.inl hdone
      · refine Or.inr ⟨⟨hup', hcr', hserving, hread⟩, hle, ?_⟩
        rintro ⟨input', hin, hne⟩
        cases hin
        exact hlt hne
    · have hframe := network_frame hl hs
      refine Or.inr ⟨⟨hup', hcr', hframe ▸ h.serving, hframe ▸ h.read⟩, by rw [hframe], ?_⟩
      rintro ⟨input, rfl, -⟩
      exact absurd ⟨rfl, by simp⟩ hl

/-- **How long a connection is served.** Once a connection has been accepted, and whatever the peer
sends and the other tasks do: until `network_task` is back at `accept` it can take a step that is
no `recv` that returns 0, and it takes at most 1034 of those. A peer whose connection has ended
may keep it for ever, in steps that are. -/
theorem connection_served (h0 : firmware.init s₀) (hrun : firmware.Run s₀ tr s)
    (hcr : s.init.created .network = true) {data : Bytes}
    (hpc : s.network = .reading (.start dataSize data)) (hrun' : firmware.Run s tr' s') :
    (∃ tn ∈ tr', BackAtAccept tn) ∨ (firmware.Enabled Serves s' ∧
      tr'.countP (fun tn => decide (Serves tn.src tn.label)) ≤ 1034) := by
  by_cases hdone : ∃ tn ∈ tr', BackAtAccept tn
  · exact Or.inl hdone
  · right
    have hstart : Serving s := ⟨queuesUp_run h0 hrun, hcr, by rw [hpc]; rfl,
      [], by rw [hpc]; exact ⟨data, start_inv⟩⟩
    obtain ⟨hend, hcount⟩ := network_ranking.count_le hrun' hstart (fun _ _ => trivial)
      fun tn htn hl => hdone ⟨tn, htn, hl⟩
    have hle : s.network.distance = 1034 := by
      rw [hpc]
      rfl
    exact ⟨network_ranking.enabled _ hend, by omega⟩

/-- A client that connects and delivers half a prefix. -/
theorem connection_served_half : ∃ s₀ tr s tr' s', firmware.init s₀ ∧ firmware.Run s₀ tr s ∧
    firmware.Run s tr' s' ∧ (history tr').filterMap Event.answer = [.data [0x00]] ∧
    ((∃ tn ∈ tr', BackAtAccept tn) ∨ (firmware.Enabled Serves s' ∧
      tr'.countP (fun tn => decide (Serves tn.src tn.label)) ≤ 1034)) := by
  obtain ⟨tr, s, hrun, hq⟩ := System.exists_run (M := firmware)
    (Q := fun _ s => decide (s.init = .deleted) && s.network.accepting)
    (State.boot (blockData fun _ => 0)) startUp (by decide +kernel)
  obtain ⟨hinit, hn⟩ := (Bool.and_eq_true _ _).mp hq
  have hcr : s.init.created .network = true := by
    rw [of_decide_eq_true hinit]
    rfl
  have haccept : networkStep s (.accepted fun _ => 0) =
      some ({ s with network := .reading (.start dataSize fun _ => 0) },
        [.use .lwip, .accepted]) := by
    unfold networkStep
    rw [NetworkPc.eq_accept hn]
  have hrun₁ := hrun.snoc (step_network hcr haccept)
  obtain ⟨s₁, hs₁⟩ : ∃ s₁ : State,
    s₁ = { s with network := .reading (.start dataSize fun _ => 0) } := ⟨_, rfl⟩
  rw [← hs₁] at hrun₁
  have hcr₁ : s₁.init.created .network = true := by
    rw [hs₁]
    exact hcr
  have hpc₁ : s₁.network = .reading (.start dataSize fun _ => 0) := by rw [hs₁]
  have hhalf := System.Run.nil.snoc (step_network hcr₁ (networkStep_recv hpc₁
    (r := .data [0x00]) (by simp [ReadState.Running, ReadState.start, ReadState.lengthLoop])
    (by decide)))
  exact ⟨_, _, _, _, _, ⟨_, rfl⟩, hrun₁, hhalf, rfl,
    connection_served ⟨_, rfl⟩ hrun₁ hcr₁ hpc₁ hhalf⟩

end Pcrb
