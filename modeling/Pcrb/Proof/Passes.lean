import Pcrb.Proof.FrontEnds
import Pcrb.Proof.Served
import Pcrb.Spec.Console
import Pcrb.Spec.Host

/-!
# A pass in one go

`commandPass` and `networkPass` are `command` and the handler as functions of the device;
`cliStep` and `networkStep` take the same actions one at a time. Where a front end is left
alone until it is done, the two come to the same.

* `command_alone`: for a line of the command line.
* `handler_alone`: for a request of a client.
-/

namespace Pcrb

open Lts

variable {s s' : State} {tr : List (Transition State Label Event)} {q : ℕ}

/-- The message that an event puts into the output buffer. -/
@[simp] def Event.message : Event → Option Message
  | .formatted message => some message
  | _ => none

/-- The reply that an event sends to the client. -/
@[simp] def Event.replied : Event → Option Reply
  | .reply r => some r
  | _ => none

/-! ### The device -/

/-- `switch_comms` once it is set up, with the handle of a queue that holds `queue`. -/
structure HoldsQueue (c : SwitchQueue) (q : ℕ) (queue : Fifo UInt32 1) : Prop where
  set : c.initialized = true
  handle : c.handle = some q
  queue : c.queues[q]? = some queue

/-- The device as a front end finds it in a state of the firmware. -/
structure HasDevice (s : State) (q : ℕ) (dev : Device) : Prop where
  comms : HoldsQueue s.comms q dev.queue
  ram : s.ram = dev.ram
  pcState : s.pcState = dev.pcState

namespace HoldsQueue

variable {c : SwitchQueue} {queue : Fifo UInt32 1}

theorem get_test (h : HoldsQueue c q queue) : c.get .test = (c, .next .read) := by
  rw [SwitchQueue.get, h.set]
  rfl

theorem get_read (h : HoldsQueue c q queue) : c.get .read = (c, .returned (some q)) := by
  rw [SwitchQueue.get, h.handle]

theorem send (h : HoldsQueue c q queue) (t : UInt32) :
    ∃ c', c.xQueueSendToBack q t = some (c', (queue.send t).2) ∧
      HoldsQueue c' q (queue.send t).1 := by
  have hlt : q < c.queues.length := (List.getElem?_eq_some_iff.1 h.queue).1
  refine ⟨{ c with queues := c.queues.set q (queue.send t).1 }, ?_, h.set, h.handle, ?_⟩
  · rw [SwitchQueue.xQueueSendToBack, h.queue, Option.map_some]
  · exact List.getElem?_set_self hlt

end HoldsQueue

/-! ### `command` -/

/-- Where `cli_task` stands with these actions still to be done. -/
inductive CliAt (q : ℕ) : CliPc → List CliAction → Prop
  | run (todo : List CliAction) : CliAt q (.run todo) todo
  | get {pc : GetPc} (time : UInt32) (todo : List CliAction) : pc = .test ∨ pc = .read →
      CliAt q (.get pc time todo) (.toggle time :: todo)
  | send (time : UInt32) (todo : List CliAction) :
      CliAt q (.send (some q) time todo) (.toggle time :: todo)

/-- `command` is over: it returns, or is in a reset or an exception. -/
def CommandOver (s : State) : Prop := s.cli = .run [] ∨ Waits s .cli

/-- How far the steps of a run have come: what `o` says of the actions done, they have done. -/
structure CommandAt (info : StatusInfo) (output : Bytes) (q : ℕ) (s : State)
    (tr : List (Transition State Label Event)) (todo : List CliAction) (o : Pass) : Prop where
  pc : CliAt q s.cli todo
  device : HasDevice s q o.device
  going : o.ended = false
  sends : (history tr).filterMap Event.offered = o.sends
  buffer : ((history tr).filterMap Event.message).foldl (formatMessage info bufferSize) output =
    o.output

section Command

variable {info : StatusInfo} {output : Bytes} {todo : List CliAction} {o : Pass}

/-- What a step adds to the run is what it adds to the pass. -/
theorem CommandAt.step {l : Label} {es : List Event} {todo' : List CliAction} {o' : Pass}
    (h : CommandAt info output q s tr todo o) (hpc : CliAt q s'.cli todo')
    (hdev : HasDevice s' q o'.device) (hgoing : o'.ended = false)
    (hsends : o.sends ++ es.filterMap Event.offered = o'.sends)
    (hbuffer : (es.filterMap Event.message).foldl (formatMessage info bufferSize) o.output =
      o'.output) :
    CommandAt info output q s' (tr ++ [⟨s, l, s', es⟩]) todo' o' := by
  refine ⟨hpc, hdev, hgoing, ?_, ?_⟩
  · rw [history_append, history_singleton, List.filterMap_append, h.sends, hsends]
  · rw [history_append, history_singleton, List.filterMap_append, List.foldl_append, h.buffer,
      hbuffer]

/-- The message that an action formats, on this device. -/
def CliAction.message (dev : Device) : CliAction → Option Message
  | .format message => some message
  | .formatSense => some (.sense dev.pcState)
  | .formatBootSelect => some (.bootSelect (getBootSelect dev.ram))
  | .formatSetBootSelect select => some (.setBootSelect select (getBootSelect dev.ram))
  | _ => none

theorem CliAction.run_of_message {action : CliAction} {message : Message}
    (h : action.message o.device = some message) (hgoing : o.ended = false) :
    action.run info o = o.format info message := by
  cases action <;> cases h <;> simp [CliAction.run, hgoing]

theorem cliStep_of_message {action : CliAction} {message : Message} {line : List UInt8}
    {dev : Device}
    (hcli : s.cli = .run (action :: todo)) (hdev : HasDevice s q dev)
    (h : action.message dev = some message) :
    cliStep s line = some ({ s with output := some message, cli := .run todo },
      [.formatted message]) := by
  obtain ⟨-, hram, hstate⟩ := hdev
  cases action <;> cases h <;> simp [cliStep, cliFormat, hcli, hram, hstate]

/-- **One step of `command`** does an action, or a part of a toggle. -/
theorem commandAt_step (h : CommandAt info output q s tr todo o) (hover : ¬ CommandOver s)
    (line : List UInt8) :
    ∃ s' es todo' o', cliStep s line = some (s', es) ∧
      CommandAt info output q s' (tr ++ [⟨s, .cli line, s', es⟩]) todo' o' ∧
      todo'.foldl (CliAction.run info) o' = todo.foldl (CliAction.run info) o := by
  have hpc := h.pc
  have hgoing := h.going
  obtain ⟨hcomms, hram, hstate⟩ := h.device
  cases hcli : s.cli with
  | prompt =>
    rw [hcli] at hpc
    cases hpc
  | run todo' =>
    rw [hcli] at hpc
    cases hpc
    cases todo with
    | nil => exact absurd (Or.inl hcli) hover
    | cons action rest =>
      rw [List.foldl_cons]
      cases hm : action.message o.device with
      | some message =>
        rw [CliAction.run_of_message hm hgoing]
        exact ⟨_, _, rest, o.format info message, cliStep_of_message hcli h.device hm,
          h.step (.run rest) ⟨hcomms, hram, hstate⟩ hgoing (List.append_nil _) rfl, rfl⟩
      | none =>
        cases action with
        | format | formatSense | formatBootSelect | formatSetBootSelect => cases hm
        | reset => exact absurd (Or.inr ⟨rest, Or.inl hcli⟩) hover
        | throw => exact absurd (Or.inr ⟨rest, Or.inr hcli⟩) hover
        | setBootSelect select =>
          have hs : cliStep s line =
              some ({ s with ram := setBootSelect s.ram select, cli := .run rest }, []) := by
            simp only [cliStep, hcli]
          refine ⟨_, _, rest, _, hs, h.step (.run rest) ?_ ?_ ?_ ?_, rfl⟩ <;>
            simp only [CliAction.run, hgoing, Bool.false_eq_true, if_false]
          · exact ⟨hcomms, by rw [hram], hstate⟩
          · exact List.append_nil _
          · rfl
        | use resource =>
          have hs : cliStep s line = some ({ s with cli := .run rest }, [.use resource]) := by
            simp only [cliStep, hcli]
          have hdone : CliAction.run info o (.use resource) = o := by
            simp only [CliAction.run, ite_self]
          rw [hdone]
          exact ⟨_, _, rest, o, hs,
            h.step (.run rest) ⟨hcomms, hram, hstate⟩ hgoing (List.append_nil _) rfl, rfl⟩
        | toggle time =>
          have hs : cliStep s line = some ({ s with cli := .get .test time rest }, []) := by
            simp only [cliStep, hcli]
          exact ⟨_, _, .toggle time :: rest, o, hs, h.step (.get time rest (Or.inl rfl))
            ⟨hcomms, hram, hstate⟩ hgoing (List.append_nil _) rfl, rfl⟩
  | get pc time rest =>
    rw [hcli] at hpc
    cases hpc with
    | get _ _ hor =>
      rcases hor with rfl | rfl
      · have hs : cliStep s line = some ({ s with cli := .get .read time rest }, []) := by
          simp only [cliStep, hcli, hcomms.get_test]
        exact ⟨_, _, .toggle time :: rest, o, hs, h.step (.get time rest (Or.inr rfl))
          ⟨hcomms, hram, hstate⟩ hgoing (List.append_nil _) rfl, rfl⟩
      · have hs : cliStep s line =
            some ({ s with cli := .send (some q) time rest }, [.got .cli (some q)]) := by
          simp only [cliStep, hcli, hcomms.get_read]
        exact ⟨_, _, .toggle time :: rest, o, hs, h.step (.send time rest)
          ⟨hcomms, hram, hstate⟩ hgoing (List.append_nil _) rfl, rfl⟩
  | send handle time rest =>
    rw [hcli] at hpc
    cases hpc with
    | send =>
      obtain ⟨c', hsend, hcomms'⟩ := hcomms.send time
      have hs : cliStep s line = some ({ s with comms := c', cli := .run rest },
          [.sent .cli q time (o.device.queue.send time).2]) := by
        simp only [cliStep, hcli, hsend, Option.map_some]
      refine ⟨_, _, rest, _, hs, h.step (.run rest) ?_ ?_ ?_ ?_, rfl⟩ <;>
        simp only [CliAction.run, hgoing, Bool.false_eq_true, if_false]
      · exact ⟨hcomms', hram, hstate⟩
      · rfl
      · rfl

theorem foldl_run_ended {o : Pass} (h : o.ended = true) (todo : List CliAction) :
    todo.foldl (CliAction.run info) o = o := by
  induction todo with
  | nil => rfl
  | cons action todo ih => rwa [List.foldl_cons, show action.run info o = o from if_pos h]

/-- Where `command` is over, the pass is. -/
theorem commandAt_over (h : CommandAt info output q s tr todo o) (hover : CommandOver s) :
    ∃ ended, todo.foldl (CliAction.run info) o = { o with ended := ended } ∧
      (ended = true ↔ Waits s .cli) := by
  have hpc := h.pc
  rcases hover with hcli | ⟨rest, hcli⟩
  · rw [hcli] at hpc
    cases hpc
    refine ⟨false, ?_, iff_of_false Bool.false_ne_true ?_⟩
    · rw [List.foldl_nil, ← h.going]
    · rintro ⟨rest, hwait | hwait⟩ <;> rw [hcli] at hwait <;> cases hwait
  · refine ⟨true, ?_, iff_of_true rfl ⟨rest, hcli⟩⟩
    rcases hcli with hcli | hcli <;> rw [hcli] at hpc <;> cases hpc <;>
      rw [List.foldl_cons, CliAction.run, h.going] <;> exact foldl_run_ended rfl rest

theorem cliStep_of_step {line : List UInt8} {r : State × List Event}
    (hs : firmware.step s (.cli line) = some r) : cliStep s line = some r := by
  have hcr : s.init.created .cli = true :=
    created_of_enabled ⟨.cli line, ⟨rfl, nofun⟩, Option.isSome_iff_exists.2 ⟨r, hs⟩⟩
  rwa [show firmware.step s (.cli line) = cliStep s line from if_pos hcr] at hs

theorem exists_line {l : Label} (h : Own .cli s l) : ∃ line, l = .cli line := by
  obtain ⟨hl, -⟩ := h
  cases l <;> simp only [Label.task, reduceCtorEq] at hl
  exact ⟨_, rfl⟩

/-- The way to the end of `command`, by steps of `cli_task`. -/
theorem command_ranking (info : StatusInfo) (output : Bytes) (q : ℕ) :
    Ranking firmware (fun s l => Own .cli s l ∧ ¬ CommandOver s)
      (fun s l => Own .cli s l ∧ ¬ CommandOver s)
      (fun s => s.init.created .cli = true ∧ (∃ tr todo o, CommandAt info output q s tr todo o) ∧
        ¬ CommandOver s) (fun tn => CommandOver tn.dst) fun s => s.cli.distance where
  enabled := by
    rintro s ⟨hcr, ⟨tr, todo, o, h⟩, hover⟩
    obtain ⟨s', es, -, -, hs, -⟩ := commandAt_step h hover []
    refine ⟨.cli [], ⟨⟨rfl, nofun⟩, hover⟩, ?_⟩
    rw [show firmware.step s (.cli []) = cliStep s [] from if_pos hcr, hs]
    rfl
  step := by
    rintro s l s' es ⟨hown, -⟩ ⟨hcr, ⟨tr, todo, o, h⟩, hover⟩ hs
    obtain ⟨line, rfl⟩ := exists_line hown
    have hcr' := created_mono hs hcr
    have hstep := cliStep_of_step hs
    obtain ⟨_, _, todo', o', hstep', h', -⟩ := commandAt_step h hover line
    obtain ⟨rfl, rfl⟩ := Prod.mk.inj (Option.some.inj (hstep.symm.trans hstep'))
    refine (em (CommandOver s')).imp id fun hover' => ⟨⟨hcr', ⟨_, _, _, h'⟩, hover'⟩, ?_⟩
    have hne : s.cli ≠ .prompt := fun hcli => by
      have hpc := h.pc
      rw [hcli] at hpc
      cases hpc
    rcases cliStep_distance (cliStep_of_eq hstep) hne with hprompt | ⟨-, hlt⟩
    · have hpc := h'.pc
      rw [hprompt] at hpc
      cases hpc
    · exact ⟨hlt.le, fun _ => hlt⟩

end Command

/-- A run of `cli_task` alone, up to the end of `command`. -/
structure CommandRun (s : State) (tr : List (Transition State Label Event)) (s' : State) :
    Prop where
  run : firmware.Run s tr s'
  own : ∀ tn ∈ tr, Own .cli tn.src tn.label ∧ ¬ CommandOver tn.src
  arrived : CommandOver s'

/-- **A line in one go.** From where `command` begins, `cli_task` alone comes to its end, and what
it has done there to the device, sent to the queue and put into the buffer is what
`commandPass` says; it does not return exactly if the pass ends early. -/
theorem command_alone {dev : Device} {line : List UInt8} (hcr : s.init.created .cli = true)
    (hdev : HasDevice s q dev) (hpc : s.cli = .run (command line)) (info : StatusInfo)
    (output : Bytes) :
    (∃ tr s', CommandRun s tr s') ∧ ∀ tr s', CommandRun s tr s' →
      HasDevice s' q (commandPass info dev output line).device ∧
      (history tr).filterMap Event.offered = (commandPass info dev output line).sends ∧
      ((history tr).filterMap Event.message).foldl (formatMessage info bufferSize) output =
        (commandPass info dev output line).output ∧
      ((commandPass info dev output line).ended = true ↔ Waits s' .cli) := by
  have hstart : CommandAt info output q s [] (command line) ⟨output, [], dev, false⟩ :=
    ⟨by rw [hpc]; exact .run _, hdev, rfl, rfl, rfl⟩
  constructor
  · by_cases hover : CommandOver s
    · exact ⟨[], s, .nil, by simp, hover⟩
    · obtain ⟨tr, tn, hrun, hown, hgoal⟩ := (command_ranking info output q).exists_run
        (fun _ _ h => h) ⟨hcr, ⟨_, _, _, hstart⟩, hover⟩
      exact ⟨_, _, hrun, hown, hgoal⟩
  · rintro tr s' ⟨hrun, hown, hover⟩
    have hend : ∃ todo o, CommandAt info output q s' tr todo o ∧
        todo.foldl (CliAction.run info) o = commandPass info dev output line := by
      refine (hrun.each (C := fun s l => Own .cli s l ∧ ¬ CommandOver s) (Q := fun _ _ => True)
        (P := fun s tr => ∃ todo o, CommandAt info output q s tr todo o ∧
          todo.foldl (CliAction.run info) o = commandPass info dev output line)
        ⟨_, _, hstart, rfl⟩ ?_ hown).1
      rintro s l s' es tr ⟨hl, hover⟩ ⟨todo, o, h, hpass⟩ hs
      obtain ⟨line', rfl⟩ := exists_line hl
      obtain ⟨_, _, todo', o', hstep, h', hsame⟩ := commandAt_step h hover line'
      obtain ⟨rfl, rfl⟩ := Prod.mk.inj (Option.some.inj ((cliStep_of_step hs).symm.trans hstep))
      exact ⟨trivial, todo', o', h', hsame.trans hpass⟩
    obtain ⟨todo, o, h, hpass⟩ := hend
    obtain ⟨ended, hended, hiff⟩ := commandAt_over h hover
    rw [← hpass, hended]
    exact ⟨h.device, h.sends, h.buffer, hiff⟩

/-- The firmware at work, with an empty queue. -/
def atWork : State :=
  { State.boot (blockData fun _ => 0) with
    init := .deleted
    comms := ⟨true, some 0, [Fifo.empty]⟩
    switch := .receive (some 0)
    network := .accept }

/-- A toggle line. -/
theorem command_alone_toggle : ∃ s tr s', s.cli = .run (command (toggleLine 70)) ∧
    CommandRun s tr s' ∧ (history tr).filterMap Event.offered = [70] := by
  let s : State := { atWork with cli := .run (command (toggleLine 70)) }
  have hdev : HasDevice s 0 ⟨Fifo.empty, atWork.ram, false⟩ := ⟨⟨rfl, rfl, rfl⟩, rfl, rfl⟩
  obtain ⟨⟨tr, s', hrun⟩, hall⟩ := command_alone rfl hdev rfl default fun _ => 0
  obtain ⟨-, hsends, -⟩ := hall tr s' hrun
  rw [commandPass_toggleLine _ _ _ (by decide)] at hsends
  exact ⟨s, tr, s', rfl, hrun, hsends⟩

/-! ### The handler -/

/-- Where `network_task` stands with these actions still to be done. -/
inductive NetworkAt (q : ℕ) : NetworkPc → List Action → Prop
  | handling (todo : List Action) : NetworkAt q (.handling todo) todo
  | get {pc : GetPc} (time : UInt32) (todo : List Action) : pc = .test ∨ pc = .read →
      NetworkAt q (.get pc time todo) (.xQueueSendToBack time :: todo)
  | send (time : UInt32) (todo : List Action) :
      NetworkAt q (.send (some q) time todo) (.xQueueSendToBack time :: todo)

/-- How far the steps of a run have come: what `o` says of the actions done, they have done. -/
structure HandlerAt (q : ℕ) (s : State) (tr : List (Transition State Label Event))
    (todo : List Action) (o : Outcome) : Prop where
  pc : NetworkAt q s.network todo
  device : HasDevice s q o.device
  replies : (history tr).filterMap Event.replied = o.replies
  sends : (history tr).filterMap Event.offered = o.sends
  selects : tr.filterMap (fun tn => tn.src.network.stores) = o.selects

section Handler

variable {todo : List Action} {o : Outcome}

theorem replied_actionEvents (s : State) (action : Action) :
    (actionEvents s action).filterMap Event.replied = action.replies s.ram s.pcState := by
  unfold actionEvents
  induction action.replies s.ram s.pcState with
  | nil => rfl
  | cons reply rest ih => exact congrArg (reply :: ·) ih

theorem offered_actionEvents (s : State) (action : Action) :
    (actionEvents s action).filterMap Event.offered = [] := by
  unfold actionEvents
  induction action.replies s.ram s.pcState with
  | nil => rfl
  | cons reply rest ih => exact ih

/-- What a step adds to the run is what it adds to the outcome. -/
theorem HandlerAt.step {l : Label} {es : List Event} {todo' : List Action} {o' : Outcome}
    (h : HandlerAt q s tr todo o) (hpc : NetworkAt q s'.network todo')
    (hdev : HasDevice s' q o'.device)
    (hreplies : o.replies ++ es.filterMap Event.replied = o'.replies)
    (hsends : o.sends ++ es.filterMap Event.offered = o'.sends)
    (hselects : o.selects ++ s.network.stores.toList = o'.selects) :
    HandlerAt q s' (tr ++ [⟨s, l, s', es⟩]) todo' o' := by
  refine ⟨hpc, hdev, ?_, ?_, ?_⟩
  · rw [history_append, history_singleton, List.filterMap_append, h.replies, hreplies]
  · rw [history_append, history_singleton, List.filterMap_append, h.sends, hsends]
  · rw [List.filterMap_append, h.selects, ← hselects]
    cases hstores : s.network.stores <;> simp [hstores]

/-- **One step of the handler** does an action, or a part of a toggle. -/
theorem handlerAt_step (h : HandlerAt q s tr todo o) (hne : s.network ≠ .handling [])
    (input : NetworkInput) :
    ∃ s' es todo' o', networkStep s input = some (s', es) ∧
      HandlerAt q s' (tr ++ [⟨s, .network input, s', es⟩]) todo' o' ∧
      todo'.foldl Action.run o' = todo.foldl Action.run o ∧
      s'.network.distance < s.network.distance := by
  have hpc := h.pc
  obtain ⟨hcomms, hram, hstate⟩ := h.device
  cases hnet : s.network with
  | listen | accept | reading =>
    rw [hnet] at hpc
    cases hpc
  | handling todo' =>
    rw [hnet] at hpc
    cases hpc
    cases todo with
    | nil => exact absurd hnet hne
    | cons action rest =>
      by_cases htoggle : ∃ t, action = .xQueueSendToBack t
      · obtain ⟨time, rfl⟩ := htoggle
        have hs : networkStep s input = some ({ s with network := .get .test time rest }, []) := by
          unfold networkStep
          simp only [hnet]
        exact ⟨_, _, .xQueueSendToBack time :: rest, o, hs,
          h.step (.get time rest (Or.inl rfl)) ⟨hcomms, hram, hstate⟩ (List.append_nil _)
            (List.append_nil _) (by rw [hnet]; exact List.append_nil _), rfl,
          by simp only [NetworkPc.distance, Action.costs_cons, Action.cost, GetPc.distance]; omega⟩
      · have hs : networkStep s input = some ({ s with
            ram := action.store s.ram, network := .handling rest }, actionEvents s action) := by
          cases action <;> first
            | exact absurd ⟨_, rfl⟩ htoggle
            | unfold networkStep
              simp only [hnet, actionEvents]
        have hquiet : Action.run o action = ⟨o.replies ++ action.replies o.device.ram o.device.pcState,
            o.sends, o.selects ++ s.network.stores.toList,
            ⟨o.device.queue, action.store o.device.ram, o.device.pcState⟩⟩ := by
          rw [hnet]
          cases action <;> first
            | exact absurd ⟨_, rfl⟩ htoggle
            | simp [Action.run, NetworkPc.stores]
        rw [List.foldl_cons, hquiet]
        refine ⟨_, _, rest, _, hs, h.step (.handling rest) ?_ ?_ ?_ rfl, rfl, ?_⟩
        · exact ⟨hcomms, by rw [hram], hstate⟩
        · rw [replied_actionEvents, hram, hstate]
        · rw [offered_actionEvents, List.append_nil]
        · have hpos : 1 ≤ action.cost := by cases action <;> simp [Action.cost]
          simp only [NetworkPc.distance, Action.costs_cons]
          omega
  | get pc time rest =>
    rw [hnet] at hpc
    have hstores : s.network.stores = none := by
      rw [hnet]
      rfl
    cases hpc with
    | get _ _ hor =>
      rcases hor with rfl | rfl
      · have hs : networkStep s input = some ({ s with network := .get .read time rest }, []) := by
          unfold networkStep
          simp only [hnet, hcomms.get_test]
        exact ⟨_, _, .xQueueSendToBack time :: rest, o, hs,
          h.step (.get time rest (Or.inr rfl)) ⟨hcomms, hram, hstate⟩ (List.append_nil _)
            (List.append_nil _) (by rw [hstores]; exact List.append_nil _), rfl,
          by simp [NetworkPc.distance, GetPc.distance]⟩
      · have hs : networkStep s input =
            some ({ s with network := .send (some q) time rest }, [.got .network (some q)]) := by
          unfold networkStep
          simp only [hnet, hcomms.get_read]
        exact ⟨_, _, .xQueueSendToBack time :: rest, o, hs,
          h.step (.send time rest) ⟨hcomms, hram, hstate⟩ (List.append_nil _)
            (List.append_nil _) (by rw [hstores]; exact List.append_nil _), rfl,
          by simp [NetworkPc.distance, GetPc.distance]⟩
  | send handle time rest =>
    rw [hnet] at hpc
    have hstores : s.network.stores = none := by
      rw [hnet]
      rfl
    cases hpc with
    | send =>
      obtain ⟨c', hsend, hcomms'⟩ := hcomms.send time
      have hs : networkStep s input = some ({ s with comms := c', network := .handling rest },
          [.sent .network q time (o.device.queue.send time).2]) := by
        unfold networkStep
        simp only [hnet, hsend, Option.map_some]
      exact ⟨_, _, rest, Action.run o (.xQueueSendToBack time), hs,
        h.step (.handling rest) ⟨hcomms', hram, hstate⟩ rfl rfl (by rw [hstores]; rfl), rfl,
        by simp [NetworkPc.distance]⟩

theorem exists_input {l : Label} (h : Own .network s l) : ∃ input, l = .network input := by
  obtain ⟨hl, -⟩ := h
  cases l <;> simp only [Label.task, reduceCtorEq] at hl
  exact ⟨_, rfl⟩

/-- The way to the end of the handler, by steps of `network_task`. -/
theorem handler_ranking (q : ℕ) :
    Ranking firmware (fun s l => Own .network s l ∧ s.network ≠ .handling [])
      (fun s l => Own .network s l ∧ s.network ≠ .handling [])
      (fun s => s.init.created .network = true ∧ (∃ tr todo o, HandlerAt q s tr todo o) ∧
        s.network ≠ .handling []) (fun tn => tn.dst.network = .handling [])
      fun s => s.network.distance where
  enabled := by
    rintro s ⟨hcr, ⟨tr, todo, o, h⟩, hne⟩
    obtain ⟨s', es, -, -, hs, -⟩ := handlerAt_step h hne .ok
    exact ⟨.network .ok, ⟨⟨rfl, nofun⟩, hne⟩, Option.isSome_iff_exists.2 ⟨_, step_network hcr hs⟩⟩
  step := by
    rintro s l s' es ⟨hown, -⟩ ⟨hcr, ⟨tr, todo, o, h⟩, hne⟩ hs
    obtain ⟨input, rfl⟩ := exists_input hown
    have hcr' := created_mono hs hcr
    obtain ⟨_, _, todo', o', hstep, h', -, hlt⟩ := handlerAt_step h hne input
    obtain ⟨rfl, rfl⟩ := Prod.mk.inj (Option.some.inj ((networkStep_of_step hs).symm.trans hstep))
    exact (em (s'.network = .handling [])).imp id fun hne' =>
      ⟨⟨hcr', ⟨_, _, _, h'⟩, hne'⟩, hlt.le, fun _ => hlt⟩

end Handler

/-- A run of `network_task` alone, up to the end of the handler. -/
structure HandlerRun (s : State) (tr : List (Transition State Label Event)) (s' : State) :
    Prop where
  run : firmware.Run s tr s'
  own : ∀ tn ∈ tr, Own .network tn.src tn.label ∧ tn.src.network ≠ .handling []
  arrived : s'.network = .handling []

/-- **A request in one go.** From where the handler begins, `network_task` alone comes to its end,
and what it has done there to the device, replied to the client, sent to the queue and stored
as boot selection is what `networkPass` says. -/
theorem handler_alone {dev : Device} {data : Bytes} {result : Except ℤ ℕ}
    (hcr : s.init.created .network = true) (hdev : HasDevice s q dev)
    (hpc : s.network = .handling (handleRequest data result)) :
    (∃ tr s', HandlerRun s tr s') ∧ ∀ tr s', HandlerRun s tr s' →
      HasDevice s' q (networkPass dev data result).device ∧
      (history tr).filterMap Event.replied = (networkPass dev data result).replies ∧
      (history tr).filterMap Event.offered = (networkPass dev data result).sends ∧
      tr.filterMap (fun tn => tn.src.network.stores) = (networkPass dev data result).selects := by
  have hstart : HandlerAt q s [] (handleRequest data result) ⟨[], [], [], dev⟩ :=
    ⟨by rw [hpc]; exact .handling _, hdev, rfl, rfl, rfl⟩
  constructor
  · by_cases hover : s.network = .handling []
    · exact ⟨[], s, .nil, by simp, hover⟩
    · obtain ⟨tr, tn, hrun, hown, hgoal⟩ := (handler_ranking q).exists_run
        (fun _ _ h => h) ⟨hcr, ⟨_, _, _, hstart⟩, hover⟩
      exact ⟨_, _, hrun, hown, hgoal⟩
  · rintro tr s' ⟨hrun, hown, hover⟩
    have hend : ∃ todo o, HandlerAt q s' tr todo o ∧
        todo.foldl Action.run o = networkPass dev data result := by
      refine (hrun.each (C := fun s l => Own .network s l ∧ s.network ≠ .handling [])
        (Q := fun _ _ => True) (P := fun s tr => ∃ todo o, HandlerAt q s tr todo o ∧
          todo.foldl Action.run o = networkPass dev data result) ⟨_, _, hstart, rfl⟩ ?_ hown).1
      rintro s l s' es tr ⟨hl, hne⟩ ⟨todo, o, h, hpass⟩ hs
      obtain ⟨input, rfl⟩ := exists_input hl
      obtain ⟨_, _, todo', o', hstep, h', hsame, -⟩ := handlerAt_step h hne input
      obtain ⟨rfl, rfl⟩ := Prod.mk.inj (Option.some.inj ((networkStep_of_step hs).symm.trans hstep))
      exact ⟨trivial, todo', o', h', hsame.trans hpass⟩
    obtain ⟨todo, o, h, hpass⟩ := hend
    have hnil := h.pc
    rw [hover] at hnil
    cases hnil
    rw [← hpass, List.foldl_nil]
    exact ⟨h.device, h.replies, h.sends, h.selects⟩

/-- A request for a pulse of 70. -/
theorem handler_alone_toggle : ∃ s tr s' data, s.network = .handling (handleRequest data (.ok 12)) ∧
    HandlerRun s tr s' ∧ (history tr).filterMap Event.replied = [.toggle 70] ∧
    (history tr).filterMap Event.offered = [70] := by
  let data : Bytes := Bytes.write (fun _ => 0) 0 (toggleFrame 70)
  let s : State := { atWork with network := .handling (handleRequest data (.ok 12)) }
  have hdev : HasDevice s 0 ⟨Fifo.empty, atWork.ram, false⟩ := ⟨⟨rfl, rfl, rfl⟩, rfl, rfl⟩
  obtain ⟨⟨tr, s', hrun⟩, hall⟩ := handler_alone rfl hdev rfl
  obtain ⟨-, hreplies, hsends, -⟩ := hall tr s' hrun
  have hpass := networkPass_toggleFrame 70 (fun _ => 0) ⟨Fifo.empty, atWork.ram, false⟩
  rw [show (toggleFrame 70).length = 12 by decide] at hpass
  rw [hpass] at hreplies hsends
  exact ⟨s, tr, s', data, rfl, hrun, hreplies, hsends⟩

end Pcrb
