import Pcrb.Proof.Grammar
import Pcrb.Spec.Firmware

/-!
# What a step can do

`CliStep`, `SwitchStep`, `NetworkStep` and `MonitorStep` list the steps of the tasks that
share the queue or the pin, one constructor a step; `TaskStep` is a step of the firmware
by the task that takes it. For the queue, `step_cases` sorts them into the steps of its
three users and those in the background.
-/

namespace Pcrb

variable {s s' : State} {es : List Event}

/-- The steps of `cli_task`. -/
inductive CliStep (s : State) (line : List UInt8) : State → List Event → Prop
  | line : s.cli = .prompt → CliStep s line { s with cli := .run (command line) } [.line line]
  | print : s.cli = .run [] → CliStep s line { s with cli := .prompt } [.printed s.output]
  | format {action todo message} : s.cli = .run (action :: todo) →
      (action = .format message ∨ action.Reports ∧ ∀ t, message ≠ .toggling t) →
      CliStep s line { s with output := some message, cli := .run todo } [.formatted message]
  | store {select todo} : s.cli = .run (.setBootSelect select :: todo) →
      CliStep s line { s with ram := setBootSelect s.ram select, cli := .run todo } []
  | use {resource todo} : s.cli = .run (.use resource :: todo) →
      CliStep s line { s with cli := .run todo } [.use resource]
  | toggle {time todo} : s.cli = .run (.toggle time :: todo) →
      CliStep s line { s with cli := .get .test time todo } []
  | getNext {pc pc' time todo comms} : s.cli = .get pc time todo →
      s.comms.get pc = (comms, .next pc') →
      CliStep s line { s with comms := comms, cli := .get pc' time todo } []
  | getReturned {pc h time todo comms} : s.cli = .get pc time todo →
      s.comms.get pc = (comms, .returned h) →
      CliStep s line { s with comms := comms, cli := .send h time todo } [.got .cli h]
  | send {h time todo comms ok} : s.cli = .send (some h) time todo →
      s.comms.xQueueSendToBack h time = some (comms, ok) →
      CliStep s line { s with comms := comms, cli := .run todo } [.sent .cli h time ok]

theorem cliStep_of_eq {line : List UInt8} (h : cliStep s line = some (s', es)) :
    CliStep s line s' es := by
  unfold cliStep at h
  cases hpc : s.cli with
  | prompt =>
    simp only [hpc, Option.some.injEq, Prod.mk.injEq] at h
    obtain ⟨rfl, rfl⟩ := h
    exact .line hpc
  | run todo =>
    cases todo with
    | nil =>
      simp only [hpc, Option.some.injEq, Prod.mk.injEq] at h
      obtain ⟨rfl, rfl⟩ := h
      exact .print hpc
    | cons action todo =>
      cases action <;>
        simp only [hpc, cliFormat, Option.some.injEq, Prod.mk.injEq, reduceCtorEq] at h
      case format message => obtain ⟨rfl, rfl⟩ := h; exact .format hpc (Or.inl rfl)
      -- these three are formatted from the state of the device
      case formatSense => obtain ⟨rfl, rfl⟩ := h; exact .format hpc (Or.inr ⟨trivial, nofun⟩)
      case formatBootSelect => obtain ⟨rfl, rfl⟩ := h; exact .format hpc (Or.inr ⟨trivial, nofun⟩)
      case formatSetBootSelect => obtain ⟨rfl, rfl⟩ := h; exact .format hpc (Or.inr ⟨trivial, nofun⟩)
      case setBootSelect => obtain ⟨rfl, rfl⟩ := h; exact .store hpc
      case toggle => obtain ⟨rfl, rfl⟩ := h; exact .toggle hpc
      case use => obtain ⟨rfl, rfl⟩ := h; exact .use hpc
  | get pc time todo =>
    simp only [hpc] at h
    cases hget : s.comms.get pc with
    | mk comms result =>
      cases result <;> simp only [hget, Option.some.injEq, Prod.mk.injEq] at h <;>
        obtain ⟨rfl, rfl⟩ := h
      · exact .getNext hpc hget
      · exact .getReturned hpc hget
  | send handle time todo =>
    -- there is a step only with a handle, and with the queue of that handle
    cases handle with
    | none => simp [hpc] at h
    | some q =>
      simp only [hpc] at h
      obtain ⟨⟨comms, ok⟩, hsend, he⟩ := Option.map_eq_some_iff.1 h
      simp only [Prod.mk.injEq] at he
      obtain ⟨rfl, rfl⟩ := he
      exact .send hpc hsend

/-- The steps of `switch_task`. -/
inductive SwitchStep (s : State) : State → List Event → Prop
  | ctorNext {pc pc' g} : s.switch = .ctor pc →
      pcSwitch false (s.pins switchGpio) pc = (g, some pc') →
      SwitchStep s { s.setPin switchGpio g with switch := .ctor pc' } []
  | ctorDone {pc g} : s.switch = .ctor pc →
      pcSwitch false (s.pins switchGpio) pc = (g, none) →
      SwitchStep s { s.setPin switchGpio g with switch := .get .test } []
  | getNext {pc pc' comms} : s.switch = .get pc → s.comms.get pc = (comms, .next pc') →
      SwitchStep s { s with comms := comms, switch := .get pc' } []
  | getReturned {pc h comms} : s.switch = .get pc → s.comms.get pc = (comms, .returned h) →
      SwitchStep s { s with comms := comms, switch := .receive h } [.got .switch h]
  | receive {h data comms} : s.switch = .receive (some h) →
      s.comms.xQueueReceive h = some (data, comms) →
      SwitchStep s { s with comms := comms, switch := .ledOn data } [.received h data]
  | ledOn {data} : s.switch = .ledOn data →
      SwitchStep s { s with switch := .setHigh data } [.use .cyw43]
  | setHigh {data} : s.switch = .setHigh data →
      SwitchStep s
        { s.setPin switchGpio ((s.pins switchGpio).put true) with switch := .delay data }
        [.pulse data]
  | delay {data} : s.switch = .delay data → SwitchStep s { s with switch := .ledOff data } []
  | ledOff {data} : s.switch = .ledOff data →
      SwitchStep s { s with switch := .setLow data } [.use .cyw43]
  | setLow {data} : s.switch = .setLow data →
      SwitchStep s
        { s.setPin switchGpio ((s.pins switchGpio).put false) with switch := .get .test } []

theorem switchStep_of_eq (h : switchStep s = some (s', es)) : SwitchStep s s' es := by
  unfold switchStep at h
  cases hpc : s.switch with
  | ctor pc =>
    simp only [hpc] at h
    cases hctor : pcSwitch false (s.pins switchGpio) pc with
    | mk g next =>
      cases next <;> simp only [hctor, Option.some.injEq, Prod.mk.injEq] at h <;>
        obtain ⟨rfl, rfl⟩ := h
      · exact .ctorDone hpc hctor
      · exact .ctorNext hpc hctor
  | get pc =>
    simp only [hpc] at h
    cases hget : s.comms.get pc with
    | mk comms result =>
      cases result <;> simp only [hget, Option.some.injEq, Prod.mk.injEq] at h <;>
        obtain ⟨rfl, rfl⟩ := h
      · exact .getNext hpc hget
      · exact .getReturned hpc hget
  | receive handle =>
    cases handle with
    | none => simp [hpc] at h
    | some q =>
      simp only [hpc] at h
      obtain ⟨⟨data, comms⟩, hreceive, he⟩ := Option.map_eq_some_iff.1 h
      simp only [Prod.mk.injEq] at he
      obtain ⟨rfl, rfl⟩ := he
      exact .receive hpc hreceive
  | ledOn data =>
    simp only [hpc, Option.some.injEq, Prod.mk.injEq] at h
    obtain ⟨rfl, rfl⟩ := h
    exact .ledOn hpc
  | setHigh data =>
    simp only [hpc, Option.some.injEq, Prod.mk.injEq] at h
    obtain ⟨rfl, rfl⟩ := h
    exact .setHigh hpc
  | delay data =>
    simp only [hpc, Option.some.injEq, Prod.mk.injEq] at h
    obtain ⟨rfl, rfl⟩ := h
    exact .delay hpc
  | ledOff data =>
    simp only [hpc, Option.some.injEq, Prod.mk.injEq] at h
    obtain ⟨rfl, rfl⟩ := h
    exact .ledOff hpc
  | setLow data =>
    simp only [hpc, Option.some.injEq, Prod.mk.injEq] at h
    obtain ⟨rfl, rfl⟩ := h
    exact .setLow hpc

/-- An action of a pass that only answers or writes the disk, with what it shows. -/
def actionEvents (s : State) (action : Action) : List Event :=
  (action.replies s.ram s.pcState).flatMap fun reply => [.use .lwip, .reply reply]

/-- The steps of `network_task`. -/
inductive NetworkStep (s : State) : State → List Event → Prop
  | listen : s.network = .listen → NetworkStep s { s with network := .accept } [.use .lwip]
  | listenFailed : s.network = .listen → NetworkStep s s [.use .lwip]
  | accepted {data} : s.network = .accept →
      NetworkStep s { s with network := .reading (.start dataSize data) } [.use .lwip, .accepted]
  | acceptFailed : s.network = .accept → NetworkStep s s [.use .lwip]
  | readDone {result data} : s.network = .reading (.done result data) →
      NetworkStep s { s with network := .handling (handleRequest data result) } []
  | recv {st r} : s.network = .reading st → r.Valid st.requested →
      NetworkStep s { s with network := .reading (st.recv dataSize r) } [.use .lwip, .recv r]
  | handled : s.network = .handling [] → NetworkStep s { s with network := .accept } []
  | act {action todo} : s.network = .handling (action :: todo) →
      (∀ t, action ≠ .xQueueSendToBack t) →
      NetworkStep s { s with ram := action.store s.ram, network := .handling todo }
        (actionEvents s action)
  | toggle {time todo} : s.network = .handling (.xQueueSendToBack time :: todo) →
      NetworkStep s { s with network := .get .test time todo } []
  | getNext {pc pc' time todo comms} : s.network = .get pc time todo →
      s.comms.get pc = (comms, .next pc') →
      NetworkStep s { s with comms := comms, network := .get pc' time todo } []
  | getReturned {pc h time todo comms} : s.network = .get pc time todo →
      s.comms.get pc = (comms, .returned h) →
      NetworkStep s { s with comms := comms, network := .send h time todo } [.got .network h]
  | send {h time todo comms ok} : s.network = .send (some h) time todo →
      s.comms.xQueueSendToBack h time = some (comms, ok) →
      NetworkStep s { s with comms := comms, network := .handling todo } [.sent .network h time ok]

theorem networkStep_reading {st : ReadState} {input : NetworkInput} (hpc : s.network = .reading st)
    (h : networkStep s input = some (s', es)) : NetworkStep s s' es := by
  unfold networkStep at h
  cases st with
  | done result data =>
    simp only [hpc, Option.some.injEq, Prod.mk.injEq] at h
    obtain ⟨rfl, rfl⟩ := h
    exact .readDone hpc
  | length | payload =>
    cases input <;> simp only [hpc, reduceCtorEq] at h
    split at h
    · simp only [Option.some.injEq, Prod.mk.injEq] at h
      obtain ⟨rfl, rfl⟩ := h
      exact .recv hpc ‹_›
    · cases h

theorem networkStep_of_eq {input : NetworkInput} (h : networkStep s input = some (s', es)) :
    NetworkStep s s' es := by
  cases hpc : s.network with
  | listen =>
    unfold networkStep at h
    cases input <;> simp only [hpc, Option.some.injEq, Prod.mk.injEq, reduceCtorEq] at h <;>
      obtain ⟨rfl, rfl⟩ := h
    · exact .listen hpc
    · exact .listenFailed hpc
  | accept =>
    unfold networkStep at h
    cases input <;> simp only [hpc, Option.some.injEq, Prod.mk.injEq, reduceCtorEq] at h <;>
      obtain ⟨rfl, rfl⟩ := h
    · exact .acceptFailed hpc
    · exact .accepted hpc
  | reading st => exact networkStep_reading hpc h
  | handling todo =>
    unfold networkStep at h
    cases todo with
    | nil =>
      simp only [hpc, Option.some.injEq, Prod.mk.injEq] at h
      obtain ⟨rfl, rfl⟩ := h
      exact .handled hpc
    | cons action todo =>
      cases action with
      | xQueueSendToBack time =>
        simp only [hpc, Option.some.injEq, Prod.mk.injEq] at h
        obtain ⟨rfl, rfl⟩ := h
        exact .toggle hpc
      | send | sendBootSelect | sendPcState | setBootSelect =>
        simp only [hpc, Option.some.injEq, Prod.mk.injEq] at h
        obtain ⟨rfl, rfl⟩ := h
        exact .act hpc nofun
  | get pc time todo =>
    unfold networkStep at h
    simp only [hpc] at h
    cases hget : s.comms.get pc with
    | mk comms result =>
      cases result <;> simp only [hget, Option.some.injEq, Prod.mk.injEq] at h <;>
        obtain ⟨rfl, rfl⟩ := h
      · exact .getNext hpc hget
      · exact .getReturned hpc hget
  | send handle time todo =>
    unfold networkStep at h
    cases handle with
    | none => simp [hpc] at h
    | some q =>
      simp only [hpc] at h
      obtain ⟨⟨comms, ok⟩, hsend, he⟩ := Option.map_eq_some_iff.1 h
      simp only [Prod.mk.injEq] at he
      obtain ⟨rfl, rfl⟩ := he
      exact .send hpc hsend

/-- The steps of `monitor_task`; none of them shows anything. -/
inductive MonitorStep (s : State) : State → Prop
  | own {g monitor} : (∀ pc, s.monitor ≠ .ctor pc) →
      MonitorStep s { s.setPin onStateGpio g with monitor := monitor }
  | ctor {pc g next monitor} : s.monitor = .ctor pc →
      pcSwitch false (s.pins switchGpio) pc = (g, next) →
      MonitorStep s { s.setPin switchGpio g with monitor := monitor }
  | loop {level} : s.monitor = .loop →
      MonitorStep s { s with pcState := level, monitor := .loop }

theorem monitorStep_of_eq {level : Bool} (h : monitorStep s level = some (s', es)) :
    MonitorStep s s' ∧ es = [] := by
  unfold monitorStep at h
  cases hpc : s.monitor with
  | ctor pc =>
    simp only [hpc] at h
    split at h
    all_goals
      rename_i hctor
      simp only [Option.some.injEq, Prod.mk.injEq] at h
      obtain ⟨rfl, rfl⟩ := h
      exact ⟨.ctor hpc hctor, rfl⟩
  | gpioInit | gpioPullDown | gpioSetDir =>
    simp only [hpc, Option.some.injEq, Prod.mk.injEq] at h
    obtain ⟨rfl, rfl⟩ := h
    exact ⟨.own (by rw [hpc]; exact nofun), rfl⟩
  | loop =>
    simp only [hpc, Option.some.injEq, Prod.mk.injEq] at h
    obtain ⟨rfl, rfl⟩ := h
    exact ⟨.loop hpc, rfl⟩

/-- A step of the firmware is a step of one task that has been created, or a callback. -/
inductive TaskStep (s : State) : Label → State → List Event → Prop
  | init {u fs} : initStep s = some (u, fs) → TaskStep s .init u fs
  | cli {line u fs} : s.init.created .cli = true → CliStep s line u fs →
      TaskStep s (.cli line) u fs
  | wifi {ok u fs} : wifiStep s ok = some (u, fs) → TaskStep s (.wifi ok) u fs
  | callback : s.wifi.callbackSet = true → TaskStep s .callback s [.use .cyw43, .use .cyw43]
  | switch {u fs} : s.init.created .switch = true → SwitchStep s u fs → TaskStep s .switch u fs
  | network {input u fs} : s.init.created .network = true → NetworkStep s u fs →
      TaskStep s (.network input) u fs
  | monitor {level u} : s.init.created .monitor = true → MonitorStep s u →
      TaskStep s (.monitor level) u []

theorem taskStep_of_eq {l : Label} (h : firmware.step s l = some (s', es)) :
    TaskStep s l s' es := by
  change step s l = some (s', es) at h
  cases l with
  | init => exact .init h
  | callback =>
    simp only [step, callbackStep] at h
    split at h
    · rename_i hset
      simp only [Option.some.injEq, Prod.mk.injEq] at h
      obtain ⟨rfl, rfl⟩ := h
      exact .callback hset
    · cases h
  | cli line =>
    simp only [step] at h
    split at h
    · exact .cli ‹_› (cliStep_of_eq h)
    · cases h
  | wifi ok =>
    simp only [step] at h
    split at h
    · exact .wifi h
    · cases h
  | switch =>
    simp only [step] at h
    split at h
    · exact .switch ‹_› (switchStep_of_eq h)
    · cases h
  | network input =>
    simp only [step] at h
    split at h
    · exact .network ‹_› (networkStep_of_eq h)
    · cases h
  | monitor level =>
    simp only [step] at h
    split at h
    · obtain ⟨hm, rfl⟩ := monitorStep_of_eq h
      exact .monitor ‹_› hm
    · cases h

/-! ### The background -/

/-- `init_task`, `wifi_management_task`, the callbacks and `monitor_task` leave the queue
and its users alone, and show nothing but uses of the wifi chip. -/
structure Background (s s' : State) (es : List Event) : Prop where
  comms : s'.comms = s.comms
  cli : s'.cli = s.cli
  switch : s'.switch = s.switch
  network : s'.network = s.network
  events : ∀ e ∈ es, ∃ r, e = .use r

theorem initStep_background (h : initStep s = some (s', es)) : Background s s' es := by
  unfold initStep at h
  cases hpc : s.init <;> simp only [hpc, Option.some.injEq, Prod.mk.injEq, reduceCtorEq] at h <;>
    obtain ⟨rfl, rfl⟩ := h <;> exact ⟨rfl, rfl, rfl, rfl, by simp⟩

theorem wifiStep_background {ok : Bool} (h : wifiStep s ok = some (s', es)) :
    Background s s' es := by
  unfold wifiStep at h
  cases hpc : s.wifi <;> cases ok <;>
    simp only [hpc, if_true, Bool.false_eq_true, if_false, Option.some.injEq, Prod.mk.injEq] at h <;>
    obtain ⟨rfl, rfl⟩ := h <;> exact ⟨rfl, rfl, rfl, rfl, by simp⟩

/-- `init_task` changes nothing but where it is. -/
theorem initStep_frame (h : initStep s = some (s', es)) : ∃ pc, s' = { s with init := pc } := by
  unfold initStep at h
  cases hpc : s.init <;> simp only [hpc, Option.some.injEq, Prod.mk.injEq, reduceCtorEq] at h <;>
    exact ⟨_, h.1.symm⟩

/-- `wifi_management_task` changes where it is, and what it brings up. -/
theorem wifiStep_frame {ok : Bool} (h : wifiStep s ok = some (s', es)) :
    ∃ cyw43 netif wifiInitd pc,
      s' = { s with cyw43 := cyw43, netif := netif, wifiInitd := wifiInitd, wifi := pc } := by
  unfold wifiStep at h
  cases hpc : s.wifi <;> cases ok <;>
    simp only [hpc, if_true, Bool.false_eq_true, if_false, Option.some.injEq, Prod.mk.injEq] at h <;>
    exact ⟨_, _, _, _, h.1.symm⟩

theorem monitorStep_background (h : MonitorStep s s') : Background s s' [] := by
  cases h <;> exact ⟨rfl, rfl, rfl, rfl, nofun⟩

/-- **Every step** is one of the three users of the queue, or in the background. -/
theorem step_cases {l : Label} (h : firmware.step s l = some (s', es)) :
    Background s s' es ∨ (∃ line, l = .cli line ∧ CliStep s line s' es) ∨
      (l = .switch ∧ SwitchStep s s' es) ∨ (∃ input, l = .network input ∧ NetworkStep s s' es) := by
  cases taskStep_of_eq h with
  | init h => exact Or.inl (initStep_background h)
  | cli _ hc => exact Or.inr (Or.inl ⟨_, rfl, hc⟩)
  | wifi h => exact Or.inl (wifiStep_background h)
  | callback _ => exact Or.inl ⟨rfl, rfl, rfl, rfl, by simp⟩
  | switch _ hw => exact Or.inr (Or.inr (Or.inl ⟨rfl, hw⟩))
  | network _ hn => exact Or.inr (Or.inr (Or.inr ⟨_, rfl, hn⟩))
  | monitor _ hm => exact Or.inl (monitorStep_background hm)

/-! ### Schedules -/

/-- From power on to all tasks at work, wifi coming up at the first attempt, and
`switch_task` blocked on the queue. -/
def startUp : List Label :=
  List.replicate 2 .init ++ List.replicate 7 (.wifi true) ++ List.replicate 5 .init ++
    List.replicate 8 .switch ++ [.network .ok]

/-- A client that asks for a pulse of `t`, up to the send. -/
def networkToggle (t : UInt32) : List Label :=
  [.network (.accepted fun _ => 0), .network (.recv (.data [0x00, 0x0C])),
    .network (.recv (.data (toggleFrame t)))] ++ List.replicate 7 (.network .ok)

/-- A toggle line typed at the prompt, up to the print. -/
def cliToggle (line : String) : List Label := List.replicate 7 (.cli (ascii line))

end Pcrb
