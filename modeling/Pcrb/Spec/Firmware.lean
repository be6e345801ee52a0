import Pcrb.Lib.Lts
import Pcrb.Spec.Cli
import Pcrb.Spec.Network
import Pcrb.Spec.Switch

/-!
# The firmware (`main.cpp` and the tasks)

The six tasks run on two cores with nothing between them but the scheduler, so the
system takes one step of one task at a time, in any order. A step is an access to
shared state or a call of a library; a label carries what the environment answers.

Each task has its own step function, which follows the task's code from one such
point to the next.
-/

namespace Pcrb

inductive Task
  | init
  | cli
  | wifi
  | switch
  | network
  | monitor
deriving DecidableEq

/-- `init_task`: the calls of `xTaskCreateAffinitySet`, with the wait for `wifi_initd`. -/
inductive InitPc
  | createCli
  | createWifi
  | wait
  | logIp
  | createSwitch
  | createNetwork
  | createMonitor
  | deleted
deriving DecidableEq

/-- The tasks that `init_task` has created by then. -/
def InitPc.created : InitPc → Task → Bool
  | _, .init => true
  | pc, .cli => pc != .createCli
  | pc, .wifi => pc != .createCli && pc != .createWifi
  | pc, .switch => pc == .createNetwork || pc == .createMonitor || pc == .deleted
  | pc, .network => pc == .createMonitor || pc == .deleted
  | pc, .monitor => pc == .deleted

/-- `cli_task`: waiting for a line, in `command` with what is left of it, and in
`toggle` with its `get` and its send. -/
inductive CliPc
  | prompt
  | run (todo : List CliAction)
  | get (pc : GetPc) (time : UInt32) (todo : List CliAction)
  | send (handle : Option ℕ) (time : UInt32) (todo : List CliAction)
deriving DecidableEq

/-- `wifi_management_task`. -/
inductive WifiPc
  | archInit
  | enableSta
  | pm
  | setStatusCallback
  | setLinkCallback
  | connect
  | connectFailed
  | setInitd
  | linkStatus
  | poll
  | leave
  | reconnect
deriving DecidableEq

/-- `switch_task`: the constructor of its `pc_switch<22>`, then the turns of its loop. -/
inductive SwitchPc
  | ctor (pc : CtorPc)
  | get (pc : GetPc)
  | receive (handle : Option ℕ)
  | ledOn (data : UInt32)
  | setHigh (data : UInt32)
  | delay (data : UInt32)
  | ledOff (data : UInt32)
  | setLow (data : UInt32)
deriving DecidableEq

/-- `network_task`. -/
inductive NetworkPc
  | listen
  | accept
  | reading (st : ReadState)
  | handling (todo : List Action)
  | get (pc : GetPc) (time : UInt32) (todo : List Action)
  | send (handle : Option ℕ) (time : UInt32) (todo : List Action)

/-- `monitor_task`. -/
inductive MonitorPc
  | gpioInit
  | gpioPullDown
  | gpioSetDir
  | ctor (pc : CtorPc)
  | loop
deriving DecidableEq

/-- What a step shows. -/
inductive Event
  | use (resource : Resource)
  | line (line : List UInt8)
  | formatted (message : Message)
  | printed (output : Option Message)
  | accepted
  | recv (result : RecvResult)
  | reply (reply : Reply)
  | got (task : Task) (handle : Option ℕ)
  | sent (task : Task) (handle : ℕ) (time : UInt32) (ok : Bool)
  | received (handle : ℕ) (time : UInt32)
  | pulse (time : UInt32)

/-- The answer of the socket library to `network_task`. -/
inductive NetworkInput
  | ok
  | failed
  | accepted (data : Bytes)
  | recv (result : RecvResult)

/-- The task that steps, and what the environment answers it where it asks: the line
typed, whether a wifi call succeeds, the level of the monitored pin. -/
inductive Label
  | init
  | cli (line : List UInt8)
  | wifi (ok : Bool)
  | callback
  | switch
  | network (input : NetworkInput)
  | monitor (level : Bool)

structure State where
  pins : ℕ → Gpio
  comms : SwitchQueue
  ram : Bytes
  pcState : Bool
  /-- What `output` holds: the message formatted last. -/
  output : Option Message
  /-- `cyw43_arch_init_with_country` has succeeded. -/
  cyw43 : Bool
  /-- `netif_default` and `netif_list` are not null. -/
  netif : Bool
  wifiInitd : Bool
  init : InitPc
  cli : CliPc
  wifi : WifiPc
  switch : SwitchPc
  network : NetworkPc
  monitor : MonitorPc

namespace State

/-- The firmware as it starts, with every task at its first line. -/
def boot (ram : Bytes) : State where
  pins _ := Gpio.reset
  comms := SwitchQueue.initial
  ram := ram
  pcState := false
  output := none
  cyw43 := false
  netif := false
  wifiInitd := false
  init := .createCli
  cli := .prompt
  wifi := .archInit
  switch := .ctor .gpioInit
  network := .listen
  monitor := .gpioInit

/-- The state after a call on a pin. -/
def setPin (s : State) (pin : ℕ) (g : Gpio) : State :=
  { s with pins := Function.update s.pins pin g }

end State

/-- `init_task`. -/
def initStep (s : State) : Option (State × List Event) :=
  match s.init with
  | .createCli => some ({ s with init := .createWifi }, [])
  | .createWifi => some ({ s with init := .wait }, [])
  -- one turn of the loop on `wifi_initd`
  | .wait => some ({ s with init := if s.wifiInitd then .logIp else .wait }, [])
  -- the address it logs is that of `netif_default`
  | .logIp => some ({ s with init := .createSwitch }, [.use .netifDefault])
  | .createSwitch => some ({ s with init := .createNetwork }, [])
  | .createNetwork => some ({ s with init := .createMonitor }, [])
  | .createMonitor => some ({ s with init := .deleted }, [])
  | .deleted => none

/-- `snprintf` into `output`. -/
def cliFormat (s : State) (message : Message) (todo : List CliAction) :
    Option (State × List Event) :=
  some ({ s with output := some message, cli := .run todo }, [.formatted message])

/-- `cli_task`. It does not come back from a reset, nor from an exception. -/
def cliStep (s : State) (line : List UInt8) : Option (State × List Event) :=
  match s.cli with
  | .prompt => some ({ s with cli := .run (command line) }, [.line line])
  -- `run` prints the buffer, whether this line has written to it or not
  | .run [] => some ({ s with cli := .prompt }, [.printed s.output])
  | .run (action :: todo) =>
    match action with
    | .format message => cliFormat s message todo
    | .formatSense => cliFormat s (.sense s.pcState) todo
    | .formatBootSelect => cliFormat s (.bootSelect (getBootSelect s.ram)) todo
    | .formatSetBootSelect select => cliFormat s (.setBootSelect select (getBootSelect s.ram)) todo
    | .setBootSelect select =>
      some ({ s with ram := setBootSelect s.ram select, cli := .run todo }, [])
    | .toggle time => some ({ s with cli := .get .test time todo }, [])
    | .use resource => some ({ s with cli := .run todo }, [.use resource])
    | .reset => none
    | .throw => none
  | .get pc time todo =>
    match s.comms.get pc with
    | (comms, .next pc) => some ({ s with comms := comms, cli := .get pc time todo }, [])
    | (comms, .returned h) =>
      some ({ s with comms := comms, cli := .send h time todo }, [.got .cli h])
  | .send none _ _ => none
  -- nobody looks at the result of the send
  | .send (some h) time todo =>
    (s.comms.xQueueSendToBack h time).map fun r =>
      ({ s with comms := r.1, cli := .run todo }, [.sent .cli h time r.2])

/-- `wifi_management_task`; `ok` is whether the call succeeded, in `poll` whether the link is
still up, and in `leave` whether there is a network to leave. -/
def wifiStep (s : State) (ok : Bool) : Option (State × List Event) :=
  match s.wifi with
  -- retried until it succeeds
  | .archInit => some (if ok then { s with cyw43 := true, wifi := .enableSta } else s, [])
  | .enableSta => some ({ s with netif := true, wifi := .pm }, [.use .cyw43])
  | .pm => some ({ s with wifi := .setStatusCallback }, [.use .cyw43])
  | .setStatusCallback => some ({ s with wifi := .setLinkCallback }, [.use .netifDefault])
  | .setLinkCallback => some ({ s with wifi := .connect }, [.use .netifDefault])
  | .connect =>
    some ({ s with wifi := if ok then .setInitd else .connectFailed }, [.use .cyw43])
  | .connectFailed => some ({ s with wifi := .connect }, [.use .cyw43])
  | .setInitd => some ({ s with wifiInitd := true, wifi := .linkStatus }, [])
  | .linkStatus => some ({ s with wifi := .poll }, [.use .cyw43])
  | .poll =>
    some ({ s with wifi := if ok then .poll else .leave }, [.use .cyw43, .use .netifDefault])
  | .leave => some ({ s with wifi := .reconnect }, if ok then [.use .cyw43] else [])
  | .reconnect => some ({ s with wifi := if ok then .poll else .reconnect }, [.use .cyw43])

/-- `status_callback` is registered. -/
def WifiPc.callbackSet : WifiPc → Bool
  | .archInit | .enableSta | .pm | .setStatusCallback => false
  | _ => true

/-- `status_callback` and `link_callback`, which the network stack calls at any time. -/
def callbackStep (s : State) : Option (State × List Event) :=
  if s.wifi.callbackSet then some (s, [.use .cyw43, .use .cyw43]) else none

/-- `switch_task`. -/
def switchStep (s : State) : Option (State × List Event) :=
  match s.switch with
  | .ctor pc =>
    match pcSwitch false (s.pins switchGpio) pc with
    | (g, some pc) => some ({ s.setPin switchGpio g with switch := .ctor pc }, [])
    | (g, none) => some ({ s.setPin switchGpio g with switch := .get .test }, [])
  | .get pc =>
    match s.comms.get pc with
    | (comms, .next pc) => some ({ s with comms := comms, switch := .get pc }, [])
    | (comms, .returned h) =>
      some ({ s with comms := comms, switch := .receive h }, [.got .switch h])
  | .receive none => none
  -- blocked while the queue is empty
  | .receive (some h) =>
    (s.comms.xQueueReceive h).map fun r =>
      ({ s with comms := r.2, switch := .ledOn r.1 }, [.received h r.1])
  | .ledOn data => some ({ s with switch := .setHigh data }, [.use .cyw43])
  | .setHigh data =>
    some ({ s.setPin switchGpio ((s.pins switchGpio).put true) with switch := .delay data },
      [.pulse data])
  | .delay data => some ({ s with switch := .ledOff data }, [])
  | .ledOff data => some ({ s with switch := .setLow data }, [.use .cyw43])
  | .setLow _ =>
    some ({ s.setPin switchGpio ((s.pins switchGpio).put false) with switch := .get .test }, [])

/-- `network_task`. -/
def networkStep (s : State) (input : NetworkInput) : Option (State × List Event) :=
  match s.network with
  | .listen =>
    match input with
    | .ok => some ({ s with network := .accept }, [.use .lwip])
    | .failed => some (s, [.use .lwip])
    | _ => none
  | .accept =>
    match input with
    | .accepted data =>
      some ({ s with network := .reading (.start dataSize data) }, [.use .lwip, .accepted])
    | .failed => some (s, [.use .lwip])
    | _ => none
  | .reading (.done result data) =>
    some ({ s with network := .handling (handleRequest data result) }, [])
  -- one call of `recv`
  | .reading st =>
    match input with
    | .recv r =>
      if r.Valid st.requested then
        some ({ s with network := .reading (st.recv dataSize r) }, [.use .lwip, .recv r])
      else none
    | _ => none
  -- the end of the pass, or its `continue`
  | .handling [] => some ({ s with network := .accept }, [])
  | .handling (action :: todo) =>
    match action with
    | .xQueueSendToBack time => some ({ s with network := .get .test time todo }, [])
    | action =>
      some ({ s with ram := action.store s.ram, network := .handling todo },
        (action.replies s.ram s.pcState).flatMap fun reply => [.use .lwip, .reply reply])
  | .get pc time todo =>
    match s.comms.get pc with
    | (comms, .next pc) => some ({ s with comms := comms, network := .get pc time todo }, [])
    | (comms, .returned h) =>
      some ({ s with comms := comms, network := .send h time todo }, [.got .network h])
  | .send none _ _ => none
  -- nor here
  | .send (some h) time todo =>
    (s.comms.xQueueSendToBack h time).map fun r =>
      ({ s with comms := r.1, network := .handling todo }, [.sent .network h time r.2])

/-- `monitor_task`. -/
def monitorStep (s : State) (level : Bool) : Option (State × List Event) :=
  match s.monitor with
  | .gpioInit =>
    some ({ s.setPin onStateGpio (s.pins onStateGpio).init with monitor := .gpioPullDown }, [])
  | .gpioPullDown =>
    some ({ s.setPin onStateGpio (s.pins onStateGpio).setPullDown with monitor := .gpioSetDir }, [])
  | .gpioSetDir =>
    some ({ s.setPin onStateGpio ((s.pins onStateGpio).setDir false) with
      monitor := .ctor .gpioInit }, [])
  -- the pin of `switch_task` again, and not the one that is watched
  | .ctor pc =>
    match pcSwitch false (s.pins switchGpio) pc with
    | (g, some pc) => some ({ s.setPin switchGpio g with monitor := .ctor pc }, [])
    | (g, none) => some ({ s.setPin switchGpio g with monitor := .loop }, [])
  | .loop => some ({ s with pcState := level }, [])

/-- A task steps once it has been created. -/
def step (s : State) : Label → Option (State × List Event)
  | .init => initStep s
  | .cli line => if s.init.created .cli then cliStep s line else none
  | .wifi ok => if s.init.created .wifi then wifiStep s ok else none
  | .callback => callbackStep s
  | .switch => if s.init.created .switch then switchStep s else none
  | .network input => if s.init.created .network then networkStep s input else none
  | .monitor level => if s.init.created .monitor then monitorStep s level else none

/-- The firmware, from power on with any contents of memory behind the disk. -/
def firmware : Lts.System State Label Event where
  init s := ∃ after, s = State.boot (blockData after)
  step := step

end Pcrb
