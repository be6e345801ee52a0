import Pcrb.Proof.Conservation
import Pcrb.Proof.Grammar

/-!
# Every pulse was asked for

What the bytes of the current connection and the last line typed allow: `Justified` is
the invariant that ties where `cli_task` and `network_task` stand to them, through the
receive loop, the frame checks and the parser of the command line.

* `pulses_justified`: the values that reach the queue are those of the pulses, in order,
  and each of them was asked for by a toggle frame or by a toggle line.
* `one_send_each`: none of these frames and lines is behind two sends.
-/

namespace Pcrb

open Lts

/-- The bytes of the current connection. -/
def onConnection (bytes : List UInt8) : Event → List UInt8
  | .accepted => []
  | .recv (.data bs) => bytes ++ bs
  | _ => bytes

def connectionBytes (hist : List Event) : List UInt8 := hist.foldl onConnection []

/-- The last line typed. -/
def onLine (line : Option (List UInt8)) : Event → Option (List UInt8)
  | .line l => some l
  | _ => line

def lastLine (hist : List Event) : Option (List UInt8) := hist.foldl onLine none

/-- A length prefix of 12 and the frame: what a client sends for a pulse of `t`. -/
def toggleRequest (t : UInt32) : List UInt8 := [0x00, 0x0C] ++ toggleFrame t

/-- A pulse of `t` was asked for through the given front end. -/
def AskedFor (hist : List Event) (t : UInt32) : Task → Prop
  | .network => connectionBytes hist = toggleRequest t
  | .cli => ∃ line, lastLine hist = some line ∧ ToggleLine line t
  | _ => False

/-- `cli_task` is going to send `t`. -/
def CliPc.Wants (t : UInt32) : CliPc → Prop
  | .prompt => False
  | .run todo => .toggle t ∈ todo
  | .get _ time todo => time = t ∨ .toggle t ∈ todo
  | .send _ time todo => time = t ∨ .toggle t ∈ todo

/-- `network_task` is going to send `t`. -/
def NetworkPc.Wants (t : UInt32) : NetworkPc → Prop
  | .handling todo => .xQueueSendToBack t ∈ todo
  | .get _ time todo => time = t ∨ .xQueueSendToBack t ∈ todo
  | .send _ time todo => time = t ∨ .xQueueSendToBack t ∈ todo
  | _ => False

/-- What `network_task` has read is what the connection delivered. -/
def NetworkPc.Read (bytes : List UInt8) : NetworkPc → Prop
  | .reading st => ∃ stale, ReadInv dataSize stale bytes st
  | _ => True

/-- **The invariant**: both front ends want only what was asked for. -/
structure Justified (s : State) (hist : List Event) : Prop where
  cli : ∀ t, s.cli.Wants t → AskedFor hist t .cli
  network : ∀ t, s.network.Wants t → AskedFor hist t .network
  read : s.network.Read (connectionBytes hist)

variable {s₀ s s' : State} {es hist : List Event} {l : Label} {t : UInt32}
  {tr : List (Transition State Label Event)}

theorem foldl_eq_of_forall {α β : Type*} {f : β → α → β} {xs : List α}
    (h : ∀ x ∈ xs, ∀ b, f b x = b) (b : β) : xs.foldl f b = b := by
  induction xs with
  | nil => rfl
  | cons x xs ih =>
    rw [List.foldl_cons, h x List.mem_cons_self b]
    exact ih fun y hy => h y (List.mem_cons_of_mem _ hy)

theorem connectionBytes_append (hist es : List Event) :
    connectionBytes (hist ++ es) = es.foldl onConnection (connectionBytes hist) :=
  List.foldl_append

theorem lastLine_append (hist es : List Event) :
    lastLine (hist ++ es) = es.foldl onLine (lastLine hist) :=
  List.foldl_append

/-! ### What a frame asks for -/

/-- **A send comes out of a frame**: the bytes received make a toggle request. -/
theorem wants_of_read {stale data : Bytes} {rx : List UInt8} {result : Except ℤ ℕ}
    (h : ReadInv dataSize stale rx (.done result data))
    (ht : .xQueueSendToBack t ∈ handleRequest data result) : rx = toggleRequest t := by
  cases result with
  | error e => simp [handleRequest] at ht
  | ok n =>
    obtain ⟨pre, body, rfl, hpre, hn, rfl, rfl⟩ := h
    rw [handleRequest] at ht
    -- of the three kinds of frames only the toggle frame leads to a send
    rcases handlePayload_cases body stale with ⟨u, rfl, hacts⟩ | ⟨v, rfl, hacts⟩ | ⟨a, ha, hacts⟩
    · rw [hacts] at ht
      obtain rfl : t = u := by simpa using ht
      -- the frame has 12 bytes and was not cut, so its length prefix is 12
      have h12 : Bytes.ofBE pre = 12 := by
        have hlen : (toggleFrame t).length = 12 := by simp [toggleFrame]
        rw [hlen, payloadSize, dataSize] at hn
        omega
      have hb := (Bytes.ofBE_eq_iff (by rw [hpre]; decide)).1 h12
      rw [hpre] at hb
      rw [hb, toggleRequest]
      rfl
    · rw [hacts] at ht
      simp at ht
    · rw [hacts, List.mem_singleton] at ht
      subst ht
      exact absurd ha id

/-- A line that leads to a send is a toggle line. -/
theorem wants_of_command {line : List UInt8} (ht : .toggle t ∈ command line) :
    ToggleLine line t := by
  obtain ⟨rest, hrest, ⟨u, hu, hcmd⟩ | hcmd⟩ := command_cases line
  · rw [hcmd] at ht
    rcases List.mem_cons.1 ht with ht | ht
    · cases ht
    · rcases List.mem_cons.1 ht with ht | ht
      · cases ht; exact hu
      · exact absurd (hrest _ ht) id
  · rw [hcmd] at ht
    exact absurd (hrest _ ht) id

/-! ### One step -/

/-- A step whose events are of no concern to the front ends. -/
theorem Justified.quiet (hj : Justified s hist)
    (hes : ∀ e ∈ es, (∀ b, onConnection b e = b) ∧ ∀ l, onLine l e = l)
    (hcli : ∀ t, s'.cli.Wants t → s.cli.Wants t)
    (hnet : ∀ t, s'.network.Wants t → s.network.Wants t)
    (hread : s'.network = s.network ∨ ∀ b, s'.network.Read b) : Justified s' (hist ++ es) := by
  have hconn : connectionBytes (hist ++ es) = connectionBytes hist := by
    rw [connectionBytes_append]
    exact foldl_eq_of_forall (fun e he => (hes e he).1) _
  have hline : lastLine (hist ++ es) = lastLine hist := by
    rw [lastLine_append]
    exact foldl_eq_of_forall (fun e he => (hes e he).2) _
  constructor
  · intro t ht
    rw [AskedFor, hline]
    exact hj.cli t (hcli t ht)
  · intro t ht
    rw [AskedFor, hconn]
    exact hj.network t (hnet t ht)
  · rcases hread with heq | hall
    · rw [heq, hconn]
      exact hj.read
    · exact hall _

/-- A receive extends what was read by what was received. -/
theorem recv_read {stale : Bytes} {rx : List UInt8} {st : ReadState} {r : RecvResult}
    (h : ReadInv dataSize stale rx st) (hv : r.Valid st.requested) :
    ReadInv dataSize stale (onConnection rx (.recv r)) (st.recv dataSize r) := by
  cases r with
  | data bytes => exact recv_inv h hv
  | closed => rw [recv_closed h]; exact h
  | error e =>
    cases st with
    | length => trivial
    | payload => trivial
    | done result data => exact h

/-- **`cli_task`** comes to want a value only when it takes up a line. -/
theorem cliStep_justified {line : List UInt8} (hc : CliStep s line s' es)
    (hj : Justified s hist) : Justified s' (hist ++ es) := by
  have hread : s'.network = s.network ∨ ∀ b, s'.network.Read b := by
    left
    cases hc <;> rfl
  cases hc with
  | line hpc =>
    constructor
    · intro t ht
      refine ⟨line, ?_, wants_of_command ht⟩
      rw [lastLine_append]
      rfl
    · intro t ht
      rw [AskedFor, connectionBytes_append]
      exact hj.network t ht
    · rw [connectionBytes_append]
      exact hj.read
  | print hpc => exact hj.quiet (by simp [onConnection, onLine]) nofun (fun _ => id) hread
  | format hpc _ | store hpc | use hpc =>
    refine hj.quiet (by simp [onConnection, onLine]) ?_ (fun _ => id) hread
    intro t ht
    rw [hpc]
    exact List.mem_cons_of_mem _ ht
  | toggle hpc =>
    refine hj.quiet (by simp) ?_ (fun _ => id) hread
    intro t ht
    rw [hpc]
    rcases ht with rfl | ht
    · exact List.mem_cons_self
    · exact List.mem_cons_of_mem _ ht
  | getNext hpc _ | getReturned hpc _ =>
    refine hj.quiet (by simp [onConnection, onLine]) ?_ (fun _ => id) hread
    intro t ht
    rw [hpc]
    exact ht
  | send hpc _ =>
    refine hj.quiet (by simp [onConnection, onLine]) ?_ (fun _ => id) hread
    intro t ht
    rw [hpc]
    exact Or.inr ht

/-- **`network_task`** comes to want a value only when it has read a toggle request. -/
theorem networkStep_justified (hn : NetworkStep s s' es) (hj : Justified s hist) :
    Justified s' (hist ++ es) := by
  cases hn with
  | listen | handled =>
    exact hj.quiet (by simp [onConnection, onLine]) (fun _ => id) nofun (Or.inr fun _ => trivial)
  | listenFailed | acceptFailed =>
    exact hj.quiet (by simp [onConnection, onLine]) (fun _ => id) (fun _ => id) (Or.inl rfl)
  | @accepted data hpc =>
    -- a new connection: nothing has been received on it
    refine ⟨?_, nofun, ⟨data, ?_⟩⟩
    · intro t ht
      rw [AskedFor, lastLine_append]
      exact hj.cli t ht
    · rw [connectionBytes_append]
      exact start_inv
  | readDone hpc =>
    obtain ⟨stale, hinv⟩ : NetworkPc.Read _ (.reading _) := hpc ▸ hj.read
    refine ⟨?_, ?_, trivial⟩
    · intro t ht
      rw [AskedFor, List.append_nil]
      exact hj.cli t ht
    · intro t ht
      rw [AskedFor, List.append_nil]
      exact wants_of_read hinv ht
  | recv hpc hv =>
    obtain ⟨stale, hinv⟩ : NetworkPc.Read _ (.reading _) := hpc ▸ hj.read
    refine ⟨?_, nofun, ⟨stale, ?_⟩⟩
    · intro t ht
      rw [AskedFor, lastLine_append]
      exact hj.cli t ht
    · rw [connectionBytes_append]
      exact recv_read hinv hv
  | act hpc _ =>
    refine hj.quiet ?_ (fun _ => id) ?_ (Or.inr fun _ => trivial)
    · intro e he
      simp only [actionEvents, List.mem_flatMap, List.mem_cons, List.not_mem_nil, or_false] at he
      obtain ⟨r, -, rfl | rfl⟩ := he <;> exact ⟨fun _ => rfl, fun _ => rfl⟩
    · intro t ht
      rw [hpc]
      exact List.mem_cons_of_mem _ ht
  | toggle hpc =>
    refine hj.quiet (by simp) (fun _ => id) ?_ (Or.inr fun _ => trivial)
    intro t ht
    rw [hpc]
    rcases ht with rfl | ht
    · exact List.mem_cons_self
    · exact List.mem_cons_of_mem _ ht
  | getNext hpc _ | getReturned hpc _ =>
    refine hj.quiet (by simp [onConnection, onLine]) (fun _ => id) ?_ (Or.inr fun _ => trivial)
    intro t ht
    rw [hpc]
    exact ht
  | send hpc _ =>
    refine hj.quiet (by simp [onConnection, onLine]) (fun _ => id) ?_ (Or.inr fun _ => trivial)
    intro t ht
    rw [hpc]
    exact Or.inr ht

theorem justified_step (hj : Justified s hist) (hs : firmware.step s l = some (s', es)) :
    Justified s' (hist ++ es) := by
  rcases step_cases hs with hb | ⟨line, -, hc⟩ | ⟨-, hw⟩ | ⟨input, -, hn⟩
  · refine hj.quiet ?_ ?_ ?_ (Or.inl hb.network)
    · intro e he
      obtain ⟨r, rfl⟩ := hb.events e he
      exact ⟨fun _ => rfl, fun _ => rfl⟩
    · intro t ht
      rwa [hb.cli] at ht
    · intro t ht
      rwa [hb.network] at ht
  · exact cliStep_justified hc hj
  · cases hw <;>
      exact hj.quiet (by simp [onConnection, onLine]) (fun _ => id) (fun _ => id) (Or.inl rfl)
  · exact networkStep_justified hn hj

/-- A send is of a value the sending front end wants. -/
theorem wants_of_sent {τ : Task} {h : ℕ} {ok : Bool} (hs : firmware.step s l = some (s', es))
    (he : .sent τ h t ok ∈ es) :
    es = [.sent τ h t ok] ∧ ((τ = .cli ∧ s.cli.Wants t) ∨ (τ = .network ∧ s.network.Wants t)) := by
  rcases step_cases hs with hb | ⟨line, -, hc⟩ | ⟨-, hw⟩ | ⟨input, -, hn⟩
  · obtain ⟨r, hr⟩ := hb.events _ he
    cases hr
  · cases hc with
    | send hpc _ =>
      cases List.mem_singleton.1 he
      exact ⟨rfl, Or.inl ⟨rfl, by rw [hpc]; exact Or.inl rfl⟩⟩
    | _ => simp at he
  · cases hw <;> simp at he
  · cases hn with
    | send hpc _ =>
      cases List.mem_singleton.1 he
      exact ⟨rfl, Or.inr ⟨rfl, by rw [hpc]; exact Or.inl rfl⟩⟩
    | act =>
      simp only [actionEvents, List.mem_flatMap, List.mem_cons, List.not_mem_nil, or_false] at he
      obtain ⟨r, -, he | he⟩ := he <;> cases he
    | _ => simp at he

/-- **No spurious, duplicated or reordered pulses.** If all tasks work with one handle, the
durations of the pulses begun, the one `switch_task` has in hand to begin next, and what the
queue holds are, in this order, the values that went into the queue; and each was sent
for the toggle request that makes up the connection, or for the toggle line typed last. -/
theorem pulses_justified (h0 : firmware.init s₀) (hrun : firmware.Run s₀ tr s) {h : ℕ}
    (hone : OneHandle h (history tr)) :
    (history tr).filterMap Event.pulsed ++ s.switch.inHand ++ s.comms.contents h =
      (history tr).filterMap Event.sentOk ∧
    ∀ pre τ h' t post, history tr = pre ++ .sent τ h' t true :: post → AskedFor pre t τ := by
  refine ⟨pulses_run h0 hrun hone, ?_⟩
  intro pre τ h' t post heq
  obtain ⟨after, rfl⟩ := h0
  have hinit : Justified (State.boot (blockData after)) [] := ⟨nofun, nofun, trivial⟩
  refine hrun.before_event (Q := fun pre e => ∀ τ h' t, e = .sent τ h' t true → AskedFor pre t τ)
    hinit (fun _ _ _ _ _ hj hs => justified_step hj hs) ?_ pre _ post heq τ h' t rfl
  rintro s l s' es hist hj hs pre e post hes τ h' t rfl
  have he : Event.sent τ h' t true ∈ es := hes ▸ List.mem_append_right _ List.mem_cons_self
  -- a send is the only event of its step
  obtain ⟨honly, hwants⟩ := wants_of_sent hs he
  obtain rfl : pre = [] := by
    rw [honly] at hes
    cases pre with
    | nil => rfl
    | cons x pre => simp at hes
  rw [List.append_nil]
  rcases hwants with ⟨rfl, hw⟩ | ⟨rfl, hw⟩
  · exact hj.cli t hw
  · exact hj.network t hw

/-- A network toggle and a toggle typed while its pulse is running. -/
theorem pulses_justified_two : ∃ s₀ tr s, firmware.init s₀ ∧ firmware.Run s₀ tr s ∧
    (history tr).filterMap Event.pulsed = [500] ∧ s.comms.contents 0 = [70] ∧
    (history tr).filterMap Event.pulsed ++ s.switch.inHand ++ s.comms.contents 0 =
      (history tr).filterMap Event.sentOk ∧
    ∀ pre τ h' t post, history tr = pre ++ .sent τ h' t true :: post → AskedFor pre t τ := by
  obtain ⟨tr, s, hrun, hq⟩ := Lts.System.exists_run (M := firmware)
    (Q := fun tr s => decide (OneHandle 0 (history tr) ∧
      (history tr).filterMap Event.pulsed = [500] ∧ s.comms.contents 0 = [70]))
    (State.boot (blockData fun _ => 0))
    (startUp ++ networkToggle 500 ++ List.replicate 3 .switch ++ cliToggle "toggle 70")
    (by decide +kernel)
  obtain ⟨hone, hpulsed, hcontents⟩ := of_decide_eq_true hq
  exact ⟨_, tr, s, ⟨_, rfl⟩, hrun, hpulsed, hcontents, pulses_justified ⟨_, rfl⟩ hrun hone⟩

/-! ### One send for each -/

/-- A front end takes up a connection, or a line. -/
def Event.starts (τ : Task) : Event → Bool
  | .accepted => decide (τ = .network)
  | .line _ => decide (τ = .cli)
  | _ => false

/-- A front end sends. -/
def Event.sentBy (τ : Task) : Event → Bool
  | .sent σ _ _ _ => decide (σ = τ)
  | _ => false

/-- How often a front end has sent for its connection, or for its line. -/
def sends (τ : Task) (hist : List Event) : ℕ := countSince (Event.starts τ) (Event.sentBy τ) hist

def CliAction.sends : CliAction → Bool
  | .toggle _ => true
  | _ => false

def Action.sends : Action → Bool
  | .xQueueSendToBack _ => true
  | _ => false

/-- How often `cli_task` may still send for the line. -/
def CliPc.toSend : CliPc → ℕ
  | .prompt => 0
  | .run todo => todo.countP CliAction.sends
  | .get _ _ todo | .send _ _ todo => todo.countP CliAction.sends + 1

/-- How often `network_task` may still send for the connection. -/
def NetworkPc.toSend : NetworkPc → ℕ
  | .listen | .accept => 0
  | .reading _ => 1
  | .handling todo => todo.countP Action.sends
  | .get _ _ todo | .send _ _ todo => todo.countP Action.sends + 1

/-- **The invariant**: what has been sent and what may still be is no more than one. -/
structure SendsOnce (s : State) (hist : List Event) : Prop where
  cli : sends .cli hist + s.cli.toSend ≤ 1
  network : sends .network hist + s.network.toSend ≤ 1

theorem command_sends_le (line : List UInt8) : (command line).countP CliAction.sends ≤ 1 := by
  obtain ⟨rest, hquiet, hcmd⟩ := command_cases line
  have hrest : rest.countP CliAction.sends = 0 := by
    refine List.countP_eq_zero.2 fun a ha => ?_
    have hq := hquiet a ha
    cases a with
    | toggle t => exact absurd hq id
    | _ => simp [CliAction.sends]
  rcases hcmd with ⟨t, -, hcmd⟩ | hcmd
  · rw [hcmd, List.countP_cons, List.countP_cons, hrest]
    simp [CliAction.sends]
  · rw [hcmd, hrest]
    exact Nat.zero_le 1

theorem handleRequest_sends_le (data : Bytes) (result : Except ℤ ℕ) :
    (handleRequest data result).countP Action.sends ≤ 1 := by
  cases result with
  | error e => simp [handleRequest, Action.sends]
  | ok amount =>
    rw [handleRequest]
    unfold handlePayload
    dsimp only
    split_ifs <;> simp [Action.sends]

/-- Events that neither start anything nor send. -/
theorem SendsOnce.quiet (h : SendsOnce s hist)
    (hes : ∀ e ∈ es, ∀ τ, e.starts τ = false ∧ e.sentBy τ = false)
    (hcli : s'.cli.toSend ≤ s.cli.toSend) (hnet : s'.network.toSend ≤ s.network.toSend) :
    SendsOnce s' (hist ++ es) := by
  obtain ⟨hc, hn⟩ := h
  have hkeep : ∀ τ, sends τ (hist ++ es) = sends τ hist := fun τ =>
    countSince_append fun e he => hes e he τ
  constructor
  · rw [hkeep]
    omega
  · rw [hkeep]
    omega

/-- **`cli_task`** may send again when it takes up a line. -/
theorem cliStep_sendsOnce {line : List UInt8} (hc : CliStep s line s' es) (h : SendsOnce s hist) :
    SendsOnce s' (hist ++ es) := by
  cases hc with
  | line hpc =>
    have hnet : sends .network (hist ++ [.line line]) = sends .network hist :=
      countSince_append (by simp [Event.starts, Event.sentBy])
    have hcli : sends .cli (hist ++ [.line line]) = 0 := countSince_concat
    constructor
    · rw [hcli, Nat.zero_add]
      exact command_sends_le line
    · rw [hnet]
      exact h.network
  | print hpc =>
    exact h.quiet (by simp [Event.starts, Event.sentBy]) (Nat.zero_le _) le_rfl
  | format hpc _ | store hpc | use hpc =>
    refine h.quiet (by simp [Event.starts, Event.sentBy]) ?_ le_rfl
    rw [hpc, CliPc.toSend, CliPc.toSend, List.countP_cons]
    omega
  | toggle hpc =>
    refine h.quiet (by simp) ?_ le_rfl
    rw [hpc, CliPc.toSend, CliPc.toSend, List.countP_cons]
    exact le_rfl
  | getNext hpc _ | getReturned hpc _ =>
    refine h.quiet (by simp [Event.starts, Event.sentBy]) ?_ le_rfl
    rw [hpc]
    exact le_rfl
  | @send q time todo comms ok hpc _ =>
    have hnet : sends .network (hist ++ [.sent .cli q time ok]) = sends .network hist :=
      countSince_append (by simp [Event.starts, Event.sentBy])
    have hcli : sends .cli (hist ++ [.sent .cli q time ok]) = sends .cli hist + 1 :=
      countSince_concat
    have hle := h.cli
    rw [hpc, CliPc.toSend] at hle
    constructor
    · rw [hcli, CliPc.toSend]
      omega
    · rw [hnet]
      exact h.network

/-- **`network_task`** may send again when it takes up a connection. -/
theorem networkStep_sendsOnce (hn : NetworkStep s s' es) (h : SendsOnce s hist) :
    SendsOnce s' (hist ++ es) := by
  cases hn with
  | listen hpc | handled hpc =>
    exact h.quiet (by simp [Event.starts, Event.sentBy]) le_rfl (Nat.zero_le _)
  | listenFailed hpc | acceptFailed hpc =>
    exact h.quiet (by simp [Event.starts, Event.sentBy]) le_rfl le_rfl
  | @accepted data hpc =>
    have hsplit : hist ++ [.use .lwip, .accepted] = (hist ++ [.use .lwip]) ++ [.accepted] := by simp
    have hcli : sends .cli (hist ++ [.use .lwip, .accepted]) = sends .cli hist :=
      countSince_append (by simp [Event.starts, Event.sentBy])
    have hnet : sends .network (hist ++ [.use .lwip, .accepted]) = 0 := by
      rw [hsplit]
      exact countSince_concat
    constructor
    · rw [hcli]
      exact h.cli
    · rw [hnet]
      exact le_rfl
  | @readDone result data hpc =>
    have hnone := h.network
    rw [hpc, NetworkPc.toSend] at hnone
    have hle := handleRequest_sends_le data result
    constructor
    · rw [List.append_nil]
      exact h.cli
    · rw [List.append_nil, NetworkPc.toSend]
      omega
  | recv hpc _ =>
    refine h.quiet (by simp [Event.starts, Event.sentBy]) le_rfl ?_
    rw [hpc]
    exact le_rfl
  | act hpc _ =>
    refine h.quiet ?_ le_rfl ?_
    · intro e he τ
      simp only [actionEvents, List.mem_flatMap, List.mem_cons, List.not_mem_nil, or_false] at he
      obtain ⟨r, -, rfl | rfl⟩ := he <;> exact ⟨rfl, rfl⟩
    · rw [hpc, NetworkPc.toSend, NetworkPc.toSend, List.countP_cons]
      omega
  | toggle hpc =>
    refine h.quiet (by simp) le_rfl ?_
    rw [hpc, NetworkPc.toSend, NetworkPc.toSend, List.countP_cons]
    exact le_rfl
  | getNext hpc _ | getReturned hpc _ =>
    refine h.quiet (by simp [Event.starts, Event.sentBy]) le_rfl ?_
    rw [hpc]
    exact le_rfl
  | @send q time todo comms ok hpc _ =>
    have hcli : sends .cli (hist ++ [.sent .network q time ok]) = sends .cli hist :=
      countSince_append (by simp [Event.starts, Event.sentBy])
    have hnet : sends .network (hist ++ [.sent .network q time ok]) = sends .network hist + 1 :=
      countSince_concat
    have hle := h.network
    rw [hpc, NetworkPc.toSend] at hle
    constructor
    · rw [hcli]
      exact h.cli
    · rw [hnet, NetworkPc.toSend]
      omega

theorem sendsOnce_step (h : SendsOnce s hist) (hs : firmware.step s l = some (s', es)) :
    SendsOnce s' (hist ++ es) := by
  rcases step_cases hs with hb | ⟨line, -, hc⟩ | ⟨-, hw⟩ | ⟨input, -, hn⟩
  · refine h.quiet ?_ (by rw [hb.cli]) (by rw [hb.network])
    intro e he τ
    obtain ⟨r, rfl⟩ := hb.events e he
    exact ⟨rfl, rfl⟩
  · exact cliStep_sendsOnce hc h
  · cases hw <;> exact h.quiet (by simp [Event.starts, Event.sentBy]) le_rfl le_rfl
  · exact networkStep_sendsOnce hn h

/-- **One send for each frame and each line.** Between two sends of a front end, however they come
out, it has taken up another connection, or another line. -/
theorem one_send_each (h0 : firmware.init s₀) (hrun : firmware.Run s₀ tr s) :
    ∀ pre τ h t ok mid h' t' ok' post,
      history tr = pre ++ .sent τ h t ok :: (mid ++ .sent τ h' t' ok' :: post) →
      ∃ e ∈ mid, e.starts τ = true := by
  obtain ⟨after, rfl⟩ := h0
  have hinit : SendsOnce (State.boot (blockData after)) [] := ⟨Nat.zero_le 1, Nat.zero_le 1⟩
  -- nothing has been sent for the connection, or for the line, before a send
  have hfirst : Each (fun pre e => ∀ τ h t ok, e = .sent τ h t ok → sends τ pre = 0)
      (history tr) := by
    refine hrun.before_event hinit (fun _ _ _ _ _ h hs => sendsOnce_step h hs) ?_
    rintro s l s' es hist honce hs pre e post hes τ h t ok rfl
    have he : Event.sent τ h t ok ∈ es := hes ▸ List.mem_append_right _ List.mem_cons_self
    obtain ⟨honly, hwants⟩ := wants_of_sent hs he
    obtain rfl : pre = [] := by
      rw [honly] at hes
      cases pre with
      | nil => rfl
      | cons x pre => simp at hes
    rw [List.append_nil]
    have hafter := sendsOnce_step honce hs
    rw [honly] at hafter
    have hcount : sends τ (hist ++ [.sent τ h t ok]) = sends τ hist + 1 := by
      rw [sends, countSince_concat]
      simp [Event.starts, Event.sentBy, sends]
    rcases hwants with ⟨rfl, -⟩ | ⟨rfl, -⟩
    · have hle := hafter.cli
      omega
    · have hle := hafter.network
      omega
  intro pre τ h t ok mid h' t' ok' post heq
  have hsplit : history tr = (pre ++ .sent τ h t ok :: mid) ++ .sent τ h' t' ok' :: post := by
    rw [heq, List.append_assoc, List.cons_append]
  have hzero := hfirst _ _ _ hsplit τ h' t' ok' rfl
  exact exists_reset rfl (decide_eq_true rfl) hzero

/-- A client asks twice, in two connections. -/
theorem one_send_each_twice : ∃ s₀ tr s, firmware.init s₀ ∧ firmware.Run s₀ tr s ∧
    (history tr).filterMap Event.sentOk = [500, 500] ∧
    ∀ pre τ h t ok mid h' t' ok' post,
      history tr = pre ++ .sent τ h t ok :: (mid ++ .sent τ h' t' ok' :: post) →
      ∃ e ∈ mid, e.starts τ = true := by
  obtain ⟨tr, s, hrun, hq⟩ := Lts.System.exists_run (M := firmware)
    (Q := fun tr _ => decide ((history tr).filterMap Event.sentOk = [500, 500]))
    (State.boot (blockData fun _ => 0))
    (startUp ++ networkToggle 500 ++ .switch :: networkToggle 500)
    (by decide +kernel)
  exact ⟨_, tr, s, ⟨_, rfl⟩, hrun, of_decide_eq_true hq, one_send_each ⟨_, rfl⟩ hrun⟩

end Pcrb
