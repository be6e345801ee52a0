import Pcrb.Proof.Button
import Pcrb.Proof.FrontEnds

/-!
# The firmware does all that the button allows

From a `Settled` state, with every task back at the head of its loop, each front end can
place any request (`run_networkToggle`, `run_cliToggle`) and `switch_task` can take and
press (`run_receive`, `run_press`). `button_simulates` puts them together: with one request
pending it is left in the queue, until another one comes that is let in.

`firmware_traces`: what can be seen of the firmware is exactly what the button allows.
-/

namespace Pcrb

open Lts

/-- Every task is at the head of its loop, and `q` is the queue. -/
structure Settled (s : State) (q : Fifo UInt32 1) : Prop where
  init : s.init = .deleted
  cli : s.cli = .prompt
  network : s.network = .accept
  comms : s.comms = ⟨true, some 0, [q]⟩

variable {s s' : State} {es : List Event} {l : Label} {q : Fifo UInt32 1}
  {tr : List (Transition State Label Event)} {t : UInt32}

/-- `network_task` waits for a connection. -/
def NetworkPc.accepting : NetworkPc → Bool
  | .accept => true
  | _ => false

theorem NetworkPc.eq_accept {pc : NetworkPc} (h : pc.accepting = true) : pc = .accept := by
  cases pc <;> first | rfl | cases h

/-- The flag stays set, and then every call of `get` finds it so. -/
theorem getAtomic_of_initialized (h : s.comms.initialized = true) (hrun : firmware.Run s tr s') :
    ∀ tn ∈ tr, GetAtomic tn.src tn.label := by
  have hkeep : ∀ s l s' es, True → s.comms.initialized = true →
      firmware.step s l = some (s', es) → s'.comms.initialized = true := by
    intro s l s' es _ hi hs
    cases getEffect_of_step hs with
    | quiet _ hi' => rw [hi', hi]
    | test _ hc | create _ hc | set _ hc | read _ hc => simp [hc, hi]
  intro tn htn
  have hset := hrun.invariant_mem (P := fun s => s.comms.initialized = true) h hkeep
    (fun _ _ => trivial) tn htn
  intro _ hunset
  rw [hset.1] at hunset
  cases hunset

/-! ### A request through the network -/

/-- `read` takes what `recv` delivers. -/
theorem networkStep_recv {st : ReadState} {r : RecvResult} (hpc : s.network = .reading st)
    (hst : st.Running) (hr : r.Valid st.requested) :
    networkStep s (.recv r) =
      some ({ s with network := .reading (st.recv dataSize r) }, [.use .lwip, .recv r]) := by
  unfold networkStep
  cases st with
  | done result data => exact absurd rfl (hst result data)
  | length | payload =>
    simp only [hpc]
    rw [if_pos hr]

/-- The prefix of a toggle request. -/
theorem recv_prefix (stale : Bytes) :
    (ReadState.start dataSize stale).recv dataSize (.data [0x00, 0x0C]) =
      .payload 12 0 stale := by
  have hswap : (ntoh16 (load16 (Bytes.write (fun _ => 0) 0 [0x00, 0x0C]) 0)).toNat = 12 := by
    decide
  simp [ReadState.start, ReadState.lengthLoop, ReadState.recv, ReadState.payloadLoop, hswap,
    dataSize]

theorem length_toggleFrame (t : UInt32) : (toggleFrame t).length = 12 := by simp [toggleFrame]

/-- Its frame, in one piece. -/
theorem recv_toggleFrame (stale : Bytes) (t : UInt32) :
    (ReadState.payload 12 0 stale).recv dataSize (.data (toggleFrame t)) =
      .done (.ok 12) (stale.write 0 (toggleFrame t)) := by
  simp [ReadState.recv, ReadState.payloadLoop, length_toggleFrame]

theorem handleRequest_toggleFrame (stale : Bytes) (t : UInt32) :
    handleRequest (stale.write 0 (toggleFrame t)) (.ok 12) =
      [.send (.toggle t), .xQueueSendToBack t] := by
  have h := handlePayload_toggleFrame stale t
  rw [length_toggleFrame] at h
  exact h

/-- A step of `network_task`. -/
theorem step_network {input : NetworkInput} {r : State × List Event}
    (hcr : s.init.created .network = true) (h : networkStep s input = some r) :
    firmware.step s (.network input) = some r := by
  change (if s.init.created .network then networkStep s input else none) = _
  rw [if_pos hcr, h]

/-- A client connects, and delivers a toggle request. -/
theorem run_readToggle (hcr : s.init.created .network = true) (hn : s.network = .accept)
    (t : UInt32) : ∃ tr, firmware.Run s tr
      { s with network := .handling [.send (.toggle t), .xQueueSendToBack t] } ∧
      trace Event.button tr = [] := by
  have haccept : networkStep s (.accepted fun _ => 0) =
      some ({ s with network := .reading (.start dataSize fun _ => 0) },
        [.use .lwip, .accepted]) := by
    unfold networkStep
    rw [hn]
  have hprefix : networkStep { s with network := .reading (.start dataSize fun _ => 0) }
      (.recv (.data [0x00, 0x0C])) =
        some ({ s with network := .reading (.payload 12 0 fun _ => 0) },
          [.use .lwip, .recv (.data [0x00, 0x0C])]) := by
    have hrunning : (ReadState.start dataSize fun _ => 0).Running := by
      simp [ReadState.Running, ReadState.start, ReadState.lengthLoop]
    have hstep := networkStep_recv (s := { s with network := .reading (.start dataSize fun _ => 0) })
      rfl hrunning (r := .data [0x00, 0x0C]) (by decide)
    rw [hstep, recv_prefix]
  have hframe : networkStep { s with network := .reading (.payload 12 0 fun _ => 0) }
      (.recv (.data (toggleFrame t))) =
        some ({ s with network := .reading (.done (.ok 12) (Bytes.write (fun _ => 0) 0
          (toggleFrame t))) }, [.use .lwip, .recv (.data (toggleFrame t))]) := by
    have hrunning : (ReadState.payload 12 0 fun _ => 0).Running := by simp [ReadState.Running]
    have hvalid : (RecvResult.data (toggleFrame t)).Valid
        (ReadState.payload 12 0 fun _ => 0).requested := by
      simp [RecvResult.Valid, ReadState.requested, length_toggleFrame]
    have hstep := networkStep_recv (s := { s with network := .reading (.payload 12 0 fun _ => 0) })
      rfl hrunning hvalid
    rw [hstep, recv_toggleFrame]
  have hdone : networkStep { s with network := .reading (.done (.ok 12) (Bytes.write (fun _ => 0) 0
      (toggleFrame t))) } .ok =
        some ({ s with network := .handling [.send (.toggle t), .xQueueSendToBack t] }, []) := by
    rw [← handleRequest_toggleFrame (fun _ => 0) t]
    rfl
  exact ⟨_, (((System.Run.nil.snoc (step_network hcr haccept)).snoc
    (step_network hcr hprefix)).snoc (step_network hcr hframe)).snoc (step_network hcr hdone), rfl⟩

/-- **A client asks for a pulse**: the request reaches the queue, and `network_task` comes back. -/
theorem run_networkToggle (h : Settled s q) (t : UInt32) :
    ∃ tr s', firmware.Run s tr s' ∧
      trace Event.button tr = [.request .network t (q.send t).2] ∧
      Settled s' (q.send t).1 ∧ s'.switch = s.switch := by
  obtain ⟨hinit, hcli, hnetwork, hcomms⟩ := h
  obtain ⟨tr, hread, htrace⟩ := run_readToggle (by rw [hinit]; rfl) hnetwork t
  obtain ⟨pins, comms, ram, pcState, output, cyw43, netif, wifiInitd, init, cli, wifi, switch,
    network, monitor⟩ := s
  dsimp only at hinit hcli hnetwork hcomms
  subst hinit hcli hnetwork hcomms
  have hsend := (((((hread.snoc (l := .network .ok) rfl).snoc (l := .network .ok) rfl).snoc
    (l := .network .ok) rfl).snoc (l := .network .ok) rfl).snoc (l := .network .ok) rfl).snoc
    (l := .network .ok) rfl
  refine ⟨_, _, hsend, ?_, ⟨rfl, rfl, rfl, rfl⟩, rfl⟩
  simp only [trace_append, htrace]
  rfl

/-! ### A request through the command line -/

theorem command_toggleLine (h : t ≠ 0) :
    command (toggleLine t) = [.format (.toggling t), .toggle t] := by
  obtain ⟨hlen, hms⟩ := (toggleLine_carries t).toggleMs_eq
  rw [command_of_toggle (toggleLine_carries t).startsWith, hms, if_neg (by omega), if_neg h]

/-- **A toggle line is typed**: the request reaches the queue, and `cli_task` comes back. -/
theorem run_cliToggle (h : Settled s q) (ht : t ≠ 0) :
    ∃ tr s', firmware.Run s tr s' ∧ trace Event.button tr = [.request .cli t (q.send t).2] ∧
      Settled s' (q.send t).1 ∧ s'.switch = s.switch := by
  obtain ⟨hinit, hcli, hnetwork, hcomms⟩ := h
  obtain ⟨pins, comms, ram, pcState, output, cyw43, netif, wifiInitd, init, cli, wifi, switch,
    network, monitor⟩ := s
  dsimp only at hinit hcli hnetwork hcomms
  subst hinit hcli hnetwork hcomms
  have hline := System.Run.nil.snoc (M := firmware) (l := .cli (toggleLine t))
    (rfl : firmware.step ⟨pins, ⟨true, some 0, [q]⟩, ram, pcState, output, cyw43, netif, wifiInitd,
      .deleted, .prompt, wifi, switch, .accept, monitor⟩ _ = some (_, _))
  rw [command_toggleLine ht] at hline
  have hrest := (((((hline.snoc (l := .cli []) rfl).snoc (l := .cli []) rfl).snoc
    (l := .cli []) rfl).snoc (l := .cli []) rfl).snoc (l := .cli []) rfl).snoc (l := .cli []) rfl
  exact ⟨_, _, hrest, rfl, ⟨rfl, rfl, rfl, rfl⟩, rfl⟩

/-! ### `switch_task` -/

/-- `switch_task` takes what is in the queue. -/
theorem run_receive {q' : Fifo UInt32 1} (h : Settled s q) (hs : s.switch = .receive (some 0))
    (hq : q.receive = some (t, q')) :
    ∃ tr s', firmware.Run s tr s' ∧ trace Event.button tr = [] ∧ Settled s' q' ∧
      s'.switch = .ledOn t := by
  obtain ⟨hinit, hcli, hnetwork, hcomms⟩ := h
  have hreceive : s.comms.xQueueReceive 0 = some (t, ⟨true, some 0, [q']⟩) := by
    simp [hcomms, SwitchQueue.xQueueReceive, hq]
  have hstep : firmware.step s .switch =
      some ({ s with comms := ⟨true, some 0, [q']⟩, switch := .ledOn t }, [.received 0 t]) := by
    simp [firmware, step, hinit, InitPc.created, switchStep, hs, hreceive]
  exact ⟨_, _, System.Run.nil.snoc hstep, rfl, ⟨hinit, hcli, hnetwork, rfl⟩, rfl⟩

/-- **A pulse**, and back to the queue. -/
theorem run_press (h : Settled s q) (hs : s.switch = .ledOn t) :
    ∃ tr s', firmware.Run s tr s' ∧ trace Event.button tr = [.press t] ∧ Settled s' q ∧
      s'.switch = .receive (some 0) := by
  obtain ⟨hinit, hcli, hnetwork, hcomms⟩ := h
  obtain ⟨pins, comms, ram, pcState, output, cyw43, netif, wifiInitd, init, cli, wifi, switch,
    network, monitor⟩ := s
  dsimp only at hinit hcli hnetwork hcomms hs
  subst hinit hcli hnetwork hcomms hs
  have hled := System.Run.nil.snoc (M := firmware) (l := .switch)
    (rfl : firmware.step ⟨pins, ⟨true, some 0, [q]⟩, ram, pcState, output, cyw43, netif, wifiInitd,
      .deleted, .prompt, wifi, .ledOn t, .accept, monitor⟩ _ = some (_, _))
  have hrest := (((((hled.snoc (l := .switch) rfl).snoc (l := .switch) rfl).snoc
    (l := .switch) rfl).snoc (l := .switch) rfl).snoc (l := .switch) rfl).snoc (l := .switch) rfl
  exact ⟨_, _, hrest, rfl, ⟨rfl, rfl, rfl, rfl⟩, rfl⟩

/-! ### All that the button allows -/

/-- A request through either front end. -/
theorem run_request {τ : Task} (h : Settled s q) (hmay : MayRequest t τ) :
    ∃ tr s', firmware.Run s tr s' ∧ trace Event.button tr = [.request τ t (q.send t).2] ∧
      Settled s' (q.send t).1 ∧ s'.switch = s.switch := by
  cases τ with
  | network => exact run_networkToggle h t
  | cli => exact run_cliToggle h hmay
  | init | wifi | switch | monitor => exact absurd hmay id

/-- A settled state with `p` pending: a request is left in the queue, unless another one is
pending behind it. -/
def Resting (p : Fifo UInt32 2) (s : State) : Prop :=
  ∃ q, Settled s q ∧ ((s.switch = .receive (some 0) ∧ q.items = p.items) ∨
    ∃ t, s.switch = .ledOn t ∧ q.items ≠ [] ∧ p.items = t :: q.items)

/-- A state at rest, reached with nothing seen. -/
theorem boot_resting : ∃ s₀ tr s, firmware.init s₀ ∧ firmware.Run s₀ tr s ∧
    (∀ tn ∈ tr, GetAtomic tn.src tn.label) ∧ trace Event.button tr = [] ∧
      Resting Fifo.empty s := by
  obtain ⟨tr, s, hrun, hq⟩ := System.exists_run (M := firmware)
    (Q := fun tr s => decide ((∀ tn ∈ tr, GetAtomic tn.src tn.label) ∧
      trace Event.button tr = [] ∧ s.init = .deleted ∧ s.cli = .prompt ∧
      s.switch = .receive (some 0) ∧ s.comms.initialized = true ∧ s.comms.handle = some 0 ∧
      s.comms.queues.map Fifo.items = [[]]) && s.network.accepting)
    (State.boot (blockData fun _ => 0)) startUp (by decide +kernel)
  obtain ⟨hq, hn⟩ := (Bool.and_eq_true _ _).mp hq
  obtain ⟨hatomic, htrace, hinit, hcli, hswitch, hset, hhandle, hqueues⟩ := of_decide_eq_true hq
  obtain ⟨q, hq, hempty⟩ := List.map_eq_singleton_iff.1 hqueues
  have hcomms : s.comms = ⟨true, some 0, [q]⟩ := by rw [← hset, ← hhandle, ← hq]
  exact ⟨_, tr, s, ⟨_, rfl⟩, hrun, hatomic, htrace, q,
    ⟨hinit, hcli, NetworkPc.eq_accept hn, hcomms⟩, Or.inl ⟨hswitch, hempty⟩⟩

variable {p p' : Fifo UInt32 2}

/-- **A request is let in**, the one before it being taken out of the queue if there is one. -/
theorem resting_taken {τ : Task} (h : Resting p s) (hmay : MayRequest t τ)
    (hp : p'.items = p.items ++ [t]) : ∃ tr s', firmware.Run s tr s' ∧
      trace Event.button tr = [.request τ t true] ∧ Resting p' s' := by
  have hbound := p'.bound
  rw [hp, List.length_append, List.length_singleton] at hbound
  obtain ⟨q, hq, ⟨hs, hitems⟩ | ⟨u, -, hne, hitems⟩⟩ := h
  · cases hcase : p.items with
    | nil =>
      -- the queue is empty
      have hfree : (q.send t).2 = true := by
        rw [← Bool.not_eq_false, Fifo.send_eq_false_iff, Fifo.Full, hitems, hcase]
        exact nofun
      obtain ⟨tr, s', hrun, htrace, hset, hsw⟩ := run_request hq hmay
      rw [hfree] at htrace
      refine ⟨tr, s', hrun, htrace, _, hset, Or.inl ⟨by rw [hsw, hs], ?_⟩⟩
      rw [Fifo.send_items, hfree, hitems, hp]
      rfl
    | cons x rest =>
      -- the one that is pending is taken first
      obtain rfl : rest = [] := by
        rw [hcase, List.length_cons] at hbound
        exact List.length_eq_zero_iff.1 (by omega)
      obtain ⟨q₁, hreceive, hempty⟩ := Fifo.exists_receive (hitems.trans hcase)
      obtain ⟨tr₁, s₁, hrun₁, htrace₁, hset₁, hsw₁⟩ := run_receive hq hs hreceive
      have hfree : (q₁.send t).2 = true := by
        rw [← Bool.not_eq_false, Fifo.send_eq_false_iff, Fifo.Full, hempty]
        exact nofun
      obtain ⟨tr₂, s₂, hrun₂, htrace₂, hset₂, hsw₂⟩ := run_request hset₁ hmay
      rw [hfree] at htrace₂
      have hsent : (q₁.send t).1.items = [t] := by
        rw [Fifo.send_items, hfree, hempty]
        rfl
      refine ⟨tr₁ ++ tr₂, s₂, hrun₁.append hrun₂, by simp [htrace₁, htrace₂], _, hset₂,
        Or.inr ⟨x, by rw [hsw₂, hsw₁], by simp [hsent], ?_⟩⟩
      rw [hp, hcase, hsent]
      rfl
  · -- two are pending already
    have hpos := List.length_pos_iff.2 hne
    rw [hitems, List.length_cons] at hbound
    omega

/-- A request is not let in, one being in the queue. -/
theorem resting_refused {τ : Task} (h : Resting p s) (hmay : MayRequest t τ)
    (hp : p.items ≠ []) : ∃ tr s', firmware.Run s tr s' ∧
      trace Event.button tr = [.request τ t false] ∧ Resting p s' := by
  obtain ⟨q, hq, hrest⟩ := h
  have hne : q.items ≠ [] := by
    rcases hrest with ⟨-, hitems⟩ | ⟨_, -, hne, -⟩
    · rw [hitems]
      exact hp
    · exact hne
  have hfull : (q.send t).2 = false := by
    have hpos := List.length_pos_iff.2 hne
    have hbound := q.bound
    rw [Fifo.send_eq_false_iff, Fifo.Full]
    omega
  obtain ⟨tr, s', hrun, htrace, hset, hsw⟩ := run_request hq hmay
  rw [hfull] at htrace
  have hsame : (q.send t).1.items = q.items := by
    rw [Fifo.send_items, hfull]
    simp
  refine ⟨tr, s', hrun, htrace, _, hset, ?_⟩
  rw [hsw, hsame]
  exact hrest

/-- **A press** for what has been pending longest. -/
theorem resting_press (h : Resting p s) (hp : p.items = t :: p'.items) :
    ∃ tr s', firmware.Run s tr s' ∧ trace Event.button tr = [.press t] ∧ Resting p' s' := by
  obtain ⟨q, hq, ⟨hs, hitems⟩ | ⟨u, hs, -, hitems⟩⟩ := h
  · -- it is still in the queue
    obtain ⟨q₁, hreceive, hrest⟩ := Fifo.exists_receive (hitems.trans hp)
    obtain ⟨tr₁, s₁, hrun₁, htrace₁, hset₁, hsw₁⟩ := run_receive hq hs hreceive
    obtain ⟨tr₂, s₂, hrun₂, htrace₂, hset₂, hsw₂⟩ := run_press hset₁ hsw₁
    exact ⟨tr₁ ++ tr₂, s₂, hrun₁.append hrun₂, by simp [htrace₁, htrace₂], _, hset₂,
      Or.inl ⟨hsw₂, hrest⟩⟩
  · rw [hp] at hitems
    obtain ⟨rfl, hrest⟩ := List.cons.inj hitems
    obtain ⟨tr, s', hrun, htrace, hset, hsw⟩ := run_press hq hs
    exact ⟨tr, s', hrun, htrace, _, hset, Or.inl ⟨hsw, hrest.symm⟩⟩

/-- **The firmware does what the button does.** -/
theorem button_simulates : Simulation button (fun _ _ => True) some firmware GetAtomic
    Event.button Resting where
  init := by
    rintro p rfl
    exact boot_resting
  step := by
    rintro p e p' es s - h hs
    have hatomic : ∀ {tr s'}, firmware.Run s tr s' → ∀ tn ∈ tr, GetAtomic tn.src tn.label := by
      intro tr s' hrun
      obtain ⟨q, hq, -⟩ := h
      exact getAtomic_of_initialized (by rw [hq.comms]) hrun
    obtain ⟨p₁, hp, he⟩ := Option.map_eq_some_iff.1 hs
    obtain ⟨rfl, rfl⟩ := Prod.mk.inj he
    have hsplit := buttonStep_split hp
    have hrun : ∃ tr s', firmware.Run s tr s' ∧ trace Event.button tr = [e] ∧ Resting p₁ s' := by
      cases e with
      | request τ t ok =>
        cases ok with
        | true =>
          simp only [buttonStep, Option.ite_none_right_eq_some] at hp
          refine resting_taken h hp.1.1 ?_
          simpa [List.filterMap_cons] using hsplit.symm
        | false =>
          simp only [buttonStep, Option.ite_none_right_eq_some, Option.some.injEq] at hp
          obtain ⟨⟨hmay, hne⟩, rfl⟩ := hp
          exact resting_refused h hmay hne
      | press t => exact resting_press h (by simpa [List.filterMap_cons] using hsplit)
    obtain ⟨tr, s', hrun, htrace, hrest⟩ := hrun
    exact ⟨tr, s', hrun, hatomic hrun, by rw [htrace]; rfl, hrest⟩

/-- **The firmware is the button, and all of it.** In the runs in which no call of `get` tests the
flag while another one is about to set it, what can be seen of requests and presses is
exactly what the events before allow: a press is for the request pending longest; a request
is let in only with fewer than two pending, and refused only with at least one; and every
such sequence can be seen. -/
theorem firmware_shows_iff (w : List ButtonEvent) :
    w ∈ firmware.traces GetAtomic Event.button ↔ Each Allowed w := by
  rw [traces_eq firmware_simulates button_simulates]
  exact mem_traces_button_iff

end Pcrb
