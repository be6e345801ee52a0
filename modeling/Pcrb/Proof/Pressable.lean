import Pcrb.Proof.Race
import Pcrb.Proof.Served

/-!
# When the button can still be pressed

`pressable_iff`: once the queues are fixed, and while `switch_task` waits on one of them, the
button can be pressed again exactly if that queue is not orphaned. There is a value in it, or a
front end is about to send to it, or its handle is the one in place; then `network_task` can
finish what it is about, take a toggle request and put the value there.
-/

namespace Pcrb

open Lts

variable {s₀ s s' u : State} {es : List Event} {l : Label} {q : ℕ} {t : UInt32}
  {tr tr' : List (Transition State Label Event)}

/-- The button can be pressed. -/
def Pressable (s : State) : Prop :=
  ∃ tr s', firmware.Run s tr s' ∧ (history tr).filterMap Event.pulsed ≠ []

theorem Pressable.of_run (h : Pressable u) (hrun : firmware.Run s tr u) : Pressable s := by
  obtain ⟨tr', s', hrun', hpulsed⟩ := h
  refine ⟨tr ++ tr', s', hrun.append hrun', fun hnil => hpulsed ?_⟩
  rw [history_append, List.filterMap_append] at hnil
  exact (List.append_eq_nil_iff.1 hnil).2

/-! ### Tasks that hold a handle have been created -/

structure HoldersCreated (s : State) : Prop where
  cli : s.cli.holds ≠ none → s.init.created .cli = true
  switch : s.switch.holds ≠ none → s.init.created .switch = true
  network : s.network.holds ≠ none → s.init.created .network = true

theorem holdersCreated_step (hs : firmware.step s l = some (s', es)) (h : HoldersCreated s) :
    HoldersCreated s' := by
  have hstepped : ∀ τ, Own τ s l → s'.init.created τ = true := fun τ hl =>
    created_mono hs (created_of_enabled ⟨l, hl, Option.isSome_iff_exists.2 ⟨_, hs⟩⟩)
  constructor
  · intro hne
    by_cases hl : Own .cli s l
    · exact hstepped .cli hl
    · rw [cli_frame hl hs] at hne
      exact created_mono hs (h.cli hne)
  · intro hne
    by_cases hl : Own .switch s l
    · exact hstepped .switch hl
    · rw [switch_frame hl hs] at hne
      exact created_mono hs (h.switch hne)
  · intro hne
    by_cases hl : Own .network s l
    · exact hstepped .network hl
    · rw [network_frame hl hs] at hne
      exact created_mono hs (h.network hne)

theorem holdersCreated_run (h0 : firmware.init s₀) (hrun : firmware.Run s₀ tr s) :
    HoldersCreated s := by
  obtain ⟨after, rfl⟩ := h0
  refine hrun.invariant' (P := fun s _ => HoldersCreated s) ?_ fun _ _ _ _ _ h hs =>
    holdersCreated_step hs h
  exact ⟨absurd rfl, absurd rfl, absurd rfl⟩

/-! ### From the queue to the button -/

theorem step_switch {r : State × List Event} (hcr : s.init.created .switch = true)
    (h : switchStep s = some r) : firmware.step s .switch = some r := by
  change (if s.init.created .switch then switchStep s else none) = _
  rw [if_pos hcr, h]

/-- **A value in the queue** is a pulse three steps later. -/
theorem pressable_of_contents (hcr : s.init.created .switch = true)
    (hw : s.switch = .receive (some q)) (hne : s.comms.contents q ≠ []) : Pressable s := by
  cases hreceive : s.comms.xQueueReceive q with
  | none => exact absurd (xQueueReceive_eq_none_iff.1 hreceive) hne
  | some r =>
    obtain ⟨t, comms⟩ := r
    have htake : switchStep s =
        some ({ s with comms := comms, switch := .ledOn t }, [.received q t]) := by
      unfold switchStep
      rw [hw]
      simp only [hreceive, Option.map_some]
    have hled : switchStep { s with comms := comms, switch := .ledOn t } =
        some ({ s with comms := comms, switch := .setHigh t }, [.use .cyw43]) := rfl
    obtain ⟨v, hset⟩ : ∃ v, switchStep { s with comms := comms, switch := .setHigh t } =
        some (v, [.pulse t]) := ⟨_, rfl⟩
    exact ⟨_, v, ((System.Run.nil.snoc (step_switch hcr htake)).snoc (step_switch hcr hled)).snoc
      (step_switch hcr hset), List.cons_ne_nil t []⟩

/-- A send to an empty queue of its handle leaves a value there. -/
theorem contents_of_send {c c' : SwitchQueue} {ok : Bool}
    (hs : c.xQueueSendToBack q t = some (c', ok)) : c'.contents q ≠ [] := by
  have hsend := SwitchQueue.contents_send hs q
  cases ok with
  | true => simp [hsend]
  | false =>
    -- the queue was full before
    have hfull := SwitchQueue.contents_of_send_failed hs
    intro hnil
    rw [hnil] at hsend
    simp at hsend
    simp [hsend] at hfull

/-- **`cli_task` is about to send** to the queue. -/
theorem pressable_of_cli (hup : QueuesUp s) (hc : HoldersCreated s)
    (hw : s.switch = .receive (some q)) (hcli : s.cli.holds = some q) : Pressable s := by
  have hcr := hc.cli (by rw [hcli]; exact nofun)
  have hsw := hc.switch (by rw [hw]; exact nofun)
  cases hpc : s.cli with
  | send handle time todo =>
    obtain rfl : handle = some q := by
      rw [hpc] at hcli
      exact hcli
    obtain ⟨q', hq', hlt⟩ := hup.held (some q) (Or.inl ⟨time, todo, hpc⟩)
    obtain rfl := Option.some.inj hq'
    obtain ⟨⟨comms, ok⟩, hsend⟩ := exists_send hlt time
    have hstep : firmware.step s (.cli []) =
        some ({ s with comms := comms, cli := .run todo }, [.sent .cli q time ok]) := by
      change (if s.init.created .cli then cliStep s [] else none) = _
      rw [if_pos hcr, cliStep, hpc]
      simp only [hsend, Option.map_some]
    exact (pressable_of_contents (s := { s with comms := comms, cli := .run todo }) hsw hw
      (contents_of_send hsend)).of_run (System.Run.nil.snoc hstep)
  | prompt | run | get =>
    rw [hpc] at hcli
    cases hcli

/-- **`network_task` is about to send** to the queue. -/
theorem pressable_of_network (hup : QueuesUp s) (hcr : s.init.created .network = true)
    (hsw : s.init.created .switch = true) (hw : s.switch = .receive (some q))
    (hnetwork : s.network.holds = some q) : Pressable s := by
  cases hpc : s.network with
  | send handle time todo =>
    obtain rfl : handle = some q := by
      rw [hpc] at hnetwork
      exact hnetwork
    obtain ⟨q', hq', hlt⟩ := hup.held (some q) (Or.inr (Or.inr ⟨time, todo, hpc⟩))
    obtain rfl := Option.some.inj hq'
    obtain ⟨⟨comms, ok⟩, hsend⟩ := exists_send hlt time
    have hstep : networkStep s .ok =
        some ({ s with comms := comms, network := .handling todo }, [.sent .network q time ok]) := by
      unfold networkStep
      rw [hpc]
      simp only [hsend, Option.map_some]
    exact (pressable_of_contents (s := { s with comms := comms, network := .handling todo }) hsw hw
      (contents_of_send hsend)).of_run (System.Run.nil.snoc (step_network hcr hstep))
  | listen | accept | reading | handling | get =>
    rw [hpc] at hnetwork
    cases hnetwork

/-! ### From `accept` to the queue -/

/-- **`network_task` takes a toggle request**, and comes to hold the handle in place. -/
theorem run_networkGet (hcr : s.init.created .network = true) (hn : s.network = .accept)
    (hset : s.comms.initialized = true) (t : UInt32) :
    ∃ tr, firmware.Run s tr { s with network := .send s.comms.handle t [] } := by
  obtain ⟨tr, hread, -⟩ := run_readToggle hcr hn t
  have hreply : networkStep { s with network := .handling [.send (.toggle t), .xQueueSendToBack t] }
      .ok = some ({ s with network := .handling [.xQueueSendToBack t] },
        [.use .lwip, .reply (.toggle t)]) := rfl
  have htoggle : networkStep { s with network := .handling [.xQueueSendToBack t] } .ok =
      some ({ s with network := .get .test t [] }, []) := rfl
  have hget : s.comms.get .test = (s.comms, .next .read) := by
    rw [SwitchQueue.get, hset]
    rfl
  have htest : networkStep { s with network := .get .test t [] } .ok =
      some ({ s with network := .get .read t [] }, []) := by
    unfold networkStep
    simp only [hget]
  have hgot : networkStep { s with network := .get .read t [] } .ok =
      some ({ s with network := .send s.comms.handle t [] }, [.got .network s.comms.handle]) := rfl
  exact ⟨_, (((hread.snoc (step_network hcr hreply)).snoc (step_network hcr htoggle)).snoc
    (step_network hcr htest)).snoc (step_network hcr hgot)⟩

/-- What is in place for a client: where the queues are fixed, all but the client. -/
structure Waitable (s : State) (q : ℕ) : Prop where
  up : QueuesUp s
  fixed : s.QueuesFixed
  handle : s.comms.handle = some q
  switch : s.init.created .switch = true
  waits : s.switch = .receive (some q)

/-- A step of another task than `switch_task`. -/
theorem waitable_step (hl : ¬ Own .switch s l) (hs : firmware.step s l = some (s', es))
    (h : Waitable s q) : Waitable s' q := by
  obtain ⟨hfixed, hhandle, -, -⟩ := fixed_step (getEffect_of_step hs) h.fixed
  exact ⟨queuesUp_step h.up hs, hfixed, hhandle.trans h.handle, created_mono hs h.switch,
    (switch_frame hl hs).trans h.waits⟩

theorem waitable_run (hrun : firmware.Run s tr s') (hl : ∀ tn ∈ tr, ¬ Own .switch tn.src tn.label)
    (h : Waitable s q) : Waitable s' q :=
  hrun.invariant (C := fun s l => ¬ Own .switch s l) (P := fun s _ => Waitable s q) h
    (fun _ _ _ _ _ hl h hs => waitable_step hl hs h) hl

/-- With `network_task` at `accept`. -/
theorem pressable_of_accept (h : Waitable s q) (hcr : s.init.created .network = true)
    (hn : s.network = .accept) : Pressable s := by
  obtain ⟨tr, hrun⟩ := run_networkGet hcr hn h.fixed.set 1
  have hup : QueuesUp { s with network := .send s.comms.handle 1 [] } :=
    hrun.invariant' (P := fun s _ => QueuesUp s) h.up fun _ _ _ _ _ h hs => queuesUp_step h hs
  exact (pressable_of_network hup hcr h.switch h.waits h.handle).of_run hrun

/-- **`network_task` comes to `accept`**, from wherever it is. -/
theorem pressable_of_created (h : Waitable s q) (hcr : s.init.created .network = true)
    (hread : ∃ rx, s.network.Read rx) : Pressable s := by
  cases hserving : s.network.serving with
  | true =>
    obtain ⟨tr, tn, hrun, hown, hback⟩ := network_ranking.exists_run (fun _ _ _ => trivial)
      ⟨h.up, hcr, hserving, hread⟩
    have hother : ∀ u ∈ tr ++ [tn], ¬ Own .switch u.src u.label := by
      intro u hu hl
      obtain ⟨input, hinput, -⟩ := hown u hu
      rw [hinput] at hl
      cases hl.1
    have hcr' : tn.dst.init.created .network = true :=
      hrun.invariant' (P := fun s _ => s.init.created .network = true) hcr
        fun _ _ _ _ _ h hs => created_mono hs h
    exact (pressable_of_accept (waitable_run hrun hother h) hcr' hback).of_run hrun
  | false =>
    cases hpc : s.network with
    | listen =>
      have hlisten : networkStep s .ok = some ({ s with network := .accept }, [.use .lwip]) := by
        unfold networkStep
        rw [hpc]
      have hstep := step_network hcr hlisten
      exact (pressable_of_accept (waitable_step (fun hl => by cases hl.1) hstep h) hcr rfl).of_run
        (System.Run.nil.snoc hstep)
    | accept => exact pressable_of_accept h hcr hpc
    | reading | handling | get | send =>
      rw [hpc] at hserving
      cases hserving

/-- `init_task` has still to create `network_task`, or has done so. -/
theorem pressable_of_waitable (h : Waitable s q) (hread : ∃ rx, s.network.Read rx) :
    Pressable s := by
  cases hcr : s.init.created .network with
  | true => exact pressable_of_created h hcr hread
  | false =>
    have hswitch := h.switch
    -- it has created `switch_task`, so this is what it does next
    have hpc : s.init = .createNetwork := by
      cases hpc : s.init <;> rw [hpc] at hcr hswitch <;> first
        | rfl
        | exact absurd hcr (by decide)
        | exact absurd hswitch (by decide)
    have hstep : firmware.step s .init = some ({ s with init := .createMonitor }, []) := by
      change initStep s = _
      unfold initStep
      rw [hpc]
    exact (pressable_of_created (waitable_step (fun hl => by cases hl.1) hstep h) rfl hread).of_run
      (System.Run.nil.snoc hstep)

/-- **The button can be pressed again exactly if the queue is not orphaned.** The queues are fixed
and `switch_task` waits on the queue `q`: there is a run that presses, unless `q` is empty,
another handle is in place and no front end is about to send to `q`. -/
theorem pressable_iff (h0 : firmware.init s₀) (hrun : firmware.Run s₀ tr s) (hfixed : s.QueuesFixed)
    (hw : s.switch = .receive (some q)) : Pressable s ↔ ¬ Orphaned s q := by
  constructor
  · rintro ⟨tr', s', hrun', hpulsed⟩ horphaned
    exact hpulsed (orphaned_run horphaned hrun').2.1
  · intro hnot
    have hup := queuesUp_run h0 hrun
    have hc := holdersCreated_run h0 hrun
    have hsw := hc.switch (by rw [hw]; exact nofun)
    by_cases hempty : s.comms.contents q = []
    · by_cases hhandle : s.comms.handle = some q
      · obtain ⟨after, rfl⟩ := h0
        have hinit : Justified (State.boot (blockData after)) [] := ⟨nofun, nofun, trivial⟩
        have hjustified : Justified s (history tr) := hrun.invariant' (P := Justified) hinit
          fun _ _ _ _ _ hj hs => justified_step hj hs
        exact pressable_of_waitable ⟨hup, hfixed, hhandle, hsw, hw⟩ ⟨_, hjustified.read⟩
      · by_cases hcli : s.cli.holds = some q
        · exact pressable_of_cli hup hc hw hcli
        · by_cases hnetwork : s.network.holds = some q
          · have hcr := hc.network (by rw [hnetwork]; exact nofun)
            exact pressable_of_network hup hcr hsw hw hnetwork
          · exact absurd ⟨hw, hempty, hfixed, hhandle, hcli, hnetwork⟩ hnot
    · exact pressable_of_contents hsw hw hempty

/-- Two queues were created, `switch_task` waits on the second one, and the toggle line that
created the first one comes to send to the second. -/
theorem pressable_iff_second : ∃ s₀ tr s, firmware.init s₀ ∧ firmware.Run s₀ tr s ∧
    s.comms.queues.length = 2 ∧ s.switch = .receive (some 1) ∧
    (Pressable s ↔ ¬ Orphaned s 1) ∧ Pressable s := by
  obtain ⟨tr, s, hrun, hq⟩ := System.exists_run (M := firmware)
    (Q := fun _ s => decide (s.comms.queues.length = 2 ∧ s.switch = .receive (some 1) ∧
      s.comms.handle = some 1 ∧ s.comms.initialized = true ∧
      ∀ σ ∈ callers, s.getPc σ ≠ some .create))
    (State.boot (blockData fun _ => 0))
    (List.replicate 2 .init ++ List.replicate 7 (.wifi true) ++ List.replicate 5 .init ++
      List.replicate 4 .switch ++ List.replicate 4 (.cli (ascii "toggle 70")) ++ [.switch] ++
      [.cli []] ++ List.replicate 3 .switch)
    (by decide +kernel)
  obtain ⟨hlen, hw, hhandle, hset, hcreated⟩ := of_decide_eq_true hq
  have hiff := pressable_iff ⟨_, rfl⟩ hrun ⟨hset, fun σ hσ => hcreated σ (mem_callers hσ) hσ⟩ hw
  exact ⟨_, tr, s, ⟨_, rfl⟩, hrun, hlen, hw, hiff, hiff.2 fun h => h.handle hhandle⟩

end Pcrb
