import Mathlib.Algebra.Order.BigOperators.Group.Finset
import Pcrb.Proof.Button
import Pcrb.Proof.Waiting

/-!
# What the race on the queue can come to

No condition on the steps here: calls of `switch_queue::get` may come between each
other's tests and sets.

* `queues_settle`: no run creates more than three queues, one for each task that calls
  `get`. Once the flag is set and no call is about to create one, the handle and the
  queues stay as they are, and every later call returns that handle.
* `orphaned_forever`: if `switch_task` then waits on another queue, which is empty and
  whose handle nobody holds, it waits for ever. Requests go on being queued, and none of
  them is a pulse.
-/

namespace Pcrb

open Lts

variable {s₀ s s' : State} {es : List Event} {l : Label} {τ : Task}
  {tr tr' : List (Transition State Label Event)}

/-- The tasks that call `get`. -/
def callers : List Task := [.cli, .switch, .network]

/-- How many calls stand at `pc`. -/
def State.calls (s : State) (pc : GetPc) : ℕ := callers.countP fun σ => s.getPc σ == some pc

theorem calls_congr {pc : GetPc} (h : ∀ σ, s'.getPc σ = some pc ↔ s.getPc σ = some pc) :
    s'.calls pc = s.calls pc := by
  refine List.countP_congr fun σ _ => ?_
  simpa only [beq_iff_eq] using h σ

theorem mem_callers {pc : GetPc} (h : s.getPc τ = some pc) : τ ∈ callers := by
  cases τ with
  | cli | switch | network => simp [callers]
  | _ => cases h

/-- **The call of one task moves** from `pc` to `x`. -/
theorem calls_moved {pc : GetPc} {x : Option GetPc} (h : s.getPc τ = some pc)
    (h' : s'.getPc τ = x) (hother : ∀ σ, σ ≠ τ → s'.getPc σ = s.getPc σ) (q : GetPc) :
    s'.calls q + (if pc = q then 1 else 0) = s.calls q + if x = some q then 1 else 0 := by
  -- the others count the same, so it is a matter of the one that moves
  have hsplit : ∀ u : State, u.calls q =
      (callers.erase τ).countP (fun σ => u.getPc σ == some q) +
        if u.getPc τ = some q then 1 else 0 := by
    intro u
    have hperm := (List.perm_cons_erase (mem_callers h)).countP_eq fun σ => u.getPc σ == some q
    simp only [List.countP_cons, beq_iff_eq] at hperm
    exact hperm
  have hrest : (callers.erase τ).countP (fun σ => s'.getPc σ == some q) =
      (callers.erase τ).countP fun σ => s.getPc σ == some q := by
    refine List.countP_congr fun σ hσ => ?_
    have hnodup : callers.Nodup := by decide
    have hne : σ ≠ τ := ((hnodup.mem_erase_iff).1 hσ).1
    rw [hother σ hne]
  rw [hsplit s', hsplit s, hrest, h, h']
  simp only [Option.some.injEq]
  omega

theorem calls_le (s : State) : s.calls .create + s.calls .set ≤ 3 := by
  unfold State.calls callers
  simp only [List.countP_cons, List.countP_nil, beq_iff_eq]
  -- a call is at one place only
  have hone : ∀ σ, (if s.getPc σ = some GetPc.create then 1 else 0) +
      (if s.getPc σ = some GetPc.set then 1 else 0) ≤ 1 := by
    intro σ
    by_cases h : s.getPc σ = some .create
    · simp [h]
    · rw [if_neg h]
      split <;> omega
  have hcli := hone .cli
  have hswitch := hone .switch
  have hnetwork := hone .network
  omega

/-- **The invariant**: before the flag is set each queue is that of a call on its way to set
it, and afterwards no call can start to create another one. -/
structure QueuesBounded (s : State) : Prop where
  unset : s.comms.initialized = false → s.comms.queues.length = s.calls .set
  set : s.comms.initialized = true → s.comms.queues.length + s.calls .create ≤ 3

namespace QueuesBounded

theorem step (he : GetEffect s s' τ es) (h : QueuesBounded s) : QueuesBounded s' := by
  cases he with
  | quiet _ hi _ hq hpc _ =>
    have hcreate := calls_congr fun σ => hpc σ .create (by decide)
    have hset := calls_congr fun σ => hpc σ .set (by decide)
    constructor
    · intro hfalse
      rw [hi] at hfalse
      rw [hq, hset]
      exact h.unset hfalse
    · intro htrue
      rw [hi] at htrue
      rw [hq, hcreate]
      exact h.set htrue
  | test hpc hc hpc' hother =>
    have hcreate := calls_moved hpc hpc' hother .create
    have hset := calls_moved hpc hpc' hother .set
    constructor
    · intro hfalse
      rw [hc] at hfalse
      rw [hfalse] at hset
      have hold := h.unset hfalse
      simp only [reduceCtorEq, Option.some.injEq, if_false] at hset
      rw [hc]
      omega
    · intro htrue
      rw [hc] at htrue
      rw [htrue] at hcreate
      have hold := h.set htrue
      simp only [reduceCtorEq, Option.some.injEq, if_false, if_true] at hcreate
      rw [hc]
      omega
  | create hpc hc hpc' hother =>
    have hcreate := calls_moved hpc hpc' hother .create
    have hset := calls_moved hpc hpc' hother .set
    simp only [reduceCtorEq, Option.some.injEq, if_false, if_true] at hcreate hset
    have hlen : s'.comms.queues.length = s.comms.queues.length + 1 := by
      rw [hc]
      exact List.length_append
    have hi : s'.comms.initialized = s.comms.initialized := by rw [hc]
    constructor
    · intro hfalse
      rw [hi] at hfalse
      have hold := h.unset hfalse
      omega
    · intro htrue
      rw [hi] at htrue
      have hold := h.set htrue
      omega
  | set hpc hc hpc' hother =>
    have hcreate := calls_moved hpc hpc' hother .create
    simp only [reduceCtorEq, Option.some.injEq, if_false] at hcreate
    have hlen : s'.comms.queues.length = s.comms.queues.length := by rw [hc]
    constructor
    · intro hfalse
      rw [hc] at hfalse
      cases hfalse
    · intro _
      cases hi : s.comms.initialized with
      | true =>
        have hold := h.set hi
        omega
      | false =>
        -- every queue so far is of a call that has not come back from its create
        have hold := h.unset hi
        have hle := calls_le s
        omega
  | read hpc hc hpc' hother =>
    have hcreate := calls_moved hpc hpc' hother .create
    have hset := calls_moved hpc hpc' hother .set
    simp only [reduceCtorEq, if_false] at hcreate hset
    constructor
    · intro hfalse
      rw [hc] at hfalse
      have hold := h.unset hfalse
      rw [hc]
      omega
    · intro htrue
      rw [hc] at htrue
      have hold := h.set htrue
      rw [hc]
      omega

theorem boot (ram : Bytes) : QueuesBounded (State.boot ram) where
  unset _ := rfl
  set := nofun

theorem length_le (h : QueuesBounded s) : s.comms.queues.length ≤ 3 := by
  cases hi : s.comms.initialized with
  | true =>
    have hset := h.set hi
    omega
  | false =>
    have hunset := h.unset hi
    have hle := calls_le s
    omega

end QueuesBounded

/-! ### After the flag is set -/

/-- The flag is set, and no call is about to create a queue. -/
structure State.QueuesFixed (s : State) : Prop where
  set : s.comms.initialized = true
  created : ∀ σ, s.getPc σ ≠ some .create

/-- **A step then** leaves the handle and the queues, and reads that handle. -/
theorem fixed_step (he : GetEffect s s' τ es) (h : s.QueuesFixed) :
    s'.QueuesFixed ∧ s'.comms.handle = s.comms.handle ∧
      s'.comms.queues.length = s.comms.queues.length ∧
      ∀ σ q, .got σ q ∈ es → q = s.comms.handle := by
  cases he with
  | quiet _ hi hh hq hpc hno =>
    refine ⟨⟨hi.trans h.set, ?_⟩, hh, hq, fun σ q hmem => absurd hmem (hno σ q)⟩
    intro σ hσ
    exact h.created σ ((hpc σ .create (by decide)).1 hσ)
  | test _ hc hpc' hother =>
    rw [h.set] at hpc'
    refine ⟨⟨by rw [hc]; exact h.set, ?_⟩, by rw [hc], by rw [hc], by simp⟩
    intro σ hσ
    rcases getPc_cases hpc' hother hσ with ⟨-, hx⟩ | ⟨-, hold⟩
    · cases hx
    · exact h.created σ hold
  | create hpc => exact absurd hpc (h.created τ)
  | set hpc hc hpc' hother =>
    refine ⟨⟨by rw [hc], ?_⟩, by rw [hc], by rw [hc], by simp⟩
    intro σ hσ
    rcases getPc_cases hpc' hother hσ with ⟨-, hx⟩ | ⟨-, hold⟩
    · cases hx
    · exact h.created σ hold
  | read _ hc hpc' hother =>
    refine ⟨⟨by rw [hc]; exact h.set, ?_⟩, by rw [hc], by rw [hc], ?_⟩
    · intro σ hσ
      rcases getPc_cases hpc' hother hσ with ⟨-, hx⟩ | ⟨-, hold⟩
      · cases hx
      · exact h.created σ hold
    · intro σ q hmem
      cases List.mem_singleton.1 hmem
      rfl

theorem queuesBounded_run (h0 : firmware.init s₀) (hrun : firmware.Run s₀ tr s) :
    QueuesBounded s := by
  obtain ⟨after, rfl⟩ := h0
  exact hrun.invariant' (P := fun s _ => QueuesBounded s) (QueuesBounded.boot _)
    fun _ _ _ _ _ h hs => h.step (getEffect_of_step hs)

/-- **No run creates more than three queues**, and once the flag is set with no call about to
create another one, the handle and the queues stay, and every call returns that handle. -/
theorem queues_settle (h0 : firmware.init s₀) (hrun : firmware.Run s₀ tr s) :
    s.comms.queues.length ≤ 3 ∧
    (s.QueuesFixed → ∀ tr' s', firmware.Run s tr' s' →
      s'.comms.handle = s.comms.handle ∧
        s'.comms.queues.length = s.comms.queues.length ∧
        ∀ σ q, .got σ q ∈ history tr' → q = s.comms.handle) := by
  constructor
  · exact (queuesBounded_run h0 hrun).length_le
  · intro hset tr' s' hrun'
    let P : State → List Event → Prop := fun u hist =>
      u.QueuesFixed ∧ u.comms.handle = s.comms.handle ∧
        u.comms.queues.length = s.comms.queues.length ∧ ∀ σ q, .got σ q ∈ hist → q = s.comms.handle
    have hP : P s' (history tr') := by
      refine hrun'.invariant' (P := P) ⟨hset, rfl, rfl, nofun⟩ ?_
      rintro u l u' es hist ⟨hu, hh, hq, hgot⟩ hs
      obtain ⟨hu', hh', hq', hgot'⟩ := fixed_step (getEffect_of_step hs) hu
      refine ⟨hu', hh'.trans hh, hq'.trans hq, ?_⟩
      intro σ q hmem
      rcases List.mem_append.1 hmem with hmem | hmem
      · exact hgot σ q hmem
      · exact (hgot' σ q hmem).trans hh
    exact ⟨hP.2.1, hP.2.2.1, hP.2.2.2⟩

/-- Three calls that all find the flag unset, and three queues. -/
theorem queues_settle_three : ∃ s₀ tr s, firmware.init s₀ ∧ firmware.Run s₀ tr s ∧
    s.comms.queues.length = 3 ∧ s.comms.queues.length ≤ 3 ∧
    ∀ tr' s', firmware.Run s tr' s' → s'.comms.handle = s.comms.handle ∧
      s'.comms.queues.length = s.comms.queues.length ∧
      ∀ σ q, .got σ q ∈ history tr' → q = s.comms.handle := by
  obtain ⟨tr, s, hrun, hq⟩ := System.exists_run (M := firmware)
    (Q := fun _ s => decide (s.comms.queues.length = 3 ∧ s.comms.initialized = true ∧
      ∀ σ ∈ callers, s.getPc σ ≠ some .create))
    (State.boot (blockData fun _ => 0))
    (List.replicate 2 .init ++ List.replicate 7 (.wifi true) ++ List.replicate 5 .init ++
      List.replicate 4 .switch ++ List.replicate 4 (.cli (ascii "toggle 70")) ++
      [.network .ok] ++ (networkToggle 500).take 7 ++ List.replicate 3 .switch ++
      [.network .ok, .cli []])
    (by decide +kernel)
  obtain ⟨hlen, hset, hcreated⟩ := of_decide_eq_true hq
  have hfixed : s.QueuesFixed := ⟨hset, fun σ hσ => hcreated σ (mem_callers hσ) hσ⟩
  obtain ⟨hle, hkeep⟩ := queues_settle ⟨_, rfl⟩ hrun
  exact ⟨_, tr, s, ⟨_, rfl⟩, hrun, hlen, hle, hkeep hfixed⟩

/-! ### A queue nobody sends to -/

/-- `switch_task` waits on a queue that is empty, and whose handle nobody holds or can get. -/
structure Orphaned (s : State) (q : ℕ) : Prop where
  waits : s.switch = .receive (some q)
  empty : s.comms.contents q = []
  fixed : s.QueuesFixed
  handle : s.comms.handle ≠ some q
  cli : s.cli.holds ≠ some q
  network : s.network.holds ≠ some q

variable {q : ℕ}

/-- The front ends send to other queues, and do not come to hold this one. -/
theorem Orphaned.frontEnds (h : Orphaned s q) (hs : firmware.step s l = some (s', es)) :
    s'.switch = s.switch ∧ s'.cli.holds ≠ some q ∧ s'.network.holds ≠ some q ∧
      es.filterMap (Event.sentTo q) = [] ∧ (∀ h, es.filterMap (Event.receivedFrom h) = []) ∧
      es.filterMap Event.pulsed = [] := by
  have hgot := (fixed_step (getEffect_of_step hs) h.fixed).2.2.2
  rcases step_cases hs with hb | ⟨line, -, hc⟩ | ⟨-, hw⟩ | ⟨input, -, hn⟩
  · rw [hb.cli, hb.network]
    exact ⟨hb.switch, h.cli, h.network, hb.filterMap fun _ => rfl,
      fun h => hb.filterMap fun _ => rfl, hb.filterMap fun _ => rfl⟩
  · cases hc with
    | getReturned =>
      -- the handle it comes to hold is the one in place
      refine ⟨rfl, ?_, h.network, rfl, fun _ => rfl, rfl⟩
      have hhandle := hgot _ _ (List.mem_singleton_self _)
      simp only [CliPc.holds]
      rw [hhandle]
      exact h.handle
    | @send q' time todo comms ok hpc hsend =>
      have hne : q' ≠ q := by
        intro he
        apply h.cli
        rw [hpc, he]
        rfl
      refine ⟨rfl, by simp [CliPc.holds], h.network, ?_, fun _ => rfl, rfl⟩
      cases ok <;> simp [hne]
    | _ => exact ⟨rfl, by simp [CliPc.holds], h.network, rfl, fun _ => rfl, rfl⟩
  · have hwaits := h.waits
    cases hw with
    | receive hpc hreceive =>
      rw [hpc] at hwaits
      cases hwaits
      rw [xQueueReceive_eq_none_iff.2 h.empty] at hreceive
      cases hreceive
    | ledOn hpc | setHigh hpc | ctorNext hpc _ | ctorDone hpc _ | getNext hpc _
    | getReturned hpc _ | delay hpc | ledOff hpc | setLow hpc =>
      rw [hpc] at hwaits
      cases hwaits
  · cases hn with
    | getReturned =>
      refine ⟨rfl, h.cli, ?_, rfl, fun _ => rfl, rfl⟩
      have hhandle := hgot _ _ (List.mem_singleton_self _)
      simp only [NetworkPc.holds]
      rw [hhandle]
      exact h.handle
    | @send q' time todo comms ok hpc hsend =>
      have hne : q' ≠ q := by
        intro he
        apply h.network
        rw [hpc, he]
        rfl
      refine ⟨rfl, h.cli, by simp [NetworkPc.holds], ?_, fun _ => rfl, rfl⟩
      cases ok <;> simp [hne]
    | act =>
      exact ⟨rfl, h.cli, by simp [NetworkPc.holds],
        filterMap_actionEvents_nil (fun _ => rfl) (fun _ => rfl) _,
        fun _ => filterMap_actionEvents_nil (fun _ => rfl) (fun _ => rfl) _,
        filterMap_actionEvents_nil (fun _ => rfl) (fun _ => rfl) _⟩
    | listenFailed hpc | acceptFailed hpc =>
      exact ⟨rfl, h.cli, h.network, rfl, fun _ => rfl, rfl⟩
    | _ => exact ⟨rfl, h.cli, by simp [NetworkPc.holds], rfl, fun _ => rfl, rfl⟩

theorem Orphaned.step (h : Orphaned s q) (hs : firmware.step s l = some (s', es)) :
    Orphaned s' q := by
  obtain ⟨hset, hhandle, -, -⟩ := fixed_step (getEffect_of_step hs) h.fixed
  obtain ⟨hswitch, hcli, hnetwork, hsent, hreceived, -⟩ := h.frontEnds hs
  refine ⟨hswitch.trans h.waits, ?_, hset, by rw [hhandle]; exact h.handle, hcli, hnetwork⟩
  have hkept := contents_step q hs
  rw [hsent, hreceived q, h.empty] at hkept
  exact hkept.symm

theorem orphaned_run (h : Orphaned s q) (hrun : firmware.Run s tr s') :
    Orphaned s' q ∧ (history tr).filterMap Event.pulsed = [] ∧
      ∀ h, (history tr).filterMap (Event.receivedFrom h) = [] := by
  let P : State → List Event → Prop := fun u hist =>
    Orphaned u q ∧ hist.filterMap Event.pulsed = [] ∧
      ∀ h, hist.filterMap (Event.receivedFrom h) = []
  refine hrun.invariant' (P := P) ⟨h, rfl, fun _ => rfl⟩ ?_
  rintro u l u' es hist ⟨hu, hp, hr⟩ hs
  obtain ⟨-, -, -, -, hr', hp'⟩ := hu.frontEnds hs
  refine ⟨hu.step hs, ?_, fun h => ?_⟩
  · rw [List.filterMap_append, hp, hp', List.nil_append]
  · rw [List.filterMap_append, hr h, hr' h, List.nil_append]

/-- What went into any queue, counted queue by queue. -/
theorem length_sentOk {n : ℕ} (es : List Event)
    (hlt : ∀ h, es.filterMap (Event.sentTo h) ≠ [] → h < n) :
    (es.filterMap Event.sentOk).length =
      ∑ h ∈ Finset.range n, (es.filterMap (Event.sentTo h)).length := by
  induction es with
  | nil => simp
  | cons e es ih =>
    have hrest : ∀ h, es.filterMap (Event.sentTo h) ≠ [] → h < n := by
      intro h hne
      refine hlt h fun hnil => hne ?_
      rw [List.filterMap_eq_nil_iff] at hnil ⊢
      exact fun e' he' => hnil e' (List.mem_cons_of_mem e he')
    have hother : (∀ h, Event.sentTo h e = none) → Event.sentOk e = none →
        ((e :: es).filterMap Event.sentOk).length =
          ∑ h ∈ Finset.range n, ((e :: es).filterMap (Event.sentTo h)).length := by
      intro hto hok
      rw [List.filterMap_cons_none hok, ih hrest]
      exact Finset.sum_congr rfl fun h _ => by rw [List.filterMap_cons_none (hto h)]
    cases e with
    | sent σ q t ok =>
      cases ok with
      | false => exact hother (fun _ => rfl) rfl
      | true =>
        -- it counts for its own queue, and for no other one
        have hq : q < n := hlt q (by simp)
        have hsplit : ∀ h, ((Event.sent σ q t true :: es).filterMap (Event.sentTo h)).length =
            (es.filterMap (Event.sentTo h)).length + if q = h then 1 else 0 := by
          intro h
          by_cases hqh : q = h <;> simp [hqh]
        simp only [hsplit, Finset.sum_add_distrib, ← ih hrest]
        simp [hq]
    | _ => exact hother (fun _ => rfl) rfl

/-- **An orphaned queue stays so.** `switch_task` waits on it for ever and does not press the
button again, while the front ends go on telling at most two requests that they were taken. -/
theorem orphaned_forever (h0 : firmware.init s₀) (hrun : firmware.Run s₀ tr s)
    (h : Orphaned s q) (hrun' : firmware.Run s tr' s') :
    Orphaned s' q ∧ (history tr').filterMap Event.pulsed = [] ∧
      ((history tr').filterMap Event.sentOk).length ≤ 2 := by
  obtain ⟨hend, hpulsed, hreceived⟩ := orphaned_run h hrun'
  refine ⟨hend, hpulsed, ?_⟩
  -- what was sent is still there, at most one value on each of the other queues
  have hkept : ∀ h, s.comms.contents h ++ (history tr').filterMap (Event.sentTo h) =
      s'.comms.contents h := by
    intro h
    have hb := hrun'.balance (fun s => s.comms.contents h) fun _ _ _ _ => contents_step h
    rwa [hreceived h, List.nil_append] at hb
  have hone : ∀ h, ((history tr').filterMap (Event.sentTo h)).length ≤ 1 := by
    intro h
    have hlen := congrArg List.length (hkept h)
    have hle := s'.comms.contents_le h
    rw [List.length_append] at hlen
    omega
  have hzero : (history tr').filterMap (Event.sentTo q) = [] := by
    have hq := hkept q
    rw [h.empty, hend.empty] at hq
    exact hq
  have hlt : ∀ h, (history tr').filterMap (Event.sentTo h) ≠ [] → h < s'.comms.queues.length := by
    intro h hne
    by_contra hge
    have hq := hkept h
    have hnone : s'.comms.contents h = [] := by
      rw [SwitchQueue.contents, List.getElem?_eq_none (by omega)]
      rfl
    rw [hnone] at hq
    exact hne (List.append_eq_nil_iff.1 hq).2
  have hthree := (queuesBounded_run h0 (hrun.append hrun')).length_le
  have hvalid : q < s'.comms.queues.length := by
    obtain ⟨q', hq', hlt'⟩ := (queuesUp_run h0 (hrun.append hrun')).held _
      (Or.inr (Or.inl hend.waits))
    rw [Option.some.inj hq']
    exact hlt'
  calc ((history tr').filterMap Event.sentOk).length
      = ∑ h ∈ Finset.range s'.comms.queues.length,
          ((history tr').filterMap (Event.sentTo h)).length := length_sentOk _ hlt
    _ = ∑ h ∈ (Finset.range s'.comms.queues.length).erase q,
          ((history tr').filterMap (Event.sentTo h)).length := by
        rw [← Finset.add_sum_erase _ _ (Finset.mem_range.2 hvalid), hzero, List.length_nil,
          zero_add]
    _ ≤ ∑ _h ∈ (Finset.range s'.comms.queues.length).erase q, 1 :=
        Finset.sum_le_sum fun h _ => hone h
    _ ≤ 2 := by
        rw [← Finset.card_eq_sum_ones, Finset.card_erase_of_mem (Finset.mem_range.2 hvalid),
          Finset.card_range]
        omega

/-- `switch_task` tests the flag right after a toggle line did. The toggle is taken, the next
one is refused, and the button stays as it is. -/
theorem orphaned_forever_two : ∃ s₀ tr s tr' s', firmware.init s₀ ∧ firmware.Run s₀ tr s ∧
    firmware.Run s tr' s' ∧ (history tr').filterMap Event.sentOk = [70] ∧ Orphaned s' 0 ∧
    (history tr').filterMap Event.pulsed = [] ∧
    ((history tr').filterMap Event.sentOk).length ≤ 2 := by
  obtain ⟨tr, s, tr', s', hrun, hrun', hq⟩ := System.exists_runs (M := firmware)
    (Q := fun _ s tr' _ => decide (s.switch = .receive (some 0) ∧ s.comms.contents 0 = [] ∧
      s.comms.handle = some 1 ∧ s.comms.initialized = true ∧
      (∀ σ ∈ callers, s.getPc σ ≠ some .create) ∧ s.cli.holds = some 1 ∧
      s.network.holds = none ∧ (history tr').filterMap Event.sentOk = [70]))
    (State.boot (blockData fun _ => 0))
    (List.replicate 2 .init ++ List.replicate 7 (.wifi true) ++ List.replicate 5 .init ++
      List.replicate 4 .switch ++ List.replicate 4 (.cli (ascii "toggle 70")) ++
      List.replicate 4 .switch ++ List.replicate 3 (.cli []))
    ([.cli [], .cli []] ++ cliToggle "toggle 80" ++ [.cli []]) (by decide +kernel)
  obtain ⟨hwaits, hempty, hhandle, hset, hcreated, hcli, hnetwork, hsent⟩ := of_decide_eq_true hq
  have h : Orphaned s 0 := by
    refine ⟨hwaits, hempty, ⟨hset, fun σ hσ => hcreated σ (mem_callers hσ) hσ⟩, ?_, ?_, ?_⟩
    · simp [hhandle]
    · simp [hcli]
    · simp [hnetwork]
  exact ⟨_, tr, s, tr', s', ⟨_, rfl⟩, hrun, hrun', hsent, orphaned_forever ⟨_, rfl⟩ hrun h hrun'⟩

end Pcrb
