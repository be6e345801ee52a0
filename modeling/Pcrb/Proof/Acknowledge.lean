import Mathlib.Algebra.Order.Group.Multiset
import Mathlib.Tactic.Abel
import Pcrb.Proof.Conservation
import Pcrb.Proof.Grammar

/-!
# What becomes of an acknowledged toggle

Both front ends say that they toggle before they look at the queue, and neither looks at
the result of the send. So an acknowledged toggle is pending, or was offered to the
queue (`accounted_step`), and what was offered went in or was rejected.

`acknowledged_accounted`: between requests, the acknowledged toggles are the pulses, the
one in hand, what the queue holds, and those that found the queue full.
-/

namespace Pcrb

open Lts

namespace Event

/-- A toggle acknowledged: the reply to the client, or the message of the `toggle` branch. -/
@[simp] def acknowledged : Event → Option UInt32
  | .reply (.toggle t) => some t
  | .formatted (.toggling t) => some t
  | _ => none

/-- A value offered to a queue, whether it went in or not. -/
@[simp] def offered : Event → Option UInt32
  | .sent _ _ t _ => some t
  | _ => none

/-- A value that found its queue full. -/
@[simp] def rejected : Event → Option UInt32
  | .sent _ _ t false => some t
  | _ => none

end Event

/-- The toggle `cli_task` has acknowledged and not yet offered. -/
def CliPc.pending : CliPc → List UInt32
  | .run (.toggle t :: _) => [t]
  | .get _ t _ => [t]
  | .send _ t _ => [t]
  | _ => []

/-- The toggle `network_task` has acknowledged and not yet offered. -/
def NetworkPc.pending : NetworkPc → List UInt32
  | .handling (.xQueueSendToBack t :: _) => [t]
  | .get _ t _ => [t]
  | .send _ t _ => [t]
  | _ => []

/-- No front end is between acknowledging a toggle and offering it. -/
def Quiescent (s : State) : Prop := s.cli.pending = [] ∧ s.network.pending = []

/-- An action of a pass that neither presses the button nor says so. -/
def Action.Quiet : Action → Prop
  | .send (.toggle _) => False
  | .xQueueSendToBack _ => False
  | _ => True

/-- What is left of a list of actions in which a toggle directly follows its
acknowledgement and nothing else of the kind comes behind. -/
inductive Paired {α : Type*} (ack offer : UInt32 → α) (quiet : α → Prop) : List α → Prop
  | quiet {todo} : (∀ a ∈ todo, quiet a) → Paired ack offer quiet todo
  | offer {t rest} : (∀ a ∈ rest, quiet a) → Paired ack offer quiet (offer t :: rest)
  | ack {t rest} : (∀ a ∈ rest, quiet a) → Paired ack offer quiet (ack t :: offer t :: rest)

/-- The list a front end works through is paired. -/
def CliPc.Paired : CliPc → Prop
  | .prompt => True
  | .run todo => Pcrb.Paired (fun t => .format (.toggling t)) .toggle CliAction.Quiet todo
  | .get _ _ todo => ∀ a ∈ todo, a.Quiet
  | .send _ _ todo => ∀ a ∈ todo, a.Quiet

def NetworkPc.Paired : NetworkPc → Prop
  | .handling todo => Pcrb.Paired (fun t => .send (.toggle t)) .xQueueSendToBack Action.Quiet todo
  | .get _ _ todo => ∀ a ∈ todo, a.Quiet
  | .send _ _ todo => ∀ a ∈ todo, a.Quiet
  | _ => True

variable {s₀ s s' : State} {es hist : List Event} {l : Label} {t : UInt32}
  {tr : List (Transition State Label Event)}

theorem pending_cli_of_quiet {todo : List CliAction} (h : ∀ a ∈ todo, a.Quiet) :
    (CliPc.run todo).pending = [] := by
  cases todo with
  | nil => rfl
  | cons a rest =>
    cases a with
    | toggle t => exact absurd (h _ List.mem_cons_self) id
    | _ => rfl

theorem pending_network_of_quiet {todo : List Action} (h : ∀ a ∈ todo, a.Quiet) :
    (NetworkPc.handling todo).pending = [] := by
  cases todo with
  | nil => rfl
  | cons a rest =>
    cases a with
    | xQueueSendToBack t => exact absurd (h _ List.mem_cons_self) id
    | _ => rfl

theorem command_paired (line : List UInt8) :
    (CliPc.run (command line)).Paired ∧ (CliPc.run (command line)).pending = [] := by
  obtain ⟨rest, hrest, ⟨t, -, hcmd⟩ | hcmd⟩ := command_cases line
  · rw [hcmd]
    exact ⟨.ack hrest, rfl⟩
  · rw [hcmd]
    exact ⟨.quiet hrest, pending_cli_of_quiet hrest⟩

theorem Action.Answers.quiet {a : Action} (h : a.Answers) : a.Quiet := by
  cases a with
  | send reply => cases reply <;> trivial
  | xQueueSendToBack t => exact absurd h id
  | _ => trivial

theorem handlePayload_paired (amount : ℕ) (data : Bytes) :
    (NetworkPc.handling (handlePayload amount data)).Paired ∧
      (NetworkPc.handling (handlePayload amount data)).pending = [] := by
  have hcases := handlePayload_cases (data.read 0 amount) data
  rw [Bytes.length_read, Bytes.write_read] at hcases
  rcases hcases with ⟨t, -, hacts⟩ | ⟨u, -, hacts⟩ | ⟨a, ha, hacts⟩
  · rw [hacts]
    exact ⟨.ack nofun, rfl⟩
  · rw [hacts]
    refine ⟨.quiet fun a ha => ?_, rfl⟩
    simp only [List.mem_cons, List.not_mem_nil, or_false] at ha
    rcases ha with rfl | rfl | rfl <;> trivial
  · rw [hacts]
    have hq : ∀ b ∈ [a], b.Quiet := fun b hb => List.mem_singleton.1 hb ▸ ha.quiet
    exact ⟨.quiet hq, pending_network_of_quiet hq⟩

theorem handleRequest_paired (data : Bytes) (result : Except ℤ ℕ) :
    (NetworkPc.handling (handleRequest data result)).Paired ∧
      (NetworkPc.handling (handleRequest data result)).pending = [] := by
  cases result with
  | ok amount => exact handlePayload_paired amount data
  | error errno =>
    refine ⟨.quiet fun a ha => ?_, rfl⟩
    rw [handleRequest, List.mem_singleton] at ha
    subst ha
    trivial

/-! ### One step -/

/-- **`cli_task`**: what was pending and what is acknowledged is what is offered and what is
pending then. -/
theorem cliStep_accounted {line : List UInt8} (hs : CliStep s line s' es) (hp : s.cli.Paired) :
    s'.cli.Paired ∧ s.cli.pending ++ es.filterMap Event.acknowledged =
      es.filterMap Event.offered ++ s'.cli.pending := by
  cases hs with
  | line hpc =>
    obtain ⟨hpair, hpend⟩ := command_paired line
    refine ⟨hpair, ?_⟩
    rw [hpend, hpc]
    rfl
  | print hpc => rw [hpc]; exact ⟨trivial, rfl⟩
  | @format action todo message hpc hm =>
    rw [hpc] at hp ⊢
    -- a quiet message, no message, or the acknowledgement itself
    rcases hp with hq | hq | hq
    · have hrest : ∀ a ∈ todo, a.Quiet := fun a ha => hq a (List.mem_cons_of_mem _ ha)
      have hmsg : ∀ t, message ≠ .toggling t := by
        rintro t rfl
        rcases hm with rfl | ⟨-, hm⟩
        · exact hq _ List.mem_cons_self
        · exact hm t rfl
      refine ⟨.quiet hrest, ?_⟩
      rw [pending_cli_of_quiet hq, pending_cli_of_quiet hrest]
      cases message <;> first | rfl | exact absurd rfl (hmsg _)
    · rcases hm with hm | ⟨hm, -⟩ <;> cases hm
    · rcases hm with hm | ⟨hm, -⟩
      · cases hm; exact ⟨.offer hq, rfl⟩
      · cases hm
  | store hpc | use hpc =>
    rw [hpc] at hp ⊢
    rcases hp with hq | hq | hq
    have hrest := fun a ha => hq a (List.mem_cons_of_mem _ ha)
    refine ⟨.quiet hrest, ?_⟩
    rw [pending_cli_of_quiet hrest]
    rfl
  | toggle hpc =>
    rw [hpc] at hp ⊢
    rcases hp with hq | hq | hq
    · exact absurd (hq _ List.mem_cons_self) id
    · exact ⟨hq, rfl⟩
  | getNext hpc _ | getReturned hpc _ =>
    rw [hpc] at hp ⊢
    exact ⟨hp, rfl⟩
  | send hpc _ =>
    rw [hpc] at hp ⊢
    refine ⟨.quiet hp, ?_⟩
    rw [pending_cli_of_quiet hp]
    rfl

/-- **`network_task`**, likewise. -/
theorem networkStep_accounted (hs : NetworkStep s s' es) (hp : s.network.Paired) :
    s'.network.Paired ∧ s.network.pending ++ es.filterMap Event.acknowledged =
      es.filterMap Event.offered ++ s'.network.pending := by
  cases hs with
  | listen hpc | accepted hpc | recv hpc _ => rw [hpc]; exact ⟨trivial, rfl⟩
  | listenFailed hpc | acceptFailed hpc => rw [hpc]; exact ⟨trivial, rfl⟩
  | handled hpc => rw [hpc]; exact ⟨trivial, rfl⟩
  | readDone hpc =>
    obtain ⟨hpair, hpend⟩ := handleRequest_paired _ _
    refine ⟨hpair, ?_⟩
    rw [hpend, hpc]
    rfl
  | @act action todo hpc hne =>
    rw [hpc] at hp ⊢
    rw [filterMap_actionEvents fun _ => rfl, filterMap_actionEvents fun _ => rfl]
    rcases hp with hq | hq | hq
    · have hrest : ∀ a ∈ todo, a.Quiet := fun a ha => hq a (List.mem_cons_of_mem _ ha)
      have haction := hq action List.mem_cons_self
      refine ⟨.quiet hrest, ?_⟩
      rw [pending_network_of_quiet hq, pending_network_of_quiet hrest]
      cases action with
      | send reply => cases reply <;> first | rfl | exact absurd haction id
      | _ => rfl
    · exact absurd rfl (hne _)
    · exact ⟨.offer hq, rfl⟩
  | toggle hpc =>
    rw [hpc] at hp ⊢
    rcases hp with hq | hq | hq
    · exact absurd (hq _ List.mem_cons_self) id
    · exact ⟨hq, rfl⟩
  | getNext hpc _ | getReturned hpc _ =>
    rw [hpc] at hp ⊢
    exact ⟨hp, rfl⟩
  | send hpc _ =>
    rw [hpc] at hp ⊢
    refine ⟨.quiet hp, ?_⟩
    rw [pending_network_of_quiet hp]
    rfl

/-- The state and history so far account for every acknowledged toggle. -/
structure Accounted (s : State) (hist : List Event) : Prop where
  cli : s.cli.Paired
  network : s.network.Paired
  balance : (hist.filterMap Event.acknowledged : Multiset UInt32) =
    hist.filterMap Event.offered + (s.cli.pending + s.network.pending : Multiset UInt32)

theorem accounted_step (ha : Accounted s hist) (hs : firmware.step s l = some (s', es)) :
    Accounted s' (hist ++ es) := by
  obtain ⟨hcli, hnet, hbal⟩ := ha
  -- either front end only moves a toggle from pending to offered
  have key : ∀ {A O c n a o c' : Multiset UInt32}, A = O + (c + n) → c + a = o + c' →
      A + a = O + o + (c' + n) := by
    intro A O c n a o c' hA hc
    calc A + a = O + (c + a) + n := by rw [hA]; abel
      _ = O + o + (c' + n) := by rw [hc]; abel
  -- `switch_task` and the background acknowledge nothing and offer nothing
  rcases step_cases hs with hb | ⟨line, -, hc⟩ | ⟨-, hw⟩ | ⟨input, -, hn⟩
  · refine ⟨hb.cli ▸ hcli, hb.network ▸ hnet, ?_⟩
    rw [List.filterMap_append, List.filterMap_append, hb.filterMap fun _ => rfl,
      hb.filterMap fun _ => rfl, List.append_nil, List.append_nil, hb.cli, hb.network]
    exact hbal
  · have hframe : s'.network = s.network := by cases hc <;> rfl
    obtain ⟨hcli', hlaw⟩ := cliStep_accounted hc hcli
    refine ⟨hcli', hframe ▸ hnet, ?_⟩
    have hlaw' := congrArg (Multiset.ofList) hlaw
    simp only [← Multiset.coe_add] at hlaw'
    rw [List.filterMap_append, List.filterMap_append, ← Multiset.coe_add, ← Multiset.coe_add, hframe]
    exact key hbal hlaw'
  · have hframe : s'.cli = s.cli ∧ s'.network = s.network := by cases hw <;> exact ⟨rfl, rfl⟩
    refine ⟨hframe.1 ▸ hcli, hframe.2 ▸ hnet, ?_⟩
    have hnone : es.filterMap Event.acknowledged = [] ∧ es.filterMap Event.offered = [] := by
      cases hw <;> exact ⟨rfl, rfl⟩
    rw [List.filterMap_append, List.filterMap_append, hnone.1, hnone.2, List.append_nil,
      List.append_nil, hframe.1, hframe.2]
    exact hbal
  · have hframe : s'.cli = s.cli := by cases hn <;> rfl
    obtain ⟨hnet', hlaw⟩ := networkStep_accounted hn hnet
    refine ⟨hframe ▸ hcli, hnet', ?_⟩
    have hlaw' := congrArg (Multiset.ofList) hlaw
    simp only [← Multiset.coe_add] at hlaw'
    rw [List.filterMap_append, List.filterMap_append, ← Multiset.coe_add, ← Multiset.coe_add, hframe,
      add_comm (s.cli.pending : Multiset UInt32)]
    rw [add_comm (s.cli.pending : Multiset UInt32)] at hbal
    exact key hbal hlaw'

/-! ### Over a run -/

/-- What was offered went in or was rejected. -/
theorem offered_eq (hist : List Event) :
    (hist.filterMap Event.offered : Multiset UInt32) =
      (hist.filterMap Event.sentOk : Multiset UInt32) + (hist.filterMap Event.rejected) := by
  induction hist with
  | nil => rfl
  | cons e hist ih =>
    cases e with
    | sent τ h t ok =>
      cases ok
      · simp only [List.filterMap_cons, Event.offered, Event.sentOk, Event.rejected,
          ← Multiset.cons_coe, ih, Multiset.add_cons]
      · simp only [List.filterMap_cons, Event.offered, Event.sentOk, Event.rejected,
          ← Multiset.cons_coe, ih, Multiset.cons_add]
    | _ => simpa only [List.filterMap_cons, Event.offered, Event.sentOk, Event.rejected] using ih

/-- A value is rejected only by a queue that holds one already. -/
theorem full_of_rejected {τ : Task} {h : ℕ} (hs : firmware.step s l = some (s', es))
    (he : .sent τ h t false ∈ es) : (s.comms.contents h).length = 1 := by
  rcases step_cases hs with hb | ⟨line, -, hc⟩ | ⟨-, hw⟩ | ⟨input, -, hn⟩
  · obtain ⟨r, hr⟩ := hb.events _ he
    cases hr
  · cases hc with
    | send _ hsend =>
      cases List.mem_singleton.1 he
      exact SwitchQueue.contents_of_send_failed hsend
    | _ => simp at he
  · cases hw <;> simp at he
  · cases hn with
    | send _ hsend =>
      cases List.mem_singleton.1 he
      exact SwitchQueue.contents_of_send_failed hsend
    | act =>
      simp only [actionEvents, List.mem_flatMap, List.mem_cons, List.not_mem_nil, or_false] at he
      obtain ⟨r, -, he | he⟩ := he <;> cases he
    | _ => simp at he

/-- **Where the acknowledged toggles are.** If all tasks work with one handle and no front
end is between acknowledging and offering, they are the pulses begun, the one in hand,
what the queue holds, and those that were rejected; and a toggle is rejected only while
the queue holds another. -/
theorem acknowledged_accounted (h0 : firmware.init s₀) (hrun : firmware.Run s₀ tr s) {h : ℕ}
    (hone : OneHandle h (history tr)) (hq : Quiescent s) :
    ((history tr).filterMap Event.acknowledged : Multiset UInt32) =
      (history tr).filterMap Event.pulsed + (s.switch.inHand : Multiset UInt32) +
        (s.comms.contents h : Multiset UInt32) +
        ((history tr).filterMap Event.rejected : Multiset UInt32) ∧
    ∀ tn ∈ tr, ∀ τ h' t, .sent τ h' t false ∈ tn.events →
      (tn.src.comms.contents h).length = 1 := by
  have hp := pulses_run h0 hrun hone
  have hgot := handle_run h0 hrun
  obtain ⟨after, rfl⟩ := h0
  have hinit : Accounted (State.boot (blockData after)) [] := ⟨trivial, trivial, rfl⟩
  have ha := (hrun.invariant' hinit fun _ _ _ _ _ ha hs => accounted_step ha hs).balance
  constructor
  · rw [hq.1, hq.2] at ha
    rw [ha, offered_eq, ← hp, ← Multiset.coe_add, ← Multiset.coe_add]
    simp
  · intro tn htn τ h' t he
    obtain ⟨pre, -, -, hs⟩ := hrun.mem htn
    have hhist : .sent τ h' t false ∈ history tr := List.mem_flatMap.2 ⟨tn, htn, he⟩
    obtain ⟨τ', hτ'⟩ := hgot _ hhist h' rfl
    obtain rfl : h' = h := Option.some.inj (hone τ' _ hτ')
    exact full_of_rejected hs he

/-- Three clients in turn: the first toggle is pressed for, the second waits, and the third
is rejected. -/
def threeToggles : List Label :=
  startUp ++ networkToggle 500 ++ List.replicate 3 .switch ++ networkToggle 600 ++ networkToggle 700

theorem acknowledged_accounted_three : ∃ s₀ tr s, firmware.init s₀ ∧ firmware.Run s₀ tr s ∧
    (history tr).filterMap Event.rejected = [700] ∧
    ((history tr).filterMap Event.acknowledged : Multiset UInt32) =
      (history tr).filterMap Event.pulsed + (s.switch.inHand : Multiset UInt32) +
        (s.comms.contents 0 : Multiset UInt32) +
        ((history tr).filterMap Event.rejected : Multiset UInt32) ∧
    ∀ tn ∈ tr, ∀ τ h' t, .sent τ h' t false ∈ tn.events →
      (tn.src.comms.contents 0).length = 1 := by
  obtain ⟨tr, s, hrun, hq⟩ := System.exists_run (M := firmware)
    (Q := fun tr s => decide (OneHandle 0 (history tr) ∧
      (history tr).filterMap Event.rejected = [700] ∧
      s.cli.pending = [] ∧ s.network.pending = []))
    (State.boot (blockData fun _ => 0)) threeToggles (by decide +kernel)
  obtain ⟨hone, hrej, hquiet⟩ := of_decide_eq_true hq
  exact ⟨_, tr, s, ⟨_, rfl⟩, hrun, hrej, acknowledged_accounted ⟨_, rfl⟩ hrun hone hquiet⟩

/-- **An acknowledged toggle can be lost**: it is not in the pulses, in hand, or in the queue. -/
theorem acknowledged_lost : ¬ ∀ s₀ tr s h, firmware.init s₀ → firmware.Run s₀ tr s →
    OneHandle h (history tr) → Quiescent s →
    ((history tr).filterMap Event.acknowledged : Multiset UInt32) =
      (history tr).filterMap Event.pulsed + (s.switch.inHand : Multiset UInt32) +
        (s.comms.contents h : Multiset UInt32) := by
  intro hall
  obtain ⟨tr, s, hrun, hq⟩ := System.exists_run (M := firmware)
    (Q := fun tr s => decide (OneHandle 0 (history tr) ∧
      s.cli.pending = [] ∧ s.network.pending = [] ∧
      (history tr).filterMap Event.acknowledged = [500, 600, 700] ∧
      (history tr).filterMap Event.pulsed = [500] ∧ s.switch.inHand = [] ∧
      s.comms.contents 0 = [600]))
    (State.boot (blockData fun _ => 0)) threeToggles (by decide +kernel)
  obtain ⟨hone, hcli, hnet, hack, hpulsed, hhand, hqueue⟩ := of_decide_eq_true hq
  have h := hall _ tr s 0 ⟨_, rfl⟩ hrun hone ⟨hcli, hnet⟩
  rw [hack, hpulsed, hhand, hqueue] at h
  exact absurd (congrArg Multiset.card h) (by decide)

end Pcrb
