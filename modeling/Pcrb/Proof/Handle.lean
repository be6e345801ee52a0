import Pcrb.Proof.Conservation

/-!
# One queue, or two

`switch_queue::get` tests `initialized`, and creates the queue and sets it if it is not
set, with nothing to keep the calls of other tasks out. `GetEffect` is what a step of
the firmware is to the calls of `get`; `OneQueue` is the invariant of a run in which no
call tests the flag while another one is on its way from the test to setting it.

`one_queue`: such a run has one queue, whose handle every call returns. A call that
does test it then leaves both calls about to create a queue.
-/

namespace Pcrb

open Lts

/-- Where the current call of `get` of a task stands. -/
def State.getPc (s : State) : Task → Option GetPc
  | .cli => match s.cli with | .get pc _ _ => some pc | _ => none
  | .switch => match s.switch with | .get pc => some pc | _ => none
  | .network => match s.network with | .get pc _ _ => some pc | _ => none
  | _ => none

/-- The task that steps. -/
def Label.task : Label → Task
  | .init => .init
  | .cli _ => .cli
  | .wifi _ => .wifi
  | .callback => .wifi
  | .switch => .switch
  | .network _ => .network
  | .monitor _ => .monitor

/-- The call is between its test and its set. -/
def State.Creating (s : State) (σ : Task) : Prop :=
  s.getPc σ = some .create ∨ s.getPc σ = some .set

/-- A call does not find the flag unset while another call is between its test and its set. -/
def GetAtomic (s : State) (l : Label) : Prop :=
  s.getPc l.task = some .test → s.comms.initialized = false →
    ∀ σ, σ ≠ l.task → ¬ s.Creating σ

instance (s : State) (σ : Task) : Decidable (s.Creating σ) :=
  inferInstanceAs (Decidable (_ ∨ _))

instance (s : State) (l : Label) : Decidable (GetAtomic s l) :=
  decidable_of_iff (s.getPc l.task = some .test → s.comms.initialized = false →
      ∀ σ ∈ [Task.cli, Task.switch, Task.network], σ ≠ l.task → ¬ s.Creating σ) <| by
    refine ⟨fun h ht hi σ hne hcr => ?_, fun h ht hi σ _ => h ht hi σ⟩
    cases σ with
    | cli | switch | network => exact h ht hi _ (by simp) hne hcr
    | _ => rcases hcr with hcr | hcr <;> cases hcr

/-- **The invariant** of the calls of `get`. -/
structure OneQueue (s : State) : Prop where
  unique : ∀ σ τ, s.Creating σ → s.Creating τ → σ = τ
  unset : ∀ σ, s.Creating σ → s.comms.initialized = false
  absent : s.comms.initialized = false → (∀ σ, s.getPc σ ≠ some .set) →
    s.comms.queues.length = 0
  stored : ∀ σ, s.getPc σ = some .set → s.comms.handle = some 0 ∧ s.comms.queues.length = 1
  one : s.comms.initialized = true → s.comms.handle = some 0 ∧ s.comms.queues.length = 1
  read : ∀ σ, s.getPc σ = some .read → s.comms.initialized = true

variable {s₀ s s' : State} {es hist : List Event} {l : Label} {τ : Task}
  {tr : List (Transition State Label Event)}

/-- What a step of the task `τ` is to the calls of `get`. -/
inductive GetEffect (s s' : State) (τ : Task) : List Event → Prop
  | quiet {fs} : s.getPc τ = none → s'.comms.initialized = s.comms.initialized →
      s'.comms.handle = s.comms.handle →
      s'.comms.queues.length = s.comms.queues.length →
      (∀ σ pc, pc ≠ .test → (s'.getPc σ = some pc ↔ s.getPc σ = some pc)) →
      (∀ σ h, .got σ h ∉ fs) → GetEffect s s' τ fs
  | test : s.getPc τ = some .test → s'.comms = s.comms →
      s'.getPc τ = some (if s.comms.initialized then .read else .create) →
      (∀ σ, σ ≠ τ → s'.getPc σ = s.getPc σ) → GetEffect s s' τ []
  | create : s.getPc τ = some .create →
      s'.comms = { s.comms with
        handle := some s.comms.queues.length, queues := s.comms.queues ++ [Fifo.empty] } →
      s'.getPc τ = some .set → (∀ σ, σ ≠ τ → s'.getPc σ = s.getPc σ) → GetEffect s s' τ []
  | set : s.getPc τ = some .set → s'.comms = { s.comms with initialized := true } →
      s'.getPc τ = some .read → (∀ σ, σ ≠ τ → s'.getPc σ = s.getPc σ) → GetEffect s s' τ []
  | read : s.getPc τ = some .read → s'.comms = s.comms → s'.getPc τ = none →
      (∀ σ, σ ≠ τ → s'.getPc σ = s.getPc σ) → GetEffect s s' τ [.got τ s.comms.handle]

namespace GetEffect

theorem of_next {pc pc' : GetPc} (hpc : s.getPc τ = some pc)
    (hget : s.comms.get pc = (s'.comms, .next pc')) (hpc' : s'.getPc τ = some pc')
    (hother : ∀ σ, σ ≠ τ → s'.getPc σ = s.getPc σ) : GetEffect s s' τ [] := by
  cases pc with
  | test =>
    obtain ⟨hc, hn⟩ := Prod.mk.inj hget
    rw [GetResult.next.injEq] at hn
    exact .test hpc hc.symm (by rw [hpc', hn]) hother
  | create =>
    obtain ⟨hc, hn⟩ := Prod.mk.inj hget
    rw [GetResult.next.injEq] at hn
    exact .create hpc hc.symm (by rw [hpc', hn]) hother
  | set =>
    obtain ⟨hc, hn⟩ := Prod.mk.inj hget
    rw [GetResult.next.injEq] at hn
    exact .set hpc hc.symm (by rw [hpc', hn]) hother
  | read => cases (Prod.mk.inj hget).2

theorem of_returned {pc : GetPc} {h : Option ℕ} (hpc : s.getPc τ = some pc)
    (hget : s.comms.get pc = (s'.comms, .returned h)) (hpc' : s'.getPc τ = none)
    (hother : ∀ σ, σ ≠ τ → s'.getPc σ = s.getPc σ) : GetEffect s s' τ [.got τ h] := by
  cases pc with
  | read =>
    obtain ⟨hc, hn⟩ := Prod.mk.inj hget
    rw [GetResult.returned.injEq] at hn
    rw [← hn]
    exact .read hpc hc.symm hpc' hother
  | test | create | set => cases (Prod.mk.inj hget).2

/-- A step that leaves the queue alone, and starts at most a call of `get` of its own task. -/
theorem of_frame (hc : s'.comms.initialized = s.comms.initialized ∧
      s'.comms.handle = s.comms.handle ∧ s'.comms.queues.length = s.comms.queues.length)
    (hother : ∀ σ, σ ≠ τ → s'.getPc σ = s.getPc σ) (hsrc : s.getPc τ = none)
    (hown : ∀ pc, s'.getPc τ = some pc → pc = .test)
    (hes : ∀ σ h, .got σ h ∉ es) : GetEffect s s' τ es := by
  refine .quiet hsrc hc.1 hc.2.1 hc.2.2 ?_ hes
  intro σ pc hne
  rcases eq_or_ne σ τ with rfl | hσ
  · rw [hsrc]
    exact ⟨fun hpc => absurd (hown pc hpc) hne, nofun⟩
  · rw [hother σ hσ]

end GetEffect

/-- The calls of the tasks that stand still. -/
theorem getPc_of_frame (hc : τ = .cli ∨ s'.cli = s.cli) (hw : τ = .switch ∨ s'.switch = s.switch)
    (hn : τ = .network ∨ s'.network = s.network) : ∀ σ, σ ≠ τ → s'.getPc σ = s.getPc σ := by
  intro σ hσ
  cases σ with
  | cli =>
    rcases hc with rfl | hc
    · exact absurd rfl hσ
    · simp only [State.getPc, hc]
  | switch =>
    rcases hw with rfl | hw
    · exact absurd rfl hσ
    · simp only [State.getPc, hw]
  | network =>
    rcases hn with rfl | hn
    · exact absurd rfl hσ
    · simp only [State.getPc, hn]
  | _ => rfl

theorem cliStep_getEffect {line : List UInt8} (hc : CliStep s line s' es) :
    GetEffect s s' .cli es := by
  have hframe : s'.switch = s.switch ∧ s'.network = s.network := by cases hc <;> exact ⟨rfl, rfl⟩
  have ho := getPc_of_frame (τ := .cli) (Or.inl rfl) (Or.inr hframe.1) (Or.inr hframe.2)
  -- a step of the call itself, a send, the start of a call, or none of these
  cases hc with
  | getNext hpc hget => exact .of_next (by simp only [State.getPc, hpc]) hget rfl ho
  | getReturned hpc hget => exact .of_returned (by simp only [State.getPc, hpc]) hget rfl ho
  | send hpc hsend =>
    have hsrc : s.getPc .cli = none := by simp only [State.getPc, hpc]
    exact .of_frame (SwitchQueue.send_frame hsend) ho hsrc nofun (by simp)
  | toggle hpc =>
    have hsrc : s.getPc .cli = none := by simp only [State.getPc, hpc]
    exact .of_frame ⟨rfl, rfl, rfl⟩ ho hsrc (fun pc h => (Option.some.inj h).symm) (by simp)
  | line hpc | print hpc | format hpc _ | store hpc | use hpc =>
    have hsrc : s.getPc .cli = none := by simp only [State.getPc, hpc]
    exact .of_frame ⟨rfl, rfl, rfl⟩ ho hsrc nofun (by simp)

theorem switchStep_getEffect (hw : SwitchStep s s' es) : GetEffect s s' .switch es := by
  have hframe : s'.cli = s.cli ∧ s'.network = s.network := by cases hw <;> exact ⟨rfl, rfl⟩
  have ho := getPc_of_frame (τ := .switch) (Or.inr hframe.1) (Or.inl rfl) (Or.inr hframe.2)
  cases hw with
  | getNext hpc hget => exact .of_next (by simp only [State.getPc, hpc]) hget rfl ho
  | getReturned hpc hget => exact .of_returned (by simp only [State.getPc, hpc]) hget rfl ho
  | receive hpc hreceive =>
    have hsrc : s.getPc .switch = none := by simp only [State.getPc, hpc]
    exact .of_frame (SwitchQueue.receive_frame hreceive) ho hsrc nofun (by simp)
  | ctorDone hpc _ | setLow hpc =>
    have hsrc : s.getPc .switch = none := by simp only [State.getPc, hpc]
    exact .of_frame ⟨rfl, rfl, rfl⟩ ho hsrc (fun pc h => (Option.some.inj h).symm) (by simp)
  | ctorNext hpc _ | ledOn hpc | setHigh hpc | delay hpc | ledOff hpc =>
    have hsrc : s.getPc .switch = none := by simp only [State.getPc, hpc]
    exact .of_frame ⟨rfl, rfl, rfl⟩ ho hsrc nofun (by simp)

theorem networkStep_getEffect (hn : NetworkStep s s' es) : GetEffect s s' .network es := by
  have hframe : s'.cli = s.cli ∧ s'.switch = s.switch := by cases hn <;> exact ⟨rfl, rfl⟩
  have ho := getPc_of_frame (τ := .network) (Or.inr hframe.1) (Or.inr hframe.2) (Or.inl rfl)
  cases hn with
  | getNext hpc hget => exact .of_next (by simp only [State.getPc, hpc]) hget rfl ho
  | getReturned hpc hget => exact .of_returned (by simp only [State.getPc, hpc]) hget rfl ho
  | send hpc hsend =>
    have hsrc : s.getPc .network = none := by simp only [State.getPc, hpc]
    exact .of_frame (SwitchQueue.send_frame hsend) ho hsrc (fun _ h => by cases h) (by simp)
  | toggle hpc =>
    have hsrc : s.getPc .network = none := by simp only [State.getPc, hpc]
    exact .of_frame ⟨rfl, rfl, rfl⟩ ho hsrc (fun pc h => (Option.some.inj h).symm) (by simp)
  | listenFailed hpc | acceptFailed hpc =>
    have hsrc : s.getPc .network = none := by simp only [State.getPc, hpc]
    exact .of_frame ⟨rfl, rfl, rfl⟩ ho hsrc (by rw [hsrc]; intro _ h; cases h) (by simp)
  | listen hpc | accepted hpc | readDone hpc | recv hpc _ | handled hpc | act hpc _ =>
    have hsrc : s.getPc .network = none := by simp only [State.getPc, hpc]
    exact .of_frame ⟨rfl, rfl, rfl⟩ ho hsrc (fun _ h => by cases h) (by simp [actionEvents])

theorem Background.getEffect (hb : Background s s' es) (hτ : s.getPc τ = none) :
    GetEffect s s' τ es := by
  have hsame : ∀ σ, s'.getPc σ = s.getPc σ := by
    intro σ
    cases σ with
    | cli => simp only [State.getPc, hb.cli]
    | switch => simp only [State.getPc, hb.switch]
    | network => simp only [State.getPc, hb.network]
    | _ => rfl
  refine .quiet hτ (by rw [hb.comms]) (by rw [hb.comms]) (by rw [hb.comms]) ?_ ?_
  · intro σ pc _
    rw [hsame σ]
  · intro σ h hmem
    obtain ⟨r, hr⟩ := hb.events _ hmem
    cases hr

/-- **Every step** does one of five things to the calls of `get`. -/
theorem getEffect_of_step (hs : firmware.step s l = some (s', es)) :
    GetEffect s s' l.task es := by
  cases taskStep_of_eq hs with
  | init hi => exact (initStep_background hi).getEffect rfl
  | cli _ hc => exact cliStep_getEffect hc
  | wifi hw => exact (wifiStep_background hw).getEffect rfl
  | callback _ => exact .of_frame ⟨rfl, rfl, rfl⟩ (fun _ _ => rfl) rfl nofun (by simp)
  | switch _ hw => exact switchStep_getEffect hw
  | network _ hn => exact networkStep_getEffect hn
  | monitor _ hm => exact (monitorStep_background hm).getEffect rfl

/-! ### The invariant -/

/-- The calls after a step that moved the one of `τ`. -/
theorem getPc_cases {pc : GetPc} {x : Option GetPc} (hτ : s'.getPc τ = x)
    (hother : ∀ σ, σ ≠ τ → s'.getPc σ = s.getPc σ) {σ : Task} (hσ : s'.getPc σ = some pc) :
    (σ = τ ∧ x = some pc) ∨ (σ ≠ τ ∧ s.getPc σ = some pc) := by
  rcases eq_or_ne σ τ with rfl | hne
  · exact Or.inl ⟨rfl, hτ.symm.trans hσ⟩
  · exact Or.inr ⟨hne, (hother σ hne).symm.trans hσ⟩

/-- A place that the call of `τ` neither leaves nor comes to. -/
theorem getPc_iff {pc : GetPc} {x x' : Option GetPc} (hτ : s.getPc τ = x) (hτ' : s'.getPc τ = x')
    (hother : ∀ σ, σ ≠ τ → s'.getPc σ = s.getPc σ) (hx : x ≠ some pc) (hx' : x' ≠ some pc)
    {σ : Task} : s'.getPc σ = some pc ↔ s.getPc σ = some pc := by
  rcases eq_or_ne σ τ with rfl | hne
  · rw [hτ, hτ']
    exact ⟨fun h => absurd h hx', fun h => absurd h hx⟩
  · rw [hother σ hne]

theorem creating_cases {x : Option GetPc} (hτ : s'.getPc τ = x)
    (hother : ∀ σ, σ ≠ τ → s'.getPc σ = s.getPc σ) {σ : Task} (hσ : s'.Creating σ) :
    (σ = τ ∧ (x = some .create ∨ x = some .set)) ∨ (σ ≠ τ ∧ s.Creating σ) := by
  rcases hσ with hσ | hσ
  · rcases getPc_cases hτ hother hσ with ⟨he, hx⟩ | ⟨hne, hold⟩
    · exact Or.inl ⟨he, Or.inl hx⟩
    · exact Or.inr ⟨hne, Or.inl hold⟩
  · rcases getPc_cases hτ hother hσ with ⟨he, hx⟩ | ⟨hne, hold⟩
    · exact Or.inl ⟨he, Or.inr hx⟩
    · exact Or.inr ⟨hne, Or.inr hold⟩

namespace OneQueue

/-- A step after which the same calls are at their set, and no other one is at its create. -/
theorem of_same (h : OneQueue s) (hi : s'.comms.initialized = s.comms.initialized)
    (hh : s'.comms.handle = s.comms.handle)
    (hq : s'.comms.queues.length = s.comms.queues.length)
    (hcreate : ∀ σ, s'.getPc σ = some .create → s.getPc σ = some .create)
    (hset : ∀ σ, s'.getPc σ = some .set ↔ s.getPc σ = some .set)
    (hread : ∀ σ, s'.getPc σ = some .read → s.comms.initialized = true) : OneQueue s' := by
  have hcr : ∀ σ, s'.Creating σ → s.Creating σ := by
    intro σ hσ
    exact hσ.imp (hcreate σ) (hset σ).1
  constructor
  · intro σ τ hσ hτ
    exact h.unique σ τ (hcr σ hσ) (hcr τ hτ)
  · intro σ hσ
    rw [hi]
    exact h.unset σ (hcr σ hσ)
  · intro hfalse hno
    rw [hi] at hfalse
    rw [hq]
    exact h.absent hfalse fun σ hσ => hno σ ((hset σ).2 hσ)
  · intro σ hσ
    rw [hh, hq]
    exact h.stored σ ((hset σ).1 hσ)
  · intro htrue
    rw [hi] at htrue
    rw [hh, hq]
    exact h.one htrue
  · intro σ hσ
    rw [hi]
    exact hread σ hσ

/-- The call of `τ` finds the flag unset. -/
theorem test_unset (h : OneQueue s) (hpc : s.getPc τ = some .test) (hc : s'.comms = s.comms)
    (hpc' : s'.getPc τ = some .create) (hother : ∀ σ, σ ≠ τ → s'.getPc σ = s.getPc σ)
    (hunset : s.comms.initialized = false) (hat : ∀ σ, σ ≠ τ → ¬ s.Creating σ) : OneQueue s' := by
  -- nobody else is creating, so the call that is about to is the only one
  have hcr : ∀ σ, s'.Creating σ → σ = τ := by
    intro σ hσ
    rcases creating_cases hpc' hother hσ with ⟨he, -⟩ | ⟨hne, hold⟩
    · exact he
    · exact absurd hold (hat σ hne)
  have hset : ∀ σ, s'.getPc σ ≠ some .set := by
    intro σ hσ
    rcases getPc_cases hpc' hother hσ with ⟨-, hx⟩ | ⟨hne, hold⟩
    · cases hx
    · exact hat σ hne (Or.inr hold)
  have hzero : s.comms.queues.length = 0 := by
    refine h.absent hunset fun σ hσ => ?_
    rcases eq_or_ne σ τ with rfl | hne
    · rw [hpc] at hσ
      cases hσ
    · exact hat σ hne (Or.inr hσ)
  constructor
  · intro σ σ' hσ hσ'
    exact (hcr σ hσ).trans (hcr σ' hσ').symm
  · intro _ _
    rw [hc, hunset]
  · intro _ _
    rw [hc, hzero]
  · intro σ hσ
    exact absurd hσ (hset σ)
  · intro htrue
    rw [hc, hunset] at htrue
    cases htrue
  · intro σ hσ
    rcases getPc_cases hpc' hother hσ with ⟨-, hx⟩ | ⟨-, hold⟩
    · cases hx
    · rw [hc]
      exact h.read σ hold

/-- The call of `τ` creates the queue. -/
theorem create (h : OneQueue s) (hpc : s.getPc τ = some .create)
    (hc : s'.comms = { s.comms with
      handle := some s.comms.queues.length, queues := s.comms.queues ++ [Fifo.empty] })
    (hpc' : s'.getPc τ = some .set) (hother : ∀ σ, σ ≠ τ → s'.getPc σ = s.getPc σ) :
    OneQueue s' := by
  have hcτ : s.Creating τ := Or.inl hpc
  have hfalse := h.unset τ hcτ
  -- the only call on its way to its set is this one, and it is not there yet
  have hzero : s.comms.queues.length = 0 := by
    refine h.absent hfalse fun σ hσ => ?_
    obtain rfl := h.unique σ τ (Or.inr hσ) hcτ
    rw [hpc] at hσ
    cases hσ
  have hone : s'.comms.handle = some 0 ∧ s'.comms.queues.length = 1 := by
    rw [hc]
    simp [hzero]
  have hinit : s'.comms.initialized = false := by
    rw [hc]
    exact hfalse
  have hcr : ∀ σ, s'.Creating σ → σ = τ := by
    intro σ hσ
    rcases creating_cases hpc' hother hσ with ⟨he, -⟩ | ⟨-, hold⟩
    · exact he
    · exact h.unique σ τ hold hcτ
  constructor
  · intro σ σ' hσ hσ'
    exact (hcr σ hσ).trans (hcr σ' hσ').symm
  · intro _ _
    exact hinit
  · intro _ hno
    exact absurd hpc' (hno τ)
  · intro _ _
    exact hone
  · intro _
    exact hone
  · intro σ hσ
    rcases getPc_cases hpc' hother hσ with ⟨-, hx⟩ | ⟨-, hold⟩
    · cases hx
    · rw [h.read σ hold] at hfalse
      cases hfalse

/-- The call of `τ` sets the flag, and nobody is creating any more. -/
theorem set (h : OneQueue s) (hpc : s.getPc τ = some .set)
    (hc : s'.comms = { s.comms with initialized := true }) (hpc' : s'.getPc τ = some .read)
    (hother : ∀ σ, σ ≠ τ → s'.getPc σ = s.getPc σ) : OneQueue s' := by
  have hcτ : s.Creating τ := Or.inr hpc
  have hone : s'.comms.handle = some 0 ∧ s'.comms.queues.length = 1 := by
    rw [hc]
    exact h.stored τ hpc
  have hinit : s'.comms.initialized = true := by rw [hc]
  have hcr : ∀ σ, ¬ s'.Creating σ := by
    intro σ hσ
    rcases creating_cases hpc' hother hσ with ⟨-, hx | hx⟩ | ⟨hne, hold⟩
    · cases hx
    · cases hx
    · exact hne (h.unique σ τ hold hcτ)
  constructor
  · intro σ _ hσ _
    exact absurd hσ (hcr σ)
  · intro σ hσ
    exact absurd hσ (hcr σ)
  · intro hfalse _
    rw [hinit] at hfalse
    cases hfalse
  · intro _ _
    exact hone
  · intro _
    exact hone
  · intro _ _
    exact hinit

/-- **A step keeps the invariant**, if the call that makes it does not find the flag unset
while another call is creating. -/
theorem step (he : GetEffect s s' τ es) (h : OneQueue s)
    (hat : s.getPc τ = some .test → s.comms.initialized = false → ∀ σ, σ ≠ τ → ¬ s.Creating σ) :
    OneQueue s' := by
  cases he with
  | quiet _ hi hh hq hpc _ =>
    refine h.of_same hi hh hq (fun σ => (hpc σ _ (by decide)).1) (fun σ => hpc σ _ (by decide)) ?_
    intro σ hσ
    exact h.read σ ((hpc σ _ (by decide)).1 hσ)
  | test hpc hc hpc' hother =>
    cases hinit : s.comms.initialized with
    | false =>
      rw [hinit] at hpc'
      exact h.test_unset hpc hc hpc' hother hinit (hat hpc hinit)
    | true =>
      rw [hinit] at hpc'
      refine h.of_same (by rw [hc]) (by rw [hc]) (by rw [hc]) ?_ ?_ (fun _ _ => hinit)
      · intro σ hσ
        rcases getPc_cases hpc' hother hσ with ⟨-, hx⟩ | ⟨-, hold⟩
        · cases hx
        · exact hold
      · exact fun σ => getPc_iff hpc hpc' hother (by decide) (by decide)
  | create hpc hc hpc' hother => exact h.create hpc hc hpc' hother
  | set hpc hc hpc' hother => exact h.set hpc hc hpc' hother
  | read hpc hc hpc' hother =>
    have hinit := h.read τ hpc
    refine h.of_same (by rw [hc]) (by rw [hc]) (by rw [hc]) ?_ ?_ (fun _ _ => hinit)
    · intro σ hσ
      rcases getPc_cases hpc' hother hσ with ⟨-, hx⟩ | ⟨-, hold⟩
      · cases hx
      · exact hold
    · exact fun σ => getPc_iff hpc hpc' hother (by decide) (by decide)

/-- A call returns the handle of the one queue. -/
theorem got (he : GetEffect s s' τ es) (h : OneQueue s) :
    ∀ σ q, .got σ q ∈ es → q = some 0 := by
  cases he with
  | quiet _ _ _ _ _ hno => exact fun σ q hmem => absurd hmem (hno σ q)
  | test | create | set => exact nofun
  | read hpc =>
    intro σ q hmem
    cases List.mem_singleton.1 hmem
    exact (h.one (h.read τ hpc)).1

theorem length_le (h : OneQueue s) : s.comms.queues.length ≤ 1 := by
  cases hinit : s.comms.initialized with
  | true => exact (h.one hinit).2.le
  | false =>
    by_cases hset : ∃ σ, s.getPc σ = some .set
    · obtain ⟨σ, hσ⟩ := hset
      exact (h.stored σ hσ).2.le
    · rw [h.absent hinit (not_exists.1 hset)]
      exact Nat.zero_le 1

end OneQueue

/-! ### The other runs -/

/-- A call under way is of a task that has been created; behind its create there is a queue. -/
structure GetStarted (s : State) : Prop where
  created : ∀ σ, s.getPc σ ≠ none → s.init.created σ = true
  stored : ∀ σ, s.getPc σ = some .set → 1 ≤ s.comms.queues.length

theorem created_mono (hs : firmware.step s l = some (s', es)) {σ : Task}
    (hc : s.init.created σ = true) : s'.init.created σ = true := by
  cases taskStep_of_eq hs with
  | init hi =>
    unfold initStep at hi
    cases hpc : s.init <;>
      simp only [hpc, Option.some.injEq, Prod.mk.injEq, reduceCtorEq] at hi <;>
      obtain ⟨rfl, rfl⟩ := hi <;> rw [hpc] at hc
    case wait => cases s.wifiInitd <;> cases σ <;> exact hc
    all_goals cases σ <;> first | rfl | cases hc
  | cli _ hc' => cases hc' <;> exact hc
  | wifi hw =>
    unfold wifiStep at hw
    split at hw <;> cases hw <;> first | exact hc | (split <;> exact hc)
  | callback _ => exact hc
  | switch _ hw => cases hw <;> exact hc
  | network _ hn => cases hn <;> exact hc
  | monitor _ hm => cases hm <;> exact hc

theorem getStarted_step (hs : firmware.step s l = some (s', es)) (h : GetStarted s) :
    GetStarted s' := by
  constructor
  · intro σ hσ
    by_cases hold : s.getPc σ = none
    · -- the call has just begun, so its task is the one that stepped
      cases taskStep_of_eq hs with
      | init hi =>
        have hb := initStep_background hi
        cases σ <;> simp_all [State.getPc, hb.cli, hb.switch, hb.network]
      | wifi hw =>
        have hb := wifiStep_background hw
        cases σ <;> simp_all [State.getPc, hb.cli, hb.switch, hb.network]
      | callback _ => exact absurd hold hσ
      | monitor _ hm => cases hm <;> exact absurd hold hσ
      | cli hcr hc =>
        cases σ with
        | cli => cases hc <;> exact hcr
        | _ => cases hc <;> exact absurd hold hσ
      | switch hcr hw =>
        cases σ with
        | switch => cases hw <;> exact hcr
        | _ => cases hw <;> exact absurd hold hσ
      | network hcr hn =>
        cases σ with
        | network => cases hn <;> exact hcr
        | _ => cases hn <;> exact absurd hold hσ
    · exact created_mono hs (h.created σ hold)
  · intro σ hσ
    cases getEffect_of_step hs with
    | quiet _ _ _ hq hpc _ =>
      rw [hq]
      exact h.stored σ ((hpc σ _ (by decide)).1 hσ)
    | test hpc hc hpc' hother =>
      rw [hc]
      rcases getPc_cases hpc' hother hσ with ⟨-, hx⟩ | ⟨-, hold⟩
      · split at hx <;> cases hx
      · exact h.stored σ hold
    | create hpc hc hpc' hother =>
      rw [hc]
      simp
    | set hpc hc hpc' hother =>
      rw [hc]
      exact h.stored l.task hpc
    | read hpc hc hpc' hother =>
      rw [hc]
      rcases getPc_cases hpc' hother hσ with ⟨-, hx⟩ | ⟨-, hold⟩
      · cases hx
      · exact h.stored σ hold

/-- A call about to create a queue can do so, whatever the other calls are about. -/
theorem create_enabled {σ : Task} (hcr : s.init.created σ = true)
    (hpc : s.getPc σ = some .create) : ∃ l s', firmware.step s l = some (s', []) ∧
      s'.comms.queues.length = s.comms.queues.length + 1 ∧ s'.init = s.init ∧
      ∀ τ, τ ≠ σ → s'.getPc τ = s.getPc τ := by
  cases σ with
  | cli =>
    -- what is typed meanwhile does not matter
    cases hcli : s.cli with
    | get pc time todo =>
      obtain rfl : pc = .create := by simpa [State.getPc, hcli] using hpc
      refine ⟨.cli [], { s with comms := (s.comms.get .create).1, cli := .get .set time todo },
        ?_, List.length_append, rfl, getPc_of_frame (Or.inl rfl) (Or.inr rfl) (Or.inr rfl)⟩
      change (if s.init.created .cli then cliStep s [] else none) = _
      rw [if_pos hcr, cliStep, hcli]
      rfl
    | _ => simp [State.getPc, hcli] at hpc
  | switch =>
    cases hsw : s.switch with
    | get pc =>
      obtain rfl : pc = .create := by simpa [State.getPc, hsw] using hpc
      refine ⟨.switch, { s with comms := (s.comms.get .create).1, switch := .get .set },
        ?_, List.length_append, rfl, getPc_of_frame (Or.inr rfl) (Or.inl rfl) (Or.inr rfl)⟩
      change (if s.init.created .switch then switchStep s else none) = _
      rw [if_pos hcr, switchStep, hsw]
      rfl
    | _ => simp [State.getPc, hsw] at hpc
  | network =>
    cases hnet : s.network with
    | get pc time todo =>
      obtain rfl : pc = .create := by simpa [State.getPc, hnet] using hpc
      refine ⟨.network .ok,
        { s with comms := (s.comms.get .create).1, network := .get .set time todo },
        ?_, List.length_append, rfl, getPc_of_frame (Or.inr rfl) (Or.inr rfl) (Or.inl rfl)⟩
      change (if s.init.created .network then networkStep s .ok else none) = _
      rw [if_pos hcr]
      unfold networkStep
      rw [hnet]
      rfl
    | _ => simp [State.getPc, hnet] at hpc
  | init | wifi | monitor => cases hpc

/-- **A test that comes between** another call's test and its set leads to two queues. -/
theorem two_queues (hs : firmware.step s l = some (s', es)) (h : GetStarted s)
    (hna : ¬ GetAtomic s l) :
    ∃ tr' u, firmware.Run s' tr' u ∧ 2 ≤ u.comms.queues.length := by
  simp only [GetAtomic, not_forall, not_not] at hna
  obtain ⟨htest, hunset, σ, hne, hcr⟩ := hna
  have hg := getStarted_step hs h
  cases getEffect_of_step hs with
  | quiet hno => rw [hno] at htest; cases htest
  | create hpc | set hpc | read hpc => rw [hpc] at htest; cases htest
  | test _ hc hpc' hother =>
    rw [hunset] at hpc'
    have hτ : s'.init.created l.task = true := hg.created _ (by rw [hpc']; exact nofun)
    rcases hcr with hcr | hcr
    · -- both are about to create: one after the other
      have hσ : s'.getPc σ = some .create := (hother σ hne).trans hcr
      obtain ⟨l₁, s₁, hs₁, hlen₁, hinit₁, hother₁⟩ :=
        create_enabled (hg.created σ (by rw [hσ]; exact nofun)) hσ
      have hpc₁ : s₁.getPc l.task = some .create := (hother₁ _ hne.symm).trans hpc'
      obtain ⟨l₂, s₂, hs₂, hlen₂, -, -⟩ := create_enabled (by rw [hinit₁]; exact hτ) hpc₁
      exact ⟨_, s₂, (System.Run.nil.snoc hs₁).snoc hs₂, by omega⟩
    · -- the other queue is there already
      have hlen := h.stored σ hcr
      obtain ⟨l₁, s₁, hs₁, hlen₁, -, -⟩ := create_enabled hτ hpc'
      rw [hc] at hlen₁
      exact ⟨_, s₁, System.Run.nil.snoc hs₁, by omega⟩

/-! ### Over a run -/

theorem boot_oneQueue (ram : Bytes) : OneQueue (State.boot ram) where
  unique σ _ hσ := by rcases hσ with hσ | hσ <;> cases σ <;> cases hσ
  unset _ _ := rfl
  absent _ _ := rfl
  stored σ hσ := by cases σ <;> cases hσ
  one := nofun
  read σ hσ := by cases σ <;> cases hσ

theorem boot_getStarted (ram : Bytes) : GetStarted (State.boot ram) where
  created σ hσ := by cases σ <;> exact absurd rfl hσ
  stored σ hσ := by cases σ <;> cases hσ

/-- **One queue for the whole run**, if no call of `get` tests the flag while another call is
between its test and its set: at most one queue is created, every call returns its
handle, and every send and receive is on it. Any other run can go on to create a
second queue. -/
theorem one_queue (h0 : firmware.init s₀) (hrun : firmware.Run s₀ tr s) :
    ((∀ tn ∈ tr, GetAtomic tn.src tn.label) →
      s.comms.queues.length ≤ 1 ∧ OneHandle 0 (history tr) ∧
        ∀ e ∈ history tr, ∀ h, e.handle = some h → h = 0) ∧
    ∀ tn ∈ tr, ¬ GetAtomic tn.src tn.label →
      ∃ tr' u, firmware.Run tn.dst tr' u ∧ 2 ≤ u.comms.queues.length := by
  have hhandle := handle_run h0 hrun
  obtain ⟨after, rfl⟩ := h0
  constructor
  · intro hat
    have hkeep : ∀ s l s' es hist, GetAtomic s l → (OneQueue s ∧ OneHandle 0 hist) →
        firmware.step s l = some (s', es) → OneQueue s' ∧ OneHandle 0 (hist ++ es) := by
      rintro s l s' es hist hat ⟨h, hone⟩ hs
      have he := getEffect_of_step hs
      refine ⟨h.step he hat, ?_⟩
      intro σ q hmem
      rcases List.mem_append.1 hmem with hmem | hmem
      · exact hone σ q hmem
      · exact h.got he σ q hmem
    obtain ⟨hq, hone⟩ := hrun.invariant (C := GetAtomic)
      (P := fun s hist => OneQueue s ∧ OneHandle 0 hist) ⟨boot_oneQueue _, nofun⟩ hkeep hat
    refine ⟨hq.length_le, hone, ?_⟩
    -- the handle of a send or a receive came out of some call of `get`
    intro e he h hh
    obtain ⟨σ, hσ⟩ := hhandle e he h hh
    exact Option.some.inj (hone σ _ hσ)
  · intro tn htn hna
    obtain ⟨pre, -, hpre, hs⟩ := hrun.mem htn
    have hg : GetStarted tn.src := hpre.invariant' (P := fun s _ => GetStarted s)
      (boot_getStarted _) fun _ _ _ _ _ hg hs => getStarted_step hs hg
    exact two_queues hs hg hna

/-- A network toggle and a toggle line, with `switch_task` first at the queue. -/
theorem one_queue_two : ∃ s₀ tr s, firmware.init s₀ ∧ firmware.Run s₀ tr s ∧
    (history tr).filterMap Event.sentOk = [500, 70] ∧ s.comms.queues.length ≤ 1 ∧
    OneHandle 0 (history tr) ∧ ∀ e ∈ history tr, ∀ h, e.handle = some h → h = 0 := by
  obtain ⟨tr, s, hrun, hq⟩ := System.exists_run (M := firmware)
    (Q := fun tr _ => decide ((∀ tn ∈ tr, GetAtomic tn.src tn.label) ∧
      (history tr).filterMap Event.sentOk = [500, 70]))
    (State.boot (blockData fun _ => 0))
    (startUp ++ networkToggle 500 ++ List.replicate 3 .switch ++ cliToggle "toggle 70")
    (by decide +kernel)
  obtain ⟨hat, hsent⟩ := of_decide_eq_true hq
  exact ⟨_, tr, s, ⟨_, rfl⟩, hrun, hsent, (one_queue ⟨_, rfl⟩ hrun).1 hat⟩

/-- **Two queues**: `switch_task` tests the flag right after a toggle line did, blocks on the
queue it creates, and the toggle goes into another one. -/
theorem two_queues_created : ¬ ∀ s₀ tr s, firmware.init s₀ → firmware.Run s₀ tr s →
    s.comms.queues.length ≤ 1 ∧
      ∀ σ q τ r, .got σ q ∈ history tr → .got τ r ∈ history tr → q = r := by
  intro hall
  obtain ⟨tr, s, hrun, hq⟩ := System.exists_run (M := firmware)
    (Q := fun _ s => decide (s.switch = .receive (some 0) ∧ s.comms.contents 0 = [] ∧
      s.comms.contents 1 = [70] ∧ s.comms.queues.length = 2))
    (State.boot (blockData fun _ => 0))
    (List.replicate 2 .init ++ List.replicate 7 (.wifi true) ++ List.replicate 5 .init ++
      List.replicate 4 .switch ++ List.replicate 4 (.cli (ascii "toggle 70")) ++
      List.replicate 4 .switch ++ List.replicate 4 (.cli []))
    (by decide +kernel)
  obtain ⟨-, -, -, hlen⟩ := of_decide_eq_true hq
  have h := (hall _ tr s ⟨_, rfl⟩ hrun).1
  omega

end Pcrb
