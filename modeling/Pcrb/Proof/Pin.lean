import Pcrb.Proof.Steps

/-!
# The power button pin

Two tasks construct a `pc_switch<22>`: `switch_task`, which presses the button with it,
and `monitor_task`, which never uses it. `PinInv` says what the pin does outside of the
second constructor's way.

`pulse_integrity_iff`: the pulses of a run are intact exactly if `monitor_task` does not
initialise or clear the pin during a pulse, and no pulse begins while it has turned
the pin into an input.
-/

namespace Pcrb

open Lts

namespace SwitchPc

/-- `switch_task` has built its `pc_switch<22>`. -/
def built : SwitchPc → Bool
  | .ctor _ => false
  | _ => true

/-- `switch_task` is between `switch_.set(true)` and the matching `switch_.set(false)`. -/
def inPulse : SwitchPc → Bool
  | .delay _ => true
  | .ledOff _ => true
  | .setLow _ => true
  | _ => false

end SwitchPc

/-- What a transition has to leave of the pin: high exactly in a pulse, low while
`switch_task` waits, and in a pulse untouched by the other tasks. -/
structure PulseOk (tn : Transition State Label Event) : Prop where
  high : tn.dst.switch.built = true →
    ((tn.dst.pins switchGpio).High ↔ tn.dst.switch.inPulse = true)
  low : (∃ h, tn.dst.switch = .receive h) → (tn.dst.pins switchGpio).out = false
  undisturbed : tn.label ≠ .switch → tn.src.switch.inPulse = true →
    (tn.dst.pins switchGpio).out = (tn.src.pins switchGpio).out ∧
      (tn.dst.pins switchGpio).dirOut = (tn.src.pins switchGpio).dirOut

/-- `monitor_task` does not initialise or clear the pin during a pulse, and a pulse does not
begin while the pin is an input. -/
def PinSafe (s : State) : Label → Prop
  | .monitor _ => s.monitor = .ctor .gpioInit ∨ s.monitor = .ctor .gpioPut →
      s.switch.inPulse = false
  | .switch => (∃ t, s.switch = .setHigh t) → (s.pins switchGpio).dirOut = true
  | _ => True

/-- **The invariant**: the pin drives its line in a pulse, and its output is 0 outside. -/
structure PinInv (s : State) : Prop where
  inside : s.switch.inPulse = true → (s.pins switchGpio).High
  outside : s.switch.inPulse = false → (s.pins switchGpio).out = false

variable {s₀ s s' : State} {es : List Event} {l : Label}
  {tr : List (Transition State Label Event)}

@[simp] theorem setPin_self (s : State) (pin : ℕ) (g : Gpio) : (s.setPin pin g).pins pin = g :=
  Function.update_self ..

theorem setPin_onState (s : State) (g : Gpio) :
    (s.setPin onStateGpio g).pins switchGpio = s.pins switchGpio := by
  have hne : switchGpio ≠ onStateGpio := by decide
  exact Function.update_of_ne hne g s.pins

/-! ### The constructor -/

variable {g g' : Gpio} {pc : CtorPc} {next : Option CtorPc}

/-- No call of the constructor raises the output. -/
theorem pcSwitch_out (h : pcSwitch false g pc = (g', next)) (ho : g.out = false) :
    g'.out = false := by
  have hg : g' = (pcSwitch false g pc).1 := by rw [h]
  rw [hg]
  cases pc with
  | gpioInit | gpioPut => rfl
  | gpioDisablePulls | gpioSetDir => exact ho

/-- Its first two calls clear it. -/
theorem pcSwitch_head (h : pcSwitch false g pc = (g', next))
    (hpc : pc = .gpioInit ∨ pc = .gpioPut) : g'.out = false := by
  have hg : g' = (pcSwitch false g pc).1 := by rw [h]
  rw [hg]
  rcases hpc with rfl | rfl <;> rfl

/-- Its last two calls leave a pin alone that is an output. -/
theorem pcSwitch_tail (h : pcSwitch false g pc = (g', next)) (hi : pc ≠ .gpioInit)
    (hp : pc ≠ .gpioPut) (hd : g.dirOut = true) : g'.out = g.out ∧ g'.dirOut = g.dirOut := by
  have hg : g' = (pcSwitch false g pc).1 := by rw [h]
  rw [hg]
  cases pc with
  | gpioInit => exact absurd rfl hi
  | gpioPut => exact absurd rfl hp
  | gpioDisablePulls => exact ⟨rfl, rfl⟩
  | gpioSetDir => exact ⟨rfl, hd.symm⟩

/-! ### One step -/

/-- What `monitor_task`'s constructor does to the pin, with `switch_task` standing still. -/
structure MonitorPin (s s' : State) (pc : CtorPc) : Prop where
  monitor : s.monitor = .ctor pc
  pin : ∃ next, pcSwitch false (s.pins switchGpio) pc = (s'.pins switchGpio, next)
  switch : s'.switch = s.switch

/-- **Only two tasks touch the pin**: every other step leaves it and `switch_task` alone. -/
theorem step_pin_cases (hs : firmware.step s l = some (s', es)) :
    (l ≠ .switch ∧ (∀ level, l = .monitor level → ∀ pc, s.monitor ≠ .ctor pc) ∧
      s'.pins switchGpio = s.pins switchGpio ∧ s'.switch = s.switch) ∨
      (l = .switch ∧ SwitchStep s s' es) ∨
      (∃ level pc, l = .monitor level ∧ MonitorPin s s' pc) := by
  cases taskStep_of_eq hs with
  | init hi =>
    refine Or.inl ⟨nofun, nofun, ?_, (initStep_background hi).switch⟩
    unfold initStep at hi
    split at hi <;> cases hi <;> rfl
  -- the other tasks have no pin at all
  | cli _ hc => exact Or.inl ⟨nofun, nofun, by cases hc <;> rfl, by cases hc <;> rfl⟩
  | wifi hw =>
    refine Or.inl ⟨nofun, nofun, ?_, (wifiStep_background hw).switch⟩
    unfold wifiStep at hw
    split at hw <;> cases hw <;> first | rfl | (split <;> rfl)
  | callback _ => exact Or.inl ⟨nofun, nofun, rfl, rfl⟩
  | switch _ hw => exact Or.inr (Or.inl ⟨rfl, hw⟩)
  | network _ hn => exact Or.inl ⟨nofun, nofun, by cases hn <;> rfl, by cases hn <;> rfl⟩
  | monitor _ hm =>
    cases hm with
    | @own g _ hpc => exact Or.inl ⟨nofun, fun _ _ => hpc, setPin_onState s g, rfl⟩
    | @ctor pc g next _ hpc hctor =>
      refine Or.inr (Or.inr ⟨_, pc, rfl, hpc, ⟨next, ?_⟩, rfl⟩)
      rw [hctor]
      exact congrArg (·, next) (setPin_self s switchGpio g).symm
    | loop hpc => exact Or.inl ⟨nofun, fun _ _ => by rw [hpc]; exact nofun, rfl, rfl⟩

theorem switchStep_pinInv (hw : SwitchStep s s' es) (h : PinInv s)
    (hsafe : (∃ t, s.switch = .setHigh t) → (s.pins switchGpio).dirOut = true) : PinInv s' := by
  cases hw with
  | ctorNext hpc hctor | ctorDone hpc hctor =>
    have hout : (s.pins switchGpio).out = false := h.outside (by rw [hpc]; rfl)
    refine ⟨nofun, fun _ => ?_⟩
    have := pcSwitch_out hctor hout
    simpa using this
  | getNext hpc _ | getReturned hpc _ | receive hpc _ | ledOn hpc =>
    exact ⟨nofun, fun _ => h.outside (by rw [hpc]; rfl)⟩
  | setHigh hpc =>
    refine ⟨fun _ => ?_, nofun⟩
    have hd := hsafe ⟨_, hpc⟩
    simpa [Gpio.High, Gpio.put] using hd
  | delay hpc | ledOff hpc => exact ⟨fun _ => h.inside (by rw [hpc]; rfl), nofun⟩
  | setLow hpc => exact ⟨nofun, fun _ => by simp [Gpio.put]⟩

/-- A safe step of `monitor_task` in a pulse leaves level and direction. -/
theorem MonitorPin.undisturbed {pc : CtorPc} (hm : MonitorPin s s' pc) {level : Bool}
    (hsafe : PinSafe s (.monitor level)) (h : PinInv s) (hp : s.switch.inPulse = true) :
    (s'.pins switchGpio).out = (s.pins switchGpio).out ∧
      (s'.pins switchGpio).dirOut = (s.pins switchGpio).dirOut := by
  obtain ⟨next, hctor⟩ := hm.pin
  have hno : ∀ pc', s.monitor = .ctor pc' → pc' ≠ .gpioInit ∧ pc' ≠ .gpioPut := by
    intro pc' hpc
    constructor
    · rintro rfl
      rw [hsafe (Or.inl hpc)] at hp
      cases hp
    · rintro rfl
      rw [hsafe (Or.inr hpc)] at hp
      cases hp
  obtain ⟨hi, hq⟩ := hno pc hm.monitor
  exact pcSwitch_tail hctor hi hq (h.inside hp).2

/-- **One safe step** keeps the invariant. -/
theorem pinInv_step (hs : firmware.step s l = some (s', es)) (h : PinInv s) (hsafe : PinSafe s l) :
    PinInv s' := by
  rcases step_pin_cases hs with ⟨-, -, hpin, hsw⟩ | ⟨rfl, hw⟩ | ⟨level, pc, rfl, hm⟩
  · exact ⟨by rw [hpin, hsw]; exact h.inside, by rw [hpin, hsw]; exact h.outside⟩
  · exact switchStep_pinInv hw h hsafe
  · refine ⟨fun hp => ?_, fun hp => ?_⟩
    · rw [hm.switch] at hp
      obtain ⟨ho, hd⟩ := hm.undisturbed hsafe h hp
      obtain ⟨ho', hd'⟩ := h.inside hp
      exact ⟨ho.trans ho', hd.trans hd'⟩
    · rw [hm.switch] at hp
      obtain ⟨next, hctor⟩ := hm.pin
      exact pcSwitch_out hctor (h.outside hp)

theorem boot_pinInv (ram : Bytes) : PinInv (State.boot ram) := ⟨nofun, fun _ => rfl⟩

/-- A safe step between states that satisfy the invariant leaves the pulses intact. -/
theorem pulseOk_of_pinInv (hs : firmware.step s l = some (s', es)) (h : PinInv s) (h' : PinInv s')
    (hsafe : PinSafe s l) : PulseOk ⟨s, l, s', es⟩ where
  high _ := by
    refine ⟨fun hh => ?_, h'.inside⟩
    by_contra hp
    have hout := h'.outside (by simpa using hp)
    rw [hh.1] at hout
    cases hout
  low := by
    rintro ⟨q, hq⟩
    exact h'.outside (by rw [hq]; rfl)
  undisturbed hl hp := by
    rcases step_pin_cases hs with ⟨-, -, hpin, -⟩ | ⟨rfl, -⟩ | ⟨level, pc, rfl, hm⟩
    · exact ⟨congrArg Gpio.out hpin, congrArg Gpio.dirOut hpin⟩
    · exact absurd rfl hl
    · exact hm.undisturbed hsafe h hp

/-- **An unsafe step breaks a pulse.** -/
theorem pinSafe_of_pulseOk (hs : firmware.step s l = some (s', es))
    (hok : PulseOk ⟨s, l, s', es⟩) : PinSafe s l := by
  have built_of_inPulse : ∀ {pc : SwitchPc}, pc.inPulse = true → pc.built = true := by
    intro pc hp
    cases pc <;> first | rfl | cases hp
  rcases step_pin_cases hs with ⟨hl, hmon, -⟩ | ⟨rfl, hw⟩ | ⟨level, pc, rfl, hm⟩
  · cases l with
    | switch => exact absurd rfl hl
    | monitor level =>
      rintro (hpc | hpc)
      · exact absurd hpc (hmon level rfl _)
      · exact absurd hpc (hmon level rfl _)
    | _ => trivial
  · rintro ⟨t, ht⟩
    cases hw with
    | setHigh hpc =>
      -- the pulse has begun, so the pin is an output
      have hh := (hok.high rfl).2 rfl
      simpa [Gpio.High, Gpio.put] using hh
    | ctorNext hpc _ | ctorDone hpc _ | getNext hpc _ | getReturned hpc _ | receive hpc _
    | ledOn hpc | delay hpc | ledOff hpc | setLow hpc =>
      rw [hpc] at ht
      cases ht
  · intro hpc
    have hhead : pc = .gpioInit ∨ pc = .gpioPut := by
      rw [hm.monitor] at hpc
      simpa using hpc
    obtain ⟨next, hctor⟩ := hm.pin
    -- in a pulse the pin has to stay high, but the call has cleared it
    by_contra hp
    have hp' : s'.switch.inPulse = true := by rw [hm.switch]; simpa using hp
    have hhigh : (s'.pins switchGpio).High := (hok.high (built_of_inPulse hp')).2 hp'
    rw [Gpio.High, pcSwitch_head hctor hhead] at hhigh
    exact absurd hhigh.1 Bool.false_ne_true

/-- **Pulse integrity.** In a run, the pin is high exactly during the pulses, low while
`switch_task` waits, and left alone by the other tasks during a pulse, if and only if
`monitor_task` does not initialise or clear it during a pulse and no pulse begins while it
is an input. -/
theorem pulse_integrity_iff (h0 : firmware.init s₀) (hrun : firmware.Run s₀ tr s) :
    (∀ tn ∈ tr, PulseOk tn) ↔ ∀ tn ∈ tr, PinSafe tn.src tn.label := by
  obtain ⟨after, rfl⟩ := h0
  constructor
  · intro hok tn htn
    obtain ⟨pre, -, -, hs⟩ := hrun.mem htn
    exact pinSafe_of_pulseOk hs (hok tn htn)
  · intro hsafe tn htn
    obtain ⟨h, hs, h'⟩ := hrun.invariant_mem (boot_pinInv _)
      (fun _ _ _ _ hsafe h hs => pinInv_step hs h hsafe) hsafe tn htn
    exact pulseOk_of_pinInv hs h h' (hsafe tn htn)

/-- All tasks at work, then two pulses, with the constructor of `monitor_task` in between. -/
theorem pulse_integrity_iff_two : ∃ s₀ tr s, firmware.init s₀ ∧ firmware.Run s₀ tr s ∧
    s.monitor = .loop ∧ (s.pins switchGpio).High ∧
    ((∀ tn ∈ tr, PulseOk tn) ↔ ∀ tn ∈ tr, PinSafe tn.src tn.label) := by
  obtain ⟨tr, s, hrun, hq⟩ := System.exists_run (M := firmware)
    (Q := fun _ s => decide (s.monitor = .loop ∧ (s.pins switchGpio).High))
    (State.boot (blockData fun _ => 0))
    (startUp ++ networkToggle 500 ++ List.replicate 8 .switch ++
      List.replicate 7 (.monitor false) ++ networkToggle 500 ++ List.replicate 3 .switch)
    (by decide +kernel)
  obtain ⟨hloop, hhigh⟩ := of_decide_eq_true hq
  exact ⟨_, tr, s, ⟨_, rfl⟩, hrun, hloop, hhigh, pulse_integrity_iff ⟨_, rfl⟩ hrun⟩

/-- **A pulse can be cut short**: a toggle typed before wifi is up makes `switch_task` press the
button as soon as it runs, and `monitor_task` then initialises the pin. -/
theorem pulse_cut_short : ¬ ∀ s₀ tr s, firmware.init s₀ → firmware.Run s₀ tr s →
    ∀ tn ∈ tr, PulseOk tn := by
  intro hall
  obtain ⟨tr, s, hrun, hq⟩ := System.exists_run (M := firmware)
    (Q := fun tr _ => tr.any fun tn => tn.dst.switch.inPulse && !(tn.dst.pins switchGpio).out)
    (State.boot (blockData fun _ => 0))
    ([.init] ++ List.replicate 9 (.cli (ascii "toggle 500")) ++ [.init] ++
      List.replicate 7 (.wifi true) ++ List.replicate 5 .init ++ List.replicate 9 .switch ++
      List.replicate 4 (.monitor false))
    (by decide +kernel)
  obtain ⟨tn, htn, hbad⟩ := List.any_eq_true.1 hq
  obtain ⟨hp, hout⟩ := Bool.and_eq_true_iff.1 hbad
  have hok := hall _ tr s ⟨_, rfl⟩ hrun tn htn
  have hbuilt : tn.dst.switch.built = true := by
    cases hsw : tn.dst.switch with
    | ctor pc => rw [hsw] at hp; cases hp
    | _ => rfl
  have hhigh := ((hok.high hbuilt).2 hp).1
  rw [hhigh] at hout
  cases hout

end Pcrb
