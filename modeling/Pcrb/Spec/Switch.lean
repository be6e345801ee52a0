import Pcrb.Lib.Fifo

/-!
# The switch (`switch.ipp`, `switch_task.h`)

The power button pin, and the queue through which the tasks ask `switch_task` to press
it. Both are shared, so the constructor of `pc_switch` and `switch_queue::get` are
given one step at a time: a step of another task may come between any two.
-/

namespace Pcrb

/-! ### Pins -/

/-- A pin of the microcontroller. -/
structure Gpio where
  out : Bool
  dirOut : Bool
  pullUp : Bool
  pullDown : Bool
deriving DecidableEq

namespace Gpio

/-- A pin as it comes out of reset. -/
def reset : Gpio := ⟨false, false, false, true⟩

/-- `gpio_init`: an input with output value 0. -/
def init (g : Gpio) : Gpio := { g with out := false, dirOut := false }

/-- `gpio_put`. -/
def put (g : Gpio) (value : Bool) : Gpio := { g with out := value }

/-- `gpio_disable_pulls`. -/
def disablePulls (g : Gpio) : Gpio := { g with pullUp := false, pullDown := false }

/-- `gpio_pull_down`. -/
def setPullDown (g : Gpio) : Gpio := { g with pullUp := false, pullDown := true }

/-- `gpio_set_dir`. -/
def setDir (g : Gpio) (out : Bool) : Gpio := { g with dirOut := out }

/-- The pin drives its line high. -/
def High (g : Gpio) : Prop := g.out = true ∧ g.dirOut = true

instance (g : Gpio) : Decidable g.High := inferInstanceAs (Decidable (_ ∧ _))

end Gpio

/-- The pin of `pc_switch<22>`. -/
def switchGpio : ℕ := 22

/-- The pin `monitor_task` watches. -/
def onStateGpio : ℕ := 21

/-- The calls in the constructor of `pc_switch`. -/
inductive CtorPc
  | gpioInit
  | gpioPut
  | gpioDisablePulls
  | gpioSetDir
deriving DecidableEq

/-- One call of the constructor of `pc_switch<22>`: what it does to the pin, and the next one. -/
def pcSwitch (initState : Bool) (g : Gpio) : CtorPc → Gpio × Option CtorPc
  | .gpioInit => (g.init, some .gpioPut)
  | .gpioPut => (g.put initState, some .gpioDisablePulls)
  | .gpioDisablePulls => (g.disablePulls, some .gpioSetDir)
  | .gpioSetDir => (g.setDir true, none)

/-! ### The queue -/

/-- `switch_queue`, with every queue that was created: a handle is the number of its
queue. The handle is null before the first one is stored. -/
structure SwitchQueue where
  initialized : Bool
  handle : Option ℕ
  queues : List (Fifo UInt32 1)

/-- Where a call of `get` stands. -/
inductive GetPc
  | test
  | create
  | set
  | read
deriving DecidableEq

/-- What a step of `get` comes to. -/
inductive GetResult
  | next (pc : GetPc)
  | returned (handle : Option ℕ)

namespace SwitchQueue

/-- `switch_comms` before any call. -/
def initial : SwitchQueue := ⟨false, none, []⟩

/-- One step of `get`. -/
def get (c : SwitchQueue) : GetPc → SwitchQueue × GetResult
  -- the flag is an ordinary `bool`, and nothing is locked
  | .test => (c, .next (if c.initialized then .read else .create))
  | .create =>
    ({ c with handle := some c.queues.length, queues := c.queues ++ [Fifo.empty] }, .next .set)
  | .set => ({ c with initialized := true }, .next .read)
  | .read => (c, .returned c.handle)

/-- `xQueueSendToBack` with timeout 0, and whether it went in. There is no result for a
handle that is not a queue. -/
def xQueueSendToBack (c : SwitchQueue) (h : ℕ) (data : UInt32) : Option (SwitchQueue × Bool) :=
  c.queues[h]?.map fun q => ({ c with queues := c.queues.set h (q.send data).1 }, (q.send data).2)

/-- `xQueueReceive` with `portMAX_DELAY`: it only returns with an item. -/
def xQueueReceive (c : SwitchQueue) (h : ℕ) : Option (UInt32 × SwitchQueue) :=
  (c.queues[h]?.bind Fifo.receive).map fun r => (r.1, { c with queues := c.queues.set h r.2 })

/-- What the queue of a handle holds. -/
def contents (c : SwitchQueue) (h : ℕ) : List UInt32 := (c.queues[h]?.map Fifo.items).getD []

/-! ### What the operations do to the contents -/

variable {c c' : SwitchQueue} {h : ℕ} {t : UInt32}

/-- `get` puts nothing into a queue and takes nothing out. -/
theorem contents_get (c : SwitchQueue) (pc : GetPc) (h : ℕ) :
    (c.get pc).1.contents h = c.contents h := by
  cases pc with
  | test => rfl
  | create =>
    simp only [get, contents]
    -- an old queue, the new one, which is empty, or none
    rcases Nat.lt_trichotomy h c.queues.length with hlt | rfl | hgt
    · rw [List.getElem?_append_left hlt]
    · simp
    · rw [List.getElem?_eq_none (by simp; omega), List.getElem?_eq_none (by omega)]
  | set => rfl
  | read => rfl

/-- **A send** appends to its own queue exactly if it reports success. -/
theorem contents_send {ok : Bool} (hs : c.xQueueSendToBack h t = some (c', ok)) (h' : ℕ) :
    c'.contents h' = c.contents h' ++ if h' = h ∧ ok = true then [t] else [] := by
  obtain ⟨q, hq, he⟩ := Option.map_eq_some_iff.1 hs
  simp only [Prod.mk.injEq] at he
  obtain ⟨rfl, rfl⟩ := he
  have hlt : h < c.queues.length := (List.getElem?_eq_some_iff.1 hq).1
  simp only [contents]
  -- the other queues are left alone
  by_cases hh : h' = h
  · subst hh
    rw [List.getElem?_set_self hlt, hq]
    simp [Fifo.send_items]
  · rw [List.getElem?_set_ne (Ne.symm hh)]
    simp [hh]

/-- A send fails only on a queue that already holds a value. -/
theorem contents_of_send_failed (hs : c.xQueueSendToBack h t = some (c', false)) :
    (c.contents h).length = 1 := by
  obtain ⟨q, hq, he⟩ := Option.map_eq_some_iff.1 hs
  have hfull := Fifo.send_eq_false_iff.1 (Prod.mk.inj he).2
  simp only [contents, hq]
  exact hfull

/-- **A receive** takes the first value of its own queue. -/
theorem contents_receive (hr : c.xQueueReceive h = some (t, c')) (h' : ℕ) :
    c.contents h' = (if h' = h then [t] else []) ++ c'.contents h' := by
  obtain ⟨⟨x, q'⟩, hb, he⟩ := Option.map_eq_some_iff.1 hr
  obtain ⟨q, hq, hx⟩ := Option.bind_eq_some_iff.1 hb
  simp only [Prod.mk.injEq] at he
  obtain ⟨rfl, rfl⟩ := he
  have hlt : h < c.queues.length := (List.getElem?_eq_some_iff.1 hq).1
  simp only [contents]
  by_cases hh : h' = h
  · subst hh
    rw [List.getElem?_set_self hlt, hq]
    simp [Fifo.receive_items hx]
  · rw [List.getElem?_set_ne (Ne.symm hh)]
    simp [hh]

/-- No operation but `get` creates a queue or moves the handle. -/
theorem send_frame {ok : Bool} (hs : c.xQueueSendToBack h t = some (c', ok)) :
    c'.initialized = c.initialized ∧ c'.handle = c.handle ∧
      c'.queues.length = c.queues.length := by
  obtain ⟨q, -, he⟩ := Option.map_eq_some_iff.1 hs
  obtain ⟨rfl, -⟩ := Prod.mk.inj he
  exact ⟨rfl, rfl, by simp⟩

theorem receive_frame (hr : c.xQueueReceive h = some (t, c')) :
    c'.initialized = c.initialized ∧ c'.handle = c.handle ∧
      c'.queues.length = c.queues.length := by
  obtain ⟨r, -, he⟩ := Option.map_eq_some_iff.1 hr
  obtain ⟨-, rfl⟩ := Prod.mk.inj he
  exact ⟨rfl, rfl, by simp⟩

end SwitchQueue

end Pcrb
