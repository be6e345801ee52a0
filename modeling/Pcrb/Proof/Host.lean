import Pcrb.Proof.Sessions

/-!
# A host that keeps to the blocks cannot interfere

`hosted` has the writes that stay inside a block; others may hit any of the firmware's memory.
With those alone the disk decides which boot selection is reported, and nothing else. `Like`
relates two states that differ in the disk and in the selections reported; `step_like` matches
every step of a task, and a write of the host is matched by no step at all.

`host_noninterference`: what the tasks do and show, apart from the selections reported, is what
they do and show without a host, and with any other memory behind the disk.
-/

namespace Pcrb

open Lts

/-! ### Without the selections -/

/-- The message, without the boot selection in it. -/
def Message.masked : Message → Message
  | .bootSelect _ => .bootSelect 0
  | .setBootSelect select _ => .setBootSelect select 0
  | m => m

def Reply.masked : Reply → Reply
  | .bootSelect _ => .bootSelect 0
  | r => r

def Event.masked : Event → Event
  | .formatted m => .formatted m.masked
  | .printed output => .printed (output.map Message.masked)
  | .reply r => .reply r.masked
  | e => e

/-- The same, up to the disk and the selections reported. -/
def Like (s t : State) : Prop :=
  ∃ ram output, t = { s with ram := ram, output := output } ∧
    output.map Message.masked = s.output.map Message.masked

variable {s s' t t' s₀ : State} {es : List Event} {l : Label} {tr : List HostTransition}

theorem Like.refl (s : State) : Like s s := ⟨s.ram, s.output, rfl, rfl⟩

/-- Steps that lead to like states and show the same. -/
def StepsLike (p q : State × List Event) : Prop :=
  Like p.1 q.1 ∧ p.2.map Event.masked = q.2.map Event.masked

/-! ### One step -/

section Steps

variable {ram : Bytes} {output : Option Message}

theorem initStep_like (s : State) (ho : output.map Message.masked = s.output.map Message.masked) :
    Option.Rel StepsLike (initStep s) (initStep { s with ram := ram, output := output }) := by
  unfold initStep
  cases s.init with
  | deleted => exact .none
  | _ => exact .some ⟨⟨ram, output, rfl, ho⟩, rfl⟩

theorem wifiStep_like (s : State) (ok : Bool)
    (ho : output.map Message.masked = s.output.map Message.masked) :
    Option.Rel StepsLike (wifiStep s ok) (wifiStep { s with ram := ram, output := output } ok) := by
  obtain ⟨_, _, _, _, _, _, _, _, _, _, wifi, _, _, _⟩ := s
  cases wifi <;> cases ok <;> exact .some ⟨⟨ram, output, rfl, ho⟩, rfl⟩

theorem callbackStep_like (s : State)
    (ho : output.map Message.masked = s.output.map Message.masked) :
    Option.Rel StepsLike (callbackStep s)
      (callbackStep { s with ram := ram, output := output }) := by
  unfold callbackStep
  cases s.wifi.callbackSet with
  | true => exact .some ⟨⟨ram, output, rfl, ho⟩, rfl⟩
  | false => exact .none

theorem switchStep_like (s : State)
    (ho : output.map Message.masked = s.output.map Message.masked) :
    Option.Rel StepsLike (switchStep s) (switchStep { s with ram := ram, output := output }) := by
  unfold switchStep
  cases hpc : s.switch with
  | ctor pc =>
    cases hctor : pcSwitch false (s.pins switchGpio) pc with
    | mk g next => cases next <;> simp only [hctor] <;> exact .some ⟨⟨ram, output, rfl, ho⟩, rfl⟩
  | get pc =>
    cases hget : s.comms.get pc with
    | mk comms result =>
      cases result <;> simp only [hget] <;> exact .some ⟨⟨ram, output, rfl, ho⟩, rfl⟩
  | receive handle =>
    cases handle with
    | none => exact .none
    | some q =>
      cases hr : s.comms.xQueueReceive q with
      | none => simp only [hr]; exact .none
      | some r => simp only [hr]; exact .some ⟨⟨ram, output, rfl, ho⟩, rfl⟩
  | ledOn | setHigh | delay | ledOff | setLow => exact .some ⟨⟨ram, output, rfl, ho⟩, rfl⟩

theorem monitorStep_like (s : State) (level : Bool)
    (ho : output.map Message.masked = s.output.map Message.masked) :
    Option.Rel StepsLike (monitorStep s level)
      (monitorStep { s with ram := ram, output := output } level) := by
  unfold monitorStep
  cases hpc : s.monitor with
  | ctor pc =>
    cases hctor : pcSwitch false (s.pins switchGpio) pc with
    | mk g next => cases next <;> simp only [hctor] <;> exact .some ⟨⟨ram, output, rfl, ho⟩, rfl⟩
  | gpioInit | gpioPullDown | gpioSetDir | loop => exact .some ⟨⟨ram, output, rfl, ho⟩, rfl⟩

/-- **`cli_task`** formats what it finds on the disk, and goes on as before. -/
theorem cliStep_like (s : State) (line : List UInt8)
    (ho : output.map Message.masked = s.output.map Message.masked) :
    Option.Rel StepsLike (cliStep s line)
      (cliStep { s with ram := ram, output := output } line) := by
  unfold cliStep
  cases hpc : s.cli with
  | prompt => exact .some ⟨⟨ram, output, rfl, ho⟩, rfl⟩
  | run todo =>
    cases todo with
    | nil =>
      refine .some ⟨⟨ram, output, rfl, ho⟩, ?_⟩
      simp [Event.masked, ho]
    | cons action todo =>
      cases action with
      | format m => exact .some ⟨⟨ram, some m, rfl, rfl⟩, rfl⟩
      | formatSense => exact .some ⟨⟨ram, some (.sense s.pcState), rfl, rfl⟩, rfl⟩
      -- the selections may differ
      | formatBootSelect =>
        exact .some ⟨⟨ram, some (.bootSelect (getBootSelect ram)), rfl, by simp [Message.masked]⟩,
          by simp [Event.masked, Message.masked]⟩
      | formatSetBootSelect select =>
        exact .some ⟨⟨ram, some (.setBootSelect select (getBootSelect ram)), rfl,
          by simp [Message.masked]⟩, by simp [Event.masked, Message.masked]⟩
      | setBootSelect select => exact .some ⟨⟨setBootSelect ram select, output, rfl, ho⟩, rfl⟩
      | toggle time => exact .some ⟨⟨ram, output, rfl, ho⟩, rfl⟩
      | use resource => exact .some ⟨⟨ram, output, rfl, ho⟩, rfl⟩
      | reset | throw => exact .none
  | get pc time todo =>
    cases hget : s.comms.get pc with
    | mk comms result =>
      cases result <;> simp only [hget] <;> exact .some ⟨⟨ram, output, rfl, ho⟩, rfl⟩
  | send handle time todo =>
    cases handle with
    | none => exact .none
    | some q =>
      cases hsend : s.comms.xQueueSendToBack q time with
      | none => simp only [hsend]; exact .none
      | some r => simp only [hsend]; exact .some ⟨⟨ram, output, rfl, ho⟩, rfl⟩

/-- So does **`network_task`**. -/
theorem networkStep_like (s : State) (input : NetworkInput)
    (ho : output.map Message.masked = s.output.map Message.masked) :
    Option.Rel StepsLike (networkStep s input)
      (networkStep { s with ram := ram, output := output } input) := by
  unfold networkStep
  cases hpc : s.network with
  | listen | accept =>
    cases input <;> first
      | exact .none
      | exact .some ⟨⟨ram, output, by rw [hpc], ho⟩, rfl⟩
      | exact .some ⟨⟨ram, output, rfl, ho⟩, rfl⟩
  | reading st =>
    cases st with
    | done result data => exact .some ⟨⟨ram, output, rfl, ho⟩, rfl⟩
    | length | payload =>
      cases input with
      | recv r =>
        simp only
        split_ifs
        · exact .some ⟨⟨ram, output, rfl, ho⟩, rfl⟩
        · exact .none
      | ok | failed | accepted => exact .none
  | handling todo =>
    cases todo with
    | nil => exact .some ⟨⟨ram, output, rfl, ho⟩, rfl⟩
    | cons action todo =>
      cases action with
      | send r => exact .some ⟨⟨ram, output, rfl, ho⟩, rfl⟩
      | sendBootSelect =>
        exact .some ⟨⟨ram, output, rfl, ho⟩, by simp [Action.replies, Event.masked, Reply.masked]⟩
      | sendPcState => exact .some ⟨⟨ram, output, rfl, ho⟩, rfl⟩
      | setBootSelect select => exact .some ⟨⟨setBootSelect ram select, output, rfl, ho⟩, rfl⟩
      | xQueueSendToBack time => exact .some ⟨⟨ram, output, rfl, ho⟩, rfl⟩
  | get pc time todo =>
    cases hget : s.comms.get pc with
    | mk comms result =>
      cases result <;> simp only [hget] <;> exact .some ⟨⟨ram, output, rfl, ho⟩, rfl⟩
  | send handle time todo =>
    cases handle with
    | none => exact .none
    | some q =>
      cases hsend : s.comms.xQueueSendToBack q time with
      | none => simp only [hsend]; exact .none
      | some r => simp only [hsend]; exact .some ⟨⟨ram, output, rfl, ho⟩, rfl⟩

end Steps

/-- **A step of a task** does not depend on the disk, but for the selections it reports. -/
theorem step_like (h : Like s t) (l : Label) :
    Option.Rel StepsLike (firmware.step s l) (firmware.step t l) := by
  obtain ⟨ram, output, rfl, ho⟩ := h
  change Option.Rel StepsLike (step s l) (step _ l)
  cases l with
  | init => exact initStep_like s ho
  | callback => exact callbackStep_like s ho
  | cli line =>
    simp only [step]
    split_ifs
    · exact cliStep_like s line ho
    · exact .none
  | wifi ok =>
    simp only [step]
    split_ifs
    · exact wifiStep_like s ok ho
    · exact .none
  | switch =>
    simp only [step]
    split_ifs
    · exact switchStep_like s ho
    · exact .none
  | network input =>
    simp only [step]
    split_ifs
    · exact networkStep_like s input ho
    · exact .none
  | monitor level =>
    simp only [step]
    split_ifs
    · exact monitorStep_like s level ho
    · exact .none

/-- A step that is there is matched by one that shows the same. -/
theorem exists_step_like (h : Like s t) (hs : firmware.step s l = some (s', es)) :
    ∃ t' fs, firmware.step t l = some (t', fs) ∧ Like s' t' ∧
      es.map Event.masked = fs.map Event.masked := by
  have hrel := step_like h l
  rw [hs] at hrel
  cases ht : firmware.step t l with
  | none =>
    rw [ht] at hrel
    cases hrel
  | some q =>
    rw [ht] at hrel
    cases hrel with
    | some hq => exact ⟨q.1, q.2, rfl, hq⟩

/-- A write of the host does not show. -/
theorem like_write (h : Like s t) (ram : Bytes) : Like { s with ram := ram } t := by
  obtain ⟨ram', output, rfl, ho⟩ := h
  exact ⟨ram', output, rfl, ho⟩

/-- **A host that keeps to the blocks cannot interfere.** Whatever it writes while the tasks run, in
transfers that each stay inside a block: the same steps of the tasks can be taken without a host,
and show the same but for the boot selections reported, and lead to the same state but for the
disk. What lies in the memory behind the disk may differ, too. -/
theorem host_noninterference (h0 : hosted.init s₀) (hrun : hosted.Run s₀ tr s) (after : Bytes) :
    ∃ tr' s', firmware.Run (State.boot (blockData after)) tr' s' ∧
      tr'.map Transition.label = tr.filterMap (fun tn => tn.label.task?) ∧
      (history tr').map Event.masked = (history tr).map Event.masked ∧ Like s s' := by
  obtain ⟨before, rfl⟩ := h0
  induction hrun with
  | nil => exact ⟨[], _, .nil, rfl, rfl, ⟨blockData after, none, rfl, rfl⟩⟩
  | @snoc tr s l s' es _ hs ih =>
    obtain ⟨tr', t, hrun', hlabels, hevents, hlike⟩ := ih
    rcases hosted_step_cases hs with ⟨k, rfl, hk⟩ | ⟨lba, offset, buffer, bufsize, rfl, -, rfl, rfl⟩
    · obtain ⟨t', fs, ht, hlike', hes⟩ := exists_step_like hlike hk
      refine ⟨_, t', hrun'.snoc ht, ?_, ?_, hlike'⟩
      · rw [List.map_append, List.filterMap_append, hlabels]
        rfl
      · rw [history_append, history_append, history_singleton, history_singleton, List.map_append,
          List.map_append, hevents, hes]
    · refine ⟨tr', t, hrun', ?_, ?_, like_write hlike _⟩
      · rw [List.filterMap_append, hlabels]
        exact (List.append_nil _).symm
      · rw [history_append, history_singleton, List.append_nil]
        exact hevents

/-- The host selects 9 in the text of the file, and `get_boot` is typed. -/
theorem host_noninterference_nine : ∃ s₀ tr s tr' s', hosted.init s₀ ∧ hosted.Run s₀ tr s ∧
    (history tr).filterMap Event.selection = [9] ∧
    firmware.Run (State.boot (blockData fun _ => 1)) tr' s' ∧
    tr'.map Transition.label = tr.filterMap (fun tn => tn.label.task?) ∧
    (history tr').map Event.masked = (history tr).map Event.masked ∧ Like s s' := by
  obtain ⟨tr, s, hrun, hq⟩ := System.exists_run (M := hosted)
    (Q := fun tr _ => decide ((history tr).filterMap Event.selection = [9]))
    (State.boot (blockData fun _ => 0))
    (startUp.map .task ++ .write10 3 0 (Bytes.write (fun _ => 0) 0 (bootLine 9)) 512 ::
      List.replicate 3 (.task (.cli (ascii "get_boot")))) (by decide +kernel)
  obtain ⟨tr', s', hresult⟩ := host_noninterference ⟨_, rfl⟩ hrun fun _ => 1
  exact ⟨_, tr, s, tr', s', ⟨_, rfl⟩, hrun, of_decide_eq_true hq, hresult⟩

end Pcrb
