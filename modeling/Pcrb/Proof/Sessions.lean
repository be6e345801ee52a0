import Pcrb.Proof.Served
import Pcrb.Spec.Host
import Pcrb.Spec.Protocol

/-!
# Every client is answered, once

`handlePayload_answers`: the checks of `network_task` come down to the table of the commands.
`Progress` ties where the task stands to the connection: what it has still to do completes what
has been done for this client to the answer.

`connection_answered`: at every time the client has been given a part of the answer, from its
start, and the whole of it when the task is back at `accept`.
-/

namespace Pcrb

open Lts

/-! ### The table -/

/-- What an action of a pass answers. -/
def Action.answer : Action → Option Answer
  | .send reply => some (.reply reply)
  | .sendBootSelect => some .bootSelect
  | .sendPcState => some .pcState
  | .setBootSelect _ => none
  | .xQueueSendToBack time => some (.offer time)

section Table

variable {payload : List UInt8} (stale : Bytes)

theorem ntoh32_payload {i : ℕ} (h : i + 4 ≤ payload.length) :
    ntoh32 (load32 (stale.write 0 payload) i) = word payload i := by
  have hr := Bytes.read_write_within stale 0 h
  rw [Nat.zero_add] at hr
  rw [← UInt32.toNat_inj, ntoh32_load32, hr, word, UInt32.toNat_ofNat', Nat.mod_eq_of_lt]
  refine lt_of_lt_of_le (Bytes.ofBE_lt _) ?_
  refine (Nat.pow_le_pow_right (by omega) (List.length_take_le _ _)).trans ?_
  norm_num

/-- **The checks are the table.** -/
theorem handlePayload_answers (payload : List UInt8) :
    (handlePayload payload.length (stale.write 0 payload)).filterMap Action.answer =
      answers payload := by
  unfold handlePayload answers
  by_cases h8 : payload.length < 8
  · rw [if_pos h8, if_pos h8]
    rfl
  rw [if_neg h8, if_neg h8, ntoh32_payload stale (by omega), ntoh32_payload stale (by omega)]
  by_cases hmagic : word payload 0 = requestMagic
  swap
  · simp [hmagic, Action.answer]
  simp only [hmagic, ne_eq, not_true_eq_false, if_false, commandTable]
  -- the argument is looked at in a payload of twelve bytes only
  by_cases h12 : payload.length = 12
  · have hargument : ntoh32 (load32 (stale.write 0 payload) 8) = word payload 8 :=
      ntoh32_payload stale (by omega)
    rw [hargument, h12]
    split_ifs <;> simp_all [Action.answer, List.filterMap_cons]
  · split_ifs <;> simp_all [Action.answer]

end Table

/-- What the receive loops have read is the payload of the frame. -/
theorem framePayload_of_done {stale data : Bytes} {rx : List UInt8} {n : ℕ}
    (h : ReadInv dataSize stale rx (.done (.ok n) data)) :
    ∃ payload, framePayload rx = some payload ∧ n = payload.length ∧
      data = stale.write 0 payload := by
  obtain ⟨pre, body, rfl, hpre, hn, hbody, rfl⟩ := h
  obtain ⟨high, low, rfl⟩ := List.length_eq_two.1 hpre
  have hsize : min (Bytes.ofBE [high, low]) dataSize = body.length := by
    rw [hbody, hn, payloadSize, dataSize]
  exact ⟨body, by simp [framePayload, hsize], hbody.symm, rfl⟩

/-! ### The invariant -/

/-- The error that ended the receive loops. -/
def ReadState.errno : ReadState → Option ℤ
  | .done (.error errno) _ => some errno
  | _ => none

/-- The actions of the pass for this client. -/
def Scripted (c : Connection) (script : List Action) : Prop :=
  ∃ stale result data, ReadInv dataSize stale c.bytes (.done result data) ∧
    c.error = (ReadState.done result data).errno ∧ script = handleRequest data result

/-- What has been told to this client, with what is still to do, is the answer. -/
def Told (c : Connection) (todo : List Action) : Prop :=
  ∃ done, Scripted c (done ++ todo) ∧
    List.Forall₂ Answer.Matches (done.filterMap Action.answer) c.outputs

/-- **The invariant** of a connection. -/
def NetworkPc.Progress (c : Connection) : NetworkPc → Prop
  | .listen | .accept => c.Answered
  | .reading st => (∃ stale, ReadInv dataSize stale c.bytes st) ∧ c.error = st.errno ∧ c.outputs = []
  | .handling todo => Told c todo
  | .get _ time todo => Told c (.xQueueSendToBack time :: todo)
  | .send _ time todo => Told c (.xQueueSendToBack time :: todo)

variable {s₀ s s' : State} {es hist : List Event} {l : Label} {c : Connection}
  {script todo : List Action} {a : Action} {outputs : List Output}

/-- The actions for a client are the answer. -/
theorem Scripted.answers (h : Scripted c script) :
    script.filterMap Action.answer = c.answers := by
  obtain ⟨stale, result, data, hread, herr, rfl⟩ := h
  cases result with
  | ok n =>
    obtain ⟨payload, hframe, rfl, rfl⟩ := framePayload_of_done hread
    rw [handleRequest, handlePayload_answers, Connection.answers, herr]
    simp only [ReadState.errno, hframe]
  | error e =>
    rw [Connection.answers, herr]
    rfl

theorem Told.done (h : Told c []) : c.Answered := by
  obtain ⟨done, hscript, hmatch⟩ := h
  rw [List.append_nil] at hscript
  rwa [Connection.Answered, ← hscript.answers]

/-- An action more is told. -/
theorem Told.act (h : Told c (a :: todo))
    (ha : List.Forall₂ Answer.Matches ([a].filterMap Action.answer) outputs) :
    Told { c with outputs := c.outputs ++ outputs } todo := by
  obtain ⟨done, hscript, hmatch⟩ := h
  refine ⟨done ++ [a], ?_, ?_⟩
  · rwa [List.append_assoc]
  · rw [List.filterMap_append]
    exact List.rel_append hmatch ha

theorem Told.answering (h : Told c todo) : c.Answering := by
  obtain ⟨done, hscript, hmatch⟩ := h
  refine ⟨_, ?_, hmatch⟩
  rw [← hscript.answers, List.filterMap_append]
  exact List.prefix_append _ _

theorem connection_append (hist es : List Event) :
    connection (hist ++ es) = es.foldl Connection.onEvent (connection hist) :=
  List.foldl_append

/-- What an action shows is what it answers. -/
theorem Told.events (h : Told c (a :: todo)) (hne : ∀ t, a ≠ .xQueueSendToBack t) :
    Told ((actionEvents s a).foldl Connection.onEvent c) todo := by
  cases a with
  | send r => exact h.act (.cons .reply .nil)
  | sendBootSelect => exact h.act (.cons .bootSelect .nil)
  | sendPcState => exact h.act (.cons .pcState .nil)
  | setBootSelect v =>
    have hquiet : Told { c with outputs := c.outputs ++ [] } todo := h.act .nil
    rwa [List.append_nil] at hquiet
  | xQueueSendToBack t => exact absurd rfl (hne t)

/-- One `recv`, in the terms of the connection. -/
theorem progress_recv {st : ReadState} {r : RecvResult} (h : (NetworkPc.reading st).Progress c)
    (hr : st.Running) (hv : r.Valid st.requested) :
    (NetworkPc.reading (st.recv dataSize r)).Progress (c.onEvent (.recv r)) := by
  obtain ⟨⟨stale, hread⟩, herr, hout⟩ := h
  have hnone : st.errno = none := by
    cases st with
    | done result data => exact absurd rfl (hr result data)
    | length | payload => rfl
  rw [hnone] at herr
  have hread' := recv_read hread hv
  cases r with
  | data bytes =>
    refine ⟨⟨stale, hread'⟩, ?_, hout⟩
    cases hst : st.recv dataSize (.data bytes) with
    | done result data =>
      cases result with
      | error e => exact absurd hst (recv_data_ne_error (request_ne_none hr) bytes e data)
      | ok n => exact herr
    | length | payload => exact herr
  | closed =>
    rw [recv_closed hread]
    exact ⟨⟨stale, hread⟩, by rw [hnone]; exact herr, hout⟩
  | error e =>
    refine ⟨⟨stale, hread'⟩, ?_, hout⟩
    cases st with
    | done result data => exact absurd rfl (hr result data)
    | length | payload => rfl

/-- **A step of the task** moves the connection on. -/
theorem networkStep_progress {input : NetworkInput} (hs : networkStep s input = some (s', es))
    (h : s.network.Progress (connection hist)) : s'.network.Progress (connection (hist ++ es)) := by
  rw [connection_append]
  cases networkStep_of_eq hs with
  | listen hpc | listenFailed hpc | acceptFailed hpc =>
    rw [hpc] at h
    first
    | exact h
    | rw [hpc]; exact h
  | @accepted data hpc => exact ⟨⟨data, start_inv⟩, rfl, rfl⟩
  | @readDone result data hpc =>
    rw [hpc] at h
    obtain ⟨⟨stale, hread⟩, herr, hout⟩ := h
    refine ⟨[], ⟨stale, result, data, hread, herr, rfl⟩, ?_⟩
    rw [List.foldl_nil, hout]
    exact .nil
  | recv hpc hv =>
    rw [hpc] at h
    rcases networkStep_of_reading hpc hs with ⟨result, data, -, heq⟩ | ⟨hst, -⟩
    · cases congrArg State.network heq
    · exact progress_recv h hst hv
  | handled hpc =>
    rw [hpc] at h
    exact h.done
  | act hpc hne =>
    rw [hpc] at h
    exact h.events hne
  | toggle hpc | getNext hpc _ | getReturned hpc _ =>
    rw [hpc] at h
    exact h
  | send hpc _ =>
    rw [hpc] at h
    exact h.act (.cons .offer .nil)

/-- The other tasks do not show in the connection. -/
theorem onEvent_cliStep {line : List UInt8} (hc : CliStep s line s' es) (c : Connection) :
    es.foldl Connection.onEvent c = c := by
  cases hc <;> rfl

theorem onEvent_switchStep (hw : SwitchStep s s' es) (c : Connection) :
    es.foldl Connection.onEvent c = c := by
  cases hw <;> rfl

theorem progress_step (hs : firmware.step s l = some (s', es))
    (h : s.network.Progress (connection hist)) : s'.network.Progress (connection (hist ++ es)) := by
  rcases step_cases hs with hb | ⟨line, -, hc⟩ | ⟨-, hw⟩ | ⟨input, rfl, hn⟩
  · rw [connection_append, hb.network, foldl_eq_of_forall]
    · exact h
    · intro e he b
      obtain ⟨r, rfl⟩ := hb.events e he
      rfl
  · rw [connection_append, onEvent_cliStep hc]
    cases hc <;> exact h
  · rw [connection_append, onEvent_switchStep hw]
    cases hw <;> exact h
  · have hcr : s.init.created .network = true :=
      created_of_enabled ⟨.network input, ⟨rfl, nofun⟩, Option.isSome_iff_exists.2 ⟨_, hs⟩⟩
    rw [show firmware.step s (.network input) = networkStep s input from if_pos hcr] at hs
    exact networkStep_progress hs h

variable {tr : List (Transition State HostLabel Event)}

/-- A step of `hosted` is one of the firmware, or the disk changes and nothing shows. -/
theorem hosted_step_cases {l : HostLabel} (hs : hosted.step s l = some (s', es)) :
    (∃ k, l = .task k ∧ firmware.step s k = some (s', es)) ∨
      ∃ lba offset buffer bufsize, l = .write10 lba offset buffer bufsize ∧
        Fits lba offset bufsize ∧ es = [] ∧
        s' = { s with ram := (tudMscWrite10Cb s.ram lba offset buffer bufsize).2 } := by
  cases l with
  | task k => exact Or.inl ⟨k, rfl, hs⟩
  | write10 lba offset buffer bufsize =>
    obtain ⟨hfits, heq⟩ := Option.ite_none_right_eq_some.1 hs
    obtain ⟨rfl, rfl⟩ := Prod.mk.inj (Option.some.inj heq)
    exact Or.inr ⟨lba, offset, buffer, bufsize, rfl, hfits, rfl, rfl⟩

theorem progress_run (h0 : hosted.init s₀) (hrun : hosted.Run s₀ tr s) :
    s.network.Progress (connection (history tr)) := by
  obtain ⟨after, rfl⟩ := h0
  refine hrun.invariant' (P := fun s hist => s.network.Progress (connection hist)) .nil ?_
  rintro s l s' es hist h hs
  rcases hosted_step_cases hs with ⟨k, rfl, hk⟩ | ⟨_, _, _, _, rfl, -, rfl, rfl⟩
  · exact progress_step hk h
  · rwa [List.append_nil]

/-- **Every client is answered, once.** Whatever the clients send and however it is split, and
whatever the other tasks do meanwhile, and a host whose transfers stay inside a block: at every
time, what has come of the last connection is a part, from the start, of what the frame received
asks for, and it is the whole of it when `network_task` is back at `accept`. -/
theorem connection_answered (h0 : hosted.init s₀) (hrun : hosted.Run s₀ tr s) :
    (connection (history tr)).Answering ∧
      (s.network = .accept → (connection (history tr)).Answered) := by
  have hprogress := progress_run h0 hrun
  constructor
  · cases hpc : s.network with
    | listen | accept =>
      rw [hpc] at hprogress
      exact ⟨_, List.prefix_rfl, hprogress⟩
    | reading st =>
      rw [hpc] at hprogress
      exact ⟨[], List.nil_prefix, by rw [hprogress.2.2]; exact .nil⟩
    | handling todo | get pc time todo | send handle time todo =>
      rw [hpc] at hprogress
      exact hprogress.answering
  · intro hpc
    rwa [hpc] at hprogress

/-- A client asks for a pulse, and the host overwrites block 3 meanwhile. -/
theorem connection_answered_toggle : ∃ s₀ tr s, hosted.init s₀ ∧ hosted.Run s₀ tr s ∧
    (connection (history tr)).answers.length = 2 ∧ (connection (history tr)).Answered := by
  obtain ⟨tr, s, hrun, hq⟩ := System.exists_run (M := hosted)
    (Q := fun tr s => s.network.accepting && decide ((connection (history tr)).answers.length = 2))
    (State.boot (blockData fun _ => 0))
    ((startUp ++ (networkToggle 500).take 5).map .task ++
      .write10 3 0 (fun _ => 0) 512 :: ((networkToggle 500).drop 5).map .task) (by decide +kernel)
  obtain ⟨haccept, hlen⟩ := Bool.and_eq_true_iff.1 hq
  have hanswered := (connection_answered ⟨_, rfl⟩ hrun).2 (NetworkPc.eq_accept haccept)
  exact ⟨_, tr, s, ⟨_, rfl⟩, hrun, of_decide_eq_true hlen, hanswered⟩

end Pcrb
