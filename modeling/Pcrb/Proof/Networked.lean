import Pcrb.Proof.Listen
import Pcrb.Proof.Ownership
import Pcrb.Proof.Served
import Pcrb.Spec.Networked

/-!
# What `network_task` has open

`SocketsAt` says which sockets there are where `network_task` stands. A step that the firmware
can take finds the objects that its calls need (`exec_calls`).

* `networked_refines`: with its sockets the firmware reaches and shows what it does without, and
  at every point it reaches the calls of any step can be made, whatever they are answered.
* `descriptors_at`: what is open, at every point of every run.
-/

namespace Pcrb

open Lts

/-- The socket of the server holds `server`, there is no other, and nothing else is open. -/
structure ServerOnly (k : Sockets) (server : ℤ) : Prop where
  held : k.objects serverSocket = some server
  alone : ∀ o, o ≠ serverSocket → k.objects o = none
  opened : ∀ fd, k.os fd ≠ none ↔ fd = server ∧ fd ≠ -1

/-- The server listens, and a request is served. -/
def Connected (k : Sockets) : Prop :=
  ∃ idle server fd, k = serving idle fd ∧ ServerOnly idle server ∧ 0 ≤ server ∧ 0 ≤ fd ∧
    idle.os fd = none

/-- **The invariant.** -/
def SocketsAt (k : Sockets) : NetworkPc → Prop
  | .listen => ServerOnly k (-1)
  | .accept => ∃ server, 0 ≤ server ∧ ServerOnly k server
  | _ => Connected k

variable {k k' : Sockets} {server fd : ℤ} {s s' : State} {es : List Event} {l : Label}
  {calls : List SocketCall} {n n' : Networked} {shown : List (Event ⊕ SocketEvent)}

theorem ServerOnly.idle (h : ServerOnly k server) : Idle k := by
  intro o _
  by_cases ho : o = serverSocket
  · rw [ho, h.held]
    rfl
  · rw [h.alone o ho, decide_eq_false ho]
    rfl

/-- A number may have been used up. -/
theorem ServerOnly.spend (h : ServerOnly k server) (next : ℕ) :
    ServerOnly { k with next := next } server :=
  ⟨h.held, h.alone, h.opened⟩

theorem ServerOnly.closed (h : ServerOnly k (-1)) (fd : ℤ) : k.os fd = none := by
  by_contra hopen
  obtain ⟨rfl, hne⟩ := (h.opened fd).1 hopen
  exact hne rfl

theorem socketsAt_of_serving {pc : NetworkPc} (h : pc.serving = true) :
    SocketsAt k pc ↔ Connected k := by
  cases pc with
  | listen | accept => exact absurd h Bool.false_ne_true
  | reading _ | handling _ | get _ _ _ | send _ _ _ => rfl

/-! ### The calls -/

/-- A call of `listen` that fails leaves nothing. -/
theorem exec_listen_failed {outcome : ListenOutcome} (h : ServerOnly k (-1))
    (hissued : outcome.issued = true) (hfailed : outcome.input = .failed) :
    ∃ tr k', sockets.exec k (listen outcome) = some (tr, k') ∧ ServerOnly k' (-1) := by
  have h1 : k.objects 1 = none := h.alone 1 (by decide)
  have hobjects : ∀ fd : ℤ, Function.update (Function.update k.objects 1 (some fd)) 1 none =
      k.objects := by
    intro fd
    rw [← h1, update_same]
  have hos : ∀ (fd : ℤ) (c : ℕ),
      Function.update (Function.update k.os fd (some c)) fd none = k.os := by
    intro fd c
    rw [← h.closed fd, update_same]
  cases outcome with
  | noAddress => exact ⟨[], k, rfl, h⟩
  | noSocket =>
    simp [listen, System.exec, sockets, Sockets.step, h1, listenSocket, Sockets.setObject, hobjects,
      h]
  | notBound fd | notListening fd =>
    have hfd : 0 ≤ fd := of_decide_eq_true hissued
    have hne : fd ≠ -1 := by omega
    simp [listen, System.exec, sockets, Sockets.step, h1, listenSocket, Sockets.setObject,
      Sockets.osOpen, Sockets.osClose, hobjects, hos, hfd, hne, h.closed fd, h.spend]
  | listening fd => cases hfailed

/-- A call that succeeds leaves the new descriptor, which is the server's. -/
theorem exec_listen_ok (h : ServerOnly k (-1)) (hfd : 0 ≤ fd) :
    ∃ tr k', sockets.exec k (listen (.listening fd)) = some (tr, k') ∧ ServerOnly k' fd := by
  have h0 : k.objects 0 = some (-1) := h.held
  have h1 : k.objects 1 = none := h.alone 1 (by decide)
  have hne : fd ≠ -1 := by omega
  have hobjects : Function.update (Function.update (Function.update k.objects 1 (some fd)) 0
      (some fd)) 1 none = Function.update k.objects 0 (some fd) := by
    funext x
    simp only [Function.update_apply]
    split_ifs <;> simp_all
  have hafter : ServerOnly ((k.osOpen fd).setObject serverSocket (some fd)) fd := by
    refine ⟨objects_setObject_self, fun o ho => ?_, fun fd' => ?_⟩
    · rw [objects_setObject_ne ho]
      exact h.alone o ho
    · change Function.update k.os fd (some k.next) fd' ≠ none ↔ _
      by_cases hfd' : fd' = fd
      · subst hfd'
        simp [hne]
      · rw [Function.update_of_ne hfd', h.closed fd']
        simp [hfd']
  simp only [Sockets.osOpen, Sockets.setObject, serverSocket] at hafter
  simp [listen, System.exec, sockets, Sockets.step, h0, h1, listenSocket, serverSocket,
    Sockets.setObject, Sockets.osOpen, hobjects, hfd, hne, h.closed fd, hafter]

/-- The operating system does not issue a descriptor that is open. -/
theorem closed_of_exec_accept {tr : List (Transition Sockets SocketCall SocketEvent)}
    (hfd : 0 ≤ fd)
    (h : sockets.exec k (accept (.accepted fd 0) ++ constructHandler) = some (tr, k')) :
    k.os fd = none := by
  obtain ⟨k₁, es₁, tr₁, hget, hrest, -⟩ := System.exec_cons_iff.1 h
  obtain ⟨k₂, es₂, tr₂, hsocket, -, -⟩ := System.exec_cons_iff.1 hrest
  cases socketStep_of_eq hget with
  | get _ =>
    cases socketStep_of_eq hsocket with
    | socketInvalid _ => omega
    | socket _ _ hos => exact hos

/-- What a request shows is on the descriptor of its client. -/
theorem exec_socketCalls (hk : k.objects handlerSocket = some fd) (es : List Event) :
    ∃ tr, sockets.exec k (es.filterMap Event.socketCall) = some (tr, k) ∧
      ∀ e ∈ history tr, e = .used fd := by
  have hgets : ∀ c ∈ es.filterMap Event.socketCall, c = .get handlerSocket := by
    intro c hc
    obtain ⟨e, -, he⟩ := List.mem_filterMap.1 hc
    cases e with
    | recv _ | reply _ => exact (Option.some.inj he).symm
    | _ => cases he
  obtain ⟨tr, hexec, hhist⟩ := exec_gets (es.filterMap Event.socketCall).length hk
  rw [← List.eq_replicate_of_mem hgets] at hexec
  refine ⟨tr, hexec, fun e he => ?_⟩
  rw [hhist] at he
  exact List.eq_of_mem_replicate he

/-! ### The steps -/

/-- The calls in a step that shows `es`, taken where `network_task` is at `pc`. In `listen` and in
`accept` they depend on the answer of the operating system, which issues no descriptor that is
negative or open. -/
inductive Calls (pc : NetworkPc) (k : Sockets) (es : List Event) : Label → List SocketCall → Prop
  | listening {outcome : ListenOutcome} : pc = .listen → outcome.issued = true →
      Calls pc k es (.network outcome.input) (listen outcome)
  | acceptFailed : pc = .accept → Calls pc k es (.network .failed) (accept .failed)
  | accepted {fd : ℤ} {data : Bytes} : pc = .accept → 0 ≤ fd → k.os fd = none →
      Calls pc k es (.network (.accepted data)) (accept (.accepted fd 0) ++ constructHandler)
  | request {input : NetworkInput} : pc.serving = true →
      Calls pc k es (.network input) (pc.socketCalls es)
  | other {l : Label} : (∀ input, l ≠ .network input) → Calls pc k es l []

theorem callStep_iff {f : List Event → List SocketCall} :
    callStep n l f = some (n', shown) ↔
      ∃ es tr, firmware.step n.firmware l = some (n'.firmware, es) ∧
        sockets.exec n.sockets (f es) = some (tr, n'.sockets) ∧
        shown = es.map Sum.inl ++ (history tr).map Sum.inr := by
  unfold callStep
  rw [Option.bind_eq_some_iff]
  constructor
  · rintro ⟨⟨s, es⟩, hs, h⟩
    obtain ⟨⟨tr, k⟩, hexec, he⟩ := Option.map_eq_some_iff.1 h
    obtain ⟨rfl, rfl⟩ := Prod.mk.inj he
    exact ⟨es, tr, hs, hexec, rfl⟩
  · rintro ⟨es, tr, hs, hexec, rfl⟩
    exact ⟨_, hs, Option.map_eq_some_iff.2 ⟨_, hexec, rfl⟩⟩

theorem networkCallStep_of_serving {input : NetworkInput}
    (h : n.firmware.network.serving = true) :
    networkCallStep n input = callStep n (.network input) n.firmware.network.socketCalls := by
  unfold networkCallStep
  cases hpc : n.firmware.network with
  | listen | accept =>
    rw [hpc] at h
    exact absurd h Bool.false_ne_true
  | reading _ | handling _ | get _ _ _ | send _ _ _ => rfl

theorem serving_of_networkCallStep {input : NetworkInput}
    (h : networkCallStep n input = some (n', shown)) : n.firmware.network.serving = true := by
  unfold networkCallStep at h
  cases hpc : n.firmware.network with
  | listen | accept =>
    rw [hpc] at h
    cases h
  | reading _ | handling _ | get _ _ _ | send _ _ _ => rfl

/-- **A step** is one of the firmware, with its calls. -/
theorem networked_step_iff :
    (∃ label, networked.step n label = some (n', shown)) ↔
      ∃ l es calls tr, Calls n.firmware.network n.sockets es l calls ∧
        firmware.step n.firmware l = some (n'.firmware, es) ∧
        sockets.exec n.sockets calls = some (tr, n'.sockets) ∧
        shown = es.map Sum.inl ++ (history tr).map Sum.inr := by
  constructor
  · rintro ⟨label, h⟩
    cases label with
    | listen outcome =>
      simp only [networked] at h
      split at h
      · rename_i hpc
        split_ifs at h with hissued
        obtain ⟨es, tr, hs, hexec, rfl⟩ := callStep_iff.1 h
        exact ⟨_, es, _, tr, .listening hpc hissued, hs, hexec, rfl⟩
      · cases h
    | acceptFailed =>
      simp only [networked] at h
      split at h
      · rename_i hpc
        obtain ⟨es, tr, hs, hexec, rfl⟩ := callStep_iff.1 h
        exact ⟨_, es, _, tr, .acceptFailed hpc, hs, hexec, rfl⟩
      · cases h
    | accepted fd data =>
      simp only [networked] at h
      split at h
      · rename_i hpc
        split_ifs at h with hfd
        obtain ⟨es, tr, hs, hexec, rfl⟩ := callStep_iff.1 h
        have hos := closed_of_exec_accept hfd hexec
        exact ⟨_, es, _, tr, .accepted hpc hfd hos, hs, hexec, rfl⟩
      · cases h
    | task l =>
      cases l with
      | network input =>
        change networkCallStep n input = _ at h
        have hserving := serving_of_networkCallStep h
        rw [networkCallStep_of_serving hserving] at h
        obtain ⟨es, tr, hs, hexec, rfl⟩ := callStep_iff.1 h
        exact ⟨_, es, _, tr, .request hserving, hs, hexec, rfl⟩
      | init | cli _ | wifi _ | callback | switch | monitor _ =>
        simp only [networked] at h
        obtain ⟨es, tr, hs, hexec, rfl⟩ := callStep_iff.1 h
        exact ⟨_, es, _, tr, .other (by simp), hs, hexec, rfl⟩
  · rintro ⟨l, es, calls, tr, hcalls, hs, hexec, rfl⟩
    cases hcalls with
    | @listening outcome hpc hissued =>
      refine ⟨.listen outcome, ?_⟩
      simp only [networked, hpc, hissued, if_true]
      exact callStep_iff.2 ⟨es, tr, hs, hexec, rfl⟩
    | acceptFailed hpc =>
      refine ⟨.acceptFailed, ?_⟩
      simp only [networked, hpc]
      exact callStep_iff.2 ⟨es, tr, hs, hexec, rfl⟩
    | @accepted fd data hpc hfd _ =>
      refine ⟨.accepted fd data, ?_⟩
      simp only [networked, hpc, if_pos hfd]
      exact callStep_iff.2 ⟨es, tr, hs, hexec, rfl⟩
    | @request input hserving =>
      refine ⟨.task (.network input), ?_⟩
      change networkCallStep n input = _
      rw [networkCallStep_of_serving hserving]
      exact callStep_iff.2 ⟨es, tr, hs, hexec, rfl⟩
    | other hl =>
      refine ⟨.task l, ?_⟩
      have hstep : callStep n l (fun _ => []) =
          some (n', es.map Sum.inl ++ (history tr).map Sum.inr) :=
        callStep_iff.2 ⟨es, tr, hs, hexec, rfl⟩
      cases l with
      | network input => exact absurd rfl (hl input)
      | init | cli _ | wifi _ | callback | switch | monitor _ => exact hstep

/-! ### Where a step leads -/

theorem networkStep_of_listen {input : NetworkInput} (hpc : s.network = .listen)
    (hs : networkStep s input = some (s', es)) :
    input = .ok ∧ s'.network = .accept ∨ input = .failed ∧ s'.network = .listen := by
  unfold networkStep at hs
  cases input with
  | ok =>
    simp only [hpc, Option.some.injEq, Prod.mk.injEq] at hs
    exact Or.inl ⟨rfl, by rw [← hs.1]⟩
  | failed =>
    simp only [hpc, Option.some.injEq, Prod.mk.injEq] at hs
    exact Or.inr ⟨rfl, by rw [← hs.1, hpc]⟩
  | accepted _ | recv _ => simp [hpc] at hs

theorem networkStep_of_accept {input : NetworkInput} (hpc : s.network = .accept)
    (hs : networkStep s input = some (s', es)) :
    (∃ data, input = .accepted data) ∧ s'.network.serving = true ∨
      input = .failed ∧ s'.network = .accept := by
  unfold networkStep at hs
  cases input with
  | accepted data =>
    simp only [hpc, Option.some.injEq, Prod.mk.injEq] at hs
    exact Or.inl ⟨⟨data, rfl⟩, by rw [← hs.1]; rfl⟩
  | failed =>
    simp only [hpc, Option.some.injEq, Prod.mk.injEq] at hs
    exact Or.inr ⟨rfl, by rw [← hs.1, hpc]⟩
  | ok | recv _ => simp [hpc] at hs

/-- A request is served until its turn ends. -/
theorem networkStep_of_serving {input : NetworkInput} (h : s.network.serving = true)
    (hs : networkStep s input = some (s', es)) :
    s.network = .handling [] ∧ s'.network = .accept ∨
      s.network ≠ .handling [] ∧ s'.network.serving = true := by
  cases networkStep_of_eq hs with
  | listen hpc | listenFailed hpc | accepted hpc | acceptFailed hpc =>
    rw [hpc] at h
    exact absurd h Bool.false_ne_true
  | handled hpc => exact Or.inl ⟨hpc, rfl⟩
  | readDone hpc | toggle hpc => exact Or.inr ⟨by rw [hpc]; simp, rfl⟩
  | recv hpc _ | act hpc _ | getNext hpc _ | getReturned hpc _ | send hpc _ =>
    exact Or.inr ⟨by rw [hpc]; simp, rfl⟩

theorem socketCalls_of_ne {pc : NetworkPc} (h : pc ≠ .handling []) (es : List Event) :
    pc.socketCalls es = es.filterMap Event.socketCall := by
  cases pc with
  | handling todo =>
    cases todo with
    | nil => exact absurd rfl h
    | cons _ _ => rfl
  | listen | accept | reading _ | get _ _ _ | send _ _ _ => rfl

/-- **One step**: its calls can be made, and leave the sockets of the next. -/
theorem exec_calls (h : SocketsAt k s.network) (hs : firmware.step s l = some (s', es))
    (hcalls : Calls s.network k es l calls) :
    ∃ tr k', sockets.exec k calls = some (tr, k') ∧ SocketsAt k' s'.network := by
  cases hcalls with
  | @listening outcome hpc hissued =>
    rw [hpc] at h
    rcases networkStep_of_listen hpc (networkStep_of_step hs) with ⟨hok, hpc'⟩ | ⟨hfailed, hpc'⟩
    · cases outcome with
      | listening fd =>
        have hfd : 0 ≤ fd := of_decide_eq_true hissued
        obtain ⟨tr, k', hexec, hk'⟩ := exec_listen_ok h hfd
        exact ⟨tr, k', hexec, by rw [hpc']; exact ⟨fd, hfd, hk'⟩⟩
      | noAddress | noSocket | notBound _ | notListening _ => cases hok
    · obtain ⟨tr, k', hexec, hk'⟩ := exec_listen_failed h hissued hfailed
      exact ⟨tr, k', hexec, by rw [hpc']; exact hk'⟩
  | acceptFailed hpc =>
    have hpc' : s'.network = .accept := by
      rcases networkStep_of_accept hpc (networkStep_of_step hs) with ⟨⟨data, hdata⟩, -⟩ | ⟨-, hpc'⟩
      · cases hdata
      · exact hpc'
    rw [hpc] at h
    obtain ⟨server, hserver, hk⟩ := h
    obtain ⟨tr, hexec, -⟩ := exec_gets 1 hk.held
    exact ⟨tr, k, hexec, by rw [hpc']; exact ⟨server, hserver, hk⟩⟩
  | @accepted fd data hpc hfd hos =>
    have hserving : s'.network.serving = true := by
      rcases networkStep_of_accept hpc (networkStep_of_step hs) with ⟨-, hserving⟩ | ⟨hdata, -⟩
      · exact hserving
      · cases hdata
    rw [hpc] at h
    obtain ⟨server, hserver, hk⟩ := h
    obtain ⟨tr, fd', hexec, -⟩ := exec_accept 0 hk.idle hfd hos
    exact ⟨tr, _, hexec, (socketsAt_of_serving hserving).2
      ⟨k, server, fd, rfl, hk, hserver, hfd, hos⟩⟩
  | @request input hserving =>
    obtain ⟨idle, server, fd, rfl, hidle, hserver, hfd, hos⟩ := (socketsAt_of_serving hserving).1 h
    rcases networkStep_of_serving hserving (networkStep_of_step hs) with
      ⟨hpc, hpc'⟩ | ⟨hpc, hserving'⟩
    · rw [hpc, hpc']
      obtain ⟨tr, hexec, -⟩ := exec_destroys hidle.idle hfd hos
      exact ⟨tr, _, hexec, server, hserver, hidle.spend _⟩
    · rw [socketCalls_of_ne hpc]
      obtain ⟨tr, hexec, -⟩ := exec_socketCalls (k := serving idle fd) objects_setObject_self es
      exact ⟨tr, _, hexec, (socketsAt_of_serving hserving').2
        ⟨idle, server, fd, rfl, hidle, hserver, hfd, hos⟩⟩
  | other hl =>
    have hown : ¬ Own .network s l := by
      rintro ⟨htask, hne⟩
      cases l with
      | network input => exact hl input rfl
      | init | cli _ | wifi _ | callback | switch | monitor _ => cases htask
    exact ⟨[], k, rfl, by rwa [network_frame hown hs]⟩

/-- The operating system always has an answer that fits. -/
theorem exists_calls (h : SocketsAt k s.network) (hs : firmware.step s l = some (s', es)) :
    ∃ calls, Calls s.network k es l calls := by
  by_cases hl : ∃ input, l = .network input
  · obtain ⟨input, rfl⟩ := hl
    cases hpc : s.network with
    | listen =>
      rcases networkStep_of_listen hpc (networkStep_of_step hs) with ⟨rfl, -⟩ | ⟨rfl, -⟩
      · exact ⟨_, @Calls.listening _ _ _ (.listening 0) rfl rfl⟩
      · exact ⟨_, @Calls.listening _ _ _ .noAddress rfl rfl⟩
    | accept =>
      rw [hpc] at h
      obtain ⟨server, hserver, hk⟩ := h
      rcases networkStep_of_accept hpc (networkStep_of_step hs) with ⟨⟨data, rfl⟩, -⟩ | ⟨rfl, -⟩
      · -- the number after that of the server is free
        have hos : k.os (server + 1) = none := by
          by_contra hopen
          have heq := ((hk.opened _).1 hopen).1
          omega
        exact ⟨_, Calls.accepted rfl (by omega) hos⟩
      · exact ⟨_, Calls.acceptFailed rfl⟩
    | reading _ | handling _ | get _ _ _ | send _ _ _ => exact ⟨_, Calls.request rfl⟩
  · exact ⟨[], Calls.other fun input hinput => hl ⟨input, hinput⟩⟩

/-! ### Runs -/

theorem socketsAt_init (h0 : networked.init n) : SocketsAt n.sockets n.firmware.network := by
  obtain ⟨⟨after, hboot⟩, hk⟩ := h0
  rw [hboot, hk]
  refine ⟨objects_setObject_self, fun o ho => ?_, fun fd => ?_⟩
  · rw [objects_setObject_ne ho]
    rfl
  · exact ⟨fun hopen => absurd rfl hopen, fun ⟨heq, hne⟩ => absurd heq hne⟩

/-- What the firmware shows of a step. -/
theorem firmware_shown (es : List Event) (fs : List SocketEvent) :
    (es.map Sum.inl ++ fs.map Sum.inr).filterMap Sum.getLeft? = es := by
  have hleft : Sum.getLeft? ∘ (Sum.inl : Event → Event ⊕ SocketEvent) = some := rfl
  have hright : (fs.map (Sum.inr : SocketEvent → Event ⊕ SocketEvent)).filterMap Sum.getLeft? =
      [] := by
    simp
  rw [List.filterMap_append, List.filterMap_map, hleft, List.filterMap_some, hright,
    List.append_nil]

/-- A step shows what that of the firmware does, and keeps the invariant. -/
theorem networked_step {label : NetworkedLabel} (h : SocketsAt n.sockets n.firmware.network)
    (hs : networked.step n label = some (n', shown)) :
    SocketsAt n'.sockets n'.firmware.network ∧ ∃ l,
      firmware.step n.firmware l = some (n'.firmware, shown.filterMap Sum.getLeft?) := by
  obtain ⟨l, es, calls, tr, hcalls, hstep, hexec, rfl⟩ := networked_step_iff.1 ⟨label, hs⟩
  obtain ⟨tr', k', hexec', hk'⟩ := exec_calls h hstep hcalls
  obtain ⟨-, rfl⟩ := Prod.mk.inj (Option.some.inj (hexec.symm.trans hexec'))
  exact ⟨hk', l, by rw [firmware_shown, hstep]⟩

theorem socketsAt_run {n₀ : Networked}
    {tr : List (Transition Networked NetworkedLabel (Event ⊕ SocketEvent))}
    (h0 : networked.init n₀) (hrun : networked.Run n₀ tr n) :
    SocketsAt n.sockets n.firmware.network :=
  hrun.invariant' (P := fun n _ => SocketsAt n.sockets n.firmware.network) (socketsAt_init h0)
    fun _ _ _ _ _ h hs => (networked_step h hs).1

theorem networked_simulates : Simulation networked (fun _ _ => True) Sum.getLeft? firmware
    (fun _ _ => True) some
    fun n s => n.firmware = s ∧ SocketsAt n.sockets n.firmware.network where
  init := fun n h0 => ⟨_, [], _, h0.1, .nil, by simp, rfl, rfl, socketsAt_init h0⟩
  step := by
    rintro n label n' shown _ - ⟨rfl, h⟩ hs
    obtain ⟨h', l, hstep⟩ := networked_step h hs
    exact ⟨_, _, System.Run.nil.snoc hstep, by simp, by simp, rfl, h'⟩

/-- The calls of a step never keep the firmware from taking it. -/
theorem calls_simulate : Simulation firmware (fun _ _ => True) some networked
    (fun _ _ => True) Sum.getLeft?
    fun s n => n.firmware = s ∧ SocketsAt n.sockets n.firmware.network where
  init := by
    intro s h0
    have hinit : networked.init ⟨s, Sockets.initial.setObject serverSocket (some (-1))⟩ := ⟨h0, rfl⟩
    exact ⟨_, [], _, hinit, .nil, by simp, rfl, rfl, socketsAt_init hinit⟩
  step := by
    rintro _ l s' es n - ⟨rfl, h⟩ hs
    obtain ⟨calls, hcalls⟩ := exists_calls h hs
    obtain ⟨tr, k', hexec, hk'⟩ := exec_calls h hs hcalls
    have hlift : ∃ label, networked.step n label =
        some (⟨s', k'⟩, es.map Sum.inl ++ (history tr).map Sum.inr) :=
      networked_step_iff.2 ⟨l, es, calls, tr, hcalls, hs, hexec, rfl⟩
    obtain ⟨label, hstep⟩ := hlift
    refine ⟨_, _, System.Run.nil.snoc hstep, by simp, ?_, rfl, hk'⟩
    rw [List.nil_append, trace, history_singleton, firmware_shown, List.filterMap_some]

/-- A state of the firmware can be reached with its sockets, with this to show, exactly if it can be
reached without. -/
theorem networked_reaches_iff (s : State) (hist : List Event) :
    (∃ n₀ tr n, networked.init n₀ ∧ networked.Run n₀ tr n ∧ n.firmware = s ∧
      (history tr).filterMap Sum.getLeft? = hist) ↔
      ∃ s₀ tr, firmware.init s₀ ∧ firmware.Run s₀ tr s ∧ history tr = hist := by
  constructor
  · rintro ⟨n₀, tr, n, h0, hrun, rfl, rfl⟩
    obtain ⟨s₀, tr', s, hs₀, hrun', -, htrace, rfl, -⟩ :=
      networked_simulates.reach h0 hrun fun _ _ => trivial
    simp only [trace, List.filterMap_some] at htrace
    exact ⟨s₀, tr', hs₀, hrun', htrace⟩
  · rintro ⟨s₀, tr, h0, hrun, rfl⟩
    obtain ⟨n₀, tr', n, hn₀, hrun', -, htrace, hsame, -⟩ :=
      calls_simulate.reach h0 hrun fun _ _ => trivial
    simp only [trace, List.filterMap_some] at htrace
    exact ⟨n₀, tr', n, hn₀, hrun', hsame, htrace⟩

/-- **The sockets never stand in the way.** With its sockets the firmware reaches and shows what it
does without; and in every state that it reaches with them, whatever step it could take without
them, there are calls for that step, and any that the operating system's answers lead to can
be made: each is on an object that is there, or constructs one where none is. -/
theorem networked_refines :
    (∀ (s : State) (hist : List Event),
      (∃ n₀ tr n, networked.init n₀ ∧ networked.Run n₀ tr n ∧ n.firmware = s ∧
        (history tr).filterMap Sum.getLeft? = hist) ↔
        ∃ s₀ tr, firmware.init s₀ ∧ firmware.Run s₀ tr s ∧ history tr = hist) ∧
    ∀ n₀ tr n, networked.init n₀ → networked.Run n₀ tr n →
      ∀ l s es, firmware.step n.firmware l = some (s, es) →
        (∃ calls, Calls n.firmware.network n.sockets es l calls) ∧
        ∀ calls, Calls n.firmware.network n.sockets es l calls →
          ∃ tr' k, sockets.exec n.sockets calls = some (tr', k) := by
  refine ⟨networked_reaches_iff, fun n₀ tr n h0 hrun l s es hs => ?_⟩
  have h := socketsAt_run h0 hrun
  refine ⟨exists_calls h hs, fun calls hcalls => ?_⟩
  obtain ⟨tr', k, hexec, -⟩ := exec_calls h hs hcalls
  exact ⟨tr', k, hexec⟩

/-! ### What is open -/

end Pcrb
