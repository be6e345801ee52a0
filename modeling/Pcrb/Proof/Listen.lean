import Mathlib.Data.List.Nodup
import Pcrb.Spec.Server

/-!
# Server start-up is atomic

`exec_failed` and `exec_succeeded` run the whole of `server::listen`, for the answers with
which it comes back, and give its events and the state afterwards; `exec_nullResult` is for
those with which it does not.

* `listen_atomic_iff`: exactly which answers of `getaddrinfo` leave `listen` atomic, and
  that any number of calls leaves at most one descriptor open.
* `serverListen_socketCalls`: the schedule of `network_task` treats sockets as `listen` does.
-/

namespace Pcrb

open Lts

/-- Between two calls: `socket_ipv4` holds `fd`, which is -1 or open, and `listen` holds
nothing. -/
structure ServerReady (s : ServerState) (fd : ℤ) : Prop where
  server : s.sockets.objects serverSocket = some fd
  owned : fd ≠ -1 → s.sockets.os fd ≠ none
  noSocket : s.sockets.objects listenSocket = none
  noResult : s.result = none

namespace ListenAnswers

/-- What the operating system may answer: a descriptor that is not open, and an `errno`. -/
structure Possible (a : ListenAnswers) (s : ServerState) : Prop where
  socket : a.socket = -1 ∨ (0 ≤ a.socket ∧ s.sockets.os a.socket = none)
  errno : a.errno ≠ 0

/-- Every call succeeds. -/
def Succeeds (a : ListenAnswers) : Prop :=
  a.getaddrinfo = 0 ∧ a.socket ≠ -1 ∧ a.bind = true ∧ a.listen = true

end ListenAnswers

variable {s : ServerState} {a : ListenAnswers} {fd : ℤ}

/-- Nothing is left of a call of `listen` but the numbers it has used up. -/
def spent (s : ServerState) (infos connections : ℕ) : ServerState :=
  { s with
    sockets := { s.sockets with next := s.sockets.next + connections }
    nextInfo := s.nextInfo + infos }

theorem update_same {α β : Type*} [DecidableEq α] (f : α → β) (x : α) (y : β) :
    Function.update (Function.update f x y) x (f x) = f := by
  rw [Function.update_idem, Function.update_eq_self]

/-- What a call allocates and frees, opens and closes. -/
structure ListenEffect (es : List ServerEvent) (infos opened closed : List ℕ) : Prop where
  allocates : es.filterMap ServerEvent.allocates = infos
  frees : es.filterMap ServerEvent.frees = infos
  opens : es.filterMap ServerEvent.opens = opened
  closes : es.filterMap ServerEvent.closes = closed

/-- `getaddrinfo` fails with -1. -/
theorem exec_noAddress (hr : ServerReady s fd) (ha : a.getaddrinfo = -1) :
    ∃ tr, serverSystem.exec s (serverListen a).1 = some (tr, s) ∧
      ListenEffect (history tr) [] [] [] ∧ (serverListen a).2 = a.errno := by
  have hlisten : serverListen a = ([.getaddrinfo (-1), .release], a.errno) := by
    rw [serverListen, ha, if_pos rfl]
  have hres := hr.noResult
  obtain ⟨sockets, result, nextInfo⟩ := s
  subst hres
  rw [hlisten]
  exact ⟨_, rfl, ⟨rfl, rfl, rfl, rfl⟩, rfl⟩

/-- `::socket` fails. -/
theorem exec_noSocket (hr : ServerReady s fd) (hget : a.getaddrinfo = 0) (hs : a.socket = -1) :
    ∃ tr, serverSystem.exec s (serverListen a).1 = some (tr, spent s 1 0) ∧
      ListenEffect (history tr) [s.nextInfo] [] [] ∧ (serverListen a).2 = a.errno := by
  have h1 : s.sockets.objects 1 = none := hr.noSocket
  have hres := hr.noResult
  have hobjects : Function.update (Function.update s.sockets.objects 1 (some (-1))) 1 none =
      s.sockets.objects := by
    rw [← h1, update_same]
  have heffect : ListenEffect [.allocated s.nextInfo, .socket (.used (-1)), .freed s.nextInfo]
      [s.nextInfo] [] [] := ⟨rfl, rfl, rfl, rfl⟩
  simp [serverListen, hget, hs, System.exec, serverSystem, ServerState.step, Sockets.step, h1,
    listenSocket, Sockets.setObject, history, spent, hobjects, hres, heffect]

/-- `bind` or `::listen` fails. -/
theorem exec_notListening (hr : ServerReady s fd) (hget : a.getaddrinfo = 0)
    (hs : 0 ≤ a.socket) (hos : s.sockets.os a.socket = none)
    (hfail : a.bind = false ∨ a.listen = false) :
    ∃ tr, serverSystem.exec s (serverListen a).1 = some (tr, spent s 1 1) ∧
      ListenEffect (history tr) [s.nextInfo] [s.sockets.next] [s.sockets.next] ∧
      (serverListen a).2 = a.errno := by
  have h1 : s.sockets.objects 1 = none := hr.noSocket
  have hres := hr.noResult
  have hne : a.socket ≠ -1 := by omega
  have hobjects : Function.update (Function.update s.sockets.objects 1 (some a.socket)) 1 none =
      s.sockets.objects := by
    rw [← h1, update_same]
  have hopen : Function.update (Function.update s.sockets.os a.socket (some s.sockets.next))
      a.socket none = s.sockets.os := by
    rw [← hos, update_same]
  have heffect : ∀ used : List ServerEvent, used.filterMap ServerEvent.allocates = [] →
      used.filterMap ServerEvent.frees = [] → used.filterMap ServerEvent.opens = [] →
      used.filterMap ServerEvent.closes = [] →
      ListenEffect (.allocated s.nextInfo :: .socket (.opened s.sockets.next) :: (used ++
        [.socket (.shutdown a.socket), .socket (.closed 1 a.socket s.sockets.next),
          .freed s.nextInfo])) [s.nextInfo] [s.sockets.next] [s.sockets.next] := by
    intro used hall hfrees hopens hcloses
    constructor <;>
      simp [List.filterMap_cons, ServerEvent.allocates, ServerEvent.frees, ServerEvent.opens,
        ServerEvent.closes, SocketEvent.opens, SocketEvent.closes, hall, hfrees, hopens, hcloses]
  by_cases hbind : a.bind = false
  · have h2 := heffect [.socket (.used a.socket), .socket (.used a.socket)] rfl rfl rfl rfl
    simp only [List.cons_append, List.nil_append] at h2
    simp [serverListen, hget, hs, hne, hbind, System.exec, serverSystem, ServerState.step,
      Sockets.step, h1, hos, listenSocket, Sockets.setObject, Sockets.osOpen, Sockets.osClose,
      history, spent, hobjects, hopen, hres, h2]
  · have hlisten : a.listen = false := hfail.resolve_left hbind
    have h3 := heffect [.socket (.used a.socket), .socket (.used a.socket),
      .socket (.used a.socket)] rfl rfl rfl rfl
    simp only [List.cons_append, List.nil_append] at h3
    simp [serverListen, hget, hs, hne, hbind, hlisten, System.exec, serverSystem,
      ServerState.step, Sockets.step, h1, hos, listenSocket, Sockets.setObject, Sockets.osOpen,
      Sockets.osClose, history, spent, hobjects, hopen, hres, h3]

/-- Where the call succeeds, `socket_ipv4` holds the new descriptor, and the old one is
closed. -/
def listening (s : ServerState) (old new : ℤ) : ServerState where
  sockets :=
    { objects := Function.update s.sockets.objects serverSocket (some new)
      os := if old = -1 then Function.update s.sockets.os new (some s.sockets.next)
        else Function.update (Function.update s.sockets.os new (some s.sockets.next)) old none
      next := s.sockets.next + 1 }
  result := none
  nextInfo := s.nextInfo + 1

/-- Every call succeeds. -/
theorem exec_listening (hr : ServerReady s fd) (hget : a.getaddrinfo = 0)
    (hs : 0 ≤ a.socket) (hos : s.sockets.os a.socket = none) (hbind : a.bind = true)
    (hlisten : a.listen = true) :
    ∃ tr, serverSystem.exec s (serverListen a).1 = some (tr, listening s fd a.socket) ∧
      ListenEffect (history tr) [s.nextInfo] [s.sockets.next]
        (if fd = -1 then [] else (s.sockets.os fd).toList) ∧
      (serverListen a).2 = 0 := by
  have h0 : s.sockets.objects 0 = some fd := hr.server
  have h1 : s.sockets.objects 1 = none := hr.noSocket
  have hres := hr.noResult
  have hne : a.socket ≠ -1 := by omega
  have hobjects : Function.update (Function.update (Function.update s.sockets.objects 1
      (some a.socket)) 0 (some a.socket)) 1 none =
      Function.update s.sockets.objects 0 (some a.socket) := by
    funext x
    simp only [Function.update_apply]
    split_ifs <;> simp_all
  by_cases hfd : fd = -1
  · have heffect : ListenEffect [.allocated s.nextInfo, .socket (.opened s.sockets.next),
        .socket (.used a.socket), .socket (.used a.socket), .socket (.used a.socket),
        .freed s.nextInfo] [s.nextInfo] [s.sockets.next] [] := ⟨rfl, rfl, rfl, rfl⟩
    simp [serverListen, hget, hs, hne, hbind, hlisten, System.exec, serverSystem,
      ServerState.step, Sockets.step, h0, h1, hos, hfd, listenSocket, serverSocket,
      Sockets.setObject, Sockets.osOpen, history, listening, hobjects, heffect]
  · obtain ⟨k, hk⟩ := Option.ne_none_iff_exists'.1 (hr.owned hfd)
    have hold : fd ≠ a.socket := by
      rintro rfl
      rw [hos] at hk
      cases hk
    have heffect : ListenEffect [.allocated s.nextInfo, .socket (.opened s.sockets.next),
        .socket (.used a.socket), .socket (.used a.socket), .socket (.used a.socket),
        .socket (.shutdown fd), .socket (.closed 1 fd k), .freed s.nextInfo]
        [s.nextInfo] [s.sockets.next] [k] := ⟨rfl, rfl, rfl, rfl⟩
    simp [serverListen, hget, hs, hne, hbind, hlisten, System.exec, serverSystem,
      ServerState.step, Sockets.step, h0, h1, hos, hfd, hk, hold, listenSocket, serverSocket,
      Sockets.setObject, Sockets.osOpen, Sockets.osClose, history, listening, hobjects, heffect]

/-! ### One call -/

/-- `result` is dereferenced right after `getaddrinfo`, unless that returned -1. -/
theorem serverListen_deref (hget : a.getaddrinfo ≠ -1) :
    ∃ rest, (serverListen a).1 = .getaddrinfo a.getaddrinfo :: .deref :: rest := by
  unfold serverListen
  rw [if_neg hget]
  split_ifs <;> exact ⟨_, rfl⟩

/-- **An error code of `getaddrinfo` is not noticed**, and the dereference is of null. -/
theorem exec_nullResult (h0 : a.getaddrinfo ≠ 0) (hget : a.getaddrinfo ≠ -1) :
    serverSystem.exec s (serverListen a).1 = none := by
  obtain ⟨rest, hrest⟩ := serverListen_deref hget
  have hstep : serverSystem.step s (.getaddrinfo a.getaddrinfo) =
      some ({ s with result := none }, []) := if_neg h0
  rw [hrest, System.exec_cons hstep]
  rfl

/-- **A call that fails leaves the sockets as they were**, and what it acquired it has
released. -/
theorem exec_failed (hr : ServerReady s fd) (hp : a.Possible s)
    (hget : a.getaddrinfo = 0 ∨ a.getaddrinfo = -1) (hf : ¬a.Succeeds) :
    ∃ tr m n infos opened, serverSystem.exec s (serverListen a).1 = some (tr, spent s m n) ∧
      ListenEffect (history tr) infos opened opened ∧ infos.Nodup ∧ opened.Nodup ∧
      (serverListen a).2 = a.errno := by
  rcases hget with h0 | h1
  · rcases hp.socket with hs | ⟨hs, hos⟩
    · obtain ⟨tr, hexec, heffect, hcode⟩ := exec_noSocket hr h0 hs
      exact ⟨tr, 1, 0, _, _, hexec, heffect, List.nodup_singleton _, List.nodup_nil, hcode⟩
    · have hfail : a.bind = false ∨ a.listen = false := by
        by_contra hno
        have hne : a.socket ≠ -1 := by omega
        obtain ⟨hbind, hlisten⟩ := not_or.1 hno
        exact hf ⟨h0, hne, eq_true_of_ne_false hbind,
          eq_true_of_ne_false hlisten⟩
      obtain ⟨tr, hexec, heffect, hcode⟩ := exec_notListening hr h0 hs hos hfail
      exact ⟨tr, 1, 1, _, _, hexec, heffect, List.nodup_singleton _, List.nodup_singleton _,
        hcode⟩
  · obtain ⟨tr, hexec, heffect, hcode⟩ := exec_noAddress hr h1
    exact ⟨tr, 0, 0, _, _, hexec, heffect, List.nodup_nil, List.nodup_nil, hcode⟩

/-- **A call that succeeds** owns the new descriptor, and has closed the old one. -/
theorem exec_succeeded (hr : ServerReady s fd) (hp : a.Possible s) (hsucc : a.Succeeds) :
    ∃ tr, serverSystem.exec s (serverListen a).1 = some (tr, listening s fd a.socket) ∧
      ListenEffect (history tr) [s.nextInfo] [s.sockets.next]
        (if fd = -1 then [] else (s.sockets.os fd).toList) ∧
      (serverListen a).2 = 0 := by
  obtain ⟨h0, hne, hbind, hlisten⟩ := hsucc
  obtain ⟨hs, hos⟩ := hp.socket.resolve_left hne
  exact exec_listening hr h0 hs hos hbind hlisten

/-- **Atomic.** What the call allocates it frees once. Where a call of it fails it returns an
error code, the sockets are as they were, and what it opened it has closed once; otherwise it
returns 0, `socket_ipv4` holds the new descriptor, and the old one has been closed once. -/
structure AtomicCall (s s' : ServerState) (es : List ServerEvent) (a : ListenAnswers) (fd code : ℤ) :
    Prop where
  freed : es.filterMap ServerEvent.frees = es.filterMap ServerEvent.allocates
  freedOnce : (es.filterMap ServerEvent.frees).Nodup
  failed : ¬a.Succeeds → code ≠ 0 ∧ s'.sockets.objects = s.sockets.objects ∧
    s'.sockets.os = s.sockets.os ∧
    es.filterMap ServerEvent.closes = es.filterMap ServerEvent.opens ∧
    (es.filterMap ServerEvent.opens).Nodup
  succeeded : a.Succeeds → code = 0 ∧
    s'.sockets.objects = Function.update s.sockets.objects serverSocket (some a.socket) ∧
    es.filterMap ServerEvent.opens = [s.sockets.next] ∧
    s'.sockets.os a.socket = some s.sockets.next ∧
    es.filterMap ServerEvent.closes = (if fd = -1 then [] else (s.sockets.os fd).toList) ∧
    (fd ≠ -1 → s'.sockets.os fd = none) ∧
    ∀ d, d ≠ a.socket → d ≠ fd → s'.sockets.os d = s.sockets.os d

/-- `listen` comes back, and is atomic. -/
def ListenAtomic (s : ServerState) (fd : ℤ) (a : ListenAnswers) : Prop :=
  ∃ tr s', serverSystem.exec s (serverListen a).1 = some (tr, s') ∧
    AtomicCall s s' (history tr) a fd (serverListen a).2

theorem os_listening_new (hold : fd ≠ a.socket) :
    (listening s fd a.socket).sockets.os a.socket = some s.sockets.next := by
  simp only [listening]
  split_ifs with hfd
  · rw [Function.update_self]
  · rw [Function.update_of_ne hold.symm, Function.update_self]

theorem os_listening_old (hfd : fd ≠ -1) : (listening s fd a.socket).sockets.os fd = none := by
  simp only [listening]
  rw [if_neg hfd, Function.update_self]

theorem os_listening_of_ne {d : ℤ} (hnew : d ≠ a.socket) (hold : d ≠ fd) :
    (listening s fd a.socket).sockets.os d = s.sockets.os d := by
  simp only [listening]
  split_ifs with hfd
  · rw [Function.update_of_ne hnew]
  · rw [Function.update_of_ne hold, Function.update_of_ne hnew]

/-- The new descriptor was not open, so it is not the old one. -/
theorem ServerReady.ne_socket (hr : ServerReady s fd) (hp : a.Possible s) (hne : a.socket ≠ -1) :
    fd ≠ a.socket := by
  rintro rfl
  obtain ⟨-, hos⟩ := hp.socket.resolve_left hne
  exact hr.owned hne hos

/-- **Where `getaddrinfo` returns 0 or -1 the call is atomic.** -/
theorem listenAtomic_of_noticed (hr : ServerReady s fd) (hp : a.Possible s)
    (hget : a.getaddrinfo = 0 ∨ a.getaddrinfo = -1) : ListenAtomic s fd a := by
  by_cases hsucc : a.Succeeds
  · obtain ⟨tr, hexec, heffect, hcode⟩ := exec_succeeded hr hp hsucc
    have hold : fd ≠ a.socket := hr.ne_socket hp hsucc.2.1
    refine ⟨tr, _, hexec, ?_, ?_, fun hf => absurd hsucc hf, fun _ => ?_⟩
    · rw [heffect.frees, heffect.allocates]
    · rw [heffect.frees]
      exact List.nodup_singleton _
    · exact ⟨hcode, rfl, heffect.opens, os_listening_new hold, heffect.closes, os_listening_old,
        fun d hnew hne => os_listening_of_ne hnew hne⟩
  · obtain ⟨tr, m, n, infos, opened, hexec, heffect, hinfos, hopened, hcode⟩ :=
      exec_failed hr hp hget hsucc
    refine ⟨tr, _, hexec, ?_, ?_, fun _ => ?_, fun hs => absurd hs hsucc⟩
    · rw [heffect.frees, heffect.allocates]
    · rw [heffect.frees]
      exact hinfos
    · rw [heffect.closes, heffect.opens, hcode]
      exact ⟨hp.errno, rfl, rfl, rfl, hopened⟩

/-- A call that is atomic comes back, so `getaddrinfo` returned 0 or -1. -/
theorem noticed_of_listenAtomic (h : ListenAtomic s fd a) :
    a.getaddrinfo = 0 ∨ a.getaddrinfo = -1 := by
  by_contra hno
  obtain ⟨h0, h1⟩ := not_or.1 hno
  obtain ⟨tr, s', hexec, -⟩ := h
  rw [exec_nullResult h0 h1] at hexec
  cases hexec

/-! ### Any number of calls -/

/-- The states between the calls of `listen` in `network_task`, each of which came back. -/
inductive Retries : ServerState → Prop
  | start : Retries ServerState.initial
  | again {s s' a tr} : Retries s → a.Possible s →
      serverSystem.exec s (serverListen a).1 = some (tr, s') → Retries s'

/-- **The invariant**: nothing is open but what `socket_ipv4` holds. -/
structure Listening (s : ServerState) (fd : ℤ) : Prop where
  ready : ServerReady s fd
  only : ∀ d, s.sockets.os d ≠ none → d = fd ∧ d ≠ -1

theorem listening_initial : Listening ServerState.initial (-1) where
  ready := ⟨rfl, fun h => absurd rfl h, rfl, rfl⟩
  only _ h := absurd rfl h

theorem Listening.failed (h : Listening s fd) (m n : ℕ) : Listening (spent s m n) fd where
  ready := ⟨h.ready.server, h.ready.owned, h.ready.noSocket, h.ready.noResult⟩
  only := h.only

theorem Listening.succeeded (h : Listening s fd) (hp : a.Possible s) (hne : a.socket ≠ -1) :
    Listening (listening s fd a.socket) a.socket where
  ready := by
    have hserver : (listening s fd a.socket).sockets.objects serverSocket = some a.socket := by
      simp only [listening, Function.update_self]
    have hother : listenSocket ≠ serverSocket := by decide
    have hsock : (listening s fd a.socket).sockets.objects listenSocket = none := by
      simp only [listening]
      rw [Function.update_of_ne hother]
      exact h.ready.noSocket
    refine ⟨hserver, fun _ => ?_, hsock, rfl⟩
    rw [os_listening_new (h.ready.ne_socket hp hne)]
    exact Option.some_ne_none _
  only d hd := by
    by_cases hnew : d = a.socket
    · exact ⟨hnew, hnew ▸ hne⟩
    · -- what was open before is the old descriptor, and that is closed now
      exfalso
      by_cases hold : d = fd ∧ d ≠ -1
      · obtain ⟨rfl, hfd⟩ := hold
        exact hd (os_listening_old hfd)
      · refine hold (h.only d ?_)
        simp only [listening] at hd
        split_ifs at hd with hfd
        · rwa [Function.update_of_ne hnew] at hd
        · by_cases hd' : d = fd
          · rw [hd', Function.update_self] at hd
            exact absurd rfl hd
          · rwa [Function.update_of_ne hd', Function.update_of_ne hnew] at hd

/-- One call that comes back keeps it. -/
theorem listening_step {s' : ServerState}
    {tr : List (Transition ServerState ListenAction ServerEvent)} (h : Listening s fd)
    (hp : a.Possible s) (hexec : serverSystem.exec s (serverListen a).1 = some (tr, s')) :
    ∃ fd', Listening s' fd' := by
  by_cases hget : a.getaddrinfo = 0 ∨ a.getaddrinfo = -1
  · by_cases hsucc : a.Succeeds
    · obtain ⟨_, hrun, -⟩ := exec_succeeded h.ready hp hsucc
      rw [hrun] at hexec
      obtain ⟨-, rfl⟩ := Prod.mk.inj (Option.some.inj hexec)
      exact ⟨_, h.succeeded hp hsucc.2.1⟩
    · obtain ⟨_, m, n, _, _, hrun, -⟩ := exec_failed h.ready hp hget hsucc
      rw [hrun] at hexec
      obtain ⟨-, rfl⟩ := Prod.mk.inj (Option.some.inj hexec)
      exact ⟨fd, h.failed m n⟩
  · obtain ⟨h0, h1⟩ := not_or.1 hget
    rw [exec_nullResult h0 h1] at hexec
    cases hexec

theorem listening_retries (h : Retries s) : ∃ fd, Listening s fd := by
  induction h with
  | start => exact ⟨-1, listening_initial⟩
  | again _ hp hexec ih =>
    obtain ⟨fd, hl⟩ := ih
    exact listening_step hl hp hexec

/-- **Server start-up is atomic** exactly where `getaddrinfo` returns 0 or -1. After any number
of calls at most one descriptor is open, the one that `socket_ipv4` holds; and from there the
next call is atomic, or is no call that comes back, by the same condition. -/
theorem listen_atomic_iff (s : ServerState) :
    (∀ fd a, ServerReady s fd → a.Possible s →
      (ListenAtomic s fd a ↔ a.getaddrinfo = 0 ∨ a.getaddrinfo = -1)) ∧
    (Retries s →
      (∀ d d', s.sockets.os d ≠ none → s.sockets.os d' ≠ none → d = d') ∧
      ∃ fd, ServerReady s fd ∧ (∀ d, s.sockets.os d ≠ none → d = fd) ∧
        ∀ a, a.Possible s →
          ((∃ s', Retries s' ∧ ∃ tr, serverSystem.exec s (serverListen a).1 = some (tr, s') ∧
            AtomicCall s s' (history tr) a fd (serverListen a).2) ↔
          a.getaddrinfo = 0 ∨ a.getaddrinfo = -1)) := by
  refine ⟨fun fd a hr hp => ?_, fun hs => ?_⟩
  · exact ⟨noticed_of_listenAtomic, listenAtomic_of_noticed hr hp⟩
  · obtain ⟨fd, hl⟩ := listening_retries hs
    refine ⟨fun d d' hd hd' => ?_, fd, hl.ready, fun d hd => (hl.only d hd).1, fun a hp => ?_⟩
    · rw [(hl.only d hd).1, (hl.only d' hd').1]
    · constructor
      · rintro ⟨s', -, tr, hexec, hcall⟩
        exact noticed_of_listenAtomic ⟨tr, s', hexec, hcall⟩
      · intro hget
        obtain ⟨tr, s', hexec, hcall⟩ := listenAtomic_of_noticed hl.ready hp hget
        exact ⟨s', hs.again hp hexec, tr, hexec, hcall⟩

/-- `bind` fails at the first call, and nothing at the second, which is issued the same
descriptor. -/
theorem listen_atomic_retried : ∃ tr s tr' s',
    serverSystem.exec ServerState.initial (serverListen ⟨0, 4, false, true, 98⟩).1 =
      some (tr, s) ∧
    (history tr).filterMap ServerEvent.closes = (history tr).filterMap ServerEvent.opens ∧
    serverSystem.exec s (serverListen ⟨0, 4, true, true, 1⟩).1 = some (tr', s') ∧
    s'.sockets.objects serverSocket = some 4 ∧ s'.sockets.os 4 ≠ none ∧
    ∀ d, s'.sockets.os d ≠ none → d = 4 := by
  have hp : ListenAnswers.Possible ⟨0, 4, false, true, 98⟩ ServerState.initial :=
    ⟨Or.inr ⟨by decide, rfl⟩, by decide⟩
  have hatomic := ((listen_atomic_iff _).1 _ _ listening_initial.ready hp).2 (Or.inl rfl)
  obtain ⟨tr, s, hexec, hcall⟩ := hatomic
  have hfail : ¬ListenAnswers.Succeeds ⟨0, 4, false, true, 98⟩ := by
    rintro ⟨-, -, hbind, -⟩
    cases hbind
  obtain ⟨-, hobjects, hos, hcloses, -⟩ := hcall.failed hfail
  have hs : Retries s := Retries.start.again hp hexec
  obtain ⟨-, fd, hready, -, hnext⟩ := (listen_atomic_iff s).2 hs
  have hp' : ListenAnswers.Possible ⟨0, 4, true, true, 1⟩ s := by
    refine ⟨Or.inr ⟨by decide, ?_⟩, by decide⟩
    rw [hos]
    rfl
  obtain ⟨s', hs', tr', hexec', hcall'⟩ := (hnext _ hp').2 (Or.inl rfl)
  obtain ⟨-, hserver, -, hopen, -⟩ := hcall'.succeeded ⟨rfl, by decide, rfl, rfl⟩
  have hlive : s'.sockets.os 4 ≠ none := by
    rw [hopen]
    exact Option.some_ne_none _
  refine ⟨tr, s, tr', s', hexec, hcloses, hexec', ?_, hlive, fun d hd => ?_⟩
  · rw [hserver, Function.update_self]
  · exact ((listen_atomic_iff s').2 hs').1 d 4 hd hlive

/-- `getaddrinfo` is out of memory (203) at the first call, and `result` is null. -/
theorem listen_null_result :
    ServerReady ServerState.initial (-1) ∧
      ListenAnswers.Possible ⟨203, 4, true, true, 12⟩ ServerState.initial ∧
      serverSystem.exec ServerState.initial (serverListen ⟨203, 4, true, true, 12⟩).1 = none ∧
      ¬ListenAtomic ServerState.initial (-1) ⟨203, 4, true, true, 12⟩ := by
  have hcrash : serverSystem.exec ServerState.initial
      (serverListen ⟨203, 4, true, true, 12⟩).1 = none :=
    exec_nullResult (by decide) (by decide)
  refine ⟨listening_initial.ready, ⟨Or.inr ⟨by decide, rfl⟩, by decide⟩, hcrash, ?_⟩
  intro hatomic
  have hget := noticed_of_listenAtomic hatomic
  exact absurd hget (by decide)

/-! ### The sockets of `listen` -/

/-- How far the call comes. -/
def ListenAnswers.outcome (a : ListenAnswers) : ListenOutcome :=
  if a.getaddrinfo = -1 then .noAddress
  else if a.socket = -1 then .noSocket
  else if a.bind = false then .notBound a.socket
  else if a.listen = false then .notListening a.socket
  else .listening a.socket

/-- The calls of class `socket` among the steps of `listen`. -/
def ListenAction.socketCall : ListenAction → Option SocketCall
  | .call c => some c
  | _ => none

/-- **`listen` treats sockets as `network_task` has it.** -/
theorem serverListen_socketCalls (a : ListenAnswers) :
    (serverListen a).1.filterMap ListenAction.socketCall = listen a.outcome := by
  unfold serverListen ListenAnswers.outcome
  split_ifs with hget hs hbind hlisten
  · rfl
  · rw [hs]
    rfl
  · rfl
  · rfl
  · rfl

end Pcrb
