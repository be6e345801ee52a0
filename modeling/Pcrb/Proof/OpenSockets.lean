import Mathlib.Data.Finset.Card
import Pcrb.Proof.Ownership

/-!
# How many sockets `network_task` has open

`SocketCall.holders` follows which objects may own a descriptor, from the calls alone, and `peak`
is how many of them there are at most on the way. Every part of `network_task` starts and ends
with nothing but the socket of the server, and needs one more in between.

* `sockets_bounded`: at every point of `network_task` at most two descriptors are open, and at a
  call of `accept` at most one.
-/

namespace Pcrb

open Lts

variable {s s' : Sockets} {c : SocketCall} {cs cs' : List SocketCall} {es : List SocketEvent}
  {tr : List (Transition Sockets SocketCall SocketEvent)} {H : Finset ℕ}

/-- The objects that may own a descriptor after a call. -/
def SocketCall.holders (H : Finset ℕ) : SocketCall → Finset ℕ
  | .socket object fd => if fd = -1 then H else insert object H
  | .moveConstruct object source => if source ∈ H then insert object (H.erase source) else H
  | .moveAssign object source => H.image (Equiv.swap object source)
  | .close object | .destroy object => H.erase object
  | .default _ | .get _ | .shutdown _ => H

/-- Every object that owns a descriptor is among the holders. -/
def Sockets.HeldBy (s : Sockets) (H : Finset ℕ) : Prop :=
  ∀ o fd, s.objects o = some fd → fd ≠ -1 → o ∈ H

/-- An object that is set to own nothing. -/
theorem heldBy_put {o : ℕ} {v : Option ℤ} (h : s.HeldBy H) (hv : Invalid v) :
    (s.setObject o v).HeldBy (H.erase o) := by
  intro o' fd ho' hfd
  obtain ⟨hne, hold⟩ := ne_of_invalid hv hfd ho'
  exact Finset.mem_erase.2 ⟨hne, h o' fd hold hfd⟩

theorem Sockets.HeldBy.mono {H' : Finset ℕ} (h : s.HeldBy H) (hsub : H ⊆ H') : s.HeldBy H' :=
  fun o fd ho hfd => hsub (h o fd ho hfd)

/-- **One call.** -/
theorem heldBy_step (hs : sockets.step s c = some (s', es)) (h : s.HeldBy H) :
    s'.HeldBy (c.holders H) := by
  cases socketStep_of_eq hs with
  | default _ => exact (heldBy_put h invalid_some).mono (Finset.erase_subset _ _)
  | socketInvalid _ => exact (heldBy_put h invalid_some).mono (Finset.erase_subset _ _)
  | @socket x d _ hd _ =>
    rw [SocketCall.holders, if_neg hd]
    intro o fd ho hfd
    rcases eq_or_ne o x with rfl | hne
    · exact Finset.mem_insert_self _ _
    · rw [objects_setObject_ne hne] at ho
      exact Finset.mem_insert_of_mem (h o fd ho hfd)
  | @moveConstruct x y d hx hy =>
    intro o fd ho hfd
    obtain ⟨hne, ho⟩ := ne_of_invalid invalid_some hfd ho
    rw [SocketCall.holders]
    rcases eq_or_ne o x with rfl | hox
    · -- it owns what the source owned
      rw [objects_setObject_self] at ho
      rw [if_pos (h y fd (hy.trans ho) hfd)]
      exact Finset.mem_insert_self _ _
    · rw [objects_setObject_ne hox] at ho
      have hmem := h o fd ho hfd
      split
      · exact Finset.mem_insert_of_mem (Finset.mem_erase.2 ⟨hne, hmem⟩)
      · exact hmem
  | @moveAssign x y d d' hx hy =>
    intro o fd ho hfd
    rw [SocketCall.holders, Finset.mem_image]
    rcases eq_or_ne o y with rfl | hoy
    · rw [objects_setObject_self] at ho
      exact ⟨x, h x fd (hx.trans ho) hfd, Equiv.swap_apply_left _ _⟩
    · rw [objects_setObject_ne hoy] at ho
      rcases eq_or_ne o x with rfl | hox
      · rw [objects_setObject_self] at ho
        exact ⟨y, h y fd (hy.trans ho) hfd, Equiv.swap_apply_right _ _⟩
      · rw [objects_setObject_ne hox] at ho
        exact ⟨o, h o fd ho hfd, Equiv.swap_apply_of_ne_of_ne hox hoy⟩
  | get _ | shutdown _ => exact h
  | @close x d _ =>
    refine heldBy_put (fun o fd ho hfd => ?_) invalid_some
    rw [objects_osClose] at ho
    exact h o fd ho hfd
  | destroyInvalid _ => exact heldBy_put h invalid_none
  | @destroy x d _ _ =>
    refine heldBy_put (fun o fd ho hfd => ?_) invalid_none
    rw [objects_osClose] at ho
    exact h o fd ho hfd

theorem heldBy_exec (hexec : sockets.exec s cs = some (tr, s')) (h : s.HeldBy H) :
    s'.HeldBy (cs.foldl SocketCall.holders H) := by
  induction cs generalizing s H tr with
  | nil =>
    cases hexec
    exact h
  | cons c cs ih =>
    obtain ⟨s₁, es, tr₁, hs, hrest, -⟩ := System.exec_cons_iff.1 hexec
    exact ih hrest (heldBy_step hs h)

/-- **The open descriptors** are no more than the holders. -/
theorem card_le_of_heldBy (ho : Owned s) (h : s.HeldBy H) {F : Finset ℤ}
    (hF : ∀ fd ∈ F, s.os fd ≠ none) : F.card ≤ H.card := by
  have hsub : F ⊆ H.image fun o => (s.objects o).getD (-1) := by
    intro fd hfd
    obtain ⟨k, hk⟩ := Option.ne_none_iff_exists'.1 (hF fd hfd)
    obtain ⟨o, howner⟩ := ho.owner fd k hk
    refine Finset.mem_image.2 ⟨o, h o fd howner (ho.issued fd k hk).1, ?_⟩
    rw [howner, Option.getD_some]
  exact (Finset.card_le_card hsub).trans Finset.card_image_le

/-! ### The way through `network_task` -/

/-- How many holders there are at most, at any point of a sequence of calls. -/
def peak (H : Finset ℕ) : List SocketCall → ℕ
  | [] => H.card
  | c :: cs => max H.card (peak (c.holders H) cs)

theorem card_le_peak (H : Finset ℕ) (cs : List SocketCall) : H.card ≤ peak H cs := by
  cases cs with
  | nil => exact le_rfl
  | cons c cs => exact le_max_left _ _

theorem peak_append (H : Finset ℕ) (cs cs' : List SocketCall) :
    peak H (cs ++ cs') = max (peak H cs) (peak (cs.foldl SocketCall.holders H) cs') := by
  induction cs generalizing H with
  | nil =>
    rw [List.nil_append, peak, List.foldl_nil]
    exact (max_eq_right (card_le_peak H cs')).symm
  | cons c cs ih => rw [List.cons_append, peak, peak, ih, List.foldl_cons, max_assoc]

theorem card_foldl_le_peak (h : cs <+: cs') :
    (cs.foldl SocketCall.holders H).card ≤ peak H cs' := by
  obtain ⟨rest, rfl⟩ := h
  rw [peak_append]
  exact (card_le_peak _ rest).trans (le_max_right _ _)

/-- A part of `network_task` that starts and ends with the socket of the server alone, and needs
one more at most. -/
def OneMore (cs : List SocketCall) : Prop :=
  ∀ H ⊆ {serverSocket}, peak H cs ≤ 2 ∧ cs.foldl SocketCall.holders H ⊆ {serverSocket}

theorem oneMore_flatMap {α : Type*} {part : α → List SocketCall} (h : ∀ a, OneMore (part a))
    (l : List α) : OneMore (l.flatMap part) := by
  induction l with
  | nil =>
    intro H hH
    have hcard := Finset.card_le_card hH
    rw [Finset.card_singleton] at hcard
    exact ⟨hcard.trans (by omega), hH⟩
  | cons a l ih =>
    intro H hH
    obtain ⟨hpeak, hend⟩ := h a H hH
    obtain ⟨hpeak', hend'⟩ := ih _ hend
    rw [List.flatMap_cons, peak_append, List.foldl_append]
    exact ⟨max_le hpeak hpeak', hend'⟩

theorem OneMore.append (h : OneMore cs) (h' : OneMore cs') : OneMore (cs ++ cs') := by
  intro H hH
  obtain ⟨hpeak, hend⟩ := h H hH
  obtain ⟨hpeak', hend'⟩ := h' _ hend
  rw [peak_append, List.foldl_append]
  exact ⟨max_le hpeak hpeak', hend'⟩

/-- The server has no socket yet, or it has one. -/
theorem oneMore_of_cases
    (hnone : peak ∅ cs ≤ 2 ∧ cs.foldl SocketCall.holders ∅ ⊆ {serverSocket})
    (hone : peak {serverSocket} cs ≤ 2 ∧
      cs.foldl SocketCall.holders {serverSocket} ⊆ {serverSocket}) : OneMore cs := by
  intro H hH
  rcases Finset.subset_singleton_iff.1 hH with rfl | rfl
  · exact hnone
  · exact hone

/-- `listen` opens one, and gives it to the server or closes it. -/
theorem oneMore_listen (outcome : ListenOutcome) : OneMore (listen outcome) := by
  cases outcome with
  | noAddress | noSocket => exact oneMore_of_cases (by decide) (by decide)
  | notBound fd | notListening fd | listening fd =>
    by_cases hfd : fd = -1
    · subst hfd
      exact oneMore_of_cases (by decide) (by decide)
    · refine oneMore_of_cases ?_ ?_ <;>
        simp only [listen, List.foldl_cons, List.foldl_nil, peak, SocketCall.holders, if_neg hfd] <;>
        decide

theorem foldl_gets (H : Finset ℕ) (o n : ℕ) :
    (List.replicate n (.get o)).foldl SocketCall.holders H = H := by
  induction n with
  | zero => rfl
  | succ n ih => exact ih

theorem peak_gets (H : Finset ℕ) (o n : ℕ) : peak H (List.replicate n (.get o)) = H.card := by
  induction n with
  | zero => rfl
  | succ n ih =>
    rw [List.replicate_succ, peak, SocketCall.holders, ih, max_self]

/-- A turn opens one, moves it to the handler, and closes it. -/
theorem oneMore_networkTurn (outcome : AcceptOutcome) : OneMore (networkTurn outcome) := by
  cases outcome with
  | failed => exact oneMore_of_cases (by decide) (by decide)
  | accepted fd calls =>
    by_cases hfd : fd = -1
    · subst hfd
      refine oneMore_of_cases ?_ ?_ <;>
        simp only [networkTurn, accept, serveRequest, constructHandler, peak_append,
          List.foldl_append, peak_gets, foldl_gets, peak, List.foldl_cons, List.foldl_nil,
          SocketCall.holders] <;>
        decide
    · refine oneMore_of_cases ?_ ?_ <;>
        simp only [networkTurn, accept, serveRequest, constructHandler, peak_append,
          List.foldl_append, peak_gets, foldl_gets, peak, List.foldl_cons, List.foldl_nil,
          SocketCall.holders, if_neg hfd] <;>
        decide

theorem oneMore_networkTask (listens : List ListenOutcome) (outcomes : List AcceptOutcome) :
    OneMore (networkTask listens outcomes) := by
  have hstart : OneMore [.default serverSocket] := oneMore_of_cases (by decide) (by decide)
  have hlisten := oneMore_flatMap oneMore_listen listens
  have hturns := oneMore_flatMap oneMore_networkTurn outcomes
  exact (hstart.append hlisten).append hturns

/-- **Two sockets are enough.** However often `listen` and `accept` fail, however many clients
come and however their requests end: at every point of `network_task` at most two descriptors
are open, and at a call of `accept` at most one. -/
theorem sockets_bounded {s₀ : Sockets} (h0 : sockets.init s₀) {listens : List ListenOutcome}
    {outcomes : List AcceptOutcome} (hpre : cs <+: networkTask listens outcomes)
    (hexec : sockets.exec s₀ cs = some (tr, s)) {F : Finset ℤ} (hF : ∀ fd ∈ F, s.os fd ≠ none) :
    F.card ≤ 2 ∧ (cs = networkTask listens outcomes → F.card ≤ 1) := by
  have howned : Owned s := (owned_ledger_run h0 (System.run_of_exec hexec)).1
  have hheld : s.HeldBy (cs.foldl SocketCall.holders ∅) := by
    refine heldBy_exec hexec fun o fd ho _ => ?_
    obtain rfl : s₀ = Sockets.initial := h0
    cases ho
  have hcard := card_le_of_heldBy howned hheld hF
  obtain ⟨hpeak, hend⟩ := oneMore_networkTask listens outcomes ∅ (Finset.empty_subset _)
  constructor
  · exact hcard.trans ((card_foldl_le_peak hpre).trans hpeak)
  · rintro rfl
    have hone := Finset.card_le_card hend
    rw [Finset.card_singleton] at hone
    exact hcard.trans hone

/-- A first `listen` that fails, a second one that does not, and a client in the middle of its
request. -/
theorem sockets_bounded_client : ∃ tr s, sockets.exec Sockets.initial
      ((networkTask [.notBound 3, .listening 3] [.accepted 5 2]).take 19) = some (tr, s) ∧
    (∀ fd ∈ ({3, 5} : Finset ℤ), s.os fd ≠ none) ∧ ({3, 5} : Finset ℤ).card ≤ 2 := by
  have hrun : ((sockets.exec Sockets.initial
      ((networkTask [.notBound 3, .listening 3] [.accepted 5 2]).take 19)).any
        fun r => decide (∀ fd ∈ ({3, 5} : Finset ℤ), r.2.os fd ≠ none)) = true := by
    decide +kernel
  obtain ⟨⟨tr, s⟩, hexec, hopen⟩ := (Option.any_eq_true _ _).1 hrun
  have hF := of_decide_eq_true hopen
  exact ⟨tr, s, hexec, hF, (sockets_bounded rfl (List.take_prefix _ _) hexec hF).1⟩

end Pcrb
