import Mathlib.Data.List.Nodup
import Mathlib.Logic.Equiv.Basic
import Mathlib.Tactic.IntervalCases
import Pcrb.Spec.Socket

/-!
# Linear ownership of sockets

`Owned` is the invariant of the class: the open descriptors and the objects that hold
one correspond one to one. Move construction and move assignment only permute the
objects (`Owned.permute`), so the target's old descriptor lives on in the source; a
close takes a descriptor from the one object that holds it (`Owned.release`).

`Ledger` counts connections, not numbers, so an issued-again number is a new one.
`sockets_owned`: over any run of calls every connection is closed at most once, by its
owner, and those that are not open any more have been; and a turn of `network_task`
closes the connection that it accepts (`exec_networkTurn`).
-/

namespace Pcrb

open Lts

/-- **The invariant.** -1 is no descriptor, and an object that holds it owns nothing. -/
structure Owned (s : Sockets) : Prop where
  owner : ∀ fd k, s.os fd = some k → ∃ o, s.objects o = some fd
  unique : ∀ o o' fd, fd ≠ -1 → s.objects o = some fd → s.objects o' = some fd → o = o'
  live : ∀ o fd, s.objects o = some fd → fd ≠ -1 → ∃ k, s.os fd = some k
  issued : ∀ fd k, s.os fd = some k → fd ≠ -1 ∧ k < s.next
  fresh : ∀ fd fd' k, s.os fd = some k → s.os fd' = some k → fd = fd'

/-- The value of an object that is gone, or holds no descriptor. -/
def Invalid (v : Option ℤ) : Prop := ∀ fd, v = some fd → fd = -1

theorem invalid_none : Invalid none := nofun

theorem invalid_some : Invalid (some (-1)) := fun _ h => (Option.some.inj h).symm

variable {s s' : Sockets} {c : SocketCall} {es hist : List SocketEvent} {o : ℕ} {fd : ℤ}
  {v : Option ℤ} {k : ℕ} {tr : List (Transition Sockets SocketCall SocketEvent)}

theorem objects_setObject_self : (s.setObject o v).objects o = v := Function.update_self ..

theorem objects_setObject_ne {o' : ℕ} (h : o' ≠ o) :
    (s.setObject o v).objects o' = s.objects o' := by
  have h' := Function.update_of_ne h v s.objects
  exact h'

/-- An object that is invalid afterwards owns nothing. -/
theorem ne_of_invalid {o' : ℕ} (hv : Invalid v) (hfd : fd ≠ -1)
    (h : (s.setObject o v).objects o' = some fd) : o' ≠ o ∧ s.objects o' = some fd := by
  rcases eq_or_ne o' o with rfl | hne
  · rw [objects_setObject_self] at h
    exact absurd (hv fd h) hfd
  · exact ⟨hne, by rwa [objects_setObject_ne hne] at h⟩

namespace Owned

/-- An object that owns nothing may come, go or be set to -1. -/
theorem put_invalid (h : Owned s) (ho : Invalid (s.objects o)) (hv : Invalid v) :
    Owned (s.setObject o v) where
  owner fd k hk := by
    obtain ⟨o', ho'⟩ := h.owner fd k hk
    have hne : o' ≠ o := by
      rintro rfl
      exact (h.issued fd k hk).1 (ho fd ho')
    exact ⟨o', by rw [objects_setObject_ne hne]; exact ho'⟩
  unique o₁ o₂ fd hfd h₁ h₂ :=
    h.unique o₁ o₂ fd hfd (ne_of_invalid hv hfd h₁).2 (ne_of_invalid hv hfd h₂).2
  live o' fd h' hfd := h.live o' fd (ne_of_invalid hv hfd h').2 hfd
  issued := h.issued
  fresh := h.fresh

/-- Objects may exchange their descriptors. -/
theorem permute (h : Owned s) (σ : Equiv.Perm ℕ) :
    Owned { s with objects := s.objects ∘ σ } where
  owner fd k hk := by
    obtain ⟨o, ho⟩ := h.owner fd k hk
    exact ⟨σ.symm o, by simpa using ho⟩
  unique o₁ o₂ fd hfd h₁ h₂ := σ.injective (h.unique (σ o₁) (σ o₂) fd hfd h₁ h₂)
  live o fd ho hfd := h.live (σ o) fd ho hfd
  issued := h.issued
  fresh := h.fresh

theorem swap (h : Owned s) {o' : ℕ} {fd' : ℤ} (ho : s.objects o = some fd)
    (ho' : s.objects o' = some fd') :
    Owned ((s.setObject o (some fd')).setObject o' (some fd)) := by
  have hp := h.permute (Equiv.swap o' o)
  rw [Equiv.comp_swap_eq_update, ho, ho'] at hp
  exact hp

/-- A descriptor just issued goes to an object that owned nothing. -/
theorem acquire (h : Owned s) (ho : Invalid (s.objects o)) (hfd : fd ≠ -1)
    (hos : s.os fd = none) : Owned ((s.osOpen fd).setObject o (some fd)) := by
  have hopen : ∀ fd' k, (s.osOpen fd).os fd' = some k →
      (fd' = fd ∧ k = s.next) ∨ (fd' ≠ fd ∧ s.os fd' = some k) := by
    intro fd' k hk
    change Function.update s.os fd (some s.next) fd' = some k at hk
    rcases eq_or_ne fd' fd with rfl | hne
    · rw [Function.update_self] at hk
      exact Or.inl ⟨rfl, (Option.some.inj hk).symm⟩
    · rw [Function.update_of_ne hne] at hk
      exact Or.inr ⟨hne, hk⟩
  -- nobody held the number before
  have hno : ∀ o', s.objects o' ≠ some fd := by
    intro o' ho'
    obtain ⟨k, hk⟩ := h.live o' fd ho' hfd
    rw [hos] at hk
    cases hk
  have hobj : ∀ o' fd', ((s.osOpen fd).setObject o (some fd)).objects o' = some fd' →
      (o' = o ∧ fd' = fd) ∨ (o' ≠ o ∧ s.objects o' = some fd') := by
    intro o' fd' ho'
    rcases eq_or_ne o' o with rfl | hne
    · rw [objects_setObject_self] at ho'
      exact Or.inl ⟨rfl, (Option.some.inj ho').symm⟩
    · rw [objects_setObject_ne hne] at ho'
      exact Or.inr ⟨hne, ho'⟩
  refine ⟨fun fd' k hk => ?_, fun o₁ o₂ fd' hfd' h₁ h₂ => ?_, fun o' fd' ho' hfd' => ?_,
    fun fd' k hk => ?_, fun fd₁ fd₂ k h₁ h₂ => ?_⟩
  · rcases hopen fd' k hk with ⟨rfl, -⟩ | ⟨-, hold⟩
    · exact ⟨o, objects_setObject_self⟩
    · obtain ⟨o', ho'⟩ := h.owner fd' k hold
      have hne : o' ≠ o := by
        rintro rfl
        exact (h.issued fd' k hold).1 (ho fd' ho')
      exact ⟨o', by rw [objects_setObject_ne hne]; exact ho'⟩
  · rcases hobj _ _ h₁ with ⟨ho₁, he₁⟩ | ⟨-, hold₁⟩
    · rcases hobj _ _ h₂ with ⟨ho₂, -⟩ | ⟨-, hold₂⟩
      · rw [ho₁, ho₂]
      · exact absurd hold₂ (he₁ ▸ hno o₂)
    · rcases hobj _ _ h₂ with ⟨-, he₂⟩ | ⟨-, hold₂⟩
      · exact absurd hold₁ (he₂ ▸ hno o₁)
      · exact h.unique _ _ _ hfd' hold₁ hold₂
  · rcases hobj _ _ ho' with ⟨-, rfl⟩ | ⟨-, hold⟩
    · exact ⟨s.next, Function.update_self ..⟩
    · have hne : fd' ≠ fd := by
        rintro rfl
        exact hno _ hold
      obtain ⟨k, hk⟩ := h.live o' fd' hold hfd'
      have hk' : Function.update s.os fd (some s.next) fd' = some k := by
        rwa [Function.update_of_ne hne]
      exact ⟨k, hk'⟩
  · rcases hopen fd' k hk with ⟨rfl, rfl⟩ | ⟨-, hold⟩
    · exact ⟨hfd, Nat.lt_succ_self _⟩
    · obtain ⟨h1, h2⟩ := h.issued fd' k hold
      exact ⟨h1, Nat.lt_succ_of_lt h2⟩
  · rcases hopen fd₁ k h₁ with ⟨he₁, hk₁⟩ | ⟨-, hold₁⟩
    · rcases hopen fd₂ k h₂ with ⟨he₂, -⟩ | ⟨-, hold₂⟩
      · rw [he₁, he₂]
      · exact absurd (h.issued _ _ hold₂).2 (hk₁ ▸ lt_irrefl _)
    · rcases hopen fd₂ k h₂ with ⟨-, hk₂⟩ | ⟨-, hold₂⟩
      · exact absurd (h.issued _ _ hold₁).2 (hk₂ ▸ lt_irrefl _)
      · exact h.fresh _ _ _ hold₁ hold₂

/-- A close takes the descriptor from the object that owns it. -/
theorem release (h : Owned s) (ho : s.objects o = some fd) (hv : Invalid v) (hfd : fd ≠ -1) :
    Owned ({ s with os := Function.update s.os fd none }.setObject o v) := by
  have hopen : ∀ fd' k, Function.update s.os fd none fd' = some k →
      fd' ≠ fd ∧ s.os fd' = some k := by
    intro fd' k hk
    rcases eq_or_ne fd' fd with rfl | hne
    · rw [Function.update_self] at hk
      cases hk
    · exact ⟨hne, by rwa [Function.update_of_ne hne] at hk⟩
  refine ⟨fun fd' k hk => ?_, fun o₁ o₂ fd' hfd' h₁ h₂ => ?_, fun o' fd' ho' hfd' => ?_,
    fun fd' k hk => h.issued fd' k (hopen fd' k hk).2,
    fun fd₁ fd₂ k h₁ h₂ => h.fresh fd₁ fd₂ k (hopen fd₁ k h₁).2 (hopen fd₂ k h₂).2⟩
  · obtain ⟨hne, hk⟩ := hopen fd' k hk
    obtain ⟨o', ho'⟩ := h.owner fd' k hk
    have hne' : o' ≠ o := by
      rintro rfl
      rw [ho] at ho'
      exact hne (Option.some.inj ho').symm
    exact ⟨o', by rw [objects_setObject_ne hne']; exact ho'⟩
  · exact h.unique o₁ o₂ fd' hfd' (ne_of_invalid hv hfd' h₁).2 (ne_of_invalid hv hfd' h₂).2
  · obtain ⟨hne, hold⟩ := ne_of_invalid hv hfd' ho'
    have hne' : fd' ≠ fd := by
      rintro rfl
      exact hne (h.unique o' o fd' hfd hold ho)
    obtain ⟨k, hk⟩ := h.live o' fd' hold hfd'
    have hk' : Function.update s.os fd none fd' = some k := by
      rwa [Function.update_of_ne hne']
    exact ⟨k, hk'⟩

end Owned

/-! ### What one call does -/

/-- The calls, with what they need and what they leave. -/
inductive SocketStep (s : Sockets) : SocketCall → Sockets → List SocketEvent → Prop
  | default {x} : s.objects x = none →
      SocketStep s (.default x) (s.setObject x (some (-1))) []
  | socketInvalid {x} : s.objects x = none →
      SocketStep s (.socket x (-1)) (s.setObject x (some (-1))) []
  | socket {x d} : s.objects x = none → d ≠ -1 → s.os d = none →
      SocketStep s (.socket x d) ((s.osOpen d).setObject x (some d)) [.opened s.next]
  | moveConstruct {x y d} : s.objects x = none → s.objects y = some d →
      SocketStep s (.moveConstruct x y) ((s.setObject x (some d)).setObject y (some (-1))) []
  | moveAssign {x y d d'} : s.objects x = some d → s.objects y = some d' →
      SocketStep s (.moveAssign x y) ((s.setObject x (some d')).setObject y (some d)) []
  | get {x d} : s.objects x = some d → SocketStep s (.get x) s [.used d]
  | shutdown {x d} : s.objects x = some d → SocketStep s (.shutdown x) s [.shutdown d]
  | close {x d} : s.objects x = some d →
      SocketStep s (.close x) ((s.osClose x d).1.setObject x (some (-1))) (s.osClose x d).2
  | destroyInvalid {x} : s.objects x = some (-1) → SocketStep s (.destroy x) (s.setObject x none) []
  | destroy {x d} : s.objects x = some d → d ≠ -1 →
      SocketStep s (.destroy x) ((s.osClose x d).1.setObject x none)
        (.shutdown d :: (s.osClose x d).2)

theorem socketStep_of_eq (hs : sockets.step s c = some (s', es)) : SocketStep s c s' es := by
  change s.step c = some (s', es) at hs
  unfold Sockets.step at hs
  cases c with
  | default o =>
    cases ho : s.objects o with
    | some _ => simp [ho] at hs
    | none =>
      simp only [ho, Option.some.injEq, Prod.mk.injEq] at hs
      obtain ⟨rfl, rfl⟩ := hs
      exact .default ho
  | socket o fd =>
    cases ho : s.objects o with
    | some _ => simp [ho] at hs
    | none =>
      simp only [ho] at hs
      split_ifs at hs with hfd hos
      · simp only [Option.some.injEq, Prod.mk.injEq] at hs
        obtain ⟨rfl, rfl⟩ := hs
        exact hfd ▸ .socketInvalid ho
      · simp only [Option.some.injEq, Prod.mk.injEq] at hs
        obtain ⟨rfl, rfl⟩ := hs
        exact .socket ho hfd hos.2
  | moveConstruct o source =>
    cases ho : s.objects o with
    | some _ => simp [ho] at hs
    | none =>
      cases hsrc : s.objects source with
      | none => simp [ho, hsrc] at hs
      | some fd =>
        simp only [ho, hsrc, Option.some.injEq, Prod.mk.injEq] at hs
        obtain ⟨rfl, rfl⟩ := hs
        exact .moveConstruct ho hsrc
  | moveAssign o source =>
    cases ho : s.objects o with
    | none => simp [ho] at hs
    | some fd =>
      cases hsrc : s.objects source with
      | none => simp [ho, hsrc] at hs
      | some fd' =>
        simp only [ho, hsrc, Option.some.injEq, Prod.mk.injEq] at hs
        obtain ⟨rfl, rfl⟩ := hs
        exact .moveAssign ho hsrc
  | get o =>
    obtain ⟨fd, ho, he⟩ := Option.map_eq_some_iff.1 hs
    obtain ⟨rfl, rfl⟩ := Prod.mk.inj he
    exact .get ho
  | shutdown o =>
    obtain ⟨fd, ho, he⟩ := Option.map_eq_some_iff.1 hs
    obtain ⟨rfl, rfl⟩ := Prod.mk.inj he
    exact .shutdown ho
  | close o =>
    obtain ⟨fd, ho, he⟩ := Option.map_eq_some_iff.1 hs
    obtain ⟨rfl, rfl⟩ := Prod.mk.inj he
    exact .close ho
  | destroy o =>
    obtain ⟨fd, ho, he⟩ := Option.map_eq_some_iff.1 hs
    split_ifs at he with hfd
    · obtain ⟨rfl, rfl⟩ := Prod.mk.inj he
      exact .destroyInvalid (hfd ▸ ho)
    · obtain ⟨rfl, rfl⟩ := Prod.mk.inj he
      exact .destroy ho hfd

/-- What a call does at the operating system: it opens a number that was free, closes the
descriptor of the object it is a call of, or leaves what is open alone. -/
inductive OsEffect (s s' : Sockets) : List SocketEvent → Prop
  | quiet {u} : s'.os = s.os → s'.next = s.next →
      (∀ e ∈ u, e.opens = none ∧ e.closes = none ∧ ∀ d, e = .badClose d → d = -1) →
      OsEffect s s' u
  | opens {d} : s.os d = none → s'.os = Function.update s.os d (some s.next) →
      s'.next = s.next + 1 → OsEffect s s' [.opened s.next]
  | closes {x d n p} : s.objects x = some d → s.os d = some n →
      s'.os = Function.update s.os d none → s'.next = s.next →
      (∀ e ∈ p, e = .shutdown d) → OsEffect s s' (p ++ [.closed x d n])

/-- `::close`, on the descriptor of the object that owns it. -/
theorem osClose_of_open (hk : s.os fd = some k) : s.osClose o fd =
    ({ s with os := Function.update s.os fd none }, [.closed o fd k]) := by
  rw [Sockets.osClose, hk]

/-- `::close`, on -1. -/
theorem Owned.osClose_invalid (h : Owned s) : s.osClose o (-1) = (s, [.badClose (-1)]) := by
  have hos : s.os (-1) = none := by
    refine Option.eq_none_iff_forall_ne_some.2 fun k hk => ?_
    exact (h.issued (-1) k hk).1 rfl
  rw [Sockets.osClose, hos]

/-- **One call keeps the invariant.** -/
theorem socket_step (h : Owned s) (hs : sockets.step s c = some (s', es)) :
    Owned s' ∧ OsEffect s s' es := by
  cases socketStep_of_eq hs with
  | default ho =>
    exact ⟨h.put_invalid (ho ▸ invalid_none) invalid_some, .quiet rfl rfl nofun⟩
  | socketInvalid ho =>
    exact ⟨h.put_invalid (ho ▸ invalid_none) invalid_some, .quiet rfl rfl nofun⟩
  | socket ho hfd hos =>
    exact ⟨h.acquire (ho ▸ invalid_none) hfd hos, .opens hos rfl rfl⟩
  | @moveConstruct o source fd ho hsrc =>
    -- the object is first made with -1, and then exchanged with the source
    have hne : source ≠ o := by
      rintro rfl
      rw [ho] at hsrc
      cases hsrc
    have hput : Owned (s.setObject o (some (-1))) :=
      h.put_invalid (ho ▸ invalid_none) invalid_some
    have hsrc' : (s.setObject o (some (-1))).objects source = some fd := by
      rw [objects_setObject_ne hne]
      exact hsrc
    have htwice : (s.setObject o (some (-1))).setObject o (some fd) = s.setObject o (some fd) := by
      simp only [Sockets.setObject, Function.update_idem]
    have hswap := hput.swap objects_setObject_self hsrc'
    rw [htwice] at hswap
    exact ⟨hswap, .quiet rfl rfl nofun⟩
  | moveAssign ho hsrc => exact ⟨h.swap ho hsrc, .quiet rfl rfl nofun⟩
  | get _ => exact ⟨h, .quiet rfl rfl (by simp [SocketEvent.opens, SocketEvent.closes])⟩
  | shutdown _ => exact ⟨h, .quiet rfl rfl (by simp [SocketEvent.opens, SocketEvent.closes])⟩
  | @close o fd ho =>
    by_cases hfd : fd = -1
    · -- `::close (-1)` closes nothing
      subst hfd
      rw [h.osClose_invalid]
      have hput : Owned (s.setObject o (some (-1))) :=
        h.put_invalid (ho ▸ invalid_some) invalid_some
      exact ⟨hput, .quiet rfl rfl (by simp [SocketEvent.opens, SocketEvent.closes])⟩
    · obtain ⟨k, hk⟩ := h.live o fd ho hfd
      rw [osClose_of_open hk]
      exact ⟨h.release ho invalid_some hfd, .closes (p := []) ho hk rfl rfl nofun⟩
  | destroyInvalid ho =>
    exact ⟨h.put_invalid (ho ▸ invalid_some) invalid_none, .quiet rfl rfl nofun⟩
  | @destroy o fd ho hfd =>
    obtain ⟨k, hk⟩ := h.live o fd ho hfd
    rw [osClose_of_open hk]
    refine ⟨h.release ho invalid_none hfd, ?_⟩
    exact .closes (p := [.shutdown fd]) ho hk rfl rfl (by simp)

/-! ### The ledger of connections -/

/-- **The ledger.** Connections are numbered as they are opened, none is closed twice, and
the closed ones are those that are not open. -/
structure Ledger (s : Sockets) (hist : List SocketEvent) : Prop where
  opened : hist.filterMap SocketEvent.opens = List.range s.next
  once : (hist.filterMap SocketEvent.closes).Nodup
  closed : ∀ k, k ∈ hist.filterMap SocketEvent.closes ↔ k < s.next ∧ ∀ fd, s.os fd ≠ some k

/-- Events that open and close nothing are not in the ledger. -/
theorem filterMap_quiet {f : SocketEvent → Option ℕ} (h : ∀ e ∈ es, f e = none) :
    es.filterMap f = [] := List.filterMap_eq_nil_iff.2 h

theorem Ledger.step (h : Owned s) (hl : Ledger s hist) (he : OsEffect s s' es) :
    Ledger s' (hist ++ es) := by
  cases he with
  | quiet hos hnext hes =>
    have ho : es.filterMap SocketEvent.opens = [] := filterMap_quiet fun e he => (hes e he).1
    have hc : es.filterMap SocketEvent.closes = [] := filterMap_quiet fun e he => (hes e he).2.1
    refine ⟨?_, ?_, ?_⟩
    · rw [List.filterMap_append, ho, List.append_nil, hnext]
      exact hl.opened
    · rw [List.filterMap_append, hc, List.append_nil]
      exact hl.once
    · rw [List.filterMap_append, hc, List.append_nil, hos, hnext]
      exact hl.closed
  | @opens fd hfree hos hnext =>
    have hc : [SocketEvent.opened s.next].filterMap SocketEvent.closes = [] := rfl
    refine ⟨?_, ?_, fun k => ?_⟩
    · rw [List.filterMap_append, hl.opened, hnext, List.range_succ]
      rfl
    · rw [List.filterMap_append, hc, List.append_nil]
      exact hl.once
    · rw [List.filterMap_append, hc, List.append_nil, hl.closed, hnext, hos]
      constructor
      · rintro ⟨hk, hno⟩
        refine ⟨Nat.lt_succ_of_lt hk, fun fd' h' => ?_⟩
        rcases eq_or_ne fd' fd with rfl | hne
        · rw [Function.update_self] at h'
          exact Nat.ne_of_gt hk (Option.some.inj h')
        · exact hno fd' (by rwa [Function.update_of_ne hne] at h')
      · rintro ⟨hk, hno⟩
        have hne : k ≠ s.next := by
          rintro rfl
          exact hno fd (Function.update_self ..)
        refine ⟨lt_of_le_of_ne (Nat.lt_succ_iff.1 hk) hne, fun fd' h' => ?_⟩
        have hne' : fd' ≠ fd := by
          rintro rfl
          rw [hfree] at h'
          cases h'
        exact hno fd' (by rwa [Function.update_of_ne hne'])
  | @closes o fd k pre ho hk hos hnext hpre =>
    have hnil : ∀ f : SocketEvent → Option ℕ, f (.shutdown fd) = none → pre.filterMap f = [] :=
      fun f hf => filterMap_quiet fun e he => hpre e he ▸ hf
    have hc : (pre ++ [SocketEvent.closed o fd k]).filterMap SocketEvent.closes = [k] := by
      rw [List.filterMap_append, hnil _ rfl]
      rfl
    have hop : (pre ++ [SocketEvent.closed o fd k]).filterMap SocketEvent.opens = [] := by
      rw [List.filterMap_append, hnil _ rfl]
      rfl
    refine ⟨?_, ?_, fun k' => ?_⟩
    · rw [List.filterMap_append, hop, List.append_nil, hnext]
      exact hl.opened
    · -- an open connection has not been closed before
      rw [List.filterMap_append, hc]
      refine List.nodup_append.2 ⟨hl.once, List.nodup_singleton k, ?_⟩
      intro k' hk' k'' hmem heq
      rw [heq, List.mem_singleton.1 hmem] at hk'
      exact ((hl.closed k).1 hk').2 fd hk
    · rw [List.filterMap_append, hc, List.mem_append, hl.closed, List.mem_singleton, hnext, hos]
      constructor
      · rintro (⟨hlt, hno⟩ | rfl)
        · refine ⟨hlt, fun fd' h' => ?_⟩
          rcases eq_or_ne fd' fd with rfl | hne
          · rw [Function.update_self] at h'
            cases h'
          · exact hno fd' (by rwa [Function.update_of_ne hne] at h')
        · refine ⟨(h.issued fd k' hk).2, fun fd' h' => ?_⟩
          rcases eq_or_ne fd' fd with rfl | hne
          · rw [Function.update_self] at h'
            cases h'
          · rw [Function.update_of_ne hne] at h'
            exact hne (h.fresh fd' fd k' h' hk)
      · rintro ⟨hlt, hno⟩
        by_cases hkk : k' = k
        · exact Or.inr hkk
        · refine Or.inl ⟨hlt, fun fd' h' => ?_⟩
          have hne : fd' ≠ fd := by
            rintro rfl
            exact hkk (Option.some.inj (h'.symm.trans hk))
          exact hno fd' (by rwa [Function.update_of_ne hne])

theorem initial_owned : Owned Sockets.initial where
  owner := nofun
  unique := nofun
  live := nofun
  issued := nofun
  fresh := nofun

theorem initial_ledger : Ledger Sockets.initial [] where
  opened := rfl
  once := List.nodup_nil
  closed k := by simp [Sockets.initial]

/-- What any run of calls keeps. -/
theorem owned_ledger_run {s₀ : Sockets} (h0 : sockets.init s₀) (h : sockets.Run s₀ tr s) :
    Owned s ∧ Ledger s (history tr) := by
  refine h.invariant' (P := fun s hist => Owned s ∧ Ledger s hist) ?_ ?_
  · obtain rfl : s₀ = Sockets.initial := h0
    exact ⟨initial_owned, initial_ledger⟩
  · rintro s l s' es hist ⟨ho, hl⟩ hs
    obtain ⟨ho', he⟩ := socket_step ho hs
    exact ⟨ho', hl.step ho he⟩

/-- **A close is by the owner**, and on nothing else that is open. -/
theorem OsEffect.mem_closes (h : OsEffect s s' es) :
    (∀ o fd k, .closed o fd k ∈ es → s.objects o = some fd ∧ s.os fd = some k) ∧
      ∀ fd, .badClose fd ∈ es → fd = -1 := by
  cases h with
  | quiet _ _ hes =>
    constructor
    · intro o fd k he
      have hc := (hes _ he).2.1
      cases hc
    · intro fd he
      exact (hes _ he).2.2 fd rfl
  | opens _ _ _ => simp
  | closes ho hk _ _ hp =>
    constructor
    · intro o fd k he
      rcases List.mem_append.1 he with he | he
      · cases hp _ he
      · cases List.mem_singleton.1 he
        exact ⟨ho, hk⟩
    · intro fd he
      rcases List.mem_append.1 he with he | he
      · cases hp _ he
      · cases List.mem_singleton.1 he

/-- A connection that was opened and is not open any more was closed once. -/
theorem Ledger.count (h : Ledger s hist) (hk : .opened k ∈ hist) (hos : ∀ fd, s.os fd ≠ some k) :
    (hist.filterMap SocketEvent.closes).count k = 1 := by
  have hlt : k ∈ List.range s.next := by
    rw [← h.opened]
    exact List.mem_filterMap.2 ⟨_, hk, rfl⟩
  have hmem := (h.closed k).2 ⟨List.mem_range.1 hlt, hos⟩
  exact List.count_eq_one_of_mem h.once hmem

/-! ### The lifetimes of the objects -/

/-- Whether there is an object at an address after a call. -/
def SocketCall.lives (object : ℕ) (before : Bool) : SocketCall → Bool
  | .default o => o = object || before
  | .socket o _ => o = object || before
  | .moveConstruct o _ => o = object || before
  | .destroy o => o ≠ object && before
  | _ => before

theorem isSome_setObject {x : ℕ} : ((s.setObject o v).objects x).isSome =
    if o = x then v.isSome else (s.objects x).isSome := by
  by_cases hx : o = x
  · rw [← hx, objects_setObject_self, if_pos rfl]
  · rw [objects_setObject_ne (Ne.symm hx), if_neg hx]

/-- A new descriptor for an object that is there changes no lifetime. -/
theorem isSome_setObject_of_live {x : ℕ} (ho : (s.objects o).isSome) :
    ((s.setObject o (some fd)).objects x).isSome = (s.objects x).isSome := by
  rw [isSome_setObject]
  split_ifs with hx
  · rw [← hx, ho]
    rfl
  · rfl

theorem objects_osClose : (s.osClose o fd).1.objects = s.objects := by
  unfold Sockets.osClose
  split <;> rfl

theorem lives_step (hs : sockets.step s c = some (s', es)) {x : ℕ} :
    (s'.objects x).isSome = c.lives x (s.objects x).isSome := by
  cases socketStep_of_eq hs with
  | default ho => simp [SocketCall.lives, isSome_setObject]
  | socketInvalid ho => simp [SocketCall.lives, isSome_setObject]
  | socket ho hfd hos => simp [SocketCall.lives, isSome_setObject, Sockets.osOpen]
  | @moveConstruct o source fd ho hsrc =>
    have hne : source ≠ o := by
      rintro rfl
      rw [ho] at hsrc
      cases hsrc
    have hlive : ((s.setObject o (some fd)).objects source).isSome := by
      rw [objects_setObject_ne hne, hsrc]
      rfl
    rw [isSome_setObject_of_live hlive]
    simp [SocketCall.lives, isSome_setObject]
  | @moveAssign o source fd fd' ho hsrc =>
    have ho' : (s.objects o).isSome := by simp [ho]
    have hlive : ((s.setObject o (some fd')).objects source).isSome := by
      rw [isSome_setObject_of_live ho', hsrc]
      rfl
    rw [isSome_setObject_of_live hlive, isSome_setObject_of_live ho']
    rfl
  | get ho => rfl
  | shutdown ho => rfl
  | @close o fd ho =>
    have hlive : ((s.osClose o fd).1.objects o).isSome := by simp [objects_osClose, ho]
    rw [isSome_setObject_of_live hlive, objects_osClose]
    rfl
  | destroyInvalid ho => simp [SocketCall.lives, isSome_setObject]
  | destroy ho hfd => simp [SocketCall.lives, isSome_setObject, objects_osClose]

theorem lives_exec {cs : List SocketCall} {x : ℕ} (h : sockets.exec s cs = some (tr, s')) :
    (s'.objects x).isSome = cs.foldl (fun b c => c.lives x b) (s.objects x).isSome := by
  induction cs generalizing s tr with
  | nil =>
    rw [System.exec_nil, Option.some.injEq, Prod.mk.injEq] at h
    rw [List.foldl_nil, h.2]
  | cons c cs ih =>
    obtain ⟨s₁, es, tr₁, hs, hr, -⟩ := System.exec_cons_iff.1 h
    rw [List.foldl_cons, ← lives_step hs]
    exact ih hr

/-! ### `network_task` -/

/-- `network_task` has not started. -/
def NotStarted (s : Sockets) : Prop := ∀ o ≤ handlerSocket, s.objects o = none

/-- Between two turns `server_` is there, and no other socket of the task. -/
def Idle (s : Sockets) : Prop :=
  ∀ o ≤ handlerSocket, (s.objects o).isSome = decide (o = serverSocket)

/-- `listen` leaves no object behind. -/
theorem lives_listen (out : ListenOutcome) {x : ℕ} (hx : x ≤ handlerSocket) :
    (listen out).foldl (fun b c => c.lives x b) (decide (x = serverSocket)) =
      decide (x = serverSocket) := by
  have hx' : x ≤ 5 := hx
  cases out <;> interval_cases x <;> rfl

theorem lives_gets {x : ℕ} {b : Bool} (calls : ℕ) :
    (List.replicate calls (SocketCall.get o)).foldl (fun b c => c.lives x b) b = b := by
  induction calls with
  | zero => rfl
  | succ n ih =>
    rw [List.replicate_succ, List.foldl_cons]
    exact ih

/-- Nor does a turn. -/
theorem lives_networkTurn (out : AcceptOutcome) {x : ℕ} (hx : x ≤ handlerSocket) :
    (networkTurn out).foldl (fun b c => c.lives x b) (decide (x = serverSocket)) =
      decide (x = serverSocket) := by
  have hx' : x ≤ 5 := hx
  cases out with
  | failed => rfl
  | accepted fd calls =>
    simp only [networkTurn, serveRequest, List.foldl_append, lives_gets]
    interval_cases x <;> rfl

/-- What every part of a schedule leaves as it is, the schedule leaves as it is. -/
theorem foldl_flatMap_eq {α β γ : Type*} {f : γ → β → γ} {g : α → List β} {b : γ} {l : List α}
    (h : ∀ a ∈ l, (g a).foldl f b = b) : (l.flatMap g).foldl f b = b := by
  induction l with
  | nil => rfl
  | cons a l ih =>
    rw [List.flatMap_cons, List.foldl_append, h a List.mem_cons_self]
    exact ih fun a' ha' => h a' (List.mem_cons_of_mem _ ha')

/-- **`network_task` is idle at every call of `accept`.** -/
theorem idle_networkTask {listens : List ListenOutcome} {outcomes : List AcceptOutcome}
    (hn : NotStarted s) (h : sockets.exec s (networkTask listens outcomes) = some (tr, s')) :
    Idle s' := by
  intro x hx
  rw [lives_exec h, networkTask, List.cons_append, List.foldl_cons, List.foldl_append]
  have h0 : (SocketCall.default serverSocket).lives x (s.objects x).isSome =
      decide (x = serverSocket) := by
    simp [SocketCall.lives, hn x hx, eq_comm]
  rw [h0, foldl_flatMap_eq fun out _ => lives_listen out hx,
    foldl_flatMap_eq fun out _ => lives_networkTurn out hx]

theorem Idle.server (h : Idle s) : ∃ fd, s.objects serverSocket = some fd :=
  Option.isSome_iff_exists.1 (h serverSocket (by decide))

theorem Idle.gone (h : Idle s) (ho : o ≤ handlerSocket) (hne : o ≠ serverSocket) :
    s.objects o = none := by
  have := h o ho
  rw [decide_eq_false hne] at this
  simpa using this

theorem exec_gets (calls : ℕ) (ho : s.objects o = some fd) :
    ∃ tr, sockets.exec s (List.replicate calls (.get o)) = some (tr, s) ∧
      history tr = List.replicate calls (.used fd) := by
  induction calls with
  | zero => exact ⟨[], rfl, rfl⟩
  | succ n ih =>
    obtain ⟨tr, hr, hh⟩ := ih
    have hs : sockets.step s (.get o) = some (s, [.used fd]) := by
      change (s.objects o).map _ = _
      rw [ho]
      rfl
    rw [List.replicate_succ, System.exec_cons hs, hr]
    refine ⟨_, rfl, ?_⟩
    rw [List.replicate_succ, ← hh]
    rfl

/-- While a request is served, `handler` holds the descriptor and `accept_result` -1. -/
def serving (s : Sockets) (fd : ℤ) : Sockets :=
  ((s.osOpen fd).setObject acceptResult (some (-1))).setObject handlerSocket (some fd)

theorem exec_accept (calls : ℕ) (hi : Idle s) (hfd : 0 ≤ fd) (hos : s.os fd = none) :
    ∃ tr fd', sockets.exec s (accept (.accepted fd calls) ++ constructHandler) =
      some (tr, serving s fd) ∧ history tr = [.used fd', .opened s.next] := by
  obtain ⟨fd₀, h0⟩ := hi.server
  change s.objects 0 = some fd₀ at h0
  have h2 : s.objects 2 = none := hi.gone (by decide) (by decide)
  have h3 : s.objects 3 = none := hi.gone (by decide) (by decide)
  have h4 : s.objects 4 = none := hi.gone (by decide) (by decide)
  have h5 : s.objects 5 = none := hi.gone (by decide) (by decide)
  have hne : fd ≠ -1 := by omega
  -- the temporary and the parameter come and go
  have hobjects : Function.update (Function.update (Function.update (Function.update
      (Function.update (Function.update (Function.update s.objects 2 (some fd)) 3 (some fd))
        2 none) 4 (some fd)) 3 (some (-1))) 5 (some fd)) 4 none =
      Function.update (Function.update s.objects 3 (some (-1))) 5 (some fd) := by
    funext x
    simp only [Function.update_apply]
    split_ifs <;> simp_all
  simp [accept, constructHandler, System.exec, sockets, Sockets.step, h0, h2, h3, h4, h5, hfd, hos,
    hne, serverSocket, acceptTemporary, acceptResult, handlerParameter, handlerSocket,
    Sockets.setObject, Sockets.osOpen, history, serving, hobjects]

theorem exec_destroys (hi : Idle s) (hfd : 0 ≤ fd) (hos : s.os fd = none) :
    ∃ tr, sockets.exec (serving s fd) [.destroy handlerSocket, .destroy acceptResult] =
      some (tr, { s with next := s.next + 1 }) ∧
      history tr = [.shutdown fd, .closed handlerSocket fd s.next] := by
  have h3 : s.objects 3 = none := hi.gone (by decide) (by decide)
  have h5 : s.objects 5 = none := hi.gone (by decide) (by decide)
  have hne : fd ≠ -1 := by omega
  have hobjects : Function.update (Function.update (Function.update s.objects 3 (some (-1)))
      5 none) 3 none = s.objects := by
    funext x
    simp only [Function.update_apply]
    split_ifs <;> simp_all
  simp [System.exec, sockets, Sockets.step, hos, hne, acceptResult, handlerSocket,
    Sockets.osClose, Sockets.setObject, Sockets.osOpen, history, serving, hobjects]

/-- **A turn closes the connection that it accepts.** -/
theorem exec_networkTurn (calls : ℕ) (hi : Idle s) (hfd : 0 ≤ fd) (hos : s.os fd = none) :
    ∃ tr, sockets.exec s (networkTurn (.accepted fd calls)) =
      some (tr, { s with next := s.next + 1 }) ∧
      (history tr).filterMap SocketEvent.opens = [s.next] ∧
      (history tr).filterMap SocketEvent.closes = [s.next] := by
  obtain ⟨tr₁, fd', h1, hist1⟩ := exec_accept calls hi hfd hos
  have hserving : (serving s fd).objects handlerSocket = some fd := objects_setObject_self
  obtain ⟨tr₂, h2, hist2⟩ := exec_gets calls hserving
  obtain ⟨tr₃, h3, hist3⟩ := exec_destroys hi hfd hos
  have hturn : networkTurn (.accepted fd calls) =
      (accept (.accepted fd calls) ++ constructHandler) ++
        (List.replicate calls (.get handlerSocket) ++
          [.destroy handlerSocket, .destroy acceptResult]) := by
    simp [networkTurn, serveRequest]
  have hrest := System.exec_append_iff.2 ⟨tr₂, _, tr₃, h2, h3, rfl⟩
  refine ⟨tr₁ ++ (tr₂ ++ tr₃), ?_, ?_, ?_⟩
  · rw [hturn]
    exact System.exec_append_iff.2 ⟨tr₁, _, tr₂ ++ tr₃, h1, hrest, rfl⟩
  · simp [hist1, hist2, hist3, List.filterMap_cons, List.filterMap_replicate, SocketEvent.opens]
  · simp [hist1, hist2, hist3, List.filterMap_cons, List.filterMap_replicate, SocketEvent.closes]

/-- **Linear ownership of sockets.** Over any run of calls, each open descriptor has exactly
one owner; a close is of a descriptor that the object it is made on alone owns, or of -1;
no connection is closed twice; and when the objects are gone each has been closed. The run
may be continued by `network_task`: it closes every connection before its next `accept`. -/
theorem sockets_owned {s₀ : Sockets} (h0 : sockets.init s₀) (h : sockets.Run s₀ tr s) :
    (∀ fd k, s.os fd = some k → ∃! o, s.objects o = some fd) ∧
    (∀ t ∈ tr,
      (∀ o fd k, .closed o fd k ∈ t.events → t.src.os fd = some k ∧ t.src.objects o = some fd ∧
        ∀ o', t.src.objects o' = some fd → o' = o) ∧
      ∀ fd, .badClose fd ∈ t.events → fd = -1) ∧
    ((history tr).filterMap SocketEvent.closes).Nodup ∧
    ((∀ o, s.objects o = none) → ∀ k, .opened k ∈ history tr →
      ((history tr).filterMap SocketEvent.closes).count k = 1) ∧
    (NotStarted s → ∀ listens outcomes tr₁ s₁,
      sockets.exec s (networkTask listens outcomes) = some (tr₁, s₁) →
      ∀ fd calls, 0 ≤ fd → s₁.os fd = none → ∃ tr₂ s₂,
        sockets.exec s (networkTask listens (outcomes ++ [.accepted fd calls])) =
          some (tr₁ ++ tr₂, s₂) ∧
        (history tr₂).filterMap SocketEvent.opens = [s₁.next] ∧
        ((history (tr ++ (tr₁ ++ tr₂))).filterMap SocketEvent.closes).count s₁.next = 1) := by
  obtain ⟨ho, hl⟩ := owned_ledger_run h0 h
  refine ⟨fun fd k hk => ?_, fun t ht => ?_, hl.once, fun hgone k hk => ?_, ?_⟩
  · obtain ⟨o, hfd⟩ := ho.owner fd k hk
    exact ⟨o, hfd, fun o' hfd' => ho.unique o' o fd (ho.issued fd k hk).1 hfd' hfd⟩
  · obtain ⟨pre, -, hpre, hst⟩ := h.mem ht
    have hsrc := (owned_ledger_run h0 hpre).1
    obtain ⟨hclosed, hbad⟩ := (socket_step hsrc hst).2.mem_closes
    refine ⟨fun o fd k he => ?_, hbad⟩
    obtain ⟨hfd, hk⟩ := hclosed o fd k he
    exact ⟨hk, hfd, fun o' hfd' => hsrc.unique o' o fd (hsrc.issued fd k hk).1 hfd' hfd⟩
  · refine hl.count hk fun fd hos => ?_
    obtain ⟨o, hfd⟩ := ho.owner fd k hos
    rw [hgone o] at hfd
    cases hfd
  · intro hn listens outcomes tr₁ s₁ hexec fd calls hfd hos
    obtain ⟨tr₂, hturn, hopens, hcloses⟩ :=
      exec_networkTurn calls (idle_networkTask hn hexec) hfd hos
    have htask : networkTask listens (outcomes ++ [.accepted fd calls]) =
        networkTask listens outcomes ++ networkTurn (.accepted fd calls) := by
      simp [networkTask]
    have hwhole := System.exec_append_iff.2 ⟨tr₁, s₁, tr₂, hexec, hturn, rfl⟩
    rw [← htask] at hwhole
    refine ⟨tr₂, _, hwhole, hopens, ?_⟩
    -- it has been closed, and nothing is closed twice
    have honce := (owned_ledger_run h0 (h.append (System.run_of_exec hwhole))).2.once
    have hmem : s₁.next ∈ (history tr₂).filterMap SocketEvent.closes := by
      rw [hcloses]
      exact List.mem_singleton_self _
    refine List.count_eq_one_of_mem honce ?_
    rw [history_append, history_append, List.filterMap_append, List.filterMap_append]
    exact List.mem_append_right _ (List.mem_append_right _ hmem)

/-- Descriptor 4 changes hands by a move assignment, is closed by its new owner, and is
issued again; then the task starts and serves 5 twice. -/
theorem sockets_owned_reissued : ∃ tr s tr₁ s₁ tr₂ s₂,
    sockets.Run Sockets.initial tr s ∧ (history tr).filterMap SocketEvent.closes = [1, 0] ∧
    sockets.exec s (networkTask [.listening 3] [.accepted 5 2, .failed]) = some (tr₁, s₁) ∧
    sockets.exec s (networkTask [.listening 3] [.accepted 5 2, .failed, .accepted 5 1]) =
      some (tr₁ ++ tr₂, s₂) ∧
    ((history (tr ++ (tr₁ ++ tr₂))).filterMap SocketEvent.closes).count s₁.next = 1 := by
  obtain ⟨tr, s, hrun, hq⟩ := System.exists_run (M := sockets)
    (Q := fun tr s => decide ((∀ o ≤ handlerSocket, s.objects o = none) ∧
      (history tr).filterMap SocketEvent.closes = [1, 0]) &&
      (sockets.exec s (networkTask [.listening 3] [.accepted 5 2, .failed])).any
        fun r : _ × Sockets => decide (r.2.os 5 = none))
    Sockets.initial
    [.socket 6 3, .socket 7 4, .moveAssign 7 6, .moveAssign 7 7, .destroy 6, .socket 6 4,
      .close 7, .close 7]
    (by decide +kernel)
  obtain ⟨hq, htask⟩ := Bool.and_eq_true_iff.1 hq
  obtain ⟨hn, hcloses⟩ := of_decide_eq_true hq
  obtain ⟨⟨tr₁, s₁⟩, hexec, hos⟩ := (Option.any_eq_true _ _).1 htask
  obtain ⟨-, -, -, -, hserve⟩ := sockets_owned rfl hrun
  obtain ⟨tr₂, s₂, hwhole, -, hcount⟩ :=
    hserve hn _ _ tr₁ s₁ hexec 5 1 (by decide) (of_decide_eq_true hos)
  exact ⟨tr, s, tr₁, s₁, tr₂, s₂, hrun, hcloses, hexec, hwhole, hcount⟩

end Pcrb
