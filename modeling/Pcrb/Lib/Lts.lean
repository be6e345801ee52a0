import Mathlib.Data.List.Induction
import Mathlib.Tactic.Common

/-!
# Labelled transition systems with observable events

A `System` steps on labels (the scheduler's choice together with what the
environment supplies) and emits events. A run is the list of its transitions,
oldest first; its history is the events of those transitions in order.

* `Run.invariant`: what holds at the start and is kept by every step of a run
  holds at its end. The step may use a condition met by every transition of the run.
* `Run.balance`: a conservation law of one step is a conservation law of a run.
* `exec`: runs by computation, for concrete schedules (`exists_run`).
* `Each`: a property of every element of a list and of those before it, built up from the
  end (`each_concat`), as runs are.
* `countSince`: how often something has happened since something else did. Where it is 0, the
  other thing has happened in between (`exists_reset`).
-/

namespace Lts

universe u v w

/-- A labelled transition system that emits events. -/
structure System (σ : Type u) (ℓ : Type v) (ε : Type w) where
  init : σ → Prop
  step : σ → ℓ → Option (σ × List ε)

/-- One transition, as it stands in a run. -/
structure Transition (σ : Type u) (ℓ : Type v) (ε : Type w) where
  src : σ
  label : ℓ
  dst : σ
  events : List ε

variable {σ : Type u} {ℓ : Type v} {ε : Type w}

/-- The events of a run, oldest first. -/
def history (tr : List (Transition σ ℓ ε)) : List ε := tr.flatMap Transition.events

@[simp] theorem history_nil : history ([] : List (Transition σ ℓ ε)) = [] := rfl

@[simp] theorem history_append (tr tr' : List (Transition σ ℓ ε)) :
    history (tr ++ tr') = history tr ++ history tr' := by
  simp [history]

@[simp] theorem history_singleton (t : Transition σ ℓ ε) : history [t] = t.events := by
  simp [history]

/-! ### Elements and those before them -/

section Each

variable {α : Type*} {Q : List α → α → Prop} {l : List α} {x : α}

/-- `Q` holds between every element of a list and those before it. -/
def Each (Q : List α → α → Prop) (l : List α) : Prop :=
  ∀ pre x post, l = pre ++ x :: post → Q pre x

@[simp] theorem each_nil : Each Q [] := by
  intro pre x post h
  exact absurd h.symm (List.append_ne_nil_of_right_ne_nil pre (List.cons_ne_nil x post))

/-- **One more element**, judged by all the others. -/
theorem each_concat : Each Q (l ++ [x]) ↔ Each Q l ∧ Q l x := by
  constructor
  · intro h
    refine ⟨fun pre y post hl => h pre y (post ++ [x]) ?_, h l x [] rfl⟩
    rw [hl, List.append_assoc, List.cons_append]
  · rintro ⟨h, hx⟩ pre y post hl
    induction post using List.reverseRecOn with
    | nil =>
      -- the element is the last one
      obtain ⟨rfl, hy⟩ := List.append_inj' hl rfl
      obtain rfl : x = y := List.singleton_inj.1 hy
      exact hx
    | append_singleton post z _ =>
      rw [← List.cons_append, ← List.append_assoc] at hl
      exact h pre y post (List.append_inj' hl rfl).1

/-- **More elements**, judged by the others and by those of their own before them. -/
theorem each_append {l' : List α} :
    Each Q (l ++ l') ↔ Each Q l ∧ Each (fun pre => Q (l ++ pre)) l' := by
  induction l' using List.reverseRecOn with
  | nil => simp
  | append_singleton l' x ih => rw [← List.append_assoc, each_concat, each_concat, ih, and_assoc]

end Each

/-! ### Counts since an event -/

section CountSince

variable {α : Type*} {reset p : α → Bool} {l l' : List α} {x : α}

/-- How many elements are in `p` since the last one in `reset`. -/
def countSince (reset p : α → Bool) (l : List α) : ℕ :=
  l.foldl (fun n x => if reset x then 0 else if p x then n + 1 else n) 0

@[simp] theorem countSince_nil : countSince reset p [] = 0 := rfl

theorem countSince_concat : countSince reset p (l ++ [x]) =
    if reset x then 0 else if p x then countSince reset p l + 1 else countSince reset p l :=
  List.foldl_append

/-- Elements that are in neither do not count. -/
theorem countSince_append (h : ∀ x ∈ l', reset x = false ∧ p x = false) :
    countSince reset p (l ++ l') = countSince reset p l := by
  induction l' using List.reverseRecOn with
  | nil => rw [List.append_nil]
  | append_singleton l' x ih =>
    obtain ⟨hr, hp⟩ := h x (List.mem_append_right _ (List.mem_singleton_self x))
    rw [← List.append_assoc, countSince_concat, hr, hp]
    exact ih fun y hy => h y (List.mem_append_left _ hy)

/-- **Behind an element in `p`** the count is 0 only after a reset. -/
theorem exists_reset (hr : reset x = false) (hp : p x = true)
    (h : countSince reset p (l ++ x :: l') = 0) : ∃ y ∈ l', reset y = true := by
  induction l' using List.reverseRecOn with
  | nil =>
    rw [countSince_concat, hr, hp] at h
    exact absurd h (Nat.succ_ne_zero _)
  | append_singleton l' y ih =>
    rw [← List.cons_append, ← List.append_assoc, countSince_concat] at h
    by_cases hy : reset y = true
    · exact ⟨y, List.mem_append_right _ (List.mem_singleton_self y), hy⟩
    · have hzero : countSince reset p (l ++ x :: l') = 0 := by
        rw [if_neg hy] at h
        split at h
        · exact absurd h (Nat.succ_ne_zero _)
        · exact h
      obtain ⟨z, hz, hreset⟩ := ih hzero
      exact ⟨z, List.mem_append_left _ hz, hreset⟩

end CountSince

namespace System

variable (M : System σ ℓ ε)

/-- `M.Run s₀ tr s`: the transitions `tr` lead from `s₀` to `s`. -/
inductive Run (s₀ : σ) : List (Transition σ ℓ ε) → σ → Prop
  | nil : Run s₀ [] s₀
  | snoc {tr s l s' es} : Run s₀ tr s → M.step s l = some (s', es) →
      Run s₀ (tr ++ [⟨s, l, s', es⟩]) s'

variable {M} {s₀ s s' : σ} {tr tr' : List (Transition σ ℓ ε)}

theorem Run.append (h : M.Run s₀ tr s) (h' : M.Run s tr' s') : M.Run s₀ (tr ++ tr') s' := by
  induction h' with
  | nil => simpa using h
  | snoc _ hs ih => rw [← List.append_assoc]; exact ih.snoc hs

/-- **Every transition of a run is a step**, taken where an earlier part of the run ended. -/
theorem Run.mem (h : M.Run s₀ tr s) {t : Transition σ ℓ ε} (ht : t ∈ tr) :
    ∃ pre, pre <+: tr ∧ M.Run s₀ pre t.src ∧ M.step t.src t.label = some (t.dst, t.events) := by
  induction h with
  | nil => simp at ht
  | snoc hr hs ih =>
    rcases List.mem_append.1 ht with ht | ht
    · obtain ⟨pre, hp, hrun, hst⟩ := ih ht
      exact ⟨pre, hp.trans (List.prefix_append _ _), hrun, hst⟩
    · obtain rfl := List.mem_singleton.1 ht
      exact ⟨_, List.prefix_append _ _, hr, hs⟩

/-- **The invariant rule**, over the state and the history so far. `C` is a
condition that every transition of the run meets. -/
theorem Run.invariant {C : σ → ℓ → Prop} {P : σ → List ε → Prop} (h0 : P s₀ [])
    (hstep : ∀ s l s' es hist, C s l → P s hist → M.step s l = some (s', es) → P s' (hist ++ es))
    (h : M.Run s₀ tr s) (hC : ∀ t ∈ tr, C t.src t.label) : P s (history tr) := by
  induction h with
  | nil => exact h0
  | snoc hr hs ih =>
    rw [history_append, history_singleton]
    exact hstep _ _ _ _ _ (hC _ (List.mem_append_right _ List.mem_cons_self))
      (ih fun t ht => hC t (List.mem_append_left _ ht)) hs

/-- The invariant rule without a condition on the steps. -/
theorem Run.invariant' {P : σ → List ε → Prop} (h0 : P s₀ [])
    (hstep : ∀ s l s' es hist, P s hist → M.step s l = some (s', es) → P s' (hist ++ es))
    (h : M.Run s₀ tr s) : P s (history tr) :=
  h.invariant (C := fun _ _ => True) h0 (fun s l s' es hist _ => hstep s l s' es hist)
    fun _ _ => trivial

/-- A state invariant holds at both ends of every transition of a run. -/
theorem Run.invariant_mem {C : σ → ℓ → Prop} {P : σ → Prop} (h0 : P s₀)
    (hstep : ∀ s l s' es, C s l → P s → M.step s l = some (s', es) → P s')
    (h : M.Run s₀ tr s) (hC : ∀ t ∈ tr, C t.src t.label) :
    ∀ t ∈ tr, P t.src ∧ M.step t.src t.label = some (t.dst, t.events) ∧ P t.dst := by
  intro t ht
  obtain ⟨pre, hp, hrun, hst⟩ := h.mem ht
  have hsrc : P t.src := hrun.invariant (P := fun s _ => P s) h0
    (fun s l s' es _ => hstep s l s' es) fun u hu => hC u (hp.subset hu)
  exact ⟨hsrc, hst, hstep _ _ _ _ (hC t ht) hsrc hst⟩

/-- **What came before an event.** If a step that starts with `P` emits events that `Q` relates
to the history so far and to each other, then `Q` relates every event of a run to those
before it. -/
theorem Run.before_event {P : σ → List ε → Prop} {Q : List ε → ε → Prop} (h0 : P s₀ [])
    (hstep : ∀ s l s' es hist, P s hist → M.step s l = some (s', es) → P s' (hist ++ es))
    (hQ : ∀ s l s' es hist, P s hist → M.step s l = some (s', es) →
      Each (fun pre => Q (hist ++ pre)) es)
    (h : M.Run s₀ tr s) : Each Q (history tr) := by
  induction h with
  | nil =>
    rw [history_nil]
    exact each_nil
  | snoc hr hs ih =>
    rw [history_append, history_singleton, each_append]
    exact ⟨ih, hQ _ _ _ _ _ (hr.invariant' h0 hstep) hs⟩

/-- **Every transition and those before it.** What holds at the start and is kept by every step,
of the state and the transitions so far, is enough for what it says of the next one. -/
theorem Run.each {C : σ → ℓ → Prop} {P : σ → List (Transition σ ℓ ε) → Prop}
    {Q : List (Transition σ ℓ ε) → Transition σ ℓ ε → Prop} (h0 : P s₀ [])
    (hstep : ∀ s l s' es tr, C s l → P s tr → M.step s l = some (s', es) →
      Q tr ⟨s, l, s', es⟩ ∧ P s' (tr ++ [⟨s, l, s', es⟩]))
    (h : M.Run s₀ tr s) (hC : ∀ t ∈ tr, C t.src t.label) : P s tr ∧ Each Q tr := by
  induction h with
  | nil => exact ⟨h0, each_nil⟩
  | snoc hr hs ih =>
    obtain ⟨hp, hq⟩ := ih fun t ht => hC t (List.mem_append_left _ ht)
    obtain ⟨hnext, hp'⟩ :=
      hstep _ _ _ _ _ (hC _ (List.mem_append_right _ List.mem_cons_self)) hp hs
    exact ⟨hp', each_concat.2 ⟨hq, hnext⟩⟩

section Balance

variable {α : Type*} {credit debit : ε → Option α}

/-- **Conservation over a run**, in order. If at every step what the state held
before followed by what came in equals what went out followed by what it holds
after, the same is true of the whole run. -/
theorem Run.balance (holds : σ → List α)
    (hstep : ∀ s l s' es, M.step s l = some (s', es) →
      holds s ++ es.filterMap credit = es.filterMap debit ++ holds s')
    (h : M.Run s₀ tr s) :
    holds s₀ ++ (history tr).filterMap credit = (history tr).filterMap debit ++ holds s := by
  induction h with
  | nil => simp
  | snoc _ hs ih =>
    simp only [history_append, history_singleton, List.filterMap_append]
    rw [← List.append_assoc, ih, List.append_assoc, hstep _ _ _ _ hs, List.append_assoc]

end Balance

/-! ### Concrete schedules -/

variable (M) in
/-- Run a schedule; `none` if one of its steps is not enabled. -/
def exec : σ → List ℓ → Option (List (Transition σ ℓ ε) × σ)
  | s, [] => some ([], s)
  | s, l :: ls =>
    match M.step s l with
    | none => none
    | some (s', es) => (exec s' ls).map fun r => (⟨s, l, s', es⟩ :: r.1, r.2)

@[simp] theorem exec_nil (s : σ) : M.exec s [] = some ([], s) := rfl

theorem exec_cons {l : ℓ} {ls : List ℓ} {es : List ε} (h : M.step s l = some (s', es)) :
    M.exec s (l :: ls) = (M.exec s' ls).map fun r => (⟨s, l, s', es⟩ :: r.1, r.2) := by
  rw [exec, h]

/-- A schedule runs if its first step does and the rest runs from there. -/
theorem exec_cons_iff {l : ℓ} {ls : List ℓ} : M.exec s (l :: ls) = some (tr, s') ↔
    ∃ s₁ es tr₁, M.step s l = some (s₁, es) ∧ M.exec s₁ ls = some (tr₁, s') ∧
      tr = ⟨s, l, s₁, es⟩ :: tr₁ := by
  cases hs : M.step s l with
  | none => simp [exec, hs]
  | some r =>
    obtain ⟨s₁, es⟩ := r
    rw [exec_cons hs]
    constructor
    · intro h
      obtain ⟨⟨tr₁, s₂⟩, hr, he⟩ := Option.map_eq_some_iff.1 h
      obtain ⟨rfl, rfl⟩ := Prod.mk.inj he
      exact ⟨s₁, es, tr₁, rfl, hr, rfl⟩
    · rintro ⟨_, _, tr₁, ⟨⟩, hr, rfl⟩
      rw [hr, Option.map_some]

theorem run_of_exec {ls : List ℓ} (h : M.exec s ls = some (tr, s')) : M.Run s tr s' := by
  induction ls generalizing s tr with
  | nil =>
    rw [exec_nil, Option.some.injEq, Prod.mk.injEq] at h
    obtain ⟨rfl, rfl⟩ := h
    exact .nil
  | cons l ls ih =>
    obtain ⟨s₁, es, tr₁, hs, hr, rfl⟩ := exec_cons_iff.1 h
    have h1 : M.Run s [⟨s, l, s₁, es⟩] s₁ := Run.snoc .nil hs
    exact h1.append (ih hr)

/-- The transitions of a schedule carry its labels. -/
theorem labels_of_exec {ls : List ℓ} (h : M.exec s ls = some (tr, s')) :
    tr.map Transition.label = ls := by
  induction ls generalizing s tr with
  | nil =>
    rw [exec_nil, Option.some.injEq, Prod.mk.injEq] at h
    rw [← h.1, List.map_nil]
  | cons l ls ih =>
    obtain ⟨s₁, es, tr₁, -, hr, rfl⟩ := exec_cons_iff.1 h
    rw [List.map_cons, ih hr]

/-- **The progress rule.** If each step of a schedule is enabled where `P` holds, and keeps
`P`, the schedule runs, and what such steps have in common all its transitions have. -/
theorem exec_of_step {P : σ → Prop} {Q : Transition σ ℓ ε → Prop} {ls : List ℓ} (h0 : P s)
    (hstep : ∀ s, ∀ l ∈ ls, P s →
      ∃ s' es, M.step s l = some (s', es) ∧ P s' ∧ Q ⟨s, l, s', es⟩) :
    ∃ tr s', M.exec s ls = some (tr, s') ∧ P s' ∧ ∀ t ∈ tr, Q t := by
  induction ls generalizing s with
  | nil => exact ⟨[], s, exec_nil s, h0, by simp⟩
  | cons l ls ih =>
    obtain ⟨s₁, es, hs, h1, hq⟩ := hstep s l List.mem_cons_self h0
    obtain ⟨tr, s', hr, h', hall⟩ := ih h1 fun s l hl => hstep s l (List.mem_cons_of_mem _ hl)
    exact ⟨_, s', exec_cons_iff.2 ⟨s₁, es, tr, hs, hr, rfl⟩, h', List.forall_mem_cons.2 ⟨hq, hall⟩⟩

/-- Schedules run one after the other. -/
theorem exec_append_iff {ls ls' : List ℓ} : M.exec s (ls ++ ls') = some (tr, s') ↔
    ∃ tr₁ s₁ tr₂, M.exec s ls = some (tr₁, s₁) ∧ M.exec s₁ ls' = some (tr₂, s') ∧
      tr = tr₁ ++ tr₂ := by
  induction ls generalizing s tr with
  | nil =>
    constructor
    · intro h
      exact ⟨[], s, tr, exec_nil s, h, rfl⟩
    · rintro ⟨tr₁, s₁, tr₂, h1, h2, rfl⟩
      rw [exec_nil, Option.some.injEq, Prod.mk.injEq] at h1
      obtain ⟨rfl, rfl⟩ := h1
      exact h2
  | cons l ls ih =>
    rw [List.cons_append]
    constructor
    · intro h
      obtain ⟨s₁, es, tr', hs, hr, rfl⟩ := exec_cons_iff.1 h
      obtain ⟨tr₁, s₂, tr₂, h1, h2, rfl⟩ := ih.1 hr
      exact ⟨_, s₂, tr₂, exec_cons_iff.2 ⟨s₁, es, tr₁, hs, h1, rfl⟩, h2, rfl⟩
    · rintro ⟨tr₁, s₂, tr₂, h1, h2, rfl⟩
      obtain ⟨s₁, es, tr', hs, hr, rfl⟩ := exec_cons_iff.1 h1
      exact exec_cons_iff.2 ⟨s₁, es, tr' ++ tr₂, hs, ih.2 ⟨tr', s₂, tr₂, hr, h2, rfl⟩, rfl⟩

/-- A schedule that runs and passes a check is a run that passes it. -/
theorem exists_run {Q : List (Transition σ ℓ ε) → σ → Bool} (s : σ) (ls : List ℓ)
    (h : ((M.exec s ls).any fun r => Q r.1 r.2) = true) :
    ∃ tr s', M.Run s tr s' ∧ Q tr s' = true := by
  obtain ⟨⟨tr, s'⟩, hr, hq⟩ := (Option.any_eq_true _ _).1 h
  exact ⟨tr, s', run_of_exec hr, hq⟩

/-- Two schedules, one after the other, that pass a check. -/
theorem exists_runs {Q : List (Transition σ ℓ ε) → σ → List (Transition σ ℓ ε) → σ → Bool} (s : σ)
    (ls ls' : List ℓ) (h : ((M.exec s ls).any fun r => (M.exec r.2 ls').any fun r' =>
      Q r.1 r.2 r'.1 r'.2) = true) :
    ∃ tr s₁ tr' s', M.Run s tr s₁ ∧ M.Run s₁ tr' s' ∧ Q tr s₁ tr' s' = true := by
  obtain ⟨⟨tr, s₁⟩, hr, h'⟩ := (Option.any_eq_true _ _).1 h
  obtain ⟨⟨tr', s'⟩, hr', hq⟩ := (Option.any_eq_true _ _).1 h'
  exact ⟨tr, s₁, tr', s', run_of_exec hr, run_of_exec hr', hq⟩

end System

end Lts
