import Mathlib.Order.Nat
import Pcrb.Lib.Simulation

/-!
# Infinite executions, fairness, and what must happen

An `Execution` of a system never ends. An action is a set of steps, as a predicate of the
state and the label; an execution is weakly fair to an action if it takes it when it is
enabled from some time on, and strongly fair if it takes it when it is enabled over and
over again.

* `Ranking`: a rank that no step raises and every step of one action lowers, until the goal.
* `Ranking.count_le`: how many steps of the action a finite run can take without the goal.
* `Ranking.exists_run`: there is a run to the goal by steps of the action alone.
* `Ranking.leads`: a weakly fair execution comes to the goal.
-/

namespace Lts

universe u v w

variable {σ : Type u} {ℓ : Type v} {ε : Type w}

/-- Some step of the action can be taken. -/
def System.Enabled (M : System σ ℓ ε) (A : σ → ℓ → Prop) (s : σ) : Prop :=
  ∃ l, A s l ∧ (M.step s l).isSome = true

/-- A system that runs for ever. -/
structure Execution (M : System σ ℓ ε) where
  state : ℕ → σ
  label : ℕ → ℓ
  events : ℕ → List ε
  start : M.init (state 0)
  next : ∀ n, M.step (state n) (label n) = some (state (n + 1), events n)

namespace Execution

variable {M : System σ ℓ ε} (x : Execution M)

/-- The step at time `n`. -/
def transition (n : ℕ) : Transition σ ℓ ε := ⟨x.state n, x.label n, x.state (n + 1), x.events n⟩

/-- The steps before time `n`. -/
def upTo (n : ℕ) : List (Transition σ ℓ ε) := (List.range n).map x.transition

@[simp] theorem upTo_zero : x.upTo 0 = [] := rfl

theorem upTo_succ (n : ℕ) : x.upTo (n + 1) = x.upTo n ++ [x.transition n] := by
  simp [upTo, List.range_succ]

theorem upTo_add (n k : ℕ) :
    x.upTo (n + k) = x.upTo n ++ (List.range k).map fun i => x.transition (n + i) := by
  induction k with
  | zero => simp
  | succ k ih => rw [← Nat.add_assoc, upTo_succ, ih, List.range_succ, List.map_append,
      List.append_assoc, List.map_singleton]

theorem mem_upTo {n : ℕ} {t : Transition σ ℓ ε} :
    t ∈ x.upTo n ↔ ∃ m, m < n ∧ x.transition m = t := by
  simp [upTo]

/-- **Every time is the end of a run.** -/
theorem run (n : ℕ) : M.Run (x.state 0) (x.upTo n) (x.state n) := by
  induction n with
  | zero => exact .nil
  | succ n ih =>
    rw [upTo_succ]
    exact ih.snoc (x.next n)

/-- What is seen up to an earlier time is a prefix of what is seen up to a later one. -/
theorem trace_prefix {ν : Type*} (see : ε → Option ν) {n m : ℕ} (h : n ≤ m) :
    trace see (x.upTo n) <+: trace see (x.upTo m) := by
  obtain ⟨k, rfl⟩ := Nat.exists_eq_add_of_le h
  rw [upTo_add, trace_append]
  exact List.prefix_append _ _

/-- A state invariant, from some time on. -/
theorem always {C : σ → ℓ → Prop} {P : σ → Prop}
    (hstep : ∀ s l s' es, C s l → P s → M.step s l = some (s', es) → P s')
    (hC : ∀ n, C (x.state n) (x.label n)) {n : ℕ} (h : P (x.state n)) :
    ∀ m, n ≤ m → P (x.state m) := by
  intro m hm
  induction hm with
  | refl => exact h
  | step _ ih => exact hstep _ _ _ _ (hC _) ih (x.next _)

/-! ### Fairness -/

/-- The step at time `n` is one of the action. -/
def Takes (A : σ → ℓ → Prop) (n : ℕ) : Prop := A (x.state n) (x.label n)

/-- An action that stays enabled is taken. -/
def WeaklyFair (A : σ → ℓ → Prop) : Prop :=
  ∀ n, (∀ m, n ≤ m → M.Enabled A (x.state m)) → ∃ m, n ≤ m ∧ x.Takes A m

/-- An action that is enabled again and again is taken. -/
def StronglyFair (A : σ → ℓ → Prop) : Prop :=
  ∀ n, (∀ m, n ≤ m → ∃ k, m ≤ k ∧ M.Enabled A (x.state k)) → ∃ m, n ≤ m ∧ x.Takes A m

theorem StronglyFair.weaklyFair {x : Execution M} {A : σ → ℓ → Prop} (h : x.StronglyFair A) :
    x.WeaklyFair A := by
  intro n hn
  exact h n fun m hm => ⟨m, le_rfl, hn m hm⟩

end Execution

/-! ### A policy -/

section Policy

/-- The states that a choice of the label at every time and in every state leads through. -/
def System.follow (M : System σ ℓ ε) (pick : ℕ → σ → ℓ) (s₀ : σ) : ℕ → σ
  | 0 => s₀
  | n + 1 =>
    let s := M.follow pick s₀ n
    ((M.step s (pick n s)).map Prod.fst).getD s

/-- A policy that chooses an enabled step every time is an execution. -/
def Execution.ofPick {M : System σ ℓ ε} (pick : ℕ → σ → ℓ) (s₀ : σ) (h0 : M.init s₀)
    (hok : ∀ n, (M.step (M.follow pick s₀ n) (pick n (M.follow pick s₀ n))).isSome = true) :
    Execution M where
  state := M.follow pick s₀
  label n := pick n (M.follow pick s₀ n)
  events n := ((M.step (M.follow pick s₀ n) (pick n (M.follow pick s₀ n))).map Prod.snd).getD []
  start := h0
  next n := by
    obtain ⟨⟨s', es⟩, hs⟩ := Option.isSome_iff_exists.1 (hok n)
    simp [System.follow, hs]

end Policy

/-! ### Ranks -/

/-- A rank for the action `own`: from the states of `P` on, and with every step meeting `C`, a
step comes to the goal or stays in `P` without raising the rank, and a step of the action
lowers it. -/
structure Ranking (M : System σ ℓ ε) (C own : σ → ℓ → Prop) (P : σ → Prop)
    (goal : Transition σ ℓ ε → Prop) (rank : σ → ℕ) : Prop where
  enabled : ∀ s, P s → M.Enabled own s
  step : ∀ s l s' es, C s l → P s → M.step s l = some (s', es) →
    goal ⟨s, l, s', es⟩ ∨ P s' ∧ rank s' ≤ rank s ∧ (own s l → rank s' < rank s)

namespace Ranking

variable {M : System σ ℓ ε} {C own : σ → ℓ → Prop} {P : σ → Prop}
  {goal : Transition σ ℓ ε → Prop} {rank : σ → ℕ} {s s' : σ} {tr : List (Transition σ ℓ ε)}

/-- **The bound.** A run without the goal stays in `P`, and its steps of the action are paid for
by the rank. -/
theorem count_le (hr : Ranking M C own P goal rank) [∀ s, DecidablePred (own s)]
    (hrun : M.Run s tr s') (h0 : P s) (hC : ∀ t ∈ tr, C t.src t.label)
    (hgoal : ∀ t ∈ tr, ¬ goal t) :
    P s' ∧ rank s' + tr.countP (fun t => decide (own t.src t.label)) ≤ rank s := by
  induction hrun with
  | nil => exact ⟨h0, by simp⟩
  | @snoc tr u l v es _ hs ih =>
    obtain ⟨hu, hle⟩ := ih (fun t ht => hC t (List.mem_append_left _ ht))
      fun t ht => hgoal t (List.mem_append_left _ ht)
    have hlast : (⟨u, l, v, es⟩ : Transition σ ℓ ε) ∈ tr ++ [⟨u, l, v, es⟩] :=
      List.mem_append_right _ (List.mem_singleton_self _)
    rcases hr.step u l v es (hC _ hlast) hu hs with hg | ⟨hv, hrank, hown⟩
    · exact absurd hg (hgoal _ hlast)
    · refine ⟨hv, ?_⟩
      rw [List.countP_append, List.countP_singleton]
      by_cases ho : own u l
      · have hlt := hown ho
        rw [if_pos (decide_eq_true ho)]
        omega
      · rw [if_neg (by simpa using ho)]
        omega

/-- **A way to the goal**, by steps of the action alone. -/
theorem exists_run (hr : Ranking M C own P goal rank) (hC : ∀ s l, own s l → C s l) (h0 : P s) :
    ∃ tr t, M.Run s (tr ++ [t]) t.dst ∧ (∀ u ∈ tr ++ [t], own u.src u.label) ∧ goal t := by
  induction hk : rank s using Nat.strongRecOn generalizing s with
  | ind k ih =>
    obtain ⟨l, hl, hsome⟩ := hr.enabled s h0
    obtain ⟨⟨s', es⟩, hs⟩ := Option.isSome_iff_exists.1 hsome
    rcases hr.step s l s' es (hC s l hl) h0 hs with hg | ⟨hp, -, hlt⟩
    · refine ⟨[], ⟨s, l, s', es⟩, System.Run.nil.snoc hs, fun u hu => ?_, hg⟩
      rw [List.mem_singleton.1 hu]
      exact hl
    · obtain ⟨tr, t, hrun, hown, hg⟩ := ih _ (hk ▸ hlt hl) hp rfl
      refine ⟨⟨s, l, s', es⟩ :: tr, t, ?_, fun u hu => ?_, hg⟩
      · exact (System.Run.nil.snoc hs).append hrun
      · rcases List.mem_cons.1 hu with rfl | hu
        · exact hl
        · exact hown u hu

/-- **The leads-to rule.** A weakly fair execution that is in `P` comes to the goal. -/
theorem leads (hr : Ranking M C own P goal rank) (x : Execution M) (hfair : x.WeaklyFair own)
    (hC : ∀ n, C (x.state n) (x.label n)) {n : ℕ} (h0 : P (x.state n)) :
    ∃ m, n ≤ m ∧ goal (x.transition m) := by
  induction hk : rank (x.state n) using Nat.strongRecOn generalizing n with
  | ind k ih =>
    by_contra hnone
    -- without the goal the execution stays in `P`, and the action stays enabled
    have hstay : ∀ m, n ≤ m → P (x.state m) ∧ rank (x.state m) ≤ k := by
      intro m hm
      induction hm with
      | refl => exact ⟨h0, hk.le⟩
      | @step m hm ihm =>
        rcases hr.step _ _ _ _ (hC m) ihm.1 (x.next m) with hg | ⟨hp, hrank, -⟩
        · exact absurd ⟨m, hm, hg⟩ hnone
        · exact ⟨hp, hrank.trans ihm.2⟩
    obtain ⟨m, hm, ht⟩ := hfair n fun m hm => hr.enabled _ (hstay m hm).1
    -- so it is taken, and lowers the rank
    rcases hr.step _ _ _ _ (hC m) (hstay m hm).1 (x.next m) with hg | ⟨hp, -, hlt⟩
    · exact hnone ⟨m, hm, hg⟩
    · obtain ⟨j, hj, hg⟩ := ih _ (lt_of_lt_of_le (hlt ht) (hstay m hm).2) hp rfl
      exact hnone ⟨j, by omega, hg⟩

end Ranking

end Lts
