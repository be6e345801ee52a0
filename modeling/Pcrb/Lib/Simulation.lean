import Pcrb.Lib.Lts
import Mathlib.Data.Set.Basic

/-!
# Simulations and the traces they carry over

A trace of a system is what can be seen of the history of a run. A `Simulation` relates
the states of two systems so that each step of the one is matched by a run of the other
that shows the same.

* `Simulation.run`: each run of the one is matched by a run of the other.
* `Simulation.reach`, `Simulation.traces_subset`: so are what it reaches, and its traces.
* `traces_eq`: with a simulation each way the two systems have the same traces.
-/

namespace Lts

variable {σ ℓ ε σ' ℓ' ε' ν : Type*}

/-- What can be seen of a run. -/
def trace (see : ε → Option ν) (tr : List (Transition σ ℓ ε)) : List ν :=
  (history tr).filterMap see

@[simp] theorem trace_nil (see : ε → Option ν) :
    trace see ([] : List (Transition σ ℓ ε)) = [] := rfl

@[simp] theorem trace_append (see : ε → Option ν) (tr tr' : List (Transition σ ℓ ε)) :
    trace see (tr ++ tr') = trace see tr ++ trace see tr' := by
  simp [trace]

@[simp] theorem trace_cons (see : ε → Option ν) (t : Transition σ ℓ ε)
    (tr : List (Transition σ ℓ ε)) :
    trace see (t :: tr) = t.events.filterMap see ++ trace see tr := by
  simp [trace, history]

/-- The traces of the runs whose steps all meet `C`. -/
def System.traces (M : System σ ℓ ε) (C : σ → ℓ → Prop) (see : ε → Option ν) : Set (List ν) :=
  { w | ∃ s₀ tr s, M.init s₀ ∧ M.Run s₀ tr s ∧ (∀ t ∈ tr, C t.src t.label) ∧ trace see tr = w }

/-- `R` is kept by matching each step of `M` that meets `C` with a run of `N` that shows the
same, and whose steps meet `C'`. -/
structure Simulation (M : System σ ℓ ε) (C : σ → ℓ → Prop) (see : ε → Option ν)
    (N : System σ' ℓ' ε') (C' : σ' → ℓ' → Prop) (see' : ε' → Option ν)
    (R : σ → σ' → Prop) : Prop where
  init : ∀ s, M.init s → ∃ a₀ tr a, N.init a₀ ∧ N.Run a₀ tr a ∧ (∀ t ∈ tr, C' t.src t.label) ∧
    trace see' tr = [] ∧ R s a
  step : ∀ s l s' es a, C s l → R s a → M.step s l = some (s', es) →
    ∃ tr a', N.Run a tr a' ∧ (∀ t ∈ tr, C' t.src t.label) ∧
      trace see' tr = es.filterMap see ∧ R s' a'

variable {M : System σ ℓ ε} {C : σ → ℓ → Prop} {see : ε → Option ν}
  {N : System σ' ℓ' ε'} {C' : σ' → ℓ' → Prop} {see' : ε' → Option ν}
  {R : σ → σ' → Prop} {R' : σ' → σ → Prop}

namespace Simulation

/-- **A run is matched by a run**, from related states to related states. -/
theorem run (h : Simulation M C see N C' see' R) {s s' : σ} {a : σ'}
    {tr : List (Transition σ ℓ ε)} (hrun : M.Run s tr s') (hC : ∀ t ∈ tr, C t.src t.label)
    (hR : R s a) :
    ∃ tr' a', N.Run a tr' a' ∧ (∀ t ∈ tr', C' t.src t.label) ∧ trace see' tr' = trace see tr ∧
      R s' a' := by
  induction hrun with
  | nil => exact ⟨[], a, .nil, by simp, by simp, hR⟩
  | snoc _ hs ih =>
    obtain ⟨tr₁, a₁, hrun₁, hC₁, htrace₁, hR₁⟩ := ih fun t ht => hC t (List.mem_append_left _ ht)
    obtain ⟨tr₂, a₂, hrun₂, hC₂, htrace₂, hR₂⟩ :=
      h.step _ _ _ _ _ (hC _ (List.mem_append_right _ (List.mem_singleton_self _))) hR₁ hs
    refine ⟨tr₁ ++ tr₂, a₂, hrun₁.append hrun₂, ?_, by simp [htrace₁, htrace₂], hR₂⟩
    intro t ht
    rcases List.mem_append.1 ht with ht | ht
    · exact hC₁ t ht
    · exact hC₂ t ht

/-- **What is reached** by the one from its start is matched by what the other reaches. -/
theorem reach (h : Simulation M C see N C' see' R) {s₀ s : σ} {tr : List (Transition σ ℓ ε)}
    (h0 : M.init s₀) (hrun : M.Run s₀ tr s) (hC : ∀ t ∈ tr, C t.src t.label) :
    ∃ a₀ tr' a, N.init a₀ ∧ N.Run a₀ tr' a ∧ (∀ t ∈ tr', C' t.src t.label) ∧
      trace see' tr' = trace see tr ∧ R s a := by
  obtain ⟨a₀, tr₀, a, ha, hrun₀, hC₀, htrace₀, hR⟩ := h.init s₀ h0
  obtain ⟨tr₁, a₁, hrun₁, hC₁, htrace₁, hR₁⟩ := h.run hrun hC hR
  refine ⟨a₀, tr₀ ++ tr₁, a₁, ha, hrun₀.append hrun₁, ?_, by simp [htrace₀, htrace₁], hR₁⟩
  intro t ht
  rcases List.mem_append.1 ht with ht | ht
  · exact hC₀ t ht
  · exact hC₁ t ht

/-- **The traces of the one are traces of the other.** -/
theorem traces_subset (h : Simulation M C see N C' see' R) :
    M.traces C see ⊆ N.traces C' see' := by
  rintro w ⟨s₀, tr, s, h0, hrun, hC, rfl⟩
  obtain ⟨a₀, tr', a, ha, hrun', hC', htrace, -⟩ := h.reach h0 hrun hC
  exact ⟨a₀, tr', a, ha, hrun', hC', htrace⟩

end Simulation

/-- **Simulations both ways**: the same traces. -/
theorem traces_eq (h : Simulation M C see N C' see' R) (h' : Simulation N C' see' M C see R') :
    M.traces C see = N.traces C' see' :=
  Set.Subset.antisymm h.traces_subset h'.traces_subset

end Lts
