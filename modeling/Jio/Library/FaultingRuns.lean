import Mathlib.Data.List.Infix

/-! Runs of steps any of which can fault. An invariant that may speak of the steps made so far
holds throughout exactly the runs no step of which faults. -/
namespace FaultingRuns

variable {ε σ δ : Type} {step : σ → δ → Except ε σ} {ok : δ → Prop}
  {Holds : σ → List δ → Prop} {s s' : σ} {done steps : List δ}

/-- No step faults, and what is to hold does so after each. -/
def Throughout (step : σ → δ → Except ε σ) (Holds : σ → List δ → Prop) (s : σ)
    (steps : List δ) : Prop :=
  ∀ before, before <+: steps → ∃ s', before.foldlM step s = .ok s' ∧ Holds s' before

/-- What every step preserves, a run preserves. -/
theorem run_holds
    (kept : ∀ s s' done d, step s d = .ok s' → Holds s done → Holds s' (done ++ [d]))
    (ran : steps.foldlM step s = .ok s') (holds : Holds s done) : Holds s' (done ++ steps) := by
  induction steps generalizing s done with
  | nil =>
    obtain rfl := Except.ok.inj ran
    rwa [List.append_nil]
  | cons d steps ih =>
    rw [List.foldlM_cons] at ran
    cases next : step s d with
    | error fault => simp [next, bind, Except.bind] at ran
    | ok middle =>
      rw [next] at ran
      rw [List.append_cons]
      exact ih ran (kept s middle done d next holds)

variable (ok Holds) in
/-- Where a step can always be made, a run can. -/
theorem run_exists
    (goes : ∀ s done d, ok d → Holds s done → ∃ s', step s d = .ok s' ∧ Holds s' (done ++ [d]))
    (fine : ∀ d ∈ steps, ok d) (holds : Holds s done) :
    ∃ s', steps.foldlM step s = .ok s' ∧ Holds s' (done ++ steps) := by
  induction steps generalizing s done with
  | nil => exact ⟨s, rfl, by rwa [List.append_nil]⟩
  | cons d steps ih =>
    obtain ⟨here, later⟩ := List.forall_mem_cons.mp fine
    obtain ⟨middle, next, holds⟩ := goes s done d here holds
    obtain ⟨s', ran, holds⟩ := ih later holds
    refine ⟨s', ?_, by rwa [List.append_cons]⟩
    rw [List.foldlM_cons, next]
    exact ran

/-- A run gets through exactly if each of its steps does. -/
theorem run_ok_iff (runs : ∀ s d, (∃ s', step s d = .ok s') ↔ ok d) :
    (∃ s', steps.foldlM step s = .ok s') ↔ ∀ d ∈ steps, ok d := by
  induction steps generalizing s with
  | nil => exact iff_of_true ⟨s, rfl⟩ nofun
  | cons d steps ih =>
    rw [List.foldlM_cons, List.forall_mem_cons, ← runs s d]
    cases next : step s d with
    | error fault => simp [bind, Except.bind]
    | ok middle =>
      rw [← @ih middle]
      simp [bind, Except.bind]

theorem throughout_iff (runs : ∀ s d, (∃ s', step s d = .ok s') ↔ ok d)
    (kept : ∀ s s' done d, step s d = .ok s' → Holds s done → Holds s' (done ++ [d]))
    (starts : Holds s []) : Throughout step Holds s steps ↔ ∀ d ∈ steps, ok d := by
  constructor
  · intro throughout
    obtain ⟨s', ran, -⟩ := throughout steps List.prefix_rfl
    exact (run_ok_iff runs).mp ⟨s', ran⟩
  · intro fine before here
    obtain ⟨s', ran⟩ := (run_ok_iff runs).mpr fun d member => fine d (here.subset member)
    exact ⟨s', ran, run_holds kept ran starts⟩

end FaultingRuns
