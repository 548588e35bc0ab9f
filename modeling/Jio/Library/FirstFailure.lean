import Jio.Library.Interleaving

/-! Processes that take turns until one of them fails. What the processes come to alone says
how every schedule may end: at rest, if none of them comes to a failure, and otherwise
with a failure that one of them comes to. -/
namespace Interleaving

/-- What a turn comes to. -/
inductive Turned (E R : Type*) where
  | goesOn (state : R)
  | failed (code : E)
  | rests

variable {ι L S L' S' E R R' : Type*}

def Turned.map (f : R → R') : Turned E R → Turned E R'
  | goesOn state => goesOn (f state)
  | failed code => failed code
  | rests => rests

section Runs

variable [DecidableEq ι]

/-- Process `i` takes a turn. -/
def turned (act : ι → L → S → Turned E (L × S)) (state : Processes ι L S) (i : ι) :
    Turned E (Processes ι L S) :=
  (act i (state.own i) state.shared).map fun (l, s) => ⟨Function.update state.own i l, s⟩

/-- The processes take turns as scheduled, up to the first failure. One at rest is passed
over. -/
def runUntil (act : ι → L → S → Turned E (L × S)) :
    Processes ι L S → List ι → Except E (Processes ι L S)
  | state, [] => .ok state
  | state, i :: schedule =>
    match turned act state i with
    | .goesOn next => runUntil act next schedule
    | .failed code => .error code
    | .rests => runUntil act state schedule

variable {act : ι → L → S → Turned E (L × S)} {state last : Processes ι L S}

theorem runUntil_append (schedule schedule' : List ι)
    (ran : runUntil act state schedule = .ok last) :
    runUntil act state (schedule ++ schedule') = runUntil act last schedule' := by
  induction schedule generalizing state with
  | nil =>
    cases ran
    rfl
  | cons i schedule ih =>
    rw [runUntil] at ran
    rw [List.cons_append, runUntil]
    cases took : turned act state i with
    | goesOn next => exact ih (by simpa only [took] using ran)
    | failed code => simp [took] at ran
    | rests => exact ih (by simpa only [took] using ran)

/-- A view of the processes that turns respect is respected by every schedule. -/
theorem runUntil_view {act' : ι → L' → S' → Turned E (L' × S')}
    {view : Processes ι L S → Processes ι L' S'} {P : Processes ι L S → Prop}
    (kept : ∀ state i next, P state → turned act state i = .goesOn next → P next)
    (respected : ∀ state i, P state →
      (turned act state i).map view = turned act' (view state) i)
    (start : P state) (schedule : List ι) :
    (runUntil act state schedule).map view = runUntil act' (view state) schedule := by
  induction schedule generalizing state with
  | nil => rfl
  | cons i schedule ih =>
    unfold runUntil
    rw [← respected state i start]
    cases took : turned act state i with
    | goesOn next => exact ih (kept state i next start took)
    | failed code => rfl
    | rests => exact ih start

end Runs

/-! ## Processes that share nothing -/

/-- What a process comes to alone: to rest, or to a failure. -/
inductive ComesTo (step : L → Turned E L) : L → Except E L → Prop
  | rests {l : L} (rests : step l = .rests) : ComesTo step l (.ok l)
  | failed {l : L} {code : E} (fails : step l = .failed code) : ComesTo step l (.error code)
  | goesOn {l l' : L} {r : Except E L} (steps : step l = .goesOn l') (rest : ComesTo step l' r) :
      ComesTo step l r

section Alone

variable {step : L → Turned E L} {l l' : L} {r r' : Except E L}

theorem comesTo_of_goesOn (steps : step l = .goesOn l') :
    ComesTo step l r ↔ ComesTo step l' r := by
  constructor
  · rintro (rests | fails | ⟨steps', rest⟩)
    · cases steps.symm.trans rests
    · cases steps.symm.trans fails
    · cases steps.symm.trans steps'
      exact rest
  · exact .goesOn steps

theorem ComesTo.unique (comes : ComesTo step l r) (comes' : ComesTo step l r') : r = r' := by
  induction comes with
  | rests rests =>
    rcases comes' with _ | fails | ⟨steps, -⟩
    · rfl
    · cases rests.symm.trans fails
    · cases rests.symm.trans steps
  | failed fails =>
    rcases comes' with rests | fails' | ⟨steps, -⟩
    · cases fails.symm.trans rests
    · cases fails.symm.trans fails'
      rfl
    · cases fails.symm.trans steps
  | goesOn steps rest ih => exact ih ((comesTo_of_goesOn steps).mp comes')

theorem ComesTo.at_rest (comes : ComesTo step l (.ok l')) : step l' = .rests := by
  generalize outcome : (Except.ok l' : Except E L) = r at comes
  induction comes with
  | rests rests =>
    cases outcome
    exact rests
  | failed fails => cases outcome
  | goesOn steps rest ih => exact ih outcome

end Alone

section Apart

/-- A turn of a process that shares nothing. -/
def apart (step : ι → L → Turned E L) (i : ι) (l : L) (_ : Unit) : Turned E (L × Unit) :=
  (step i l).map fun l => (l, ())

variable [DecidableEq ι] {step : ι → L → Turned E L} {state last : Processes ι L Unit}
  {schedule : List ι}

theorem turned_apart (i : ι) : turned (apart step) state i =
    (step i (state.own i)).map fun l => ⟨Function.update state.own i l, ()⟩ := by
  unfold turned apart
  cases step i (state.own i) <;> rfl

theorem runUntil_goesOn {i : ι} {l : L} (steps : step i (state.own i) = .goesOn l) :
    runUntil (apart step) state (i :: schedule) =
      runUntil (apart step) ⟨Function.update state.own i l, ()⟩ schedule := by
  rw [runUntil, turned_apart, steps, Turned.map]

theorem runUntil_failed {i : ι} {code : E} (fails : step i (state.own i) = .failed code) :
    runUntil (apart step) state (i :: schedule) = .error code := by
  rw [runUntil, turned_apart, fails, Turned.map]

theorem runUntil_rests {i : ι} (rests : step i (state.own i) = .rests) :
    runUntil (apart step) state (i :: schedule) = runUntil (apart step) state schedule := by
  rw [runUntil, turned_apart, rests, Turned.map]

/-- What a process comes to, no schedule changes. -/
theorem comesTo_of_runUntil (ran : runUntil (apart step) state schedule = .ok last) (i : ι)
    (r : Except E L) : ComesTo (step i) (last.own i) r ↔ ComesTo (step i) (state.own i) r := by
  induction schedule generalizing state with
  | nil =>
    cases ran
    rfl
  | cons j schedule ih =>
    cases took : step j (state.own j) with
    | goesOn l =>
      rw [runUntil_goesOn took] at ran
      rw [ih ran]
      dsimp only
      by_cases here : i = j
      · subst here
        rw [Function.update_self, comesTo_of_goesOn took]
      · rw [Function.update_of_ne here]
    | failed code =>
      rw [runUntil_failed took] at ran
      cases ran
    | rests => exact ih (runUntil_rests took ▸ ran)

/-- A schedule fails as one of the processes does. -/
theorem comesTo_of_failed {code : E} (ran : runUntil (apart step) state schedule = .error code) :
    ∃ i, ComesTo (step i) (state.own i) (.error code) := by
  induction schedule generalizing state with
  | nil => cases ran
  | cons j schedule ih =>
    cases took : step j (state.own j) with
    | goesOn l =>
      obtain ⟨i, comes⟩ := ih (runUntil_goesOn took ▸ ran)
      refine ⟨i, ?_⟩
      dsimp only at comes
      by_cases here : i = j
      · subst here
        rw [Function.update_self] at comes
        exact .goesOn took comes
      · rwa [Function.update_of_ne here] at comes
    | failed code' =>
      rw [runUntil_failed took] at ran
      cases ran
      exact ⟨j, .failed took⟩
    | rests => exact ih (runUntil_rests took ▸ ran)

/-- One process takes turns until it is at rest, or fails. -/
theorem ComesTo.runs {i : ι} {r : Except E L} (comes : ComesTo (step i) (state.own i) r) :
    ∃ n, runUntil (apart step) state (.replicate n i) =
      r.map fun l => ⟨Function.update state.own i l, ()⟩ := by
  generalize own : state.own i = l at comes
  induction comes generalizing state with
  | rests rests =>
    refine ⟨0, ?_⟩
    subst own
    rw [Except.map, Function.update_eq_self]
    rfl
  | failed fails => exact ⟨1, runUntil_failed (own ▸ fails)⟩
  | @goesOn l l' r steps rest ih =>
    obtain ⟨n, ran⟩ := @ih ⟨Function.update state.own i l', ()⟩ (Function.update_self ..)
    refine ⟨n + 1, ?_⟩
    rw [List.replicate_succ, runUntil_goesOn (own ▸ steps), ran]
    simp only [Function.update_idem]

/-- No process can go on. -/
def AtRest (step : ι → L → Turned E L) (state : Processes ι L Unit) : Prop :=
  ∀ i, step i (state.own i) = .rests

/-- Where every process comes to something, so does some schedule. -/
theorem exists_runUntil [Fintype ι] (comes : ∀ i, ∃ r, ComesTo (step i) (state.own i) r) :
    ∃ schedule, (∃ code, runUntil (apart step) state schedule = .error code) ∨
      ∃ last, runUntil (apart step) state schedule = .ok last ∧ AtRest step last := by
  have stops (is : List ι) : ∃ schedule,
      (∃ code, runUntil (apart step) state schedule = .error code) ∨
        ∃ last, runUntil (apart step) state schedule = .ok last ∧
          ∀ i ∈ is, step i (last.own i) = .rests := by
    induction is with
    | nil => exact ⟨[], .inr ⟨state, rfl, nofun⟩⟩
    | cons i is ih =>
      obtain ⟨schedule, failed | ⟨last, ran, rest⟩⟩ := ih
      · exact ⟨schedule, .inl failed⟩
      · obtain ⟨r, comes⟩ := comes i
        have comes := (comesTo_of_runUntil ran i r).mpr comes
        obtain ⟨n, alone⟩ := comes.runs
        rw [← runUntil_append _ _ ran] at alone
        refine ⟨schedule ++ .replicate n i, ?_⟩
        cases r with
        | error code => exact .inl ⟨code, alone⟩
        | ok l =>
          refine .inr ⟨_, alone, ?_⟩
          intro j member
          dsimp only
          by_cases here : j = i
          · subst here
            rw [Function.update_self]
            exact comes.at_rest
          · rw [Function.update_of_ne here]
            exact rest j ((List.mem_cons.mp member).resolve_left here)
  obtain ⟨schedule, failed | ⟨last, ran, rest⟩⟩ := stops Finset.univ.toList
  · exact ⟨schedule, .inl failed⟩
  · exact ⟨schedule, .inr ⟨last, ran, fun i => rest i (Finset.mem_toList.mpr (Finset.mem_univ i))⟩⟩

end Apart

end Interleaving
