import Mathlib.Algebra.BigOperators.Group.Finset.Basic
import Mathlib.Algebra.BigOperators.Pi
import Mathlib.Data.Fintype.BigOperators

/-! Processes that take turns. Each has a state of its own, all of them share
one more, and a schedule says whose turn it is. A turn touches one process and
what is shared, so what holds of each process by itself holds under every
schedule, and a shared total stays the sum of what the processes added to it. -/
namespace Interleaving

/-- The states of the processes, and the state they share. -/
structure Processes (ι L S : Type*) where
  own : ι → L
  shared : S

variable {ι L S M : Type*} [DecidableEq ι]

/-- Process `i` takes a turn, if it can. -/
def turn (act : ι → L → S → Option (L × S)) (state : Processes ι L S) (i : ι) :
    Option (Processes ι L S) :=
  (act i (state.own i) state.shared).map fun (l, s) => ⟨Function.update state.own i l, s⟩

/-- The processes take turns as scheduled. -/
def run (act : ι → L → S → Option (L × S)) :
    Processes ι L S → List ι → Option (Processes ι L S)
  | state, [] => some state
  | state, i :: schedule => (turn act state i).bind fun next => run act next schedule

variable {act : ι → L → S → Option (L × S)}

theorem run_append (state : Processes ι L S) (schedule schedule' : List ι) :
    run act state (schedule ++ schedule') =
      (run act state schedule).bind fun next => run act next schedule' := by
  induction schedule generalizing state with
  | nil => rfl
  | cons i schedule ih =>
    rw [List.cons_append, run, run, Option.bind_assoc]
    exact congrArg _ (funext ih)

theorem turn_some {state next : Processes ι L S} {i : ι} (took : turn act state i = some next) :
    ∃ l s, act i (state.own i) state.shared = some (l, s) ∧
      next = ⟨Function.update state.own i l, s⟩ := by
  obtain ⟨⟨l, s⟩, acted, rfl⟩ := Option.map_eq_some_iff.mp took
  exact ⟨l, s, acted, rfl⟩

/-- What every turn keeps holds after every schedule. -/
theorem run_invariant {P : Processes ι L S → Prop}
    (kept : ∀ state i next, P state → turn act state i = some next → P next)
    {state last : Processes ι L S} {schedule : List ι} (ran : run act state schedule = some last)
    (start : P state) : P last := by
  induction schedule generalizing state with
  | nil => exact Option.some.inj ran ▸ start
  | cons i schedule ih =>
    obtain ⟨next, took, rest⟩ := Option.bind_eq_some_iff.mp ran
    exact ih rest (kept state i next start took)

/-- What a process keeps in its own turns it keeps under every schedule. -/
theorem run_own {P : ι → L → Prop}
    (kept : ∀ i l s l' s', P i l → act i l s = some (l', s') → P i l')
    {state last : Processes ι L S} {schedule : List ι} (ran : run act state schedule = some last)
    (start : ∀ i, P i (state.own i)) : ∀ i, P i (last.own i) := by
  refine run_invariant (P := fun state => ∀ i, P i (state.own i)) ?_ ran start
  intro state i next own took j
  obtain ⟨l, s, acted, rfl⟩ := turn_some took
  by_cases same : j = i
  · subst same
    simpa using kept j _ _ l s (own j) acted
  · simpa [same] using own j

/-- A shared total to which every turn adds what it adds to the own part of the
process stays the sum of the parts. -/
theorem run_sum [Fintype ι] [AddCommMonoid M] {P : ι → L → Prop} (total : S → M)
    (part : L → M)
    (kept : ∀ i l s l' s', P i l → act i l s = some (l', s') → P i l')
    (adds : ∀ i l s l' s', P i l → act i l s = some (l', s') →
      ∃ d, total s' = total s + d ∧ part l' = part l + d)
    {state last : Processes ι L S} {schedule : List ι} (ran : run act state schedule = some last)
    (start : ∀ i, P i (state.own i)) (sum : total state.shared = ∑ i, part (state.own i)) :
    total last.shared = ∑ i, part (last.own i) := by
  induction schedule generalizing state with
  | nil => exact Option.some.inj ran ▸ sum
  | cons i schedule ih =>
    obtain ⟨next, took, rest⟩ := Option.bind_eq_some_iff.mp ran
    have single : run act state [i] = some next := by rw [run, took]; rfl
    refine ih rest (run_own kept single start) ?_
    obtain ⟨l, s, acted, rfl⟩ := turn_some took
    obtain ⟨d, grown, own⟩ := adds i _ _ l s (start i) acted
    have others : ∑ j ∈ Finset.univ.erase i, part (Function.update state.own i l j) =
        ∑ j ∈ Finset.univ.erase i, part (state.own j) :=
      Finset.sum_congr rfl fun j member => by
        rw [Function.update_of_ne (Finset.ne_of_mem_erase member)]
    dsimp only
    rw [grown, sum, ← Finset.add_sum_erase _ _ (Finset.mem_univ i),
      ← Finset.add_sum_erase _ (fun j => part (Function.update state.own i l j))
        (Finset.mem_univ i), others, Function.update_self, own]
    exact add_right_comm ..

/-- A view of the processes that turns respect is respected by every schedule. -/
theorem run_view {L' S' : Type*} {act' : ι → L' → S' → Option (L' × S')}
    {view : Processes ι L S → Processes ι L' S'} {P : Processes ι L S → Prop}
    (kept : ∀ state i next, P state → turn act state i = some next → P next)
    (respected : ∀ state i, P state → (turn act state i).map view = turn act' (view state) i)
    {state : Processes ι L S} (start : P state) (schedule : List ι) :
    (run act state schedule).map view = run act' (view state) schedule := by
  induction schedule generalizing state with
  | nil => rfl
  | cons i schedule ih =>
    unfold run
    rw [← respected state i start]
    cases took : turn act state i with
    | none => rfl
    | some next => exact ih (kept state i next start took)

/-! ## Processes that add -/

section Adding

variable [AddCommMonoid M]

/-- A turn adds to what is shared, whatever that is. -/
def adding (step : ι → L → Option (L × M)) (i : ι) (l : L) (total : M) : Option (L × M) :=
  (step i l).map fun (l, d) => (l, total + d)

/-- A process on its own for `n` turns, and what it adds in them. -/
def walk (step : L → Option (L × M)) : Nat → L → Option (L × M)
  | 0, l => some (l, 0)
  | n + 1, l => (step l).bind fun (l, d) => (walk step n l).map fun (l, d') => (l, d + d')

section Walks

variable {step : L → Option (L × M)} {l l' last : L} {d c : M}

theorem walk_succ {n : Nat} : walk step (n + 1) l = some (last, c) ↔
    ∃ l' d c', step l = some (l', d) ∧ walk step n l' = some (last, c') ∧ c = d + c' := by
  simp only [walk, Option.bind_eq_some_iff, Option.map_eq_some_iff, Prod.exists, Prod.mk.injEq]
  constructor
  · rintro ⟨l', d, stepped, last, c', walked, rfl, rfl⟩
    exact ⟨l', d, c', stepped, walked, rfl⟩
  · rintro ⟨l', d, c', stepped, walked, rfl⟩
    exact ⟨l', d, stepped, last, c', walked, rfl, rfl⟩

theorem walk_append {n n' : Nat} : walk step (n + n') l = some (last, c) ↔
    ∃ l' d c', walk step n l = some (l', d) ∧ walk step n' l' = some (last, c') ∧
      c = d + c' := by
  induction n generalizing l c with
  | zero => simp [walk]
  | succ n ih =>
    rw [Nat.add_right_comm, walk_succ]
    constructor
    · rintro ⟨l₁, d, c', stepped, walked, rfl⟩
      obtain ⟨l', d', c'', first, rest, rfl⟩ := ih.mp walked
      exact ⟨l', d + d', c'', walk_succ.mpr ⟨l₁, d, d', stepped, first, rfl⟩, rest,
        (add_assoc ..).symm⟩
    · rintro ⟨l', d, c', first, rest, rfl⟩
      obtain ⟨l₁, d₁, d', stepped, walked, rfl⟩ := walk_succ.mp first
      exact ⟨l₁, d₁, d' + c', stepped, ih.mpr ⟨l', d', c', walked, rest, rfl⟩, add_assoc ..⟩

/-- A process that has stopped stays where it is. -/
theorem walk_stopped {n : Nat} (stops : step l = none) (walked : walk step n l = some (last, c)) :
    l = last ∧ c = 0 := by
  cases n with
  | zero =>
    obtain ⟨same, none⟩ := Prod.mk.inj (Option.some.inj walked)
    exact ⟨same, none.symm⟩
  | succ n =>
    obtain ⟨l', d, c', stepped, -, -⟩ := walk_succ.mp walked
    rw [stops] at stepped
    cases stepped

/-- A walk to where the process stops passes through wherever else it walks. -/
theorem walk_rest {n n' : Nat} (walked : walk step n l = some (last, c)) (stops : step last = none)
    (other : walk step n' l = some (l', d)) :
    ∃ n'' c', n = n' + n'' ∧ walk step n'' l' = some (last, c') ∧ c = d + c' := by
  by_cases within : n' ≤ n
  · obtain ⟨n'', rfl⟩ := Nat.exists_eq_add_of_le within
    obtain ⟨l₁, d₁, c', first, rest, rfl⟩ := walk_append.mp walked
    obtain ⟨rfl, rfl⟩ := Prod.mk.inj (Option.some.inj (first.symm.trans other))
    exact ⟨n'', c', rfl, rest, rfl⟩
  · obtain ⟨n'', rfl⟩ := Nat.exists_eq_add_of_lt (Nat.lt_of_not_le within)
    rw [Nat.add_assoc] at other
    obtain ⟨l₁, d₁, c', first, rest, -⟩ := walk_append.mp other
    obtain ⟨rfl, -⟩ := Prod.mk.inj (Option.some.inj (first.symm.trans walked))
    obtain ⟨l₂, d₂, c'', stepped, -, -⟩ := walk_succ.mp rest
    rw [stops] at stepped
    cases stepped

/-- A process stops in one place only, and has then added the same. -/
theorem walk_stops {n n' : Nat} (walked : walk step n l = some (last, c)) (stops : step last = none)
    (other : walk step n' l = some (l', d)) (stops' : step l' = none) : l' = last ∧ d = c := by
  obtain ⟨n'', c', -, rest, rfl⟩ := walk_rest walked stops other
  obtain ⟨rfl, rfl⟩ := walk_stopped stops' rest
  exact ⟨rfl, (add_zero d).symm⟩

end Walks

variable [Fintype ι] {step : ι → L → Option (L × M)} {state last : Processes ι L M}

/-- Under every schedule each process walks as if it were alone, and the total is the sum of
what they add alone. -/
theorem run_adding {schedule : List ι} (ran : run (adding step) state schedule = some last) :
    ∃ m : ι → M, (∀ i, walk (step i) (schedule.count i) (state.own i) = some (last.own i, m i)) ∧
      last.shared = state.shared + ∑ i, m i := by
  induction schedule generalizing state with
  | nil =>
    obtain rfl := Option.some.inj ran
    exact ⟨fun _ => 0, fun i => rfl, by simp⟩
  | cons i schedule ih =>
    obtain ⟨next, took, rest⟩ := Option.bind_eq_some_iff.mp ran
    obtain ⟨l, total, acted, rfl⟩ := turn_some took
    obtain ⟨⟨l, d⟩, stepped, same⟩ := Option.map_eq_some_iff.mp acted
    obtain ⟨rfl, rfl⟩ := Prod.mk.inj same
    obtain ⟨m, walks, sum⟩ := ih rest
    refine ⟨Pi.single i d + m, ?_, ?_⟩
    · intro j
      by_cases here : j = i
      · subst here
        rw [List.count_cons_self, Pi.add_apply, Pi.single_eq_same]
        exact walk_succ.mpr ⟨l, d, m j, stepped, by simpa using walks j, rfl⟩
      · rw [List.count_cons_of_ne (Ne.symm here), Pi.add_apply, Pi.single_eq_of_ne here, zero_add]
        simpa [here] using walks j
    · simp only [Pi.add_apply]
      rw [sum, Finset.sum_add_distrib, Finset.sum_pi_single', if_pos (Finset.mem_univ i), add_assoc]

/-- Wherever the processes walk alone, some schedule takes them all. -/
theorem exists_run {n : ι → Nat} {own : ι → L} {m : ι → M}
    (walks : ∀ i, walk (step i) (n i) (state.own i) = some (own i, m i)) :
    ∃ schedule, run (adding step) state schedule = some ⟨own, state.shared + ∑ i, m i⟩ := by
  induction turns : ∑ i, n i using Nat.strong_induction_on generalizing state n m with
  | _ turns ih =>
    by_cases idle : ∀ i, n i = 0
    · have rests : ∀ i, own i = state.own i ∧ m i = 0 := by
        intro i
        have walked := walks i
        rw [idle i] at walked
        obtain ⟨same, none⟩ := Prod.mk.inj (Option.some.inj walked)
        exact ⟨same.symm, none.symm⟩
      obtain rfl : own = state.own := funext fun i => (rests i).1
      obtain rfl : m = fun _ => 0 := funext fun i => (rests i).2
      exact ⟨[], by simp [run]⟩
    · obtain ⟨i, busy⟩ := not_forall.mp idle
      obtain ⟨k, count⟩ := Nat.exists_eq_succ_of_ne_zero busy
      have walked := walks i
      rw [count] at walked
      obtain ⟨l, d, c, stepped, rest, added⟩ := walk_succ.mp walked
      have took : turn (adding step) state i =
          some ⟨Function.update state.own i l, state.shared + d⟩ := by
        unfold turn adding
        rw [stepped]
        rfl
      have fewer : ∑ j, Function.update n i k j < ∑ j, n j := by
        rw [Finset.sum_update_of_mem (Finset.mem_univ i),
          Finset.sum_eq_sum_sdiff_singleton_add (Finset.mem_univ i) n, Nat.add_comm, count]
        exact Nat.add_lt_add_left (Nat.lt_succ_self k) _
      have walks' : ∀ j, walk (step j) (Function.update n i k j)
          (Function.update state.own i l j) = some (own j, Function.update m i c j) := by
        intro j
        by_cases here : j = i
        · subst here
          simpa using rest
        · simpa [here] using walks j
      obtain ⟨schedule, ran⟩ :=
        @ih _ (turns ▸ fewer) ⟨Function.update state.own i l, state.shared + d⟩ _ _ walks' rfl
      refine ⟨i :: schedule, ?_⟩
      unfold run
      rw [took]
      refine ran.trans (congrArg (some ∘ Processes.mk own) ?_)
      rw [Finset.sum_update_of_mem (Finset.mem_univ i),
        Finset.sum_eq_sum_sdiff_singleton_add (Finset.mem_univ i) m, added, add_comm _ (d + c)]
      simp only [add_assoc]

/-- What a process walks alone, it walks in some schedule of its own. -/
theorem run_walk {i : ι} {n : Nat} {l : L} {d : M}
    (walked : walk (step i) n (state.own i) = some (l, d)) : ∃ schedule,
      run (adding step) state schedule =
        some ⟨Function.update state.own i l, state.shared + d⟩ := by
  have walks : ∀ j, walk (step j) ((Pi.single i n : ι → ℕ) j) (state.own j) =
      some (Function.update state.own i l j, (Pi.single i d : ι → M) j) := by
    intro j
    by_cases here : j = i
    · subst here
      simpa using walked
    · simp [here, walk]
  obtain ⟨schedule, ran⟩ := exists_run walks
  rw [Finset.sum_pi_single', if_pos (Finset.mem_univ i)] at ran
  exact ⟨schedule, ran⟩

end Adding

end Interleaving
