import Mathlib.Data.List.Chain
import Mathlib.Logic.Relation

/-! Programs that stop at every read and go on from its answer. The state they
share with their callers lives in `σ`; a program ends by handing it on or by
failing with an error code, and both ends keep the state as it then was. A
reader answers the requests; a reader that refines another gives every program,
and every loop over one, the same run (`exec_refines`, `loop_refines`). -/
namespace ReadProgram

/-- `Q` are the requests, `A` the answers, `E` the error codes, `F` the faults
after which nothing is promised. -/
inductive Program (Q A E F σ : Type) where
  | dispatch (s : σ)
  | fail (code : E) (s : σ)
  | abort (fault : F)
  | read (request : Q) (s : σ) (resume : A → Program Q A E F σ)

/-- How a program ends when it ends without a fault. -/
inductive Ended (E σ : Type) where
  | dispatched (s : σ)
  | failed (code : E) (s : σ)
  deriving DecidableEq

/-- What answers requests, threading a state of its own. -/
abbrev Reader (Q A E F ρ : Type) := ρ → Q → Except F (ρ × Except E A)

variable {Q A E F σ ρ ρ' : Type}

/-- The closure a program was given runs where the program dispatches it. -/
def Program.andThen (p : Program Q A E F σ) (closure : σ → Program Q A E F σ) :
    Program Q A E F σ :=
  match p with
  | .dispatch s => closure s
  | .fail code s => .fail code s
  | .abort fault => .abort fault
  | .read request s resume => .read request s fun answer => (resume answer).andThen closure

/-- Run a program against a reader. A read that fails ends the program there. -/
def exec (reader : Reader Q A E F ρ) : ρ → Program Q A E F σ → Except F (ρ × Ended E σ)
  | r, .dispatch s => .ok (r, .dispatched s)
  | r, .fail code s => .ok (r, .failed code s)
  | _, .abort fault => .error fault
  | r, .read request s resume =>
    match reader r request with
    | .error fault => .error fault
    | .ok (r', .error code) => .ok (r', .failed code s)
    | .ok (r', .ok answer) => exec reader r' (resume answer)

/-- Why a loop over a program ended. -/
inductive LoopEnd (E : Type) where
  | finished
  | failed (code : E)
  | running
  deriving DecidableEq

/-- Run `step` again from the state it dispatched, at most `n` times, until the
state it dispatched is a final one. Returns every state dispatched, in order. -/
def loop (reader : Reader Q A E F ρ) (step : σ → Program Q A E F σ) (final : σ → Bool) :
    Nat → ρ → σ → Except F (ρ × List σ × LoopEnd E)
  | 0, r, _ => .ok (r, [], .running)
  | n + 1, r, s =>
    match exec reader r (step s) with
    | .error fault => .error fault
    | .ok (r', .failed code _) => .ok (r', [], .failed code)
    | .ok (r', .dispatched s') =>
      if final s' then .ok (r', [s'], .finished)
      else match loop reader step final n r' s' with
        | .error fault => .error fault
        | .ok (r'', trace, ended) => .ok (r'', s' :: trace, ended)

@[simp] theorem Program.andThen_dispatch (p : Program Q A E F σ) :
    p.andThen Program.dispatch = p := by
  induction p with
  | dispatch s => rfl
  | fail code s => rfl
  | abort fault => rfl
  | read request s resume ih => simp only [andThen, ih]

/-- A closure runs from the state and the reader its program left off with. -/
theorem exec_andThen (reader : Reader Q A E F ρ) (p : Program Q A E F σ)
    (closure : σ → Program Q A E F σ) (r : ρ) :
    exec reader r (p.andThen closure) =
      match exec reader r p with
      | .ok (r', .dispatched s) => exec reader r' (closure s)
      | .ok (r', .failed code s) => .ok (r', .failed code s)
      | .error fault => .error fault := by
  induction p generalizing r with
  | dispatch s => rfl
  | fail code s => rfl
  | abort fault => rfl
  | read request s resume ih =>
    simp only [Program.andThen, exec]
    cases reader r request with
    | error fault => rfl
    | ok reply =>
      obtain ⟨r', answer⟩ := reply
      cases answer with
      | error code => rfl
      | ok answer => exact ih answer r'

/-- The same program for a caller that keeps its state in another shape. -/
def Program.map {τ : Type} (f : σ → τ) : Program Q A E F σ → Program Q A E F τ
  | .dispatch s => .dispatch (f s)
  | .fail code s => .fail code (f s)
  | .abort fault => .abort fault
  | .read request s resume => .read request (f s) fun answer => (resume answer).map f

def Ended.map {τ : Type} (f : σ → τ) : Ended E σ → Ended E τ
  | .dispatched s => .dispatched (f s)
  | .failed code s => .failed code (f s)

theorem exec_map {τ : Type} (f : σ → τ) (reader : Reader Q A E F ρ) (p : Program Q A E F σ)
    (r : ρ) : exec reader r (p.map f) =
      (exec reader r p).map fun (r', ended) => (r', ended.map f) := by
  induction p generalizing r with
  | dispatch s => rfl
  | fail code s => rfl
  | abort fault => rfl
  | read request s resume ih =>
    simp only [Program.map, exec]
    cases reader r request with
    | error fault => rfl
    | ok reply =>
      obtain ⟨r', answer⟩ := reply
      cases answer with
      | error code => rfl
      | ok answer => exact ih answer r'

section Loops

variable {reader : Reader Q A E F ρ} {step : σ → Program Q A E F σ} {final : σ → Bool}

/-- One run of the program leads from one state, and one state of the reader, to
the next. -/
def Dispatches (reader : Reader Q A E F ρ) (step : σ → Program Q A E F σ) (v v' : ρ × σ) : Prop :=
  exec reader v.1 (step v.2) = .ok (v'.1, .dispatched v'.2)

theorem loop_final {v v' : ρ × σ} (ran : Dispatches reader step v v') (done : final v'.2 = true)
    (n : Nat) : loop reader step final (n + 1) v.1 v.2 = .ok (v'.1, [v'.2], .finished) := by
  rw [Dispatches] at ran
  simp only [loop, ran, done, ↓reduceIte]

/-- A loop goes along a chain of states none of which is final. -/
theorem loop_running (final : σ → Bool) {v : ρ × σ} {visits : List (ρ × σ)}
    (chain : List.IsChain (Dispatches reader step) (v :: visits))
    (going : ∀ v ∈ visits, final v.2 = false) :
    ∃ r, loop reader step final visits.length v.1 v.2 =
      .ok (r, visits.map Prod.snd, .running) := by
  induction visits generalizing v with
  | nil => exact ⟨v.1, rfl⟩
  | cons v' visits ih =>
    obtain ⟨first, rest⟩ := List.isChain_cons_cons.mp chain
    obtain ⟨r, ran⟩ := ih rest fun other member => going other (by simp [member])
    have more : final v'.2 = false := going v' (by simp)
    rw [Dispatches] at first
    refine ⟨r, ?_⟩
    simp only [List.length_cons, loop, first, more, Bool.false_eq_true, ↓reduceIte, ran,
      List.map_cons]

/-- A loop that ran for a while and then comes to a fault faults. -/
theorem loop_faults {n m : Nat} {r r' : ρ} {s : σ} {trace : List σ} {fault : F}
    (ran : loop reader step final n r s = .ok (r', trace, .running)) (more : n < m)
    (faults : exec reader r' (step (trace.getLast?.getD s)) = .error fault) :
    loop reader step final m r s = .error fault := by
  induction n generalizing m r s trace with
  | zero =>
    obtain ⟨m, rfl⟩ : ∃ m', m = m' + 1 := ⟨m - 1, by omega⟩
    simp only [loop, Except.ok.injEq, Prod.mk.injEq] at ran
    obtain ⟨rfl, rfl, -⟩ := ran
    unfold loop
    rw [show exec reader r (step s) = .error fault from faults]
  | succ n ih =>
    obtain ⟨m, rfl⟩ : ∃ m', m = m' + 1 := ⟨m - 1, by omega⟩
    unfold loop at ran ⊢
    cases first : exec reader r (step s) with
    | error other => simp [first] at ran
    | ok reply =>
      obtain ⟨middle, ended⟩ := reply
      cases ended with
      | failed code s' => simp [first] at ran
      | dispatched s' =>
        simp only [first] at ran ⊢
        by_cases done : final s' = true
        · simp [done] at ran
        simp only [done, Bool.false_eq_true, ↓reduceIte] at ran ⊢
        split at ran
        · cases ran
        rename_i rest
        simp only [Except.ok.injEq, Prod.mk.injEq] at ran
        obtain ⟨rfl, rfl, rfl⟩ := ran
        rw [ih rest (by omega) (by simpa [List.getLast?_cons] using faults)]

/-- A chain that ends in a final state, after none that is, ends the loop. -/
theorem loop_finished {v last : ρ × σ} {visits : List (ρ × σ)}
    (chain : List.IsChain (Dispatches reader step) (v :: (visits ++ [last])))
    (going : ∀ v ∈ visits, final v.2 = false) (done : final last.2 = true) {n : Nat}
    (fuel : visits.length < n) :
    loop reader step final n v.1 v.2 =
      .ok (last.1, visits.map Prod.snd ++ [last.2], .finished) := by
  obtain ⟨m, rfl⟩ : ∃ m, n = m + 1 := ⟨n - 1, by omega⟩
  induction visits generalizing v m with
  | nil => exact loop_final (List.isChain_pair.mp chain) done m
  | cons v' visits ih =>
    obtain ⟨first, rest⟩ := List.isChain_cons_cons.mp chain
    obtain ⟨m, rfl⟩ : ∃ m', m = m' + 1 := ⟨m - 1, by simp at fuel; omega⟩
    have more : final v'.2 = false := going v' (by simp)
    have ran := ih rest (fun other member => going other (by simp [member])) m (by simpa using fuel)
    rw [Dispatches] at first
    rw [loop]
    simp only [first, more, Bool.false_eq_true, ↓reduceIte, ran, List.map_cons, List.cons_append]

/-- The cells a closure is dispatched with, one after the other, each with what
the closure then makes of the data it keeps. -/
def visitAll {κ υ : Type} (after : κ → υ → υ) : υ → List κ → List (κ × υ)
  | _, [] => []
  | user, cells :: rest => (cells, after cells user) :: visitAll after (after cells user) rest

theorem visitAll_cells {κ υ : Type} (after : κ → υ → υ) (user : υ) (visits : List κ) :
    (visitAll after user visits).map Prod.fst = visits := by
  induction visits generalizing user with
  | nil => rfl
  | cons cells rest ih => rw [visitAll, List.map_cons, ih]

/-- The last visit leaves what all before it have left the closure with. -/
theorem visitAll_concat {κ υ : Type} (after : κ → υ → υ) (user : υ) (visits : List κ) (last : κ) :
    visitAll after user (visits ++ [last]) = visitAll after user visits ++
      [(last, after last (visits.foldl (fun user cells => after cells user) user))] := by
  induction visits generalizing user with
  | nil => rfl
  | cons cells rest ih => rw [List.cons_append, visitAll, ih, visitAll, List.cons_append]; rfl

section Closures

variable {κ υ : Type} {next dispatch : σ → Program Q A E F σ} {leads : κ → κ → Prop} {r : ρ}
  {state : κ → υ → σ} {after : κ → υ → υ}

/-- A program that leads from cells to cells, whatever its caller keeps, leads
the same way with a closure that accepts those cells. -/
theorem dispatches_visit
    (steps : ∀ a b user, leads a b → Dispatches reader next (r, state a user) (r, state b user))
    {a b : κ} {user : υ} (led : leads a b)
    (accepts : dispatch (state b user) = .dispatch (state b (after b user))) :
    Dispatches reader (fun s => (next s).andThen dispatch) (r, state a user)
      (r, state b (after b user)) := by
  have ran := steps a b user led
  rw [Dispatches] at ran ⊢
  dsimp only at ran ⊢
  rw [exec_andThen, ran]
  simp only [accepts, exec]

theorem visitAll_chain
    (steps : ∀ a b user, leads a b → Dispatches reader next (r, state a user) (r, state b user))
    {a : κ} {visits : List κ}
    (accepts : ∀ b ∈ visits, ∀ user, dispatch (state b user) = .dispatch (state b (after b user)))
    (chain : List.IsChain leads (a :: visits)) (user : υ) :
    List.IsChain (Dispatches reader fun s => (next s).andThen dispatch)
      ((r, state a user) :: (visitAll after user visits).map fun v => (r, state v.1 v.2)) := by
  induction visits generalizing a user with
  | nil => exact List.isChain_singleton _
  | cons b visits ih =>
    obtain ⟨led, rest⟩ := List.isChain_cons_cons.mp chain
    have accepted := accepts b (by simp)
    have first := dispatches_visit steps led (accepted user)
    have others := ih (fun other member => accepts other (by simp [member])) rest (after b user)
    exact List.isChain_cons_cons.mpr ⟨first, others⟩

/-- A chain of cells that ends in final ones, after none that are, is what a loop
dispatches an accepting closure with. -/
theorem loop_visits {final : σ → Bool}
    (steps : ∀ a b user, leads a b → Dispatches reader next (r, state a user) (r, state b user))
    {a last : κ} {visits : List κ}
    (accepts : ∀ b ∈ visits ++ [last], ∀ user,
      dispatch (state b user) = .dispatch (state b (after b user)))
    (chain : List.IsChain leads (a :: (visits ++ [last])))
    (going : ∀ b ∈ visits, ∀ user, final (state b user) = false)
    (done : ∀ user, final (state last user) = true) {n : Nat} (fuel : visits.length < n)
    (user : υ) :
    loop reader (fun s => (next s).andThen dispatch) final n r (state a user) =
      .ok (r, (visitAll after user (visits ++ [last])).map fun v => state v.1 v.2, .finished) := by
  have walked := visitAll_chain steps accepts chain user
  have shape := visitAll_concat after user visits last
  rw [shape, List.map_append, List.map_singleton] at walked
  have running : ∀ v ∈ (visitAll after user visits).map fun v => (r, state v.1 v.2),
      final v.2 = false := by
    intro v member
    obtain ⟨⟨b, user⟩, held, rfl⟩ := List.mem_map.mp member
    have visited := List.mem_map_of_mem (f := Prod.fst) held
    rw [visitAll_cells] at visited
    exact going b visited user
  have length : ((visitAll after user visits).map fun v => (r, state v.1 v.2)).length < n := by
    rw [List.length_map, ← List.length_map Prod.fst, visitAll_cells]
    exact fuel
  have ran := loop_finished walked running (done _) length
  rw [ran, shape, List.map_append, List.map_map]
  rfl

end Closures

end Loops

section Ends

variable {reader : Reader Q A E F ρ} {step : σ → Program Q A E F σ} {final : σ → Bool}
  {expected : E → Prop} {r r' : ρ} {s s' : σ}

/-- A loop ends in a final state, or fails with a code that is expected. -/
def LoopEnds (reader : Reader Q A E F ρ) (step : σ → Program Q A E F σ) (final : σ → Bool)
    (expected : E → Prop) (r : ρ) (s : σ) : Prop :=
  ∃ fuel r' trace ended, loop reader step final fuel r s = .ok (r', trace, ended) ∧
    (ended = .finished ∨ ∃ code, expected code ∧ ended = .failed code)

theorem LoopEnds.of_failed {code : E} (ran : exec reader r (step s) = .ok (r', .failed code s'))
    (ok : expected code) : LoopEnds reader step final expected r s :=
  ⟨1, r', [], .failed code, by simp only [loop, ran], .inr ⟨code, ok, rfl⟩⟩

theorem LoopEnds.of_dispatched (ran : exec reader r (step s) = .ok (r', .dispatched s'))
    (more : final s' = false) (ends : LoopEnds reader step final expected r' s') :
    LoopEnds reader step final expected r s := by
  obtain ⟨fuel, last, trace, ended, rest, how⟩ := ends
  refine ⟨fuel + 1, last, s' :: trace, ended, ?_, how⟩
  simp only [loop, ran, more, Bool.false_eq_true, ↓reduceIte, rest]

/-- A loop that ends goes on to end from the state it dispatched. -/
theorem LoopEnds.dispatched (ends : LoopEnds reader step final expected r s)
    (ran : exec reader r (step s) = .ok (r', .dispatched s')) (more : final s' = false) :
    LoopEnds reader step final expected r' s' := by
  obtain ⟨fuel, last, trace, ended, whole, how⟩ := ends
  cases fuel with
  | zero =>
    simp only [loop, Except.ok.injEq, Prod.mk.injEq] at whole
    obtain ⟨-, -, rfl⟩ := whole
    simp at how
  | succ fuel =>
    simp only [loop, ran, more, Bool.false_eq_true, ↓reduceIte] at whole
    split at whole
    · cases whole
    · rename_i last' trace' ended' rest
      simp only [Except.ok.injEq, Prod.mk.injEq] at whole
      obtain ⟨rfl, -, rfl⟩ := whole
      exact ⟨fuel, _, _, _, rest, how⟩

theorem LoopEnds.no_fault (ends : LoopEnds reader step final expected r s) (fault : F) :
    exec reader r (step s) ≠ .error fault := by
  intro faulted
  obtain ⟨fuel, last, trace, ended, whole, how⟩ := ends
  cases fuel with
  | zero =>
    simp only [loop, Except.ok.injEq, Prod.mk.injEq] at whole
    obtain ⟨-, -, rfl⟩ := whole
    simp at how
  | succ fuel =>
    simp only [loop, faulted] at whole
    cases whole

end Ends

section Refinement

variable {reader : Reader Q A E F ρ} {reader' : Reader Q A E F ρ'} {related : ρ → ρ' → Prop}

/-- Where the second reader does not fault, the first one gives its answer. -/
def Refines (related : ρ → ρ' → Prop) (reader : Reader Q A E F ρ) (reader' : Reader Q A E F ρ') :
    Prop :=
  ∀ r r' request next' answer, related r r' → reader' r' request = .ok (next', answer) →
    ∃ next, reader r request = .ok (next, answer) ∧ related next next'

theorem exec_refines (refines : Refines related reader reader') {p : Program Q A E F σ}
    {r : ρ} {r' next' : ρ'} {ended : Ended E σ} (start : related r r')
    (ran : exec reader' r' p = .ok (next', ended)) :
    ∃ next, exec reader r p = .ok (next, ended) ∧ related next next' := by
  induction p generalizing r r' with
  | dispatch s =>
    simp only [exec, Except.ok.injEq, Prod.mk.injEq] at ran ⊢
    obtain ⟨rfl, rfl⟩ := ran
    exact ⟨r, ⟨rfl, rfl⟩, start⟩
  | fail code s =>
    simp only [exec, Except.ok.injEq, Prod.mk.injEq] at ran ⊢
    obtain ⟨rfl, rfl⟩ := ran
    exact ⟨r, ⟨rfl, rfl⟩, start⟩
  | abort fault => simp [exec] at ran
  | read request s resume ih =>
    simp only [exec] at ran ⊢
    cases asked : reader' r' request with
    | error fault => simp [asked] at ran
    | ok reply =>
      obtain ⟨middle', answer⟩ := reply
      obtain ⟨middle, same, still⟩ := refines r r' request middle' answer start asked
      rw [same]
      simp only [asked] at ran
      cases answer with
      | error code =>
        simp only [Except.ok.injEq, Prod.mk.injEq] at ran ⊢
        obtain ⟨rfl, rfl⟩ := ran
        exact ⟨middle, ⟨rfl, rfl⟩, still⟩
      | ok answer => exact ih answer still ran

theorem loop_refines (refines : Refines related reader reader') {step : σ → Program Q A E F σ}
    {final : σ → Bool} {n : Nat} {s : σ} {r : ρ} {r' next' : ρ'} {trace : List σ}
    {ended : LoopEnd E} (start : related r r')
    (ran : loop reader' step final n r' s = .ok (next', trace, ended)) :
    ∃ next, loop reader step final n r s = .ok (next, trace, ended) ∧ related next next' := by
  induction n generalizing s r r' trace with
  | zero =>
    simp only [loop, Except.ok.injEq, Prod.mk.injEq] at ran ⊢
    obtain ⟨rfl, rfl, rfl⟩ := ran
    exact ⟨r, ⟨rfl, rfl, rfl⟩, start⟩
  | succ n ih =>
    simp only [loop] at ran ⊢
    cases first : exec reader' r' (step s) with
    | error fault => simp [first] at ran
    | ok reply =>
      obtain ⟨middle', ended'⟩ := reply
      obtain ⟨middle, same, still⟩ := exec_refines refines start first
      rw [same]
      simp only [first] at ran
      cases ended' with
      | failed code s' =>
        simp only [Except.ok.injEq, Prod.mk.injEq] at ran ⊢
        obtain ⟨rfl, rfl, rfl⟩ := ran
        exact ⟨middle, ⟨rfl, rfl, rfl⟩, still⟩
      | dispatched s' =>
        simp only at ran ⊢
        split
        · rename_i done
          simp only [done, ↓reduceIte, Except.ok.injEq, Prod.mk.injEq] at ran ⊢
          obtain ⟨rfl, rfl, rfl⟩ := ran
          exact ⟨middle, ⟨rfl, rfl, rfl⟩, still⟩
        · rename_i more
          rw [if_neg more] at ran
          cases rest : loop reader' step final n middle' s' with
          | error fault => simp [rest] at ran
          | ok reply =>
            obtain ⟨last', tail, tailEnd⟩ := reply
            simp only [rest, Except.ok.injEq, Prod.mk.injEq] at ran
            obtain ⟨rfl, rfl, rfl⟩ := ran
            obtain ⟨last, ranTail, kept⟩ := ih still rest
            exact ⟨last, by rw [ranTail], kept⟩

end Refinement

section Requests

variable {reader : Reader Q A E F ρ} {step : σ → Program Q A E F σ} {final : σ → Bool}

/-- A reader that keeps what it was asked. -/
def asking (reader : Reader Q A E F ρ) : Reader Q A E F (ρ × List Q) :=
  fun r request =>
    match reader r.1 request with
    | .error fault => .error fault
    | .ok (next, answer) => .ok ((next, r.2 ++ [request]), answer)

theorem asking_refines (reader : Reader Q A E F ρ) :
    Refines (fun r r' => r.1 = r') (asking reader) reader := by
  intro r r' request next answer same ran
  subst same
  exact ⟨(next, r.2 ++ [request]), by rw [asking, ran], rfl⟩

/-- A loop that finished dispatched something. -/
theorem loop_nonempty {reader : Reader Q A E F ρ} {n : Nat} {r r' : ρ} {s : σ} {trace : List σ}
    (ran : loop reader step final n r s = .ok (r', trace, .finished)) : trace ≠ [] := by
  cases n with
  | zero => simp [loop] at ran
  | succ n =>
    unfold loop at ran
    rintro rfl
    split at ran
    · cases ran
    · cases ran
    · split at ran
      · cases ran
      · split at ran <;> cases ran

/-- What a loop asks is what its steps ask, one after the other. The last state is not
stepped from. -/
theorem loop_asked {asks : σ → List Q}
    (steps : ∀ r s r' s', exec (asking reader) r (step s) = .ok (r', .dispatched s') →
      r'.2 = r.2 ++ asks s) {n : Nat} {r r' : ρ × List Q} {s : σ} {trace : List σ}
    (ran : loop (asking reader) step final n r s = .ok (r', trace, .finished)) :
    r'.2 = r.2 ++ (s :: trace.dropLast).flatMap asks := by
  induction n generalizing r s trace with
  | zero => simp [loop] at ran
  | succ n ih =>
    unfold loop at ran
    split at ran
    · cases ran
    · cases ran
    · rename_i middle next first
      have here := steps _ _ _ _ first
      split at ran
      · obtain ⟨rfl, rfl⟩ : middle = r' ∧ [next] = trace := by simpa using ran
        simpa using here
      · split at ran
        · cases ran
        · rename_i last rest ended ran'
          simp only [Except.ok.injEq, Prod.mk.injEq] at ran
          obtain ⟨rfl, rfl, rfl⟩ := ran
          have nonempty : rest ≠ [] := by
            rintro rfl
            exact loop_nonempty ran' rfl
          rw [ih ran', here, List.dropLast_cons_of_ne_nil nonempty, List.append_assoc]
          simp

end Requests
end ReadProgram
