import Mathlib.Data.List.MinMax
import Jio.Library.LinkedOrder

/-! What the order of a list says about the past when each use of a node moves it to
the back: the nodes are in order of their last use. And what a traversal of a
threaded list visits. -/
namespace LinkedOrder

variable {α : Type*}

/-! ## Traversals -/

/-- The nodes met from a pointer on, following at most so many links. -/
def follow (link : α → Option α) : Nat → Option α → List α
  | 0, _ => []
  | _ + 1, none => []
  | fuel + 1, some x => x :: follow link fuel (link x)

section Threaded

variable {links : Links α} {order : List α} {fuel : Nat} {x y : α}

/-- From the head, a traversal visits the list and ends. -/
theorem Threads.follow_next (threads : Threads links order) (enough : order.length ≤ fuel) :
    follow links.next fuel links.head = order := by
  have onward : ∀ before after, order = before ++ after → after.length ≤ fuel →
      follow links.next fuel after.head? = after := by
    clear enough
    intro before after shape enough
    induction after generalizing before fuel with
    | nil => cases fuel <;> rfl
    | cons x after ih =>
      cases fuel with
      | zero => simp at enough
      | succ fuel =>
        rw [List.head?_cons, follow, threads.next before x after shape]
        congr 1
        exact ih (before ++ [x]) (by simp [shape]) (by simpa using enough)
  rw [threads.head]
  exact onward [] order rfl enough

/-- The two links of a node are each other's inverse. -/
theorem Threads.next_iff_prev (threads : Threads links order) (mem : x ∈ order) (mem' : y ∈ order) :
    links.next x = some y ↔ links.prev y = some x := by
  constructor
  · intro next
    obtain ⟨before, after, shape⟩ := List.append_of_mem mem
    rw [threads.next before x after shape] at next
    cases after with
    | nil => simp at next
    | cons second after =>
      obtain rfl : second = y := by simpa using next
      rw [threads.prev (before ++ [x]) second after (by simp [shape]), List.getLast?_concat]
  · intro prev
    obtain ⟨before, after, shape⟩ := List.append_of_mem mem'
    rw [threads.prev before y after shape] at prev
    obtain rfl | ⟨front, last, rfl⟩ := List.eq_nil_or_concat' before
    · simp at prev
    · obtain rfl : last = x := by simpa using prev
      rw [threads.next front last (y :: after) (by simp [shape]), List.head?_cons]

theorem Threads.prev_head (threads : Threads links order) (first : links.head = some x) :
    links.prev x = none := by
  rw [threads.head] at first
  obtain ⟨after, shape⟩ := List.head?_eq_some_iff.mp first
  exact threads.prev [] x after shape

theorem Threads.next_tail (threads : Threads links order) (last : links.tail = some x) :
    links.next x = none := by
  rw [threads.tail] at last
  obtain ⟨before, shape⟩ := List.getLast?_eq_some_iff.mp last
  exact threads.next before x [] shape

end Threaded

/-! ## Order of last use -/

variable [DecidableEq α] {start uses : List α} {u x y : α}

/-- The time a node was last used, or the bottom when it never was. -/
def lastUse (uses : List α) (x : α) : WithBot Nat :=
  ((List.range uses.length).filter fun t => uses[t]? = some x).maximum

theorem lastUse_lt (uses : List α) (x : α) : lastUse uses x < WithBot.some uses.length := by
  cases chosen : lastUse uses x with
  | bot => exact WithBot.bot_lt_coe _
  | coe t =>
    have member := List.maximum_mem chosen
    rw [List.mem_filter, List.mem_range] at member
    exact WithBot.coe_lt_coe.mpr member.1

/-- Another use is the last one of the node used, and changes nothing for others. -/
theorem lastUse_concat (uses : List α) (u x : α) :
    lastUse (uses ++ [u]) x = if x = u then WithBot.some uses.length else lastUse uses x := by
  have before : ((List.range uses.length).filter fun t => (uses ++ [u])[t]? = some x) =
      (List.range uses.length).filter fun t => uses[t]? = some x := by
    apply List.filter_congr
    intro t member
    rw [List.getElem?_append_left (List.mem_range.mp member)]
  unfold lastUse
  rw [List.length_append, List.length_singleton, List.range_succ, List.filter_append, before]
  by_cases same : x = u
  · subst same
    simp only [List.getElem?_concat_length, decide_true, List.filter_cons_of_pos, List.filter_nil,
      List.maximum_concat, ↓reduceIte]
    exact max_eq_right (lastUse_lt uses x).le
  · simp [same, Ne.symm same]

/-- One node comes before another in order of last use; of two that were never
used, in the order there was at the start. -/
def UsedBefore (r : α → α → Prop) (uses : List α) (x y : α) : Prop :=
  lastUse uses x < lastUse uses y ∨ lastUse uses x = ⊥ ∧ lastUse uses y = ⊥ ∧ r x y

/-- Moving each node used to the back keeps the nodes in order of last use. -/
theorem touches_pairwise {r : α → α → Prop} (nodup : start.Nodup) (ordered : start.Pairwise r)
    (inside : ∀ u ∈ uses, u ∈ start) :
    (uses.foldl touch start).Pairwise (UsedBefore r uses) ∧ (uses.foldl touch start).Nodup ∧
      ∀ x, x ∈ uses.foldl touch start ↔ x ∈ start := by
  induction uses using List.reverseRecOn with
  | nil =>
    refine ⟨ordered.imp fun related => .inr ⟨rfl, rfl, related⟩, nodup, fun _ => Iff.rfl⟩
  | append_singleton uses u ih =>
    obtain ⟨sorted, nodup', members⟩ := ih fun v member => inside v (by simp [member])
    have held : u ∈ uses.foldl touch start := (members u).mpr (inside u (by simp))
    rw [List.foldl_append, List.foldl_cons, List.foldl_nil]
    refine ⟨?_, touch_nodup nodup', fun x => (mem_touch held).trans (members x)⟩
    have other : ∀ x ∈ (uses.foldl touch start).erase u, x ≠ u := by
      rintro x member rfl
      exact nodup'.not_mem_erase member
    refine List.pairwise_append.mpr ⟨?_, List.pairwise_singleton .., ?_⟩
    · refine (sorted.sublist List.erase_sublist).imp_of_mem ?_
      intro x y member member' before
      unfold UsedBefore
      rw [lastUse_concat, lastUse_concat, if_neg (other x member), if_neg (other y member')]
      exact before
    · intro x member last single
      obtain rfl := List.mem_singleton.mp single
      left
      rw [lastUse_concat, lastUse_concat, if_neg (other x member), if_pos rfl]
      exact lastUse_lt uses x

/-- When a node has come to the front, every other one has been used since any of
its uses. -/
theorem used_since_of_head (nodup : start.Nodup) (inside : ∀ u ∈ uses, u ∈ start)
    (front : (uses.foldl touch start).head? = some x) {before since : List α}
    (shape : uses = before ++ x :: since) : ∀ y ∈ start, y ≠ x → y ∈ since := by
  -- from the last use of the node on, it stays where it is until the others are used
  have fromLast : ∀ before since, uses = before ++ x :: since → x ∉ since →
      ∀ y ∈ start, y ≠ x → y ∈ since := by
    intro before since shape untouched y member apart
    subst shape
    have insideBefore : ∀ u ∈ before, u ∈ start := fun u used => inside u (by simp [used])
    obtain ⟨-, distinct, members⟩ := touches_pairwise (r := fun _ _ => True) nodup
      (List.pairwise_of_forall fun _ _ => trivial) insideBefore
    have held : x ∈ before.foldl touch start := (members x).mpr (inside x (by simp))
    rw [List.foldl_append, List.foldl_cons] at front
    refine (head_touches_iff (touch_nodup distinct) (fun u used => ?_) untouched).mp front y ?_
    · exact (mem_touch held).mpr ((members u).mpr (inside u (by simp [used])))
    · exact (List.mem_erase_of_ne apart).mpr ((members y).mpr member)
  by_cases again : x ∈ since
  · obtain ⟨late, early, split, fresh⟩ := List.eq_append_cons_of_mem (List.mem_reverse.mpr again)
    have reversed : since = early.reverse ++ x :: late.reverse := by
      simpa using congrArg List.reverse split
    intro y member apart
    have used := fromLast (before ++ x :: early.reverse) late.reverse (by simp [shape, reversed])
      (by simpa using fresh) y member apart
    simp [reversed, used]
  · exact fromLast before since shape again

/-- So that many other uses have happened since. -/
theorem uses_since_of_head (nodup : start.Nodup) (inside : ∀ u ∈ uses, u ∈ start)
    (front : (uses.foldl touch start).head? = some x) {before since : List α}
    (shape : uses = before ++ x :: since) :
    start.length - 1 ≤ (since.filter (· ≠ x)).length := by
  have held : x ∈ start := inside x (by simp [shape])
  rw [← List.length_erase_of_mem held]
  apply List.Nodup.length_le_of_subset (nodup.erase x)
  intro y member
  have apart : y ≠ x := by
    rintro rfl
    exact nodup.not_mem_erase member
  have used := used_since_of_head nodup inside front shape y (List.mem_of_mem_erase member) apart
  exact List.mem_filter.mpr ⟨used, by simpa using apart⟩

end LinkedOrder
