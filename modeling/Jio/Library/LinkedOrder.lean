import Mathlib.Data.List.Basic
import Mathlib.Data.List.Nodup
import Mathlib.Logic.Function.Basic

/-! A doubly linked list threaded through nodes that live elsewhere, as the
ordered list it represents. Moving a node to the back is the only operation
that recency order needs, so the second half is about which nodes a sequence
of such moves leaves in front of a given one. -/
namespace LinkedOrder

/-- The pointers of an intrusive doubly linked list. `none` is a null pointer,
and every node has its two links whether or not it is in the list. -/
structure Links (α : Type*) where
  head : Option α
  tail : Option α
  next : α → Option α
  prev : α → Option α

/-- The pointers thread exactly the nodes of `order`, front to back. -/
structure Threads {α : Type*} (links : Links α) (order : List α) : Prop where
  nodup : order.Nodup
  head : links.head = order.head?
  tail : links.tail = order.getLast?
  next : ∀ before x after, order = before ++ x :: after → links.next x = after.head?
  prev : ∀ before x after, order = before ++ x :: after → links.prev x = before.getLast?

/-- A node splits the list in one way only. -/
theorem split_unique {α : Type*} {order before before' after after' : List α} {x : α}
    (nodup : order.Nodup) (left : order = before ++ x :: after)
    (right : order = before' ++ x :: after') : before = before' ∧ after = after' := by
  subst left
  rcases List.append_eq_append_iff.mp right with ⟨gap, rfl, shape⟩ | ⟨gap, rfl, shape⟩
  · cases gap with
    | nil => simpa using shape
    | cons y gap =>
      simp only [List.cons_append, List.cons.injEq] at shape
      obtain ⟨rfl, rfl⟩ := shape
      simp [List.nodup_append] at nodup
  · cases gap with
    | nil => simpa using shape.symm
    | cons y gap =>
      simp only [List.cons_append, List.cons.injEq] at shape
      obtain ⟨rfl, rfl⟩ := shape
      simp [List.nodup_append] at nodup

/-- One split of the list at each node is enough to read off its pointers. -/
theorem threads_of_splits {α : Type*} {links : Links α} {order : List α} (nodup : order.Nodup)
    (head : links.head = order.head?) (tail : links.tail = order.getLast?)
    (splits : ∀ x ∈ order, ∃ before after, order = before ++ x :: after ∧
      links.next x = after.head? ∧ links.prev x = before.getLast?) : Threads links order where
  nodup := nodup
  head := head
  tail := tail
  next := by
    intro before x after shape
    obtain ⟨before', after', shape', next, _⟩ := splits x (by simp [shape])
    rw [(split_unique nodup shape shape').2, next]
  prev := by
    intro before x after shape
    obtain ⟨before', after', shape', _, prev⟩ := splits x (by simp [shape])
    rw [(split_unique nodup shape shape').1, prev]

variable {α : Type*} [DecidableEq α] {links : Links α} {order uses : List α} {x y : α}

/-- Append a node at the back of a list that has one. -/
def Links.pushBack (links : Links α) (x : α) : Option (Links α) :=
  links.tail.map fun last =>
    { head := links.head
      tail := some x
      next := Function.update links.next last (some x)
      prev := Function.update links.prev x (some last) }

/-- Make what points at a node from the front point past it. -/
def Links.bypass (links : Links α) (x : α) : Links α :=
  match links.prev x with
  | some pred => { links with next := Function.update links.next pred (links.next x) }
  | none => { links with head := links.next x }

/-- Unlink a node and append it at the back. It is left alone when it already
is the last; a missing successor or tail is a null dereference. -/
def Links.moveToBack (links : Links α) (x : α) : Option (Links α) :=
  if links.tail = some x then some links
  else
    let bypassed := links.bypass x
    match bypassed.next x, bypassed.tail with
    | some succ, some last => some
        { head := bypassed.head
          tail := some x
          next := Function.update (Function.update bypassed.next x none) last (some x)
          prev := Function.update (Function.update bypassed.prev succ (bypassed.prev x)) x (some last) }
    | _, _ => none

/-- The recency order after one more use of `x`. -/
def touch (order : List α) (x : α) : List α := order.erase x ++ [x]

theorem mem_touch (mem : x ∈ order) : y ∈ touch order x ↔ y ∈ order := by
  by_cases same : y = x
  · subst same; simp [touch, mem]
  · simp [touch, List.mem_erase_of_ne same, same]

theorem touch_nodup (nodup : order.Nodup) : (touch order x).Nodup := by
  refine List.nodup_append.mpr ⟨nodup.erase x, by simp, ?_⟩
  rintro a member _ last rfl
  rw [List.mem_singleton] at last
  subst last
  exact nodup.not_mem_erase member

theorem touch_split {before after : List α} (nodup : (before ++ x :: after).Nodup) :
    touch (before ++ x :: after) x = before ++ after ++ [x] := by
  have absent : x ∉ before := fun member =>
    (List.nodup_append.mp nodup).2.2 x member x (by simp) rfl
  simp [touch, List.erase_append_right _ absent]

/-- Appending a node that was not threaded threads it last. -/
theorem Threads.pushBack (threads : Threads links order) (fresh : x ∉ order)
    (single : links.next x = none) (nonempty : order ≠ []) :
    ∃ pushed, links.pushBack x = some pushed ∧ Threads pushed (order ++ [x]) := by
  obtain rfl | ⟨front, last, rfl⟩ := List.eq_nil_or_concat' order
  · contradiction
  have tail : links.tail = some last := by simp [threads.tail]
  have distinct : last ≠ x := by rintro rfl; simp at fresh
  have nodup : (front ++ [last] ++ [x]).Nodup := by
    refine List.nodup_append.mpr ⟨threads.nodup, by simp, ?_⟩
    rintro a member _ single rfl
    rw [List.mem_singleton] at single
    exact fresh (single ▸ member)
  refine ⟨_, by rw [Links.pushBack, tail, Option.map_some],
    threads_of_splits nodup ?_ (by simp) ?_⟩
  · cases front <;> simpa using threads.head
  intro y member
  rw [List.append_assoc, List.mem_append] at member
  dsimp only
  rcases member with member | member
  · obtain ⟨before, after, rfl⟩ := List.append_of_mem member
    have other : y ≠ last ∧ y ≠ x := by
      constructor <;> rintro rfl <;> simp [List.nodup_append] at nodup
    refine ⟨before, after ++ [last, x], by simp, ?_, ?_⟩
    · rw [Function.update_of_ne other.1, threads.next before y (after ++ [last]) (by simp)]
      cases after <;> rfl
    · rw [Function.update_of_ne other.2, threads.prev before y (after ++ [last]) (by simp)]
  · simp only [List.cons_append, List.nil_append, List.mem_cons, List.not_mem_nil, or_false] at member
    rcases member with rfl | rfl
    · refine ⟨front, [x], by simp, by simp, ?_⟩
      rw [Function.update_of_ne distinct, threads.prev front y [] rfl]
    · exact ⟨front ++ [last], [], by simp, by simp [Function.update_of_ne distinct.symm, single], by simp⟩

/-- Every pointer after moving a node that has a successor: only the moved
node, its two neighbours and the old last node are written. -/
private theorem moveToBack_pointers {before : List α} {last second : α} (rest : List α)
    (tail : links.tail = some last) (head : links.head = (before ++ [x]).head?)
    (notLast : last ≠ x) (pred : links.prev x = before.getLast?)
    (succ : links.next x = some second) (notPred : before.getLast? ≠ some x) :
    ∃ moved, links.moveToBack x = some moved ∧
      moved.head = (before ++ second :: rest).head? ∧ moved.tail = some x ∧
      (∀ y, moved.next y = if y = last then some x else if y = x then none
        else if before.getLast? = some y then some second else links.next y) ∧
      (∀ y, moved.prev y = if y = x then some last
        else if y = second then before.getLast? else links.prev y) := by
  have different : links.tail ≠ some x := by simpa [tail] using notLast
  cases chosen : before.getLast? with
  | none =>
    obtain rfl := List.getLast?_eq_none_iff.mp chosen
    have bypassed : links.bypass x = { links with head := some second } := by
      rw [Links.bypass, pred, chosen, succ]
    refine ⟨_, by rw [Links.moveToBack, if_neg different, bypassed]; simp only [succ, tail]; rfl,
      rfl, rfl, fun y => ?_, fun y => ?_⟩
    · simp only [Function.update_apply, reduceCtorEq, ↓reduceIte]
    · simp only [Function.update_apply, pred, chosen]
  | some p =>
    have apart : x ≠ p := by rintro rfl; exact notPred chosen
    have bypassed : links.bypass x =
        { links with next := Function.update links.next p (some second) } := by
      rw [Links.bypass, pred, chosen, succ]
    refine ⟨_, by
      rw [Links.moveToBack, if_neg different, bypassed]
      simp only [succ, tail, Function.update_of_ne apart]
      rfl, ?_⟩
    have nonempty : before ≠ [] := by rintro rfl; simp at chosen
    refine ⟨?_, rfl, fun y => ?_, fun y => ?_⟩
    · simp only [head]
      cases before <;> simp at nonempty ⊢
    · simp only [Function.update_apply, Option.some.injEq, @eq_comm α p y]
    · simp only [Function.update_apply, pred, chosen]

section Moved

variable {before middle rest : List α} {last second : α} {moved : Links α}
  (threads : Threads links (before ++ x :: (middle ++ [last])))
  (shape : middle ++ [last] = second :: rest)
  (next : ∀ y, moved.next y = if y = last then some x else if y = x then none
    else if before.getLast? = some y then some second else links.next y)
  (prev : ∀ y, moved.prev y = if y = x then some last
    else if y = second then before.getLast? else links.prev y)
include threads shape next prev

/-- In front of the moved node, only its predecessor's successor changes. -/
private theorem moved_in_front (member : y ∈ before) :
    ∃ front back, before ++ (middle ++ [last]) ++ [x] = front ++ y :: back ∧
      moved.next y = back.head? ∧ moved.prev y = front.getLast? := by
  have nodup := threads.nodup
  have other : y ≠ last ∧ y ≠ x ∧ y ≠ second := by
    have := (List.nodup_append.mp nodup).2.2 y member
    rw [shape] at this
    exact ⟨this last (by simp [← shape]), this x (by simp), this second (by simp)⟩
  obtain ⟨front, back, rfl⟩ := List.append_of_mem member
  have place : front ++ y :: back ++ x :: (middle ++ [last]) =
      front ++ y :: (back ++ x :: (middle ++ [last])) := by simp
  refine ⟨front, back ++ (middle ++ [last]) ++ [x], by simp, ?_, ?_⟩
  · rw [next, if_neg other.1, if_neg other.2.1, threads.next _ _ _ place]
    obtain rfl | ⟨_, b, rfl⟩ := List.eq_nil_or_concat' back
    · simp [shape]
    · have apart : b ≠ y := by rintro rfl; simp [List.nodup_append] at nodup
      rw [← List.cons_append, ← List.append_assoc, List.getLast?_concat,
        if_neg (by simpa using apart)]
      simp [List.head?_append]
  · rw [prev, if_neg other.2.1, if_neg other.2.2]
    exact threads.prev _ _ _ place

/-- Behind the moved node, only the old last node and the node's own successor change. -/
private theorem moved_behind (member : y ∈ middle ++ [last]) :
    ∃ front back, before ++ (middle ++ [last]) ++ [x] = front ++ y :: back ∧
      moved.next y = back.head? ∧ moved.prev y = front.getLast? := by
  have nodup := threads.nodup
  have other : y ≠ x ∧ before.getLast? ≠ some y := by
    refine ⟨?_, fun chosen => ?_⟩
    · rintro rfl
      exact (List.nodup_cons.mp (List.nodup_append.mp nodup).2.1).1 member
    · exact (List.nodup_append.mp nodup).2.2 y (List.mem_of_getLast? chosen) y
        (List.mem_cons_of_mem _ member) rfl
  obtain ⟨front, back, split⟩ := List.append_of_mem member
  have place : before ++ x :: (middle ++ [last]) = (before ++ x :: front) ++ y :: back := by
    simp [split]
  refine ⟨before ++ front, back ++ [x], by simp [split], ?_, ?_⟩
  · rw [next, if_neg other.1, if_neg other.2]
    obtain rfl | ⟨_, b, rfl⟩ := List.eq_nil_or_concat' back
    · have same : y = last := by
        have := congrArg List.getLast? split
        simpa [eq_comm] using this
      simp [same]
    · have same : b = last := by
        have := congrArg List.getLast? split
        rw [← List.cons_append, ← List.append_assoc, List.getLast?_concat,
          List.getLast?_concat, Option.some.injEq] at this
        exact this.symm
      have apart : y ≠ last := by
        rintro rfl
        rw [place, same] at nodup
        simp [List.nodup_append] at nodup
      rw [if_neg apart, threads.next _ _ _ place]
      simp [List.head?_append]
  · rw [prev, if_neg other.1]
    cases front with
    | nil =>
      have same : y = second := by
        have := shape.symm.trans split
        simpa [eq_comm] using congrArg List.head? this
      simp [same]
    | cons first front =>
      have same : first = second := by
        have := shape.symm.trans split
        simpa [eq_comm] using congrArg List.head? this
      have apart : y ≠ second := by
        rintro rfl
        rw [place, same] at nodup
        simp [List.nodup_append] at nodup
      rw [if_neg apart, threads.prev _ _ _ place]
      simp [List.getLast?_append]

end Moved

/-- Moving a threaded node to the back never meets a null pointer, and threads
the touched order. -/
theorem Threads.moveToBack (threads : Threads links order) (mem : x ∈ order) :
    ∃ moved, links.moveToBack x = some moved ∧ Threads moved (touch order x) := by
  obtain ⟨before, after, rfl⟩ := List.append_of_mem mem
  have nodup := threads.nodup
  rw [touch_split nodup]
  obtain rfl | ⟨middle, last, rfl⟩ := List.eq_nil_or_concat' after
  · have tail : links.tail = some x := by simp [threads.tail]
    exact ⟨links, by simp [Links.moveToBack, tail], by simpa using threads⟩
  obtain ⟨second, rest, shape⟩ : ∃ second rest, middle ++ [last] = second :: rest := by
    cases middle <;> simp
  have tail : links.tail = some last := by
    rw [threads.tail, ← List.cons_append, ← List.append_assoc, List.getLast?_concat]
  have head : links.head = (before ++ [x]).head? := by
    rw [threads.head]; cases before <;> rfl
  have notLast : last ≠ x := by rintro rfl; simp [List.nodup_append] at nodup
  have notPred : before.getLast? ≠ some x := fun chosen =>
    (List.nodup_append.mp nodup).2.2 x (List.mem_of_getLast? chosen) x (by simp) rfl
  have succ : links.next x = some second := by
    rw [threads.next _ _ _ rfl, shape, List.head?_cons]
  obtain ⟨moved, ran, movedHead, movedTail, next, prev⟩ :=
    moveToBack_pointers rest tail head notLast (threads.prev _ _ _ rfl) succ notPred
  have movedNodup : (before ++ (middle ++ [last]) ++ [x]).Nodup := by
    have := touch_nodup (x := x) nodup
    rwa [touch_split nodup] at this
  refine ⟨moved, ran, threads_of_splits movedNodup ?_ (by simp [movedTail]) ?_⟩
  · rw [movedHead, shape]
    cases before <;> rfl
  intro y member
  rw [List.mem_append, List.mem_append, List.mem_singleton] at member
  rcases member with (member | member) | rfl
  · exact moved_in_front threads shape next prev member
  · exact moved_behind threads shape next prev member
  · refine ⟨before ++ (middle ++ [last]), [], rfl, ?_, ?_⟩
    · simp [next, notLast.symm]
    · simp [prev]

/-! ## Which nodes a sequence of uses leaves in front -/

/-- Using other nodes moves exactly those behind `x`: what stays in front of it
is what was there and has not been used, and what is behind it is what was
there or has been used. -/
theorem touches_around (before after : List α) (nodup : (before ++ x :: after).Nodup)
    (inside : ∀ u ∈ uses, u ∈ before ++ x :: after) (untouched : x ∉ uses) :
    ∃ behind, uses.foldl touch (before ++ x :: after) =
        before.filter (· ∉ uses) ++ x :: behind ∧ ∀ y, y ∈ behind ↔ y ∈ after ∨ y ∈ uses := by
  induction uses generalizing before after with
  | nil => exact ⟨after, by simp, by simp⟩
  | cons u uses ih =>
    have apart : u ≠ x := by rintro rfl; simp at untouched
    have rest : x ∉ uses := fun member => untouched (List.mem_cons_of_mem _ member)
    have member : u ∈ before ++ x :: after := inside u (by simp)
    have shape : touch (before ++ x :: after) u =
        before.erase u ++ x :: ((if u ∈ before then after else after.erase u) ++ [u]) := by
      by_cases front : u ∈ before
      · simp [touch, List.erase_append_left _ front, front]
      · simp [touch, List.erase_append_right _ front, front, List.erase_cons_tail, apart.symm,
          List.erase_of_not_mem front]
    have nodup' := touch_nodup (x := u) nodup
    rw [shape] at nodup'
    obtain ⟨behind, ran, members⟩ := ih _ _ nodup'
      (fun v held => shape ▸ (mem_touch member).mpr (inside v (by simp [held]))) rest
    refine ⟨behind, ?_, fun y => ?_⟩
    · rw [List.foldl_cons, shape, ran, (List.nodup_append.mp nodup).1.erase_eq_filter,
        List.filter_filter]
      congr 1
      refine List.filter_congr fun y _ => ?_
      by_cases same : y = u <;> simp [same]
    · rw [members]
      simp only [List.mem_append, List.mem_cons, List.not_mem_nil, or_false]
      split
      · tauto
      · by_cases same : y = u
        · simp [same]
        · simp [List.mem_erase_of_ne same, same]

/-- The node used last comes to the front exactly when every other one has been
used since. -/
theorem head_touches_iff (nodup : (order ++ [x]).Nodup)
    (inside : ∀ u ∈ uses, u ∈ order ++ [x]) (untouched : x ∉ uses) :
    (uses.foldl touch (order ++ [x])).head? = some x ↔ ∀ y ∈ order, y ∈ uses := by
  obtain ⟨behind, ran, -⟩ := touches_around order [] nodup inside untouched
  rw [ran]
  cases front : order.filter (· ∉ uses) with
  | nil => simpa using front
  | cons y rest =>
    have held : y ∈ order ∧ y ∉ uses := by
      simpa using List.mem_filter.mp (front ▸ List.mem_cons_self : y ∈ order.filter (· ∉ uses))
    have apart : y ≠ x := (List.nodup_append.mp nodup).2.2 y held.1 x (by simp)
    constructor
    · intro chosen
      exact absurd (by simpa using chosen) apart
    · intro all
      exact absurd (all y held.1) held.2

end LinkedOrder
