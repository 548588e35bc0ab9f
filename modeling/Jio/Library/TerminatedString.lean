import Mathlib.Data.List.Basic

/-! Strings that end with a terminator, in a block of memory of a fixed size. Reading one
runs up to the terminator, and out of the block where there is none. -/
namespace TerminatedString

variable {β : Type*} {n : Nat} {nul : β} {mem : Vector β n} {before s rest : List β}

/-- The elements in front of the first terminator. -/
def scan [DecidableEq β] (nul : β) : List β → Option (List β)
  | [] => none
  | c :: rest => if c = nul then some [] else (scan nul rest).map (c :: ·)

/-- The string that starts at a place, unless the block ends before it does. -/
def load [DecidableEq β] (nul : β) (mem : Vector β n) (str : Nat) : Option (List β) :=
  scan nul (mem.toList.drop str)

/-- An assignment to one place, unless it is outside the block. -/
def store (mem : Vector β n) (i : Nat) (c : β) : Option (Vector β n) :=
  if inside : i < n then some (mem.set i c) else none

/-- The block holds this string behind what is before it, terminator included. -/
structure HoldsString (nul : β) (mem : Vector β n) (before s rest : List β) : Prop where
  clean : nul ∉ s
  shape : mem.toList = before ++ (s ++ nul :: rest)

theorem scan_append [DecidableEq β] (clean : nul ∉ s) (rest : List β) :
    scan nul (s ++ nul :: rest) = some s := by
  induction s with
  | nil => rw [List.nil_append, scan, if_pos rfl]
  | cons c s ih =>
    obtain ⟨other, clean⟩ := not_or.mp (List.mem_cons.not.mp clean)
    rw [List.cons_append, scan, if_neg (Ne.symm other), ih clean]
    rfl

theorem HoldsString.load [DecidableEq β] (holds : HoldsString nul mem before s rest) :
    load nul mem before.length = some s := by
  unfold TerminatedString.load
  rw [holds.shape, List.drop_left]
  exact scan_append holds.clean rest

theorem HoldsString.length_eq (holds : HoldsString nul mem before s rest) :
    before.length + (s.length + (rest.length + 1)) = n := by
  have length := congrArg List.length holds.shape
  rw [Vector.length_toList, List.length_append, List.length_append, List.length_cons] at length
  exact length.symm

/-- Assigning to a place known by what is in front of it. -/
theorem store_at {after : List β} {c : β} (shape : mem.toList = before ++ c :: after) (c' : β) :
    ∃ mem', store mem before.length c' = some mem' ∧ mem'.toList = before ++ c' :: after := by
  have length := congrArg List.length shape
  rw [Vector.length_toList, List.length_append, List.length_cons] at length
  have inside : before.length < n := by omega
  refine ⟨mem.set before.length c', dif_pos inside, ?_⟩
  rw [Vector.toList_set, shape, List.set_append_right _ _ (Nat.le_refl _), Nat.sub_self,
    List.set_cons_zero]

theorem store_outside {i : Nat} (outside : n ≤ i) (c : β) : store mem i c = none :=
  dif_neg (Nat.not_lt.mpr outside)

/-- What is at a place known by what is in front of it. -/
theorem get_at {after : List β} {c : β} (shape : mem.toList = before ++ c :: after) :
    ∃ inside : before.length < n, mem[before.length] = c := by
  have length := congrArg List.length shape
  rw [Vector.length_toList, List.length_append, List.length_cons] at length
  have inside : before.length < n := by omega
  refine ⟨inside, ?_⟩
  have here : mem.toList[before.length]? = some c := by
    rw [shape, List.getElem?_append_right (Nat.le_refl _), Nat.sub_self]
    rfl
  rwa [Vector.getElem?_toList, Vector.getElem?_eq_getElem inside, Option.some.injEq] at here

end TerminatedString
