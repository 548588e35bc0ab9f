import Mathlib.Data.List.Nodup
import Mathlib.Data.List.Perm.Basic
import Mathlib.Logic.Function.Basic

/-! Hash tables with chaining. A node has a key, a key has a bucket, and a bucket is
the list of its nodes. Such a table represents a partial map from keys to nodes:
looking a key up, adding a node and changing one are what they are on the map, and
the buckets one after the other list the nodes of the map. -/
namespace ChainedTable

variable {β κ ν : Type*}

/-- The nodes of each bucket, newest first. -/
abbrev Table (β ν : Type*) := β → List ν

section Operations

variable [DecidableEq β] [DecidableEq κ] (key : ν → κ) (place : κ → β)

/-- Walk down the chain of a key until there is a node with the key. -/
def lookup (table : Table β ν) (k : κ) : Option ν := (table (place k)).find? fun n => key n = k

/-- Put a node in front of its chain. -/
def insert (table : Table β ν) (n : ν) : Table β ν :=
  Function.update table (place (key n)) (n :: table (place (key n)))

/-- Change the first node of a list that has the key. -/
def changeFirst (k : κ) (change : ν → ν) : List ν → List ν
  | [] => []
  | n :: chain => if key n = k then change n :: chain else n :: changeFirst k change chain

/-- Change the node with a key where it is. -/
def modify (table : Table β ν) (k : κ) (change : ν → ν) : Table β ν :=
  Function.update table (place k) (changeFirst key k change (table (place k)))

end Operations

/-- The table has the nodes of the map, each in the bucket of its key, and no two with
one key. -/
structure Represents (key : ν → κ) (place : κ → β) (table : Table β ν) (map : κ → Option ν) :
    Prop where
  distinct : ∀ b, ((table b).map key).Nodup
  nodes : ∀ b n, n ∈ table b ↔ place (key n) = b ∧ map (key n) = some n

variable {key : ν → κ} {place : κ → β}

theorem represents_empty : Represents key place (fun _ => []) fun _ => none where
  distinct _ := List.nodup_nil
  nodes _ _ := by simp

section Maps

variable [DecidableEq β] [DecidableEq κ] {table : Table β ν} {map : κ → Option ν}

omit [DecidableEq β] in
/-- Nodes are found where the map has them. -/
theorem Represents.lookup_eq (represents : Represents key place table map)
    (keyed : ∀ k n, map k = some n → key n = k) (k : κ) : lookup key place table k = map k := by
  unfold lookup
  cases found : (table (place k)).find? fun n => key n = k with
  | none =>
    symm
    by_contra held
    obtain ⟨n, held⟩ := Option.ne_none_iff_exists'.mp held
    have named := keyed k n held
    have member := (represents.nodes (place k) n).mpr ⟨by rw [named], by rw [named, held]⟩
    exact absurd named (by simpa using List.find?_eq_none.mp found n member)
  | some n =>
    have named : key n = k := by simpa using List.find?_some found
    have member := List.mem_of_find?_eq_some found
    rw [← named, ((represents.nodes _ n).mp member).2]

theorem Represents.insert (represents : Represents key place table map) {n : ν}
    (absent : map (key n) = none) : Represents key place (insert key place table n)
      (Function.update map (key n) (some n)) where
  distinct b := by
    unfold ChainedTable.insert
    by_cases here : b = place (key n)
    · subst here
      rw [Function.update_self, List.map_cons, List.nodup_cons]
      refine ⟨?_, represents.distinct _⟩
      intro member
      obtain ⟨other, held, same⟩ := List.mem_map.mp member
      have known := ((represents.nodes _ other).mp held).2
      rw [same, absent] at known
      cases known
    · rw [Function.update_of_ne here]
      exact represents.distinct b
  nodes b other := by
    unfold ChainedTable.insert
    have unchanged : other ∈ table b ↔ place (key other) = b ∧ map (key other) = some other :=
      represents.nodes b other
    by_cases same : key other = key n
    · rw [same, absent] at unchanged
      rw [same, Function.update_self, Option.some.injEq]
      by_cases here : b = place (key n)
      · subst here
        rw [Function.update_self, List.mem_cons, unchanged]
        constructor
        · rintro (rfl | ⟨-, impossible⟩)
          · exact ⟨rfl, rfl⟩
          · cases impossible
        · exact fun held => .inl held.2.symm
      · rw [Function.update_of_ne here, unchanged]
        exact iff_of_false (fun held => nomatch held.2) fun held => here held.1.symm
    · rw [Function.update_of_ne same]
      by_cases here : b = place (key n)
      · subst here
        rw [Function.update_self, List.mem_cons, ← unchanged]
        exact or_iff_right fun equal => same (congrArg key equal)
      · rw [Function.update_of_ne here, unchanged]

theorem map_changeFirst {k : κ} {change : ν → ν} (keeps : ∀ n, key (change n) = key n)
    (chain : List ν) : (changeFirst key k change chain).map key = chain.map key := by
  induction chain with
  | nil => rfl
  | cons n chain ih =>
    unfold changeFirst
    split
    · rw [List.map_cons, List.map_cons, keeps]
    · rw [List.map_cons, List.map_cons, ih]

theorem mem_changeFirst {k : κ} {change : ν → ν} {chain : List ν}
    (distinct : (chain.map key).Nodup) {n : ν} :
    n ∈ changeFirst key k change chain ↔
      key n ≠ k ∧ n ∈ chain ∨ ∃ old ∈ chain, key old = k ∧ change old = n := by
  induction chain with
  | nil => simp [changeFirst]
  | cons first chain ih =>
    rw [List.map_cons, List.nodup_cons] at distinct
    unfold changeFirst
    split
    · rename_i named
      rw [List.mem_cons]
      constructor
      · rintro (rfl | member)
        · exact .inr ⟨first, by simp, named, rfl⟩
        · refine .inl ⟨fun same => distinct.1 ?_, by simp [member]⟩
          rw [named, ← same]
          exact List.mem_map_of_mem member
      · rintro (⟨other, member⟩ | ⟨old, member, same, rfl⟩)
        · rcases List.mem_cons.mp member with rfl | member
          · exact absurd named other
          · exact .inr member
        · rcases List.mem_cons.mp member with rfl | member
          · exact .inl rfl
          · refine absurd ?_ distinct.1
            rw [named, ← same]
            exact List.mem_map_of_mem member
    · rename_i other
      rw [List.mem_cons, ih distinct.2]
      constructor
      · rintro (rfl | ⟨others, member⟩ | ⟨old, member, same, rfl⟩)
        · exact .inl ⟨other, by simp⟩
        · exact .inl ⟨others, by simp [member]⟩
        · exact .inr ⟨old, by simp [member], same, rfl⟩
      · rintro (⟨others, member⟩ | ⟨old, member, same, rfl⟩)
        · rcases List.mem_cons.mp member with rfl | member
          · exact .inl rfl
          · exact .inr (.inl ⟨others, member⟩)
        · rcases List.mem_cons.mp member with rfl | member
          · exact absurd same other
          · exact .inr (.inr ⟨old, member, same, rfl⟩)

/-- A node that is changed is changed in the map, and nothing else is. -/
theorem Represents.modify (represents : Represents key place table map) {change : ν → ν}
    (keeps : ∀ n, key (change n) = key n) {k : κ} {n : ν} (held : map k = some n)
    (named : key n = k) : Represents key place (modify key place table k change)
      (Function.update map k (some (change n))) where
  distinct b := by
    unfold ChainedTable.modify
    by_cases here : b = place k
    · subst here
      rw [Function.update_self, map_changeFirst keeps]
      exact represents.distinct _
    · rw [Function.update_of_ne here]
      exact represents.distinct b
  nodes b other := by
    unfold ChainedTable.modify
    have unchanged : other ∈ table b ↔ place (key other) = b ∧ map (key other) = some other :=
      represents.nodes b other
    by_cases here : b = place k
    · subst here
      rw [Function.update_self, mem_changeFirst (represents.distinct _)]
      by_cases same : key other = k
      · rw [same, Function.update_self, Option.some.injEq]
        constructor
        · rintro (⟨others, -⟩ | ⟨old, member, oldNamed, rfl⟩)
          · exact absurd rfl others
          · have known := ((represents.nodes _ old).mp member).2
            rw [oldNamed, held, Option.some.injEq] at known
            exact ⟨rfl, congrArg change known⟩
        · rintro ⟨-, rfl⟩
          exact .inr ⟨n, (represents.nodes _ n).mpr ⟨by rw [named], by rw [named, held]⟩, named, rfl⟩
      · rw [Function.update_of_ne same, ← unchanged]
        constructor
        · rintro (⟨-, member⟩ | ⟨old, -, oldNamed, rfl⟩)
          · exact member
          · exact absurd ((keeps old).trans oldNamed) same
        · exact fun member => .inl ⟨same, member⟩
    · rw [Function.update_of_ne here, unchanged]
      apply and_congr_right
      rintro rfl
      rw [Function.update_of_ne fun same => here (congrArg place same)]

end Maps

/-- The buckets, one after the other, list the nodes of the map. -/
theorem Represents.perm {table : Table β ν} {map : κ → Option ν}
    (represents : Represents key place table map) (keyed : ∀ k n, map k = some n → key n = k)
    {buckets : List β} (all : ∀ b, b ∈ buckets) (once : buckets.Nodup) {keys : List κ}
    (known : ∀ k, (map k).isSome → k ∈ keys) (distinct : keys.Nodup) :
    (buckets.flatMap table).Perm (keys.filterMap map) := by
  apply (List.perm_ext_iff_of_nodup ?_ ?_).mpr
  · intro n
    rw [List.mem_flatMap, List.mem_filterMap]
    constructor
    · rintro ⟨b, -, member⟩
      have held := ((represents.nodes b n).mp member).2
      exact ⟨key n, known _ (by rw [held]; rfl), held⟩
    · rintro ⟨k, -, held⟩
      have named := keyed k n held
      exact ⟨place k, all _, (represents.nodes _ n).mpr ⟨by rw [named], by rw [named, held]⟩⟩
  · apply List.nodup_flatMap.mpr
    refine ⟨fun b _ => (represents.distinct b).of_map, once.imp ?_⟩
    intro b b' apart n member member'
    exact apart (((represents.nodes b n).mp member).1.symm.trans
      ((represents.nodes b' n).mp member').1)
  · apply distinct.filterMap
    intro k k' n held held'
    exact (keyed k n held).symm.trans (keyed k' n held')

end ChainedTable
