import Mathlib.Algebra.Order.BigOperators.Group.List
import Mathlib.Data.Nat.Log
import Mathlib.Data.UInt
import Jio.Library.FaultingRuns
import Jio.EntryArrays

/-! The statistics `report entry-arrays` makes of a profile, by the logarithm of the size of
a payload. Counts and utilization add up over a class; the sizes do not, a class has
those of the node it came to last. -/
namespace Jio.EntryArrays

/-! ## Classes -/

/-- The logarithm is that of the number. -/
theorem u64log2_eq (n : UInt64) : u64log2 n = Nat.log 2 n.toNat := by
  have one : (1 : UInt64).toNat = 1 := rfl
  unfold u64log2
  split
  · rename_i large
    have positive := UInt64.lt_iff_toNat_lt.mp large
    have nonzero : n.toBitVec ≠ 0#64 := by
      intro zero
      have none : n.toNat = 0 := congrArg BitVec.toNat zero
      omega
    have few : clzll n < 64 := BitVec.clz_lt_iff_ne_zero.mpr nonzero
    have low : 2 ^ (63 - clzll n) ≤ n.toNat :=
      BitVec.two_pow_sub_clz_le_toNat_of_ne_zero (by decide) nonzero
    have high : n.toNat < 2 ^ (64 - clzll n) := BitVec.toNat_lt_two_pow_sub_clz
    have complement : ∀ zeros < 64, zeros ^^^ 63 = 63 - zeros := by decide
    rw [complement _ few]
    symm
    apply Nat.log_eq_of_pow_le_of_lt_pow low
    rwa [show 63 - clzll n + 1 = 64 - clzll n by omega]
  · rename_i small
    have bound := UInt64.le_iff_toNat_le.mp (UInt64.not_lt.mp small)
    symm
    apply Nat.log_of_lt
    omega

theorem log_lt (n : UInt64) : Nat.log 2 n.toNat < 64 := by
  cases zero : n.toNat with
  | zero => decide
  | succ k =>
    apply Nat.log_lt_of_lt_pow
    · omega
    · have bound := n.toNat_lt
      omega

/-- The nodes of a class. -/
def classNodes (nodes : List EntryArray) (i : Fin 64) : List EntryArray :=
  nodes.filter fun ea => u64log2 ea.size = i

/-- The stats after these nodes. -/
structure Tallied (nodes : List EntryArray) (stats stats' : EntryArrayStats) : Prop where
  count : stats'.count = stats.count
  unique : stats'.unique = stats.unique
  counts : ∀ i, stats'.log2SizeCounts i =
    ⟨(stats.log2SizeCounts i).total + ((classNodes nodes i).map EntryArray.count).sum,
      (stats.log2SizeCounts i).unique + UInt64.ofNat (classNodes nodes i).length⟩
  bytes : ∀ i, stats'.log2SizeBytes i =
    (classNodes nodes i).foldl (fun _ ea => ⟨ea.size * ea.count, ea.size⟩) (stats.log2SizeBytes i)
  utilized : ∀ i, stats'.log2SizeUtilized i =
    ⟨(stats.log2SizeUtilized i).total +
        ((classNodes nodes i).map fun ea => ea.size * ea.count).sum,
      (stats.log2SizeUtilized i).utilized +
        ((classNodes nodes i).map fun ea => ea.utilized * ea.count).sum⟩

theorem tally_tallied (stats : EntryArrayStats) (ea : EntryArray) :
    ∃ stats', tally stats ea = .ok stats' ∧ Tallied [ea] stats stats' := by
  have below : u64log2 ea.size < 64 := by
    rw [u64log2_eq]
    exact log_lt ea.size
  unfold tally
  refine ⟨_, dif_pos below, ⟨rfl, rfl, ?_, ?_, ?_⟩⟩
  all_goals
    intro i
    by_cases here : i = ⟨u64log2 ea.size, below⟩
    · subst here
      simp [classNodes]
    · have other : u64log2 ea.size ≠ i := fun same => here (Fin.ext same.symm)
      simp [classNodes, other, here]

theorem Tallied.append {nodes nodes' : List EntryArray} {stats middle stats' : EntryArrayStats}
    (first : Tallied nodes stats middle) (second : Tallied nodes' middle stats') :
    Tallied (nodes ++ nodes') stats stats' where
  count := second.count.trans first.count
  unique := second.unique.trans first.unique
  counts i := by
    rw [second.counts, first.counts]
    simp [classNodes, UInt64.add_assoc]
  bytes i := by
    rw [second.bytes, first.bytes]
    simp [classNodes]
  utilized i := by
    rw [second.utilized, first.utilized]
    simp [classNodes, SizeClass.utilized, UInt64.add_assoc]

/-- Any nodes are tallied. -/
theorem foldlM_tallied (nodes : List EntryArray) (stats : EntryArrayStats) :
    ∃ stats', nodes.foldlM tally stats = .ok stats' ∧ Tallied nodes stats stats' := by
  have none : Tallied [] stats stats := by
    refine ⟨rfl, rfl, ?_, ?_, ?_⟩ <;> intro i
    · simp [classNodes]
    · rfl
    · simp [classNodes, SizeClass.utilized]
  refine FaultingRuns.run_exists (fun _ => True) (fun stats' done => Tallied done stats stats')
    ?_ (fun _ _ => trivial) none
  intro middle done ea _ first
  obtain ⟨stats', ran, second⟩ := tally_tallied middle ea
  exact ⟨stats', ran, first.append second⟩

/-- The stats of a profile are those of its nodes, bucket by bucket. -/
theorem profileStats_tallied (profile : EntryArrayProfile) :
    ∃ stats, profileStats profile = .ok stats ∧
      Tallied profile.nodes { zeroStats with count := profile.count, unique := profile.unique }
        stats := by
  unfold profileStats EntryArrayProfile.nodes
  generalize List.finRange N_BUCKETS = buckets
  generalize ({ zeroStats with count := profile.count, unique := profile.unique } :
    EntryArrayStats) = stats
  induction buckets generalizing stats with
  | nil => exact foldlM_tallied [] stats
  | cons i buckets ih =>
    obtain ⟨middle, ran, first⟩ := foldlM_tallied (profile.buckets i) stats
    obtain ⟨stats', rest, second⟩ := ih middle
    refine ⟨stats', ?_, first.append second⟩
    rw [List.foldlM_cons, ran]
    exact rest

/-! ## Sums -/

/-- The distinct payloads of a class. -/
def inClass (payloads : List Payload) (i : Fin 64) : List (List UInt8) :=
  (payloads.map Payload.bytes).dedup.filter fun p => Nat.log 2 p.length = i

/-- A sum over them. -/
def sumOver (payloads : List Payload) (i : Fin 64) (f : List UInt8 → Nat) : Nat :=
  ((inClass payloads i).map f).sum

/-- How often a payload occurred. -/
def occurrences (payloads : List Payload) (p : List UInt8) : Nat :=
  (payloads.map Payload.bytes).count p

/-- Every number of a class is the sum over its distinct payloads. -/
structure ClassSums (payloads : List Payload) (stats : EntryArrayStats) : Prop where
  below : ∀ payload ∈ payloads, u64log2 (UInt64.ofNat payload.bytes.length) < 64 ∧
    u64log2 (UInt64.ofNat payload.bytes.length) = Nat.log 2 payload.bytes.length
  countsUnique : ∀ i, (stats.log2SizeCounts i).unique.toNat = (inClass payloads i).length
  countsTotal : ∀ i, (stats.log2SizeCounts i).total.toNat =
    sumOver payloads i (occurrences payloads)
  bytesUnique : ∀ i, (stats.log2SizeBytes i).unique.toNat = sumOver payloads i List.length
  bytesTotal : ∀ i, (stats.log2SizeBytes i).total.toNat =
    sumOver payloads i fun p => p.length * occurrences payloads p
  utilizedTotal : ∀ i, (stats.log2SizeUtilized i).total = (stats.log2SizeBytes i).total
  utilized : ∀ i, (stats.log2SizeUtilized i).utilized.toNat =
    sumOver payloads i fun p => 8 * itemsInUse p * occurrences payloads p
  inUse : ∀ i, (stats.log2SizeUtilized i).utilized ≤ (stats.log2SizeUtilized i).total

/-- The stats do not depend on the order the payloads come in. -/
def OrderFree (sha1 : List UInt8 → Digest) (count : UInt64) (payloads : List Payload)
    (stats : EntryArrayStats) : Prop :=
  ∀ payloads' : List Payload, payloads'.Perm payloads → ∀ profile,
    feed sha1 { emptyProfile with count } payloads' = .ok profile → profileStats profile = .ok stats

/-- No two payloads that differ are in one class. -/
def OnePerClass (payloads : List Payload) : Prop :=
  ∀ payload ∈ payloads, ∀ other ∈ payloads,
    Nat.log 2 payload.bytes.length = Nat.log 2 other.bytes.length → payload.bytes = other.bytes

section Sums

variable {sha1 : List UInt8 → Digest} {profile : EntryArrayProfile} {payloads : List Payload}

open scoped UInt64.CommRing in
theorem sum_perm {numbers numbers' : List UInt64} (same : numbers.Perm numbers') :
    numbers.sum = numbers'.sum := same.sum_eq

theorem ofNat_sum (f : List UInt8 → Nat) (list : List (List UInt8)) :
    (list.map fun p => UInt64.ofNat (f p)).sum = UInt64.ofNat (list.map f).sum := by
  induction list with
  | nil => rfl
  | cons p list ih =>
    rw [List.map_cons, List.sum_cons, ih, List.map_cons, List.sum_cons, UInt64.ofNat_add]

theorem mem_inClass {i : Fin 64} {p : List UInt8} : p ∈ inClass payloads i ↔
    (∃ payload ∈ payloads, payload.bytes = p) ∧ Nat.log 2 p.length = i := by
  unfold inClass
  rw [List.mem_filter, List.mem_dedup, List.mem_map, decide_eq_true_iff]

/-- The length of a payload fits into a word. -/
theorem length_toNat (payload : Payload) :
    (UInt64.ofNat payload.bytes.length).toNat = payload.bytes.length := by
  have small := payload.small
  apply UInt64.toNat_ofNat_of_lt'
  rw [show UInt64.size = 2 ^ 64 from rfl]
  omega

/-- The nodes of a class are those of its payloads. -/
theorem classNodes_perm {nodes : List EntryArray} (same : nodes.Perm
      ((payloads.map Payload.bytes).dedup.map (entryOf sha1 (payloads.map Payload.bytes))))
    (i : Fin 64) : (classNodes nodes i).Perm
      ((inClass payloads i).map (entryOf sha1 (payloads.map Payload.bytes))) := by
  apply (same.filter _).trans
  rw [List.filter_map]
  apply List.Perm.of_eq
  unfold inClass
  congr 1
  apply List.filter_congr
  intro p member
  obtain ⟨payload, -, rfl⟩ := List.mem_map.mp (List.mem_dedup.mp member)
  have size : (entryOf sha1 (payloads.map Payload.bytes) payload.bytes).size.toNat =
      payload.bytes.length := length_toNat payload
  rw [Function.comp_apply, u64log2_eq, size]

/-- The classes of the stats, by payloads. A class has the bytes of one of its payloads. -/
structure Classes (payloads : List Payload) (stats : EntryArrayStats) : Prop where
  counts : ∀ i, stats.log2SizeCounts i =
    ⟨UInt64.ofNat (sumOver payloads i (occurrences payloads)),
      UInt64.ofNat (inClass payloads i).length⟩
  bytes : ∀ i, inClass payloads i = [] ∧ stats.log2SizeBytes i = ⟨0, 0⟩ ∨
    ∃ p ∈ inClass payloads i, stats.log2SizeBytes i =
      ⟨UInt64.ofNat (p.length * occurrences payloads p), UInt64.ofNat p.length⟩
  utilized : ∀ i, stats.log2SizeUtilized i =
    ⟨UInt64.ofNat (sumOver payloads i fun p => p.length * occurrences payloads p),
      UInt64.ofNat (sumOver payloads i fun p => 8 * itemsInUse p * occurrences payloads p)⟩

theorem profileStats_classes (exact : ExactMultiset sha1 profile payloads) :
    ∃ stats, profileStats profile = .ok stats ∧ Classes payloads stats ∧
      stats.count = profile.count ∧ stats.unique = profile.unique := by
  obtain ⟨stats, ran, tallied⟩ := profileStats_tallied profile
  have listed := exact.nodes
  generalize profile.nodes = nodes at tallied listed
  have sums (i : Fin 64) (f : EntryArray → UInt64) (g : List UInt8 → Nat)
      (each : ∀ p, f (entryOf sha1 (payloads.map Payload.bytes) p) = UInt64.ofNat (g p)) :
      ((classNodes nodes i).map f).sum = UInt64.ofNat (sumOver payloads i g) := by
    rw [sum_perm ((classNodes_perm listed i).map f), List.map_map]
    unfold sumOver
    rw [← ofNat_sum]
    exact congrArg List.sum (List.map_congr_left fun p _ => each p)
  refine ⟨stats, ran, ⟨?_, ?_, ?_⟩, tallied.count, tallied.unique⟩
  · intro i
    have length := (classNodes_perm listed i).length_eq
    rw [List.length_map] at length
    rw [tallied.counts, sums i EntryArray.count (occurrences payloads) fun _ => rfl, length]
    simp [zeroStats]
  · intro i
    rw [tallied.bytes]
    have same := classNodes_perm listed i
    cases last : (classNodes nodes i).getLast? with
    | none =>
      rw [List.getLast?_eq_none_iff] at last
      rw [last] at same ⊢
      exact .inl ⟨List.map_eq_nil_iff.mp same.nil_eq.symm, rfl⟩
    | some ea =>
      obtain ⟨others, shape⟩ := List.getLast?_eq_some_iff.mp last
      obtain ⟨p, member, rfl⟩ := List.mem_map.mp (same.mem_iff.mp (List.mem_of_getLast? last))
      refine .inr ⟨p, member, ?_⟩
      rw [shape, List.foldl_append]
      exact congrArg (SizeClass.mk · _) (UInt64.ofNat_mul ..).symm
  · intro i
    rw [tallied.utilized,
      sums i (fun ea => ea.size * ea.count) (fun p => p.length * occurrences payloads p)
        fun p => (UInt64.ofNat_mul ..).symm,
      sums i (fun ea => ea.utilized * ea.count)
        (fun p => 8 * itemsInUse p * occurrences payloads p) fun p => (UInt64.ofNat_mul ..).symm]
    simp [zeroStats, SizeClass.utilized]

theorem sumOver_le {i : Fin 64} {f g : List UInt8 → Nat}
    (le : ∀ p ∈ inClass payloads i, f p ≤ g p) : sumOver payloads i f ≤ sumOver payloads i g :=
  List.sum_le_sum le

/-- Two payloads of a class that differ are both in the sum. -/
theorem add_le_sumOver {i : Fin 64} {p q : List UInt8} (first : p ∈ inClass payloads i)
    (second : q ∈ inClass payloads i) (different : p ≠ q) (f : List UInt8 → Nat) :
    f p + f q ≤ sumOver payloads i f := by
  unfold sumOver
  rw [((List.perm_cons_erase first).map f).sum_eq, List.map_cons, List.sum_cons]
  apply Nat.add_le_add_left
  apply List.single_le_sum (fun _ _ => Nat.zero_le _)
  exact List.mem_map_of_mem ((List.mem_erase_of_ne different.symm).mpr second)

/-- The bytes a class has seen fit into a word, for every class. -/
def SumsFit (payloads : List Payload) : Prop :=
  ∀ i, (sumOver payloads i fun p => p.length * occurrences payloads p) < 2 ^ 64

theorem inClass_pos {i : Fin 64} {p : List UInt8} (member : p ∈ inClass payloads i) :
    0 < p.length ∧ 0 < occurrences payloads p := by
  obtain ⟨⟨payload, held, rfl⟩, -⟩ := mem_inClass.mp member
  refine ⟨List.length_pos_iff.mpr payload.nonempty, ?_⟩
  apply List.count_pos_iff.mpr
  exact List.mem_map_of_mem held

/-- No sum over a class is larger than that of the bytes it has seen. -/
theorem SumsFit.toNat (fit : SumsFit payloads) {i : Fin 64} {f : List UInt8 → Nat}
    (le : ∀ p ∈ inClass payloads i, f p ≤ p.length * occurrences payloads p) :
    (UInt64.ofNat (sumOver payloads i f)).toNat = sumOver payloads i f := by
  apply UInt64.toNat_ofNat_of_lt'
  rw [show UInt64.size = 2 ^ 64 from rfl]
  exact (sumOver_le le).trans_lt (fit i)

theorem OnePerClass.eq (one : OnePerClass payloads) {i : Fin 64} {p q : List UInt8}
    (first : p ∈ inClass payloads i) (second : q ∈ inClass payloads i) : p = q := by
  obtain ⟨⟨payload, held, rfl⟩, log⟩ := mem_inClass.mp first
  obtain ⟨⟨other, held', rfl⟩, log'⟩ := mem_inClass.mp second
  exact one payload held other held' (log.trans log'.symm)

theorem inClass_nodup (payloads : List Payload) (i : Fin 64) : (inClass payloads i).Nodup :=
  (List.nodup_dedup _).filter _

/-- With one payload in its class, the bytes of the class are those of it. -/
theorem Classes.bytes_of_one {stats : EntryArrayStats} (classes : Classes payloads stats)
    (one : OnePerClass payloads) (i : Fin 64) : stats.log2SizeBytes i =
      ⟨UInt64.ofNat (sumOver payloads i fun p => p.length * occurrences payloads p),
        UInt64.ofNat (sumOver payloads i List.length)⟩ := by
  unfold sumOver
  rcases classes.bytes i with ⟨empty, bytes⟩ | ⟨p, member, bytes⟩
  · rw [bytes, empty]
    rfl
  · have alone : inClass payloads i = [p] := by
      apply List.perm_singleton.mp
      apply (List.perm_ext_iff_of_nodup (inClass_nodup payloads i) (List.nodup_singleton p)).mpr
      intro q
      rw [List.mem_singleton]
      constructor
      · exact fun other => one.eq other member
      · rintro rfl
        exact member
    rw [bytes, alone]
    simp

theorem Classes.sums {stats : EntryArrayStats} (classes : Classes payloads stats)
    (fit : SumsFit payloads) (one : OnePerClass payloads) : ClassSums payloads stats := by
  have used (p : List UInt8) : 8 * itemsInUse p * occurrences payloads p ≤
      p.length * occurrences payloads p := Nat.mul_le_mul_right _ (itemsInUse_le p)
  have utilized (i : Fin 64) := fit.toNat (i := i) fun p _ => used p
  have total (i : Fin 64) := fit.toNat (i := i) fun p _ => le_refl (p.length * occurrences payloads p)
  constructor
  · intro payload _
    have log := u64log2_eq (UInt64.ofNat payload.bytes.length)
    refine ⟨log ▸ log_lt _, ?_⟩
    rw [log, length_toNat]
  · intro i
    rw [classes.counts]
    have ones : (inClass payloads i).length = sumOver payloads i fun _ => 1 := by
      simp [sumOver]
    rw [ones]
    apply fit.toNat
    intro p member
    obtain ⟨nonempty, occurred⟩ := inClass_pos member
    exact Nat.mul_pos nonempty occurred
  · intro i
    rw [classes.counts]
    apply fit.toNat
    intro p member
    exact Nat.le_mul_of_pos_left _ (inClass_pos member).1
  · intro i
    rw [classes.bytes_of_one one]
    apply fit.toNat
    intro p member
    exact Nat.le_mul_of_pos_right _ (inClass_pos member).2
  · intro i
    rw [classes.bytes_of_one one]
    exact total i
  · intro i
    rw [classes.bytes_of_one one, classes.utilized]
  · intro i
    rw [classes.utilized]
    exact utilized i
  · intro i
    rw [classes.utilized]
    apply UInt64.le_iff_toNat_le.mpr
    exact (utilized i).trans_le ((sumOver_le fun p _ => used p).trans_eq (total i).symm)

/-- A class that has the sizes of all its payloads has one. -/
theorem Classes.one {stats : EntryArrayStats} (classes : Classes payloads stats)
    (sums : ClassSums payloads stats) : OnePerClass payloads := by
  intro payload held other held' log
  by_contra different
  have below := (sums.below payload held).2 ▸ (sums.below payload held).1
  let i : Fin 64 := ⟨Nat.log 2 payload.bytes.length, below⟩
  have first : payload.bytes ∈ inClass payloads i := mem_inClass.mpr ⟨⟨payload, held, rfl⟩, rfl⟩
  have second : other.bytes ∈ inClass payloads i :=
    mem_inClass.mpr ⟨⟨other, held', rfl⟩, log.symm⟩
  rcases classes.bytes i with ⟨empty, -⟩ | ⟨p, member, bytes⟩
  · rw [empty] at first
    cases first
  · have whole := sums.bytesUnique i
    obtain ⟨⟨chosen, -, rfl⟩, -⟩ := mem_inClass.mp member
    rw [bytes, length_toNat] at whole
    have more (q : List UInt8) (counted : q ∈ inClass payloads i) (apart : chosen.bytes ≠ q) :
        False := by
      have both := add_le_sumOver member counted apart List.length
      have nonempty := (inClass_pos counted).1
      omega
    by_cases same : chosen.bytes = payload.bytes
    · exact more _ second (same ▸ different)
    · exact more _ first same

/-- Sums are the same for payloads in another order. -/
theorem sumOver_perm {payloads' : List Payload} (same : payloads'.Perm payloads) (i : Fin 64)
    {f g : List UInt8 → Nat} (each : ∀ p, f p = g p) :
    sumOver payloads' i f = sumOver payloads i g := by
  unfold sumOver inClass
  obtain rfl : f = g := funext each
  exact ((((same.map Payload.bytes).dedup).filter _).map f).sum_eq

theorem ClassSums.unique {payloads' : List Payload} {stats stats' : EntryArrayStats}
    (sums : ClassSums payloads stats) (sums' : ClassSums payloads' stats')
    (same : payloads'.Perm payloads) (count : stats'.count = stats.count)
    (unique : stats'.unique = stats.unique) : stats' = stats := by
  have occurred (p : List UInt8) : occurrences payloads' p = occurrences payloads p :=
    (same.map Payload.bytes).count_eq p
  have numbers {a b : SizeClass} (total : a.total.toNat = b.total.toNat)
      (unique : a.unique.toNat = b.unique.toNat) : a = b :=
    SizeClass.ext (UInt64.toNat_inj.mp total) (UInt64.toNat_inj.mp unique)
  have bytesTotal (i : Fin 64) :
      (stats'.log2SizeBytes i).total.toNat = (stats.log2SizeBytes i).total.toNat := by
    rw [sums'.bytesTotal, sums.bytesTotal]
    exact sumOver_perm same i fun p => by rw [occurred]
  apply EntryArrayStats.ext count unique
  · funext i
    apply numbers
    · rw [sums'.countsTotal, sums.countsTotal]
      exact sumOver_perm same i occurred
    · rw [sums'.countsUnique, sums.countsUnique]
      exact (((same.map Payload.bytes).dedup).filter _).length_eq
  · funext i
    apply numbers (bytesTotal i)
    rw [sums'.bytesUnique, sums.bytesUnique]
    exact sumOver_perm same i fun _ => rfl
  · funext i
    apply numbers
    · rw [sums'.utilizedTotal, sums.utilizedTotal]
      exact bytesTotal i
    · refine (sums'.utilized i).trans (Eq.trans ?_ (sums.utilized i).symm)
      exact sumOver_perm same i fun p => by rw [occurred]

theorem OnePerClass.perm {payloads' : List Payload} (one : OnePerClass payloads)
    (same : payloads'.Perm payloads) : OnePerClass payloads' :=
  fun payload held other held' =>
    one payload (same.mem_iff.mp held) other (same.mem_iff.mp held')

theorem SumsFit.perm {payloads' : List Payload} (fit : SumsFit payloads)
    (same : payloads'.Perm payloads) : SumsFit payloads' := by
  intro i
  have occurred (p : List UInt8) : occurrences payloads' p = occurrences payloads p :=
    (same.map Payload.bytes).count_eq p
  rw [sumOver_perm same i fun p => by rw [occurred]]
  exact fit i

/-- The stats of any payloads, fed in one after the other. -/
theorem feed_classes (apart : Set.InjOn sha1 {p | p ∈ payloads.map Payload.bytes})
    (count : UInt64) : ∃ profile stats, feed sha1 { emptyProfile with count } payloads =
        .ok profile ∧ profileStats profile = .ok stats ∧ Classes payloads stats ∧
      stats.count = count ∧
      stats.unique = UInt64.ofNat (payloads.map Payload.bytes).dedup.length := by
  obtain ⟨profile, ran, profiles, counted⟩ := (emptyProfile_profiles sha1 count).feed apart
  have exact := profiles.exact apart
  obtain ⟨stats, ran', classes, same, unique⟩ := profileStats_classes exact
  exact ⟨profile, stats, ran, ran', classes, same.trans counted, unique.trans exact.unique⟩

/-- In whatever order the payloads of a journal came, the stats are sums over the classes
exactly if no class has two payloads that differ. -/
theorem stats_are_sums_iff (apart : Set.InjOn sha1 {p | p ∈ payloads.map Payload.bytes})
    (fit : SumsFit payloads) (count : UInt64) : ∃ profile stats,
      feed sha1 { emptyProfile with count } payloads = .ok profile ∧
      profileStats profile = .ok stats ∧
      (ClassSums payloads stats ∧ OrderFree sha1 count payloads stats ↔ OnePerClass payloads) := by
  obtain ⟨profile, stats, ran, ran', classes, counted, unique⟩ := feed_classes apart count
  refine ⟨profile, stats, ran, ran', fun holds => classes.one holds.1, ?_⟩
  intro one
  have sums := classes.sums fit one
  refine ⟨sums, ?_⟩
  intro payloads' same profile' fed
  have members : {p | p ∈ payloads'.map Payload.bytes} = {p | p ∈ payloads.map Payload.bytes} := by
    ext p
    exact (same.map Payload.bytes).mem_iff
  obtain ⟨_, stats', again, ran'', classes', counted', unique'⟩ :=
    feed_classes (members ▸ apart) count
  obtain rfl := Except.ok.inj (again.symm.trans fed)
  have sums' := classes'.sums (fit.perm same) (one.perm same)
  rw [ran'', sums.unique sums' same (counted'.trans counted.symm)]
  rw [unique, unique', ((same.map Payload.bytes).dedup).length_eq]

theorem sumsFit_of_total (fit : (((payloads.map Payload.bytes).dedup.map fun p =>
    p.length * occurrences payloads p).sum < 2 ^ 64)) : SumsFit payloads := by
  intro i
  apply lt_of_le_of_lt _ fit
  apply List.Sublist.sum_le_sum
  · exact List.filter_sublist.map _
  · exact fun _ _ => Nat.zero_le _

end Sums

theorem stats_are_sums_iff_items : ∃ profile stats,
    feed itemSha1 { emptyProfile with count := 3 } [unusedItem, usedItem, unusedItem] =
      .ok profile ∧ profileStats profile = .ok stats ∧
    (ClassSums [unusedItem, usedItem, unusedItem] stats ∧
      OrderFree itemSha1 3 [unusedItem, usedItem, unusedItem] stats ↔
        OnePerClass [unusedItem, usedItem, unusedItem]) :=
  stats_are_sums_iff (itemSha1_apart (by simp)) (sumsFit_of_total (by decide)) 3

/-- Of two items of eight bytes, the stats have the size of one. -/
theorem sizes_are_not_added : ∃ profile stats,
    feed itemSha1 { emptyProfile with count := 2 } [unusedItem, usedItem] = .ok profile ∧
      profileStats profile = .ok stats ∧ ¬ClassSums [unusedItem, usedItem] stats := by
  obtain ⟨profile, stats, ran, ran', classes, -⟩ :=
    @feed_classes _ [unusedItem, usedItem] (itemSha1_apart (by simp)) 2
  refine ⟨profile, stats, ran, ran', ?_⟩
  intro sums
  have same := classes.one sums unusedItem (by simp) usedItem (by simp) rfl
  exact absurd same (by decide)

end Jio.EntryArrays
