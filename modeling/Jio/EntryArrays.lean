import Mathlib.Algebra.BigOperators.Group.List.Lemmas
import Mathlib.Data.Finset.Card
import Jio.Library.ChainedTable
import Jio.ObjectLoads

/-! `report entry-arrays`. Every payload of an entry array is looked up by its SHA-1 in
a table of chains, which so comes to hold each payload once and how often it was
seen. -/
namespace Jio.EntryArrays
open ByteOrder ReadProgram

/-! ## The profile -/

/-- `SHA_DIGEST_LENGTH`. -/
def SHA_DIGEST_LENGTH : Nat := 20

/-- `N_BUCKETS`. -/
def N_BUCKETS : Nat := 64 * 1024

/-- What `SHA1_Final` fills in. -/
abbrev Digest := Vector UInt8 SHA_DIGEST_LENGTH

/-- `entry_array_t`. Its `next` is the rest of the chain it is in. -/
structure EntryArray where
  digest : Digest
  count : UInt64
  size : UInt64
  utilized : UInt64
  deriving DecidableEq

/-- `entry_array_profile_t`. -/
structure EntryArrayProfile where
  count : UInt64
  unique : UInt64
  buckets : Fin N_BUCKETS → List EntryArray

/-- `ea->count++`. -/
def EntryArray.counted (ea : EntryArray) : EntryArray := { ea with count := ea.count + 1 }

/-- The profile a journal starts with. -/
def emptyProfile : EntryArrayProfile := ⟨0, 0, fun _ => []⟩

/-- A cheesy way to turn the digest into a bucket id. -/
def bucketOf (digest : Digest) : Fin N_BUCKETS :=
  digest.toList.foldl (fun bucket byte =>
    ⟨(bucket + byte.toNat) % N_BUCKETS, Nat.mod_lt _ (by decide)⟩) ⟨0, by decide⟩

/-- `items[i]`. Whether it is zero is the same in any byte order. -/
def itemOf (payloadBuf : List UInt8) (i : Nat) : UInt64 := readU64 .little payloadBuf (8 * i)

/-- The loop over the items of a payload. They are never so many that its `int` overflows:
what a read returns is an `int` as well. -/
def utilizedOf (payloadBuf : List UInt8) : UInt64 :=
  (List.range (payloadBuf.length / 8)).foldl (fun utilized i =>
    if itemOf payloadBuf i ≠ 0 then utilized + sizeofLe64 else utilized) 0

/-- `per_entry_array_payload`: its result before the closure, and the profile. `calloc` is
whether there is memory for another node. -/
def perEntryArrayPayload (sha1 : List UInt8 → Digest) (calloc : Bool) (payloadBuf : List UInt8)
    (profile : EntryArrayProfile) : Except Fault (Int × EntryArrayProfile) :=
  if payloadBuf = [] then .error .assertion
  else
    let digest := sha1 payloadBuf
    let counted (profile : EntryArrayProfile) : EntryArrayProfile := { profile with
      buckets := ChainedTable.modify EntryArray.digest bucketOf profile.buckets digest
        EntryArray.counted }
    match ChainedTable.lookup EntryArray.digest bucketOf profile.buckets digest with
    | some _ => .ok (0, counted profile)
    | none =>
      if calloc then .ok (0, counted { profile with
        unique := profile.unique + 1
        buckets := ChainedTable.insert EntryArray.digest bucketOf profile.buckets
          ⟨digest, 0, UInt64.ofNat payloadBuf.length, utilizedOf payloadBuf⟩ })
      else .ok (-ENOMEM, profile)

/-! ## The stats -/

/-- `__builtin_clzll`. -/
def clzll (n : UInt64) : Nat := n.toBitVec.clz.toNat

/-- `u64log2`. -/
def u64log2 (n : UInt64) : Nat := if n > 1 then clzll n ^^^ 63 else 0

/-- An element of the tables of `entry_array_stats_t`. `unique` is a union with
`utilized`. -/
@[ext] structure SizeClass where
  total : UInt64
  unique : UInt64
  deriving DecidableEq

/-- The other name of it. -/
abbrev SizeClass.utilized (sizeClass : SizeClass) : UInt64 := sizeClass.unique

/-- `entry_array_stats_t`. -/
@[ext] structure EntryArrayStats where
  count : UInt64
  unique : UInt64
  log2SizeCounts : Fin 64 → SizeClass
  log2SizeBytes : Fin 64 → SizeClass
  log2SizeUtilized : Fin 64 → SizeClass

/-- `entry_array_stats_t totals = {}`. -/
def zeroStats : EntryArrayStats := ⟨0, 0, fun _ => ⟨0, 0⟩, fun _ => ⟨0, 0⟩, fun _ => ⟨0, 0⟩⟩

/-- The body of the loop over a chain. -/
def tally (stats : EntryArrayStats) (ea : EntryArray) : Except Fault EntryArrayStats :=
  let l2sz := u64log2 ea.size
  if below : l2sz < 64 then
    let l2sz : Fin 64 := ⟨l2sz, below⟩
    let counts := stats.log2SizeCounts l2sz
    let utilized := stats.log2SizeUtilized l2sz
    .ok { stats with
      log2SizeCounts := Function.update stats.log2SizeCounts l2sz
        ⟨counts.total + ea.count, counts.unique + 1⟩
      -- these two are assigned
      log2SizeBytes := Function.update stats.log2SizeBytes l2sz ⟨ea.size * ea.count, ea.size⟩
      log2SizeUtilized := Function.update stats.log2SizeUtilized l2sz
        ⟨utilized.total + ea.size * ea.count, utilized.utilized + ea.utilized * ea.count⟩ }
  else .error .outOfBounds

/-- The stats of a profile at the end of its journal. -/
def profileStats (profile : EntryArrayProfile) : Except Fault EntryArrayStats :=
  (List.finRange N_BUCKETS).foldlM (fun stats i => (profile.buckets i).foldlM tally stats)
    { zeroStats with count := profile.count, unique := profile.unique }

def SizeClass.add (dest src : SizeClass) : SizeClass :=
  ⟨dest.total + src.total, dest.unique + src.unique⟩

/-- `add_stats`. -/
def addStats (dest src : EntryArrayStats) : EntryArrayStats where
  count := dest.count + src.count
  unique := dest.unique + src.unique
  log2SizeCounts i := (dest.log2SizeCounts i).add (src.log2SizeCounts i)
  log2SizeBytes i := (dest.log2SizeBytes i).add (src.log2SizeBytes i)
  log2SizeUtilized i := (dest.log2SizeUtilized i).add (src.log2SizeUtilized i)

/-! ## The walk -/

/-- What the allocator has at each object. -/
structure EntryArrayAllocs where
  malloc : UInt64 → UInt64 → Bool
  calloc : UInt64 → Bool

/-- What `per_journal` allocates, besides the cells of the walk. -/
structure ProfileCells where
  header : Header
  profile : EntryArrayProfile

/-- `per_object` at the end of a journal: its result, and `totals`. -/
def perObjectEnd (profile : EntryArrayProfile) (totals : EntryArrayStats) :
    Except Fault (Int × EntryArrayStats) := do
  let stats ← profileStats profile
  return (0, addStats totals stats)

/-- `per_object`, up to where it is at the end of the journal, or `self` is dispatched
again. -/
def perObject (sha1 : List UInt8 → Digest) (allocs : EntryArrayAllocs)
    (cells : Iteration ProfileCells) : Reading (Iteration ProfileCells) :=
  if cells.iterOffset = 0 then .dispatch cells
  -- skip non-entry-array objects
  else if cells.iterObjectHeader.type ≠ ObjectType.entryArray.toByte then .dispatch cells
  else
    let profile := { cells.user.profile with count := cells.user.profile.count + 1 }
    let cells := { cells with user := { cells.user with profile } }
    let payloadSize := cells.iterObjectHeader.size - entryArrayItemsOffset
    if allocs.malloc cells.iterOffset payloadSize then
      .read (cells.iterOffset + entryArrayItemsOffset, payloadSize) cells fun buf =>
        match perEntryArrayPayload sha1 (allocs.calloc cells.iterOffset) buf profile with
        | .error fault => .abort fault
        | .ok (r, profile) =>
          let cells := { cells with user := { cells.user with profile } }
          if r < 0 then .fail r cells else .dispatch cells
    else .fail (-ENOMEM) cells

/-- One turn of the walk. -/
def perObjectStep (sha1 : List UInt8 → Digest) (allocs : EntryArrayAllocs) (host : Endian)
    (cells : Iteration ProfileCells) : Reading (Iteration ProfileCells) :=
  (journalIterNextObject host cells.user.header cells).andThen (perObject sha1 allocs)

/-! ## The multiset -/

/-- The nodes of a profile, chain by chain. -/
def EntryArrayProfile.nodes (profile : EntryArrayProfile) : List EntryArray :=
  (List.finRange N_BUCKETS).flatMap profile.buckets

/-- How many items of a payload are in use: some byte of theirs is not zero. -/
def itemsInUse (payload : List UInt8) : Nat :=
  (List.range (payload.length / 8)).countP fun i =>
    ((payload.drop (8 * i)).take 8).any fun byte => byte ≠ 0

/-- The node of a payload among these. -/
def entryOf (sha1 : List UInt8 → Digest) (payloads : List (List UInt8)) (payload : List UInt8) :
    EntryArray where
  digest := sha1 payload
  count := UInt64.ofNat (payloads.count payload)
  size := UInt64.ofNat payload.length
  utilized := UInt64.ofNat (8 * itemsInUse payload)

/-- A digest stands for the first payload that has it. -/
def entries (sha1 : List UInt8 → Digest) (payloads : List (List UInt8)) (digest : Digest) :
    Option EntryArray :=
  (payloads.find? fun payload => sha1 payload = digest).map (entryOf sha1 payloads)

/-- The bytes of a digest add up to its bucket. -/
theorem bucketOf_eq (digest : Digest) :
    (bucketOf digest).val = (digest.toList.map UInt8.toNat).sum % N_BUCKETS := by
  have from_ (bytes : List UInt8) (bucket : Fin N_BUCKETS) :
      (bytes.foldl (fun bucket byte => ⟨(bucket.val + byte.toNat) % N_BUCKETS,
        Nat.mod_lt _ (by decide)⟩) bucket).val =
          (bucket.val + (bytes.map UInt8.toNat).sum) % N_BUCKETS := by
    induction bytes generalizing bucket with
    | nil => exact (Nat.mod_eq_of_lt bucket.isLt).symm
    | cons byte bytes ih =>
      rw [List.foldl_cons, ih, List.map_cons, List.sum_cons, Nat.mod_add_mod, Nat.add_assoc]
  unfold bucketOf
  rw [from_, Nat.zero_add]

/-- An item is zero if all its bytes are. -/
theorem itemOf_ne_zero (payload : List UInt8) (i : Nat) :
    itemOf payload i ≠ 0 ↔ ((payload.drop (8 * i)).take 8).any (fun byte => byte ≠ 0) := by
  generalize bytes : (payload.drop (8 * i)).take 8 = item
  have short : item.length ≤ 8 := bytes ▸ List.length_take_le ..
  have bound : ofLE item < 2 ^ 64 := (ofLE_lt item).trans_le (Nat.pow_le_pow_right (by decide) short)
  have zero : itemOf payload i = 0 ↔ ofLE item = 0 := by
    unfold itemOf readU64
    rw [bytes, ← UInt64.toNat_inj, Endian.value, UInt64.toNat_ofNat_of_lt' bound]
    rfl
  rw [ne_eq, zero, ofLE_eq_zero]
  simp

theorem itemsInUse_eq (payload : List UInt8) :
    itemsInUse payload = (List.range (payload.length / 8)).countP fun i => itemOf payload i ≠ 0 := by
  unfold itemsInUse
  apply List.countP_congr
  intro i _
  rw [← itemOf_ne_zero, decide_eq_true_iff]

theorem utilizedOf_eq (payload : List UInt8) :
    utilizedOf payload = UInt64.ofNat (8 * itemsInUse payload) := by
  rw [itemsInUse_eq]
  unfold utilizedOf
  generalize List.range (payload.length / 8) = items
  have from_ (sum : Nat) : items.foldl (fun utilized i =>
      if itemOf payload i ≠ 0 then utilized + sizeofLe64 else utilized) (UInt64.ofNat sum) =
      UInt64.ofNat (sum + 8 * items.countP fun i => itemOf payload i ≠ 0) := by
    induction items generalizing sum with
    | nil => rfl
    | cons i items ih =>
      rw [List.foldl_cons, List.countP_cons]
      by_cases used : itemOf payload i ≠ 0
      · have next : UInt64.ofNat sum + sizeofLe64 = UInt64.ofNat (sum + 8) :=
          (UInt64.ofNat_add ..).symm
        rw [if_pos used, next, ih, decide_eq_true used, if_pos rfl]
        congr 1
        omega
      · rw [if_neg used, ih, decide_eq_false used, if_neg nofun]
        rfl
  simpa using from_ 0

theorem itemsInUse_le (payload : List UInt8) : 8 * itemsInUse payload ≤ payload.length := by
  have counted : itemsInUse payload ≤ (List.range (payload.length / 8)).length :=
    List.countP_le_length
  rw [List.length_range] at counted
  omega

theorem found_digest {sha1 : List UInt8 → Digest} {payloads : List (List UInt8)} {digest : Digest}
    {payload : List UInt8} (found : (payloads.find? fun p => sha1 p = digest) = some payload) :
    sha1 payload = digest := by
  simpa using List.find?_some found

theorem entries_digest {sha1 : List UInt8 → Digest} {payloads : List (List UInt8)}
    (digest : Digest) (ea : EntryArray) (held : entries sha1 payloads digest = some ea) :
    ea.digest = digest := by
  obtain ⟨payload, found, rfl⟩ := Option.map_eq_some_iff.mp held
  exact found_digest found

/-- A payload is the only one with its digest. -/
theorem find_digest {sha1 : List UInt8 → Digest} {payloads : List (List UInt8)}
    (apart : Set.InjOn sha1 {p | p ∈ payloads}) {payload : List UInt8}
    (member : payload ∈ payloads) :
    (payloads.find? fun p => sha1 p = sha1 payload) = some payload := by
  cases found : payloads.find? fun p => sha1 p = sha1 payload with
  | none => simpa using List.find?_eq_none.mp found payload member
  | some other => rw [apart (List.mem_of_find?_eq_some found) member (found_digest found)]

/-- One more payload changes the entry of its digest. -/
theorem entries_append {sha1 : List UInt8 → Digest} {payloads : List (List UInt8)}
    {payload : List UInt8} (apart : Set.InjOn sha1 {p | p ∈ payloads ++ [payload]}) :
    entries sha1 (payloads ++ [payload]) = Function.update (entries sha1 payloads) (sha1 payload)
      (some (entryOf sha1 (payloads ++ [payload]) payload)) := by
  funext digest
  unfold entries
  by_cases same : digest = sha1 payload
  · subst same
    rw [Function.update_self, find_digest apart (by simp)]
    rfl
  · have other : ([payload].find? fun p => sha1 p = digest) = none := by
      simpa using fun equal => same equal.symm
    rw [Function.update_of_ne same, List.find?_append, other, Option.or_none]
    apply Option.map_congr
    intro p found
    have named := found_digest found
    have different : payload ≠ p := by
      rintro rfl
      exact same named.symm
    unfold entryOf
    rw [List.count_append, List.count_singleton, if_neg (by simpa using different), Nat.add_zero]

/-- How many payloads there are that differ. -/
theorem dedup_append (payloads : List (List UInt8)) (payload : List UInt8) :
    (payloads ++ [payload]).dedup.length =
      if payload ∈ payloads then payloads.dedup.length else payloads.dedup.length + 1 := by
  rw [← List.card_toFinset, ← List.card_toFinset, List.toFinset_append]
  split
  · rename_i known
    congr 1
    simpa using known
  · rename_i new
    rw [Finset.union_comm, show [payload].toFinset = {payload} from rfl, ← Finset.insert_eq,
      Finset.card_insert_of_notMem (by simpa using new)]

/-- A profile is that of these payloads. -/
structure Profiles (sha1 : List UInt8 → Digest) (profile : EntryArrayProfile)
    (payloads : List (List UInt8)) : Prop where
  represents : ChainedTable.Represents EntryArray.digest bucketOf profile.buckets
    (entries sha1 payloads)
  unique : profile.unique = UInt64.ofNat payloads.dedup.length

theorem emptyProfile_profiles (sha1 : List UInt8 → Digest) (count : UInt64) :
    Profiles sha1 { emptyProfile with count } [] where
  represents := ChainedTable.represents_empty
  unique := rfl

section Payloads

variable {sha1 : List UInt8 → Digest} {profile : EntryArrayProfile} {payloads : List (List UInt8)}
  {payload : List UInt8}

theorem perEntryArrayPayload_nonempty {calloc : Bool} {result : Int × EntryArrayProfile}
    (ran : perEntryArrayPayload sha1 calloc payload profile = .ok result) : payload ≠ [] := by
  rintro rfl
  cases ran

/-- A payload that was seen before is counted. -/
theorem perEntryArrayPayload_known (calloc : Bool) (nonempty : payload ≠ []) {ea : EntryArray}
    (found : ChainedTable.lookup EntryArray.digest bucketOf profile.buckets (sha1 payload) =
      some ea) :
    perEntryArrayPayload sha1 calloc payload profile = .ok (0, { profile with
      buckets := ChainedTable.modify EntryArray.digest bucketOf profile.buckets (sha1 payload)
        EntryArray.counted }) := by
  unfold perEntryArrayPayload
  simp only [if_neg nonempty, found]

/-- A payload that was not gets a node, which is then counted. -/
theorem perEntryArrayPayload_new (nonempty : payload ≠ [])
    (found : ChainedTable.lookup EntryArray.digest bucketOf profile.buckets (sha1 payload) =
      none) :
    perEntryArrayPayload sha1 true payload profile = .ok (0, { profile with
      unique := profile.unique + 1
      buckets := ChainedTable.modify EntryArray.digest bucketOf
        (ChainedTable.insert EntryArray.digest bucketOf profile.buckets
          ⟨sha1 payload, 0, UInt64.ofNat payload.length, utilizedOf payload⟩)
        (sha1 payload) EntryArray.counted }) := by
  unfold perEntryArrayPayload
  simp only [if_neg nonempty, found, ↓reduceIte]

theorem entries_known (apart : Set.InjOn sha1 {p | p ∈ payloads}) (member : payload ∈ payloads) :
    entries sha1 payloads (sha1 payload) = some (entryOf sha1 payloads payload) := by
  unfold entries
  rw [find_digest apart member]
  rfl

theorem entries_new (apart : Set.InjOn sha1 {p | p ∈ payloads ++ [payload]})
    (new : payload ∉ payloads) : entries sha1 payloads (sha1 payload) = none := by
  unfold entries
  rw [Option.map_eq_none_iff, List.find?_eq_none]
  intro p member
  have different : p ≠ payload := by
    rintro rfl
    exact new member
  simpa using fun same => different (apart (by simp [member]) (by simp) same)

/-- Counting an entry makes it that of one more payload. -/
theorem entryOf_counted :
    (entryOf sha1 payloads payload).counted = entryOf sha1 (payloads ++ [payload]) payload := by
  unfold EntryArray.counted entryOf
  rw [List.count_append, List.count_singleton_self, UInt64.ofNat_add]
  rfl

theorem entryOf_fresh (new : payload ∉ payloads) :
    EntryArray.counted ⟨sha1 payload, 0, UInt64.ofNat payload.length, utilizedOf payload⟩ =
      entryOf sha1 (payloads ++ [payload]) payload := by
  unfold EntryArray.counted entryOf
  rw [List.count_append, List.count_singleton_self, List.count_eq_zero.mpr new, utilizedOf_eq]
  rfl

/-- One more payload makes the profile that of one more payload. -/
theorem perEntryArrayPayload_profiles (profiles : Profiles sha1 profile payloads)
    (nonempty : payload ≠ []) (apart : Set.InjOn sha1 {p | p ∈ payloads ++ [payload]}) :
    ∃ profile', perEntryArrayPayload sha1 true payload profile = .ok (0, profile') ∧
      Profiles sha1 profile' (payloads ++ [payload]) ∧ profile'.count = profile.count := by
  obtain ⟨represents, unique⟩ := profiles
  have apart' : Set.InjOn sha1 {p | p ∈ payloads} := apart.mono fun p member => by simp_all
  have keeps : ∀ ea : EntryArray, ea.counted.digest = ea.digest := fun _ => rfl
  have found := represents.lookup_eq entries_digest (sha1 payload)
  have grown := dedup_append payloads payload
  by_cases member : payload ∈ payloads
  · have held := entries_known apart' member
    rw [held] at found
    refine ⟨_, perEntryArrayPayload_known true nonempty found, ⟨?_, ?_⟩, rfl⟩
    · have changed := represents.modify keeps held rfl
      rwa [entryOf_counted, ← entries_append apart] at changed
    · rw [grown, if_pos member]
      exact unique
  · have held := entries_new apart member
    rw [held] at found
    refine ⟨_, perEntryArrayPayload_new nonempty found, ⟨?_, ?_⟩, rfl⟩
    · have inserted := represents.insert (n := ⟨sha1 payload, 0, UInt64.ofNat payload.length,
        utilizedOf payload⟩) held
      have changed := inserted.modify keeps (Function.update_self ..) rfl
      rwa [Function.update_idem, entryOf_fresh member, ← entries_append apart] at changed
    · rw [grown, if_neg member, UInt64.ofNat_add, ← unique]
      rfl

end Payloads

/-! ## Sequences -/

/-- A payload as `journal_read` hands it over: it has some bytes, and no more than the `int`
that is the result of a read can say. -/
structure Payload where
  bytes : List UInt8
  nonempty : bytes ≠ []
  small : bytes.length < 2 ^ 31

/-- Payloads fed to `per_entry_array_payload`, one after the other. -/
def feed (sha1 : List UInt8 → Digest) (profile : EntryArrayProfile) :
    List Payload → Except Fault EntryArrayProfile
  | [] => .ok profile
  | payload :: payloads => do
    let (_, profile) ← perEntryArrayPayload sha1 true payload.bytes profile
    feed sha1 profile payloads

/-- Each payload has one node, in the bucket of its digest, which says how often it occurred,
how long it is and how much of it is in use. -/
structure ExactMultiset (sha1 : List UInt8 → Digest) (profile : EntryArrayProfile)
    (payloads : List Payload) : Prop where
  placed : ∀ bucket, ∀ ea ∈ profile.buckets bucket,
    bucket.val = (ea.digest.toList.map UInt8.toNat).sum % N_BUCKETS
  nodes : profile.nodes.Perm
    ((payloads.map Payload.bytes).dedup.map (entryOf sha1 (payloads.map Payload.bytes)))
  sizes : ∀ payload ∈ payloads, let ea := entryOf sha1 (payloads.map Payload.bytes) payload.bytes
    ea.size.toNat = payload.bytes.length ∧
      ea.utilized.toNat = 8 * itemsInUse payload.bytes ∧ ea.utilized ≤ ea.size
  unique : profile.unique = UInt64.ofNat (payloads.map Payload.bytes).dedup.length
  counts : profile.nodes.foldl (fun sum ea => sum + ea.count) 0 = UInt64.ofNat payloads.length

/-- The counts of the nodes add up. -/
theorem counts_sum (sha1 : List UInt8 → Digest) (payloads : List (List UInt8))
    {nodes : List EntryArray}
    (same : nodes.Perm (payloads.dedup.map (entryOf sha1 payloads))) :
    nodes.foldl (fun sum ea => sum + ea.count) 0 = UInt64.ofNat payloads.length := by
  have commutes : RightCommutative fun (sum : UInt64) (ea : EntryArray) => sum + ea.count :=
    ⟨fun sum ea ea' => by simp only [UInt64.add_assoc, UInt64.add_comm ea.count]⟩
  have from_ (list : List (List UInt8)) (sum : Nat) :
      (list.map (entryOf sha1 payloads)).foldl (fun sum ea => sum + ea.count) (UInt64.ofNat sum) =
        UInt64.ofNat (sum + (list.map payloads.count).sum) := by
    induction list generalizing sum with
    | nil => rfl
    | cons payload list ih =>
      have next : UInt64.ofNat sum + (entryOf sha1 payloads payload).count =
          UInt64.ofNat (sum + payloads.count payload) := (UInt64.ofNat_add ..).symm
      rw [List.map_cons, List.foldl_cons, next, ih, List.map_cons, List.sum_cons, Nat.add_assoc]
  rw [same.foldl_eq]
  refine (from_ payloads.dedup 0).trans ?_
  rw [Nat.zero_add]
  congr 1
  have each (p : List UInt8) : payloads.count p = @List.count _ instBEqOfDecidableEq p payloads := by
    congr
    apply lawful_beq_subsingleton
  rw [List.map_congr_left fun p _ => each p]
  exact List.sum_map_count_dedup_eq_length payloads

/-- A profile of payloads holds exactly them. -/
theorem Profiles.exact {sha1 : List UInt8 → Digest} {profile : EntryArrayProfile}
    {payloads : List Payload} (profiles : Profiles sha1 profile (payloads.map Payload.bytes))
    (apart : Set.InjOn sha1 {p | p ∈ payloads.map Payload.bytes}) :
    ExactMultiset sha1 profile payloads := by
  obtain ⟨represents, unique⟩ := profiles
  generalize known : payloads.map Payload.bytes = seen at *
  have nodes : profile.nodes.Perm (seen.dedup.map (entryOf sha1 seen)) := by
    have listed : profile.nodes.Perm ((seen.dedup.map sha1).filterMap (entries sha1 seen)) :=
      represents.perm entries_digest List.mem_finRange (List.nodup_finRange N_BUCKETS) ?_ ?_
    · have each : (seen.dedup.map sha1).filterMap (entries sha1 seen) =
          seen.dedup.map (entryOf sha1 seen) := by
        rw [List.filterMap_map, ← List.filterMap_eq_map]
        apply List.filterMap_congr
        intro payload member
        exact entries_known apart (List.mem_dedup.mp member)
      rwa [each] at listed
    · intro digest held
      obtain ⟨payload, found⟩ := Option.isSome_iff_exists.mp (Option.isSome_map ▸ held)
      rw [← found_digest found]
      exact List.mem_map_of_mem (List.mem_dedup.mpr (List.mem_of_find?_eq_some found))
    · apply List.Nodup.map_on _ (List.nodup_dedup seen)
      intro p member p' member' same
      exact apart (List.mem_dedup.mp member) (List.mem_dedup.mp member') same
  refine ⟨?_, ?_, ?_, ?_, ?_⟩
  · intro bucket ea member
    rw [← ((represents.nodes bucket ea).mp member).1, bucketOf_eq]
  · rw [known]
    exact nodes
  · intro payload _
    have inUse := itemsInUse_le payload.bytes
    have small := payload.small
    have word : UInt64.size = 2 ^ 64 := rfl
    have size : (UInt64.ofNat payload.bytes.length).toNat = payload.bytes.length :=
      UInt64.toNat_ofNat_of_lt' (by omega)
    have utilized : (UInt64.ofNat (8 * itemsInUse payload.bytes)).toNat =
        8 * itemsInUse payload.bytes := UInt64.toNat_ofNat_of_lt' (by omega)
    refine ⟨size, utilized, ?_⟩
    apply UInt64.le_iff_toNat_le.mpr
    exact utilized.trans_le (inUse.trans_eq size.symm)
  · rw [known]
    exact unique
  · have length : payloads.length = seen.length := by rw [← known, List.length_map]
    rw [length]
    exact counts_sum sha1 seen nodes

/-- Any payloads after these lead to the profile of them all. -/
theorem Profiles.feed {sha1 : List UInt8 → Digest} {profile : EntryArrayProfile}
    {seen : List (List UInt8)} (profiles : Profiles sha1 profile seen) {payloads : List Payload}
    (apart : Set.InjOn sha1 {p | p ∈ seen ++ payloads.map Payload.bytes}) :
    ∃ profile', feed sha1 profile payloads = .ok profile' ∧
      Profiles sha1 profile' (seen ++ payloads.map Payload.bytes) ∧
      profile'.count = profile.count := by
  induction payloads generalizing profile seen with
  | nil => exact ⟨profile, rfl, by simpa using profiles, rfl⟩
  | cons payload payloads ih =>
    rw [List.map_cons, List.append_cons] at apart ⊢
    have first : Set.InjOn sha1 {p | p ∈ seen ++ [payload.bytes]} :=
      apart.mono fun p member => List.mem_append_left _ member
    obtain ⟨next, ran, profiles, same⟩ :=
      perEntryArrayPayload_profiles profiles payload.nonempty first
    obtain ⟨last, rest, profiles, same'⟩ := ih profiles apart
    refine ⟨last, ?_, profiles, same'.trans same⟩
    unfold EntryArrays.feed
    rw [ran]
    exact rest

/-! ## Walks -/

/-- The payload of an entry array. -/
def payloadAt (file : JournalFile) (object : UInt64 × ObjectHeader) : Option (List UInt8) :=
  if object.1 = 0 ∨ object.2.type ≠ ObjectType.entryArray.toByte then none
  else some (file.slice (object.1 + entryArrayItemsOffset).toNat
    (object.2.size - entryArrayItemsOffset).toNat)

/-- Every allocation succeeds. -/
structure EntryArrayAllocs.Succeed (allocs : EntryArrayAllocs) : Prop where
  malloc : ∀ offset size, allocs.malloc offset size = true
  calloc : ∀ offset, allocs.calloc offset = true

section Walks

variable {sha1 : List UInt8 → Digest} {allocs : EntryArrayAllocs} {host : Endian}
  {file : JournalFile} {cells next : Iteration ProfileCells}

/-- At the end of the walk, and at an object that is no entry array, the profile stays. -/
theorem perObject_passed (passed : payloadAt file cells.object = none)
    (ran : exec (fileReader file) () (perObject sha1 allocs cells) = .ok ((), .dispatched next)) :
    next.object = cells.object ∧ next.user.profile = cells.user.profile := by
  unfold payloadAt at passed
  split at passed
  · rename_i other
    unfold perObject at ran
    by_cases ended : cells.iterOffset = 0
    · rw [if_pos ended] at ran
      cases ran
      exact ⟨rfl, rfl⟩
    · have type : cells.iterObjectHeader.type ≠ ObjectType.entryArray.toByte :=
        other.resolve_left ended
      rw [if_neg ended, if_pos type] at ran
      cases ran
      exact ⟨rfl, rfl⟩
  · cases passed

/-- An entry array is counted, and then its payload is profiled. -/
theorem perObject_profiled (succeed : allocs.Succeed) {payload : List UInt8}
    (array : payloadAt file cells.object = some payload)
    (ran : exec (fileReader file) () (perObject sha1 allocs cells) = .ok ((), .dispatched next)) :
    next.object = cells.object ∧ payload ≠ [] ∧ ∃ r, perEntryArrayPayload sha1 true payload
      { cells.user.profile with count := cells.user.profile.count + 1 } =
        .ok (r, next.user.profile) := by
  unfold payloadAt at array
  split at array
  · cases array
  · rename_i here
    rw [not_or, not_not] at here
    obtain ⟨somewhere, type⟩ := here
    obtain rfl := Option.some.inj array
    unfold perObject at ran
    simp only [show cells.iterOffset ≠ 0 from somewhere, ne_eq,
      show cells.iterObjectHeader.type = _ from type, not_true_eq_false, ↓reduceIte,
      succeed.malloc, succeed.calloc, exec] at ran
    split at ran
    · cases ran
    · cases ran
    · rename_i answered
      unfold fileReader plainRead at answered
      split at answered
      · split at answered
        · cases answered
          split at ran
          · cases ran
          · rename_i r profile profiled
            split at ran
            · cases ran
            · cases ran
              exact ⟨rfl, perEntryArrayPayload_nonempty profiled, r, profiled⟩
        · cases answered
      · cases answered

/-- One turn of the walk keeps the profile that of the payloads so far, and their number. -/
theorem perObjectStep_profiles (succeed : allocs.Succeed) {seen : List (List UInt8)}
    (profiles : Profiles sha1 cells.user.profile seen)
    (counted : cells.user.profile.count = UInt64.ofNat seen.length)
    (ran : exec (fileReader file) () (perObjectStep sha1 allocs host cells) =
      .ok ((), .dispatched next))
    (apart : Set.InjOn sha1 {p | p ∈ seen ++ (payloadAt file next.object).toList}) :
    Profiles sha1 next.user.profile (seen ++ (payloadAt file next.object).toList) ∧
      next.user.profile.count =
        UInt64.ofNat (seen ++ (payloadAt file next.object).toList).length := by
  unfold perObjectStep at ran
  rw [exec_andThen] at ran
  split at ran
  · rename_i middle moved
    have kept := journalIterNextObject_user moved
    rw [← kept] at profiles counted
    cases found : payloadAt file middle.object with
    | none =>
      obtain ⟨same, profile⟩ := perObject_passed found ran
      rw [same, found, Option.toList_none, List.append_nil, profile]
      exact ⟨profiles, counted⟩
    | some payload =>
      obtain ⟨same, nonempty, r, profiled⟩ := perObject_profiled succeed found ran
      rw [same, found, Option.toList_some] at apart ⊢
      have started : Profiles sha1
          { middle.user.profile with count := middle.user.profile.count + 1 } seen :=
        ⟨profiles.represents, profiles.unique⟩
      obtain ⟨profile, ran', profiles, same⟩ :=
        perEntryArrayPayload_profiles started nonempty apart
      obtain ⟨-, rfl⟩ := Prod.mk.inj (Except.ok.inj (profiled.symm.trans ran'))
      refine ⟨profiles, same.trans ?_⟩
      rw [counted, List.length_append, UInt64.ofNat_add]
      rfl
  · cases ran
  · cases ran

/-- The payloads a walk came to. -/
def payloadsOf (file : JournalFile) (trace : List (Iteration ProfileCells)) : List (List UInt8) :=
  trace.filterMap fun cells => payloadAt file cells.object

/-- Wherever a walk is, the profile is that of the payloads it came to. -/
theorem walk_profiles (succeed : allocs.Succeed) {fuel : Nat} {seen : List (List UInt8)}
    {trace : List (Iteration ProfileCells)} {ended : LoopEnd Int}
    (profiles : Profiles sha1 cells.user.profile seen)
    (counted : cells.user.profile.count = UInt64.ofNat seen.length)
    (ran : loop (fileReader file) (perObjectStep sha1 allocs host) Iteration.ended fuel ()
      cells = .ok ((), trace, ended))
    (apart : Set.InjOn sha1 {p | p ∈ seen ++ payloadsOf file trace}) :
    let last := trace.getLast?.getD cells
    Profiles sha1 last.user.profile (seen ++ payloadsOf file trace) ∧
      last.user.profile.count = UInt64.ofNat (seen ++ payloadsOf file trace).length := by
  induction fuel generalizing cells seen trace with
  | zero =>
    cases ran
    exact ⟨by simpa [payloadsOf] using profiles, by simpa [payloadsOf] using counted⟩
  | succ fuel ih =>
    unfold loop at ran
    split at ran
    · cases ran
    · cases ran
      exact ⟨by simpa [payloadsOf] using profiles, by simpa [payloadsOf] using counted⟩
    · rename_i next turned
      have split (rest : List (Iteration ProfileCells)) : payloadsOf file (next :: rest) =
          (payloadAt file next.object).toList ++ payloadsOf file rest := by
        unfold payloadsOf
        rw [List.filterMap_cons]
        cases payloadAt file next.object <;> rfl
      have step (rest : List (Iteration ProfileCells))
          (apart : Set.InjOn sha1 {p | p ∈ seen ++ payloadsOf file (next :: rest)}) :=
        perObjectStep_profiles succeed profiles counted turned (apart.mono fun p member => by
          rw [split, ← List.append_assoc]
          exact List.mem_append_left _ member)
      split at ran
      · cases ran
        obtain ⟨profiles, counted⟩ := step [] apart
        rw [split]
        exact ⟨by simpa [payloadsOf] using profiles, by simpa [payloadsOf] using counted⟩
      · split at ran
        · cases ran
        · rename_i rest ended rested
          cases ran
          obtain ⟨profiles, counted⟩ := step rest apart
          rw [split, ← List.append_assoc] at apart ⊢
          rw [List.getLast?_cons, Option.getD_some]
          exact ih profiles counted rested apart

/-- Any payloads whose digests differ where they do leave the profile of exactly these, fed in
by hand or by a walk over a journal, whatever is cached of it. -/
theorem profile_is_exact {payloads : List Payload}
    (apart : Set.InjOn sha1 {p | p ∈ payloads.map Payload.bytes}) :
    (∃ profile, feed sha1 emptyProfile payloads = .ok profile ∧
        ExactMultiset sha1 profile payloads) ∧
      ∀ (allocs : EntryArrayAllocs) (host : Endian) (file : JournalFile) (fuel : Nat)
        (cells : Iteration ProfileCells) (trace : List (Iteration ProfileCells)),
        allocs.Succeed → cells.user.profile = emptyProfile →
        loop (fileReader file) (perObjectStep sha1 allocs host) Iteration.ended fuel ()
          cells = .ok ((), trace, .finished) →
        payloadsOf file trace = payloads.map Payload.bytes →
        (∀ last, trace.getLast? = some last → ExactMultiset sha1 last.user.profile payloads ∧
          last.user.profile.nodes.foldl (fun sum ea => sum + ea.count) 0 =
            last.user.profile.count) ∧
        ∀ (kernel : Kernel) (cache : Cache), kernel.ServesFile file → kernel.Reliable →
          CacheInvariant file cache.journal → ∃ cache', loop (cachedReader kernel)
            (perObjectStep sha1 allocs host) Iteration.ended fuel cache cells =
              .ok (cache', trace, .finished) := by
  constructor
  · obtain ⟨profile, ran, profiles, -⟩ := (emptyProfile_profiles sha1 0).feed apart
    exact ⟨profile, ran, profiles.exact apart⟩
  · intro allocs host file fuel cells trace succeed empty ran came
    constructor
    · intro last final
      have start : Profiles sha1 cells.user.profile [] := by
        rw [empty]
        exact emptyProfile_profiles sha1 0
      have counted : cells.user.profile.count = UInt64.ofNat ([] : List (List UInt8)).length := by
        rw [empty]
        rfl
      obtain ⟨profiles, count⟩ := walk_profiles succeed start counted ran (by rw [came]; exact apart)
      rw [final, Option.getD_some, List.nil_append, came] at profiles count
      have exact := profiles.exact apart
      refine ⟨exact, exact.counts.trans ?_⟩
      rw [count, List.length_map]
    · intro kernel cache serves reliable invariant
      obtain ⟨cache', ran', -⟩ :=
        loop_refines (cachedReader_refines serves reliable) invariant ran
      exact ⟨cache', ran'⟩

end Walks

/-- One item that is not in use. -/
def unusedItem : Payload := ⟨[0, 0, 0, 0, 0, 0, 0, 0], by decide, by decide⟩

/-- One that is. -/
def usedItem : Payload := ⟨[1, 0, 0, 0, 0, 0, 0, 0], by decide, by decide⟩

/-- The digests of the two. -/
def itemSha1 (payload : List UInt8) : Digest :=
  if payload = unusedItem.bytes then
    #v[0x05, 0xfe, 0x40, 0x57, 0x53, 0x16, 0x6f, 0x12, 0x55, 0x59,
      0xe7, 0xc9, 0xac, 0x55, 0x86, 0x54, 0xf1, 0x07, 0xc7, 0xe9]
  else if payload = usedItem.bytes then
    #v[0x3d, 0xa8, 0x9e, 0xe2, 0x73, 0xbe, 0x13, 0x43, 0x7e, 0x7e,
      0xcf, 0x76, 0x0f, 0x3f, 0xbd, 0x4d, 0xc0, 0xe8, 0xd1, 0xfe]
  else .replicate _ 0

theorem itemSha1_apart {payloads : List Payload}
    (items : ∀ payload ∈ payloads, payload = unusedItem ∨ payload = usedItem) :
    Set.InjOn itemSha1 {p | p ∈ payloads.map Payload.bytes} := by
  have different : itemSha1 unusedItem.bytes ≠ itemSha1 usedItem.bytes := by decide
  intro p member p' member' same
  obtain ⟨payload, held, rfl⟩ := List.mem_map.mp member
  obtain ⟨payload', held', rfl⟩ := List.mem_map.mp member'
  rcases items payload held with rfl | rfl <;> rcases items payload' held' with rfl | rfl
  · rfl
  · exact absurd same different
  · exact absurd same.symm different
  · rfl

theorem profile_is_exact_items : ∃ profile,
    feed itemSha1 emptyProfile [unusedItem, usedItem, unusedItem] = .ok profile ∧
      ExactMultiset itemSha1 profile [unusedItem, usedItem, unusedItem] ∧
      (∀ bucket, bucket.val = 2405 →
        profile.buckets bucket = [⟨itemSha1 [0, 0, 0, 0, 0, 0, 0, 0], 2, 8, 0⟩]) ∧
      (∀ bucket, bucket.val = 2812 →
        profile.buckets bucket = [⟨itemSha1 [1, 0, 0, 0, 0, 0, 0, 0], 1, 8, 8⟩]) ∧
      profile.unique = 2 := by
  obtain ⟨profile, ran, exact⟩ :=
    (profile_is_exact (@itemSha1_apart [unusedItem, usedItem, unusedItem] (by simp))).1
  refine ⟨profile, ran, exact, ?_, ?_, ?_⟩
  · intro bucket here
    obtain rfl : bucket = ⟨2405, by decide⟩ := Fin.ext here
    cases ran
    rfl
  · intro bucket here
    obtain rfl : bucket = ⟨2812, by decide⟩ := Fin.ext here
    cases ran
    rfl
  · cases ran
    rfl

end Jio.EntryArrays
