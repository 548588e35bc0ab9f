import Mathlib.Tactic.IntervalCases
import Jio.BufferCacheProofs
import Jio.PayloadHash

/-! The ways in which `lookup3.c` reads a key: words where its address and the host allow,
halfwords, or bytes. Where words are read, the last one may reach behind the key, and
what is there is masked off. All of them hash the same words. -/
namespace Jio.HashPaths
open ByteOrder

/-! ## Reading -/

/-- What `lookup3.c` was built for, and what it made of the host's byte order. -/
structure Build where
  host : Endian
  hashLittleEndian : Bool
  hashBigEndian : Bool
  valgrind : Bool
  little : hashLittleEndian = true → host = .little
  big : hashBigEndian = true → host = .big

section Reads

variable (host : Endian) (mem : Nat → UInt8)

/-- What a `uint32_t *` points at. -/
def word (off : Nat) : UInt32 := UInt32.ofNat (host.value (bytesAt mem off 4))

/-- What a `uint16_t *` points at. -/
def half (off : Nat) : UInt32 := UInt32.ofNat (host.value (bytesAt mem off 2))

/-- What a `uint8_t *` points at. -/
def byte (off : Nat) : UInt32 := (mem off).toUInt32

/-- A way of reading a key: what a turn of the loop adds to the state, and what the switch
behind it adds for each length. -/
structure KeyReads where
  block : Nat → Lookup3 → Lookup3
  last : Nat → Nat → Lookup3 → Lookup3

/-- `jenkins_hashlittle2`, from the loop on. -/
def hashReads (reads : KeyReads) (length off : Nat) (state : Lookup3) : Lookup3 :=
  if 12 < length then hashReads reads (length - 12) (off + 12) (reads.block off state).mix
  -- zero length strings require no mixing
  else if length = 0 then state
  else (reads.last length off state).final
termination_by length

/-- The loop over 32-bit chunks. -/
def wordBlock (off : Nat) (s : Lookup3) : Lookup3 :=
  ⟨s.a + word host mem off, s.b + word host mem (off + 4), s.c + word host mem (off + 8)⟩

/-- 32-bit chunks of a little-endian host. What is behind the key is masked off. -/
def littleWords : KeyReads where
  block := wordBlock host mem
  last length off s :=
    let k i := word host mem (off + 4 * i)
    match length with
    | 12 => ⟨s.a + k 0, s.b + k 1, s.c + k 2⟩
    | 11 => ⟨s.a + k 0, s.b + k 1, s.c + (k 2 &&& 0xffffff)⟩
    | 10 => ⟨s.a + k 0, s.b + k 1, s.c + (k 2 &&& 0xffff)⟩
    | 9 => ⟨s.a + k 0, s.b + k 1, s.c + (k 2 &&& 0xff)⟩
    | 8 => ⟨s.a + k 0, s.b + k 1, s.c⟩
    | 7 => ⟨s.a + k 0, s.b + (k 1 &&& 0xffffff), s.c⟩
    | 6 => ⟨s.a + k 0, s.b + (k 1 &&& 0xffff), s.c⟩
    | 5 => ⟨s.a + k 0, s.b + (k 1 &&& 0xff), s.c⟩
    | 4 => ⟨s.a + k 0, s.b, s.c⟩
    | 3 => ⟨s.a + (k 0 &&& 0xffffff), s.b, s.c⟩
    | 2 => ⟨s.a + (k 0 &&& 0xffff), s.b, s.c⟩
    | 1 => ⟨s.a + (k 0 &&& 0xff), s.b, s.c⟩
    | _ => s

/-- The same without reading behind the key. -/
def littleWordsValgrind : KeyReads where
  block := wordBlock host mem
  last length off s :=
    let k i := word host mem (off + 4 * i)
    let k8 i := byte mem (off + i)
    match length with
    | 12 => ⟨s.a + k 0, s.b + k 1, s.c + k 2⟩
    | 11 => ⟨s.a + k 0, s.b + k 1, s.c + (k8 10 <<< 16) + (k8 9 <<< 8) + k8 8⟩
    | 10 => ⟨s.a + k 0, s.b + k 1, s.c + (k8 9 <<< 8) + k8 8⟩
    | 9 => ⟨s.a + k 0, s.b + k 1, s.c + k8 8⟩
    | 8 => ⟨s.a + k 0, s.b + k 1, s.c⟩
    | 7 => ⟨s.a + k 0, s.b + (k8 6 <<< 16) + (k8 5 <<< 8) + k8 4, s.c⟩
    | 6 => ⟨s.a + k 0, s.b + (k8 5 <<< 8) + k8 4, s.c⟩
    | 5 => ⟨s.a + k 0, s.b + k8 4, s.c⟩
    | 4 => ⟨s.a + k 0, s.b, s.c⟩
    | 3 => ⟨s.a + (k8 2 <<< 16) + (k8 1 <<< 8) + k8 0, s.b, s.c⟩
    | 2 => ⟨s.a + (k8 1 <<< 8) + k8 0, s.b, s.c⟩
    | 1 => ⟨s.a + k8 0, s.b, s.c⟩
    | _ => s

/-- 16-bit chunks. -/
def littleHalves : KeyReads where
  block off s :=
    let k i := half host mem (off + 2 * i)
    ⟨s.a + (k 0 + (k 1 <<< 16)), s.b + (k 2 + (k 3 <<< 16)), s.c + (k 4 + (k 5 <<< 16))⟩
  last length off s :=
    let k i := half host mem (off + 2 * i)
    let k8 i := byte mem (off + i)
    match length with
    | 12 => ⟨s.a + (k 0 + (k 1 <<< 16)), s.b + (k 2 + (k 3 <<< 16)), s.c + (k 4 + (k 5 <<< 16))⟩
    | 11 => ⟨s.a + (k 0 + (k 1 <<< 16)), s.b + (k 2 + (k 3 <<< 16)), s.c + (k8 10 <<< 16) + k 4⟩
    | 10 => ⟨s.a + (k 0 + (k 1 <<< 16)), s.b + (k 2 + (k 3 <<< 16)), s.c + k 4⟩
    | 9 => ⟨s.a + (k 0 + (k 1 <<< 16)), s.b + (k 2 + (k 3 <<< 16)), s.c + k8 8⟩
    | 8 => ⟨s.a + (k 0 + (k 1 <<< 16)), s.b + (k 2 + (k 3 <<< 16)), s.c⟩
    | 7 => ⟨s.a + (k 0 + (k 1 <<< 16)), s.b + (k8 6 <<< 16) + k 2, s.c⟩
    | 6 => ⟨s.a + (k 0 + (k 1 <<< 16)), s.b + k 2, s.c⟩
    | 5 => ⟨s.a + (k 0 + (k 1 <<< 16)), s.b + k8 4, s.c⟩
    | 4 => ⟨s.a + (k 0 + (k 1 <<< 16)), s.b, s.c⟩
    | 3 => ⟨s.a + (k8 2 <<< 16) + k 0, s.b, s.c⟩
    | 2 => ⟨s.a + k 0, s.b, s.c⟩
    | 1 => ⟨s.a + k8 0, s.b, s.c⟩
    | _ => s

/-- One byte at a time. The cases of the switch fall through. -/
def littleBytes : KeyReads where
  block off s :=
    let k i := byte mem (off + i)
    ⟨s.a + k 0 + (k 1 <<< 8) + (k 2 <<< 16) + (k 3 <<< 24),
      s.b + k 4 + (k 5 <<< 8) + (k 6 <<< 16) + (k 7 <<< 24),
      s.c + k 8 + (k 9 <<< 8) + (k 10 <<< 16) + (k 11 <<< 24)⟩
  last length off s :=
    let k i := byte mem (off + i)
    let s := if 12 ≤ length then { s with c := s.c + (k 11 <<< 24) } else s
    let s := if 11 ≤ length then { s with c := s.c + (k 10 <<< 16) } else s
    let s := if 10 ≤ length then { s with c := s.c + (k 9 <<< 8) } else s
    let s := if 9 ≤ length then { s with c := s.c + k 8 } else s
    let s := if 8 ≤ length then { s with b := s.b + (k 7 <<< 24) } else s
    let s := if 7 ≤ length then { s with b := s.b + (k 6 <<< 16) } else s
    let s := if 6 ≤ length then { s with b := s.b + (k 5 <<< 8) } else s
    let s := if 5 ≤ length then { s with b := s.b + k 4 } else s
    let s := if 4 ≤ length then { s with a := s.a + (k 3 <<< 24) } else s
    let s := if 3 ≤ length then { s with a := s.a + (k 2 <<< 16) } else s
    let s := if 2 ≤ length then { s with a := s.a + (k 1 <<< 8) } else s
    if 1 ≤ length then { s with a := s.a + k 0 } else s

/-- 32-bit chunks of a big-endian host. -/
def bigWords : KeyReads where
  block := wordBlock host mem
  last length off s :=
    let k i := word host mem (off + 4 * i)
    match length with
    | 12 => ⟨s.a + k 0, s.b + k 1, s.c + k 2⟩
    | 11 => ⟨s.a + k 0, s.b + k 1, s.c + (k 2 &&& 0xffffff00)⟩
    | 10 => ⟨s.a + k 0, s.b + k 1, s.c + (k 2 &&& 0xffff0000)⟩
    | 9 => ⟨s.a + k 0, s.b + k 1, s.c + (k 2 &&& 0xff000000)⟩
    | 8 => ⟨s.a + k 0, s.b + k 1, s.c⟩
    | 7 => ⟨s.a + k 0, s.b + (k 1 &&& 0xffffff00), s.c⟩
    | 6 => ⟨s.a + k 0, s.b + (k 1 &&& 0xffff0000), s.c⟩
    | 5 => ⟨s.a + k 0, s.b + (k 1 &&& 0xff000000), s.c⟩
    | 4 => ⟨s.a + k 0, s.b, s.c⟩
    | 3 => ⟨s.a + (k 0 &&& 0xffffff00), s.b, s.c⟩
    | 2 => ⟨s.a + (k 0 &&& 0xffff0000), s.b, s.c⟩
    | 1 => ⟨s.a + (k 0 &&& 0xff000000), s.b, s.c⟩
    | _ => s

/-- The same without reading behind the key. -/
def bigWordsValgrind : KeyReads where
  block := wordBlock host mem
  last length off s :=
    let k i := word host mem (off + 4 * i)
    let k8 i := byte mem (off + i)
    match length with
    | 12 => ⟨s.a + k 0, s.b + k 1, s.c + k 2⟩
    | 11 => ⟨s.a + k 0, s.b + k 1, s.c + (k8 10 <<< 8) + (k8 9 <<< 16) + (k8 8 <<< 24)⟩
    | 10 => ⟨s.a + k 0, s.b + k 1, s.c + (k8 9 <<< 16) + (k8 8 <<< 24)⟩
    | 9 => ⟨s.a + k 0, s.b + k 1, s.c + (k8 8 <<< 24)⟩
    | 8 => ⟨s.a + k 0, s.b + k 1, s.c⟩
    | 7 => ⟨s.a + k 0, s.b + (k8 6 <<< 8) + (k8 5 <<< 16) + (k8 4 <<< 24), s.c⟩
    | 6 => ⟨s.a + k 0, s.b + (k8 5 <<< 16) + (k8 4 <<< 24), s.c⟩
    | 5 => ⟨s.a + k 0, s.b + (k8 4 <<< 24), s.c⟩
    | 4 => ⟨s.a + k 0, s.b, s.c⟩
    | 3 => ⟨s.a + (k8 2 <<< 8) + (k8 1 <<< 16) + (k8 0 <<< 24), s.b, s.c⟩
    | 2 => ⟨s.a + (k8 1 <<< 16) + (k8 0 <<< 24), s.b, s.c⟩
    | 1 => ⟨s.a + (k8 0 <<< 24), s.b, s.c⟩
    | _ => s

/-- One byte at a time, the first one on top. -/
def bigBytes : KeyReads where
  block off s :=
    let k i := byte mem (off + i)
    ⟨s.a + (k 0 <<< 24) + (k 1 <<< 16) + (k 2 <<< 8) + k 3,
      s.b + (k 4 <<< 24) + (k 5 <<< 16) + (k 6 <<< 8) + k 7,
      s.c + (k 8 <<< 24) + (k 9 <<< 16) + (k 10 <<< 8) + k 11⟩
  last length off s :=
    let k i := byte mem (off + i)
    let s := if 12 ≤ length then { s with c := s.c + k 11 } else s
    let s := if 11 ≤ length then { s with c := s.c + (k 10 <<< 8) } else s
    let s := if 10 ≤ length then { s with c := s.c + (k 9 <<< 16) } else s
    let s := if 9 ≤ length then { s with c := s.c + (k 8 <<< 24) } else s
    let s := if 8 ≤ length then { s with b := s.b + k 7 } else s
    let s := if 7 ≤ length then { s with b := s.b + (k 6 <<< 8) } else s
    let s := if 6 ≤ length then { s with b := s.b + (k 5 <<< 16) } else s
    let s := if 5 ≤ length then { s with b := s.b + (k 4 <<< 24) } else s
    let s := if 4 ≤ length then { s with a := s.a + k 3 } else s
    let s := if 3 ≤ length then { s with a := s.a + (k 2 <<< 8) } else s
    let s := if 2 ≤ length then { s with a := s.a + (k 1 <<< 16) } else s
    if 1 ≤ length then { s with a := s.a + (k 0 <<< 24) } else s

end Reads

/-- How a key at this address is read. -/
def littleReads (build : Build) (mem : Nat → UInt8) (address : UInt64) : KeyReads :=
  if build.hashLittleEndian ∧ address &&& 0x3 = 0 then
    if build.valgrind then littleWordsValgrind build.host mem else littleWords build.host mem
  else if build.hashLittleEndian ∧ address &&& 0x1 = 0 then littleHalves build.host mem
  else littleBytes mem

/-- `jenkins_hashlittle2` of `length` bytes at this address. -/
def jenkinsHashlittle2 (build : Build) (mem : Nat → UInt8) (address : UInt64) (length : Nat)
    (pc pb : UInt32) : UInt32 × UInt32 :=
  let a := 0xdeadbeef + UInt32.ofNat length + pc
  let state := hashReads (littleReads build mem address) length 0 ⟨a, a, a + pb⟩
  (state.c, state.b)

/-- `jenkins_hashlittle`. -/
def jenkinsHashlittle (build : Build) (mem : Nat → UInt8) (address : UInt64) (length : Nat)
    (initval : UInt32) : UInt32 :=
  let a := 0xdeadbeef + UInt32.ofNat length + initval
  (hashReads (littleReads build mem address) length 0 ⟨a, a, a⟩).c

/-- How `jenkins_hashbig` reads a key at this address. -/
def bigReads (build : Build) (mem : Nat → UInt8) (address : UInt64) : KeyReads :=
  if build.hashBigEndian ∧ address &&& 0x3 = 0 then
    if build.valgrind then bigWordsValgrind build.host mem else bigWords build.host mem
  else bigBytes mem

/-- `jenkins_hashbig`. -/
def jenkinsHashbig (build : Build) (mem : Nat → UInt8) (address : UInt64) (length : Nat)
    (initval : UInt32) : UInt32 :=
  let a := 0xdeadbeef + UInt32.ofNat length + initval
  (hashReads (bigReads build mem address) length 0 ⟨a, a, a⟩).c

/-- `jenkins_hashword`, from the loop on. The cases of the switch fall through. -/
def hashWords : List UInt32 → Lookup3 → Lookup3
  | k0 :: k1 :: k2 :: k3 :: k, s =>
    hashWords (k3 :: k) (Lookup3.mix ⟨s.a + k0, s.b + k1, s.c + k2⟩)
  | [k0, k1, k2], s => Lookup3.final ⟨s.a + k0, s.b + k1, s.c + k2⟩
  | [k0, k1], s => Lookup3.final ⟨s.a + k0, s.b + k1, s.c⟩
  | [k0], s => Lookup3.final ⟨s.a + k0, s.b, s.c⟩
  | [], s => s

/-- `jenkins_hashword`. -/
def jenkinsHashword (k : List UInt32) (initval : UInt32) : UInt32 :=
  let length : UInt32 := UInt32.ofNat k.length <<< 2
  let a := 0xdeadbeef + length + initval
  (hashWords k ⟨a, a, a⟩).c

/-- `jenkins_hashword2`. -/
def jenkinsHashword2 (k : List UInt32) (pc pb : UInt32) : UInt32 × UInt32 :=
  let a := 0xdeadbeef + UInt32.ofNat (k.length * 4) + pc
  let state := hashWords k ⟨a, a, a + pb⟩
  (state.c, state.b)

/-- An array of `uint32_t`. -/
def words (host : Endian) (mem : Nat → UInt8) : Nat → Nat → List UInt32
  | 0, _ => []
  | n + 1, off => word host mem off :: words host mem n (off + 4)

/-! ## What is read -/

/-- The bytes of a word that belong to the key, in their place. -/
def partWord (order : Endian) (bytes : List UInt8) : UInt32 :=
  UInt32.ofNat (order.value (bytes ++ .replicate (4 - bytes.length) 0))

/-- Add up to 12 bytes of the key to the state. -/
def addKey (order : Endian) (mem : Nat → UInt8) (length off : Nat) (s : Lookup3) : Lookup3 :=
  ⟨s.a + partWord order (bytesAt mem off (min 4 length)),
    s.b + partWord order (bytesAt mem (off + 4) (min 4 (length - 4))),
    s.c + partWord order (bytesAt mem (off + 8) (min 4 (length - 8)))⟩

/-- The reads add the key and nothing else. -/
structure KeyReads.Add (reads : KeyReads) (order : Endian) (mem : Nat → UInt8) : Prop where
  block : ∀ off s, reads.block off s = addKey order mem 12 off s
  last : ∀ length off s, 0 < length → length ≤ 12 →
    reads.last length off s = addKey order mem length off s

/-- The shift that brings byte `i` of a word into its place. -/
def place : Endian → Nat → UInt32
  | .little, i => UInt32.ofNat (8 * i)
  | .big, i => UInt32.ofNat (8 * (3 - i))

theorem mask_ofNat (x : UInt32) (k : Nat) (small : k ≤ 32) :
    (x &&& UInt32.ofNat (2 ^ k - 1)).toNat = x.toNat % 2 ^ k := by
  have power : 2 ^ k ≤ 2 ^ 32 := Nat.pow_le_pow_right (by decide) small
  have positive := Nat.two_pow_pos k
  rw [UInt32.toNat_and, UInt32.toNat_ofNat_of_lt' (show 2 ^ k - 1 < 2 ^ 32 by omega),
    Nat.and_two_pow_sub_one_eq_mod]

theorem and_high_bits {x : Nat} (k : Nat) (bound : x < 2 ^ 32) (small : k ≤ 32) :
    x &&& (2 ^ 32 - 2 ^ k) = x / 2 ^ k * 2 ^ k := by
  have power : 2 ^ k ≤ 2 ^ 32 := Nat.pow_le_pow_right (by decide) small
  have positive := Nat.two_pow_pos k
  have mask : 2 ^ 32 - 2 ^ k = 2 ^ 32 - (2 ^ k - 1 + 1) := by omega
  apply Nat.eq_of_testBit_eq
  intro i
  rw [mask, Nat.testBit_and, Nat.testBit_two_pow_sub_succ (by omega), Nat.testBit_two_pow_sub_one,
    Nat.testBit_mul_two_pow, Nat.testBit_div_two_pow]
  by_cases low : i < k
  · simp [low, Nat.not_le.mpr low]
  have above : i - k + k = i := Nat.sub_add_cancel (Nat.le_of_not_lt low)
  by_cases high : i < 32
  · simp [low, high, above, Nat.le_of_not_lt low]
  · have clear : x.testBit i = false :=
      Nat.testBit_lt_two_pow (bound.trans_le (Nat.pow_le_pow_right (by decide) (by omega)))
    simp [clear, above]

theorem partWord_little_toNat {bytes : List UInt8} (short : bytes.length ≤ 4) :
    (partWord .little bytes).toNat = ofLE bytes := by
  have zeros : ofLE (.replicate (4 - bytes.length) 0) = 0 := by
    generalize 4 - bytes.length = n
    induction n with
    | zero => rfl
    | succ n ih => rw [List.replicate_succ, ofLE, ih]; rfl
  have bound := ofLE_lt bytes
  have power : 256 ^ bytes.length ≤ 256 ^ 4 := Nat.pow_le_pow_right (by decide) short
  unfold partWord Endian.value
  dsimp only
  rw [ofLE_append, zeros, Nat.mul_zero, Nat.add_zero]
  exact UInt32.toNat_ofNat_of_lt' (show ofLE bytes < 2 ^ 32 by omega)

section Words

variable (mem : Nat → UInt8) (off : Nat)

/-- A word is its four bytes, each in its place. -/
theorem word_bytes (host : Endian) : word host mem off = partWord host (bytesAt mem off 4) := by
  simp [word, partWord]

@[simp] theorem partWord_none (order : Endian) : partWord order (bytesAt mem off 0) = 0 := by
  cases order <;> rfl

theorem partWord_succ (order : Endian) {n : Nat} (short : n < 4) :
    partWord order (bytesAt mem off (n + 1)) =
      partWord order (bytesAt mem off n) + byte mem (off + n) <<< place order n := by
  have bound := (mem off).toNat_lt
  have bound1 := (mem (off + 1)).toNat_lt
  have bound2 := (mem (off + 2)).toNat_lt
  have bound3 := (mem (off + 3)).toNat_lt
  apply UInt32.toNat_inj.mp
  interval_cases n <;> cases order <;>
    simp [partWord, bytesAt, Endian.value, ofLE, byte, place, Nat.shiftLeft_eq,
      List.range_succ] <;>
    omega

theorem word_low {n : Nat} (short : n ≤ 4) :
    word .little mem off &&& UInt32.ofNat (2 ^ (8 * n) - 1) =
      partWord .little (bytesAt mem off n) := by
  have bound := (mem off).toNat_lt
  have bound1 := (mem (off + 1)).toNat_lt
  have bound2 := (mem (off + 2)).toNat_lt
  have bound3 := (mem (off + 3)).toNat_lt
  apply UInt32.toNat_inj.mp
  rw [mask_ofNat _ _ (by omega)]
  interval_cases n <;>
    simp [word, partWord, bytesAt, Endian.value, ofLE, List.range_succ] <;> omega

theorem word_high {n : Nat} (short : n ≤ 4) :
    word .big mem off &&& UInt32.ofNat (2 ^ 32 - 2 ^ (8 * (4 - n))) =
      partWord .big (bytesAt mem off n) := by
  have bound := (mem off).toNat_lt
  have bound1 := (mem (off + 1)).toNat_lt
  have bound2 := (mem (off + 2)).toNat_lt
  have bound3 := (mem (off + 3)).toNat_lt
  apply UInt32.toNat_inj.mp
  have positive := Nat.two_pow_pos (8 * (4 - n))
  have mask : 2 ^ 32 - 2 ^ (8 * (4 - n)) < 2 ^ 32 := by omega
  have high := and_high_bits (8 * (4 - n)) (word .big mem off).toNat_lt (by omega)
  rw [UInt32.toNat_and, UInt32.toNat_ofNat_of_lt' mask, high]
  interval_cases n <;>
    simp [word, partWord, bytesAt, Endian.value, ofLE, List.range_succ] <;> omega

theorem half_low : half .little mem off = byte mem off + byte mem (off + 1) <<< 8 := by
  have bound := (mem off).toNat_lt
  have bound1 := (mem (off + 1)).toNat_lt
  apply UInt32.toNat_inj.mp
  simp [half, byte, bytesAt, Endian.value, ofLE, List.range_succ, Nat.shiftLeft_eq]
  omega

/-- The upper halfword of a word. -/
theorem shift_bytes (x y : UInt32) : (x + y <<< 8) <<< 16 = x <<< 16 + y <<< 24 := by
  apply UInt32.toNat_inj.mp
  simp [Nat.shiftLeft_eq]
  omega

end Words

/-! ## The ways of reading -/

section Ways

variable (mem : Nat → UInt8)

theorem partWord_one (order : Endian) (off : Nat) :
    partWord order (bytesAt mem off 1) = byte mem off <<< place order 0 := by
  rw [partWord_succ mem off order (n := 0) (by decide), partWord_none, UInt32.zero_add,
    Nat.add_zero]

theorem partWord_two (order : Endian) (off : Nat) :
    partWord order (bytesAt mem off 2) =
      byte mem off <<< place order 0 + byte mem (off + 1) <<< place order 1 := by
  rw [partWord_succ mem off order (n := 1) (by decide), partWord_one]

theorem partWord_three (order : Endian) (off : Nat) :
    partWord order (bytesAt mem off 3) =
      byte mem off <<< place order 0 + byte mem (off + 1) <<< place order 1 +
        byte mem (off + 2) <<< place order 2 := by
  rw [partWord_succ mem off order (n := 2) (by decide), partWord_two]

theorem partWord_four (order : Endian) (off : Nat) :
    partWord order (bytesAt mem off 4) =
      byte mem off <<< place order 0 + byte mem (off + 1) <<< place order 1 +
        byte mem (off + 2) <<< place order 2 + byte mem (off + 3) <<< place order 3 := by
  rw [partWord_succ mem off order (n := 3) (by decide), partWord_three]

theorem littleBytes_add : (littleBytes mem).Add .little mem where
  block off s := by
    simp [littleBytes, addKey, place, partWord_four]
    grind
  last length off s positive short := by
    interval_cases length <;>
      simp [littleBytes, addKey, place, partWord_one, partWord_two, partWord_three,
        partWord_four] <;>
      grind

theorem littleHalves_add : (littleHalves .little mem).Add .little mem where
  block off s := by
    simp [littleHalves, addKey, place, partWord_four, half_low, shift_bytes]
    grind
  last length off s positive short := by
    interval_cases length <;>
      simp [littleHalves, addKey, place, partWord_one, partWord_two, partWord_three, partWord_four,
        half_low, shift_bytes] <;>
      grind

theorem littleWordsValgrind_add : (littleWordsValgrind .little mem).Add .little mem where
  block off s := by simp [littleWordsValgrind, wordBlock, addKey, word_bytes]
  last length off s positive short := by
    interval_cases length <;>
      simp [littleWordsValgrind, addKey, place, partWord_one, partWord_two, partWord_three,
        word_bytes] <;>
      grind

theorem littleWords_add : (littleWords .little mem).Add .little mem where
  block off s := by simp [littleWords, wordBlock, addKey, word_bytes]
  last length off s positive short := by
    have one (off : Nat) := word_low mem off (n := 1) (by decide)
    have two (off : Nat) := word_low mem off (n := 2) (by decide)
    have three (off : Nat) := word_low mem off (n := 3) (by decide)
    interval_cases length <;> simp_all [littleWords, addKey, word_bytes]

theorem bigBytes_add : (bigBytes mem).Add .big mem where
  block off s := by
    simp [bigBytes, addKey, place, partWord_four]
    grind
  last length off s positive short := by
    interval_cases length <;>
      simp [bigBytes, addKey, place, partWord_one, partWord_two, partWord_three, partWord_four] <;>
      grind

theorem bigWordsValgrind_add : (bigWordsValgrind .big mem).Add .big mem where
  block off s := by simp [bigWordsValgrind, wordBlock, addKey, word_bytes]
  last length off s positive short := by
    interval_cases length <;>
      simp [bigWordsValgrind, addKey, place, partWord_one, partWord_two, partWord_three,
        word_bytes] <;>
      grind

theorem bigWords_add : (bigWords .big mem).Add .big mem where
  block off s := by simp [bigWords, wordBlock, addKey, word_bytes]
  last length off s positive short := by
    have one (off : Nat) := word_high mem off (n := 1) (by decide)
    have two (off : Nat) := word_high mem off (n := 2) (by decide)
    have three (off : Nat) := word_high mem off (n := 3) (by decide)
    interval_cases length <;> simp_all [bigWords, addKey, word_bytes]

theorem littleReads_add (build : Build) (address : UInt64) :
    (littleReads build mem address).Add .little mem := by
  unfold littleReads
  split
  case isTrue aligned =>
    rw [build.little aligned.1]
    split
    · exact littleWordsValgrind_add mem
    · exact littleWords_add mem
  case isFalse =>
    split
    case isTrue aligned =>
      rw [build.little aligned.1]
      exact littleHalves_add mem
    case isFalse => exact littleBytes_add mem

theorem bigReads_add (build : Build) (address : UInt64) :
    (bigReads build mem address).Add .big mem := by
  unfold bigReads
  split
  case isTrue aligned =>
    rw [build.big aligned.1]
    split
    · exact bigWordsValgrind_add mem
    · exact bigWords_add mem
  case isFalse => exact bigBytes_add mem

end Ways

/-! ## The hashes -/

section Hashes

variable {reads reads' : KeyReads} {order : Endian} {mem mem' : Nat → UInt8}

@[simp] theorem hashReads_none (off : Nat) (s : Lookup3) : hashReads reads 0 off s = s := by
  rw [hashReads, if_neg (by decide), if_pos rfl]

theorem hashReads_last (add : reads.Add order mem) {length : Nat} (off : Nat) (s : Lookup3)
    (positive : 0 < length) (short : length ≤ 12) :
    hashReads reads length off s = (addKey order mem length off s).final := by
  rw [hashReads, if_neg (by omega), if_neg (by omega), add.last _ _ _ positive short]

theorem hashReads_block (add : reads.Add order mem) {length : Nat} (off : Nat) (s : Lookup3)
    (long : 12 < length) :
    hashReads reads length off s =
      hashReads reads (length - 12) (off + 12) (addKey order mem 12 off s).mix := by
  rw [hashReads, if_pos long, add.block]

theorem addKey_congr (length off : Nat) (s : Lookup3)
    (same : ∀ i < length, mem (off + i) = mem' (off + i)) :
    addKey order mem length off s = addKey order mem' length off s := by
  have part (i : Nat) : bytesAt mem (off + i) (min 4 (length - i)) =
      bytesAt mem' (off + i) (min 4 (length - i)) :=
    bytesAt_congr fun j inside => by
      rw [Nat.add_assoc]
      exact same (i + j) (by omega)
  have first := part 0
  rw [Nat.add_zero, Nat.sub_zero] at first
  simp [addKey, first, part 4, part 8]

/-- The hash is a function of the bytes of the key. -/
theorem hashReads_congr (add : reads.Add order mem) (add' : reads'.Add order mem')
    (length off : Nat) (s : Lookup3) (same : ∀ i < length, mem (off + i) = mem' (off + i)) :
    hashReads reads length off s = hashReads reads' length off s := by
  induction length using Nat.strong_induction_on generalizing off s with
  | _ length ih =>
    by_cases long : 12 < length
    · rw [hashReads_block add off s long, hashReads_block add' off s long,
        addKey_congr 12 off s fun i inside => same i (by omega)]
      refine ih (length - 12) (by omega) _ _ fun i inside => ?_
      rw [Nat.add_assoc]
      exact same (12 + i) (by omega)
    · rcases Nat.eq_zero_or_pos length with empty | positive
      · rw [empty, hashReads_none, hashReads_none]
      · rw [hashReads_last add off s positive (by omega),
          hashReads_last add' off s positive (by omega), addKey_congr length off s same]

theorem keyWord_bytesAt (length off i : Nat) :
    keyWord (bytesAt mem off length) i =
      partWord .little (bytesAt mem (off + i) (min 4 (length - i))) := by
  have bytes : ((bytesAt mem off length).drop i).take 4 =
      bytesAt mem (off + i) (min 4 (length - i)) := by
    by_cases inside : i ≤ length
    · have whole : i + min 4 (length - i) ≤ length := by omega
      rw [← bytesAt_sub mem off whole, Nat.min_def]
      split
      case isTrue => rfl
      case isFalse short =>
        rw [List.take_of_length_le (by simp; omega), List.take_of_length_le (by simp)]
    · rw [List.drop_of_length_le (by simp; omega), Nat.sub_eq_zero_of_le (by omega)]
      rfl
  apply UInt32.toNat_inj.mp
  rw [partWord_little_toNat (by simp), keyWord, bytes]
  have bound := ofLE_lt (bytesAt mem (off + i) (min 4 (length - i)))
  have power : 256 ^ (min 4 (length - i)) ≤ 256 ^ 4 :=
    Nat.pow_le_pow_right (by decide) (Nat.min_le_left _ _)
  rw [bytesAt_length] at bound
  exact UInt32.toNat_ofNat_of_lt' (show ofLE _ < 2 ^ 32 by omega)

theorem add_bytesAt (length off : Nat) (s : Lookup3) :
    s.add (bytesAt mem off length) = addKey .little mem (min 12 length) off s := by
  have first : min 4 (min 12 length) = min 4 length := by omega
  have second : min 4 (min 12 length - 4) = min 4 (length - 4) := by omega
  have third : min 4 (min 12 length - 8) = min 4 (length - 8) := by omega
  simp only [Lookup3.add, addKey, keyWord_bytesAt, first, second, third, Nat.add_zero, Nat.sub_zero]

/-- What `jenkins_hashlittle2` gives for a list of bytes. -/
theorem hashReads_blocks (add : reads.Add .little mem) (length off : Nat) (s : Lookup3)
    (positive : 0 < length) :
    hashReads reads length off s =
      hashlittle2Blocks ((length - 1) / 12) (bytesAt mem off length) s := by
  induction length using Nat.strong_induction_on generalizing off s with
  | _ length ih =>
    by_cases long : 12 < length
    · have blocks : (length - 1) / 12 = (length - 12 - 1) / 12 + 1 := by omega
      have behind : (bytesAt mem off length).drop 12 = bytesAt mem (off + 12) (length - 12) := by
        have split := bytesAt_append mem off 12 (length - 12)
        rw [Nat.add_sub_cancel' long.le] at split
        rw [← split, List.drop_left' (bytesAt_length mem off 12)]
      rw [hashReads_block add off s long, ih (length - 12) (by omega) _ _ (by omega), blocks,
        hashlittle2Blocks, add_bytesAt, Nat.min_eq_left long.le, behind]
    · have none : (length - 1) / 12 = 0 := by omega
      rw [hashReads_last add off s positive (by omega), none, hashlittle2Blocks, add_bytesAt,
        Nat.min_eq_right (by omega)]

@[simp] theorem words_length (host : Endian) (n off : Nat) :
    (words host mem n off).length = n := by
  induction n generalizing off with
  | zero => rfl
  | succ n ih => rw [words, List.length_cons, ih]

/-- The length in bytes, in the arithmetic of `uint32_t`. -/
theorem length_bytes (n : Nat) : UInt32.ofNat n <<< 2 = UInt32.ofNat (4 * n) := by
  apply UInt32.toNat_inj.mp
  simp [Nat.shiftLeft_eq]
  omega

/-- An array of words, read as a key. -/
theorem hashWords_words (add : reads.Add order mem) (n off : Nat) (s : Lookup3) :
    hashWords (words order mem n off) s = hashReads reads (4 * n) off s := by
  match n with
  | 0 => simp [words, hashWords]
  | 1 =>
    rw [hashReads_last add off s (by omega) (by omega)]
    simp [words, hashWords, addKey, word_bytes]
  | 2 =>
    rw [hashReads_last add off s (by omega) (by omega)]
    simp [words, hashWords, addKey, word_bytes]
  | 3 =>
    rw [hashReads_last add off s (by omega) (by omega)]
    simp [words, hashWords, addKey, word_bytes]
  | n + 4 =>
    have more := hashWords_words add (n + 1) (off + 12) (addKey order mem 12 off s).mix
    rw [hashReads_block add off s (by omega), show 4 * (n + 4) - 12 = 4 * (n + 1) by omega, ← more]
    simp [words, hashWords, addKey, word_bytes]

/-- However `jenkins_hashlittle` and `jenkins_hashlittle2` were built, wherever the key is
and whatever is behind it, they give the hash of its bytes. -/
theorem hashlittle_reads_the_key (build : Build) (mem : Nat → UInt8) (address : UInt64)
    (length : Nat) (pc pb : UInt32) :
    jenkinsHashlittle2 build mem address length pc pb =
      Jio.jenkinsHashlittle2 (bytesAt mem 0 length) pc pb ∧
    jenkinsHashlittle build mem address length pc =
      (Jio.jenkinsHashlittle2 (bytesAt mem 0 length) pc 0).1 := by
  have add := littleReads_add mem build address
  rcases Nat.eq_zero_or_pos length with rfl | positive
  · simp [jenkinsHashlittle2, jenkinsHashlittle, Jio.jenkinsHashlittle2]
  · have blocks := hashReads_blocks add length 0
    constructor
    · simp [jenkinsHashlittle2, Jio.jenkinsHashlittle2, blocks _ positive, positive.ne']
    · simp [jenkinsHashlittle, Jio.jenkinsHashlittle2, blocks _ positive, positive.ne']

/-- Neither how it was built nor where the key is changes what `jenkins_hashbig` gives, nor
does anything behind the key. -/
theorem hashbig_reads_the_key (build build' : Build) (mem mem' : Nat → UInt8)
    (address address' : UInt64) (length : Nat) (initval : UInt32)
    (same : bytesAt mem 0 length = bytesAt mem' 0 length) :
    jenkinsHashbig build mem address length initval =
      jenkinsHashbig build' mem' address' length initval := by
  have bytes (i : Nat) (inside : i < length) : mem (0 + i) = mem' (0 + i) := by
    have at_i := congrArg (fun bytes => bytes[i]?) same
    simpa [bytesAt, inside] using at_i
  have reads := hashReads_congr (bigReads_add mem build address) (bigReads_add mem' build' address')
    length 0
  simp [jenkinsHashbig, reads _ bytes]

/-- One key with different bytes behind it, in a big-endian build that reads words and in
one that reads bytes. -/
theorem hashbig_reads_the_key_twoBuilds :
    jenkinsHashbig ⟨.big, false, true, false, by decide, by decide⟩ (fun _ => 7) 0x1000 5 0 =
      jenkinsHashbig ⟨.little, true, false, true, by decide, by decide⟩
        (fun i => if i < 5 then 7 else 9) 0x1003 5 0 :=
  hashbig_reads_the_key _ _ _ _ _ _ 5 0 (by decide)

/-- `jenkins_hashword` is `jenkins_hashlittle` on a little-endian host and `jenkins_hashbig`
on a big-endian one, and `jenkins_hashword2` without a second seed gives it too. -/
theorem hashword_reads_the_words (build : Build) (mem : Nat → UInt8) (address : UInt64) (n : Nat)
    (initval pb : UInt32) :
    jenkinsHashword (words .little mem n 0) initval =
      jenkinsHashlittle build mem address (4 * n) initval ∧
    jenkinsHashword2 (words .little mem n 0) initval pb =
      jenkinsHashlittle2 build mem address (4 * n) initval pb ∧
    jenkinsHashword (words .big mem n 0) initval =
      jenkinsHashbig build mem address (4 * n) initval ∧
    ∀ host, (jenkinsHashword2 (words host mem n 0) initval 0).1 =
      jenkinsHashword (words host mem n 0) initval := by
  have little := hashWords_words (littleReads_add mem build address) n 0
  have big := hashWords_words (bigReads_add mem build address) n 0
  have bytes := length_bytes n
  refine ⟨?_, ?_, ?_, fun host => ?_⟩
  · simp only [jenkinsHashword, jenkinsHashlittle, words_length, bytes, little]
  · simp only [jenkinsHashword2, jenkinsHashlittle2, words_length, Nat.mul_comm n 4, little]
  · simp only [jenkinsHashword, jenkinsHashbig, words_length, bytes, big]
  · simp only [jenkinsHashword, jenkinsHashword2, words_length, bytes, Nat.mul_comm n 4,
      UInt32.add_zero]

end Hashes
end Jio.HashPaths
