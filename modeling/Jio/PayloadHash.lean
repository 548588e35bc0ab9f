import Jio.JournalDef

/-! The two hashes of `upstream/`: SipHash-2-4 of `siphash24.c`, and the two 32-bit
hashes of `lookup3.c` that `jenkins_hash64` joins. Both see the bytes they are
given and nothing else. -/
namespace Jio
open ByteOrder

/-! ## `siphash24.c` -/

/-- `struct siphash`. -/
structure Siphash where
  v0 : UInt64
  v1 : UInt64
  v2 : UInt64
  v3 : UInt64
  padding : UInt64
  inlen : UInt64
  deriving DecidableEq

/-- `rotate_left`. -/
def rotateLeft (x b : UInt64) : UInt64 := (x <<< b) ||| (x >>> (64 - b))

/-- `sipround`. -/
def sipround (state : Siphash) : Siphash :=
  let v0 := state.v0 + state.v1
  let v1 := rotateLeft state.v1 13
  let v1 := v1 ^^^ v0
  let v0 := rotateLeft v0 32
  let v2 := state.v2 + state.v3
  let v3 := rotateLeft state.v3 16
  let v3 := v3 ^^^ v2
  let v0 := v0 + v3
  let v3 := rotateLeft v3 21
  let v3 := v3 ^^^ v0
  let v2 := v2 + v1
  let v1 := rotateLeft v1 17
  let v1 := v1 ^^^ v2
  let v2 := rotateLeft v2 32
  { state with v0, v1, v2, v3 }

/-- `unaligned_read_le64`. -/
def readLe64 (bytes : List UInt8) : UInt64 := readU64 .little bytes 0

/-- `siphash24_init`. -/
def siphash24Init (k : Vector UInt8 16) : Siphash :=
  let k0 := readLe64 k.toList
  let k1 := readLe64 (k.toList.drop 8)
  { v0 := 0x736f6d6570736575 ^^^ k0
    v1 := 0x646f72616e646f6d ^^^ k1
    v2 := 0x6c7967656e657261 ^^^ k0
    v3 := 0x7465646279746573 ^^^ k1
    padding := 0
    inlen := 0 }

/-- Two rounds around one word of input. -/
def Siphash.absorb (state : Siphash) (m : UInt64) : Siphash :=
  let state := sipround (sipround { state with v3 := state.v3 ^^^ m })
  { state with v0 := state.v0 ^^^ m }

/-- Bytes put into the padding, from byte `left` of it on. -/
def Siphash.pad (state : Siphash) : UInt64 → List UInt8 → Siphash
  | _, [] => state
  | left, byte :: bytes =>
    Siphash.pad { state with padding := state.padding ||| (byte.toUInt64 <<< (left * 8)) }
      (left + 1) bytes

/-- The loop over whole words, of which there are `n`. What is left over is put
into the padding. -/
def siphash24Words : Nat → List UInt8 → Siphash → Siphash
  | 0, input, state => state.pad 0 input
  | n + 1, input, state => siphash24Words n (input.drop 8) (state.absorb (readLe64 input))

/-- `siphash24_compress`. -/
def siphash24Compress (input : List UInt8) (state : Siphash) : Siphash :=
  let left := state.inlen &&& 7
  let state := { state with inlen := state.inlen + UInt64.ofNat input.length }
  if left > 0 then
    -- if padding exists, fill it out
    let filled := state.pad left (input.take (8 - left.toNat))
    if input.length < 8 - left.toNat then filled
    else
      let input := input.drop (8 - left.toNat)
      siphash24Words (input.length / 8) input { filled.absorb filled.padding with padding := 0 }
  else siphash24Words (input.length / 8) input state

/-- `siphash24_finalize`. -/
def siphash24Finalize (state : Siphash) : UInt64 :=
  let b := state.padding ||| (state.inlen <<< 56)
  let state := state.absorb b
  let state := { state with v2 := state.v2 ^^^ 0xff }
  let state := sipround (sipround (sipround (sipround state)))
  state.v0 ^^^ state.v1 ^^^ state.v2 ^^^ state.v3

/-- `siphash24`. A null pointer fails its first assertion. -/
def siphash24 (input : Option (List UInt8)) (k : Vector UInt8 16) : Except Fault UInt64 :=
  match input with
  | none => .error .assertion
  | some input => .ok (siphash24Finalize (siphash24Compress input (siphash24Init k)))

/-! ## `lookup3.c` -/

/-- The internal state of `hashlittle2`. -/
structure Lookup3 where
  a : UInt32
  b : UInt32
  c : UInt32
  deriving DecidableEq

/-- `rot`. -/
def rot (x k : UInt32) : UInt32 := (x <<< k) ||| (x >>> (32 - k))

/-- `mix`. -/
def Lookup3.mix : Lookup3 → Lookup3
  | ⟨a, b, c⟩ =>
    let a := a - c; let a := a ^^^ rot c 4; let c := c + b
    let b := b - a; let b := b ^^^ rot a 6; let a := a + c
    let c := c - b; let c := c ^^^ rot b 8; let b := b + a
    let a := a - c; let a := a ^^^ rot c 16; let c := c + b
    let b := b - a; let b := b ^^^ rot a 19; let a := a + c
    let c := c - b; let c := c ^^^ rot b 4; let b := b + a
    ⟨a, b, c⟩

/-- `final`. -/
def Lookup3.final : Lookup3 → Lookup3
  | ⟨a, b, c⟩ =>
    let c := c ^^^ b; let c := c - rot b 14
    let a := a ^^^ c; let a := a - rot c 11
    let b := b ^^^ a; let b := b - rot a 25
    let c := c ^^^ b; let c := c - rot b 16
    let a := a ^^^ c; let a := a - rot c 4
    let b := b ^^^ a; let b := b - rot a 14
    let c := c ^^^ b; let c := c - rot b 24
    ⟨a, b, c⟩

/-- A word of the key, or what is left of it: the three ways of reading the key
that `hashlittle2` has for different alignments all give this. -/
def keyWord (k : List UInt8) (off : Nat) : UInt32 :=
  UInt32.ofNat (Endian.little.value ((k.drop off).take 4))

/-- Add a block of the key to the state. -/
def Lookup3.add (state : Lookup3) (k : List UInt8) : Lookup3 :=
  ⟨state.a + keyWord k 0, state.b + keyWord k 4, state.c + keyWord k 8⟩

/-- All but the last block of the key, and then the last one. -/
def hashlittle2Blocks : Nat → List UInt8 → Lookup3 → Lookup3
  | 0, k, state => (state.add k).final
  | n + 1, k, state => hashlittle2Blocks n (k.drop 12) (state.add k).mix

/-- `jenkins_hashlittle2`: what it leaves in `*pc` and `*pb`. -/
def jenkinsHashlittle2 (key : List UInt8) (pc pb : UInt32) : UInt32 × UInt32 :=
  let a := 0xdeadbeef + UInt32.ofNat key.length + pc
  let state : Lookup3 := ⟨a, a, a + pb⟩
  -- zero length strings require no mixing
  if key.length = 0 then (state.c, state.b)
  else
    let state := hashlittle2Blocks ((key.length - 1) / 12) key state
    (state.c, state.b)

/-- `jenkins_hash64`. -/
def jenkinsHash64 (data : List UInt8) : UInt64 :=
  let (a, b) := jenkinsHashlittle2 data 0 0
  (a.toUInt64 <<< 32) ||| b.toUInt64

end Jio
