import Jio.Library.BlockStream
import Jio.PayloadHash

/-! SipHash of input that comes in pieces. `siphash24_compress` keeps what does not fill a word
in the padding of its state, so that any sequence of calls hashes their inputs as one. -/
namespace Jio
open ByteOrder BlockStream

/-! ## The calls of `siphash24.h` -/

/-- A string of C, without its terminator. -/
abbrev CString := { s : List UInt8 // 0 ∉ s }

/-- `siphash24_compress_byte`. -/
def siphash24CompressByte (byte : UInt8) (state : Siphash) : Siphash :=
  siphash24Compress [byte] state

/-- `siphash24_compress_boolean`. -/
def siphash24CompressBoolean (input : Bool) (state : Siphash) : Siphash :=
  let i : UInt8 := if input then 1 else 0
  siphash24Compress [i] state

/-- `siphash24_compress_string`. -/
def siphash24CompressString (input : Option CString) (state : Siphash) : Siphash :=
  match input with
  | none => state
  | some s => siphash24Compress s.1 state

/-- `siphash24_string`, which has the terminator hashed as well. -/
def siphash24String (s : CString) (k : Vector UInt8 16) : Except Fault UInt64 :=
  siphash24 (some (s.1 ++ [0])) k

/-- A call that has something compressed. -/
inductive SiphashCall where
  | compress (input : List UInt8)
  | compressByte (byte : UInt8)
  | compressBoolean (input : Bool)
  | compressString (input : Option CString)

/-- What it does to the state. -/
def SiphashCall.run (state : Siphash) : SiphashCall → Siphash
  | compress input => siphash24Compress input state
  | compressByte byte => siphash24CompressByte byte state
  | compressBoolean input => siphash24CompressBoolean input state
  | compressString input => siphash24CompressString input state

/-- What it hashes. -/
def SiphashCall.input : SiphashCall → List UInt8
  | compress input => input
  | compressByte byte => [byte]
  | compressBoolean input => [if input then 1 else 0]
  | compressString input => (input.map Subtype.val).getD []

/-! ## States as streams -/

/-- A state that has absorbed words, and keeps bytes in its padding. -/
def Siphash.ofStream (stream : Stream Siphash UInt8 8) (inlen : UInt64) : Siphash :=
  { stream.state with
    padding := readLe64 stream.kept
    inlen }

/-- A whole word is absorbed. -/
def absorbWord (state : Siphash) (word : List UInt8) : Siphash := state.absorb (readLe64 word)

theorem readLe64_toNat {bytes : List UInt8} (short : bytes.length ≤ 8) :
    (readLe64 bytes).toNat = ofLE bytes := by
  have bound := ofLE_lt bytes
  have power : 256 ^ bytes.length ≤ 256 ^ 8 := Nat.pow_le_pow_right (by decide) short
  rw [readLe64, readU64, List.drop_zero, List.take_of_length_le short]
  exact UInt64.toNat_ofNat_of_lt' (show ofLE bytes < 2 ^ 64 by omega)

/-- One more byte of a word. -/
theorem readLe64_concat {kept : List UInt8} (room : kept.length < 8) (byte : UInt8) :
    readLe64 kept ||| (byte.toUInt64 <<< (UInt64.ofNat kept.length * 8)) =
      readLe64 (kept ++ [byte]) := by
  have bound := ofLE_lt kept
  have low := byte.toNat_lt
  have shift : (UInt64.ofNat kept.length * 8).toNat % 64 = 8 * kept.length := by
    rw [UInt64.toNat_mul, UInt64.toNat_ofNat_of_lt' (show kept.length < 2 ^ 64 by omega)]
    rw [show (8 : UInt64).toNat = 8 from rfl]
    omega
  have power : 256 ^ kept.length = 2 ^ (8 * kept.length) := (pow_mul 2 8 kept.length).symm
  have longer : 2 ^ (8 * kept.length) * 2 ^ 8 ≤ 2 ^ 64 := by
    rw [← pow_add]
    exact Nat.pow_le_pow_right (by decide) (by omega)
  have whole : byte.toNat * 2 ^ (8 * kept.length) < 2 ^ 64 := by
    have scaled := Nat.mul_lt_mul_of_pos_right low (Nat.two_pow_pos (8 * kept.length))
    rw [Nat.mul_comm (2 ^ 8)] at scaled
    omega
  apply UInt64.toNat_inj.mp
  rw [UInt64.toNat_or, UInt64.toNat_shiftLeft, shift, readLe64_toNat (by omega),
    readLe64_toNat (by simp; omega), ofLE_append, UInt8.toNat_toUInt64, Nat.shiftLeft_eq,
    Nat.mod_eq_of_lt whole, Nat.or_comm, ← Nat.shiftLeft_eq,
    ← Nat.shiftLeft_add_eq_or_of_lt (power ▸ bound), Nat.shiftLeft_eq, power]
  simp [ofLE]
  ring

/-- Bytes that fit into the padding are kept there. -/
theorem Siphash.pad_eq (state : Siphash) (inlen : UInt64) {kept : List UInt8} (bytes : List UInt8)
    (room : (kept ++ bytes).length ≤ 8) :
    Siphash.pad { state with padding := readLe64 kept, inlen } (UInt64.ofNat kept.length) bytes =
      { state with padding := readLe64 (kept ++ bytes), inlen } := by
  induction bytes generalizing kept with
  | nil => rw [pad, List.append_nil]
  | cons byte bytes ih =>
    have short : kept.length < 8 := by
      simp only [List.length_append, List.length_cons] at room
      omega
    have next := @ih (kept ++ [byte]) (by simpa using room)
    rw [List.append_assoc, List.singleton_append] at next
    rw [pad]
    dsimp only
    rw [readLe64_concat short]
    convert next using 2
    rw [List.length_append, List.length_singleton, UInt64.ofNat_add]
    rfl

theorem Siphash.ofStream_pad (stream : Stream Siphash UInt8 8) (inlen : UInt64)
    {bytes : List UInt8} (room : (stream.kept ++ bytes).length < 8) :
    (ofStream stream inlen).pad (UInt64.ofNat stream.kept.length) bytes =
      ofStream (feed absorbWord stream bytes) inlen := by
  rw [feed_keeps room]
  exact pad_eq stream.state inlen bytes room.le

/-- The loop over whole words. -/
theorem siphash24Words_eq (state : Siphash) (inlen : UInt64) (input : List UInt8) :
    siphash24Words (input.length / 8) input
        (.ofStream ⟨state, [], Nat.succ_pos 7⟩ inlen) =
      .ofStream (feed absorbWord ⟨state, [], Nat.succ_pos 7⟩ input) inlen := by
  induction words : input.length / 8 generalizing state input with
  | zero =>
    have short : input.length < 8 := by omega
    exact Siphash.ofStream_pad ⟨state, [], Nat.succ_pos 7⟩ inlen short
  | succ n ih =>
    have long : 8 ≤ input.length := by omega
    have rest := ih (absorbWord state (input.take 8)) (input.drop 8) (by
      rw [List.length_drop]
      omega)
    have fed := @feed_fills _ _ _ absorbWord ⟨state, [], Nat.succ_pos 7⟩
      (input.take 8) (by simpa using long) (input.drop 8)
    rw [List.take_append_drop] at fed
    rw [fed, siphash24Words, List.nil_append, ← rest]
    have word : readLe64 (input.take 8) = readLe64 input := by
      simp [readLe64, readU64, List.take_take]
    refine congrArg (siphash24Words n (input.drop 8)) ?_
    unfold absorbWord
    rw [word]
    rfl

/-- `siphash24_compress` goes on from what was kept. -/
theorem siphash24Compress_eq (stream : Stream Siphash UInt8 8) {inlen : UInt64}
    (total : inlen.toNat % 8 = stream.kept.length) (input : List UInt8) :
    siphash24Compress input (.ofStream stream inlen) =
      .ofStream (feed absorbWord stream input) (inlen + UInt64.ofNat input.length) := by
  have left : inlen &&& 7 = UInt64.ofNat stream.kept.length := by
    have kept := stream.kept_lt
    apply UInt64.toNat_inj.mp
    rw [UInt64.toNat_and, UInt64.toNat_ofNat_of_lt' (show _ < 2 ^ 64 by omega), ← total]
    exact Nat.and_two_pow_sub_one_eq_mod inlen.toNat 3
  have short := stream.kept_lt
  have toNat : (UInt64.ofNat stream.kept.length).toNat = stream.kept.length :=
    UInt64.toNat_ofNat_of_lt' (show _ < 2 ^ 64 by omega)
  have longer : { Siphash.ofStream stream inlen with
      inlen := inlen + UInt64.ofNat input.length } =
        .ofStream stream (inlen + UInt64.ofNat input.length) := rfl
  unfold siphash24Compress
  rw [show (Siphash.ofStream stream inlen).inlen = inlen from rfl, left, longer]
  dsimp only
  generalize inlen + UInt64.ofNat input.length = inlen
  by_cases nothing : stream.kept = []
  · obtain ⟨state, kept, _⟩ := stream
    subst nothing
    exact (if_neg (show ¬UInt64.ofNat 0 > 0 by decide)).trans
      (siphash24Words_eq state inlen input)
  rw [if_pos (UInt64.lt_iff_toNat_lt.mpr (toNat.symm ▸ List.length_pos_iff.mpr nothing)), toNat]
  by_cases fits : input.length < 8 - stream.kept.length
  · rw [if_pos fits, List.take_of_length_le fits.le]
    exact Siphash.ofStream_pad stream inlen (by rw [List.length_append]; omega)
  · rw [if_neg fits]
    have fills : (stream.kept ++ input.take (8 - stream.kept.length)).length = 8 := by
      rw [List.length_append, List.length_take]
      omega
    have fed := @feed_fills _ _ _ absorbWord _ _ fills (input.drop (8 - stream.kept.length))
    rw [List.take_append_drop] at fed
    rw [fed, ← siphash24Words_eq, show (Siphash.ofStream stream inlen).pad _ _ = _ from
      Siphash.pad_eq stream.state inlen _ fills.le]
    rfl

theorem SiphashCall.run_eq (stream : Stream Siphash UInt8 8) {inlen : UInt64}
    (total : inlen.toNat % 8 = stream.kept.length) (call : SiphashCall) :
    call.run (.ofStream stream inlen) =
      .ofStream (feed absorbWord stream call.input) (inlen + UInt64.ofNat call.input.length) := by
  cases call with
  | compress input => exact siphash24Compress_eq stream total input
  | compressByte byte => exact siphash24Compress_eq stream total [byte]
  | compressBoolean input => exact siphash24Compress_eq stream total _
  | compressString input =>
    cases input with
    | none => exact congrArg (Siphash.ofStream stream) (UInt64.add_zero inlen).symm
    | some s => exact siphash24Compress_eq stream total s.1

theorem runs_eq (stream : Stream Siphash UInt8 8) {inlen : UInt64}
    (total : inlen.toNat % 8 = stream.kept.length) (calls : List SiphashCall) :
    calls.foldl SiphashCall.run (.ofStream stream inlen) =
      .ofStream (feed absorbWord stream (calls.flatMap SiphashCall.input))
        (inlen + UInt64.ofNat (calls.flatMap SiphashCall.input).length) := by
  induction calls generalizing stream inlen with
  | nil => exact congrArg (Siphash.ofStream stream) (UInt64.add_zero inlen).symm
  | cons call calls ih =>
    have next : (inlen + UInt64.ofNat call.input.length).toNat % 8 =
        (feed absorbWord stream call.input).kept.length := by
      rw [feed_kept_length, ← total, UInt64.toNat_add, UInt64.toNat_ofNat']
      omega
    rw [List.foldl_cons, call.run_eq stream total, ih _ next, List.flatMap_cons, feed_append,
      List.length_append, UInt64.ofNat_add, UInt64.add_assoc]

/-- Calls leave what one call leaves that is given all their input. -/
theorem runs_init (k : Vector UInt8 16) (calls : List SiphashCall) :
    calls.foldl SiphashCall.run (siphash24Init k) =
      siphash24Compress (calls.flatMap SiphashCall.input) (siphash24Init k) := by
  let start : Stream Siphash UInt8 8 := ⟨siphash24Init k, [], Nat.succ_pos 7⟩
  have total : (0 : UInt64).toNat % 8 = start.kept.length := rfl
  have fresh : siphash24Init k = .ofStream start 0 := rfl
  have whole := siphash24Compress_eq start total (calls.flatMap SiphashCall.input)
  rw [fresh, whole]
  exact runs_eq start total calls

/-- `siphash24_string` hashes the string as `siphash24_compress_string` does, and a zero. -/
theorem siphash24String_eq (s : CString) (k : Vector UInt8 16) :
    siphash24String s k = .ok (siphash24Finalize
      (siphash24CompressByte 0 (siphash24CompressString (some s) (siphash24Init k)))) := by
  have pieces := runs_init k [.compressString (some s), .compressByte 0]
  exact congrArg (Except.ok ∘ siphash24Finalize) pieces.symm

/-- However the input is cut up, and whichever calls it is given to, the hash is the one
`siphash24` has for all of it. -/
theorem siphash_of_pieces (k : Vector UInt8 16) (calls : List SiphashCall) :
    .ok (siphash24Finalize (calls.foldl SiphashCall.run (siphash24Init k))) =
      siphash24 (some (calls.flatMap SiphashCall.input)) k := by
  rw [runs_init, siphash24]

end Jio
