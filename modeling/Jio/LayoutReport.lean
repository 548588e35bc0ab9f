import Mathlib.Data.Nat.Factorization.Basic
import Jio.Library.ReadBack
import Jio.ObjectIteration

/-! `report layout`: a line with a token for each object. Its markers reuse the characters
of one another, but whatever tokens a line is made of, it can be read as these only. -/
namespace Jio.LayoutReport
open ByteOrder ReadProgram ReadBack

/-! ## The report -/

/-- `PAGE_SIZE`. -/
def PAGE_SIZE : UInt64 := 4096

/-- `type_map`. -/
def typeMap : Vector Char OBJECT_TYPE_MAX := #v['?', 'd', 'f', 'e', 'D', 'F', 'A', 't']

/-- `FILE *out`. -/
structure Out where
  text : List Char
  closed : Bool

/-- `snprintf` into a buffer of this size, which ends with a terminator. -/
def snprintf (size : Nat) (text : List Char) : List Char := text.take (size - 1)

/-- `boundary_marker`. -/
def boundaryMarker (pageDelta : UInt64) : List Char :=
  if pageDelta > PAGE_SIZE * 2 then
    snprintf 22 ('|' :: decimal (pageDelta / PAGE_SIZE - 1).toNat ++ ['|'])
  else if pageDelta > PAGE_SIZE then snprintf 22 ['|']
  else []

/-- `alignment_marker`. -/
def alignmentMarker (alignedDelta : UInt64) : List Char :=
  if alignedDelta > 1 then snprintf 3 ('+' :: decimal alignedDelta.toNat)
  else if alignedDelta ≠ 0 then snprintf 3 ['+']
  else []

/-- `this_page`. -/
def thisPage (off : UInt64) : UInt64 := off &&& ~~~(PAGE_SIZE - 1)

/-- `next_page`. -/
def nextPage (off size : UInt64) : UInt64 := (off + size + PAGE_SIZE - 1) &&& ~~~(PAGE_SIZE - 1)

/-- `per_data_object` of `report-layout.c`. -/
def perDataObject : Handler Out := fun off object out =>
  if off = 0 then .ok (0, ⟨out.text ++ ['\n'], true⟩)
  else if known : object.type.toNat < OBJECT_TYPE_MAX then
    .ok (1, { out with text := out.text ++
      ((if thisPage off = off then ['|', ' '] else []) ++ [typeMap[object.type.toNat]] ++
        boundaryMarker (nextPage off object.size - thisPage off) ++ decimal object.size.toNat ++
        alignmentMarker (align64 object.size - object.size) ++ [' ']) })
  else .error .outOfBounds

/-- What `per_journal` has written when the iteration starts. -/
def preamble (name : String) : Out where
  text := ("Layout for \"" ++ name ++ "\"\nLegend:\n").toList ++
    typeMap[0] :: "     OBJECT_UNUSED\n".toList ++
    typeMap[1] :: "     OBJECT_DATA\n".toList ++
    typeMap[2] :: "     OBJECT_FIELD\n".toList ++
    typeMap[3] :: "     OBJECT_ENTRY\n".toList ++
    typeMap[4] :: "     OBJECT_DATA_HASH_TABLE\n".toList ++
    typeMap[5] :: "     OBJECT_FIELD_HASH_TABLE\n".toList ++
    typeMap[6] :: "     OBJECT_ENTRY_ARRAY\n".toList ++
    typeMap[7] :: "     OBJECT_TAG\n\n".toList ++
    "|N|    object spans N page boundaries (page size used=".toList ++
    decimal PAGE_SIZE.toNat ++ ")\n".toList ++
    "|      single page boundary\n".toList ++
    "+N     N bytes of alignment padding\n".toList ++
    "+      single byte of alignment padding\n\n".toList
  closed := false

/-! ## Tokens -/

/-- What the report says of an object. -/
structure Token where
  startsPage : Bool
  type : Fin OBJECT_TYPE_MAX
  boundaries : Nat
  size : Nat
  padding : Nat
  deriving DecidableEq

def pageText : Bool → List Char
  | true => ['|', ' ']
  | false => []

/-- `|N|`, or `|` for a single one. -/
def boundariesText : Nat → List Char
  | 0 => []
  | 1 => ['|']
  | n => '|' :: decimal n ++ ['|']

theorem boundariesText_several {n : Nat} (several : 2 ≤ n) :
    boundariesText n = '|' :: decimal n ++ ['|'] := by
  obtain ⟨n, rfl⟩ : ∃ m, n = m + 2 := ⟨n - 2, by omega⟩
  rfl

/-- `+N`, or `+` for a single byte. -/
def paddingText : Nat → List Char
  | 0 => []
  | 1 => ['+']
  | n => '+' :: decimal n

def Token.text (token : Token) : List Char :=
  pageText token.startsPage ++ [typeMap[token.type]] ++ boundariesText token.boundaries ++
    decimal token.size ++ paddingText token.padding ++ [' ']

/-- The line of these tokens. -/
def line (tokens : List Token) : List Char := writeAll Token.text '\n' tokens

/-- How many multiples of `n` there are between two numbers. -/
def multiplesBetween (n a b : Nat) : Nat := ((Finset.Ioo a b).filter (n ∣ ·)).card

/-- The token says what is so of the object. -/
structure Describes (object : UInt64 × ObjectHeader) (token : Token) : Prop where
  startsPage : token.startsPage = true ↔ 4096 ∣ object.1.toNat
  type : token.type = object.2.type.toNat
  boundaries : token.boundaries = multiplesBetween 4096 object.1.toNat
    (object.1.toNat + object.2.size.toNat)
  size : token.size = object.2.size.toNat
  padding : token.padding = roundUp8 object.2.size.toNat - object.2.size.toNat

/-! ## Reading the line -/

def scanPage : Scanner Char Bool
  | '|' :: ' ' :: text => some (true, text)
  | text => some (false, text)

def scanType : Scanner Char (Fin OBJECT_TYPE_MAX)
  | [] => none
  | c :: text => do
    let type ← (List.finRange OBJECT_TYPE_MAX).find? fun type => typeMap[type] = c
    return (type, text)

def scanBoundaries : Scanner Char Nat
  | '|' :: text => match scanDecimal text with
    | some (n, '|' :: rest) => some (n, rest)
    | _ => some (1, text)
  | text => some (0, text)

def scanPadding : Scanner Char Nat
  | '+' :: text => match scanDecimal text with
    | some (n, rest) => some (n, rest)
    | none => some (1, text)
  | text => some (0, text)

def scanToken : Scanner Char Token := fun text => do
  let (startsPage, text) ← scanPage text
  let (type, text) ← scanType text
  let (boundaries, text) ← scanBoundaries text
  let (size, text) ← scanDecimal text
  let (padding, text) ← scanPadding text
  match text with
  | ' ' :: text => return (⟨startsPage, type, boundaries, size, padding⟩, text)
  | _ => none

/-- Where the objects start, from the first on. -/
def offsets : Nat → List Token → List Nat
  | _, [] => []
  | off, token :: tokens => off :: offsets (off + (token.size + token.padding)) tokens

/-! ### One token -/

theorem typeMap_ne : ∀ type : Fin OBJECT_TYPE_MAX, typeMap[type] ≠ '|' ∧ typeMap[type] ≠ '\n' := by
  decide

/-- No two types share a character. -/
theorem find?_typeMap : ∀ type : Fin OBJECT_TYPE_MAX,
    (List.finRange OBJECT_TYPE_MAX).find? (fun other => typeMap[other] = typeMap[type]) =
      some type := by
  decide

theorem scanPage_undoes : Undoes scanPage pageText fun rest => ∀ c ∈ rest.head?, c ≠ '|' := by
  rintro (_ | _) rest next
  · change scanPage rest = some (false, rest)
    unfold scanPage
    split
    · exact absurd rfl (next _ rfl)
    · rfl
  · rfl

theorem scanType_undoes : Undoes scanType (fun type => [typeMap[type]]) fun _ => True := by
  rintro type rest -
  simp only [List.singleton_append, scanType, find?_typeMap]
  rfl

/-- A number comes next, and no bar behind it. -/
def NumberNext (rest : List Char) : Prop :=
  ∃ n rest', rest = decimal n ++ rest' ∧ NoDigit rest' ∧ ∀ c ∈ rest'.head?, c ≠ '|'

theorem NumberNext.head {rest : List Char} (next : NumberNext rest) :
    ∀ c ∈ rest.head?, c ≠ '|' := by
  obtain ⟨n, rest, rfl, -, -⟩ := next
  obtain ⟨c, text, shape, digit⟩ := decimal_cons n
  rw [shape]
  rintro _ ⟨⟩ rfl
  simp at digit

theorem scanBoundaries_undoes : Undoes scanBoundaries boundariesText NumberNext := by
  intro n rest next
  match n with
  | 0 =>
    have head := next.head
    change scanBoundaries rest = some (0, rest)
    unfold scanBoundaries
    split
    · exact absurd rfl (head _ rfl)
    · rfl
  | 1 =>
    -- the number behind a single bar is the size, so no second bar closes it
    obtain ⟨size, rest, rfl, digits, bar⟩ := next
    change (match scanDecimal (decimal size ++ rest) with
      | some (n, '|' :: rest) => some (n, rest)
      | _ => some (1, decimal size ++ rest)) = _
    rw [scanDecimal_undoes size rest digits]
    split
    · rename_i found
      cases found
      exact absurd rfl (bar _ rfl)
    · rfl
  | n + 2 =>
    have bar : NoDigit ('|' :: rest) := by
      rintro _ ⟨⟩
      rfl
    have found := scanDecimal_undoes (n + 2) _ bar
    have text : boundariesText (n + 2) ++ rest = '|' :: (decimal (n + 2) ++ '|' :: rest) := by
      simp [boundariesText]
    simp only [text, scanBoundaries, found]

theorem scanPadding_undoes :
    Undoes scanPadding paddingText fun rest => NoDigit rest ∧ ∀ c ∈ rest.head?, c ≠ '+' := by
  rintro n rest ⟨digits, head⟩
  match n with
  | 0 =>
    change scanPadding rest = some (0, rest)
    unfold scanPadding
    split
    · exact absurd rfl (head _ rfl)
    · rfl
  | 1 =>
    change scanPadding ('+' :: rest) = some (1, rest)
    simp only [scanPadding, scanDecimal_none digits]
  | n + 2 =>
    change scanPadding ('+' :: (decimal (n + 2) ++ rest)) = some (n + 2, rest)
    simp only [scanPadding, scanDecimal_undoes (n + 2) rest digits]

theorem space_noDigit {rest : List Char} : NoDigit (' ' :: rest) := by
  rintro _ ⟨⟩
  rfl

/-- What follows a number is a plus or a space. -/
theorem paddingText_next (padding : Nat) (rest : List Char) :
    ∃ c text, paddingText padding ++ ' ' :: rest = c :: text ∧ (c = '+' ∨ c = ' ') := by
  match padding with
  | 0 => exact ⟨' ', _, rfl, .inr rfl⟩
  | 1 => exact ⟨'+', _, rfl, .inl rfl⟩
  | n + 2 => exact ⟨'+', _, rfl, .inl rfl⟩

theorem scanToken_undoes : Undoes scanToken Token.text fun _ => True := by
  rintro ⟨startsPage, type, boundaries, size, padding⟩ rest -
  obtain ⟨c, behind, shape, either⟩ := paddingText_next padding rest
  have digits : NoDigit (paddingText padding ++ ' ' :: rest) := by
    rw [shape]
    rintro _ ⟨⟩
    rcases either with rfl | rfl <;> rfl
  have number : NumberNext (decimal size ++ (paddingText padding ++ ' ' :: rest)) := by
    refine ⟨size, _, rfl, digits, ?_⟩
    rw [shape]
    rintro _ ⟨⟩ rfl
    rcases either with bar | bar <;> simp at bar
  have page := scanPage_undoes startsPage (typeMap[type] :: (boundariesText boundaries ++
    (decimal size ++ (paddingText padding ++ ' ' :: rest)))) (by
      rintro _ ⟨⟩
      exact (typeMap_ne type).1)
  have typed := scanType_undoes type (boundariesText boundaries ++
    (decimal size ++ (paddingText padding ++ ' ' :: rest))) trivial
  have spans := scanBoundaries_undoes boundaries _ number
  have sized := scanDecimal_undoes size _ digits
  have padded := scanPadding_undoes padding (' ' :: rest) ⟨space_noDigit, by
    rintro _ ⟨⟩
    simp⟩
  have text : Token.text ⟨startsPage, type, boundaries, size, padding⟩ ++ rest =
      pageText startsPage ++ (typeMap[type] :: (boundariesText boundaries ++
        (decimal size ++ (paddingText padding ++ ' ' :: rest)))) := by
    simp [Token.text]
  unfold scanToken
  rw [text, page]
  simp only [Option.bind_eq_bind, Option.bind_some]
  rw [List.singleton_append] at typed
  rw [typed]
  simp only [Option.bind_some, spans, sized, padded]
  rfl

example : scanToken ['|', ' ', 'e', '|', '2', '|', '9', '0', '0', '0', '+', ' '] =
    some (⟨true, ⟨3, by decide⟩, 2, 9000, 1⟩, []) := by decide

theorem Token.text_starts (token : Token) : ∃ c text, token.text = c :: text ∧ c ≠ '\n' := by
  obtain ⟨startsPage, type, boundaries, size, padding⟩ := token
  cases startsPage with
  | false => exact ⟨typeMap[type], _, rfl, (typeMap_ne type).2⟩
  | true => exact ⟨'|', _, rfl, by decide⟩

/-! ## Markers -/

theorem multiplesBetween_add {n a b : Nat} (between : a < b) :
    multiplesBetween n a b + a / n = (b - 1) / n := by
  have disjoint : Disjoint ((Finset.Ioo a b).filter (n ∣ ·)) ((Finset.Ioc 0 a).filter (n ∣ ·)) := by
    rw [Finset.disjoint_left]
    intro x inside before
    simp only [Finset.mem_filter, Finset.mem_Ioo, Finset.mem_Ioc] at inside before
    omega
  unfold multiplesBetween
  rw [← Nat.Ioc_filter_dvd_card_eq_div a n, ← Nat.Ioc_filter_dvd_card_eq_div (b - 1) n,
    ← Finset.card_union_of_disjoint disjoint, ← Finset.filter_union]
  congr 2
  ext x
  simp only [Finset.mem_union, Finset.mem_Ioo, Finset.mem_Ioc]
  omega

theorem thisPage_toNat (off : UInt64) : (thisPage off).toNat = off.toNat / 4096 * 4096 :=
  and_not_low off 12

theorem nextPage_toNat {off size : UInt64} (inside : off.toNat + size.toNat < 2 ^ 63) :
    (nextPage off size).toNat = (off.toNat + size.toNat + 4095) / 4096 * 4096 := by
  have page : PAGE_SIZE.toNat = 4096 := rfl
  have sum : (off + size + PAGE_SIZE).toNat = off.toNat + size.toNat + 4096 := by
    rw [UInt64.toNat_add, UInt64.toNat_add, page]
    omega
  have before : (off + size + PAGE_SIZE - 1).toNat = off.toNat + size.toNat + 4095 := by
    rw [UInt64.toNat_sub_of_le _ _ (UInt64.le_iff_toNat_le.mpr (by rw [sum]; simp)), sum]
    rfl
  rw [← before]
  exact and_not_low _ 12

/-- The pages an object touches are one more than the boundaries it spans. -/
theorem pageDelta_toNat {off size : UInt64} (inside : off.toNat + size.toNat < 2 ^ 63)
    (positive : 0 < size.toNat) : (nextPage off size - thisPage off).toNat =
      (multiplesBetween 4096 off.toNat (off.toNat + size.toNat) + 1) * 4096 := by
  have between := @multiplesBetween_add 4096 off.toNat (off.toNat + size.toNat) (by omega)
  have next := nextPage_toNat inside
  have this := thisPage_toNat off
  rw [UInt64.toNat_sub_of_le _ _ (UInt64.le_iff_toNat_le.mpr (by omega)), next, this]
  omega

theorem length_boundariesText {n : Nat} (small : n < 10 ^ 19) :
    (boundariesText n).length < 22 := by
  match n with
  | 0 => decide
  | 1 => decide
  | n + 2 =>
    have digits := length_decimal (show 0 < 19 by decide) small
    simp only [boundariesText, List.length_append, List.length_cons, List.length_nil]
    omega

theorem length_paddingText {n : Nat} (small : n < 8) : (paddingText n).length < 3 := by
  match n with
  | 0 => decide
  | 1 => decide
  | n + 2 =>
    have digits := length_decimal (k := 1) (by decide) (show n + 2 < 10 ^ 1 by omega)
    simp only [paddingText, List.length_cons]
    omega

/-- A text that fits is printed as it is. -/
theorem snprintf_eq {size : Nat} {text : List Char} (fits : text.length < size) :
    snprintf size text = text := List.take_of_length_le (by omega)

theorem boundaryMarker_eq {pageDelta : UInt64} {n : Nat}
    (pages : pageDelta.toNat = (n + 1) * 4096) : boundaryMarker pageDelta = boundariesText n := by
  have bound := pageDelta.toNat_lt
  have fits := length_boundariesText (show n < 10 ^ 19 by omega)
  have two : (PAGE_SIZE * 2).toNat = 8192 := rfl
  have one : PAGE_SIZE.toNat = 4096 := rfl
  unfold boundaryMarker
  simp only [gt_iff_lt, UInt64.lt_iff_toNat_lt, pages, two, one]
  obtain rfl | rfl | several : n = 0 ∨ n = 1 ∨ 2 ≤ n := by omega
  · rw [if_neg (by decide), if_neg (by decide), boundariesText]
  · rw [if_neg (by decide), if_pos (by decide), boundariesText]
    rfl
  · have quotient : (pageDelta / PAGE_SIZE).toNat = n + 1 := by
      rw [UInt64.toNat_div, pages, one]
      omega
    have number : (pageDelta / PAGE_SIZE - 1).toNat = n := by
      rw [UInt64.toNat_sub_of_le _ _ (UInt64.le_iff_toNat_le.mpr (by rw [quotient]; simp)), quotient]
      rfl
    rw [if_pos (by omega), number, ← boundariesText_several several]
    exact snprintf_eq fits

theorem alignmentMarker_eq {alignedDelta : UInt64} (small : alignedDelta.toNat < 8) :
    alignmentMarker alignedDelta = paddingText alignedDelta.toNat := by
  have fits := length_paddingText small
  have one : (1 : UInt64).toNat = 1 := rfl
  have nonzero : alignedDelta ≠ 0 ↔ alignedDelta.toNat ≠ 0 := by
    rw [not_iff_not, ← UInt64.toNat_inj, UInt64.toNat_zero]
  unfold alignmentMarker
  simp only [gt_iff_lt, UInt64.lt_iff_toNat_lt, one, nonzero]
  generalize alignedDelta.toNat = n at *
  match n with
  | 0 => rfl
  | 1 => rfl
  | n + 2 =>
    rw [if_pos (by omega)]
    exact snprintf_eq fits

/-- The padding behind an object is what is missing to a multiple of 8. -/
theorem alignedDelta_toNat {size : UInt64} (small : size.toNat < 2 ^ 63) :
    (align64 size - size).toNat = roundUp8 size.toNat - size.toNat := by
  have rounded : (align64 size).toNat = roundUp8 size.toNat := by
    rw [align64_toNat, if_pos (by omega)]
  have atLeast := le_roundUp8 size.toNat
  rw [UInt64.toNat_sub_of_le _ _ (UInt64.le_iff_toNat_le.mpr (by omega)), rounded]

/-! ## The tokens of a journal -/

/-- The markers fit their buffers, with the terminator. -/
structure Token.Fits (token : Token) : Prop where
  boundaries : (boundariesText token.boundaries).length < 22
  padding : (paddingText token.padding).length < 3

/-- What `per_data_object` writes for an object. -/
theorem perDataObject_token {object : UInt64 × ObjectHeader} (positive : 0 < object.1.toNat)
    (sized : 0 < object.2.size.toNat) (inside : object.1.toNat + object.2.size.toNat < 2 ^ 63)
    (known : object.2.type.toNat < OBJECT_TYPE_MAX) :
    ∃ token, Describes object token ∧ token.Fits ∧ ∀ out, perDataObject object.1 object.2 out =
      .ok (1, { out with text := out.text ++ token.text }) := by
  obtain ⟨off, object⟩ := object
  dsimp only at positive sized inside known ⊢
  have nonzero : off ≠ 0 := by
    rintro rfl
    simp at positive
  have pages := pageDelta_toNat inside sized
  have padding := alignedDelta_toNat (show object.size.toNat < 2 ^ 63 by omega)
  have rounded := roundUp8_lt object.size.toNat
  have starts : (thisPage off = off) ↔ 4096 ∣ off.toNat := by
    rw [← UInt64.toNat_inj, thisPage_toNat]
    omega
  have few : multiplesBetween 4096 off.toNat (off.toNat + object.size.toNat) < 10 ^ 19 := by
    have bound := (nextPage off object.size - thisPage off).toNat_lt
    omega
  refine ⟨⟨decide (4096 ∣ off.toNat), ⟨object.type.toNat, known⟩,
    multiplesBetween 4096 off.toNat (off.toNat + object.size.toNat), object.size.toNat,
    roundUp8 object.size.toNat - object.size.toNat⟩, ⟨by simp, rfl, rfl, rfl, rfl⟩,
    ⟨length_boundariesText few, length_paddingText (by dsimp only; omega)⟩, ?_⟩
  intro out
  have page : (if thisPage off = off then ['|', ' '] else []) =
      pageText (decide (4096 ∣ off.toNat)) := by
    by_cases here : 4096 ∣ off.toNat
    · simp [starts, here, pageText]
    · simp [starts, here, pageText]
  unfold perDataObject
  rw [if_neg nonzero, dif_pos known, page, boundaryMarker_eq pages,
    alignmentMarker_eq (by omega), padding]
  rfl

/-- What is written for objects back to back. -/
structure Tokens (objects : List (UInt64 × ObjectHeader)) (tokens : List Token) : Prop where
  describe : List.Forall₂ Describes objects tokens
  fit : ∀ token ∈ tokens, token.Fits
  accepts : ∀ object ∈ objects, Accepts perDataObject object
  written : ∀ out, objects.foldl (fun out object => perDataObject.after object out) out =
    { out with text := out.text ++ tokens.flatMap Token.text }

theorem backToBack_tokens {file : JournalFile} {off : Nat} {objects : List (UInt64 × ObjectHeader)}
    (positive : 0 < off) (consecutive : BackToBack file off objects)
    (typed : ∀ object ∈ objects, object.2.type.toNat < OBJECT_TYPE_MAX) : ∃ tokens,
      Tokens objects tokens ∧ offsets off tokens = objects.map fun object => object.1.toNat := by
  induction objects generalizing off with
  | nil => exact ⟨[], ⟨.nil, nofun, nofun, fun out => by simp⟩, rfl⟩
  | cons object objects ih =>
    obtain ⟨rfl, -, large, inside, rest⟩ := consecutive
    have bound := file.size_lt
    have atLeast := le_roundUp8 object.2.size.toNat
    obtain ⟨tokens, later, behind⟩ := ih (by omega) rest fun other member =>
      typed other (List.mem_cons_of_mem _ member)
    obtain ⟨token, describes, fits, ran⟩ := perDataObject_token positive
      (show 0 < object.2.size.toNat by omega) (by omega) (typed object (by simp))
    refine ⟨token :: tokens, ⟨.cons describes later.describe, ?_, ?_, ?_⟩, ?_⟩
    · rintro other (_ | ⟨_, member⟩)
      · exact fits
      · exact later.fit other member
    · rintro other (_ | ⟨_, member⟩)
      · exact fun out => ⟨1, _, ran out, by decide⟩
      · exact later.accepts other member
    · intro out
      have here : perDataObject.after object out = { out with text := out.text ++ token.text } := by
        unfold Handler.after
        rw [ran]
      rw [List.foldl_cons, here, later.written, List.flatMap_cons, ← List.append_assoc]
    · have next : token.size + token.padding = roundUp8 object.2.size.toNat := by
        rw [describes.size, describes.padding]
        omega
      rw [offsets, next, behind, List.map_cons]

theorem accepts_end (held : ObjectHeader) : Accepts perDataObject (0, held) :=
  fun _ => ⟨0, _, rfl, le_rfl⟩

/-- The line has a token for each object, in file order, with both markers in full. It can
be read as these tokens and no others, and they say where every object is. -/
theorem layout_is_readable {kernel : Kernel} {file : JournalFile} {header : Header}
    {objects : List (UInt64 × ObjectHeader)} (serves : kernel.ServesFile file)
    (reliable : kernel.Reliable) (packed : Packed file header objects)
    (typed : ∀ object ∈ objects, object.2.type.toNat < OBJECT_TYPE_MAX) (host : Endian)
    {cache : Cache} (invariant : CacheInvariant file cache.journal) (name : String)
    (held : UInt64 × ObjectHeader) {fuel : Nat} (enough : objects.length < fuel) :
    ∃ cache' trace tokens, journalIterObjects (cachedReader kernel) host header perDataObject fuel
        cache (.at held (preamble name)) = .ok (cache', trace, .finished) ∧
      trace.getLast?.map Iteration.user = some ⟨(preamble name).text ++ line tokens, true⟩ ∧
      List.Forall₂ Describes objects tokens ∧ (∀ token ∈ tokens, token.Fits) ∧
      scanAll scanToken '\n' (line tokens) = some tokens ∧
      (∀ others, line others = line tokens → others = tokens) ∧
      offsets header.headerSize.toNat tokens = objects.map fun object => object.1.toNat := by
  obtain ⟨tokens, written, offsets⟩ := backToBack_tokens packed.positive packed.consecutive typed
  have accepts : ∀ object ∈ iterationFrom held.2 objects, Accepts perDataObject object := by
    intro object member
    rw [iterationFrom_eq, List.mem_append, List.mem_singleton] at member
    rcases member with member | rfl
    · exact written.accepts object member
    · exact accepts_end _
  obtain ⟨cache', ran, -⟩ := loop_refines (cachedReader_refines serves reliable) invariant
    (packed.pass host (.at held (preamble name)) accepts enough)
  refine ⟨cache', _, tokens, ran, ?_, written.describe, written.fit,
    scanAll_writeAll scanToken_undoes Token.text_starts tokens,
    fun others same => writeAll_injective scanToken_undoes Token.text_starts same, offsets⟩
  change (visits perDataObject (preamble name) (iterationFrom held.2 objects)).getLast?.map _ = _
  unfold visits
  rw [iterationFrom_eq, visitAll_concat, List.map_append, List.map_singleton,
    List.getLast?_concat, Option.map_some, written.written]
  have ended (out : Out) : perDataObject.after (0, (objects.getLast?.map Prod.snd).getD held.2) out =
      ⟨out.text ++ ['\n'], true⟩ := rfl
  rw [ended, List.append_assoc]
  rfl

theorem layout_is_readable_twoObjects :
    ∃ journal, freshJournal "system.journal" 3 0 = .ok journal ∧
      let objects := [(256, twoObjects.objectHeader 256), (336, twoObjects.objectHeader 336)]
      ∃ cache' trace tokens, journalIterObjects (cachedReader (fileKernel twoObjects)) .big
          twoObjectsHeader perDataObject 3 ⟨journal, 0⟩
          (.at (0, twoObjects.objectHeader 0) (preamble "system.journal")) =
          .ok (cache', trace, .finished) ∧
        trace.getLast?.map Iteration.user =
          some ⟨(preamble "system.journal").text ++ line tokens, true⟩ ∧
        List.Forall₂ Describes objects tokens ∧ (∀ token ∈ tokens, token.Fits) ∧
        scanAll scanToken '\n' (line tokens) = some tokens ∧
        (∀ others, line others = line tokens → others = tokens) ∧
        offsets 256 tokens = objects.map fun object => object.1.toNat := by
  obtain ⟨journal, ready, -⟩ := freshJournal_spec "system.journal" 3 0
  exact ⟨journal, ready, layout_is_readable (fileKernel_servesFile twoObjects)
    (fileKernel_reliable twoObjects) twoObjects_wellFormed.packed (by decide) .big (.fresh ready)
    "system.journal" (0, twoObjects.objectHeader 0) (by decide)⟩

end Jio.LayoutReport
