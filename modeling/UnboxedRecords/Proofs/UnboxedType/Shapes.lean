import Mathlib.Order.Bounds.Defs
import UnboxedRecords.Proofs.RawStorage.Exactness
import UnboxedRecords.Proofs.UnboxedType.Single
import UnboxedRecords.UnboxedType.Shapes

/-!
# The sizes of ready-made types

A range of bytes is as long as it is asked to be, and a vector of bits takes the least number of
whole words that have room for its bits (`UnboxedType.isLeast_wordsForBits`).  Both are types of one
raw field, and both are refused if they take more bytes than a word of the platform can count, but
not in the same place: too many words are refused when they are declared
(`UnboxedType.result_ofBitCount`), and too many bytes only when they are composed
(`UnboxedType.result_ofByteCount`).

The number of words is found by a division of 64-bit numbers that rounds up (`divUp`), and is then
read as a signed number.  This neither loses nor adds a word (`UnboxedType.toInt_bitWords64`): the
quotient is no more than an eighth of the bits, and so stays clear of the sign bit.
-/

namespace UnboxedRecords

/-! ## Quotients of 64-bit numbers -/

/-- The quotient of two 64-bit numbers, rounded up. -/
def divUp (a b : UInt64) : UInt64 := if 0 < a % b then a / b + 1 else a / b

theorem toNat_divUp {a b : UInt64} (h : 0 < b.toNat) :
    (divUp a b).toNat = (a.toNat + (b.toNat - 1)) / b.toNat := by
  have hparts : b.toNat * (a.toNat / b.toNat) + a.toNat % b.toNat = a.toNat := Nat.div_add_mod _ _
  have hrest : a.toNat % b.toNat < b.toNat := Nat.mod_lt _ h
  have hpos_iff : 0 < a % b ↔ 0 < a.toNat % b.toNat := by
    rw [UInt64.lt_iff_toNat_lt, UInt64.toNat_mod, UInt64.toNat_zero]
  rw [eq_comm, Nat.div_eq_iff h, Nat.mul_comm]
  unfold divUp
  split
  · next hpos =>
    rw [hpos_iff] at hpos
    -- there is a rest, so the quotient is below the dividend and one more is no overflow
    have hquot : a.toNat / b.toNat ≤ b.toNat * (a.toNat / b.toNat) := Nat.le_mul_of_pos_left _ h
    have hlt := a.toNat_lt
    have hsum : (a / b + 1).toNat = a.toNat / b.toNat + 1 := by
      rw [UInt64.toNat_add, UInt64.toNat_div, UInt64.toNat_one]
      exact Nat.mod_eq_of_lt (by omega)
    rw [hsum, Nat.mul_add, Nat.mul_one]
    omega
  · next hzero =>
    rw [hpos_iff] at hzero
    rw [UInt64.toNat_div]
    omega

/-- An unsigned number in the lower half of its range is the same as a signed one. -/
theorem toInt_toInt64 {n : UInt64} (h : n.toNat < 9223372036854775808) :
    n.toInt64.toInt = n.toNat := by
  have hlt : 2 * n.toBitVec.toNat < 2 ^ 64 := by
    change 2 * n.toNat < 2 ^ 64
    omega
  exact BitVec.toInt_eq_toNat_of_lt hlt

namespace UnboxedType

variable {platform : Platform} {bits words : Nat} {length : Int}

/-! ## Words for bits -/

/-- The number of words with room for `bits` bits. -/
def wordsForBits (bits : Nat) (platform : Platform) : Nat :=
  (bits + (8 * platform.wordBytes - 1)) / (8 * platform.wordBytes)

/-- The number of words with room for `bits` bits, found with 64-bit numbers alone. -/
def bitWords64 (bits : UInt64) (platform : Platform) : Int64 :=
  (divUp bits (.ofNat (8 * platform.wordBytes))).toInt64

theorem wordsForBits_le_iff :
    wordsForBits bits platform ≤ words ↔ bits ≤ 8 * (words * platform.wordBytes) := by
  have hpos : 0 < 8 * platform.wordBytes := Nat.mul_pos (by decide) platform.wordBytes_pos
  rw [wordsForBits, Nat.div_le_iff_le_mul_add_pred hpos, Nat.add_le_add_iff_right, Nat.mul_assoc,
    Nat.mul_comm platform.wordBytes]

/-- So many words take the least multiple of the word size that has room for the bits. -/
theorem isLeast_wordsForBits (bits : Nat) (platform : Platform) :
    IsLeast {size | platform.wordBytes ∣ size ∧ bits ≤ 8 * size}
      (wordsForBits bits platform * platform.wordBytes) := by
  constructor
  · exact ⟨Nat.dvd_mul_left _ _, wordsForBits_le_iff.1 (Nat.le_refl _)⟩
  · rintro _ ⟨⟨words, rfl⟩, hroom⟩
    rw [Nat.mul_comm platform.wordBytes] at hroom ⊢
    exact Nat.mul_le_mul_right _ (wordsForBits_le_iff.2 hroom)

/-- Counting the words of a vector of bits with 64-bit numbers alone comes to the exact number. -/
theorem toInt_bitWords64 (bits : UInt64) (platform : Platform) :
    (bitWords64 bits platform).toInt = wordsForBits bits.toNat platform := by
  have hwidth : (UInt64.ofNat (8 * platform.wordBytes)).toNat = 8 * platform.wordBytes := by
    cases platform <;> rfl
  have hpos := platform.wordBytes_pos
  have hquot : (divUp bits (.ofNat (8 * platform.wordBytes))).toNat =
      wordsForBits bits.toNat platform := by
    rw [toNat_divUp (by omega), hwidth, wordsForBits]
  have hsmall : wordsForBits bits.toNat platform ≤ 2305843009213693952 := by
    have hbits := bits.toNat_lt
    rw [wordsForBits_le_iff]
    omega
  rw [bitWords64, toInt_toInt64 (by omega), hquot]

-- as many bits as there can be, with the shortest words there are
example : (bitWords64 18446744073709551615 .bits8).toInt = 2305843009213693952 := by decide

/-! ## Types from one shape -/

/-- A type from one shape declares the storage and composes it as a single field. -/
theorem ofShapes_singleton (name : String) (unit : LengthUnit) (length : Int)
    (platform : Platform) :
    ofShapes name [(unit, length)] platform =
      (RawSpec.declare unit length platform).andThen fun spec =>
        compose name [⟨s!"f{0}", .raw spec⟩] ⟨platform, none⟩ := by
  simp only [ofShapes, List.zipIdx_singleton, Logged.forEach, rawField, Logged.andThen_assoc,
    Logged.ok_andThen]

/-- A type from one shape, whose storage is declared with 64-bit numbers alone. -/
def ofShape64 (name : String) (unit : LengthUnit) (length : Int64) (platform : Platform) :
    Logged DeclError UnboxedType :=
  (RawSpec.declare64 unit length platform).andThen fun spec =>
    compose name [⟨s!"f{0}", .raw spec⟩] ⟨platform, none⟩

/-- A range of `length` bytes, sized with 64-bit numbers alone. -/
def ofByteCount64 (length : Int64) (platform : Platform) : Logged DeclError UnboxedType :=
  ofShape64 s!"Bytes{length.toInt}" .bytes length platform

/-- A vector of at least `bits` bits, sized with 64-bit numbers alone. -/
def ofBitCount64 (bits : UInt64) (platform : Platform) : Logged DeclError UnboxedType :=
  ofShape64 s!"Bits{bits.toNat}" .words (bitWords64 bits platform) platform

theorem ofShape64_eq (name : String) (unit : LengthUnit) (length : Int64) (platform : Platform) :
    ofShape64 name unit length platform = ofShapes name [(unit, length.toInt)] platform := by
  rw [ofShape64, RawSpec.declare64_eq, ofShapes_singleton]

theorem ofBitCount64_eq (bits : UInt64) (platform : Platform) :
    ofBitCount64 bits platform = ofBitCount bits.toNat platform := by
  rw [ofBitCount64, ofShape64_eq, toInt_bitWords64]
  rfl

theorem ofByteCount64_eq (length : Int64) (platform : Platform) :
    ofByteCount64 length platform = ofByteCount length.toInt platform :=
  ofShape64_eq _ _ _ _

/-! ## Exact sizes -/

/-- A vector of bits is made unless its words take more bytes than a word holds the number of, and
it is the declaration of the words that is refused then. -/
theorem result_ofBitCount (bits : Nat) (platform : Platform) :
    let words := wordsForBits bits platform
    (ofBitCount bits platform).result =
      if platform.maxWord < words * platform.wordBytes then
        .error (.invalidSpec (.exceedsAddressSpace words platform.wordBytes platform.maxWord))
      else
        .ok (single s!"Bits{bits}" s!"f{0}"
          ⟨.words, words, platform, words * platform.wordBytes⟩) := by
  intro words
  change (ofShapes s!"Bits{bits}" [(.words, (words : Int))] platform).result = _
  split
  · next hlarge =>
    rw [ofShapes_singleton, RawSpec.declare_of_maxWord_lt hlarge]
    rfl
  · next hsmall =>
    have hle : words * platform.wordBytes ≤ platform.maxWord := Nat.le_of_not_lt hsmall
    rw [ofShapes_singleton,
      Logged.andThen_of_ok (RawSpec.declare_of_le (Int.natCast_nonneg words) fun _ => hle)]
    exact compose_single _ _ rfl hle

/-- A range of bytes is made unless its length is below zero, for which the declaration is refused,
or larger than a word holds, for which the composition is. -/
theorem result_ofByteCount (length : Int) (platform : Platform) :
    (ofByteCount length platform).result =
      if length < 0 then .error (.invalidSpec (.negativeLength length))
      else if platform.maxWord < length.toNat then
        .error (.illegalComposition s!"Bytes{length}" (.sizeOverflow platform.maxWord))
      else
        .ok (single s!"Bytes{length}" s!"f{0}" ⟨.bytes, length.toNat, platform, length.toNat⟩) := by
  rw [ofByteCount, ofShapes_singleton]
  split
  · next hneg =>
    rw [RawSpec.declare_of_neg hneg]
    rfl
  · next hpos =>
    have hdeclare : (RawSpec.declare .bytes length platform).result =
        .ok ⟨.bytes, length.toNat, platform, length.toNat⟩ := by
      rw [RawSpec.declare_of_le (Int.not_lt.1 hpos) (by simp), LengthUnit.width, Nat.mul_one]
    rw [Logged.andThen_of_ok hdeclare]
    split
    · next hlarge => exact compose_single_of_lt _ _ rfl hlarge
    · next hsmall => exact compose_single _ _ rfl (Nat.le_of_not_lt hsmall)

theorem ofBitCount_refused_iff :
    (∃ error, (ofBitCount bits platform).result = .error error) ↔
      platform.maxWord < wordsForBits bits platform * platform.wordBytes := by
  rw [result_ofBitCount]
  split
  · next hlarge => simp [hlarge]
  · next hsmall => simp [hsmall]

theorem ofByteCount_refused_iff :
    (∃ error, (ofByteCount length platform).result = .error error) ↔
      length < 0 ∨ platform.maxWord < length := by
  rw [result_ofByteCount]
  split
  · next hneg => simp [hneg]
  · next hpos =>
    have hlt_iff : (platform.maxWord : Int) < length ↔ platform.maxWord < length.toNat := by omega
    rw [hlt_iff]
    split
    · next hlarge => simp [hlarge]
    · next hsmall => simp [hpos, hsmall]

theorem ofBitCount_of_le
    (hle : wordsForBits bits platform * platform.wordBytes ≤ platform.maxWord) :
    (ofBitCount bits platform).result = .ok (single s!"Bits{bits}" s!"f{0}"
      ⟨.words, wordsForBits bits platform, platform,
        wordsForBits bits platform * platform.wordBytes⟩) := by
  rw [result_ofBitCount, if_neg (Nat.not_lt.2 hle)]

theorem ofByteCount_of_le (hpos : 0 ≤ length) (hle : length ≤ platform.maxWord) :
    (ofByteCount length platform).result = .ok (single s!"Bytes{length}" s!"f{0}"
      ⟨.bytes, length.toNat, platform, length.toNat⟩) := by
  rw [result_ofByteCount, if_neg (Int.not_lt.2 hpos), if_neg (by omega)]

/-- **Ready-made types have exact sizes.**  Vectors of bits and ranges of bytes come out the same
with 64-bit numbers alone as with exact ones.  The words of a vector of bits take the least multiple
of the word size that has room for the bits; the vector is refused exactly if this size is more than
a word holds, and otherwise has this size and the alignment of a word.  A range of bytes is refused
exactly if its length is below zero or more than a word holds, and otherwise has this length and the
alignment of a byte. -/
theorem shapes_sized_exactly (bits : UInt64) (length : Int64) (platform : Platform) :
    let limit : Nat := 1 <<< (8 * platform.wordBytes) - 1
    ofBitCount64 bits platform = ofBitCount bits.toNat platform ∧
      ofByteCount64 length platform = ofByteCount length.toInt platform ∧
      (∃ size, IsLeast {size | platform.wordBytes ∣ size ∧ bits.toNat ≤ 8 * size} size ∧
        (bitWords64 bits platform).toInt * platform.wordBytes = size ∧
        ((∃ error, (ofBitCount bits.toNat platform).result = .error error) ↔ limit < size) ∧
        (size ≤ limit → ∃ type, (ofBitCount bits.toNat platform).result = .ok type ∧
          type.fields.length = 1 ∧ type.byteSize = size ∧ type.alignment = platform.wordBytes)) ∧
      ((∃ error, (ofByteCount length.toInt platform).result = .error error) ↔
        length.toInt < 0 ∨ limit < length.toInt) ∧
      (0 ≤ length.toInt → length.toInt ≤ limit →
        ∃ type, (ofByteCount length.toInt platform).result = .ok type ∧
          type.fields.length = 1 ∧ type.byteSize = length.toInt ∧ type.alignment = 1) := by
  intro limit
  refine ⟨ofBitCount64_eq bits platform, ofByteCount64_eq length platform,
    ⟨_, isLeast_wordsForBits bits.toNat platform, ?_, ofBitCount_refused_iff, fun hle => ?_⟩,
    ofByteCount_refused_iff, fun hpos hle => ?_⟩
  · rw [toInt_bitWords64, Int.natCast_mul]
  · exact ⟨_, ofBitCount_of_le hle, rfl, rfl, rfl⟩
  · exact ⟨_, ofByteCount_of_le hpos hle, rfl, Int.toNat_of_nonneg hpos, rfl⟩

/-- The largest vector of bits and the largest range of bytes for words of two bytes, and what is
refused for one bit or one byte more. -/
theorem shapes_sized_exactly_largest :
    (∃ type, (ofBitCount 524272 .bits16).result = .ok type ∧
        type.fields.length = 1 ∧ type.byteSize = 65534 ∧ type.alignment = 2) ∧
      (∃ error, (ofBitCount 524273 .bits16).result = .error error) ∧
      (∃ type, (ofByteCount 65535 .bits16).result = .ok type ∧
        type.fields.length = 1 ∧ type.byteSize = (65535 : Int) ∧ type.alignment = 1) ∧
      ∃ error, (ofByteCount 65536 .bits16).result = .error error := by
  obtain ⟨-, -, ⟨size, -, hsize, -, hvector⟩, -, hrange⟩ :=
    shapes_sized_exactly 524272 65535 .bits16
  obtain ⟨-, -, ⟨more, -, hmore, hvectorRefused, -⟩, hrangeRefused, -⟩ :=
    shapes_sized_exactly 524273 65536 .bits16
  obtain rfl : 65534 = size := Int.ofNat.inj hsize
  obtain rfl : 65536 = more := Int.ofNat.inj hmore
  exact ⟨hvector (by decide), hvectorRefused.2 (by decide), hrange (by decide) (by decide),
    hrangeRefused.2 (by decide)⟩

end UnboxedType

end UnboxedRecords
