import UnboxedRecords.RawStorage.RawSpec

/-!
# Exact sizes

`RawSpec.declare` works sizes out in exact numbers, while lengths come as signed 64-bit numbers and
sizes are unsigned ones.  `RawSpec.declare64` and `RawSpec.recomputed64` are the same computations
with 64-bit numbers alone: a length is read as unsigned once it is known not to be negative, the
product that is to be recorded is refused where it would wrap around (`checkedMul`), and the one for
another platform stops at the largest number (`saturatingMul`).

Both ways come to the same (`RawSpec.declare64_eq`, `RawSpec.toNat_recomputed64`).  Only a product
of words can be too large for 64 bits, and it is beyond what a word holds then, on every platform.
What was once declared has a size in 64 bits on all platforms
(`RawSpec.mul_width_lt_of_declare`), so the stop at the largest number is never reached.
-/

namespace UnboxedRecords

/-! ## Products of 64-bit numbers -/

/-- The largest 64-bit number. -/
def largest : UInt64 := .ofNat (addressLimit - 1)

/-- The product of two 64-bit numbers, or nothing where it would wrap around. -/
def checkedMul (a b : UInt64) : Option UInt64 :=
  if b ≠ 0 ∧ largest / b < a then none else some (a * b)

/-- The product of two 64-bit numbers, or the largest one where it would wrap around. -/
def saturatingMul (a b : UInt64) : UInt64 := (checkedMul a b).getD largest

theorem toNat_largest : largest.toNat = addressLimit - 1 := by decide

theorem toNat_mul_of_lt {a b : UInt64} (h : a.toNat * b.toNat < addressLimit) :
    (a * b).toNat = a.toNat * b.toNat := by
  rw [UInt64.toNat_mul]
  exact Nat.mod_eq_of_lt h

/-- The test by division finds out whether the exact product is a 64-bit number. -/
theorem checkedMul_eq (a b : UInt64) :
    checkedMul a b = if a.toNat * b.toNat < addressLimit then some (a * b) else none := by
  have hpos : 0 < addressLimit := Nat.two_pow_pos 64
  by_cases hzero : b = 0
  · subst hzero
    simp [checkedMul, hpos]
  · have hb : 0 < b.toNat := by
      refine Nat.pos_of_ne_zero fun h => hzero (UInt64.toNat_inj.1 ?_)
      rw [h]
      rfl
    have hwraps : largest / b < a ↔ ¬ a.toNat * b.toNat < addressLimit := by
      rw [UInt64.lt_iff_toNat_lt, UInt64.toNat_div, toNat_largest, Nat.div_lt_iff_lt_mul hb]
      omega
    simp only [checkedMul, ne_eq, hzero, not_false_eq_true, true_and, hwraps, ite_not]

theorem toNat_saturatingMul (a b : UInt64) :
    (saturatingMul a b).toNat = min (a.toNat * b.toNat) (addressLimit - 1) := by
  rw [saturatingMul, checkedMul_eq]
  split
  · next h =>
    rw [Option.getD_some, toNat_mul_of_lt h, Nat.min_eq_left (Nat.le_sub_one_of_lt h)]
  · next h =>
    rw [Option.getD_none, toNat_largest, Nat.min_eq_right (by omega)]

/-- A signed number that is not negative is the same as an unsigned one. -/
theorem toNat_toUInt64 {n : Int64} (h : 0 ≤ n.toInt) : n.toUInt64.toNat = n.toInt.toNat := by
  have hlt : n.toBitVec.toNat < 2 ^ 64 := n.toBitVec.isLt
  have hnat : n.toUInt64.toNat = n.toBitVec.toNat := rfl
  rw [← Int64.toInt_toBitVec, BitVec.toInt_eq_toNat_cond] at h ⊢
  rw [hnat]
  split at h
  · rw [if_pos ‹_›, Int.toNat_natCast]
  · omega

theorem LengthUnit.toNat_width (unit : LengthUnit) (platform : Platform) :
    (UInt64.ofNat (unit.width platform)).toNat = unit.width platform := by
  cases unit <;> cases platform <;> rfl

theorem Platform.toNat_maxWord (platform : Platform) :
    (UInt64.ofNat platform.maxWord).toNat = platform.maxWord := by
  cases platform <;> decide

namespace RawSpec

/-- The number of bytes of `units` units, if it is a number that may be declared. -/
def boundedBytes (unit : LengthUnit) (units : UInt64) (platform : Platform) : Option UInt64 :=
  (checkedMul units (.ofNat (unit.width platform))).filter fun bytes =>
    unit = .bytes || bytes ≤ .ofNat platform.maxWord

/-- Declare raw storage of `length` units, with 64-bit numbers alone. -/
def declare64 (unit : LengthUnit) (length : Int64) (platform : Platform) :
    Logged DeclError RawSpec :=
  if length < 0 then
    .fail (.invalidSpec (.negativeLength length.toInt))
  else
    let units := length.toUInt64
    match boundedBytes unit units platform with
    | none =>
      .fail (.invalidSpec (.exceedsAddressSpace units.toNat (unit.width platform) platform.maxWord))
    | some bytes =>
      .ok ⟨unit, units.toNat, platform, bytes.toNat⟩
        [.declared unit units.toNat bytes.toNat platform]

/-- The size in bytes that the length has on `platform`, computed anew with 64-bit numbers alone. -/
def recomputed64 (spec : RawSpec) (platform : Platform) : UInt64 :=
  saturatingMul (.ofNat spec.length) (.ofNat (spec.unit.width platform))

/-! ## Declaration -/

/-- Only a product of words can be too large for a 64-bit number. -/
theorem eq_words_of_le_mul {unit : LengthUnit} {units : UInt64} {platform : Platform}
    (h : addressLimit ≤ units.toNat * unit.width platform) : unit = .words := by
  cases unit with
  | words => rfl
  | bytes =>
    have hlt : units.toNat < addressLimit := units.toNat_lt
    rw [LengthUnit.width, Nat.mul_one] at h
    omega

/-- A number of bytes is refused exactly if, in exact numbers, it is one of words and more than a
word holds. -/
theorem map_boundedBytes (unit : LengthUnit) (units : UInt64) (platform : Platform) :
    (boundedBytes unit units platform).map UInt64.toNat =
      if unit = .words ∧ platform.maxWord < units.toNat * unit.width platform then none
      else some (units.toNat * unit.width platform) := by
  have hwidth := unit.toNat_width platform
  have hmax : platform.maxWord < addressLimit := platform.maxWord_lt
  rw [boundedBytes, checkedMul_eq, hwidth]
  by_cases hfits : units.toNat * unit.width platform < addressLimit
  · have hbytes : (units * .ofNat (unit.width platform)).toNat =
        units.toNat * unit.width platform := by
      rw [toNat_mul_of_lt (hwidth.symm ▸ hfits), hwidth]
    rw [if_pos hfits, Option.filter_some]
    simp only [UInt64.le_iff_toNat_le, hbytes, platform.toNat_maxWord]
    by_cases hlarge : platform.maxWord < units.toNat * unit.width platform
    · cases unit with
      | words => simp [Nat.not_le.2 hlarge, hlarge]
      | bytes => simp [hbytes]
    · simp [Nat.le_of_not_lt hlarge, hlarge, hbytes]
  · -- a product that would wrap around is one of words, and too large all the more
    have hwords : unit = .words := eq_words_of_le_mul (Nat.le_of_not_lt hfits)
    rw [if_neg hfits, if_pos ⟨hwords, by omega⟩]
    rfl

/-- Storage is declared alike with 64-bit and with exact numbers. -/
theorem declare64_eq (unit : LengthUnit) (length : Int64) (platform : Platform) :
    declare64 unit length platform = declare unit length.toInt platform := by
  have hneg : length < 0 ↔ length.toInt < 0 := Int64.lt_iff_toInt_lt
  unfold declare64 declare
  by_cases hlength : length.toInt < 0
  · rw [if_pos (hneg.2 hlength), if_pos hlength]
  · rw [if_neg fun h => hlength (hneg.1 h), if_neg hlength, ← toNat_toUInt64 (Int.not_lt.1 hlength)]
    have hmap := map_boundedBytes unit length.toUInt64 platform
    dsimp only
    split at hmap
    · next hlarge =>
      rw [Option.map_eq_none_iff] at hmap
      rw [hmap, if_pos hlarge]
    · next hsmall =>
      obtain ⟨bytes, hsome, hbytes⟩ := Option.map_eq_some_iff.1 hmap
      rw [hsome, if_neg hsmall, ← hbytes]

section

variable {unit : LengthUnit} {length : Int} {platform : Platform} {spec : RawSpec}

theorem declare_of_neg (h : length < 0) :
    declare unit length platform = .fail (.invalidSpec (.negativeLength length)) :=
  if_pos h

theorem declare_of_maxWord_lt (h : platform.maxWord < length.toNat * platform.wordBytes) :
    declare .words length platform = .fail (.invalidSpec
      (.exceedsAddressSpace length.toNat platform.wordBytes platform.maxWord)) := by
  have hpos : ¬ length < 0 := by
    intro hneg
    rw [Int.toNat_eq_zero.2 (Int.le_of_lt hneg), Nat.zero_mul] at h
    exact Nat.not_lt_zero _ h
  rw [declare, if_neg hpos]
  exact if_pos ⟨rfl, h⟩

theorem declare_of_le (hpos : 0 ≤ length)
    (h : unit = .words → length.toNat * platform.wordBytes ≤ platform.maxWord) :
    (declare unit length platform).result =
      .ok ⟨unit, length.toNat, platform, length.toNat * unit.width platform⟩ := by
  have hfits : ¬ (unit = .words ∧ platform.maxWord < length.toNat * unit.width platform) := by
    rintro ⟨rfl, hlarge⟩
    exact Nat.not_le.2 hlarge (h rfl)
  rw [declare, if_neg (Int.not_lt.2 hpos)]
  dsimp only
  rw [if_neg hfits]
  rfl

/-- What is declared, and when. -/
theorem declare_eq_ok_iff :
    (declare unit length platform).result = .ok spec ↔
      0 ≤ length ∧ (unit = .words → length.toNat * platform.wordBytes ≤ platform.maxWord) ∧
        spec = ⟨unit, length.toNat, platform, length.toNat * unit.width platform⟩ := by
  constructor
  · intro h
    refine ⟨Int.not_lt.1 fun hneg => ?_, ?_, eq_of_declare h⟩
    · rw [declare_of_neg hneg] at h
      cases h
    · rintro rfl
      refine Nat.le_of_not_lt fun hlarge => ?_
      rw [declare_of_maxWord_lt hlarge] at h
      cases h
  · rintro ⟨hpos, hfits, rfl⟩
    exact declare_of_le hpos hfits

/-- Why a declaration is refused. -/
theorem declare_eq_error_iff {error : DeclError} :
    (declare unit length platform).result = .error error ↔
      (length < 0 ∧ error = .invalidSpec (.negativeLength length)) ∨
      (unit = .words ∧ platform.maxWord < length.toNat * platform.wordBytes ∧
        error = .invalidSpec
          (.exceedsAddressSpace length.toNat platform.wordBytes platform.maxWord)) := by
  constructor
  · intro h
    by_cases hneg : length < 0
    · rw [declare_of_neg hneg] at h
      exact .inl ⟨hneg, (Except.error.inj h).symm⟩
    · by_cases hfits : unit = .words → length.toNat * platform.wordBytes ≤ platform.maxWord
      · rw [declare_of_le (Int.not_lt.1 hneg) hfits] at h
        cases h
      · obtain ⟨rfl, hlarge⟩ := Classical.not_imp.1 hfits
        rw [declare_of_maxWord_lt (Nat.not_le.1 hlarge)] at h
        exact .inr ⟨rfl, Nat.not_le.1 hlarge, (Except.error.inj h).symm⟩
  · rintro (⟨hneg, rfl⟩ | ⟨rfl, hlarge, rfl⟩)
    · rw [declare_of_neg hneg]
      rfl
    · rw [declare_of_maxWord_lt hlarge]
      rfl

end

/-! ## Sizes on all platforms -/

/-- So many words that a word holds the number of their bytes take fewer bytes than there are
addresses on every platform: a word of eight bytes bounds the words by an eighth of that, and a
narrower one bounds them by far more. -/
theorem mul_wordBytes_lt {length : Nat} {platform : Platform}
    (h : length * platform.wordBytes ≤ platform.maxWord) (other : Platform) :
    length * other.wordBytes < addressLimit := by
  have hlimit : addressLimit = 18446744073709551616 := rfl
  have hother : length * other.wordBytes ≤ length * 8 :=
    Nat.mul_le_mul_left length other.wordBytes_le_eight
  cases platform with
  | bits8 =>
    have hmax : length * 1 ≤ 255 := h
    omega
  | bits16 =>
    have hmax : length * 2 ≤ 65535 := h
    omega
  | bits32 =>
    have hmax : length * 4 ≤ 4294967295 := h
    omega
  | bits64 =>
    have hmax : length * 8 ≤ 18446744073709551615 := h
    omega

/-- Whatever was declared has a size in 64 bits on every platform. -/
theorem mul_width_lt_of_declare {unit : LengthUnit} {length : Int64} {platform : Platform}
    {spec : RawSpec} (h : (declare unit length.toInt platform).result = .ok spec)
    (other : Platform) : spec.length * spec.unit.width other < addressLimit := by
  obtain ⟨-, hfits, rfl⟩ := declare_eq_ok_iff.1 h
  cases unit with
  | words => exact mul_wordBytes_lt (hfits rfl) other
  | bytes =>
    -- no word bounds a number of bytes, but it was given as a signed one
    have hlength : length.toInt < 9223372036854775808 := length.toInt_lt
    have hlimit : addressLimit = 18446744073709551616 := rfl
    change length.toInt.toNat * 1 < addressLimit
    omega

theorem toNat_recomputed64 {spec : RawSpec} (h : spec.length < addressLimit) (other : Platform) :
    (spec.recomputed64 other).toNat =
      min (spec.length * spec.unit.width other) (addressLimit - 1) := by
  rw [recomputed64, toNat_saturatingMul, LengthUnit.toNat_width, UInt64.toNat_ofNat_of_lt' h]

/-- On the platform of the declaration the settled size is the one that would be computed anew. -/
theorem byteSizeOn_eq_min {unit : LengthUnit} {length : Int64} {platform : Platform}
    {spec : RawSpec} (h : (declare unit length.toInt platform).result = .ok spec)
    (other : Platform) :
    spec.byteSizeOn other = min (spec.length * spec.unit.width other) (addressLimit - 1) := by
  have hlt := mul_width_lt_of_declare h other
  rw [byteSizeOn, Nat.min_eq_left (Nat.le_sub_one_of_lt hlt)]
  split
  · next hother =>
    rw [hother, eq_of_declare h]
  · rfl

/-! ## Lengths as they are given -/

/-- A length that is taken for zero when it is below has a product beyond a bound only if the
length itself has. -/
theorem lt_toNat_mul_iff {limit width : Nat} {length : Int} :
    limit < length.toNat * width ↔ (limit : Int) < length * width := by
  by_cases hneg : length < 0
  · have hprod : length * width ≤ 0 :=
      Int.mul_nonpos_of_nonpos_of_nonneg (Int.le_of_lt hneg) (Int.natCast_nonneg width)
    rw [Int.toNat_eq_zero.2 (Int.le_of_lt hneg), Nat.zero_mul]
    omega
  · obtain ⟨units, rfl⟩ := Int.eq_ofNat_of_zero_le (Int.not_lt.1 hneg)
    rw [Int.toNat_natCast]
    exact_mod_cast Iff.rfl

/-- What is recorded of a length that is not below zero, in terms of the length itself. -/
theorem eq_mk_toNat_iff {spec : RawSpec} {unit : LengthUnit} {length : Int} {platform : Platform}
    (h : 0 ≤ length) :
    spec = ⟨unit, length.toNat, platform, length.toNat * unit.width platform⟩ ↔
      spec.unit = unit ∧ spec.length = length ∧ spec.platform = platform ∧
        spec.byteSize = length * unit.width platform := by
  obtain ⟨units, rfl⟩ := Int.eq_ofNat_of_zero_le h
  obtain ⟨_, _, _, _⟩ := spec
  rw [mk.injEq, Int.toNat_natCast]
  exact_mod_cast Iff.rfl

/-- **Sizes are exact.**  For every unit, 64-bit length and platform, declaring with 64-bit numbers
alone comes to the same as declaring with exact numbers; a length is refused for being below zero
exactly if it is, and for exceeding the address space exactly if it counts words whose bytes, in
exact numbers, are more than a word holds; and any other length is declared, with the exact number
of its bytes as the size.  The size that a declared length has on any platform, the one of the
declaration included, is the exact product up to the largest 64-bit number, is computed by 64-bit
numbers alone, and in fact never reaches beyond that number. -/
theorem sizes_are_exact (unit : LengthUnit) (length : Int64) (platform : Platform) :
    let limit : Nat := 1 <<< (8 * platform.wordBytes) - 1
    declare64 unit length platform = declare unit length.toInt platform ∧
      (∀ error, (declare unit length.toInt platform).result = .error error ↔
        (length.toInt < 0 ∧ error = .invalidSpec (.negativeLength length.toInt)) ∨
        (unit = .words ∧ limit < length.toInt * platform.wordBytes ∧
          error = .invalidSpec
            (.exceedsAddressSpace length.toInt.toNat platform.wordBytes limit))) ∧
      (∀ spec, (declare unit length.toInt platform).result = .ok spec ↔
        0 ≤ length.toInt ∧ (unit = .words → length.toInt * platform.wordBytes ≤ limit) ∧
          spec.unit = unit ∧ spec.length = length.toInt ∧ spec.platform = platform ∧
          spec.byteSize = length.toInt * unit.width platform) ∧
      ∀ spec, (declare unit length.toInt platform).result = .ok spec → ∀ other,
        spec.byteSizeOn other = min (spec.length * spec.unit.width other) (addressLimit - 1) ∧
        (spec.recomputed64 other).toNat = spec.byteSizeOn other ∧
        spec.length * spec.unit.width other < addressLimit := by
  intro limit
  refine ⟨declare64_eq unit length platform, fun error => ?_, fun spec => ?_,
    fun spec h other => ?_⟩
  · rw [declare_eq_error_iff, lt_toNat_mul_iff]
    rfl
  · rw [declare_eq_ok_iff, ← Nat.not_lt, lt_toNat_mul_iff, Int.not_lt]
    exact and_congr_right fun hpos => and_congr_right fun _ => eq_mk_toNat_iff hpos
  · have hlt := mul_width_lt_of_declare h other
    have hlength : spec.length < addressLimit :=
      Nat.lt_of_le_of_lt (Nat.le_mul_of_pos_right _ (spec.unit.width_pos other)) hlt
    have hsize := byteSizeOn_eq_min h other
    exact ⟨hsize, (toNat_recomputed64 hlength other).trans hsize.symm, hlt⟩

/-- The most words of eight bytes that can be declared, and one word more: in 64-bit numbers that
wrap around, that one would make all of them take no byte at all. -/
theorem sizes_are_exact_words :
    let most : RawSpec := ⟨.words, 2305843009213693951, .bits64, 18446744073709551608⟩
    (declare .words 2305843009213693951 .bits64).result = .ok most ∧
      (∀ other, most.byteSizeOn other =
        min (2305843009213693951 * other.wordBytes) (addressLimit - 1)) ∧
      (2305843009213693952 : UInt64) * 8 = 0 ∧
      (declare .words 2305843009213693952 .bits64).result = .error (.invalidSpec
        (.exceedsAddressSpace 2305843009213693952 8 18446744073709551615)) := by
  intro most
  have hmost : (declare .words 2305843009213693951 .bits64).result = .ok most :=
    ((sizes_are_exact .words 2305843009213693951 .bits64).2.2.1 most).2
      ⟨by decide, fun _ => by decide, rfl, rfl, rfl, rfl⟩
  refine ⟨hmost, fun other => ?_, rfl, ?_⟩
  · exact ((sizes_are_exact .words 2305843009213693951 .bits64).2.2.2 most hmost other).1
  · exact ((sizes_are_exact .words 2305843009213693952 .bits64).2.1 _).2
      (.inr ⟨rfl, by decide, rfl⟩)

end RawSpec

end UnboxedRecords
