import UnboxedRecords.Alignment
import UnboxedRecords.DeclError
import UnboxedRecords.Outcome

/-!
# Raw-storage specifications

A `RawSpec` says how many raw bytes one field occupies.  Its length is given in words or in bytes
and turned into a byte count once, by `RawSpec.declare`, which refuses lengths below zero and word
counts whose bytes the platform cannot address.  A length in bytes is taken as it is.
-/

namespace UnboxedRecords

namespace LengthUnit

/-- The unit that a word names, or a refusal that quotes the word. -/
def parse (name : String) : Except DeclError LengthUnit :=
  match ofName? name with
  | some unit => .ok unit
  | none => .error (.invalidSpec (.unknownUnit name))

/-- The unit that a number stands for, or a refusal that quotes the number. -/
def ofTag (tag : Nat) : Except DeclError LengthUnit :=
  match ofTag? tag with
  | some unit => .ok unit
  | none => .error (.invalidSpec (.unknownUnit (toString tag)))

end LengthUnit

/-- The size specification of one field of raw storage. -/
structure RawSpec where
  /-- The unit in which the length is given. -/
  unit : LengthUnit
  /-- The declared length. -/
  length : Nat
  /-- The platform for which the storage was declared. -/
  platform : Platform
  /-- The size in bytes, settled when the storage was declared. -/
  byteSize : Nat
deriving DecidableEq, Repr

namespace RawSpec

/-- Declare raw storage of `length` units. -/
def declare (unit : LengthUnit) (length : Int) (platform : Platform) : Logged DeclError RawSpec :=
  if length < 0 then
    .fail (.invalidSpec (.negativeLength length))
  else
    let units := length.toNat
    let unitBytes := unit.width platform
    let byteSize := units * unitBytes
    if unit = .words ∧ platform.maxWord < byteSize then
      .fail (.invalidSpec (.exceedsAddressSpace units unitBytes platform.maxWord))
    else
      .ok ⟨unit, units, platform, byteSize⟩ [.declared unit units byteSize platform]

/-- Declare `length` machine words of storage. -/
def words (length : Int) (platform : Platform) : Logged DeclError RawSpec :=
  declare .words length platform

/-- Declare `length` bytes of storage. -/
def bytes (length : Int) (platform : Platform) : Logged DeclError RawSpec :=
  declare .bytes length platform

/-- The alignment that the storage asks for: that of a word for storage counted in words, and none
to speak of for storage counted in bytes, whatever its length. -/
def alignment (spec : RawSpec) : Nat := spec.unit.width spec.platform

/-- The size in bytes that the same length has on `platform`.  On the platform of the declaration
it is the settled size; elsewhere it is computed anew and stops at the largest 64-bit number. -/
def byteSizeOn (spec : RawSpec) (platform : Platform) : Nat :=
  if platform = spec.platform then spec.byteSize
  else min (spec.length * spec.unit.width platform) (addressLimit - 1)

instance : ToString RawSpec := ⟨fun spec => s!"raw[{spec.length} {spec.unit}]"⟩

theorem alignment_pos (spec : RawSpec) : 0 < spec.alignment :=
  spec.unit.width_pos spec.platform

/-- What a successful declaration records. -/
theorem eq_of_declare {unit : LengthUnit} {length : Int} {platform : Platform} {spec : RawSpec}
    (h : (declare unit length platform).result = .ok spec) :
    spec = ⟨unit, length.toNat, platform, length.toNat * unit.width platform⟩ := by
  unfold declare at h
  split at h
  · simp at h
  · dsimp only at h
    split at h
    · simp at h
    · simpa using h.symm

end RawSpec

end UnboxedRecords
