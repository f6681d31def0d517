import UnboxedRecords.UnboxedType.Basic

/-!
# Inline regions

What the allocator of a record has to know about a piece of raw storage that is embedded in it: how
many bytes it takes, how it wants to be aligned, where its fields are, and whether a scanner may
leave it alone.  Unboxed types have such a description, and so may other things.
-/

namespace UnboxedRecords

/-- The facts about a region of bytes that is placed inside a record. -/
structure Region where
  /-- The number of bytes that an instance takes. -/
  byteSize : Nat
  /-- The alignment that the enclosing layout has to honour; nought asks for nothing. -/
  alignment : Nat
  /-- The offset of each field from the start of the region. -/
  fieldOffsets : List Nat := []
  /-- Whether no part of the region is ever to be read as a reference. -/
  isOpaque : Bool := true
deriving DecidableEq, Repr

/-- The region that an instance of the type takes inside a record. -/
def UnboxedType.region (type : UnboxedType) : Region where
  byteSize := type.byteSize
  alignment := type.alignment
  fieldOffsets := type.offsets
  isOpaque := type.isOpaque

/-- The alignment at which a region is placed: never less than one byte. -/
def Region.placedAlignment (region : Region) : Nat := max region.alignment 1

theorem Region.placedAlignment_pos (region : Region) : 0 < region.placedAlignment :=
  Nat.lt_of_lt_of_le Nat.one_pos (Nat.le_max_right _ _)

end UnboxedRecords
