import UnboxedRecords.Alignment
import UnboxedRecords.Outcome
import UnboxedRecords.UnboxedType.Region

/-!
# Packing regions

A packing puts regions back to back, each at the next multiple of its alignment, and keeps a list of
what it was asked to place.  It knows nothing of records, names need not be distinct, and there is
no limit to its size; it is what a layout amounts to when only raw storage is placed.
-/

namespace UnboxedRecords

/-- Why a region is not packed: the region called `name` holds something to be traced. -/
structure ScannableRegion where
  /-- The name of the refused region. -/
  name : String
deriving DecidableEq, Repr

/-- The wording of a refused region. -/
def ScannableRegion.message (e : ScannableRegion) : String := s!"region '{e.name}' is scannable"

/-- A region at its place. -/
structure Placement where
  /-- The name of the region. -/
  name : String
  /-- Where the region starts. -/
  offset : Nat
  /-- The number of bytes that it takes. -/
  size : Nat
  /-- The alignment at which it was placed. -/
  alignment : Nat
deriving DecidableEq, Repr

/-- Regions placed back to back. -/
structure Packing where
  /-- The end of the last region, and so the number of bytes in use, gaps included. -/
  used : Nat := 0
  /-- The regions in the order of their placement. -/
  placements : List Placement := []
deriving DecidableEq, Repr

/-- Put one more region behind the others.  The result is its offset. -/
def Packing.place (packing : Packing) (name : String) (region : Region) :
    Outcome Packing ScannableRegion Nat :=
  if !region.isOpaque then
    .fail packing ⟨name⟩
  else
    let align := region.placedAlignment
    let offset := alignUp packing.used align
    .ok ⟨offset + region.byteSize, packing.placements ++ [⟨name, offset, region.byteSize, align⟩]⟩
      offset

end UnboxedRecords
