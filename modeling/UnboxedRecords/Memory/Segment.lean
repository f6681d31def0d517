import UnboxedRecords.Alignment
import UnboxedRecords.Memory.Bytes

/-!
# Segments

A segment is a stretch of bytes of fixed size that is given out from the front: a cursor stands
behind the last byte given out and only ever moves forward.  Bytes are zero when they are given out,
whatever was written to them before.

Reading and writing are by offset and length.  What would lie outside the segment is a fault.
-/

namespace UnboxedRecords

/-- An access that the shape of the memory does not admit. -/
inductive Fault where
  /-- There is no segment of this number. -/
  | noSegment (index : Nat)
  /-- The bytes do not all lie inside the segment. -/
  | outOfBounds (offset length size : Nat)
  /-- A number needs more bits than there is room for. -/
  | tooWide (value bits : Nat)
  /-- The sum of two offsets is not a 32-bit number. -/
  | addressOverflow (base offset : Nat)
deriving DecidableEq, Repr

/-- The number itself, if it fits in so many bits. -/
def narrow (bits value : Nat) : Except Fault Nat :=
  if value < 1 <<< bits then .ok value else .error (.tooWide value bits)

theorem narrow_eq_ok_iff {bits value n : Nat} :
    narrow bits value = .ok n ↔ value < 1 <<< bits ∧ n = value := by
  unfold narrow
  split
  · next h => simp [h, eq_comm]
  · next h => simp [h]

/-- A stretch of bytes that is given out from the front. -/
structure Segment where
  /-- The bytes, given out or not. -/
  bytes : Array UInt8
  /-- The number of the first byte that is not given out. -/
  cursor : Nat
deriving DecidableEq

namespace Segment

/-- The number of bytes of the segment. -/
def size (segment : Segment) : Nat := segment.bytes.size

/-- A segment of `capacity` bytes, all zero and none given out. -/
def zeroed (capacity : Nat) : Segment := ⟨Array.replicate capacity 0, 0⟩

/-- Where the next `length` bytes aligned to the power of two `align` start, if there is room for
them. -/
def fit? (segment : Segment) (length align : Nat) : Option Nat :=
  match alignUp? segment.cursor align with
  | none => none
  | some start => if start + length ≤ segment.size then some start else none

/-- The segment with `length` zero bytes given out at `start`. -/
def claim (segment : Segment) (start length : Nat) : Segment :=
  match segment with
  | ⟨bytes, _⟩ => ⟨overwrite bytes start (List.replicate length 0), start + length⟩

/-- Give out `length` bytes at a multiple of the power of two `align`, with their offset. -/
def alloc (segment : Segment) (length align : Nat) : Option (Segment × Nat) :=
  (segment.fit? length align).map fun start => (segment.claim start length, start)

/-- Whether the segment has all of the `length` bytes at `offset`. -/
def covers (segment : Segment) (offset length : Nat) : Bool := offset + length ≤ segment.size

/-- The `length` bytes at `offset`. -/
def read (segment : Segment) (offset length : Nat) : Except Fault (List UInt8) :=
  if segment.covers offset length then
    .ok (segment.bytes.extract offset (offset + length)).toList
  else
    .error (.outOfBounds offset length segment.size)

/-- The segment with `bytes` at `offset`, where there has to be room for them. -/
def put (segment : Segment) (offset : Nat) (bytes : List UInt8) : Segment :=
  match segment with
  | ⟨old, cursor⟩ => ⟨overwrite old offset bytes, cursor⟩

/-- Write `bytes` at `offset`. -/
def write (segment : Segment) (offset : Nat) (bytes : List UInt8) : Except Fault Segment :=
  if segment.covers offset bytes.length then
    .ok (segment.put offset bytes)
  else
    .error (.outOfBounds offset bytes.length segment.size)

@[simp] theorem size_zeroed (capacity : Nat) : (zeroed capacity).size = capacity := by
  simp [zeroed, size]

@[simp] theorem cursor_zeroed (capacity : Nat) : (zeroed capacity).cursor = 0 := rfl

@[simp] theorem size_claim (segment : Segment) (start length : Nat) :
    (segment.claim start length).size = segment.size := by
  simp [claim, size]

@[simp] theorem size_put (segment : Segment) (offset : Nat) (bytes : List UInt8) :
    (segment.put offset bytes).size = segment.size := by
  simp [put, size]

end Segment

end UnboxedRecords
