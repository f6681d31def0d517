import UnboxedRecords.Memory.Segment
import UnboxedRecords.Outcome

/-!
# Arenas

An arena gives out bytes from segments of one size.  It starts with one segment; when the last
segment has no room left, a fresh one is put behind it, up to a limit.  What is given out never
spans two segments, and the rest of a segment that was left behind is never used again.

A request that is refused leaves the arena as it was (`Arena.state_alloc_of_error`).
-/

namespace UnboxedRecords

/-- Why memory is not given out, read or written. -/
inductive MemoryError where
  /-- The bytes asked for do not fit what there may be. -/
  | capacityExceeded (requested capacity : Nat)
  /-- The shape of the memory does not admit the access. -/
  | fault (fault : Fault)
deriving DecidableEq, Repr

/-- The place of bytes that were given out. -/
structure Position where
  /-- The number of the segment. -/
  segment : Nat
  /-- The offset inside the segment. -/
  offset : Nat
deriving DecidableEq, Repr

/-- A position whose segment number fits in 16 bits and whose offset fits in 32 bits. -/
def Position.make (segment offset : Nat) : Except Fault Position :=
  match narrow 16 segment, narrow 32 offset with
  | .ok segment, .ok offset => .ok ⟨segment, offset⟩
  | .error fault, _ => .error fault
  | _, .error fault => .error fault

/-- Segments of one size, the last of which is being filled. -/
structure Arena where
  /-- The segments in the order of their making. -/
  segments : Array Segment
  /-- The size of every segment in bytes. -/
  segmentBytes : Nat
  /-- The number of segments beyond which none is added. -/
  maxSegments : Nat
  /-- The number of the segment that is being filled. -/
  current : Nat
deriving DecidableEq

namespace Arena

/-- An arena with one segment, even where `maxSegments` is nought. -/
def create (segmentBytes : UInt32) (maxSegments : UInt16) : Arena where
  segments := #[Segment.zeroed segmentBytes.toNat]
  segmentBytes := segmentBytes.toNat
  maxSegments := maxSegments.toNat
  current := 0

/-- The number of bytes in all segments together. -/
def capacity (arena : Arena) : Nat := arena.segments.size * arena.segmentBytes

/-- The arena with `length` zero bytes given out at `offset` of the segment being filled. -/
def claim (arena : Arena) (offset length : Nat) : Arena :=
  match arena with
  | ⟨segments, segmentBytes, maxSegments, current⟩ =>
    ⟨segments.modify current (·.claim offset length), segmentBytes, maxSegments, current⟩

/-- The arena with one more segment, which is the one to be filled from then on, and in which
`length` bytes are given out at `offset`. -/
def grow (arena : Arena) (offset length : Nat) : Arena :=
  match arena with
  | ⟨segments, segmentBytes, maxSegments, _⟩ =>
    ⟨segments.push ((Segment.zeroed segmentBytes).claim offset length), segmentBytes, maxSegments,
      segments.size⟩

/-- Where the next `length` bytes aligned to `align` start in the segment being filled, if there is
room for them. -/
def fit? (arena : Arena) (length align : Nat) : Option Nat :=
  match arena.segments[arena.current]? with
  | some segment => segment.fit? length align
  | none => none

/-- Give out `length` bytes at a multiple of the power of two `align`. -/
def alloc (arena : Arena) (length align : Nat) : Outcome Arena MemoryError Position :=
  if arena.segmentBytes < length ∨ arena.segmentBytes < align then
    .fail arena (.capacityExceeded length arena.segmentBytes)
  else
    match arena.fit? length align with
    | some offset =>
      match Position.make arena.current offset with
      | .ok position => .ok (arena.claim offset length) position
      | .error fault => .fail arena (.fault fault)
    | none =>
      if arena.maxSegments ≤ arena.segments.size then
        .fail arena (.capacityExceeded length arena.capacity)
      else
        match (Segment.zeroed arena.segmentBytes).fit? length align with
        | some offset =>
          match Position.make arena.segments.size offset with
          | .ok position => .ok (arena.grow offset length) position
          | .error fault => .fail arena (.fault fault)
        | none => .fail arena (.capacityExceeded length arena.segmentBytes)

/-- A request that is refused leaves no trace. -/
theorem state_alloc_of_error {arena : Arena} {length align : Nat} {error : MemoryError}
    (h : (arena.alloc length align).result = .error error) :
    (arena.alloc length align).state = arena := by
  unfold alloc at h ⊢
  split
  · rfl
  · split
    · split
      · simp_all
      · rfl
    · split
      · rfl
      · split
        · split
          · simp_all
          · rfl
        · rfl

/-- The `length` bytes at a place. -/
def read (arena : Arena) (place : Position) (length : Nat) : Except Fault (List UInt8) :=
  match arena.segments[place.segment]? with
  | some segment => segment.read place.offset length
  | none => .error (.noSegment place.segment)

/-- Why the `length` bytes at a place cannot be accessed, if they cannot. -/
def fault? (arena : Arena) (place : Position) (length : Nat) : Option Fault :=
  match arena.segments[place.segment]? with
  | some segment =>
    if segment.covers place.offset length then none
    else some (.outOfBounds place.offset length segment.size)
  | none => some (.noSegment place.segment)

/-- The arena with `bytes` at a place, where there has to be room for them. -/
def put (arena : Arena) (place : Position) (bytes : List UInt8) : Arena :=
  match arena with
  | ⟨segments, segmentBytes, maxSegments, current⟩ =>
    ⟨segments.modify place.segment (·.put place.offset bytes), segmentBytes, maxSegments, current⟩

/-- Write `bytes` at a place. -/
def write (arena : Arena) (place : Position) (bytes : List UInt8) : Outcome Arena Fault Unit :=
  match arena.fault? place bytes.length with
  | some fault => .fail arena fault
  | none => .ok (arena.put place bytes) ()

end Arena

end UnboxedRecords
