import UnboxedRecords.Memory.Arena

/-!
# The bytes of an arena

An arena as a map from places to bytes: `Arena.byte?` is the byte at a place, and `Arena.bytesAt`
are the bytes of an extent, a stretch of places inside one segment.  Reading gives the bytes of the
extent if the arena covers it (`Arena.read_eq`), and changing memory is understood by what becomes
of the bytes: what is put somewhere is found there (`Arena.bytesAt_put`), and all other bytes stay
(`Arena.byte?_put_of_not_mem`).
-/

namespace UnboxedRecords

namespace Position

/-- The place that lies `count` bytes behind this one. -/
def shift (place : Position) (count : Nat) : Position := ⟨place.segment, place.offset + count⟩

@[simp] theorem segment_shift (place : Position) (count : Nat) :
    (place.shift count).segment = place.segment := rfl

@[simp] theorem offset_shift (place : Position) (count : Nat) :
    (place.shift count).offset = place.offset + count := rfl

theorem shift_shift (place : Position) (m n : Nat) :
    (place.shift m).shift n = place.shift (m + n) := by
  rw [shift, shift, shift, Nat.add_assoc]

/-- Positions that fit are made as they are. -/
theorem make_eq_ok {segment offset : Nat} (hsegment : segment < 1 <<< 16)
    (hoffset : offset < 1 <<< 32) :
    make segment offset = .ok ⟨segment, offset⟩ := by
  rw [make, narrow_eq_ok_iff.2 ⟨hsegment, rfl⟩, narrow_eq_ok_iff.2 ⟨hoffset, rfl⟩]

end Position

/-- A stretch of bytes inside one segment. -/
structure Extent where
  /-- The place of the first byte. -/
  start : Position
  /-- The number of bytes. -/
  length : Nat
deriving DecidableEq

namespace Extent

instance : Membership Position Extent :=
  ⟨fun extent place => place.segment = extent.start.segment ∧
    extent.start.offset ≤ place.offset ∧ place.offset < extent.start.offset + extent.length⟩

theorem mem_iff {extent : Extent} {place : Position} :
    place ∈ extent ↔ place.segment = extent.start.segment ∧
      extent.start.offset ≤ place.offset ∧ place.offset < extent.start.offset + extent.length :=
  Iff.rfl

instance (place : Position) (extent : Extent) : Decidable (place ∈ extent) :=
  decidable_of_iff _ mem_iff.symm

theorem shift_mem {extent : Extent} {i : Nat} (hi : i < extent.length) :
    extent.start.shift i ∈ extent :=
  ⟨rfl, Nat.le_add_right _ _, Nat.add_lt_add_left hi _⟩

/-- No byte is in both extents. -/
def Disjoint (a b : Extent) : Prop := ∀ place ∈ a, place ∉ b

theorem Disjoint.symm {a b : Extent} (h : a.Disjoint b) : b.Disjoint a :=
  fun place hb ha => h place ha hb

/-- Extents in different segments are disjoint. -/
theorem disjoint_of_segment_ne {a b : Extent} (h : a.start.segment ≠ b.start.segment) :
    a.Disjoint b :=
  fun _ ha hb => h (ha.1.symm.trans hb.1)

/-- An extent that ends before the other starts is disjoint from it. -/
theorem disjoint_of_le {a b : Extent} (h : a.start.offset + a.length ≤ b.start.offset) :
    a.Disjoint b := by
  intro place ha hb
  have hlt := ha.2.2
  have hle := hb.2.1
  omega

/-- Part of an extent: `length` bytes from the byte `skip` on. -/
def part (extent : Extent) (skip length : Nat) : Extent := ⟨extent.start.shift skip, length⟩

theorem mem_of_mem_part {extent : Extent} {skip length : Nat} {place : Position}
    (hpart : skip + length ≤ extent.length) (h : place ∈ extent.part skip length) :
    place ∈ extent := by
  obtain ⟨hsegment, hle, hlt⟩ := h
  simp only [part, Position.offset_shift] at hle hlt
  exact ⟨hsegment, by omega, by omega⟩

end Extent

namespace Arena

variable {arena other : Arena} {extent : Extent} {place : Position}

/-- The byte at a place, if the arena has one there. -/
def byte? (arena : Arena) (place : Position) : Option UInt8 :=
  arena.segments[place.segment]?.bind (·.bytes[place.offset]?)

/-- The bytes of an extent. -/
def bytesAt (arena : Arena) (extent : Extent) : List UInt8 :=
  (List.range extent.length).map fun i => (arena.byte? (extent.start.shift i)).getD 0

/-- The arena has all bytes of the extent. -/
def Covers (arena : Arena) (extent : Extent) : Prop :=
  ∃ segment, arena.segments[extent.start.segment]? = some segment ∧
    extent.start.offset + extent.length ≤ segment.size

@[simp] theorem length_bytesAt (arena : Arena) (extent : Extent) :
    (arena.bytesAt extent).length = extent.length := by
  simp [bytesAt]

theorem getElem?_bytesAt (arena : Arena) (extent : Extent) {i : Nat} (hi : i < extent.length) :
    (arena.bytesAt extent)[i]? = some ((arena.byte? (extent.start.shift i)).getD 0) := by
  simp [bytesAt, hi]

/-- The bytes of an extent depend on nothing outside it. -/
theorem bytesAt_congr (h : ∀ place ∈ extent, arena.byte? place = other.byte? place) :
    arena.bytesAt extent = other.bytesAt extent := by
  refine List.map_congr_left fun i hi => ?_
  rw [h _ (Extent.shift_mem (List.mem_range.1 hi))]

/-- The bytes of a part are a part of the bytes. -/
theorem bytesAt_part {skip length : Nat} (hpart : skip + length ≤ extent.length) :
    arena.bytesAt (extent.part skip length) = ((arena.bytesAt extent).drop skip).take length := by
  refine List.ext_getElem? fun i => ?_
  by_cases hi : i < length
  · rw [getElem?_bytesAt arena (extent.part skip length) hi, List.getElem?_take_of_lt hi,
      List.getElem?_drop, getElem?_bytesAt arena extent (by omega), Extent.part,
      Position.shift_shift]
  · rw [List.getElem?_eq_none, List.getElem?_eq_none]
    · simp only [List.length_take]
      omega
    · rw [length_bytesAt]
      exact Nat.le_of_not_lt hi

theorem Covers.part (h : arena.Covers extent) {skip length : Nat}
    (hpart : skip + length ≤ extent.length) : arena.Covers (extent.part skip length) := by
  obtain ⟨segment, hsegment, hle⟩ := h
  refine ⟨segment, hsegment, ?_⟩
  simp only [Extent.part, Position.offset_shift]
  omega

/-- Reading covered bytes. -/
theorem read_eq {length : Nat} (h : arena.Covers ⟨place, length⟩) :
    arena.read place length = .ok (arena.bytesAt ⟨place, length⟩) := by
  obtain ⟨segment, hsegment, hle⟩ := h
  have hcovers : segment.covers place.offset length = true := decide_eq_true hle
  have hsize : place.offset + length ≤ segment.bytes.size := hle
  rw [read]
  simp only [hsegment, Segment.read, hcovers, if_true, Except.ok.injEq]
  refine List.ext_getElem? fun i => ?_
  by_cases hi : i < length
  · have hlt : place.offset + i < segment.bytes.size := by omega
    rw [getElem?_bytesAt arena ⟨place, length⟩ hi, byte?, Position.segment_shift, hsegment]
    simp [hi, hlt]
  · rw [List.getElem?_eq_none (by simp; omega), List.getElem?_eq_none (by simp; omega)]

/-- An access to covered bytes is no fault. -/
theorem fault?_eq_none {length : Nat} (h : arena.Covers ⟨place, length⟩) :
    arena.fault? place length = none := by
  obtain ⟨segment, hsegment, hle⟩ := h
  have hcovers : segment.covers place.offset length = true := decide_eq_true hle
  rw [fault?]
  simp only [hsegment, hcovers, if_true]

theorem write_eq {bytes : List UInt8} (h : arena.Covers ⟨place, bytes.length⟩) :
    arena.write place bytes = .ok (arena.put place bytes) () := by
  rw [write, fault?_eq_none h]

/-! ## Bytes that were put somewhere -/

@[simp] theorem segmentBytes_put (arena : Arena) (place : Position) (bytes : List UInt8) :
    (arena.put place bytes).segmentBytes = arena.segmentBytes := rfl

@[simp] theorem maxSegments_put (arena : Arena) (place : Position) (bytes : List UInt8) :
    (arena.put place bytes).maxSegments = arena.maxSegments := rfl

@[simp] theorem current_put (arena : Arena) (place : Position) (bytes : List UInt8) :
    (arena.put place bytes).current = arena.current := rfl

@[simp] theorem size_segments_put (arena : Arena) (place : Position) (bytes : List UInt8) :
    (arena.put place bytes).segments.size = arena.segments.size :=
  Array.size_modify

theorem getElem?_put (arena : Arena) (place : Position) (bytes : List UInt8) (i : Nat) :
    (arena.put place bytes).segments[i]? =
      if place.segment = i then (arena.segments[i]?).map (·.put place.offset bytes)
      else arena.segments[i]? :=
  Array.getElem?_modify

/-- Bytes outside the extent that was written stay. -/
theorem byte?_put_of_not_mem {bytes : List UInt8} {elsewhere : Position}
    (h : elsewhere ∉ (⟨place, bytes.length⟩ : Extent)) :
    (arena.put place bytes).byte? elsewhere = arena.byte? elsewhere := by
  rw [byte?, byte?, getElem?_put]
  split
  · next hsegment =>
    rcases arena.segments[elsewhere.segment]? with _ | segment
    · rfl
    · -- the same segment, so the byte lies before the stretch or behind it
      rw [Option.map_some, Option.bind_some, Option.bind_some, Segment.put]
      rcases Nat.lt_or_ge elsewhere.offset place.offset with hlt | hge
      · exact getElem?_overwrite_of_lt hlt
      · refine getElem?_overwrite_of_le (Nat.le_of_not_lt fun hlt => ?_)
        exact h ⟨hsegment.symm, hge, hlt⟩
  · rfl

/-- What was put somewhere is found there. -/
theorem bytesAt_put {bytes : List UInt8} (h : arena.Covers ⟨place, bytes.length⟩) :
    (arena.put place bytes).bytesAt ⟨place, bytes.length⟩ = bytes := by
  obtain ⟨segment, hsegment, hle⟩ := h
  refine List.ext_getElem? fun i => ?_
  by_cases hi : i < bytes.length
  · rw [getElem?_bytesAt _ ⟨place, bytes.length⟩ hi, byte?, getElem?_put]
    simp only [Position.segment_shift, Position.offset_shift, if_true, hsegment, Option.map_some,
      Option.bind_some, Segment.put]
    rw [getElem?_overwrite hle hi, List.getElem?_eq_getElem hi, Option.getD_some]
  · rw [List.getElem?_eq_none (by simp; omega), List.getElem?_eq_none (by omega)]

end Arena

end UnboxedRecords
