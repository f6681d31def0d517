import UnboxedRecords.UnboxedType.Equality

/-!
# Record layouts

A record layout describes a heap object as a list of named slots.  A reference slot holds one word
that names another object; it is the only part of a record that a scanner reads.  All other slots
hold raw storage, and the byte ranges they cover are never scanned.

The offsets of the reference slots (the scan map) and the ranges of raw storage are stored beside
the slots from which they were taken.
-/

namespace UnboxedRecords

/-- The bytes from `start` up to, and not including, `stop`. -/
structure Span where
  /-- The first byte of the range. -/
  start : Nat
  /-- The byte after the range. -/
  stop : Nat
deriving DecidableEq, Repr

/-- Whether the byte at `offset` is in the range. -/
def Span.contains (span : Span) (offset : Nat) : Bool :=
  span.start ≤ offset && offset < span.stop

theorem Span.contains_iff {span : Span} {offset : Nat} :
    span.contains offset = true ↔ span.start ≤ offset ∧ offset < span.stop := by
  simp [Span.contains]

/-- What a slot of a record holds. -/
inductive SlotKind where
  /-- A reference to another object, one word wide. -/
  | reference
  /-- Raw bytes of which nothing more is known. -/
  | raw
  /-- The raw bytes of an unboxed type. -/
  | embedded (type : UnboxedType)
deriving DecidableEq

/-- Whether a scanner has to pass over the slot. -/
def SlotKind.isRaw : SlotKind → Bool
  | reference => false
  | raw | embedded _ => true

/-- A slot of a record at its place. -/
structure Slot where
  /-- The name of the slot. -/
  name : String
  /-- What the slot holds. -/
  kind : SlotKind
  /-- The byte offset from the start of the record. -/
  offset : Nat
  /-- The size of the slot in bytes. -/
  size : Nat
deriving DecidableEq

/-- The bytes that the slot covers. -/
def Slot.span (slot : Slot) : Span := ⟨slot.offset, slot.offset + slot.size⟩

/-- The layout of a kind of heap object. -/
structure RecordLayout where
  /-- The name of the kind of object. -/
  name : String
  /-- The platform for which the record was laid out. -/
  platform : Platform
  /-- The slots in the order of their placement. -/
  slots : List Slot
  /-- The size of an instance in bytes, padding at its end included. -/
  size : Nat
  /-- The alignment of the most aligned slot. -/
  alignment : Nat
  /-- The offset of every reference slot, in the order of placement. -/
  scanMap : List Nat
  /-- The byte ranges that hold raw storage, in the order of placement. -/
  rawSpans : List Span

namespace RecordLayout

/-- The slot called `name`. -/
def slot? (layout : RecordLayout) (name : String) : Option Slot :=
  layout.slots.find? (·.name == name)

/-- Whether the byte at `offset` lies inside raw storage. -/
def isRawAt (layout : RecordLayout) (offset : Nat) : Bool :=
  layout.rawSpans.any (·.contains offset)

/-- The figures by which the layout is reported. -/
def summary (layout : RecordLayout) : LayoutSummary :=
  ⟨layout.name, layout.size, layout.alignment, layout.scanMap.length,
    layout.rawSpans.length⟩

instance : ToString RecordLayout := ⟨fun layout => toString layout.summary⟩

/-- Whether two layouts have the same slots under the same names, in whatever order. -/
def slotsAgree (a b : RecordLayout) : Bool :=
  a.slots.length == b.slots.length && a.slots.all fun slot => b.slot? slot.name == some slot

/-- Layouts are compared in everything they store; only the order of the slots is left out of
account. -/
instance : BEq RecordLayout :=
  ⟨fun a b => a.name == b.name && a.platform == b.platform && a.slotsAgree b && a.size == b.size &&
    a.alignment == b.alignment && a.scanMap == b.scanMap &&
    a.rawSpans == b.rawSpans⟩

end RecordLayout

end UnboxedRecords
