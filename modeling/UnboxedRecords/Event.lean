import UnboxedRecords.RawStorage.LengthUnit

/-!
# Events

What the library tells while it works: storage that was declared, fields that sit at offsets their
alignment does not divide, types and layouts that were finished, objects that were allocated.  An
event carries the facts; its level and its wording are functions of it.
-/

namespace UnboxedRecords

/-- How much attention an event asks for. -/
inductive Level where
  /-- Legal, but probably not what was meant. -/
  | warn
  /-- Progress while types and layouts are being defined. -/
  | debug
  /-- Progress while objects are being allocated. -/
  | trace
deriving DecidableEq, Repr

instance : ToString Level :=
  ⟨fun level => match level with
    | .warn => "WARN"
    | .debug => "DEBUG"
    | .trace => "TRACE"⟩

/-- The figures by which an unboxed type is reported. -/
structure TypeSummary where
  /-- The name of the type. -/
  name : String
  /-- The size of the type in bytes. -/
  byteSize : Nat
  /-- The alignment of the type. -/
  alignment : Nat
  /-- The number of its fields. -/
  fieldCount : Nat
deriving DecidableEq, Repr

instance : ToString TypeSummary :=
  ⟨fun t => s!"{t.name} ({t.byteSize} bytes, align {t.alignment}, {t.fieldCount} fields)"⟩

/-- The figures by which a record layout is reported. -/
structure LayoutSummary where
  /-- The name of the record. -/
  name : String
  /-- The size of an instance in bytes. -/
  size : Nat
  /-- The alignment of an instance. -/
  alignment : Nat
  /-- The number of reference slots. -/
  referenceCount : Nat
  /-- The number of byte ranges that hold raw storage. -/
  rawCount : Nat
deriving DecidableEq, Repr

instance : ToString LayoutSummary :=
  ⟨fun l => s!"{l.name} ({l.size} bytes, align {l.alignment}, {l.referenceCount} refs, " ++
    s!"{l.rawCount} opaque)"⟩

/-- Something worth telling that happened on the way to a result. -/
inductive Event where
  /-- Raw storage was declared. -/
  | declared (unit : LengthUnit) (length byteSize : Nat) (platform : Platform)
  /-- A field was placed at an offset that its alignment does not divide. -/
  | misaligned (type field : String) (alignment offset : Nat)
  /-- A type was composed. -/
  | composed (type : TypeSummary)
  /-- A type was entered into a registry under a number. -/
  | defined (id : Nat) (type : TypeSummary)
  /-- A record layout was finished. -/
  | layoutBuilt (layout : LayoutSummary)
  /-- An object was allocated. -/
  | allocated (object : Nat) (layout : String) (segment offset : Nat)
deriving DecidableEq, Repr

namespace Event

/-- The attention that an event asks for. -/
def level : Event → Level
  | misaligned .. => .warn
  | declared .. | composed .. | defined .. | layoutBuilt .. => .debug
  | allocated .. => .trace

/-- The wording of an event. -/
def text : Event → String
  | declared unit length byteSize platform =>
    s!"declared raw storage of {length} {unit} ({byteSize} bytes) for {platform}"
  | misaligned type field alignment offset =>
    s!"{type}.{field} needs {alignment}-byte alignment but sits at offset {offset}"
  | composed t =>
    s!"composed unboxed type {t.name}: {t.fieldCount} fields, {t.byteSize} bytes, " ++
      s!"align {t.alignment}"
  | defined id t => s!"defined unboxed type {id}: {t}"
  | layoutBuilt l => s!"built record layout {l}"
  | allocated object layout segment offset =>
    s!"allocated #{object} of {layout} at segment {segment} offset {offset}"

/-- The line of a log that records an event. -/
def line (event : Event) : String := s!"{event.level} {event.text}"

end Event

end UnboxedRecords
