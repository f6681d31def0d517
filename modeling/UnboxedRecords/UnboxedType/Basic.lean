import UnboxedRecords.RawStorage.RawSpec

/-!
# Unboxed types

An unboxed type is a flat layout of named fields, each of them raw storage or an unboxed type nested
inside.  There is no case for a reference, so nothing inside such a type can refer to a heap object
at any depth.

Size, alignment and offsets are stored, not computed on demand: they are settled by composition
(`UnboxedType.compose`).  `UnboxedType.isOpaque` asks whether a scanner may leave a type alone, and
`UnboxedType.isOpaque_eq_true` says that it always may.
-/

namespace UnboxedRecords

mutual

/-- A type made of raw storage, laid out without padding. -/
structure UnboxedType where
  /-- The name given to the type. -/
  name : String
  /-- The platform for which the type was composed. -/
  platform : Platform
  /-- The fields in the order of their declaration. -/
  fields : List Field
  /-- The size of the type in bytes. -/
  byteSize : Nat
  /-- The alignment of the most aligned field, and 1 if there are no fields. -/
  alignment : Nat

/-- A field of an unboxed type at its place. -/
structure Field where
  /-- The name of the field. -/
  name : String
  /-- What the field holds. -/
  kind : FieldKind
  /-- The byte offset from the start of the enclosing type. -/
  offset : Nat
  /-- The size of the field in bytes. -/
  byteSize : Nat

/-- What a field of an unboxed type holds. -/
inductive FieldKind where
  /-- Raw storage of a fixed size. -/
  | raw (spec : RawSpec)
  /-- An unboxed type, laid out inside the enclosing one. -/
  | nested (type : UnboxedType)

end

deriving instance Repr for UnboxedType, Field, FieldKind

instance : Inhabited UnboxedType := ⟨⟨"", default, [], 0, 1⟩⟩

namespace FieldKind

/-- The size in bytes of what the field holds. -/
def byteSize : FieldKind → Nat
  | raw spec => spec.byteSize
  | nested type => type.byteSize

/-- The alignment that the field asks for. -/
def alignment : FieldKind → Nat
  | raw spec => spec.alignment
  | nested type => type.alignment

/-- The platform for which the field was made. -/
def platform : FieldKind → Platform
  | raw spec => spec.platform
  | nested type => type.platform

instance : ToString FieldKind :=
  ⟨fun kind => match kind with
    | raw spec => toString spec
    | nested type => s!"type {type.name}"⟩

end FieldKind

/-- Whether the field starts at a multiple of its own alignment. -/
def Field.isAligned (field : Field) : Bool := field.offset % field.kind.alignment == 0

namespace UnboxedType

/-- The field called `name`. -/
def field? (type : UnboxedType) (name : String) : Option Field :=
  type.fields.find? (·.name == name)

/-- The offsets of the fields, in the order of their declaration. -/
def offsets (type : UnboxedType) : List Nat := type.fields.map (·.offset)

/-- The names of the fields that start at an offset their alignment does not divide.  They are
legal, but no placement of the whole type can mend them. -/
def misalignedFields (type : UnboxedType) : List String :=
  (type.fields.filter (!·.isAligned)).map (·.name)

/-- The figures by which the type is reported. -/
def summary (type : UnboxedType) : TypeSummary :=
  ⟨type.name, type.byteSize, type.alignment, type.fields.length⟩

instance : ToString UnboxedType := ⟨fun type => toString type.summary⟩

mutual

/-- Whether every byte of the type is raw storage that a scanner may leave alone.  The answer comes
from a walk over all fields at all depths. -/
def isOpaque : UnboxedType → Bool
  | ⟨_, _, fields, _, _⟩ => allOpaque fields

/-- Whether every byte of every field is raw storage. -/
def allOpaque : List Field → Bool
  | [] => true
  | ⟨_, .raw _, _, _⟩ :: fields => allOpaque fields
  | ⟨_, .nested type, _, _⟩ :: fields => type.isOpaque && allOpaque fields

end

mutual

/-- The walk never comes upon anything but raw storage. -/
theorem isOpaque_eq_true : (type : UnboxedType) → type.isOpaque = true
  | ⟨_, _, fields, _, _⟩ => by
    rw [isOpaque]
    exact allOpaque_eq_true fields

theorem allOpaque_eq_true : (fields : List Field) → allOpaque fields = true
  | [] => rfl
  | ⟨_, .raw _, _, _⟩ :: fields => by
    rw [allOpaque]
    exact allOpaque_eq_true fields
  | ⟨_, .nested type, _, _⟩ :: fields => by
    rw [allOpaque, isOpaque_eq_true type, allOpaque_eq_true fields]
    rfl

end

end UnboxedType

end UnboxedRecords
