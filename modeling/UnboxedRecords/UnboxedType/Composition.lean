import UnboxedRecords.UnboxedType.Basic

/-!
# Composition of unboxed types

`UnboxedType.compose` takes declared fields in order and lays them out one after the other, each at
the end of the one before it.  A field is refused if it is a reference, if it was made for another
platform, if its name is taken, or if the type would outgrow its limit, and the reasons are looked
for in this order.  The first field refused refuses the whole type.

A field that ends up at an offset its alignment does not divide is accepted with a warning.

`UnboxedType.placeNext_eq_ok` says what an accepted field looks like and what it passed.
-/

namespace UnboxedRecords

/-- The rules under which types are composed. -/
structure CompositionRules where
  /-- The platform for which types are composed. -/
  platform : Platform := .native
  /-- A cap on the size of a type in bytes, if there is one besides what can be addressed. -/
  maxTypeBytes : Option Nat := none
deriving DecidableEq, Repr

/-- The largest size in bytes that a composed type may have. -/
def CompositionRules.sizeLimit (rules : CompositionRules) : Nat :=
  match rules.maxTypeBytes with
  | some cap => min cap rules.platform.maxWord
  | none => rules.platform.maxWord

/-- What a field is declared to hold. -/
inductive DeclaredKind where
  /-- Raw storage of a fixed size. -/
  | raw (spec : RawSpec)
  /-- An unboxed type, to be laid out inside. -/
  | nested (type : UnboxedType)
  /-- A reference to a heap object of the type `referent`, which no unboxed type may hold. -/
  | reference (referent : String)

/-- A field as it is declared, before it has a place. -/
structure FieldDecl where
  /-- The name of the field. -/
  name : String
  /-- What the field is to hold. -/
  kind : DeclaredKind

/-- What the field will hold, if it may be part of an unboxed type at all. -/
def FieldDecl.fieldKind (decl : FieldDecl) : Except CompositionViolation FieldKind :=
  match decl.kind with
  | .raw spec => .ok (.raw spec)
  | .nested type => .ok (.nested type)
  | .reference referent => .error (.referenceField decl.name referent)

namespace UnboxedType

/-- The type without fields, with which a composition starts. -/
def empty (name : String) (platform : Platform) : UnboxedType := ⟨name, platform, [], 0, 1⟩

/-- The type with one more field at its end. -/
def append (type : UnboxedType) (field : Field) : UnboxedType :=
  { type with
    fields := type.fields ++ [field]
    byteSize := type.byteSize + field.byteSize
    alignment := max type.alignment field.kind.alignment }

/-- The place of one more field at the end of the type composed so far, or the reason why the field
is refused. -/
def placeNext (type : UnboxedType) (limit : Nat) (decl : FieldDecl) :
    Except CompositionViolation Field :=
  match decl.fieldKind with
  | .error violation => .error violation
  | .ok kind =>
    if kind.platform ≠ type.platform then
      .error (.platformMismatch decl.name type.platform.wordBytes kind.platform.wordBytes)
    else if type.fields.any (·.name == decl.name) then
      .error (.duplicateField decl.name)
    else if limit < type.byteSize + kind.byteSize then
      .error (.sizeOverflow limit)
    else
      .ok ⟨decl.name, kind, type.byteSize, kind.byteSize⟩

end UnboxedType

/-- The warning about a field of the type `type` that is not aligned where it sits, if so. -/
def Field.warnings (field : Field) (type : String) : List Event :=
  if field.isAligned then []
  else [.misaligned type field.name field.kind.alignment field.offset]

namespace UnboxedType

/-- The type with all of `decls` at its end. -/
def appendAll (type : UnboxedType) (limit : Nat) :
    List FieldDecl → Logged CompositionViolation UnboxedType
  | [] => .ok type
  | decl :: decls =>
    match type.placeNext limit decl with
    | .error violation => .fail violation
    | .ok field =>
      (Logged.ok () (field.warnings type.name)).andThen fun () =>
        (type.append field).appendAll limit decls

/-- The unboxed type called `name` with the fields `decls`, in this order and without padding. -/
def compose (name : String) (decls : List FieldDecl) (rules : CompositionRules) :
    Logged DeclError UnboxedType :=
  (((empty name rules.platform).appendAll rules.sizeLimit decls).mapError
    (.illegalComposition name)).andThen fun type => .ok type [.composed type.summary]

@[simp] theorem fields_append (type : UnboxedType) (field : Field) :
    (type.append field).fields = type.fields ++ [field] := rfl

@[simp] theorem byteSize_append (type : UnboxedType) (field : Field) :
    (type.append field).byteSize = type.byteSize + field.byteSize := rfl

@[simp] theorem alignment_append (type : UnboxedType) (field : Field) :
    (type.append field).alignment = max type.alignment field.kind.alignment := rfl

/-- What a placed field looks like, and what was checked before it was placed. -/
theorem placeNext_eq_ok {type : UnboxedType} {limit : Nat} {decl : FieldDecl} {field : Field}
    (h : type.placeNext limit decl = .ok field) :
    decl.fieldKind = .ok field.kind ∧ field.kind.platform = type.platform ∧
      type.fields.any (·.name == decl.name) = false ∧
      type.byteSize + field.kind.byteSize ≤ limit ∧
      field = ⟨decl.name, field.kind, type.byteSize, field.kind.byteSize⟩ := by
  unfold placeNext at h
  split at h
  · simp at h
  · next kind hk =>
    split at h
    · simp at h
    · next hp =>
      split at h
      · simp at h
      · next hd =>
        split at h
        · simp at h
        · next hs =>
          cases h
          exact ⟨hk, by simpa using hp, by simpa using hd, by simpa using hs, rfl⟩

end UnboxedType

end UnboxedRecords
