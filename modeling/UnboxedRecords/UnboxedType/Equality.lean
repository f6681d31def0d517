import UnboxedRecords.UnboxedType.Basic

/-!
# Equality of unboxed types

Two unboxed types are equal when their names, platforms and stored figures agree and their fields
agree one by one in order, nested types by the same rule.  `UnboxedType.agrees` decides it by a walk
over both types at once; `UnboxedType.agrees_iff` says that the walk decides equality.
-/

namespace UnboxedRecords

namespace UnboxedType

mutual

/-- Whether two types agree in everything they store. -/
def agrees : UnboxedType → UnboxedType → Bool
  | ⟨name, platform, fields, byteSize, alignment⟩,
    ⟨name', platform', fields', byteSize', alignment'⟩ =>
    name == name' && platform == platform' && byteSize == byteSize' && alignment == alignment' &&
      fieldsAgree fields fields'

/-- Whether two lists of fields agree position by position. -/
def fieldsAgree : List Field → List Field → Bool
  | [], [] => true
  | ⟨name, .raw spec, offset, byteSize⟩ :: fields,
    ⟨name', .raw spec', offset', byteSize'⟩ :: fields' =>
    name == name' && spec == spec' && offset == offset' && byteSize == byteSize' &&
      fieldsAgree fields fields'
  | ⟨name, .nested type, offset, byteSize⟩ :: fields,
    ⟨name', .nested type', offset', byteSize'⟩ :: fields' =>
    name == name' && type.agrees type' && offset == offset' && byteSize == byteSize' &&
      fieldsAgree fields fields'
  | _, _ => false

end

mutual

theorem agrees_iff : (a b : UnboxedType) → (a.agrees b = true ↔ a = b)
  | ⟨name, platform, fields, byteSize, alignment⟩,
    ⟨name', platform', fields', byteSize', alignment'⟩ => by
    have ih := fieldsAgree_iff fields fields'
    simp only [agrees, Bool.and_eq_true, beq_iff_eq, ih, UnboxedType.mk.injEq]
    constructor
    · rintro ⟨⟨⟨⟨h₁, h₂⟩, h₃⟩, h₄⟩, h₅⟩
      exact ⟨h₁, h₂, h₅, h₃, h₄⟩
    · rintro ⟨h₁, h₂, h₅, h₃, h₄⟩
      exact ⟨⟨⟨⟨h₁, h₂⟩, h₃⟩, h₄⟩, h₅⟩

theorem fieldsAgree_iff : (fs gs : List Field) → (fieldsAgree fs gs = true ↔ fs = gs)
  | [], [] => by simp [fieldsAgree]
  | [], _ :: _ => by simp [fieldsAgree]
  | ⟨_, .raw _, _, _⟩ :: _, [] => by simp [fieldsAgree]
  | ⟨_, .nested _, _, _⟩ :: _, [] => by simp [fieldsAgree]
  | ⟨_, .raw _, _, _⟩ :: _, ⟨_, .nested _, _, _⟩ :: _ => by simp [fieldsAgree]
  | ⟨_, .nested _, _, _⟩ :: _, ⟨_, .raw _, _, _⟩ :: _ => by simp [fieldsAgree]
  | ⟨_, .raw _, _, _⟩ :: fs, ⟨_, .raw _, _, _⟩ :: gs => by
    have ih := fieldsAgree_iff fs gs
    simp [fieldsAgree, ih, and_assoc]
  | ⟨_, .nested a, _, _⟩ :: fs, ⟨_, .nested b, _, _⟩ :: gs => by
    have ih := fieldsAgree_iff fs gs
    have iht := agrees_iff a b
    simp [fieldsAgree, ih, iht, and_assoc]

end

instance : DecidableEq UnboxedType := fun a b => decidable_of_iff _ (agrees_iff a b)

end UnboxedType

end UnboxedRecords
