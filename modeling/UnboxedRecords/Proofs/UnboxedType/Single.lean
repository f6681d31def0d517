import UnboxedRecords.Proofs.UnboxedType.Refusals

/-!
# Types of one raw field

A type with one field of raw storage is that storage under a name: it has the size, the alignment
and the platform of the storage, and its field starts at nought, where every field is aligned
(`UnboxedType.single`).  Nothing but its size can stand against the field, so there are two cases:
`UnboxedType.compose_single` and `UnboxedType.compose_single_of_lt`.
-/

namespace UnboxedRecords

namespace UnboxedType

/-- The type called `name` that consists of raw storage in a field called `field`. -/
def single (name field : String) (spec : RawSpec) : UnboxedType where
  name := name
  platform := spec.platform
  fields := [⟨field, .raw spec, 0, spec.byteSize⟩]
  byteSize := spec.byteSize
  alignment := spec.alignment

variable {type : UnboxedType} {limit : Nat} {decl : FieldDecl} {spec : RawSpec}
  {rules : CompositionRules}

/-- A field against which there is nothing but its size is refused if the type would outgrow its
limit. -/
theorem placeNext_of_exceeds {kind : FieldKind} (hkind : decl.fieldKind = .ok kind)
    (hplatform : kind.platform = type.platform) (hname : decl.name ∉ type.fields.map (·.name))
    (hlimit : limit < type.byteSize + kind.byteSize) :
    type.placeNext limit decl = .error (.sizeOverflow limit) := by
  simp only [placeNext, hkind]
  rw [if_neg (not_not_intro hplatform), any_name_eq_false_iff.2 hname, if_neg Bool.false_ne_true,
    if_pos hlimit]

/-- The first field gives a type its alignment: the type without fields has the least one, that of
a byte. -/
theorem append_empty (name field : String) (spec : RawSpec) :
    (empty name spec.platform).append ⟨field, .raw spec, 0, spec.byteSize⟩ =
      single name field spec := by
  simp only [append, empty, single, List.nil_append, Nat.zero_add, FieldKind.alignment,
    Nat.max_eq_right spec.alignment_pos]

section Compose

variable (name field : String) (hplatform : spec.platform = rules.platform)
include hplatform

theorem compose_single (hlimit : spec.byteSize ≤ rules.sizeLimit) :
    (compose name [⟨field, .raw spec⟩] rules).result = .ok (single name field spec) := by
  have hplace : (empty name rules.platform).placeNext rules.sizeLimit ⟨field, .raw spec⟩ =
      .ok ⟨field, .raw spec, 0, spec.byteSize⟩ :=
    placeNext_of_fits rfl hplatform List.not_mem_nil ((Nat.zero_add _).symm ▸ hlimit)
  rw [compose_eq_ok_iff, appendAll_cons_of_placeNext hplace, ← hplatform, append_empty]
  rfl

theorem compose_single_of_lt (hlimit : rules.sizeLimit < spec.byteSize) :
    (compose name [⟨field, .raw spec⟩] rules).result =
      .error (.illegalComposition name (.sizeOverflow rules.sizeLimit)) := by
  have hplace : (empty name rules.platform).placeNext rules.sizeLimit ⟨field, .raw spec⟩ =
      .error (.sizeOverflow rules.sizeLimit) :=
    placeNext_of_exceeds rfl hplatform List.not_mem_nil ((Nat.zero_add _).symm ▸ hlimit)
  exact compose_eq_error_iff_appendAll.2 ⟨_, rfl, appendAll_cons_of_refused hplace []⟩

end Compose

end UnboxedType

end UnboxedRecords
