import Mathlib.Data.List.Nodup
import UnboxedRecords.Record.Layout
import UnboxedRecords.UnboxedType.Composition

/-!
# Composed types

A type is `UnboxedType.Composed` when it is the result of a composition whose fields are declared
storage and types composed before.  These are all the types there are outside this library.

Such a type is `UnboxedType.Packed`: its fields lie one behind the other, from nought to its size,
and its alignment is the least that is as large as that of every field.  What holds of a packed type
as soon as it holds of the types nested in its fields holds of every composed type
(`UnboxedType.Composed.induction`).
-/

namespace UnboxedRecords

/-- The spans lie one behind the other without a gap, the first from `start` on, the last up to
`stop`. -/
def Span.Tile : List Span → Nat → Nat → Prop
  | [], start, stop => start = stop
  | span :: spans, start, stop => span.start = start ∧ Tile spans span.stop stop

theorem Span.tile_append {first second : List Span} {start stop : Nat} :
    Tile (first ++ second) start stop ↔
      ∃ middle, Tile first start middle ∧ Tile second middle stop := by
  induction first generalizing start with
  | nil => simp [Tile]
  | cons span spans ih => simp [Tile, ih, and_assoc]

theorem Span.Tile.le {spans : List Span} {start stop : Nat} (h : Tile spans start stop)
    (hspans : ∀ span ∈ spans, span.start ≤ span.stop) : start ≤ stop := by
  induction spans generalizing start with
  | nil => exact Nat.le_of_eq h
  | cons span spans ih =>
    have hspan := hspans span List.mem_cons_self
    have hrest := ih h.2 fun other hother => hspans other (List.mem_cons_of_mem _ hother)
    exact h.1 ▸ Nat.le_trans hspan hrest

/-- Each of the spans lies between the first and the last. -/
theorem Span.Tile.mem_le {spans : List Span} {start stop : Nat} (h : Tile spans start stop)
    (hspans : ∀ span ∈ spans, span.start ≤ span.stop) {span : Span} (hspan : span ∈ spans) :
    start ≤ span.start ∧ span.stop ≤ stop := by
  obtain ⟨before, behind, rfl⟩ := List.append_of_mem hspan
  obtain ⟨middle, hbefore, hstart, hbehind⟩ := tile_append.1 h
  rw [List.forall_mem_append, List.forall_mem_cons] at hspans
  exact ⟨hstart ▸ hbefore.le hspans.1, hbehind.le hspans.2.2⟩

/-- Storage that some declaration made. -/
def RawSpec.Declared (spec : RawSpec) : Prop :=
  ∃ (unit : LengthUnit) (length : Int) (platform : Platform),
    length < (1 <<< 63 : Nat) ∧ (declare unit length platform).result = .ok spec

/-- The bytes that the field covers in the enclosing type. -/
def Field.span (field : Field) : Span := ⟨field.offset, field.offset + field.byteSize⟩

namespace UnboxedType

/-- The types that a composition makes out of declared storage and of such types. -/
inductive Composed : UnboxedType → Prop
  | compose {name : String} {decls : List FieldDecl} {rules : CompositionRules} {type : UnboxedType}
      (declared : ∀ decl ∈ decls, ∀ spec, decl.kind = .raw spec → spec.Declared)
      (nested : ∀ decl ∈ decls, ∀ inner, decl.kind = .nested inner → Composed inner)
      (hresult : (UnboxedType.compose name decls rules).result = .ok type) : Composed type

/-- `inner` is the type `outer` itself or nested in it, at whatever depth. -/
inductive Within (inner : UnboxedType) : UnboxedType → Prop
  | self : Within inner inner
  | field {middle outer : UnboxedType} {field : Field} (hfield : field ∈ outer.fields)
      (hkind : field.kind = .nested middle) (hwithin : Within inner middle) : Within inner outer

/-- The fields of the type lie one behind the other and make up all of it. -/
structure Packed (type : UnboxedType) : Prop where
  tile : Span.Tile (type.fields.map (·.span)) 0 type.byteSize
  size_eq : ∀ field ∈ type.fields, field.byteSize = field.kind.byteSize
  platform_eq : ∀ field ∈ type.fields, field.kind.platform = type.platform
  names : (type.fields.map (·.name)).Nodup
  alignment_le_iff : ∀ bound, type.alignment ≤ bound ↔
    1 ≤ bound ∧ ∀ field ∈ type.fields, field.kind.alignment ≤ bound

variable {type : UnboxedType} {limit : Nat} {decl : FieldDecl} {field : Field}

/-! ## One more field -/

theorem any_name_eq_false_iff {name : String} :
    type.fields.any (·.name == name) = false ↔ name ∉ type.fields.map (·.name) := by
  simp [List.any_eq_false]

/-- A field that passes all checks is placed at the end of the type. -/
theorem placeNext_of_fits {kind : FieldKind} (hkind : decl.fieldKind = .ok kind)
    (hplatform : kind.platform = type.platform) (hname : decl.name ∉ type.fields.map (·.name))
    (hlimit : type.byteSize + kind.byteSize ≤ limit) :
    type.placeNext limit decl = .ok ⟨decl.name, kind, type.byteSize, kind.byteSize⟩ := by
  simp only [placeNext, hkind]
  rw [if_neg (not_not_intro hplatform), any_name_eq_false_iff.2 hname, if_neg Bool.false_ne_true,
    if_neg (Nat.not_lt.2 hlimit)]

theorem Packed.empty (name : String) (platform : Platform) : (empty name platform).Packed where
  tile := rfl
  size_eq := by simp [UnboxedType.empty]
  platform_eq := by simp [UnboxedType.empty]
  names := List.nodup_nil
  alignment_le_iff := by simp [UnboxedType.empty]

/-- A field that is accepted keeps the type packed. -/
theorem Packed.append (h : type.Packed) (hplace : type.placeNext limit decl = .ok field) :
    (type.append field).Packed := by
  obtain ⟨-, hplatform, hname, -, hfield⟩ := placeNext_eq_ok hplace
  have hoffset : field.offset = type.byteSize := by rw [hfield]
  have hsize : field.byteSize = field.kind.byteSize := by rw [hfield]
  rw [any_name_eq_false_iff, show decl.name = field.name by rw [hfield]] at hname
  have hmem : ∀ other ∈ (type.append field).fields, other ∈ type.fields ∨ other = field := by simp
  refine ⟨?_, ?_, ?_, ?_, ?_⟩
  · rw [fields_append, List.map_append, Span.tile_append]
    refine ⟨type.byteSize, h.tile, hoffset, ?_⟩
    simp [Span.Tile, Field.span, hoffset]
  · intro other hother
    rcases hmem other hother with hother | rfl
    · exact h.size_eq other hother
    · exact hsize
  · intro other hother
    rcases hmem other hother with hother | rfl
    · exact h.platform_eq other hother
    · exact hplatform
  · rw [fields_append, List.map_append, List.map_singleton, ← List.concat_eq_append]
    exact h.names.concat hname
  · intro bound
    simp only [alignment_append, fields_append, Nat.max_le, h.alignment_le_iff, List.mem_append,
      List.mem_singleton]
    constructor
    · rintro ⟨⟨hone, hall⟩, hlast⟩
      exact ⟨hone, fun other hother => hother.elim (hall other) fun heq => heq ▸ hlast⟩
    · rintro ⟨hone, hall⟩
      exact ⟨⟨hone, fun other hother => hall other (Or.inl hother)⟩, hall field (Or.inr rfl)⟩

/-- No field is larger than the type. -/
theorem Packed.kind_byteSize_le (h : type.Packed) (hfield : field ∈ type.fields) :
    field.kind.byteSize ≤ type.byteSize := by
  have hspans : ∀ span ∈ type.fields.map (·.span), span.start ≤ span.stop := by
    simp [Field.span]
  have hle := h.tile.mem_le hspans (List.mem_map_of_mem hfield)
  rw [← h.size_eq field hfield]
  simp only [Field.span] at hle
  omega

/-! ## A whole composition -/

theorem appendAll_cons_of_placeNext (hplace : type.placeNext limit decl = .ok field)
    (decls : List FieldDecl) :
    (type.appendAll limit (decl :: decls)).result =
      ((type.append field).appendAll limit decls).result := by
  rw [appendAll, hplace]
  rfl

/-- What every accepted field keeps, a composition keeps. -/
theorem appendAll_induction {motive : UnboxedType → Prop} {decls : List FieldDecl}
    (hstep : ∀ type, ∀ decl ∈ decls, ∀ field, motive type →
      type.placeNext limit decl = .ok field → motive (type.append field))
    (hstart : motive type) {result : UnboxedType}
    (hresult : (type.appendAll limit decls).result = .ok result) : motive result := by
  induction decls generalizing type with
  | nil =>
    cases hresult
    exact hstart
  | cons decl decls ih =>
    rw [appendAll] at hresult
    split at hresult
    · simp at hresult
    · next field hplace =>
      rw [Logged.andThen_result_eq_ok_iff] at hresult
      obtain ⟨-, -, hresult⟩ := hresult
      exact ih (fun type decl hdecl => hstep type decl (List.mem_cons_of_mem _ hdecl))
        (hstep type decl List.mem_cons_self field hstart hplace) hresult

theorem compose_eq_ok_iff {name : String} {decls : List FieldDecl} {rules : CompositionRules} :
    (compose name decls rules).result = .ok type ↔
      ((empty name rules.platform).appendAll rules.sizeLimit decls).result = .ok type := by
  rw [compose, Logged.andThen_result_eq_ok_iff]
  simp only [Logged.result_mapError, Logged.result_ok, Except.ok.injEq, exists_eq_right]
  rcases ((empty name rules.platform).appendAll rules.sizeLimit decls).result with _ | _
  · simp [Except.mapError]
  · simp [Except.mapError]

/-- What every accepted field keeps, the result of a composition has. -/
theorem compose_induction {motive : UnboxedType → Prop} {name : String} {decls : List FieldDecl}
    {rules : CompositionRules}
    (hstep : ∀ type, ∀ decl ∈ decls, ∀ field, motive type →
      type.placeNext rules.sizeLimit decl = .ok field → motive (type.append field))
    (hstart : motive (empty name rules.platform))
    (hresult : (compose name decls rules).result = .ok type) : motive type :=
  appendAll_induction hstep hstart (compose_eq_ok_iff.1 hresult)

section Compose

variable {name : String} {decls : List FieldDecl} {rules : CompositionRules}
  (hresult : (compose name decls rules).result = .ok type)
include hresult

theorem name_of_compose : type.name = name :=
  compose_induction (motive := fun type => type.name = name)
    (fun _ _ _ _ hname _ => hname) rfl hresult

theorem platform_of_compose : type.platform = rules.platform :=
  compose_induction (motive := fun type => type.platform = rules.platform)
    (fun _ _ _ _ hplatform _ => hplatform) rfl hresult

theorem packed_of_compose : type.Packed :=
  compose_induction (motive := Packed) (fun _ _ _ _ h hplace => h.append hplace)
    (Packed.empty name rules.platform) hresult

theorem byteSize_le_of_compose : type.byteSize ≤ rules.sizeLimit := by
  refine compose_induction (motive := fun type => type.byteSize ≤ rules.sizeLimit) ?_
    (Nat.zero_le _) hresult
  intro type decl _ field _ hplace
  obtain ⟨-, -, -, hlimit, hfield⟩ := placeNext_eq_ok hplace
  rwa [byteSize_append, show field.byteSize = field.kind.byteSize by rw [hfield]]

/-- Every field was declared as what it is. -/
theorem exists_decl_of_compose (hfield : field ∈ type.fields) :
    ∃ decl ∈ decls, decl.fieldKind = .ok field.kind := by
  refine compose_induction (motive := fun type => ∀ field ∈ type.fields,
    ∃ decl ∈ decls, decl.fieldKind = .ok field.kind) ?_ (by simp [UnboxedType.empty])
    hresult field hfield
  intro type decl hdecl last hfields hplace other hother
  rw [fields_append, List.mem_append, List.mem_singleton] at hother
  rcases hother with hother | rfl
  · exact hfields other hother
  · exact ⟨decl, hdecl, (placeNext_eq_ok hplace).1⟩

end Compose

theorem kind_eq_of_fieldKind_nested {inner : UnboxedType}
    (h : decl.fieldKind = .ok (.nested inner)) : decl.kind = .nested inner := by
  unfold FieldDecl.fieldKind at h
  split at h
  · cases h
  · next hkind =>
    cases h
    exact hkind
  · cases h

namespace Composed

theorem packed (h : type.Composed) : type.Packed := by
  cases h with
  | compose _ _ hresult => exact packed_of_compose hresult

/-- The types nested in the fields of a composed type are composed. -/
theorem of_nested (h : type.Composed) (hfield : field ∈ type.fields) {inner : UnboxedType}
    (hkind : field.kind = .nested inner) : inner.Composed := by
  cases h with
  | compose _ nested hresult =>
    obtain ⟨decl, hdecl, hfieldKind⟩ := exists_decl_of_compose hresult hfield
    exact nested decl hdecl inner (kind_eq_of_fieldKind_nested (hkind ▸ hfieldKind))

/-- What a type has as soon as the types nested in its fields have it, every composed type has. -/
theorem induction {motive : UnboxedType → Prop}
    (hstep : ∀ type : UnboxedType, type.Composed → type.Packed →
      (∀ field ∈ type.fields, ∀ inner, field.kind = .nested inner → motive inner) → motive type)
    (h : type.Composed) : motive type := by
  induction h with
  | @compose name decls rules type declared nested hresult ih =>
    refine hstep type (.compose declared nested hresult) (packed_of_compose hresult) ?_
    intro field hfield inner hkind
    obtain ⟨decl, hdecl, hfieldKind⟩ := exists_decl_of_compose hresult hfield
    exact ih decl hdecl inner (kind_eq_of_fieldKind_nested (hkind ▸ hfieldKind))

/-! ### Types nested at any depth -/

section Within

variable {inner : UnboxedType} (hwithin : inner.Within type)
include hwithin

theorem of_within (h : type.Composed) : inner.Composed := by
  induction hwithin with
  | self => exact h
  | field hfield hkind _ ih => exact ih (h.of_nested hfield hkind)

/-- All types nested in a composed type were made for its platform. -/
theorem platform_eq_of_within (h : type.Composed) : inner.platform = type.platform := by
  induction hwithin with
  | self => rfl
  | field hfield hkind _ ih =>
    have hplatform := h.packed.platform_eq _ hfield
    rw [hkind] at hplatform
    exact (ih (h.of_nested hfield hkind)).trans hplatform

/-- No type nested in a composed type is larger than it. -/
theorem byteSize_le_of_within (h : type.Composed) : inner.byteSize ≤ type.byteSize := by
  induction hwithin with
  | self => exact Nat.le_refl _
  | field hfield hkind _ ih =>
    have hsize := h.packed.kind_byteSize_le hfield
    rw [hkind] at hsize
    exact Nat.le_trans (ih (h.of_nested hfield hkind)) hsize

end Within

end Composed

/-! ## A type nested twice in another -/

/-- A word and three bytes. -/
def cellDecls : List FieldDecl :=
  [⟨"bits", .raw ⟨.words, 1, .bits16, 2⟩⟩, ⟨"tag", .raw ⟨.bytes, 3, .bits16, 3⟩⟩]

def cell : UnboxedType :=
  ⟨"cell", .bits16, [⟨"bits", .raw ⟨.words, 1, .bits16, 2⟩, 0, 2⟩,
    ⟨"tag", .raw ⟨.bytes, 3, .bits16, 3⟩, 2, 3⟩], 5, 2⟩

/-- Two cells, with a byte between them that makes both of them aligned. -/
def pairDecls : List FieldDecl :=
  [⟨"first", .nested cell⟩, ⟨"gap", .raw ⟨.bytes, 1, .bits16, 1⟩⟩, ⟨"second", .nested cell⟩]

def pair : UnboxedType :=
  ⟨"pair", .bits16, [⟨"first", .nested cell, 0, 5⟩, ⟨"gap", .raw ⟨.bytes, 1, .bits16, 1⟩, 5, 1⟩,
    ⟨"second", .nested cell, 6, 5⟩], 11, 2⟩

theorem compose_cell : (compose "cell" cellDecls ⟨.bits16, none⟩).result = .ok cell := rfl

theorem compose_pair : (compose "pair" pairDecls ⟨.bits16, none⟩).result = .ok pair := rfl

theorem declared_cellDecls : ∀ decl ∈ cellDecls, ∀ spec, decl.kind = .raw spec → spec.Declared := by
  intro decl hdecl spec hkind
  rcases List.mem_pair.1 hdecl with rfl | rfl
  · cases hkind
    exact ⟨.words, 1, .bits16, by decide, rfl⟩
  · cases hkind
    exact ⟨.bytes, 3, .bits16, by decide, rfl⟩

theorem composed_cell : cell.Composed :=
  .compose declared_cellDecls (by simp [cellDecls]) compose_cell

theorem declared_pairDecls : ∀ decl ∈ pairDecls, ∀ spec, decl.kind = .raw spec → spec.Declared := by
  intro decl hdecl spec hkind
  simp only [pairDecls, List.mem_cons, List.not_mem_nil, or_false] at hdecl
  rcases hdecl with rfl | rfl | rfl
  · cases hkind
  · cases hkind
    exact ⟨.bytes, 1, .bits16, by decide, rfl⟩
  · cases hkind

theorem nested_pairDecls :
    ∀ decl ∈ pairDecls, ∀ inner, decl.kind = .nested inner → inner.Composed := by
  simp [pairDecls, composed_cell]

theorem composed_pair : pair.Composed := .compose declared_pairDecls nested_pairDecls compose_pair

end UnboxedType

end UnboxedRecords
