import Mathlib.Data.List.Forall2
import UnboxedRecords.UnboxedType.Equality
import UnboxedRecords.Proofs.UnboxedType.Acceptance

/-!
# Structural equality

A type stores figures besides its structure: sizes, offsets, an alignment, and in each piece of raw
storage the number of its bytes.  The comparison of types looks at all of them.  It could do without
them: two composed types are equal exactly if they match in names, platforms, units and lengths at
all depths (`UnboxedType.Matches`).

The figures are settled by what was declared.  Declared storage is known by its unit, its length and
its platform (`RawSpec.Declared.eq_of`), and the result of a composition by the name, the platform
and the declared fields, whatever the limit was (`UnboxedType.compose_unique`).  A composed type was
composed of the fields it has (`UnboxedType.decls_of_compose`), so that an induction on the nesting
tells types apart by their declarations alone (`UnboxedType.Composed.eq_of_matches`).
-/

namespace UnboxedRecords

/-- What the field holds, as it was declared. -/
def FieldKind.declared : FieldKind → DeclaredKind
  | .raw spec => .raw spec
  | .nested type => .nested type

/-- The field as it was declared. -/
def Field.decl (field : Field) : FieldDecl := ⟨field.name, field.kind.declared⟩

mutual

/-- Two types have one name and one platform, and their fields match position by position. -/
inductive UnboxedType.Matches : UnboxedType → UnboxedType → Prop
  | type {a b : UnboxedType} (name_eq : a.name = b.name) (platform_eq : a.platform = b.platform)
      (fields : List.Forall₂ Field.Matches a.fields b.fields) : UnboxedType.Matches a b

/-- Two fields have one name, and both hold raw storage of one unit and one length, or types that
match. -/
inductive Field.Matches : Field → Field → Prop
  | raw {f g : Field} {spec spec' : RawSpec} (name_eq : f.name = g.name)
      (hf : f.kind = .raw spec) (hg : g.kind = .raw spec') (unit_eq : spec.unit = spec'.unit)
      (length_eq : spec.length = spec'.length) : Field.Matches f g
  | nested {f g : Field} {inner inner' : UnboxedType} (name_eq : f.name = g.name)
      (hf : f.kind = .nested inner) (hg : g.kind = .nested inner')
      (inner_matches : UnboxedType.Matches inner inner') : Field.Matches f g

end

/-- Two fields are declared alike: under one name, as storage of one unit and one length for one
platform, as types that match, or as references to one type. -/
inductive FieldDecl.Alike : FieldDecl → FieldDecl → Prop
  | raw {name : String} {spec spec' : RawSpec} (declared : spec.Declared)
      (declared' : spec'.Declared) (unit_eq : spec.unit = spec'.unit)
      (length_eq : spec.length = spec'.length) (platform_eq : spec.platform = spec'.platform) :
      Alike ⟨name, .raw spec⟩ ⟨name, .raw spec'⟩
  | nested {name : String} {inner inner' : UnboxedType} (composed : inner.Composed)
      (composed' : inner'.Composed) (inner_matches : inner.Matches inner') :
      Alike ⟨name, .nested inner⟩ ⟨name, .nested inner'⟩
  | reference (name referent : String) :
      Alike ⟨name, .reference referent⟩ ⟨name, .reference referent⟩

/-- Declared storage is known by its unit, its length and its platform. -/
theorem RawSpec.Declared.eq_of {spec spec' : RawSpec} (h : spec.Declared) (h' : spec'.Declared)
    (hunit : spec.unit = spec'.unit) (hlength : spec.length = spec'.length)
    (hplatform : spec.platform = spec'.platform) : spec = spec' := by
  obtain ⟨unit, length, platform, -, hresult⟩ := h
  obtain ⟨unit', length', platform', -, hresult'⟩ := h'
  obtain rfl := eq_of_declare hresult
  obtain rfl := eq_of_declare hresult'
  simp only at hunit hlength hplatform
  rw [hunit, hlength, hplatform]

namespace UnboxedType

variable {a b type final final' : UnboxedType} {limit limit' : Nat} {decl : FieldDecl}
  {decls : List FieldDecl} {field field' f g : Field} {name : String}
  {rules rules' : CompositionRules}

/-! ## What a composition depends on -/

/-- A placed field was declared as what it is. -/
theorem decl_of_placeNext (h : type.placeNext limit decl = .ok field) : field.decl = decl := by
  obtain ⟨hkind, -, -, -, hfield⟩ := placeNext_eq_ok h
  have hname : field.name = decl.name := by rw [hfield]
  obtain ⟨declName, kind⟩ := decl
  rcases FieldDecl.kind_of_fieldKind hkind with ⟨spec, rfl, heq⟩ | ⟨inner, rfl, heq⟩
  · rw [Field.decl, hname, heq]
    rfl
  · rw [Field.decl, hname, heq]
    rfl

/-- Where a field is placed, it is placed alike under every limit. -/
theorem placeNext_unique (h : type.placeNext limit decl = .ok field)
    (h' : type.placeNext limit' decl = .ok field') : field = field' := by
  obtain ⟨hkind, -, -, -, hfield⟩ := placeNext_eq_ok h
  obtain ⟨hkind', -, -, -, hfield'⟩ := placeNext_eq_ok h'
  have hsame : field.kind = field'.kind := Except.ok.inj (hkind.symm.trans hkind')
  rw [hfield, hfield', hsame]

theorem appendAll_unique (h : (type.appendAll limit decls).result = .ok final)
    (h' : (type.appendAll limit' decls).result = .ok final') : final = final' := by
  induction decls generalizing type with
  | nil => exact Except.ok.inj (h.symm.trans h')
  | cons decl decls ih =>
    obtain ⟨field, hplace, h⟩ := appendAll_cons_eq_ok_iff.1 h
    obtain ⟨field', hplace', h'⟩ := appendAll_cons_eq_ok_iff.1 h'
    obtain rfl := placeNext_unique hplace hplace'
    exact ih h h'

/-- Compositions of the same fields for one platform make one type, whatever their limits. -/
theorem compose_unique (h : (compose name decls rules).result = .ok a)
    (h' : (compose name decls rules').result = .ok b)
    (hplatform : rules.platform = rules'.platform) : a = b := by
  rw [compose_eq_ok_iff] at h h'
  rw [hplatform] at h
  exact appendAll_unique h h'

theorem decls_of_appendAll (h : (type.appendAll limit decls).result = .ok final) :
    final.fields.map Field.decl = type.fields.map Field.decl ++ decls := by
  induction decls generalizing type with
  | nil =>
    cases h
    exact (List.append_nil _).symm
  | cons decl decls ih =>
    obtain ⟨field, hplace, h⟩ := appendAll_cons_eq_ok_iff.1 h
    rw [ih h, fields_append, List.map_append, List.map_singleton, decl_of_placeNext hplace,
      List.append_assoc, List.singleton_append]

/-- A type was composed of the fields it has. -/
theorem decls_of_compose (h : (compose name decls rules).result = .ok type) :
    type.fields.map Field.decl = decls :=
  decls_of_appendAll (compose_eq_ok_iff.1 h)

namespace Composed

/-- The storage in a composed type is declared storage. -/
theorem declared (h : type.Composed) (hfield : field ∈ type.fields) {spec : RawSpec}
    (hkind : field.kind = .raw spec) : spec.Declared := by
  cases h with
  | compose declared _ hresult =>
    have hdecl := List.mem_map_of_mem (f := Field.decl) hfield
    rw [decls_of_compose hresult] at hdecl
    refine declared field.decl hdecl spec ?_
    rw [Field.decl, hkind]
    rfl

/-- Composed types are known by their names, their platforms and their declared fields. -/
theorem eq_of_decls_eq (ha : a.Composed) (hb : b.Composed) (hname : a.name = b.name)
    (hplatform : a.platform = b.platform)
    (hdecls : a.fields.map Field.decl = b.fields.map Field.decl) : a = b := by
  cases ha with
  | compose _ _ hresult =>
    cases hb with
    | compose _ _ hresult' =>
      rw [decls_of_compose hresult, decls_of_compose hresult'] at hdecls
      rw [name_of_compose hresult, name_of_compose hresult'] at hname
      rw [platform_of_compose hresult, platform_of_compose hresult'] at hplatform
      rw [hdecls, hname] at hresult
      exact compose_unique hresult hresult' hplatform

end Composed

/-! ## Types that match -/

theorem map_decl_eq {fs gs : List Field} (h : List.Forall₂ Field.Matches fs gs)
    (hdecl : ∀ f ∈ fs, ∀ g ∈ gs, f.Matches g → f.decl = g.decl) :
    fs.map Field.decl = gs.map Field.decl := by
  induction h with
  | nil => rfl
  | cons hfirst _ ih =>
    have hhead := hdecl _ List.mem_cons_self _ List.mem_cons_self hfirst
    have htail := ih fun f hf g hg =>
      hdecl f (List.mem_cons_of_mem _ hf) g (List.mem_cons_of_mem _ hg)
    rw [List.map_cons, List.map_cons, hhead, htail]

namespace Composed

/-- Fields that match are declared as the same, if this is so for the types nested in them. -/
theorem decl_eq_of_matches (ha : a.Composed) (hb : b.Composed) (hplatform : a.platform = b.platform)
    (hf : f ∈ a.fields) (hg : g ∈ b.fields)
    (hnested : ∀ inner, f.kind = .nested inner → ∀ other : UnboxedType, other.Composed →
      inner.Matches other → inner = other)
    (h : f.Matches g) : f.decl = g.decl := by
  cases h with
  | @raw _ _ spec spec' hname hfkind hgkind hunit hlength =>
    -- both were made for the platform of the types that they are in
    have hfplatform : spec.platform = a.platform := by
      rw [← ha.packed.platform_eq f hf, hfkind]
      rfl
    have hgplatform : spec'.platform = b.platform := by
      rw [← hb.packed.platform_eq g hg, hgkind]
      rfl
    have hspec : spec = spec' := (ha.declared hf hfkind).eq_of (hb.declared hg hgkind) hunit hlength
      (hfplatform.trans (hplatform.trans hgplatform.symm))
    rw [Field.decl, Field.decl, hname, hfkind, hgkind, hspec]
  | nested hname hfkind hgkind hinner =>
    have hsame := hnested _ hfkind _ (hb.of_nested hg hgkind) hinner
    rw [Field.decl, Field.decl, hname, hfkind, hgkind, hsame]

/-- Composed types that match are the same, with all their figures. -/
theorem eq_of_matches (ha : a.Composed) (hb : b.Composed) (h : a.Matches b) : a = b := by
  refine ha.induction (motive := fun a => ∀ b : UnboxedType, b.Composed → a.Matches b → a = b)
    ?_ b hb h
  intro a ha _ ih b hb hmatches
  cases hmatches with
  | type hname hplatform hfields =>
    exact ha.eq_of_decls_eq hb hname hplatform (map_decl_eq hfields fun f hf g hg =>
      ha.decl_eq_of_matches hb hplatform hf hg (ih f hf))

theorem matches_self (h : a.Composed) : a.Matches a := by
  refine h.induction (motive := fun a => a.Matches a) ?_
  intro a _ _ ih
  refine .type rfl rfl (List.forall₂_same.2 fun field hfield => ?_)
  rcases hkind : field.kind with spec | inner
  · exact .raw rfl hkind hkind rfl rfl
  · exact .nested rfl hkind hkind (ih field hfield inner hkind)

end Composed

end UnboxedType

namespace FieldDecl

variable {decl decl' : FieldDecl}

/-- Fields that are declared alike are the same. -/
theorem Alike.eq (h : decl.Alike decl') : decl = decl' := by
  cases h with
  | raw declared declared' hunit hlength hplatform =>
    rw [declared.eq_of declared' hunit hlength hplatform]
  | nested composed composed' hinner => rw [composed.eq_of_matches composed' hinner]
  | reference => rfl

theorem alike_self (declared : ∀ spec, decl.kind = .raw spec → spec.Declared)
    (nested : ∀ inner, decl.kind = .nested inner → inner.Composed) : decl.Alike decl := by
  obtain ⟨name, spec | inner | referent⟩ := decl
  · exact .raw (declared spec rfl) (declared spec rfl) rfl rfl rfl
  · exact .nested (nested inner rfl) (nested inner rfl) (nested inner rfl).matches_self
  · exact .reference name referent

end FieldDecl

namespace UnboxedType

/-- Composed types are equal exactly if they match in their names, their platforms and the units and
lengths of their storage, whatever the limits under which they and the types in them were composed.
Fields that are declared alike make, under one name and for one platform, one and the same type,
wherever the limit admits its size. -/
theorem equality_is_structural :
    (∀ a b : UnboxedType, a.Composed → b.Composed → (a.agrees b = true ↔ a.Matches b)) ∧
    ∀ (name : String) (decls decls' : List FieldDecl) (rules rules' : CompositionRules)
      (type : UnboxedType), List.Forall₂ FieldDecl.Alike decls decls' →
      rules.platform = rules'.platform → (compose name decls rules).result = .ok type →
      ∀ type', (compose name decls' rules').result = .ok type' ↔
        type' = type ∧ type.byteSize ≤ rules'.sizeLimit := by
  refine ⟨fun a b ha hb => ?_, ?_⟩
  · rw [agrees_iff]
    constructor
    · rintro rfl
      exact ha.matches_self
    · exact ha.eq_of_matches hb
  · intro name decls decls' rules rules' type halike hplatform h type'
    have hsame : List.Forall₂ Eq decls decls' := halike.imp fun _ _ h => h.eq
    rw [List.forall₂_eq_eq_eq] at hsame
    subst hsame
    constructor
    · intro h'
      obtain rfl := compose_unique h h' hplatform
      exact ⟨rfl, byteSize_le_of_compose h'⟩
    · rintro ⟨rfl, hsize⟩
      -- the limit is the only thing in which the two sets of rules may part
      obtain ⟨hacceptable, hlaysOut⟩ := acceptable_of_compose h
      rw [hlaysOut.byteSize_eq] at hsize
      have hacceptable' : Acceptable rules' decls :=
        ⟨hacceptable.noReference, hplatform ▸ hacceptable.platform_eq, hacceptable.names, hsize⟩
      obtain ⟨other, hother⟩ := exists_compose_of_acceptable name hacceptable'
      rw [hother, compose_unique h hother hplatform]

theorem alike_pairDecls : List.Forall₂ FieldDecl.Alike pairDecls pairDecls :=
  List.forall₂_same.2 fun decl hdecl =>
    decl.alike_self (declared_pairDecls decl hdecl) (nested_pairDecls decl hdecl)

/-- A limit that the pair just meets makes no difference to it, and one that is lower by a byte
leaves no type. -/
theorem equality_is_structural_pair :
    (pair.Composed ∧ pair.agrees pair = true ∧ pair.Matches pair) ∧
      (cell.Composed ∧ pair.agrees cell = false ∧ ¬ pair.Matches cell) ∧
      List.Forall₂ FieldDecl.Alike pairDecls pairDecls ∧
      (compose "pair" pairDecls ⟨.bits16, none⟩).result = .ok pair ∧
      (compose "pair" pairDecls ⟨.bits16, some 11⟩).result = .ok pair ∧
      ∀ type, (compose "pair" pairDecls ⟨.bits16, some 10⟩).result ≠ .ok type := by
  obtain ⟨hmatches, hcompose⟩ := equality_is_structural
  have hself : pair.agrees pair = true := by decide
  have hother : pair.agrees cell = false := by decide
  have hlimit := hcompose "pair" pairDecls pairDecls ⟨.bits16, none⟩ ⟨.bits16, some 11⟩ pair
    alike_pairDecls rfl compose_pair
  have hlower := hcompose "pair" pairDecls pairDecls ⟨.bits16, none⟩ ⟨.bits16, some 10⟩ pair
    alike_pairDecls rfl compose_pair
  refine ⟨⟨composed_pair, hself, (hmatches _ _ composed_pair composed_pair).1 hself⟩,
    ⟨composed_cell, hother, fun h => ?_⟩, alike_pairDecls, compose_pair, ?_, fun type h => ?_⟩
  · rw [(hmatches _ _ composed_pair composed_cell).2 h] at hother
    cases hother
  · exact (hlimit pair).2 ⟨rfl, by decide⟩
  · exact absurd ((hlower type).1 h).2 (by decide)

end UnboxedType

end UnboxedRecords
