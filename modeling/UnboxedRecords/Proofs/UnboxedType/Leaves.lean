import UnboxedRecords.Proofs.UnboxedType.Composed

/-!
# The leaves of a type

Underneath all nesting an unboxed type is a list of pieces of raw storage, its leaves, each at an
offset of its own from the start of the type: the sum of the offsets of the fields around it.  In a
composed type the leaves lie one behind the other and fill the type (`UnboxedType.Composed.tile`),
and the type is aligned as its leaves ask for (`UnboxedType.Composed.alignment_le_iff`).

So nesting has no influence on the layout: the leaves alone, under whatever names, compose to a type
of the same size and alignment and with its fields at the same offsets
(`UnboxedType.leaves_of_compose`).
-/

namespace UnboxedRecords

/-- A piece of raw storage at its place in a type. -/
structure Leaf where
  /-- The storage. -/
  spec : RawSpec
  /-- The byte offset from the start of the type, over all levels of nesting. -/
  offset : Nat
deriving DecidableEq, Repr

namespace Leaf

/-- The bytes that the leaf covers in the type. -/
def span (leaf : Leaf) : Span := ⟨leaf.offset, leaf.offset + leaf.spec.byteSize⟩

/-- The field called `name` that is declared to hold what the leaf holds. -/
def decl (name : String) (leaf : Leaf) : FieldDecl := ⟨name, .raw leaf.spec⟩

/-- The field called `name` that holds the leaf at its place. -/
def field (name : String) (leaf : Leaf) : Field :=
  ⟨name, .raw leaf.spec, leaf.offset, leaf.spec.byteSize⟩

end Leaf

namespace UnboxedType

mutual

/-- The leaves of a type that starts at `base`, depth first in the order of declaration. -/
def leavesAt : UnboxedType → Nat → List Leaf
  | ⟨_, _, fields, _, _⟩, base => fieldLeaves fields base

/-- The leaves of the fields of a type that starts at `base`. -/
def fieldLeaves : List Field → Nat → List Leaf
  | [], _ => []
  | ⟨_, .raw spec, offset, _⟩ :: fields, base => ⟨spec, base + offset⟩ :: fieldLeaves fields base
  | ⟨_, .nested type, offset, _⟩ :: fields, base =>
    type.leavesAt (base + offset) ++ fieldLeaves fields base

end

/-- The leaves of a type, depth first in the order of declaration. -/
def leaves (type : UnboxedType) : List Leaf := type.leavesAt 0

end UnboxedType

/-- The leaves of what a field holds, if it starts at `base`. -/
def FieldKind.leavesAt : FieldKind → Nat → List Leaf
  | .raw spec, base => [⟨spec, base⟩]
  | .nested type, base => type.leavesAt base

namespace UnboxedType

variable {type : UnboxedType} {base : Nat}

theorem fieldLeaves_eq_flatMap (fields : List Field) (base : Nat) :
    fieldLeaves fields base =
      fields.flatMap fun field => field.kind.leavesAt (base + field.offset) := by
  induction fields with
  | nil => rfl
  | cons field fields ih =>
    obtain ⟨name, kind, offset, byteSize⟩ := field
    cases kind with
    | raw spec => simp [fieldLeaves, FieldKind.leavesAt, ih]
    | nested type => simp [fieldLeaves, FieldKind.leavesAt, ih]

theorem leavesAt_eq_flatMap (type : UnboxedType) (base : Nat) :
    type.leavesAt base =
      type.fields.flatMap fun field => field.kind.leavesAt (base + field.offset) := by
  obtain ⟨name, platform, fields, byteSize, alignment⟩ := type
  rw [leavesAt]
  exact fieldLeaves_eq_flatMap fields base

theorem mem_leavesAt_iff {leaf : Leaf} :
    leaf ∈ type.leavesAt base ↔
      ∃ field ∈ type.fields, leaf ∈ field.kind.leavesAt (base + field.offset) := by
  rw [leavesAt_eq_flatMap, List.mem_flatMap]

/-! ## The leaves fill the type -/

/-- Pieces that fill the fields, each on its own, fill the type. -/
theorem tile_flatMap {fields : List Field} {start stop : Nat}
    (htile : Span.Tile (fields.map (·.span)) start stop)
    (hfields : ∀ field ∈ fields,
      Span.Tile ((field.kind.leavesAt (base + field.offset)).map (·.span)) (base + field.offset)
        (base + field.offset + field.byteSize)) :
    Span.Tile ((fields.flatMap fun field => field.kind.leavesAt (base + field.offset)).map (·.span))
      (base + start) (base + stop) := by
  induction fields generalizing start with
  | nil => exact congrArg (base + ·) htile
  | cons field fields ih =>
    obtain ⟨hstart, hrest⟩ := htile
    have hfirst := hfields field List.mem_cons_self
    have hbehind := ih hrest fun other hother => hfields other (List.mem_cons_of_mem _ hother)
    simp only [Field.span] at hstart hbehind
    rw [List.flatMap_cons, List.map_append, Span.tile_append]
    refine ⟨base + field.offset + field.byteSize, hstart ▸ hfirst, ?_⟩
    rwa [Nat.add_assoc]

namespace Composed

/-- The leaves of a composed type lie one behind the other and fill the type. -/
theorem tile (h : type.Composed) (base : Nat) :
    Span.Tile ((type.leavesAt base).map (·.span)) base (base + type.byteSize) := by
  refine h.induction (motive := fun type => ∀ base,
    Span.Tile ((type.leavesAt base).map (·.span)) base (base + type.byteSize)) ?_ base
  intro type _ hpacked ih base
  rw [leavesAt_eq_flatMap]
  refine tile_flatMap hpacked.tile fun field hfield => ?_
  have hsize := hpacked.size_eq field hfield
  rcases hkind : field.kind with spec | inner
  · rw [hsize, hkind]
    exact ⟨rfl, rfl⟩
  · rw [hsize, hkind]
    exact ih field hfield inner hkind _

/-- A composed type is aligned as much as its most aligned leaf, and no more. -/
theorem alignment_le_iff (h : type.Composed) (base bound : Nat) :
    type.alignment ≤ bound ↔
      1 ≤ bound ∧ ∀ leaf ∈ type.leavesAt base, leaf.spec.alignment ≤ bound := by
  refine h.induction (motive := fun type => ∀ base, type.alignment ≤ bound ↔
    1 ≤ bound ∧ ∀ leaf ∈ type.leavesAt base, leaf.spec.alignment ≤ bound) ?_ base
  intro type _ hpacked ih base
  rw [hpacked.alignment_le_iff]
  refine and_congr_right fun hone => ?_
  have hkind : ∀ field ∈ type.fields, field.kind.alignment ≤ bound ↔
      ∀ leaf ∈ field.kind.leavesAt (base + field.offset), leaf.spec.alignment ≤ bound := by
    intro field hfield
    rcases hkind : field.kind with spec | inner
    · simp [FieldKind.leavesAt, FieldKind.alignment]
    · exact (ih field hfield inner hkind _).trans (and_iff_right hone)
  constructor
  · intro hall leaf hleaf
    obtain ⟨field, hfield, hleaf⟩ := mem_leavesAt_iff.1 hleaf
    exact (hkind field hfield).1 (hall field hfield) leaf hleaf
  · intro hall field hfield
    exact (hkind field hfield).2 fun leaf hleaf =>
      hall leaf (mem_leavesAt_iff.2 ⟨field, hfield, hleaf⟩)

/-- The leaves of a composed type are made for its platform. -/
theorem platform_eq_of_mem_leavesAt (h : type.Composed) {leaf : Leaf}
    (hleaf : leaf ∈ type.leavesAt base) : leaf.spec.platform = type.platform := by
  refine h.induction (motive := fun type => ∀ base, ∀ leaf ∈ type.leavesAt base,
    leaf.spec.platform = type.platform) ?_ base leaf hleaf
  intro type _ hpacked ih base leaf hleaf
  obtain ⟨field, hfield, hleaf⟩ := mem_leavesAt_iff.1 hleaf
  rw [← hpacked.platform_eq field hfield]
  rcases hkind : field.kind with spec | inner
  · rw [hkind] at hleaf
    rw [List.mem_singleton.1 hleaf]
    rfl
  · rw [hkind] at hleaf
    exact ih field hfield inner hkind _ leaf hleaf

end Composed

/-! ## Composing the leaves -/

/-- Leaves that lie behind the type are put there one by one. -/
theorem appendAll_leaves {leaves : List Leaf} {names : List String} {limit stop : Nat}
    (htile : Span.Tile (leaves.map (·.span)) type.byteSize stop) (hstop : stop ≤ limit)
    (hplatform : ∀ leaf ∈ leaves, leaf.spec.platform = type.platform)
    (hnames : (type.fields.map (·.name) ++ names).Nodup) (hlength : names.length = leaves.length) :
    ∃ flat, (type.appendAll limit (List.zipWith Leaf.decl names leaves)).result = .ok flat ∧
      flat.byteSize = stop ∧
      (∀ bound, flat.alignment ≤ bound ↔
        type.alignment ≤ bound ∧ ∀ leaf ∈ leaves, leaf.spec.alignment ≤ bound) ∧
      flat.offsets = type.offsets ++ leaves.map (·.offset) := by
  induction leaves generalizing type names with
  | nil =>
    refine ⟨type, ?_, htile, ?_, ?_⟩
    · rw [List.zipWith_nil_right]
      rfl
    · simp
    · simp
  | cons leaf leaves ih =>
    obtain ⟨name, names, rfl⟩ := List.exists_cons_of_length_eq_add_one hlength
    obtain ⟨hstart, hrest⟩ := htile
    replace hstart : leaf.offset = type.byteSize := hstart
    replace hrest :
        Span.Tile (leaves.map (·.span)) (type.append (leaf.field name)).byteSize stop := by
      rw [byteSize_append, ← hstart]
      exact hrest
    have hle : type.byteSize + leaf.spec.byteSize ≤ stop := by
      refine hrest.le fun span hspan => ?_
      obtain ⟨other, -, rfl⟩ := List.mem_map.1 hspan
      exact Nat.le_add_right _ _
    -- the leaf goes to the end of the type, and the others behind it
    have hfresh : name ∉ type.fields.map (·.name) := fun hmem =>
      (List.nodup_append.1 hnames).2.2 name hmem name List.mem_cons_self rfl
    have hkind : (leaf.decl name).fieldKind = .ok (.raw leaf.spec) := rfl
    have hplace : type.placeNext limit (leaf.decl name) = .ok (leaf.field name) := by
      rw [Leaf.field, hstart]
      exact placeNext_of_fits hkind (hplatform leaf List.mem_cons_self) hfresh
        (Nat.le_trans hle hstop)
    obtain ⟨flat, hresult, hsize, halign, hoffsets⟩ := ih hrest
      (fun other hother => hplatform other (List.mem_cons_of_mem _ hother))
      (by simpa [Leaf.field] using hnames) (by simpa using hlength)
    refine ⟨flat, ?_, hsize, fun bound => ?_, ?_⟩
    · rw [List.zipWith_cons_cons, appendAll_cons_of_placeNext hplace]
      exact hresult
    · rw [halign bound, alignment_append, Nat.max_le, List.forall_mem_cons, and_assoc]
      rfl
    · rw [hoffsets, offsets, fields_append, List.map_append, List.append_assoc]
      rfl

/-- The leaves of a composed type, each at the sum of the offsets of the fields around it, lie one
behind the other from nought to the size of the type.  They compose under any distinct names to a
type of the same size and alignment and with its fields at the same offsets. -/
theorem leaves_of_compose {name : String} {decls : List FieldDecl} {rules : CompositionRules}
    (declared : ∀ decl ∈ decls, ∀ spec, decl.kind = .raw spec → spec.Declared)
    (nested : ∀ decl ∈ decls, ∀ inner, decl.kind = .nested inner → inner.Composed)
    (hresult : (compose name decls rules).result = .ok type) :
    Span.Tile (type.leaves.map (·.span)) 0 type.byteSize ∧
      ∀ (flatName : String) (names : List String), names.Nodup →
        names.length = type.leaves.length →
        ∃ flat, (compose flatName (List.zipWith Leaf.decl names type.leaves) rules).result =
            .ok flat ∧
          flat.byteSize = type.byteSize ∧ flat.alignment = type.alignment ∧
          flat.offsets = type.leaves.map (·.offset) := by
  have hcomposed : type.Composed := .compose declared nested hresult
  have htile : Span.Tile (type.leaves.map (·.span)) 0 type.byteSize := by
    simpa only [leaves, Nat.zero_add] using hcomposed.tile 0
  refine ⟨htile, fun flatName names hnames hlength => ?_⟩
  have hplatform : ∀ leaf ∈ type.leaves,
      leaf.spec.platform = (empty flatName rules.platform).platform := fun leaf hleaf =>
    (hcomposed.platform_eq_of_mem_leavesAt hleaf).trans (platform_of_compose hresult)
  obtain ⟨flat, hflat, hsize, halign, hoffsets⟩ :=
    appendAll_leaves htile (byteSize_le_of_compose hresult) hplatform hnames hlength
  refine ⟨flat, compose_eq_ok_iff.2 hflat, hsize, ?_, hoffsets⟩
  -- both alignments have the same upper bounds
  have hbounds : ∀ bound, flat.alignment ≤ bound ↔ type.alignment ≤ bound := fun bound =>
    (halign bound).trans (hcomposed.alignment_le_iff 0 bound).symm
  exact Nat.le_antisymm ((hbounds _).2 (Nat.le_refl _)) ((hbounds _).1 (Nat.le_refl _))

theorem leaves_of_compose_pair :
    (∀ decl ∈ pairDecls, ∀ spec, decl.kind = .raw spec → spec.Declared) ∧
      (∀ decl ∈ pairDecls, ∀ inner, decl.kind = .nested inner → inner.Composed) ∧
      (compose "pair" pairDecls ⟨.bits16, none⟩).result = .ok pair ∧
      Span.Tile (pair.leaves.map (·.span)) 0 11 ∧
      ["a", "b", "c", "d", "e"].Nodup ∧
      ∃ flat, (compose "flat" (List.zipWith Leaf.decl ["a", "b", "c", "d", "e"] pair.leaves)
          ⟨.bits16, none⟩).result = .ok flat ∧
        flat.byteSize = 11 ∧ flat.alignment = 2 ∧ flat.offsets = [0, 2, 5, 6, 8] := by
  obtain ⟨htile, hflat⟩ := leaves_of_compose declared_pairDecls nested_pairDecls compose_pair
  have hnames : ["a", "b", "c", "d", "e"].Nodup := by decide
  exact ⟨declared_pairDecls, nested_pairDecls, compose_pair, htile, hnames,
    hflat "flat" ["a", "b", "c", "d", "e"] hnames rfl⟩

end UnboxedType

end UnboxedRecords
