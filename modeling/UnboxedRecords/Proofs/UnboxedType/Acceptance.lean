import Mathlib.Data.List.Induction
import UnboxedRecords.Proofs.UnboxedType.Refusals

/-!
# What a composition accepts

A composition looks at its fields one after the other, and at each field for four reasons to refuse
it, the first of which ends the composition.  What this comes to can be said of the list of fields
as a whole, without the order of the checks: `UnboxedType.Acceptable` lists four conditions, and a
list of fields composes exactly if it meets them.  The type then has the fields in their order, each
behind the sizes of those before it (`UnboxedType.LaysOut`).

The order matters for the refusals.  They name the first field with which the list stops being
acceptable, and of the reasons against this field the one that is looked for first
(`UnboxedType.FirstViolation`).

One field decides both: `UnboxedType.acceptable_append_iff` says when one more field keeps a list
acceptable, and `UnboxedType.LaysOut.not_violates` and `UnboxedType.LaysOut.firstViolation` that
this is what the checks find out.  The rest is an induction on the fields from the last one
backwards.
-/

namespace UnboxedRecords

/-- The place of a violation in the order in which violations are looked for. -/
def CompositionViolation.rank : CompositionViolation → Nat
  | referenceField .. => 0
  | platformMismatch .. => 1
  | duplicateField .. => 2
  | sizeOverflow .. => 3

namespace FieldDecl

/-- The number of bytes that the field takes.  A reference is never placed and takes none. -/
def byteSize (decl : FieldDecl) : Nat :=
  match decl.kind with
  | .raw spec => spec.byteSize
  | .nested type => type.byteSize
  | .reference _ => 0

/-- The alignment that the field asks for.  A reference is never placed and asks for nothing. -/
def alignment (decl : FieldDecl) : Nat :=
  match decl.kind with
  | .raw spec => spec.alignment
  | .nested type => type.alignment
  | .reference _ => 0

/-- The number of bytes that the fields take together. -/
def totalSize : List FieldDecl → Nat
  | [] => 0
  | decl :: decls => decl.byteSize + totalSize decls

variable {decl : FieldDecl} {kind : FieldKind} {referent : String}

theorem fieldKind_of_reference (h : decl.kind = .reference referent) :
    decl.fieldKind = .error (.referenceField decl.name referent) := by
  simp only [fieldKind, h]

theorem exists_reference_of_fieldKind {violation : CompositionViolation}
    (h : decl.fieldKind = .error violation) :
    ∃ referent, decl.kind = .reference referent ∧
      violation = .referenceField decl.name referent := by
  unfold fieldKind at h
  split at h
  · cases h
  · cases h
  · next referent hkind =>
    cases h
    exact ⟨referent, hkind, rfl⟩

theorem kind_of_fieldKind (h : decl.fieldKind = .ok kind) :
    (∃ spec, decl.kind = .raw spec ∧ kind = .raw spec) ∨
      ∃ type, decl.kind = .nested type ∧ kind = .nested type := by
  unfold fieldKind at h
  split at h
  · next spec hkind =>
    cases h
    exact Or.inl ⟨spec, hkind, rfl⟩
  · next type hkind =>
    cases h
    exact Or.inr ⟨type, hkind, rfl⟩
  · cases h

theorem byteSize_eq_of_fieldKind (h : decl.fieldKind = .ok kind) :
    decl.byteSize = kind.byteSize := by
  rcases kind_of_fieldKind h with ⟨spec, hkind, rfl⟩ | ⟨type, hkind, rfl⟩
  · simp only [byteSize, hkind, FieldKind.byteSize]
  · simp only [byteSize, hkind, FieldKind.byteSize]

theorem alignment_eq_of_fieldKind (h : decl.fieldKind = .ok kind) :
    decl.alignment = kind.alignment := by
  rcases kind_of_fieldKind h with ⟨spec, hkind, rfl⟩ | ⟨type, hkind, rfl⟩
  · simp only [alignment, hkind, FieldKind.alignment]
  · simp only [alignment, hkind, FieldKind.alignment]

theorem totalSize_append_singleton (decls : List FieldDecl) (decl : FieldDecl) :
    totalSize (decls ++ [decl]) = totalSize decls + decl.byteSize := by
  induction decls with
  | nil => exact Nat.add_comm _ _
  | cons first decls ih => rw [List.cons_append, totalSize, ih, totalSize, Nat.add_assoc]

end FieldDecl

namespace UnboxedType

open FieldDecl (totalSize totalSize_append_singleton)

/-- What a list of fields has to meet to make a type: it has no reference, all of it was made for
the one platform, no name is there twice, and all of it together is within the limit. -/
structure Acceptable (rules : CompositionRules) (decls : List FieldDecl) : Prop where
  noReference : ∀ decl ∈ decls, ∀ referent, decl.kind ≠ .reference referent
  platform_eq : ∀ decl ∈ decls, ∀ kind, decl.fieldKind = .ok kind →
    kind.platform = rules.platform
  names : (decls.map (·.name)).Nodup
  size_le : totalSize decls ≤ rules.sizeLimit

/-- The type consists of the declared fields in the order of their declaration.  Each starts at the
sum of the sizes of those before it. -/
structure LaysOut (type : UnboxedType) (decls : List FieldDecl) : Prop where
  names_eq : type.fields.map (·.name) = decls.map (·.name)
  kinds_eq : type.fields.map (fun field => .ok field.kind) = decls.map (·.fieldKind)
  sizes_eq : type.fields.map (·.byteSize) = decls.map (·.byteSize)
  offsets_eq : type.offsets = (List.range decls.length).map fun i => totalSize (decls.take i)
  byteSize_eq : type.byteSize = totalSize decls
  alignment_eq : type.alignment = (decls.map (·.alignment)).foldl max 1

/-- The reasons against `decl` as the next field behind the fields `before`.  There may be several
at once. -/
inductive Violates (rules : CompositionRules) (before : List FieldDecl) (decl : FieldDecl) :
    CompositionViolation → Prop
  | reference {referent : String} (hkind : decl.kind = .reference referent) :
      Violates rules before decl (.referenceField decl.name referent)
  | platform {kind : FieldKind} (hkind : decl.fieldKind = .ok kind)
      (hne : kind.platform ≠ rules.platform) :
      Violates rules before decl
        (.platformMismatch decl.name rules.platform.wordBytes kind.platform.wordBytes)
  | duplicate (hname : decl.name ∈ before.map (·.name)) :
      Violates rules before decl (.duplicateField decl.name)
  | size (hlimit : rules.sizeLimit < totalSize (before ++ [decl])) :
      Violates rules before decl (.sizeOverflow rules.sizeLimit)

/-- Of the reasons against `decl` behind `before`, the one that is looked for first. -/
structure FirstViolation (rules : CompositionRules) (before : List FieldDecl) (decl : FieldDecl)
    (violation : CompositionViolation) : Prop where
  violates : Violates rules before decl violation
  first : ∀ other, Violates rules before decl other → violation.rank ≤ other.rank

variable {rules : CompositionRules} {type : UnboxedType} {decl : FieldDecl} {field : Field}
  {before decls : List FieldDecl} {violation : CompositionViolation} {name : String}

/-! ## One more field -/

theorem Acceptable.nil (rules : CompositionRules) : Acceptable rules [] where
  noReference := by simp
  platform_eq := by simp
  names := List.nodup_nil
  size_le := Nat.zero_le _

/-- A list stays acceptable as long as there is nothing against the next field. -/
theorem acceptable_append_iff :
    Acceptable rules (before ++ [decl]) ↔
      Acceptable rules before ∧ ∀ violation, ¬ Violates rules before decl violation := by
  constructor
  · intro h
    have hmem : decl ∈ before ++ [decl] := by simp
    have hnames := h.names
    rw [List.map_append, List.map_singleton, List.nodup_append] at hnames
    obtain ⟨hnodup, -, hapart⟩ := hnames
    refine ⟨⟨fun other hother => h.noReference other (List.mem_append_left _ hother),
      fun other hother => h.platform_eq other (List.mem_append_left _ hother), hnodup, ?_⟩, ?_⟩
    · have hsize := h.size_le
      rw [totalSize_append_singleton] at hsize
      omega
    · intro violation hviolates
      cases hviolates with
      | reference hkind => exact h.noReference decl hmem _ hkind
      | platform hkind hne => exact hne (h.platform_eq decl hmem _ hkind)
      | duplicate hname => exact hapart _ hname _ (List.mem_singleton_self _) rfl
      | size hlimit => exact Nat.not_lt.2 h.size_le hlimit
  · rintro ⟨h, hnone⟩
    have hdecl : ∀ other ∈ before ++ [decl], other ∈ before ∨ other = decl := by simp
    refine ⟨?_, ?_, ?_, ?_⟩
    · intro other hother referent hkind
      rcases hdecl other hother with hother | rfl
      · exact h.noReference other hother referent hkind
      · exact hnone _ (.reference hkind)
    · intro other hother kind hkind
      rcases hdecl other hother with hother | rfl
      · exact h.platform_eq other hother kind hkind
      · by_contra hne
        exact hnone _ (.platform hkind hne)
    · rw [List.map_append, List.map_singleton, ← List.concat_eq_append]
      exact h.names.concat fun hname => hnone _ (.duplicate hname)
    · exact Nat.le_of_not_lt fun hlimit => hnone _ (.size hlimit)

/-- The fields up to some point are acceptable if all are. -/
theorem Acceptable.of_prefix (h : Acceptable rules decls) (hcut : before <+: decls) :
    Acceptable rules before := by
  obtain ⟨behind, rfl⟩ := hcut
  induction behind using List.reverseRecOn with
  | nil => rwa [List.append_nil] at h
  | append_singleton behind decl ih =>
    rw [← List.append_assoc] at h
    exact ih (acceptable_append_iff.1 h).1

/-! The checks come one after the other, and each of them narrows down what is left to be said
against the field. -/

namespace Violates

variable {kind : FieldKind} (h : Violates rules before decl violation)
  (hkind : decl.fieldKind = .ok kind)
include h hkind

theorem one_le_rank : 1 ≤ violation.rank := by
  cases h with
  | reference hreference =>
    rw [decl.fieldKind_of_reference hreference] at hkind
    cases hkind
  | platform _ _ => exact Nat.le_refl 1
  | duplicate _ => exact Nat.le_succ 1
  | size _ => exact Nat.le_add_left 1 2

theorem two_le_rank (hsame : kind.platform = rules.platform) : 2 ≤ violation.rank := by
  have hle := h.one_le_rank hkind
  cases h with
  | reference _ => exact absurd hle (Nat.not_succ_le_zero 0)
  | platform hother hne =>
    obtain rfl := Except.ok.inj (hkind.symm.trans hother)
    exact absurd hsame hne
  | duplicate _ => exact Nat.le_refl 2
  | size _ => exact Nat.le_succ 2

theorem eq_sizeOverflow (hsame : kind.platform = rules.platform)
    (hfresh : decl.name ∉ before.map (·.name)) : violation = .sizeOverflow rules.sizeLimit := by
  have hle := h.two_le_rank hkind hsame
  cases h with
  | reference _ => exact absurd hle (Nat.not_succ_le_zero 1)
  | platform _ _ => exact absurd hle (Nat.not_succ_le_self 1)
  | duplicate hname => exact absurd hname hfresh
  | size _ => rfl

end Violates

namespace LaysOut

theorem empty (name : String) (platform : Platform) : (empty name platform).LaysOut [] where
  names_eq := rfl
  kinds_eq := rfl
  sizes_eq := rfl
  offsets_eq := rfl
  byteSize_eq := rfl
  alignment_eq := rfl

/-- The name of a field is taken if a field before has it. -/
theorem any_name_iff (h : type.LaysOut before) {name : String} :
    type.fields.any (·.name == name) = true ↔ name ∈ before.map (·.name) := by
  rw [← h.names_eq, ← not_iff_not, Bool.not_eq_true]
  exact any_name_eq_false_iff

theorem append (h : type.LaysOut before)
    (hplace : type.placeNext rules.sizeLimit decl = .ok field) :
    (type.append field).LaysOut (before ++ [decl]) := by
  obtain ⟨hkind, -, -, -, hfield⟩ := placeNext_eq_ok hplace
  have hname : field.name = decl.name := by rw [hfield]
  have hoffset : field.offset = type.byteSize := by rw [hfield]
  have hsize : field.byteSize = decl.byteSize := by
    rw [decl.byteSize_eq_of_fieldKind hkind, hfield]
  refine ⟨?_, ?_, ?_, ?_, ?_, ?_⟩
  · rw [fields_append, List.map_append, List.map_append, h.names_eq, List.map_singleton, hname,
      List.map_singleton]
  · rw [fields_append, List.map_append, List.map_append, h.kinds_eq, List.map_singleton, ← hkind,
      List.map_singleton]
  · rw [fields_append, List.map_append, List.map_append, h.sizes_eq, List.map_singleton, hsize,
      List.map_singleton]
  · -- the new field starts behind all others, whose own offsets stay
    have hkeeps : (List.range before.length).map (fun i => totalSize ((before ++ [decl]).take i)) =
        type.offsets := by
      rw [h.offsets_eq]
      refine List.map_congr_left fun i hi => ?_
      rw [List.take_append_of_le_length (Nat.le_of_lt (List.mem_range.1 hi))]
    rw [List.length_append, List.length_singleton, List.range_succ, List.map_append, hkeeps,
      List.map_singleton, List.take_left, offsets, fields_append, List.map_append,
      List.map_singleton, hoffset, h.byteSize_eq]
    rfl
  · rw [byteSize_append, h.byteSize_eq, hsize, totalSize_append_singleton]
  · rw [alignment_append, h.alignment_eq, List.map_append, List.map_singleton, List.foldl_append,
      decl.alignment_eq_of_fieldKind hkind]
    rfl

/-- There is nothing against a field that is placed. -/
theorem not_violates (h : type.LaysOut before) (hplatform : type.platform = rules.platform)
    (hplace : type.placeNext rules.sizeLimit decl = .ok field) :
    ¬ Violates rules before decl violation := by
  obtain ⟨hkind, hsame, hname, hlimit, -⟩ := placeNext_eq_ok hplace
  have hfresh : decl.name ∉ before.map (·.name) := by
    rw [← h.any_name_iff, hname]
    exact Bool.false_ne_true
  intro hviolates
  -- all that is left is the size, and the type with the field is within the limit
  obtain rfl := hviolates.eq_sizeOverflow hkind (hsame.trans hplatform) hfresh
  cases hviolates with
  | size hover =>
    rw [totalSize_append_singleton, decl.byteSize_eq_of_fieldKind hkind, ← h.byteSize_eq] at hover
    omega

/-- A field that is refused is refused for the first of the reasons against it. -/
theorem firstViolation (h : type.LaysOut before) (hplatform : type.platform = rules.platform)
    (hplace : type.placeNext rules.sizeLimit decl = .error violation) :
    FirstViolation rules before decl violation := by
  unfold placeNext at hplace
  split at hplace
  · next found hkind =>
    cases hplace
    obtain ⟨referent, hreference, rfl⟩ := decl.exists_reference_of_fieldKind hkind
    exact ⟨.reference hreference, fun _ _ => Nat.zero_le _⟩
  · next kind hkind =>
    split at hplace
    · next hne =>
      cases hplace
      rw [hplatform] at hne ⊢
      exact ⟨.platform hkind hne, fun _ hother => hother.one_le_rank hkind⟩
    · next hsame =>
      have hsame : kind.platform = rules.platform := (not_not.1 hsame).trans hplatform
      split at hplace
      · next hname =>
        cases hplace
        exact ⟨.duplicate (h.any_name_iff.1 hname), fun _ hother => hother.two_le_rank hkind hsame⟩
      · next hname =>
        split at hplace
        · next hlimit =>
          cases hplace
          refine ⟨.size ?_, fun other hother => ?_⟩
          · rw [totalSize_append_singleton, decl.byteSize_eq_of_fieldKind hkind, ← h.byteSize_eq]
            exact hlimit
          · have honly := hother.eq_sizeOverflow hkind hsame fun hmem =>
              hname (h.any_name_iff.2 hmem)
            exact Nat.le_of_eq (congrArg CompositionViolation.rank honly.symm)
        · cases hplace

end LaysOut

/-! ## Whole lists -/

theorem compose_concat_of_ok (hbefore : (compose name before rules).result = .ok type)
    (hplace : type.placeNext rules.sizeLimit decl = .ok field) :
    (compose name (before ++ [decl]) rules).result = .ok (type.append field) := by
  rw [compose_eq_ok_iff, appendAll_append_of_ok (compose_eq_ok_iff.1 hbefore),
    appendAll_cons_of_placeNext hplace]
  rfl

/-- A type composed with one more field is the type without it, which had a place for it. -/
theorem exists_of_compose_concat (h : (compose name (before ++ [decl]) rules).result = .ok type) :
    ∃ middle field, (compose name before rules).result = .ok middle ∧
      middle.placeNext rules.sizeLimit decl = .ok field ∧ type = middle.append field := by
  rw [compose_eq_ok_iff] at h
  rcases hbefore : ((empty name rules.platform).appendAll rules.sizeLimit before).result with
    violation | middle
  · rw [appendAll_append_of_error hbefore] at h
    cases h
  · rw [appendAll_append_of_ok hbefore] at h
    rcases hplace : middle.placeNext rules.sizeLimit decl with violation | field
    · rw [appendAll_cons_of_refused hplace] at h
      cases h
    · rw [appendAll_cons_of_placeNext hplace] at h
      cases h
      exact ⟨middle, field, compose_eq_ok_iff.2 hbefore, hplace, rfl⟩

/-- What composes is acceptable, and is laid out in its order. -/
theorem acceptable_of_compose (h : (compose name decls rules).result = .ok type) :
    Acceptable rules decls ∧ type.LaysOut decls := by
  induction decls using List.reverseRecOn generalizing type with
  | nil =>
    cases h
    exact ⟨.nil rules, .empty name rules.platform⟩
  | append_singleton before decl ih =>
    obtain ⟨middle, field, hbefore, hplace, rfl⟩ := exists_of_compose_concat h
    obtain ⟨hacceptable, hlaysOut⟩ := ih hbefore
    refine ⟨acceptable_append_iff.2 ⟨hacceptable, fun _ => ?_⟩, hlaysOut.append hplace⟩
    exact hlaysOut.not_violates (platform_of_compose hbefore) hplace

/-- What is acceptable composes. -/
theorem exists_compose_of_acceptable (name : String) (h : Acceptable rules decls) :
    ∃ type, (compose name decls rules).result = .ok type := by
  induction decls using List.reverseRecOn with
  | nil => exact ⟨empty name rules.platform, rfl⟩
  | append_singleton before decl ih =>
    obtain ⟨hbefore, hnone⟩ := acceptable_append_iff.1 h
    obtain ⟨type, hcompose⟩ := ih hbefore
    rcases hplace : type.placeNext rules.sizeLimit decl with violation | field
    · have hfirst := (acceptable_of_compose hcompose).2.firstViolation
        (platform_of_compose hcompose) hplace
      exact absurd hfirst.violates (hnone violation)
    · exact ⟨type.append field, compose_concat_of_ok hcompose hplace⟩

/-- The violation that a refused composition names is the first against the field to blame, with
which the list stops being acceptable. -/
theorem Blames.firstViolation (h : Blames name rules decls before decl violation) :
    FirstViolation rules before decl violation ∧ Acceptable rules before ∧
      ¬ Acceptable rules (before ++ [decl]) := by
  obtain ⟨type, hcompose, hplace⟩ := h.placeNext_eq
  obtain ⟨hacceptable, hlaysOut⟩ := acceptable_of_compose hcompose
  have hfirst := hlaysOut.firstViolation (platform_of_compose hcompose) hplace
  exact ⟨hfirst, hacceptable, fun h => (acceptable_append_iff.1 h).2 violation hfirst.violates⟩

/-- Exactly the acceptable lists of fields compose, whatever the name.  The type has the fields in
their order, each at the sum of the sizes before it.  A refusal names the first field with which the
fields up to it are not acceptable, and the first of the violations of this field. -/
theorem compose_accepts (name : String) (decls : List FieldDecl) (rules : CompositionRules) :
    ((∃ type, (compose name decls rules).result = .ok type) ↔ Acceptable rules decls) ∧
      (∀ type, (compose name decls rules).result = .ok type →
        type.name = name ∧ type.platform = rules.platform ∧ type.LaysOut decls) ∧
      ∀ error, (compose name decls rules).result = .error error →
        ∃ i decl violation, decls[i]? = some decl ∧ error = .illegalComposition name violation ∧
          (∀ j ≤ i, Acceptable rules (decls.take j)) ∧ ¬ Acceptable rules (decls.take (i + 1)) ∧
          FirstViolation rules (decls.take i) decl violation := by
  refine ⟨⟨?_, exists_compose_of_acceptable name⟩, fun type h => ?_, fun error h => ?_⟩
  · rintro ⟨type, h⟩
    exact (acceptable_of_compose h).1
  · exact ⟨name_of_compose h, platform_of_compose h, (acceptable_of_compose h).2⟩
  · obtain ⟨before, decl, violation, hblames, rfl⟩ := compose_eq_error_iff.1 h
    obtain ⟨hfirst, hacceptable, hnot⟩ := hblames.firstViolation
    obtain ⟨behind, rfl⟩ := hblames.cut
    refine ⟨before.length, decl, violation, by simp, rfl, fun j hj => ?_, ?_, ?_⟩
    · refine hacceptable.of_prefix ?_
      rw [List.append_assoc, List.take_append_of_le_length hj]
      exact List.take_prefix j before
    · rwa [List.take_left' (by simp)]
    · rwa [List.append_assoc, List.take_left]

-- a reference whose name is taken is refused for being a reference
example : (compose "cell" (cellDecls ++ [⟨"tag", .reference "node"⟩]) ⟨.bits16, none⟩).result =
    .error (.illegalComposition "cell" (.referenceField "tag" "node")) := rfl

end UnboxedType

end UnboxedRecords
