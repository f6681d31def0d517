import UnboxedRecords.Proofs.UnboxedType.Composed

/-!
# Refused compositions

A composition that is refused is refused on account of one field: the fields before it would have
composed to a type, and together with it they would not (`UnboxedType.Blames`).  Every error of a
composition names the violation of this field (`UnboxedType.compose_eq_error_iff`), and the
violation is the one for which the type of the fields before it has no place for the field
(`UnboxedType.Blames.placeNext_eq`).
-/

namespace UnboxedRecords

namespace UnboxedType

/-- Among `decls`, the field `decl` behind the fields `before` is the first that is refused when the
type called `name` is composed, and `violation` is the reason. -/
structure Blames (name : String) (rules : CompositionRules) (decls before : List FieldDecl)
    (decl : FieldDecl) (violation : CompositionViolation) : Prop where
  cut : before ++ [decl] <+: decls
  accepted : ∃ type, (compose name before rules).result = .ok type
  refused : (compose name (before ++ [decl]) rules).result =
    .error (.illegalComposition name violation)

variable {type middle final : UnboxedType} {limit : Nat} {decl : FieldDecl} {field : Field}
  {first second before decls : List FieldDecl} {violation : CompositionViolation}

/-! ## Compositions in two parts -/

theorem appendAll_cons_of_refused (hplace : type.placeNext limit decl = .error violation)
    (decls : List FieldDecl) :
    (type.appendAll limit (decl :: decls)).result = .error violation := by
  rw [appendAll, hplace]
  rfl

/-- All fields are accepted exactly if the first is, and then the others behind it. -/
theorem appendAll_cons_eq_ok_iff :
    (type.appendAll limit (decl :: decls)).result = .ok final ↔
      ∃ field, type.placeNext limit decl = .ok field ∧
        ((type.append field).appendAll limit decls).result = .ok final := by
  rcases hplace : type.placeNext limit decl with violation | field
  · simp [appendAll_cons_of_refused hplace]
  · simp [appendAll_cons_of_placeNext hplace]

theorem appendAll_append_of_ok (h : (type.appendAll limit first).result = .ok middle)
    (second : List FieldDecl) :
    (type.appendAll limit (first ++ second)).result = (middle.appendAll limit second).result := by
  induction first generalizing type with
  | nil =>
    cases h
    rfl
  | cons decl first ih =>
    obtain ⟨field, hplace, h⟩ := appendAll_cons_eq_ok_iff.1 h
    rw [List.cons_append, appendAll_cons_of_placeNext hplace]
    exact ih h

theorem appendAll_append_of_error (h : (type.appendAll limit first).result = .error violation)
    (second : List FieldDecl) :
    (type.appendAll limit (first ++ second)).result = .error violation := by
  induction first generalizing type with
  | nil => cases h
  | cons decl first ih =>
    rcases hplace : type.placeNext limit decl with violation | field
    · rw [appendAll_cons_of_refused hplace] at h
      rw [List.cons_append, appendAll_cons_of_refused hplace]
      exact h
    · rw [appendAll_cons_of_placeNext hplace] at h
      rw [List.cons_append, appendAll_cons_of_placeNext hplace]
      exact ih h

/-- A composition fails at one field, behind fields that are all accepted. -/
theorem exists_refused_of_appendAll (h : (type.appendAll limit decls).result = .error violation) :
    ∃ before decl behind middle, decls = before ++ decl :: behind ∧
      (type.appendAll limit before).result = .ok middle ∧
      middle.placeNext limit decl = .error violation := by
  induction decls generalizing type with
  | nil => cases h
  | cons decl decls ih =>
    rcases hplace : type.placeNext limit decl with violation' | field
    · rw [appendAll_cons_of_refused hplace] at h
      cases h
      exact ⟨[], decl, decls, type, rfl, rfl, hplace⟩
    · rw [appendAll_cons_of_placeNext hplace] at h
      obtain ⟨before, blamed, behind, middle, rfl, hbefore, hrefused⟩ := ih h
      refine ⟨decl :: before, blamed, behind, middle, rfl, ?_, hrefused⟩
      rw [appendAll_cons_of_placeNext hplace]
      exact hbefore

/-! ## The field to blame -/

section Compose

variable {name : String} {rules : CompositionRules} {error : DeclError}

theorem compose_eq_error_iff_appendAll :
    (compose name decls rules).result = .error error ↔
      ∃ violation, error = .illegalComposition name violation ∧
        ((empty name rules.platform).appendAll rules.sizeLimit decls).result =
          .error violation := by
  rcases happend : ((empty name rules.platform).appendAll rules.sizeLimit decls).result with
    violation | type
  · have hresult : (compose name decls rules).result =
        .error (.illegalComposition name violation) := by
      rw [compose, Logged.andThen_of_error (by rw [Logged.result_mapError, happend]; rfl)]
    simp [hresult, eq_comm]
  · simp [compose_eq_ok_iff.2 happend]

/-- The fields before the one to blame make a type that has no place for it. -/
theorem Blames.placeNext_eq (h : Blames name rules decls before decl violation) :
    ∃ type, (compose name before rules).result = .ok type ∧
      type.placeNext rules.sizeLimit decl = .error violation := by
  obtain ⟨type, haccepted⟩ := h.accepted
  refine ⟨type, haccepted, ?_⟩
  obtain ⟨found, hfound, hrefused⟩ := compose_eq_error_iff_appendAll.1 h.refused
  cases hfound
  rw [appendAll_append_of_ok (compose_eq_ok_iff.1 haccepted)] at hrefused
  rcases hplace : type.placeNext rules.sizeLimit decl with found | field
  · rw [appendAll_cons_of_refused hplace] at hrefused
    cases hrefused
    rfl
  · rw [appendAll_cons_of_placeNext hplace] at hrefused
    cases hrefused

/-- A composition is refused exactly if there is a field to blame, and for the reason that there is
to blame it. -/
theorem compose_eq_error_iff :
    (compose name decls rules).result = .error error ↔
      ∃ before decl violation, Blames name rules decls before decl violation ∧
        error = .illegalComposition name violation := by
  constructor
  · intro herror
    obtain ⟨violation, rfl, happend⟩ := compose_eq_error_iff_appendAll.1 herror
    obtain ⟨before, decl, behind, middle, rfl, hbefore, hplace⟩ :=
      exists_refused_of_appendAll happend
    refine ⟨before, decl, violation, ⟨?_, ⟨middle, compose_eq_ok_iff.2 hbefore⟩, ?_⟩, rfl⟩
    · exact ⟨behind, by rw [List.append_assoc, List.singleton_append]⟩
    · refine compose_eq_error_iff_appendAll.2 ⟨violation, rfl, ?_⟩
      rw [appendAll_append_of_ok hbefore, appendAll_cons_of_refused hplace]
  · rintro ⟨before, decl, violation, hblames, rfl⟩
    obtain ⟨behind, rfl⟩ := hblames.cut
    obtain ⟨found, hfound, hrefused⟩ := compose_eq_error_iff_appendAll.1 hblames.refused
    exact compose_eq_error_iff_appendAll.2
      ⟨found, hfound, appendAll_append_of_error hrefused behind⟩

/-- A nested type of the right platform is only ever refused for its name or for its size. -/
theorem Blames.of_nested {inner : UnboxedType} (hplatform : inner.platform = rules.platform)
    {fieldName : String} (h : Blames name rules decls before ⟨fieldName, .nested inner⟩ violation) :
    violation = .duplicateField fieldName ∨ violation = .sizeOverflow rules.sizeLimit := by
  obtain ⟨type, haccepted, hplace⟩ := h.placeNext_eq
  have hsame : (FieldKind.nested inner).platform = type.platform :=
    hplatform.trans (platform_of_compose haccepted).symm
  simp only [placeNext, FieldDecl.fieldKind, hsame, ne_eq, not_true_eq_false, if_false] at hplace
  split at hplace
  · cases hplace
    exact Or.inl rfl
  · split at hplace
    · cases hplace
      exact Or.inr rfl
    · cases hplace

end Compose

end UnboxedType

end UnboxedRecords
