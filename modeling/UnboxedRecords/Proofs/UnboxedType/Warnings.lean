import UnboxedRecords.Proofs.UnboxedType.Equality

/-!
# Warnings

A composition warns of every field that it puts at an offset which the alignment of the field does
not divide.  Which fields these are follows from the declared fields alone: each comes to lie behind
those before it, and `FieldDecl.misplaced` lists the ones for which this is a bad place.

While a type is composed the warnings are given one by one, at the offset that has been reached;
afterwards the type can be asked for its misaligned fields, and looks at the offsets that it stores.
`UnboxedType.warnings_appendAll` says that both come to the same, and
`UnboxedType.warnings_match_report` what a whole composition tells, also one that is cut short.
-/

namespace UnboxedRecords

namespace FieldDecl

/-- The fields, the first of them at `start` and each behind the one before it, that come to lie at
an offset which their alignment does not divide, each with this offset. -/
def misplaced (start : Nat) : List FieldDecl → List (FieldDecl × Nat)
  | [] => []
  | decl :: decls =>
    if decl.alignment ∣ start then misplaced (start + decl.byteSize) decls
    else (decl, start) :: misplaced (start + decl.byteSize) decls

/-- The warning about a field of the type called `type` at an offset. -/
def warning (type : String) (entry : FieldDecl × Nat) : Event :=
  .misaligned type entry.1.name entry.1.alignment entry.2

/-- A field, and those behind it. -/
theorem misplaced_cons (start : Nat) (decl : FieldDecl) (decls : List FieldDecl) :
    misplaced start (decl :: decls) =
      misplaced start [decl] ++ misplaced (start + decl.byteSize) decls := by
  by_cases hdvd : decl.alignment ∣ start
  · simp [misplaced, hdvd]
  · simp [misplaced, hdvd]

end FieldDecl

namespace UnboxedType

open FieldDecl (misplaced misplaced_cons warning)

/-- The fields that are not aligned where they are, as they were declared, each with its offset. -/
def misalignments (type : UnboxedType) : List (FieldDecl × Nat) :=
  (type.fields.filter (!·.isAligned)).map fun field => (field.decl, field.offset)

variable {type middle final : UnboxedType} {limit : Nat} {decl : FieldDecl} {field : Field}
  {first decls : List FieldDecl} {violation : CompositionViolation} {name : String}
  {rules : CompositionRules}

theorem misalignedFields_eq (type : UnboxedType) :
    type.misalignedFields = type.misalignments.map (·.1.name) := by
  rw [misalignments, List.map_map]
  rfl

/-! ## One field -/

theorem events_appendAll_cons (hplace : type.placeNext limit decl = .ok field)
    (decls : List FieldDecl) :
    (type.appendAll limit (decl :: decls)).events =
      field.warnings type.name ++ ((type.append field).appendAll limit decls).events := by
  rw [appendAll, hplace]
  rfl

theorem events_appendAll_cons_of_refused (hplace : type.placeNext limit decl = .error violation)
    (decls : List FieldDecl) : (type.appendAll limit (decl :: decls)).events = [] := by
  rw [appendAll, hplace]
  rfl

theorem byteSize_of_placeNext (h : type.placeNext limit decl = .ok field) :
    field.byteSize = decl.byteSize := by
  obtain ⟨hkind, -, -, -, hfield⟩ := placeNext_eq_ok h
  rw [decl.byteSize_eq_of_fieldKind hkind, hfield]

/-- A field that is placed is warned of if it is misplaced by its declaration, and then it is also
one of the misaligned fields of the type. -/
theorem warnings_of_placeNext (h : type.placeNext limit decl = .ok field) :
    field.warnings type.name = (misplaced type.byteSize [decl]).map (warning type.name) ∧
      (type.append field).misalignments =
        type.misalignments ++ misplaced type.byteSize [decl] := by
  obtain ⟨hkind, -, -, -, hfield⟩ := placeNext_eq_ok h
  have hdecl : field.decl = decl := decl_of_placeNext h
  have hname : field.name = decl.name := by rw [hfield]
  have hoffset : field.offset = type.byteSize := by rw [hfield]
  have halignment : field.kind.alignment = decl.alignment :=
    (decl.alignment_eq_of_fieldKind hkind).symm
  have haligned : field.isAligned = decide (decl.alignment ∣ type.byteSize) := by
    rw [Field.isAligned, hoffset, halignment, Bool.eq_iff_iff, beq_iff_eq, decide_eq_true_iff,
      Nat.dvd_iff_mod_eq_zero]
  rw [misalignments, fields_append, List.filter_append, List.map_append, ← misalignments,
    Field.warnings, haligned, hname, hoffset, halignment]
  by_cases hdvd : decl.alignment ∣ type.byteSize
  · simp [misplaced, haligned, hdvd]
  · simp [misplaced, haligned, hdvd, warning, hdecl, hoffset]

/-! ## All fields -/

/-- What is told of a list of fields is told of its first part, and then of the others. -/
theorem events_appendAll_append (h : (type.appendAll limit first).result = .ok middle)
    (second : List FieldDecl) :
    (type.appendAll limit (first ++ second)).events =
      (type.appendAll limit first).events ++ (middle.appendAll limit second).events := by
  induction first generalizing type with
  | nil =>
    cases h
    rfl
  | cons decl first ih =>
    obtain ⟨field, hplace, h⟩ := appendAll_cons_eq_ok_iff.1 h
    rw [List.cons_append, events_appendAll_cons hplace, events_appendAll_cons hplace, ih h,
      List.append_assoc]

/-- The warnings given while fields are placed are about the fields that are misplaced by their
declaration, and these are the misaligned fields that the type has in addition afterwards. -/
theorem warnings_appendAll (h : (type.appendAll limit decls).result = .ok final) :
    (type.appendAll limit decls).events =
        (misplaced type.byteSize decls).map (warning type.name) ∧
      final.misalignments = type.misalignments ++ misplaced type.byteSize decls := by
  induction decls generalizing type with
  | nil =>
    cases h
    exact ⟨rfl, (List.append_nil _).symm⟩
  | cons decl decls ih =>
    obtain ⟨field, hplace, h⟩ := appendAll_cons_eq_ok_iff.1 h
    obtain ⟨hwarnings, hfields⟩ := warnings_of_placeNext hplace
    -- the others go on behind this field, in the list of declarations as in the type
    obtain ⟨hevents, hfinal⟩ := ih h
    rw [byteSize_append, byteSize_of_placeNext hplace] at hevents hfinal
    rw [events_appendAll_cons hplace, hwarnings, hevents, hfinal, hfields,
      misplaced_cons type.byteSize decl decls, List.map_append, List.append_assoc]
    exact ⟨rfl, rfl⟩

/-! ## A whole composition -/

theorem events_compose_of_ok (h : (compose name decls rules).result = .ok type) :
    (compose name decls rules).events =
      (misplaced 0 decls).map (warning name) ++ [.composed type.summary] := by
  have happend := compose_eq_ok_iff.1 h
  have hresult : (((empty name rules.platform).appendAll rules.sizeLimit decls).mapError
      (DeclError.illegalComposition name)).result = .ok type := by
    rw [Logged.result_mapError, happend]
    rfl
  rw [compose, Logged.andThen_of_ok hresult]
  exact congrArg (· ++ [Event.composed type.summary]) (warnings_appendAll happend).1

/-- A composition that is refused tells of nothing but the fields before the one to blame. -/
theorem Blames.events_eq {before : List FieldDecl}
    (h : Blames name rules decls before decl violation) :
    (compose name decls rules).events = (misplaced 0 before).map (warning name) := by
  obtain ⟨middle, haccepted, hplace⟩ := h.placeNext_eq
  obtain ⟨behind, rfl⟩ := h.cut
  have hbefore := compose_eq_ok_iff.1 haccepted
  rw [List.append_assoc, List.singleton_append]
  have hrefused : (((empty name rules.platform).appendAll rules.sizeLimit
      (before ++ decl :: behind)).mapError (DeclError.illegalComposition name)).result =
        .error (.illegalComposition name violation) := by
    rw [Logged.result_mapError, appendAll_append_of_ok hbefore, appendAll_cons_of_refused hplace]
    rfl
  rw [compose, Logged.andThen_of_error hrefused, Logged.events_mapError,
    events_appendAll_append hbefore, (warnings_appendAll hbefore).1,
    events_appendAll_cons_of_refused hplace, List.append_nil]
  rfl

/-- A composition that makes a type warns of each field whose offset is no multiple of its
alignment, in the order of declaration, and then tells once what it composed; the fields that it
warned of are the misaligned fields of the type.  A composition that is refused warns of such fields
before the one to blame, and tells nothing else. -/
theorem warnings_match_report (name : String) (decls : List FieldDecl) (rules : CompositionRules) :
    (match (compose name decls rules).result with
      | .ok type =>
        (compose name decls rules).events = (misplaced 0 decls).map (warning name) ++
            [.composed ⟨name, type.byteSize, type.alignment, type.fields.length⟩] ∧
          type.misalignments = misplaced 0 decls ∧
          type.misalignedFields = (misplaced 0 decls).map (·.1.name)
      | .error error => ∃ before decl violation, Blames name rules decls before decl violation ∧
          error = .illegalComposition name violation ∧
          (compose name decls rules).events = (misplaced 0 before).map (warning name)) ∧
      (∀ decl offset, (warning name (decl, offset)).level = .warn ∧
        (warning name (decl, offset)).text =
        s!"{name}.{decl.name} needs {decl.alignment}-byte alignment but sits at offset {offset}") ∧
      ∀ t : TypeSummary, (Event.composed t).level = .debug ∧ (Event.composed t).text =
        s!"composed unboxed type {t.name}: {t.fieldCount} fields, {t.byteSize} bytes, " ++
          s!"align {t.alignment}" := by
  refine ⟨?_, fun _ _ => ⟨rfl, rfl⟩, fun _ => ⟨rfl, rfl⟩⟩
  split
  · next type h =>
    have hfields : type.misalignments = misplaced 0 decls :=
      (warnings_appendAll (compose_eq_ok_iff.1 h)).2
    refine ⟨?_, hfields, by rw [misalignedFields_eq, hfields]⟩
    rw [events_compose_of_ok h, summary, name_of_compose h]
  · next error h =>
    obtain ⟨before, decl, violation, hblames, rfl⟩ := compose_eq_error_iff.1 h
    exact ⟨before, decl, violation, hblames, rfl, hblames.events_eq⟩

-- the word sits behind three bytes, and is warned of before a second one of its name is refused
example : (compose "cell" (cellDecls.reverse ++ cellDecls) ⟨.bits16, none⟩).events =
    [.misaligned "cell" "bits" 2 3] := rfl

end UnboxedType

end UnboxedRecords
