import UnboxedRecords.Proofs.Registry.Runs
import UnboxedRecords.Proofs.UnboxedType.Refusals

/-!
# The types of a registry belong together

A registry lays types out for one platform and up to one size.  A type may embed types that come
from elsewhere, composed for other platforms or under other caps, and nothing looks into these when
they are embedded.  All the same, whatever a registry holds is for its platform and within its
limit, and so is everything nested in there, at any depth (`Registry.after_closed`): the platform
of a field is that of its type, and no field is larger than its type.

So a field that embeds a type of the registry fits the platform of every later definition.  If it
is the one to blame there, then for its name or for its size.
-/

namespace UnboxedRecords

/-- The fields of the call hold declared storage, references, or types that were composed in
whatever way, in this registry or another or in none. -/
structure DefineCall.Sourced (call : DefineCall) : Prop where
  declared : ∀ decl ∈ call.decls, ∀ spec, decl.kind = .raw spec → spec.Declared
  composed : ∀ decl ∈ call.decls, ∀ inner, decl.kind = .nested inner → inner.Composed

namespace UnboxedType

/-- The type is composed, for the platform of the rules and within their limit. -/
structure Meets (rules : CompositionRules) (type : UnboxedType) : Prop where
  composed : type.Composed
  platform_eq : type.platform = rules.platform
  byteSize_le : type.byteSize ≤ rules.sizeLimit

variable {rules : CompositionRules} {type inner : UnboxedType}

/-- What is nested in a type is held to the rules by the type alone. -/
theorem Meets.within (h : type.Meets rules) (hwithin : inner.Within type) : inner.Meets rules where
  composed := Composed.of_within hwithin h.composed
  platform_eq := (Composed.platform_eq_of_within hwithin h.composed).trans h.platform_eq
  byteSize_le := Nat.le_trans (Composed.byteSize_le_of_within hwithin h.composed) h.byteSize_le

theorem meets_of_composes {call : DefineCall} (hcall : call.Sourced)
    (hcomposes : call.Composes rules type) : type.Meets rules where
  composed := .compose hcall.declared hcall.composed hcomposes
  platform_eq := platform_of_compose hcomposes
  byteSize_le := byteSize_le_of_compose hcomposes

end UnboxedType

namespace Registry

variable {registry : Registry} {calls : List DefineCall} {call : DefineCall} {type : UnboxedType}

/-- All types of the registry meet its rules. -/
def Closed (registry : Registry) : Prop :=
  ∀ id type, registry.get? id = some type → type.Meets registry.rules

theorem closed_new (rules : CompositionRules) : ({ rules } : Registry).Closed := by
  intro id type hget
  cases hget

namespace Closed

theorem insert (h : registry.Closed) (name : String) (htype : type.Meets registry.rules) :
    (registry.insert name type).Closed := by
  intro id other hget
  rw [get?_insert] at hget
  split at hget
  · cases hget
    exact htype
  · exact h id other hget

theorem perform (h : registry.Closed) (hcall : call.Sourced) :
    (registry.perform call).state.Closed := by
  have hcases := registry.perform_cases call
  generalize (registry.perform call).result = result at hcases
  generalize (registry.perform call).state = next at hcases ⊢
  cases hcases with
  | refused _ _ => exact h
  | defined hadmits => exact h.insert _ (UnboxedType.meets_of_composes hcall hadmits.composes)

theorem after (h : registry.Closed) (hcalls : ∀ call ∈ calls, call.Sourced) :
    (registry.after calls).Closed := by
  induction calls generalizing registry with
  | nil => exact h
  | cons call calls ih =>
    obtain ⟨hcall, hrest⟩ := List.forall_mem_cons.1 hcalls
    exact ih (h.perform hcall) hrest

/-- A field that embeds a type of the registry embeds one for its platform. -/
theorem nestedField_eq_ok (h : registry.Closed) {field name : String} {decl : FieldDecl}
    (hfield : registry.nestedField field name = .ok decl) :
    ∃ inner, decl = ⟨field, .nested inner⟩ ∧ inner.platform = registry.rules.platform := by
  unfold nestedField at hfield
  split at hfield
  · next inner hfind =>
    cases hfield
    obtain ⟨id, -, hget⟩ := Option.bind_eq_some_iff.1 hfind
    exact ⟨inner, rfl, (h id inner hget).platform_eq⟩
  · cases hfield

end Closed

/-- What is wrong with the declaration of a type is what is wrong with its composition. -/
theorem compose_eq_error_of_perform {error : DeclError}
    (h : (registry.perform call).result = .error (.declaration error)) :
    (UnboxedType.compose call.name call.decls registry.rules).result = .error error := by
  rw [perform, define] at h
  split at h
  · cases h
  · split at h
    · cases h
    · rcases hcompose : (UnboxedType.compose call.name call.decls registry.rules).result with
        found | type
      · simp only [hcompose] at h
        cases h
        rfl
      · simp only [hcompose] at h
        cases h

/-- Whatever calls a registry was filled by, and wherever the types come from that these embed: all
types of the registry meet its rules, and so do all that are nested in them, at whatever depth.
From then on, a type that is refused for its fields is refused for the first of them that does not
fit, and if this one embeds a type of the registry, it is its name that is taken or its size that
is too much. -/
theorem after_closed (rules : CompositionRules) (calls : List DefineCall)
    (hcalls : ∀ call ∈ calls, call.Sourced) :
    let registry := ({ rules } : Registry).after calls
    registry.rules = rules ∧
      (∀ id type, registry.get? id = some type →
        ∀ inner : UnboxedType, inner.Within type → inner.Meets rules) ∧
      ∀ more call,
        (∀ error, ((registry.after more).perform call).result = .error (.declaration error) →
          ∃ before blamed violation,
            UnboxedType.Blames call.name rules call.decls before blamed violation ∧
            error = .illegalComposition call.name violation) ∧
        ∀ before blamed violation,
          UnboxedType.Blames call.name rules call.decls before blamed violation →
          (∃ field type, registry.nestedField field type = .ok blamed) →
          violation = .duplicateField blamed.name ∨ violation = .sizeOverflow rules.sizeLimit := by
  intro registry
  have hrules : registry.rules = rules := (({ rules } : Registry).keeps_after calls).rules_eq
  have hclosed : registry.Closed := (closed_new rules).after hcalls
  refine ⟨hrules, fun id type hget inner hwithin => ?_,
    fun more call => ⟨fun error herror => ?_, ?_⟩⟩
  · rw [← hrules]
    exact (hclosed id type hget).within hwithin
  · have hcompose := compose_eq_error_of_perform herror
    rw [(registry.keeps_after more).rules_eq, hrules] at hcompose
    exact UnboxedType.compose_eq_error_iff.1 hcompose
  · rintro before blamed violation hblames ⟨field, name, hfield⟩
    obtain ⟨inner, rfl, hplatform⟩ := hclosed.nestedField_eq_ok hfield
    rw [hrules] at hplatform
    exact hblames.of_nested hplatform

/-- The cells come from elsewhere and were composed without a cap.  Two of the pairs that embed them
outgrow the cap of the registry, and the second pair is the field to blame. -/
theorem after_closed_pair :
    let rules : CompositionRules := ⟨.bits16, some 12⟩
    let registry := ({ rules } : Registry).after [⟨"pair", UnboxedType.pairDecls⟩]
    let left : FieldDecl := ⟨"left", .nested UnboxedType.pair⟩
    let right : FieldDecl := ⟨"right", .nested UnboxedType.pair⟩
    UnboxedType.cell.Meets rules ∧
      (registry.perform ⟨"twins", [left, right]⟩).result =
        .error (.declaration (.illegalComposition "twins" (.sizeOverflow 12))) ∧
      UnboxedType.Blames "twins" rules [left, right] [left] right (.sizeOverflow 12) ∧
      ∀ violation, UnboxedType.Blames "twins" rules [left, right] [left] right violation →
        violation = .duplicateField "right" ∨ violation = .sizeOverflow 12 := by
  intro rules registry left right
  have hsourced : ∀ call ∈ [(⟨"pair", UnboxedType.pairDecls⟩ : DefineCall)], call.Sourced := by
    intro call hcall
    cases List.mem_singleton.1 hcall
    exact ⟨UnboxedType.declared_pairDecls, UnboxedType.nested_pairDecls⟩
  obtain ⟨-, htypes, hrefusals⟩ := after_closed rules _ hsourced
  have hwithin : UnboxedType.cell.Within UnboxedType.pair := .field List.mem_cons_self rfl .self
  have hright : registry.nestedField "right" "pair" = .ok right := rfl
  refine ⟨htypes 0 UnboxedType.pair rfl _ hwithin, rfl, ?_, ?_⟩
  · exact ⟨List.prefix_refl _, ⟨_, rfl⟩, rfl⟩
  · intro violation hblames
    exact (hrefusals [] ⟨"twins", [left, right]⟩).2 _ _ _ hblames ⟨_, _, hright⟩

end Registry

end UnboxedRecords
