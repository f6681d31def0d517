import UnboxedRecords.Registry.Basic

/-!
# Runs of a registry

A registry is filled by a run of calls that each ask for the definition of one type.  A call that is
refused leaves the registry as it was, and a call that is granted inserts one type
(`Registry.perform_cases`).  What a registry answers about a type once, it answers ever after
(`Registry.keeps_after`).
-/

namespace UnboxedRecords

/-- A call for the definition of a type. -/
structure DefineCall where
  /-- The name of the type. -/
  name : String
  /-- The fields of the type. -/
  decls : List FieldDecl

/-- The call, made under `rules`, composes `type`. -/
def DefineCall.Composes (call : DefineCall) (rules : CompositionRules) (type : UnboxedType) :
    Prop :=
  (UnboxedType.compose call.name call.decls rules).result = .ok type

namespace Registry

variable {registry next : Registry} {call : DefineCall} {type : UnboxedType} {name : String}
  {id : Nat}

/-- Carry out a call. -/
def perform (registry : Registry) (call : DefineCall) : Outcome Registry RegistryError Nat :=
  registry.define call.name call.decls

/-- The registry after a run of calls. -/
def after (registry : Registry) (calls : List DefineCall) : Registry :=
  calls.foldl (fun registry call => (registry.perform call).state) registry

/-- The calls of a run that are granted, each with the number it is given. -/
def granted (registry : Registry) : List DefineCall → List (DefineCall × Nat)
  | [] => []
  | call :: calls =>
    match (registry.perform call).result with
    | .ok id => (call, id) :: (registry.perform call).state.granted calls
    | .error _ => (registry.perform call).state.granted calls

@[simp] theorem after_nil (registry : Registry) : registry.after [] = registry := rfl

@[simp] theorem after_cons (registry : Registry) (call : DefineCall) (calls : List DefineCall) :
    registry.after (call :: calls) = (registry.perform call).state.after calls := rfl

/-! ## One call -/

/-- What a registry checks before it inserts the type of a call. -/
structure Admits (registry : Registry) (call : DefineCall) (type : UnboxedType) : Prop where
  fresh : registry.idOf? call.name = none
  room : registry.size < capacity
  composes : call.Composes registry.rules type

/-- The two ways in which a call ends. -/
inductive DefineOutcome (registry : Registry) (call : DefineCall) :
    Except RegistryError Nat → Registry → Prop
  | refused (error : RegistryError) (hnone : ∀ type, ¬ registry.Admits call type) :
      DefineOutcome registry call (.error error) registry
  | defined {type : UnboxedType} (admits : registry.Admits call type) :
      DefineOutcome registry call (.ok registry.size) (registry.insert call.name type)

/-- Every call is refused and leaves the registry as it was, or inserts the type it composes under
the next number. -/
theorem perform_cases (registry : Registry) (call : DefineCall) :
    DefineOutcome registry call (registry.perform call).result (registry.perform call).state := by
  rw [perform, define]
  split
  · next htaken =>
    refine .refused _ fun type hadmits => ?_
    rw [hadmits.fresh] at htaken
    cases htaken
  · next hfresh =>
    split
    · next hfull => exact .refused _ fun type hadmits => Nat.not_lt.2 hfull hadmits.room
    · next hroom =>
      rcases hcompose : (UnboxedType.compose call.name call.decls registry.rules).result with
        error | type
      · simp only [hcompose]
        refine .refused _ fun type hadmits => ?_
        cases hcompose.symm.trans hadmits.composes
      · simp only [hcompose]
        exact .defined ⟨by simpa using hfresh, Nat.not_le.1 hroom, hcompose⟩

theorem perform_of_taken (h : (registry.idOf? call.name).isSome) :
    registry.perform call = .fail registry (.duplicateType call.name) := if_pos h

theorem perform_of_refused {error : DeclError} (hfree : registry.idOf? call.name = none)
    (hroom : registry.size < capacity)
    (h : (UnboxedType.compose call.name call.decls registry.rules).result = .error error) :
    (registry.perform call).result = .error (.declaration error) ∧
      (registry.perform call).state = registry := by
  rw [perform, define, hfree, Option.isSome_none, if_neg Bool.false_ne_true,
    if_neg (Nat.not_le.2 hroom)]
  simp only [h, and_self]

theorem perform_of_admits (h : registry.Admits call type) :
    (registry.perform call).result = .ok registry.size ∧
      (registry.perform call).state = registry.insert call.name type := by
  have hcompose : (UnboxedType.compose call.name call.decls registry.rules).result = .ok type :=
    h.composes
  rw [perform, define, h.fresh, Option.isSome_none, if_neg Bool.false_ne_true,
    if_neg (Nat.not_le.2 h.room)]
  simp only [hcompose, Outcome.result_ok, Outcome.state_ok, and_self]

/-- A refused call leaves no trace. -/
theorem state_perform_of_error {error : RegistryError}
    (h : (registry.perform call).result = .error error) :
    (registry.perform call).state = registry := by
  have hcases := registry.perform_cases call
  rw [h] at hcases
  generalize (registry.perform call).state = next at hcases ⊢
  cases hcases with
  | refused _ _ => rfl

/-- A call is granted exactly if its name is free, there is a number left and its type can be
composed; and what it is given is the next number. -/
theorem result_perform_eq_ok_iff : (registry.perform call).result = .ok id ↔
    id = registry.size ∧ ∃ type, registry.Admits call type := by
  have hcases := registry.perform_cases call
  generalize (registry.perform call).result = result at hcases ⊢
  generalize (registry.perform call).state = next at hcases
  cases hcases with
  | refused error hnone => simp [hnone]
  | defined admits =>
    constructor
    · intro h
      cases h
      exact ⟨rfl, _, admits⟩
    · rintro ⟨rfl, -⟩
      rfl

/-! ## Answers that stay -/

theorem idOf?_insert (registry : Registry) (new : String) (type : UnboxedType) (name : String) :
    (registry.insert new type).idOf? name =
      (registry.idOf? name).or (if name = new then some registry.size else none) := by
  rw [idOf?, insert, List.lookup_append, ← idOf?]
  by_cases h : name = new
  · simp [h, size]
  · have hbeq : (name == new) = false := beq_false_of_ne h
    simp [List.lookup_cons, h, hbeq]

/-- `next` knows every type that `registry` knows, under the same number and the same name. -/
structure Keeps (registry next : Registry) : Prop where
  rules_eq : next.rules = registry.rules
  get? : ∀ {id : Nat} {type : UnboxedType}, registry.get? id = some type → next.get? id = some type
  idOf? : ∀ {name : String} {id : Nat}, registry.idOf? name = some id → next.idOf? name = some id

namespace Keeps

theorem refl (registry : Registry) : registry.Keeps registry := ⟨rfl, id, id⟩

theorem trans {last : Registry} (h : registry.Keeps next) (hnext : next.Keeps last) :
    registry.Keeps last :=
  ⟨hnext.rules_eq.trans h.rules_eq, fun hget => hnext.get? (h.get? hget),
    fun hid => hnext.idOf? (h.idOf? hid)⟩

/-- A type that is found by its name is found again. -/
theorem find? (h : registry.Keeps next) (hfind : registry.find? name = some type) :
    next.find? name = some type := by
  obtain ⟨id, hid, hget⟩ := Option.bind_eq_some_iff.1 hfind
  exact Option.bind_eq_some_iff.2 ⟨id, h.idOf? hid, h.get? hget⟩

end Keeps

theorem keeps_insert (registry : Registry) (name : String) (type : UnboxedType) :
    registry.Keeps (registry.insert name type) where
  rules_eq := rfl
  get? := by
    intro id old hold
    have hne : id ≠ registry.size := by
      rintro rfl
      cases hold.symm.trans (get?_of_size_le (Nat.le_refl _))
    rw [get?_insert, if_neg hne, hold]
  idOf? := by
    intro name id hid
    rw [idOf?_insert, hid, Option.some_or]

theorem keeps_perform (registry : Registry) (call : DefineCall) :
    registry.Keeps (registry.perform call).state := by
  have hcases := registry.perform_cases call
  generalize (registry.perform call).result = result at hcases
  generalize (registry.perform call).state = next at hcases ⊢
  cases hcases with
  | refused _ _ => exact .refl registry
  | defined _ => exact registry.keeps_insert _ _

/-- No run takes back what a registry knows. -/
theorem keeps_after (registry : Registry) (calls : List DefineCall) :
    registry.Keeps (registry.after calls) := by
  induction calls generalizing registry with
  | nil => exact .refl registry
  | cons call calls ih => exact (registry.keeps_perform call).trans (ih _)

end Registry

end UnboxedRecords
