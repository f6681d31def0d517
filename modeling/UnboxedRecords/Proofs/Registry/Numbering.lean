import Mathlib.Data.List.Forall2
import UnboxedRecords.Proofs.Registry.Runs
import UnboxedRecords.Proofs.UnboxedType.Composed

/-!
# The numbers and names of a registry

A registry keeps types by number and numbers by name.  In a registry in use both tables list the
calls that were granted, in the order in which they were granted (`Registry.Holds`).  So numbers are
given out from nought upwards, a name leads to the type that has it and to no other, and no name is
used twice (`Registry.after_numbers`).
-/

namespace UnboxedRecords

/-- In a table without repeated keys, every entry is found under its key. -/
theorem lookup_eq_some_iff_mem {κ α : Type} [BEq κ] [LawfulBEq κ] {table : List (κ × α)}
    (h : (table.map Prod.fst).Nodup) {key : κ} {value : α} :
    table.lookup key = some value ↔ (key, value) ∈ table := by
  induction table with
  | nil => simp
  | cons entry table ih =>
    obtain ⟨first, stored⟩ := entry
    rw [List.map_cons, List.nodup_cons] at h
    by_cases hkey : key = first
    · subst hkey
      have hnot : (key, value) ∉ table := fun hmem =>
        h.1 (List.mem_map.2 ⟨(key, value), hmem, rfl⟩)
      simp [hnot, eq_comm]
    · have hbeq : (key == first) = false := beq_false_of_ne hkey
      rw [List.lookup_cons, hbeq, List.mem_cons]
      simp [ih h.2, hkey]

section Related

variable {α β : Type} {R : α → β → Prop} {as : List α} {bs : List β}

/-- What has a place in one of two related lists is related to what has that place in the other. -/
theorem exists_getElem?_of_forall₂ (h : List.Forall₂ R as bs) {i : Nat} {b : β}
    (hb : bs[i]? = some b) : ∃ a, as[i]? = some a ∧ R a b := by
  induction h generalizing i with
  | nil => simp at hb
  | cons hab _ ih =>
    cases i with
    | zero =>
      cases hb
      exact ⟨_, rfl, hab⟩
    | succ i => exact ih hb

/-- A list related to a table whose keys are numbered consecutively is related to it under the same
numbers. -/
theorem forall₂_zipIdx {R : α → Nat × β → Prop} {table : List (Nat × β)} {start : Nat}
    (h : List.Forall₂ R as table)
    (hkeys : table.map Prod.fst = List.range' start table.length) :
    List.Forall₂ (fun a entry => entry.1 = a.2 ∧ R a.1 entry) (as.zipIdx start) table := by
  induction h generalizing start with
  | nil => exact .nil
  | cons hab _ ih =>
    rw [List.map_cons, List.length_cons, List.range'_succ] at hkeys
    obtain ⟨hkey, hrest⟩ := List.cons.inj hkeys
    exact .cons ⟨hkey, hab⟩ (ih hrest)

end Related

namespace Registry

variable {registry : Registry} {calls : List DefineCall} {call : DefineCall} {type : UnboxedType}
  {name : String} {id : Nat}

/-- The registry holds the types that `calls` define, in this order and under these names, and
nothing else. -/
structure Holds (registry : Registry) (calls : List DefineCall) : Prop where
  types : List.Forall₂ (fun call entry => call.Composes registry.rules entry.2) calls
    registry.types.toList
  names : registry.names = (calls.map (·.name)).zipIdx
  distinct : (calls.map (·.name)).Nodup

/-- A new registry holds nothing. -/
theorem holds_new (rules : CompositionRules) : ({ rules } : Registry).Holds [] := ⟨.nil, rfl, .nil⟩

namespace Holds

theorem size_eq (h : registry.Holds calls) : registry.size = calls.length := by
  rw [h.types.length_eq, Array.length_toList, size]

/-- A name stands for the place of the call that defined it. -/
theorem idOf?_eq_some_iff (h : registry.Holds calls) :
    registry.idOf? name = some id ↔ ∃ call, calls[id]? = some call ∧ call.name = name := by
  have hkeys : ((calls.map (·.name)).zipIdx.map Prod.fst).Nodup := by
    rw [List.zipIdx_map_fst]
    exact h.distinct
  rw [idOf?, h.names, lookup_eq_some_iff_mem hkeys, List.mem_zipIdx_iff_getElem?, List.getElem?_map,
    Option.map_eq_some_iff]

/-- The type with a number was composed by the call at that place, and bears its name. -/
theorem exists_call (h : registry.Holds calls) (hget : registry.get? id = some type) :
    ∃ call, calls[id]? = some call ∧ type.name = call.name := by
  rw [get?_eq, ← Array.getElem?_toList, Option.map_eq_some_iff] at hget
  obtain ⟨entry, hentry, rfl⟩ := hget
  obtain ⟨call, hcall, hcomposes⟩ := exists_getElem?_of_forall₂ h.types hentry
  exact ⟨call, hcall, UnboxedType.name_of_compose hcomposes⟩

/-- A name stands for the number of the type that bears it. -/
theorem idOf?_iff_get? (h : registry.Holds calls) :
    registry.idOf? name = some id ↔ ∃ type, registry.get? id = some type ∧ type.name = name := by
  rw [h.idOf?_eq_some_iff]
  constructor
  · rintro ⟨call, hcall, rfl⟩
    obtain ⟨entry, hentry, hcomposes⟩ := exists_getElem?_of_forall₂ h.types.flip hcall
    rw [Array.getElem?_toList] at hentry
    exact ⟨entry.2, by rw [get?_eq, hentry, Option.map_some],
      UnboxedType.name_of_compose hcomposes⟩
  · rintro ⟨type, hget, rfl⟩
    obtain ⟨call, hcall, hname⟩ := h.exists_call hget
    exact ⟨call, hcall, hname.symm⟩

/-- One more type, under a name that was free. -/
theorem insert (h : registry.Holds calls) (hadmits : registry.Admits call type) :
    (registry.insert call.name type).Holds (calls ++ [call]) where
  types := by
    rw [Registry.insert, Array.toList_push]
    exact List.rel_append h.types (.cons hadmits.composes .nil)
  names := by
    have hsize : registry.types.size = calls.length := h.size_eq
    change registry.names ++ [(call.name, registry.types.size)] = _
    rw [h.names, hsize, List.map_append, List.zipIdx_append]
    simp
  distinct := by
    have hfree : call.name ∉ calls.map (·.name) := by
      intro hmem
      obtain ⟨other, hother, hname⟩ := List.mem_map.1 hmem
      obtain ⟨id, hid⟩ := List.mem_iff_getElem?.1 hother
      cases (h.idOf?_eq_some_iff.2 ⟨other, hid, hname⟩).symm.trans hadmits.fresh
    rw [List.map_append, List.map_singleton, ← List.concat_eq_append]
    exact h.distinct.concat hfree

/-- After a run, the registry holds the calls that were granted as well, and they were given the
numbers that follow. -/
theorem after (h : registry.Holds calls) (more : List DefineCall) :
    (registry.after more).Holds (calls ++ (registry.granted more).map Prod.fst) ∧
      registry.granted more = ((registry.granted more).map Prod.fst).zipIdx calls.length := by
  induction more generalizing registry calls with
  | nil => exact ⟨by simpa [granted] using h, rfl⟩
  | cons call more ih =>
    have hcases := registry.perform_cases call
    rw [granted, after_cons]
    generalize (registry.perform call).result = result at hcases ⊢
    generalize (registry.perform call).state = next at hcases ⊢
    cases hcases with
    | refused _ _ => exact ih h
    | defined hadmits =>
      obtain ⟨hholds, hgranted⟩ := ih (h.insert hadmits)
      rw [List.length_append, List.length_singleton] at hgranted
      refine ⟨by simpa using hholds, ?_⟩
      rw [List.map_cons, List.zipIdx_cons, ← hgranted, h.size_eq]

end Holds

/-- The registry numbers the calls `grants` as they say, and its tables are in step. -/
structure Numbers (registry : Registry) (grants : List (DefineCall × Nat)) : Prop where
  /-- The numbers are given out from nought upwards. -/
  ids : grants.map Prod.snd = List.range grants.length
  size_eq : registry.size = grants.length
  /-- The types are listed in the order of the calls that composed them. -/
  entries : List.Forall₂ (fun grant entry => entry.1 = grant.2 ∧
    grant.1.Composes registry.rules entry.2) grants registry.toList
  /-- What is listed is what is found by number. -/
  get?_iff : ∀ {id : Nat} {type : UnboxedType},
    registry.get? id = some type ↔ (id, type) ∈ registry.toList
  /-- A name stands for the number of the call that defined it. -/
  idOf?_iff : ∀ {name : String} {id : Nat},
    registry.idOf? name = some id ↔ ∃ call, grants[id]? = some (call, id) ∧ call.name = name
  /-- A name stands for the number of the type that bears it. -/
  idOf?_iff_get? : ∀ {name : String} {id : Nat},
    registry.idOf? name = some id ↔ ∃ type, registry.get? id = some type ∧ type.name = name
  find?_eq : ∀ name : String, registry.find? name = (registry.idOf? name).bind registry.get?
  /-- No two types share a name. -/
  eq_of_name_eq : ∀ {i j : Nat} {a b : UnboxedType}, registry.get? i = some a →
    registry.get? j = some b → a.name = b.name → i = j

/-- A registry that holds calls numbers them by their places. -/
theorem Holds.numbers (h : registry.Holds calls) : registry.Numbers calls.zipIdx where
  ids := by rw [List.zipIdx_map_snd, List.length_zipIdx, List.range_eq_range']
  size_eq := by rw [List.length_zipIdx, h.size_eq]
  entries := by
    have hkeys := registry.numbered.keys_eq
    rw [← Array.length_toList, List.range_eq_range'] at hkeys
    exact forall₂_zipIdx h.types hkeys
  get?_iff := by
    intro id type
    refine lookup_eq_some_iff_mem ?_
    rw [registry.numbered.keys_eq]
    exact List.nodup_range
  idOf?_iff := by
    intro name id
    rw [h.idOf?_eq_some_iff]
    simp [List.getElem?_zipIdx]
  idOf?_iff_get? := h.idOf?_iff_get?
  find?_eq := fun _ => rfl
  eq_of_name_eq := by
    intro i j a b ha hb hname
    have hi := h.idOf?_iff_get?.2 ⟨a, ha, rfl⟩
    have hj := h.idOf?_iff_get?.2 ⟨b, hb, hname.symm⟩
    exact Option.some.inj (hi.symm.trans hj)

/-- Whatever calls a registry was filled by, it numbers those that were granted; a further call is
granted the next number or leaves no trace; and what the registry answers once it answers ever
after. -/
theorem after_numbers (rules : CompositionRules) (calls : List DefineCall) :
    let registry := ({ rules } : Registry).after calls
    registry.rules = rules ∧ registry.Numbers (({ rules } : Registry).granted calls) ∧
      (∀ call id, (registry.perform call).result = .ok id ↔
        id = registry.size ∧ ∃ type, registry.Admits call type) ∧
      (∀ call error, (registry.perform call).result = .error error →
        (registry.perform call).state = registry) ∧
      ∀ more, registry.Keeps (registry.after more) ∧ ∀ name type,
        registry.find? name = some type → (registry.after more).find? name = some type := by
  intro registry
  have hkeeps := ({ rules } : Registry).keeps_after calls
  obtain ⟨hholds, hgranted⟩ := (holds_new rules).after calls
  refine ⟨hkeeps.rules_eq, ?_, fun _ _ => result_perform_eq_ok_iff,
    fun _ _ => state_perform_of_error, fun more => ?_⟩
  · rw [hgranted]
    exact hholds.numbers
  · have hmore := registry.keeps_after more
    exact ⟨hmore, fun _ _ => hmore.find?⟩

-- a name that is taken leaves no gap in the numbers
example : (({ rules := ⟨.bits16, none⟩ } : Registry).granted [⟨"cell", UnboxedType.cellDecls⟩,
    ⟨"cell", []⟩, ⟨"pair", UnboxedType.pairDecls⟩]).map Prod.snd = [0, 1] := rfl

end Registry

end UnboxedRecords
