import UnboxedRecords.UnboxedType.Composition

/-!
# Type registries

A registry numbers the unboxed types that are defined in it, from nought upwards in the order of
their definition, and finds them by number and by name.  It keeps two tables, one of types by number
and one of numbers by name; a definition enters into both or into neither.

The numbers are the keys of the first table.  That they run from nought upwards without a gap
(`Numbered`) is part of what a registry is, so that the number of a type says where it stands
(`Registry.get?_eq`).
-/

namespace UnboxedRecords

/-- Why a registry refuses a request. -/
inductive RegistryError where
  /-- Storage or a type could not be declared. -/
  | declaration (error : DeclError)
  /-- There is already a type of this name. -/
  | duplicateType (name : String)
  /-- There is no type of this name. -/
  | unknownType (name : String)
  /-- All numbers of types are taken. -/
  | full (capacity : Nat)
deriving DecidableEq, Repr

/-- The wording of a refusal. -/
def RegistryError.message : RegistryError → String
  | declaration error => error.message
  | duplicateType name => s!"type '{name}' is already defined"
  | unknownType name => s!"unknown type '{name}'"
  | full capacity => s!"type registry is full ({capacity} types)"

/-! ## Tables by number -/

/-- The keys of the table are the numbers from nought upwards, in this order. -/
class Numbered {α : Type} (table : Array (Nat × α)) : Prop where
  keys_eq : table.toList.map Prod.fst = List.range table.size

/-- Under keys that are numbered consecutively, what a key leads to stands so many places behind the
first entry. -/
theorem lookup_eq_getElem?_map {α : Type} {table : List (Nat × α)} {start : Nat}
    (h : table.map Prod.fst = List.range' start table.length) (i : Nat) :
    table.lookup (start + i) = table[i]?.map Prod.snd := by
  induction table generalizing start i with
  | nil => rfl
  | cons entry table ih =>
    obtain ⟨key, value⟩ := entry
    rw [List.map_cons, List.length_cons, List.range'_succ] at h
    obtain ⟨rfl, hrest⟩ := List.cons.inj h
    cases i with
    | zero => simp
    | succ i =>
      have hbeq : (key + (i + 1) == key) = false := beq_false_of_ne (by omega)
      rw [List.lookup_cons, hbeq, List.getElem?_cons_succ, ← ih hrest i, Nat.add_right_comm,
        Nat.add_assoc]

namespace Numbered

variable {α : Type}

instance : Numbered (#[] : Array (Nat × α)) := ⟨rfl⟩

theorem push (table : Array (Nat × α)) [Numbered table] (value : α) :
    Numbered (table.push (table.size, value)) where
  keys_eq := by
    rw [Array.toList_push, List.map_append, keys_eq, Array.size_push, List.range_succ]
    rfl

theorem lookup_eq (table : Array (Nat × α)) [Numbered table] (i : Nat) :
    table.toList.lookup i = table[i]?.map Prod.snd := by
  have hkeys : table.toList.map Prod.fst = List.range' 0 table.toList.length := by
    rw [keys_eq, Array.length_toList, List.range_eq_range']
  rw [← Array.getElem?_toList, ← lookup_eq_getElem?_map hkeys, Nat.zero_add]

end Numbered

/-! ## Registries -/

/-- Unboxed types by number and by name. -/
structure Registry where
  /-- The rules under which every type of the registry is composed. -/
  rules : CompositionRules
  /-- The types with their numbers, in the order of their definition. -/
  types : Array (Nat × UnboxedType) := #[]
  /-- The names with the numbers they stand for, in the order of their definition. -/
  names : List (String × Nat) := []
  [numbered : Numbered types]

namespace Registry

attribute [instance] numbered

/-- How many numbers of types there are. -/
def capacity : Nat := 1 <<< 32

/-- The number of the type called `name`. -/
def idOf? (registry : Registry) (name : String) : Option Nat := registry.names.lookup name

/-- The type with the number `id`. -/
def get? (registry : Registry) (id : Nat) : Option UnboxedType := registry.types.toList.lookup id

/-- The type called `name`. -/
def find? (registry : Registry) (name : String) : Option UnboxedType :=
  (registry.idOf? name).bind registry.get?

/-- How many types are defined. -/
def size (registry : Registry) : Nat := registry.types.size

/-- The types with their numbers, in the order of their definition. -/
def toList (registry : Registry) : List (Nat × UnboxedType) := registry.types.toList

/-- The registry with `type` under the next number, and with `name` for this number, where the name
has to be free. -/
def insert (registry : Registry) (name : String) (type : UnboxedType) : Registry where
  rules := registry.rules
  types := registry.types.push (registry.types.size, type)
  names := registry.names ++ [(name, registry.types.size)]
  numbered := .push registry.types type

/-- Compose the type called `name` and enter it under the next number. -/
def define (registry : Registry) (name : String) (decls : List FieldDecl) :
    Outcome Registry RegistryError Nat :=
  if (registry.idOf? name).isSome then
    .fail registry (.duplicateType name)
  else if capacity ≤ registry.size then
    .fail registry (.full registry.size)
  else
    let composed := UnboxedType.compose name decls registry.rules
    match composed.result with
    | .error error => ⟨⟨.error (.declaration error), composed.events⟩, registry⟩
    | .ok type =>
      .ok (registry.insert name type) registry.size
        (composed.events ++ [.defined registry.size type.summary])

/-- A field that embeds the type called `type` of the registry. -/
def nestedField (registry : Registry) (field type : String) : Except RegistryError FieldDecl :=
  match registry.find? type with
  | some found => .ok ⟨field, .nested found⟩
  | none => .error (.unknownType type)

/-- What a registry finds by number stands at the place that the number says. -/
theorem get?_eq (registry : Registry) (id : Nat) :
    registry.get? id = registry.types[id]?.map Prod.snd :=
  Numbered.lookup_eq registry.types id

theorem get?_of_size_le {registry : Registry} {id : Nat} (h : registry.size ≤ id) :
    registry.get? id = none := by
  rw [get?_eq, Array.getElem?_eq_none h, Option.map_none]

@[simp] theorem size_insert (registry : Registry) (name : String) (type : UnboxedType) :
    (registry.insert name type).size = registry.size + 1 := by
  simp [insert, size]

@[simp] theorem rules_insert (registry : Registry) (name : String) (type : UnboxedType) :
    (registry.insert name type).rules = registry.rules := rfl

theorem get?_insert (registry : Registry) (name : String) (type : UnboxedType) (id : Nat) :
    (registry.insert name type).get? id =
      if id = registry.size then some type else registry.get? id := by
  rw [get?_eq, get?_eq, insert, Array.getElem?_push, size]
  split
  · rfl
  · rfl

end Registry

end UnboxedRecords
