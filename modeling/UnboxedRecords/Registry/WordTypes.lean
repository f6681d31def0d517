import UnboxedRecords.Registry.Basic

/-!
# One-word types

The four types that are a single machine word each: `Word`, `Address`, `Offset` and `Extent`.  They
are defined one after the other, and the first that cannot be defined ends the definition; those
before it stay defined.
-/

namespace UnboxedRecords

/-- The numbers of the one-word types of a registry. -/
structure WordTypes where
  /-- A machine word without further meaning. -/
  word : Nat
  /-- A memory address. -/
  address : Nat
  /-- A signed distance between addresses. -/
  offset : Nat
  /-- The length of a range of memory. -/
  extent : Nat
deriving DecidableEq, Repr

namespace WordTypes

/-- The names under which the one-word types are defined, in the order of their definition. -/
def names : List String := ["Word", "Address", "Offset", "Extent"]

/-- The name of the one field that each of them has. -/
def valueField : String := "value"

/-- The numbers in the order of the names. -/
def ids (types : WordTypes) : List Nat :=
  [types.word, types.address, types.offset, types.extent]

end WordTypes

namespace Registry

/-- Define a type that is a single word. -/
def defineWord (registry : Registry) (name : String) : Outcome Registry RegistryError Nat :=
  let spec := (RawSpec.declare .words 1 registry.rules.platform).mapError .declaration
  (Outcome.mk spec registry).andThen fun registry spec =>
    registry.define name [⟨WordTypes.valueField, .raw spec⟩]

/-- Define the four one-word types. -/
def defineWordTypes (registry : Registry) : Outcome Registry RegistryError WordTypes :=
  (registry.defineWord "Word").andThen fun registry word =>
  (registry.defineWord "Address").andThen fun registry address =>
  (registry.defineWord "Offset").andThen fun registry offset =>
  (registry.defineWord "Extent").andThen fun registry extent =>
    .ok registry ⟨word, address, offset, extent⟩

end Registry

end UnboxedRecords
