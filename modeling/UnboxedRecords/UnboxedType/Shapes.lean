import UnboxedRecords.UnboxedType.Composition

/-!
# Types from shapes

Ready-made unboxed types whose fields are all raw storage: a type from a list of sizes, a range of
bytes, a vector of bits.
-/

namespace UnboxedRecords

namespace UnboxedType

/-- The raw field called `name` of `length` units. -/
def rawField (name : String) (unit : LengthUnit) (length : Int) (platform : Platform) :
    Logged DeclError FieldDecl :=
  (RawSpec.declare unit length platform).andThen fun spec => .ok ⟨name, .raw spec⟩

/-- The type called `name` with one raw field for each shape, called `f0`, `f1` and so on. -/
def ofShapes (name : String) (shapes : List (LengthUnit × Int)) (platform : Platform) :
    Logged DeclError UnboxedType :=
  (Logged.forEach (fun ((unit, length), i) => rawField s!"f{i}" unit length platform)
    shapes.zipIdx).andThen fun decls => compose name decls ⟨platform, none⟩

/-- A range of `length` bytes. -/
def ofByteCount (length : Int) (platform : Platform) : Logged DeclError UnboxedType :=
  ofShapes s!"Bytes{length}" [(.bytes, length)] platform

/-- A vector of at least `bits` bits, rounded up to whole words. -/
def ofBitCount (bits : Nat) (platform : Platform) : Logged DeclError UnboxedType :=
  let wordBits := 8 * platform.wordBytes
  ofShapes s!"Bits{bits}" [(.words, ((bits + (wordBits - 1)) / wordBits : Nat))] platform

end UnboxedType

end UnboxedRecords
