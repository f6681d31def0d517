import UnboxedRecords.Platform

/-!
# Units of length

The length of a raw-storage field is given in one of two units, machine words or bytes.  A unit is
written as a word, as a small number, or as a flag that says whether the length is in words.
-/

namespace UnboxedRecords

/-- The unit in which a raw-storage length is given. -/
inductive LengthUnit where
  /-- The length counts machine words. -/
  | words
  /-- The length counts bytes. -/
  | bytes
deriving DecidableEq, Repr

namespace LengthUnit

/-- The number of bytes that one such unit takes. -/
def width (unit : LengthUnit) (platform : Platform) : Nat :=
  match unit with
  | .words => platform.wordBytes
  | .bytes => 1

/-- The unit that a flag "the length is in words" stands for. -/
def ofWordsFlag (inWords : Bool) : LengthUnit := if inWords then .words else .bytes

/-- The unit that a word names; case does not matter for the letters `a` to `z`. -/
def ofName? (name : String) : Option LengthUnit :=
  let lower := name.map Char.toLower
  if lower = "words" then some .words
  else if lower = "bytes" then some .bytes
  else none

/-- The unit that a number stands for: nought is bytes and one is words. -/
def ofTag? : Nat → Option LengthUnit
  | 0 => some .bytes
  | 1 => some .words
  | _ => none

instance : ToString LengthUnit :=
  ⟨fun unit => match unit with
    | .words => "words"
    | .bytes => "bytes"⟩

theorem width_pos (unit : LengthUnit) (platform : Platform) : 0 < unit.width platform := by
  cases unit
  · exact platform.wordBytes_pos
  · exact Nat.one_pos

/-- A unit of storage is a power of two of bytes. -/
theorem width_eq_one_shiftLeft (unit : LengthUnit) (platform : Platform) :
    ∃ k, unit.width platform = 1 <<< k := by
  cases unit
  · cases platform
    · exact ⟨0, rfl⟩
    · exact ⟨1, rfl⟩
    · exact ⟨2, rfl⟩
    · exact ⟨3, rfl⟩
  · exact ⟨0, rfl⟩

end LengthUnit

end UnboxedRecords
