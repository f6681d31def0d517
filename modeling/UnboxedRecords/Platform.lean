/-!
# Platforms

The only fact about a machine that matters for laying out raw storage is the width of its word.
Words are one, two, four or eight bytes wide, so a platform is one of four cases, and most facts
about word sizes are settled by looking at each case.

A word holds the byte counts and the object numbers up to `Platform.maxWord`.
-/

namespace UnboxedRecords

/-- A target platform, known by the width of its machine word in bits. -/
inductive Platform where
  /-- Words of one byte. -/
  | bits8
  /-- Words of two bytes. -/
  | bits16
  /-- Words of four bytes. -/
  | bits32
  /-- Words of eight bytes. -/
  | bits64
deriving DecidableEq, Repr

/-- A word size in bytes that no platform has. -/
structure InvalidWordSize where
  /-- The refused word size. -/
  wordBytes : Nat
deriving DecidableEq, Repr

/-- The text that reports a refused word size. -/
def InvalidWordSize.message (e : InvalidWordSize) : String :=
  s!"invalid word size {e.wordBytes}: must be a power of two in 1..=8"

namespace Platform

/-- The platform of the machine that the library runs on. -/
def native : Platform := .bits64

instance : Inhabited Platform := ⟨native⟩

/-- The size of a machine word in bytes. -/
def wordBytes : Platform → Nat
  | .bits8 => 1
  | .bits16 => 2
  | .bits32 => 4
  | .bits64 => 8

/-- The platform with words of `size` bytes. -/
def ofWordBytes (size : Nat) : Except InvalidWordSize Platform :=
  match size with
  | 1 => .ok .bits8
  | 2 => .ok .bits16
  | 4 => .ok .bits32
  | 8 => .ok .bits64
  | _ => .error ⟨size⟩

/-- The largest number that a single machine word holds. -/
def maxWord (p : Platform) : Nat := 1 <<< (8 * p.wordBytes) - 1

/-- Whether `offset` is a multiple of the word size. -/
def isWordMultiple (p : Platform) (offset : Nat) : Bool := offset % p.wordBytes == 0

/-- Every platform, narrowest word first. -/
def all : List Platform := [.bits8, .bits16, .bits32, .bits64]

instance : ToString Platform := ⟨fun p => s!"{8 * p.wordBytes}-bit"⟩

theorem wordBytes_pos (p : Platform) : 0 < p.wordBytes := by
  cases p <;> decide

theorem wordBytes_le_eight (p : Platform) : p.wordBytes ≤ 8 := by
  cases p <;> decide

/-- The largest addressable number has all the bits of a word set. -/
theorem maxWord_succ (p : Platform) : p.maxWord + 1 = 1 <<< (8 * p.wordBytes) := by
  cases p <;> decide

theorem maxWord_lt (p : Platform) : p.maxWord < 1 <<< 64 := by
  cases p <;> decide

end Platform

end UnboxedRecords
