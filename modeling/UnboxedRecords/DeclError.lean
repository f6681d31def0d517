/-!
# Errors of declaration and composition

Declaring raw storage and composing a type out of fields either succeed as a whole or are refused
as a whole.  These are the reasons for a refusal and their wording.
-/

namespace UnboxedRecords

/-- Why a size specification of raw storage is refused. -/
inductive SpecViolation where
  /-- The length is below zero. -/
  | negativeLength (length : Int)
  /-- So many words of storage cannot be addressed. -/
  | exceedsAddressSpace (length unitBytes maxBytes : Nat)
  /-- No unit of length is written like this. -/
  | unknownUnit (tag : String)
deriving DecidableEq, Repr

/-- The wording of a refused size specification. -/
def SpecViolation.message : SpecViolation → String
  | negativeLength length => s!"length {length} is negative"
  | exceedsAddressSpace length unitBytes maxBytes =>
    s!"{length} x {unitBytes} bytes exceeds the addressable range of {maxBytes} bytes"
  | unknownUnit tag => s!"unknown size mode '{tag}'"

/-- Why a list of fields does not make an unboxed type. -/
inductive CompositionViolation where
  /-- A field refers to a heap object. -/
  | referenceField (field referent : String)
  /-- Two fields have one name. -/
  | duplicateField (field : String)
  /-- A field was made for words of another size. -/
  | platformMismatch (field : String) (expected found : Nat)
  /-- The sizes of the fields add up to more than is allowed. -/
  | sizeOverflow (limit : Nat)
deriving DecidableEq, Repr

/-- The wording of a refused composition. -/
def CompositionViolation.message : CompositionViolation → String
  | referenceField field referent => s!"field '{field}' is a reference to '{referent}'"
  | duplicateField field => s!"duplicate field '{field}'"
  | platformMismatch field expected found =>
    s!"field '{field}' was composed for {found}-byte words, expected {expected}"
  | sizeOverflow limit => s!"total size exceeds {limit} bytes"

/-- Why raw storage could not be declared or a type not composed. -/
inductive DeclError where
  /-- A size specification is refused. -/
  | invalidSpec (violation : SpecViolation)
  /-- The fields given for the type `type` do not compose. -/
  | illegalComposition (type : String) (violation : CompositionViolation)
deriving DecidableEq, Repr

/-- The wording of an error of declaration or composition. -/
def DeclError.message : DeclError → String
  | invalidSpec violation => s!"invalid raw storage spec: {violation.message}"
  | illegalComposition type violation =>
    s!"illegal composition of '{type}': {violation.message}"

end UnboxedRecords
