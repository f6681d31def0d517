import UnboxedRecords.Alignment

/-!
# Heap configuration

How large the segments of a heap are and how many of them there may be.
-/

namespace UnboxedRecords

/-- The size of the smallest segment that a heap may have. -/
def minSegmentBytes : Nat := 1024

/-- Why a heap configuration is refused. -/
inductive HeapConfigError where
  /-- The size of a segment is too small or not a power of two. -/
  | segmentBytes (given : Nat)
  /-- No segment is allowed. -/
  | noSegments
deriving DecidableEq, Repr

/-- The wording of a refused configuration. -/
def HeapConfigError.message : HeapConfigError → String
  | segmentBytes given =>
    s!"invalid heap config: segment_bytes ({given}) must be a power of two >= {minSegmentBytes}"
  | noSegments => "invalid heap config: max_segments must be at least 1"

/-- The sizes of a heap. -/
structure HeapConfig where
  /-- The size of each segment in bytes. -/
  segmentBytes : UInt32 := 1048576
  /-- The number of segments to which the heap may grow. -/
  maxSegments : UInt16 := 16
deriving DecidableEq, Repr

namespace HeapConfig

/-- Why the configuration is refused, if it is. -/
def error? (config : HeapConfig) : Option HeapConfigError :=
  if config.segmentBytes.toNat < minSegmentBytes || !isPowerOfTwo config.segmentBytes.toNat then
    some (.segmentBytes config.segmentBytes.toNat)
  else if config.maxSegments = 0 then
    some .noSegments
  else
    none

/-- Whether a heap may have this configuration. -/
def Valid (config : HeapConfig) : Prop := config.error? = none

instance (config : HeapConfig) : Decidable config.Valid :=
  inferInstanceAs (Decidable (config.error? = none))

/-- A configuration is valid when its segments are large enough, their size is a power of two, and
there may be at least one. -/
theorem valid_iff {config : HeapConfig} :
    config.Valid ↔ minSegmentBytes ≤ config.segmentBytes.toNat ∧
      isPowerOfTwo config.segmentBytes.toNat = true ∧ config.maxSegments ≠ 0 := by
  unfold Valid error?
  split
  · next h =>
    simp only [Bool.or_eq_true, decide_eq_true_eq, Bool.not_eq_true'] at h
    constructor
    · simp
    · rintro ⟨h₁, h₂, _⟩
      rcases h with h | h
      · omega
      · simp [h₂] at h
  · next h =>
    simp only [Bool.or_eq_true, decide_eq_true_eq, Bool.not_eq_true', not_or] at h
    split
    · next h₀ => simp [h₀]
    · next h₀ => simpa [h₀] using ⟨Nat.le_of_not_lt h.1, by simpa using h.2⟩

end HeapConfig

end UnboxedRecords
