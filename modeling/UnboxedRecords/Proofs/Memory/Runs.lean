import UnboxedRecords.Proofs.Memory.Allocation

/-!
# Runs of an arena

An arena is used by a run of calls: requests for memory, and writes of any bytes to any place, be it
given out or still free.  Calls may be refused, and a refused call does not end the run.  A call
either leaves the shape of the arena alone or gives out memory behind all that was given out before
(`Arena.WellFormed.call_effect`), so that what a run gives out is aligned, lies inside its segment,
and never overlaps (`Arena.Accounts`).

From every arena in use a request gets zero bytes at a place of their own in the last segment, or it
is refused for want of room and leaves no trace (`Arena.after_serves`).  The sizes of the arena may
be anything, nought included.
-/

namespace UnboxedRecords

/-- A call that may change an arena. -/
inductive ArenaCall where
  /-- Ask for bytes at a multiple of a power of two. -/
  | alloc (length align : Nat) (powerOfTwo : isPowerOfTwo align = true)
  /-- Write bytes at a place. -/
  | write (place : Position) (bytes : List UInt8)

/-- Memory that was given out. -/
structure Grant where
  /-- The bytes that were given out. -/
  extent : Extent
  /-- The alignment that was asked for. -/
  align : Nat
deriving DecidableEq

namespace Arena

/-- The arena that a call leaves behind. -/
def perform (arena : Arena) : ArenaCall → Arena
  | .alloc length align _ => (arena.alloc length align).state
  | .write place bytes => (arena.write place bytes).state

/-- What a call is given, if it asks for memory and is not refused. -/
def grant? (arena : Arena) : ArenaCall → Option Grant
  | .alloc length align _ =>
    match (arena.alloc length align).result with
    | .ok place => some ⟨⟨place, length⟩, align⟩
    | .error _ => none
  | .write _ _ => none

/-- The arena after a run of calls. -/
def after (arena : Arena) (calls : List ArenaCall) : Arena := calls.foldl perform arena

/-- All that is given out in a run, the earliest first. -/
def grants (arena : Arena) : List ArenaCall → List Grant
  | [] => []
  | call :: calls => (arena.grant? call).toList ++ (arena.perform call).grants calls

@[simp] theorem after_nil (arena : Arena) : arena.after [] = arena := rfl

@[simp] theorem after_cons (arena : Arena) (call : ArenaCall) (calls : List ArenaCall) :
    arena.after (call :: calls) = (arena.perform call).after calls := rfl

/-! ## One call -/

variable {arena next : Arena} {grants : List Grant} {length align : Nat} {place : Position}

/-- What a call can do to an arena: it changes bytes at most, or it gives out memory. -/
inductive CallEffect (arena : Arena) : Option Grant → Arena → Prop
  | kept {next : Arena} (wellFormed : next.WellFormed) (shape : arena.SameShape next) :
      CallEffect arena none next
  | gave {length align : Nat} {place : Position} {next : Arena}
      (gives : arena.Gives length align place next) :
      CallEffect arena (some ⟨⟨place, length⟩, align⟩) next

/-- Bytes are written where the arena has them, and nowhere else. -/
theorem write_cases (arena : Arena) (place : Position) (bytes : List UInt8) :
    (arena.write place bytes).state = arena ∨
      (arena.write place bytes).state = arena.put place bytes := by
  rw [write]
  split
  · exact Or.inl rfl
  · exact Or.inr rfl

theorem WellFormed.call_effect (h : arena.WellFormed) (call : ArenaCall) :
    arena.CallEffect (arena.grant? call) (arena.perform call) := by
  cases call with
  | alloc length align powerOfTwo =>
    rw [grant?, perform]
    rcases hresult : (arena.alloc length align).result with error | place
    · rw [state_alloc_of_error hresult]
      exact .kept h (.refl arena)
    · exact .gave (h.gives_alloc powerOfTwo hresult)
  | write place bytes =>
    rw [grant?, perform]
    rcases arena.write_cases place bytes with hstate | hstate
    · rw [hstate]
      exact .kept h (.refl arena)
    · rw [hstate]
      exact .kept (h.put place bytes) (arena.sameShape_put place bytes)

/-- Memory is given out in the last segment. -/
theorem WellFormed.segment_succ_eq (h : arena.WellFormed) (hpow : isPowerOfTwo align = true)
    (hok : (arena.alloc length align).result = .ok place) :
    place.segment + 1 = (arena.alloc length align).state.segments.size := by
  have hcases := h.alloc_cases hpow length
  rw [hok] at hcases
  generalize (arena.alloc length align).state = next at hcases ⊢
  cases hcases with
  | claimed offset _ _ _ =>
    rw [size_segments_claim]
    exact h.current_succ
  | grown _ _ _ _ => exact (size_segments_grow arena 0 length).symm

/-- A request is granted as soon as no segment is too small for it and there is room in the last
segment or for one more. -/
theorem WellFormed.alloc_eq_ok_iff (h : arena.WellFormed) (hpow : isPowerOfTwo align = true) :
    (∃ place, (arena.alloc length align).result = .ok place) ↔
      length ≤ arena.segmentBytes ∧ align ≤ arena.segmentBytes ∧
        ((arena.fit? length align).isSome ∨ arena.segments.size < arena.maxSegments) := by
  have hcases := h.alloc_cases hpow length
  rw [h.fit?_eq]
  generalize (arena.alloc length align).result = result at hcases ⊢
  generalize (arena.alloc length align).state = next at hcases
  cases hcases with
  | tooLarge hlarge =>
    simp only [reduceCtorEq, exists_false, false_iff]
    omega
  | full _ _ hstart hfull =>
    simp only [reduceCtorEq, exists_false, hstart, Option.isSome_none, Bool.false_eq_true, false_or,
      false_iff]
    omega
  | claimed offset hlength halign hstart => simp [hlength, halign, hstart]
  | grown hlength halign hstart hroom => simp [hlength, halign, hroom]

/-- The only reason for a refusal is that there is not enough room. -/
theorem WellFormed.alloc_eq_error (h : arena.WellFormed) (hpow : isPowerOfTwo align = true)
    {error : MemoryError} (herror : (arena.alloc length align).result = .error error) :
    ∃ capacity, error = .capacityExceeded length capacity := by
  have hcases := h.alloc_cases hpow length
  rw [herror] at hcases
  generalize (arena.alloc length align).state = next at hcases
  cases hcases with
  | tooLarge _ => exact ⟨_, rfl⟩
  | full _ _ _ _ => exact ⟨_, rfl⟩

/-! ## All that was given out -/

/-- What was given out lies apart, each stretch of bytes at a multiple of its alignment and inside
what its segment has given out. -/
structure Accounts (arena : Arena) (grants : List Grant) : Prop where
  segment_lt : ∀ grant ∈ grants, grant.extent.start.segment < arena.segments.size
  end_le : ∀ grant ∈ grants, grant.extent.start.offset + grant.extent.length ≤
    arena.used grant.extent.start.segment
  aligned : ∀ grant ∈ grants, grant.align ∣ grant.extent.start.offset
  apart : grants.Pairwise fun earlier later => earlier.extent.Disjoint later.extent

namespace Accounts

theorem nil (arena : Arena) : arena.Accounts [] where
  segment_lt := by simp
  end_le := by simp
  aligned := by simp
  apart := .nil

theorem covers (h : arena.Accounts grants) (hwell : arena.WellFormed) {grant : Grant}
    (hgrant : grant ∈ grants) : arena.Covers grant.extent :=
  hwell.covers_iff.2 ⟨h.segment_lt grant hgrant,
    Nat.le_trans (h.end_le grant hgrant) (hwell.used_le _)⟩

/-- Only the shape of the arena matters. -/
theorem of_sameShape (h : arena.Accounts grants) (hshape : arena.SameShape next) :
    next.Accounts grants where
  segment_lt := hshape.count_eq ▸ h.segment_lt
  end_le := by
    intro grant hgrant
    rw [← hshape.used_eq]
    exact h.end_le grant hgrant
  aligned := h.aligned
  apart := h.apart

/-- New memory is apart from the old, which ends where its segment was filled up to. -/
theorem disjoint (h : arena.Accounts grants) (hgives : arena.Gives length align place next)
    {grant : Grant} (hgrant : grant ∈ grants) : grant.extent.Disjoint ⟨place, length⟩ := by
  by_cases hsegment : grant.extent.start.segment = place.segment
  · refine Extent.disjoint_of_le ?_
    have hend := h.end_le grant hgrant
    rw [hsegment] at hend
    exact Nat.le_trans hend hgives.fresh
  · exact Extent.disjoint_of_segment_ne hsegment

/-- One more grant, behind the others. -/
theorem gave (h : arena.Accounts grants) (hgives : arena.Gives length align place next) :
    next.Accounts (grants ++ [⟨⟨place, length⟩, align⟩]) where
  segment_lt := by
    rw [List.forall_mem_append, List.forall_mem_singleton, hgives.count_eq]
    refine ⟨fun grant hgrant => ?_, Nat.lt_of_succ_le (Nat.le_max_right _ _)⟩
    exact Nat.lt_of_lt_of_le (h.segment_lt grant hgrant) (Nat.le_max_left _ _)
  end_le := by
    rw [List.forall_mem_append, List.forall_mem_singleton]
    refine ⟨fun grant hgrant => ?_, Nat.le_of_eq hgives.used_eq.symm⟩
    exact Nat.le_trans (h.end_le grant hgrant) (hgives.used_le _)
  aligned := by
    rw [List.forall_mem_append, List.forall_mem_singleton]
    exact ⟨h.aligned, hgives.aligned⟩
  apart := by
    rw [List.pairwise_append]
    refine ⟨h.apart, List.pairwise_singleton _ _, fun earlier hearlier later hlater => ?_⟩
    rw [List.mem_singleton.1 hlater]
    exact h.disjoint hgives hearlier

end Accounts

/-! ## A whole run -/

/-- The arena is one with segments of `segmentBytes` bytes, at most `maxSegments` of them, that gave
out `grants`. -/
structure InUse (segmentBytes maxSegments : Nat) (grants : List Grant) (arena : Arena) :
    Prop where
  wellFormed : arena.WellFormed
  segmentBytes_eq : arena.segmentBytes = segmentBytes
  maxSegments_eq : arena.maxSegments = maxSegments
  accounts : arena.Accounts grants

variable {segmentBytes maxSegments : Nat}

theorem InUse.perform (h : arena.InUse segmentBytes maxSegments grants) (call : ArenaCall) :
    (arena.perform call).InUse segmentBytes maxSegments
      (grants ++ (arena.grant? call).toList) := by
  have heffect := h.wellFormed.call_effect call
  generalize arena.grant? call = grant at heffect ⊢
  generalize arena.perform call = next at heffect ⊢
  cases heffect with
  | kept wellFormed shape =>
    rw [Option.toList_none, List.append_nil]
    exact ⟨wellFormed, shape.segmentBytes_eq.symm.trans h.segmentBytes_eq,
      shape.maxSegments_eq.symm.trans h.maxSegments_eq, h.accounts.of_sameShape shape⟩
  | gave gives =>
    exact ⟨gives.wellFormed, gives.segmentBytes_eq.trans h.segmentBytes_eq,
      gives.maxSegments_eq.trans h.maxSegments_eq, h.accounts.gave gives⟩

theorem InUse.after (h : arena.InUse segmentBytes maxSegments grants) (calls : List ArenaCall) :
    (arena.after calls).InUse segmentBytes maxSegments (grants ++ arena.grants calls) := by
  induction calls generalizing arena grants with
  | nil => simpa [Arena.grants] using h
  | cons call calls ih =>
    rw [after_cons, Arena.grants, ← List.append_assoc]
    exact ih (h.perform call)

theorem inUse_create (segmentBytes : UInt32) (maxSegments : UInt16) :
    (create segmentBytes maxSegments).InUse segmentBytes.toNat maxSegments.toNat [] :=
  ⟨wellFormed_create segmentBytes maxSegments, rfl, rfl, .nil _⟩

/-- `next` is the arena after it gave out `length` bytes at `place`, having given out `grants`
before. -/
structure Serves (arena : Arena) (grants : List Grant) (length align : Nat) (place : Position)
    (next : Arena) : Prop where
  aligned : align ∣ place.offset
  /-- The bytes end inside their segment. -/
  end_le : place.offset + length ≤ arena.segmentBytes
  /-- The place is in the last segment, under its true number. -/
  segment_succ_eq : place.segment + 1 = next.segments.size
  /-- The place is kept in 16 and 32 bits. -/
  segment_lt : place.segment < 1 <<< 16
  offset_lt : place.offset < 1 <<< 32
  count_le : next.segments.size ≤ max 1 arena.maxSegments
  /-- Nothing is given out twice. -/
  apart : ∀ grant ∈ grants, grant.extent.Disjoint ⟨place, length⟩
  /-- The bytes are zero, whatever was written there before. -/
  zero : next.read place length = .ok (List.replicate length 0)
  /-- All other bytes stay. -/
  keeps : ∀ elsewhere byte, elsewhere ∉ (⟨place, length⟩ : Extent) →
    arena.byte? elsewhere = some byte → next.byte? elsewhere = some byte

/-- A byte that there is lies in some segment. -/
theorem segment_lt_of_byte? {byte : UInt8} (h : arena.byte? place = some byte) :
    place.segment < arena.segments.size := by
  obtain ⟨segment, hsegment, -⟩ := Option.bind_eq_some_iff.1 h
  exact (Array.getElem?_eq_some_iff.1 hsegment).1

theorem InUse.serves (h : arena.InUse segmentBytes maxSegments grants)
    (hpow : isPowerOfTwo align = true) (hok : (arena.alloc length align).result = .ok place) :
    arena.Serves grants length align place (arena.alloc length align).state := by
  have hgives := h.wellFormed.gives_alloc hpow hok
  have hend := (hgives.wellFormed.covers_iff.1 hgives.covers).2
  have hlast := h.wellFormed.segment_succ_eq hpow hok
  have hcount := hgives.wellFormed.count_lt
  have hbytes := h.wellFormed.segmentBytes_lt
  simp only [hgives.segmentBytes_eq] at hend
  exact {
    aligned := hgives.aligned
    end_le := hend
    segment_succ_eq := hlast
    segment_lt := by omega
    offset_lt := by omega
    count_le := hgives.maxSegments_eq ▸ hgives.wellFormed.count_le
    apart := fun grant hgrant => h.accounts.disjoint hgives hgrant
    zero := by rw [read_eq hgives.covers, hgives.zero]
    keeps := by
      intro elsewhere byte hnot hbyte
      rw [hgives.keeps elsewhere (segment_lt_of_byte? hbyte) hnot, hbyte] }

/-- Whatever run of requests and writes an arena of whatever sizes has been through, it has no more
segments than allowed, and what it gave out is aligned, inside its segment and nowhere twice.  A
further request gets zero bytes of its own in the last segment and changes no other byte, or it is
refused for want of room and changes nothing; and a fresh segment has room for every request that
can be granted at all. -/
theorem after_serves (segmentBytes : UInt32) (maxSegments : UInt16) (calls : List ArenaCall) :
    let arena := (create segmentBytes maxSegments).after calls
    let grants := (create segmentBytes maxSegments).grants calls
    arena.segmentBytes = segmentBytes.toNat ∧ arena.maxSegments = maxSegments.toNat ∧
      arena.segments.size ≤ max 1 maxSegments.toNat ∧
      (∀ grant ∈ grants, arena.Covers grant.extent ∧ grant.align ∣ grant.extent.start.offset ∧
        grant.extent.start.offset + grant.extent.length ≤ segmentBytes.toNat) ∧
      grants.Pairwise (fun earlier later => earlier.extent.Disjoint later.extent) ∧
      ∀ length align, isPowerOfTwo align = true →
        (∀ place, (arena.alloc length align).result = .ok place →
          arena.Serves grants length align place (arena.alloc length align).state) ∧
        (∀ error, (arena.alloc length align).result = .error error →
          (∃ capacity, error = .capacityExceeded length capacity) ∧
            (arena.alloc length align).state = arena) ∧
        ((∃ place, (arena.alloc length align).result = .ok place) ↔
          length ≤ segmentBytes.toNat ∧ align ≤ segmentBytes.toNat ∧
            ((arena.fit? length align).isSome ∨ arena.segments.size < maxSegments.toNat)) ∧
        (length ≤ segmentBytes.toNat → align ≤ segmentBytes.toNat →
          (Segment.zeroed segmentBytes.toNat).fit? length align = some 0) := by
  intro arena grants
  have hinUse : arena.InUse segmentBytes.toNat maxSegments.toNat grants :=
    (inUse_create segmentBytes maxSegments).after calls
  have hwell := hinUse.wellFormed
  refine ⟨hinUse.segmentBytes_eq, hinUse.maxSegments_eq, ?_⟩
  rw [← hinUse.segmentBytes_eq, ← hinUse.maxSegments_eq]
  refine ⟨hwell.count_le, fun grant hgrant => ?_, hinUse.accounts.apart,
    fun length align hpow => ⟨?_, ?_, ?_, ?_⟩⟩
  · have hcovers := hinUse.accounts.covers hwell hgrant
    exact ⟨hcovers, hinUse.accounts.aligned grant hgrant, (hwell.covers_iff.1 hcovers).2⟩
  · exact fun place hok => hinUse.serves hpow hok
  · exact fun error herror => ⟨hwell.alloc_eq_error hpow herror, state_alloc_of_error herror⟩
  · exact hwell.alloc_eq_ok_iff hpow
  · intro hlength halign
    rw [zeroed_fit?_eq, startIn_zero hpow halign hlength hwell.segmentBytes_lt]

/-- Segments of ten bytes, the first of which is written all over before anything is given out, and
the second of which is written behind what was given out. -/
def dirtyCalls : List ArenaCall :=
  [.write ⟨0, 0⟩ (List.replicate 10 255), .alloc 3 1 rfl, .alloc 4 4 rfl, .alloc 4 4 rfl,
    .write ⟨1, 4⟩ [9, 9]]

def dirty : Arena := (create 10 2).after dirtyCalls

theorem after_serves_dirty :
    dirty.read ⟨1, 4⟩ 2 = .ok [9, 9] ∧ isPowerOfTwo 4 = true ∧
      (dirty.alloc 2 4).result = .ok ⟨1, 4⟩ ∧
      dirty.Serves [⟨⟨⟨0, 0⟩, 3⟩, 1⟩, ⟨⟨⟨0, 4⟩, 4⟩, 4⟩, ⟨⟨⟨1, 0⟩, 4⟩, 4⟩] 2 4 ⟨1, 4⟩
        (dirty.alloc 2 4).state ∧
      isPowerOfTwo 8 = true ∧
      (dirty.alloc 8 8).result = .error (.capacityExceeded 8 20) ∧
      (dirty.alloc 8 8).state = dirty := by
  have hfour : isPowerOfTwo 4 = true := rfl
  have height : isPowerOfTwo 8 = true := rfl
  have hok : (dirty.alloc 2 4).result = .ok ⟨1, 4⟩ := rfl
  have hfull : (dirty.alloc 8 8).result = .error (.capacityExceeded 8 20) := rfl
  obtain ⟨-, -, -, -, -, hnext⟩ := after_serves 10 2 dirtyCalls
  exact ⟨rfl, hfour, hok, (hnext 2 4 hfour).1 _ hok, height, hfull,
    ((hnext 8 8 height).2.1 _ hfull).2⟩

end Arena

end UnboxedRecords
