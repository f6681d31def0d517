import UnboxedRecords.Proofs.Memory.Allocation

/-!
# Room for records

The length of a record is a multiple of its alignment (`Padded`), and the segments of a heap are as
large as a power of two.  So the free bytes behind a segment's cursor hold a record as soon as there
are as many of them as it is long: what is lost by rounding up is never what is missing
(`Arena.WellFormed.startIn_eq`).  How a request for a record ends can therefore be said with sums
alone (`Arena.WellFormed.result_alloc`).

Once there is no room for a record there will never be room for one as large (`Arena.Lacks.gives`).

Requests for records of one kind fill segment after segment without a gap (`Arena.Stacked`), so
their number tells where each of them is, and when one is refused (`Arena.Stacked.result_alloc`).
-/

namespace UnboxedRecords

/-- A length at a power of two, as records have them: padded to a multiple of it. -/
structure Padded (length align : Nat) : Prop where
  powerOfTwo : isPowerOfTwo align = true
  dvd : align ∣ length

namespace Arena

variable {arena next : Arena} {length align size alignment count filled : Nat} {place : Position}

/-- In segments as large as a power of two, padded bytes fit behind the cursor as soon as there are
enough bytes left. -/
theorem WellFormed.startIn_eq (h : arena.WellFormed)
    (hbytes : isPowerOfTwo arena.segmentBytes = true) (hpadded : Padded length align)
    (halign : align ≤ arena.segmentBytes) {used : Nat} (hused : used ≤ arena.segmentBytes) :
    arena.startIn used length align =
      if used + length ≤ arena.segmentBytes then some (alignUp used align) else none := by
  have hpos := pos_of_isPowerOfTwo hpadded.powerOfTwo
  have hdvd := dvd_of_isPowerOfTwo hpadded.powerOfTwo hbytes halign
  have hlimit : arena.segmentBytes < addressLimit :=
    Nat.lt_trans h.segmentBytes_lt (by decide)
  have hstart : alignUp used align ≤ arena.segmentBytes := alignUp_le_of_dvd hpos hused hdvd
  have hfits : alignUp used align + length ≤ arena.segmentBytes ↔
      used + length ≤ arena.segmentBytes := by
    constructor
    · intro hle
      exact Nat.le_trans (Nat.add_le_add_right (le_alignUp hpos) length) hle
    · -- the last place for the bytes is a multiple of the alignment
      intro hle
      have hlast : alignUp used align ≤ arena.segmentBytes - length :=
        alignUp_le_of_dvd hpos (by omega) (Nat.dvd_sub hdvd hpadded.dvd)
      omega
  rw [startIn, alignUp?_eq hpadded.powerOfTwo (by omega), if_pos (by omega)]
  simp only [hfits]

/-- How a request for padded bytes ends. -/
theorem WellFormed.result_alloc (h : arena.WellFormed)
    (hbytes : isPowerOfTwo arena.segmentBytes = true) (hpadded : Padded length align) :
    (arena.alloc length align).result =
      if arena.segmentBytes < length ∨ arena.segmentBytes < align then
        .error (.capacityExceeded length arena.segmentBytes)
      else if arena.used arena.current + length ≤ arena.segmentBytes then
        .ok ⟨arena.current, alignUp (arena.used arena.current) align⟩
      else if arena.maxSegments ≤ arena.segments.size then
        .error (.capacityExceeded length arena.capacity)
      else
        .ok ⟨arena.segments.size, 0⟩ := by
  have hstart := fun halign =>
    h.startIn_eq hbytes hpadded halign (h.used_le arena.current)
  have hcases := h.alloc_cases hpadded.powerOfTwo length
  generalize (arena.alloc length align).result = result at hcases ⊢
  generalize (arena.alloc length align).state = next at hcases
  cases hcases with
  | tooLarge hlarge => rw [if_pos hlarge]
  | full hlength halign hnone hfull =>
    rw [hstart halign] at hnone
    rw [if_neg (by omega), if_neg (by simpa using hnone), if_pos hfull]
  | claimed offset hlength halign hsome =>
    rw [hstart halign, Option.ite_none_right_eq_some, Option.some_inj] at hsome
    rw [if_neg (by omega), if_pos hsome.1, hsome.2]
  | grown hlength halign hnone hroom =>
    rw [hstart halign] at hnone
    rw [if_neg (by omega), if_neg (by simpa using hnone), if_neg (by omega)]

/-! ## No room any more -/

/-- There is no room for `length` bytes at a multiple of `align`: no segment is large enough, or
the last segment that there may be has fewer bytes left. -/
def Lacks (arena : Arena) (length align : Nat) : Prop :=
  arena.segmentBytes < length ∨ arena.segmentBytes < align ∨
    arena.maxSegments ≤ arena.segments.size ∧
      arena.segmentBytes < arena.used arena.current + length

/-- A request for padded bytes is refused exactly if there is no room for them. -/
theorem WellFormed.alloc_settled (h : arena.WellFormed)
    (hbytes : isPowerOfTwo arena.segmentBytes = true) (hpadded : Padded length align) :
    (arena.Lacks length align ∧ ∃ capacity,
        (arena.alloc length align).result = .error (.capacityExceeded length capacity)) ∨
      (¬ arena.Lacks length align ∧ ∃ place, (arena.alloc length align).result = .ok place) := by
  rw [h.result_alloc hbytes hpadded]
  split
  · next hlarge => exact Or.inl ⟨hlarge.elim Or.inl (Or.inr ∘ Or.inl), _, rfl⟩
  · split
    · next hlarge hfits =>
      refine Or.inr ⟨?_, _, rfl⟩
      rw [Lacks]
      omega
    · split
      · next hlarge hfits hfull =>
        exact Or.inl ⟨Or.inr (Or.inr ⟨hfull, Nat.lt_of_not_le hfits⟩), _, rfl⟩
      · next hlarge hfits hfull =>
        refine Or.inr ⟨?_, _, rfl⟩
        rw [Lacks]
        omega

/-- Where there is no room for some bytes, there is none for more. -/
theorem Lacks.mono (h : arena.Lacks length align) (hlength : length ≤ size)
    (halign : align ≤ alignment) : arena.Lacks size alignment := by
  rcases h with hlarge | hlarge | ⟨hfull, hused⟩
  · exact Or.inl (Nat.lt_of_lt_of_le hlarge hlength)
  · exact Or.inr (Or.inl (Nat.lt_of_lt_of_le hlarge halign))
  · exact Or.inr (Or.inr ⟨hfull, Nat.lt_of_lt_of_le hused (Nat.add_le_add_left hlength _)⟩)

theorem Lacks.of_sameShape (h : arena.Lacks length align) (hshape : arena.SameShape next) :
    next.Lacks length align := by
  rw [Lacks, ← hshape.segmentBytes_eq, ← hshape.maxSegments_eq, ← hshape.count_eq,
    ← hshape.current_eq, ← hshape.used_eq]
  exact h

/-- Giving out other bytes makes no room. -/
theorem Lacks.gives (h : arena.Lacks length align) (hwell : arena.WellFormed)
    (hgives : arena.Gives size alignment place next) : next.Lacks length align := by
  rw [Lacks, hgives.segmentBytes_eq, hgives.maxSegments_eq]
  rcases h with hlarge | hlarge | ⟨hfull, hused⟩
  · exact Or.inl hlarge
  · exact Or.inr (Or.inl hlarge)
  · -- no segment was added, and the last one is at least as full as before
    have hcount := hgives.count_eq
    have hle := hgives.wellFormed.count_le
    have hlast := hwell.current_succ
    have hlast' := hgives.wellFormed.current_succ
    rw [hgives.maxSegments_eq] at hle
    have hsame : next.segments.size = arena.segments.size := by omega
    have hcurrent : next.current = arena.current := by omega
    have hmore := hgives.used_le arena.current
    rw [hsame, hcurrent]
    exact Or.inr (Or.inr ⟨hfull, by omega⟩)

/-! ## Records of one kind -/

/-- The arena gave out `count` stretches of `length` bytes and nothing else: as many as go into a
segment in all segments but the last, and `filled` of them at the start of the last one. -/
structure Stacked (arena : Arena) (length count filled : Nat) : Prop where
  count_eq : count = arena.current * (arena.segmentBytes / length) + filled
  filled_le : filled ≤ arena.segmentBytes / length
  used_eq : arena.used arena.current = filled * length

theorem stacked_create (segmentBytes : UInt32) (maxSegments : UInt16) (length : Nat) :
    (create segmentBytes maxSegments).Stacked length 0 0 where
  count_eq := by simp [create]
  filled_le := Nat.zero_le _
  used_eq := by simp [create, used]

namespace Stacked

/-- There is room in the last segment until it holds as many as it can. -/
theorem fits_iff (h : arena.Stacked length count filled) (hpos : 0 < length) :
    arena.used arena.current + length ≤ arena.segmentBytes ↔
      filled < arena.segmentBytes / length := by
  rw [h.used_eq, ← Nat.succ_mul, ← Nat.le_div_iff_mul_le hpos]
  exact Iff.rfl

section Requests

variable (h : arena.Stacked length count filled) (hwell : arena.WellFormed)
  (hbytes : isPowerOfTwo arena.segmentBytes = true) (hpadded : Padded length align)
  (hpos : 0 < length)

include h hwell hbytes hpadded hpos

/-- Before the last segment is full the next one goes behind the others in it. -/
theorem result_alloc_of_lt (hroom : filled < arena.segmentBytes / length) :
    count < arena.segmentBytes / length * max 1 arena.maxSegments ∧
      (arena.alloc length align).result = .ok ⟨count / (arena.segmentBytes / length),
        count % (arena.segmentBytes / length) * length⟩ := by
  have hfits := (h.fits_iff hpos).2 hroom
  have halign := Nat.le_of_dvd hpos hpadded.dvd
  have hplace : alignUp (arena.used arena.current) align = filled * length := by
    rw [h.used_eq]
    exact alignUp_of_dvd (pos_of_isPowerOfTwo hpadded.powerOfTwo)
      (Nat.dvd_mul_left_of_dvd hpadded.dvd filled)
  have hcurrent := hwell.current_lt
  have hcount := hwell.count_le
  have hcount_eq := h.count_eq
  rw [hwell.result_alloc hbytes hpadded, if_neg (by omega), if_pos hfits, hplace]
  generalize arena.segmentBytes / length = perSegment at *
  rw [Nat.mul_comm] at hcount_eq
  constructor
  · calc count < perSegment * (arena.current + 1) := by rw [Nat.mul_succ]; omega
      _ ≤ perSegment * max 1 arena.maxSegments := Nat.mul_le_mul_left _ (by omega)
  · rw [hcount_eq, Nat.mul_add_div (by omega), Nat.div_eq_of_lt hroom, Nat.mul_add_mod,
      Nat.mod_eq_of_lt hroom, Nat.add_zero]

/-- When the last segment is full the next one goes to the start of a fresh segment, if there may be
one. -/
theorem result_alloc_of_full (hlength : length ≤ arena.segmentBytes)
    (hfull : filled = arena.segmentBytes / length) :
    count = arena.segmentBytes / length * arena.segments.size ∧
      (arena.alloc length align).result =
        if arena.maxSegments ≤ arena.segments.size then
          .error (.capacityExceeded length arena.capacity)
        else .ok ⟨arena.segments.size, 0⟩ := by
  have halign := Nat.le_of_dvd hpos hpadded.dvd
  have hfits := mt (h.fits_iff hpos).1 (by omega)
  refine ⟨?_, by rw [hwell.result_alloc hbytes hpadded, if_neg (by omega), if_neg hfits]⟩
  rw [h.count_eq, hfull, ← Nat.succ_mul, Nat.succ_eq_add_one, hwell.current_succ, Nat.mul_comm]

/-- The next one goes behind the others as long as the segments that there may be can hold it. -/
theorem result_alloc (hlength : length ≤ arena.segmentBytes) (hmax : 0 < arena.maxSegments) :
    (arena.alloc length align).result =
      if count < arena.segmentBytes / length * arena.maxSegments then
        .ok ⟨count / (arena.segmentBytes / length),
          count % (arena.segmentBytes / length) * length⟩
      else .error (.capacityExceeded length (arena.maxSegments * arena.segmentBytes)) := by
  rcases Nat.lt_or_eq_of_le h.filled_le with hroom | hfull
  · obtain ⟨hless, hresult⟩ := h.result_alloc_of_lt hwell hbytes hpadded hpos hroom
    rw [Nat.max_eq_right hmax] at hless
    rw [hresult, if_pos hless]
  · obtain ⟨rfl, hresult⟩ := h.result_alloc_of_full hwell hbytes hpadded hpos hlength hfull
    have hk : 0 < arena.segmentBytes / length := Nat.div_pos hlength hpos
    have hcount := hwell.count_le
    simp only [hresult, Nat.mul_lt_mul_left hk, Nat.mul_div_cancel_left _ hk, Nat.mul_mod_right,
      Nat.zero_mul]
    split
    · next hle =>
      rw [if_neg (by omega), capacity, show arena.segments.size = arena.maxSegments by omega]
    · next hlt => rw [if_pos (by omega)]

end Requests

/-- One more of them. -/
theorem succ (h : arena.Stacked length count filled) (hwell : arena.WellFormed)
    (hpos : 0 < length) (hlength : length ≤ arena.segmentBytes)
    (hgives : arena.Gives length align ⟨count / (arena.segmentBytes / length),
      count % (arena.segmentBytes / length) * length⟩ next) :
    next.Stacked length (count + 1) (count % (arena.segmentBytes / length) + 1) := by
  have hk : 0 < arena.segmentBytes / length := Nat.div_pos hlength hpos
  have hle : arena.current ≤ count / (arena.segmentBytes / length) := by
    rw [Nat.le_div_iff_mul_le hk, h.count_eq]
    exact Nat.le_add_right _ _
  have hcurrent : next.current = count / (arena.segmentBytes / length) := by
    have hcount : next.segments.size =
        max arena.segments.size (count / (arena.segmentBytes / length) + 1) := hgives.count_eq
    have hlast := hwell.current_succ
    have hlast' := hgives.wellFormed.current_succ
    omega
  have hdiv := Nat.div_add_mod' count (arena.segmentBytes / length)
  refine ⟨?_, ?_, ?_⟩
  · rw [hcurrent, hgives.segmentBytes_eq]
    omega
  · rw [hgives.segmentBytes_eq]
    exact Nat.mod_lt count hk
  · rw [hcurrent, Nat.succ_mul]
    exact hgives.used_eq

end Stacked

end Arena

end UnboxedRecords
