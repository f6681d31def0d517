import UnboxedRecords.Proofs.Memory.Places

/-!
# Giving out memory

`Arena.WellFormed` says what every arena looks like at any time of its use: at least one segment,
the last of which is being filled, all of one size, none of them filled beyond its end, and no more
of them than allowed.  In such an arena a request is refused for want of room or granted, and never
runs into a fault (`Arena.WellFormed.alloc_cases`).

`Arena.Gives` is all that is to be known about a request that was granted.  Its bytes lie behind all
that was given out before in their segment, and inside the segment; they are zero, and no other byte
of the arena has changed.

What is granted depends on how full the segments are and not on the bytes in them
(`Arena.SameShape.alloc`).
-/

namespace UnboxedRecords

namespace Arena

/-- The number of bytes of a segment that are given out, gaps included. -/
def used (arena : Arena) (index : Nat) : Nat := (arena.segments[index]?).elim 0 (·.cursor)

/-- What holds of an arena throughout its use. -/
structure WellFormed (arena : Arena) : Prop where
  /-- It is the last segment that is being filled. -/
  current_succ : arena.current + 1 = arena.segments.size
  size_eq : ∀ {index : Nat} {segment : Segment}, arena.segments[index]? = some segment →
    segment.size = arena.segmentBytes
  used_le : ∀ index, arena.used index ≤ arena.segmentBytes
  segmentBytes_lt : arena.segmentBytes < 1 <<< 32
  count_le : arena.segments.size ≤ max 1 arena.maxSegments
  maxSegments_lt : arena.maxSegments < 1 <<< 16

theorem wellFormed_create (segmentBytes : UInt32) (maxSegments : UInt16) :
    (create segmentBytes maxSegments).WellFormed where
  current_succ := rfl
  size_eq := by
    intro index segment hsegment
    obtain ⟨hindex, rfl⟩ := Array.getElem?_eq_some_iff.1 hsegment
    simp [create]
  used_le := by
    intro index
    rcases index with _ | index
    · exact Nat.zero_le _
    · exact Nat.zero_le _
  segmentBytes_lt := segmentBytes.toNat_lt
  count_le := Nat.le_max_left _ _
  maxSegments_lt := maxSegments.toNat_lt

variable {arena next other : Arena} {length align offset : Nat} {place : Position}

theorem WellFormed.current_lt (h : arena.WellFormed) : arena.current < arena.segments.size :=
  Nat.lt_of_succ_le (Nat.le_of_eq h.current_succ)

theorem WellFormed.count_lt (h : arena.WellFormed) : arena.segments.size < 1 <<< 16 + 1 := by
  have hcount := h.count_le
  have hmax := h.maxSegments_lt
  omega

/-- The bytes that a well-formed arena has. -/
theorem WellFormed.covers_iff (h : arena.WellFormed) {extent : Extent} :
    arena.Covers extent ↔ extent.start.segment < arena.segments.size ∧
      extent.start.offset + extent.length ≤ arena.segmentBytes := by
  constructor
  · rintro ⟨segment, hsegment, hle⟩
    rw [h.size_eq hsegment] at hle
    exact ⟨(Array.getElem?_eq_some_iff.1 hsegment).1, hle⟩
  · rintro ⟨hlt, hle⟩
    refine ⟨arena.segments[extent.start.segment], Array.getElem?_eq_getElem hlt, ?_⟩
    rw [h.size_eq (Array.getElem?_eq_getElem hlt)]
    exact hle

/-! ## Writing keeps the shape -/

@[simp] theorem used_put (arena : Arena) (place : Position) (bytes : List UInt8) (index : Nat) :
    (arena.put place bytes).used index = arena.used index := by
  rw [used, used, getElem?_put]
  split
  · rcases arena.segments[index]? with _ | segment
    · rfl
    · rfl
  · rfl

theorem WellFormed.put (h : arena.WellFormed) (place : Position) (bytes : List UInt8) :
    (arena.put place bytes).WellFormed where
  current_succ := by simpa using h.current_succ
  size_eq := by
    intro index segment hsegment
    rw [getElem?_put] at hsegment
    split at hsegment
    · obtain ⟨old, hold, rfl⟩ := Option.map_eq_some_iff.1 hsegment
      rw [Segment.size_put, segmentBytes_put]
      exact h.size_eq hold
    · exact h.size_eq hsegment
  used_le := by simpa using h.used_le
  segmentBytes_lt := h.segmentBytes_lt
  count_le := by simpa using h.count_le
  maxSegments_lt := h.maxSegments_lt

/-! ## Room in the segment being filled and in a fresh one -/

/-- The start of the next bytes in a segment of which `used` bytes are given out. -/
def startIn (arena : Arena) (used length align : Nat) : Option Nat :=
  match alignUp? used align with
  | none => none
  | some start => if start + length ≤ arena.segmentBytes then some start else none

theorem startIn_eq_some (hpow : isPowerOfTwo align = true) {used start : Nat}
    (h : arena.startIn used length align = some start) :
    used ≤ start ∧ align ∣ start ∧ start + length ≤ arena.segmentBytes := by
  rw [startIn] at h
  split at h
  · simp at h
  · next first hfirst =>
    split at h
    · next hle =>
      cases h
      exact ⟨le_of_alignUp? hpow hfirst, dvd_of_alignUp? hpow hfirst, hle⟩
    · simp at h

theorem segmentFit?_eq {segment : Segment} (h : segment.size = arena.segmentBytes) :
    segment.fit? length align = arena.startIn segment.cursor length align := by
  rcases halign : alignUp? segment.cursor align with _ | start
  · simp only [Segment.fit?, startIn, halign]
  · simp only [Segment.fit?, startIn, halign, h]

theorem WellFormed.fit?_eq (h : arena.WellFormed) :
    arena.fit? length align = arena.startIn (arena.used arena.current) length align := by
  have hcurrent := Array.getElem?_eq_getElem h.current_lt
  rw [fit?, used, hcurrent]
  exact segmentFit?_eq (h.size_eq hcurrent)

theorem zeroed_fit?_eq :
    (Segment.zeroed arena.segmentBytes).fit? length align = arena.startIn 0 length align :=
  segmentFit?_eq (Segment.size_zeroed _)

/-- The start of the first bytes of a fresh segment. -/
theorem startIn_zero (hpow : isPowerOfTwo align = true) (halign : align ≤ arena.segmentBytes)
    (hlength : length ≤ arena.segmentBytes) (hbytes : arena.segmentBytes < 1 <<< 32) :
    arena.startIn 0 length align = some 0 := by
  have hle : align ≤ addressLimit := by
    rw [addressLimit]
    omega
  have hzero : alignUp 0 align = 0 := by
    have hpos := pos_of_isPowerOfTwo hpow
    rw [alignUp, Nat.zero_add, Nat.div_eq_of_lt (by omega), Nat.zero_mul]
  have haddress : alignUp 0 align < addressLimit := by
    rw [hzero]
    decide
  rw [startIn, alignUp?_eq hpow hle, if_pos haddress, hzero]
  simp [hlength]

/-- How a request ends.  It is refused because no segment could ever hold it, or because there is no
room left and no segment may be added; then nothing changes.  Or its bytes are given out in the
segment being filled, or at the start of a fresh one. -/
inductive AllocOutcome (arena : Arena) (length align : Nat) :
    Except MemoryError Position → Arena → Prop
  | tooLarge (hlarge : arena.segmentBytes < length ∨ arena.segmentBytes < align) :
      AllocOutcome arena length align
        (.error (.capacityExceeded length arena.segmentBytes)) arena
  | full (hlength : length ≤ arena.segmentBytes) (halign : align ≤ arena.segmentBytes)
      (hstart : arena.startIn (arena.used arena.current) length align = none)
      (hfull : arena.maxSegments ≤ arena.segments.size) :
      AllocOutcome arena length align (.error (.capacityExceeded length arena.capacity)) arena
  | claimed (offset : Nat) (hlength : length ≤ arena.segmentBytes)
      (halign : align ≤ arena.segmentBytes)
      (hstart : arena.startIn (arena.used arena.current) length align = some offset) :
      AllocOutcome arena length align (.ok ⟨arena.current, offset⟩) (arena.claim offset length)
  | grown (hlength : length ≤ arena.segmentBytes) (halign : align ≤ arena.segmentBytes)
      (hstart : arena.startIn (arena.used arena.current) length align = none)
      (hroom : arena.segments.size < arena.maxSegments) :
      AllocOutcome arena length align (.ok ⟨arena.segments.size, 0⟩) (arena.grow 0 length)

/-- In a well-formed arena no request runs into a fault, and a fresh segment has room for it. -/
theorem WellFormed.alloc_cases (h : arena.WellFormed) (hpow : isPowerOfTwo align = true)
    (length : Nat) :
    AllocOutcome arena length align (arena.alloc length align).result
      (arena.alloc length align).state := by
  have hbytes := h.segmentBytes_lt
  rw [alloc]
  split
  · next hlarge => exact .tooLarge hlarge
  · next hsmall =>
    obtain ⟨hlength, halign⟩ : length ≤ arena.segmentBytes ∧ align ≤ arena.segmentBytes := by
      omega
    -- the last refusal of all, of a fresh segment, is never reached
    rw [h.fit?_eq, zeroed_fit?_eq, startIn_zero hpow halign hlength hbytes]
    rcases hstart : arena.startIn (arena.used arena.current) length align with _ | offset
    · dsimp only
      split
      · next hfull => exact .full hlength halign hstart hfull
      · next hfull =>
        have hmax := h.maxSegments_lt
        rw [Position.make_eq_ok (by omega) (by decide)]
        exact .grown hlength halign hstart (Nat.lt_of_not_le hfull)
    · have hle := (startIn_eq_some hpow hstart).2.2
      have hcount := h.count_lt
      have hcurrent := h.current_lt
      dsimp only
      rw [Position.make_eq_ok (by omega) (by omega)]
      exact .claimed offset hlength halign hstart

/-! ## Bytes that were given out -/

/-- `next` is what is left of `arena` when it gives out `length` bytes at `place`. -/
structure Gives (arena : Arena) (length align : Nat) (place : Position) (next : Arena) : Prop where
  wellFormed : next.WellFormed
  segmentBytes_eq : next.segmentBytes = arena.segmentBytes
  maxSegments_eq : next.maxSegments = arena.maxSegments
  count_eq : next.segments.size = max arena.segments.size (place.segment + 1)
  aligned : align ∣ place.offset
  fresh : arena.used place.segment ≤ place.offset
  used_eq : next.used place.segment = place.offset + length
  used_of_ne : ∀ index, index ≠ place.segment → next.used index = arena.used index
  zero : next.bytesAt ⟨place, length⟩ = List.replicate length 0
  keeps : ∀ elsewhere : Position, elsewhere.segment < arena.segments.size →
    elsewhere ∉ (⟨place, length⟩ : Extent) → next.byte? elsewhere = arena.byte? elsewhere

theorem Gives.covers (h : arena.Gives length align place next) : next.Covers ⟨place, length⟩ := by
  have hcount := h.count_eq
  have hle := h.wellFormed.used_le place.segment
  rw [h.used_eq] at hle
  exact h.wellFormed.covers_iff.2 ⟨show place.segment < _ by omega, hle⟩

theorem Gives.used_le (h : arena.Gives length align place next) (index : Nat) :
    arena.used index ≤ next.used index := by
  by_cases hindex : index = place.segment
  · have hfresh := h.fresh
    rw [hindex, h.used_eq]
    omega
  · exact Nat.le_of_eq (h.used_of_ne index hindex).symm

/-! ### In the segment being filled -/

theorem getElem?_claim (arena : Arena) (offset length index : Nat) :
    (arena.claim offset length).segments[index]? =
      if arena.current = index then (arena.segments[index]?).map (·.claim offset length)
      else arena.segments[index]? :=
  Array.getElem?_modify

@[simp] theorem size_segments_claim (arena : Arena) (offset length : Nat) :
    (arena.claim offset length).segments.size = arena.segments.size :=
  Array.size_modify

/-- The bytes of an arena in which memory is claimed are those after zeros were put there. -/
theorem byte?_claim (arena : Arena) (offset length : Nat) (place : Position) :
    (arena.claim offset length).byte? place =
      (arena.put ⟨arena.current, offset⟩ (List.replicate length 0)).byte? place := by
  rw [byte?, byte?, getElem?_put, getElem?_claim]
  split
  · rcases arena.segments[place.segment]? with _ | segment
    · rfl
    · rfl
  · rfl

theorem used_claim (h : arena.WellFormed) (offset length index : Nat) :
    (arena.claim offset length).used index =
      if index = arena.current then offset + length else arena.used index := by
  rw [used, used, getElem?_claim]
  by_cases hindex : arena.current = index
  · subst hindex
    rw [if_pos rfl, if_pos rfl, Array.getElem?_eq_getElem h.current_lt]
    rfl
  · rw [if_neg hindex, if_neg (Ne.symm hindex)]

theorem WellFormed.claim (h : arena.WellFormed) (hle : offset + length ≤ arena.segmentBytes) :
    (arena.claim offset length).WellFormed where
  current_succ := by
    rw [size_segments_claim]
    exact h.current_succ
  size_eq := by
    intro index segment hsegment
    rw [getElem?_claim] at hsegment
    split at hsegment
    · obtain ⟨old, hold, rfl⟩ := Option.map_eq_some_iff.1 hsegment
      rw [Segment.size_claim]
      exact h.size_eq hold
    · exact h.size_eq hsegment
  used_le := by
    intro index
    rw [used_claim h]
    split
    · exact hle
    · exact h.used_le index
  segmentBytes_lt := h.segmentBytes_lt
  count_le := by
    rw [size_segments_claim]
    exact h.count_le
  maxSegments_lt := h.maxSegments_lt

/-- What it means to give out bytes in the segment being filled. -/
theorem WellFormed.gives_claim (h : arena.WellFormed) (hpow : isPowerOfTwo align = true)
    (hstart : arena.startIn (arena.used arena.current) length align = some offset) :
    arena.Gives length align ⟨arena.current, offset⟩ (arena.claim offset length) := by
  obtain ⟨hfresh, haligned, hle⟩ := startIn_eq_some hpow hstart
  have hcurrent := h.current_lt
  have hzeros : (List.replicate length (0 : UInt8)).length = length := List.length_replicate
  have hcovers : arena.Covers ⟨⟨arena.current, offset⟩, length⟩ := h.covers_iff.2 ⟨hcurrent, hle⟩
  exact {
    wellFormed := h.claim hle
    segmentBytes_eq := rfl
    maxSegments_eq := rfl
    count_eq := by
      rw [size_segments_claim]
      exact (Nat.max_eq_left hcurrent).symm
    aligned := haligned
    fresh := hfresh
    used_eq := by rw [used_claim h, if_pos rfl]
    used_of_ne := by
      intro index hne
      rw [used_claim h, if_neg hne]
    zero := by
      rw [bytesAt_congr fun place _ => byte?_claim arena offset length place]
      rw [← hzeros] at hcovers
      simpa only [hzeros] using bytesAt_put hcovers
    keeps := by
      intro elsewhere _ hnot
      rw [byte?_claim, byte?_put_of_not_mem]
      rwa [hzeros] }

/-! ### In a fresh segment -/

theorem getElem?_grow (arena : Arena) (offset length index : Nat) :
    (arena.grow offset length).segments[index]? =
      if index = arena.segments.size then
        some ((Segment.zeroed arena.segmentBytes).claim offset length)
      else arena.segments[index]? :=
  Array.getElem?_push

@[simp] theorem size_segments_grow (arena : Arena) (offset length : Nat) :
    (arena.grow offset length).segments.size = arena.segments.size + 1 :=
  Array.size_push _

theorem used_grow (arena : Arena) (offset length index : Nat) :
    (arena.grow offset length).used index =
      if index = arena.segments.size then offset + length else arena.used index := by
  rw [used, used, getElem?_grow]
  split
  · rfl
  · rfl

theorem WellFormed.grow (h : arena.WellFormed) (hle : offset + length ≤ arena.segmentBytes)
    (hroom : arena.segments.size < arena.maxSegments) :
    (arena.grow offset length).WellFormed where
  current_succ := (size_segments_grow arena offset length).symm
  size_eq := by
    intro index segment hsegment
    rw [getElem?_grow] at hsegment
    split at hsegment
    · cases hsegment
      rw [Segment.size_claim, Segment.size_zeroed]
      rfl
    · exact h.size_eq hsegment
  used_le := by
    intro index
    rw [used_grow]
    split
    · exact hle
    · exact h.used_le index
  segmentBytes_lt := h.segmentBytes_lt
  count_le := by
    rw [size_segments_grow]
    exact Nat.le_trans hroom (Nat.le_max_right _ _)
  maxSegments_lt := h.maxSegments_lt

/-- What it means to give out the first bytes of a fresh segment. -/
theorem WellFormed.gives_grow (h : arena.WellFormed) (hlength : length ≤ arena.segmentBytes)
    (hroom : arena.segments.size < arena.maxSegments) :
    arena.Gives length align ⟨arena.segments.size, 0⟩ (arena.grow 0 length) where
  wellFormed := h.grow (by omega) hroom
  segmentBytes_eq := rfl
  maxSegments_eq := rfl
  count_eq := by
    rw [size_segments_grow]
    exact (Nat.max_eq_right (Nat.le_succ _)).symm
  aligned := Nat.dvd_zero align
  fresh := by
    rw [used, Array.getElem?_eq_none (Nat.le_refl _)]
    exact Nat.le_refl 0
  used_eq := by rw [used_grow, if_pos rfl]
  used_of_ne := by
    intro index hne
    rw [used_grow, if_neg hne]
  zero := by
    refine List.ext_getElem? fun i => ?_
    by_cases hi : i < length
    · have hget : (overwrite (Array.replicate arena.segmentBytes 0) 0
          (List.replicate length 0))[0 + i]? = (List.replicate length (0 : UInt8))[i]? :=
        getElem?_overwrite (by simpa using hlength) (by simpa using hi)
      rw [getElem?_bytesAt _ ⟨⟨arena.segments.size, 0⟩, length⟩ hi, byte?,
        Position.segment_shift, getElem?_grow, if_pos rfl, Option.bind_some, Segment.claim,
        Segment.zeroed, Position.offset_shift, hget]
      simp [hi]
    · rw [List.getElem?_eq_none (by simp; omega), List.getElem?_eq_none (by simp; omega)]
  keeps := by
    intro elsewhere hlt _
    rw [byte?, byte?, getElem?_grow, if_neg (Nat.ne_of_lt hlt)]

/-- All about a request that was granted. -/
theorem WellFormed.gives_alloc (h : arena.WellFormed) (hpow : isPowerOfTwo align = true)
    (hok : (arena.alloc length align).result = .ok place) :
    arena.Gives length align place (arena.alloc length align).state := by
  have hcases := h.alloc_cases hpow length
  rw [hok] at hcases
  generalize (arena.alloc length align).state = next at hcases ⊢
  cases hcases with
  | claimed offset hlength halign hstart => exact h.gives_claim hpow hstart
  | grown hlength halign hstart hroom => exact h.gives_grow hlength hroom

/-! ## Arenas of the same shape -/

/-- The same segments, equally full, whatever bytes are in them. -/
structure SameShape (arena other : Arena) : Prop where
  segmentBytes_eq : arena.segmentBytes = other.segmentBytes
  maxSegments_eq : arena.maxSegments = other.maxSegments
  current_eq : arena.current = other.current
  count_eq : arena.segments.size = other.segments.size
  used_eq : ∀ index, arena.used index = other.used index

theorem SameShape.refl (arena : Arena) : arena.SameShape arena := ⟨rfl, rfl, rfl, rfl, fun _ => rfl⟩

/-- Writing does not change the shape. -/
theorem sameShape_put (arena : Arena) (place : Position) (bytes : List UInt8) :
    arena.SameShape (arena.put place bytes) :=
  ⟨rfl, rfl, rfl, (size_segments_put arena place bytes).symm,
    fun index => (used_put arena place bytes index).symm⟩

theorem SameShape.symm (h : arena.SameShape other) : other.SameShape arena :=
  ⟨h.segmentBytes_eq.symm, h.maxSegments_eq.symm, h.current_eq.symm, h.count_eq.symm,
    fun index => (h.used_eq index).symm⟩

theorem SameShape.trans {third : Arena} (h : arena.SameShape other) (h' : other.SameShape third) :
    arena.SameShape third :=
  ⟨h.segmentBytes_eq.trans h'.segmentBytes_eq, h.maxSegments_eq.trans h'.maxSegments_eq,
    h.current_eq.trans h'.current_eq, h.count_eq.trans h'.count_eq,
    fun index => (h.used_eq index).trans (h'.used_eq index)⟩

theorem SameShape.startIn_eq (h : arena.SameShape other) (used length align : Nat) :
    arena.startIn used length align = other.startIn used length align := by
  rw [startIn, startIn, h.segmentBytes_eq]

/-- Arenas of the same shape answer a request alike, and are of the same shape again. -/
theorem SameShape.alloc (h : arena.SameShape other) (ha : arena.WellFormed) (hb : other.WellFormed)
    (hpow : isPowerOfTwo align = true) (length : Nat) :
    (arena.alloc length align).result = (other.alloc length align).result ∧
      (arena.alloc length align).state.SameShape (other.alloc length align).state := by
  have hresult : (arena.alloc length align).result = (other.alloc length align).result := by
    rw [Arena.alloc, Arena.alloc, ha.fit?_eq, hb.fit?_eq, zeroed_fit?_eq, zeroed_fit?_eq,
      h.segmentBytes_eq, h.maxSegments_eq, h.count_eq, capacity, capacity, h.segmentBytes_eq,
      h.count_eq, h.current_eq, h.used_eq, h.startIn_eq, h.startIn_eq]
    split
    · rfl
    · split
      · split
        · rfl
        · rfl
      · split
        · rfl
        · split
          · split
            · rfl
            · rfl
          · rfl
  refine ⟨hresult, ?_⟩
  rcases hok : (arena.alloc length align).result with error | place
  · have hstate := state_alloc_of_error hok
    rw [hresult] at hok
    rw [hstate, state_alloc_of_error hok]
    exact h
  · have hleft := ha.gives_alloc hpow hok
    rw [hresult] at hok
    have hright := hb.gives_alloc hpow hok
    have hcount : (arena.alloc length align).state.segments.size =
        (other.alloc length align).state.segments.size := by
      rw [hleft.count_eq, hright.count_eq, h.count_eq]
    refine ⟨?_, ?_, ?_, hcount, fun index => ?_⟩
    · rw [hleft.segmentBytes_eq, hright.segmentBytes_eq, h.segmentBytes_eq]
    · rw [hleft.maxSegments_eq, hright.maxSegments_eq, h.maxSegments_eq]
    · -- both are filling the last of their segments
      have hlast := hleft.wellFormed.current_succ
      rw [hcount, ← hright.wellFormed.current_succ] at hlast
      exact Nat.succ.inj hlast
    · by_cases hindex : index = place.segment
      · rw [hindex, hleft.used_eq, hright.used_eq]
      · rw [hleft.used_of_ne index hindex, hright.used_of_ne index hindex, h.used_eq]

end Arena

end UnboxedRecords
