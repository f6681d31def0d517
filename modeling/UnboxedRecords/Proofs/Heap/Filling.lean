import Mathlib.Tactic.Ring
import UnboxedRecords.Proofs.Heap.Atomicity
import UnboxedRecords.Proofs.Heap.Capacity

/-!
# Filling a heap

A new heap that is filled with records of one kind holds as many of them as go into its segments,
each of them at the place that its number tells (`Heap.Filled`).  The next one is allocated or
refused as that number says (`Heap.Filled.alloc`, `Heap.Filled.refused`).

The numbers of objects are 32-bit ones.  That never makes the difference for the last record of a
heap: no heap has room for as many records as there are such numbers and for no more
(`succ_lt_of_capacity_lt`).

Records without any bytes need no room, and are never refused for want of it.
-/

namespace UnboxedRecords

/-! ## How many records there are room for -/

/-- Let segments of `bytes` bytes hold `perSegment` records of `size` bytes each, and no more.  Then
few segments never hold just one record less than an even multiple of `bytes`. -/
theorem mul_segments_add_one_ne {bytes perSegment segments size half : Nat} (hpos : 0 < size)
    (hdown : perSegment * size ≤ bytes) (hup : bytes < (perSegment + 1) * size)
    (htwo : 2 ≤ perSegment) (hsegments : segments * segments ≤ bytes * (2 * half)) :
    perSegment * segments + 1 ≠ bytes * (2 * half) := by
  intro heq
  have hodd : segments % 2 = 1 := by
    by_contra heven
    have hdvd : 2 ∣ perSegment * segments :=
      Nat.dvd_mul_left_of_dvd (Nat.dvd_of_mod_eq_zero (by omega)) perSegment
    have hdvd' : 2 ∣ bytes * (2 * half) :=
      Nat.dvd_mul_left_of_dvd (Nat.dvd_mul_right 2 half) bytes
    omega
  have hall : bytes * (2 * half * size) = perSegment * size * segments + size := by
    calc bytes * (2 * half * size) = bytes * (2 * half) * size := by ring
      _ = (perSegment * segments + 1) * size := by rw [heq]
      _ = perSegment * size * segments + size := by ring
  -- the records alone are as long as that even number of segments, and the segments are odd
  have hmany : 2 * half * size < segments := by
    by_contra hle
    have hmore : bytes * (segments + 1) ≤ bytes * (2 * half * size) := by
      refine Nat.mul_le_mul_left bytes ?_
      have heven : 2 * half * size = 2 * (half * size) := Nat.mul_assoc 2 half size
      omega
    have hdown' := Nat.mul_le_mul_right segments hdown
    have htwo' := Nat.mul_le_mul_right size htwo
    rw [Nat.mul_succ] at hmore
    omega
  -- so as much as a whole segment is lost at the ends of them, less than a record in each
  have hlost : bytes + size < size * segments := by
    have hup' := Nat.mul_lt_mul_of_pos_right hup (show 0 < segments by omega)
    have hmul : bytes * (2 * half * size + 1) ≤ bytes * segments :=
      Nat.mul_le_mul_left bytes hmany
    rw [Nat.mul_succ] at hmul
    rw [Nat.add_mul, Nat.one_mul, Nat.add_mul] at hup'
    omega
  have hle : (bytes + size) * (2 * half) ≤ segments * segments := by
    calc (bytes + size) * (2 * half) ≤ size * segments * (2 * half) :=
        Nat.mul_le_mul_right _ (Nat.le_of_lt hlost)
      _ = 2 * half * size * segments := by ring
      _ ≤ segments * segments := Nat.mul_le_mul_right segments (Nat.le_of_lt hmany)
  have hhalf : 0 < 2 * half := by
    refine Nat.pos_of_ne_zero fun hzero => ?_
    rw [hzero] at heq
    omega
  have hlt : bytes * (2 * half) < (bytes + size) * (2 * half) :=
    Nat.mul_lt_mul_of_pos_right (by omega) hhalf
  omega

/-- A heap that has room for fewer than `2 ^ 32` records has a number for one more than that. -/
theorem succ_lt_of_capacity_lt {segmentBytes maxSegments size : Nat}
    (hpow : isPowerOfTwo segmentBytes = true) (hbytes : segmentBytes < 1 <<< 32)
    (hmax : maxSegments < 1 <<< 16) (hpos : 0 < size)
    (hlt : segmentBytes / size * maxSegments < 1 <<< 32) :
    segmentBytes / size * maxSegments + 1 < 1 <<< 32 := by
  obtain ⟨k, rfl⟩ := isPowerOfTwo_iff.1 hpow
  rw [Nat.one_shiftLeft] at *
  have hk : k < 32 := (Nat.pow_lt_pow_iff_right (by decide)).1 hbytes
  have hall : 2 ^ k * (2 * 2 ^ (31 - k)) = 2 ^ 32 := by
    rw [← Nat.pow_succ', ← Nat.pow_add]
    congr 1
    omega
  have hdown : 2 ^ k / size * size ≤ 2 ^ k := Nat.div_mul_le_self _ _
  have hup : 2 ^ k < (2 ^ k / size + 1) * size := by
    rw [Nat.mul_comm]
    exact Nat.lt_mul_div_succ _ hpos
  have hsegments : maxSegments * maxSegments ≤ 2 ^ k * (2 * 2 ^ (31 - k)) := by
    calc maxSegments * maxSegments ≤ 2 ^ 16 * 2 ^ 16 :=
        Nat.mul_le_mul (Nat.le_of_lt hmax) (Nat.le_of_lt hmax)
      _ = 2 ^ k * (2 * 2 ^ (31 - k)) := hall.symm
  refine Nat.lt_of_le_of_ne hlt fun heq => ?_
  have htwo : 2 ≤ 2 ^ k / size := by
    by_contra hone
    have hfew : 2 ^ k / size * maxSegments ≤ 1 * maxSegments :=
      Nat.mul_le_mul_right _ (by omega)
    omega
  exact mul_segments_add_one_ne hpos hdown hup htwo hsegments (heq.trans hall.symm)

/-- How many instances of the layout go into one segment. -/
def HeapConfig.perSegment (config : HeapConfig) (layout : RecordLayout) : Nat :=
  config.segmentBytes.toNat / layout.size

/-- How many instances of the layout go into all segments that there may be. -/
def HeapConfig.recordLimit (config : HeapConfig) (layout : RecordLayout) : Nat :=
  config.perSegment layout * config.maxSegments.toNat

/-- A layout for the platform that has some bytes, and no more than a segment of the configuration.
-/
structure RecordLayout.Storable (layout : RecordLayout) (config : HeapConfig)
    (platform : Platform) : Prop where
  built : layout.Built
  platform_eq : layout.platform = platform
  size_pos : 0 < layout.size
  size_le : layout.size ≤ config.segmentBytes.toNat

/-- There is a number for one object more than there is room for. -/
theorem RecordLayout.Storable.succ_lt {layout : RecordLayout} {config : HeapConfig}
    {platform : Platform} (h : layout.Storable config platform) (hvalid : config.Valid)
    (hlimit : config.recordLimit layout < 1 <<< 32) : config.recordLimit layout + 1 < 1 <<< 32 :=
  succ_lt_of_capacity_lt (HeapConfig.valid_iff.1 hvalid).2.1 config.segmentBytes.toNat_lt
    config.maxSegments.toNat_lt h.size_pos hlimit

namespace Heap

variable {heap : Heap} {config : HeapConfig} {platform : Platform} {layout : RecordLayout}
  {count : Nat}

/-! ## Record after record -/

/-- The heap holds `count` instances of the layout and nothing else. -/
structure Filled (heap : Heap) (layout : RecordLayout) (count : Nat) : Prop where
  size_eq : heap.objects.size = count
  stacked : ∃ filled, heap.arena.Stacked layout.size count filled

theorem filled_create (h : Heap.create config platform = .ok heap) (layout : RecordLayout) :
    heap.Filled layout 0 := by
  rw [create] at h
  split at h
  · cases h
  · cases h
    exact ⟨rfl, 0, Arena.stacked_create _ _ _⟩

namespace Filled

/-- The memory for the next one. -/
theorem result_arena (h : heap.Filled layout count) (hheap : heap.Reachable config platform)
    (hfits : layout.Storable config platform) :
    (heap.arena.alloc layout.size layout.alignment).result =
      if count < config.recordLimit layout then
        .ok ⟨count / config.perSegment layout, count % config.perSegment layout * layout.size⟩
      else .error (.capacityExceeded layout.size
        (config.maxSegments.toNat * config.segmentBytes.toNat)) := by
  obtain ⟨filled, hstacked⟩ := h.stacked
  have hconfig := hheap.configured
  have hmax : 0 < heap.arena.maxSegments := by
    rw [hconfig.maxSegments_eq]
    exact Nat.pos_of_ne_zero fun hzero =>
      (HeapConfig.valid_iff.1 hconfig.valid).2.2 (UInt16.toNat_inj.1 hzero)
  rw [hstacked.result_alloc hheap.sound.1.arena hconfig.isPowerOfTwo hfits.built.padded
    hfits.size_pos (hconfig.segmentBytes_eq ▸ hfits.size_le) hmax, hconfig.segmentBytes_eq,
    hconfig.maxSegments_eq]
  rfl

/-- How the next allocation ends, as long as there is a number for its object. -/
theorem result_alloc (h : heap.Filled layout count) (hheap : heap.Reachable config platform)
    (hfits : layout.Storable config platform) (hnumber : count + 1 < 1 <<< 32) :
    (heap.alloc layout).result =
      if count < config.recordLimit layout then .ok ⟨count⟩
      else .error (.capacityExceeded layout.size
        (config.maxSegments.toNat * config.segmentBytes.toNat)) := by
  have halignment := Nat.le_of_dvd hfits.size_pos hfits.built.padded.dvd
  have hsize := Nat.lt_of_le_of_lt hfits.size_le config.segmentBytes.toNat_lt
  have hadmits : heap.admits layout = true := by
    rw [admits_iff, h.size_eq, maxEntry]
    omega
  rw [Heap.result_alloc, if_neg (not_not_intro (hfits.platform_eq.trans hheap.sound.2.symm)),
    if_neg (by simpa using hadmits), h.result_arena hheap hfits, h.size_eq]
  split
  · rfl
  · rfl

/-- One more of them, at the place that its number tells. -/
theorem succ (h : heap.Filled layout count) (hheap : heap.Reachable config platform)
    (hfits : layout.Storable config platform) (hnumber : count + 1 < 1 <<< 32)
    (hroom : count < config.recordLimit layout) :
    (heap.alloc layout).state.object ⟨count⟩ = .ok ⟨layout, ⟨count / config.perSegment layout,
        count % config.perSegment layout * layout.size⟩, layout.size⟩ ∧
      (heap.alloc layout).state.Filled layout (count + 1) := by
  obtain ⟨filled, hstacked⟩ := h.stacked
  have hsound := hheap.sound.1
  have harena := h.result_arena hheap hfits
  have heffect := hsound.alloc_effect layout hfits.built
  rw [if_pos hroom] at harena
  rw [h.result_alloc hheap hfits hnumber, if_pos hroom] at heffect
  generalize (heap.alloc layout).state = next at heffect
  cases heffect with
  | @allocated _ _ place hplaces =>
    have hplace := hplaces.result_eq
    rw [harena] at hplace
    cases hplace
    have hgives := hplaces.gives hsound
    have hsegment := hheap.configured.segmentBytes_eq
    rw [HeapConfig.perSegment, ← hsegment] at hgives
    refine ⟨?_, ?_, ?_⟩
    · rw [object_eq_ok_iff, objects_add, ← h.size_eq]
      exact Array.getElem?_push_size
    · rw [objects_add, Array.size_push, h.size_eq]
    · exact ⟨_, hstacked.succ hsound.arena hfits.size_pos (hsegment ▸ hfits.size_le) hgives⟩

end Filled

/-- After some allocations the heap holds as many of them as there is room for. -/
theorem filled_after (hcreate : Heap.create config platform = .ok heap)
    (hfits : layout.Storable config platform) {i : Nat}
    (hlimit : min i (config.recordLimit layout) < 1 <<< 32) :
    (heap.after (List.replicate i (.alloc layout hfits.built))).Filled layout
      (min i (config.recordLimit layout)) := by
  induction i with
  | zero => simpa using filled_create hcreate layout
  | succ i ih =>
    have hfilled := ih (by omega)
    have hheap := (Reachable.create hcreate).after (List.replicate i (.alloc layout hfits.built))
    rw [List.replicate_succ', after_append]
    generalize heap.after (List.replicate i (.alloc layout hfits.built)) = filled at hfilled hheap ⊢
    by_cases hroom : i < config.recordLimit layout
    · rw [Nat.min_eq_left (Nat.le_of_lt hroom)] at hfilled
      rw [Nat.min_eq_left hroom] at hlimit ⊢
      exact (hfilled.succ hheap hfits hlimit hroom).2
    · -- the heap is full, and the refused allocation leaves it as it is
      rw [Nat.min_eq_right (by omega)] at hfilled hlimit ⊢
      have hresult := hfilled.result_alloc hheap hfits
        (hfits.succ_lt hheap.configured.valid hlimit)
      rw [if_neg (Nat.lt_irrefl _)] at hresult
      have hperform : (filled.perform (.alloc layout hfits.built)).result =
          .error (.capacityExceeded layout.size
            (config.maxSegments.toNat * config.segmentBytes.toNat)) := by
        rw [perform, Outcome.result_map, hresult]
        rfl
      rw [after_cons, after_nil, hheap.sound.1.state_perform_of_error hperform]
      exact hfilled

/-- A record without bytes fits into every heap whose segments admit its alignment. -/
theorem Reachable.result_alloc_of_size_eq_zero (h : heap.Reachable config platform)
    (built : layout.Built) (hplatform : layout.platform = platform) (hsize : layout.size = 0)
    (halignment : layout.alignment ≤ config.segmentBytes.toNat)
    (hnumber : heap.objects.size + 1 < 1 <<< 32) :
    (heap.alloc layout).result = .ok ⟨heap.objects.size⟩ := by
  rcases h.alloc_settled built hplatform with ⟨hexhausted, -⟩ | ⟨-, hok⟩
  · have hbytes := config.segmentBytes.toNat_lt
    have hused := h.sound.1.arena.used_le heap.arena.current
    rw [← h.configured.segmentBytes_eq] at halignment hbytes
    rw [Exhausted, Arena.Lacks, maxEntry] at hexhausted
    omega
  · exact hok

/-- With every valid configuration there is a new heap, which has room for just as many records of
one kind as go into each of its segments, times the number of segments.  They lie one behind the
other, segment after segment, and a further one is refused.  A record without bytes is never refused
if a segment admits its alignment, however full the heap is.  All this holds as long as there are
fewer than `2 ^ 32` objects. -/
theorem exact_capacity {config : HeapConfig} (hvalid : config.Valid) (platform : Platform) :
    ∃ fresh, Heap.create config platform = .ok fresh ∧
      (∀ (layout : RecordLayout) (built : layout.Built), layout.platform = platform →
        0 < layout.size → layout.size ≤ config.segmentBytes.toNat → ∀ i : Nat,
          min (i + 1) (config.recordLimit layout) < 1 <<< 32 →
          let filled := fresh.after (List.replicate i (.alloc layout built))
          filled.objects.size = min i (config.recordLimit layout) ∧
            (i < config.recordLimit layout → (filled.alloc layout).result = .ok ⟨i⟩ ∧
              (filled.alloc layout).state.object ⟨i⟩ = .ok ⟨layout, ⟨i / config.perSegment layout,
                i % config.perSegment layout * layout.size⟩, layout.size⟩) ∧
            (config.recordLimit layout ≤ i → (filled.alloc layout).result =
              .error (.capacityExceeded layout.size
                (config.maxSegments.toNat * config.segmentBytes.toNat)))) ∧
      ∀ heap : Heap, heap.Reachable config platform → heap.objects.size + 1 < 1 <<< 32 →
        ∀ layout : RecordLayout, layout.Built → layout.platform = platform → layout.size = 0 →
          layout.alignment ≤ config.segmentBytes.toNat →
          (heap.alloc layout).result = .ok ⟨heap.objects.size⟩ := by
  have hcreate : Heap.create config platform =
      .ok ⟨platform, .create config.segmentBytes config.maxSegments, #[]⟩ := by
    rw [create, show config.error? = none from hvalid]
  refine ⟨_, hcreate, ?_, ?_⟩
  · intro layout built hplatform hpos hle i hlimit filled
    have hfits : layout.Storable config platform := ⟨built, hplatform, hpos, hle⟩
    have hheap : filled.Reachable config platform := (Reachable.create hcreate).after _
    have hfilled : filled.Filled layout (min i (config.recordLimit layout)) :=
      filled_after hcreate hfits (by omega)
    refine ⟨hfilled.size_eq, fun hroom => ?_, fun hfull => ?_⟩
    · rw [Nat.min_eq_left (Nat.le_of_lt hroom)] at hfilled
      rw [Nat.min_eq_left hroom] at hlimit
      refine ⟨?_, (hfilled.succ hheap hfits hlimit hroom).1⟩
      rw [hfilled.result_alloc hheap hfits hlimit, if_pos hroom]
    · rw [Nat.min_eq_right hfull] at hfilled
      rw [Nat.min_eq_right (by omega)] at hlimit
      rw [hfilled.result_alloc hheap hfits (hfits.succ_lt hvalid hlimit),
        if_neg (Nat.lt_irrefl _)]
  · intro heap hheap hnumber layout built hplatform hsize halignment
    exact hheap.result_alloc_of_size_eq_zero built hplatform hsize halignment hnumber

end Heap

/-! ## Blocks -/

/-- Plain bytes. -/
def RecordLayout.block (size alignment : Nat) : RecordLayout where
  name := "block"
  platform := .bits16
  slots := [⟨"bytes", .raw, 0, size⟩]
  size := size
  alignment := alignment
  scanMap := []
  rawSpans := if 0 < size then [⟨0, size⟩] else []

theorem RecordLayout.built_block {size alignment : Nat} (hpadded : Padded size alignment)
    (hsize : size ≤ Platform.bits16.maxWord) (halignment : alignment ≤ addressLimit) :
    (block size alignment).Built := by
  have hpos := pos_of_isPowerOfTwo hpadded.powerOfTwo
  have hlimit : size < addressLimit := Nat.lt_of_le_of_lt hsize (by decide)
  have hround : ∀ {value}, value < addressLimit → alignment ∣ value →
      alignUp? value alignment = some value := by
    intro value hvalue hdvd
    rw [alignUp?_eq hpadded.powerOfTwo halignment, alignUp_of_dvd hpos hdvd, if_pos hvalue]
  have hstart := hround (by decide) (Nat.dvd_zero alignment)
  have hend := hround hlimit hpadded.dvd
  refine ⟨"block", .bits16, [.placeRegion "bytes" ⟨size, alignment, [], true⟩], ?_⟩
  by_cases hbytes : 0 < size <;>
    simp [RecordBuilder.call, RecordBuilder.placeRegion, Region.placedAlignment,
      Nat.max_eq_left hpos, Nat.max_eq_right hpos, hpadded.powerOfTwo, RecordBuilder.reserve,
      RecordBuilder.hasSlot, RecordBuilder.build, hstart, hend, hlimit, Nat.not_lt.2 hsize, block,
      Slot.span, SlotKind.isRaw, hbytes]

/-- Three of these go into a segment of 1024 bytes. -/
theorem RecordLayout.built_largeBlock : (block 300 4).Built :=
  built_block ⟨rfl, by decide⟩ (by decide) (by decide)

namespace Heap

/-- The heap after so many allocations of a block. -/
def blocks (count : Nat) : Heap :=
  small.after (List.replicate count (.alloc (.block 300 4) RecordLayout.built_largeBlock))

theorem reachable_blocks (count : Nat) : (blocks count).Reachable ⟨1024, 2⟩ .bits16 :=
  (Reachable.create create_small).after _

theorem filled_blocks : (blocks 6).Filled (.block 300 4) 6 :=
  filled_after create_small ⟨RecordLayout.built_largeBlock, rfl, by decide, by decide⟩ (by decide)

/-- Three blocks go into a segment and six into the heap.  The seventh is refused, but not a record
without bytes. -/
theorem exact_capacity_blocks :
    HeapConfig.Valid ⟨1024, 2⟩ ∧
      ((blocks 4).alloc (.block 300 4)).result = .ok ⟨4⟩ ∧
      ((blocks 4).alloc (.block 300 4)).state.object ⟨4⟩ = .ok ⟨.block 300 4, ⟨1, 300⟩, 300⟩ ∧
      ((blocks 6).alloc (.block 300 4)).result = .error (.capacityExceeded 300 2048) ∧
      ((blocks 6).alloc (.block 0 1024)).result = .ok ⟨6⟩ := by
  have hvalid : HeapConfig.Valid ⟨1024, 2⟩ := by decide
  obtain ⟨fresh, hcreate, hfill, hempty⟩ := exact_capacity hvalid .bits16
  rw [create_small] at hcreate
  cases hcreate
  obtain ⟨-, hfourth, -⟩ :=
    hfill (.block 300 4) RecordLayout.built_largeBlock rfl (by decide) (by decide) 4 (by decide)
  obtain ⟨hsize, -, hseventh⟩ :=
    hfill (.block 300 4) RecordLayout.built_largeBlock rfl (by decide) (by decide) 6 (by decide)
  rw [← blocks] at hfourth hsize hseventh
  have hlast := hempty (blocks 6) (reachable_blocks 6) (by rw [hsize]; decide) (.block 0 1024)
    (RecordLayout.built_block ⟨rfl, by decide⟩ (by decide) (by decide)) rfl rfl (by decide)
  rw [hsize] at hlast
  obtain ⟨hresult, hobject⟩ := hfourth (by decide)
  exact ⟨hvalid, hresult, hobject, hseventh (by decide), hlast⟩

end Heap

end UnboxedRecords
