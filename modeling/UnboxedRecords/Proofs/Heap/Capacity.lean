import UnboxedRecords.Proofs.Heap.Effects
import UnboxedRecords.Proofs.Memory.Room

/-!
# Running out of capacity

An allocation of a record is refused for want of capacity by one of several checks: its size, its
alignment or its number may not be a 32-bit one, no segment may be large enough for it, or the last
segment that there may be has too few bytes left.  `Heap.Exhausted` says when one of them fails; it
depends on the size and the alignment of the record only, and is all that can go wrong with a layout
for the heap's platform (`Heap.Reachable.alloc_settled`).

What the checks compare with are the sizes of the configuration, which no call changes
(`Heap.Reachable.configured`).
-/

namespace UnboxedRecords

theorem RecordLayout.Built.padded {layout : RecordLayout} (h : layout.Built) :
    Padded layout.size layout.alignment :=
  ⟨h.wellPlaced.slots.powerOfTwo, h.wellPlaced.alignment_dvd⟩

namespace Heap

variable {heap next : Heap} {config : HeapConfig} {platform : Platform} {layout : RecordLayout}
  {call : HeapCall} {result : Except HeapError (Option ObjectRef)} {size alignment : Nat}

/-! ## The sizes of a heap -/

/-- A call gives out memory or leaves the shape of the arena. -/
theorem Effect.arena_cases (heffect : heap.Effect call result next) (hsound : heap.Sound) :
    heap.arena.SameShape next.arena ∨
      ∃ length align place, heap.arena.Gives length align place next.arena := by
  cases heffect with
  | refused _ => exact Or.inl (.refl heap.arena)
  | allocated hplaces => exact Or.inr ⟨_, _, _, hplaces.gives hsound⟩
  | written _ _ _ _ _ | filled _ _ _ _ | referred _ _ _ _ _ =>
    exact Or.inl (heap.arena.sameShape_put _ _)

/-- The heap has the sizes of a valid configuration. -/
structure Configured (heap : Heap) (config : HeapConfig) : Prop where
  valid : config.Valid
  segmentBytes_eq : heap.arena.segmentBytes = config.segmentBytes.toNat
  maxSegments_eq : heap.arena.maxSegments = config.maxSegments.toNat

theorem configured_create (h : Heap.create config platform = .ok heap) :
    heap.Configured config := by
  rw [create] at h
  split at h
  · cases h
  · next hvalid =>
    cases h
    exact ⟨hvalid, rfl, rfl⟩

theorem Effect.configured (heffect : heap.Effect call result next) (hsound : heap.Sound)
    (h : heap.Configured config) : next.Configured config := by
  rcases heffect.arena_cases hsound with hshape | ⟨length, align, place, hgives⟩
  · exact ⟨h.valid, hshape.segmentBytes_eq.symm.trans h.segmentBytes_eq,
      hshape.maxSegments_eq.symm.trans h.maxSegments_eq⟩
  · exact ⟨h.valid, hgives.segmentBytes_eq.trans h.segmentBytes_eq,
      hgives.maxSegments_eq.trans h.maxSegments_eq⟩

theorem Reachable.configured (h : heap.Reachable config platform) : heap.Configured config := by
  induction h with
  | create hcreate => exact configured_create hcreate
  | perform hheap call ih => exact (hheap.sound.1.effect call).configured hheap.sound.1 ih

/-- The segments of a heap are as large as a power of two. -/
theorem Configured.isPowerOfTwo (h : heap.Configured config) :
    isPowerOfTwo heap.arena.segmentBytes = true := by
  rw [h.segmentBytes_eq]
  exact (HeapConfig.valid_iff.1 h.valid).2.1

/-! ## What exhausts a heap -/

/-- The heap has no capacity for a record of this size and alignment: one of the numbers to be kept
about it is too large, or the arena has no room for it. -/
def Exhausted (heap : Heap) (size alignment : Nat) : Prop :=
  maxEntry < size ∨ maxEntry < alignment ∨ maxEntry < heap.objects.size + 1 ∨
    heap.arena.Lacks size alignment

theorem admits_iff : heap.admits layout = true ↔
    layout.size ≤ maxEntry ∧ layout.alignment ≤ maxEntry ∧ heap.objects.size + 1 ≤ maxEntry := by
  simp only [admits, Bool.and_eq_true, decide_eq_true_eq, and_assoc]

/-- A layout for the heap's platform is refused for want of capacity, or an object is allocated. -/
theorem Reachable.alloc_settled (h : heap.Reachable config platform) (built : layout.Built)
    (hplatform : layout.platform = platform) :
    (heap.Exhausted layout.size layout.alignment ∧ ∃ capacity,
        (heap.alloc layout).result = .error (.capacityExceeded layout.size capacity)) ∨
      (¬ heap.Exhausted layout.size layout.alignment ∧
        (heap.alloc layout).result = .ok ⟨heap.objects.size⟩) := by
  obtain ⟨hsound, rfl⟩ := h.sound
  rw [result_alloc, if_neg (not_not_intro hplatform)]
  by_cases hadmits : heap.admits layout = true
  · rw [if_neg (by simpa using hadmits)]
    obtain ⟨hsize, halignment, hnumber⟩ := admits_iff.1 hadmits
    rcases hsound.arena.alloc_settled h.configured.isPowerOfTwo built.padded with
      ⟨hlacks, capacity, hresult⟩ | ⟨hroom, place, hresult⟩
    · rw [hresult]
      exact Or.inl ⟨Or.inr (Or.inr (Or.inr hlacks)), capacity, rfl⟩
    · rw [hresult]
      refine Or.inr ⟨?_, rfl⟩
      rintro (hlarge | hlarge | hlarge | hlacks)
      · exact Nat.not_lt.2 hsize hlarge
      · exact Nat.not_lt.2 halignment hlarge
      · exact Nat.not_lt.2 hnumber hlarge
      · exact hroom hlacks
  · rw [if_pos (by simpa using hadmits)]
    refine Or.inl ⟨?_, _, rfl⟩
    rw [admits_iff] at hadmits
    rw [Exhausted]
    omega

/-- An allocation of the layout is refused for want of capacity. -/
def Refuses (heap : Heap) (layout : RecordLayout) : Prop :=
  ∃ requested capacity, (heap.alloc layout).result = .error (.capacityExceeded requested capacity)

/-- Refused for want of capacity is what the heap is exhausted for. -/
theorem Reachable.refuses_iff (h : heap.Reachable config platform) (built : layout.Built) :
    heap.Refuses layout ↔
      layout.platform = platform ∧ heap.Exhausted layout.size layout.alignment := by
  constructor
  · rintro ⟨requested, capacity, hrefused⟩
    have hplatform : layout.platform = platform := by
      by_contra hne
      rw [← h.sound.2] at hne
      rw [result_alloc, if_pos hne] at hrefused
      cases hrefused
    refine ⟨hplatform, ?_⟩
    rcases h.alloc_settled built hplatform with ⟨hexhausted, -⟩ | ⟨-, hok⟩
    · exact hexhausted
    · rw [hok] at hrefused
      cases hrefused
  · rintro ⟨hplatform, hexhausted⟩
    rcases h.alloc_settled built hplatform with ⟨-, capacity, hresult⟩ | ⟨hroom, -⟩
    · exact ⟨_, capacity, hresult⟩
    · exact absurd hexhausted hroom

end Heap

end UnboxedRecords
