import UnboxedRecords.Proofs.Heap.Reachability

/-!
# No faults

Every step from an object to its bytes checks that it stays inside the memory and inside the numbers
that places are kept in, and reports a fault if it does not.  In a heap in use none of these checks
ever fails: objects lie inside their segments, slots inside their objects, and a scan is never led
into raw storage.  So each request is granted, or refused for a reason that lies with the caller
(`Heap.Reachable.fault_free`).
-/

namespace UnboxedRecords

namespace Heap

/-- If the result is an error, the heap is not to blame. -/
def FaultFree {α : Type} (result : Except HeapError α) : Prop :=
  ∀ error, result = .error error → error.isFault = false

variable {heap : Heap}

theorem faultFree_ok {α : Type} (value : α) : FaultFree (.ok value) := by
  intro error herror
  cases herror

theorem faultFree_error {α : Type} {error : HeapError} (h : error.isFault = false) :
    FaultFree (.error error : Except HeapError α) := by
  rintro _ ⟨⟩
  exact h

theorem decode_faultFree (heap : Heap) (raw : Nat) : FaultFree (heap.decode raw) := by
  rw [decode]
  split
  · exact faultFree_ok none
  · next object _ =>
    split
    · exact faultFree_ok (some object)
    · exact faultFree_error rfl

namespace Sound

variable (h : heap.Sound)
include h

theorem perform_faultFree (call : HeapCall) : FaultFree (heap.perform call).result := by
  have heffect := h.effect call
  generalize (heap.perform call).result = result at heffect ⊢
  generalize (heap.perform call).state = next at heffect
  cases heffect with
  | refused hfault => exact faultFree_error hfault
  | allocated _ => exact faultFree_ok _
  | written _ _ _ _ _ => exact faultFree_ok _
  | filled _ _ _ _ => exact faultFree_ok _
  | referred _ _ _ _ _ => exact faultFree_ok _

theorem bytes_faultFree (object : ObjectRef) : FaultFree (heap.bytes object) := by
  rcases heap.object_cases object with ⟨error, herror, hfault⟩ | ⟨entry, hentry, -⟩
  · rw [bytes, herror]
    exact faultFree_error hfault
  · rw [h.bytes_eq hentry]
    exact faultFree_ok _

theorem raw_faultFree (object : ObjectRef) (name : String) : FaultFree (heap.raw object name) := by
  rcases h.rawPlace_cases object name with
    ⟨error, herror, hfault⟩ | ⟨entry, slot, hentry, hslot, rfl, hraw, -⟩
  · rw [raw, herror]
    exact faultFree_error hfault
  · rw [h.raw_eq hentry hslot hraw]
    exact faultFree_ok _

theorem reference_faultFree (object : ObjectRef) (name : String) :
    FaultFree (heap.reference object name) := by
  rcases h.referencePlace_cases object name with
    ⟨error, herror, hfault⟩ | ⟨entry, slot, hentry, hslot, rfl, hkind, -⟩
  · rw [reference, herror]
    exact faultFree_error hfault
  · rw [h.reference_eq hentry hslot hkind]
    exact heap.decode_faultFree _

theorem scan_faultFree {σ : Type} (object : ObjectRef) (visit : σ → Nat → Nat → σ) (start : σ) :
    FaultFree (heap.scan object visit start) := by
  rcases heap.object_cases object with ⟨error, herror, hfault⟩ | ⟨entry, hentry, -⟩
  · rw [scan, layoutOf, herror]
    exact faultFree_error hfault
  · rw [h.scan_eq hentry]
    exact faultFree_ok _

theorem trace_faultFree (hintact : heap.Intact) (roots : List ObjectRef) :
    FaultFree (heap.trace roots) := by
  rcases hfind : roots.find? fun root => ¬ heap.Allocated root with _ | root
  · have hroots : ∀ root ∈ roots, heap.Allocated root := by
      intro root hroot
      simpa using List.find?_eq_none.1 hfind root hroot
    obtain ⟨found, htrace, -⟩ := h.trace_of_allocated hintact hroots
    rw [htrace]
    exact faultFree_ok found
  · rw [trace_of_find? hfind]
    exact faultFree_error rfl

end Sound

/-- In a heap in use every object lies inside a segment, at a multiple of its alignment and apart
from all others, with its slots inside it, and no request runs into a fault. -/
theorem Reachable.fault_free {config : HeapConfig} {platform : Platform}
    (h : heap.Reachable config platform) :
    (∀ object entry, heap.object object = .ok entry →
      heap.arena.Covers entry.extent ∧ entry.layout.alignment ∣ entry.place.offset ∧
        (∀ slot ∈ entry.layout.slots, slot.offset + slot.size ≤ entry.layout.size) ∧
        ∀ other found, heap.object other = .ok found → other ≠ object →
          found.extent.Disjoint entry.extent) ∧
    (∀ call, FaultFree (heap.perform call).result) ∧
    (∀ object slot, FaultFree (heap.bytes object) ∧ FaultFree (heap.raw object slot) ∧
      FaultFree (heap.reference object slot)) ∧
    (∀ (object : ObjectRef) (σ : Type) (visit : σ → Nat → Nat → σ) (start : σ),
      FaultFree (heap.scan object visit start)) ∧
    ∀ roots, FaultFree (heap.trace roots) := by
  obtain ⟨hsound, -⟩ := h.sound
  refine ⟨?_, hsound.perform_faultFree, ?_, ?_, hsound.trace_faultFree h.intact⟩
  · intro object entry hobject
    have hentry := object_eq_ok_iff.1 hobject
    have hhouses := hsound.houses hentry
    refine ⟨hhouses.covers hsound.arena, hhouses.aligned, fun slot => hhouses.slot_end_le, ?_⟩
    intro other found hother hne
    exact hsound.disjoint (object_eq_ok_iff.1 hother) hentry fun hindex =>
      hne (ObjectRef.ext hindex)
  · intro object slot
    exact ⟨hsound.bytes_faultFree object, hsound.raw_faultFree object slot,
      hsound.reference_faultFree object slot⟩
  · intro object σ visit start
    exact hsound.scan_faultFree object visit start

theorem fault_free_ring :
    ring.Reachable ⟨1024, 2⟩ .bits16 ∧ ring.object ⟨0⟩ = .ok ⟨.node, ⟨0, 0⟩, 4⟩ ∧
      ring.object ⟨1⟩ = .ok ⟨.node, ⟨0, 4⟩, 4⟩ ∧
      ring.arena.Covers ⟨⟨0, 0⟩, 4⟩ ∧ ring.arena.Covers ⟨⟨0, 4⟩, 4⟩ ∧
      Extent.Disjoint ⟨⟨0, 0⟩, 4⟩ ⟨⟨0, 4⟩, 4⟩ ∧
      (∀ object entry, ring.object object = .ok entry →
        ring.arena.Covers entry.extent ∧ entry.layout.alignment ∣ entry.place.offset ∧
          (∀ slot ∈ entry.layout.slots, slot.offset + slot.size ≤ entry.layout.size) ∧
          ∀ other found, ring.object other = .ok found → other ≠ object →
            found.extent.Disjoint entry.extent) ∧
      FaultFree (ring.raw ⟨0⟩ "next") ∧ FaultFree (ring.trace [⟨1⟩]) := by
  obtain ⟨hplaced, -, haccesses, -, htraces⟩ := reachable_ring.fault_free
  obtain ⟨hfirst, -⟩ := hplaced ⟨0⟩ _ object_ring
  obtain ⟨hsecond, -, -, hapart⟩ := hplaced ⟨1⟩ _ object_ring_second
  exact ⟨reachable_ring, object_ring, object_ring_second, hfirst, hsecond,
    hapart ⟨0⟩ _ object_ring (by decide), hplaced, (haccesses ⟨0⟩ "next").2.1, htraces [⟨1⟩]⟩

end Heap

end UnboxedRecords
