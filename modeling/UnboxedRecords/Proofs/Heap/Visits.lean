import Mathlib.Data.List.Forall2
import UnboxedRecords.Proofs.Heap.Effects
import UnboxedRecords.Proofs.Record.Partition

/-!
# What a scan shows

There are two ways to the references of an object.  A scan goes through the offsets that were
written down when the layout was made and looks up no name, and a single access takes the offset
from the slot that it looks up by its name.  From an offset both go to the bytes by the same steps,
so that they agree if the two tables of the layout do.

`Heap.shown` lists what a scan shows.  Every scan, whatever its visitor does, is a fold over this
list (`Heap.Sound.scan_eq_foldl_shown`), and the list runs along the reference slots of the layout:
each slot is shown once, in its place, with the word that stands for what an access by its name
gives (`Heap.Sound.shown_forall₂`).
-/

namespace UnboxedRecords

namespace Heap

variable {heap : Heap} {entry : HeapObject} {object : ObjectRef}

/-- The offsets and words that a scan of the object shows, in order. -/
def shown (heap : Heap) (entry : HeapObject) : List (Nat × Nat) :=
  entry.layout.scanMap.map fun offset => (offset, heap.word entry offset)

theorem mem_shown_iff {offset word : Nat} :
    (offset, word) ∈ heap.shown entry ↔
      offset ∈ entry.layout.scanMap ∧ heap.word entry offset = word := by
  simp [shown]

namespace Sound

/-- A scan is a fold over what it shows. -/
theorem scan_eq_foldl_shown (h : heap.Sound) (hentry : heap.objects[object.index]? = some entry)
    {σ : Type} (visit : σ → Nat → Nat → σ) (start : σ) :
    heap.scan object visit start =
      .ok ((heap.shown entry).foldl (fun state (offset, word) => visit state offset word) start,
        (heap.shown entry).length) := by
  rw [h.scan_eq hentry, shown, List.foldl_map, List.length_map]

/-- What a scan shows and what the slots give by their names agree slot by slot. -/
theorem shown_forall₂ (h : heap.Sound) (hentry : heap.objects[object.index]? = some entry) :
    List.Forall₂ (fun slot (offset, word) => offset = slot.offset ∧
        heap.decode word = heap.reference object slot.name)
      (entry.layout.slots.filter (·.kind = .reference)) (heap.shown entry) := by
  rw [shown, (h.houses hentry).wellPlaced.scanMap_eq, List.map_map, List.forall₂_map_right_iff,
    List.forall₂_same]
  intro slot hmem
  obtain ⟨hslot, hkind⟩ := List.mem_filter.1 hmem
  exact ⟨rfl, (h.reference_eq hentry hslot (of_decide_eq_true hkind)).symm⟩

end Sound

/-- In every heap in use, a scan of an object shows its visitor one pair for each reference slot of
the layout, in the order of the slots: the offset of the slot, and a word that stands for what
reading the slot by its name gives.  The offsets ascend, so that nothing is shown twice; the count
is that of the pairs; and no byte of a word that is shown is raw. -/
theorem Reachable.scan_agrees {config : HeapConfig} {platform : Platform}
    (h : heap.Reachable config platform) (hobject : heap.object object = .ok entry) :
    ∃ seen : List (Nat × Nat),
      (∀ (σ : Type) (visit : σ → Nat → Nat → σ) (start : σ), heap.scan object visit start =
        .ok (seen.foldl (fun state (offset, word) => visit state offset word) start,
          seen.length)) ∧
      List.Forall₂ (fun slot (offset, word) => offset = slot.offset ∧
          heap.decode word = heap.reference object slot.name)
        (entry.layout.slots.filter (·.kind = .reference)) seen ∧
      (seen.map Prod.fst).Pairwise (· < ·) ∧
      ∀ offset word, (offset, word) ∈ seen → ∀ byte, offset ≤ byte →
        byte < offset + platform.wordBytes → entry.layout.isRawAt byte = false := by
  obtain ⟨hsound, rfl⟩ := h.sound
  have hentry := object_eq_ok_iff.1 hobject
  have hhouses := hsound.houses hentry
  refine ⟨heap.shown entry, fun σ visit start => hsound.scan_eq_foldl_shown hentry visit start,
    hsound.shown_forall₂ hentry, ?_, fun offset word hmem byte hle hlt => ?_⟩
  · have hoffsets : (heap.shown entry).map Prod.fst = entry.layout.scanMap := by
      rw [shown, List.map_map]
      exact List.map_id _
    rw [hoffsets]
    exact hhouses.wellPlaced.scanMap_pairwise
  · rw [← hhouses.platform_eq] at hlt
    exact hhouses.wellPlaced.isRawAt_of_mem_word (mem_shown_iff.1 hmem).1 hle hlt

set_option maxRecDepth 10000 in
theorem scan_ring : ring.scan ⟨0⟩ (fun seen offset word => seen ++ [(offset, word)]) [] =
    .ok ([(2, 2)], 1) := rfl

/-- The one pair that the first node shows is the offset of its slot and the number of the second
node. -/
theorem scan_agrees_ring :
    ring.Reachable ⟨1024, 2⟩ .bits16 ∧ ring.object ⟨0⟩ = .ok ⟨.node, ⟨0, 0⟩, 4⟩ ∧
      ring.scan ⟨0⟩ (fun seen offset word => seen ++ [(offset, word)]) [] = .ok ([(2, 2)], 1) ∧
      ring.decode 2 = ring.reference ⟨0⟩ "next" ∧ RecordLayout.node.isRawAt 3 = false := by
  obtain ⟨seen, hscan, hagrees, -, hraw⟩ := reachable_ring.scan_agrees object_ring
  have hshown := hscan _ (fun seen offset word => seen ++ [(offset, word)]) []
  -- a node has one reference slot, so that there is one pair to show
  have hslots : RecordLayout.node.slots.filter (·.kind = .reference) =
      [⟨"next", .reference, 2, 2⟩] := rfl
  rw [hslots] at hagrees
  cases hagrees with
  | @cons _ pair _ _ hpair hnil =>
    obtain ⟨offset, word⟩ := pair
    obtain ⟨rfl, hword⟩ := hpair
    cases hnil
    have hpairs : [(2, 2)] = [(2, word)] :=
      (Prod.ext_iff.1 (Except.ok.inj (scan_ring.symm.trans hshown))).1
    obtain rfl : 2 = word := by simpa using hpairs
    exact ⟨reachable_ring, object_ring, hshown, hword,
      hraw 2 2 List.mem_cons_self 3 (by decide) (by decide)⟩

end Heap

end UnboxedRecords
