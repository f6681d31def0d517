import UnboxedRecords.Heap.Access

/-!
# Scanning objects

A scan shows the words of an object's reference slots to a visitor, in the order in which the slots
were placed.  It reads at the offsets of the layout's scan map and nowhere else, so raw storage is
neither read nor shown, whatever bytes it holds.
-/

namespace UnboxedRecords

namespace Heap

/-- The reference word at `offset` of an object, unless raw storage lies there. -/
def referenceWord (heap : Heap) (object : ObjectRef) (layout : RecordLayout) (offset : Nat) :
    Except HeapError Nat :=
  if layout.isRawAt offset then .error (.opaqueReference offset) else heap.wordAt object offset

/-- Show the offset and the word of every reference slot of an object to `visit`, which turns one
state of the visitor into the next.  The result is the last state and the number of slots. -/
def scan {σ : Type} (heap : Heap) (object : ObjectRef) (visit : σ → Nat → Nat → σ) (start : σ) :
    Except HeapError (σ × Nat) := do
  let layout ← heap.layoutOf object
  let last ← layout.scanMap.foldlM
    (fun state offset => do return visit state offset (← heap.referenceWord object layout offset))
    start
  return (last, layout.scanMap.length)

/-- The offsets and words that a scan shows, in order. -/
def visits (heap : Heap) (object : ObjectRef) : Except HeapError (List (Nat × Nat)) := do
  let (seen, _) ← heap.scan object (fun seen offset word => seen ++ [(offset, word)]) []
  return seen

end Heap

end UnboxedRecords
