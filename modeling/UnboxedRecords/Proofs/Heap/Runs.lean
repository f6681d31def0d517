import UnboxedRecords.Heap.Access
import UnboxedRecords.Proofs.Record.Runs

/-!
# Runs of a heap

A heap is used by a run of calls: allocations of layouts that a builder made, writes of any bytes
into raw slots, and changes of references.  Calls may be refused, and a refused call does not end
the run.  A heap is `Heap.Reachable` when a run leads to it from a new heap.
-/

namespace UnboxedRecords

/-- A call that may change a heap. -/
inductive HeapCall where
  /-- Allocate an instance of a layout. -/
  | alloc (layout : RecordLayout) (built : layout.Built)
  /-- Write bytes into a raw slot, from the byte `start` of the slot on. -/
  | writeRaw (object : ObjectRef) (slot : String) (start : Nat) (bytes : List UInt8)
  /-- Set every byte of a raw slot. -/
  | fillRaw (object : ObjectRef) (slot : String) (byte : UInt8)
  /-- Make a reference slot name `target`, or no object. -/
  | setReference (object : ObjectRef) (slot : String) (target : Option ObjectRef)

namespace HeapCall

/-- Whether the call writes raw storage. -/
def isRawWrite : HeapCall → Bool
  | writeRaw .. | fillRaw .. => true
  | alloc .. | setReference .. => false

end HeapCall

namespace Heap

/-- Carry out a call.  Only an allocation has an object for its result. -/
def perform (heap : Heap) : HeapCall → Outcome Heap HeapError (Option ObjectRef)
  | .alloc layout _ => (heap.alloc layout).map some
  | .writeRaw object slot start bytes => (heap.writeRaw object slot start bytes).map fun _ => none
  | .fillRaw object slot byte => (heap.fillRaw object slot byte).map fun _ => none
  | .setReference object slot target => (heap.setReference object slot target).map fun _ => none

/-- The heap after a run of calls. -/
def after (heap : Heap) (calls : List HeapCall) : Heap :=
  calls.foldl (fun heap call => (heap.perform call).state) heap

/-- The calls of a run, each with its result. -/
def transcript (heap : Heap) :
    List HeapCall → List (HeapCall × Except HeapError (Option ObjectRef))
  | [] => []
  | call :: calls =>
    (call, (heap.perform call).result) :: (heap.perform call).state.transcript calls

@[simp] theorem after_nil (heap : Heap) : heap.after [] = heap := rfl

@[simp] theorem after_cons (heap : Heap) (call : HeapCall) (calls : List HeapCall) :
    heap.after (call :: calls) = (heap.perform call).state.after calls := rfl

@[simp] theorem transcript_nil (heap : Heap) : heap.transcript [] = [] := rfl

@[simp] theorem transcript_cons (heap : Heap) (call : HeapCall) (calls : List HeapCall) :
    heap.transcript (call :: calls) =
      (call, (heap.perform call).result) :: (heap.perform call).state.transcript calls := rfl

/-- The heaps that runs of calls lead to from a new heap. -/
inductive Reachable (config : HeapConfig) (platform : Platform) : Heap → Prop
  | create {heap : Heap} (hcreate : Heap.create config platform = .ok heap) :
      Reachable config platform heap
  | perform {heap : Heap} (hheap : Reachable config platform heap) (call : HeapCall) :
      Reachable config platform (heap.perform call).state

/-- A run goes from one reachable heap to another. -/
theorem Reachable.after {config : HeapConfig} {platform : Platform} {heap : Heap}
    (h : heap.Reachable config platform) (calls : List HeapCall) :
    (heap.after calls).Reachable config platform := by
  induction calls generalizing heap with
  | nil => exact h
  | cons call calls ih => exact ih (h.perform call)

end Heap

/-! ## A ring of two nodes -/

/-- A byte of its own and a reference to the next node. -/
def RecordLayout.node : RecordLayout where
  name := "node"
  platform := .bits16
  slots := [⟨"tag", .raw, 0, 1⟩, ⟨"next", .reference, 2, 2⟩]
  size := 4
  alignment := 2
  scanMap := [2]
  rawSpans := [⟨0, 1⟩]

theorem RecordLayout.built_node : node.Built :=
  ⟨"node", .bits16, [.placeRegion "tag" ⟨1, 1, [], true⟩, .addReference "next"], rfl⟩

/-- Two nodes that refer to each other, and a write that would spoil the first if it went too far.
-/
def HeapCall.ring : List HeapCall :=
  [.alloc .node RecordLayout.built_node, .alloc .node RecordLayout.built_node,
    .setReference ⟨0⟩ "next" (some ⟨1⟩), .setReference ⟨1⟩ "next" (some ⟨0⟩),
    .fillRaw ⟨0⟩ "tag" 255]

/-- The same ring, with a second raw write. -/
def HeapCall.taggedRing : List HeapCall := ring ++ [.writeRaw ⟨1⟩ "tag" 0 [7]]

namespace Heap

/-- A new heap of small segments. -/
def small : Heap := ⟨.bits16, .create 1024 2, #[]⟩

theorem create_small : Heap.create ⟨1024, 2⟩ .bits16 = .ok small := rfl

/-- The heap of the ring. -/
def ring : Heap := small.after HeapCall.ring

theorem reachable_ring : ring.Reachable ⟨1024, 2⟩ .bits16 := (Reachable.create create_small).after _

set_option maxRecDepth 10000 in
theorem object_ring : ring.object ⟨0⟩ = .ok ⟨.node, ⟨0, 0⟩, 4⟩ := rfl

set_option maxRecDepth 10000 in
theorem object_ring_second : ring.object ⟨1⟩ = .ok ⟨.node, ⟨0, 4⟩, 4⟩ := rfl

set_option maxRecDepth 10000 in
theorem size_ring : ring.objects.size = 2 := rfl

set_option maxRecDepth 10000 in
/-- The first node holds the number of the second. -/
theorem wordAt_ring : ring.wordAt ⟨0⟩ 2 = .ok 2 := rfl

end Heap

end UnboxedRecords
