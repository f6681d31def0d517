import UnboxedRecords.Heap.Config
import UnboxedRecords.Memory.Arena
import UnboxedRecords.Record.Builder

/-!
# Record heaps

A heap holds instances of record layouts.  Each instance, an object, takes as many bytes as its
layout says, so the unboxed types embedded in a record are part of the record and not objects of
their own.  Objects are numbered from one upwards in the order of their allocation and are never
freed.  The number is what a reference slot holds; nought stands for no object.
-/

namespace UnboxedRecords

/-- An object of a heap, known by how many objects were allocated before it. -/
@[ext] structure ObjectRef where
  /-- The number of earlier objects. -/
  index : Nat
deriving DecidableEq, Repr

namespace ObjectRef

/-- The number of the object, as a reference slot holds it. -/
def raw (object : ObjectRef) : Nat := object.index + 1

/-- The object of that number; nought is no object's number. -/
def ofRaw? : Nat → Option ObjectRef
  | 0 => none
  | index + 1 => some ⟨index⟩

/-- The number that a reference slot holds for an object or for none. -/
def rawOf : Option ObjectRef → Nat
  | none => 0
  | some object => object.raw

instance : ToString ObjectRef := ⟨fun object => s!"#{object.raw}"⟩

@[simp] theorem ofRaw?_rawOf (target : Option ObjectRef) : ofRaw? (rawOf target) = target := by
  cases target <;> rfl

theorem ofRaw?_eq_some_iff {number : Nat} {object : ObjectRef} :
    ofRaw? number = some object ↔ number = object.raw := by
  cases number with
  | zero => simp [ofRaw?, raw]
  | succ index => simp [ofRaw?, raw, ObjectRef.ext_iff]

end ObjectRef

/-- Why a heap refuses a request. -/
inductive HeapError where
  /-- The sizes of the heap are not acceptable. -/
  | invalidConfig (error : HeapConfigError)
  /-- The layout was made for words of another size. -/
  | platformMismatch (layout : String) (expected found : Nat)
  /-- There is no room for so many bytes. -/
  | capacityExceeded (requested capacity : Nat)
  /-- The heap did not allocate this object. -/
  | unknownObject (object : ObjectRef)
  /-- The object has no slot of this name. -/
  | unknownSlot (slot : String)
  /-- The slot was accessed as raw storage and is a reference. -/
  | notRaw (slot : String)
  /-- The slot was accessed as a reference and is raw storage. -/
  | notReference (slot : String)
  /-- The number of the object does not fit in a word. -/
  | referenceOverflow (object : ObjectRef)
  /-- A word that should name an object names none. -/
  | danglingReference (raw : Nat)
  /-- The bytes to be written reach beyond the slot. -/
  | outsideSlot (slot : String) (size : Nat)
  /-- The scanner was led into raw storage. -/
  | opaqueReference (offset : Nat)
  /-- The memory does not have the bytes that were accessed. -/
  | fault (fault : Fault)
deriving DecidableEq, Repr

namespace HeapError

/-- The wording of a fault of the memory. -/
def faultMessage : Fault → String
  | .noSegment index => s!"no segment {index}"
  | .outOfBounds offset length size =>
    s!"{length} bytes at offset {offset} reach beyond a segment of {size} bytes"
  | .tooWide value bits => s!"{value} does not fit in {bits} bits"
  | .addressOverflow base offset => s!"{base} + {offset} does not fit in 32 bits"

/-- The wording of a refusal. -/
def message : HeapError → String
  | invalidConfig error => error.message
  | platformMismatch layout expected found => platformMismatchMessage layout expected found
  | capacityExceeded requested capacity =>
    s!"heap capacity exceeded: requested {requested} bytes, capacity {capacity} bytes"
  | unknownObject object => s!"unknown object {object.raw}"
  | unknownSlot slot => s!"unknown slot '{slot}'"
  | notRaw slot => s!"slot '{slot}' holds a reference, not raw storage"
  | notReference slot => s!"slot '{slot}' is raw storage, not a reference"
  | referenceOverflow object => s!"object {object.raw} does not fit in a reference slot"
  | danglingReference raw => s!"reference slot holds dangling value {raw}"
  | outsideSlot slot size => s!"write beyond the {size} bytes of slot '{slot}'"
  | opaqueReference offset => s!"reference at offset {offset} lies in raw storage"
  | fault cause => faultMessage cause

/-- The refusal of a heap for want of memory. -/
def ofMemory : MemoryError → HeapError
  | .capacityExceeded requested capacity => capacityExceeded requested capacity
  | .fault cause => .fault cause

end HeapError

/-- An allocated object: its layout, where its bytes are and how many. -/
structure HeapObject where
  /-- The layout of the object. -/
  layout : RecordLayout
  /-- The place of the first byte of the object. -/
  place : Position
  /-- The number of bytes of the object. -/
  size : Nat

/-- A heap of record instances. -/
structure Heap where
  /-- The platform whose words reference slots are. -/
  platform : Platform
  /-- The memory in which the objects lie. -/
  arena : Arena
  /-- The objects in the order of their allocation. -/
  objects : Array HeapObject

namespace Heap

/-- An empty heap. -/
def create (config : HeapConfig) (platform : Platform) : Except HeapError Heap :=
  match config.error? with
  | some error => .error (.invalidConfig error)
  | none => .ok ⟨platform, Arena.create config.segmentBytes config.maxSegments, #[]⟩

/-- The largest size, alignment and object number that the heap keeps: a 32-bit one. -/
def maxEntry : Nat := 1 <<< 32 - 1

/-- Whether the size and alignment of the layout and the number of the next object are within what
the heap keeps. -/
def admits (heap : Heap) (layout : RecordLayout) : Bool :=
  layout.size ≤ maxEntry && layout.alignment ≤ maxEntry && heap.objects.size + 1 ≤ maxEntry

/-- Allocate an instance of `layout`, all of whose bytes are zero: its reference slots name no
object. -/
def alloc (heap : Heap) (layout : RecordLayout) : Outcome Heap HeapError ObjectRef :=
  if layout.platform ≠ heap.platform then
    .fail heap
      (.platformMismatch layout.name heap.platform.wordBytes layout.platform.wordBytes)
  else if !heap.admits layout then
    .fail heap (.capacityExceeded layout.size maxEntry)
  else
    match heap with
    | ⟨platform, arena, objects⟩ =>
      let claimed := arena.alloc layout.size layout.alignment
      match claimed.result with
      | .error error => .fail ⟨platform, claimed.state, objects⟩ (.ofMemory error)
      | .ok place =>
        let object : ObjectRef := ⟨objects.size⟩
        .ok ⟨platform, claimed.state, objects.push ⟨layout, place, layout.size⟩⟩ object
          [.allocated object.raw layout.name place.segment place.offset]

/-- What the heap keeps about an object. -/
def object (heap : Heap) (object : ObjectRef) : Except HeapError HeapObject :=
  match heap.objects[object.index]? with
  | some found => .ok found
  | none => .error (.unknownObject object)

/-- The object that a number in a reference slot names.  Nought names none, and any other number has
to be that of an allocated object. -/
def decode (heap : Heap) (raw : Nat) : Except HeapError (Option ObjectRef) :=
  match ObjectRef.ofRaw? raw with
  | none => .ok none
  | some object =>
    if object.index < heap.objects.size then .ok (some object)
    else .error (.danglingReference raw)

/-- The layout of an object. -/
def layoutOf (heap : Heap) (object : ObjectRef) : Except HeapError RecordLayout :=
  (heap.object object).map (·.layout)

/-- The `length` bytes of the memory at a place. -/
def read (heap : Heap) (place : Position) (length : Nat) : Except HeapError (List UInt8) :=
  (heap.arena.read place length).mapError .fault

/-- All bytes of an object. -/
def bytes (heap : Heap) (object : ObjectRef) : Except HeapError (List UInt8) := do
  let found ← heap.object object
  heap.read found.place found.size

end Heap

end UnboxedRecords
