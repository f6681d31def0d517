import UnboxedRecords.Heap.Basic

/-!
# Access to the slots of objects

Raw slots are read and written as plain bytes.  Reference slots hold the number of an object as a
word, least significant byte first, and are read and written as objects only.

Slots are found by name.  The places of their bytes are 32-bit numbers, and every step from a slot
to its place checks that it stays within them.
-/

namespace UnboxedRecords

namespace HeapObject

/-- The place of the byte at `offset` of the object. -/
def placeAt (object : HeapObject) (offset : Nat) : Except HeapError Position :=
  match narrow 32 offset with
  | .error fault => .error (.fault fault)
  | .ok offset =>
    if object.place.offset + offset < 1 <<< 32 then
      .ok ⟨object.place.segment, object.place.offset + offset⟩
    else
      .error (.fault (.addressOverflow object.place.offset offset))

/-- The slot of the object that is called `name`. -/
def slot (object : HeapObject) (name : String) : Except HeapError Slot :=
  match object.layout.slot? name with
  | some found => .ok found
  | none => .error (.unknownSlot name)

end HeapObject

namespace Heap

/-- The place of the bytes of a raw slot, and their number. -/
def rawPlace (heap : Heap) (object : ObjectRef) (name : String) :
    Except HeapError (Position × Nat) := do
  let found ← heap.object object
  let slot ← found.slot name
  if slot.kind.isRaw then
    let place ← found.placeAt slot.offset
    let length ← (narrow 32 slot.size).mapError .fault
    return (place, length)
  else
    throw (.notRaw name)

/-- The bytes of a raw slot. -/
def raw (heap : Heap) (object : ObjectRef) (name : String) : Except HeapError (List UInt8) := do
  let (place, length) ← heap.rawPlace object name
  heap.read place length

/-- The heap after `bytes` were written to a place in its memory. -/
def write (heap : Heap) (place : Position) (bytes : List UInt8) : Outcome Heap HeapError Unit :=
  match heap with
  | ⟨platform, arena, objects⟩ =>
    let written := arena.write place bytes
    match written.result with
    | .error fault => .fail ⟨platform, written.state, objects⟩ (.fault fault)
    | .ok () => .ok ⟨platform, written.state, objects⟩ ()

/-- Write `bytes` into a raw slot, from the byte `start` of the slot on. -/
def writeRaw (heap : Heap) (object : ObjectRef) (name : String) (start : Nat)
    (bytes : List UInt8) : Outcome Heap HeapError Unit :=
  match heap.rawPlace object name with
  | .error error => .fail heap error
  | .ok (place, length) =>
    match heap.arena.fault? place length with
    | some fault => .fail heap (.fault fault)
    | none =>
      if start + bytes.length ≤ length then
        heap.write ⟨place.segment, place.offset + start⟩ bytes
      else
        .fail heap (.outsideSlot name length)

/-- Set every byte of a raw slot to `byte`. -/
def fillRaw (heap : Heap) (object : ObjectRef) (name : String) (byte : UInt8) :
    Outcome Heap HeapError Unit :=
  match heap.rawPlace object name with
  | .error error => .fail heap error
  | .ok (place, length) => heap.write place (List.replicate length byte)

/-- The place of the word of a reference slot. -/
def referencePlace (heap : Heap) (object : ObjectRef) (name : String) :
    Except HeapError Position := do
  let found ← heap.object object
  let slot ← found.slot name
  if slot.kind = .reference then
    found.placeAt slot.offset
  else
    throw (.notReference name)

/-- The number to be stored for `target`, which has to be allocated and to fit in a word. -/
def encode (heap : Heap) (target : Option ObjectRef) : Except HeapError Nat :=
  match target with
  | none => .ok 0
  | some target =>
    match heap.object target with
    | .error error => .error error
    | .ok _ =>
      if heap.platform.maxWord < target.raw then .error (.referenceOverflow target)
      else .ok target.raw

/-- Make a reference slot name `target`, or no object. -/
def setReference (heap : Heap) (object : ObjectRef) (name : String) (target : Option ObjectRef) :
    Outcome Heap HeapError Unit :=
  match heap.encode target with
  | .error error => .fail heap error
  | .ok raw =>
    match heap.referencePlace object name with
    | .error error => .fail heap error
    | .ok place => heap.write place (littleEndian heap.platform.wordBytes raw)

/-- The word at a place in the memory. -/
def readWord (heap : Heap) (place : Position) : Except HeapError Nat := do
  return ofLittleEndian (← heap.read place heap.platform.wordBytes)

/-- The object that a reference slot names, if it names one. -/
def reference (heap : Heap) (object : ObjectRef) (name : String) :
    Except HeapError (Option ObjectRef) := do
  let place ← heap.referencePlace object name
  heap.decode (← heap.readWord place)

/-- The word at `offset` of an object. -/
def wordAt (heap : Heap) (object : ObjectRef) (offset : Nat) : Except HeapError Nat := do
  let found ← heap.object object
  heap.readWord (← found.placeAt offset)

end Heap

end UnboxedRecords
