import UnboxedRecords.Proofs.Heap.Effects

/-!
# Isolation

A call that is granted changes the bytes it speaks of and no others.  `Heap.Wrote` says this of a
write, be it of raw bytes or of a reference: the bytes written replace as many bytes of one slot,
and the rest of the object, all other objects and all memory outside stay as they were.
`Heap.Gained` says it of an allocation: there is one more object, all of whose bytes are zero, and
the earlier objects keep their bytes and layouts.

Both hold from every heap in use (`Heap.Reachable.isolates`).  What they rest on is that no two
slots have a byte in common (`Heap.Sound.slots_disjoint`) and that the bytes of a new object are
apart from all that was given out before (`Heap.Sound.bytesAt_add`).
-/

namespace UnboxedRecords

namespace Arena

variable {arena : Arena} {extent : Extent}

/-- What is put into part of an extent replaces that part of its bytes and nothing else. -/
theorem bytesAt_put_part (h : arena.Covers extent) {skip : Nat} {bytes : List UInt8}
    (hle : skip + bytes.length ≤ extent.length) :
    (arena.put (extent.start.shift skip) bytes).bytesAt extent =
      (arena.bytesAt extent).take skip ++ bytes ++
        (arena.bytesAt extent).drop (skip + bytes.length) := by
  have hkeeps : ∀ first length : Nat, first + length ≤ extent.length →
      first + length ≤ skip ∨ skip + bytes.length ≤ first →
      (((arena.put (extent.start.shift skip) bytes).bytesAt extent).drop first).take length =
        ((arena.bytesAt extent).drop first).take length := by
    intro first length hpart hapart
    rw [← bytesAt_part hpart, ← bytesAt_part hpart]
    refine bytesAt_congr fun place hplace => byte?_put_of_not_mem fun hmem => ?_
    obtain ⟨-, hge, hlt⟩ := hplace
    obtain ⟨-, hge', hlt'⟩ := hmem
    simp only [Extent.part, Position.offset_shift] at hge hlt hge' hlt'
    omega
  have hwritten : (((arena.put (extent.start.shift skip) bytes).bytesAt extent).drop skip).take
      bytes.length = bytes := by
    rw [← bytesAt_part hle]
    exact bytesAt_put (h.part hle)
  have hbefore := hkeeps 0 skip (by omega) (Or.inl (by omega))
  have hbehind := hkeeps (skip + bytes.length) (extent.length - (skip + bytes.length)) (by omega)
    (Or.inr (Nat.le_refl _))
  rw [List.take_of_length_le (by simp), List.take_of_length_le (by simp)] at hbehind
  generalize (arena.put (extent.start.shift skip) bytes).bytesAt extent = new at *
  calc new = new.take skip ++ ((new.drop skip).take bytes.length ++
        (new.drop skip).drop bytes.length) := by
        rw [List.take_append_drop, List.take_append_drop]
    _ = (arena.bytesAt extent).take skip ++ (bytes ++
        (arena.bytesAt extent).drop (skip + bytes.length)) := by
        rw [hwritten, List.drop_drop, hbehind, ← List.drop_zero (l := new), hbefore,
          List.drop_zero]
    _ = _ := (List.append_assoc _ _ _).symm

end Arena

namespace Heap

/-- `next` is the heap after `bytes` were written into the slot `slot` of `object`, from the byte
`start` of the slot on, and nothing else was done. -/
structure Wrote (heap : Heap) (object : ObjectRef) (entry : HeapObject) (slot : Slot) (start : Nat)
    (bytes : List UInt8) (next : Heap) : Prop where
  /-- There are the same objects, of the same layouts and at the same places. -/
  objects_eq : next.objects = heap.objects
  /-- No memory was given out. -/
  shape : heap.arena.SameShape next.arena
  /-- What is written ends inside the slot. -/
  fits : start + bytes.length ≤ slot.size
  /-- The object has the new bytes in place of the old ones.  All its other bytes stay, whether they
  are in the slot, in another one, or in no slot at all. -/
  own : ∃ old, heap.bytes object = .ok old ∧ next.bytes object =
    .ok (old.take (slot.offset + start) ++ bytes ++ old.drop (slot.offset + start + bytes.length))
  /-- All other objects keep their bytes. -/
  others : ∀ other, other ≠ object → next.bytes other = heap.bytes other
  /-- All other slots of the object hold what they held. -/
  slots : ∀ name, name ≠ slot.name →
    next.raw object name = heap.raw object name ∧
      next.reference object name = heap.reference object name
  /-- No byte of the memory outside those that were written is another. -/
  elsewhere : ∀ place, place ∉ (entry.slotExtent slot).part start bytes.length →
    next.arena.byte? place = heap.arena.byte? place

/-- `next` is the heap after `object` was allocated with the layout `layout`, and nothing else was
done. -/
structure Gained (heap : Heap) (layout : RecordLayout) (object : ObjectRef) (next : Heap) :
    Prop where
  /-- The new object has the next number. -/
  raw_eq : object.raw = heap.objects.size + 1
  layoutOf_eq : next.layoutOf object = .ok layout
  /-- All bytes of the new object are zero. -/
  zero : next.bytes object = .ok (List.replicate layout.size 0)
  /-- The earlier objects keep their bytes. -/
  keeps : ∀ other, heap.Allocated other → next.bytes other = heap.bytes other
  keepsLayout : ∀ other, heap.Allocated other → next.layoutOf other = heap.layoutOf other

variable {heap : Heap} {entry : HeapObject} {slot : Slot} {object : ObjectRef}

/-! ## Writes -/

/-- A slot is found by its name. -/
theorem Houses.slot_eq (h : heap.Houses entry) (hslot : slot ∈ entry.layout.slots) :
    entry.slot slot.name = .ok slot := by
  rw [HeapObject.slot, h.wellPlaced.slot?_eq_some_iff.2 ⟨hslot, rfl⟩]

namespace Sound

/-- The bytes of an object into one slot of which something was written. -/
theorem bytes_put (h : heap.Sound) (hentry : heap.objects[object.index]? = some entry)
    (hslot : slot ∈ entry.layout.slots) {start : Nat} {bytes : List UInt8}
    (hle : start + bytes.length ≤ slot.size) :
    (heap.put ((entry.place.shift slot.offset).shift start) bytes).bytes object =
      .ok ((heap.arena.bytesAt entry.extent).take (slot.offset + start) ++ bytes ++
        (heap.arena.bytesAt entry.extent).drop (slot.offset + start + bytes.length)) := by
  have hend := (h.houses hentry).slot_end_le hslot
  have hpart : slot.offset + start + bytes.length ≤ entry.extent.length := by
    simp only [HeapObject.extent]
    omega
  rw [(h.put _ _).bytes_eq hentry, Position.shift_shift]
  exact congrArg Except.ok (Arena.bytesAt_put_part ((h.houses hentry).covers h.arena) hpart)

/-- Another object shares no byte with the slot. -/
theorem bytes_put_of_ne (h : heap.Sound) (hentry : heap.objects[object.index]? = some entry)
    (hslot : slot ∈ entry.layout.slots) {start : Nat} {bytes : List UInt8}
    (hle : start + bytes.length ≤ slot.size) {other : ObjectRef} (hne : other ≠ object) :
    (heap.put ((entry.place.shift slot.offset).shift start) bytes).bytes other =
      heap.bytes other := by
  rcases heap.object_cases other with ⟨error, herror, -⟩ | ⟨found, hfound, -⟩
  · have herror' : (heap.put ((entry.place.shift slot.offset).shift start) bytes).object other =
        .error error := herror
    rw [Heap.bytes, Heap.bytes, herror, herror', error_bind, error_bind]
  · rw [h.bytes_eq hfound, (h.put _ _).bytes_eq hfound]
    refine congrArg Except.ok (Arena.bytesAt_congr fun place hplace =>
      Arena.byte?_put_of_not_mem fun hmem => ?_)
    have hindex : other.index ≠ object.index := fun heq => hne (ObjectRef.ext heq)
    have hpart : place ∈ (entry.slotExtent slot).part start bytes.length := hmem
    exact h.disjoint hfound hentry hindex place hplace
      (Extent.mem_of_mem_part ((h.houses hentry).slot_end_le hslot)
        (Extent.mem_of_mem_part hle hpart))

/-- The raw slots of other names hold the same bytes. -/
theorem raw_put_of_ne (h : heap.Sound) (hentry : heap.objects[object.index]? = some entry)
    (hslot : slot ∈ entry.layout.slots) {start : Nat} {bytes : List UInt8}
    (hle : start + bytes.length ≤ slot.size) {name : String} (hne : name ≠ slot.name) :
    (heap.put ((entry.place.shift slot.offset).shift start) bytes).raw object name =
      heap.raw object name := by
  have hplace : (heap.put ((entry.place.shift slot.offset).shift start) bytes).rawPlace object
      name = heap.rawPlace object name := rfl
  rcases h.rawPlace_cases object name with
    ⟨error, herror, -⟩ | ⟨found, other, hfound, hother, rfl, hraw, -⟩
  · rw [raw, raw, hplace, herror, error_bind, error_bind]
  · obtain rfl : entry = found := Option.some.inj (hentry.symm.trans hfound)
    rw [h.raw_eq hentry hother hraw, (h.put _ _).raw_eq hentry hother hraw,
      h.bytesAt_put hentry hentry hslot hother (Or.inr fun heq => hne (congrArg Slot.name heq).symm)
        hle]

/-- The reference slots of other names hold the same words. -/
theorem reference_put_of_ne (h : heap.Sound) (hentry : heap.objects[object.index]? = some entry)
    (hslot : slot ∈ entry.layout.slots) {start : Nat} {bytes : List UInt8}
    (hle : start + bytes.length ≤ slot.size) {name : String} (hne : name ≠ slot.name) :
    (heap.put ((entry.place.shift slot.offset).shift start) bytes).reference object name =
      heap.reference object name := by
  have hplace : (heap.put ((entry.place.shift slot.offset).shift start) bytes).referencePlace object
      name = heap.referencePlace object name := rfl
  rcases h.referencePlace_cases object name with
    ⟨error, herror, -⟩ | ⟨found, other, hfound, hother, rfl, hkind, -⟩
  · rw [reference, reference, hplace, herror, error_bind, error_bind]
  · obtain rfl : entry = found := Option.some.inj (hentry.symm.trans hfound)
    rw [h.reference_eq hentry hother hkind, (h.put _ _).reference_eq hentry hother hkind,
      h.word_put hentry hentry hslot hother hkind
        (Or.inr fun heq => hne (congrArg Slot.name heq).symm) hle]
    rfl

theorem wrote_put (h : heap.Sound) (hentry : heap.objects[object.index]? = some entry)
    (hslot : slot ∈ entry.layout.slots) {start : Nat} {bytes : List UInt8}
    (hle : start + bytes.length ≤ slot.size) :
    heap.Wrote object entry slot start bytes
      (heap.put ((entry.place.shift slot.offset).shift start) bytes) where
  objects_eq := rfl
  shape := Arena.sameShape_put _ _ _
  fits := hle
  own := ⟨_, h.bytes_eq hentry, h.bytes_put hentry hslot hle⟩
  others _ hne := h.bytes_put_of_ne hentry hslot hle hne
  slots _ hne := ⟨h.raw_put_of_ne hentry hslot hle hne, h.reference_put_of_ne hentry hslot hle hne⟩
  elsewhere _ hplace := Arena.byte?_put_of_not_mem hplace

end Sound

/-! ## Allocations -/

theorem getElem?_objects_add_size (heap : Heap) (entry : HeapObject) :
    (heap.add entry).objects[heap.objects.size]? = some entry :=
  Array.getElem?_push_size

theorem getElem?_objects_add_of_lt (heap : Heap) (entry : HeapObject) {i : Nat}
    (hi : i < heap.objects.size) : (heap.add entry).objects[i]? = heap.objects[i]? := by
  rw [objects_add, Array.getElem?_push, if_neg (Nat.ne_of_lt hi)]

/-- All of an object is a part of it. -/
theorem extent_part_zero (object : HeapObject) :
    object.extent.part 0 object.layout.size = object.extent := rfl

/-- A new object is all zero, and the earlier ones are as they were. -/
theorem Sound.gained_add (h : heap.Sound) (hplaces : heap.Places entry) :
    heap.Gained entry.layout ⟨heap.objects.size⟩ (heap.add entry) where
  raw_eq := rfl
  layoutOf_eq := by
    have hnew : (heap.add entry).object ⟨heap.objects.size⟩ = .ok entry :=
      object_eq_ok_iff.2 (heap.getElem?_objects_add_size entry)
    rw [layoutOf, hnew]
    rfl
  zero := by
    have hbytes : (heap.add entry).bytes ⟨heap.objects.size⟩ =
        .ok ((heap.add entry).arena.bytesAt entry.extent) :=
      (h.add hplaces).bytes_eq (heap.getElem?_objects_add_size entry)
    have hzero := hplaces.bytesAt_add h (Nat.le_of_eq (Nat.zero_add entry.layout.size))
    rw [extent_part_zero] at hzero
    rw [hbytes, hzero]
  keeps := by
    intro other hother
    have hfound := Array.getElem?_eq_getElem hother
    have hfound' := (heap.getElem?_objects_add_of_lt entry hother).trans hfound
    have hsame := h.bytesAt_add hplaces hfound (Nat.le_of_eq (Nat.zero_add _))
    rw [extent_part_zero] at hsame
    rw [h.bytes_eq hfound, (h.add hplaces).bytes_eq hfound', hsame]
  keepsLayout := by
    intro other hother
    rw [layoutOf, layoutOf, Heap.object, Heap.object, heap.getElem?_objects_add_of_lt entry hother]

/-! ## Every call that is granted -/

/-- From every heap in use, a write that is granted changes the bytes it was given for, inside one
slot of one object, and no others; and an allocation that is granted adds an object of zero bytes
under the next number and changes no earlier object. -/
theorem Reachable.isolates {config : HeapConfig} {platform : Platform}
    (h : heap.Reachable config platform) :
    (∀ object name start bytes, (heap.writeRaw object name start bytes).result = .ok () →
      ∃ entry slot, heap.object object = .ok entry ∧ entry.slot name = .ok slot ∧
        slot.kind.isRaw = true ∧
        heap.Wrote object entry slot start bytes (heap.writeRaw object name start bytes).state) ∧
    (∀ object name byte, (heap.fillRaw object name byte).result = .ok () →
      ∃ entry slot, heap.object object = .ok entry ∧ entry.slot name = .ok slot ∧
        slot.kind.isRaw = true ∧
        heap.Wrote object entry slot 0 (List.replicate slot.size byte)
          (heap.fillRaw object name byte).state) ∧
    (∀ object name target, (heap.setReference object name target).result = .ok () →
      ∃ entry slot, heap.object object = .ok entry ∧ entry.slot name = .ok slot ∧
        slot.kind = .reference ∧ slot.size = platform.wordBytes ∧
        heap.Wrote object entry slot 0
          (littleEndian platform.wordBytes (ObjectRef.rawOf target))
          (heap.setReference object name target).state) ∧
    ∀ layout, layout.Built → ∀ object, (heap.alloc layout).result = .ok object →
      heap.Gained layout object (heap.alloc layout).state := by
  obtain ⟨hsound, rfl⟩ := h.sound
  refine ⟨?_, ?_, ?_, ?_⟩
  · intro object name start bytes hok
    have heffect := hsound.writeRaw_effect object name start bytes
    rw [hok] at heffect
    generalize (heap.writeRaw object name start bytes).state = next at heffect ⊢
    cases heffect with
    | written hentry hslot hname hraw hle =>
      subst hname
      exact ⟨_, _, object_eq_ok_iff.2 hentry, (hsound.houses hentry).slot_eq hslot, hraw,
        hsound.wrote_put hentry hslot hle⟩
  · intro object name byte hok
    have heffect := hsound.fillRaw_effect object name byte
    rw [hok] at heffect
    generalize (heap.fillRaw object name byte).state = next at heffect ⊢
    cases heffect with
    | filled hentry hslot hname hraw =>
      subst hname
      exact ⟨_, _, object_eq_ok_iff.2 hentry, (hsound.houses hentry).slot_eq hslot, hraw,
        hsound.wrote_put hentry hslot (by simp)⟩
  · intro object name target hok
    have heffect := hsound.setReference_effect object name target
    rw [hok] at heffect
    generalize (heap.setReference object name target).state = next at heffect ⊢
    cases heffect with
    | referred hentry hslot hname hkind htarget =>
      subst hname
      have hlength :=
        (hsound.houses hentry).length_littleEndian hslot hkind (ObjectRef.rawOf target)
      exact ⟨_, _, object_eq_ok_iff.2 hentry, (hsound.houses hentry).slot_eq hslot, hkind,
        hlength.symm.trans (length_littleEndian _ _), hsound.wrote_put hentry hslot (by omega)⟩
  · intro layout built object hok
    have heffect := hsound.alloc_effect layout built
    rw [hok] at heffect
    generalize (heap.alloc layout).state = next at heffect ⊢
    cases heffect with
    | allocated hplaces => exact hsound.gained_add hplaces

set_option maxRecDepth 10000 in
/-- A byte of the second node is written and the reference of the first is cleared, each of them
where the layout says, and a third node is allocated. -/
theorem isolates_ring :
    ring.Reachable ⟨1024, 2⟩ .bits16 ∧
      ring.object ⟨1⟩ = .ok ⟨.node, ⟨0, 4⟩, 4⟩ ∧
      (ring.writeRaw ⟨1⟩ "tag" 0 [7]).result = .ok () ∧
      ring.Wrote ⟨1⟩ ⟨.node, ⟨0, 4⟩, 4⟩ ⟨"tag", .raw, 0, 1⟩ 0 [7]
        (ring.writeRaw ⟨1⟩ "tag" 0 [7]).state ∧
      ring.object ⟨0⟩ = .ok ⟨.node, ⟨0, 0⟩, 4⟩ ∧
      (ring.setReference ⟨0⟩ "next" none).result = .ok () ∧
      ring.Wrote ⟨0⟩ ⟨.node, ⟨0, 0⟩, 4⟩ ⟨"next", .reference, 2, 2⟩ 0 [0, 0]
        (ring.setReference ⟨0⟩ "next" none).state ∧
      (ring.alloc .node).result = .ok ⟨2⟩ ∧ ring.Gained .node ⟨2⟩ (ring.alloc .node).state := by
  have hwrite : (ring.writeRaw ⟨1⟩ "tag" 0 [7]).result = .ok () := rfl
  have hset : (ring.setReference ⟨0⟩ "next" none).result = .ok () := rfl
  have halloc : (ring.alloc .node).result = .ok ⟨2⟩ := rfl
  obtain ⟨hwrites, -, hsets, hallocs⟩ := reachable_ring.isolates
  obtain ⟨second, tag, hsecond, htag, -, hwrote⟩ := hwrites _ _ _ _ hwrite
  cases object_ring_second.symm.trans hsecond
  cases htag
  obtain ⟨first, next, hfirst, hnext, -, -, hwrote'⟩ := hsets _ _ _ hset
  cases object_ring.symm.trans hfirst
  cases hnext
  exact ⟨reachable_ring, object_ring_second, hwrite, hwrote, object_ring, hset, hwrote', halloc,
    hallocs _ RecordLayout.built_node _ halloc⟩

end Heap

end UnboxedRecords
