import UnboxedRecords.Proofs.Heap.References
import UnboxedRecords.Proofs.Record.Equality
import UnboxedRecords.Proofs.Record.Partition

/-!
# What lies between the slots

An object has bytes that belong to no slot: the gaps that alignment leaves between slots, and the
padding at its end.  No call speaks of them.  They are zero when the object is allocated, and every
write stays inside a slot, so that they are zero ever after (`Heap.Blank`, `Heap.Effect.blank`).

The other bytes are known from what the slots hold: those of a raw slot are read as they are, and
those of a reference slot spell the number of the object that it names
(`Heap.Intact.bytesAt_reference`).  So the bytes of an object say nothing about its history that its
slots do not say (`Heap.Reachable.no_hidden_state`).
-/

namespace UnboxedRecords

namespace RecordLayout

variable {layout : RecordLayout} {offset : Nat}

theorem mem_slotsAt_iff {slot : Slot} :
    slot ∈ layout.slotsAt offset ↔ slot ∈ layout.slots ∧ slot.offset ≤ offset ∧
      offset < slot.offset + slot.size := by
  rw [slotsAt, List.mem_filter, Slot.span_contains_iff]

/-- The bytes of a record are those in its slots and those between them. -/
theorem bytes_ext {xs ys : List UInt8} (hxs : xs.length = layout.size)
    (hys : ys.length = layout.size)
    (hslots : ∀ slot ∈ layout.slots,
      (xs.drop slot.offset).take slot.size = (ys.drop slot.offset).take slot.size)
    (hbetween : ∀ offset < layout.size, layout.slotsAt offset = [] → xs[offset]? = ys[offset]?) :
    xs = ys := by
  refine List.ext_getElem? fun offset => ?_
  by_cases hlt : offset < layout.size
  · rcases hat : layout.slotsAt offset with _ | ⟨slot, rest⟩
    · exact hbetween offset hlt hat
    · have hmem : slot ∈ layout.slotsAt offset := by
        rw [hat]
        exact List.mem_cons_self
      obtain ⟨hslot, hle, hend⟩ := mem_slotsAt_iff.1 hmem
      have hsame := congrArg (·[offset - slot.offset]?) (hslots slot hslot)
      have hinside : offset - slot.offset < slot.size := by omega
      simpa only [List.getElem?_take_of_lt hinside, List.getElem?_drop,
        Nat.add_sub_cancel' hle] using hsame
  · rw [List.getElem?_eq_none (by omega), List.getElem?_eq_none (by omega)]

end RecordLayout

namespace Heap

/-- The bytes of objects that belong to no slot are zero. -/
def Blank (heap : Heap) : Prop :=
  ∀ ⦃i : Nat⦄ ⦃entry : HeapObject⦄, heap.objects[i]? = some entry →
    ∀ offset < entry.layout.size, entry.layout.slotsAt offset = [] →
      heap.arena.bytesAt (entry.extent.part offset 1) = [0]

variable {heap next left right : Heap} {entry x y : HeapObject} {slot : Slot}
  {object a b : ObjectRef}

/-! ## Gaps and padding -/

theorem blank_create {config : HeapConfig} {platform : Platform}
    (h : Heap.create config platform = .ok heap) : heap.Blank := by
  rw [create] at h
  split at h
  · cases h
  · cases h
    intro i entry hentry
    simp at hentry

/-- All bytes of a new object are zero, and the earlier objects keep theirs. -/
theorem Blank.add (h : heap.Blank) (hsound : heap.Sound) (hplaces : heap.Places entry) :
    (heap.add entry).Blank := by
  intro i other hother offset hoffset hnone
  have hend : offset + 1 ≤ other.layout.size := hoffset
  rcases getElem?_objects_add hother with ⟨-, rfl⟩ | hother
  · exact hplaces.bytesAt_add hsound hend
  · rw [hsound.bytesAt_add hplaces hother hend]
    exact h hother offset hoffset hnone

/-- What is written into a slot does not get out of it. -/
theorem Blank.put (h : heap.Blank) (hsound : heap.Sound) {i : Nat}
    (hentry : heap.objects[i]? = some entry) (hslot : slot ∈ entry.layout.slots) {start : Nat}
    {bytes : List UInt8} (hle : start + bytes.length ≤ slot.size) :
    (heap.put ((entry.place.shift slot.offset).shift start) bytes).Blank := by
  intro j other hother offset hoffset hnone
  rw [← h hother offset hoffset hnone]
  refine Arena.bytesAt_congr fun place hplace => Arena.byte?_put_of_not_mem fun hmem => ?_
  have hwritten : place ∈ entry.slotExtent slot := Extent.mem_of_mem_part hle hmem
  by_cases hij : i = j
  · -- the object of the slot itself: the slot would cover a byte that no slot covers
    subst hij
    obtain rfl : entry = other := Option.some.inj (hentry.symm.trans hother)
    obtain ⟨-, hge, hlt⟩ := hplace
    obtain ⟨-, hge', hlt'⟩ := hwritten
    simp only [HeapObject.slotExtent, HeapObject.extent, Extent.part, Position.offset_shift]
      at hge hlt hge' hlt'
    have hcovers : slot ∈ entry.layout.slotsAt offset :=
      RecordLayout.mem_slotsAt_iff.2 ⟨hslot, by omega, by omega⟩
    rw [hnone] at hcovers
    cases hcovers
  · exact hsound.disjoint hentry hother hij place
      (Extent.mem_of_mem_part ((hsound.houses hentry).slot_end_le hslot) hwritten)
      (Extent.mem_of_mem_part (show offset + 1 ≤ other.extent.length from hoffset) hplace)

theorem Effect.blank {call : HeapCall} {result : Except HeapError (Option ObjectRef)}
    (heffect : heap.Effect call result next) (hsound : heap.Sound) (h : heap.Blank) :
    next.Blank := by
  cases heffect with
  | refused _ => exact h
  | allocated hplaces => exact h.add hsound hplaces
  | written hentry hslot _ _ hle => exact h.put hsound hentry hslot hle
  | filled hentry hslot _ _ => exact h.put hsound hentry hslot (by simp)
  | referred hentry hslot _ hkind _ =>
    have hlength := (hsound.houses hentry).length_littleEndian hslot hkind
    exact h.put hsound hentry hslot (Nat.le_of_eq ((Nat.zero_add _).trans (hlength _)))

/-- In a heap in use the bytes outside the slots are zero. -/
theorem Reachable.blank {config : HeapConfig} {platform : Platform}
    (h : heap.Reachable config platform) : heap.Blank := by
  induction h with
  | create hcreate => exact blank_create hcreate
  | perform hheap call ih => exact (hheap.sound.1.effect call).blank hheap.sound.1 ih

theorem Blank.getElem?_bytesAt (h : heap.Blank) {i : Nat} (hentry : heap.objects[i]? = some entry)
    {offset : Nat} (hoffset : offset < entry.layout.size)
    (hnone : entry.layout.slotsAt offset = []) :
    (heap.arena.bytesAt entry.extent)[offset]? = some 0 := by
  have hpart : offset + 1 ≤ entry.extent.length := hoffset
  have hzero := h hentry offset hoffset hnone
  rw [Arena.bytesAt_part hpart] at hzero
  have hfirst := congrArg (·[0]?) hzero
  simpa using hfirst

/-! ## Slots -/

/-- The bytes of a reference slot spell the number of the object that it names. -/
theorem Intact.bytesAt_reference (h : heap.Intact) (hsound : heap.Sound)
    (hentry : heap.objects[object.index]? = some entry) (hslot : slot ∈ entry.layout.slots)
    (hkind : slot.kind = .reference) :
    ∃ target, heap.reference object slot.name = .ok target ∧
      heap.arena.bytesAt (entry.slotExtent slot) =
        littleEndian entry.layout.platform.wordBytes (ObjectRef.rawOf target) := by
  have hoffset := (hsound.houses hentry).wellPlaced.mem_scanMap.2 ⟨slot, hslot, hkind, rfl⟩
  obtain ⟨target, htarget, hword⟩ := h hentry slot.offset hoffset
  refine ⟨target, ?_, ?_⟩
  · rw [hsound.reference_eq hentry hslot hkind, hword]
    exact htarget.decode_eq
  · have hspelled :=
      littleEndian_ofLittleEndian (heap.arena.bytesAt (entry.wordExtent slot.offset))
    rw [Arena.length_bytesAt] at hspelled
    rw [(hsound.houses hentry).slotExtent_eq hslot hkind, ← hspelled, ← hword]
    rfl

/-- Two slots that read the same hold the same bytes. -/
theorem bytesAt_slot_eq (hleft : left.Sound) (hright : right.Sound) (hintact : left.Intact)
    (hintact' : right.Intact) (hx : left.objects[a.index]? = some x)
    (hy : right.objects[b.index]? = some y) (hplatform : x.layout.platform = y.layout.platform)
    (hslot : slot ∈ x.layout.slots) (hslot' : slot ∈ y.layout.slots)
    (hraw : slot.kind.isRaw = true → left.raw a slot.name = right.raw b slot.name)
    (hreference : slot.kind = .reference →
      left.reference a slot.name = right.reference b slot.name) :
    left.arena.bytesAt (x.slotExtent slot) = right.arena.bytesAt (y.slotExtent slot) := by
  by_cases hkind : slot.kind = .reference
  · obtain ⟨target, htarget, hbytes⟩ := hintact.bytesAt_reference hleft hx hslot hkind
    obtain ⟨target', htarget', hbytes'⟩ := hintact'.bytesAt_reference hright hy hslot' hkind
    have hsame := hreference hkind
    rw [htarget, htarget'] at hsame
    cases hsame
    rw [hbytes, hbytes', hplatform]
  · have hkind := SlotKind.isRaw_iff.2 hkind
    have hsame := hraw hkind
    rw [hleft.raw_eq hx hslot hkind, hright.raw_eq hy hslot' hkind] at hsame
    exact Except.ok.inj hsame

/-! ## All bytes of an object -/

/-- In every heap in use, the bytes of an object that lie in none of its slots are zero.  So two
objects whose layouts are equal and whose slots read the same, raw slots as bytes and reference
slots as objects, have the same bytes, be they in one heap or in two. -/
theorem Reachable.no_hidden_state {config : HeapConfig} {platform : Platform}
    (h : heap.Reachable config platform) (hobject : heap.object object = .ok entry) :
    (∃ bytes, heap.bytes object = .ok bytes ∧ bytes.length = entry.layout.size ∧
      ∀ offset < bytes.length, entry.layout.slotsAt offset = [] → bytes[offset]? = some 0) ∧
    ∀ (config' : HeapConfig) (platform' : Platform) (heap' : Heap),
      heap'.Reachable config' platform' → ∀ object' entry', heap'.object object' = .ok entry' →
        (entry.layout == entry'.layout) = true →
        (∀ slot ∈ entry.layout.slots, slot.kind.isRaw = true →
          heap.raw object slot.name = heap'.raw object' slot.name) →
        (∀ slot ∈ entry.layout.slots, slot.kind = .reference →
          heap.reference object slot.name = heap'.reference object' slot.name) →
        heap.bytes object = heap'.bytes object' := by
  obtain ⟨hsound, -⟩ := h.sound
  have hentry := object_eq_ok_iff.1 hobject
  refine ⟨⟨_, hsound.bytes_eq hentry, Arena.length_bytesAt _ _, fun offset hoffset hnone => ?_⟩,
    fun config' platform' heap' h' object' entry' hobject' heq hraw hreference => ?_⟩
  · rw [Arena.length_bytesAt] at hoffset
    exact h.blank.getElem?_bytesAt hentry hoffset hnone
  · obtain ⟨hsound', -⟩ := h'.sound
    have hentry' := object_eq_ok_iff.1 hobject'
    obtain ⟨-, hplatform, -, hsize, -⟩ := RecordLayout.beq_iff.1 heq
    have hperm := (hsound.houses hentry).wellPlaced.slots_perm heq
    rw [hsound.bytes_eq hentry, hsound'.bytes_eq hentry']
    refine congrArg Except.ok (RecordLayout.bytes_ext (Arena.length_bytesAt _ _)
      ((Arena.length_bytesAt _ _).trans hsize.symm) (fun slot hslot => ?_)
      (fun offset hoffset hnone => ?_))
    · have hslot' := hperm.mem_iff.1 hslot
      have hbytes := bytesAt_slot_eq hsound hsound' h.intact h'.intact hentry hentry' hplatform
        hslot hslot' (hraw slot hslot) (hreference slot hslot)
      rwa [HeapObject.slotExtent, HeapObject.slotExtent,
        Arena.bytesAt_part ((hsound.houses hentry).slot_end_le hslot),
        Arena.bytesAt_part ((hsound'.houses hentry').slot_end_le hslot')] at hbytes
    · -- what one layout leaves free, the other leaves free as well
      have hnone' : entry'.layout.slotsAt offset = [] := by
        have hat : (entry.layout.slotsAt offset).Perm (entry'.layout.slotsAt offset) :=
          hperm.filter _
        rw [hnone] at hat
        exact List.nil_perm.1 hat
      rw [h.blank.getElem?_bytesAt hentry hoffset hnone,
        h'.blank.getElem?_bytesAt hentry' (by omega) hnone']

end Heap

/-! ## Two histories of one record -/

/-- A record with gaps is filled with ones, tagged, made to refer to itself, and blanked again but
for its tags. -/
def HeapCall.scribbled : List HeapCall :=
  [.alloc .gapped RecordLayout.built_gapped, .fillRaw ⟨0⟩ "flag" 255, .fillRaw ⟨0⟩ "tags" 255,
    .fillRaw ⟨0⟩ "last" 255, .writeRaw ⟨0⟩ "tags" 0 [0, 1, 2, 3, 0],
    .setReference ⟨0⟩ "next" (some ⟨0⟩), .fillRaw ⟨0⟩ "flag" 0, .fillRaw ⟨0⟩ "last" 0]

/-- The tags and the reference are set at once, on a record that starts at an odd multiple of its
alignment. -/
def HeapCall.neat : List HeapCall :=
  [.alloc .gapped RecordLayout.built_gapped, .alloc .gapped RecordLayout.built_gapped,
    .writeRaw ⟨1⟩ "tags" 1 [1, 2, 3], .setReference ⟨1⟩ "next" (some ⟨0⟩)]

namespace Heap

/-- A new heap with segments of another size. -/
def single : Heap := ⟨.bits16, .create 2048 1, #[]⟩

theorem create_single : Heap.create ⟨2048, 1⟩ .bits16 = .ok single := rfl

/-- The heap in which the record was scribbled on. -/
def scribbled : Heap := small.after HeapCall.scribbled

/-- The heap in which the record was written once. -/
def neat : Heap := single.after HeapCall.neat

theorem reachable_scribbled : scribbled.Reachable ⟨1024, 2⟩ .bits16 :=
  (Reachable.create create_small).after _

theorem reachable_neat : neat.Reachable ⟨2048, 1⟩ .bits16 :=
  (Reachable.create create_single).after _

set_option maxRecDepth 10000 in
theorem object_scribbled : scribbled.object ⟨0⟩ = .ok ⟨.gapped, ⟨0, 0⟩, 24⟩ := rfl

set_option maxRecDepth 10000 in
theorem object_neat : neat.object ⟨1⟩ = .ok ⟨.gapped, ⟨0, 24⟩, 24⟩ := rfl

set_option maxRecDepth 10000 in
theorem no_hidden_state_gapped :
    scribbled.Reachable ⟨1024, 2⟩ .bits16 ∧ scribbled.object ⟨0⟩ = .ok ⟨.gapped, ⟨0, 0⟩, 24⟩ ∧
      (∃ bytes, scribbled.bytes ⟨0⟩ = .ok bytes ∧ bytes.length = 24 ∧ bytes[9]? = some 0 ∧
        bytes[23]? = some 0) ∧
      neat.Reachable ⟨2048, 1⟩ .bits16 ∧ neat.object ⟨1⟩ = .ok ⟨.gapped, ⟨0, 24⟩, 24⟩ ∧
      scribbled.bytes ⟨0⟩ = neat.bytes ⟨1⟩ := by
  obtain ⟨⟨bytes, hbytes, hlength, hzero⟩, hsame⟩ :=
    reachable_scribbled.no_hidden_state object_scribbled
  have hlength : bytes.length = 24 := hlength
  refine ⟨reachable_scribbled, object_scribbled, ⟨bytes, hbytes, hlength, hzero 9 (by omega) rfl,
    hzero 23 (by omega) rfl⟩, reachable_neat, object_neat,
    hsame _ _ _ reachable_neat _ _ object_neat (by decide) ?_ ?_⟩
  · decide +kernel
  · decide +kernel

end Heap

end UnboxedRecords
