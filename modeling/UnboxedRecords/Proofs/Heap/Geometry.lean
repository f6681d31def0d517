import UnboxedRecords.Heap.Scanning
import UnboxedRecords.Proofs.Heap.Runs
import UnboxedRecords.Proofs.Memory.Allocation
import UnboxedRecords.Proofs.Record.Placement

/-!
# The geometry of a heap

`Heap.Sound` says where the objects of a heap lie: each inside what its segment has given out, at a
multiple of its alignment, and no two of them on one byte.  Together with the placement of slots
inside a record it puts every slot at a place of its own (`Heap.Sound.slots_disjoint`), and it makes
every step from a slot to its bytes succeed, so that each access is equal to a read of an extent
(`Heap.Sound.raw_eq`, `Heap.Sound.wordAt_eq`, `Heap.Sound.scan_eq`).
-/

namespace UnboxedRecords

@[simp] theorem ok_bind {ε α β : Type} (value : α) (next : α → Except ε β) :
    (Except.ok value >>= next) = next value := rfl

@[simp] theorem error_bind {ε α β : Type} (error : ε) (next : α → Except ε β) :
    (Except.error error >>= next) = .error error := rfl

/-- A fold none of whose steps fails. -/
theorem foldlM_eq_ok {ε α σ : Type} {step : σ → α → Except ε σ} {next : σ → α → σ} {as : List α}
    (h : ∀ a ∈ as, ∀ state, step state a = .ok (next state a)) (start : σ) :
    as.foldlM step start = .ok (as.foldl next start) := by
  induction as generalizing start with
  | nil => rfl
  | cons a as ih =>
    rw [List.foldlM_cons, h a List.mem_cons_self, ok_bind, List.foldl_cons]
    exact ih (fun b hb => h b (List.mem_cons_of_mem a hb)) (next start a)

namespace HeapObject

/-- The bytes of the object. -/
def extent (object : HeapObject) : Extent := ⟨object.place, object.layout.size⟩

/-- The bytes of a slot. -/
def slotExtent (object : HeapObject) (slot : Slot) : Extent :=
  object.extent.part slot.offset slot.size

/-- The word at an offset. -/
def wordExtent (object : HeapObject) (offset : Nat) : Extent :=
  object.extent.part offset object.layout.platform.wordBytes

end HeapObject

namespace Heap

/-- Where an object lies. -/
structure Houses (heap : Heap) (object : HeapObject) : Prop where
  wellPlaced : object.layout.WellPlaced
  platform_eq : object.layout.platform = heap.platform
  size_eq : object.size = object.layout.size
  segment_lt : object.place.segment < heap.arena.segments.size
  end_le : object.place.offset + object.layout.size ≤ heap.arena.used object.place.segment
  aligned : object.layout.alignment ∣ object.place.offset

/-- The objects of the heap lie in memory that was given out, each on bytes of its own. -/
structure Sound (heap : Heap) : Prop where
  arena : heap.arena.WellFormed
  houses : ∀ {i : Nat} {object : HeapObject}, heap.objects[i]? = some object → heap.Houses object
  disjoint : ∀ {i j : Nat} {a b : HeapObject}, heap.objects[i]? = some a →
    heap.objects[j]? = some b → i ≠ j → a.extent.Disjoint b.extent

variable {heap : Heap} {entry : HeapObject} {slot : Slot}

theorem object_eq_ok_iff {object : ObjectRef} :
    heap.object object = .ok entry ↔ heap.objects[object.index]? = some entry := by
  rw [Heap.object]
  split
  · next found hfound => simp [hfound]
  · next hnone => simp [hnone]

theorem object_eq_error {object : ObjectRef} {error : HeapError}
    (h : heap.object object = .error error) : error = .unknownObject object := by
  rw [Heap.object] at h
  split at h
  · cases h
  · cases h
    rfl

/-- A new heap is sound: there are no objects yet. -/
theorem sound_create {config : HeapConfig} {platform : Platform}
    (h : Heap.create config platform = .ok heap) : heap.Sound ∧ heap.platform = platform := by
  rw [create] at h
  split at h
  · cases h
  · cases h
    exact ⟨⟨Arena.wellFormed_create _ _, by simp, by simp⟩, rfl⟩

/-! ## Places and extents -/

namespace Houses

theorem covers (h : heap.Houses entry) (harena : heap.arena.WellFormed) :
    heap.arena.Covers entry.extent :=
  harena.covers_iff.2 ⟨h.segment_lt, Nat.le_trans h.end_le (harena.used_le _)⟩

theorem slot_end_le (h : heap.Houses entry) (hslot : slot ∈ entry.layout.slots) :
    slot.offset + slot.size ≤ entry.layout.size :=
  h.wellPlaced.slots.below slot hslot

theorem word_end_le (h : heap.Houses entry) {offset : Nat}
    (hoffset : offset ∈ entry.layout.scanMap) :
    offset + entry.layout.platform.wordBytes ≤ entry.layout.size :=
  h.wellPlaced.add_wordBytes_le hoffset

/-- The word of a reference slot is all of the slot. -/
theorem slotExtent_eq (h : heap.Houses entry) (hslot : slot ∈ entry.layout.slots)
    (hkind : slot.kind = .reference) : entry.slotExtent slot = entry.wordExtent slot.offset := by
  rw [HeapObject.slotExtent, HeapObject.wordExtent,
    (h.wellPlaced.slots.words slot hslot hkind).1]

/-- Places inside an object are 32-bit numbers, and so is every step towards them. -/
theorem placeAt_eq (h : heap.Houses entry) (harena : heap.arena.WellFormed) {offset : Nat}
    (hoffset : offset ≤ entry.layout.size) :
    entry.placeAt offset = .ok (entry.place.shift offset) := by
  have hend := h.end_le
  have hused := harena.used_le entry.place.segment
  have hbytes := harena.segmentBytes_lt
  have hnarrow : narrow 32 offset = .ok offset := narrow_eq_ok_iff.2 ⟨by omega, rfl⟩
  have hsum : entry.place.offset + offset < 1 <<< 32 := by omega
  rw [HeapObject.placeAt, hnarrow]
  exact if_pos hsum

end Houses

namespace Sound

theorem size_lt (h : heap.Sound) {i : Nat} (hentry : heap.objects[i]? = some entry) :
    entry.layout.size < 1 <<< 32 := by
  have hend := (h.houses hentry).end_le
  have hused := h.arena.used_le entry.place.segment
  have hbytes := h.arena.segmentBytes_lt
  omega

theorem covers_slot (h : heap.Sound) {i : Nat} (hentry : heap.objects[i]? = some entry)
    (hslot : slot ∈ entry.layout.slots) : heap.arena.Covers (entry.slotExtent slot) :=
  ((h.houses hentry).covers h.arena).part ((h.houses hentry).slot_end_le hslot)

theorem covers_word (h : heap.Sound) {i : Nat} (hentry : heap.objects[i]? = some entry)
    {offset : Nat} (hoffset : offset ∈ entry.layout.scanMap) :
    heap.arena.Covers (entry.wordExtent offset) :=
  ((h.houses hentry).covers h.arena).part ((h.houses hentry).word_end_le hoffset)

/-- No byte belongs to two slots, be they of one object or of two. -/
theorem slots_disjoint (h : heap.Sound) {i j : Nat} {a b : HeapObject} {s t : Slot}
    (ha : heap.objects[i]? = some a) (hb : heap.objects[j]? = some b) (hs : s ∈ a.layout.slots)
    (ht : t ∈ b.layout.slots) (hne : i ≠ j ∨ s ≠ t) :
    (a.slotExtent s).Disjoint (b.slotExtent t) := by
  by_cases hij : i = j
  · -- two slots of one object
    subst hij
    rw [ha] at hb
    cases hb
    have hapart := (h.houses ha).wellPlaced.slots.apart hs ht
      (hne.resolve_left (not_not_intro rfl))
    rcases hapart with hle | hle
    · refine Extent.disjoint_of_le ?_
      simp only [HeapObject.slotExtent, Extent.part, Position.offset_shift]
      omega
    · refine (Extent.disjoint_of_le ?_).symm
      simp only [HeapObject.slotExtent, Extent.part, Position.offset_shift]
      omega
  · -- two objects, which have no byte in common in the first place
    intro place hplace hplace'
    exact h.disjoint ha hb hij place
      (Extent.mem_of_mem_part ((h.houses ha).slot_end_le hs) hplace)
      (Extent.mem_of_mem_part ((h.houses hb).slot_end_le ht) hplace')

end Sound

/-! ## Reading -/

/-- The number in the word at an offset of an object. -/
def word (heap : Heap) (entry : HeapObject) (offset : Nat) : Nat :=
  ofLittleEndian (heap.arena.bytesAt (entry.wordExtent offset))

namespace Sound

theorem bytes_eq (h : heap.Sound) {object : ObjectRef}
    (hentry : heap.objects[object.index]? = some entry) :
    heap.bytes object = .ok (heap.arena.bytesAt entry.extent) := by
  have hread := Arena.read_eq ((h.houses hentry).covers h.arena)
  rw [bytes, object_eq_ok_iff.2 hentry, ok_bind, (h.houses hentry).size_eq]
  exact congrArg (Except.mapError HeapError.fault) hread

theorem rawPlace_eq (h : heap.Sound) {object : ObjectRef}
    (hentry : heap.objects[object.index]? = some entry) (hslot : slot ∈ entry.layout.slots)
    (hraw : slot.kind.isRaw = true) :
    heap.rawPlace object slot.name = .ok (entry.place.shift slot.offset, slot.size) := by
  have hfind := (h.houses hentry).wellPlaced.slot?_eq_some_iff.2 ⟨hslot, rfl⟩
  have hend := (h.houses hentry).slot_end_le hslot
  have hsize := h.size_lt hentry
  have hplace : entry.placeAt slot.offset = .ok (entry.place.shift slot.offset) :=
    (h.houses hentry).placeAt_eq h.arena (by omega)
  have hnarrow : narrow 32 slot.size = .ok slot.size := narrow_eq_ok_iff.2 ⟨by omega, rfl⟩
  rw [rawPlace, object_eq_ok_iff.2 hentry, ok_bind, HeapObject.slot, hfind, ok_bind, if_pos hraw,
    hplace, ok_bind, hnarrow]
  rfl

theorem raw_eq (h : heap.Sound) {object : ObjectRef}
    (hentry : heap.objects[object.index]? = some entry) (hslot : slot ∈ entry.layout.slots)
    (hraw : slot.kind.isRaw = true) :
    heap.raw object slot.name = .ok (heap.arena.bytesAt (entry.slotExtent slot)) := by
  have hread := Arena.read_eq (h.covers_slot hentry hslot)
  rw [raw, h.rawPlace_eq hentry hslot hraw, ok_bind]
  exact congrArg (Except.mapError HeapError.fault) hread

theorem referencePlace_eq (h : heap.Sound) {object : ObjectRef}
    (hentry : heap.objects[object.index]? = some entry) (hslot : slot ∈ entry.layout.slots)
    (hkind : slot.kind = .reference) :
    heap.referencePlace object slot.name = .ok (entry.place.shift slot.offset) := by
  have hfind := (h.houses hentry).wellPlaced.slot?_eq_some_iff.2 ⟨hslot, rfl⟩
  have hend := (h.houses hentry).slot_end_le hslot
  rw [referencePlace, object_eq_ok_iff.2 hentry, ok_bind, HeapObject.slot, hfind, ok_bind,
    if_pos hkind]
  exact (h.houses hentry).placeAt_eq h.arena (by omega)

theorem readWord_eq (h : heap.Sound) {i : Nat} (hentry : heap.objects[i]? = some entry)
    {offset : Nat} (hoffset : offset ∈ entry.layout.scanMap) :
    heap.readWord (entry.place.shift offset) = .ok (heap.word entry offset) := by
  have hread := Arena.read_eq (h.covers_word hentry hoffset)
  rw [readWord, read, ← (h.houses hentry).platform_eq]
  rw [show heap.arena.read (entry.place.shift offset) entry.layout.platform.wordBytes =
    .ok (heap.arena.bytesAt (entry.wordExtent offset)) from hread]
  rfl

theorem wordAt_eq (h : heap.Sound) {object : ObjectRef}
    (hentry : heap.objects[object.index]? = some entry) {offset : Nat}
    (hoffset : offset ∈ entry.layout.scanMap) :
    heap.wordAt object offset = .ok (heap.word entry offset) := by
  have hend := (h.houses hentry).word_end_le hoffset
  have hplace : entry.placeAt offset = .ok (entry.place.shift offset) :=
    (h.houses hentry).placeAt_eq h.arena (by omega)
  rw [wordAt, object_eq_ok_iff.2 hentry, ok_bind, hplace, ok_bind, h.readWord_eq hentry hoffset]

theorem reference_eq (h : heap.Sound) {object : ObjectRef}
    (hentry : heap.objects[object.index]? = some entry) (hslot : slot ∈ entry.layout.slots)
    (hkind : slot.kind = .reference) :
    heap.reference object slot.name = heap.decode (heap.word entry slot.offset) := by
  have hoffset := (h.houses hentry).wellPlaced.mem_scanMap.2 ⟨slot, hslot, hkind, rfl⟩
  rw [reference, h.referencePlace_eq hentry hslot hkind, ok_bind, h.readWord_eq hentry hoffset,
    ok_bind]

/-- A scan shows the words at the offsets of the scan map, in order, and cannot fail. -/
theorem scan_eq (h : heap.Sound) {object : ObjectRef}
    (hentry : heap.objects[object.index]? = some entry) {σ : Type} (visit : σ → Nat → Nat → σ)
    (start : σ) :
    heap.scan object visit start =
      .ok (entry.layout.scanMap.foldl
        (fun state offset => visit state offset (heap.word entry offset)) start,
        entry.layout.scanMap.length) := by
  have hstep : ∀ offset ∈ entry.layout.scanMap, ∀ state : σ,
      (do return visit state offset (← heap.referenceWord object entry.layout offset)) =
        Except.ok (visit state offset (heap.word entry offset)) := by
    intro offset hoffset state
    -- the check against raw storage never stops a scan
    have hraw := (h.houses hentry).wellPlaced.isRawAt_of_mem_scanMap hoffset
    rw [referenceWord, hraw, if_neg Bool.false_ne_true, h.wordAt_eq hentry hoffset]
    rfl
  rw [scan, layoutOf, object_eq_ok_iff.2 hentry]
  exact congrArg (fun result => result >>= fun last => .ok (last, entry.layout.scanMap.length))
    (foldlM_eq_ok hstep start)

end Sound

end Heap

end UnboxedRecords
