import UnboxedRecords.Proofs.Heap.Effects

/-!
# The integrity of references

A heap is `Heap.Intact` when every reference word holds nought or the number of an allocated object
that fits in a word.  Each effect of a call keeps it intact: the words of a new object are nought,
a raw write reaches no word, and a reference slot is given only what its word can hold.  So no
reference slot of a heap in use ever dangles, and reading one cannot fail
(`Heap.Reachable.reference_words`).
-/

namespace UnboxedRecords

/-- Zero bytes stand for nought. -/
theorem ofLittleEndian_replicate_zero (count : Nat) :
    ofLittleEndian (List.replicate count 0) = 0 := by
  induction count with
  | zero => rfl
  | succ count ih => simp [List.replicate_succ, ofLittleEndian, ih]

namespace Heap

/-- No reference slot dangles. -/
def Intact (heap : Heap) : Prop :=
  ∀ {i : Nat} {entry : HeapObject}, heap.objects[i]? = some entry →
    ∀ offset ∈ entry.layout.scanMap,
      ∃ target, heap.CanName target ∧ heap.word entry offset = ObjectRef.rawOf target

variable {heap next : Heap} {entry : HeapObject} {slot : Slot} {object : ObjectRef}

theorem intact_create {config : HeapConfig} {platform : Platform}
    (h : Heap.create config platform = .ok heap) : heap.Intact := by
  rw [create] at h
  split at h
  · cases h
  · cases h
    intro i entry hentry
    simp at hentry

/-- What a slot could name before an allocation, it can name afterwards. -/
theorem CanName.add {target : Option ObjectRef} (h : heap.CanName target) (entry : HeapObject) :
    (heap.add entry).CanName target := by
  intro named hnamed
  obtain ⟨hlt, hmax⟩ := h named hnamed
  refine ⟨?_, hmax⟩
  rw [Allocated, objects_add, Array.size_push]
  exact Nat.lt_succ_of_lt hlt

/-- The reference slots of a new object name nothing. -/
theorem Intact.add (h : heap.Intact) (hsound : heap.Sound) (hplaces : heap.Places entry) :
    (heap.add entry).Intact := by
  intro i other hother offset hoffset
  have hend := (((hsound.add hplaces).houses hother).word_end_le hoffset)
  rcases getElem?_objects_add hother with ⟨-, rfl⟩ | hother
  · -- the words of the new object are among its zero bytes
    refine ⟨none, by simp [CanName], ?_⟩
    rw [word, HeapObject.wordExtent, hplaces.bytesAt_add hsound hend,
      ofLittleEndian_replicate_zero]
    rfl
  · obtain ⟨target, htarget, hword⟩ := h hother offset hoffset
    refine ⟨target, htarget.add entry, ?_⟩
    rw [word, HeapObject.wordExtent, hsound.bytesAt_add hplaces hother hend]
    exact hword

/-- A write into raw storage reaches no word. -/
theorem Intact.put_raw (h : heap.Intact) (hsound : heap.Sound) {i : Nat}
    (hentry : heap.objects[i]? = some entry) (hslot : slot ∈ entry.layout.slots)
    (hraw : slot.kind.isRaw = true) {start : Nat} {bytes : List UInt8}
    (hle : start + bytes.length ≤ slot.size) :
    (heap.put ((entry.place.shift slot.offset).shift start) bytes).Intact := by
  intro j other hother offset hoffset
  obtain ⟨target, htarget, hword⟩ := h hother offset hoffset
  refine ⟨target, htarget, ?_⟩
  rw [hsound.word_put_raw hentry hother hslot hraw hoffset hle]
  exact hword

/-- A number that fits in a word is read back as it was written. -/
theorem CanName.ofLittleEndian_eq {target : Option ObjectRef} (h : heap.CanName target) :
    ofLittleEndian (littleEndian heap.platform.wordBytes (ObjectRef.rawOf target)) =
      ObjectRef.rawOf target := by
  have hle : ObjectRef.rawOf target ≤ heap.platform.maxWord := by
    rcases target with _ | target
    · exact Nat.zero_le _
    · exact (h target rfl).2
  rw [ofLittleEndian_littleEndian, ← Platform.maxWord_succ,
    Nat.mod_eq_of_lt (Nat.lt_succ_of_le hle)]

theorem Intact.put_reference (h : heap.Intact) (hsound : heap.Sound) {i : Nat}
    (hentry : heap.objects[i]? = some entry) (hslot : slot ∈ entry.layout.slots)
    (hkind : slot.kind = .reference) {target : Option ObjectRef} (htarget : heap.CanName target) :
    (heap.put ((entry.place.shift slot.offset).shift 0)
      (littleEndian heap.platform.wordBytes (ObjectRef.rawOf target))).Intact := by
  intro j other hother offset hoffset
  have hlength := (hsound.houses hentry).length_littleEndian hslot hkind (ObjectRef.rawOf target)
  rw [hsound.word_put_reference hentry hother hslot hkind hoffset hlength]
  split
  · exact ⟨target, htarget, htarget.ofLittleEndian_eq⟩
  · exact h hother offset hoffset

theorem Effect.intact {call : HeapCall} {result : Except HeapError (Option ObjectRef)}
    (heffect : heap.Effect call result next) (hsound : heap.Sound) (h : heap.Intact) :
    next.Intact := by
  cases heffect with
  | refused _ => exact h
  | allocated hplaces => exact h.add hsound hplaces
  | written hentry hslot _ hraw hle => exact h.put_raw hsound hentry hslot hraw hle
  | filled hentry hslot _ hraw => exact h.put_raw hsound hentry hslot hraw (by simp)
  | referred hentry hslot _ hkind htarget => exact h.put_reference hsound hentry hslot hkind htarget

/-- No reference slot of a heap in use dangles. -/
theorem Reachable.intact {config : HeapConfig} {platform : Platform}
    (h : heap.Reachable config platform) : heap.Intact := by
  induction h with
  | create hcreate => exact intact_create hcreate
  | perform hheap call ih => exact (hheap.sound.1.effect call).intact hheap.sound.1 ih

/-- The number of a target that can be named stands for it. -/
theorem CanName.decode_eq {target : Option ObjectRef} (h : heap.CanName target) :
    heap.decode (ObjectRef.rawOf target) = .ok target := by
  rw [decode, ObjectRef.ofRaw?_rawOf]
  rcases target with _ | target
  · rfl
  · exact if_pos (h target rfl).1

/-- In a heap in use every reference word is nought or the number of an allocated object that fits
in a word, whatever was written into raw slots, and reading a reference slot gives just that object.
-/
theorem Reachable.reference_words {config : HeapConfig} {platform : Platform}
    (h : heap.Reachable config platform) (hobject : heap.object object = .ok entry) :
    (∀ offset ∈ entry.layout.scanMap, ∃ word, heap.wordAt object offset = .ok word ∧
      (word = 0 ∨ ∃ target, heap.Allocated target ∧ word = target.raw ∧
        word ≤ platform.maxWord)) ∧
    ∀ slot ∈ entry.layout.slots, slot.kind = .reference → ∃ target,
      heap.reference object slot.name = .ok target ∧
        heap.wordAt object slot.offset = .ok (ObjectRef.rawOf target) := by
  obtain ⟨hsound, hplatform⟩ := h.sound
  have hentry := object_eq_ok_iff.1 hobject
  constructor
  · intro offset hoffset
    obtain ⟨target, htarget, hword⟩ := h.intact hentry offset hoffset
    refine ⟨heap.word entry offset, hsound.wordAt_eq hentry hoffset, ?_⟩
    rcases target with _ | target
    · exact Or.inl hword
    · obtain ⟨hallocated, hmax⟩ := htarget target rfl
      refine Or.inr ⟨target, hallocated, hword, ?_⟩
      rw [hword, ← hplatform]
      exact hmax
  · intro slot hslot hkind
    have hoffset := (hsound.houses hentry).wellPlaced.mem_scanMap.2 ⟨slot, hslot, hkind, rfl⟩
    obtain ⟨target, htarget, hword⟩ := h.intact hentry slot.offset hoffset
    refine ⟨target, ?_, ?_⟩
    · rw [hsound.reference_eq hentry hslot hkind, hword]
      exact htarget.decode_eq
    · rw [hsound.wordAt_eq hentry hoffset, hword]

/-- The word of the first node is the number of the second, and that is what its slot gives. -/
theorem reference_words_ring :
    ring.Reachable ⟨1024, 2⟩ .bits16 ∧ ring.object ⟨0⟩ = .ok ⟨.node, ⟨0, 0⟩, 4⟩ ∧
      ring.wordAt ⟨0⟩ 2 = .ok 2 ∧
      (∃ target, ring.Allocated target ∧ 2 = target.raw ∧ 2 ≤ Platform.bits16.maxWord) ∧
      ring.reference ⟨0⟩ "next" = .ok (some ⟨1⟩) := by
  obtain ⟨hwords, hslots⟩ := reachable_ring.reference_words object_ring
  obtain ⟨word, hword, hnumber⟩ := hwords 2 List.mem_cons_self
  obtain rfl : 2 = word := Except.ok.inj (wordAt_ring.symm.trans hword)
  obtain ⟨target, htarget, hraw⟩ := hslots ⟨"next", .reference, 2, 2⟩
    (List.mem_cons_of_mem _ List.mem_cons_self) rfl
  have hname : 2 = ObjectRef.rawOf target := Except.ok.inj (wordAt_ring.symm.trans hraw)
  rw [← ObjectRef.ofRaw?_rawOf target, ← hname] at htarget
  exact ⟨reachable_ring, object_ring, wordAt_ring, hnumber.resolve_left (by decide), htarget⟩

end Heap

end UnboxedRecords
