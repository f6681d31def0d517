import UnboxedRecords.Proofs.Heap.Geometry

/-!
# What a call does

`Heap.Effect` lists all that a call can do to a heap: nothing, when it is refused, or else one more
object on fresh zero bytes, some bytes of one raw slot, or the word of one reference slot.  Every
call on a sound heap has one of these effects (`Heap.Sound.effect`), and every effect keeps the heap
sound, so that every heap in use is sound (`Heap.Reachable.sound`).

Slots that a call does not speak of keep their bytes, be the call a write (`Heap.Sound.bytesAt_put`)
or an allocation (`Heap.Sound.bytesAt_add`).
-/

namespace UnboxedRecords

/-- Whether an error reports that the heap itself went wrong: that a step towards some bytes left
the memory or did not fit in its numbers, or that a scan was led into raw storage. -/
def HeapError.isFault : HeapError → Bool
  | .fault _ | .opaqueReference _ => true
  | _ => false

namespace Heap

/-- The heap with `bytes` at a place. -/
def put (heap : Heap) (place : Position) (bytes : List UInt8) : Heap :=
  { heap with arena := heap.arena.put place bytes }

/-- The heap with one more object, for which memory was given out. -/
def add (heap : Heap) (object : HeapObject) : Heap where
  platform := heap.platform
  arena := (heap.arena.alloc object.layout.size object.layout.alignment).state
  objects := heap.objects.push object

/-- There is memory at the place of a new object. -/
structure Places (heap : Heap) (object : HeapObject) : Prop where
  built : object.layout.Built
  platform_eq : object.layout.platform = heap.platform
  size_eq : object.size = object.layout.size
  result_eq : (heap.arena.alloc object.layout.size object.layout.alignment).result =
    .ok object.place

/-- The heap allocated the object. -/
def Allocated (heap : Heap) (object : ObjectRef) : Prop := object.index < heap.objects.size

instance (heap : Heap) (object : ObjectRef) : Decidable (heap.Allocated object) :=
  inferInstanceAs (Decidable (_ < _))

/-- A reference slot can name the target: its object is allocated, and its number fits in a word. -/
def CanName (heap : Heap) (target : Option ObjectRef) : Prop :=
  ∀ object ∈ target, heap.Allocated object ∧ object.raw ≤ heap.platform.maxWord

/-- The effects of calls, with their results. -/
inductive Effect (heap : Heap) : HeapCall → Except HeapError (Option ObjectRef) → Heap → Prop
  | refused {call : HeapCall} {error : HeapError} (hfault : error.isFault = false) :
      Effect heap call (.error error) heap
  | allocated {layout : RecordLayout} {built : layout.Built} {place : Position}
      (hplaces : heap.Places ⟨layout, place, layout.size⟩) :
      Effect heap (.alloc layout built) (.ok (some ⟨heap.objects.size⟩))
        (heap.add ⟨layout, place, layout.size⟩)
  | written {object : ObjectRef} {name : String} {entry : HeapObject} {slot : Slot} {start : Nat}
      {bytes : List UInt8} (hentry : heap.objects[object.index]? = some entry)
      (hslot : slot ∈ entry.layout.slots) (hname : slot.name = name)
      (hraw : slot.kind.isRaw = true) (hle : start + bytes.length ≤ slot.size) :
      Effect heap (.writeRaw object name start bytes) (.ok none)
        (heap.put ((entry.place.shift slot.offset).shift start) bytes)
  | filled {object : ObjectRef} {name : String} {entry : HeapObject} {slot : Slot} {byte : UInt8}
      (hentry : heap.objects[object.index]? = some entry) (hslot : slot ∈ entry.layout.slots)
      (hname : slot.name = name) (hraw : slot.kind.isRaw = true) :
      Effect heap (.fillRaw object name byte) (.ok none)
        (heap.put ((entry.place.shift slot.offset).shift 0) (List.replicate slot.size byte))
  | referred {object : ObjectRef} {name : String} {entry : HeapObject} {slot : Slot}
      {target : Option ObjectRef} (hentry : heap.objects[object.index]? = some entry)
      (hslot : slot ∈ entry.layout.slots) (hname : slot.name = name)
      (hkind : slot.kind = .reference) (htarget : heap.CanName target) :
      Effect heap (.setReference object name target) (.ok none)
        (heap.put ((entry.place.shift slot.offset).shift 0)
          (littleEndian heap.platform.wordBytes (ObjectRef.rawOf target)))

variable {heap next : Heap} {entry : HeapObject} {slot : Slot} {object : ObjectRef}

@[simp] theorem objects_put (heap : Heap) (place : Position) (bytes : List UInt8) :
    (heap.put place bytes).objects = heap.objects := rfl

@[simp] theorem objects_add (heap : Heap) (entry : HeapObject) :
    (heap.add entry).objects = heap.objects.push entry := rfl

/-- An index of the heap with one more object is that of the new object or of an old one. -/
theorem getElem?_objects_add {i : Nat} {other : HeapObject}
    (h : (heap.add entry).objects[i]? = some other) :
    i = heap.objects.size ∧ other = entry ∨ heap.objects[i]? = some other := by
  rw [objects_add, Array.getElem?_push] at h
  split at h
  · next hi =>
    cases h
    exact Or.inl ⟨hi, rfl⟩
  · exact Or.inr h

/-! ## Finding slots -/

theorem object_cases (heap : Heap) (object : ObjectRef) :
    (∃ error, heap.object object = .error error ∧ error.isFault = false) ∨
      ∃ entry, heap.objects[object.index]? = some entry ∧ heap.object object = .ok entry := by
  rcases hobject : heap.object object with error | entry
  · exact Or.inl ⟨error, rfl, by rw [object_eq_error hobject]; rfl⟩
  · exact Or.inr ⟨entry, object_eq_ok_iff.1 hobject, rfl⟩

theorem Houses.slot_cases (h : heap.Houses entry) (name : String) :
    (∃ error, entry.slot name = .error error ∧ error.isFault = false) ∨
      ∃ slot ∈ entry.layout.slots, slot.name = name ∧ entry.slot name = .ok slot := by
  rw [HeapObject.slot]
  rcases hfind : entry.layout.slot? name with _ | slot
  · exact Or.inl ⟨_, rfl, rfl⟩
  · obtain ⟨hslot, hname⟩ := h.wellPlaced.slot?_eq_some_iff.1 hfind
    exact Or.inr ⟨slot, hslot, hname, rfl⟩

namespace Sound

/-- A raw slot has its place, and where there is none the heap is not to blame. -/
theorem rawPlace_cases (h : heap.Sound) (object : ObjectRef) (name : String) :
    (∃ error, heap.rawPlace object name = .error error ∧ error.isFault = false) ∨
      ∃ entry slot, heap.objects[object.index]? = some entry ∧ slot ∈ entry.layout.slots ∧
        slot.name = name ∧ slot.kind.isRaw = true ∧
        heap.rawPlace object name = .ok (entry.place.shift slot.offset, slot.size) := by
  rcases heap.object_cases object with ⟨error, herror, hfault⟩ | ⟨entry, hentry, hobject⟩
  · exact Or.inl ⟨error, by rw [rawPlace, herror, error_bind], hfault⟩
  · rcases (h.houses hentry).slot_cases name with
      ⟨error, herror, hfault⟩ | ⟨slot, hslot, rfl, hfind⟩
    · exact Or.inl ⟨error, by rw [rawPlace, hobject, ok_bind, herror, error_bind], hfault⟩
    · by_cases hraw : slot.kind.isRaw = true
      · exact Or.inr ⟨entry, slot, hentry, hslot, rfl, hraw, h.rawPlace_eq hentry hslot hraw⟩
      · refine Or.inl ⟨.notRaw slot.name, ?_, rfl⟩
        rw [rawPlace, hobject, ok_bind, hfind, ok_bind, if_neg hraw]
        rfl

theorem referencePlace_cases (h : heap.Sound) (object : ObjectRef) (name : String) :
    (∃ error, heap.referencePlace object name = .error error ∧ error.isFault = false) ∨
      ∃ entry slot, heap.objects[object.index]? = some entry ∧ slot ∈ entry.layout.slots ∧
        slot.name = name ∧ slot.kind = .reference ∧
        heap.referencePlace object name = .ok (entry.place.shift slot.offset) := by
  rcases heap.object_cases object with ⟨error, herror, hfault⟩ | ⟨entry, hentry, hobject⟩
  · exact Or.inl ⟨error, by rw [referencePlace, herror, error_bind], hfault⟩
  · rcases (h.houses hentry).slot_cases name with
      ⟨error, herror, hfault⟩ | ⟨slot, hslot, rfl, hfind⟩
    · exact Or.inl ⟨error, by rw [referencePlace, hobject, ok_bind, herror, error_bind], hfault⟩
    · by_cases hkind : slot.kind = .reference
      · exact Or.inr
          ⟨entry, slot, hentry, hslot, rfl, hkind, h.referencePlace_eq hentry hslot hkind⟩
      · refine Or.inl ⟨.notReference slot.name, ?_, rfl⟩
        rw [referencePlace, hobject, ok_bind, hfind, ok_bind, if_neg hkind]
        rfl

end Sound

/-! ## Every call has an effect -/

theorem encode_cases (heap : Heap) (target : Option ObjectRef) :
    (∃ error, heap.encode target = .error error ∧ error.isFault = false) ∨
      heap.CanName target ∧ heap.encode target = .ok (ObjectRef.rawOf target) := by
  rcases target with _ | target
  · exact Or.inr ⟨by simp [CanName], rfl⟩
  · rw [encode]
    rcases heap.object_cases target with ⟨error, herror, hfault⟩ | ⟨entry, hentry, hobject⟩
    · exact Or.inl ⟨error, by rw [herror], hfault⟩
    · rw [hobject]
      dsimp only
      split
      · exact Or.inl ⟨_, rfl, rfl⟩
      · next hmax =>
        refine Or.inr ⟨?_, rfl⟩
        rintro other ⟨⟩
        exact ⟨(Array.getElem?_eq_some_iff.1 hentry).1, Nat.le_of_not_lt hmax⟩

/-- A number is written into all of a reference slot. -/
theorem Houses.length_littleEndian (h : heap.Houses entry) (hslot : slot ∈ entry.layout.slots)
    (hkind : slot.kind = .reference) (raw : Nat) :
    (littleEndian heap.platform.wordBytes raw).length = slot.size := by
  rw [UnboxedRecords.length_littleEndian, (h.wellPlaced.slots.words slot hslot hkind).1,
    h.platform_eq]

/-- Covered bytes are written. -/
theorem write_eq {place : Position} {bytes : List UInt8}
    (h : heap.arena.Covers ⟨place, bytes.length⟩) :
    heap.write place bytes = .ok (heap.put place bytes) () := by
  obtain ⟨platform, arena, objects⟩ := heap
  rw [write]
  dsimp only at h ⊢
  rw [Arena.write_eq h]
  rfl

/-- How an allocation ends depends on the arena and the number of objects alone. -/
theorem result_alloc (heap : Heap) (layout : RecordLayout) :
    (heap.alloc layout).result =
      if layout.platform ≠ heap.platform then
        .error (.platformMismatch layout.name heap.platform.wordBytes layout.platform.wordBytes)
      else if !heap.admits layout then .error (.capacityExceeded layout.size maxEntry)
      else
        ((heap.arena.alloc layout.size layout.alignment).result.mapError .ofMemory).map
          fun _ => ⟨heap.objects.size⟩ := by
  obtain ⟨platform, arena, objects⟩ := heap
  rw [alloc]
  split
  · rfl
  · split
    · rfl
    · dsimp only
      rcases (arena.alloc layout.size layout.alignment).result with error | place
      · rfl
      · rfl

namespace Sound

/-- Bytes inside a slot are bytes of the memory. -/
theorem covers_part (h : heap.Sound) {i : Nat} (hentry : heap.objects[i]? = some entry)
    (hslot : slot ∈ entry.layout.slots) {start length : Nat} (hle : start + length ≤ slot.size) :
    heap.arena.Covers ⟨(entry.place.shift slot.offset).shift start, length⟩ :=
  (h.covers_slot hentry hslot).part hle

theorem alloc_effect (h : heap.Sound) (layout : RecordLayout) (built : layout.Built) :
    heap.Effect (.alloc layout built) ((heap.alloc layout).result.map some)
      (heap.alloc layout).state := by
  obtain ⟨platform, arena, objects⟩ := heap
  have hcases := h.arena.alloc_cases built.wellPlaced.slots.powerOfTwo layout.size
  rw [alloc]
  split
  · exact .refused rfl
  · next hplatform =>
    split
    · exact .refused rfl
    · dsimp only at hcases ⊢
      rcases hplace : (arena.alloc layout.size layout.alignment).result with error | place
      · rw [hplace] at hcases
        dsimp only
        -- the arena can only be short of room; of a fault there is no case
        rw [Arena.state_alloc_of_error hplace]
        generalize (arena.alloc layout.size layout.alignment).state = left at hcases
        cases hcases with
        | tooLarge _ => exact .refused rfl
        | full _ _ _ _ => exact .refused rfl
      · have hplaces : Places ⟨platform, arena, objects⟩ ⟨layout, place, layout.size⟩ :=
          ⟨built, Decidable.not_not.1 hplatform, rfl, hplace⟩
        exact .allocated hplaces

/-- Bytes that end inside a raw slot are written there, and others are refused. -/
theorem writeRaw_eq (h : heap.Sound) (hentry : heap.objects[object.index]? = some entry)
    (hslot : slot ∈ entry.layout.slots) (hraw : slot.kind.isRaw = true) (start : Nat)
    (bytes : List UInt8) :
    heap.writeRaw object slot.name start bytes =
      if start + bytes.length ≤ slot.size then
        .ok (heap.put ((entry.place.shift slot.offset).shift start) bytes) ()
      else .fail heap (.outsideSlot slot.name slot.size) := by
  have hfault := Arena.fault?_eq_none (h.covers_slot hentry hslot)
  rw [writeRaw, h.rawPlace_eq hentry hslot hraw]
  dsimp only
  -- the slot as a whole is looked up before the bytes are measured
  rw [show heap.arena.fault? (entry.place.shift slot.offset) slot.size = none from hfault]
  dsimp only
  split
  · next hle => exact write_eq (h.covers_part hentry hslot hle)
  · rfl

theorem fillRaw_eq (h : heap.Sound) (hentry : heap.objects[object.index]? = some entry)
    (hslot : slot ∈ entry.layout.slots) (hraw : slot.kind.isRaw = true) (byte : UInt8) :
    heap.fillRaw object slot.name byte =
      .ok (heap.put ((entry.place.shift slot.offset).shift 0)
        (List.replicate slot.size byte)) () := by
  have hle : 0 + (List.replicate slot.size byte).length ≤ slot.size := by simp
  rw [fillRaw, h.rawPlace_eq hentry hslot hraw]
  exact write_eq (h.covers_part hentry hslot hle)

/-- What a reference slot can name is written into all of it. -/
theorem setReference_eq (h : heap.Sound) (hentry : heap.objects[object.index]? = some entry)
    (hslot : slot ∈ entry.layout.slots) (hkind : slot.kind = .reference)
    {target : Option ObjectRef} (hencode : heap.encode target = .ok (ObjectRef.rawOf target)) :
    heap.setReference object slot.name target =
      .ok (heap.put ((entry.place.shift slot.offset).shift 0)
        (littleEndian heap.platform.wordBytes (ObjectRef.rawOf target))) () := by
  have hlength := (h.houses hentry).length_littleEndian hslot hkind (ObjectRef.rawOf target)
  have hle : 0 + (littleEndian heap.platform.wordBytes (ObjectRef.rawOf target)).length ≤
      slot.size := by omega
  rw [setReference, hencode, h.referencePlace_eq hentry hslot hkind]
  exact write_eq (h.covers_part hentry hslot hle)

theorem writeRaw_effect (h : heap.Sound) (object : ObjectRef) (name : String) (start : Nat)
    (bytes : List UInt8) :
    heap.Effect (.writeRaw object name start bytes)
      ((heap.writeRaw object name start bytes).result.map fun _ => none)
      (heap.writeRaw object name start bytes).state := by
  rcases h.rawPlace_cases object name with
    ⟨error, herror, hfault⟩ | ⟨entry, slot, hentry, hslot, rfl, hraw, -⟩
  · rw [writeRaw, herror]
    exact .refused hfault
  · rw [h.writeRaw_eq hentry hslot hraw]
    split
    · next hle => exact .written hentry hslot rfl hraw hle
    · exact .refused rfl

theorem fillRaw_effect (h : heap.Sound) (object : ObjectRef) (name : String) (byte : UInt8) :
    heap.Effect (.fillRaw object name byte)
      ((heap.fillRaw object name byte).result.map fun _ => none)
      (heap.fillRaw object name byte).state := by
  rcases h.rawPlace_cases object name with
    ⟨error, herror, hfault⟩ | ⟨entry, slot, hentry, hslot, rfl, hraw, -⟩
  · rw [fillRaw, herror]
    exact .refused hfault
  · rw [h.fillRaw_eq hentry hslot hraw]
    exact .filled hentry hslot rfl hraw

theorem setReference_effect (h : heap.Sound) (object : ObjectRef) (name : String)
    (target : Option ObjectRef) :
    heap.Effect (.setReference object name target)
      ((heap.setReference object name target).result.map fun _ => none)
      (heap.setReference object name target).state := by
  rcases heap.encode_cases target with ⟨error, herror, hfault⟩ | ⟨htarget, hencode⟩
  · rw [setReference, herror]
    exact .refused hfault
  · rcases h.referencePlace_cases object name with
      ⟨error, herror, hfault⟩ | ⟨entry, slot, hentry, hslot, rfl, hkind, -⟩
    · rw [setReference, hencode, herror]
      exact .refused hfault
    · rw [h.setReference_eq hentry hslot hkind hencode]
      exact .referred hentry hslot rfl hkind htarget

/-- A call on a sound heap is refused and changes nothing, or does what it says. -/
theorem effect (h : heap.Sound) (call : HeapCall) :
    heap.Effect call (heap.perform call).result (heap.perform call).state := by
  cases call with
  | alloc layout built => exact h.alloc_effect layout built
  | writeRaw object name start bytes => exact h.writeRaw_effect object name start bytes
  | fillRaw object name byte => exact h.fillRaw_effect object name byte
  | setReference object name target => exact h.setReference_effect object name target

end Sound

/-! ## Every effect keeps the heap sound -/

theorem Places.gives (hplaces : heap.Places entry) (h : heap.Sound) :
    heap.arena.Gives entry.layout.size entry.layout.alignment entry.place (heap.add entry).arena :=
  h.arena.gives_alloc hplaces.built.wellPlaced.slots.powerOfTwo hplaces.result_eq

/-- A new object lies apart from the old ones, since all their bytes were given out before. -/
theorem Places.disjoint (hplaces : heap.Places entry) (h : heap.Sound) {i : Nat}
    {other : HeapObject} (hother : heap.objects[i]? = some other) :
    other.extent.Disjoint entry.extent := by
  have hend := (h.houses hother).end_le
  have hfresh := (hplaces.gives h).fresh
  by_cases hsegment : other.place.segment = entry.place.segment
  · -- the old object ends where bytes were given out, and the new one starts behind them
    rw [hsegment] at hend
    exact Extent.disjoint_of_le (Nat.le_trans hend hfresh)
  · exact Extent.disjoint_of_segment_ne hsegment

theorem Sound.put (h : heap.Sound) (place : Position) (bytes : List UInt8) :
    (heap.put place bytes).Sound where
  arena := h.arena.put place bytes
  houses := by
    intro i entry hentry
    have hhouses := h.houses hentry
    exact ⟨hhouses.wellPlaced, hhouses.platform_eq, hhouses.size_eq,
      by simpa [Heap.put] using hhouses.segment_lt, by simpa [Heap.put] using hhouses.end_le,
      hhouses.aligned⟩
  disjoint := h.disjoint

theorem Sound.add (h : heap.Sound) (hplaces : heap.Places entry) : (heap.add entry).Sound where
  arena := (hplaces.gives h).wellFormed
  houses := by
    have hgives := hplaces.gives h
    intro i other hother
    rcases getElem?_objects_add hother with ⟨-, rfl⟩ | hother
    · refine ⟨hplaces.built.wellPlaced, hplaces.platform_eq, hplaces.size_eq, ?_, ?_,
        hgives.aligned⟩
      · rw [hgives.count_eq]
        exact Nat.lt_of_succ_le (Nat.le_max_right _ _)
      · exact Nat.le_of_eq hgives.used_eq.symm
    · have hhouses := h.houses hother
      refine ⟨hhouses.wellPlaced, hhouses.platform_eq, hhouses.size_eq, ?_, ?_, hhouses.aligned⟩
      · rw [hgives.count_eq]
        exact Nat.lt_of_lt_of_le hhouses.segment_lt (Nat.le_max_left _ _)
      · exact Nat.le_trans hhouses.end_le (hgives.used_le _)
  disjoint := by
    intro i j a b ha hb hne
    rcases getElem?_objects_add ha with ⟨hi, rfl⟩ | ha'
    · rcases getElem?_objects_add hb with ⟨hj, rfl⟩ | hb'
      · exact absurd (hi.trans hj.symm) hne
      · exact (hplaces.disjoint h hb').symm
    · rcases getElem?_objects_add hb with ⟨-, rfl⟩ | hb'
      · exact hplaces.disjoint h ha'
      · exact h.disjoint ha' hb' hne

theorem Effect.sound {call : HeapCall} {result : Except HeapError (Option ObjectRef)}
    (heffect : heap.Effect call result next) (h : heap.Sound) :
    next.Sound ∧ next.platform = heap.platform := by
  cases heffect with
  | refused _ => exact ⟨h, rfl⟩
  | allocated hplaces => exact ⟨h.add hplaces, rfl⟩
  | written _ _ _ _ _ => exact ⟨h.put _ _, rfl⟩
  | filled _ _ _ _ => exact ⟨h.put _ _, rfl⟩
  | referred _ _ _ _ _ => exact ⟨h.put _ _, rfl⟩

/-- No object is ever lost. -/
theorem Effect.size_le (heffect : heap.Effect call result next) :
    heap.objects.size ≤ next.objects.size := by
  cases heffect with
  | allocated _ =>
    rw [objects_add, Array.size_push]
    exact Nat.le_succ _
  | refused _ | written _ _ _ _ _ | filled _ _ _ _ | referred _ _ _ _ _ => exact Nat.le_refl _

theorem Effect.eq_of_error {call : HeapCall} {error : HeapError}
    (heffect : heap.Effect call (.error error) next) : next = heap := by
  cases heffect
  rfl

theorem Sound.perform (h : heap.Sound) (call : HeapCall) : (heap.perform call).state.Sound :=
  ((h.effect call).sound h).1

/-- Every heap in use is sound. -/
theorem Reachable.sound {config : HeapConfig} {platform : Platform}
    (h : heap.Reachable config platform) : heap.Sound ∧ heap.platform = platform := by
  induction h with
  | create hcreate => exact sound_create hcreate
  | perform _ call ih =>
    obtain ⟨hsound, hplatform⟩ := (ih.1.effect call).sound ih.1
    exact ⟨hsound, hplatform.trans ih.2⟩

/-! ## What stays -/

namespace Sound

/-- A write into one slot does not change the bytes of another. -/
theorem bytesAt_put (h : heap.Sound) {i j : Nat} {a b : HeapObject} {s t : Slot}
    (ha : heap.objects[i]? = some a) (hb : heap.objects[j]? = some b) (hs : s ∈ a.layout.slots)
    (ht : t ∈ b.layout.slots) (hne : i ≠ j ∨ s ≠ t) {start : Nat} {bytes : List UInt8}
    (hle : start + bytes.length ≤ s.size) :
    (heap.put ((a.place.shift s.offset).shift start) bytes).arena.bytesAt (b.slotExtent t) =
      heap.arena.bytesAt (b.slotExtent t) := by
  refine Arena.bytesAt_congr fun place hplace => Arena.byte?_put_of_not_mem fun hmem => ?_
  -- a byte that was written lies in the slot that was written, and so not in the other
  have hpart : place ∈ (a.slotExtent s).part start bytes.length := hmem
  exact h.slots_disjoint ha hb hs ht hne place (Extent.mem_of_mem_part hle hpart) hplace

/-- What is written into all of a slot is found there. -/
theorem bytesAt_put_self (h : heap.Sound) {i : Nat} (hentry : heap.objects[i]? = some entry)
    (hslot : slot ∈ entry.layout.slots) {bytes : List UInt8} (hlength : bytes.length = slot.size) :
    (heap.put ((entry.place.shift slot.offset).shift 0) bytes).arena.bytesAt
      (entry.slotExtent slot) = bytes := by
  have hextent : entry.slotExtent slot = ⟨entry.place.shift slot.offset, bytes.length⟩ := by
    rw [hlength]
    rfl
  have hcovers := h.covers_slot hentry hslot
  rw [hextent] at hcovers ⊢
  exact Arena.bytesAt_put hcovers

/-- A write into one slot does not change the word of another. -/
theorem word_put (h : heap.Sound) {i j : Nat} {a b : HeapObject} {s t : Slot}
    (ha : heap.objects[i]? = some a) (hb : heap.objects[j]? = some b) (hs : s ∈ a.layout.slots)
    (ht : t ∈ b.layout.slots) (hkind : t.kind = .reference) (hne : i ≠ j ∨ s ≠ t) {start : Nat}
    {bytes : List UInt8} (hle : start + bytes.length ≤ s.size) :
    (heap.put ((a.place.shift s.offset).shift start) bytes).word b t.offset =
      heap.word b t.offset := by
  rw [word, word, ← (h.houses hb).slotExtent_eq ht hkind, h.bytesAt_put ha hb hs ht hne hle]

/-- A write into raw storage changes no reference word. -/
theorem word_put_raw (h : heap.Sound) {i j : Nat} {other : HeapObject} {offset : Nat}
    (hentry : heap.objects[i]? = some entry) (hother : heap.objects[j]? = some other)
    (hslot : slot ∈ entry.layout.slots) (hraw : slot.kind.isRaw = true)
    (hoffset : offset ∈ other.layout.scanMap) {start : Nat} {bytes : List UInt8}
    (hle : start + bytes.length ≤ slot.size) :
    (heap.put ((entry.place.shift slot.offset).shift start) bytes).word other offset =
      heap.word other offset := by
  obtain ⟨t, ht, hkind, rfl⟩ := (h.houses hother).wellPlaced.mem_scanMap.1 hoffset
  have hne : slot ≠ t := by
    rintro rfl
    simp [hkind, SlotKind.isRaw] at hraw
  exact h.word_put hentry hother hslot ht hkind (Or.inr hne) hle

/-- A write into all of a reference slot changes its own word and no other. -/
theorem word_put_reference (h : heap.Sound) {i j : Nat} {other : HeapObject} {offset : Nat}
    (hentry : heap.objects[i]? = some entry) (hother : heap.objects[j]? = some other)
    (hslot : slot ∈ entry.layout.slots) (hkind : slot.kind = .reference)
    (hoffset : offset ∈ other.layout.scanMap) {bytes : List UInt8}
    (hlength : bytes.length = slot.size) :
    (heap.put ((entry.place.shift slot.offset).shift 0) bytes).word other offset =
      if i = j ∧ slot.offset = offset then ofLittleEndian bytes else heap.word other offset := by
  obtain ⟨t, ht, hkind', rfl⟩ := (h.houses hother).wellPlaced.mem_scanMap.1 hoffset
  split
  · next hsame =>
    obtain ⟨rfl, hstart⟩ := hsame
    obtain rfl : entry = other := Option.some.inj (hentry.symm.trans hother)
    obtain rfl := (h.houses hentry).wellPlaced.eq_of_offset_eq hslot ht hkind hkind' hstart
    rw [word, ← (h.houses hentry).slotExtent_eq hslot hkind,
      h.bytesAt_put_self hentry hslot hlength]
  · next hother' =>
    have hne : i ≠ j ∨ slot ≠ t := by
      rcases not_and_or.1 hother' with hne | hne
      · exact Or.inl hne
      · exact Or.inr fun heq => hne (congrArg Slot.offset heq)
    exact h.word_put hentry hother hslot ht hkind' hne (by omega)

/-- An allocation does not change the bytes of earlier objects. -/
theorem bytesAt_add (h : heap.Sound) (hplaces : heap.Places entry) {i : Nat} {other : HeapObject}
    (hother : heap.objects[i]? = some other) {skip length : Nat}
    (hle : skip + length ≤ other.layout.size) :
    (heap.add entry).arena.bytesAt (other.extent.part skip length) =
      heap.arena.bytesAt (other.extent.part skip length) := by
  refine Arena.bytesAt_congr fun place hplace => ?_
  have hsegment : place.segment = other.place.segment := hplace.1
  have hextent : place ∈ other.extent := Extent.mem_of_mem_part hle hplace
  refine (hplaces.gives h).keeps place ?_ fun hmem => hplaces.disjoint h hother place hextent hmem
  rw [hsegment]
  exact (h.houses hother).segment_lt

end Sound

/-- All bytes of a new object are zero. -/
theorem Places.bytesAt_add (hplaces : heap.Places entry) (h : heap.Sound) {skip length : Nat}
    (hle : skip + length ≤ entry.layout.size) :
    (heap.add entry).arena.bytesAt (entry.extent.part skip length) = List.replicate length 0 := by
  rw [Arena.bytesAt_part hle]
  rw [show (heap.add entry).arena.bytesAt entry.extent = List.replicate entry.layout.size 0 from
    (hplaces.gives h).zero]
  simp only [List.drop_replicate, List.take_replicate]
  rw [Nat.min_eq_left (by omega)]

end Heap

end UnboxedRecords
