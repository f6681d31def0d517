import UnboxedRecords.Proofs.Heap.Isolation
import UnboxedRecords.Proofs.Heap.References

/-!
# Setting and reading references

A reference is stored as the low bytes of a number and read as a number of so many bytes, so what is
read back is what was stored only if nothing was cut off.  That is what the check against the width
of a word is for: it lets through just the targets that `Heap.CanName` describes.

`Heap.Names` says that a reference slot holds a target.  It is so once the target has been set
(`Heap.Names.set`), and no call but another one that sets the same slot can change it
(`Heap.Effect.names`).  So the target is what every later read gives
(`Heap.Reachable.references_round_trip`).
-/

namespace UnboxedRecords

namespace Heap

/-- The reference slot `slot` of `object` holds the number of `target`, and it stands for it. -/
structure Names (heap : Heap) (object : ObjectRef) (entry : HeapObject) (slot : Slot)
    (target : Option ObjectRef) : Prop where
  entry_eq : heap.objects[object.index]? = some entry
  mem : slot ∈ entry.layout.slots
  kind_eq : slot.kind = .reference
  word_eq : heap.word entry slot.offset = ObjectRef.rawOf target
  canName : heap.CanName target

variable {heap next : Heap} {object : ObjectRef} {entry : HeapObject} {slot : Slot}
  {target : Option ObjectRef}

/-- What a slot can name is encoded as its number. -/
theorem CanName.encode_eq (h : heap.CanName target) :
    heap.encode target = .ok (ObjectRef.rawOf target) := by
  rcases target with _ | named
  · rfl
  · obtain ⟨hallocated, hmax⟩ := h named rfl
    rw [encode, object_eq_ok_iff.2 (Array.getElem?_eq_getElem hallocated)]
    exact if_neg (Nat.not_lt.2 hmax)

/-- A reference is set exactly if there is such a slot and the slot can name the target. -/
theorem Sound.setReference_ok_iff (h : heap.Sound) {name : String} :
    (heap.setReference object name target).result = .ok () ↔
      (∃ entry slot, heap.objects[object.index]? = some entry ∧ slot ∈ entry.layout.slots ∧
        slot.name = name ∧ slot.kind = .reference) ∧ heap.CanName target := by
  constructor
  · intro hok
    have heffect := h.setReference_effect object name target
    rw [hok] at heffect
    generalize (heap.setReference object name target).state = next at heffect
    cases heffect with
    | referred hentry hslot hname hkind htarget =>
      exact ⟨⟨_, _, hentry, hslot, hname, hkind⟩, htarget⟩
  · rintro ⟨⟨entry, slot, hentry, hslot, rfl, hkind⟩, htarget⟩
    rw [h.setReference_eq hentry hslot hkind htarget.encode_eq]
    rfl

namespace Names

theorem reference_eq (h : heap.Names object entry slot target) (hsound : heap.Sound) :
    heap.reference object slot.name = .ok target := by
  rw [hsound.reference_eq h.entry_eq h.mem h.kind_eq, h.word_eq]
  exact h.canName.decode_eq

/-- A slot names the target to which it was set. -/
theorem set (hsound : heap.Sound) (hentry : heap.objects[object.index]? = some entry)
    (hslot : slot ∈ entry.layout.slots) (hkind : slot.kind = .reference)
    (htarget : heap.CanName target) :
    (heap.put ((entry.place.shift slot.offset).shift 0)
      (littleEndian heap.platform.wordBytes (ObjectRef.rawOf target))).Names object entry slot
        target where
  entry_eq := hentry
  mem := hslot
  kind_eq := hkind
  word_eq := by
    have hoffset := (hsound.houses hentry).wellPlaced.mem_scanMap.2 ⟨slot, hslot, hkind, rfl⟩
    have hlength := (hsound.houses hentry).length_littleEndian hslot hkind (ObjectRef.rawOf target)
    rw [hsound.word_put_reference hentry hentry hslot hkind hoffset hlength, if_pos ⟨rfl, rfl⟩]
    exact htarget.ofLittleEndian_eq
  canName := htarget

/-- An allocation changes no earlier reference, and only adds to what can be named. -/
theorem add (h : heap.Names object entry slot target) (hsound : heap.Sound) {new : HeapObject}
    (hplaces : heap.Places new) : (heap.add new).Names object entry slot target where
  entry_eq := by
    obtain ⟨hlt, -⟩ := Array.getElem?_eq_some_iff.1 h.entry_eq
    rw [heap.getElem?_objects_add_of_lt new hlt, h.entry_eq]
  mem := h.mem
  kind_eq := h.kind_eq
  word_eq := by
    have hhouses := hsound.houses h.entry_eq
    have hoffset := hhouses.wellPlaced.mem_scanMap.2 ⟨slot, h.mem, h.kind_eq, rfl⟩
    have hend := hhouses.word_end_le hoffset
    rw [word, HeapObject.wordExtent, hsound.bytesAt_add hplaces h.entry_eq hend]
    exact h.word_eq
  canName := h.canName.add new

/-- A write into another slot changes no reference. -/
theorem put (h : heap.Names object entry slot target) (hsound : heap.Sound) {i : Nat}
    {other : HeapObject} {written : Slot} (hother : heap.objects[i]? = some other)
    (hwritten : written ∈ other.layout.slots) (hne : i ≠ object.index ∨ written ≠ slot)
    {start : Nat} {bytes : List UInt8} (hle : start + bytes.length ≤ written.size) :
    (heap.put ((other.place.shift written.offset).shift start) bytes).Names object entry slot
      target where
  entry_eq := h.entry_eq
  mem := h.mem
  kind_eq := h.kind_eq
  word_eq := (hsound.word_put hother h.entry_eq hwritten h.mem h.kind_eq hne hle).trans h.word_eq
  canName := h.canName

end Names

/-- No effect but that of setting the slot anew changes what it names. -/
theorem Effect.names {call : HeapCall} {result : Except HeapError (Option ObjectRef)}
    (heffect : heap.Effect call result next) (hsound : heap.Sound)
    (h : heap.Names object entry slot target)
    (hcall : ∀ other, call ≠ .setReference object slot.name other) :
    next.Names object entry slot target := by
  have hraw : ∀ written : Slot, written.kind.isRaw = true → written ≠ slot := by
    rintro written hraw rfl
    rw [h.kind_eq] at hraw
    cases hraw
  cases heffect with
  | refused _ => exact h
  | allocated hplaces => exact h.add hsound hplaces
  | @written _ _ _ written _ _ hentry hslot _ hisRaw hle =>
    exact h.put hsound hentry hslot (Or.inr (hraw written hisRaw)) hle
  | @filled _ _ _ written _ hentry hslot _ hisRaw =>
    exact h.put hsound hentry hslot (Or.inr (hraw written hisRaw)) (by simp)
  | @referred changed _ _ written other hentry hslot hname hkind _ =>
    have hlength := (hsound.houses hentry).length_littleEndian hslot hkind (ObjectRef.rawOf other)
    refine h.put hsound hentry hslot ?_ (by omega)
    -- the two slots are of two objects, or go by two names
    by_contra hsame
    rw [not_or, not_not, not_not] at hsame
    obtain ⟨hindex, rfl⟩ := hsame
    obtain rfl := ObjectRef.ext hindex
    exact hcall other (by rw [hname])

/-- A run in which the slot is not set anew does not change what it names. -/
theorem Names.after (h : heap.Names object entry slot target) (hsound : heap.Sound)
    {calls : List HeapCall}
    (hcalls : ∀ call ∈ calls, ∀ other, call ≠ .setReference object slot.name other) :
    (heap.after calls).Sound ∧ (heap.after calls).Names object entry slot target := by
  induction calls generalizing heap with
  | nil => exact ⟨hsound, h⟩
  | cons call calls ih =>
    rw [List.forall_mem_cons] at hcalls
    exact ih ((hsound.effect call).names hsound h hcalls.1) (hsound.perform call) hcalls.2

/-- From every heap in use, a reference can be set exactly if the object is allocated and has a
reference slot of that name, and the target is none or an allocated object whose number is one that
a word can hold.  Then reading the slot gives just this target, at once and after any later calls,
until the slot is set again. -/
theorem Reachable.references_round_trip {config : HeapConfig} {platform : Platform}
    (h : heap.Reachable config platform) (object : ObjectRef) (name : String)
    (target : Option ObjectRef) :
    ((heap.setReference object name target).result = .ok () ↔
      (∃ entry slot, heap.object object = .ok entry ∧ slot ∈ entry.layout.slots ∧
        slot.name = name ∧ slot.kind = .reference) ∧
      ∀ named, target = some named →
        heap.Allocated named ∧ named.raw ≤ 1 <<< (8 * platform.wordBytes) - 1) ∧
    ((heap.setReference object name target).result = .ok () →
      ∀ calls : List HeapCall, (∀ call ∈ calls, ∀ other, call ≠ .setReference object name other) →
        ((heap.setReference object name target).state.after calls).reference object name =
          .ok target) := by
  obtain ⟨hsound, rfl⟩ := h.sound
  refine ⟨?_, fun hok calls hcalls => ?_⟩
  · simp only [object_eq_ok_iff]
    exact hsound.setReference_ok_iff
  · obtain ⟨⟨entry, slot, hentry, hslot, rfl, hkind⟩, htarget⟩ := hsound.setReference_ok_iff.1 hok
    have hset := Names.set hsound hentry hslot hkind htarget
    rw [hsound.setReference_eq hentry hslot hkind htarget.encode_eq, Outcome.state_ok]
    obtain ⟨hsound', hnames⟩ := hset.after (hsound.put _ _) hcalls
    exact hnames.reference_eq hsound'

/-- Calls that leave the reference of the first node alone, one of them refused. -/
def callsAround : List HeapCall :=
  [.alloc .node RecordLayout.built_node, .fillRaw ⟨0⟩ "tag" 255, .setReference ⟨1⟩ "next" none,
    .setReference ⟨0⟩ "last" none]

set_option maxRecDepth 10000 in
theorem references_round_trip_ring :
    ring.Reachable ⟨1024, 2⟩ .bits16 ∧
      (ring.setReference ⟨0⟩ "next" (some ⟨0⟩)).result = .ok () ∧
      (∀ call ∈ callsAround, ∀ other, call ≠ .setReference ⟨0⟩ "next" other) ∧
      ((ring.setReference ⟨0⟩ "next" (some ⟨0⟩)).state.after callsAround).reference ⟨0⟩ "next" =
        .ok (some ⟨0⟩) ∧
      ¬ (ring.setReference ⟨0⟩ "next" (some ⟨2⟩)).result = .ok () := by
  have hok : (ring.setReference ⟨0⟩ "next" (some ⟨0⟩)).result = .ok () := rfl
  have hothers : ∀ call ∈ callsAround, ∀ other, call ≠ .setReference ⟨0⟩ "next" other := by
    simp [callsAround]
  refine ⟨reachable_ring, hok, hothers,
    (reachable_ring.references_round_trip ⟨0⟩ "next" (some ⟨0⟩)).2 hok _ hothers, fun hok' => ?_⟩
  -- there is no third node
  have htarget := ((reachable_ring.references_round_trip ⟨0⟩ "next" (some ⟨2⟩)).1.1 hok').2 ⟨2⟩ rfl
  have hlt := htarget.1
  rw [Allocated, size_ring] at hlt
  exact absurd hlt (by decide)

end Heap

end UnboxedRecords
