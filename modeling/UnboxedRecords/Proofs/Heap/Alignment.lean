import UnboxedRecords.Proofs.Heap.Effects
import UnboxedRecords.Proofs.Record.Accepted
import UnboxedRecords.Proofs.UnboxedType.Alignment

/-!
# Alignment in memory

Four layers decide where a piece of raw storage ends up: its place in the type it was declared in,
the place of that type in the one around it, that of the slot in the record, and that of the record
in its segment.  The alignment asked for at each layer is a multiple of those asked for inside, so
that every slot of every object lies at a multiple of the alignment with which it was placed; and
where no type misaligns a field, every leaf lies at a multiple of its own
(`Heap.Reachable.slots_aligned`).
-/

namespace UnboxedRecords

/-- What a call asks of the position of its slot.  An embedded type passes its demand on to its
leaves, unless some field at some depth is misaligned in the type around it. -/
def SlotCall.AlignedAt (platform : Platform) (position : Nat) : SlotCall → Prop
  | .addReference _ => platform.wordBytes ∣ position
  | .embed _ type => type.Composed → type.alignment ∣ position ∧
      ((∀ inner : UnboxedType, inner.Within type → inner.misalignedFields = []) →
        ∀ leaf ∈ type.leaves, leaf.spec.alignment ∣ position + leaf.offset)
  | .placeRegion _ region => max region.alignment 1 ∣ position

/-- A multiple of the alignment of the call is a position that suits all of its slot. -/
theorem SlotCall.alignedAt_of_dvd {platform : Platform} {position : Nat} {call : SlotCall}
    (h : call.align platform ∣ position) : call.AlignedAt platform position := by
  cases call with
  | addReference name => exact h
  | placeRegion name region => exact h
  | embed name type =>
    intro hcomposed
    have halign : max type.alignment 1 = type.alignment :=
      Nat.max_eq_left hcomposed.packed.alignment_pos
    have hposition : type.alignment ∣ position := halign ▸ h
    refine ⟨hposition, fun haligned leaf hleaf => ?_⟩
    exact Nat.dvd_add (Nat.dvd_trans (hcomposed.leaf_alignment_dvd hleaf) hposition)
      (hcomposed.alignment_dvd_offset haligned (Nat.dvd_zero _) hleaf)

namespace Heap

variable {config : HeapConfig} {platform : Platform} {heap : Heap} {entry : HeapObject}

/-- The objects of a heap in use have layouts that some builder made. -/
theorem Reachable.built (h : heap.Reachable config platform) {i : Nat}
    (hentry : heap.objects[i]? = some entry) : entry.layout.Built := by
  induction h generalizing i entry with
  | create hcreate =>
    rw [Heap.create] at hcreate
    split at hcreate
    · cases hcreate
    · cases hcreate
      simp at hentry
  | @perform heap hheap call ih =>
    have heffect := hheap.sound.1.effect call
    generalize (heap.perform call).result = result at heffect
    generalize (heap.perform call).state = next at heffect hentry
    cases heffect with
    | refused _ => exact ih hentry
    | allocated hplaces =>
      rcases getElem?_objects_add hentry with ⟨-, rfl⟩ | hold
      · exact hplaces.built
      · exact ih hold
    | written _ _ _ _ _ => exact ih hentry
    | filled _ _ _ _ => exact ih hentry
    | referred _ _ _ _ _ => exact ih hentry

/-- In a heap in use, every object has a layout that some run of a builder made; and whatever run
that was, the slots of the layout are those of the calls that were accepted, and each of them lies
in its segment at a position that suits its call. -/
theorem Reachable.slots_aligned (h : heap.Reachable config platform) {object : ObjectRef}
    (hobject : heap.object object = .ok entry) :
    (∃ (name : String) (calls : List SlotCall),
      (({ name, platform } : RecordBuilder).after calls).build.result = .ok entry.layout) ∧
    ∀ (name : String) (calls : List SlotCall),
      (({ name, platform } : RecordBuilder).after calls).build.result = .ok entry.layout →
      entry.layout.slots = (({ name, platform } : RecordBuilder).accepted calls).map
        (fun (call, offset) => call.slot platform offset) ∧
      ∀ call offset, (call, offset) ∈ ({ name, platform } : RecordBuilder).accepted calls →
        call.AlignedAt platform (entry.place.offset + offset) := by
  obtain ⟨hsound, hplatform⟩ := h.sound
  have hentry := object_eq_ok_iff.1 hobject
  have hhouses := hsound.houses hentry
  constructor
  · obtain ⟨name, platform', calls, hbuild⟩ := h.built hentry
    have hextends := RecordBuilder.extends_new name platform' calls
    obtain ⟨-, -, hlayout⟩ := RecordBuilder.build_eq_ok hbuild
    -- the heap takes layouts of its own platform only
    have hbuilder : entry.layout.platform =
        (({ name, platform := platform' } : RecordBuilder).after calls).platform := by
      rw [hlayout]
    obtain rfl : platform' = platform := calc
      platform' = entry.layout.platform := (hbuilder.trans hextends.platform_eq).symm
      _ = platform := hhouses.platform_eq.trans hplatform
    exact ⟨name, calls, hbuild⟩
  · intro name calls hbuild
    have hextends := RecordBuilder.extends_new name platform calls
    obtain ⟨-, -, hlayout⟩ := RecordBuilder.build_eq_ok hbuild
    have hslots : entry.layout.slots =
        (({ name, platform } : RecordBuilder).after calls).slots := by
      rw [hlayout]
    have halignment : entry.layout.alignment =
        (({ name, platform } : RecordBuilder).after calls).alignment := by
      rw [hlayout]
    refine ⟨hslots.trans hextends.slots_eq, fun call offset hmem => ?_⟩
    obtain ⟨hoffset, hlarger⟩ := hextends.aligned call offset hmem
    have hplace := hhouses.aligned
    rw [halignment] at hplace
    exact SlotCall.alignedAt_of_dvd (Nat.dvd_add (Nat.dvd_trans hlarger hplace) hoffset)

end Heap

/-! ## A pair held in a record -/

/-- A reference, a pair at the next even offset, and three bytes at a multiple of four. -/
def SlotCall.holder : List SlotCall :=
  [.addReference "next", .embed "pair" UnboxedType.pair, .placeRegion "spare" ⟨3, 4, [], true⟩]

def RecordLayout.holder : RecordLayout where
  name := "holder"
  platform := .bits16
  slots := [⟨"next", .reference, 0, 2⟩, ⟨"pair", .embedded UnboxedType.pair, 2, 11⟩,
    ⟨"spare", .raw, 16, 3⟩]
  size := 20
  alignment := 4
  scanMap := [0]
  rawSpans := [⟨2, 13⟩, ⟨16, 19⟩]

theorem RecordLayout.build_holder :
    (({ name := "holder", platform := .bits16 } : RecordBuilder).after
      SlotCall.holder).build.result = .ok .holder := rfl

namespace Heap

/-- The holder comes after a node, whose four bytes it has to leave alone. -/
def held : Heap :=
  small.after [.alloc .node RecordLayout.built_node,
    .alloc .holder ⟨"holder", .bits16, SlotCall.holder, RecordLayout.build_holder⟩]

theorem reachable_held : held.Reachable ⟨1024, 2⟩ .bits16 := (Reachable.create create_small).after _

set_option maxRecDepth 10000 in
theorem slots_aligned_holder :
    held.Reachable ⟨1024, 2⟩ .bits16 ∧ held.object ⟨1⟩ = .ok ⟨.holder, ⟨0, 4⟩, 20⟩ ∧
      (({ name := "holder", platform := .bits16 } : RecordBuilder).after
        SlotCall.holder).build.result = .ok .holder ∧
      ∀ leaf ∈ UnboxedType.pair.leaves, leaf.spec.alignment ∣ 4 + 2 + leaf.offset := by
  have hobject : held.object ⟨1⟩ = .ok ⟨.holder, ⟨0, 4⟩, 20⟩ := rfl
  obtain ⟨-, haligned⟩ := reachable_held.slots_aligned hobject
  have hpair : SlotCall.AlignedAt .bits16 (4 + 2) (.embed "pair" UnboxedType.pair) :=
    (haligned "holder" SlotCall.holder RecordLayout.build_holder).2 _ 2
      (.tail _ (.head _))
  exact ⟨reachable_held, hobject, RecordLayout.build_holder,
    (hpair UnboxedType.composed_pair).2 fun _ => UnboxedType.misalignedFields_within_pair⟩

end Heap

end UnboxedRecords
