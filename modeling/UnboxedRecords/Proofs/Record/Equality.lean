import Mathlib.Data.List.Perm.Subperm
import UnboxedRecords.Proofs.Record.Placement

/-!
# Equal layouts

Layouts are compared in what they store, and their slots as a table from names to slots, in whatever
order.  So equal layouts of a builder have the same slots (`RecordLayout.WellPlaced.slots_perm`),
and whatever is said of all slots of one holds of all slots of the other.

The slots, the alignment and the name are all that counts.  A builder goes on where the last of its
slots ends, which is the least bound of the ends of all slots (`RecordBuilder.cursor_le_iff`), so
that the size follows from the slots and the alignment.  And the slots of a record lie one behind
the other, so that their order can be read off their places, but for empty slots at one offset
(`RecordLayout.WellPlaced.filter_eq`): the scan map and the raw ranges, for which empty slots do not
count, follow from the slots as well.  `RecordLayout.Built.determined_by_placement` puts this
together.
-/

namespace UnboxedRecords

namespace RecordBuilder

/-- The cursor of a builder is not beyond the end of the last slot, wherever this is. -/
theorem cursor_le_iff (name : String) (platform : Platform) (calls : List SlotCall) {stop : Nat} :
    (({ name, platform } : RecordBuilder).after calls).cursor ≤ stop ↔
      ∀ slot ∈ (({ name, platform } : RecordBuilder).after calls).slots,
        slot.offset + slot.size ≤ stop := by
  have hplaced := placed_after (placed_new name platform) calls
  constructor
  · intro hle slot hslot
    exact Nat.le_trans (hplaced.below slot hslot) hle
  · refine after_induction (motive := fun builder =>
      (∀ slot ∈ builder.slots, slot.offset + slot.size ≤ stop) → builder.cursor ≤ stop) ?_ calls
      fun _ => Nat.zero_le stop
    intro builder call offset _ _ hslots
    exact hslots _ (List.mem_append_right _ (List.mem_singleton_self _))

end RecordBuilder

namespace RecordLayout

variable {a b : RecordLayout}

theorem slotsAgree_iff :
    a.slotsAgree b = true ↔ a.slots.length = b.slots.length ∧
      ∀ slot ∈ a.slots, b.slot? slot.name = some slot := by
  simp [slotsAgree]

/-- What is compared of two layouts. -/
theorem beq_iff :
    (a == b) = true ↔ a.name = b.name ∧ a.platform = b.platform ∧ a.slotsAgree b = true ∧
      a.size = b.size ∧ a.alignment = b.alignment ∧ a.scanMap = b.scanMap ∧
      a.rawSpans = b.rawSpans := by
  rw [show (a == b) = (a.name == b.name && a.platform == b.platform && a.slotsAgree b &&
    a.size == b.size && a.alignment == b.alignment && a.scanMap == b.scanMap &&
    a.rawSpans == b.rawSpans) from rfl]
  simp only [Bool.and_eq_true, beq_iff_eq, and_assoc]

namespace WellPlaced

/-- Slots of different names are different. -/
theorem nodup_slots (h : a.WellPlaced) : a.slots.Nodup := List.Nodup.of_map _ h.slots.names

/-- Slots that agree as tables differ in their order at most. -/
theorem slots_perm_of_agree (h : a.WellPlaced) (hagree : a.slotsAgree b = true) :
    a.slots.Perm b.slots := by
  obtain ⟨hlength, hfind⟩ := slotsAgree_iff.1 hagree
  have hsubset : a.slots ⊆ b.slots := fun slot hslot => List.mem_of_find?_eq_some (hfind slot hslot)
  exact (List.subperm_of_subset h.nodup_slots hsubset).perm_of_length_le (Nat.le_of_eq hlength.symm)

/-- The slots of equal layouts differ in their order at most. -/
theorem slots_perm (h : a.WellPlaced) (heq : (a == b) = true) : a.slots.Perm b.slots := by
  obtain ⟨-, -, hagree, -⟩ := beq_iff.1 heq
  exact h.slots_perm_of_agree hagree

/-! ## The table of slots -/

/-- Layouts find the same slots under all names if they have the same slots, in whatever order. -/
theorem slot?_eq_iff (ha : a.WellPlaced) (hb : b.WellPlaced) :
    (∀ name, a.slot? name = b.slot? name) ↔ a.slots.Perm b.slots := by
  constructor
  · intro hfind
    refine (List.perm_ext_iff_of_nodup ha.nodup_slots hb.nodup_slots).2 fun slot => ?_
    have hmem : ∀ {layout : RecordLayout}, layout.WellPlaced →
        (slot ∈ layout.slots ↔ layout.slot? slot.name = some slot) := fun h => by
      rw [h.slot?_eq_some_iff, and_iff_left rfl]
    rw [hmem ha, hmem hb, hfind]
  · intro hperm name
    refine Option.ext fun slot => ?_
    rw [ha.slot?_eq_some_iff, hb.slot?_eq_some_iff, hperm.mem_iff]

/-- The comparison of slots finds out whether the tables are the same. -/
theorem slotsAgree_iff_slot?_eq (ha : a.WellPlaced) (hb : b.WellPlaced) :
    a.slotsAgree b = true ↔ ∀ name, a.slot? name = b.slot? name := by
  rw [ha.slot?_eq_iff hb]
  refine ⟨ha.slots_perm_of_agree, fun hperm => slotsAgree_iff.2 ⟨hperm.length_eq, ?_⟩⟩
  exact fun slot hslot => hb.slot?_eq_some_iff.2 ⟨hperm.mem_iff.1 hslot, rfl⟩

/-! ## The order of slots -/

/-- Among the same slots, those in `p` are in the same order, unless there are two empty slots of
one offset among them. -/
theorem filter_eq (ha : a.WellPlaced) (hb : b.WellPlaced) (hperm : a.slots.Perm b.slots)
    {p : Slot → Bool}
    (hp : ∀ x ∈ a.slots, ∀ y ∈ a.slots, p x = true → p y = true → x.size = 0 → y.size = 0 →
      x.offset = y.offset → x = y) :
    a.slots.filter p = b.slots.filter p := by
  refine List.Perm.eq_of_pairwise ?_ (ha.slots.ordered.filter p) (hb.slots.ordered.filter p)
    (hperm.filter p)
  intro x y hx hy hxy hyx
  obtain ⟨hx, hpx⟩ := List.mem_filter.1 hx
  obtain ⟨hy, hpy⟩ := List.mem_filter.1 hy
  -- each of the two ends before the other starts
  exact hp x hx y (hperm.mem_iff.2 hy) hpx hpy (by omega) (by omega) (by omega)

/-- Slots that are not empty are in the same order. -/
theorem filter_eq_of_pos (ha : a.WellPlaced) (hb : b.WellPlaced) (hperm : a.slots.Perm b.slots)
    {p : Slot → Bool} (hp : ∀ slot ∈ a.slots, p slot = true → 0 < slot.size) :
    a.slots.filter p = b.slots.filter p := by
  refine ha.filter_eq hb hperm fun x hx y _ hpx _ hempty => ?_
  have hpos := hp x hx hpx
  omega

theorem scanMap_eq_of_perm (ha : a.WellPlaced) (hb : b.WellPlaced)
    (hperm : a.slots.Perm b.slots) : a.scanMap = b.scanMap := by
  rw [ha.scanMap_eq, hb.scanMap_eq]
  refine congrArg _ (ha.filter_eq_of_pos hb hperm fun slot hslot hkind => ?_)
  rw [(ha.slots.words slot hslot (of_decide_eq_true hkind)).1]
  exact a.platform.wordBytes_pos

theorem rawSpans_eq_of_perm (ha : a.WellPlaced) (hb : b.WellPlaced)
    (hperm : a.slots.Perm b.slots) : a.rawSpans = b.rawSpans := by
  rw [ha.rawSpans_eq, hb.rawSpans_eq]
  refine congrArg _ (ha.filter_eq_of_pos hb hperm fun slot _ hraw => ?_)
  exact of_decide_eq_true (Bool.and_eq_true_iff.1 hraw).2

end WellPlaced

/-- The size of a record is the end of its last slot, rounded up. -/
theorem Built.exists_stop (h : a.Built) :
    ∃ stop, alignUp? stop a.alignment = some a.size ∧
      ∀ bound, stop ≤ bound ↔ ∀ slot ∈ a.slots, slot.offset + slot.size ≤ bound := by
  obtain ⟨name, platform, calls, hbuild⟩ := h
  obtain ⟨hsize, -, heq⟩ := RecordBuilder.build_eq_ok hbuild
  rw [heq]
  exact ⟨_, hsize, fun _ => RecordBuilder.cursor_le_iff name platform calls⟩

/-- Records with the same slots and the same alignment have the same size. -/
theorem Built.size_eq_of_perm (ha : a.Built) (hb : b.Built) (hperm : a.slots.Perm b.slots)
    (halignment : a.alignment = b.alignment) : a.size = b.size := by
  obtain ⟨stop, hsize, hstop⟩ := ha.exists_stop
  obtain ⟨stop', hsize', hstop'⟩ := hb.exists_stop
  have hbounds : ∀ bound, stop ≤ bound ↔ stop' ≤ bound := fun bound => by
    simp only [hstop, hstop', hperm.mem_iff]
  have hsame : stop = stop' :=
    Nat.le_antisymm ((hbounds _).2 (Nat.le_refl _)) ((hbounds _).1 (Nat.le_refl _))
  rw [hsame, halignment, hsize'] at hsize
  exact (Option.some.inj hsize).symm

/-- Two layouts that builders made are equal exactly if they have one name, one platform, one
alignment and the same slots under the same names; the other figures agree then.  Slots that are
not empty are in the same order in both, and each empty slot is in the same place among them, so
that nothing but the order of the empty slots among themselves may differ. -/
theorem Built.determined_by_placement (ha : a.Built) (hb : b.Built) :
    ((a == b) = true ↔ a.name = b.name ∧ a.platform = b.platform ∧ a.alignment = b.alignment ∧
      ∀ name, a.slot? name = b.slot? name) ∧
    ((a == b) = true → a.slots.Perm b.slots ∧
      a.slots.filter (0 < ·.size) = b.slots.filter (0 < ·.size) ∧
      ∀ mark : Slot, a.slots.filter (fun slot => slot = mark || 0 < slot.size) =
        b.slots.filter fun slot => slot = mark || 0 < slot.size) := by
  have ha' := ha.wellPlaced
  have hb' := hb.wellPlaced
  refine ⟨?_, fun heq => ?_⟩
  · rw [beq_iff, ha'.slotsAgree_iff_slot?_eq hb']
    constructor
    · rintro ⟨hname, hplatform, hslots, -, halignment, -, -⟩
      exact ⟨hname, hplatform, halignment, hslots⟩
    · rintro ⟨hname, hplatform, halignment, hslots⟩
      have hperm := (ha'.slot?_eq_iff hb').1 hslots
      exact ⟨hname, hplatform, hslots, ha.size_eq_of_perm hb hperm halignment, halignment,
        ha'.scanMap_eq_of_perm hb' hperm, ha'.rawSpans_eq_of_perm hb' hperm⟩
  · have hperm := ha'.slots_perm heq
    refine ⟨hperm, ha'.filter_eq_of_pos hb' hperm fun slot _ => of_decide_eq_true, fun mark => ?_⟩
    -- the only slot among these that may be empty is the one that is marked
    refine ha'.filter_eq hb' hperm fun x _ y _ hx hy hxsize hysize _ => ?_
    have hmark : ∀ slot : Slot, (decide (slot = mark) || decide (0 < slot.size)) = true →
        slot.size = 0 → slot = mark := by
      intro slot hslot hsize
      simpa [hsize] using hslot
    exact (hmark x hx hxsize).trans (hmark y hy hysize).symm

/-- A byte, two slots without any bytes and a reference, all three at one offset. -/
def marked : RecordLayout where
  name := "marked"
  platform := .bits16
  slots := [⟨"flag", .raw, 0, 1⟩, ⟨"open", .raw, 2, 0⟩, ⟨"close", .raw, 2, 0⟩,
    ⟨"next", .reference, 2, 2⟩]
  size := 4
  alignment := 2
  scanMap := [2]
  rawSpans := [⟨0, 1⟩]

/-- The same with the two empty slots the other way round. -/
def remarked : RecordLayout :=
  { marked with
    slots := [⟨"flag", .raw, 0, 1⟩, ⟨"close", .raw, 2, 0⟩, ⟨"open", .raw, 2, 0⟩,
      ⟨"next", .reference, 2, 2⟩] }

theorem built_marked : marked.Built :=
  ⟨"marked", .bits16, [.placeRegion "flag" ⟨1, 1, [], true⟩, .placeRegion "open" ⟨0, 2, [], true⟩,
    .placeRegion "close" ⟨0, 1, [], true⟩, .addReference "next"], rfl⟩

theorem built_remarked : remarked.Built :=
  ⟨"marked", .bits16, [.placeRegion "flag" ⟨1, 1, [], true⟩, .placeRegion "close" ⟨0, 2, [], true⟩,
    .placeRegion "open" ⟨0, 2, [], true⟩, .addReference "next"], rfl⟩

/-- The two layouts are equal although their slots are not in the same order. -/
theorem determined_by_placement_marked :
    marked.Built ∧ remarked.Built ∧ (marked == remarked) = true ∧ marked.slots ≠ remarked.slots ∧
      (∀ name, marked.slot? name = remarked.slot? name) ∧
      marked.slots.filter (0 < ·.size) = remarked.slots.filter (0 < ·.size) := by
  obtain ⟨hiff, horder⟩ := built_marked.determined_by_placement built_remarked
  have heq : (marked == remarked) = true := by decide
  obtain ⟨-, -, -, hslots⟩ := hiff.1 heq
  obtain ⟨-, hfilter, -⟩ := horder heq
  exact ⟨built_marked, built_remarked, heq, by decide, hslots, hfilter⟩

end RecordLayout

end UnboxedRecords
