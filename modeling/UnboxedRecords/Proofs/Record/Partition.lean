import UnboxedRecords.Proofs.Record.Placement

/-!
# What lies at each byte of a record

Every byte of a record belongs to one reference word, or to one range of raw storage, or to no slot
at all (`RecordLayout.ByteUse`).  The scan map and the raw ranges are kept beside the slots, and are
not what the slots were placed by; that they divide up the record between them rests on two things.
At most one slot covers a byte, since the slots lie one behind the other
(`RecordLayout.WellPlaced.slotsAt_cases`); and the words and ranges at a byte are those of the slots
there (`RecordLayout.WellPlaced.wordsAt_eq`, `RecordLayout.WellPlaced.spansAt_eq`).

`RecordLayout.Built.partitioned` states this of every layout that a builder makes.
-/

namespace UnboxedRecords

/-- All slots but references are raw storage. -/
theorem SlotKind.isRaw_iff {kind : SlotKind} : kind.isRaw = true ↔ kind ≠ .reference := by
  cases kind <;> simp [isRaw]

/-- A slot covers the byte at `offset`. -/
theorem Slot.span_contains_iff {slot : Slot} {offset : Nat} :
    slot.span.contains offset = true ↔ slot.offset ≤ offset ∧ offset < slot.offset + slot.size :=
  Span.contains_iff

namespace RecordLayout

/-- The slots that cover the byte at `offset`. -/
def slotsAt (layout : RecordLayout) (offset : Nat) : List Slot :=
  layout.slots.filter (·.span.contains offset)

/-- The entries of the scan map whose words cover the byte at `offset`. -/
def wordsAt (layout : RecordLayout) (offset : Nat) : List Nat :=
  layout.scanMap.filter fun start =>
    (⟨start, start + layout.platform.wordBytes⟩ : Span).contains offset

/-- The ranges of raw storage that cover the byte at `offset`. -/
def spansAt (layout : RecordLayout) (offset : Nat) : List Span :=
  layout.rawSpans.filter (·.contains offset)

/-- What a byte of a record is used for: there is one reference word or one range of raw storage
there, and no other slot, or there is nothing at all. -/
inductive ByteUse (layout : RecordLayout) (offset : Nat) : Prop
  | word {slot : Slot} (reference : slot.kind = .reference)
      (slots : layout.slotsAt offset = [slot]) (words : layout.wordsAt offset = [slot.offset])
      (spans : layout.spansAt offset = [])
  | raw {slot : Slot} (isRaw : slot.kind.isRaw = true) (slots : layout.slotsAt offset = [slot])
      (words : layout.wordsAt offset = []) (spans : layout.spansAt offset = [slot.span])
  | padding (slots : layout.slotsAt offset = []) (words : layout.wordsAt offset = [])
      (spans : layout.spansAt offset = [])

namespace WellPlaced

variable {layout : RecordLayout} {offset : Nat}

/-! ## The scan map -/

/-- References are found in the order of their offsets, since the slots are. -/
theorem scanMap_pairwise (h : layout.WellPlaced) : layout.scanMap.Pairwise (· < ·) := by
  rw [h.scanMap_eq, List.pairwise_map]
  refine (h.slots.ordered.filter _).imp_of_mem fun {earlier later} hearlier _ hle => ?_
  obtain ⟨hslot, hkind⟩ := List.mem_filter.1 hearlier
  have hsize := (h.slots.words earlier hslot (of_decide_eq_true hkind)).1
  have hpos := layout.platform.wordBytes_pos
  omega

/-- Every entry of the scan map stands for one slot. -/
theorem existsUnique_slot (h : layout.WellPlaced) (hoffset : offset ∈ layout.scanMap) :
    ∃! slot, slot ∈ layout.slots ∧ slot.kind = .reference ∧ slot.offset = offset := by
  obtain ⟨slot, hslot, hkind, hstart⟩ := h.mem_scanMap.1 hoffset
  refine ⟨slot, ⟨hslot, hkind, hstart⟩, ?_⟩
  rintro other ⟨hother, hkind', hstart'⟩
  exact h.eq_of_offset_eq hother hslot hkind' hkind (hstart'.trans hstart.symm)

theorem wordBytes_dvd (h : layout.WellPlaced) (hoffset : offset ∈ layout.scanMap) :
    layout.platform.wordBytes ∣ offset := by
  obtain ⟨slot, hslot, hkind, rfl⟩ := h.mem_scanMap.1 hoffset
  exact (h.slots.words slot hslot hkind).2

/-! ## One byte -/

/-- At most one slot covers a byte. -/
theorem slotsAt_cases (h : layout.WellPlaced) (offset : Nat) :
    layout.slotsAt offset = [] ∨ ∃ slot, layout.slotsAt offset = [slot] := by
  have hordered := h.slots.ordered.filter (·.span.contains offset)
  have hcovers : ∀ slot ∈ layout.slotsAt offset,
      slot.offset ≤ offset ∧ offset < slot.offset + slot.size := fun slot hslot =>
    Slot.span_contains_iff.1 (List.mem_filter.1 hslot).2
  rw [← slotsAt] at hordered
  rcases hslots : layout.slotsAt offset with _ | ⟨first, _ | ⟨second, rest⟩⟩
  · exact Or.inl rfl
  · exact Or.inr ⟨first, rfl⟩
  · -- the first of two would end before the second starts, and cover the byte nevertheless
    rw [hslots] at hordered hcovers
    have hle := (List.pairwise_cons.1 hordered).1 second List.mem_cons_self
    have hfirst := hcovers first List.mem_cons_self
    have hsecond := hcovers second (List.mem_cons_of_mem _ List.mem_cons_self)
    omega

/-- The words at a byte are those of the reference slots there. -/
theorem wordsAt_eq (h : layout.WellPlaced) (offset : Nat) :
    layout.wordsAt offset =
      ((layout.slotsAt offset).filter (·.kind = .reference)).map (·.offset) := by
  rw [wordsAt, slotsAt, h.scanMap_eq, List.filter_map, List.filter_filter, List.filter_filter]
  refine congrArg (List.map _) (List.filter_congr fun slot hslot => ?_)
  by_cases hkind : slot.kind = .reference
  · simp [hkind, Slot.span, (h.slots.words slot hslot hkind).1]
  · simp [hkind]

/-- The raw ranges at a byte are those of the raw slots there.  Empty slots have no range, but they
do not cover any byte either. -/
theorem spansAt_eq (h : layout.WellPlaced) (offset : Nat) :
    layout.spansAt offset = ((layout.slotsAt offset).filter (·.kind.isRaw)).map (·.span) := by
  rw [spansAt, slotsAt, h.rawSpans_eq, List.filter_map, List.filter_filter, List.filter_filter]
  refine congrArg (List.map _) (List.filter_congr fun slot _ => ?_)
  by_cases hcovers : slot.span.contains offset = true
  · have hspan := Slot.span_contains_iff.1 hcovers
    have hsize : 0 < slot.size := by omega
    simp [hcovers, hsize]
  · simp [hcovers]

theorem byteUse (h : layout.WellPlaced) (offset : Nat) : layout.ByteUse offset := by
  have hwords := h.wordsAt_eq offset
  have hspans := h.spansAt_eq offset
  rcases h.slotsAt_cases offset with hslots | ⟨slot, hslots⟩
  · rw [hslots] at hwords hspans
    exact .padding hslots hwords hspans
  · rw [hslots] at hwords hspans
    by_cases hkind : slot.kind = .reference
    · have hraw : slot.kind.isRaw = false := by rw [hkind]; rfl
      exact .word hkind hslots (by simpa [hkind] using hwords) (by simpa [hraw] using hspans)
    · have hraw := SlotKind.isRaw_iff.2 hkind
      exact .raw hraw hslots (by simpa [hkind] using hwords) (by simpa [hraw] using hspans)

end WellPlaced

/-- In every layout that a builder makes, the scan map lists the reference slots by ascending
offsets, one entry for each, and every entry is the offset of a whole word inside the record; every
byte belongs to one of these words, or to one range of raw storage, or to no slot; and the bytes
that count as raw are those of the slots that are not references. -/
theorem Built.partitioned {layout : RecordLayout} (h : layout.Built) :
    layout.scanMap.Pairwise (· < ·) ∧
      layout.scanMap = (layout.slots.filter (·.kind = .reference)).map (·.offset) ∧
      (∀ start ∈ layout.scanMap,
        (∃! slot, slot ∈ layout.slots ∧ slot.kind = .reference ∧ slot.offset = start) ∧
          layout.platform.wordBytes ∣ start ∧
          start + layout.platform.wordBytes ≤ layout.size) ∧
      (∀ offset, layout.ByteUse offset) ∧
      ∀ offset, layout.isRawAt offset = true ↔ ∃ slot ∈ layout.slots, slot.kind ≠ .reference ∧
        slot.offset ≤ offset ∧ offset < slot.offset + slot.size := by
  have hplaced := h.wellPlaced
  refine ⟨hplaced.scanMap_pairwise, hplaced.scanMap_eq, fun start hstart => ?_, hplaced.byteUse,
    fun offset => ?_⟩
  · exact ⟨hplaced.existsUnique_slot hstart, hplaced.wordBytes_dvd hstart,
      hplaced.add_wordBytes_le hstart⟩
  · simp only [hplaced.isRawAt_iff, SlotKind.isRaw_iff, Slot.span_contains_iff]

/-- A byte, a slot without any bytes, a reference at the same offset, five bytes, and one more byte
that starts behind a gap and is followed by another. -/
def gapped : RecordLayout where
  name := "gapped"
  platform := .bits16
  slots := [⟨"flag", .raw, 0, 1⟩, ⟨"mark", .raw, 2, 0⟩, ⟨"next", .reference, 2, 2⟩,
    ⟨"tags", .raw, 4, 5⟩, ⟨"last", .raw, 16, 1⟩]
  size := 24
  alignment := 8
  scanMap := [2]
  rawSpans := [⟨0, 1⟩, ⟨4, 9⟩, ⟨16, 17⟩]

theorem built_gapped : gapped.Built :=
  ⟨"gapped", .bits16, [.placeRegion "flag" ⟨1, 1, [], true⟩, .placeRegion "mark" ⟨0, 2, [], true⟩,
    .addReference "next", .placeRegion "tags" ⟨5, 0, [], true⟩,
    .placeRegion "last" ⟨1, 8, [], true⟩], rfl⟩

theorem partitioned_gapped :
    gapped.Built ∧
      (∃! slot, slot ∈ gapped.slots ∧ slot.kind = .reference ∧ slot.offset = 2) ∧
      (∀ offset, gapped.ByteUse offset) ∧
      gapped.slotsAt 1 = [] ∧ gapped.wordsAt 2 = [2] ∧ gapped.spansAt 8 = [⟨4, 9⟩] ∧
      ∀ offset, gapped.isRawAt offset = true ↔ ∃ slot ∈ gapped.slots, slot.kind ≠ .reference ∧
        slot.offset ≤ offset ∧ offset < slot.offset + slot.size := by
  obtain ⟨-, -, hwords, huse, hraw⟩ := built_gapped.partitioned
  exact ⟨built_gapped, (hwords 2 List.mem_cons_self).1, huse, rfl, rfl, rfl, hraw⟩

end RecordLayout

end UnboxedRecords
