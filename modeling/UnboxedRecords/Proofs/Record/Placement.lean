import Mathlib.Data.List.Nodup
import Mathlib.Data.List.Pairwise
import UnboxedRecords.Proofs.Record.Runs

/-!
# The placement of slots

A builder only ever puts a slot behind all earlier ones.  So the slots of a record lie apart, in the
order in which they were added, and end below the size of the record; a reference slot is one word,
aligned to words (`RecordLayout.Built.wellPlaced`).

What a scan relies on follows from this: the scan map lists the offsets of the reference slots
(`RecordLayout.WellPlaced.mem_scanMap`), and none of them lies inside raw storage
(`RecordLayout.WellPlaced.isRawAt_of_mem_scanMap`).
-/

namespace UnboxedRecords

/-- One of the slots ends before the other starts. -/
def Slot.Apart (a b : Slot) : Prop :=
  a.offset + a.size ≤ b.offset ∨ b.offset + b.size ≤ a.offset

instance : Std.Symm Slot.Apart := ⟨fun _ _ h => h.symm⟩

/-- Slots of different names, one behind the other and all below `stop`, in a record that is aligned
to `alignment`. -/
structure SlotsPlaced (platform : Platform) (slots : List Slot) (stop alignment : Nat) : Prop where
  ordered : slots.Pairwise fun earlier later => earlier.offset + earlier.size ≤ later.offset
  below : ∀ slot ∈ slots, slot.offset + slot.size ≤ stop
  names : (slots.map (·.name)).Nodup
  powerOfTwo : isPowerOfTwo alignment = true
  words : ∀ slot ∈ slots, slot.kind = .reference →
    slot.size = platform.wordBytes ∧ platform.wordBytes ∣ slot.offset

namespace SlotsPlaced

variable {platform : Platform} {slots : List Slot} {stop alignment : Nat}

theorem empty (platform : Platform) : SlotsPlaced platform [] 0 1 where
  ordered := List.Pairwise.nil
  below := by simp
  names := List.nodup_nil
  powerOfTwo := rfl
  words := by simp

/-- One more slot, behind the others. -/
theorem push (h : SlotsPlaced platform slots stop alignment) {slot : Slot} {align : Nat}
    (hfresh : slot.name ∉ slots.map (·.name)) (hpow : isPowerOfTwo align = true)
    (hstart : stop ≤ slot.offset)
    (hword : slot.kind = .reference →
      slot.size = platform.wordBytes ∧ platform.wordBytes ∣ slot.offset) :
    SlotsPlaced platform (slots ++ [slot]) (slot.offset + slot.size) (max alignment align) where
  ordered := by
    refine List.pairwise_append.2 ⟨h.ordered, List.pairwise_singleton _ _, ?_⟩
    intro earlier hearlier later hlater
    rw [List.mem_singleton.1 hlater]
    exact Nat.le_trans (h.below earlier hearlier) hstart
  below := by
    intro other hother
    rcases List.mem_append.1 hother with hother | hother
    · have := h.below other hother
      omega
    · exact Nat.le_of_eq (by rw [List.mem_singleton.1 hother])
  names := by
    rw [List.map_append, List.map_singleton]
    exact List.nodup_append.2 ⟨h.names, List.nodup_singleton _, by
      intro name hname other hother heq
      rw [List.mem_singleton.1 hother] at heq
      exact hfresh (heq ▸ hname)⟩
  powerOfTwo := isPowerOfTwo_max h.powerOfTwo hpow
  words := by
    intro other hother
    rcases List.mem_append.1 hother with hother | hother
    · exact h.words other hother
    · rw [List.mem_singleton.1 hother]
      exact hword

/-- More room behind the slots. -/
theorem mono (h : SlotsPlaced platform slots stop alignment) {stop' : Nat} (hle : stop ≤ stop') :
    SlotsPlaced platform slots stop' alignment :=
  ⟨h.ordered, fun slot hslot => Nat.le_trans (h.below slot hslot) hle, h.names, h.powerOfTwo,
    h.words⟩

/-- Different slots lie apart. -/
theorem apart (h : SlotsPlaced platform slots stop alignment) {a b : Slot} (ha : a ∈ slots)
    (hb : b ∈ slots) (hne : a ≠ b) : a.Apart b := by
  have hpairs : slots.Pairwise Slot.Apart := h.ordered.imp Or.inl
  exact hpairs.forall ha hb hne

/-- The name of a slot tells it from the others. -/
theorem eq_of_name_eq (h : SlotsPlaced platform slots stop alignment) {a b : Slot} (ha : a ∈ slots)
    (hb : b ∈ slots) (hname : a.name = b.name) : a = b := by
  have hnames : slots.Pairwise fun a b => a.name ≠ b.name := List.pairwise_map.1 h.names
  have : Std.Symm fun a b : Slot => a.name ≠ b.name := ⟨fun _ _ hne => hne.symm⟩
  by_contra hne
  exact hnames.forall ha hb hne hname

end SlotsPlaced

namespace RecordBuilder

/-- The slots added so far are placed below the cursor. -/
def Placed (builder : RecordBuilder) : Prop :=
  SlotsPlaced builder.platform builder.slots builder.cursor builder.alignment

theorem placed_new (name : String) (platform : Platform) :
    ({ name, platform } : RecordBuilder).Placed :=
  SlotsPlaced.empty platform

theorem hasSlot_eq_false_iff {builder : RecordBuilder} {name : String} :
    builder.hasSlot name = false ↔ name ∉ builder.slots.map (·.name) := by
  simp [hasSlot, List.any_eq_false]

/-- A slot that is added keeps the placement. -/
theorem Placed.push {builder : RecordBuilder} (h : builder.Placed) (call : SlotCall) {offset : Nat}
    (hadmits : builder.Admits (call.slot builder.platform offset) (call.align builder.platform)) :
    (builder.push (call.slot builder.platform offset) (call.align builder.platform)).Placed := by
  refine SlotsPlaced.push h (hasSlot_eq_false_iff.1 hadmits.fresh) hadmits.powerOfTwo
    (le_of_alignUp? hadmits.powerOfTwo hadmits.offset_eq) ?_
  have hdvd := dvd_of_alignUp? hadmits.powerOfTwo hadmits.offset_eq
  intro hkind
  cases call with
  | addReference name => exact ⟨rfl, hdvd⟩
  | embed name type => simp [SlotCall.slot] at hkind
  | placeRegion name region => simp [SlotCall.slot] at hkind

theorem placed_after {builder : RecordBuilder} (h : builder.Placed) (calls : List SlotCall) :
    (builder.after calls).Placed :=
  after_induction (motive := Placed) (fun _ call _ h hadmits => h.push call hadmits) calls h

/-- What a layout is made of when a builder is done. -/
theorem build_eq_ok {builder : RecordBuilder} {layout : RecordLayout}
    (h : builder.build.result = .ok layout) :
    alignUp? builder.cursor builder.alignment = some layout.size ∧
      layout.size ≤ builder.platform.maxWord ∧
      layout = {
        name := builder.name
        platform := builder.platform
        slots := builder.slots
        size := layout.size
        alignment := builder.alignment
        scanMap := (builder.slots.filter (·.kind = .reference)).map (·.offset)
        rawSpans := (builder.slots.filter fun slot => slot.kind.isRaw && 0 < slot.size).map
          (·.span) } := by
  rw [build] at h
  split at h
  · simp at h
  · next size halign =>
    split at h
    · simp at h
    · next hmax =>
      simp only [Logged.result_ok, Except.ok.injEq] at h
      subst h
      exact ⟨halign, Nat.le_of_not_lt hmax, rfl⟩

end RecordBuilder

namespace RecordLayout

/-- The slots of a layout are placed below its size, and its scan map and raw ranges are those of
its slots. -/
structure WellPlaced (layout : RecordLayout) : Prop where
  slots : SlotsPlaced layout.platform layout.slots layout.size layout.alignment
  alignment_dvd : layout.alignment ∣ layout.size
  size_le : layout.size ≤ layout.platform.maxWord
  scanMap_eq : layout.scanMap = (layout.slots.filter (·.kind = .reference)).map (·.offset)
  rawSpans_eq : layout.rawSpans =
    (layout.slots.filter fun slot => slot.kind.isRaw && 0 < slot.size).map (·.span)

/-- Every layout that a builder makes is well placed, whatever calls it was built with. -/
theorem Built.wellPlaced {layout : RecordLayout} (h : layout.Built) : layout.WellPlaced := by
  obtain ⟨name, platform, calls, hbuild⟩ := h
  have hplaced := RecordBuilder.placed_after (RecordBuilder.placed_new name platform) calls
  generalize ({ name, platform } : RecordBuilder).after calls = builder at hbuild hplaced
  obtain ⟨hsize, hmax, heq⟩ := RecordBuilder.build_eq_ok hbuild
  -- the slots end below the cursor, and the size is the cursor rounded up
  have hle := le_of_alignUp? hplaced.powerOfTwo hsize
  have hdvd := dvd_of_alignUp? hplaced.powerOfTwo hsize
  rw [heq]
  exact ⟨hplaced.mono hle, hdvd, hmax, rfl, rfl⟩

namespace WellPlaced

variable {layout : RecordLayout}

/-- A slot is found by its name. -/
theorem slot?_eq_some_iff (h : layout.WellPlaced) {name : String} {slot : Slot} :
    layout.slot? name = some slot ↔ slot ∈ layout.slots ∧ slot.name = name := by
  constructor
  · intro hfind
    exact ⟨List.mem_of_find?_eq_some hfind, by simpa using List.find?_some hfind⟩
  · rintro ⟨hslot, rfl⟩
    rcases hfind : layout.slot? slot.name with _ | other
    · exact absurd (List.find?_eq_none.1 hfind slot hslot) (by simp)
    · have hother : other.name = slot.name := by simpa using List.find?_some hfind
      rw [h.slots.eq_of_name_eq (List.mem_of_find?_eq_some hfind) hslot hother]

theorem mem_scanMap (h : layout.WellPlaced) {offset : Nat} :
    offset ∈ layout.scanMap ↔
      ∃ slot ∈ layout.slots, slot.kind = .reference ∧ slot.offset = offset := by
  simp [h.scanMap_eq, and_assoc]

/-- Reference slots are not empty, so that no two of them start together. -/
theorem eq_of_offset_eq (h : layout.WellPlaced) {a b : Slot} (ha : a ∈ layout.slots)
    (hb : b ∈ layout.slots) (hakind : a.kind = .reference) (hbkind : b.kind = .reference)
    (hoffset : a.offset = b.offset) : a = b := by
  by_contra hne
  have hpos := layout.platform.wordBytes_pos
  have hasize := (h.slots.words a ha hakind).1
  have hbsize := (h.slots.words b hb hbkind).1
  rcases h.slots.apart ha hb hne with hapart | hapart
  · omega
  · omega

/-- The word at an offset of the scan map ends inside the record. -/
theorem add_wordBytes_le (h : layout.WellPlaced) {offset : Nat}
    (hoffset : offset ∈ layout.scanMap) :
    offset + layout.platform.wordBytes ≤ layout.size := by
  obtain ⟨slot, hslot, hkind, rfl⟩ := h.mem_scanMap.1 hoffset
  have hbelow := h.slots.below slot hslot
  rwa [(h.slots.words slot hslot hkind).1] at hbelow

/-- A byte is raw when it lies in some slot of raw storage. -/
theorem isRawAt_iff (h : layout.WellPlaced) {offset : Nat} :
    layout.isRawAt offset = true ↔
      ∃ slot ∈ layout.slots, slot.kind.isRaw = true ∧ slot.span.contains offset = true := by
  rw [isRawAt, h.rawSpans_eq, List.any_map, List.any_eq_true]
  constructor
  · rintro ⟨slot, hslot, hcontains⟩
    simp only [List.mem_filter, Bool.and_eq_true] at hslot
    exact ⟨slot, hslot.1, hslot.2.1, hcontains⟩
  · rintro ⟨slot, hslot, hraw, hcontains⟩
    have hsize : 0 < slot.size := by
      have hspan := Span.contains_iff.1 hcontains
      simp only [Slot.span] at hspan
      omega
    exact ⟨slot, by simp [hslot, hraw, hsize], hcontains⟩

/-- No byte of a word that a scan reads is raw. -/
theorem isRawAt_of_mem_word (h : layout.WellPlaced) {start offset : Nat}
    (hstart : start ∈ layout.scanMap) (hle : start ≤ offset)
    (hlt : offset < start + layout.platform.wordBytes) : layout.isRawAt offset = false := by
  obtain ⟨slot, hslot, hkind, rfl⟩ := h.mem_scanMap.1 hstart
  rw [← Bool.not_eq_true, h.isRawAt_iff]
  rintro ⟨other, hother, hraw, hcontains⟩
  have hne : slot ≠ other := by
    rintro rfl
    simp [hkind, SlotKind.isRaw] at hraw
  -- the slots lie apart, yet the byte would be in both
  have hword := (h.slots.words slot hslot hkind).1
  have hspan := Span.contains_iff.1 hcontains
  simp only [Slot.span] at hspan
  rcases h.slots.apart hslot hother hne with hapart | hapart
  · omega
  · omega

/-- A scan never starts a word inside raw storage. -/
theorem isRawAt_of_mem_scanMap (h : layout.WellPlaced) {offset : Nat}
    (hoffset : offset ∈ layout.scanMap) : layout.isRawAt offset = false :=
  h.isRawAt_of_mem_word hoffset (Nat.le_refl _)
    (Nat.lt_add_of_pos_right layout.platform.wordBytes_pos)

end WellPlaced

end RecordLayout

end UnboxedRecords
