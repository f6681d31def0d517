import UnboxedRecords.Proofs.Record.Accepted

/-!
# Tight placement

A record has no gaps but those that alignment forces on it.  Each slot starts at the least multiple
of its alignment behind the slot before it (`RecordBuilder.Tight`), and the record ends at the least
multiple of its own alignment behind the last slot.

Rounding works on 64-bit numbers, by an addition that may leave their range and a mask.  It still
refuses nothing that would fit: a slot against which there is nothing else is refused only if its
alignment is no power of two, or if its place, in exact numbers, is not one in the range of
addresses (`RecordBuilder.Settles.error_iff`).  `RecordBuilder.placed_tightly` puts this together
for all runs of a builder.
-/

namespace UnboxedRecords

/-- The least multiple of `align` that is not below `start`. -/
structure NextMultiple (start align offset : Nat) : Prop where
  dvd : align ∣ offset
  le : start ≤ offset
  least : ∀ other, align ∣ other → start ≤ other → offset ≤ other

section NextMultiple

variable {start align offset other : Nat}

theorem nextMultiple_alignUp (h : 0 < align) : NextMultiple start align (alignUp start align) where
  dvd := dvd_alignUp start align
  le := le_alignUp h
  least _ hdvd hle := alignUp_le_of_dvd h hle hdvd

theorem NextMultiple.unique (h : NextMultiple start align offset)
    (hother : NextMultiple start align other) : offset = other :=
  Nat.le_antisymm (h.least other hother.dvd hother.le) (hother.least offset h.dvd h.le)

/-- The bounded rounding finds the next multiple wherever it is an address. -/
theorem alignUp?_eq_some_iff (hpow : isPowerOfTwo align = true) (hle : align ≤ addressLimit) :
    alignUp? start align = some offset ↔
      NextMultiple start align offset ∧ offset < addressLimit := by
  have hnext : NextMultiple start align (alignUp start align) :=
    nextMultiple_alignUp (pos_of_isPowerOfTwo hpow)
  constructor
  · intro h
    obtain ⟨rfl, hlt⟩ := eq_alignUp_of_alignUp? hpow h
    exact ⟨hnext, hlt⟩
  · rintro ⟨h, hlt⟩
    obtain rfl := h.unique hnext
    rw [alignUp?_eq hpow hle, if_pos hlt]

end NextMultiple

/-- The number of bytes of the slot that the call makes. -/
def SlotCall.size (call : SlotCall) (platform : Platform) : Nat :=
  match call with
  | .addReference _ => platform.wordBytes
  | .embed _ type => type.byteSize
  | .placeRegion _ region => region.byteSize

@[simp] theorem SlotCall.slot_size (call : SlotCall) (platform : Platform) (offset : Nat) :
    (call.slot platform offset).size = call.size platform := by
  cases call <;> rfl

theorem SlotCall.align_pos (call : SlotCall) (platform : Platform) : 0 < call.align platform := by
  cases call with
  | addReference name => exact platform.wordBytes_pos
  | embed name type => exact type.region.placedAlignment_pos
  | placeRegion name region => exact region.placedAlignment_pos

namespace RecordBuilder

/-- The slots of the calls lie one behind the other, each at the next multiple of its alignment, the
first from `start` on; the last ends at `stop`. -/
def Tight (platform : Platform) : List (SlotCall × Nat) → Nat → Nat → Prop
  | [], start, stop => start = stop
  | (call, offset) :: placed, start, stop =>
    NextMultiple start (call.align platform) offset ∧
      Tight platform placed (offset + call.size platform) stop

/-- Nothing but the place of its slot can stand against the call: the name is new, what is placed is
raw storage, and a type that is embedded was composed for the platform of the record. -/
def Suits (builder : RecordBuilder) : SlotCall → Prop
  | .addReference name => name ∉ builder.slots.map (·.name)
  | .embed name type =>
    name ∉ builder.slots.map (·.name) ∧ type.platform = builder.platform
  | .placeRegion name region => name ∉ builder.slots.map (·.name) ∧ region.isOpaque = true

/-- What becomes of a slot of `size` bytes against which nothing but its place can stand. -/
inductive Settles (builder : RecordBuilder) (size align : Nat) : Except LayoutError Nat → Prop
  | placed {offset : Nat} (hpow : isPowerOfTwo align = true)
      (halign : alignUp? builder.cursor align = some offset)
      (hfits : offset + size < addressLimit) : Settles builder size align (.ok offset)
  | overflow (hnone : isPowerOfTwo align = true → ∀ offset,
      alignUp? builder.cursor align = some offset → addressLimit ≤ offset + size) :
      Settles builder size align (.error (.overflow builder.name))

variable {builder : RecordBuilder} {call : SlotCall} {name : String} {size align : Nat}

/-! ## One call -/

theorem reserve_settles (hfresh : name ∉ builder.slots.map (·.name)) (kind : SlotKind)
    (hpow : isPowerOfTwo align = true) (size : Nat) :
    builder.Settles size align (builder.reserve name kind size align).result := by
  rw [reserve, hasSlot_eq_false_iff.2 hfresh, if_neg Bool.false_ne_true]
  split
  · next hnone =>
    refine .overflow fun _ offset halign => ?_
    rw [hnone] at halign
    cases halign
  · next found halign =>
    split
    · next hfits => exact .placed hpow halign hfits
    · next hfits =>
      refine .overflow fun _ offset halign' => ?_
      obtain rfl := Option.some.inj (halign.symm.trans halign')
      exact Nat.le_of_not_lt hfits

/-- The same where the alignment is checked first. -/
theorem checked_reserve_settles (hfresh : name ∉ builder.slots.map (·.name)) (kind : SlotKind)
    (size align : Nat) :
    builder.Settles size align (if !isPowerOfTwo align then .fail builder (.overflow builder.name)
      else builder.reserve name kind size align).result := by
  split
  · next hpow =>
    refine .overflow fun hpow' => ?_
    rw [hpow'] at hpow
    cases hpow
  · next hpow => exact reserve_settles hfresh kind (by simpa using hpow) size

theorem placeRegion_settles {region : Region} (hfresh : name ∉ builder.slots.map (·.name))
    (hregion : region.isOpaque = true) :
    builder.Settles region.byteSize region.placedAlignment
      (builder.placeRegion name region).result := by
  rw [placeRegion, hregion, Bool.not_true, if_neg Bool.false_ne_true]
  exact checked_reserve_settles hfresh .raw region.byteSize region.placedAlignment

theorem call_settles (h : builder.Suits call) :
    builder.Settles (call.size builder.platform) (call.align builder.platform)
      (builder.call call).result := by
  cases call with
  | addReference name =>
    exact reserve_settles h .reference builder.platform.isPowerOfTwo_wordBytes
      builder.platform.wordBytes
  | placeRegion name region => exact placeRegion_settles h.1 h.2
  | embed name type =>
    rw [RecordBuilder.call, embed_eq, if_neg (not_not_intro h.2)]
    exact checked_reserve_settles h.1 (.embedded type) type.byteSize type.region.placedAlignment

/-- A slot is refused exactly if its place, in exact numbers, is none in the address range. -/
theorem Settles.error_iff {result : Except LayoutError Nat}
    (h : builder.Settles size align result) (hpos : 0 < align) (halign : align < addressLimit) :
    (∃ error, result = .error error) ↔
      (∀ k, align ≠ 1 <<< k) ∨ ∃ offset, NextMultiple builder.cursor align offset ∧
        (addressLimit ≤ offset ∨ addressLimit ≤ offset + size) := by
  have hle := Nat.le_of_lt halign
  cases h with
  | @placed offset hpow hsome hfits =>
    obtain ⟨k, hk⟩ := isPowerOfTwo_iff.1 hpow
    obtain ⟨hnext, -⟩ := (alignUp?_eq_some_iff hpow hle).1 hsome
    constructor
    · rintro ⟨error, ⟨⟩⟩
    · rintro (hnot | ⟨other, hother, hlarge⟩)
      · exact absurd hk (hnot k)
      · obtain rfl := hother.unique hnext
        omega
  | overflow hnone =>
    refine iff_of_true ⟨_, rfl⟩ ?_
    by_cases hpow : isPowerOfTwo align = true
    · have hnext : NextMultiple builder.cursor align (alignUp builder.cursor align) :=
        nextMultiple_alignUp hpos
      refine Or.inr ⟨_, hnext, ?_⟩
      rcases Nat.lt_or_ge (alignUp builder.cursor align) addressLimit with hlt | hge
      · exact Or.inr (hnone hpow _ ((alignUp?_eq_some_iff hpow hle).2 ⟨hnext, hlt⟩))
      · exact Or.inl hge
    · exact Or.inl fun k hk => hpow (isPowerOfTwo_iff.2 ⟨k, hk⟩)

/-! ## A run of calls -/

theorem Admits.nextMultiple {slot : Slot} (h : builder.Admits slot align) :
    NextMultiple builder.cursor align slot.offset :=
  ((alignUp?_eq_some_iff h.powerOfTwo (le_addressLimit_of_alignUp? h.offset_eq)).1 h.offset_eq).1

/-- The slots that a run adds are placed tightly behind those that were there, and the alignment
grows to the largest of theirs. -/
theorem tight_after (builder : RecordBuilder) (calls : List SlotCall) :
    Tight builder.platform (builder.accepted calls) builder.cursor (builder.after calls).cursor ∧
      (builder.after calls).alignment = ((builder.accepted calls).map
        fun (call, _) => call.align builder.platform).foldl max builder.alignment := by
  induction calls generalizing builder with
  | nil => exact ⟨rfl, rfl⟩
  | cons call calls ih =>
    have hcases := builder.call_cases call
    rw [accepted, after_cons]
    generalize (builder.call call).result = result at hcases
    generalize (builder.call call).state = next at hcases
    cases hcases with
    | refused _ => exact ih builder
    | placed offset hadmits =>
      obtain ⟨htight, halignment⟩ :=
        ih (builder.push (call.slot builder.platform offset) (call.align builder.platform))
      have hend : (builder.push (call.slot builder.platform offset)
          (call.align builder.platform)).cursor = offset + call.size builder.platform := by
        rw [push, SlotCall.slot_offset, SlotCall.slot_size]
      have hnext := hadmits.nextMultiple
      rw [SlotCall.slot_offset] at hnext
      rw [hend] at htight
      exact ⟨⟨hnext, htight⟩, halignment⟩

theorem name_after (builder : RecordBuilder) (calls : List SlotCall) :
    (builder.after calls).name = builder.name :=
  after_induction (motive := fun next => next.name = builder.name) (fun _ _ _ h _ => h) calls rfl

theorem alignment_after_le (h : builder.alignment ≤ addressLimit) (calls : List SlotCall) :
    (builder.after calls).alignment ≤ addressLimit :=
  after_induction (motive := fun next => next.alignment ≤ addressLimit)
    (fun _ _ _ h hadmits => Nat.max_le.2 ⟨h, le_addressLimit_of_alignUp? hadmits.offset_eq⟩) calls h

/-- A layout is made exactly if its size, in exact numbers, is one that a word can hold. -/
theorem build_iff (hpow : isPowerOfTwo builder.alignment = true)
    (hle : builder.alignment ≤ addressLimit) :
    (∃ layout, builder.build.result = .ok layout ∧ layout.size = size) ↔
      NextMultiple builder.cursor builder.alignment size ∧ size ≤ builder.platform.maxWord := by
  constructor
  · rintro ⟨layout, hbuild, rfl⟩
    obtain ⟨hsize, hmax, -⟩ := build_eq_ok hbuild
    exact ⟨((alignUp?_eq_some_iff hpow hle).1 hsize).1, hmax⟩
  · rintro ⟨hnext, hmax⟩
    have hlt : size < addressLimit := Nat.lt_of_le_of_lt hmax builder.platform.maxWord_lt
    have hsize := (alignUp?_eq_some_iff hpow hle).2 ⟨hnext, hlt⟩
    simp only [build, hsize, if_neg (Nat.not_lt.2 hmax)]
    exact ⟨_, rfl, rfl⟩

/-- Whatever calls a builder has gone through, the slots of those that were accepted start at the
least multiples of their alignments, each behind the one before it.  A further call against which
there is nothing else, and whose alignment is a 64-bit number like all others, is refused exactly if
the alignment is no power of two, or if its least multiple behind the last slot or the end of the
new slot is no address.  A layout is made exactly if the least multiple of the largest alignment
behind the last slot is within what a word holds, and this is the size of the layout. -/
theorem placed_tightly (name : String) (platform : Platform) (calls : List SlotCall) :
    let builder := ({ name, platform } : RecordBuilder).after calls
    let placed := ({ name, platform } : RecordBuilder).accepted calls
    let alignment := (placed.map fun (call, _) => call.align platform).foldl max 1
    Tight platform placed 0 builder.cursor ∧
      builder.slots = placed.map (fun (call, offset) => call.slot platform offset) ∧
      (∀ call, builder.Suits call → call.align platform < addressLimit →
        ((∃ error, (builder.call call).result = .error error) ↔
          (∀ k, call.align platform ≠ 1 <<< k) ∨
            ∃ offset, NextMultiple builder.cursor (call.align platform) offset ∧
              (addressLimit ≤ offset ∨ addressLimit ≤ offset + call.size platform)) ∧
        ∀ error, (builder.call call).result = .error error → error = .overflow name) ∧
      ((∃ layout, builder.build.result = .ok layout) ↔
        ∃ size, NextMultiple builder.cursor alignment size ∧ size ≤ platform.maxWord) ∧
      ∀ layout, builder.build.result = .ok layout →
        NextMultiple builder.cursor alignment layout.size ∧ layout.alignment = alignment ∧
          ∀ call offset, (call, offset) ∈ placed → call.align platform ∣ layout.alignment := by
  intro builder placed alignment
  have hextends := extends_new name platform calls
  have hplatform : builder.platform = platform := hextends.platform_eq
  have hname : builder.name = name := name_after _ calls
  obtain ⟨htight, halignment⟩ := tight_after { name, platform } calls
  have hone : 1 ≤ addressLimit := by decide
  have hle : builder.alignment ≤ addressLimit := alignment_after_le hone calls
  have hbuild : ∀ size, (∃ layout, builder.build.result = .ok layout ∧ layout.size = size) ↔
      NextMultiple builder.cursor alignment size ∧ size ≤ platform.maxWord := by
    intro size
    rw [build_iff hextends.powerOfTwo hle, hplatform, halignment]
  refine ⟨htight, hextends.slots_eq, fun call hsuits hlt => ⟨?_, fun error herror => ?_⟩,
    ⟨?_, ?_⟩, fun layout hlayout => ?_⟩
  · have hsettles := call_settles hsuits
    rw [hplatform] at hsettles
    exact hsettles.error_iff (call.align_pos platform) hlt
  · have hsettles := call_settles hsuits
    rw [herror] at hsettles
    cases hsettles
    rw [hname]
  · rintro ⟨layout, hlayout⟩
    exact ⟨layout.size, (hbuild layout.size).1 ⟨layout, hlayout, rfl⟩⟩
  · rintro ⟨size, hsize⟩
    obtain ⟨layout, hlayout, -⟩ := (hbuild size).2 hsize
    exact ⟨layout, hlayout⟩
  · obtain ⟨-, -, heq⟩ := build_eq_ok hlayout
    have hsame : layout.alignment = builder.alignment := by rw [heq]
    refine ⟨((hbuild layout.size).1 ⟨layout, hlayout, rfl⟩).1, hsame.trans halignment, ?_⟩
    intro call offset hplaced
    rw [hsame]
    exact (hextends.aligned call offset hplaced).2

/-- A reference, and a region that leaves eight bytes of the address range behind it. -/
def vastCalls : List SlotCall :=
  [.addReference "next", .placeRegion "bulk" ⟨18446744073709551600, 8, [], true⟩]

/-- The builder after these calls. -/
def vast : RecordBuilder where
  name := "vast"
  platform := .bits64
  slots := [⟨"next", .reference, 0, 8⟩, ⟨"bulk", .raw, 8, 18446744073709551600⟩]
  cursor := 18446744073709551608
  alignment := 8

theorem after_vastCalls :
    ({ name := "vast", platform := .bits64 } : RecordBuilder).after vastCalls = vast := rfl

/-- Seven more bytes fit, and so does the record; another word would end just outside, and nothing
at all fits at a multiple of sixteen. -/
theorem placed_tightly_vast :
    (vast.Suits (.placeRegion "tail" ⟨7, 8, [], true⟩) ∧ 8 < addressLimit ∧
        ¬ ∃ error, (vast.call (.placeRegion "tail" ⟨7, 8, [], true⟩)).result = .error error) ∧
      (vast.Suits (.addReference "last") ∧ 8 < addressLimit ∧
        ∃ error, (vast.call (.addReference "last")).result = .error error) ∧
      (vast.Suits (.placeRegion "mark" ⟨0, 16, [], true⟩) ∧ 16 < addressLimit ∧
        ∃ error, (vast.call (.placeRegion "mark" ⟨0, 16, [], true⟩)).result = .error error) ∧
      ∃ layout, vast.build.result = .ok layout := by
  have htight := placed_tightly "vast" .bits64 vastCalls
  rw [after_vastCalls] at htight
  obtain ⟨-, -, hcalls, hbuild, -⟩ := htight
  have hnext : NextMultiple vast.cursor 8 18446744073709551608 :=
    ⟨⟨2305843009213693951, rfl⟩, Nat.le_refl _, fun _ _ hle => hle⟩
  have hbeyond : NextMultiple vast.cursor 16 addressLimit := by
    refine ⟨⟨1152921504606846976, rfl⟩, by decide, fun other hdvd hle => ?_⟩
    simp only [vast, addressLimit] at hle ⊢
    omega
  have htail : vast.Suits (.placeRegion "tail" ⟨7, 8, [], true⟩) := ⟨by decide, rfl⟩
  have hlast : vast.Suits (.addReference "last") := by
    show "last" ∉ vast.slots.map (·.name)
    decide
  have hmark : vast.Suits (.placeRegion "mark" ⟨0, 16, [], true⟩) := ⟨by decide, rfl⟩
  refine ⟨⟨htail, by decide, fun herror => ?_⟩, ⟨hlast, by decide, ?_⟩, ⟨hmark, by decide, ?_⟩,
    hbuild.2 ⟨_, hnext, by decide⟩⟩
  · rcases (hcalls _ htail (by decide)).1.1 herror with hnot | ⟨offset, hoffset, hlarge⟩
    · exact hnot 3 rfl
    · obtain rfl := hoffset.unique hnext
      revert hlarge
      decide
  · exact (hcalls _ hlast (by decide)).1.2 (Or.inr ⟨_, hnext, Or.inr (by decide)⟩)
  · exact (hcalls _ hmark (by decide)).1.2 (Or.inr ⟨_, hbeyond, Or.inl (Nat.le_refl _)⟩)

end RecordBuilder

end UnboxedRecords
