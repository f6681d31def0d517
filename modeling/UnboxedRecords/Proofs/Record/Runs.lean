import UnboxedRecords.Record.Builder

/-!
# Runs of a record builder

A builder is used by a run of calls, some of which may be refused.  The calls differ in what they
check, but all that are accepted do the same: they put one slot behind the others.  `SlotCall.slot`
and `SlotCall.align` say which slot that is, and `RecordBuilder.call_cases` says that nothing else
happens: a refused call leaves the builder alone, and an accepted one leaves `RecordBuilder.push`.

A layout is `RecordLayout.Built` when it is what some run ends with.
-/

namespace UnboxedRecords

theorem Platform.isPowerOfTwo_wordBytes (platform : Platform) :
    isPowerOfTwo platform.wordBytes = true := by
  cases platform <;> decide

/-- A call on a record builder. -/
inductive SlotCall where
  /-- Add a reference slot. -/
  | addReference (name : String)
  /-- Embed an unboxed type. -/
  | embed (name : String) (type : UnboxedType)
  /-- Place a region of raw storage. -/
  | placeRegion (name : String) (region : Region)

namespace SlotCall

/-- The slot that the call makes at `offset`. -/
def slot (call : SlotCall) (platform : Platform) (offset : Nat) : Slot :=
  match call with
  | .addReference name => ⟨name, .reference, offset, platform.wordBytes⟩
  | .embed name type => ⟨name, .embedded type, offset, type.byteSize⟩
  | .placeRegion name region => ⟨name, .raw, offset, region.byteSize⟩

/-- The alignment at which the call places its slot. -/
def align (call : SlotCall) (platform : Platform) : Nat :=
  match call with
  | .addReference _ => platform.wordBytes
  | .embed _ type => type.region.placedAlignment
  | .placeRegion _ region => region.placedAlignment

@[simp] theorem slot_offset (call : SlotCall) (platform : Platform) (offset : Nat) :
    (call.slot platform offset).offset = offset := by
  cases call <;> rfl

end SlotCall

namespace RecordBuilder

/-- Carry out a call. -/
def call (builder : RecordBuilder) : SlotCall → Outcome RecordBuilder LayoutError Nat
  | .addReference name => builder.addReference name
  | .embed name type => builder.embed name type
  | .placeRegion name region => builder.placeRegion name region

/-- The builder after a run of calls.  A refused call does not end the run. -/
def after (builder : RecordBuilder) (calls : List SlotCall) : RecordBuilder :=
  calls.foldl (fun builder call => (builder.call call).state) builder

@[simp] theorem after_nil (builder : RecordBuilder) : builder.after [] = builder := rfl

@[simp] theorem after_cons (builder : RecordBuilder) (call : SlotCall) (calls : List SlotCall) :
    builder.after (call :: calls) = (builder.call call).state.after calls := rfl

/-- The calls of a run, each with its result. -/
def transcript (builder : RecordBuilder) :
    List SlotCall → List (SlotCall × Except LayoutError Nat)
  | [] => []
  | call :: calls =>
    (call, (builder.call call).result) :: (builder.call call).state.transcript calls

@[simp] theorem transcript_nil (builder : RecordBuilder) : builder.transcript [] = [] := rfl

@[simp] theorem transcript_cons (builder : RecordBuilder) (call : SlotCall)
    (calls : List SlotCall) :
    builder.transcript (call :: calls) =
      (call, (builder.call call).result) :: (builder.call call).state.transcript calls := rfl

theorem after_append (builder : RecordBuilder) (earlier later : List SlotCall) :
    builder.after (earlier ++ later) = (builder.after earlier).after later :=
  List.foldl_append

theorem transcript_append (builder : RecordBuilder) (earlier later : List SlotCall) :
    builder.transcript (earlier ++ later) =
      builder.transcript earlier ++ (builder.after earlier).transcript later := by
  induction earlier generalizing builder with
  | nil => rfl
  | cons call earlier ih =>
    rw [List.cons_append, transcript_cons, transcript_cons, ih, after_cons, List.cons_append]

/-- The builder with one more slot at its end. -/
def push (builder : RecordBuilder) (slot : Slot) (align : Nat) : RecordBuilder :=
  { builder with
    slots := builder.slots ++ [slot]
    cursor := slot.offset + slot.size
    alignment := max builder.alignment align }

/-- What is checked before a slot is taken up: its name is new, it sits at the first offset that
its alignment admits, and its end is an address. -/
structure Admits (builder : RecordBuilder) (slot : Slot) (align : Nat) : Prop where
  fresh : builder.hasSlot slot.name = false
  powerOfTwo : isPowerOfTwo align = true
  offset_eq : alignUp? builder.cursor align = some slot.offset
  fits : slot.offset + slot.size < addressLimit

/-- Whether a call is refused, or which slot it adds. -/
inductive CallOutcome (builder : RecordBuilder) (call : SlotCall) :
    Except LayoutError Nat → RecordBuilder → Prop
  | refused (error : LayoutError) : CallOutcome builder call (.error error) builder
  | placed (offset : Nat)
      (admits : builder.Admits (call.slot builder.platform offset) (call.align builder.platform)) :
      CallOutcome builder call (.ok offset)
        (builder.push (call.slot builder.platform offset) (call.align builder.platform))

/-- The last step of every call: the slot is refused or placed. -/
theorem reserve_cases (builder : RecordBuilder) (name : String) (kind : SlotKind)
    {size align : Nat} (hpow : isPowerOfTwo align = true) :
    (∃ error, (builder.reserve name kind size align).result = .error error ∧
        (builder.reserve name kind size align).state = builder) ∨
      ∃ offset, (builder.reserve name kind size align).result = .ok offset ∧
        builder.Admits ⟨name, kind, offset, size⟩ align ∧
        (builder.reserve name kind size align).state =
          builder.push ⟨name, kind, offset, size⟩ align := by
  rcases hresult : (builder.reserve name kind size align).result with error | offset
  · exact Or.inl ⟨error, rfl, state_reserve_of_error hresult⟩
  · obtain ⟨hfresh, halign, hfit, hstate⟩ := reserve_eq_ok hresult
    exact Or.inr ⟨offset, rfl, ⟨hfresh, hpow, halign, hfit⟩, hstate⟩

/-- The same for a region, whose alignment is checked and not known beforehand. -/
theorem placeRegion_cases (builder : RecordBuilder) (name : String) (region : Region) :
    (∃ error, (builder.placeRegion name region).result = .error error ∧
        (builder.placeRegion name region).state = builder) ∨
      ∃ offset, (builder.placeRegion name region).result = .ok offset ∧
        builder.Admits ⟨name, .raw, offset, region.byteSize⟩ region.placedAlignment ∧
        (builder.placeRegion name region).state =
          builder.push ⟨name, .raw, offset, region.byteSize⟩ region.placedAlignment := by
  rw [placeRegion]
  split
  · exact Or.inl ⟨_, rfl, rfl⟩
  · split
    · exact Or.inl ⟨_, rfl, rfl⟩
    · next hpow => exact builder.reserve_cases name .raw (by simpa using hpow)

/-- A new kind for the slot added last. -/
theorem setKind_push {builder : RecordBuilder} {slot : Slot} {align : Nat} {kind : SlotKind}
    (h : builder.hasSlot slot.name = false) :
    (builder.push slot align).setKind slot.name kind = builder.push { slot with kind } align := by
  have hmap : builder.slots.map
      (fun other => if other.name = slot.name then { other with kind } else other) =
        builder.slots := by
    refine (List.map_congr_left fun other hother => ?_).trans (List.map_id _)
    rw [hasSlot, List.any_eq_false] at h
    have hne : other.name ≠ slot.name := by simpa using h other hother
    rw [if_neg hne, id]
  simp only [setKind, push, List.map_append, hmap, List.map_cons, List.map_nil, if_true]

/-- To embed a type is to reserve a slot of that kind, once its platform and its alignment are
checked. -/
theorem embed_eq (builder : RecordBuilder) (name : String) (type : UnboxedType) :
    builder.embed name type =
      if type.platform ≠ builder.platform then
        .fail builder
          (.platformMismatch name builder.platform.wordBytes type.platform.wordBytes)
      else if !isPowerOfTwo type.region.placedAlignment then .fail builder (.overflow builder.name)
      else
        builder.reserve name (.embedded type) type.byteSize type.region.placedAlignment := by
  have hregion : type.region.isOpaque = true := type.isOpaque_eq_true
  have hsize : type.region.byteSize = type.byteSize := rfl
  rw [embed, placeRegion, hregion, Bool.not_true, if_neg Bool.false_ne_true, hsize]
  split
  · rfl
  · split
    · rfl
    · unfold reserve
      split
      · rfl
      · next hfresh =>
        split
        · rfl
        · next offset _ =>
          split
          · -- the kind of the new slot is put right after it was placed as plain raw storage
            have hkind : (builder.push ⟨name, .raw, offset, type.byteSize⟩
                type.region.placedAlignment).setKind name (.embedded type) =
                  builder.push ⟨name, .embedded type, offset, type.byteSize⟩
                    type.region.placedAlignment := setKind_push (by simpa using hfresh)
            exact congrArg (Outcome.ok · offset) hkind
          · rfl

/-- What the last step of a call does, the call does. -/
theorem CallOutcome.of_cases {builder : RecordBuilder} {call : SlotCall}
    {outcome : Outcome RecordBuilder LayoutError Nat}
    (h : (∃ error, outcome.result = .error error ∧ outcome.state = builder) ∨
      ∃ offset, outcome.result = .ok offset ∧
        builder.Admits (call.slot builder.platform offset) (call.align builder.platform) ∧
        outcome.state =
          builder.push (call.slot builder.platform offset) (call.align builder.platform)) :
    CallOutcome builder call outcome.result outcome.state := by
  rcases h with ⟨error, hresult, hstate⟩ | ⟨offset, hresult, hadmits, hstate⟩
  · rw [hresult, hstate]
    exact .refused error
  · rw [hresult, hstate]
    exact .placed offset hadmits

/-- Every call is refused and leaves the builder as it was, or adds its slot and does nothing
else. -/
theorem call_cases (builder : RecordBuilder) (call : SlotCall) :
    CallOutcome builder call (builder.call call).result (builder.call call).state := by
  cases call with
  | addReference name =>
    exact .of_cases
      (builder.reserve_cases name .reference builder.platform.isPowerOfTwo_wordBytes)
  | placeRegion name region => exact .of_cases (builder.placeRegion_cases name region)
  | embed name type =>
    rw [RecordBuilder.call, embed_eq]
    split
    · exact .refused _
    · split
      · exact .refused _
      · next hpow =>
        exact .of_cases (builder.reserve_cases name (.embedded type) (by simpa using hpow))

/-- What every accepted call keeps, every run keeps. -/
theorem after_induction {motive : RecordBuilder → Prop}
    (hpush : ∀ (builder : RecordBuilder) (call : SlotCall) (offset : Nat), motive builder →
      builder.Admits (call.slot builder.platform offset) (call.align builder.platform) →
      motive (builder.push (call.slot builder.platform offset) (call.align builder.platform)))
    (calls : List SlotCall) {builder : RecordBuilder} (h : motive builder) :
    motive (builder.after calls) := by
  induction calls generalizing builder with
  | nil => exact h
  | cons call calls ih =>
    rw [after_cons]
    apply ih
    have hcases := builder.call_cases call
    generalize (builder.call call).result = result at hcases
    generalize (builder.call call).state = next at hcases ⊢
    cases hcases with
    | refused _ => exact h
    | placed offset hadmits => exact hpush builder call offset h hadmits

end RecordBuilder

/-- A layout that some run of a builder ends with. -/
def RecordLayout.Built (layout : RecordLayout) : Prop :=
  ∃ (name : String) (platform : Platform) (calls : List SlotCall),
    (({ name, platform } : RecordBuilder).after calls).build.result = .ok layout

end UnboxedRecords
